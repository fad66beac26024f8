import StageLens.Proofs.Failing
import StageLens.Proofs.Host.Way

/-!
# What making directories changes

Making directories adds to the tree and takes nothing away: `Grown` says that everything that was
there is there still, that the host is the same otherwise, and that names which have been given out
stay given out. What is added are directories, of the names in the paths that were asked for
(`Furnished`).
-/

namespace StageLens.Host

open StageLens.Tree (Reached)

/-- A host that has all that it had, in the same environment. -/
structure Grown (h h' : Host) : Prop where
  tree : h.tree.Grows h'.tree
  proper : h.tree.Proper → h'.tree.Proper
  cwd : h'.cwd = h.cwd
  environment : h'.environment = h.environment
  named : h.named ≤ h'.named

variable {h h' h'' : Host} {p : Bytes} {n : Node} {D : Place} {name : Bytes} {follow : Bool}

theorem Grown.refl (h : Host) : h.Grown h := ⟨.refl _, id, rfl, rfl, Nat.le_refl _⟩

theorem Grown.trans (h₁ : h.Grown h') (h₂ : h'.Grown h'') : h.Grown h'' where
  tree := h₁.tree.trans h₂.tree
  proper := fun ht => h₂.proper (h₁.proper ht)
  cwd := h₂.cwd.trans h₁.cwd
  environment := h₂.environment.trans h₁.environment
  named := Nat.le_trans h₁.named h₂.named

theorem grown_put (hdir : h.tree.get? D = some .directory)
    (hnew : h.tree.get? (D ++ [name]) = none) :
    h.Grown (h.put (D ++ [name]) n) where
  tree := Tree.grows_put (by simp) hnew
  proper := fun ht => ht.put hdir hnew
  cwd := rfl
  environment := rfl
  named := Nat.le_refl _

theorem followFrom_of_locate {r : Reached} (hr : h.locate follow p = .ok r) :
    p.contains 0 = false ∧ p.length ≤ pathLimit ∧
      followFrom h.tree follow linkLimit (if Path.isAbsolute p then [] else h.cwd) (steps p) =
        .ok r := by
  unfold locate at hr
  split at hr
  · cases hr
  · split at hr
    · cases hr
    · rename_i hnul
      split at hr
      · cases hr
      · rename_i hlimit
        exact ⟨by simpa using hnul, by omega, hr⟩

theorem locate_of_followFrom {r : Reached} (hne : p ≠ []) (hnul : p.contains 0 = false)
    (hlimit : p.length ≤ pathLimit)
    (hr : followFrom h.tree follow linkLimit (if Path.isAbsolute p then [] else h.cwd) (steps p) =
      .ok r) : h.locate follow p = .ok r := by
  unfold locate
  rw [if_neg (by simpa using hne), hnul, if_neg Bool.false_ne_true, if_neg (by omega)]
  exact hr

/-- Where nothing is at another place, all paths lead to where they did. -/
theorem locate_congr (hcwd : h'.cwd = h.cwd) (htree : ∀ q, h'.tree.get? q = h.tree.get? q)
    (follow : Bool) (p : Bytes) : h'.locate follow p = h.locate follow p := by
  unfold locate
  rw [hcwd, (followFrom_congr fun q _ => htree q).1]

theorem grown_of_missing (hm : h.locate follow p = .ok (.missing D name)) :
    h.Grown (h.put (D ++ [name]) n) := by
  obtain ⟨hdir, -, hnew⟩ := missing_of_followFrom (followFrom_of_locate hm).2.2
  exact grown_put hdir hnew

theorem steps_eq_parts (hp : Path.endsInSlash p = false) : steps p = Path.parts p := by
  rw [steps, hp, if_neg Bool.false_ne_true, List.append_nil]

theorem dropWhile_slash_of_not_endsInSlash (hp : Path.endsInSlash p = false) :
    (p.reverse.dropWhile (· == Path.slash)).reverse = p := by
  rcases List.eq_nil_or_concat p with rfl | ⟨front, last, rfl⟩
  · rfl
  · rw [List.concat_eq_append] at hp ⊢
    have hlast : (last == Path.slash) = false := by simpa [Path.endsInSlash] using hp
    rw [List.reverse_append, List.reverse_singleton, List.singleton_append,
      List.dropWhile_cons_of_neg (by simp [hlast]), List.reverse_cons, List.reverse_reverse]

/-- A directory that is made is put where its path leads, with the slashes at its end taken off. -/
theorem put_of_makeDirectory (hm : h.makeDirectory p = .ok h') :
    ∃ p' D name, h.locate false p' = .ok (.missing D name) ∧
      h' = h.put (D ++ [name]) .directory ∧ (Path.endsInSlash p = false → p' = p) := by
  obtain ⟨r, hr, hm⟩ := bind_eq_ok_iff.mp hm
  cases r with
  | there place node => cases hm
  | missing D name =>
    refine ⟨_, D, name, hr, ?_, fun hp => ?_⟩
    · dsimp only at hm
      split at hm
      · cases hm
      · exact (Except.ok.inj hm).symm
    · split
      · rfl
      · exact dropWhile_slash_of_not_endsInSlash hp

theorem grown_of_makeDirectory (hm : h.makeDirectory p = .ok h') : h.Grown h' := by
  obtain ⟨p', D, name, hmissing, rfl, -⟩ := put_of_makeDirectory hm
  exact grown_of_missing hmissing

/-- Some of these directories are made, one after the other. -/
inductive Making (ps : List Bytes) (h : Host) : Host → Prop
  | start : Making ps h h
  | make {h₁ h₂ : Host} {p : Bytes} : Making ps h h₁ → p ∈ ps → h₁.makeDirectory p = .ok h₂ →
      Making ps h h₂

variable {ps ps' : List Bytes}

theorem Making.mono (hsub : ps ⊆ ps') (hm : Making ps h h') : Making ps' h h' := by
  induction hm with
  | start => exact .start
  | make _ hp hmake ih => exact ih.make (hsub hp) hmake

theorem Making.ensureDirectory (hm : Making ps h h') (hp : p ∈ ps)
    (he : h'.ensureDirectory p = .ok h'') : Making ps h h'' := by
  unfold Host.ensureDirectory at he
  split at he
  · rename_i h₁ hmake
    cases he
    exact hm.make hp hmake
  · split at he
    · cases he
      exact hm
    · cases he

/-- Making a chain of directories comes to making some of them, whether or not all of them can be
made. -/
theorem making_ensureChain (h : Host) (ps : List Bytes) : Making ps h (h.ensureChain ps).2 := by
  induction ps with
  | nil => exact .start
  | cons p ps ih =>
    have hp : p ∈ p :: ps := List.mem_cons_self
    have habove := ih.mono (List.subset_cons_self p ps)
    unfold ensureChain
    split
    · rename_i h₁ hmake
      exact Making.start.make hp hmake
    · split
      · rename_i hchain
        rw [hchain] at habove
        exact habove
      · rename_i hchain
        rw [hchain] at habove
        split
        · rename_i he
          exact habove.ensureDirectory hp he
        · exact habove
    · exact .start

theorem Making.grown (hm : Making ps h h') : h.Grown h' := by
  induction hm with
  | start => exact .refl h
  | make _ _ hmake ih => exact ih.trans (grown_of_makeDirectory hmake)

/-- **Directories that are made add to the host and change nothing else**, whether or not all of
them can be made. -/
theorem grown_ensureChain (h : Host) (ps : List Bytes) : h.Grown (h.ensureChain ps).2 :=
  (making_ensureChain h ps).grown

/-! ## Which directories are made -/

/-- What a host has more than another are directories of these names. -/
def Furnished (names : List Bytes) (h h' : Host) : Prop :=
  ∀ q m, h.tree.get? q = none → h'.tree.get? q = some m →
    m = .directory ∧ ∃ name ∈ names, q.getLast? = some name

variable {names : List Bytes}

theorem Furnished.refl (names : List Bytes) (h : Host) : Furnished names h h := by
  intro q m hnone hsome
  rw [hnone] at hsome
  cases hsome

theorem Furnished.trans (h₁ : Furnished names h h') (h₂ : Furnished names h' h'')
    (hgrown : h'.Grown h'') : Furnished names h h'' := by
  intro q m hnone hsome
  cases hq : h'.tree.get? q with
  | none => exact h₂ q m hq hsome
  | some m' =>
    obtain ⟨rfl, hname⟩ := h₁ q m' hnone hq
    rw [hgrown.tree q _ hq] at hsome
    exact ⟨(Option.some.inj hsome).symm, hname⟩

/-- A directory that is made has the last name of its path. -/
theorem furnished_of_makeDirectory (hslash : Path.endsInSlash p = false)
    (hparts : ∀ name ∈ Path.parts p, name ∈ names) (hm : h.makeDirectory p = .ok h') :
    Furnished names h h' := by
  obtain ⟨p', D, name, hlocate, rfl, hsame⟩ := put_of_makeDirectory hm
  rw [hsame hslash] at hlocate
  obtain ⟨-, -, hfollow⟩ := followFrom_of_locate hlocate
  have hlast := getLast?_of_followFrom hfollow
  rw [steps_eq_parts hslash] at hlast
  intro q m hnone hsome
  have hput : (h.tree.put (D ++ [name]) .directory).get? q = some m := hsome
  rw [Tree.get?_put (by simp)] at hput
  split at hput
  · rename_i hq
    rw [hq]
    exact ⟨(Option.some.inj hput).symm, name, hparts name (List.mem_of_getLast? hlast), by simp⟩
  · rw [hnone] at hput
    cases hput

theorem Making.furnished
    (hps : ∀ p ∈ ps, Path.endsInSlash p = false ∧ ∀ name ∈ Path.parts p, name ∈ names)
    (hm : Making ps h h') : Furnished names h h' := by
  induction hm with
  | start => exact .refl names h
  | make _ hp hmake ih =>
    obtain ⟨hslash, hparts⟩ := hps _ hp
    exact ih.trans (furnished_of_makeDirectory hslash hparts hmake) (grown_of_makeDirectory hmake)

/-- **Directories that are made have names from their paths**, whether or not all can be made. -/
theorem furnished_ensureChain (h : Host)
    (hps : ∀ p ∈ ps, Path.endsInSlash p = false ∧ ∀ name ∈ Path.parts p, name ∈ names) :
    Furnished names h (h.ensureChain ps).2 :=
  (making_ensureChain h ps).furnished hps

/-! ## Writing files -/

/-- A file that is missing is made when it is written. -/
theorem put_of_write {contents : Bytes} (hm : h.find p = .ok (.missing D name))
    (hw : h.write p contents = .ok h') : h' = h.put (D ++ [name]) (.file contents false) := by
  obtain ⟨r, hr, hw⟩ := bind_eq_ok_iff.mp hw
  rw [hm] at hr
  cases hr
  obtain ⟨⟨place, node⟩, hplace, hw⟩ := bind_eq_ok_iff.mp hw
  cases hplace
  dsimp only at hw
  split at hw
  · cases hw
  · exact (Except.ok.inj hw).symm

/-- Writing a file gives out no name, whatever is written and wherever. -/
theorem named_of_write {contents : Bytes} (hw : h.write p contents = .ok h') :
    h'.named = h.named := by
  obtain ⟨r, -, hw⟩ := bind_eq_ok_iff.mp hw
  rcases r with ⟨_, ⟨⟩⟩ | _
  all_goals
    obtain ⟨⟨place, node⟩, -, hw⟩ := bind_eq_ok_iff.mp hw
    dsimp only at hw
    split at hw
    · cases hw
    · obtain rfl := Except.ok.inj hw
      rfl

end StageLens.Host
