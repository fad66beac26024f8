import StageLens.Proofs.Workspace.Names

/-!
# Workspaces under other names

Which name a workspace gets makes no difference to whether it can be made. What comes of making one
in a directory can be told without its name (`attempt_eq`): the directory cannot be reached, the
system refuses to make the workspace in it or to write the source, or the path of the source is too
long. So two hosts that differ in the names they give out make workspaces alike, or fail for the
same cause (`sameOutcome_create`).
-/

namespace StageLens

namespace Host

/-- The host with other names to give out. -/
def numbered (h : Host) (k : Nat) : Host := { h with named := k }

/-- Hosts that differ in no more than the names that they give out. -/
def Alike (h h' : Host) : Prop := h' = h.numbered h'.named

variable {h : Host} {k : Nat} {p : Bytes}

/-! ## Names that are given out do not matter -/

theorem makeDirectory_numbered (h : Host) (k : Nat) (p : Bytes) :
    (h.numbered k).makeDirectory p = (h.makeDirectory p).map (·.numbered k) := by
  have hlocate : ∀ p, (h.numbered k).locate false p = h.locate false p := fun _ => rfl
  have hrefuses : (h.numbered k).refuses = h.refuses := rfl
  unfold makeDirectory
  dsimp only [bind, Except.bind]
  rw [hlocate, hrefuses]
  cases h.locate false (if (Path.parts p).isEmpty then p
    else (p.reverse.dropWhile (· == Path.slash)).reverse) with
  | error e => rfl
  | ok reached =>
    cases reached with
    | there place node => rfl
    | missing directory name =>
      dsimp only
      cases h.refuses (.makeDirectory (directory ++ [name])) <;> rfl

theorem write_numbered (h : Host) (k : Nat) (p contents : Bytes) :
    (h.numbered k).write p contents = (h.write p contents).map (·.numbered k) := by
  have hfind : (h.numbered k).find p = h.find p := rfl
  have hrefuses : (h.numbered k).refuses = h.refuses := rfl
  unfold write
  dsimp only [bind, Except.bind, pure, Except.pure]
  rw [hfind, hrefuses]
  rcases h.find p with e | ⟨place, node⟩ | ⟨directory, name⟩
  · rfl
  · cases node with
    | file _ x =>
      dsimp only
      cases h.refuses (.write place) <;> rfl
    | null =>
      dsimp only
      cases h.refuses (.write place) <;> rfl
    | _ => rfl
  · dsimp only
    cases h.refuses (.write (directory ++ [name])) <;> rfl

theorem ensureDirectory_numbered (h : Host) (k : Nat) (p : Bytes) :
    (h.numbered k).ensureDirectory p = (h.ensureDirectory p).map (·.numbered k) := by
  unfold ensureDirectory
  rw [makeDirectory_numbered]
  cases h.makeDirectory p with
  | ok h => rfl
  | error e =>
    show (if h.isDirectory p then _ else _) = Except.map _ (if h.isDirectory p then _ else _)
    split <;> rfl

theorem ensureChain_numbered (h : Host) (k : Nat) (ps : List Bytes) :
    (h.numbered k).ensureChain ps =
      ((h.ensureChain ps).1, (h.ensureChain ps).2.numbered k) := by
  induction ps with
  | nil => rfl
  | cons p ps ih =>
    unfold ensureChain
    rw [makeDirectory_numbered, ih]
    cases h.makeDirectory p with
    | ok h => rfl
    | error e =>
      cases e with
      | notFound =>
        dsimp only [Except.map]
        rcases h.ensureChain ps with ⟨e | u, h₁⟩
        · rfl
        · dsimp only
          rw [ensureDirectory_numbered]
          cases h₁.ensureDirectory p <;> rfl
      | _ => rfl

theorem write_of_error {contents : Bytes} {e : HostError} (hfind : h.find p = .error e) :
    h.write p contents = .error e := by
  unfold write
  rw [hfind]
  rfl

/-- A file that is missing is made when it is written, unless the system refuses. -/
theorem write_of_missing {contents : Bytes} {D : Place} {name : Bytes}
    (hfind : h.find p = .ok (.missing D name)) :
    h.write p contents = match h.refuses (.write (D ++ [name])) with
      | some e => .error e
      | none => .ok (h.put (D ++ [name]) (.file contents false)) := by
  unfold write
  rw [hfind]
  rfl

theorem refuses_of_makeDirectory {h' : Host} (hm : h.makeDirectory p = .ok h') :
    h'.refuses = h.refuses := by
  obtain ⟨_, _, _, _, rfl, _⟩ := put_of_makeDirectory hm
  rfl

theorem Making.refuses {ps : List Bytes} {h' : Host} (hm : Making ps h h') :
    h'.refuses = h.refuses := by
  induction hm with
  | start => rfl
  | make _ _ hmake ih => exact (refuses_of_makeDirectory hmake).trans ih

/-- Making directories does not change what else is refused. -/
theorem refuses_ensureChain (h : Host) (ps : List Bytes) :
    (h.ensureChain ps).2.refuses = h.refuses :=
  (making_ensureChain h ps).refuses

end Host

namespace Workspace

open StageLens.Host (followFrom linkLimit pathLimit nameLimit isLookedUp)
open StageLens.Tree (Reached)

/-- Failures with the same cause, at workspaces of the same directory if they name any. -/
inductive Failure.Alike : Failure → Failure → Prop
  | same (f : Failure) : Alike f f
  | renamed (cause : HostError) (dir : Bytes) (n m : Nat) :
      Alike ⟨cause, some (Path.join dir (nameOf n))⟩ ⟨cause, some (Path.join dir (nameOf m))⟩

/-- Workspaces that could be made, or could not be made for the same cause. -/
inductive SameOutcome : Except Failure Workspace → Except Failure Workspace → Prop
  | made (w w' : Workspace) : SameOutcome (.ok w) (.ok w')
  | failed (f f' : Failure) : f.Alike f' → SameOutcome (.error f) (.error f')

/-- A host whose refusals do not tell the names of workspaces apart. -/
structure BlindToNames (h : Host) : Prop where
  directory : ∀ D n m, h.refuses (.makeDirectory (D ++ [nameOf n])) =
    h.refuses (.makeDirectory (D ++ [nameOf m]))
  source : ∀ D n m, h.refuses (.write (D ++ [nameOf n] ++ [sourceName])) =
    h.refuses (.write (D ++ [nameOf m] ++ [sourceName]))

/-- The number of the next workspace in a directory. -/
def nextNumber (h : Host) (dir : Bytes) : Nat :=
  freshNumber ((h.entries dir).toOption.getD []) h.named

/-- The name of the next workspace. -/
def nextName (h : Host) (scratchRoot : Option Bytes) : Bytes :=
  nameOf (nextNumber (prepareRoot h scratchRoot).2 (scratchDirectory h scratchRoot))

/-- What comes of a workspace of that number in a directory. -/
def attempt (h : Host) (dir : Bytes) (source : String) (n : Nat) : Except Failure Workspace :=
  let path := Path.join dir (nameOf n)
  match h.locate false path with
  | .error e => .error ⟨e, some path⟩
  | .ok (.there _ _) => .error ⟨.alreadyExists, some path⟩
  | .ok (.missing above name) =>
    match h.makeDirectory path with
    | .error e => .error ⟨e, some path⟩
    | .ok h =>
      let w : Workspace := ⟨path, above ++ [name]⟩
      match h.write w.sourcePath (Text.bytes source) with
      | .ok _ => .ok w
      | .error e => .error ⟨e, none⟩

variable {h h' : Host} {dir : Bytes} {D : Place} {source : String} {n m k : Nat}
variable {scratchRoot : Option Bytes}

/-! ## Names in paths -/

theorem noNul_nameOf (n : Nat) : (nameOf n).contains 0 = false := by
  have hdigit : ∀ k : Fin 16, (0 : UInt8) ∉ String.utf8EncodeChar (Nat.digitChar k) := by
    decide +kernel
  have hprefix : (0 : UInt8) ∉ namePrefix := by decide +kernel
  rw [← Bool.not_eq_true, List.contains_iff_mem]
  intro h
  rcases List.mem_append.mp h with h | h
  · exact hprefix h
  · obtain ⟨c, hc, hzero⟩ := List.mem_flatMap.mp h
    rcases List.mem_append.mp hc with hc | hc
    · rw [(List.mem_replicate.mp hc).2] at hzero
      exact hdigit 0 hzero
    · obtain ⟨k, hk, rfl⟩ := exists_digit_of_mem_toDigits hc
      exact hdigit ⟨k, hk⟩ hzero

theorem nameOf_ne_dots (n : Nat) : nameOf n ≠ Path.here ∧ nameOf n ≠ Path.above := by
  have hlong : 2 < (nameOf n).length := by
    have hprefix : namePrefix.length = 9 := by decide +kernel
    unfold nameOf
    rw [List.length_append, hprefix]
    omega
  constructor
  · intro h
    rw [h] at hlong
    exact absurd hlong (by decide)
  · intro h
    rw [h] at hlong
    exact absurd hlong (by decide)

theorem contains_zero_join {name : Bytes} (hname : name.contains 0 = false) (d : Bytes)
    (hn : Path.IsName name) : (Path.join d name).contains 0 = d.contains 0 := by
  unfold Path.join
  rw [if_neg (by rw [Path.not_isAbsolute_name hn]; exact Bool.false_ne_true)]
  split
  · rename_i hempty
    rw [List.isEmpty_iff.mp hempty, hname]
    rfl
  · split
    · rw [List.contains_append, hname, Bool.or_false]
    · rw [List.contains_append, List.contains_cons, hname, Bool.or_false]
      exact Bool.or_false _

theorem length_join {a b : Bytes} (d : Bytes) (ha : Path.IsName a) (hb : Path.IsName b)
    (hlength : a.length = b.length) : (Path.join d a).length = (Path.join d b).length := by
  unfold Path.join
  rw [Path.not_isAbsolute_name ha, Path.not_isAbsolute_name hb]
  cases d.isEmpty with
  | true => exact hlength
  | false => cases Path.endsInSlash d <;> simp [hlength]

/-- The way to a name in a directory. -/
theorem locate_join (hd : Path.isAbsolute dir = true) (n : Nat) :
    h.locate false (Path.join dir (nameOf n)) =
      if dir.contains 0 then .error .nulInPath
      else if pathLimit < (Path.join dir (nameOf n)).length then .error .nameTooLong
      else followFrom h.tree false linkLimit [] (Path.parts dir ++ [nameOf n]) := by
  have habs := Path.isAbsolute_join hd (nameOf n)
  have hne := Path.ne_nil_of_isAbsolute habs
  unfold Host.locate
  rw [if_neg (by simpa using hne), contains_zero_join (noNul_nameOf n) dir (isName_nameOf n), habs,
    if_pos rfl, Path.steps_join (Path.ne_nil_of_isAbsolute hd) (isName_nameOf n)]

/-- A name that is not there is missing in its directory. -/
theorem followFrom_name {hops : Nat} (hnew : h.tree.get? (D ++ [nameOf n]) = none) :
    followFrom h.tree false hops D [nameOf n] =
      if h.tree.get? D ≠ some .directory then .error .notDirectory
      else if nameLimit < (nameOf n).length then .error .nameTooLong
      else .ok (.missing D (nameOf n)) := by
  obtain ⟨hhere, habove⟩ := nameOf_ne_dots n
  rw [Host.followFrom, Host.descend, if_neg hhere, if_neg habove, hnew]
  by_cases hdirectory : h.tree.get? D ≠ some .directory
  · rw [if_pos hdirectory, if_pos hdirectory]
  · rw [if_neg hdirectory, if_neg hdirectory]
    by_cases hlimit : nameLimit < (nameOf n).length
    · rw [if_pos hlimit, if_pos hlimit]
    · rw [if_neg hlimit, if_neg hlimit]
      rfl

/-! ## What comes of an attempt -/

/-- The workspace of that number in a directory. -/
def numbered (dir : Bytes) (D : Place) (n : Nat) : Workspace :=
  ⟨Path.join dir (nameOf n), D ++ [nameOf n]⟩

/-- A workspace in a directory that can be reached: the system refuses to make it or to write its
source, the path of the source is too long, or it is made. -/
def settled (h : Host) (dir : Bytes) (D : Place) (n : Nat) : Except Failure Workspace :=
  let w := numbered dir D n
  match h.refuses (.makeDirectory w.place) with
  | some e => .error ⟨e, some w.path⟩
  | none =>
    if pathLimit < w.sourcePath.length then .error ⟨.nameTooLong, none⟩
    else match h.refuses (.write (w.place ++ [sourceName])) with
      | some e => .error ⟨e, none⟩
      | none => .ok w

/-- A directory that is missing is made, unless the system refuses. -/
theorem makeDirectory_join (hd : Path.isAbsolute dir = true)
    (hlocate : h.locate false (Path.join dir (nameOf n)) = .ok (.missing D (nameOf n))) :
    h.makeDirectory (Path.join dir (nameOf n)) =
      match h.refuses (.makeDirectory (D ++ [nameOf n])) with
      | some e => .error e
      | none => .ok (h.put (D ++ [nameOf n]) .directory) := by
  have hslash := Path.not_endsInSlash_join (Path.ne_nil_of_isAbsolute hd) (isName_nameOf n)
  have hsame : (if (Path.parts (Path.join dir (nameOf n))).isEmpty then Path.join dir (nameOf n)
      else ((Path.join dir (nameOf n)).reverse.dropWhile (· == Path.slash)).reverse) =
        Path.join dir (nameOf n) := by
    rw [Host.dropWhile_slash_of_not_endsInSlash hslash, ite_self]
  unfold Host.makeDirectory
  dsimp only
  rw [hsame, hlocate]
  rfl

/-- In a new directory nothing but the length of its path is in the way of the source. -/
theorem find_sourcePath (hd : Path.isAbsolute dir = true) (ht : h.tree.Proper)
    (hlocate : h.locate false (Path.join dir (nameOf n)) = .ok (.missing D (nameOf n))) :
    (h.put (numbered dir D n).place .directory).find (numbered dir D n).sourcePath =
      if pathLimit < (numbered dir D n).sourcePath.length then .error .nameTooLong
      else .ok (.missing (numbered dir D n).place sourceName) := by
  obtain ⟨hnul, -, hfollow⟩ := Host.followFrom_of_locate hlocate
  rw [Path.isAbsolute_join hd, if_pos rfl,
    Path.steps_join (Path.ne_nil_of_isAbsolute hd) (isName_nameOf n)] at hfollow
  obtain ⟨hdirectory, hup, hnew⟩ := Host.missing_of_followFrom hfollow
  obtain ⟨E, node, hfound⟩ := Host.exists_of_followFrom_append (List.cons_ne_nil _ _) hfollow
  obtain ⟨left, hleft, -⟩ := Host.followFrom_append false (List.cons_ne_nil (nameOf n) []) hfound
  rw [hleft] at hfollow
  obtain ⟨rfl, -⟩ := Host.eq_of_followFrom_singleton hfollow
  have hplace : (numbered dir D n).place = D ++ [nameOf n] := rfl
  obtain ⟨hgrown, hmade, hmissing⟩ := put_place_spec hplace ht hdirectory hnew
  -- The way to the directory is the same as before, since all places on it were there.
  have hsome := Host.isSome_of_followFrom ht rfl hfound
  obtain ⟨hsame, -⟩ := Host.followFrom_congr fun q hq => hgrown.tree.get? (hsome q hq)
  rw [hfound] at hsame
  have hway := followFrom_sourcePath (w := numbered dir D n) hd rfl hplace hsame
    (hgrown.tree _ _ hdirectory) hup hmade hmissing
  obtain ⟨-, habs⟩ := steps_sourcePath (w := numbered dir D n) hd (isName_nameOf n) rfl
  have hzero : (numbered dir D n).sourcePath.contains 0 = false := by
    rw [sourcePath, contains_zero_join (by decide +kernel) _ isName_sourceName]
    exact hnul
  unfold Host.find Host.locate
  rw [if_neg (by simpa using Path.ne_nil_of_isAbsolute habs), hzero, if_neg Bool.false_ne_true,
    habs, if_pos rfl, hway]

/-- **What comes of a workspace can be told from its directory.** -/
theorem attempt_eq (hd : Path.isAbsolute dir = true) (ht : h.tree.Proper)
    (hlocate : h.locate false (Path.join dir (nameOf n)) = .ok (.missing D (nameOf n))) :
    attempt h dir source n = settled h dir D n := by
  have hplace : (numbered dir D n).place = D ++ [nameOf n] := rfl
  have hfind := find_sourcePath hd ht hlocate
  rw [hplace] at hfind
  unfold attempt settled
  dsimp only
  rw [hlocate, makeDirectory_join hd hlocate, hplace]
  cases h.refuses (.makeDirectory (D ++ [nameOf n])) with
  | some e => rfl
  | none =>
    show (match (h.put (D ++ [nameOf n]) .directory).write (numbered dir D n).sourcePath _ with
      | Except.ok _ => Except.ok _
      | Except.error e => Except.error _) = _
    by_cases hlimit : pathLimit < (numbered dir D n).sourcePath.length
    · rw [if_pos hlimit] at hfind ⊢
      rw [Host.write_of_error hfind]
    · rw [if_neg hlimit] at hfind ⊢
      rw [Host.write_of_missing hfind]
      have hrefuses : (h.put (D ++ [nameOf n]) .directory).refuses = h.refuses := rfl
      rw [hrefuses]
      cases h.refuses (.write (D ++ [nameOf n] ++ [sourceName])) <;> rfl

theorem attempt_of_error {e : HostError}
    (he : h.locate false (Path.join dir (nameOf n)) = .error e) :
    attempt h dir source n = .error ⟨e, some (Path.join dir (nameOf n))⟩ := by
  unfold attempt
  dsimp only
  rw [he]

/-! ## Two names -/

/-- A name that is not listed is not there. -/
theorem get?_of_notMem_entries (hd : Path.isAbsolute dir = true) (ht : h.tree.Proper)
    (hnul : dir.contains 0 = false) (hlimit : dir.length ≤ pathLimit)
    (hfound : followFrom h.tree true linkLimit [] (Path.parts dir) = .ok (.there D .directory))
    (hnew : nameOf n ∉ (h.entries dir).toOption.getD []) :
    h.tree.get? (D ++ [nameOf n]) = none := by
  rw [(Host.entries_eq_ok_iff ht hd).mpr ⟨⟨hnul, hlimit⟩, D, hfound, rfl⟩] at hnew
  have hnot : nameOf n ∉ h.tree.names D := hnew
  rw [Tree.mem_names_iff] at hnot
  simpa using hnot

/-- Of two names that are not taken and equally long, both can be located or none. -/
theorem locate_alike (hd : Path.isAbsolute dir = true) (ht : h.tree.Proper)
    (hlength : (nameOf n).length = (nameOf m).length)
    (hn : nameOf n ∉ (h.entries dir).toOption.getD [])
    (hm : nameOf m ∉ (h.entries dir).toOption.getD []) :
    (∃ e, h.locate false (Path.join dir (nameOf n)) = .error e ∧
      h.locate false (Path.join dir (nameOf m)) = .error e) ∨
    ∃ D, h.locate false (Path.join dir (nameOf n)) = .ok (.missing D (nameOf n)) ∧
      h.locate false (Path.join dir (nameOf m)) = .ok (.missing D (nameOf m)) := by
  have hpath := length_join dir (isName_nameOf n) (isName_nameOf m) hlength
  rw [locate_join hd, locate_join hd, ← hpath]
  cases hnul : dir.contains 0 with
  | true => exact .inl ⟨_, rfl, rfl⟩
  | false =>
    rw [if_neg Bool.false_ne_true, if_neg Bool.false_ne_true]
    by_cases hlong : pathLimit < (Path.join dir (nameOf n)).length
    · rw [if_pos hlong, if_pos hlong]
      exact .inl ⟨_, rfl, rfl⟩
    rw [if_neg hlong, if_neg hlong]
    by_cases hfound : ∃ D node,
        followFrom h.tree true linkLimit [] (Path.parts dir) = .ok (.there D node)
    · obtain ⟨D, node, hfound⟩ := hfound
      obtain ⟨_, hleft, -⟩ := Host.followFrom_append false (List.cons_ne_nil (nameOf n) []) hfound
      obtain ⟨_, hright, -⟩ := Host.followFrom_append false (List.cons_ne_nil (nameOf m) []) hfound
      have hnode := Host.get?_of_followFrom ht rfl hfound
      have hprefix := (Path.prefix_join dir (isName_nameOf n)).length_le
      have hnew : ∀ k, nameOf k ∉ (h.entries dir).toOption.getD [] →
          h.tree.get? (D ++ [nameOf k]) = none := by
        intro k hk
        by_cases hdirectory : node = .directory
        · subst hdirectory
          exact get?_of_notMem_entries hd ht hnul (by omega) hfound hk
        · -- Nothing is below what is no directory.
          by_contra hsome
          obtain ⟨below, hbelow⟩ := Option.ne_none_iff_exists'.mp hsome
          rw [ht _ _ _ hbelow] at hnode
          exact hdirectory (Option.some.inj hnode).symm
      rw [hleft, hright, followFrom_name (hnew n hn), followFrom_name (hnew m hm), ← hlength]
      split
      · exact .inl ⟨_, rfl, rfl⟩
      · split
        · exact .inl ⟨_, rfl, rfl⟩
        · exact .inr ⟨D, rfl, rfl⟩
    · refine .inl (Host.followFrom_append_error (by simp) (by simp) fun D node h => ?_)
      exact hfound ⟨D, node, h⟩

/-- The paths of sources under equally long names are equally long. -/
theorem length_sourcePath (hd : Path.isAbsolute dir = true)
    (hlength : (nameOf n).length = (nameOf m).length) :
    (numbered dir D n).sourcePath.length = (numbered dir D m).sourcePath.length := by
  have hpath := length_join dir (isName_nameOf n) (isName_nameOf m) hlength
  have hjoin : ∀ k, (numbered dir D k).sourcePath =
      Path.join dir (nameOf k) ++ Path.slash :: sourceName := by
    intro k
    have hne := Path.ne_nil_of_isAbsolute (Path.isAbsolute_join hd (nameOf k))
    have hslash := Path.not_endsInSlash_join (Path.ne_nil_of_isAbsolute hd) (isName_nameOf k)
    show Path.join (Path.join dir (nameOf k)) sourceName = _
    unfold Path.join at hne hslash ⊢
    rw [if_neg (by rw [Path.not_isAbsolute_name isName_sourceName]; exact Bool.false_ne_true),
      if_neg (by simpa using hne), if_neg (by rw [hslash]; exact Bool.false_ne_true)]
  rw [hjoin, hjoin, List.length_append, List.length_append, hpath]

theorem sameOutcome_settled (hd : Path.isAbsolute dir = true) (hblind : BlindToNames h)
    (hlength : (nameOf n).length = (nameOf m).length) :
    SameOutcome (settled h dir D n) (settled h dir D m) := by
  have hdirectory : h.refuses (.makeDirectory (numbered dir D n).place) =
      h.refuses (.makeDirectory (numbered dir D m).place) := hblind.directory D n m
  have hsource : h.refuses (.write ((numbered dir D n).place ++ [sourceName])) =
      h.refuses (.write ((numbered dir D m).place ++ [sourceName])) := hblind.source D n m
  unfold settled
  dsimp only
  rw [hdirectory, hsource, length_sourcePath hd hlength]
  cases h.refuses (.makeDirectory (numbered dir D m).place) with
  | some e => exact .failed _ _ (.renamed e dir n m)
  | none =>
    dsimp only
    split
    · exact .failed _ _ (.same _)
    · cases h.refuses (.write ((numbered dir D m).place ++ [sourceName])) with
      | some e => exact .failed _ _ (.same _)
      | none => exact .made _ _

/-- Under two names that are not taken and equally long, the same comes of an attempt. -/
theorem sameOutcome_attempt (hd : Path.isAbsolute dir = true) (ht : h.tree.Proper)
    (hblind : BlindToNames h) (hlength : (nameOf n).length = (nameOf m).length)
    (hn : nameOf n ∉ (h.entries dir).toOption.getD [])
    (hm : nameOf m ∉ (h.entries dir).toOption.getD []) :
    SameOutcome (attempt h dir source n) (attempt h dir source m) := by
  rcases locate_alike hd ht hlength hn hm with ⟨e, hfirst, hsecond⟩ | ⟨D, hfirst, hsecond⟩
  · rw [attempt_of_error hfirst, attempt_of_error hsecond]
    exact .failed _ _ (.renamed e dir n m)
  · rw [attempt_eq hd ht hfirst, attempt_eq hd ht hsecond]
    exact sameOutcome_settled hd hblind hlength

/-! ## Making a workspace -/

theorem attempt_numbered (h : Host) (k : Nat) (dir : Bytes) (source : String) (n : Nat) :
    attempt (h.numbered k) dir source n = attempt h dir source n := by
  unfold attempt
  dsimp only
  rw [Host.makeDirectory_numbered]
  show (match h.locate false (Path.join dir (nameOf n)) with
    | Except.error e => Except.error _
    | Except.ok (.there _ _) => Except.error _
    | Except.ok (.missing above name) => _) = _
  rcases h.locate false (Path.join dir (nameOf n)) with e | ⟨place, node⟩ | ⟨above, name⟩
  · rfl
  · rfl
  · cases h.makeDirectory (Path.join dir (nameOf n)) with
    | error e => rfl
    | ok h₁ =>
      dsimp only [Except.map]
      rw [Host.write_numbered]
      cases h₁.write (Workspace.sourcePath ⟨Path.join dir (nameOf n), above ++ [name]⟩)
        (Text.bytes source) <;> rfl

/-- To make a workspace is to attempt one under the next number, once its directory is there. -/
theorem create_eq_attempt (h : Host) (scratchRoot : Option Bytes) (source : String) :
    (create h scratchRoot source).1 =
      match (prepareRoot h scratchRoot).1 with
      | .error e => .error ⟨e, none⟩
      | .ok _ =>
        let prepared := (prepareRoot h scratchRoot).2
        attempt prepared (scratchDirectory h scratchRoot) source
          (nextNumber prepared (scratchDirectory h scratchRoot)) := by
  unfold create
  rcases hp : prepareRoot h scratchRoot with ⟨e | root, h₁⟩
  · rfl
  dsimp only
  obtain ⟨-, hdir⟩ := grown_of_prepareRoot hp
  unfold makeFresh
  dsimp only
  rw [← hdir]
  show _ = attempt h₁ (scratchDirectory h scratchRoot) source
    (freshNumber ((h₁.entries (scratchDirectory h scratchRoot)).toOption.getD []) h₁.named)
  generalize freshNumber ((h₁.entries (scratchDirectory h scratchRoot)).toOption.getD [])
    h₁.named = n
  rw [← attempt_numbered h₁ (n + 1)]
  unfold attempt
  dsimp only
  have hlocate : ∀ p, (h₁.numbered (n + 1)).locate false p = h₁.locate false p := fun _ => rfl
  rw [hlocate]
  rcases h₁.locate false (Path.join (scratchDirectory h scratchRoot) (nameOf n)) with
    e | ⟨place, node⟩ | ⟨above, name⟩
  · rfl
  · rfl
  · dsimp only [Host.numbered]
    cases Host.makeDirectory { h₁ with named := n + 1 }
      (Path.join (scratchDirectory h scratchRoot) (nameOf n)) with
    | error e => rfl
    | ok h₂ =>
      dsimp only
      cases h₂.write (Workspace.sourcePath
        ⟨Path.join (scratchDirectory h scratchRoot) (nameOf n), above ++ [name]⟩)
        (Text.bytes source) <;> rfl

theorem prepareRoot_numbered (h : Host) (k : Nat) (scratchRoot : Option Bytes) :
    prepareRoot (h.numbered k) scratchRoot =
      ((prepareRoot h scratchRoot).1, (prepareRoot h scratchRoot).2.numbered k) := by
  cases scratchRoot with
  | none => rfl
  | some root =>
    unfold prepareRoot
    dsimp only
    rw [Host.ensureChain_numbered]
    rcases h.ensureChain (Path.ancestors root) with ⟨e | u, h₁⟩ <;> rfl

theorem refuses_prepareRoot (h : Host) (scratchRoot : Option Bytes) :
    (prepareRoot h scratchRoot).2.refuses = h.refuses := by
  cases scratchRoot with
  | none => rfl
  | some root =>
    rw [prepareRoot_some]
    exact Host.refuses_ensureChain h _

theorem BlindToNames.prepareRoot (hblind : BlindToNames h) (scratchRoot : Option Bytes) :
    BlindToNames (prepareRoot h scratchRoot).2 := by
  constructor
  · rw [refuses_prepareRoot]
    exact hblind.directory
  · rw [refuses_prepareRoot]
    exact hblind.source

/-- **The names of workspaces do not matter.** Hosts that differ in no more than the names they give
out make their next workspaces alike, where the names are equally long. -/
theorem sameOutcome_create (halike : h.Alike h') (ht : h.tree.Proper) (hblind : BlindToNames h)
    (hlength : (nextName h scratchRoot).length = (nextName h' scratchRoot).length) :
    SameOutcome (create h scratchRoot source).1 (create h' scratchRoot source).1 := by
  rw [halike] at hlength ⊢
  have hdir : scratchDirectory (h.numbered h'.named) scratchRoot =
      scratchDirectory h scratchRoot := rfl
  unfold nextName at hlength
  rw [prepareRoot_numbered, hdir] at hlength
  rw [create_eq_attempt, create_eq_attempt, prepareRoot_numbered, hdir]
  dsimp only at hlength ⊢
  cases (prepareRoot h scratchRoot).1 with
  | error e => exact .failed _ _ (.same _)
  | ok root =>
    dsimp only
    rw [attempt_numbered]
    have hgrown := grown_prepareRoot h scratchRoot
    exact sameOutcome_attempt (isAbsolute_scratchDirectory h scratchRoot)
      (hgrown.proper ht) (hblind.prepareRoot scratchRoot) hlength
      (nameOf_freshNumber_notMem _ _) (nameOf_freshNumber_notMem _ _)

end Workspace

end StageLens
