import StageLens.Proofs.Host.Executable
import StageLens.Proofs.Host.Listing

/-!
# Names that are looked up

Which paths are looked up, in which directories, and what becomes of them.

* A path is looked up if it is a single component (`Path.Single`): a name, behind which there is
  nothing but slashes and dots (`Path.Trail`).
* The directories are what stands between the colons of the search path (`Path.Between`).
* What becomes of a program is said case by case (`Host.Resolves`), and the cases leave no choice.

A path with a slash in it always stays what it is: either it has more than one component, or it asks
for a directory, which no regular file is.
-/

namespace StageLens.Path

/-- What counts for nothing behind a name: slashes, each one with or without a dot behind it. -/
inductive Trail : Bytes → Prop
  | nil : Trail []
  | slash {t : Bytes} : Trail t → Trail (Path.slash :: t)
  | dot {t : Bytes} : Trail t → Trail (Path.slash :: (here ++ t))

/-- A path of a single component, which is a name, a dot or two dots. -/
def Single (p : Bytes) : Prop := ∃ name trail, p = name ++ trail ∧ IsName name ∧ Trail trail

/-- The runs of bytes between the separators of a text, empty ones too. -/
structure Between (separator : UInt8) (p : Bytes) (runs : List Bytes) : Prop where
  nonempty : runs ≠ []
  plain : ∀ run ∈ runs, separator ∉ run
  joined : [separator].intercalate runs = p

variable {p q d name trail : Bytes} {separator : UInt8} {runs : List Bytes}

/-! ## What stands between separators -/

theorem intercalate_split (separator : UInt8) (p : Bytes) :
    [separator].intercalate (split separator p) = p := by
  induction p with
  | nil => rfl
  | cons b p ih =>
    rw [split]
    cases hs : split separator p with
    | nil => exact absurd hs (split_ne_nil separator p)
    | cons first rest =>
      rw [hs] at ih
      by_cases hb : b = separator
      · rw [if_pos hb, List.intercalate_cons_cons, ih, hb]
        rfl
      · rw [if_neg hb]
        show [separator].intercalate ((b :: first) :: rest) = b :: p
        cases rest with
        | nil =>
          rw [List.intercalate_singleton] at ih ⊢
          rw [ih]
        | cons second rest =>
          rw [List.intercalate_cons_cons] at ih ⊢
          rw [List.cons_append, List.cons_append, ih]

theorem split_intercalate (hne : runs ≠ []) (hplain : ∀ run ∈ runs, separator ∉ run) :
    split separator ([separator].intercalate runs) = runs := by
  induction runs with
  | nil => exact absurd rfl hne
  | cons first rest ih =>
    obtain ⟨hfirst, hrest⟩ := List.forall_mem_cons.mp hplain
    cases rest with
    | nil =>
      rw [List.intercalate_singleton]
      exact split_of_not_mem hfirst
    | cons second rest =>
      rw [List.intercalate_cons_cons, List.append_assoc, List.singleton_append, split_append,
        split_of_not_mem hfirst, ih (List.cons_ne_nil _ _) hrest]
      rfl

/-- A text is split into the runs between its separators and in no other way. -/
theorem split_eq_iff : split separator p = runs ↔ Between separator p runs := by
  constructor
  · rintro rfl
    exact ⟨split_ne_nil separator p, fun run hrun => not_mem_of_mem_split hrun,
      intercalate_split separator p⟩
  · rintro ⟨hne, hplain, rfl⟩
    exact split_intercalate hne hplain

/-! ## Components -/

/-- A relative path begins with a name. -/
theorem exists_name_append (hne : p ≠ []) (hrelative : isAbsolute p = false) :
    ∃ name rest, p = name ++ rest ∧ IsName name ∧ (rest = [] ∨ ∃ t, rest = slash :: t) := by
  induction p with
  | nil => exact absurd rfl hne
  | cons b p ih =>
    have hb : b ≠ slash := by simpa [isAbsolute] using hrelative
    have hone : IsName [b] := ⟨List.cons_ne_nil _ _, by simpa using hb.symm⟩
    cases p with
    | nil => exact ⟨[b], [], rfl, hone, .inl rfl⟩
    | cons c p =>
      by_cases hc : c = slash
      · subst hc
        exact ⟨[b], slash :: p, rfl, hone, .inr ⟨p, rfl⟩⟩
      · obtain ⟨name, rest, hsplit, hname, hrest⟩ :=
          ih (List.cons_ne_nil _ _) (by simpa [isAbsolute] using hc)
        refine ⟨b :: name, rest, by rw [hsplit]; rfl, ⟨List.cons_ne_nil _ _, ?_⟩, hrest⟩
        intro hmem
        rcases List.mem_cons.mp hmem with hhead | htail
        · exact hb hhead.symm
        · exact hname.noSlash htail

theorem parts_name_append (hname : IsName name) (hrest : q = [] ∨ ∃ t, q = slash :: t) :
    parts (name ++ q) = name :: parts q := by
  rcases hrest with rfl | ⟨t, rfl⟩
  · rw [List.append_nil, parts_name hname]
    rfl
  · rw [parts_append, parts_name hname, parts_slash]
    rfl

theorem Trail.eq_nil_or_cons (h : Trail trail) : trail = [] ∨ ∃ t, trail = Path.slash :: t := by
  cases h with
  | nil => exact .inl rfl
  | slash _ => exact .inr ⟨_, rfl⟩
  | dot _ => exact .inr ⟨_, rfl⟩

theorem isName_here : IsName here := ⟨by decide, by decide⟩

/-- A trail has no parts but dots. -/
theorem Trail.parts (h : Trail trail) : ∀ part ∈ Path.parts trail, part = here := by
  induction h with
  | nil =>
    intro part hpart
    cases hpart
  | slash _ ih =>
    rw [parts_slash]
    exact ih
  | dot ht ih =>
    rw [parts_slash, parts_name_append isName_here ht.eq_nil_or_cons]
    exact List.forall_mem_cons.mpr ⟨rfl, ih⟩

/-- What has no parts but dots is a trail, where a slash comes first. -/
theorem trail_of_parts (h : ∀ part ∈ parts q, part = here) : Trail (slash :: q) := by
  induction hn : q.length using Nat.strongRecOn generalizing q with
  | _ n ih =>
    subst hn
    cases q with
    | nil => exact .slash .nil
    | cons b t =>
      by_cases hb : b = slash
      · subst hb
        rw [parts_slash] at h
        exact .slash (ih _ (Nat.lt_succ_self _) h rfl)
      · have hrelative : isAbsolute (b :: t) = false := by simpa [isAbsolute] using hb
        obtain ⟨name, rest, hsplit, hname, hrest⟩ :=
          exists_name_append (List.cons_ne_nil b t) hrelative
        rw [hsplit, parts_name_append hname hrest] at h
        obtain ⟨rfl, htail⟩ := List.forall_mem_cons.mp h
        rw [hsplit]
        refine .dot ?_
        rcases hrest with rfl | ⟨t', rfl⟩
        · exact .nil
        · have hlt : t'.length < (b :: t).length := by
            rw [hsplit, List.length_append, List.length_cons]
            omega
          rw [parts_slash] at htail
          exact ih _ hlt htail rfl

/-- What comes behind the first name of a path, dots apart. -/
theorem componentCount_name_append (hname : IsName name) (hrest : q = [] ∨ ∃ t, q = slash :: t) :
    componentCount (name ++ q) = 1 + ((parts q).filter (· ≠ here)).length := by
  have habsolute : isAbsolute (name ++ q) = false := by
    have hhead := not_isAbsolute_name hname
    cases name with
    | nil => exact absurd rfl hname.nonempty
    | cons b name => exact hhead
  unfold componentCount
  rw [parts_name_append hname hrest, habsolute]
  by_cases hhere : name = here
  · simp [hhere]
    omega
  · simp [hhere]
    omega

/-- **A path has a single component if it is a name with a trail.** -/
theorem single_iff : Single p ↔ isAbsolute p = false ∧ componentCount p = 1 := by
  constructor
  · rintro ⟨name, trail, rfl, hname, htrail⟩
    constructor
    · have hhead := not_isAbsolute_name hname
      cases name with
      | nil => exact absurd rfl hname.nonempty
      | cons b name => exact hhead
    · rw [componentCount_name_append hname htrail.eq_nil_or_cons]
      have hdots : (parts trail).filter (· ≠ here) = [] := by
        rw [List.filter_eq_nil_iff]
        intro part hpart
        simp [htrail.parts part hpart]
      rw [hdots]
      rfl
  · rintro ⟨hrelative, hone⟩
    have hne : p ≠ [] := by
      rintro rfl
      cases hone
    obtain ⟨name, rest, rfl, hname, hrest⟩ := exists_name_append hne hrelative
    refine ⟨name, rest, rfl, hname, ?_⟩
    rw [componentCount_name_append hname hrest] at hone
    have hdots : ∀ part ∈ parts rest, part = here := by
      have hnil : (parts rest).filter (· ≠ here) = [] := List.eq_nil_of_length_eq_zero (by omega)
      intro part hpart
      simpa using List.filter_eq_nil_iff.mp hnil part hpart
    rcases hrest with rfl | ⟨t, rfl⟩
    · exact .nil
    · rw [parts_slash] at hdots
      exact trail_of_parts hdots

theorem not_single_iff :
    ¬ Single p ↔ isAbsolute p = true ∨ p = [] ∨ 1 < componentCount p := by
  rw [single_iff]
  cases habsolute : isAbsolute p with
  | true => simp
  | false =>
    by_cases hne : p = []
    · subst hne
      simp [componentCount, parts, split, isAbsolute]
    · -- A relative path that is not empty has a component.
      obtain ⟨name, rest, rfl, hname, hrest⟩ := exists_name_append hne habsolute
      rw [componentCount_name_append hname hrest]
      simp [hne]

/-- What is joined to a directory is the end of the path. -/
theorem exists_join_eq_append (d : Bytes) (hrelative : isAbsolute p = false) :
    ∃ front, join d p = front ++ p := by
  unfold join
  rw [if_neg (by rw [hrelative]; exact Bool.false_ne_true)]
  split
  · exact ⟨[], rfl⟩
  · split
    · exact ⟨d, rfl⟩
    · exact ⟨d ++ [slash], by simp⟩

/-- Joining puts a slash in front, unless there is no directory. -/
theorem join_eq_of_notMem (hrelative : isAbsolute p = false) (hslash : slash ∉ join d p) :
    join d p = p := by
  unfold join at hslash ⊢
  rw [if_neg (by rw [hrelative]; exact Bool.false_ne_true)] at hslash ⊢
  split at hslash <;> rename_i hempty
  · rw [if_pos hempty]
  · exfalso
    split at hslash <;> rename_i hend
    · have hlast : d.getLast? = some slash := by simpa [endsInSlash] using hend
      exact hslash (List.mem_append_left p (List.mem_of_getLast? hlast))
    · exact hslash (by simp)

/-- A path with a trail that is not empty asks for a directory at its end. -/
theorem Trail.getLast?_steps (h : Trail trail) (hne : trail ≠ []) (front : Bytes) :
    (Host.steps (front ++ trail)).getLast? = some here := by
  induction h generalizing front with
  | nil => exact absurd rfl hne
  | @slash t ht ih =>
    by_cases hnil : t = []
    · subst hnil
      have hslash : endsInSlash (front ++ [Path.slash]) = true := by simp [endsInSlash]
      rw [Host.steps, hslash, if_pos rfl, List.getLast?_append_of_ne_nil _ (List.cons_ne_nil _ _)]
      rfl
    · rw [List.append_cons]
      exact ih hnil (front ++ [Path.slash])
  | @dot t ht ih =>
    by_cases hnil : t = []
    · subst hnil
      have hslash : endsInSlash (front ++ Path.slash :: here) = false := by
        rw [endsInSlash_append (List.cons_ne_nil _ _)]
        rfl
      rw [List.append_nil, Host.steps_eq_parts hslash, parts_append, parts_name isName_here,
        List.getLast?_concat]
    · have hsplit : front ++ Path.slash :: (here ++ t) = (front ++ Path.slash :: here) ++ t := by
        simp
      rw [hsplit]
      exact ih hnil (front ++ Path.slash :: here)

end StageLens.Path

namespace StageLens.Host

open StageLens.Tree (Reached)

/-- What becomes of a program. -/
inductive Resolves (h : Host) (program : Bytes) : Bytes → Prop
  /-- It is not a single component, so that it says by itself where it is. -/
  | explicit : ¬ Path.Single program → Resolves h program program
  | unset : h.valueOf? searchVariable = none → Resolves h program program
  | nowhere (path : Bytes) (directories : List Bytes) :
      h.valueOf? searchVariable = some path → Path.Between 0x3A path directories →
      (∀ d ∈ directories, h.isFile (Path.join d program) = false) → Resolves h program program
  /-- It is in one of the directories and in none before; what comes behind does not matter. -/
  | found (path : Bytes) (before : List Bytes) (d : Bytes) (behind : List Bytes) :
      Path.Single program → h.valueOf? searchVariable = some path →
      Path.Between 0x3A path (before ++ d :: behind) →
      (∀ e ∈ before, h.isFile (Path.join e program) = false) →
      h.isFile (Path.join d program) = true → Resolves h program (Path.join d program)

variable {h h' : Host} {p program r : Bytes} {directories : List Bytes}

/-- What asks for a directory at its end is no regular file. -/
theorem isFile_of_getLast?_steps (hlast : (steps p).getLast? = some Path.here) :
    h.isFile p = false := by
  rw [← Bool.not_eq_true]
  intro hfile
  obtain ⟨place, n, hfind, hn⟩ := isFile_iff.mp hfile
  obtain ⟨-, -, hfollow⟩ := followFrom_of_locate hfind
  obtain ⟨names, hnames⟩ := List.getLast?_eq_some_iff.mp hlast
  rw [hnames] at hfollow
  obtain ⟨D, m, hfound⟩ := exists_of_followFrom_append (List.cons_ne_nil _ _) hfollow
  obtain ⟨left, hleft, -⟩ := followFrom_append true (List.cons_ne_nil Path.here []) hfound
  rw [hleft] at hfollow
  obtain ⟨-, -, rfl⟩ := followFrom_here.mp hfollow
  cases hn

theorem isBareName_iff : isBareName program = true ↔ Path.Single program := by
  rw [Path.single_iff, isBareName]
  simp [and_comm]

theorem resolveExecutable_of_not_single (hnot : ¬ Path.Single program) :
    h.resolveExecutable program = program := by
  rw [← isBareName_iff] at hnot
  rw [resolveExecutable, if_neg hnot]

theorem find?_join_eq_none (hnone : ∀ d ∈ directories, h.isFile (Path.join d program) = false) :
    (directories.map (Path.join · program)).find? h.isFile = none := by
  rw [List.find?_eq_none]
  intro candidate hcandidate
  obtain ⟨d, hd, rfl⟩ := List.mem_map.mp hcandidate
  rw [hnone d hd]
  exact Bool.false_ne_true

/-- **The cases say what becomes of a program.** -/
theorem Resolves.eq (hr : Resolves h program r) : h.resolveExecutable program = r := by
  cases hr with
  | explicit hnot => exact resolveExecutable_of_not_single hnot
  | unset hunset =>
    rw [resolveExecutable, hunset]
    exact ite_self program
  | nowhere path directories hpath hbetween hnone =>
    rw [resolveExecutable, hpath]
    dsimp only
    rw [searchPath, Path.split_eq_iff.mpr hbetween, find?_join_eq_none hnone, Option.getD_none]
    exact ite_self program
  | found path before d behind hsingle hpath hbetween hbefore hd =>
    rw [resolveExecutable, if_pos (isBareName_iff.mpr hsingle), hpath]
    dsimp only
    rw [searchPath, Path.split_eq_iff.mpr hbetween, List.map_append, List.find?_append,
      find?_join_eq_none hbefore, List.map_cons, List.find?_cons_of_pos hd]
    rfl

/-- One of the cases applies. -/
theorem exists_resolves (h : Host) (program : Bytes) : ∃ r, Resolves h program r := by
  by_cases hsingle : Path.Single program
  · cases hpath : h.valueOf? searchVariable with
    | none => exact ⟨program, .unset hpath⟩
    | some path =>
      have hbetween := Path.split_eq_iff.mp (rfl : Path.split 0x3A path = Path.split 0x3A path)
      by_cases hheld : ∃ d ∈ searchPath path, h.isFile (Path.join d program) = true
      · obtain ⟨d, ⟨hd, before, behind, hsplit, hbefore⟩, -⟩ :=
          resolveExecutable_eq_join (isBareName_iff.mpr hsingle) hpath hheld
        rw [← searchPath, hsplit] at hbetween
        exact ⟨_, .found path before d behind hsingle hpath hbetween hbefore hd⟩
      · refine ⟨program, .nowhere path _ hpath hbetween fun d hd => ?_⟩
        rw [← Bool.not_eq_true]
        exact fun hfile => hheld ⟨d, hd, hfile⟩
  · exact ⟨program, .explicit hsingle⟩

theorem resolves_iff : Resolves h program r ↔ h.resolveExecutable program = r := by
  refine ⟨Resolves.eq, ?_⟩
  rintro rfl
  obtain ⟨r, hr⟩ := exists_resolves h program
  rwa [hr.eq]

/-- A path with a slash in it stays what it is. -/
theorem resolveExecutable_of_slash (hslash : Path.slash ∈ program) :
    h.resolveExecutable program = program := by
  by_cases hsingle : Path.Single program
  · have hrelative := (Path.single_iff.mp hsingle).1
    obtain ⟨name, trail, rfl, hname, htrail⟩ := hsingle
    have hne : trail ≠ [] := by
      rintro rfl
      rw [List.append_nil] at hslash
      exact hname.noSlash hslash
    -- Whichever directory it is joined to, it asks for a directory there.
    have hnone : ∀ d, h.isFile (Path.join d (name ++ trail)) = false := by
      intro d
      obtain ⟨front, hfront⟩ := Path.exists_join_eq_append d hrelative
      apply isFile_of_getLast?_steps
      rw [hfront, ← List.append_assoc]
      exact htrail.getLast?_steps hne _
    cases hpath : h.valueOf? searchVariable with
    | none => exact (Resolves.unset hpath).eq
    | some path =>
      exact (Resolves.nowhere path _ hpath (Path.split_eq_iff.mp rfl) fun d _ => hnone d).eq
  · exact resolveExecutable_of_not_single hsingle

/-- What a program has become does not change when it is looked up once more. -/
theorem resolveExecutable_resolveExecutable (h : Host) (program : Bytes) :
    h.resolveExecutable (h.resolveExecutable program) = h.resolveExecutable program := by
  obtain ⟨r, hr⟩ := exists_resolves h program
  rw [hr.eq]
  cases hr with
  | explicit hnot => exact resolveExecutable_of_not_single hnot
  | unset hunset => exact (Resolves.unset hunset).eq
  | nowhere path directories hpath hbetween hnone =>
    exact (Resolves.nowhere path directories hpath hbetween hnone).eq
  | found path before d behind hsingle hpath hbetween hbefore hd =>
    by_cases hslash : Path.slash ∈ Path.join d program
    · exact resolveExecutable_of_slash hslash
    · have hrelative := (Path.single_iff.mp hsingle).1
      have hfound := Resolves.found path before d behind hsingle hpath hbetween hbefore hd
      rw [Path.join_eq_of_notMem hrelative hslash] at hfound ⊢
      exact hfound.eq

/-- **A program is looked up in the directories of the search path in their order.** Whatever the
program, the search path and the file tree are,

* it stays what it is if it is not a single component, if there is no search path, or if no
  directory has it as a regular file; otherwise it becomes its path in the first directory that has
  it, and the directories behind do not matter;
* a path is no single component if it is absolute, if it is empty or if it has more than one, where
  slashes and dots behind a name do not count;
* what has a slash in it then, stays what it is wherever it is looked up again, and nothing changes
  when it is looked up again on the same host. -/
theorem lookup_takes_first_match (h : Host) (program : Bytes) :
    (∀ r, h.resolveExecutable program = r ↔ Resolves h program r) ∧
    (¬ Path.Single program ↔
      Path.isAbsolute program = true ∨ program = [] ∨ 1 < Path.componentCount program) ∧
    (Path.slash ∈ h.resolveExecutable program → ∀ h' : Host,
      h'.resolveExecutable (h.resolveExecutable program) = h.resolveExecutable program) ∧
    h.resolveExecutable (h.resolveExecutable program) = h.resolveExecutable program := by
  refine ⟨fun r => resolves_iff.symm, Path.not_single_iff, ?_, ?_⟩
  · intro hslash h'
    exact resolveExecutable_of_slash hslash
  · exact resolveExecutable_resolveExecutable h program

/-- The third directory has the program: the first one, where the program was started, has a
directory of that name, and the second one has nothing. The fourth has the program too. -/
theorem lookup_takes_first_match_third :
    let h := workshop ":bin:/own/tools:/bin"
    Path.slash ∈ h.resolveExecutable (Text.bytes "swiftc") ∧
      Resolves h (Text.bytes "swiftc") (Text.bytes "/own/tools/swiftc") ∧
      ∀ h' : Host, h'.resolveExecutable (Text.bytes "/own/tools/swiftc") =
        Text.bytes "/own/tools/swiftc" := by
  intro h
  have hresolved : h.resolveExecutable (Text.bytes "swiftc") = Text.bytes "/own/tools/swiftc" := by
    decide +kernel
  have hslash : Path.slash ∈ h.resolveExecutable (Text.bytes "swiftc") := by
    decide +kernel
  obtain ⟨hcases, -, hagain, -⟩ := lookup_takes_first_match h (Text.bytes "swiftc")
  refine ⟨hslash, (hcases _).mp hresolved, fun h' => ?_⟩
  have hsame := hagain hslash h'
  rwa [hresolved] at hsame

/-- Slashes and dots behind a name are no components, and a dot in front is one. -/
example : (["tool", "tool//./", ".", "..", "./tool", "tool/..", "/tool", ""].map fun p =>
    Path.componentCount (Text.bytes p)) = [1, 1, 1, 1, 2, 2, 2, 0] := by decide +kernel

end StageLens.Host
