import StageLens.Config.Selection
import StageLens.Proofs.Config.Rules
import StageLens.Proofs.Lists

/-!
# Which configuration decides

Exactly one choice is made (`Selects.unique`, `selects_selected?`): the path that is given, the file
of the deepest directory around the working directory that has one, the file of the home directory,
or the defaults. What is loaded is the verdict on the reading of the chosen file (`verdict_iff`), for
better or worse: no other file is looked at instead.
-/

namespace StageLens.Config

/-! ## The choice -/

/-- Where the directory that many names below the root, on the way to the working directory, has its
configuration. -/
def nearby (h : Host) (depth : Nat) : Bytes := fileIn (Path.ofPlace (h.cwd.take depth))

/-- There is no configuration around the working directory at this depth or deeper; there is none at
all if the working directory was removed. -/
def NoneBelow (h : Host) (depth : Nat) : Prop :=
  h.tree.get? h.cwd = some .directory →
    ∀ deeper, depth ≤ deeper → deeper ≤ h.cwd.length → h.exists? (nearby h deeper) = false

/-- What is used where `explicit` is given; no path stands for the defaults. -/
inductive Selects (h : Host) : Option Bytes → Option Bytes → Prop
  | given (p : Bytes) : Selects h (some p) (some p)
  | nearest (depth : Nat) (hcwd : h.tree.get? h.cwd = some .directory)
      (hdepth : depth ≤ h.cwd.length) (hexists : h.exists? (nearby h depth) = true)
      (hnone : NoneBelow h (depth + 1)) : Selects h none (some (nearby h depth))
  | home (directory : Bytes) (hnone : NoneBelow h 0) (hhome : home? h = some directory)
      (hexists : h.exists? (fileIn directory) = true) : Selects h none (some (fileIn directory))
  | defaults (hnone : NoneBelow h 0)
      (hhome : ∀ directory, home? h = some directory → h.exists? (fileIn directory) = false) :
      Selects h none none

section Selects

variable {h h' : Host} {explicit explicit' choice choice' : Option Bytes} {depth : Nat}

theorem surroundings_of_directory (hcwd : h.tree.get? h.cwd = some .directory) :
    ((surroundings h).map fileIn).find? h.exists? =
      ((List.range (h.cwd.length + 1)).reverse.find? (h.exists? ∘ nearby h)).map (nearby h) := by
  rw [surroundings, if_pos hcwd, List.map_map, List.find?_map]
  rfl

/-- A search around the working directory that finds nothing leaves nothing there. -/
theorem noneBelow_of_find?_eq_none
    (hfind : ((surroundings h).map fileIn).find? h.exists? = none) : NoneBelow h 0 := by
  intro hcwd deeper _ hdeeper
  rw [surroundings_of_directory hcwd, Option.map_eq_none_iff, List.find?_eq_none] at hfind
  have hmem : deeper ∈ (List.range (h.cwd.length + 1)).reverse := by
    simp only [List.mem_reverse, List.mem_range]
    omega
  simpa using hfind deeper hmem

/-- What is used is a choice. -/
theorem selects_selected? (h : Host) (explicit : Option Bytes) :
    Selects h explicit (selected? h explicit) := by
  unfold selected?
  cases explicit with
  | some p => exact .given p
  | none =>
    dsimp only
    split
    · rename_i p hfind
      by_cases hcwd : h.tree.get? h.cwd = some .directory
      · rw [surroundings_of_directory hcwd, Option.map_eq_some_iff] at hfind
        obtain ⟨depth, hdepth, rfl⟩ := hfind
        obtain ⟨hexists, hlt, hgreatest⟩ := List.find?_reverse_range_eq_some hdepth
        refine .nearest depth hcwd (Nat.le_of_lt_succ hlt) hexists fun _ deeper hle hdeeper => ?_
        exact hgreatest deeper hle (Nat.lt_succ_of_le hdeeper)
      · rw [surroundings, if_neg hcwd] at hfind
        cases hfind
    · rename_i hfind
      have hnone := noneBelow_of_find?_eq_none hfind
      cases hhome : home? h with
      | none =>
        rw [homeFile?, hhome]
        exact .defaults hnone fun directory hd => by rw [hhome] at hd; cases hd
      | some directory =>
        rw [homeFile?, hhome, Option.map_some, Option.filter_some]
        split
        · rename_i hexists
          exact .home directory hnone hhome hexists
        · rename_i hexists
          refine .defaults hnone fun d hd => ?_
          obtain rfl := Option.some.inj (hhome.symm.trans hd)
          simpa using hexists

theorem NoneBelow.not_exists (hnone : NoneBelow h depth)
    (hcwd : h.tree.get? h.cwd = some .directory) (hle : depth ≤ n) (hn : n ≤ h.cwd.length) :
    h.exists? (nearby h n) ≠ true := by
  rw [hnone hcwd n hle hn]
  exact Bool.false_ne_true

/-- There is one choice. -/
theorem Selects.unique (hs : Selects h explicit choice) (hs' : Selects h explicit choice') :
    choice = choice' := by
  cases hs with
  | given p =>
    cases hs'
    rfl
  | nearest depth hcwd hdepth hexists hnone =>
    cases hs' with
    | nearest depth' _ hdepth' hexists' hnone' =>
      rcases Nat.lt_trichotomy depth depth' with hlt | rfl | hlt
      · exact absurd hexists' (hnone.not_exists hcwd hlt hdepth')
      · rfl
      · exact absurd hexists (hnone'.not_exists hcwd hlt hdepth)
    | home _ hnone' | defaults hnone' =>
      exact absurd hexists (hnone'.not_exists hcwd (Nat.zero_le _) hdepth)
  | home directory hnone hhome hexists =>
    cases hs' with
    | nearest depth' hcwd hdepth' hexists' =>
      exact absurd hexists' (hnone.not_exists hcwd (Nat.zero_le _) hdepth')
    | home directory' _ hhome' => rw [Option.some.inj (hhome.symm.trans hhome')]
    | defaults _ hhome' =>
      rw [hhome' directory hhome] at hexists
      cases hexists
  | defaults hnone hhome =>
    cases hs' with
    | nearest depth' hcwd hdepth' hexists' =>
      exact absurd hexists' (hnone.not_exists hcwd (Nat.zero_le _) hdepth')
    | home directory' _ hhome' hexists' =>
      rw [hhome directory' hhome'] at hexists'
      cases hexists'
    | defaults => rfl

theorem selects_iff : Selects h explicit choice ↔ selected? h explicit = choice := by
  constructor
  · intro hs
    exact (selects_selected? h explicit).unique hs
  · rintro rfl
    exact selects_selected? h explicit

end Selects

/-! ## The verdict -/

/-- What the reading of a configuration file amounts to. -/
inductive Verdict : Except HostError String → Except Failure Config → Prop
  | unreadable (e : HostError) : Verdict (.error e) (.error (.io e))
  | malformed (text : String) (hparse : Toml.entries? text = none) :
      Verdict (.ok text) (.error .malformed)
  | misshapen (text : String) (entries : Toml.Entries) (m : Decode.Mismatch)
      (hparse : Toml.entries? text = some entries) (hoverlay : overlay entries = .error m) :
      Verdict (.ok text) (.error (.mismatch m))
  | unusable (text : String) (entries : Toml.Entries) (c : Config) (v : Violation)
      (hparse : Toml.entries? text = some entries) (hoverlay : overlay entries = .ok c)
      (hbreaks : c.BreaksFirst v) : Verdict (.ok text) (.error (.violation v))
  | usable (text : String) (entries : Toml.Entries) (c : Config)
      (hparse : Toml.entries? text = some entries) (hoverlay : overlay entries = .ok c)
      (husable : c.Usable) : Verdict (.ok text) (.ok c)

section Verdict

variable {h : Host} {p : Bytes} {outcome : Except Failure Config}

theorem verdict_ofFile (h : Host) (p : Bytes) : Verdict (h.readText p) (ofFile h p) := by
  unfold ofFile
  cases h.readText p with
  | error e => exact .unreadable e
  | ok text =>
    show Verdict (.ok text) (ofText text)
    unfold ofText
    cases hparse : Toml.entries? text with
    | none => exact .malformed text hparse
    | some entries =>
      show Verdict (.ok text) (ofEntries entries)
      unfold ofEntries
      cases hoverlay : overlay entries with
      | error m => exact .misshapen text entries m hparse hoverlay
      | ok c =>
        dsimp only
        cases hrule : c.violation? with
        | none => exact .usable text entries c hparse hoverlay (violation?_eq_none_iff.mp hrule)
        | some v =>
          exact .unusable text entries c v hparse hoverlay (violation?_eq_some_iff.mp hrule)

/-- A reading has one verdict, and a file is loaded by it. -/
theorem verdict_iff : Verdict (h.readText p) outcome ↔ ofFile h p = outcome := by
  constructor
  · intro hv
    unfold ofFile
    generalize h.readText p = reading at hv
    cases hv with
    | unreadable e => rfl
    | malformed text hparse => simp only [ofText, hparse]
    | misshapen text entries m hparse hoverlay => simp only [ofText, hparse, ofEntries, hoverlay]
    | unusable text entries c v hparse hoverlay hbreaks =>
      simp only [ofText, hparse, ofEntries, hoverlay, violation?_eq_some_iff.mpr hbreaks]
    | usable text entries c hparse hoverlay husable =>
      simp only [ofText, hparse, ofEntries, hoverlay, violation?_eq_none_iff.mpr husable]
  · rintro rfl
    exact verdict_ofFile h p

end Verdict

/-! ## What is loaded -/

section Load

variable {h : Host} {explicit : Option Bytes} {p : Bytes}

theorem load_of_selects (hs : Selects h explicit (some p)) : load h explicit = ofFile h p := by
  rw [load, selects_iff.mp hs]

theorem load_of_selects_none (hs : Selects h explicit none) : load h explicit = .ok {} := by
  rw [load, selects_iff.mp hs]

/-- What is loaded can be used. -/
theorem usable_of_load {c : Config} (hload : load h explicit = .ok c) : c.Usable := by
  unfold load at hload
  split at hload
  · unfold ofFile at hload
    split at hload
    · cases hload
    · exact usable_of_ofText hload
  · obtain rfl := Except.ok.inj hload
    exact usable_default

end Load

/-- **One file decides.** Whatever the files, the working directory, the home directory and the path
that is given, exactly one choice is made. What is loaded is the verdict on the reading of the
chosen file, or the defaults where none is chosen; every other host, whatever its files are, loads
the same where it chooses a file of the same reading. Whatever is loaded breaks no rule. -/
theorem chosen_file_decides (h : Host) (explicit : Option Bytes) :
    (∃! choice, Selects h explicit choice) ∧
    (∀ p, Selects h explicit (some p) → ∀ outcome,
      load h explicit = outcome ↔ Verdict (h.readText p) outcome) ∧
    (Selects h explicit none → load h explicit = .ok {}) ∧
    (∀ p h' explicit' p', Selects h explicit (some p) → Selects h' explicit' (some p') →
      h'.readText p' = h.readText p → load h' explicit' = load h explicit) ∧
    ∀ c, load h explicit = .ok c → c.violation? = none := by
  have hverdict : ∀ h explicit p, Selects h explicit (some p) → ∀ outcome,
      load h explicit = outcome ↔ Verdict (h.readText p) outcome := by
    intro h explicit p hs outcome
    rw [load_of_selects hs, verdict_iff]
  refine ⟨⟨selected? h explicit, selects_selected? h explicit, ?_⟩, hverdict h explicit,
    load_of_selects_none, ?_, ?_⟩
  · intro choice hs
    exact (selects_iff.mp hs).symm
  · intro p h' explicit' p' hs hs' hreading
    rw [hverdict h' explicit' p' hs', hreading, ← hverdict h explicit p hs]
  · intro c hload
    exact violation?_eq_none_iff.mpr (usable_of_load hload)

/-- A host in a directory two below the root. The one above it has a directory where the
configuration should be; the root, which is home, has a configuration without a fault. -/
def shadowed : Host :=
  let a := Text.bytes "a"
  let folder := Text.bytes ".silscope"
  let file := Text.bytes "config.toml"
  { tree := ⟨[([a], .directory), ([a, Text.bytes "b"], .directory), ([a, folder], .directory),
      ([a, folder, file], .directory), ([folder], .directory),
      ([folder, file], .file (Text.bytes "[limits]\nmax_source_bytes = 9\n") false)]⟩
    cwd := [a, Text.bytes "b"]
    environment := [(homeVariable, Text.bytes "/")] }

/-- What stands nearer decides although it cannot be read; the good file decides where its path is
given. -/
theorem chosen_file_decides_shadowed :
    Selects shadowed none (some (nearby shadowed 1)) ∧
    load shadowed none = .error (.io .isDirectory) ∧
    load shadowed (some (nearby shadowed 0)) = .ok { limits := { sourceBytes := 9 } } := by
  have hnear : Selects shadowed none (some (nearby shadowed 1)) :=
    selects_iff.mpr (by decide +kernel)
  have hreading : shadowed.readText (nearby shadowed 1) = .error .isDirectory := by decide +kernel
  have hgood : load shadowed (some (nearby shadowed 0)) = .ok { limits := { sourceBytes := 9 } } := by
    decide +kernel
  obtain ⟨-, hverdict, -⟩ := chosen_file_decides shadowed none
  refine ⟨hnear, (hverdict _ hnear _).mpr ?_, hgood⟩
  rw [hreading]
  exact .unreadable .isDirectory

end StageLens.Config
