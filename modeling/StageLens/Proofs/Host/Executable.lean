import Mathlib.Data.Fintype.EquivFin
import StageLens.Process.Launch
import StageLens.Proofs.Host.Change
import StageLens.Proofs.Host.Path

/-!
# Programs that are looked up once

A bare name becomes the path of the first file of that name on the search path
(`resolveExecutable_eq_join`). Such a path is meant to be **fixed** (`Fixed`): it leads to one file
from wherever it is launched, whatever directories and files have been made since. It is fixed where
the entry of the search path that has the file is absolute, and only there; a relative entry gives a
path that every working directory reads for itself.
-/

namespace StageLens.Host

open StageLens.Tree (Reached)

/-- The first of some directories that has a program as a regular file. -/
structure FirstHolder (h : Host) (directories : List Bytes) (program d : Bytes) : Prop where
  holds : h.isFile (Path.join d program) = true
  first : ∃ before after, directories = before ++ d :: after ∧
    ∀ e ∈ before, h.isFile (Path.join e program) = false

/-- What runs for a path that leads to a node. -/
def imageOfNode (h : Host) (program : Bytes) (arguments : List Octets) :
    Node → Except HostError Image
  | .tool name => .ok ⟨name, Octets.ofBytes program :: arguments⟩
  | .file contents true =>
    match interpreter? (Octets.ofBytes contents) with
    | none => .error .notExecutableFormat
    | some (interpreter, option) =>
      imageFrom h arguments (interpreterLimit - 1) interpreter.toBytes interpreter
        (option ++ [Octets.ofBytes program])
  | _ => .error .permissionDenied

/-- A program whose path leads to one node on every host that has what this one has, whatever the
working directory is there and in whichever directory the program is launched. -/
structure Fixed (h : Host) (program : Bytes) (place : Place) (n : Node) : Prop where
  found : ∀ g : Host, h.tree.Grows g.tree → g.find program = .ok (.there place n)
  launched : ∀ (g inside : Host) (i : Invocation), h.tree.Grows g.tree → i.program = program →
    (i.arguments.any fun a => Launch.holdsNul (Text.bytes a)) = false →
    i.directory.any Launch.holdsNul = false → Launch.entered g i.directory = .ok inside →
    Launch.prepare i g =
      (inside.imageOfNode program (i.arguments.map Octets.ofText) n).map (·, inside)

variable {h g inside : Host} {program path d : Bytes} {place : Place} {n : Node}
variable {directories : List Bytes} {arguments : List Octets}

/-! ## Looking a name up -/

theorem isFile_iff {p : Bytes} :
    h.isFile p = true ↔ ∃ place n, h.find p = .ok (.there place n) ∧ n.isFile = true := by
  unfold isFile node?
  cases h.find p with
  | error e => simp
  | ok r => cases r <;> simp

theorem firstHolder_of_find? {p : Bytes}
    (hfind : (directories.map (Path.join · program)).find? h.isFile = some p) :
    ∃ d, FirstHolder h directories program d ∧ p = Path.join d program := by
  rw [List.find?_map, Option.map_eq_some_iff] at hfind
  obtain ⟨d, hd, rfl⟩ := hfind
  obtain ⟨hholds, before, after, hsplit, hbefore⟩ := List.find?_eq_some_iff_append.mp hd
  exact ⟨d, ⟨hholds, before, after, hsplit, fun e he => by simpa using hbefore e he⟩, rfl⟩

/-- **A bare name becomes the path of the first file of that name.** -/
theorem resolveExecutable_eq_join (hbare : isBareName program = true)
    (hpath : h.valueOf? searchVariable = some path)
    (hheld : ∃ d ∈ searchPath path, h.isFile (Path.join d program) = true) :
    ∃ d, FirstHolder h (searchPath path) program d ∧
      h.resolveExecutable program = Path.join d program := by
  obtain ⟨p, hp⟩ : ∃ p, ((searchPath path).map (Path.join · program)).find? h.isFile = some p := by
    obtain ⟨d, hd, hfile⟩ := hheld
    rw [← Option.isSome_iff_exists, List.find?_isSome]
    exact ⟨_, List.mem_map_of_mem hd, hfile⟩
  obtain ⟨d, hfirst, rfl⟩ := firstHolder_of_find? hp
  refine ⟨d, hfirst, ?_⟩
  unfold resolveExecutable
  rw [if_pos hbare, hpath]
  dsimp only
  rw [hp, Option.getD_some]

/-- A path is absolute where the directory is, unless it is absolute by itself. -/
theorem isAbsolute_join_iff (hprogram : Path.isAbsolute program = false) :
    Path.isAbsolute (Path.join d program) = true ↔ Path.isAbsolute d = true := by
  constructor
  · intro habsolute
    unfold Path.join at habsolute
    rw [if_neg (by rw [hprogram]; exact Bool.false_ne_true)] at habsolute
    cases d with
    | nil =>
      rw [List.isEmpty_nil, if_pos rfl, hprogram] at habsolute
      cases habsolute
    | cons first rest =>
      rw [List.isEmpty_cons, if_neg Bool.false_ne_true] at habsolute
      split at habsolute <;> exact habsolute
  · intro habsolute
    exact Path.isAbsolute_join habsolute program

/-! ## Paths that stay what they are -/

/-- An absolute path leads where it led, whatever has been added and whatever the working directory
is. -/
theorem find_of_grows (ht : h.tree.Proper) (hgrows : h.tree.Grows g.tree)
    (habsolute : Path.isAbsolute path = true) (hfind : h.find path = .ok (.there place n)) :
    g.find path = .ok (.there place n) := by
  obtain ⟨hnul, hshort, hfollow⟩ := followFrom_of_locate hfind
  rw [habsolute, if_pos rfl] at hfollow
  have hthere := isSome_of_followFrom ht rfl hfollow
  refine locate_of_followFrom (Path.ne_nil_of_isAbsolute habsolute) hnul hshort ?_
  rw [habsolute, if_pos rfl]
  rw [(followFrom_congr fun q hq => hgrows.get? (hthere q hq)).1]
  exact hfollow

/-- What is launched at a path is made of the node there. -/
theorem image_of_find (hfind : h.find path = .ok (.there place n)) :
    h.image path (Octets.ofBytes path) arguments = h.imageOfNode path arguments n := by
  unfold image interpreterLimit
  rw [imageFrom, hfind]
  cases n with
  | file contents executable =>
    cases executable with
    | false => rfl
    | true =>
      simp only [imageOfNode, bind, Except.bind]
      cases interpreter? (Octets.ofBytes contents) <;> rfl
  | _ => rfl

theorem contains_slash_of_isAbsolute (habsolute : Path.isAbsolute path = true) :
    path.contains Path.slash = true := by
  rw [List.contains_iff_mem]
  exact List.mem_of_head? (by simpa [Path.isAbsolute] using habsolute)

/-- A program with an absolute path is not searched for again when it is launched. -/
theorem prepare_of_find {i : Invocation} (habsolute : Path.isAbsolute i.program = true)
    (hfind : inside.find i.program = .ok (.there place n))
    (harguments : (i.arguments.any fun a => Launch.holdsNul (Text.bytes a)) = false)
    (hdirectory : i.directory.any Launch.holdsNul = false)
    (hentered : Launch.entered g i.directory = .ok inside) :
    Launch.prepare i g =
      (inside.imageOfNode i.program (i.arguments.map Octets.ofText) n).map (·, inside) := by
  have hnul : Launch.holdsNul i.program = false := (followFrom_of_locate hfind).1
  have himage : inside.imageOf i.program (i.arguments.map Octets.ofText) =
      inside.imageOfNode i.program (i.arguments.map Octets.ofText) n := by
    unfold imageOf
    rw [if_pos (contains_slash_of_isAbsolute habsolute), image_of_find hfind]
  unfold Launch.prepare
  rw [hnul, harguments, hdirectory, hentered]
  show (inside.imageOf _ _ >>= fun image => pure (image, inside)) = _
  rw [himage]
  cases inside.imageOfNode i.program (i.arguments.map Octets.ofText) n <;> rfl

theorem tree_of_entered {directory : Option Bytes}
    (hentered : Launch.entered g directory = .ok inside) :
    inside.tree = g.tree := by
  cases directory with
  | none =>
    cases hentered
    rfl
  | some d =>
    obtain ⟨r, -, hr⟩ := bind_eq_ok_iff.mp hentered
    cases r with
    | missing above name => cases hr
    | there place node =>
      cases node with
      | directory =>
        cases hr
        rfl
      | _ => cases hr

/-- An absolute path that leads to something is fixed. -/
theorem fixed_of_find (ht : h.tree.Proper) (habsolute : Path.isAbsolute program = true)
    (hfind : h.find program = .ok (.there place n)) : Fixed h program place n where
  found g hgrows := find_of_grows ht hgrows habsolute hfind
  launched g inside i hgrows hprogram harguments hdirectory hentered := by
    subst hprogram
    have hinside : h.tree.Grows inside.tree := by
      rw [tree_of_entered hentered]
      exact hgrows
    exact prepare_of_find habsolute (find_of_grows ht hinside habsolute hfind) harguments hdirectory
      hentered

/-- There is always a place where nothing is. -/
theorem exists_get?_eq_none (t : Tree) : ∃ q, t.get? q = none := by
  obtain ⟨q, hq⟩ := Infinite.exists_notMem_finset ([] :: t.entries.map Prod.fst).toFinset
  rw [List.mem_toFinset, List.mem_cons, not_or] at hq
  refine ⟨q, ?_⟩
  rw [Tree.get?_of_ne hq.1, List.lookup_eq_none_iff]
  intro e he
  rw [bne_iff_ne]
  rintro rfl
  exact hq.2 (List.mem_map_of_mem he)

/-- A relative path that leads anywhere asks for a name first. -/
theorem exists_steps_eq_cons (hne : path ≠ []) (hrelative : Path.isAbsolute path = false) :
    ∃ name rest, steps path = name :: rest := by
  cases path with
  | nil => exact absurd rfl hne
  | cons b bs =>
    have hb : b ≠ Path.slash := by simpa [Path.isAbsolute] using hrelative
    unfold steps Path.parts
    rw [Path.split, if_neg hb]
    cases Path.split Path.slash bs <;> exact ⟨_, _, rfl⟩

/-- A relative path leads nowhere where there is no working directory, so that it is not fixed. -/
theorem Fixed.isAbsolute (hfixed : Fixed h program place n) : Path.isAbsolute program = true := by
  by_contra hrelative
  rw [Bool.not_eq_true] at hrelative
  obtain ⟨q, hq⟩ := exists_get?_eq_none h.tree
  have hfind := hfixed.found { h with cwd := q } (.refl _)
  obtain ⟨-, -, hfollow⟩ := followFrom_of_locate hfind
  have hne : program ≠ [] := by
    rintro rfl
    cases hfind
  obtain ⟨name, rest, hsteps⟩ := exists_steps_eq_cons hne hrelative
  rw [hrelative, if_neg Bool.false_ne_true, hsteps, followFrom, descend, hq, if_pos (by simp)]
    at hfollow
  cases hfollow

/-- **A name that is looked up is fixed where the entry that has it is absolute.** Whatever the
search path and the working directory are, a bare name that some entry has as a regular file becomes
the path of the first one. This path leads there now. It is absolute, and it leads to that file from
every directory and the file is launched for it there, those directories included that are made
later, if and only if the entry is absolute. -/
theorem resolved_is_fixed_iff (ht : h.tree.Proper) (hbare : isBareName program = true)
    (hpath : h.valueOf? searchVariable = some path)
    (hheld : ∃ d ∈ searchPath path, h.isFile (Path.join d program) = true) :
    ∃ d place n, FirstHolder h (searchPath path) program d ∧
      h.resolveExecutable program = Path.join d program ∧
      h.find (h.resolveExecutable program) = .ok (.there place n) ∧ n.isFile = true ∧
      (Path.isAbsolute (h.resolveExecutable program) = true ↔ Path.isAbsolute d = true) ∧
      (Fixed h (h.resolveExecutable program) place n ↔ Path.isAbsolute d = true) := by
  obtain ⟨d, hfirst, hresolved⟩ := resolveExecutable_eq_join hbare hpath hheld
  obtain ⟨place, n, hfind, hfile⟩ := isFile_iff.mp hfirst.holds
  have hrelative : Path.isAbsolute program = false := by
    unfold isBareName at hbare
    simpa using (Bool.and_eq_true_iff.mp hbare).2
  rw [hresolved]
  refine ⟨d, place, n, hfirst, rfl, hfind, hfile, isAbsolute_join_iff hrelative, ?_⟩
  constructor
  · intro hfixed
    exact (isAbsolute_join_iff hrelative).mp hfixed.isAbsolute
  · intro habsolute
    exact fixed_of_find ht ((isAbsolute_join_iff hrelative).mpr habsolute) hfind

/-! ## Two search paths -/

/-- The place of a path that is written with slashes. -/
def standsAt (path : String) (n : Node) : Place × Node := (Path.parts (Text.bytes path), n)

/-- A host with a workspace, and with a compiler in two directories. In a third one the name is that
of a directory. -/
def workshop (searched : String) : Host where
  tree := ⟨[standsAt "/own" .directory, standsAt "/own/swiftc" .directory,
    standsAt "/own/tools" .directory, standsAt "/own/tools/swiftc" (.tool "true"),
    standsAt "/bin" .directory, standsAt "/bin/swiftc" (.tool "cat"),
    standsAt "/scratch" .directory, standsAt "/scratch/silscope-1" .directory]⟩
  cwd := [Text.bytes "own"]
  environment := [(searchVariable, Text.bytes searched)]

/-- An invocation of a program in the workspace. -/
def launchedInWorkspace (program : Bytes) : Invocation :=
  { program, arguments := [], directory := some (Text.bytes "/scratch/silscope-1")
    timeout := ⟨1, 0⟩ }

theorem proper_workshop (searched : String) : (workshop searched).tree.Proper := by
  refine Tree.proper_of_entries ?_
  show ∀ e ∈ (workshop "").tree.entries, (workshop "").tree.get? e.1.dropLast = some .directory
  decide +kernel

/-- The first entry is where the program was started, where the name is that of a directory; the
second one is relative and has no such name; the third has the program, and so has the last. -/
theorem resolved_is_fixed_iff_third :
    let h := workshop ":bin:/own/tools:/bin"
    let program := Text.bytes "swiftc"
    h.tree.Proper ∧ isBareName program = true ∧
      h.valueOf? searchVariable = some (Text.bytes ":bin:/own/tools:/bin") ∧
      (∃ d ∈ searchPath (Text.bytes ":bin:/own/tools:/bin"),
        h.isFile (Path.join d program) = true) ∧
      h.resolveExecutable program = Text.bytes "/own/tools/swiftc" ∧
      ∃ place n, Fixed h (h.resolveExecutable program) place n := by
  intro h program
  have hbare : isBareName program = true := by decide +kernel
  have hpath : h.valueOf? searchVariable = some (Text.bytes ":bin:/own/tools:/bin") := rfl
  have hheld : ∃ d ∈ searchPath (Text.bytes ":bin:/own/tools:/bin"),
      h.isFile (Path.join d program) = true := by decide +kernel
  have hresolved : h.resolveExecutable program = Text.bytes "/own/tools/swiftc" := by
    decide +kernel
  obtain ⟨d, place, n, -, -, -, -, habsolute, hfixed⟩ :=
    resolved_is_fixed_iff (proper_workshop _) hbare hpath hheld
  refine ⟨proper_workshop _, hbare, hpath, hheld, hresolved, place, n, ?_⟩
  rw [hfixed, ← habsolute, hresolved]
  decide +kernel

/-- A relative entry has the program, so that the name becomes a relative path: where the program
was started it is launched, and in the workspace it is not found. -/
theorem resolved_in_relative_entry :
    let h := workshop "tools:/bin"
    let program := Text.bytes "swiftc"
    isBareName program = true ∧
      (∃ d ∈ searchPath (Text.bytes "tools:/bin"), h.isFile (Path.join d program) = true) ∧
      h.resolveExecutable program = Text.bytes "tools/swiftc" ∧
      Path.isAbsolute (h.resolveExecutable program) = false ∧
      (h.imageOf (h.resolveExecutable program) []).map (·.tool) = .ok "true" ∧
      (Launch.prepare (launchedInWorkspace (h.resolveExecutable program)) h).map (·.1.tool) =
        .error .notFound := by
  decide +kernel

end StageLens.Host
