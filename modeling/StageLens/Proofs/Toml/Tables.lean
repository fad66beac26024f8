import StageLens.Toml.Document
import Mathlib.Data.List.Nodup

/-!
# Tables give a name once

No table of a document has two entries of one name, at whatever depth it stands and in whichever way
it came to be: by headers, by dotted keys or between braces (`orderly_of_entries?`). What changes a
table either changes an entry that is there or puts one of a new name behind the others
(`names_alter`), so each line of a document keeps the tables orderly.
-/

namespace StageLens.Toml

/-- A value in which every table gives each name once. -/
inductive Value.Orderly : Value → Prop
  | text (s : String) : Orderly (.text s)
  | integer (i : Int) : Orderly (.integer i)
  | float (x : Number.Floating) : Orderly (.float x)
  | boolean (b : Bool) : Orderly (.boolean b)
  | moment : Orderly .moment
  | array (items : List Value) (h : ∀ v ∈ items, Orderly v) : Orderly (.array items)
  | tables (items : List Value) (h : ∀ v ∈ items, Orderly v) : Orderly (.tables items)
  | table (o : Origin) (es : List (String × Value)) (hnames : (es.map Prod.fst).Nodup)
      (hvalues : ∀ e ∈ es, Orderly e.2) : Orderly (.table o es)

/-- Entries of different names with orderly values. -/
structure Entries.Orderly (es : Entries) : Prop where
  names : (es.map Prod.fst).Nodup
  values : ∀ e ∈ es, e.2.Orderly

namespace Entries

variable {es es' : Entries} {name : String} {v : Value} {change : Option Value → Option Value}
variable {work : Entries → Option Entries} {items : List Value} {path : List String} {o : Origin}

theorem orderly_nil : Orderly [] := ⟨List.nodup_nil, nofun⟩

theorem orderly_table_iff : (Value.table o es).Orderly ↔ Orderly es := by
  constructor
  · rintro ⟨⟩
    exact ⟨‹_›, ‹_›⟩
  · intro h
    exact .table o es h.names h.values

theorem Orderly.of_lookup (h : Orderly es) (hv : es.lookup name = some v) : v.Orderly := by
  obtain ⟨before, after, rfl, -⟩ := List.lookup_eq_some_iff.mp hv
  exact h.values (name, v) (by simp)

/-- An entry of a new name at the end. -/
theorem Orderly.append (h : Orderly es) (hname : name ∉ es.map Prod.fst) (hv : v.Orderly) :
    Orderly (es ++ [(name, v)]) := by
  refine ⟨?_, ?_⟩
  · rw [List.map_append]
    exact List.Nodup.append h.names (List.nodup_singleton name) (by simpa using hname)
  · intro e he
    rcases List.mem_append.mp he with he | he
    · exact h.values e he
    · obtain rfl := List.mem_singleton.mp he
      exact hv

theorem notMem_of_lookup_eq_none (h : es.lookup name = none) : name ∉ es.map Prod.fst := by
  intro hmem
  obtain ⟨e, he, rfl⟩ := List.mem_map.mp hmem
  have hne := List.lookup_eq_none_iff.mp h e he
  simp at hne

/-! ## Changing one entry -/

/-- A change keeps the names and their order, or adds the name at the end. -/
theorem names_alter (h : es.alter name change = some es') : es'.map Prod.fst =
    if name ∈ es.map Prod.fst then es.map Prod.fst else es.map Prod.fst ++ [name] := by
  induction es generalizing es' with
  | nil =>
    obtain ⟨v, -, rfl⟩ := Option.map_eq_some_iff.mp h
    rfl
  | cons e rest ih =>
    obtain ⟨n, w⟩ := e
    rw [alter] at h
    split at h
    · rename_i hn
      obtain ⟨v, -, rfl⟩ := Option.map_eq_some_iff.mp h
      simp [hn]
    · rename_i hn
      obtain ⟨tail, htail, rfl⟩ := Option.map_eq_some_iff.mp h
      rw [List.map_cons, ih htail]
      by_cases hmem : name ∈ rest.map Prod.fst
      · simp only [List.map_cons, List.mem_cons, hmem, or_true, if_true]
      · simp only [List.map_cons, List.mem_cons, hmem, or_false, if_neg (Ne.symm hn), if_false,
          List.cons_append]

/-- A change that makes orderly values of orderly ones, where there are any, keeps the entries
orderly. -/
theorem Orderly.alter (hes : Orderly es) (hnew : ∀ v, change none = some v → v.Orderly)
    (hold : ∀ w v, w.Orderly → change (some w) = some v → v.Orderly)
    (h : es.alter name change = some es') : Orderly es' := by
  refine ⟨?_, ?_⟩
  · rw [names_alter h]
    split
    · exact hes.names
    · rename_i hname
      exact List.Nodup.append hes.names (List.nodup_singleton name) (by simpa using hname)
  · have hvalues := hes.values
    clear hes
    induction es generalizing es' with
    | nil =>
      obtain ⟨v, hv, rfl⟩ := Option.map_eq_some_iff.mp h
      intro e he
      obtain rfl := List.mem_singleton.mp he
      exact hnew v hv
    | cons e rest ih =>
      obtain ⟨n, w⟩ := e
      have hw : w.Orderly := hvalues (n, w) (by simp)
      have hrest : ∀ e ∈ rest, e.2.Orderly := fun e he => hvalues e (by simp [he])
      rw [Entries.alter] at h
      split at h
      · obtain ⟨v, hv, rfl⟩ := Option.map_eq_some_iff.mp h
        intro e he
        rcases List.mem_cons.mp he with rfl | he
        · exact hold w v hw hv
        · exact hrest e he
      · obtain ⟨tail, htail, rfl⟩ := Option.map_eq_some_iff.mp h
        intro e he
        rcases List.mem_cons.mp he with rfl | he
        · exact hw
        · exact ih htail hrest e he

/-! ## Changing a table inside -/

/-- Work that keeps orderly entries orderly. -/
def Keeps (work : Entries → Option Entries) : Prop :=
  ∀ es es', Orderly es → work es = some es' → Orderly es'

theorem keeps_define (name : String) (hv : v.Orderly) : Keeps (define name v) := by
  intro es es' hes h
  unfold define at h
  split at h
  · cases h
  · rename_i hnone
    obtain rfl := Option.some.inj h
    rw [Bool.not_eq_true, Option.isSome_eq_false_iff, Option.isNone_iff_eq_none] at hnone
    exact hes.append (notMem_of_lookup_eq_none hnone) hv

theorem Keeps.table (hwork : Keeps work) (o : Origin) (hes : Orderly es)
    (h : (work es).map (Value.table o) = some v) : v.Orderly := by
  obtain ⟨es', hes', rfl⟩ := Option.map_eq_some_iff.mp h
  exact orderly_table_iff.mpr (hwork es es' hes hes')

theorem Keeps.inLast (hwork : Keeps work) (hitems : ∀ v ∈ items, v.Orderly)
    (h : under.inLast work items = some v) : v.Orderly := by
  unfold under.inLast at h
  split at h
  · rename_i last inner before hreverse
    have hmem : ∀ v ∈ Value.table last inner :: before, v.Orderly := by
      intro v hv
      rw [← hreverse] at hv
      exact hitems v (List.mem_reverse.mp hv)
    obtain ⟨es', hes', rfl⟩ := Option.map_eq_some_iff.mp h
    refine .tables _ fun w hw => ?_
    rcases List.mem_append.mp hw with hw | hw
    · exact hmem w (List.mem_cons_of_mem _ (List.mem_reverse.mp hw))
    · obtain rfl := List.mem_singleton.mp hw
      have hinner : Orderly inner := orderly_table_iff.mp (hmem _ List.mem_cons_self)
      exact orderly_table_iff.mpr (hwork inner es' hinner hes')
  · cases h

/-- Work at the end of a path of headers. -/
theorem keeps_under (hwork : Keeps work) (path : List String) : Keeps (under work path) := by
  induction path with
  | nil => exact hwork
  | cons name path ih =>
    intro es es' hes h
    rw [under] at h
    refine hes.alter (fun v hv => ih.table .implied orderly_nil hv) (fun w v hw hv => ?_) h
    cases w with
    | table o inner =>
      have hinner : Orderly inner := orderly_table_iff.mp hw
      cases o with
      | inline => cases hv
      | header | implied | dotted => exact ih.table _ hinner hv
    | tables items =>
      cases hw with
      | tables _ hitems => exact ih.inLast hitems hv
    | text | integer | float | boolean | moment | array => cases hv

/-- A value for a dotted key. -/
theorem keeps_assign_go (name : String) (hv : v.Orderly) (mayHold : Bool) (path : List String) :
    Keeps (assign.go name v mayHold path) := by
  induction path generalizing mayHold with
  | nil =>
    intro es es' hes h
    rw [assign.go] at h
    split at h
    · exact keeps_define name hv es es' hes h
    · cases h
  | cons part path ih =>
    intro es es' hes h
    rw [assign.go] at h
    refine hes.alter (fun v hv => (ih true).table .dotted orderly_nil hv) (fun w v hw hv => ?_) h
    cases w with
    | table o inner =>
      have hinner : Orderly inner := orderly_table_iff.mp hw
      cases o with
      | dotted => exact (ih true).table .dotted hinner hv
      | implied => exact (ih false).table .implied hinner hv
      | header | inline => cases hv
    | tables items =>
      cases hw with
      | tables _ hitems => exact (ih false).inLast hitems hv
    | text | integer | float | boolean | moment | array => cases hv

theorem keeps_assign (path : List String) (name : String) (hv : v.Orderly) :
    Keeps (assign path name v) := keeps_assign_go name hv true path

theorem keeps_openTable (path : List String) (name : String) : Keeps (openTable path name) := by
  refine keeps_under (fun es es' hes h => ?_) path
  split at h
  · rename_i hnone
    obtain rfl := Option.some.inj h
    exact hes.append (notMem_of_lookup_eq_none hnone) (orderly_table_iff.mpr orderly_nil)
  · rename_i inner hinner
    obtain rfl := Option.some.inj h
    have hrest : Orderly (es.filter fun e => e.1 ≠ name) :=
      ⟨(List.filter_sublist.map Prod.fst).nodup hes.names,
        fun e he => hes.values e (List.mem_of_mem_filter he)⟩
    refine hrest.append ?_ (orderly_table_iff.mpr (orderly_table_iff.mp (hes.of_lookup hinner)))
    intro hmem
    obtain ⟨e, he, rfl⟩ := List.mem_map.mp hmem
    simp at he
  · cases h

theorem keeps_openItem (path : List String) (name : String) : Keeps (openItem path name) := by
  have hempty : (Value.table .header []).Orderly := orderly_table_iff.mpr orderly_nil
  refine keeps_under (fun es es' hes h => ?_) path
  refine hes.alter (fun v hv => ?_) (fun w v hw hv => ?_) h
  · obtain rfl := Option.some.inj hv
    exact .tables _ (by simpa using hempty)
  · cases w with
    | tables items =>
      obtain rfl := Option.some.inj hv
      cases hw with
      | tables _ hitems =>
        refine .tables _ fun w hw => ?_
        rcases List.mem_append.mp hw with hw | hw
        · exact hitems w hw
        · obtain rfl := List.mem_singleton.mp hw
          exact hempty
    | text | integer | float | boolean | moment | array | table => cases hv

end Entries

/-! ## Scanners -/

/-- Whatever the scanner gives has the property. -/
def Scan.Gives {α : Type} (P : α → Prop) (s : Scan α) : Prop :=
  ∀ cs a rest, s cs = some (a, rest) → P a

section Gives

open Scan (Gives fail orElse)

variable {α β : Type} {P : α → Prop} {Q : β → Prop} {s t : Scan α} {r : Scan β}
  {next : β → Scan α} {a : α}

theorem gives_pure (h : P a) : Gives P (pure a : Scan α) := by
  intro cs b rest hb
  obtain ⟨rfl, -⟩ := Prod.mk.inj (Option.some.inj hb)
  exact h

theorem gives_fail : Gives P (fail : Scan α) := nofun

theorem Scan.Gives.bind (hr : Gives Q r) (h : ∀ b, Q b → Gives P (next b)) :
    Gives P (r >>= next) := by
  intro cs a rest ha
  change Scan.bind r next cs = some (a, rest) at ha
  unfold Scan.bind at ha
  split at ha
  · rename_i b rest' hb
    exact h b (hr cs b rest' hb) rest' a rest ha
  · cases ha

/-- What comes first makes no difference. -/
theorem gives_bind (h : ∀ b, Gives P (next b)) : Gives P (r >>= next) :=
  Scan.Gives.bind (Q := fun _ => True) (fun _ _ _ _ => trivial) fun b _ => h b

theorem Scan.Gives.orElse (hs : Gives P s) (ht : Gives P t) : Gives P (orElse s t) := by
  intro cs a rest h
  rcases Option.or_eq_some_iff.mp h with h | ⟨-, h⟩
  · exact hs cs a rest h
  · exact ht cs a rest h

end Gives

section Values

open Scan (Gives)

variable {value : Scan Value}

theorem gives_text : Gives Value.Orderly text := gives_bind fun s => gives_pure (.text s)

theorem gives_constant (name : String) {v : Value} (hv : v.Orderly) :
    Gives Value.Orderly (constant name v) := gives_bind fun _ => gives_pure hv

theorem gives_moment : Gives Value.Orderly moment :=
  (gives_bind fun _ => gives_bind fun _ => gives_pure .moment).orElse
    (gives_bind fun _ => gives_pure .moment)

theorem gives_fitting (i : Int) : Gives Value.Orderly (fitting i) := by
  unfold fitting
  split
  · exact gives_pure (.integer i)
  · exact gives_fail

theorem gives_integer : Gives Value.Orderly integer := by
  intro cs v rest h
  unfold integer at h
  split at h
  · exact gives_bind (fun ds => gives_fitting _) _ v rest h
  · exact gives_bind (fun ds => gives_fitting _) _ v rest h
  · exact gives_bind (fun ds => gives_fitting _) _ v rest h
  · exact gives_bind (fun _ => gives_bind fun _ => gives_fitting _) _ v rest h

theorem gives_decimal : Gives Value.Orderly decimal := by
  refine gives_bind fun negative => gives_bind fun whole => gives_bind fun part =>
    gives_bind fun power => ?_
  split
  · exact gives_fail
  · dsimp only
    split
    · exact gives_pure (.float _)
    · split
      · exact gives_pure (.float _)
      · exact gives_fail

theorem gives_named : Gives Value.Orderly named := by
  refine gives_bind fun negative => gives_bind fun infinite => ?_
  split
  · exact gives_pure (.float _)
  · exact gives_bind fun _ => gives_pure (.float _)

/-- The items of an array are orderly if its values are. -/
theorem gives_items (hvalue : Gives Value.Orderly value) (fuel : Nat) {out : List Value}
    (hout : ∀ v ∈ out, v.Orderly) :
    Gives (fun vs => ∀ v ∈ vs, v.Orderly) (items value fuel out) := by
  induction fuel generalizing out with
  | zero => exact gives_fail
  | succ fuel ih =>
    refine gives_bind fun _ => gives_bind fun closed => ?_
    split
    · exact gives_pure fun v hv => hout v (List.mem_reverse.mp hv)
    · refine hvalue.bind fun v hv => gives_bind fun _ => gives_bind fun comma => ?_
      have hnext : ∀ w ∈ v :: out, w.Orderly := List.forall_mem_cons.mpr ⟨hv, hout⟩
      split
      · exact ih hnext
      · exact gives_bind fun _ => gives_pure fun w hw => hnext w (List.mem_reverse.mp hw)

theorem gives_array (hvalue : Gives Value.Orderly value) (fuel : Nat) :
    Gives Value.Orderly (array value fuel) :=
  (gives_items hvalue fuel (by simp)).bind fun vs hvs => gives_pure (.array vs hvs)

theorem gives_assignment (hvalue : Gives Value.Orderly value) :
    Gives Entries.Keeps (assignment value) := by
  refine gives_bind fun ⟨before, last⟩ => gives_bind fun _ => gives_bind fun _ => ?_
  exact hvalue.bind fun v hv => gives_pure (Entries.keeps_assign before last hv)

theorem gives_members (hvalue : Gives Value.Orderly value) (fuel : Nat) {es : Entries}
    (hes : es.Orderly) : Gives Entries.Orderly (members value fuel es) := by
  induction fuel generalizing es with
  | zero => exact gives_fail
  | succ fuel ih =>
    refine (gives_assignment hvalue).bind fun change hchange => ?_
    split
    · exact gives_fail
    · rename_i es' hes'
      have hnext : es'.Orderly := hchange es es' hes hes'
      refine gives_bind fun _ => gives_bind fun comma => ?_
      split
      · exact ih hnext
      · exact gives_bind fun _ => gives_pure hnext

theorem gives_braced (hvalue : Gives Value.Orderly value) (fuel : Nat) :
    Gives Value.Orderly (braced value fuel) := by
  refine gives_bind fun _ => gives_bind fun closed => ?_
  split
  · exact gives_pure (Entries.orderly_table_iff.mpr Entries.orderly_nil)
  · exact (gives_members hvalue fuel Entries.orderly_nil).bind fun es hes =>
      gives_pure (Entries.orderly_table_iff.mpr hes)

/-- Every value is orderly, however deep it is nested. -/
theorem gives_value (depth : Nat) : Gives Value.Orderly (Toml.value depth) := by
  have hword : ∀ cs v rest, (((moment cs).or (decimal cs)).or (named cs)).or (integer cs) =
      some (v, rest) → v.Orderly := by
    intro cs v rest h
    exact ((gives_moment.orElse gives_decimal).orElse gives_named).orElse gives_integer cs v rest h
  induction depth using Nat.strongRecOn with
  | _ depth ih =>
    intro cs v rest h
    unfold Toml.value at h
    split at h
    · exact gives_text _ v rest h
    · exact gives_text _ v rest h
    · rename_i _ depth
      exact gives_array (ih depth (Nat.lt_succ_self depth)) _ _ v rest h
    · rename_i _ depth
      exact gives_braced (ih depth (Nat.lt_succ_self depth)) _ _ v rest h
    · exact gives_constant "true" (.boolean true) _ v rest h
    · exact gives_constant "false" (.boolean false) _ v rest h
    · exact hword _ v rest h

end Values

/-! ## Documents -/

section Documents

open Scan (Gives)

theorem gives_header {d : Draft} {define : List String → String → Entries → Option Entries}
    (hd : d.root.Orderly) (hdefine : ∀ path name, Entries.Keeps (define path name))
    (close : List Char) : Gives (fun d => d.root.Orderly) (line.header d define close) := by
  refine gives_bind fun ⟨before, last⟩ => gives_bind fun _ => gives_bind fun _ => ?_
  split
  · rename_i root hroot
    exact gives_pure (hdefine before last d.root root hd hroot)
  · exact gives_fail

theorem gives_line {d : Draft} (hd : d.root.Orderly) :
    Gives (fun d => d.root.Orderly) (line d) := by
  intro cs d' rest h
  unfold line at h
  split at h
  · exact gives_header hd Entries.keeps_openItem _ _ d' rest h
  · exact gives_header hd Entries.keeps_openTable _ _ d' rest h
  · refine Scan.Gives.bind (P := fun d => d.root.Orderly) (gives_assignment (gives_value _)) ?_
      _ d' rest h
    intro change hchange
    refine gives_bind fun _ => ?_
    split
    · rename_i root hroot
      exact gives_pure (Entries.keeps_under hchange d.current d.root root hd hroot)
    · exact gives_fail

theorem gives_lines (fuel : Nat) {d : Draft} (hd : d.root.Orderly) :
    Gives (fun d => d.root.Orderly) (lines fuel d) := by
  induction fuel generalizing d with
  | zero => exact gives_bind fun _ => gives_pure hd
  | succ fuel ih =>
    refine gives_bind fun _ => gives_bind fun next => ?_
    split
    · exact gives_pure hd
    · exact (gives_line hd).bind fun d' hd' => ih hd'

/-- **No table of a document has two entries of one name.** -/
theorem orderly_of_entries? {text : String} {entries : Entries} (h : entries? text = some entries) :
    entries.Orderly := by
  unfold entries? at h
  dsimp only at h
  split at h
  · rename_i d hlines
    obtain rfl := Option.some.inj h
    exact gives_lines _ Entries.orderly_nil _ d [] hlines
  · cases h

end Documents

end StageLens.Toml
