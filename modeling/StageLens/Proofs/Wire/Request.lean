import StageLens.Proofs.Failing
import StageLens.Proofs.Json.Overflow
import StageLens.Proofs.Wire.Reading
import StageLens.Wire.Request

/-!
# Which requests are read

A request is read from an object in two passes: the source and the soundness of all other members
as they come, the switches when the object has ended. `Asks` says what this comes to: the source is
there once, each switch at most once under either of its names. The order of the members does not
matter, nor do members of other names, except that a number that is too large or half a surrogate
pair spoils the object wherever it stands (`readRequest_eq_ok_iff`).
-/

namespace StageLens

open StageLens.Json (Draft)
open StageLens.Number.Binary64 (limit limit_pos)

/-! ## Whole values -/

/-- A value that was read to its end, with at most so many arrays and objects inside one another. -/
inductive Json.Draft.Within : Nat → Draft → Prop
  | null (depth : Nat) : Within depth .null
  | boolean (depth : Nat) (b : Bool) : Within depth (.boolean b)
  | number (depth : Nat) (n : Json.Numeral) : Within depth (.number n)
  | text (depth : Nat) (s : Option String) : Within depth (.text s)
  | array (depth : Nat) (items : List Draft) : (∀ d ∈ items, Within depth d) →
      Within (depth + 1) (.array items none)
  | object (depth : Nat) (members : List (Option String × Draft)) :
      (∀ m ∈ members, Within depth m.2) → Within (depth + 1) (.object members none)

/-- A value that can be kept: no number in it is too large, and no text and no key holds half a
surrogate pair. -/
inductive Json.Draft.Sound : Draft → Prop
  | null : Sound .null
  | boolean (b : Bool) : Sound (.boolean b)
  | number (n : Json.Numeral) : ¬ n.Overflows → Sound (.number n)
  | text (s : String) : Sound (.text (some s))
  | array (items : List Draft) : (∀ d ∈ items, Sound d) → Sound (.array items none)
  | object (members : List (Option String × Draft)) : (∀ m ∈ members, m.1.isSome = true) →
      (∀ m ∈ members, Sound m.2) → Sound (.object members none)

namespace Json.Draft

variable {n : Json.Numeral} {s : Option String} {items : List Draft}
variable {members : List (Option String × Draft)}

theorem sound_number_iff : (number n).Sound ↔ ¬ n.Overflows := by
  constructor
  · rintro ⟨⟩
    assumption
  · exact .number n

theorem sound_text_iff : (text s).Sound ↔ s.isSome = true := by
  constructor
  · rintro ⟨⟩
    rfl
  · intro hs
    obtain ⟨a, rfl⟩ := Option.isSome_iff_exists.mp hs
    exact .text a

theorem sound_array_iff : (array items none).Sound ↔ ∀ d ∈ items, d.Sound := by
  constructor
  · rintro ⟨⟩
    assumption
  · exact .array items

theorem sound_object_iff :
    (object members none).Sound ↔ ∀ m ∈ members, m.1.isSome = true ∧ m.2.Sound := by
  constructor
  · rintro ⟨⟩
    rename_i hkeys hvalues
    exact fun m hm => ⟨hkeys m hm, hvalues m hm⟩
  · intro h
    exact .object members (fun m hm => (h m hm).1) fun m hm => (h m hm).2

/-- No number in a sound value is too large. -/
theorem Sound.not_overflows {d : Draft} (hd : d.Sound) (h : d.Holds n) : ¬ n.Overflows := by
  induction h with
  | here => exact sound_number_iff.mp hd
  | item items stop d hmem _ ih =>
    cases hd with
    | array _ hitems => exact ih (hitems d hmem)
  | member members stop m hmem _ ih =>
    cases hd with
    | object _ _ hvalues => exact ih (hvalues m hmem)

end Json.Draft

namespace Wire

/-- A whole value is kept without a fault if it is sound. -/
theorem keep_eq_none_iff {depth : Nat} {d : Draft} (h : d.Within depth) :
    keep depth d = none ↔ d.Sound := by
  induction h with
  | null _ => simp [keep, Draft.Sound.null]
  | boolean _ b => simp [keep, Draft.Sound.boolean]
  | number _ n =>
    rw [keep, Draft.sound_number_iff, ← Json.Numeral.value_eq_none_iff]
    cases n.value <;> simp
  | text _ s =>
    rw [keep, Draft.sound_text_iff]
    cases s <;> simp
  | array depth items _ ih =>
    rw [keep, Option.map_none, Option.or_none, List.findSome?_eq_none_iff, Draft.sound_array_iff]
    exact forall₂_congr ih
  | object depth members _ ih =>
    rw [keep, Option.map_none, Option.or_none, List.findSome?_eq_none_iff, Draft.sound_object_iff]
    refine forall₂_congr fun m hm => ?_
    rw [← ih m hm]
    cases m.1 <;> simp

/-! ## Fields -/

/-- A field has this value after these values were given for it: it stays as it is without one, and
it may be set once. -/
inductive Gives {α : Type} (read : Draft → Read α) : Option α → List Draft → Option α → Prop
  | absent (old : Option α) : Gives read old [] old
  | given (d : Draft) (a : α) : read d = .ok a → Gives read none [d] (some a)

section Fields

variable {α : Type} {read : Draft → Read α} {old new : Option α} {d : Draft} {ds : List Draft}

theorem gives_nil_iff : Gives read old [] new ↔ old = new := by
  constructor
  · rintro ⟨⟩
    rfl
  · rintro rfl
    exact .absent old

theorem gives_singleton_iff :
    Gives read old [d] new ↔ old = none ∧ ∃ a, read d = .ok a ∧ some a = new := by
  constructor
  · rintro ⟨⟩
    exact ⟨rfl, _, ‹_›, rfl⟩
  · rintro ⟨rfl, a, hread, rfl⟩
    exact .given d a hread

/-- A member sets its field. -/
theorem map_once_eq_ok_iff {β : Type} {name : String} {x : Read α} {g : Option α → β} {b : β} :
    g <$> once name old x = .ok b ↔ old = none ∧ ∃ a, x = .ok a ∧ g (some a) = b := by
  cases old with
  | some a => exact ⟨nofun, nofun⟩
  | none => cases x <;> simp [once]

/-- What was given first decides what may follow. -/
theorem gives_append_iff {es : List Draft} : Gives read old (ds ++ es) new ↔
    ∃ next, Gives read old ds next ∧ Gives read next es new := by
  constructor
  · intro h
    cases ds with
    | nil => exact ⟨old, .absent old, h⟩
    | cons d rest =>
      rw [List.cons_append] at h
      generalize hnil : rest ++ es = tail at h
      cases h with
      | given d a hread =>
        obtain ⟨rfl, rfl⟩ := List.append_eq_nil_iff.mp hnil
        exact ⟨some a, .given d a hread, .absent _⟩
  · rintro ⟨next, hfirst, hrest⟩
    cases hfirst with
    | absent => exact hrest
    | given d a hread =>
      cases hrest with
      | absent => exact .given d a hread

end Fields

theorem asText_eq_ok_iff {d : Draft} {s : String} : asText d = .ok s ↔ d = .text (some s) := by
  constructor
  · intro h
    unfold asText at h
    split at h
    · cases h
      rfl
    · exact absurd h (wrongType_ne_ok _ _ _)
  · rintro rfl
    rfl

theorem asBoolean_eq_ok_iff {d : Draft} {b : Bool} : asBoolean d = .ok b ↔ d = .boolean b := by
  constructor
  · intro h
    unfold asBoolean at h
    split at h
    · cases h
      rfl
    · exact absurd h (wrongType_ne_ok _ _ _)
  · rintro rfl
    rfl

/-! ## Members by name -/

/-- The values of the members that have one of these names, in their order. -/
def valuesOf (names : List String) (members : List (Option String × Draft)) : List Draft :=
  (members.filter fun m => m.1.any names.contains).map Prod.snd

/-- The members that have a name, but not that of the source. -/
def others (members : List (Option String × Draft)) : List (String × Draft) :=
  members.filterMap fun m => (m.1.filter (· ≠ "source")).map (·, m.2)

/-- Members as they stand in an object. -/
def asMembers (named : List (String × Draft)) : List (Option String × Draft) :=
  named.map fun m => (some m.1, m.2)

section Members

variable {names : List String} {key : String} {d : Draft}
variable {members : List (Option String × Draft)}

theorem valuesOf_nil : valuesOf names [] = [] := rfl

theorem valuesOf_singleton :
    valuesOf names [(some key, d)] = if key ∈ names then [d] else [] := by
  unfold valuesOf
  by_cases h : key ∈ names <;> simp [h]

theorem valuesOf_cons (m : Option String × Draft) :
    valuesOf names (m :: members) = valuesOf names [m] ++ valuesOf names members := by
  unfold valuesOf
  rw [← List.map_append, ← List.filter_append, List.singleton_append]

theorem others_cons_source : others ((some "source", d) :: members) = others members := rfl

theorem others_cons_of_ne (h : key ≠ "source") :
    others ((some key, d) :: members) = (key, d) :: others members := by
  simp [others, h]

/-- The other members are all the members of a name that is not that of the source. -/
theorem valuesOf_others (h : "source" ∉ names) (members : List (Option String × Draft)) :
    valuesOf names (asMembers (others members)) = valuesOf names members := by
  induction members with
  | nil => rfl
  | cons m rest ih =>
    obtain ⟨key, d⟩ := m
    rw [valuesOf_cons, ← ih]
    cases key with
    | none => rfl
    | some key =>
      by_cases hkey : key = "source"
      · subst hkey
        rw [valuesOf_singleton, if_neg h]
        rfl
      · rw [others_cons_of_ne hkey]
        exact valuesOf_cons (some key, d)

end Members

/-! ## The two passes -/

/-- Each switch has the value that was given for it under any of its names. -/
structure SwitchesGive (f : OptionFields) (members : List (Option String × Draft))
    (f' : OptionFields) : Prop where
  demangle : Gives asBoolean f.demangle (valuesOf ["demangle"] members) f'.demangle
  optimize : Gives asBoolean f.optimize (valuesOf ["optimize"] members) f'.optimize
  wholeModule : Gives asBoolean f.wholeModule
    (valuesOf ["wholeModuleOptimization", "moduleOptimize"] members) f'.wholeModule
  asLibrary : Gives asBoolean f.asLibrary (valuesOf ["parseAsLibrary"] members) f'.asLibrary

theorem switchesGive_cons_iff {f f' : OptionFields} {m : Option String × Draft}
    {members : List (Option String × Draft)} :
    SwitchesGive f (m :: members) f' ↔
      ∃ next, SwitchesGive f [m] next ∧ SwitchesGive next members f' := by
  constructor
  · rintro ⟨h₁, h₂, h₃, h₄⟩
    rw [valuesOf_cons, gives_append_iff] at h₁ h₂ h₃ h₄
    obtain ⟨a, ha, ha'⟩ := h₁
    obtain ⟨b, hb, hb'⟩ := h₂
    obtain ⟨c, hc, hc'⟩ := h₃
    obtain ⟨d, hd, hd'⟩ := h₄
    exact ⟨⟨a, b, c, d⟩, ⟨ha, hb, hc, hd⟩, ⟨ha', hb', hc', hd'⟩⟩
  · rintro ⟨next, h, h'⟩
    constructor <;> rw [valuesOf_cons, gives_append_iff]
    · exact ⟨_, h.demangle, h'.demangle⟩
    · exact ⟨_, h.optimize, h'.optimize⟩
    · exact ⟨_, h.wholeModule, h'.wholeModule⟩
    · exact ⟨_, h.asLibrary, h'.asLibrary⟩

theorem switchesGive_iff {f f' : OptionFields} {members : List (Option String × Draft)} :
    SwitchesGive f members f' ↔
      Gives asBoolean f.demangle (valuesOf ["demangle"] members) f'.demangle ∧
      Gives asBoolean f.optimize (valuesOf ["optimize"] members) f'.optimize ∧
      Gives asBoolean f.wholeModule
        (valuesOf ["wholeModuleOptimization", "moduleOptimize"] members) f'.wholeModule ∧
      Gives asBoolean f.asLibrary (valuesOf ["parseAsLibrary"] members) f'.asLibrary :=
  ⟨fun h => ⟨h.1, h.2, h.3, h.4⟩, fun h => ⟨h.1, h.2.1, h.2.2.1, h.2.2.2⟩⟩

/-- One member is taken as the switch that it names. -/
theorem take?_eq_ok_iff {f f' : OptionFields} {key : String} {d : Draft} :
    (f.take? key d).getD (.ok f) = .ok f' ↔ SwitchesGive f [(some key, d)] f' := by
  obtain ⟨a, b, c, e⟩ := f'
  obtain ⟨a', b', c', e'⟩ := f
  rw [switchesGive_iff]
  simp only [valuesOf_singleton, List.mem_cons, List.not_mem_nil, or_false]
  by_cases hdemangle : key = "demangle"
  · simp [OptionFields.take?, hdemangle, map_once_eq_ok_iff, gives_nil_iff, gives_singleton_iff]
    tauto
  by_cases hoptimize : key = "optimize"
  · simp [OptionFields.take?, hoptimize, map_once_eq_ok_iff, gives_nil_iff, gives_singleton_iff]
    tauto
  by_cases hwhole : key = "wholeModuleOptimization" ∨ key = "moduleOptimize"
  · simp only [hwhole, if_true]
    have hlibrary : key ≠ "parseAsLibrary" := by
      rcases hwhole with rfl | rfl <;> decide
    simp [OptionFields.take?, hdemangle, hoptimize, hwhole, hlibrary, map_once_eq_ok_iff,
      gives_nil_iff, gives_singleton_iff]
    tauto
  by_cases hlibrary : key = "parseAsLibrary"
  · simp [OptionFields.take?, hlibrary, map_once_eq_ok_iff, gives_nil_iff, gives_singleton_iff]
    tauto
  · simp [OptionFields.take?, hdemangle, hoptimize, hwhole, hlibrary, gives_nil_iff]

theorem foldlM_switches_eq_ok_iff (named : List (String × Draft)) (f f' : OptionFields) :
    named.foldlM (fun f m => (f.take? m.1 m.2).getD (.ok f)) f = .ok f' ↔
      SwitchesGive f (asMembers named) f' := by
  induction named generalizing f with
  | nil =>
    constructor
    · rintro ⟨⟩
      exact ⟨.absent _, .absent _, .absent _, .absent _⟩
    · rintro ⟨h₁, h₂, h₃, h₄⟩
      obtain ⟨a, b, c, e⟩ := f'
      obtain rfl := gives_nil_iff.mp h₁
      obtain rfl := gives_nil_iff.mp h₂
      obtain rfl := gives_nil_iff.mp h₃
      obtain rfl := gives_nil_iff.mp h₄
      rfl
  | cons m rest ih =>
    rw [foldlM_cons_eq_ok_iff]
    show _ ↔ SwitchesGive f ((some m.1, m.2) :: asMembers rest) f'
    rw [switchesGive_cons_iff]
    exact exists_congr fun next => and_congr take?_eq_ok_iff (ih next)

/-- A member that can be kept: it has a name, and its value is kept without a fault or is that of
the source, which is read at once. -/
def Kept (m : Option String × Draft) : Prop :=
  m.1.isSome = true ∧ (m.1 ≠ some "source" → keep (depthLimit - 1) m.2 = none)

theorem kept_source (d : Draft) : Kept (some "source", d) := ⟨rfl, fun h => absurd rfl h⟩

theorem kept_of_ne {key : String} {d : Draft} (h : key ≠ "source") :
    Kept (some key, d) ↔ keep (depthLimit - 1) d = none := by
  simp [Kept, h]

theorem foldMembers_take_eq_ok_iff (members : List (Option String × Draft))
    (f f' : RequestFields) :
    foldMembers RequestFields.take f members none = .ok f' ↔
      (∀ m ∈ members, Kept m) ∧
        Gives asText f.source (valuesOf ["source"] members) f'.source ∧
        f'.others = (others members).reverse ++ f.others := by
  induction members generalizing f with
  | nil =>
    obtain ⟨source, named⟩ := f
    obtain ⟨source', named'⟩ := f'
    simp [foldMembers_nil, valuesOf_nil, gives_nil_iff, others, eq_comm]
  | cons m rest ih =>
    obtain ⟨key, d⟩ := m
    rw [List.forall_mem_cons, valuesOf_cons, gives_append_iff]
    cases key with
    | none =>
      constructor
      · exact nofun
      · rintro ⟨⟨hkept, -⟩, -⟩
        cases hkept.1
    | some key =>
      rw [foldMembers_cons]
      show (f.take key d >>= _) = _ ↔ _
      rw [bind_eq_ok_iff]
      by_cases hkey : key = "source"
      · subst hkey
        simp only [RequestFields.take, if_true, bind_pure_comp, map_once_eq_ok_iff, ih,
          valuesOf_singleton, List.mem_singleton, gives_singleton_iff, kept_source,
          others_cons_source, true_and]
        constructor
        · rintro ⟨next, ⟨hnone, a, ha, rfl⟩, hkept, hgives, hothers⟩
          exact ⟨hkept, ⟨some a, ⟨hnone, a, ha, rfl⟩, hgives⟩, hothers⟩
        · rintro ⟨hkept, ⟨_, ⟨hnone, a, ha, rfl⟩, hgives⟩, hothers⟩
          exact ⟨_, ⟨hnone, a, ha, rfl⟩, hkept, hgives, hothers⟩
      · have htake : ∀ next, f.take key d = .ok next ↔
            keep (depthLimit - 1) d = none ∧ { f with others := (key, d) :: f.others } = next := by
          intro next
          rw [RequestFields.take, if_neg hkey, bind_eq_ok_iff]
          cases keep (depthLimit - 1) d <;> simp [checkFault, pure, Except.pure]
        have hnames : key ∉ ["source"] := by simpa using hkey
        simp only [htake, ih, valuesOf_singleton, if_neg hnames, gives_nil_iff, kept_of_ne hkey,
          others_cons_of_ne hkey, List.reverse_cons, List.append_assoc, List.singleton_append]
        constructor
        · rintro ⟨next, ⟨hkeep, rfl⟩, hkept, hgives, hothers⟩
          exact ⟨⟨hkeep, hkept⟩, ⟨f.source, rfl, hgives⟩, hothers⟩
        · rintro ⟨⟨hkeep, hkept⟩, ⟨_, rfl, hgives⟩, hothers⟩
          exact ⟨_, ⟨hkeep, rfl⟩, hkept, hgives, hothers⟩

/-! ## Requests -/

/-- A switch is given once, with this value, or not at all and is off. -/
def Switched (members : List (Option String × Draft)) (names : List String) (b : Bool) : Prop :=
  valuesOf names members = [.boolean b] ∨ valuesOf names members = [] ∧ b = false

/-- The members of an object ask for a request, in any order and among any others. -/
structure Asks (members : List (Option String × Draft)) (r : Request) : Prop where
  source : valuesOf ["source"] members = [.text (some r.source)]
  demangle : Switched members ["demangle"] r.options.demangle
  optimize : Switched members ["optimize"] r.options.optimize
  wholeModule : Switched members ["wholeModuleOptimization", "moduleOptimize"]
    r.options.wholeModule
  asLibrary : Switched members ["parseAsLibrary"] r.options.asLibrary

variable {members : List (Option String × Draft)} {r : Request}

/-- A switch that was given at most once ends up with its value. -/
theorem exists_gives_iff {ds : List Draft} {b : Bool} :
    (∃ new, Gives asBoolean none ds new ∧ new.getD false = b) ↔
      ds = [.boolean b] ∨ ds = [] ∧ b = false := by
  constructor
  · rintro ⟨_, ⟨⟩ | ⟨d, a, ha⟩, rfl⟩
    · exact .inr ⟨rfl, rfl⟩
    · rw [asBoolean_eq_ok_iff.mp ha]
      exact .inl rfl
  · rintro (rfl | ⟨rfl, rfl⟩)
    · exact ⟨some b, .given _ b rfl, rfl⟩
    · exact ⟨none, .absent none, rfl⟩

/-- The second pass finds the switches of a request. -/
theorem exists_switches_iff {o : Options} :
    (∃ f, switches (others members) = .ok f ∧ f.options = o) ↔
      Switched members ["demangle"] o.demangle ∧ Switched members ["optimize"] o.optimize ∧
      Switched members ["wholeModuleOptimization", "moduleOptimize"] o.wholeModule ∧
      Switched members ["parseAsLibrary"] o.asLibrary := by
  obtain ⟨a, b, c, e⟩ := o
  unfold Switched
  rw [← exists_gives_iff, ← exists_gives_iff, ← exists_gives_iff, ← exists_gives_iff]
  unfold switches
  simp only [foldlM_switches_eq_ok_iff, switchesGive_iff]
  rw [valuesOf_others (by decide), valuesOf_others (by decide), valuesOf_others (by decide),
    valuesOf_others (by decide)]
  constructor
  · rintro ⟨f, ⟨h₁, h₂, h₃, h₄⟩, hf⟩
    cases hf
    exact ⟨⟨_, h₁, rfl⟩, ⟨_, h₂, rfl⟩, ⟨_, h₃, rfl⟩, ⟨_, h₄, rfl⟩⟩
  · rintro ⟨⟨_, h₁, rfl⟩, ⟨_, h₂, rfl⟩, ⟨_, h₃, rfl⟩, ⟨_, h₄, rfl⟩⟩
    exact ⟨⟨_, _, _, _⟩, ⟨h₁, h₂, h₃, h₄⟩, rfl⟩

theorem mem_valuesOf {names : List String} {m : Option String × Draft} {key : String}
    (hnames : key ∈ names) (hm : m ∈ members) (hkey : m.1 = some key) :
    m.2 ∈ valuesOf names members := by
  refine List.mem_map_of_mem (List.mem_filter.mpr ⟨hm, ?_⟩)
  rw [hkey]
  exact List.contains_iff_mem.mpr hnames

/-- Members that can be read wherever they stand: keys without half a surrogate pair, and sound
values. -/
def SoundMembers (members : List (Option String × Draft)) : Prop :=
  ∀ m ∈ members, m.1.isSome = true ∧ m.2.Sound

/-- **An object is read as the request that it asks for**, if it asks for one and is sound. -/
theorem readRequest_eq_ok_iff (hwithin : ∀ m ∈ members, m.2.Within (depthLimit - 1)) :
    readRequest (.object members none) = .ok r ↔ Asks members r ∧ SoundMembers members := by
  have hpasses : readRequest (.object members none) = .ok r ↔
      ∃ f, foldMembers RequestFields.take {} members none = .ok f ∧ f.source = some r.source ∧
        ∃ o, switches f.others.reverse = .ok o ∧ o.options = r.options := by
    obtain ⟨source, o⟩ := r
    unfold readRequest
    simp only [bind_eq_ok_iff]
    refine exists_congr fun f => and_congr_right fun _ => ?_
    cases f.source with
    | none => simp [required, mismatch]
    | some s => simp [required, pure, Except.pure, and_left_comm]
  rw [hpasses]
  constructor
  · rintro ⟨f, hfold, hsource, hswitches⟩
    obtain ⟨hkept, hgives, hothers⟩ := (foldMembers_take_eq_ok_iff _ _ _).mp hfold
    rw [hothers, List.append_nil, List.reverse_reverse] at hswitches
    obtain ⟨h₁, h₂, h₃, h₄⟩ := exists_switches_iff.mp hswitches
    have hvalue : valuesOf ["source"] members = [.text (some r.source)] := by
      rw [hsource] at hgives
      generalize valuesOf ["source"] members = values at hgives
      cases hgives with
      | given d a hread => rw [asText_eq_ok_iff.mp hread]
    refine ⟨⟨hvalue, h₁, h₂, h₃, h₄⟩, fun m hm => ⟨(hkept m hm).1, ?_⟩⟩
    by_cases hkey : m.1 = some "source"
    · have hmem := mem_valuesOf (List.mem_singleton_self "source") hm hkey
      rw [hvalue, List.mem_singleton] at hmem
      rw [hmem]
      exact .text r.source
    · exact (keep_eq_none_iff (hwithin m hm)).mp ((hkept m hm).2 hkey)
  · rintro ⟨⟨hvalue, h₁, h₂, h₃, h₄⟩, hsound⟩
    refine ⟨⟨some r.source, (others members).reverse⟩, ?_, rfl, ?_⟩
    · refine (foldMembers_take_eq_ok_iff _ _ _).mpr
        ⟨fun m hm => ⟨(hsound m hm).1, fun _ => ?_⟩, ?_, ?_⟩
      · exact (keep_eq_none_iff (hwithin m hm)).mpr (hsound m hm).2
      · rw [hvalue]
        exact .given _ _ rfl
      · rw [List.append_nil]
    · rw [List.reverse_reverse]
      exact exists_switches_iff.mpr ⟨h₁, h₂, h₃, h₄⟩

/-- A request is read as it was written. -/
theorem readRequest_draft (r : Request) : readRequest (Json.draft (ofRequest r)) = .ok r := by
  obtain ⟨source, demangle, optimize, wholeModule, asLibrary⟩ := r
  rfl

/-! ## Documents of requests -/

/-- A text is an object with these members, all of them whole values within the limit of nesting. -/
structure IsObject (text : List Char) (members : List (Option String × Draft)) : Prop where
  read : Json.read text = ⟨.object members none, false⟩
  within : ∀ m ∈ members, m.2.Within (depthLimit - 1)

/-- All names that mean something in a request. -/
def fieldNames : List String :=
  ["source", "demangle", "optimize", "wholeModuleOptimization", "moduleOptimize", "parseAsLibrary"]

/-- The members that mean something. -/
def known (members : List (Option String × Draft)) : List (Option String × Draft) :=
  members.filter fun m => m.1.any fieldNames.contains

theorem valuesOf_known {names : List String} (h : ∀ name ∈ names, name ∈ fieldNames)
    (members : List (Option String × Draft)) :
    valuesOf names (known members) = valuesOf names members := by
  unfold valuesOf known
  rw [List.filter_filter]
  congr 2
  funext m
  cases m.1 with
  | none => rfl
  | some key =>
    by_cases hkey : key ∈ names
    · simp [hkey, h key hkey]
    · simp [hkey]

/-- The values of a name do not depend on the order of the other members. -/
theorem valuesOf_perm {names : List String} {members' : List (Option String × Draft)}
    (h : ∀ name ∈ names, name ∈ fieldNames) (hperm : (known members).Perm (known members')) :
    (valuesOf names members).Perm (valuesOf names members') := by
  rw [← valuesOf_known h members, ← valuesOf_known h members']
  exact (hperm.filter _).map _

theorem Switched.of_perm {members' : List (Option String × Draft)} {names : List String} {b : Bool}
    (h : Switched members names b) (hnames : ∀ name ∈ names, name ∈ fieldNames)
    (hperm : (known members).Perm (known members')) : Switched members' names b := by
  have hvalues := valuesOf_perm hnames hperm
  rcases h with hone | ⟨hnone, hoff⟩
  · rw [hone] at hvalues
    exact .inl (List.singleton_perm.mp hvalues).symm
  · rw [hnone] at hvalues
    exact .inr ⟨hvalues.symm.eq_nil, hoff⟩

/-- What members ask for depends neither on their order nor on unknown ones. -/
theorem Asks.of_perm {members' : List (Option String × Draft)} (h : Asks members r)
    (hperm : (known members).Perm (known members')) : Asks members' r where
  source := by
    have hnames : ∀ name ∈ ["source"], name ∈ fieldNames := by decide
    have hvalues := valuesOf_perm hnames hperm
    rw [h.source] at hvalues
    exact (List.singleton_perm.mp hvalues).symm
  demangle := h.demangle.of_perm (by decide) hperm
  optimize := h.optimize.of_perm (by decide) hperm
  wholeModule := h.wholeModule.of_perm (by decide) hperm
  asLibrary := h.asLibrary.of_perm (by decide) hperm

/-- **A request is read from exactly the objects that ask for it.** An object with whole values
within the limit of nesting, whatever members it has and however often, is read as a request if

* the source is there once and is a text, each switch at most once and is a boolean, where module
  optimization counts under both of its names; the request then has that source and these switches,
  and those that are not there are off;
* no number in it is too large in the way in which numbers are read, and no text and no key holds
  half a surrogate pair, not even in members that mean nothing.

The order of the members and unknown ones make no difference as long as they can be read, and every
request is read back from its own document. A number below the limit by one part in `2 ^ 50` or more
is not too large, and one as far above it spoils the object, wherever it stands. -/
theorem requests_are_read_exactly :
    (∀ text members r, IsObject text members →
      (document readRequest text = .ok r ↔ Asks members r ∧ SoundMembers members)) ∧
    (∀ text text' members members', IsObject text members → IsObject text' members' →
      SoundMembers members → SoundMembers members' → (known members).Perm (known members') →
      ∀ r, document readRequest text = .ok r ↔ document readRequest text' = .ok r) ∧
    (∀ r : Request, document readRequest (ofRequest r).compact.toList = .ok r ∧
      document readRequest (ofRequest r).pretty.toList = .ok r) ∧
    (∀ text members n, IsObject text members → (∃ m ∈ members, m.2.Holds n) →
      n.writtenExponent.natAbs ≤ Json.exponentMax →
      (n.writtenValue ≤ (1 - 1 / 2 ^ 50) * limit → (Draft.number n).Sound) ∧
      ((1 + 1 / 2 ^ 50) * limit ≤ n.writtenValue → ∀ r, document readRequest text ≠ .ok r)) := by
  have hexact : ∀ text members r, IsObject text members →
      (document readRequest text = .ok r ↔ Asks members r ∧ SoundMembers members) := by
    intro text members r h
    rw [document_of_read h.read]
    exact readRequest_eq_ok_iff h.within
  refine ⟨hexact, ?_, fun r => ⟨?_, ?_⟩, ?_⟩
  · intro text text' members members' h h' hsound hsound' hperm r
    rw [hexact text members r h, hexact text' members' r h']
    constructor
    · exact fun hasks => ⟨hasks.1.of_perm hperm, hsound'⟩
    · exact fun hasks => ⟨hasks.1.of_perm hperm.symm, hsound⟩
  · rw [document_of_read (Json.read_compact _), readRequest_draft]
  · rw [document_of_read (Json.read_pretty _), readRequest_draft]
  · rintro text members n h ⟨m, hm, hn⟩ hwritten
    have hdecimal : n.IsDecimal := by
      have hroot : (Json.read text).root.Holds n := by
        rw [h.read]
        exact .member members none m hm hn
      exact Json.isDecimal_of_holds hroot
    constructor
    · intro hsmall
      exact .number n (Json.Numeral.not_overflows_of_le hdecimal hwritten hsmall)
    · intro hlarge r hr
      have hsound := ((hexact text members r h).mp hr).2 m hm
      exact hsound.2.not_overflows hn (Json.Numeral.overflows_of_limit_le hdecimal hwritten hlarge)

/-- An object with a value that cannot be kept is no request, wherever the value stands. -/
theorem not_read_of_not_sound {text : List Char} {m : Option String × Draft}
    (h : IsObject text members) (hm : m ∈ members) (hsound : ¬ m.2.Sound) (r : Request) :
    document readRequest text ≠ .ok r := by
  intro hr
  rw [document_of_read h.read, readRequest_eq_ok_iff h.within] at hr
  exact hsound (hr.2 m hm).2

/-- A power of ten that is far too large. -/
def power400 : Json.Numeral := ⟨false, ['1'], [], some (false, ['4', '0', '0'])⟩

theorem limit_le_power400 : (1 + 1 / 2 ^ 50) * limit ≤ power400.writtenValue := by
  have hvalue : power400.writtenValue = 10 ^ 400 := by
    show ((1 : Nat) : ℚ) * 10 ^ ((400 : Nat) : Int) = 10 ^ 400
    rw [Nat.cast_one, one_mul, zpow_natCast]
  calc (1 + 1 / 2 ^ 50) * limit ≤ 10 * 10 ^ (Json.greatestPower + 1) :=
        mul_le_mul (by norm_num) Json.limit_lt_pow.le limit_pos.le (by norm_num)
    _ = 10 ^ (Json.greatestPower + 2) := by ring
    _ ≤ 10 ^ 400 := pow_le_pow_right₀ (by norm_num) (by decide)
    _ = power400.writtenValue := hvalue.symm

/-- An object with that number in a member that means nothing. -/
def overflowing : List Char := "\x7b\"source\":\"a\",\"unknown\":1e400\x7d".toList

def overflowingMembers : List (Option String × Draft) :=
  [(some "source", .text (some "a")), (some "unknown", .number power400)]

theorem isObject_overflowing : IsObject overflowing overflowingMembers := by
  refine ⟨by rfl, ?_⟩
  simp only [overflowingMembers, List.forall_mem_cons]
  exact ⟨.text _ _, .number _ _, nofun⟩

/-- An object with half a surrogate pair in such a member. -/
def halved : List Char := "\x7b\"source\":\"a\",\"unknown\":\"\\ud800\"\x7d".toList

/-- Both ask for a request, but they are not read as one. -/
theorem requests_are_read_exactly_spoiled :
    (∃ members, IsObject overflowing members ∧ Asks members ⟨"a", {}⟩ ∧
      ∀ r, document readRequest overflowing ≠ .ok r) ∧
    (∃ members, IsObject halved members ∧ Asks members ⟨"a", {}⟩ ∧
      ∀ r, document readRequest halved ≠ .ok r) := by
  constructor
  · refine ⟨_, isObject_overflowing,
      ⟨rfl, .inr ⟨rfl, rfl⟩, .inr ⟨rfl, rfl⟩, .inr ⟨rfl, rfl⟩, .inr ⟨rfl, rfl⟩⟩, ?_⟩
    refine not_read_of_not_sound isObject_overflowing
      (List.mem_cons_of_mem _ List.mem_cons_self) ?_
    rw [Json.Draft.sound_number_iff, ← Json.Numeral.value_eq_none_iff]
    decide +kernel
  · have hobject : IsObject halved
        [(some "source", .text (some "a")), (some "unknown", .text none)] := by
      refine ⟨by rfl, ?_⟩
      simp only [List.forall_mem_cons]
      exact ⟨.text _ _, .text _ _, nofun⟩
    refine ⟨_, hobject,
      ⟨rfl, .inr ⟨rfl, rfl⟩, .inr ⟨rfl, rfl⟩, .inr ⟨rfl, rfl⟩, .inr ⟨rfl, rfl⟩⟩, ?_⟩
    refine not_read_of_not_sound hobject (List.mem_cons_of_mem _ List.mem_cons_self) ?_
    rw [Json.Draft.sound_text_iff]
    decide

/-- An object that has a switch under its other name, and a member that means nothing. -/
def shuffled : List Char :=
  ("\x7b\"moduleOptimize\":true,\"?\":[\x7b\"source\":1\x7d]," ++
    "\"source\":\"x\",\"demangle\":false\x7d").toList

def shuffledMembers : List (Option String × Draft) :=
  [(some "moduleOptimize", .boolean true),
    (some "?", .array [.object [(some "source", .number ⟨false, ['1'], [], none⟩)] none] none),
    (some "source", .text (some "x")), (some "demangle", .boolean false)]

theorem isObject_shuffled : IsObject shuffled shuffledMembers := by
  refine ⟨by rfl, ?_⟩
  simp only [shuffledMembers, List.forall_mem_cons]
  refine ⟨.boolean _ _, .array _ _ ?_, .text _ _, .boolean _ _, nofun⟩
  simp only [List.forall_mem_cons]
  refine ⟨.object _ _ ?_, nofun⟩
  simp only [List.forall_mem_cons]
  exact ⟨.number _ _, nofun⟩

theorem soundMembers_shuffled : SoundMembers shuffledMembers := by
  unfold SoundMembers
  simp only [shuffledMembers, List.forall_mem_cons, Json.Draft.sound_array_iff,
    Json.Draft.sound_object_iff, Json.Draft.sound_number_iff, Json.Draft.sound_text_iff,
    ← Json.Numeral.value_eq_none_iff]
  exact ⟨⟨rfl, .boolean true⟩, ⟨rfl, ⟨⟨rfl, by decide +kernel⟩, nofun⟩, nofun⟩, ⟨rfl, rfl⟩,
    ⟨rfl, .boolean false⟩, nofun⟩

/-- The members that mean something, in another order. -/
def sorted : List Char :=
  "\x7b\"source\":\"x\",\"demangle\":false,\"moduleOptimize\":true\x7d".toList

def sortedMembers : List (Option String × Draft) :=
  [(some "source", .text (some "x")), (some "demangle", .boolean false),
    (some "moduleOptimize", .boolean true)]

theorem isObject_sorted : IsObject sorted sortedMembers := by
  refine ⟨by rfl, ?_⟩
  simp only [sortedMembers, List.forall_mem_cons]
  exact ⟨.text _ _, .boolean _ _, .boolean _ _, nofun⟩

theorem soundMembers_sorted : SoundMembers sortedMembers := by
  unfold SoundMembers
  simp only [sortedMembers, List.forall_mem_cons, Json.Draft.sound_text_iff]
  exact ⟨⟨rfl, rfl⟩, ⟨rfl, .boolean false⟩, ⟨rfl, .boolean true⟩, nofun⟩

/-- Both are read as the same request, and the one with too large a number is not read as one. -/
theorem requests_are_read_exactly_shuffled :
    IsObject shuffled shuffledMembers ∧ IsObject sorted sortedMembers ∧
      Asks shuffledMembers ⟨"x", { wholeModule := true }⟩ ∧
      (known shuffledMembers).Perm (known sortedMembers) ∧
      document readRequest shuffled = .ok ⟨"x", { wholeModule := true }⟩ ∧
      document readRequest sorted = .ok ⟨"x", { wholeModule := true }⟩ ∧
      document readRequest overflowing ≠ .ok ⟨"a", {}⟩ := by
  have hasks : Asks shuffledMembers ⟨"x", { wholeModule := true }⟩ :=
    ⟨rfl, .inl rfl, .inr ⟨rfl, rfl⟩, .inl rfl, .inr ⟨rfl, rfl⟩⟩
  have hperm : (known shuffledMembers).Perm (known sortedMembers) :=
    (List.perm_append_singleton (some "moduleOptimize", Draft.boolean true)
      [(some "source", .text (some "x")), (some "demangle", .boolean false)]).symm
  have hread := (requests_are_read_exactly.1 shuffled shuffledMembers _ isObject_shuffled).mpr
    ⟨hasks, soundMembers_shuffled⟩
  refine ⟨isObject_shuffled, isObject_sorted, hasks, hperm, hread, ?_, ?_⟩
  · exact (requests_are_read_exactly.2.1 _ _ _ _ isObject_shuffled isObject_sorted
      soundMembers_shuffled soundMembers_sorted hperm _).mp hread
  · have hholds : ∃ m ∈ overflowingMembers, m.2.Holds power400 :=
      ⟨_, List.mem_cons_of_mem _ List.mem_cons_self, .here⟩
    exact (requests_are_read_exactly.2.2.2 _ _ _ isObject_overflowing hholds (by decide)).2
      limit_le_power400 _

end Wire

end StageLens
