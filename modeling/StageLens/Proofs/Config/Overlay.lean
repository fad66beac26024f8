import StageLens.Proofs.Config.Rules
import StageLens.Proofs.Failing
import StageLens.Proofs.Toml.Equality
import StageLens.Proofs.Toml.Tables
import Mathlib.Tactic.FinCases

/-!
# Documents over the defaults

What a document makes of the defaults, setting by setting. Taking an entry of a section sets the
setting of its name and leaves all others as they are (`Section.Sets`), so a table whose names differ
gives each setting its own value or leaves its default, whatever stands around it and in whatever
order (`Section.Sets.get_eq`). A document that gives values of the right kind to some settings makes
the defaults with these in place of theirs (`overlay_eq`), and the rules decide about that alone.
-/

namespace StageLens.Config

open StageLens.Decode (Mismatch)
open StageLens.Toml (Value Entries Origin)

/-! ## One setting -/

/-- One setting of a section: `get` shows its value. An entry of its name is read into it, given what
it was before; an entry of another name does not change it. -/
structure Section.Sets {σ β : Type} (s : Section σ) (name : String) (get : σ → β)
    (read : β → Value → Except Mismatch β) : Prop where
  own : ∀ c v, get <$> s.take c (name, v) = read (get c) v
  other : ∀ c n v c', n ≠ name → s.take c (n, v) = .ok c' → get c' = get c

/-- Every setting of the section that the table names can be assigned its value, whatever the
settings are before. -/
def Section.Accepts {σ : Type} (s : Section σ) (entries : Entries) : Prop :=
  ∀ t ∈ s.settings, ∀ v, entries.lookup t.name = some v → ∀ c, ∃ c', t.assign c v = .ok c'

namespace Section

variable {σ β ι : Type} {s : Section σ} {t : Setting σ} {name : String} {get : σ → β} {b : β}
  {read : β → Value → Except Mismatch β} {entries : Entries} {c c' : σ}

/-- A setting is set by the entries of its name, if each other setting of the section is assigned
beside it. -/
theorem sets_of_assign (hfind : s.settings.find? (·.name == name) = some t)
    (hassign : ∀ c v, get <$> t.assign c v = read (get c) v)
    (hothers : ∀ u ∈ s.settings, ∀ c v c', u.assign c v = .ok c' → u.name ≠ name → get c' = get c) :
    s.Sets name get read := by
  constructor
  · intro c v
    rw [take, hfind]
    exact hassign c v
  · intro c n v c' hn h
    rw [take] at h
    split at h
    · rename_i u hu
      have hname : u.name = n := by simpa using List.find?_some hu
      exact hothers u (List.mem_of_find?_eq_some hu) c v c' h (hname.trans_ne hn)
    · obtain rfl := Except.ok.inj h
      rfl

/-! ## A table of entries -/

/-- An entry that names no setting is passed over, so a table that the section accepts is taken to
its end. -/
theorem Accepts.exists_foldlM (h : s.Accepts entries) (hnames : (entries.map Prod.fst).Nodup)
    (c : σ) : ∃ c', entries.foldlM s.take c = .ok c' := by
  induction entries generalizing c with
  | nil => exact ⟨c, rfl⟩
  | cons e rest ih =>
    obtain ⟨n, v⟩ := e
    rw [List.map_cons, List.nodup_cons] at hnames
    have htake : ∃ next, s.take c (n, v) = .ok next := by
      unfold take
      split
      · rename_i t ht
        have hname : t.name = n := by simpa using List.find?_some ht
        exact h t (List.mem_of_find?_eq_some ht) v (by simp [hname]) c
      · exact ⟨c, rfl⟩
    have hrest : s.Accepts rest := by
      intro t ht w hw
      refine h t ht w ?_
      obtain ⟨before, after, rfl, -⟩ := List.lookup_eq_some_iff.mp hw
      have hne : t.name ≠ n := by
        rintro rfl
        simp at hnames
      rw [List.lookup_cons, beq_false_of_ne hne]
      exact hw
    obtain ⟨next, hnext⟩ := htake
    obtain ⟨c', hc'⟩ := ih hrest hnames.2 next
    exact ⟨c', foldlM_cons_eq_ok_iff.mpr ⟨next, hnext, hc'⟩⟩

/-- A setting without an entry stays as it is. -/
theorem Sets.get_of_notMem (h : s.Sets name get read) (hfold : entries.foldlM s.take c = .ok c')
    (hname : name ∉ entries.map Prod.fst) : get c' = get c := by
  induction entries generalizing c with
  | nil =>
    obtain rfl := Except.ok.inj hfold
    rfl
  | cons e rest ih =>
    obtain ⟨next, hnext, hrest⟩ := foldlM_cons_eq_ok_iff.mp hfold
    rw [List.map_cons, List.mem_cons, not_or] at hname
    rw [ih hrest hname.2, h.other c e.1 e.2 next (Ne.symm hname.1) hnext]

/-- A setting with an entry has the value of this entry. -/
theorem Sets.get_of_lookup (h : s.Sets name get read) (hfold : entries.foldlM s.take c = .ok c')
    (hnames : (entries.map Prod.fst).Nodup) {v : Value} (hv : entries.lookup name = some v) :
    read (get c) v = .ok (get c') := by
  induction entries generalizing c with
  | nil => cases hv
  | cons e rest ih =>
    obtain ⟨n, w⟩ := e
    obtain ⟨next, hnext, hrest⟩ := foldlM_cons_eq_ok_iff.mp hfold
    rw [List.map_cons, List.nodup_cons] at hnames
    rw [List.lookup_cons] at hv
    split at hv
    · rename_i heq
      obtain rfl := eq_of_beq heq
      obtain rfl := Option.some.inj hv
      rw [← h.own, hnext, h.get_of_notMem hrest hnames.1]
      rfl
    · rename_i hne
      have hother : get next = get c := h.other c n w next (Ne.symm (ne_of_beq_false hne)) hnext
      rw [← hother]
      exact ih hrest hnames.2 hv

/-- A setting is what the table gives for it, or else what it was. -/
theorem Sets.get_eq (h : s.Sets name get read) (hfold : entries.foldlM s.take c = .ok c')
    (hnames : (entries.map Prod.fst).Nodup) (hnone : entries.lookup name = none → get c = b)
    (hsome : ∀ v, entries.lookup name = some v → read (get c) v = .ok b) : get c' = b := by
  cases hv : entries.lookup name with
  | none =>
    rw [h.get_of_notMem hfold (Toml.Entries.notMem_of_lookup_eq_none hv)]
    exact hnone hv
  | some v =>
    have hgot : read (get c) v = .ok (get c') := h.get_of_lookup hfold hnames hv
    rw [hsome v hv] at hgot
    exact (Except.ok.inj hgot).symm

/-- The same where the table gives `o`, written as a value. -/
theorem Sets.get_eq_getD (h : s.Sets name get read) (hfold : entries.foldlM s.take c = .ok c')
    (hnames : (entries.map Prod.fst).Nodup) {o : Option ι} {write : ι → Value} {value : ι → β}
    (hlookup : entries.lookup name = o.map write)
    (hread : ∀ i, read (get c) (write i) = .ok (value i)) : get c' = (o.map value).getD (get c) := by
  refine h.get_eq hfold hnames ?_ ?_ <;> rw [hlookup] <;> cases o with
  | none => simp
  | some i => simp [hread]

end Section

/-! ## The settings of the sections -/

/-- Each tool setting is assigned beside the others. -/
theorem toolSection_frame : ∀ u ∈ toolSection.settings, ∀ t v t', u.assign t v = .ok t' →
    (u.name ≠ "compiler" → t'.compiler = t.compiler) ∧
    (u.name ≠ "demangler" → t'.demangler = t.demangler) ∧
    (u.name ≠ "demangler_args" → t'.demanglerArguments = t.demanglerArguments) ∧
    (u.name ≠ "module_name" → t'.moduleName = t.moduleName) := by
  intro u hu t v t' h
  simp only [toolSection, List.mem_cons, List.not_mem_nil, or_false] at hu
  rcases hu with rfl | rfl | rfl | rfl <;> obtain ⟨x, -, h⟩ := bind_eq_ok_iff.mp h <;>
    obtain rfl := Except.ok.inj h <;> simp

/-- Each limit is assigned beside the others. -/
theorem limitSection_frame : ∀ u ∈ limitSection.settings, ∀ l v l', u.assign l v = .ok l' →
    (u.name ≠ "stage_timeout_secs" → l'.stageTimeout = l.stageTimeout) ∧
    (u.name ≠ "demangle_timeout_secs" → l'.demangleTimeout = l.demangleTimeout) ∧
    (u.name ≠ "max_concurrent_invocations" → l'.invocations = l.invocations) ∧
    (u.name ≠ "max_output_bytes" → l'.outputBytes = l.outputBytes) ∧
    (u.name ≠ "max_source_bytes" → l'.sourceBytes = l.sourceBytes) := by
  intro u hu l v l' h
  simp only [limitSection, List.mem_cons, List.not_mem_nil, or_false] at hu
  rcases hu with rfl | rfl | rfl | rfl | rfl <;> obtain ⟨x, -, h⟩ := bind_eq_ok_iff.mp h <;>
    obtain rfl := Except.ok.inj h <;> simp

/-- Each section is taken beside the others. -/
theorem root_frame : ∀ u ∈ root.settings, ∀ c v c', u.assign c v = .ok c' →
    (u.name ≠ "toolchain" → c'.tools = c.tools) ∧
    (u.name ≠ "limits" → c'.limits = c.limits) ∧
    (u.name ≠ "workspace" → c'.scratchRoot = c.scratchRoot) ∧
    (u.name ≠ "server" → c'.bind = c.bind) := by
  intro u hu c v c' h
  simp only [root, List.mem_cons, List.not_mem_nil, or_false] at hu
  rcases hu with rfl | rfl | rfl | rfl <;> obtain ⟨x, -, h⟩ := bind_eq_ok_iff.mp h <;>
    obtain rfl := Except.ok.inj h <;> simp

/-- What is assigned to a setting is what is read. -/
theorem get_assign {α σ : Type} {get : σ → α} {update : α → σ} (h : ∀ a, get (update a) = a)
    (x : Except Mismatch α) : get <$> (do return update (← x)) = x := by
  cases x with
  | error m => rfl
  | ok a => exact congrArg Except.ok (h a)

theorem sets_compiler : toolSection.Sets "compiler" Tools.compiler fun _ => asPath :=
  Section.sets_of_assign rfl (fun _ v => get_assign (fun _ => rfl) (asPath v))
    fun u hu t v t' h => (toolSection_frame u hu t v t' h).1

theorem sets_demangler : toolSection.Sets "demangler" Tools.demangler fun _ => asPath :=
  Section.sets_of_assign rfl (fun _ v => get_assign (fun _ => rfl) (asPath v))
    fun u hu t v t' h => (toolSection_frame u hu t v t' h).2.1

theorem sets_demanglerArguments :
    toolSection.Sets "demangler_args" Tools.demanglerArguments fun _ => asTexts :=
  Section.sets_of_assign rfl (fun _ v => get_assign (fun _ => rfl) (asTexts v))
    fun u hu t v t' h => (toolSection_frame u hu t v t' h).2.2.1

theorem sets_moduleName : toolSection.Sets "module_name" Tools.moduleName fun _ => asText :=
  Section.sets_of_assign rfl (fun _ v => get_assign (fun _ => rfl) (asText v))
    fun u hu t v t' h => (toolSection_frame u hu t v t' h).2.2.2

theorem sets_stageTimeout :
    limitSection.Sets "stage_timeout_secs" Limits.stageTimeout fun _ => asNat "u64" :=
  Section.sets_of_assign rfl (fun _ v => get_assign (fun _ => rfl) (asNat "u64" v))
    fun u hu l v l' h => (limitSection_frame u hu l v l' h).1

theorem sets_demangleTimeout :
    limitSection.Sets "demangle_timeout_secs" Limits.demangleTimeout fun _ => asNat "u64" :=
  Section.sets_of_assign rfl (fun _ v => get_assign (fun _ => rfl) (asNat "u64" v))
    fun u hu l v l' h => (limitSection_frame u hu l v l' h).2.1

theorem sets_invocations :
    limitSection.Sets "max_concurrent_invocations" Limits.invocations fun _ => asNat "usize" :=
  Section.sets_of_assign rfl (fun _ v => get_assign (fun _ => rfl) (asNat "usize" v))
    fun u hu l v l' h => (limitSection_frame u hu l v l' h).2.2.1

theorem sets_outputBytes :
    limitSection.Sets "max_output_bytes" Limits.outputBytes fun _ => asNat "usize" :=
  Section.sets_of_assign rfl (fun _ v => get_assign (fun _ => rfl) (asNat "usize" v))
    fun u hu l v l' h => (limitSection_frame u hu l v l' h).2.2.2.1

theorem sets_sourceBytes :
    limitSection.Sets "max_source_bytes" Limits.sourceBytes fun _ => asNat "usize" :=
  Section.sets_of_assign rfl (fun _ v => get_assign (fun _ => rfl) (asNat "usize" v))
    fun u hu l v l' h => (limitSection_frame u hu l v l' h).2.2.2.2

/-- No other setting is in the section. -/
theorem sets_scratchRoot :
    workspaceSection.Sets "scratch_root" id fun _ v => some <$> asPath v :=
  Section.sets_of_assign rfl (fun _ v => by rw [id_map]; rfl) fun u hu c v c' _ hne => by
    obtain rfl := List.mem_singleton.mp hu
    exact absurd rfl hne

/-- No other setting is in the section. -/
theorem sets_bind : serverSection.Sets "bind" id fun _ => asText :=
  Section.sets_of_assign rfl (fun _ v => id_map (asText v)) fun u hu c v c' _ hne => by
    obtain rfl := List.mem_singleton.mp hu
    exact absurd rfl hne

theorem sets_tools : root.Sets "toolchain" Config.tools toolSection.read :=
  Section.sets_of_assign rfl (fun c v => get_assign (fun _ => rfl) (toolSection.read c.tools v))
    fun u hu c v c' h => (root_frame u hu c v c' h).1

theorem sets_limits : root.Sets "limits" Config.limits limitSection.read :=
  Section.sets_of_assign rfl (fun c v => get_assign (fun _ => rfl) (limitSection.read c.limits v))
    fun u hu c v c' h => (root_frame u hu c v c' h).2.1

theorem sets_workspace : root.Sets "workspace" Config.scratchRoot workspaceSection.read :=
  Section.sets_of_assign rfl
    (fun c v => get_assign (fun _ => rfl) (workspaceSection.read c.scratchRoot v))
    fun u hu c v c' h => (root_frame u hu c v c' h).2.2.1

theorem sets_server : root.Sets "server" Config.bind serverSection.read :=
  Section.sets_of_assign rfl (fun c v => get_assign (fun _ => rfl) (serverSection.read c.bind v))
    fun u hu c v c' h => (root_frame u hu c v c' h).2.2.2

/-! ## Assignments -/

/-- The values that a document gives to settings; those without a value keep their defaults. -/
structure Assignment where
  compiler : Option String := none
  demangler : Option String := none
  demanglerArguments : Option (List String) := none
  moduleName : Option String := none
  stageTimeout : Option Nat := none
  demangleTimeout : Option Nat := none
  invocations : Option Nat := none
  outputBytes : Option Nat := none
  sourceBytes : Option Nat := none
  scratchRoot : Option String := none
  bind : Option String := none
  deriving DecidableEq, Repr

namespace Assignment

variable (a : Assignment)

def tools : Tools :=
  let d : Tools := {}
  { compiler := (a.compiler.map Text.bytes).getD d.compiler
    demangler := (a.demangler.map Text.bytes).getD d.demangler
    demanglerArguments := a.demanglerArguments.getD d.demanglerArguments
    moduleName := a.moduleName.getD d.moduleName }

def limits : Limits :=
  let d : Limits := {}
  { stageTimeout := a.stageTimeout.getD d.stageTimeout
    demangleTimeout := a.demangleTimeout.getD d.demangleTimeout
    invocations := a.invocations.getD d.invocations
    outputBytes := a.outputBytes.getD d.outputBytes
    sourceBytes := a.sourceBytes.getD d.sourceBytes }

/-- The defaults with the values in place of theirs. -/
def config : Config :=
  let d : Config := {}
  { tools := a.tools
    limits := a.limits
    scratchRoot := (a.scratchRoot.map Text.bytes).or d.scratchRoot
    bind := a.bind.getD d.bind }

end Assignment

/-- The entries of a section; none if it is not there. -/
def tableOf (entries : Entries) (sect : String) : Entries :=
  match entries.lookup sect with
  | some (.table _ inner) => inner
  | _ => []

/-- What a document gives for a setting of a section. -/
def given (entries : Entries) (sect name : String) : Option Value :=
  (tableOf entries sect).lookup name

def number (n : Nat) : Value := .integer n

def texts (ts : List String) : Value := .array (ts.map .text)

/-- The document gives the settings these values and no others, in whatever order its sections and
keys stand. Nothing is asked of keys and sections that are not known. -/
structure Assignment.WrittenIn (a : Assignment) (entries : Entries) : Prop where
  /-- The sections of a configuration are tables, where there are any. -/
  sections : ∀ sect ∈ ["toolchain", "limits", "workspace", "server"], ∀ v,
    entries.lookup sect = some v → ∃ o inner, v = .table o inner
  compiler : given entries "toolchain" "compiler" = a.compiler.map .text
  demangler : given entries "toolchain" "demangler" = a.demangler.map .text
  demanglerArguments : given entries "toolchain" "demangler_args" = a.demanglerArguments.map texts
  moduleName : given entries "toolchain" "module_name" = a.moduleName.map .text
  stageTimeout : given entries "limits" "stage_timeout_secs" = a.stageTimeout.map number
  demangleTimeout : given entries "limits" "demangle_timeout_secs" = a.demangleTimeout.map number
  invocations : given entries "limits" "max_concurrent_invocations" = a.invocations.map number
  outputBytes : given entries "limits" "max_output_bytes" = a.outputBytes.map number
  sourceBytes : given entries "limits" "max_source_bytes" = a.sourceBytes.map number
  scratchRoot : given entries "workspace" "scratch_root" = a.scratchRoot.map .text
  bind : given entries "server" "bind" = a.bind.map .text

section Tables

variable {a : Assignment} {entries inner : Entries} {sect : String} {o : Origin}

theorem tableOf_eq (h : entries.lookup sect = some (.table o inner)) :
    tableOf entries sect = inner := by
  rw [tableOf, h]

theorem tableOf_eq_nil (h : entries.lookup sect = none) : tableOf entries sect = [] := by
  rw [tableOf, h]

theorem nodup_tableOf (h : entries.Orderly) (sect : String) :
    ((tableOf entries sect).map Prod.fst).Nodup := by
  unfold tableOf
  split
  · rename_i o inner hinner
    exact (Toml.Entries.orderly_table_iff.mp (h.of_lookup hinner)).names
  · exact List.nodup_nil

theorem asTexts_texts (ts : List String) : asTexts (texts ts) = .ok ts := by
  show (ts.map Value.text).mapM asText = .ok ts
  induction ts with
  | nil => rfl
  | cons t ts ih =>
    rw [List.map_cons, List.mapM_cons, ih]
    rfl

/-- A setting that can be assigned every value of a kind can be assigned what the table gives, if
that is of the kind. -/
theorem exists_assign {σ ι : Type} {name : String} {write : ι → Value} {value : Option ι}
    {assign : σ → Value → Except Mismatch σ} (hgiven : given entries sect name = value.map write)
    (hassign : ∀ c i, ∃ c', assign c (write i) = .ok c') :
    ∀ v, (tableOf entries sect).lookup name = some v → ∀ c, ∃ c', assign c v = .ok c' := by
  intro v hv c
  rw [given, hv] at hgiven
  obtain ⟨i, -, rfl⟩ := Option.map_eq_some_iff.mp hgiven.symm
  exact hassign c i

namespace Assignment.WrittenIn

theorem accepts_tools (h : a.WrittenIn entries) :
    toolSection.Accepts (tableOf entries "toolchain") := by
  intro t ht
  simp only [toolSection, List.mem_cons, List.not_mem_nil, or_false] at ht
  rcases ht with rfl | rfl | rfl | rfl
  · exact exists_assign h.compiler fun t i => ⟨_, rfl⟩
  · exact exists_assign h.demangler fun t i => ⟨_, rfl⟩
  · refine exists_assign h.demanglerArguments fun t ts => ⟨{ t with demanglerArguments := ts }, ?_⟩
    simp only [asTexts_texts]
    rfl
  · exact exists_assign h.moduleName fun t i => ⟨_, rfl⟩

theorem accepts_limits (h : a.WrittenIn entries) :
    limitSection.Accepts (tableOf entries "limits") := by
  intro t ht
  simp only [limitSection, List.mem_cons, List.not_mem_nil, or_false] at ht
  rcases ht with rfl | rfl | rfl | rfl | rfl
  · exact exists_assign h.stageTimeout fun l i => ⟨_, rfl⟩
  · exact exists_assign h.demangleTimeout fun l i => ⟨_, rfl⟩
  · exact exists_assign h.invocations fun l i => ⟨_, rfl⟩
  · exact exists_assign h.outputBytes fun l i => ⟨_, rfl⟩
  · exact exists_assign h.sourceBytes fun l i => ⟨_, rfl⟩

theorem accepts_workspace (h : a.WrittenIn entries) :
    workspaceSection.Accepts (tableOf entries "workspace") := by
  intro t ht
  obtain rfl := List.mem_singleton.mp ht
  exact exists_assign h.scratchRoot fun c i => ⟨_, rfl⟩

theorem accepts_server (h : a.WrittenIn entries) :
    serverSection.Accepts (tableOf entries "server") := by
  intro t ht
  obtain rfl := List.mem_singleton.mp ht
  exact exists_assign h.bind fun c i => ⟨_, rfl⟩

/-- Every known section can be taken, whatever the configuration is before. -/
theorem accepts_root (h : a.WrittenIn entries) (horderly : entries.Orderly) :
    root.Accepts entries := by
  have hnames := nodup_tableOf horderly
  have hread {σ : Type} {s : Section σ} {sect : String} {v : Value}
      (hsect : sect ∈ ["toolchain", "limits", "workspace", "server"])
      (hv : entries.lookup sect = some v) (haccepts : s.Accepts (tableOf entries sect)) (c : σ) :
      ∃ c', s.read c v = .ok c' := by
    obtain ⟨o, inner, rfl⟩ := h.sections sect hsect v hv
    show ∃ c', inner.foldlM s.take c = .ok c'
    rw [← tableOf_eq hv]
    exact haccepts.exists_foldlM (hnames sect) c
  intro t ht v hv c
  simp only [root, List.mem_cons, List.not_mem_nil, or_false] at ht
  rcases ht with rfl | rfl | rfl | rfl
  · obtain ⟨t, ht⟩ := hread (by simp) hv h.accepts_tools c.tools
    exact ⟨{ c with tools := t }, by simp only [ht]; rfl⟩
  · obtain ⟨l, hl⟩ := hread (by simp) hv h.accepts_limits c.limits
    exact ⟨{ c with limits := l }, by simp only [hl]; rfl⟩
  · obtain ⟨p, hp⟩ := hread (by simp) hv h.accepts_workspace c.scratchRoot
    exact ⟨{ c with scratchRoot := p }, by simp only [hp]; rfl⟩
  · obtain ⟨b, hb⟩ := hread (by simp) hv h.accepts_server c.bind
    exact ⟨{ c with bind := b }, by simp only [hb]; rfl⟩

/-! ## What the sections make -/

theorem take_tools (h : a.WrittenIn entries) (horderly : entries.Orderly) :
    (tableOf entries "toolchain").foldlM toolSection.take {} = .ok a.tools := by
  have hnames := nodup_tableOf horderly "toolchain"
  obtain ⟨⟨compiler, demangler, arguments, moduleName⟩, hfold⟩ :=
    h.accepts_tools.exists_foldlM hnames {}
  obtain rfl : compiler = a.tools.compiler :=
    sets_compiler.get_eq_getD hfold hnames h.compiler fun _ => rfl
  obtain rfl : demangler = a.tools.demangler :=
    sets_demangler.get_eq_getD hfold hnames h.demangler fun _ => rfl
  obtain rfl : arguments = (a.demanglerArguments.map id).getD _ :=
    sets_demanglerArguments.get_eq_getD hfold hnames h.demanglerArguments asTexts_texts
  obtain rfl : moduleName = (a.moduleName.map id).getD _ :=
    sets_moduleName.get_eq_getD hfold hnames h.moduleName fun _ => rfl
  simp only [hfold, Option.map_id]
  rfl

theorem take_limits (h : a.WrittenIn entries) (horderly : entries.Orderly) :
    (tableOf entries "limits").foldlM limitSection.take {} = .ok a.limits := by
  have hnames := nodup_tableOf horderly "limits"
  obtain ⟨⟨stage, demangle, invocations, output, source⟩, hfold⟩ :=
    h.accepts_limits.exists_foldlM hnames {}
  obtain rfl : stage = (a.stageTimeout.map id).getD _ :=
    sets_stageTimeout.get_eq_getD hfold hnames h.stageTimeout fun _ => rfl
  obtain rfl : demangle = (a.demangleTimeout.map id).getD _ :=
    sets_demangleTimeout.get_eq_getD hfold hnames h.demangleTimeout fun _ => rfl
  obtain rfl : invocations = (a.invocations.map id).getD _ :=
    sets_invocations.get_eq_getD hfold hnames h.invocations fun _ => rfl
  obtain rfl : output = (a.outputBytes.map id).getD _ :=
    sets_outputBytes.get_eq_getD hfold hnames h.outputBytes fun _ => rfl
  obtain rfl : source = (a.sourceBytes.map id).getD _ :=
    sets_sourceBytes.get_eq_getD hfold hnames h.sourceBytes fun _ => rfl
  simp only [hfold, Option.map_id]
  rfl

theorem take_workspace (h : a.WrittenIn entries) (horderly : entries.Orderly) :
    (tableOf entries "workspace").foldlM workspaceSection.take none = .ok a.config.scratchRoot := by
  have hnames := nodup_tableOf horderly "workspace"
  obtain ⟨p, hfold⟩ := h.accepts_workspace.exists_foldlM hnames none
  obtain rfl : p = (a.scratchRoot.map fun s => some (Text.bytes s)).getD none :=
    sets_scratchRoot.get_eq_getD hfold hnames h.scratchRoot fun _ => rfl
  rw [hfold]
  cases hroot : a.scratchRoot <;> simp [config, hroot]

theorem take_server (h : a.WrittenIn entries) (horderly : entries.Orderly) :
    (tableOf entries "server").foldlM serverSection.take ({} : Config).bind = .ok a.config.bind := by
  have hnames := nodup_tableOf horderly "server"
  obtain ⟨b, hfold⟩ := h.accepts_server.exists_foldlM hnames ({} : Config).bind
  obtain rfl : b = (a.bind.map id).getD _ :=
    sets_bind.get_eq_getD hfold hnames h.bind fun _ => rfl
  rw [hfold, Option.map_id]
  rfl

/-- A section of the configuration is what its table makes of the default. -/
theorem section_eq {σ : Type} {s : Section σ} {get : Config → σ} {c : Config} {b : σ}
    (h : a.WrittenIn entries) (horderly : entries.Orderly)
    (hsect : sect ∈ ["toolchain", "limits", "workspace", "server"])
    (hsets : root.Sets sect get s.read) (hfold : entries.foldlM root.take {} = .ok c)
    (htake : (tableOf entries sect).foldlM s.take (get {}) = .ok b) : get c = b := by
  refine hsets.get_eq hfold horderly.names (fun hnone => ?_) fun v hv => ?_
  · rw [tableOf_eq_nil hnone] at htake
    exact Except.ok.inj htake
  · obtain ⟨o, inner, rfl⟩ := h.sections sect hsect v hv
    rw [tableOf_eq hv] at htake
    exact htake

/-- A document of which every value has the right kind lays just these over the defaults. -/
theorem overlay_eq (h : a.WrittenIn entries) (horderly : entries.Orderly) :
    overlay entries = .ok a.config := by
  obtain ⟨⟨tools, limits, scratchRoot, bind⟩, hfold⟩ :=
    (h.accepts_root horderly).exists_foldlM horderly.names {}
  obtain rfl : tools = a.tools :=
    h.section_eq horderly (by simp) sets_tools hfold (h.take_tools horderly)
  obtain rfl : limits = a.limits :=
    h.section_eq horderly (by simp) sets_limits hfold (h.take_limits horderly)
  obtain rfl : scratchRoot = a.config.scratchRoot :=
    h.section_eq horderly (by simp) sets_workspace hfold (h.take_workspace horderly)
  obtain rfl : bind = a.config.bind :=
    h.section_eq horderly (by simp) sets_server hfold (h.take_server horderly)
  exact hfold

end Assignment.WrittenIn

end Tables

/-! ## Which documents are accepted -/

/-- **Documents lay their values over the defaults.** A document that gives values of the right kind
to some settings, in whatever order and with whatever else in it, makes the defaults with exactly
these values in place. It is accepted if and only if the configuration so made has no zero among its
limits and a character that is no blank in the name of the module; otherwise it is refused for the
first rule that is broken, by the names of its settings. -/
theorem documents_overlay_defaults {text : String} {entries : Entries} {a : Assignment}
    (hparse : Toml.entries? text = some entries) (hwritten : a.WrittenIn entries) :
    overlay entries = .ok a.config ∧
    (∀ c, ofText text = .ok c ↔ c = a.config ∧
      0 < c.limits.stageTimeout ∧ 0 < c.limits.demangleTimeout ∧ 0 < c.limits.invocations ∧
      0 < c.limits.outputBytes ∧ 0 < c.limits.sourceBytes ∧
      ∃ ch ∈ c.tools.moduleName.toList, Text.isBlank ch = false) ∧
    ∀ f, ofText text = .error f ↔ ∃ v, a.config.BreaksFirst v ∧ f = .violation v ∧
      ∀ name ∈ v.settings, name.toList <:+: f.message.toList := by
  have hoverlay : overlay entries = .ok a.config :=
    hwritten.overlay_eq (Toml.orderly_of_entries? hparse)
  have htext : ofText text = ofEntries entries := by rw [ofText, hparse]
  refine ⟨hoverlay, fun c => ?_, fun f => ?_⟩
  · rw [htext, ofEntries_eq_ok_iff, hoverlay, usable_iff, Except.ok.injEq,
      @eq_comm _ a.config]
  · rw [htext, ofEntries_eq_error_iff hoverlay]
    apply exists_congr
    intro v
    constructor
    · rintro ⟨hfirst, rfl⟩
      exact ⟨hfirst, rfl, v.names_settings⟩
    · rintro ⟨hfirst, hf, -⟩
      exact ⟨hfirst, hf⟩

/-- A document with its sections out of order and others among them. Three rules are broken. -/
def scattered : String :=
  "toolchain.module_name = \" \\t\"\n" ++
  "colors = \x7b stage_timeout_secs = \"red\" \x7d\n" ++
  "[limits]\nmax_source_bytes = 0\nretries = [1, true]\ndemangle_timeout_secs = 0\n" ++
  "[server]\nbind = \"0.0.0.0:80\"\n"

def scatteredEntries : Entries :=
  [("toolchain", .table .dotted [("module_name", .text " \t")]),
    ("colors", .table .inline [("stage_timeout_secs", .text "red")]),
    ("limits", .table .header [("max_source_bytes", .integer 0),
      ("retries", .array [.integer 1, .boolean true]), ("demangle_timeout_secs", .integer 0)]),
    ("server", .table .header [("bind", .text "0.0.0.0:80")])]

/-- Of the three rules it is told the one about the demangler's time. -/
theorem documents_overlay_defaults_scattered :
    ofText scattered = .error (.violation .noDemangleTime) ∧
    overlay scatteredEntries = .ok
      { tools := { moduleName := " \t" }
        limits := { demangleTimeout := 0, sourceBytes := 0 }
        bind := "0.0.0.0:80" } := by
  have hparse : Toml.entries? scattered = some scatteredEntries := by decide +kernel
  let a : Assignment :=
    { moduleName := some " \t", demangleTimeout := some 0, sourceBytes := some 0,
      bind := some "0.0.0.0:80" }
  have hwritten : a.WrittenIn scatteredEntries :=
    { sections := by
        intro sect hsect v hv
        fin_cases hsect <;> cases hv <;> exact ⟨_, _, rfl⟩
      compiler := rfl, demangler := rfl, demanglerArguments := rfl, moduleName := rfl
      stageTimeout := rfl, demangleTimeout := rfl, invocations := rfl, outputBytes := rfl
      sourceBytes := rfl, scratchRoot := rfl, bind := rfl }
  obtain ⟨hoverlay, -, hrefused⟩ := documents_overlay_defaults hparse hwritten
  have hfirst : a.config.BreaksFirst .noDemangleTime := violation?_eq_some_iff.mp (by decide)
  exact ⟨(hrefused _).mpr ⟨_, hfirst, rfl, Violation.names_settings _⟩, hoverlay⟩

end StageLens.Config
