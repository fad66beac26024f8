import Mathlib.Data.Finset.Dedup
import Mathlib.Data.Fintype.Card
import StageLens.Proofs.Failing
import StageLens.Proofs.Wire.Response

/-!
# Responses as maps

A response is known by the history of its insertions. What holds of every history is kept by one
more insertion (`Records.insert`): each stage stands once, stages stand in the order in which they
first came, and each has the result that came last (`Records`). Everything else that a response
tells follows from these (`MapLaw`). A document is read by inserting what its `results` object
holds, so that the same is true of a response that was read.
-/

namespace StageLens

/-! ## What a history says -/

/-- Results in the order in which they were inserted. -/
abbrev History := List (Stage × StageResult)

namespace History

/-- The stages that were inserted, with their repetitions. -/
def stages (history : History) : List Stage := history.map Prod.fst

/-- The result that came last for a stage. -/
def last? (history : History) (s : Stage) : Option StageResult := history.reverse.lookup s

variable {history : History} {s t : Stage} {r q : StageResult}

theorem lookup_cons (e : Stage × StageResult) (rest : History) (s : Stage) :
    List.lookup s (e :: rest) = if s = e.1 then some e.2 else rest.lookup s := by
  obtain ⟨t, q⟩ := e
  rw [List.lookup_cons]
  by_cases hst : s = t
  · simp [hst]
  · rw [beq_false_of_ne hst, if_neg hst]

theorem stages_concat : stages (history ++ [(s, r)]) = history.stages ++ [s] := by
  unfold stages
  rw [List.map_append, List.map_singleton]

theorem last?_concat :
    last? (history ++ [(s, r)]) t = if t = s then some r else history.last? t := by
  unfold last?
  rw [List.reverse_concat, lookup_cons]

end History

namespace Response

/-- A response as its history makes it. -/
structure Records (history : History) (m : Response) : Prop where
  nodup : m.keys.Nodup
  inserted : ∀ s, s ∈ m.keys ↔ s ∈ history.stages
  /-- A stage stands before another one if it came before it for the first time. -/
  ordered : m.keys.Pairwise fun s t => history.stages.idxOf s < history.stages.idxOf t
  last : ∀ s, m.get? s = history.last? s

/-- What a response tells, from its history. -/
structure MapLaw (history : History) (m : Response) : Prop extends Records history m where
  holds : ∀ s r, (s, r) ∈ m.entries ↔ history.last? s = some r
  size : m.size = history.stages.toFinset.card
  complete : m.isComplete = true ↔ ∀ s ∈ Stage.all, s ∈ history.stages
  succeeded : m.allSucceeded = true ↔ ∀ s r, history.last? s = some r → r.exitCode = 0

/-- How an insertion changes a response. -/
structure Sets (m : Response) (s : Stage) (r : StageResult) (m' : Response) : Prop where
  /-- Every other entry stays in its position, and none comes up. -/
  others : ∀ (i : Nat) (t : Stage) (q : StageResult), t ≠ s →
    (m'.entries[i]? = some (t, q) ↔ m.entries[i]? = some (t, q))
  /-- A stage that was there keeps its position. -/
  again : s ∈ m.keys → m'.keys = m.keys
  /-- A stage that was not there comes last. -/
  new : s ∉ m.keys → m'.entries = m.entries ++ [(s, r)]
  own : m'.get? s = some r

variable {history : History} {m m' : Response} {s t : Stage} {r q : StageResult}
variable {entries : List (Stage × StageResult)} {i : Nat}

/-! ## One insertion -/

theorem getElem?_insertEntry_of_ne (ht : t ≠ s) :
    (insertEntry s r entries)[i]? = some (t, q) ↔ entries[i]? = some (t, q) := by
  induction entries generalizing i with
  | nil => cases i <;> simp [insertEntry, ht.symm]
  | cons e rest ih =>
    rw [insertEntry]
    split
    · rename_i he
      cases i with
      | zero =>
        have hne : e ≠ (t, q) := by
          rintro rfl
          exact ht he
        simp [ht.symm, hne]
      | succ i => rfl
    · cases i with
      | zero => rfl
      | succ i => exact ih

theorem lookup_insertEntry : (insertEntry s r entries).lookup t =
    if t = s then some r else entries.lookup t := by
  induction entries with
  | nil => rw [insertEntry, History.lookup_cons]
  | cons e rest ih =>
    rw [insertEntry]
    by_cases he : e.1 = s
    · subst he
      rw [if_pos rfl, History.lookup_cons, History.lookup_cons]
      by_cases ht : t = e.1
      · rw [if_pos ht, if_pos ht]
      · rw [if_neg ht, if_neg ht, if_neg ht]
    · rw [if_neg he, History.lookup_cons, History.lookup_cons, ih]
      by_cases ht : t = s
      · subst ht
        rw [if_neg (Ne.symm he), if_pos rfl, if_pos rfl]
      · rw [if_neg ht, if_neg ht]

theorem sets_insert (m : Response) (s : Stage) (r : StageResult) : Sets m s r (m.insert s r) where
  others _ _ _ ht := getElem?_insertEntry_of_ne ht
  again hs := keys_insertEntry_of_mem hs
  new hs := insertEntry_of_notMem hs
  own := by
    show (insertEntry s r m.entries).lookup s = some r
    rw [lookup_insertEntry, if_pos rfl]

/-! ## Histories -/

theorem records_empty : Records [] empty where
  nodup := List.nodup_nil
  inserted _ := Iff.rfl
  ordered := .nil
  last _ := rfl

/-- The order in which stages first came does not change when others come after them. -/
theorem Records.ordered_concat (h : Records history m) (s : Stage) :
    m.keys.Pairwise fun t u =>
      (history.stages ++ [s]).idxOf t < (history.stages ++ [s]).idxOf u := by
  refine h.ordered.imp_of_mem fun {t u} ht hu hlt => ?_
  rw [List.idxOf_append_of_mem ((h.inserted t).mp ht),
    List.idxOf_append_of_mem ((h.inserted u).mp hu)]
  exact hlt

/-- **One more insertion keeps a response as its history makes it.** -/
theorem Records.insert (h : Records history m) (s : Stage) (r : StageResult) :
    Records (history ++ [(s, r)]) (m.insert s r) where
  nodup := nodup_insertEntry h.nodup
  inserted t := by
    rw [History.stages_concat, List.mem_append, List.mem_singleton, ← h.inserted t]
    by_cases hs : s ∈ m.keys
    · rw [(sets_insert m s r).again hs]
      constructor
      · exact .inl
      · rintro (ht | rfl)
        · exact ht
        · exact hs
    · unfold keys
      rw [(sets_insert m s r).new hs, List.map_append, List.mem_append, List.map_singleton,
        List.mem_singleton]
  ordered := by
    rw [History.stages_concat]
    have hold := h.ordered_concat s
    by_cases hs : s ∈ m.keys
    · rw [(sets_insert m s r).again hs]
      exact hold
    · have hkeys : (m.insert s r).keys = m.keys ++ [s] := by
        unfold keys
        rw [(sets_insert m s r).new hs, List.map_append, List.map_singleton]
      rw [hkeys, List.pairwise_append]
      refine ⟨hold, List.pairwise_singleton _ _, fun t ht u hu => ?_⟩
      rw [List.mem_singleton.mp hu]
      have hnew : s ∉ history.stages := fun hmem => hs ((h.inserted s).mpr hmem)
      have ht' := (h.inserted t).mp ht
      rw [List.idxOf_append_of_mem ht', List.idxOf_append_of_notMem hnew, List.idxOf_cons_self]
      exact List.idxOf_lt_length_of_mem ht'
  last t := by
    show (insertEntry s r m.entries).lookup t = _
    rw [lookup_insertEntry, History.last?_concat, ← h.last t]
    rfl

theorem ofList_concat : ofList (history ++ [(s, r)]) = (ofList history).insert s r := by
  unfold ofList
  rw [List.foldl_concat]

/-- **A response is as its history makes it**, whatever was inserted in whichever order. -/
theorem records_ofList (history : History) : Records history (ofList history) := by
  induction history using List.reverseRecOn with
  | nil => exact records_empty
  | append_singleton history e ih =>
    rw [ofList_concat]
    exact ih.insert e.1 e.2

/-! ## What follows -/

theorem lookup_eq_some_iff_mem (h : (entries.map Prod.fst).Nodup) :
    entries.lookup s = some r ↔ (s, r) ∈ entries := by
  induction entries with
  | nil => simp
  | cons e rest ih =>
    rw [List.map_cons, List.nodup_cons] at h
    rw [History.lookup_cons, List.mem_cons, Prod.ext_iff]
    by_cases hs : s = e.1
    · subst hs
      have hrest : (e.1, r) ∉ rest := fun hmem => h.1 (List.mem_map.mpr ⟨_, hmem, rfl⟩)
      simp [hrest, eq_comm]
    · simp [hs, ih h.2]

/-- As many entries as there are stages, all different, are all of them. -/
theorem isComplete_iff (h : m.keys.Nodup) :
    m.isComplete = true ↔ ∀ s ∈ Stage.all, s ∈ m.keys := by
  unfold isComplete
  rw [Bool.and_eq_true, beq_iff_eq, List.all_eq_true]
  simp only [List.contains_iff_mem]
  refine ⟨And.right, fun hall => ⟨?_, hall⟩⟩
  have hperm : m.keys.Perm Stage.all := by
    rw [List.perm_ext_iff_of_nodup h Stage.all_nodup]
    exact fun s => ⟨fun _ => Stage.mem_all s, hall s⟩
  rw [← hperm.length_eq]
  exact List.length_map Prod.fst |>.symm

theorem allSucceeded_iff (m : Response) :
    m.allSucceeded = true ↔ ∀ e ∈ m.entries, e.2.exitCode = 0 := by
  unfold allSucceeded StageResult.succeeded
  rw [List.all_eq_true]
  simp only [beq_iff_eq]

theorem Records.holds (h : Records history m) (s : Stage) (r : StageResult) :
    (s, r) ∈ m.entries ↔ history.last? s = some r := by
  rw [← h.last s]
  exact (lookup_eq_some_iff_mem h.nodup).symm

theorem Records.mapLaw (h : Records history m) : MapLaw history m where
  toRecords := h
  holds := h.holds
  size := by
    have hset : m.keys.toFinset = history.stages.toFinset := by
      ext s
      rw [List.mem_toFinset, List.mem_toFinset, h.inserted s]
    rw [← hset, List.toFinset_card_of_nodup h.nodup]
    exact List.length_map Prod.fst |>.symm
  complete := by
    rw [isComplete_iff h.nodup]
    simp only [h.inserted]
  succeeded := by
    rw [allSucceeded_iff]
    simp only [← h.holds, Prod.forall]

end Response

namespace Wire

open StageLens.Json (Draft)

/-! ## Responses that are read -/

/-- A member of a `results` object that gives a stage its result. -/
def Enters (member : Option String × Draft) (e : Stage × StageResult) : Prop :=
  member.1 = some e.1.key ∧ readResult member.2 = .ok e.2

/-- The members of the `results` object in a document: the field of an object, or the only item of
an array. -/
inductive HasResults : Draft → List (Option String × Draft) → Prop
  | field (members results : List (Option String × Draft)) (stop : Option Json.Break) :
      (some "results", .object results none) ∈ members → HasResults (.object members stop) results
  | item (results : List (Option String × Draft)) (stop : Option Json.Break) :
      HasResults (.array [.object results none] stop) results

variable {members : List (Option String × Draft)} {stop : Option Json.Break} {m m' : Response}
variable {member : Option String × Draft} {key : String} {d : Draft} {text : List Char}

theorem stageOfName_eq_ok_iff {s : Stage} : stageOfName key = .ok s ↔ key = s.key := by
  constructor
  · intro h
    unfold stageOfName at h
    cases hs : Stage.ofKey? key with
    | none =>
      rw [hs] at h
      cases h
    | some t =>
      rw [hs] at h
      obtain rfl := Except.ok.inj h
      have hkey := List.find?_some hs
      exact (beq_iff_eq.mp hkey).symm
  · rintro rfl
    rw [stageOfName, Stage.ofKey?_key]

/-- A member is read by one insertion. -/
theorem readEntry_eq_ok_iff : readEntry m key d = .ok m' ↔
    ∃ e, Enters (some key, d) e ∧ m.insert e.1 e.2 = m' := by
  unfold readEntry
  rw [bind_eq_ok_iff]
  simp only [bind_eq_ok_iff, stageOfName_eq_ok_iff, Enters, Option.some.injEq, Prod.exists]
  constructor
  · rintro ⟨s, hs, r, hr, hm⟩
    exact ⟨s, r, ⟨hs, hr⟩, Except.ok.inj hm⟩
  · rintro ⟨s, r, ⟨hs, hr⟩, rfl⟩
    exact ⟨s, hs, r, hr, rfl⟩

/-- **Members are read by insertions in their order.** -/
theorem foldMembers_readEntry_eq_ok_iff : foldMembers readEntry m members stop = .ok m' ↔
    stop = none ∧ ∃ history, List.Forall₂ Enters members history ∧
      history.foldl (fun m e => m.insert e.1 e.2) m = m' := by
  induction members generalizing m with
  | nil =>
    simp only [List.forall₂_nil_left_iff, exists_eq_left, List.foldl_nil]
    cases stop with
    | none => simp [foldMembers_nil]
    | some b => exact ⟨nofun, nofun⟩
  | cons member rest ih =>
    obtain ⟨key, d⟩ := member
    cases key with
    | none =>
      constructor
      · exact nofun
      · rintro ⟨-, history, henters, -⟩
        cases henters with
        | cons hfirst _ => cases hfirst.1
    | some key =>
      rw [foldMembers_cons]
      show (readEntry m key d >>= _) = _ ↔ _
      rw [bind_eq_ok_iff]
      simp only [readEntry_eq_ok_iff, ih]
      constructor
      · rintro ⟨_, ⟨e, he, rfl⟩, hstop, history, hrest, rfl⟩
        exact ⟨hstop, e :: history, .cons he hrest, rfl⟩
      · rintro ⟨hstop, _, henters, rfl⟩
        cases henters with
        | cons he hrest => exact ⟨_, ⟨_, he, rfl⟩, hstop, _, hrest, rfl⟩

/-- **A `results` object is read by inserting what it holds.** -/
theorem readEntries_eq_ok_iff : readEntries d = .ok m ↔
    ∃ members history, d = .object members none ∧ List.Forall₂ Enters members history ∧
      Response.ofList history = m := by
  constructor
  · intro h
    unfold readEntries at h
    split at h
    · rename_i members stop
      obtain ⟨rfl, history, henters, hm⟩ := foldMembers_readEntry_eq_ok_iff.mp h
      exact ⟨members, history, rfl, henters, hm⟩
    · exact absurd h (wrongType_ne_ok _ _ _)
  · rintro ⟨members, history, rfl, henters, hm⟩
    exact foldMembers_readEntry_eq_ok_iff.mpr ⟨rfl, history, henters, hm⟩

/-- Take one member of the object that a response is. -/
def takeResults (f : Option Response) (key : String) (d : Draft) : Read (Option Response) :=
  if key = "results" then once "results" f (readEntries d)
  else do
    checkFault d.passOver
    return f

/-- A response that has been taken was there before, or a member gave it. -/
theorem exists_of_foldMembers_takeResults {f : Option Response}
    (h : foldMembers takeResults f members stop = .ok (some m)) :
    f = some m ∨ ∃ d, (some "results", d) ∈ members ∧ readEntries d = .ok m := by
  induction members generalizing f with
  | nil =>
    cases stop with
    | none => exact .inl (Except.ok.inj h)
    | some b => cases h
  | cons member rest ih =>
    obtain ⟨key, d⟩ := member
    cases key with
    | none => cases h
    | some key =>
      rw [foldMembers_cons] at h
      obtain ⟨next, hnext, hrest⟩ := bind_eq_ok_iff.mp h
      rcases ih hrest with rfl | ⟨d', hmem, hd'⟩
      · unfold takeResults at hnext
        split at hnext
        · rename_i hkey
          subst hkey
          cases f with
          | some m' => cases hnext
          | none =>
            cases hd : readEntries d with
            | error e =>
              rw [hd] at hnext
              cases hnext
            | ok m' =>
              rw [hd] at hnext
              cases hnext
              exact .inr ⟨d, List.mem_cons_self, hd⟩
        · obtain ⟨-, -, hf⟩ := bind_eq_ok_iff.mp hnext
          exact .inl (Except.ok.inj hf)
      · exact .inr ⟨d', List.mem_cons_of_mem _ hmem, hd'⟩

/-- A response that is read is what its `results` object holds. -/
theorem exists_of_readResponse (h : readResponse d = .ok m) :
    ∃ results history, HasResults d results ∧ List.Forall₂ Enters results history ∧
      Response.ofList history = m := by
  unfold readResponse at h
  split at h
  · rename_i members stop
    obtain ⟨f, hfold, hf⟩ := bind_eq_ok_iff.mp h
    cases f with
    | none => cases hf
    | some m' =>
      obtain rfl := Except.ok.inj hf
      rcases exists_of_foldMembers_takeResults hfold with hnone | ⟨d, hmem, hd⟩
      · cases hnone
      · obtain ⟨results, history, rfl, henters, hm⟩ := readEntries_eq_ok_iff.mp hd
        exact ⟨results, history, .field members results stop hmem, henters, hm⟩
  · rename_i items stop
    split at h
    · obtain ⟨-, -, hm⟩ := bind_eq_ok_iff.mp h
      cases hm
    · rename_i d rest
      obtain ⟨m', hd, hm⟩ := bind_eq_ok_iff.mp h
      split at hm
      · rename_i hrest
        obtain ⟨-, -, hm⟩ := bind_eq_ok_iff.mp hm
        obtain rfl := Except.ok.inj hm
        obtain ⟨results, history, rfl, henters, hm⟩ := readEntries_eq_ok_iff.mp hd
        rw [List.isEmpty_iff.mp hrest]
        exact ⟨results, history, .item results stop, henters, hm⟩
      · cases hm
  · exact absurd h (wrongType_ne_ok _ _ _)

theorem readResponse_of_document (h : document readResponse text = .ok m) :
    readResponse (Json.read text).root = .ok m := by
  obtain ⟨m', hm', h⟩ := bind_eq_ok_iff.mp h
  split at h
  · cases h
  · rw [hm']
    exact h

end Wire

namespace Response

/-- **Responses obey the law of maps that keep the order of insertion.** A response is as the
history of its insertions makes it, whatever the history is: each stage that was inserted stands
once, in the order of first insertion and with the last result, and what it tells of its size, of
its completeness and of its success is told of the history. An insertion changes no other entry and
moves none. A response that is read from a document is as the members of the `results` object make
it, one insertion for each, however often their names are repeated. -/
theorem responses_obey_map_law :
    (∀ history, MapLaw history (ofList history)) ∧
    (∀ history s r, (ofList history).insert s r = ofList (history ++ [(s, r)]) ∧
      Sets (ofList history) s r ((ofList history).insert s r)) ∧
    ∀ text m, Wire.document Wire.readResponse text = .ok m →
      ∃ members history, Wire.HasResults (Json.read text).root members ∧
        List.Forall₂ Wire.Enters members history ∧ m = ofList history ∧ MapLaw history m := by
  refine ⟨fun history => (records_ofList history).mapLaw, fun history s r => ?_, fun text m h => ?_⟩
  · exact ⟨ofList_concat.symm, sets_insert _ s r⟩
  · obtain ⟨members, history, hresults, henters, rfl⟩ :=
      Wire.exists_of_readResponse (Wire.readResponse_of_document h)
    exact ⟨members, history, hresults, henters, rfl, (records_ofList history).mapLaw⟩

/-- A document that gives one stage twice, first as an array and then as an object, with another
stage between them. -/
def repeating : String :=
  "\x7b\"results\":\x7b\"ir\":[\"IR\",[],1,\"first\"],\"ast\":[\"AST\",[\"swiftc\"],0,\"\"]," ++
    "\"ir\":\x7b\"output\":\"last\",\"exitCode\":0,\"command\":[],\"label\":\"IR\"\x7d\x7d\x7d"

/-- The repeated stage stands first, with the result that came last. -/
theorem responses_obey_map_law_repeating :
    let m : Response := ⟨[(.ir, ⟨"IR", [], 0, "last"⟩), (.ast, ⟨"AST", ["swiftc"], 0, ""⟩)]⟩
    Wire.document Wire.readResponse repeating.toList = .ok m ∧
      ∃ members history, Wire.HasResults (Json.read repeating.toList).root members ∧
        List.Forall₂ Wire.Enters members history ∧ m = ofList history ∧ MapLaw history m := by
  intro m
  have hread : Wire.document Wire.readResponse repeating.toList = .ok m := by decide +kernel
  exact ⟨hread, responses_obey_map_law.2.2 _ m hread⟩

end Response

end StageLens
