import StageLens.CommandLine.Basic
import StageLens.Proofs.Wire.Reading
import StageLens.Wire.Response

/-!
# Responses that go through a document

A response is read from its document as it was written, whichever layout the document has. Results
are compared one by one and in their order, because a response is the list of its entries.
-/

namespace StageLens

/-! ## Responses as lists -/

namespace Response

variable {s : Stage} {r : StageResult} {entries : List (Stage × StageResult)}

/-- A stage that was not there comes last. -/
theorem insertEntry_of_notMem (h : s ∉ entries.map Prod.fst) :
    insertEntry s r entries = entries ++ [(s, r)] := by
  induction entries with
  | nil => rfl
  | cons e rest ih =>
    rw [List.map_cons, List.mem_cons, not_or] at h
    rw [insertEntry, if_neg (Ne.symm h.1), ih h.2, List.cons_append]

/-- Inserting a stage again keeps the stages. -/
theorem keys_insertEntry_of_mem (h : s ∈ entries.map Prod.fst) :
    (insertEntry s r entries).map Prod.fst = entries.map Prod.fst := by
  induction entries with
  | nil => cases h
  | cons e rest ih =>
    rw [insertEntry]
    by_cases he : e.1 = s
    · rw [if_pos he, List.map_cons, List.map_cons, he]
    · have hrest : s ∈ rest.map Prod.fst := by
        rw [List.map_cons] at h
        exact (List.mem_cons.mp h).resolve_left (Ne.symm he)
      rw [if_neg he, List.map_cons, List.map_cons, ih hrest]

theorem nodup_insertEntry (h : (entries.map Prod.fst).Nodup) :
    ((insertEntry s r entries).map Prod.fst).Nodup := by
  by_cases hs : s ∈ entries.map Prod.fst
  · rw [keys_insertEntry_of_mem hs]
    exact h
  · rw [insertEntry_of_notMem hs, List.map_append, List.map_singleton]
    refine List.nodup_append.mpr ⟨h, by simp, fun t ht u hu => ?_⟩
    rw [List.mem_singleton.mp hu]
    exact ne_of_mem_of_not_mem ht hs

/-- **A response has each stage once**, whatever has been inserted in whichever order. -/
theorem nodup_keys_ofList (entries : List (Stage × StageResult)) :
    (ofList entries).keys.Nodup := by
  have hfold : ∀ (m : Response), m.keys.Nodup →
      (entries.foldl (fun m e => m.insert e.1 e.2) m).keys.Nodup := by
    induction entries with
    | nil => exact fun m hm => hm
    | cons e rest ih => exact fun m hm => ih (m.insert e.1 e.2) (nodup_insertEntry hm)
  exact hfold empty List.nodup_nil

/-- Inserting the entries of a response one by one gives that response. -/
theorem ofList_entries {m : Response} (h : m.keys.Nodup) : ofList m.entries = m := by
  have hfold : ∀ (rest before : List (Stage × StageResult)), ((before ++ rest).map Prod.fst).Nodup →
      rest.foldl (fun m e => m.insert e.1 e.2) ⟨before⟩ = (⟨before ++ rest⟩ : Response) := by
    intro rest
    induction rest with
    | nil => exact fun before _ => by rw [List.append_nil]; rfl
    | cons e rest ih =>
      intro before hbefore
      have hnew : e.1 ∉ before.map Prod.fst := by
        rw [List.map_append, List.map_cons, List.nodup_append] at hbefore
        exact fun hmem => hbefore.2.2 e.1 hmem e.1 List.mem_cons_self rfl
      rw [List.foldl_cons, insert, insertEntry_of_notMem hnew, ih]
      · rw [List.append_assoc]; rfl
      · rw [List.append_assoc]; exact hbefore
  exact hfold m.entries [] h

end Response

namespace Wire

open StageLens.Json (Draft draft draftMembers)

variable {m : Response}

/-- **A result is read as it was written.** -/
theorem readResult_draft (r : StageResult) : readResult (draft (ofResult r)) = .ok r := by
  show (foldMembers ResultFields.take {} [(some "label", draft (.text r.label)),
    (some "command", draft (.array (r.command.map .text))),
    (some "exitCode", draft (.integer r.exitCode.toInt)),
    (some "output", draft (.text r.output))] none).bind ResultFields.result = .ok r
  have hlabel : ResultFields.take {} "label" (draft (.text r.label)) =
      .ok { label := some r.label } := rfl
  have hcommand : ResultFields.take { label := some r.label } "command"
      (draft (.array (r.command.map .text))) =
        .ok { label := some r.label, command := some r.command } := by
    simp [ResultFields.take, once, asTexts_draft]
  have hcode : ResultFields.take { label := some r.label, command := some r.command } "exitCode"
      (draft (.integer r.exitCode.toInt)) =
        .ok ⟨some r.label, some r.command, some r.exitCode, none⟩ := by
    simp [ResultFields.take, once, asInt32_draft]
  have houtput : ResultFields.take ⟨some r.label, some r.command, some r.exitCode, none⟩ "output"
      (draft (.text r.output)) =
        .ok ⟨some r.label, some r.command, some r.exitCode, some r.output⟩ := rfl
  rw [foldMembers_of_step hlabel, foldMembers_of_step hcommand, foldMembers_of_step hcode,
    foldMembers_of_step houtput]
  rfl

/-! ## Responses -/

theorem itemsJson?_text (texts : List String) :
    Json.itemsJson? (texts.map .text) = .ok (texts.map .text) := by
  induction texts with
  | nil => rfl
  | cons s texts ih =>
    rw [List.map_cons, Json.itemsJson?, ih]
    rfl

theorem json?_resultDatum (r : StageResult) : (resultDatum r).json? = .ok (ofResult r) := by
  unfold resultDatum
  simp only [Json.Datum.json?, Json.fieldsJson?, itemsJson?_text]
  rfl

/-- The names of the stages stand for the keys. -/
theorem entriesJson?_entries (entries : List (Stage × StageResult)) :
    Json.entriesJson? (entries.map fun e => (.variant e.1.key, resultDatum e.2)) =
      .ok (entries.map fun e => (e.1.key, ofResult e.2)) := by
  induction entries with
  | nil => rfl
  | cons e entries ih =>
    rw [List.map_cons, Json.entriesJson?, json?_resultDatum, ih]
    rfl

/-- **Every response can be written.** -/
theorem json?_responseDatum (m : Response) : (responseDatum m).json? = .ok (ofResponse m) := by
  unfold responseDatum
  simp only [Json.Datum.json?, Json.fieldsJson?, entriesJson?_entries]
  rfl

/-- A map whose keys are neither texts nor names cannot. -/
example : (Json.Datum.map [(.sequence [], .text "")]).json? = .error .keyNotText := rfl

/-- One more entry is read. -/
def readEntry (m : Response) (key : String) (d : Draft) : Read Response := do
  let s ← stageOfName key
  let r ← readResult d
  return m.insert s r

theorem readEntry_draft (m : Response) (s : Stage) (r : StageResult) :
    readEntry m s.key (draft (ofResult r)) = .ok (m.insert s r) := by
  unfold readEntry stageOfName
  rw [Stage.ofKey?_key, readResult_draft]
  rfl

/-- The entries of a document are inserted in their order. -/
theorem readEntries_draft (entries : List (Stage × StageResult)) :
    readEntries (draft (.object (entries.map fun e => (e.1.key, ofResult e.2)))) =
      .ok (Response.ofList entries) := by
  have hfold : ∀ m, foldMembers readEntry m
      (draftMembers (entries.map fun e => (e.1.key, ofResult e.2))) none =
        .ok (entries.foldl (fun m e => m.insert e.1 e.2) m) := by
    induction entries with
    | nil => exact fun m => rfl
    | cons e rest ih =>
      intro m
      rw [List.map_cons, draftMembers, foldMembers_of_step (readEntry_draft m e.1 e.2), ih]
      rfl
  exact hfold Response.empty

/-- **A response is read as it was written.** -/
theorem readResponse_draft (h : m.keys.Nodup) : readResponse (draft (ofResponse m)) = .ok m := by
  have hentries := readEntries_draft m.entries
  rw [Response.ofList_entries h] at hentries
  have honce : once "results" none
      (readEntries (draft (.object (m.entries.map fun e => (e.1.key, ofResult e.2))))) =
        .ok (some m) := by
    rw [hentries]
    rfl
  show (foldMembers _ none [(some "results", _)] none).bind (required "results") = .ok m
  rw [foldMembers_of_step honce, foldMembers_nil]
  rfl

end Wire

theorem CommandLine.render_json (m : Response) :
    CommandLine.render .json m = .ok ((Wire.ofResponse m).pretty ++ "\n") := by
  rw [CommandLine.render, Wire.json?_responseDatum]
  rfl

theorem CommandLine.exists_render (f : CommandLine.Format) (m : Response) :
    ∃ printed, CommandLine.render f m = .ok printed := by
  cases f with
  | text => exact ⟨_, rfl⟩
  | json => exact ⟨_, CommandLine.render_json m⟩

/-- **Responses survive their documents.** A response that has each stage once, as every response
has that is built by insertions, is read back from the document on one line, from the one over
several lines, and from what the command line prints. It is the same list of entries, so nothing
that a response tells is lost: the stages and their order, the labels, commands, exit codes and
outputs, and with them the outcomes and whether the response is complete and all stages succeeded. -/
theorem responses_survive_documents (m : Response) (h : m.keys.Nodup) :
    Wire.document Wire.readResponse (Wire.ofResponse m).compact.toList = .ok m ∧
      Wire.document Wire.readResponse (Wire.ofResponse m).pretty.toList = .ok m ∧
      ∃ printed, CommandLine.render .json m = .ok printed ∧
        Wire.document Wire.readResponse printed.toList = .ok m := by
  have hread := Wire.readResponse_draft h
  refine ⟨?_, ?_, _, CommandLine.render_json m, ?_⟩
  · rw [Wire.document_of_read (Json.read_compact _), hread]
  · rw [Wire.document_of_read (Json.read_pretty _), hread]
  · rw [Wire.document_of_read (Json.read_pretty_line _), hread]

/-- A response out of order, with sentinels, control characters and characters past U+FFFF. -/
def Response.strange : Response :=
  .ofList [(.ir, ⟨"IR", ["\"\\", ""], Int32.minValue, "a\x01\x1f\x7f/\u2028𝄞\r\n\t"⟩),
    (.silRaw, ⟨"", [], -4, "\x08\x0c"⟩), (.ast, ⟨"AST", ["/"], 0, ""⟩),
    (.ir, ⟨"IR", ["\"\\", ""], -2, "a\x01\x1f\x7f/\u2028𝄞\r\n\t"⟩)]

/-- Three stages, the first of which was replaced where it stands. -/
theorem responses_survive_documents_strange :
    Response.strange.keys = [.ir, .silRaw, .ast] ∧
      (Response.strange.entries.map fun e => e.2.outcome) = [.timedOut, .rejected, .exited] ∧
      Response.strange.keys.Nodup ∧
      Wire.document Wire.readResponse (Wire.ofResponse .strange).compact.toList = .ok .strange ∧
      Wire.document Wire.readResponse (Wire.ofResponse .strange).pretty.toList = .ok .strange ∧
      ∃ printed, CommandLine.render .json .strange = .ok printed ∧
        Wire.document Wire.readResponse printed.toList = .ok .strange := by
  have hkeys : Response.strange.keys.Nodup := Response.nodup_keys_ofList _
  exact ⟨by decide, by decide, hkeys, responses_survive_documents .strange hkeys⟩

end StageLens
