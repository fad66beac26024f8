import StageLens.Json.Parser
import StageLens.Proofs.Json.Tokens

/-!
# Reading what was written

The parser takes the tokens of a value as one value wherever a value is wanted
(`foldl_written`), so a written document is read as the value it was written from, in either layout
and with blanks after it.
-/

namespace StageLens.Json

mutual

/-- A value as it is read. -/
def draft : Json → Draft
  | .null => .null
  | .boolean b => .boolean b
  | .integer i => .number (numeral i)
  | .text s => .text (some s)
  | .array items => .array (draftItems items) none
  | .object members => .object (draftMembers members) none

def draftItems : List Json → List Draft
  | [] => []
  | j :: js => draft j :: draftItems js

def draftMembers : List (String × Json) → List (Option String × Draft)
  | [] => []
  | (key, j) :: ms => (some key, draft j) :: draftMembers ms

end

/-! ## Parsing -/

/-- No value begins with the end of an array. -/
theorem foldl_valueOrClose (items : List Draft) (stack : List Frame) (j : Json) :
    (written j).foldl Parser.step (.within (.array items :: stack) .valueOrClose) =
      (written j).foldl Parser.step (.within (.array items :: stack) .value) := by
  cases j <;> rw [written] <;> rfl

theorem foldl_writtenItems_valueOrClose (items : List Draft) (stack : List Frame) (js : List Json)
    (hjs : js ≠ []) :
    (writtenItems js).foldl Parser.step (.within (.array items :: stack) .valueOrClose) =
      (writtenItems js).foldl Parser.step (.within (.array items :: stack) .value) := by
  match js, hjs with
  | [j], _ => exact foldl_valueOrClose items stack j
  | j :: k :: js, _ =>
    rw [writtenItems, List.foldl_append, List.foldl_append, foldl_valueOrClose]

theorem foldl_writtenMembers_keyOrClose (members : List (Option String × Draft))
    (stack : List Frame) (ms : List (String × Json)) (hms : ms ≠ []) :
    (writtenMembers ms).foldl Parser.step (.within (.object members :: stack) .keyOrClose) =
      (writtenMembers ms).foldl Parser.step (.within (.object members :: stack) .key) := by
  match ms, hms with
  | [(key, j)], _ => rfl
  | (key, j) :: m :: ms, _ => rfl

mutual

/-- The tokens of a value are taken as that value. -/
theorem foldl_written : ∀ (j : Json) (stack : List Frame),
    (written j).foldl Parser.step (.within stack .value) = Parser.attach stack (draft j)
  | .null, _ => rfl
  | .boolean _, _ => rfl
  | .integer _, _ => rfl
  | .text _, _ => rfl
  | .array [], _ => rfl
  | .array (j :: js), stack => by
    have hitems := foldl_writtenItems (j :: js) (by simp) [] stack
    rw [List.append_nil, ← foldl_writtenItems_valueOrClose _ _ _ (by simp)] at hitems
    rw [written, List.foldl_append]
    show List.foldl _ (List.foldl _ (Parser.within (.array [] :: stack) .valueOrClose) _) _ = _
    rw [hitems, draft]
    show Parser.attach stack (.array (draftItems (j :: js)).reverse.reverse none) = _
    rw [List.reverse_reverse]
  | .object [], _ => rfl
  | .object (m :: ms), stack => by
    have hmembers := foldl_writtenMembers (m :: ms) (by simp) [] stack
    rw [List.append_nil, ← foldl_writtenMembers_keyOrClose _ _ _ (by simp)] at hmembers
    rw [written, List.foldl_append]
    show List.foldl _ (List.foldl _ (Parser.within (.object [] :: stack) .keyOrClose) _) _ = _
    rw [hmembers, draft]
    show Parser.attach stack (.object (draftMembers (m :: ms)).reverse.reverse none) = _
    rw [List.reverse_reverse]

theorem foldl_writtenItems : ∀ (js : List Json), js ≠ [] → ∀ (items : List Draft)
    (stack : List Frame),
    (writtenItems js).foldl Parser.step (.within (.array items :: stack) .value) =
      .within (.array ((draftItems js).reverse ++ items) :: stack) .commaOrClose
  | [j], _, items, stack => foldl_written j (.array items :: stack)
  | j :: k :: js, _, items, stack => by
    have hrest := foldl_writtenItems (k :: js) (by simp) (draft j :: items) stack
    rw [writtenItems, List.foldl_append, foldl_written j (.array items :: stack), List.foldl_cons]
    refine Eq.trans hrest ?_
    show _ = Parser.within (.array ((draft j :: draftItems (k :: js)).reverse ++ items) :: stack) _
    rw [List.reverse_cons, List.append_assoc, List.singleton_append]

theorem foldl_writtenMembers : ∀ (ms : List (String × Json)), ms ≠ [] →
    ∀ (members : List (Option String × Draft)) (stack : List Frame),
    (writtenMembers ms).foldl Parser.step (.within (.object members :: stack) .key) =
      .within (.object ((draftMembers ms).reverse ++ members) :: stack) .commaOrClose
  | [(key, j)], _, members, stack => foldl_written j (.member members (some key) :: stack)
  | (key, j) :: m :: ms, _, members, stack => by
    have hfirst := foldl_written j (.member members (some key) :: stack)
    have hrest := foldl_writtenMembers (m :: ms) (by simp) ((some key, draft j) :: members) stack
    rw [writtenMembers, List.cons_append, List.cons_append, List.foldl_cons, List.foldl_cons,
      List.foldl_append]
    show List.foldl _ (List.foldl _ (Parser.within (.member members (some key) :: stack) .value) _) _ = _
    rw [hfirst, List.foldl_cons]
    refine Eq.trans hrest ?_
    show _ = Parser.within
      (.object (((some key, draft j) :: draftMembers (m :: ms)).reverse ++ members) :: stack) _
    rw [List.reverse_cons, List.append_assoc, List.singleton_append]

end

/-! ## Documents -/

/-- The tokens of a value are a document. -/
theorem ofTokens_written (j : Json) : ofTokens (written j) = ⟨draft j, false⟩ := by
  unfold ofTokens Parser.start
  rw [foldl_written]
  rfl

theorem read_of_spells {cs : List Char} {j : Json} (h : Spells cs (written j)) :
    read cs = ⟨draft j, false⟩ := by
  unfold read
  rw [h.tokens, ofTokens_written]

/-- **A document on one line is read as its value.** -/
theorem read_compact (j : Json) : read j.compact.toList = ⟨draft j, false⟩ := by
  rw [compact, String.toList_ofList]
  exact read_of_spells (spells_compact j)

/-- **A document over several lines is read as its value**, with blanks after it as well. -/
theorem read_pretty (j : Json) : read j.pretty.toList = ⟨draft j, false⟩ := by
  rw [pretty, String.toList_ofList]
  exact read_of_spells (spells_pretty 0 j)

theorem read_pretty_line (j : Json) : read (j.pretty ++ "\n").toList = ⟨draft j, false⟩ := by
  have hline : Spells ['\n'] [] := spells_nil.blank (by decide)
  have h := (spells_pretty 0 j).append hline (by decide)
  rw [List.append_nil] at h
  rw [String.toList_append, pretty, String.toList_ofList]
  exact read_of_spells h

end StageLens.Json
