import Mathlib.Tactic.Common

/-!
# Pieces of a text

A text between its gaps. Words that are put together with gaps between them fall apart into the
pieces of the words (`pieces_join`), and lines that are ended one by one into the pieces of the lines
(`lines_join`); these are the words and the lines themselves as far as there is no gap in them.
-/

namespace StageLens.Text

/-- What stands between the gaps of a text. -/
def pieces (gap : Char) (s : String) : List String := (s.toList.splitOn gap).map String.ofList

/-- The lines of a text that have ended. -/
def lines (s : String) : List String := (pieces '\n' s).dropLast

variable {gap c : Char} {s s' : String}

theorem pieces_of_toList {before behind : String}
    (h : s.toList = before.toList ++ gap :: behind.toList) :
    pieces gap s = pieces gap before ++ pieces gap behind := by
  unfold pieces
  rw [h, List.splitOn_append_cons_self, List.map_append]

theorem pieces_of_notMem (h : gap ∉ s.toList) : pieces gap s = [s] := by
  rw [pieces, List.splitOn_eq_singleton h, List.map_singleton, String.ofList_toList]

theorem length_pieces (gap : Char) (s : String) :
    (pieces gap s).length = s.toList.count gap + 1 := by
  rw [pieces, List.length_map]
  induction s.toList with
  | nil => rfl
  | cons c cs ih =>
    rw [List.splitOn_cons_eq_if_modifyHead, List.count_cons]
    split
    · rw [List.length_cons, ih]
    · rw [List.length_modifyHead, ih, Nat.add_zero]

/-- A text is told by its pieces. -/
theorem eq_of_pieces (h : pieces gap s = pieces gap s') : s = s' := by
  have hlists : s.toList.splitOn gap = s'.toList.splitOn gap :=
    (List.map_inj_right fun _ _ => String.ofList_inj.mp).mp h
  have hjoined := congrArg [gap].intercalate hlists
  rw [List.intercalate_splitOn, List.intercalate_splitOn] at hjoined
  exact String.toList_injective hjoined

/-- There are as many pieces as texts where none of them has a gap. -/
theorem length_flatMap_pieces_eq_iff {texts : List String} :
    (texts.flatMap (pieces gap)).length = texts.length ↔ ∀ text ∈ texts, gap ∉ text.toList := by
  have hle : ∀ texts : List String, texts.length ≤ (texts.flatMap (pieces gap)).length := by
    intro texts
    induction texts with
    | nil => exact Nat.le_refl 0
    | cons text texts ih =>
      rw [List.flatMap_cons, List.length_append, length_pieces, List.length_cons]
      omega
  induction texts with
  | nil => simp
  | cons text texts ih =>
    have hrest := hle texts
    rw [List.forall_mem_cons, ← List.count_eq_zero, List.flatMap_cons, List.length_append,
      length_pieces, List.length_cons]
    constructor
    · intro h
      exact ⟨by omega, ih.mp (by omega)⟩
    · rintro ⟨hhead, htail⟩
      have hsame := ih.mpr htail
      omega

theorem flatMap_pieces_of_notMem {texts : List String} (h : ∀ text ∈ texts, gap ∉ text.toList) :
    texts.flatMap (pieces gap) = texts := by
  induction texts with
  | nil => rfl
  | cons text texts ih =>
    obtain ⟨hhead, htail⟩ := List.forall_mem_cons.mp h
    rw [List.flatMap_cons, pieces_of_notMem hhead, ih htail, List.singleton_append]

/-! ## Words and lines -/

theorem toList_join_cons (word next : String) (words : List String) :
    (" ".intercalate (word :: next :: words)).toList =
      word.toList ++ ' ' :: (" ".intercalate (next :: words)).toList := by
  simp [String.intercalate_cons_cons]

/-- Words with gaps between them fall apart into their pieces. -/
theorem pieces_join (word : String) (words : List String) :
    pieces ' ' (" ".intercalate (word :: words)) = (word :: words).flatMap (pieces ' ') := by
  induction words generalizing word with
  | nil => simp [String.intercalate_singleton]
  | cons next words ih =>
    rw [pieces_of_toList (toList_join_cons word next words), ih, ← List.flatMap_cons]

/-- A character that is no gap is in a line if it is in one of its words. -/
theorem mem_join_iff (hc : c ≠ ' ') (words : List String) :
    c ∈ (" ".intercalate words).toList ↔ ∃ word ∈ words, c ∈ word.toList := by
  induction words with
  | nil => simp
  | cons word words ih =>
    cases words with
    | nil => simp [String.intercalate_singleton]
    | cons next words =>
      rw [toList_join_cons, List.mem_append, List.mem_cons, ih]
      simp [hc]

/-- Lines that are ended one by one. -/
theorem lines_join (texts : List String) :
    lines (String.join (texts.map (· ++ "\n"))) = texts.flatMap (pieces '\n') := by
  have hpieces : pieces '\n' (String.join (texts.map (· ++ "\n"))) =
      texts.flatMap (pieces '\n') ++ [""] := by
    induction texts with
    | nil => rfl
    | cons text texts ih =>
      have hline : (String.join ((text :: texts).map (· ++ "\n"))).toList =
          text.toList ++ '\n' :: (String.join (texts.map (· ++ "\n"))).toList := by
        simp [String.join_cons]
      rw [pieces_of_toList hline, ih, List.flatMap_cons, List.append_assoc]
  rw [lines, hpieces, List.dropLast_concat]

end StageLens.Text
