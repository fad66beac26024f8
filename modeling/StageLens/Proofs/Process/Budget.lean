import StageLens.Proofs.Process.Output

/-!
# The budget of a capture

Two streams share one budget of bytes: standard output is cut to the longest beginning that fits,
and standard error to the longest beginning that fits into what is left. A beginning ends between
two characters, so a cut leaves up to three bytes of room (`lt_size_fit_add_four`). A capture says
that it was cut exactly when the two decoded streams together are longer than the budget.
-/

namespace StageLens

namespace Text

variable {cs p : List Char} {c : Char} {room : Nat}

/-- No longer beginning fits. -/
theorem prefix_fit (hp : p <+: cs) (hsize : size p ≤ room) : p <+: fit room cs := by
  induction cs generalizing p room with
  | nil =>
    rw [List.prefix_nil.mp hp]
    exact List.nil_prefix
  | cons c cs ih =>
    cases p with
    | nil => exact List.nil_prefix
    | cons d p =>
      obtain ⟨rfl, hrest⟩ := List.cons_prefix_cons.mp hp
      rw [size_cons] at hsize
      rw [fit_cons, if_pos (by omega)]
      exact List.cons_prefix_cons.mpr ⟨rfl, ih hrest (by omega)⟩

theorem fit_eq_nil_iff : fit room cs = [] ↔ ∀ c ∈ cs.head?, room < c.utf8Size := by
  cases cs with
  | nil => simp [fit]
  | cons c cs =>
    rw [fit_cons]
    by_cases h : c.utf8Size ≤ room
    · simp [h]
    · simp [h, Nat.lt_of_not_le h]

/-- A cut leaves less room than the next character takes. -/
theorem lt_size_fit_add_four (h : room < size cs) : room < size (fit room cs) + 4 := by
  induction cs generalizing room with
  | nil => exact absurd h (Nat.not_lt_zero room)
  | cons c cs ih =>
    rw [size_cons] at h
    have hfour := c.utf8Size_le_four
    rw [fit_cons]
    split
    · have htail : room - c.utf8Size < size (fit (room - c.utf8Size) cs) + 4 := ih (by omega)
      rw [size_cons]
      omega
    · rw [size_nil]
      omega

theorem utf8ByteSize_decodeText (bs : Bytes) :
    (decodeText bs).utf8ByteSize = size (decode bs) := utf8ByteSize_ofList _

end Text

namespace Output

/-- A text is the longest beginning of another one that takes at most `room` bytes. -/
structure LongestWithin (room : Nat) (whole kept : String) : Prop where
  beginning : kept.toList <+: whole.toList
  fits : kept.utf8ByteSize ≤ room
  longest : ∀ p : String, p.toList <+: whole.toList → p.utf8ByteSize ≤ room →
    p.toList <+: kept.toList

theorem longestWithin_fit (room : Nat) (cs : List Char) :
    LongestWithin room (String.ofList cs) (String.ofList (Text.fit room cs)) := by
  refine ⟨?_, ?_, fun p hp hsize => ?_⟩
  · rw [String.toList_ofList, String.toList_ofList]
    exact Text.fit_prefix room cs
  · rw [Text.utf8ByteSize_ofList]
    exact Text.size_fit_le room cs
  · rw [String.toList_ofList] at hp ⊢
    rw [← String.ofList_toList (s := p), Text.utf8ByteSize_ofList] at hsize
    exact Text.prefix_fit hp hsize

variable {code : Int32} {out err : Bytes} {limit : Nat}

/-- What is captured of two streams when nothing has to be cut. -/
def whole (code : Int32) (out err : Bytes) : Output :=
  { exitCode := code, stdout := Text.decodeText out, stderr := Text.decodeText err }

theorem capture_eq_whole (h : Text.size (Text.decode out) + Text.size (Text.decode err) ≤ limit) :
    capture code out err limit = whole code out err := by
  have hout : Text.size (Text.decode out) ≤ limit := by omega
  have herr : Text.size (Text.decode err) ≤ limit - Text.size (Text.decode out) := by omega
  rw [capture_eq, Text.fit_of_size_le hout, Text.fit_of_size_le herr]
  simp [whole, Text.decodeText, Nat.not_lt_of_le hout, Nat.not_lt_of_le herr]

theorem longestWithin_stdout (code : Int32) (out err : Bytes) (limit : Nat) :
    LongestWithin limit (Text.decodeText out) (capture code out err limit).stdout := by
  rw [stdout_capture]
  exact longestWithin_fit limit _

theorem longestWithin_stderr (code : Int32) (out err : Bytes) (limit : Nat) :
    LongestWithin (limit - (capture code out err limit).stdout.utf8ByteSize) (Text.decodeText err)
      (capture code out err limit).stderr := by
  rw [stderr_capture]
  exact longestWithin_fit _ _

theorem size_le_of_not_truncated (h : (capture code out err limit).truncated = false) :
    Text.size (Text.decode out) + Text.size (Text.decode err) ≤ limit := by
  apply Nat.le_of_not_lt
  rw [← truncated_capture code, h]
  exact Bool.false_ne_true

/-- A capture was not cut exactly when both streams are there to their ends. -/
theorem truncated_eq_false_iff : (capture code out err limit).truncated = false ↔
    (capture code out err limit).stdout = Text.decodeText out ∧
    (capture code out err limit).stderr = Text.decodeText err := by
  constructor
  · intro h
    rw [capture_eq_whole (size_le_of_not_truncated h)]
    exact ⟨rfl, rfl⟩
  · rintro ⟨hout, herr⟩
    have hfits := size_capture_le code out err limit
    rw [hout, herr, Text.utf8ByteSize_decodeText, Text.utf8ByteSize_decodeText] at hfits
    rw [capture_eq_whole hfits]
    rfl

/-- **The budget of a capture.** For any bytes on the two streams, in what they decode to,

* standard output is the longest beginning that fits into the budget, which leaves the rest of the
  budget to standard error, and that is the longest beginning that fits into it;
* the budget is not overdrawn, by standard output alone or by both together;
* the capture says that it was cut exactly when both streams together are longer than the budget,
  and otherwise it is the whole of both. -/
theorem capture_budget (code : Int32) (out err : Bytes) (limit : Nat) :
    (capture code out err limit).exitCode = code ∧
    (capture code out err limit).stdout.utf8ByteSize ≤ limit ∧
    LongestWithin limit (Text.decodeText out) (capture code out err limit).stdout ∧
    LongestWithin (limit - (capture code out err limit).stdout.utf8ByteSize) (Text.decodeText err)
      (capture code out err limit).stderr ∧
    (capture code out err limit).stdout.utf8ByteSize +
      (capture code out err limit).stderr.utf8ByteSize ≤ limit ∧
    ((capture code out err limit).truncated = true ↔
      limit < (Text.decodeText out).utf8ByteSize + (Text.decodeText err).utf8ByteSize) ∧
    ((capture code out err limit).truncated = false ↔
      (capture code out err limit).stdout = Text.decodeText out ∧
      (capture code out err limit).stderr = Text.decodeText err) := by
  have hstdout := longestWithin_stdout code out err limit
  have hstderr := longestWithin_stderr code out err limit
  refine ⟨?_, hstdout.fits, hstdout, hstderr, size_capture_le code out err limit, ?_,
    truncated_eq_false_iff⟩
  · rw [capture_eq]
  · rw [truncated_capture, Text.utf8ByteSize_decodeText, Text.utf8ByteSize_decodeText]

/-- The cut of standard output leaves a byte, and standard error takes it. -/
example : capture 0 (Text.bytes "aé") (Text.bytes "xy") 2 =
    { exitCode := 0, stdout := "a", stderr := "x", truncated := true } := by
  decide +kernel

end Output

end StageLens
