import StageLens.Process.Launch
import StageLens.Proofs.Text.Size

/-!
# How much output is kept

Two streams that are cut to a common budget fit into it together, whatever bytes they are made of:
decoding may make a stream longer, but the cut comes after it (`size_capture_le`). The combined text
adds a line break between the streams and, where something was cut, a last line that says so
(`size_combined_le`, `endsMarked_combined`).
-/

namespace StageLens

namespace Text

variable {cs : List Char} {room : Nat}

/-! ## Characters that fit -/

/-- The count goes on from where it starts. -/
theorem fitCount_eq_add (n room : Nat) (cs : List Char) :
    fitCount n room cs = n + fitCount 0 room cs := by
  induction cs generalizing n room with
  | nil => rfl
  | cons c cs ih =>
    rw [fitCount, fitCount]
    split
    · rw [ih (n + 1), ih (0 + 1)]
      omega
    · rfl

theorem fit_cons (room : Nat) (c : Char) (cs : List Char) :
    fit room (c :: cs) = if c.utf8Size ≤ room then c :: fit (room - c.utf8Size) cs else [] := by
  unfold fit
  rw [fitCount]
  split
  · rw [fitCount_eq_add, Nat.add_comm, Nat.zero_add, List.take_succ_cons]
  · rfl

theorem fit_prefix (room : Nat) (cs : List Char) : fit room cs <+: cs := List.take_prefix _ _

theorem size_fit_le (room : Nat) (cs : List Char) : size (fit room cs) ≤ room := by
  induction cs generalizing room with
  | nil => exact Nat.zero_le room
  | cons c cs ih =>
    rw [fit_cons]
    split
    · have htail := ih (room - c.utf8Size)
      rw [size_cons]
      omega
    · exact Nat.zero_le room

/-- All characters fit if there is room for all of them. -/
theorem fit_of_size_le (h : size cs ≤ room) : fit room cs = cs := by
  induction cs generalizing room with
  | nil => rfl
  | cons c cs ih =>
    rw [size_cons] at h
    rw [fit_cons, if_pos (by omega), ih (by omega)]

theorem ite_fit (room : Nat) (cs : List Char) :
    (if size cs ≤ room then cs else fit room cs) = fit room cs := by
  split
  · rename_i hroom
    rw [fit_of_size_le hroom]
  · rfl

end Text

namespace Output

variable {o : Output} {limit : Nat}

/-! ## Captured streams -/

/-- Each stream is cut to what fits, whether it has to be or not. -/
theorem capture_eq (code : Int32) (out err : Bytes) (limit : Nat) :
    capture code out err limit =
      { exitCode := code
        stdout := String.ofList (Text.fit limit (Text.decode out))
        stderr := String.ofList
          (Text.fit (limit - Text.size (Text.fit limit (Text.decode out))) (Text.decode err))
        truncated := limit < Text.size (Text.decode out) ||
          limit - Text.size (Text.fit limit (Text.decode out)) < Text.size (Text.decode err) } := by
  unfold capture
  dsimp only
  rw [Text.ite_fit, Text.ite_fit]

/-- Standard output has the first claim on the budget. -/
theorem stdout_capture (code : Int32) (out err : Bytes) (limit : Nat) :
    (capture code out err limit).stdout = String.ofList (Text.fit limit (Text.decode out)) := by
  rw [capture_eq]

/-- Standard error takes what is left of the budget. -/
theorem stderr_capture (code : Int32) (out err : Bytes) (limit : Nat) :
    (capture code out err limit).stderr = String.ofList
      (Text.fit (limit - (capture code out err limit).stdout.utf8ByteSize) (Text.decode err)) := by
  rw [capture_eq, Text.utf8ByteSize_ofList]

/-- Something is cut exactly when the two streams together are longer than the budget. -/
theorem truncated_capture (code : Int32) (out err : Bytes) (limit : Nat) :
    (capture code out err limit).truncated = true ↔
      limit < Text.size (Text.decode out) + Text.size (Text.decode err) := by
  rw [capture_eq]
  simp only [Bool.or_eq_true, decide_eq_true_eq]
  by_cases hout : Text.size (Text.decode out) ≤ limit
  · rw [Text.fit_of_size_le hout]
    omega
  · omega

/-- Both streams fit into the budget together. -/
theorem size_capture_le (code : Int32) (out err : Bytes) (limit : Nat) :
    (capture code out err limit).stdout.utf8ByteSize +
      (capture code out err limit).stderr.utf8ByteSize ≤ limit := by
  have hout : (capture code out err limit).stdout.utf8ByteSize ≤ limit := by
    rw [stdout_capture, Text.utf8ByteSize_ofList]
    exact Text.size_fit_le limit _
  have herr : (capture code out err limit).stderr.utf8ByteSize ≤
      limit - (capture code out err limit).stdout.utf8ByteSize := by
    rw [stderr_capture, Text.utf8ByteSize_ofList]
    exact Text.size_fit_le _ _
  omega

/-! ## The combined text -/

/-- A text whose last line says that something was cut. -/
def EndsMarked (text : String) : Prop := ∃ before, text = before ++ "\n" ++ truncationMarker

/-- The two streams with a line break between them where it takes one. -/
def streams (o : Output) : String :=
  if o.stderr.isEmpty then o.stdout
  else o.stdout ++ (if o.stdout.isEmpty || endsLine o.stdout then "" else "\n") ++ o.stderr

theorem combined_eq (o : Output) : o.combined =
    if o.truncated then o.streams ++ (if endsLine o.streams then "" else "\n") ++ truncationMarker
    else o.streams := rfl

theorem size_streams_le (o : Output) :
    o.streams.utf8ByteSize ≤ o.stdout.utf8ByteSize + o.stderr.utf8ByteSize + 1 := by
  unfold streams
  split
  · omega
  · have hbreak :
        (if o.stdout.isEmpty || endsLine o.stdout then "" else "\n").utf8ByteSize ≤ 1 := by
      split <;> decide
    rw [String.utf8ByteSize_append, String.utf8ByteSize_append]
    omega

/-- A text that was not cut is longer than its streams by a line break at most. -/
theorem size_combined_of_whole (h : o.truncated = false) :
    o.combined.utf8ByteSize ≤ o.stdout.utf8ByteSize + o.stderr.utf8ByteSize + 1 := by
  rw [combined_eq, h]
  exact size_streams_le o

theorem size_combined_le (o : Output) : o.combined.utf8ByteSize ≤
    o.stdout.utf8ByteSize + o.stderr.utf8ByteSize + 2 + truncationMarker.utf8ByteSize := by
  have hstreams := size_streams_le o
  rw [combined_eq]
  split
  · have hbreak : (if endsLine o.streams then "" else "\n").utf8ByteSize ≤ 1 := by
      split <;> decide
    rw [String.utf8ByteSize_append, String.utf8ByteSize_append]
    omega
  · omega

/-- A line that has its end is some text and a line break. -/
theorem eq_append_of_endsLine {s : String} (h : endsLine s = true) :
    ∃ before, s = before ++ "\n" := by
  obtain ⟨cs, hcs⟩ := List.getLast?_eq_some_iff.mp (eq_of_beq h)
  refine ⟨String.ofList cs, ?_⟩
  rw [← String.ofList_toList (s := s), hcs, String.ofList_append]

theorem endsMarked_combined (h : o.truncated = true) : EndsMarked o.combined := by
  rw [combined_eq, h]
  by_cases hends : endsLine o.streams = true
  · obtain ⟨before, hbefore⟩ := eq_append_of_endsLine hends
    refine ⟨before, ?_⟩
    rw [if_pos rfl, if_pos hends, String.append_empty, ← hbefore]
  · refine ⟨o.streams, ?_⟩
    rw [if_pos rfl, if_neg hends]

end Output

/-! ## Runners that cut output -/

/-- A runner that reads at most one byte more than `limit` of each stream, whatever a run writes,
and cuts what it keeps of both to `limit` bytes. -/
def Runner.Captures (limit : Nat) (runner : Runner) : Prop :=
  ∀ i h o, (runner i h).ending = some (.ok o) → ∃ out err : Bytes,
    o = Output.capture o.exitCode (Output.bounded limit out) (Output.bounded limit err) limit

theorem Runner.captures_launching (limit : Nat) : (Runner.launching limit).Captures limit := by
  intro i h o ho
  rw [Runner.launching] at ho
  -- What is launched and what the shell makes of it say nothing about how output is read.
  generalize Launch.prepare i h = prepared at ho
  generalize Shell.run = shell at ho
  cases prepared with
  | error e => cases ho
  | ok launched =>
    dsimp only at ho
    split at ho
    · cases ho
    · cases ho
      exact ⟨_, _, rfl⟩

end StageLens
