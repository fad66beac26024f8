import StageLens.Proofs.Process.Budget

/-!
# What a cut does to the text that is shown

The text of a run is its two streams with the marker behind them if something was cut. Whoever reads
it takes it for the beginning of what the run printed (`CutsTail`). It is, as long as a cut of
standard output ends the text. But a cut ends between two characters, and the room of one to three
bytes that it may leave goes to standard error: its first characters then stand where the rest of
standard output is missing (`Straggles`). That happens, and it is the only thing that goes wrong
(`truncation_cuts_tail_iff`).
-/

namespace StageLens

namespace Output

variable {o w : Output} {code : Int32} {out err : Bytes} {limit : Nat}

/-! ## Streams and their beginnings -/

theorem streams_of_stderr_eq_empty (h : o.stderr = "") : o.streams = o.stdout := by
  rw [streams, h]
  rfl

theorem streams_of_stderr_ne_empty (h : o.stderr ≠ "") : o.streams =
    o.stdout ++ (if o.stdout.isEmpty || endsLine o.stdout then "" else "\n") ++ o.stderr := by
  rw [streams, if_neg]
  rwa [String.isEmpty_iff]

theorem stdout_prefix_streams (o : Output) : o.stdout.toList <+: o.streams.toList := by
  by_cases h : o.stderr = ""
  · simp only [streams_of_stderr_eq_empty h, List.prefix_refl]
  · rw [streams_of_stderr_ne_empty h, String.append_assoc, String.toList_append]
    exact List.prefix_append _ _

/-- Behind the same standard output, more of standard error is more of the text. -/
theorem streams_prefix_streams (hstdout : o.stdout = w.stdout)
    (hstderr : o.stderr.toList <+: w.stderr.toList) : o.streams.toList <+: w.streams.toList := by
  by_cases h : o.stderr = ""
  · rw [streams_of_stderr_eq_empty h, hstdout]
    exact stdout_prefix_streams w
  · have hw : w.stderr ≠ "" := by
      intro hw
      rw [hw] at hstderr
      exact h (String.toList_eq_nil_iff.mp (List.prefix_nil.mp hstderr))
    rw [streams_of_stderr_ne_empty h, streams_of_stderr_ne_empty hw, hstdout, String.toList_append,
      String.toList_append (s := _ ++ _)]
    exact (List.prefix_append_right_inj _).mpr hstderr

theorem combined_of_truncated (h : o.truncated = true) :
    o.combined = o.streams ++ truncationMarker ∨
      o.combined = o.streams ++ "\n" ++ truncationMarker := by
  rw [combined_eq, if_pos h]
  by_cases hends : endsLine o.streams = true
  · left
    rw [if_pos hends, String.append_empty]
  · right
    rw [if_neg hends]

theorem combined_of_not_truncated (h : o.truncated = false) : o.combined = o.streams := by
  rw [combined_eq, h]
  rfl

/-! ## Cuts of the tail -/

/-- A capture shows the text of the whole streams, or the beginning of it and the marker, and
nothing of standard error if standard output was cut short. -/
structure CutsTail (o w : Output) : Prop where
  kept : o.truncated = false → o.combined = w.combined
  cut : o.truncated = true → ∃ p : String, p.toList <+: w.combined.toList ∧
    (o.combined = p ++ truncationMarker ∨ o.combined = p ++ "\n" ++ truncationMarker)
  silent : o.stdout ≠ w.stdout → o.stderr = ""

/-- Standard output is too long, and the cut leaves room for the first character of standard
error. -/
def Straggles (out err : Bytes) (limit : Nat) : Prop :=
  limit < Text.size (Text.decode out) ∧ ∃ c ∈ (Text.decode err).head?,
    Text.size (Text.fit limit (Text.decode out)) + c.utf8Size ≤ limit

theorem stdout_eq_whole_iff : (capture code out err limit).stdout = (whole code out err).stdout ↔
    Text.size (Text.decode out) ≤ limit := by
  constructor
  · intro h
    have hfits := (longestWithin_stdout code out err limit).fits
    rwa [h, whole, Text.utf8ByteSize_decodeText] at hfits
  · intro h
    rw [stdout_capture, Text.fit_of_size_le h]
    rfl

theorem stderr_eq_empty_iff : (capture code out err limit).stderr = "" ↔
    ∀ c ∈ (Text.decode err).head?,
      limit < Text.size (Text.fit limit (Text.decode out)) + c.utf8Size := by
  have hfits := Text.size_fit_le limit (Text.decode out)
  rw [stderr_capture, stdout_capture, Text.utf8ByteSize_ofList, ← String.toList_eq_nil_iff,
    String.toList_ofList, Text.fit_eq_nil_iff]
  constructor
  · intro h c hc
    have hroom := h c hc
    omega
  · intro h c hc
    have hroom := h c hc
    omega

/-- A cut of standard output leaves no room for more than three bytes of standard error. -/
theorem size_stderr_le_three (h : limit < Text.size (Text.decode out)) :
    (capture code out err limit).stderr.utf8ByteSize ≤ 3 := by
  have hfits := (longestWithin_stderr code out err limit).fits
  have hcut := Text.lt_size_fit_add_four h
  rw [stdout_capture, Text.utf8ByteSize_ofList] at hfits
  omega

theorem cutsTail_of_not_straggles (h : ¬ Straggles out err limit) :
    CutsTail (capture code out err limit) (whole code out err) := by
  have hstraggles (hlong : limit < Text.size (Text.decode out)) :
      (capture code out err limit).stderr = "" := by
    rw [stderr_eq_empty_iff]
    intro c hc
    apply Nat.lt_of_not_le
    intro hroom
    exact h ⟨hlong, c, hc, hroom⟩
  refine ⟨fun hkept => ?_, fun hcut => ⟨_, ?_, combined_of_truncated hcut⟩, fun hne => ?_⟩
  · rw [capture_eq_whole (size_le_of_not_truncated hkept)]
  · rw [combined_of_not_truncated (o := whole code out err) rfl]
    by_cases hlong : limit < Text.size (Text.decode out)
    · -- Standard output ends the text, and what is left of it begins the whole of it.
      rw [streams_of_stderr_eq_empty (hstraggles hlong)]
      exact (longestWithin_stdout code out err limit).beginning.trans
        (stdout_prefix_streams (whole code out err))
    · apply streams_prefix_streams
      · exact stdout_eq_whole_iff.mpr (Nat.le_of_not_lt hlong)
      · exact (longestWithin_stderr code out err limit).beginning
  · apply hstraggles
    apply Nat.lt_of_not_le
    rwa [← stdout_eq_whole_iff]

theorem not_straggles_of_cutsTail
    (h : CutsTail (capture code out err limit) (whole code out err)) :
    ¬ Straggles out err limit := by
  rintro ⟨hlong, c, hc, hroom⟩
  have hsilent := h.silent (mt stdout_eq_whole_iff.mp (Nat.not_le_of_lt hlong))
  exact absurd hroom (Nat.not_le_of_lt (stderr_eq_empty_iff.mp hsilent c hc))

/-- **A cut takes the tail away, unless standard error straggles.** A capture with room for both
streams is the whole of them, and a capture with any budget shows the text of the whole, or the
beginning of it with the marker behind, and nothing of standard error behind a standard output that
was cut short, exactly when no character of standard error fits into the room that a cut of standard
output has left. That room is three bytes at most. -/
theorem truncation_cuts_tail_iff (code : Int32) (out err : Bytes) (limit : Nat) :
    (∀ spare, capture code out err
      ((Text.decodeText out).utf8ByteSize + (Text.decodeText err).utf8ByteSize + spare) =
        whole code out err) ∧
    (CutsTail (capture code out err limit) (whole code out err) ↔ ¬ Straggles out err limit) ∧
    ((capture code out err limit).stdout = Text.decodeText out ∨
      (capture code out err limit).stderr.utf8ByteSize ≤ 3) := by
  refine ⟨fun spare => ?_, ⟨not_straggles_of_cutsTail, cutsTail_of_not_straggles⟩, ?_⟩
  · apply capture_eq_whole
    rw [Text.utf8ByteSize_decodeText, Text.utf8ByteSize_decodeText]
    exact Nat.le_add_right _ _
  · by_cases hlong : limit < Text.size (Text.decode out)
    · exact .inr (size_stderr_le_three hlong)
    · exact .inl (stdout_eq_whole_iff.mpr (Nat.le_of_not_lt hlong))

/-- Standard error stands where the replacement character at the end of standard output is
missing. -/
theorem truncation_in_the_middle :
    (capture 0 [0x68, 0xFF] (Text.bytes "er") 3).combined = "h\ner\n[output truncated]" ∧
    (whole 0 [0x68, 0xFF] (Text.bytes "er")).combined = "h\uFFFD\ner" ∧
    ¬ CutsTail (capture 0 [0x68, 0xFF] (Text.bytes "er") 3)
      (whole 0 [0x68, 0xFF] (Text.bytes "er")) := by
  have hshown : (capture 0 [0x68, 0xFF] (Text.bytes "er") 3).combined =
      "h\ner\n[output truncated]" := by decide +kernel
  have hwhole : (whole 0 [0x68, 0xFF] (Text.bytes "er")).combined = "h\uFFFD\ner" := by
    decide +kernel
  refine ⟨hshown, hwhole, fun h => ?_⟩
  obtain ⟨p, hp, hcut⟩ := h.cut (by decide +kernel)
  rw [hshown] at hcut
  rw [hwhole] at hp
  -- Without the marker, the text that is shown is not how the whole begins.
  have hbefore : p = "h\ner\n" ∨ p = "h\ner" := by
    rcases hcut with hcut | hcut
    · left
      rw [← String.append_left_inj truncationMarker, ← hcut]
      rfl
    · right
      rw [← String.append_left_inj ("\n" ++ truncationMarker), ← String.append_assoc, ← hcut]
      rfl
  rcases hbefore with rfl | rfl
  · exact absurd hp (by decide)
  · exact absurd hp (by decide)

end Output

end StageLens
