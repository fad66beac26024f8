import StageLens.Proofs.Process.Output
import StageLens.Proofs.Text.Decoding

/-!
# Reading no further than the budget

A stream is read one byte past the budget and no further, wherever that byte stands: inside a
character, inside bytes that are no text, or between the two. Decoding never makes a stream shorter
(`length_le_size_decode`), so whatever the cut makes of the last bytes lies past the budget, and the
text that is kept is the one of the whole stream (`fit_decode_take`).
-/

namespace StageLens

namespace Text

variable {bs p : Bytes} {cs : List Char} {c : Char} {room n : Nat}

theorem utf8Size_replacement : replacement.utf8Size = 3 := by decide

theorem ReadsAs.length_le_size (h : ReadsAs bs cs) : bs.length ≤ size cs := by
  induction h with
  | nil => exact Nat.le_refl 0
  | char c _ ih =>
    rw [List.length_append, String.length_utf8EncodeChar, size_cons]
    omega
  | part hp _ ih =>
    have hlength := hp.length_le
    rw [List.length_append, size_cons, utf8Size_replacement]
    omega

/-- No byte gets lost without a trace. -/
theorem length_le_size_decode (bs : Bytes) : bs.length ≤ size (decode bs) :=
  (readsAs_decode bs).length_le_size

theorem fit_cons_of_lt (h : room < c.utf8Size) : fit room (c :: cs) = [] := by
  rw [fit_cons, if_neg (Nat.not_le_of_lt h)]

/-- The bytes before a cut inside a character, or inside a part of one, leave no room for what they
read as. -/
theorem fit_decode_take_of_begins (hp : Begins p) (hn : n < p.length) (hroom : room < n) :
    fit room (decode (p.take n)) = [] := by
  obtain ⟨c, hp⟩ := hp
  have hle : p.length ≤ 4 := by
    have hlength := hp.length_le
    have hfour := c.utf8Size_le_four
    rw [String.length_utf8EncodeChar] at hlength
    omega
  have htake : (p.take n).length = n := by
    rw [List.length_take, Nat.min_eq_left (by omega)]
  have hnil : p.take n ≠ [] := by
    intro h
    rw [h, List.length_nil] at htake
    omega
  have hne : p.take n ≠ String.utf8EncodeChar c := by
    intro h
    rw [← h] at hp
    have hlength := hp.length_le
    omega
  rw [decode_of_begun ((List.take_prefix n p).trans hp) hnil hne]
  apply fit_cons_of_lt
  rw [utf8Size_replacement]
  omega

/-- The text that fits into a budget can be told from any longer beginning of the bytes. -/
theorem fit_decode_take (hroom : room < n) (bs : Bytes) :
    fit room (decode (bs.take n)) = fit room (decode bs) := by
  have hreads := readsAs_decode bs
  generalize decode bs = cs at hreads
  induction hreads generalizing room n with
  | nil => rw [List.take_nil]; rfl
  | @char c rest cs _ ih =>
    have hlength := String.length_utf8EncodeChar c
    by_cases hn : n < c.utf8Size
    · rw [List.take_append_of_le_length (by omega),
        fit_decode_take_of_begins ⟨c, List.prefix_refl _⟩ (by omega) hroom,
        fit_cons_of_lt (by omega)]
    · rw [List.take_append, List.take_of_length_le (by omega), decode_encode_append, fit_cons,
        fit_cons]
      split
      · rw [ih (by omega)]
      · rfl
  | @part p rest cs hp _ ih =>
    have hlength := hp.length_le
    by_cases hn : n < p.length
    · have hbegins : Begins p := by
        rcases hp.part with ⟨-, hbegins⟩ | hone
        · exact hbegins
        · omega
      rw [List.take_append_of_le_length (by omega), fit_decode_take_of_begins hbegins hn hroom,
        fit_cons_of_lt (by rw [utf8Size_replacement]; omega)]
    · rw [List.take_append, List.take_of_length_le (by omega),
        (hp.of_prefix (List.take_prefix _ _)).decode_append, fit_cons, fit_cons]
      rw [utf8Size_replacement]
      split
      · rw [ih (by omega)]
      · rfl

/-- That bytes are too many for a budget can be told from any longer beginning of them. -/
theorem lt_size_decode_take_iff (hroom : room < n) (bs : Bytes) :
    room < size (decode (bs.take n)) ↔ room < size (decode bs) := by
  by_cases hn : bs.length ≤ n
  · rw [List.take_of_length_le hn]
  · have htaken := length_le_size_decode (bs.take n)
    have hwhole := length_le_size_decode bs
    rw [List.length_take] at htaken
    omega

end Text

namespace Output

variable (code : Int32) (out err : Bytes) (limit : Nat)

theorem capture_bounded :
    capture code (bounded limit out) (bounded limit err) limit = capture code out err limit := by
  have hlt : limit < limit + 1 := Nat.lt_succ_self limit
  have hleft : limit - Text.size (Text.fit limit (Text.decode out)) < limit + 1 := by omega
  rw [capture_eq, capture_eq, bounded, bounded, Text.fit_decode_take hlt,
    Text.fit_decode_take hleft]
  simp only [Text.lt_size_decode_take_iff hlt, Text.lt_size_decode_take_iff hleft]

/-- More bytes than the budget has room for are more text than it has room for. -/
theorem truncated_of_lt_length (h : limit < out.length + err.length) :
    (capture code out err limit).truncated = true := by
  have hout := Text.length_le_size_decode out
  have herr := Text.length_le_size_decode err
  rw [truncated_capture]
  omega

/-- **Reading no further than the budget cannot be seen.** Bytes decode to the characters they are
the encoding of, with one replacement character for each maximal part that is not UTF-8. Two streams
that are read one byte past the budget at most are captured as if they had been read to their ends,
whatever they hold and however small the budget is; so

* what is kept of each is the beginning of what the whole stream decodes to, and no character that
  the end of the reading has split is among it;
* streams that hold more bytes than the budget are reported as cut. -/
theorem bounded_reading_is_invisible :
    (∀ bs cs, Text.ReadsAs bs cs ↔ Text.decode bs = cs) ∧
    ∀ (code : Int32) (out err : Bytes) (limit : Nat),
      capture code (bounded limit out) (bounded limit err) limit = capture code out err limit ∧
      (capture code (bounded limit out) (bounded limit err) limit).stdout.toList <+:
        Text.decode out ∧
      (capture code (bounded limit out) (bounded limit err) limit).stderr.toList <+:
        Text.decode err ∧
      (limit < out.length + err.length →
        (capture code (bounded limit out) (bounded limit err) limit).truncated = true) := by
  refine ⟨fun _ _ => Text.readsAs_iff, fun code out err limit => ?_⟩
  rw [capture_bounded]
  refine ⟨rfl, ?_, ?_, truncated_of_lt_length code out err limit⟩
  · rw [stdout_capture, String.toList_ofList]
    exact Text.fit_prefix _ _
  · rw [stderr_capture, String.toList_ofList]
    exact Text.fit_prefix _ _

/-- Under a budget of one byte the reading ends inside the second character, and what is left of it
reads as a replacement character that is not kept. -/
theorem bounded_reading_is_invisible_split :
    bounded 1 (Text.bytes "hé!") = [0x68, 0xC3] ∧
    Text.decode [0x68, 0xC3] = ['h', Text.replacement] ∧
    capture 0 (bounded 1 (Text.bytes "hé!")) (bounded 1 []) 1 =
      capture 0 (Text.bytes "hé!") [] 1 ∧
    (capture 0 (bounded 1 (Text.bytes "hé!")) (bounded 1 []) 1).stdout = "h" ∧
    (capture 0 (bounded 1 (Text.bytes "hé!")) (bounded 1 []) 1).truncated = true := by
  obtain ⟨hsame, -, -, hcut⟩ := bounded_reading_is_invisible.2 0 (Text.bytes "hé!") [] 1
  exact ⟨by decide +kernel, by decide +kernel, hsame, by decide +kernel, hcut (by decide +kernel)⟩

end Output

end StageLens
