import StageLens.Demangler
import StageLens.Proofs.Process.Budget
import StageLens.Proofs.Process.Reading

/-!
# All or nothing from the demangler

Whatever the demangler does, a stage shows the text it had or everything that the demangler printed
on standard output, and never a part of it: a demangler that printed more than the budget has room
for, on either stream, is not believed. So a demangler that prints what it was given changes no
text, however long.
-/

namespace StageLens

namespace Text

theorem decodeText_eq_empty_iff {bs : Bytes} : decodeText bs = "" ↔ bs = [] := by
  constructor
  · intro h
    have hlength := length_le_size_decode bs
    rw [← utf8ByteSize_decodeText, h] at hlength
    exact List.length_eq_zero_iff.mp (Nat.le_zero.mp hlength)
  · rintro rfl
    rfl

theorem isBlankText_eq_false_iff {s : String} :
    isBlankText s = false ↔ ∃ c ∈ s.toList, isBlank c = false := by
  simp [isBlankText]

end Text

namespace Demangler

/-- What a process does that is run as the demangler: it gives no exit status, or it prints bytes on
its two streams and exits. -/
inductive Conduct where
  | fails (f : Failure)
  | exits (code : Int32) (out err : Bytes)

/-- The end of the run, with a budget of `limit` bytes for what is printed. -/
def Conduct.ending (limit : Nat) : Conduct → Ending
  | .fails f => .error f
  | .exits code out err =>
    .ok (Output.capture code (Output.bounded limit out) (Output.bounded limit err) limit)

/-- When what a demangler printed takes the place of the text it was given. -/
structure Replaces (eligible requested : Bool) (raw : String) (limit : Nat) (code : Int32)
    (out err : Bytes) : Prop where
  eligible : eligible = true
  requested : requested = true
  visible : ∃ c ∈ raw.toList, Text.isBlank c = false
  success : code = 0
  printed : out ≠ []
  fits : (Text.decodeText out).utf8ByteSize + (Text.decodeText err).utf8ByteSize ≤ limit

variable {eligible requested : Bool} {raw : String} {limit : Nat} {code : Int32}
  {out err : Bytes}

theorem isWanted_iff : isWanted eligible requested raw = true ↔
    eligible = true ∧ requested = true ∧ ∃ c ∈ raw.toList, Text.isBlank c = false := by
  rw [isWanted, ← Text.isBlankText_eq_false_iff]
  simp [and_assoc]

/-- The output of a demangler that exits is used as a whole or not at all. -/
theorem usable?_exits : usable? ((Conduct.exits code out err).ending limit) =
    if code = 0 ∧ out ≠ [] ∧
      (Text.decodeText out).utf8ByteSize + (Text.decodeText err).utf8ByteSize ≤ limit
    then some (Text.decodeText out) else none := by
  rw [Conduct.ending, Output.capture_bounded, Text.utf8ByteSize_decodeText,
    Text.utf8ByteSize_decodeText]
  by_cases hfits : Text.size (Text.decode out) + Text.size (Text.decode err) ≤ limit
  · rw [Output.capture_eq_whole hfits]
    simp [usable?, Output.success, Output.whole, Text.decodeText_eq_empty_iff, hfits]
  · have hcut : (Output.capture code out err limit).truncated = true := by
      rw [Output.truncated_capture]
      exact Nat.lt_of_not_le hfits
    simp [usable?, hcut, hfits]

theorem replaces_iff : Replaces eligible requested raw limit code out err ↔
    isWanted eligible requested raw = true ∧
      usable? ((Conduct.exits code out err).ending limit) = some (Text.decodeText out) := by
  rw [isWanted_iff, usable?_exits]
  constructor
  · rintro ⟨heligible, hrequested, hvisible, hsuccess, hprinted, hfits⟩
    exact ⟨⟨heligible, hrequested, hvisible⟩, if_pos ⟨hsuccess, hprinted, hfits⟩⟩
  · rintro ⟨⟨heligible, hrequested, hvisible⟩, husable⟩
    obtain ⟨hsuccess, hprinted, hfits⟩ := (Option.ite_none_right_eq_some.mp husable).1
    exact ⟨heligible, hrequested, hvisible, hsuccess, hprinted, hfits⟩

/-- The text that is shown if the demangler, should it run, ends like that. -/
def shown (eligible requested : Bool) (raw : String) (e : Ending) : String :=
  if isWanted eligible requested raw then keep raw e else raw

theorem filter_of_ending {d : Demangler} {runner : Runner} {h : Host} {e : Ending}
    (eligible requested : Bool) (hends : (runner (d.invocation raw) h).ending = some e) :
    ∃ events, d.filter runner h eligible requested raw =
      some (shown eligible requested raw e, events) := by
  unfold filter shown
  dsimp only
  rw [hends]
  by_cases hwanted : isWanted eligible requested raw = true
  · rw [if_pos hwanted, if_pos hwanted]
    exact ⟨_, rfl⟩
  · rw [if_neg hwanted, if_neg hwanted]
    exact ⟨_, rfl⟩

theorem shown_error (f : Failure) : shown eligible requested raw (.error f) = raw :=
  ite_self raw

theorem shown_of_replaces (h : Replaces eligible requested raw limit code out err) :
    shown eligible requested raw ((Conduct.exits code out err).ending limit) =
      Text.decodeText out := by
  obtain ⟨hwanted, husable⟩ := replaces_iff.mp h
  rw [shown, if_pos hwanted, keep, husable, Option.getD_some]

theorem shown_of_not_replaces (h : ¬ Replaces eligible requested raw limit code out err) :
    shown eligible requested raw ((Conduct.exits code out err).ending limit) = raw := by
  unfold shown
  by_cases hwanted : isWanted eligible requested raw = true
  · have hunusable : usable? ((Conduct.exits code out err).ending limit) = none := by
      rw [usable?_exits, if_neg]
      intro husable
      apply h
      rw [replaces_iff, usable?_exits]
      exact ⟨hwanted, if_pos husable⟩
    rw [if_pos hwanted, keep, hunusable, Option.getD_none]
  · rw [if_neg hwanted]

theorem exists_conduct (limit : Nat) (i : Invocation) (h : Host) :
    ∃ conduct : Conduct, (Runner.launching limit i h).ending = some (conduct.ending limit) := by
  rw [Runner.launching]
  generalize Launch.prepare i h = prepared
  generalize Shell.run = shell
  cases prepared with
  | error e => exact ⟨.fails _, rfl⟩
  | ok launched =>
    dsimp only
    split
    · exact ⟨.fails _, rfl⟩
    · exact ⟨.exits _ _ _, rfl⟩

/-- **All or nothing from the demangler.** A process that is run as the demangler gives no exit
status or prints some bytes on its streams and exits, and whatever it does, the filter gives a text:

* the text it was given, if the process gave no exit status;
* everything the process printed on standard output, decoded, if the stage may hold mangled names,
  demangling was asked for, the text has a character that is no blank, and the process exited with
  zero, printed something there and not more than the budget has room for on both streams; and the
  text it was given in every other case;
* so the text it was given, if the process printed that. -/
theorem no_partial_demangling (limit : Nat) :
    (∀ i h, ∃ conduct : Conduct,
      (Runner.launching limit i h).ending = some (conduct.ending limit)) ∧
    ∀ (d : Demangler) (runner : Runner) (h : Host) (eligible requested : Bool) (raw : String)
      (conduct : Conduct),
      (runner (d.invocation raw) h).ending = some (conduct.ending limit) →
      ∃ text events, d.filter runner h eligible requested raw = some (text, events) ∧
        (∀ f, conduct = .fails f → text = raw) ∧
        ∀ code out err, conduct = .exits code out err →
          (Replaces eligible requested raw limit code out err ∧ text = Text.decodeText out ∨
            ¬ Replaces eligible requested raw limit code out err ∧ text = raw) ∧
          (out = Text.bytes raw → text = raw) := by
  refine ⟨exists_conduct limit, fun d runner h eligible requested raw conduct hends => ?_⟩
  obtain ⟨events, hfilter⟩ := filter_of_ending eligible requested hends
  refine ⟨_, events, hfilter, ?_, ?_⟩
  · rintro f rfl
    exact shown_error f
  · rintro code out err rfl
    by_cases hreplaces : Replaces eligible requested raw limit code out err
    · refine ⟨.inl ⟨hreplaces, shown_of_replaces hreplaces⟩, ?_⟩
      rintro rfl
      rw [shown_of_replaces hreplaces, Text.decodeText_bytes]
    · exact ⟨.inr ⟨hreplaces, shown_of_not_replaces hreplaces⟩,
        fun _ => shown_of_not_replaces hreplaces⟩

/-- A demangler that prints a letter and a byte that is no text. -/
def babbling (limit : Nat) : Runner := fun _ h =>
  { ending := some ((Conduct.exits 0 [0x61, 0xFF] []).ending limit), host := h }

/-- The two bytes read as four: with a budget of four bytes they replace the text, and with one of
three nothing of them does. -/
theorem no_partial_demangling_babbling :
    (∃ events, filter { timeout := .ofSeconds 1 } (babbling 4) { tree := ⟨[]⟩ } true true "$s" =
      some ("a\uFFFD", events)) ∧
    ∃ events, filter { timeout := .ofSeconds 1 } (babbling 3) { tree := ⟨[]⟩ } true true "$s" =
      some ("$s", events) := by
  constructor
  · obtain ⟨text, events, hfilter, -, hexits⟩ := (no_partial_demangling 4).2
      { timeout := .ofSeconds 1 } (babbling 4) { tree := ⟨[]⟩ } true true "$s"
      (.exits 0 [0x61, 0xFF] []) rfl
    have hreplaces : Replaces true true "$s" 4 0 [0x61, 0xFF] [] :=
      ⟨rfl, rfl, ⟨'$', by decide, by decide⟩, rfl, by decide, by decide +kernel⟩
    obtain ⟨⟨-, htext⟩ | ⟨hnot, -⟩, -⟩ := hexits 0 [0x61, 0xFF] [] rfl
    · refine ⟨events, ?_⟩
      rw [hfilter, htext]
      exact congrArg (fun text => some (text, events)) (by decide +kernel)
    · exact absurd hreplaces hnot
  · obtain ⟨text, events, hfilter, -, hexits⟩ := (no_partial_demangling 3).2
      { timeout := .ofSeconds 1 } (babbling 3) { tree := ⟨[]⟩ } true true "$s"
      (.exits 0 [0x61, 0xFF] []) rfl
    obtain ⟨⟨hreplaces, -⟩ | ⟨-, htext⟩, -⟩ := hexits 0 [0x61, 0xFF] [] rfl
    · exact absurd hreplaces.fits (by decide +kernel)
    · exact ⟨events, by rw [hfilter, htext]⟩

end Demangler

end StageLens
