import StageLens.Stage.Result

/-!
# Splitting a command line

How a shell splits a line into words: blanks stand between words, everything between single quotes
stands for itself, and a backslash outside of quotes makes the next character stand for itself. What
a shell would read as anything but a part of a word is refused, so that a line which is split at
all holds nothing but words. A displayed command is split into the words it was made of, empty ones
included.
-/

namespace StageLens.Text

/-! ## Splitting -/

/-- The blanks between words. -/
def isGap (c : Char) : Bool := c == ' ' || c == '\t'

/-- The characters that end a command, join commands, expand, quote in another way, match names or
start a comment, when they stand outside of quotes. -/
def activeCharacters : List Char :=
  ['\n', '|', '&', ';', '<', '>', '(', ')', '$', Char.ofNat 0x60, '"', '*', '?', '[', '#', '~', '%']

def isActive (c : Char) : Bool := activeCharacters.contains c

/-- A line as far as it has been split: the words that have ended, latest first, and the characters
of the one that has not, latest first. -/
inductive Splitter where
  | between (words : List String)
  | inWord (words : List String) (read : List Char)
  | inQuotes (words : List String) (read : List Char)
  | afterBackslash (words : List String) (read : List Char)
  | refused
  deriving DecidableEq, Repr

namespace Splitter

/-- A character of a word, outside of quotes. -/
def take (words : List String) (read : List Char) (c : Char) : Splitter :=
  if c = '\'' then .inQuotes words read
  else if c = '\\' then .afterBackslash words read
  else if isActive c then .refused
  else .inWord words (c :: read)

def step (s : Splitter) (c : Char) : Splitter :=
  match s with
  | between words => if isGap c then .between words else take words [] c
  | inWord words read =>
    if isGap c then .between (String.ofList read.reverse :: words) else take words read c
  | inQuotes words read => if c = '\'' then .inWord words read else .inQuotes words (c :: read)
  -- A backslash at the end of a line goes on with the next line, which a command line does not have.
  | afterBackslash words read => if c = '\n' then .refused else .inWord words (c :: read)
  | refused => .refused

def feed (s : Splitter) (cs : List Char) : Splitter := cs.foldl step s

/-- The words in order when the line ends. Quotes have to be closed, and a backslash needs a
character. -/
def close : Splitter → Option (List String)
  | between words => some words.reverse
  | inWord words read => some (String.ofList read.reverse :: words).reverse
  | inQuotes _ _ | afterBackslash _ _ | refused => none

end Splitter

/-- The words of a line. -/
def split (line : String) : Option (List String) :=
  ((Splitter.between []).feed line.toList).close

/-! ## Written words -/

namespace Splitter

variable {words : List String} {read : List Char} {c : Char}

theorem feed_append (s : Splitter) (cs ds : List Char) :
    s.feed (cs ++ ds) = (s.feed cs).feed ds := List.foldl_append

/-- A plain character has no meaning of its own to a shell. -/
theorem inert_of_isPlain (h : isPlain c = true) :
    isGap c = false ∧ c ≠ '\'' ∧ c ≠ '\\' ∧ isActive c = false := by
  refine ⟨?_, ?_, ?_, ?_⟩
  · cases hgap : isGap c with
    | false => rfl
    | true =>
      simp only [isGap, Bool.or_eq_true, beq_iff_eq] at hgap
      rcases hgap with rfl | rfl <;> exact absurd h (by decide)
  · rintro rfl
    exact absurd h (by decide)
  · rintro rfl
    exact absurd h (by decide)
  · cases hactive : isActive c with
    | false => rfl
    | true =>
      have hall : activeCharacters.all (fun d => !isPlain d) = true := rfl
      have hnot := List.all_eq_true.mp hall c (List.contains_iff_mem.mp hactive)
      rw [h] at hnot
      cases hnot

theorem take_of_isPlain (h : isPlain c = true) : take words read c = .inWord words (c :: read) := by
  obtain ⟨-, hquote, hbackslash, hactive⟩ := inert_of_isPlain h
  simp [take, hquote, hbackslash, hactive]

/-- Plain characters go on with a word. -/
theorem feed_plain (words : List String) (read : List Char) {cs : List Char}
    (h : ∀ c ∈ cs, isPlain c = true) :
    (inWord words read).feed cs = .inWord words (cs.reverse ++ read) := by
  induction cs generalizing read with
  | nil => rfl
  | cons c cs ih =>
    have hc : isPlain c = true := h c (by simp)
    have hstep : step (.inWord words read) c = .inWord words (c :: read) := by
      simp [step, (inert_of_isPlain hc).1, take_of_isPlain hc]
    show (step (.inWord words read) c).feed cs = _
    rw [hstep, ih (c :: read) fun d hd => h d (by simp [hd])]
    simp

/-- Between quotes every character is read as itself; a quote leaves the quotes for a moment. -/
theorem feed_quoteChar (words : List String) (read : List Char) (c : Char) :
    (inQuotes words read).feed (quoteChar c) = .inQuotes words (c :: read) := by
  unfold quoteChar
  by_cases hc : c = '\''
  · subst hc
    rfl
  · simp [hc, feed, step]

theorem feed_quoteChars (words : List String) (read cs : List Char) :
    (inQuotes words read).feed (cs.flatMap quoteChar) = .inQuotes words (cs.reverse ++ read) := by
  induction cs generalizing read with
  | nil => rfl
  | cons c cs ih =>
    rw [List.flatMap_cons, feed_append, feed_quoteChar, ih]
    simp

/-- **A written word is read back**, whichever form it has. -/
theorem feed_quoteWord (words : List String) (cs : List Char) :
    (between words).feed (quoteWord cs) = .inWord words cs.reverse := by
  unfold quoteWord
  split
  · rename_i hplain
    rw [Bool.and_eq_true, List.all_eq_true] at hplain
    obtain ⟨hnonempty, hall⟩ := hplain
    match cs with
    | [] => exact absurd hnonempty (by decide)
    | c :: cs =>
      have hc : isPlain c = true := hall c (by simp)
      have hstep : step (.between words) c = .inWord words [c] := by
        simp [step, (inert_of_isPlain hc).1, take_of_isPlain hc]
      show (step (.between words) c).feed cs = _
      rw [hstep, feed_plain words [c] fun d hd => hall d (by simp [hd])]
      simp
  · show ((inQuotes words []).feed (cs.flatMap quoteChar ++ ['\''])) = _
    rw [feed_append, feed_quoteChars, List.append_nil]
    rfl

/-- The words of a line follow those before it. -/
theorem close_feed_commandLine (before : List String) (word : String) (rest : List String) :
    ((between before).feed (commandLine (word :: rest)).toList).close =
      some (before.reverse ++ word :: rest) := by
  induction rest generalizing before word with
  | nil =>
    show ((between before).feed (" ".intercalate [quote word]).toList).close = _
    rw [String.intercalate_singleton, quote, String.toList_ofList, feed_quoteWord]
    simp [close]
  | cons next rest ih =>
    have hline : (commandLine (word :: next :: rest)).toList =
        quoteWord word.toList ++ ' ' :: (commandLine (next :: rest)).toList := by
      simp [commandLine, quote]
    have hgap : step (.inWord before word.toList.reverse) ' ' = .between (word :: before) := by
      simp [step, isGap]
    rw [hline, feed_append, feed_quoteWord]
    show ((step (.inWord before word.toList.reverse) ' ').feed _).close = _
    rw [hgap, ih (word :: before) next]
    simp

end Splitter

theorem split_commandLine (words : List String) : split (commandLine words) = some words := by
  match words with
  | [] => rfl
  | word :: rest => exact Splitter.close_feed_commandLine [] word rest

/-! ## Displayed commands -/

/-- **A displayed command is split into its words**, whatever they hold and however many they are.
So two results that display the same have the same command. -/
theorem displayed_commands_split_back (r : StageResult) :
    split r.display = some r.command ∧
    ∀ r' : StageResult, r.display = r'.display ↔ r.command = r'.command := by
  refine ⟨split_commandLine r.command, fun r' => ⟨fun h => ?_, fun h => ?_⟩⟩
  · have hsplit : split r.display = split r'.display := by rw [h]
    unfold StageResult.display at hsplit
    rw [split_commandLine, split_commandLine] at hsplit
    exact Option.some.inj hsplit
  · unfold StageResult.display
    rw [h]

/-- A quote in a word closes the quotes, and an empty word is a pair of them. -/
example : commandLine ["it's", "", "a-b"] = "'it'\\''s' '' a-b" ∧
    split "'it'\\''s' '' a-b" = some ["it's", "", "a-b"] := by decide +kernel

end StageLens.Text
