import StageLens.Tool.Basic

/-!
# Printing

Programs that print their arguments: as they stand, with backslash sequences, or as a format says.
The echo of the shell reads the sequences, that of the system does not.
-/

namespace StageLens.Tool

/-- The character of a sequence of one letter. -/
def escaped? : Char → Option Char
  | 'a' => some (Char.ofNat 7)
  | 'b' => some (Char.ofNat 8)
  | 'f' => some (Char.ofNat 12)
  | 'n' => some '\n'
  | 'r' => some '\r'
  | 't' => some '\t'
  | 'v' => some (Char.ofNat 11)
  | '\\' => some '\\'
  | _ => none

def isOctal (c : Char) : Bool := '0' ≤ c && c ≤ '7'

/-- The byte that octal digits stand for. -/
def octal (digits : Octets) : Char := Char.ofNat ((Octets.digits? 8 digits).getD 0 % 256)

/-- What a backslash stands for, from what follows it. With `zero` an octal number starts with a
zero of its own. -/
def sequence (zero : Bool) : Octets → Octets × Octets
  | [] => (['\\'], [])
  | c :: rest =>
    match escaped? c with
    | some d => ([d], rest)
    | none =>
      if zero && c = '0' then
        let digits := (rest.take 3).takeWhile isOctal
        ([octal digits], rest.drop digits.length)
      else if !zero && isOctal c then
        let digits := ((c :: rest).take 3).takeWhile isOctal
        ([octal digits], (c :: rest).drop digits.length)
      else (['\\', c], rest)

/-- A text with its sequences read, and whether one of them ends all printing. -/
def unescape : Nat → Octets → Octets × Bool
  | 0, o => (o, false)
  | _ + 1, [] => ([], false)
  | fuel + 1, c :: rest =>
    if c = '\\' then
      if rest.head? = some 'c' then ([], true)
      else
        let (text, rest) := sequence true rest
        let (more, stop) := unescape fuel rest
        (text ++ more, stop)
    else
      let (more, stop) := unescape fuel rest
      (c :: more, stop)

/-- A text with its sequences read. -/
def unescaped (o : Octets) : Octets × Bool := unescape (o.length + 1) o

def spaced (words : List Octets) : Octets := [' '].intercalate words

/-- Print words, where `escapes` says whether their sequences are read and `ends` whether the line
has its end. -/
def printWords (escapes ends : Bool) (words : List Octets) : Job Unit :=
  let (text, stop) := if escapes then unescaped (spaced words) else (spaced words, false)
  print (text ++ if ends && !stop then ['\n'] else [])

/-- The echo of the shell, which reads the sequences. -/
def shellEcho (arguments : List Octets) : Job Unit :=
  let ends := arguments.head? != some ['-', 'n']
  printWords true ends (if ends then arguments else arguments.drop 1)

/-- Whether an argument has only letters that the echo of the system has as flags. -/
def isEchoFlag : Octets → Bool
  | '-' :: c :: cs => (c :: cs).all fun c => c = 'n' || c = 'e' || c = 'E'
  | _ => false

/-- The echo of the system, which reads the sequences if it is asked to. -/
def echo (arguments : List Octets) : Job Unit :=
  let flags := (arguments.takeWhile isEchoFlag).flatten
  let escapes := (flags.filter fun c => c = 'e' || c = 'E').getLast? == some 'e'
  printWords escapes (!flags.contains 'n') (arguments.dropWhile isEchoFlag)

/-! ## Formats -/

/-- A text moved to a width. -/
def padded (left zeros : Bool) (width : Nat) (o : Octets) : Octets :=
  let missing := width - o.length
  if left then o ++ List.replicate missing ' '
  else if zeros then
    match o with
    | '-' :: digits => '-' :: List.replicate missing '0' ++ digits
    | _ => List.replicate missing '0' ++ o
  else List.replicate missing ' ' ++ o

/-- A conversion: its flags, its width, its precision and its letter. -/
structure Conversion where
  left : Bool
  zeros : Bool
  width : Nat
  precision : Option Nat
  letter : Char

/-- The conversion that a percent sign starts, from what follows the sign. -/
def conversion? (o : Octets) : Option (Conversion × Octets) :=
  let flags := o.takeWhile fun c => "-0+ #".toList.contains c
  let o := o.drop flags.length
  let width := o.takeWhile Char.isDigit
  let o := o.drop width.length
  let places := match o with
    | '.' :: rest => some (rest.takeWhile Char.isDigit)
    | _ => none
  match o.drop (places.elim 0 fun p => p.length + 1) with
  | [] => none
  | letter :: rest =>
    some (⟨flags.contains '-', flags.contains '0', (Octets.digits? 10 width).getD 0,
      places.map fun p => (Octets.digits? 10 p).getD 0, letter⟩, rest)

/-- The number that an argument stands for; a quotation mark asks for the code of a character. -/
def numberOf (o : Octets) : Int :=
  match o with
  | '\'' :: c :: _ | '"' :: c :: _ => c.toNat
  | '0' :: digits => ((Octets.digits? 8 digits).getD 0 : Nat)
  | _ => (Octets.integer? o).getD 0

/-- An argument by a conversion, and whether it ends all printing. -/
def converted (k : Conversion) (argument : Octets) : Option (Octets × Bool) :=
  let cut (o : Octets) : Octets := match k.precision with
    | some n => o.take n
    | none => o
  let text (o : Octets) : Option (Octets × Bool) := some (padded k.left false k.width o, false)
  let digits (base : Nat) : Octets := Nat.toDigits base (numberOf argument).toNat
  let number (o : Octets) : Option (Octets × Bool) :=
    some (padded k.left k.zeros k.width o, false)
  match k.letter with
  | 's' => text (cut argument)
  | 'b' =>
    let (o, stop) := unescaped argument
    some (padded k.left false k.width (cut o), stop)
  | 'c' => text (argument.take 1)
  | 'd' | 'i' => number (toString (numberOf argument)).toList
  | 'u' => number (digits 10)
  | 'o' => number (digits 8)
  | 'x' => number (digits 16)
  | 'X' => number ((digits 16).map Char.toUpper)
  | _ => none

/-- One pass through a format: what it prints, the arguments left, and whether printing ends. -/
def formatted : Nat → Octets → List Octets → Octets × List Octets × Bool
  | 0, _, arguments => ([], arguments, true)
  | _ + 1, [], arguments => ([], arguments, false)
  | fuel + 1, c :: rest, arguments =>
    let go (text : Octets) (rest : Octets) (arguments : List Octets) :
        Octets × List Octets × Bool :=
      let (more, left, stop) := formatted fuel rest arguments
      (text ++ more, left, stop)
    if c = '\\' then
      let (text, rest) := sequence false rest
      go text rest arguments
    else if c = '%' then
      if rest.head? = some '%' then go ['%'] (rest.drop 1) arguments
      else match conversion? rest with
        | none => ([], arguments, true)
        | some (k, rest) =>
          match converted k (arguments.headD []) with
          | none => ([], arguments, true)
          | some (text, true) => (text, arguments.drop 1, true)
          | some (text, false) => go text rest (arguments.drop 1)
    else go [c] rest arguments

/-- Go through a format until the arguments are used up. -/
def formattedAll (format : Octets) : Nat → List Octets → Octets
  | 0, _ => []
  | fuel + 1, arguments =>
    let (text, left, stop) := formatted (format.length + 1) format arguments
    if stop || left.isEmpty || left.length == arguments.length then text
    else text ++ formattedAll format fuel left

/-- Print the arguments after the first one by the format that it is. -/
def printf (name : Octets) : List Octets → Job Unit
  | [] => fail 2 (name ++ ": usage: printf format [arg ...]".toList)
  | format :: arguments => print (formattedAll format (arguments.length + 1) arguments)

end StageLens.Tool
