/-!
# UTF-8

Bytes and characters. `decode` reads any bytes at all: each maximal part that no UTF-8 text has is
read as one replacement character. It is a machine fed one byte at a time, so that reading an
append is reading the first part and going on with the second (`feed_append`).

`decode?` accepts only bytes that `decode` loses nothing of, and `fit` is the longest run of
leading characters that a budget of bytes has room for.
-/

namespace StageLens

/-- A run of bytes: the contents of a file, what a program writes, a path. -/
abbrev Bytes := List UInt8

end StageLens

namespace StageLens.Text

/-- The bytes of a run of characters. -/
def encode (cs : List Char) : Bytes := cs.flatMap String.utf8EncodeChar

/-- The bytes of a text. -/
def bytes (s : String) : Bytes := s.toByteArray.toList

/-- What stands for bytes that are not UTF-8. -/
def replacement : Char := Char.ofNat 0xFFFD

/-- A character whose first bytes have been read. -/
structure Opened where
  /-- How many bytes are still to come. -/
  missing : Nat
  /-- The bits read so far. -/
  value : Nat
  /-- The least value the next byte may have. -/
  low : UInt8
  /-- The greatest value the next byte may have. -/
  high : UInt8
  deriving DecidableEq, Repr

/-- What a byte does between two characters: it is a character, opens one, or is neither. -/
inductive Lead where
  | single (c : Char)
  | opens (o : Opened)
  | stray
  deriving DecidableEq, Repr

/-- The role of a byte between two characters. The bounds on the second byte keep out overlong
forms, surrogates and values past `U+10FFFF`. -/
def lead (b : UInt8) : Lead :=
  let n := b.toNat
  if n < 0x80 then .single (Char.ofNat n)
  else if n < 0xC2 then .stray
  else if n < 0xE0 then .opens ⟨1, n - 0xC0, 0x80, 0xBF⟩
  else if n == 0xE0 then .opens ⟨2, 0, 0xA0, 0xBF⟩
  else if n == 0xED then .opens ⟨2, 0xD, 0x80, 0x9F⟩
  else if n < 0xF0 then .opens ⟨2, n - 0xE0, 0x80, 0xBF⟩
  else if n == 0xF0 then .opens ⟨3, 0, 0x90, 0xBF⟩
  else if n < 0xF4 then .opens ⟨3, n - 0xF0, 0x80, 0xBF⟩
  else if n == 0xF4 then .opens ⟨3, 4, 0x80, 0x8F⟩
  else .stray

/-- The reader between two bytes: the characters read, latest first, and the one that is open. -/
structure Reader where
  read : List Char
  opened : Option Opened
  deriving DecidableEq, Repr

namespace Reader

/-- Nothing read. -/
def start : Reader := ⟨[], none⟩

/-- Read a byte that stands between two characters. -/
def begin (read : List Char) (b : UInt8) : Reader :=
  match lead b with
  | .single c => ⟨c :: read, none⟩
  | .opens o => ⟨read, some o⟩
  | .stray => ⟨replacement :: read, none⟩

/-- Read one byte. A byte that the open character cannot have ends it as a replacement character
and is read anew. -/
def step (r : Reader) (b : UInt8) : Reader :=
  match r.opened with
  | none => begin r.read b
  | some o =>
    if o.low ≤ b ∧ b ≤ o.high then
      let value := o.value * 64 + (b.toNat - 0x80)
      if o.missing ≤ 1 then ⟨Char.ofNat value :: r.read, none⟩
      else ⟨r.read, some ⟨o.missing - 1, value, 0x80, 0xBF⟩⟩
    else begin (replacement :: r.read) b

/-- Read bytes in order. -/
def feed (r : Reader) (bs : Bytes) : Reader := bs.foldl step r

/-- The characters read when no byte follows: an open character is a replacement character. -/
def close (r : Reader) : List Char :=
  match r.opened with
  | none => r.read.reverse
  | some _ => (replacement :: r.read).reverse

theorem feed_append (r : Reader) (as bs : Bytes) : r.feed (as ++ bs) = (r.feed as).feed bs :=
  List.foldl_append

end Reader

/-- The characters of any bytes, with one replacement character for each maximal part that is not
UTF-8. -/
def decode (bs : Bytes) : List Char := (Reader.start.feed bs).close

/-- `decode` as a text. -/
def decodeText (bs : Bytes) : String := String.ofList (decode bs)

/-- The text of bytes that are UTF-8: those that encoding gives back. -/
def decode? (bs : Bytes) : Option String :=
  let cs := decode bs
  if encode cs = bs then some (String.ofList cs) else none

/-- How many of the leading characters fit into `room` bytes, added to `n`. -/
def fitCount (n room : Nat) : List Char → Nat
  | [] => n
  | c :: cs => if c.utf8Size ≤ room then fitCount (n + 1) (room - c.utf8Size) cs else n

/-- The longest run of leading characters that takes at most `room` bytes. -/
def fit (room : Nat) (cs : List Char) : List Char := cs.take (fitCount 0 room cs)

/-- The size of a run of characters in bytes. -/
def size (cs : List Char) : Nat := cs.foldl (fun n c => n + c.utf8Size) 0

end StageLens.Text
