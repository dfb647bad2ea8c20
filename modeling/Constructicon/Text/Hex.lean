/-! Hexadecimal digits and the escapes that they write. A percent sign before two hexadecimal digits
stands for the byte that they write, and for itself anywhere else; a zero byte ends the text. Bytes
that write no text are kept apart from all text, so texts of different bytes are different. -/
namespace Constructicon.Text

def hexValue? (c : Char) : Option Nat :=
  if '0' ≤ c ∧ c ≤ '9' then some (c.toNat - 48)
  else if 'a' ≤ c ∧ c ≤ 'f' then some (c.toNat - 87)
  else if 'A' ≤ c ∧ c ≤ 'F' then some (c.toNat - 55)
  else none

/-- The lower-case digit of a number below sixteen. -/
def hexDigit (n : Nat) : Char :=
  if n < 10 then Char.ofNat (48 + n) else Char.ofNat (87 + n)

/-- The number that digits write, if all are hexadecimal. -/
def hexNumber? (digits : List Char) : Option Nat :=
  digits.foldlM (fun n c => (hexValue? c).map (16 * n + ·)) 0

def unescapedBytes : List Char → List UInt8
  | [] => []
  | '%' :: a :: b :: rest =>
    match hexNumber? [a, b] with
    | none => String.utf8EncodeChar '%' ++ unescapedBytes (a :: b :: rest)
    | some 0 => []
    | some n => n.toUInt8 :: unescapedBytes rest
  | c :: rest => String.utf8EncodeChar c ++ unescapedBytes rest

/-- The character that a number of bytes at the front write, if it is just one. -/
def charOf? (bytes : List UInt8) (width : Nat) : Option Char :=
  match (String.fromUTF8? ⟨(bytes.take width).toArray⟩).map String.toList with
  | some [c] => some c
  | _ => none

/-- The character at the front, and how many bytes more it takes after the first. -/
def frontChar? (bytes : List UInt8) : Option (Char × Nat) :=
  [0, 1, 2, 3].findSome? fun more => (charOf? bytes (more + 1)).map (·, more)

/-- The characters of bytes after some that are passed over. A byte that belongs to no character
becomes a zero character and the character of its number. -/
def charsOfBytes : Nat → List UInt8 → List Char
  | _, [] => []
  | skipped + 1, _ :: rest => charsOfBytes skipped rest
  | 0, byte :: rest =>
    match frontChar? (byte :: rest) with
    | some (c, more) => c :: charsOfBytes more rest
    | none => '\x00' :: Char.ofNat byte.toNat :: charsOfBytes 0 rest

def unescaped (text : List Char) : String :=
  String.ofList (charsOfBytes 0 (unescapedBytes text))

end Constructicon.Text
