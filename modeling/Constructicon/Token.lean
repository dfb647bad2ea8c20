import Constructicon.Event
import Constructicon.Text.Characters

/-! Tokens as lines of text. A line holds a type, which runs to the first colon or blank, and a
value, which is the rest without that colon and without blanks at its ends. Lines without a type
and lines that begin with a number sign hold no token. A line that is not UTF-8 is an error of
its own and leaves the other lines as they are. -/
namespace Constructicon

namespace Token

def endsType (c : Char) : Bool := c = ':' || Text.isBlank c

def ofLine (line : String) : Option Token :=
  let text := Text.trim line.toList
  let (elementType, rest) := text.span fun c => !endsType c
  if elementType = [] ∨ text.head? = some '#' then none
  else
    let value := match rest with
      | ':' :: after => after
      | _ => rest
    some { elementType := String.ofList elementType, value := String.ofList (Text.trim value) }

def lines (bytes : List UInt8) : List (List UInt8) :=
  bytes.foldr (fun byte pieces =>
    match pieces with
    | [] => [[byte]]
    | first :: rest => if byte = 10 then [] :: first :: rest else (byte :: first) :: rest) [[]]

inductive Unreadable where
  | notUtf8
  deriving DecidableEq

def Unreadable.message : Unreadable → String
  | notUtf8 => "stream did not contain valid UTF-8"

def decode (bytes : List UInt8) : Option String :=
  String.fromUTF8? ⟨bytes.toArray⟩

/-- What a line contributes to the stream, if anything. -/
def ofBytes (line : List UInt8) : Option (Except Unreadable Token) :=
  match decode line with
  | none => some (.error .notUtf8)
  | some text => (ofLine text).map .ok

/-- The tokens of a stream of bytes, with an error for every line that cannot be read. -/
def stream (bytes : List UInt8) : List (Except Unreadable Token) :=
  (lines bytes).filterMap ofBytes

def line (token : Token) : String := s!"{token.elementType}:{token.value}"

end Token

end Constructicon
