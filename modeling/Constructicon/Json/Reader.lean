import Constructicon.Json
import Constructicon.Number
import Constructicon.Text.Hex

/-! Reading JSON text from its beginning. A text that stops where more must follow is truncated;
any other departure from the grammar is malformed, and so are numbers out of range, lone
surrogates and values nested more than 127 deep. The first fault from the left is reported. -/
namespace Constructicon.Json

inductive Fault where
  | truncated | malformed
  deriving DecidableEq

def Fault.message : Fault → String
  | truncated => "unexpected end of text"
  | malformed => "malformed text"

abbrev Read (α : Type) := Except Fault (α × List Char)

def isSpace (c : Char) : Bool := c = ' ' || c = '\t' || c = '\n' || c = '\r'

def skipSpaces (text : List Char) : List Char := text.dropWhile isSpace

def word (rest : List Char) (value : Json) : List Char → Read Json :=
  match rest with
  | [] => fun text => .ok (value, text)
  | expected :: more => fun
    | [] => .error .truncated
    | c :: text => if c = expected then word more value text else .error .malformed

/-- The fault of a code cut short: four bytes must follow in any case. -/
def shortCode (text : List Char) : Fault :=
  if (String.ofList text).utf8ByteSize < 4 then .truncated else .malformed

/-- The fault where the second half of a surrogate pair must begin and does not. -/
def unpaired : List Char → Fault
  | [] | ['\\'] => .truncated
  | _ => .malformed

def escapes : List (Char × Char) :=
  [('"', '"'), ('\\', '\\'), ('/', '/'), ('b', Char.ofNat 8), ('f', Char.ofNat 12), ('n', '\n'),
    ('r', '\r'), ('t', '\t')]

def prepend (c : Char) (rest : Read (List Char)) : Read (List Char) :=
  rest.map fun (text, after) => (c :: text, after)

def readText : List Char → Read (List Char)
  | [] => .error .truncated
  | '"' :: rest => .ok ([], rest)
  | '\\' :: rest =>
    match rest with
    | [] => .error .truncated
    | 'u' :: code =>
      match code with
      | a :: b :: c :: d :: after =>
        match Text.hexNumber? [a, b, c, d] with
        | none => .error .malformed
        | some high =>
          if 0xDC00 ≤ high ∧ high ≤ 0xDFFF then .error .malformed
          else if 0xD800 ≤ high ∧ high ≤ 0xDBFF then
            match after with
            | '\\' :: 'u' :: pair =>
              match pair with
              | e :: f :: g :: h :: after =>
                match Text.hexNumber? [e, f, g, h] with
                | none => .error .malformed
                | some low =>
                  if 0xDC00 ≤ low ∧ low ≤ 0xDFFF then
                    prepend (Char.ofNat (0x10000 + 0x400 * (high - 0xD800) + (low - 0xDC00)))
                      (readText after)
                  else .error .malformed
              | short => .error (shortCode short)
            | other => .error (unpaired other)
          else prepend (Char.ofNat high) (readText after)
      | short => .error (shortCode short)
    | c :: after =>
      match escapes.lookup c with
      | none => .error .malformed
      | some meant => prepend meant (readText after)
  | c :: rest => if c.toNat < 32 then .error .malformed else prepend c (readText rest)

def isDigit (c : Char) : Bool := '0' ≤ c && c ≤ '9'

def readDigits (text : List Char) : Read (List Char) :=
  match text with
  | [] => .error .truncated
  | c :: _ => if isDigit c then .ok (text.span isDigit) else .error .malformed

def readWhole (text : List Char) : Read (List Char) :=
  match text with
  | '0' :: rest =>
    match rest with
    | c :: _ => if isDigit c then .error .malformed else .ok (['0'], rest)
    | [] => .ok (['0'], rest)
  | _ => readDigits text

def readFraction : List Char → Read (List Char)
  | '.' :: rest => readDigits rest
  | text => .ok ([], text)

def readExponent (text : List Char) : Read (List Char × List Char) :=
  match text with
  | c :: rest =>
    if c = 'e' ∨ c = 'E' then
      match rest with
      | '+' :: digits => (readDigits digits).map fun (ds, after) => (([], ds), after)
      | '-' :: digits => (readDigits digits).map fun (ds, after) => ((['-'], ds), after)
      | digits => (readDigits digits).map fun (ds, after) => (([], ds), after)
    else .ok (([], []), text)
  | [] => .ok (([], []), text)

def digitsOf (text : List Char) : List Nat := text.map fun c => c.toNat - 48

def decimal (digits : List Nat) : Nat := digits.foldl (fun n d => 10 * n + d) 0

def readNumber (text : List Char) : Except Fault (Json × List Char) := do
  let unsigned := match text with
    | '-' :: rest => rest
    | _ => text
  let (whole, afterWhole) ← readWhole unsigned
  let (fraction, afterFraction) ← readFraction afterWhole
  let ((sign, power), after) ← readExponent afterFraction
  let size : Int := decimal (digitsOf power)
  let scaled := Scaled.ofDigits (digitsOf whole) (digitsOf fraction)
    (if sign = [] then size else -size)
  if scaled.isFinite then
    return (.number (String.ofList (text.take (text.length - after.length))), after)
  else throw .malformed

/-- What follows an item: a comma and a further item, or the closing mark. There are at most
`bound` further items. -/
def readMore {α : Type} (close : Char) (item : List Char → Read α) (bound : Nat)
    (text : List Char) : Except Fault (List α × List Char) :=
  match skipSpaces text, bound with
  | [], _ => .error .truncated
  | c :: rest, bound =>
    if c = close then .ok ([], rest)
    else if c = ',' then
      match bound with
      | 0 => .error .malformed
      | n + 1 => do
        let (first, afterFirst) ← item rest
        let (others, after) ← readMore close item n afterFirst
        return (first :: others, after)
    else .error .malformed

def readItems {α : Type} (close : Char) (item : List Char → Read α) (text : List Char) :
    Except Fault (List α × List Char) :=
  match skipSpaces text with
  | [] => .error .truncated
  | c :: rest =>
    if c = close then .ok ([], rest)
    else do
      let (first, afterFirst) ← item (c :: rest)
      let (others, after) ← readMore close item afterFirst.length afterFirst
      return (first :: others, after)

def readField (value : List Char → Read Json) (text : List Char) :
    Except Fault ((String × Json) × List Char) :=
  match skipSpaces text with
  | [] => .error .truncated
  | '"' :: rest => do
    let (name, afterName) ← readText rest
    match skipSpaces afterName with
    | [] => throw .truncated
    | ':' :: rest => do
      let (json, after) ← value rest
      return ((String.ofList name, json), after)
    | _ => throw .malformed
  | _ => .error .malformed

/-- A value in which lists and objects are nested at most `depth` deep. -/
def readValue (depth : Nat) (text : List Char) : Read Json :=
  match skipSpaces text with
  | [] => .error .truncated
  | 'n' :: rest => word "ull".toList .null rest
  | 't' :: rest => word "rue".toList (.bool true) rest
  | 'f' :: rest => word "alse".toList (.bool false) rest
  | '"' :: rest => (readText rest).map fun (text, after) => (.string (String.ofList text), after)
  | '[' :: rest =>
    match depth with
    | 0 => .error .malformed
    | n + 1 =>
      (readItems ']' (readValue n) rest).map fun (items, after) => (.array items, after)
  | '\x7b' :: rest =>
    match depth with
    | 0 => .error .malformed
    | n + 1 =>
      (readItems '\x7d' (readField (readValue n)) rest).map fun (fields, after) =>
        (.object fields, after)
  | c :: rest => if c = '-' ∨ isDigit c then readNumber (c :: rest) else .error .malformed

def read (text : String) : Read Json :=
  readValue 127 text.toList

end Constructicon.Json
