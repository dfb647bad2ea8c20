import Constructicon.Toml.Scalar

/-! Reading TOML text. Lists, tables written in place and dotted keys go at most 79 deep. -/
namespace Constructicon.Toml

/-- Repeats a step, which tells whether it was the last, at most `bound` times. -/
def collect {α : Type} (step : List Char → Option (List α × Bool × List Char)) (bound : Nat)
    (text : List Char) : Option (List α × List Char) :=
  match bound with
  | 0 => none
  | n + 1 => do
    let (found, last, rest) ← step text
    if last then return (found, rest)
    let (more, rest) ← collect step n rest
    return (found ++ more, rest)

def isGap (c : Char) : Bool := c = ' ' || c = '\t'

def skipGaps (text : List Char) : List Char := text.dropWhile isGap

def isLegible (c : Char) : Bool := c = '\t' || (32 ≤ c.toNat && c.toNat ≠ 127)

def newline? : List Char → Option (List Char)
  | '\n' :: rest => some rest
  | '\r' :: '\n' :: rest => some rest
  | _ => none

def skipComment : List Char → List Char
  | '#' :: rest => rest.dropWhile isLegible
  | start => start

def lineEnd (text : List Char) : Option (List Char) :=
  match skipComment (skipGaps text) with
  | [] => some []
  | rest => newline? rest

/-- Skips blanks and line ends, at most `bound` of these, and comments if they are allowed. -/
def skipLines (comments : Bool) (bound : Nat) (text : List Char) : List Char :=
  let rest := if comments then skipComment (skipGaps text) else skipGaps text
  match bound, newline? rest with
  | n + 1, some after => skipLines comments n after
  | _, _ => rest

def codePoint? (digits : List Char) : Option Char := do
  let code ← Text.hexNumber? digits
  if h : code.isValidChar then some (Char.ofNatAux code h) else none

def readEscape : List Char → Option (Char × List Char)
  | 'b' :: rest => some (Char.ofNat 8, rest)
  | 't' :: rest => some ('\t', rest)
  | 'n' :: rest => some ('\n', rest)
  | 'f' :: rest => some (Char.ofNat 12, rest)
  | 'r' :: rest => some ('\r', rest)
  | '"' :: rest => some ('"', rest)
  | '\\' :: rest => some ('\\', rest)
  | 'u' :: rest =>
    if rest.length < 4 then none else (codePoint? (rest.take 4)).map (·, rest.drop 4)
  | 'U' :: rest =>
    if rest.length < 8 then none else (codePoint? (rest.take 8)).map (·, rest.drop 8)
  | _ => none

def textStep (mark : Char) (escapes : Bool) : List Char → Option (List Char × Bool × List Char)
  | [] => none
  | c :: rest =>
    if c = mark then some ([], true, rest)
    else if escapes ∧ c = '\\' then do
      let (meant, rest) ← readEscape rest
      return ([meant], false, rest)
    else if isLegible c then some ([c], false, rest)
    else none

/-- A step through a text over several lines, up to three marks; two more may precede them. A
backslash at the end of a line joins it to the next text. -/
def longTextStep (mark : Char) (escapes : Bool) (text : List Char) :
    Option (List Char × Bool × List Char) :=
  let marks := (text.takeWhile (· = mark)).length
  if marks ≥ 3 then
    let extra := min (marks - 3) 2
    some (List.replicate extra mark, true, text.drop (extra + 3))
  else
    match text with
    | [] => none
    | c :: rest =>
      if escapes ∧ c = '\\' then
        match newline? (skipGaps rest) with
        | some after => some ([], false, skipLines false after.length after)
        | none => do
          let (meant, rest) ← readEscape rest
          return ([meant], false, rest)
      else
        match newline? text with
        | some after => some (['\n'], false, after)
        | none => if isLegible c then some ([c], false, rest) else none

def readText (mark : Char) (escapes : Bool) (text : List Char) : Option (String × List Char) := do
  let (chars, rest) ← collect (textStep mark escapes) (text.length + 1) text
  return (String.ofList chars, rest)

def readLongText (mark : Char) (escapes : Bool) (text : List Char) :
    Option (String × List Char) := do
  let text := (newline? text).getD text
  let (chars, rest) ← collect (longTextStep mark escapes) (text.length + 1) text
  return (String.ofList chars, rest)

def isBare (c : Char) : Bool :=
  ('A' ≤ c && c ≤ 'Z') || ('a' ≤ c && c ≤ 'z') || isDigit c || c = '-' || c = '_'

def readKey (text : List Char) : Option (String × List Char) :=
  match text with
  | '"' :: rest => readText '"' true rest
  | '\'' :: rest => readText '\'' false rest
  | _ =>
    match text.span isBare with
    | ([], _) => none
    | (key, rest) => some (String.ofList key, rest)

def readKeys (bound : Nat) (text : List Char) : Option (List String × List Char) :=
  match bound with
  | 0 => none
  | n + 1 => do
    let (key, rest) ← readKey (skipGaps text)
    match skipGaps rest with
    | '.' :: rest => do
      let (more, rest) ← readKeys n rest
      return (key :: more, rest)
    | rest => return ([key], rest)

def readPath (text : List Char) : Option ((List String × String) × List Char) := do
  let (keys, rest) ← readKeys 79 text
  return ((keys.dropLast, ← keys.getLast?), rest)

def isScalarChar (c : Char) : Bool := isBare c || c = '+' || c = '.' || c = ':'

/-- A date may be followed by a blank and a time of day. -/
def readScalar (text : List Char) : Option (Toml × List Char) := do
  let (spelling, rest) := text.span isScalarChar
  let value ← scalar? spelling
  match isDate spelling, rest with
  | true, ' ' :: more =>
    let (clock, after) := more.span isScalarChar
    if isClock clock then return (value, after) else return (value, rest)
  | _, _ => return (value, rest)

def itemStep (value : List Char → Option (Toml × List Char)) (text : List Char) :
    Option (List Toml × Bool × List Char) := do
  match skipLines true text.length text with
  | ']' :: rest => return ([], true, rest)
  | start => do
    let (item, rest) ← value start
    match skipLines true rest.length rest with
    | ',' :: rest => return ([item], false, rest)
    | ']' :: rest => return ([item], true, rest)
    | _ => none

def readPair (value : List Char → Option (Toml × List Char)) (text : List Char) :
    Option ((List String × String × Toml) × List Char) := do
  let ((path, key), rest) ← readPath text
  match rest with
  | '=' :: rest => do
    let (item, rest) ← value (skipGaps rest)
    return ((path, key, item), rest)
  | _ => none

def pairStep (value : List Char → Option (Toml × List Char)) (text : List Char) :
    Option (List (List String × String × Toml) × Bool × List Char) := do
  let (pair, rest) ← readPair value text
  match skipGaps rest with
  | ',' :: rest => return ([pair], false, rest)
  | '\x7d' :: rest => return ([pair], true, rest)
  | _ => none

def readInline (value : List Char → Option (Toml × List Char)) (text : List Char) :
    Option (Toml × List Char) := do
  match skipGaps text with
  | '\x7d' :: rest => return (.table .inline [], rest)
  | _ => do
    let (pairs, rest) ← collect (pairStep value) (text.length + 1) text
    return (← ofPairs pairs, rest)

/-- A value in which lists and tables are nested at most `depth` deep. -/
def readValue (depth : Nat) (text : List Char) : Option (Toml × List Char) :=
  match text with
  | '"' :: '"' :: '"' :: rest => (readLongText '"' true rest).map fun (s, after) => (.text s, after)
  | '\'' :: '\'' :: '\'' :: rest =>
    (readLongText '\'' false rest).map fun (s, after) => (.text s, after)
  | '"' :: rest => (readText '"' true rest).map fun (s, after) => (.text s, after)
  | '\'' :: rest => (readText '\'' false rest).map fun (s, after) => (.text s, after)
  | '[' :: rest =>
    match depth with
    | 0 => none
    | n + 1 =>
      (collect (itemStep (readValue n)) (rest.length + 1) rest).map fun (items, after) =>
        (.list items, after)
  | '\x7b' :: rest =>
    match depth with
    | 0 => none
    | n + 1 => readInline (readValue n) rest
  | _ => readScalar text

def lineStep (text : List Char) : Option (List Line × Bool × List Char) := do
  match skipGaps text with
  | [] => return ([], true, [])
  | '[' :: '[' :: rest =>
    match ← readPath rest with
    | ((path, key), ']' :: ']' :: rest) => return ([.next path key], false, ← lineEnd rest)
    | _ => none
  | '[' :: rest =>
    match ← readPath rest with
    | ((path, key), ']' :: rest) => return ([.table path key], false, ← lineEnd rest)
    | _ => none
  | start =>
    match lineEnd start with
    | some rest => return ([], false, rest)
    | none => do
      let ((path, key, value), rest) ← readPair (readValue 79) start
      return ([.pair path key value], false, ← lineEnd rest)

/-- The top table of a document. A byte order mark in front is passed over. -/
def read? (text : String) : Option Fields := do
  let text := match text.toList with
    | '\uFEFF' :: rest => rest
    | chars => chars
  let (lines, _) ← collect lineStep (text.length + 1) text
  ofLines lines

end Constructicon.Toml
