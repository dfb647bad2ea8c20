import Constructicon.Json
import Constructicon.Text.Hex

/-! JSON text over several lines, each level two blanks deeper. Only quotes, backslashes and
controls are escaped; everything else stands for itself. -/
namespace Constructicon.Json

def escape (c : Char) : List Char :=
  if c = '"' then ['\\', '"']
  else if c = '\\' then ['\\', '\\']
  else if c.toNat = 8 then ['\\', 'b']
  else if c = '\t' then ['\\', 't']
  else if c = '\n' then ['\\', 'n']
  else if c.toNat = 12 then ['\\', 'f']
  else if c = '\r' then ['\\', 'r']
  else if c.toNat < 32 then
    ['\\', 'u', '0', '0', Text.hexDigit (c.toNat / 16), Text.hexDigit (c.toNat % 16)]
  else [c]

def quote (text : String) : List Char :=
  '"' :: text.toList.flatMap escape ++ ['"']

/-- A new line at some depth. -/
def newline (depth : Nat) : List Char :=
  '\n' :: List.replicate (2 * depth) ' '

mutual

def print (depth : Nat) : Json → List Char
  | .null => "null".toList
  | .bool true => "true".toList
  | .bool false => "false".toList
  | .number literal => literal.toList
  | .string text => quote text
  | .array [] => ['[', ']']
  | .array (item :: rest) =>
    '[' :: newline (depth + 1) ++ item.print (depth + 1)
      ++ printItems (depth + 1) rest ++ newline depth ++ [']']
  | .object [] => ['\x7b', '\x7d']
  | .object ((name, value) :: rest) =>
    '\x7b' :: newline (depth + 1) ++ quote name ++ [':', ' '] ++ value.print (depth + 1)
      ++ printFields (depth + 1) rest ++ newline depth ++ ['\x7d']

def printItems (depth : Nat) : List Json → List Char
  | [] => []
  | item :: rest => ',' :: newline depth ++ item.print depth ++ printItems depth rest

def printFields (depth : Nat) : List (String × Json) → List Char
  | [] => []
  | (name, value) :: rest =>
    ',' :: newline depth ++ quote name ++ [':', ' '] ++ value.print depth
      ++ printFields depth rest

end

def pretty (json : Json) : String :=
  String.ofList (json.print 0)

end Constructicon.Json
