/-! Command lines. Options that name the database or the settings, and the verbose switch, may
stand before the command or after it; what stands after it wins. An option may be given once
except where it collects values, a value that begins with a dash must follow an equals sign, and
after two dashes everything is an operand. -/
namespace Constructicon

structure ParseOptions where
  patterns : List String := []
  tokens : Option String := none
  isolated : Bool := false
  root : Option String := none
  limit : Option Nat := none
  maximal : Bool := false
  json : Bool := false
  events : Bool := false
  deriving DecidableEq

inductive Command where
  | importFile (path : String)
  | exportFile (path : String)
  | list
  | check (names : List String)
  | parse (options : ParseOptions)
  deriving DecidableEq

structure Invocation where
  database : Option String
  settings : Option String
  verbose : Bool
  command : Command
  deriving DecidableEq

inductive Request where
  | help
  | run (invocation : Invocation)
  deriving DecidableEq

namespace Command

/-- What an option takes: nothing, a text, a path, which may not be empty, or a number. -/
inductive OptionKind where
  | switch | text | path | number
  deriving DecidableEq

def globalOptions : List (String × OptionKind) :=
  [("db", .path), ("config", .path), ("verbose", .switch)]

def parseOptions : List (String × OptionKind) :=
  [("pattern", .text), ("tokens", .path), ("isolated", .switch), ("root", .text),
    ("limit", .number), ("maximal", .switch), ("json", .switch), ("events", .switch)]

structure Scan where
  options : List (String × String) := []
  operands : List String := []
  help : Bool := false

/-- A 64-bit number, which a plus sign may precede. -/
def number? (text : String) : Option Nat :=
  let digits := match text.toList with
    | '+' :: rest => rest
    | chars => chars
  if digits = [] ∨ ¬ digits.all Char.isDigit then none
  else
    let value := digits.foldl (fun n c => 10 * n + (c.toNat - 48)) 0
    if value < UInt64.size then some value else none

def isAccepted (kind : OptionKind) (value : String) : Bool :=
  match kind with
  | .switch => false
  | .text => true
  | .path => !value.isEmpty
  | .number => (number? value).isSome

def isDashed (argument : String) : Bool :=
  argument.startsWith "-" && argument ≠ "-"

/-- Goes through arguments up to the first operand, or through all if `operands` are taken. -/
def scan (known : List (String × OptionKind)) (operands : Bool) :
    List String → Option (Scan × List String)
  | [] => some ({}, [])
  | "--" :: rest => if operands then some ({ operands := rest }, []) else none
  | argument :: rest =>
    match argument.toList with
    | '-' :: '-' :: long =>
      let (name, attached) := long.span (· ≠ '=')
      let name := String.ofList name
      let add (value : String) (result : Scan × List String) : Scan × List String :=
        ({ result.1 with options := (name, value) :: result.1.options }, result.2)
      if argument = "--help" then some ({ help := true }, [])
      else
        match known.lookup name, attached with
        | none, _ => none
        | some .switch, [] => (scan known operands rest).map (add "")
        | some kind, '=' :: value =>
          let value := String.ofList value
          if isAccepted kind value then (scan known operands rest).map (add value) else none
        | some kind, _ =>
          match rest with
          | [] => none
          | value :: rest =>
            if isDashed value = false ∧ isAccepted kind value then
              (scan known operands rest).map (add value)
            else none
    | _ =>
      if argument = "-h" then some ({ help := true }, [])
      else if isDashed argument then none
      else if operands then
        (scan known operands rest).map fun (result, left) =>
          ({ result with operands := argument :: result.operands }, left)
      else some ({}, argument :: rest)

def Scan.valuesOf (result : Scan) (name : String) : List String :=
  (result.options.filter (·.1 = name)).map (·.2)

def Scan.value? (result : Scan) (name : String) : Option String :=
  (result.valuesOf name).head?

def Scan.has (result : Scan) (name : String) : Bool :=
  (result.value? name).isSome

/-- Whether only options that collect values are repeated. -/
def Scan.isSound (result : Scan) : Bool :=
  result.options.all fun (name, _) => name = "pattern" || (result.valuesOf name).length ≤ 1

def names : List String := ["import", "export", "list", "check", "parse"]

/-- Whether a command can begin with these operands: it may still lack some, but none of them
can be refused later. -/
def canTake (name : String) : List String → Bool
  | [] => names.contains name
  | [operand] =>
    name = "check" || ((name = "import" || name = "export") && !operand.isEmpty)
  | _ => name = "check"

def ofScan (name : String) (result : Scan) : Option Command :=
  match name, result.operands with
  | "import", [path] => some (.importFile path)
  | "export", [path] => some (.exportFile path)
  | "list", [] => some .list
  | "check", names => some (.check names)
  | "parse", [] =>
    some <| .parse
      { patterns := result.valuesOf "pattern"
        tokens := result.value? "tokens"
        isolated := result.has "isolated"
        root := result.value? "root"
        limit := (result.value? "limit").bind number?
        maximal := result.has "maximal"
        json := result.has "json"
        events := result.has "events" }
  | _, _ => none

end Command

namespace Request

/-- What a command line asks for, if it is well formed. Arguments after a call for help are not
looked at. -/
def ofArguments (arguments : List String) : Option Request := do
  let (before, rest) ← Command.scan Command.globalOptions false arguments
  guard before.isSound
  if before.help then return .help
  match rest with
  | [] => none
  | ["help"] => return .help
  | ["help", name] => do
    guard (name = "help" ∨ Command.names.contains name)
    return .help
  | name :: rest => do
    let own := if name = "parse" then Command.parseOptions else []
    let (after, _) ← Command.scan (Command.globalOptions ++ own) true rest
    guard (after.isSound ∧ Command.canTake name after.operands)
    if after.help then return .help
    let command ← Command.ofScan name after
    return .run
      { database := after.value? "db" <|> before.value? "db"
        settings := after.value? "config" <|> before.value? "config"
        verbose := before.has "verbose" || after.has "verbose"
        command }

end Request

end Constructicon
