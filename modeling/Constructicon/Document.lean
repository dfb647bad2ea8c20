import Constructicon.Pattern
import Constructicon.Json.Reader
import Constructicon.Json.Printer

/-! Grammar documents: a list of patterns, by itself or under `patterns` beside a version. A
pattern, a node or an edge is written as an object with named fields, of which unknown ones are
passed over, or as the list of its fields in order; fields that have a default may be left out,
in a list those at the end. Nodes are an object in either case, and of two nodes with one key
the later counts. -/
namespace Constructicon.Document

def currentVersion : String := "1"

def kindOf : String → NodeKind
  | "START" => .start
  | "END" => .finish
  | "ELEMENT" => .element
  | _ => .routing

def kindLabel : NodeKind → String
  | .start => "START"
  | .finish => "END"
  | .element => "ELEMENT"
  | .routing => "ROUTING"

@[simp] theorem kindOf_kindLabel (kind : NodeKind) : kindOf (kindLabel kind) = kind := by
  cases kind <;> rfl

/-- The one value of a field, if it has any. Two values for one field are refused. -/
def field? (fields : List (String × Json)) (name : String) : Option (Option Json) :=
  match fields.filter (·.1 = name) with
  | [] => some none
  | [(_, value)] => some (some value)
  | _ => none

/-- The fields of a record in the order of `names`, those left out as `none`. -/
def record? (names : List String) : Json → Option (List (Option Json))
  | .object fields => names.mapM (field? fields)
  | .array items =>
    if items.length ≤ names.length then
      some (items.map some ++ List.replicate (names.length - items.length) none)
    else none
  | _ => none

def text? : Json → Option String
  | .string text => some text
  | _ => none

def optionalText? : Option Json → Option (Option String)
  | none | some .null => some none
  | some (.string text) => some (some text)
  | some _ => none

def flag? : Option Json → Option Bool
  | none => some false
  | some (.bool value) => some value
  | some _ => none

def list? {α : Type} (item? : Json → Option α) : Json → Option (List α)
  | .array items => items.mapM item?
  | _ => none

/-- A kind's name, or an object with that name alone and no content. -/
def kind? : Json → Option NodeKind
  | .string label => some (kindOf label)
  | .object [(label, .null)] => some (kindOf label)
  | _ => none

def node? (json : Json) : Option Node :=
  match record? ["kind", "elementType", "elementValue"] json with
  | some [some kind, elementType, elementValue] => do
    return {
      kind := ← kind? kind
      elementType := ← optionalText? elementType
      elementValue := ← optionalText? elementValue }
  | _ => none

def edge? (json : Json) : Option (Edge String) :=
  match record? ["from", "to", "bypass"] json with
  | some [some source, some target, bypass] => do
    return { source := ← text? source, target := ← text? target, bypass := ← flag? bypass }
  | _ => none

def nodes? : Json → Option (Table Node)
  | .object fields => do
    return Table.ofList (← fields.mapM fun (key, node) => (node? node).map (key, ·))
  | _ => none

def pattern? (json : Json) : Option Pattern :=
  match record? ["name", "nodes", "edges"] json with
  | some [some name, some nodes, edges] => do
    return {
      name := ← text? name
      nodes := ← nodes? nodes
      edges := ← (edges.map (list? edge?)).getD (some []) }
  | _ => none

def wrapped? (json : Json) : Option (List Pattern) :=
  match record? ["version", "patterns"] json with
  | some [version, some patterns] =>
    if version.all fun json => (text? json).isSome then list? pattern? patterns else none
  | _ => none

def bare? (json : Json) : Option (List Pattern) :=
  list? pattern? json

def grammar? (json : Json) : Option Grammar :=
  ((wrapped? json).orElse fun _ => bare? json).map Grammar.ofPatterns

inductive Refusal where
  | text (fault : Json.Fault)
  | mismatch
  deriving DecidableEq

def Refusal.message : Refusal → String
  | text fault => fault.message
  | mismatch => "data did not match any variant of untagged enum GrammarDocument"

/-- A text is refused by what is wrong with its first value before anything after the value
is looked at; only blanks may follow. -/
def importGrammar (text : String) : Except Refusal Grammar :=
  match Json.read text with
  | .error fault => .error (.text fault)
  | .ok (json, after) =>
    match grammar? json with
    | none => .error .mismatch
    | some grammar =>
      if Json.skipSpaces after = [] then .ok grammar else .error (.text .malformed)

/-- The version under which the patterns of a document stand, if it is not the current one. -/
def foreignVersion? (text : String) : Option String :=
  match importGrammar text, Json.read text with
  | .ok _, .ok (json, _) =>
    match wrapped? json, record? ["version", "patterns"] json with
    | some _, some [some (.string version), _] =>
      if version = currentVersion then none else some version
    | _, _ => none
  | _, _ => none

def ofNode (node : Node) : Json :=
  .object <|
    ("kind", .string (kindLabel node.kind))
      :: Json.optional "elementType" node.elementType .string
      ++ Json.optional "elementValue" node.elementValue .string

def ofEdge (edge : Edge String) : Json :=
  .object <|
    [("from", .string edge.source), ("to", .string edge.target)]
      ++ if edge.bypass then [("bypass", .bool true)] else []

def ofPattern (pattern : Pattern) : Json :=
  .object
    [("name", .string pattern.name),
      ("nodes", .object (pattern.nodes.entries.map fun (key, node) => (key, ofNode node))),
      ("edges", .array (pattern.edges.map ofEdge))]

def ofGrammar (grammar : Grammar) : Json :=
  .object
    [("version", .string currentVersion),
      ("patterns", .array (grammar.values.map ofPattern))]

/-- The patterns in the order of their keys, under the current version. -/
def exportGrammar (grammar : Grammar) : String :=
  (ofGrammar grammar).pretty

end Constructicon.Document
