import Constructicon.Automaton
import Constructicon.Document
import Constructicon.Library

/-! The pattern store: names, and the nodes and edges of all patterns as rows that carry the name
of their pattern and their place in it. What is saved compiles; a call that fails changes
nothing. Rows keep the kind of a node as text, so a row damaged from outside is noticed when
its pattern is loaded. -/
namespace Constructicon

structure NodeRow where
  pattern : String
  ordinal : Nat
  key : String
  kind : String
  elementType : Option String
  elementValue : Option String
  deriving DecidableEq

structure EdgeRow where
  pattern : String
  ordinal : Nat
  source : String
  target : String
  bypass : Bool
  deriving DecidableEq

structure Store where
  metadata : Table String
  names : Table Unit
  nodes : List NodeRow
  edges : List EdgeRow
  deriving DecidableEq

inductive StoreError where
  | grammar (error : Error)
  | notFound (name : String)
  | badKind (pattern node kind : String)
  | badDocument (refusal : Document.Refusal)
  | failedToRead (file reason : String)
  | failedToWrite (file reason : String)
  deriving DecidableEq

def StoreError.message : StoreError → String
  | grammar error => s!"grammar error: {error.message}"
  | notFound name => s!"pattern '{name}' not found"
  | badKind pattern node kind =>
    s!"invalid data: pattern '{pattern}' node '{node}' has kind '{kind}'"
  | badDocument refusal => s!"invalid data: invalid JSON: {refusal.message}"
  | failedToRead file reason => s!"invalid data: failed to read {file}: {reason}"
  | failedToWrite file reason => s!"invalid data: failed to write {file}: {reason}"

/-- The messages of an error and of what caused it, outermost first. -/
def StoreError.chain : StoreError → List String
  | grammar error => [(grammar error).message, error.message]
  | other => [other.message]

namespace Store

def empty : Store :=
  { metadata := Table.ofList [("schema_version", "1")], names := .empty, nodes := [], edges := [] }

instance : Inhabited Store := ⟨empty⟩

def getMetadata (store : Store) (key : String) : Option String :=
  store.metadata.get? key

def setMetadata (store : Store) (key value : String) : Store :=
  { store with metadata := store.metadata.insert key value }

def delete (store : Store) (name : String) : Bool × Store :=
  (store.names.contains name,
    { store with
      names := store.names.erase name
      nodes := store.nodes.filter (·.pattern ≠ name)
      edges := store.edges.filter (·.pattern ≠ name) })

def nodeRows (pattern : Pattern) : List NodeRow :=
  pattern.nodes.entries.mapIdx fun ordinal (key, node) =>
    { pattern := pattern.name, ordinal, key
      kind := Document.kindLabel node.kind
      elementType := node.elementType
      elementValue := node.elementValue }

def edgeRows (pattern : Pattern) : List EdgeRow :=
  pattern.edges.mapIdx fun ordinal edge =>
    { pattern := pattern.name, ordinal
      source := edge.source
      target := edge.target
      bypass := edge.bypass }

def write (store : Store) (pattern : Pattern) : Store :=
  let cleared := (store.delete pattern.name).2
  { cleared with
    names := cleared.names.insert pattern.name ()
    nodes := cleared.nodes ++ nodeRows pattern
    edges := cleared.edges ++ edgeRows pattern }

def save (store : Store) (pattern : Pattern) : Except StoreError Store := do
  let _ ← (pattern.compile pattern.name).mapError .grammar
  return store.write pattern

/-- Saves all patterns of a grammar, each of which must compile under its key, or none. -/
def saveAll (store : Store) (grammar : Grammar) : Except StoreError (Nat × Store) := do
  let _ ← (Grammar.compile grammar).mapError .grammar
  return (grammar.size, grammar.values.foldl write store)

def patternNames (store : Store) : List String :=
  store.names.keys

def nodeOfRow (row : NodeRow) : Except StoreError (String × Node) :=
  let kind := Document.kindOf row.kind
  if Document.kindLabel kind = row.kind then
    .ok (row.key, { kind, elementType := row.elementType, elementValue := row.elementValue })
  else .error (.badKind row.pattern row.key row.kind)

/-- Nodes and edges are taken in stored order, so the first bad kind is the one reported. -/
def load (store : Store) (name : String) : Except StoreError (Option Pattern) :=
  if store.names.contains name then do
    let nodes := (store.nodes.filter (·.pattern = name)).mergeSort
      fun a b => a.ordinal ≤ b.ordinal
    let edges := (store.edges.filter (·.pattern = name)).mergeSort
      fun a b => a.ordinal ≤ b.ordinal
    let nodes ← nodes.mapM nodeOfRow
    return some
      { name
        nodes := Table.ofList nodes
        edges := edges.map fun row =>
          { source := row.source, target := row.target, bypass := row.bypass } }
  else .ok none

def loadByNames (store : Store) (names : List String) : Except StoreError Grammar :=
  selectNames names fun name => do
    match ← store.load name with
    | none => throw (.notFound name)
    | some pattern => return pattern

def loadAll (store : Store) : Except StoreError Grammar :=
  store.loadByNames store.patternNames

def importText (store : Store) (text : String) : Except StoreError (Nat × Store) := do
  store.saveAll (← (Document.importGrammar text).mapError .badDocument)

def exportText (store : Store) : Except StoreError String := do
  return Document.exportGrammar (← store.loadAll)

/-- Overwrites the stored kind of a node, as only an outside hand would, and counts the rows
that change. -/
def corruptKind (store : Store) (pattern node kind : String) : Nat × Store :=
  let hit (row : NodeRow) : Bool := row.pattern = pattern ∧ row.key = node
  ((store.nodes.filter hit).length,
    { store with nodes := store.nodes.map fun row => if hit row then { row with kind } else row })

def counts (store : Store) : Nat × Nat × Nat :=
  (store.names.size, store.nodes.length, store.edges.length)

end Store

end Constructicon
