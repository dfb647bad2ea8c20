import Constructicon.Document
import Constructicon.Tree.Recognise

/-! Event logs and trees as documents. -/
namespace Constructicon.Document

def eventKindLabel : EventKind → String
  | .fire => "FIRE"
  | .complete => "COMPLETE"

def ofEvent (event : Event) : Json :=
  .object <|
    [("id", .nat event.id), ("time", .nat event.time), ("start", .nat event.start),
      ("pattern", .string event.pattern), ("node", .string event.node),
      ("kind", .string (eventKindLabel event.kind))]
      ++ Json.optional "elementType" event.elementType .string
      ++ Json.optional "elementValue" event.elementValue .string
      ++ Json.optional "cause" event.cause .nat
      ++ Json.optional "subEvent" event.subEvent .nat

def exportEvents (events : List Event) : String :=
  (Json.object
    [("version", .string currentVersion), ("events", .array (events.map ofEvent))]).pretty

def spanFields (span : Span) : List (String × Json) :=
  [("pattern", .string span.pattern), ("start", .nat span.start), ("end", .nat span.finish),
    ("event", .nat span.event)]

mutual

def ofTree : Tree → Json
  | .terminal leaf =>
    .object
      [("kind", .string "TERMINAL"), ("elementType", .string leaf.elementType),
        ("elementValue", .string leaf.elementValue), ("position", .nat leaf.position),
        ("node", .string leaf.node)]
  | .construction span children =>
    .object <|
      ("kind", .string "NODE") :: spanFields span ++ [("children", .array (ofTrees children))]

def ofTrees : List Tree → List Json
  | [] => []
  | tree :: rest => ofTree tree :: ofTrees rest

end

def ofRecognition (recognition : Recognition) : Json :=
  .object (spanFields recognition.span ++ [("children", .array (ofTrees recognition.children))])

def exportTrees (recognitions : List Recognition) : String :=
  (Json.object
    [("version", .string currentVersion),
      ("trees", .array (recognitions.map ofRecognition))]).pretty

end Constructicon.Document
