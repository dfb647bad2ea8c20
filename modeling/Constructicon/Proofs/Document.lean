import Constructicon.Document
import Constructicon.Proofs.Json
import Constructicon.Proofs.Table

/-! Grammar documents as a faithful record of grammars. A grammar whose patterns are filed under
their own names is read back from its document as it was, be its patterns sound or not; and every
document that is read at all is read as such a grammar. -/
namespace Constructicon

namespace Grammar

/-- Every pattern is filed under its own name. -/
def Named (grammar : Grammar) : Prop :=
  ∀ entry ∈ grammar.entries, entry.2.name = entry.1

theorem ofPatterns_values {grammar : Grammar} (named : grammar.Named) :
    ofPatterns grammar.values = grammar := by
  have pairs : grammar.values.map (fun pattern => (pattern.name, pattern)) = grammar.entries := by
    rw [Table.values, List.map_map]
    refine (List.map_congr_left fun entry member => ?_).trans (List.map_id _)
    simp [named entry member]
  rw [ofPatterns, pairs, Table.ofList_entries]

theorem named_ofPatterns (patterns : List Pattern) : (ofPatterns patterns).Named := by
  intro entry member
  obtain ⟨pattern, _, rfl⟩ := List.mem_map.mp (Table.mem_ofList member)
  rfl

end Grammar

namespace Document

section Printing

variable {depth : Nat}

theorem plain_optional {name : String} {value : Option String} {field : String × Json}
    (member : field ∈ Json.optional name value .string) : Json.Plain depth field.2 := by
  obtain ⟨text, _, rfl⟩ := Option.map_eq_some_iff.mp (Option.mem_toList.mp member)
  exact .string depth text

theorem plain_ofNode (node : Node) : Json.Plain (depth + 1) (ofNode node) := by
  refine .object fun field member => ?_
  rcases List.mem_cons.mp member with rfl | member
  · exact .string depth _
  · rcases List.mem_append.mp member with elementType | elementValue
    · exact plain_optional elementType
    · exact plain_optional elementValue

theorem plain_ofEdge (edge : Edge String) : Json.Plain (depth + 1) (ofEdge edge) := by
  refine .object fun field member => ?_
  rcases List.mem_append.mp member with ends | bypass
  · rcases List.mem_cons.mp ends with rfl | target
    · exact .string depth _
    · rw [List.mem_singleton.mp target]
      exact .string depth _
  · split at bypass
    · rw [List.mem_singleton.mp bypass]
      exact .bool depth true
    · cases bypass

theorem plain_ofPattern (pattern : Pattern) : Json.Plain (depth + 3) (ofPattern pattern) := by
  refine .object fun field member => ?_
  simp only [List.mem_cons, List.not_mem_nil, or_false] at member
  rcases member with rfl | rfl | rfl
  · exact .string _ _
  · refine .object fun field member => ?_
    obtain ⟨entry, _, rfl⟩ := List.mem_map.mp member
    exact plain_ofNode entry.2
  · refine .array fun item member => ?_
    obtain ⟨edge, _, rfl⟩ := List.mem_map.mp member
    exact plain_ofEdge edge

theorem plain_ofGrammar (grammar : Grammar) : Json.Plain (depth + 5) (ofGrammar grammar) := by
  have version : Json.Plain (depth + 4) (.string currentVersion) := .string _ _
  have patterns : Json.Plain (depth + 4) (.array (grammar.values.map ofPattern)) := by
    refine .array fun item member => ?_
    obtain ⟨pattern, _, rfl⟩ := List.mem_map.mp member
    exact plain_ofPattern pattern
  exact .object (by simp [version, patterns])

end Printing

section Reading

theorem mapM_map {α β : Type} {write : α → β} {read : β → Option α}
    (back : ∀ item, read (write item) = some item) (items : List α) :
    (items.map write).mapM read = some items := by
  induction items with
  | nil => rfl
  | cons item rest ih =>
    rw [List.map_cons, List.mapM_cons, back, ih]
    rfl

theorem node?_ofNode (node : Node) : node? (ofNode node) = some node := by
  obtain ⟨kind, elementType, elementValue⟩ := node
  cases elementType <;> cases elementValue <;>
    simp [node?, ofNode, record?, field?, Json.optional, kind?, optionalText?]

theorem edge?_ofEdge (edge : Edge String) : edge? (ofEdge edge) = some edge := by
  obtain ⟨source, target, bypass⟩ := edge
  cases bypass <;> simp [edge?, ofEdge, record?, field?, text?, flag?]

theorem nodes?_object (nodes : Table Node) :
    nodes? (.object (nodes.entries.map fun entry => (entry.1, ofNode entry.2))) = some nodes := by
  have back (entry : String × Node) :
      (node? (ofNode entry.2)).map (entry.1, ·) = some entry := by
    rw [node?_ofNode]
    rfl
  rw [nodes?, mapM_map back]
  exact congrArg some (Table.ofList_entries nodes)

theorem pattern?_ofPattern (pattern : Pattern) : pattern? (ofPattern pattern) = some pattern := by
  have nodes : nodes? (.object (pattern.nodes.entries.map _)) = some pattern.nodes :=
    nodes?_object pattern.nodes
  have edges : list? edge? (.array (pattern.edges.map ofEdge)) = some pattern.edges :=
    mapM_map edge?_ofEdge pattern.edges
  simp [pattern?, ofPattern, record?, field?, text?, nodes, edges]

theorem grammar?_ofGrammar (grammar : Grammar) :
    grammar? (ofGrammar grammar) = some (Grammar.ofPatterns grammar.values) := by
  have patterns : list? pattern? (.array (grammar.values.map ofPattern)) = some grammar.values :=
    mapM_map pattern?_ofPattern grammar.values
  simp [grammar?, wrapped?, ofGrammar, record?, field?, text?, patterns]

theorem importGrammar_export (grammar : Grammar) :
    importGrammar (exportGrammar grammar) = .ok (Grammar.ofPatterns grammar.values) := by
  have plain : Json.Plain 127 (ofGrammar grammar) := plain_ofGrammar grammar
  unfold importGrammar exportGrammar
  rw [plain.read_pretty]
  simp [grammar?_ofGrammar, Json.skipSpaces]

theorem named_importGrammar {text : String} {grammar : Grammar}
    (accepted : importGrammar text = .ok grammar) : grammar.Named := by
  unfold importGrammar at accepted
  split at accepted
  · cases accepted
  · split at accepted
    · cases accepted
    · rename_i found
      split at accepted
      · obtain ⟨patterns, _, rfl⟩ := Option.map_eq_some_iff.mp found
        cases accepted
        exact Grammar.named_ofPatterns patterns
      · cases accepted

end Reading

theorem import_of_named {grammar : Grammar} (named : grammar.Named) :
    importGrammar (exportGrammar grammar) = .ok grammar := by
  rw [importGrammar_export, Grammar.ofPatterns_values named]

/-- A grammar whose patterns are filed under their own names is what its document is read as. So
what any document was read as can be written and read again without end. -/
theorem import_export :
    (∀ grammar : Grammar, grammar.Named → importGrammar (exportGrammar grammar) = .ok grammar) ∧
      ∀ text grammar, importGrammar text = .ok grammar → ∃ again,
        importGrammar (exportGrammar grammar) = .ok again ∧ again = grammar ∧
          exportGrammar again = exportGrammar grammar := by
  refine ⟨fun grammar named => import_of_named named, fun text grammar accepted => ?_⟩
  exact ⟨grammar, import_of_named (named_importGrammar accepted), rfl, rfl⟩

/-- Marks that are escaped, letters that are not, an empty key, edges that repeat and edges that
lead nowhere. -/
def odd : Grammar :=
  Grammar.ofPatterns [
    { name := "say \"\\\x01é\""
      nodes := Table.ofList [("", { kind := .start }),
        ("\n", { kind := .routing, elementType := some "", elementValue := some "/\t𝔸" })]
      edges := [{ source := "", target := "\n" }, { source := "", target := "\n" },
        { source := "\n", target := "nowhere", bypass := true }] },
    { name := "", nodes := .empty, edges := [] }]

theorem import_export_odd : odd.Named ∧ importGrammar (exportGrammar odd) = .ok odd ∧
    ∃ grammar, importGrammar "[[\"p\", \x7b\"a\": [\"?\", null, \"\\u00e9\"]\x7d]]" = .ok grammar ∧
      grammar.values = [⟨"p", Table.ofList [("a", ⟨.routing, none, some "é"⟩)], []⟩] ∧
      importGrammar (exportGrammar grammar) = .ok grammar := by
  obtain ⟨written, reread⟩ := import_export
  have named : odd.Named := by
    unfold Grammar.Named
    decide +kernel
  refine ⟨named, written odd named, ?_⟩
  have reads : (importGrammar "[[\"p\", \x7b\"a\": [\"?\", null, \"\\u00e9\"]\x7d]]").toOption.map
      Table.values = some [⟨"p", Table.ofList [("a", ⟨.routing, none, some "é"⟩)], []⟩] := by
    decide +kernel
  cases read : importGrammar "[[\"p\", \x7b\"a\": [\"?\", null, \"\\u00e9\"]\x7d]]" with
  | error refusal =>
    rw [read] at reads
    cases reads
  | ok grammar =>
    rw [read] at reads
    obtain ⟨again, accepted, rfl, _⟩ := reread _ grammar read
    exact ⟨again, rfl, Option.some.inj reads, accepted⟩

end Document

end Constructicon
