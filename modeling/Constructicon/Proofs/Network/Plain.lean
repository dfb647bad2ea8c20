import Mathlib.Data.List.Basic
import Constructicon.Network.Compose
import Constructicon.Proofs.Automaton
import Constructicon.Proofs.Table

/-! Patterns without their idle values. The value of a reference names the pattern that it stands
for; the value of any other node is carried along and never looked at. Compiling patterns and
building networks of them goes the same way, to the same end or the same error, once such values
are taken out. -/
namespace Constructicon

/-- The node without its value, unless it is a reference. -/
def Node.plain (node : Node) : Node := { node with elementValue := node.reference }

def Pattern.plain (pattern : Pattern) : Pattern :=
  { pattern with nodes := pattern.nodes.map Node.plain }

def Grammar.plain (grammar : Grammar) : Grammar := Table.map Pattern.plain grammar

def Automaton.plain (automaton : Automaton) : Automaton :=
  { automaton with nodes := automaton.nodes.map Node.plain }

def Site.plain (site : Site) : Site := { site with elementValue := site.reference }

def Network.plain (network : Network) : Network :=
  { network with sites := network.sites.map Site.plain }

namespace Node

@[simp] theorem kind_plain (node : Node) : node.plain.kind = node.kind := rfl

@[simp] theorem elementType_plain (node : Node) : node.plain.elementType = node.elementType := rfl

@[simp] theorem reference_plain (node : Node) : node.plain.reference = node.reference := by
  by_cases refers : node.kind = .element ∧ node.elementType = some referenceType <;>
    simp [plain, reference, refers]

theorem isUnnamed_plain (node : Node) : node.plain.isUnnamed = node.isUnnamed := by
  by_cases refers : node.kind = .element ∧ node.elementType = some referenceType
  · simp [isUnnamed, plain, reference, refers]
  · have named (value : Option String) : ¬ (node.kind = .element ∧
        node.elementType = some referenceType ∧ value = none) :=
      fun unnamed => refers ⟨unnamed.1, unnamed.2.1⟩
    simp only [isUnnamed, kind_plain, elementType_plain, named, decide_false]

theorem compiled_plain (node : Node) : node.plain.compiled = node.compiled.plain := by
  unfold compiled
  by_cases typeless : node.kind = .element ∧ node.elementType = none
  · rw [if_pos typeless, if_pos (show node.plain.kind = .element ∧ node.plain.elementType = none
      from typeless)]
    simp [plain, reference, typeless]
  · rw [if_neg typeless, if_neg (show ¬ (node.plain.kind = .element ∧
      node.plain.elementType = none) from typeless)]

end Node

section Compiling

theorem bind_map_congr {α β γ ε : Type} {first : Except ε α} {next : α → Except ε β}
    {other : α → Except ε γ} {f : β → γ} (same : ∀ value, other value = (next value).map f) :
    first >>= other = (first >>= next).map f := by
  cases first with
  | error error => rfl
  | ok value => exact same value

/-- Results that are alike but for what `f` leaves out fail or succeed together. -/
theorem map_congr_cases {α β ε : Type} {f : α → β} {here there : Except ε α}
    (same : here.map f = there.map f) :
    (∃ error, here = .error error ∧ there = .error error) ∨
      ∃ a b, here = .ok a ∧ there = .ok b ∧ f a = f b := by
  cases here with
  | error error =>
    cases there with
    | error other =>
      cases same
      exact .inl ⟨error, rfl, rfl⟩
    | ok b => cases same
  | ok a =>
    cases there with
    | error other => cases same
    | ok b => exact .inr ⟨a, b, rfl, rfl, Except.ok.inj same⟩

theorem keys_plain (pattern : Pattern) : pattern.plain.nodes.keys = pattern.nodes.keys :=
  Table.keys_map ..

theorem Pattern.keysOf_plain (pattern : Pattern) (kind : NodeKind) :
    pattern.plain.keysOf kind = pattern.keysOf kind := by
  simp only [keysOf, plain, Table.map, List.filter_map, List.map_map]
  rfl

theorem Pattern.draft_plain (pattern : Pattern) (name start finish : String) :
    pattern.plain.draft name start finish = (pattern.draft name start finish).plain := by
  have nodes : (pattern.nodes.map Node.plain).map Node.compiled =
      (pattern.nodes.map Node.compiled).map Node.plain := by
    apply Table.ext_entries
    simp only [Table.map, List.map_map]
    exact List.map_congr_left fun entry _ => congrArg (entry.1, ·) (Node.compiled_plain entry.2)
  simp only [draft, plain, Automaton.plain, nodes]

/-- Entries are refused for the sake of their keys. -/
theorem find?_plain (nodes : Table Node) :
    ((nodes.map Node.plain).entries.find? (·.2.isUnnamed)).map (·.1) =
      (nodes.entries.find? (·.2.isUnnamed)).map (·.1) := by
  have same : (fun entry : String × Node => entry.2.isUnnamed) ∘
      (fun entry : String × Node => (entry.1, entry.2.plain)) = fun entry => entry.2.isUnnamed := by
    funext entry
    exact Node.isUnnamed_plain entry.2
  simp only [Table.map, List.find?_map, Option.map_map, same]
  rfl

theorem refuse_map {α β ε : Type} (found : Option α) (f : α → β) (why : β → ε) :
    refuse (found.map f) why = refuse found (why ∘ f) := by
  cases found <;> rfl

/-- Compilation does not look at idle values. -/
theorem Pattern.check_plain (pattern : Pattern) (name : String) :
    pattern.plain.check name = (pattern.check name).map Automaton.plain := by
  have unnamed : refuse (pattern.plain.nodes.entries.find? (·.2.isUnnamed))
      (fun entry => Defect.missingReference entry.1) =
        refuse (pattern.nodes.entries.find? (·.2.isUnnamed))
          fun entry => Defect.missingReference entry.1 := by
    have found := find?_plain pattern.nodes
    have written (found : Option (String × Node)) :
        refuse found (fun entry => Defect.missingReference entry.1) =
          refuse (found.map (·.1)) Defect.missingReference := (refuse_map ..).symm
    rw [written, written]
    exact congrArg (refuse · _) found
  have arcs (start finish : String) : (pattern.draft name start finish).plain.arcs =
      (pattern.draft name start finish).arcs := rfl
  have edges : pattern.plain.edges = pattern.edges := rfl
  simp only [check, keysOf_plain, unnamed, keys_plain, draft_plain, arcs, edges]
  apply bind_map_congr
  intro start
  apply bind_map_congr
  intro finish
  -- the four refusals are the same on both sides
  iterate 4
    apply bind_map_congr
    intro _
  rfl

theorem Pattern.compile_plain (pattern : Pattern) (name : String) :
    pattern.plain.compile name = (pattern.compile name).map Automaton.plain := by
  rw [compile, compile, check_plain]
  cases pattern.check name <;> rfl

theorem Grammar.compile_plain (grammar : Grammar) :
    Grammar.compile grammar.plain = (Grammar.compile grammar).map (·.map Automaton.plain) := by
  change (grammar.entries.map fun entry => (entry.1, entry.2.plain)).mapM
      (fun entry : String × Pattern => entry.2.compile entry.1) =
    (grammar.entries.mapM fun entry : String × Pattern => entry.2.compile entry.1).map _
  induction grammar.entries with
  | nil => rfl
  | cons entry rest ih =>
    rw [List.map_cons, List.mapM_cons, List.mapM_cons, Pattern.compile_plain, ih]
    cases entry.2.compile entry.1 with
    | error error => rfl
    | ok automaton => cases rest.mapM fun entry => entry.2.compile entry.1 <;> rfl

end Compiling

theorem Automaton.references_plain (automaton : Automaton) :
    automaton.plain.references = automaton.references := by
  simp only [references, plain, Table.map, List.filterMap_map]
  apply List.filterMap_congr
  intro entry _
  exact congrArg (Option.map (entry.1, ·)) (Node.reference_plain entry.2)

namespace Network

section Reading

variable (network : Network)

theorem site_plain (node : Nat) :
    network.plain.sites[node]? = (network.sites[node]?).map Site.plain :=
  List.getElem?_map

@[simp] theorem members_plain : network.plain.members = network.members := rfl

@[simp] theorem links_plain : network.plain.links = network.links := rfl

@[simp] theorem size_plain : network.plain.sites.length = network.sites.length :=
  List.length_map _

theorem kindOf_plain : network.plain.kindOf = network.kindOf := by
  funext node
  rw [kindOf, kindOf, site_plain, Option.map_map]
  rfl

theorem closureFrom_plain : network.plain.closureFrom = network.closureFrom := by
  funext seeds
  rw [closureFrom, closureFrom, kindOf_plain]
  rfl

theorem closureAfter_plain : network.plain.closureAfter = network.closureAfter := by
  funext node
  rw [closureAfter, closureAfter, closureFrom_plain]
  rfl

theorem refTargets_plain : network.plain.refTargets = network.refTargets := rfl

theorem globalStart?_plain : network.plain.globalStart? = network.globalStart? := by
  rw [globalStart?, globalStart?, plain, List.findIdx?_map]
  rfl

theorem find?_plain (name key : String) : network.plain.find? name key = network.find? name key := by
  simp only [find?, plain, List.findIdx?_map]
  rfl

end Reading

section Building

variable (network : Network) (automaton : Automaton) (hub : Option Nat)

theorem siteOf_plain (owner : Nat) (key : String) (node : Node) :
    siteOf automaton.plain owner key node.plain = (siteOf automaton owner key node).plain := by
  unfold siteOf
  rw [Node.reference_plain]
  rfl

theorem sites_plain (owner : Nat) :
    (automaton.plain.nodes.entries.map fun (key, node) => siteOf automaton.plain owner key node) =
      (automaton.nodes.entries.map fun (key, node) => siteOf automaton owner key node).map
        Site.plain := by
  simp only [Automaton.plain, Table.map, List.map_map]
  exact List.map_congr_left fun entry _ => siteOf_plain automaton owner entry.1 entry.2

theorem join_plain :
    network.plain.join hub automaton.plain = (network.join hub automaton).plain := by
  have keys : automaton.plain.nodes.keys = automaton.nodes.keys := Table.keys_map ..
  have size : automaton.plain.nodes.size = automaton.nodes.size := List.length_map _
  have opening (sites : List Site) (links : List Link) (members : List Member) :
      closureFrom { sites := sites.map Site.plain, links, members } =
        closureFrom { sites, links, members } := closureFrom_plain { sites, links, members }
  have sites : network.plain.sites ++ (automaton.plain.nodes.entries.map fun (key, node) =>
        siteOf automaton.plain network.members.length key node) ++
          [patternSite automaton.plain network.members.length] =
      (network.sites ++ (automaton.nodes.entries.map fun (key, node) =>
        siteOf automaton network.members.length key node) ++
          [patternSite automaton network.members.length]).map Site.plain := by
    rw [sites_plain, List.map_append, List.map_append]
    rfl
  unfold join
  simp only [members_plain, links_plain, size_plain, keys, size, sites, opening]
  rfl

theorem embed_plain :
    network.plain.embed hub automaton.plain = (network.embed hub automaton).map Network.plain := by
  rw [embed, embed, join_plain]
  change (if network.has automaton.name then _ else _) = _
  cases network.has automaton.name <;> rfl

theorem withGlobalStart_plain : network.plain.withGlobalStart = network.withGlobalStart.plain := by
  rw [withGlobalStart, withGlobalStart, globalStart?_plain]
  cases network.globalStart? with
  | some hub => rfl
  | none => simp [plain, Site.plain]

theorem referenceLink_plain (key reference : String) :
    network.plain.referenceLink automaton.plain key reference =
      network.referenceLink automaton key reference := by
  unfold referenceLink
  rw [find?_plain]
  rfl

theorem linkReferences_plain : network.plain.linkReferences automaton.plain =
    (network.linkReferences automaton).map Network.plain := by
  unfold linkReferences
  simp only [Automaton.references_plain, referenceLink_plain]
  exact bind_map_congr fun links => rfl

theorem attach_plain (composing : Bool) : network.plain.attach automaton.plain composing =
    (network.attach automaton composing).map Network.plain := by
  have name : automaton.plain.name = automaton.name := rfl
  have has : network.plain.has = network.has := rfl
  unfold attach
  simp only [name, has, Automaton.references_plain, withGlobalStart_plain, globalStart?_plain,
    join_plain, linkReferences_plain]
  cases network.has automaton.name with
  | true => rfl
  | false =>
    cases composing with
    | false => rfl
    | true => exact bind_map_congr fun _ => rfl

end Building

section Assembling

theorem foldlM_map {α β σ τ ε : Type} {f : σ → τ} {g : α → β} {step : σ → α → Except ε σ}
    {other : τ → β → Except ε τ} (commutes : ∀ s item, other (f s) (g item) = (step s item).map f)
    (items : List α) (s : σ) :
    (items.map g).foldlM other (f s) = (items.foldlM step s).map f := by
  induction items generalizing s with
  | nil => rfl
  | cons item rest ih =>
    rw [List.map_cons, List.foldlM_cons, List.foldlM_cons, commutes]
    cases step s item with
    | error error => rfl
    | ok next => exact ih next

theorem compose_plain (automata : List Automaton) :
    compose (automata.map Automaton.plain) = (compose automata).map Network.plain := by
  have start : withGlobalStart {} = (withGlobalStart {}).plain := rfl
  have placed := foldlM_map (fun network automaton =>
    embed_plain network automaton (withGlobalStart {}).globalStart?) automata (withGlobalStart {})
  have linked (network : Network) := foldlM_map linkReferences_plain automata network
  unfold compose
  rw [← start] at placed
  simp only [placed]
  cases automata.foldlM (embed (withGlobalStart {}).globalStart?) (withGlobalStart {}) with
  | error error => rfl
  | ok network => exact linked network

theorem isolated_plain (automata : List Automaton) :
    isolated (automata.map Automaton.plain) = (isolated automata).map Network.plain :=
  foldlM_map (fun network automaton => embed_plain network automaton none) automata {}

theorem grammar_plain (grammar : Grammar) :
    Grammar.network grammar.plain = (Grammar.network grammar).map Network.plain := by
  unfold Grammar.network
  rw [Grammar.compile_plain]
  cases Grammar.compile grammar with
  | error error => rfl
  | ok automata => exact compose_plain automata

end Assembling

end Network

end Constructicon
