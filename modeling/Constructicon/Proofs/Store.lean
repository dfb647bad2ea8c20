import Constructicon.Store
import Constructicon.Proofs.Automaton
import Constructicon.Proofs.Library

/-! The store as a map. Three tables of rows stand for one map from names to patterns, whatever was
saved over what and deleted in between: the rows under a name are those of the pattern that was
saved last, or there are none. A library that is told the same gives the same answers. -/
namespace Constructicon

namespace Store

section Rows

variable {α ρ κ : Type} {owner : ρ → String} {rowsOf : Pattern → List ρ} {rows : List ρ}
  {held : Grammar}

/-- The rows under each name are those of the pattern that is held under it, or there are none. -/
def Rows (owner : ρ → String) (rowsOf : Pattern → List ρ) (rows : List ρ) (held : Grammar) : Prop :=
  ∀ name, rows.filter (owner · = name) = ((held.get? name).map rowsOf).getD []

theorem Rows.delete (stored : Rows owner rowsOf rows held) (name : String) :
    Rows owner rowsOf (rows.filter (owner · ≠ name)) (held.erase name) := by
  intro other
  rw [List.filter_filter]
  by_cases same : other = name
  · simp [same]
  · rw [Table.get?_erase_of_ne _ same, ← stored other]
    apply List.filter_congr
    intro row _
    by_cases mine : owner row = other
    · simp [mine, same]
    · simp [mine]

/-- What was held under a name is cleared before the name is written again, so none of its rows
is left. -/
theorem Rows.write (stored : Rows owner rowsOf rows held) {pattern : Pattern}
    (owned : ∀ row ∈ rowsOf pattern, owner row = pattern.name) :
    Rows owner rowsOf (rows.filter (owner · ≠ pattern.name) ++ rowsOf pattern)
      (held.insert pattern.name pattern) := by
  intro other
  rw [List.filter_append, stored.delete pattern.name other]
  by_cases same : other = pattern.name
  · have all : (rowsOf pattern).filter (owner · = other) = rowsOf pattern :=
      List.filter_eq_self.mpr fun row member => by simp [owned row member, same]
    rw [all, same]
    simp
  · have none : (rowsOf pattern).filter (owner · = other) = [] :=
      List.filter_eq_nil_iff.mpr fun row member => by simp [owned row member, Ne.symm same]
    rw [none, List.append_nil, Table.get?_erase_of_ne _ same, Table.get?_insert_of_ne _ _ same]

/-- Keys that are distinct among the rows under each name are distinct together with the name. -/
theorem pairwise_owned {key : ρ → κ}
    (apart : ∀ name, ((rows.filter (owner · = name)).map key).Nodup) :
    rows.Pairwise fun a b => (owner a, key a) ≠ (owner b, key b) := by
  induction rows with
  | nil => exact .nil
  | cons row rest ih =>
    refine List.pairwise_cons.mpr ⟨fun later member same => ?_, ih fun name => ?_⟩
    · have mine := apart (owner row)
      rw [List.filter_cons_of_pos (by simp), List.map_cons, List.nodup_cons] at mine
      obtain ⟨sameOwner, sameKey⟩ := Prod.mk.inj same
      have kept : later ∈ rest.filter (owner · = owner row) :=
        List.mem_filter.mpr ⟨member, by simp [sameOwner]⟩
      exact mine.1 (List.mem_map.mpr ⟨later, kept, sameKey.symm⟩)
    · exact (apart name).sublist (((List.sublist_cons_self row rest).filter _).map _)

theorem Rows.pairwise {key : ρ → κ} (stored : Rows owner rowsOf rows held)
    (distinct : ∀ pattern, ((rowsOf pattern).map key).Nodup) :
    rows.Pairwise fun a b => (owner a, key a) ≠ (owner b, key b) := by
  apply pairwise_owned
  intro name
  rw [stored name]
  cases held.get? name with
  | none => exact List.nodup_nil
  | some pattern => exact distinct pattern

theorem Rows.mem_keys (stored : Rows owner rowsOf rows held) {row : ρ} (member : row ∈ rows) :
    owner row ∈ held.keys := by
  have here : row ∈ rows.filter (owner · = owner row) := List.mem_filter.mpr ⟨member, by simp⟩
  rw [stored (owner row)] at here
  rw [← Table.contains_iff_mem_keys, Table.contains_eq_isSome]
  cases found : held.get? (owner row) with
  | none => simp [found] at here
  | some pattern => rfl

theorem ordinals_mapIdx {row : Nat → α → ρ} {ordinal : ρ → Nat}
    (same : ∀ i item, ordinal (row i item) = i) (items : List α) :
    (items.mapIdx row).map ordinal = List.range items.length := by
  apply List.ext_getElem
  · simp
  · simp [same]

/-- Rows that were numbered in their order are in the order of their numbers. -/
theorem mergeSort_mapIdx {row : Nat → α → ρ} {ordinal : ρ → Nat}
    (same : ∀ i item, ordinal (row i item) = i) (items : List α) :
    (items.mapIdx row).mergeSort (fun a b => ordinal a ≤ ordinal b) = items.mapIdx row := by
  apply List.mergeSort_of_pairwise
  have sorted : ((items.mapIdx row).map ordinal).Pairwise (· ≤ ·) := by
    rw [ordinals_mapIdx same]
    exact List.pairwise_le_range
  simpa using List.pairwise_map.mp sorted

theorem mapM_mapIdx {ε : Type} {row : Nat → α → ρ} {read : ρ → Except ε α}
    (back : ∀ i item, read (row i item) = .ok item) (items : List α) :
    (items.mapIdx row).mapM read = .ok items := by
  induction items generalizing row with
  | nil => rfl
  | cons item rest ih =>
    rw [List.mapIdx_cons, List.mapM_cons, back, ih fun i => back (i + 1)]
    rfl

end Rows

section Writing

variable {store : Store} {held : Grammar}

/-- The three tables stand for one map. -/
structure Represents (store : Store) (held : Grammar) : Prop where
  named : ∀ name pattern, held.get? name = some pattern → pattern.name = name
  names : store.names = held.map fun _ => ()
  nodes : Rows (·.pattern) nodeRows store.nodes held
  edges : Rows (·.pattern) edgeRows store.edges held

theorem represents_empty : empty.Represents .empty where
  named name pattern found := by cases found
  names := rfl
  nodes name := rfl
  edges name := rfl

theorem Represents.delete (represents : store.Represents held) (name : String) :
    (store.delete name).2.Represents (held.erase name) where
  named other pattern found := by
    by_cases same : other = name
    · simp [same] at found
    · rw [Table.get?_erase_of_ne _ same] at found
      exact represents.named other pattern found
  names := by
    rw [Table.map_erase, ← represents.names]
    rfl
  nodes := represents.nodes.delete name
  edges := represents.edges.delete name

theorem Represents.write (represents : store.Represents held) (pattern : Pattern) :
    (store.write pattern).Represents (held.insert pattern.name pattern) where
  named other found here := by
    by_cases same : other = pattern.name
    · rw [same, Table.get?_insert_self] at here
      rw [← Option.some.inj here, same]
    · rw [Table.get?_insert_of_ne _ _ same] at here
      exact represents.named other found here
  names := by
    rw [Table.map_insert, ← represents.names]
    exact Table.insert_erase store.names pattern.name ()
  nodes := represents.nodes.write fun row member => by
    obtain ⟨_, _, rfl⟩ := List.mem_mapIdx.mp member
    rfl
  edges := represents.edges.write fun row member => by
    obtain ⟨_, _, rfl⟩ := List.mem_mapIdx.mp member
    rfl

theorem Represents.writeAll {library : Library} (represents : store.Represents library.patterns)
    (patterns : List Pattern) : (patterns.foldl Store.write store).Represents
      (patterns.foldl Library.insert library).patterns := by
  induction patterns generalizing store library with
  | nil => exact represents
  | cons pattern rest ih => exact ih (represents.write pattern)

end Writing

section Loading

variable {store : Store} {held : Grammar}

theorem nodeOfRow_nodeRow (name : String) (ordinal : Nat) (entry : String × Node) :
    nodeOfRow { pattern := name, ordinal, key := entry.1, kind := Document.kindLabel entry.2.kind
                elementType := entry.2.elementType, elementValue := entry.2.elementValue } =
      .ok entry := by
  simp [nodeOfRow]

theorem Represents.load (represents : store.Represents held) (name : String) :
    store.load name = .ok (held.get? name) := by
  unfold Store.load
  rw [represents.names, represents.nodes name, represents.edges name, Table.contains_eq_isSome,
    Table.get?_map]
  cases found : held.get? name with
  | none => rfl
  | some pattern =>
    have nodes : (nodeRows pattern).mapM nodeOfRow = .ok pattern.nodes.entries :=
      mapM_mapIdx (nodeOfRow_nodeRow pattern.name) pattern.nodes.entries
    have edges : (edgeRows pattern).map (fun row =>
        { source := row.source, target := row.target, bypass := row.bypass : Edge String }) =
          pattern.edges := by
      ext i edge
      simp [edgeRows]
    have nodeOrder : (nodeRows pattern).mergeSort (fun a b => a.ordinal ≤ b.ordinal) =
        nodeRows pattern := mergeSort_mapIdx (fun _ _ => rfl) _
    have edgeOrder : (edgeRows pattern).mergeSort (fun a b => a.ordinal ≤ b.ordinal) =
        edgeRows pattern := mergeSort_mapIdx (fun _ _ => rfl) _
    have same : pattern.name = name := represents.named name pattern found
    simp only [Option.map_some, Option.isSome_some, if_true, Option.getD_some, nodeOrder, edgeOrder,
      nodes, edges]
    subst same
    change Except.ok (some _) = _
    rw [Table.ofList_entries]

/-- The declared keys of the tables: no row is refused by them. -/
structure Keyed (store : Store) : Prop where
  nodeKeys : store.nodes.Pairwise fun a b => (a.pattern, a.key) ≠ (b.pattern, b.key)
  edgePlaces : store.edges.Pairwise fun a b => (a.pattern, a.ordinal) ≠ (b.pattern, b.ordinal)
  nodeOwners : ∀ row ∈ store.nodes, row.pattern ∈ store.names.keys
  edgeOwners : ∀ row ∈ store.edges, row.pattern ∈ store.names.keys

theorem Represents.keyed (represents : store.Represents held) : store.Keyed where
  nodeKeys := represents.nodes.pairwise fun pattern => by
    have keys : (nodeRows pattern).map (·.key) = pattern.nodes.keys := by
      ext i key
      simp [nodeRows, Table.keys]
    rw [keys]
    exact pattern.nodes.nodup_keys
  edgePlaces := represents.edges.pairwise fun pattern => by
    have ordinals : (edgeRows pattern).map (·.ordinal) = List.range pattern.edges.length :=
      ordinals_mapIdx (fun _ _ => rfl) _
    rw [ordinals]
    exact List.nodup_range
  nodeOwners row member := by
    rw [represents.names, Table.keys_map]
    exact represents.nodes.mem_keys member
  edgeOwners row member := by
    rw [represents.names, Table.keys_map]
    exact represents.edges.mem_keys member

end Loading

section Reading

variable {store : Store} {held : Grammar} {library : Library}

/-- What is read from the store, in terms of a library of the patterns it holds. -/
structure Shows (store : Store) (library : Library) : Prop where
  names : store.patternNames = library.patterns.keys
  sorted : store.patternNames.Pairwise (· < ·)
  load : ∀ name, store.load name = .ok (library.patterns.get? name)
  all : store.loadAll = .ok library.patterns
  part : ∀ names, (∀ name ∈ names, name ∈ library.patterns.keys) → ∃ part,
    store.loadByNames names = .ok part ∧
      ∀ name, part.get? name = if name ∈ names then library.patterns.get? name else none
  missing : ∀ before name after, (∀ known ∈ before, known ∈ library.patterns.keys) →
    name ∉ library.patterns.keys →
      store.loadByNames (before ++ name :: after) = .error (.notFound name)
  agrees : ∀ names, store.loadByNames names =
    (library.loadByNames names).mapError fun missing => .notFound missing.name

theorem Represents.names_keys (represents : store.Represents library.patterns) :
    store.patternNames = library.patterns.keys := by
  rw [patternNames, represents.names, Table.keys_map]

/-- Name by name the store loads what the library loads. -/
theorem Represents.loadByNames (represents : store.Represents library.patterns)
    (names : List String) : store.loadByNames names =
      (library.loadByNames names).mapError fun missing => .notFound missing.name := by
  rw [Library.loadByNames, ← selectNames_mapError]
  unfold Store.loadByNames
  congr 1
  funext name
  rw [represents.load, Library.load]
  cases library.patterns.get? name <;> rfl

theorem Represents.shows (represents : store.Represents library.patterns) :
    store.Shows library where
  names := represents.names_keys
  sorted := List.pairwise_map.mpr store.names.ascending
  load := represents.load
  all := by
    rw [loadAll, represents.names_keys, represents.loadByNames, Library.loadByNames_all]
    rfl
  part names known := by
    obtain ⟨part, loaded, same⟩ := Library.loadByNames_known known
    exact ⟨part, by rw [represents.loadByNames, loaded]; rfl, same⟩
  missing before name after known absent := by
    rw [represents.loadByNames, Library.loadByNames_missing known absent]
    rfl
  agrees := represents.loadByNames

end Reading

section Calling

inductive Call where
  | save (pattern : Pattern)
  | saveAll (grammar : Grammar)
  | importText (text : String)
  | delete (name : String)

/-- Where several patterns are saved, it is told how many; a deletion tells whether there was
anything to delete. -/
inductive Answer where
  | saved (result : Except StoreError Unit)
  | savedAll (result : Except StoreError Nat)
  | deleted (present : Bool)

def Answer.refused : Answer → Bool
  | .saved result => !result.isOk
  | .savedAll result => !result.isOk
  | .deleted _ => false

/-- A call that fails leaves everything as it was. -/
def attempt {α σ : Type} (state : σ) : Except StoreError (α × σ) → Except StoreError α × σ
  | .ok (value, after) => (.ok value, after)
  | .error error => (.error error, state)

def call (store : Store) : Call → Answer × Store
  | .save pattern => (attempt store ((store.save pattern).map ((), ·))).map .saved id
  | .saveAll grammar => (attempt store (store.saveAll grammar)).map .savedAll id
  | .importText text => (attempt store (store.importText text)).map .savedAll id
  | .delete name => (store.delete name).map .deleted id

def run (store : Store) : List Call → List Answer × Store
  | [] => ([], store)
  | call :: rest =>
    let (answer, after) := store.call call
    let (answers, final) := after.run rest
    (answer :: answers, final)

end Calling

end Store

namespace Library

def saveAll (library : Library) (grammar : Grammar) : Except StoreError (Nat × Library) := do
  let _ ← grammar.compile.mapError .grammar
  return (grammar.size, grammar.values.foldl insert library)

/-- A library that is called like a store: it is given what compiles and forgets what is deleted. -/
def call (library : Library) : Store.Call → Store.Answer × Library
  | .save pattern => (Store.attempt library do
      let _ ← (pattern.compile pattern.name).mapError .grammar
      return ((), library.insert pattern)).map .saved id
  | .saveAll grammar => (Store.attempt library (library.saveAll grammar)).map .savedAll id
  | .importText text => (Store.attempt library do
      library.saveAll (← (Document.importGrammar text).mapError .badDocument)).map .savedAll id
  | .delete name => (.deleted (library.patterns.contains name), ⟨library.patterns.erase name⟩)

def run (library : Library) : List Store.Call → List Store.Answer × Library
  | [] => ([], library)
  | call :: rest =>
    let (answer, after) := library.call call
    let (answers, final) := after.run rest
    (answer :: answers, final)

end Library

namespace Store

section Refining

variable {store : Store} {library : Library}

theorem save_compiled {pattern : Pattern} (compiles : (pattern.compile pattern.name).isOk = true) :
    store.save pattern = .ok (store.write pattern) := by
  unfold save
  cases compiled : pattern.compile pattern.name with
  | error error =>
    rw [compiled] at compiles
    cases compiles
  | ok automaton => rfl

theorem save_isOk (store : Store) (pattern : Pattern) :
    (store.save pattern).isOk = (pattern.compile pattern.name).isOk := by
  unfold save
  cases pattern.compile pattern.name <;> rfl

theorem saveAll_isOk (store : Store) (grammar : Grammar) :
    (store.saveAll grammar).isOk = grammar.compile.isOk := by
  unfold saveAll
  cases grammar.compile <;> rfl

theorem saveAll_success {grammar : Grammar} {count : Nat} {after : Store}
    (saved : store.saveAll grammar = .ok (count, after)) :
    count = grammar.size ∧ after = grammar.values.foldl write store := by
  obtain ⟨_, _, saved⟩ := bind_success saved
  cases saved
  exact ⟨rfl, rfl⟩

theorem foldlM_save {patterns : List Pattern}
    (compile : ∀ pattern ∈ patterns, (pattern.compile pattern.name).isOk = true) :
    patterns.foldlM save store = .ok (patterns.foldl write store) := by
  induction patterns generalizing store with
  | nil => rfl
  | cons pattern rest ih =>
    rw [List.foldlM_cons, save_compiled (compile pattern List.mem_cons_self)]
    exact ih fun later member => compile later (List.mem_cons_of_mem _ member)

theorem Represents.saveAll (represents : store.Represents library.patterns) (grammar : Grammar) :
    (attempt store (store.saveAll grammar)).1 = (attempt library (library.saveAll grammar)).1 ∧
      (attempt store (store.saveAll grammar)).2.Represents
        (attempt library (library.saveAll grammar)).2.patterns := by
  unfold Store.saveAll Library.saveAll
  cases grammar.compile with
  | error error => exact ⟨rfl, represents⟩
  | ok automata => exact ⟨rfl, represents.writeAll grammar.values⟩

theorem Represents.call (represents : store.Represents library.patterns) (call : Call) :
    (store.call call).1 = (library.call call).1 ∧
      (store.call call).2.Represents (library.call call).2.patterns := by
  cases call with
  | save pattern =>
    simp only [Store.call, Library.call, save]
    cases pattern.compile pattern.name with
    | error error => exact ⟨rfl, represents⟩
    | ok automaton => exact ⟨rfl, represents.write pattern⟩
  | saveAll grammar =>
    obtain ⟨same, after⟩ := represents.saveAll grammar
    exact ⟨congrArg Answer.savedAll same, after⟩
  | importText text =>
    simp only [Store.call, Library.call, importText]
    cases Document.importGrammar text with
    | error refusal => exact ⟨rfl, represents⟩
    | ok grammar =>
      obtain ⟨same, after⟩ := represents.saveAll grammar
      exact ⟨congrArg Answer.savedAll same, after⟩
  | delete name =>
    refine ⟨congrArg Answer.deleted ?_, represents.delete name⟩
    rw [represents.names, Table.contains_eq_isSome, Table.contains_eq_isSome, Table.get?_map,
      Option.isSome_map]

theorem Represents.run (represents : store.Represents library.patterns) (calls : List Call) :
    (store.run calls).1 = (library.run calls).1 ∧
      (store.run calls).2.Represents (library.run calls).2.patterns := by
  induction calls generalizing store library with
  | nil => exact ⟨rfl, represents⟩
  | cons call rest ih =>
    obtain ⟨same, after⟩ := represents.call call
    obtain ⟨others, final⟩ := ih after
    refine ⟨?_, final⟩
    change (store.call call).1 :: ((store.call call).2.run rest).1 =
      (library.call call).1 :: ((library.call call).2.run rest).1
    rw [same, others]

theorem attempt_refused {α σ : Type} {state : σ} {result : Except StoreError (α × σ)}
    (refused : (attempt state result).1.isOk = false) : (attempt state result).2 = state := by
  cases result with
  | error error => rfl
  | ok after => cases refused

theorem call_refused {call : Call} (refused : (store.call call).1.refused = true) :
    (store.call call).2 = store := by
  cases call with
  | save pattern => exact attempt_refused (by simpa [Store.call, Answer.refused] using refused)
  | saveAll grammar => exact attempt_refused (by simpa [Store.call, Answer.refused] using refused)
  | importText text => exact attempt_refused (by simpa [Store.call, Answer.refused] using refused)
  | delete name => cases refused

/-- What the next call does. -/
structure Obeys (store : Store) : Prop where
  refused : ∀ call, (store.call call).1.refused = true → (store.call call).2 = store
  save : ∀ pattern,
    ((store.save pattern).isOk = true ↔ (pattern.compile pattern.name).isOk = true) ∧
    ∀ after, store.save pattern = .ok after → after.load pattern.name = .ok (some pattern) ∧
      ∀ other, other ≠ pattern.name → after.load other = store.load other
  saveAll : ∀ grammar, ((store.saveAll grammar).isOk = true ↔
      ∀ entry ∈ grammar.entries, (entry.2.compile entry.1).isOk = true) ∧
    ∀ count after, store.saveAll grammar = .ok (count, after) →
      count = grammar.size ∧ grammar.values.foldlM Store.save store = .ok after
  delete : ∀ name,
    ((store.delete name).1 = true ↔ ∃ pattern, store.load name = .ok (some pattern)) ∧
    (store.delete name).2.load name = .ok none ∧
    ∀ other, other ≠ name → (store.delete name).2.load other = store.load other

theorem Represents.obeys {held : Grammar} (represents : store.Represents held) : store.Obeys where
  refused call refused := call_refused refused
  save pattern := by
    refine ⟨by rw [save_isOk], fun after saved => ?_⟩
    have compiles : (pattern.compile pattern.name).isOk = true := by
      rw [← save_isOk store, saved]
      rfl
    cases (save_compiled compiles).symm.trans saved
    have written := represents.write pattern
    refine ⟨by rw [written.load, Table.get?_insert_self], fun other differ => ?_⟩
    rw [written.load, represents.load, Table.get?_insert_of_ne _ _ differ]
  saveAll grammar := by
    refine ⟨by rw [saveAll_isOk, Grammar.compile_isOk], fun count after saved => ?_⟩
    have compile : grammar.compile.isOk = true := by
      rw [← saveAll_isOk store, saved]
      rfl
    obtain ⟨count, rfl⟩ := saveAll_success saved
    refine ⟨count, foldlM_save fun pattern member => ?_⟩
    obtain ⟨entry, present, rfl⟩ := List.mem_map.mp member
    rw [entry.2.compile_isOk entry.2.name entry.1]
    exact grammar.compile_isOk.mp compile entry present
  delete name := by
    have deleted := represents.delete name
    refine ⟨?_, by rw [deleted.load, Table.get?_erase_self], fun other differ => ?_⟩
    · change store.names.contains name = true ↔ _
      rw [represents.names, Table.contains_eq_isSome, Table.get?_map, Option.isSome_map,
        Option.isSome_iff_exists, represents.load]
      simp only [Except.ok.injEq]
    · rw [deleted.load, represents.load, Table.get?_erase_of_ne _ differ]

/-- Whatever a store was called for, it has answered like a library and holds what the library
holds; none of its rows is refused by a key. -/
theorem follows_library (calls : List Call) :
    (empty.run calls).1 = (Library.run (.ofPatterns []) calls).1 ∧
      (empty.run calls).2.Shows (Library.run (.ofPatterns []) calls).2 ∧
      (empty.run calls).2.Keyed ∧ (empty.run calls).2.Obeys := by
  have start : empty.Represents (Library.ofPatterns []).patterns := represents_empty
  obtain ⟨answers, represents⟩ := start.run calls
  exact ⟨answers, represents.shows, represents.keyed, represents.obeys⟩

end Refining

end Store

end Constructicon
