import Constructicon.Proofs.Document
import Constructicon.Proofs.Store

/-! Moving a store. All that a store holds compiles, since every way into it asks for that first,
and it is filed under its own name whatever key it was saved by. So the text that a store is
exported as is never refused: a new store reads it back in full, and a store that holds something
already keeps what the text does not name. -/
namespace Constructicon

namespace Grammar

/-- Every pattern compiles, by whatever name it is called. -/
def Compiles (grammar : Grammar) : Prop :=
  ∀ key pattern, grammar.get? key = some pattern → ∀ name, (pattern.compile name).isOk = true

variable {grammar : Grammar}

theorem compiles_empty : Compiles .empty := by
  intro key pattern found
  cases found

theorem compiles_iff : grammar.Compiles ↔ grammar.compile.isOk = true := by
  rw [compile_isOk]
  constructor
  · intro compiles entry member
    exact compiles entry.1 entry.2 (Table.get?_eq_some_iff.mpr member) entry.1
  · intro compiles key pattern found name
    rw [pattern.compile_isOk name key]
    exact compiles (key, pattern) (Table.get?_eq_some_iff.mp found)

theorem Compiles.insert (compiles : grammar.Compiles) {pattern : Pattern} {name : String}
    (ready : (pattern.compile name).isOk = true) (key : String) :
    Grammar.Compiles (Table.insert grammar key pattern) := by
  intro other here found again
  by_cases same : other = key
  · subst same
    rw [Table.get?_insert_self] at found
    cases found
    rw [pattern.compile_isOk again name]
    exact ready
  · rw [Table.get?_insert_of_ne _ _ same] at found
    exact compiles other here found again

theorem Compiles.erase (compiles : grammar.Compiles) (key : String) :
    Grammar.Compiles (Table.erase grammar key) := by
  intro other here found
  by_cases same : other = key
  · rw [same, Table.get?_erase_self] at found
    cases found
  · rw [Table.get?_erase_of_ne _ same] at found
    exact compiles other here found

end Grammar

namespace Library

variable {library : Library}

theorem compiles_insertAll {patterns : List Pattern} (compiles : library.patterns.Compiles)
    (ready : ∀ pattern ∈ patterns, (pattern.compile pattern.name).isOk = true) :
    (patterns.foldl insert library).patterns.Compiles := by
  induction patterns generalizing library with
  | nil => exact compiles
  | cons pattern rest ih =>
    obtain ⟨here, later⟩ := List.forall_mem_cons.mp ready
    exact ih (compiles.insert here pattern.name) later

/-- The keys under which a batch is checked may differ from the names under which it is filed. -/
theorem compiles_saveAll (compiles : library.patterns.Compiles) (grammar : Grammar) :
    (Store.attempt library (library.saveAll grammar)).2.patterns.Compiles := by
  unfold Library.saveAll
  cases compiled : grammar.compile with
  | error error => exact compiles
  | ok automata =>
    have ready : grammar.Compiles := Grammar.compiles_iff.mpr (by rw [compiled]; rfl)
    apply compiles_insertAll compiles
    intro pattern member
    obtain ⟨entry, present, rfl⟩ := List.mem_map.mp member
    exact ready entry.1 entry.2 (Table.get?_eq_some_iff.mpr present) entry.2.name

theorem compiles_call (compiles : library.patterns.Compiles) (call : Store.Call) :
    (library.call call).2.patterns.Compiles := by
  cases call with
  | save pattern =>
    simp only [Library.call]
    cases compiled : pattern.compile pattern.name with
    | error error => exact compiles
    | ok automaton => exact compiles.insert (by rw [compiled]; rfl) pattern.name
  | saveAll grammar => exact compiles_saveAll compiles grammar
  | importText text =>
    simp only [Library.call]
    cases Document.importGrammar text with
    | error refusal => exact compiles
    | ok grammar => exact compiles_saveAll compiles grammar
  | delete name => exact compiles.erase name

/-- Patterns that are filed under their own names override what a library has under these names. -/
theorem get?_insertAll {held : Grammar} (named : held.Named) (library : Library) (name : String) :
    (held.values.foldl insert library).patterns.get? name =
      (held.get? name).or (library.patterns.get? name) := by
  have pairs : (held.values.foldl insert library).patterns =
      library.patterns.insertAll (held.values.map fun pattern => (pattern.name, pattern)) := by
    rw [Table.insertAll, List.foldl_map]
    exact (List.foldl_hom patterns fun _ _ => rfl).symm
  have entries : held.values.map (fun pattern => (pattern.name, pattern)) = held.entries := by
    rw [Table.values, List.map_map]
    refine (List.map_congr_left fun entry member => ?_).trans (List.map_id _)
    simp [named entry member]
  have agree : ∀ entry ∈ held.entries, held.get? entry.1 = some entry.2 :=
    fun entry member => Table.get?_eq_some_iff.mpr member
  rw [pairs, entries, Table.get?_insertAll_agree agree]
  change (if name ∈ held.keys then held.get? name else _) = _
  split
  · rename_i known
    obtain ⟨pattern, found⟩ := Table.get?_of_mem_keys known
    rw [found, Option.some_or]
  · rename_i unknown
    rw [Table.get?_eq_none unknown, Option.none_or]

end Library

namespace Store

variable {store : Store}

/-- What a new store can become through calls and notes, none of its rows being touched
otherwise. -/
inductive Reached : Store → Prop where
  | empty : Reached Store.empty
  | called {store : Store} (reached : Reached store) (call : Call) : Reached (store.call call).2
  | noted {store : Store} (reached : Reached store) (key value : String) :
      Reached (store.setMetadata key value)

theorem Represents.noted {held : Grammar} (represents : store.Represents held)
    (key value : String) : (store.setMetadata key value).Represents held where
  named := represents.named
  names := represents.names
  nodes := represents.nodes
  edges := represents.edges

theorem Represents.filed {held : Grammar} (represents : store.Represents held) : held.Named :=
  fun entry member => represents.named entry.1 entry.2 (Table.get?_eq_some_iff.mpr member)

theorem Reached.library (reached : store.Reached) :
    ∃ library : Library, store.Represents library.patterns ∧ library.patterns.Compiles := by
  induction reached with
  | empty => exact ⟨⟨.empty⟩, represents_empty, Grammar.compiles_empty⟩
  | called reached call ih =>
    obtain ⟨library, represents, compiles⟩ := ih
    exact ⟨(library.call call).2, (represents.call call).2, Library.compiles_call compiles call⟩
  | noted reached key value ih =>
    obtain ⟨library, represents, compiles⟩ := ih
    exact ⟨library, represents.noted key value, compiles⟩

theorem Reached.run (reached : store.Reached) (calls : List Call) :
    (store.run calls).2.Reached := by
  induction calls generalizing store with
  | nil => exact reached
  | cons call rest ih => exact ih (reached.called call)

/-- Whatever can be saved in a store can be sent to another one as text. -/
theorem importText_export {held : Grammar} (named : held.Named) (compiles : held.Compiles)
    (store : Store) : store.importText (Document.exportGrammar held) =
      .ok (held.size, held.values.foldl write store) := by
  have compiled : held.compile.isOk = true := Grammar.compiles_iff.mp compiles
  unfold importText saveAll
  rw [Document.import_of_named named]
  cases result : held.compile with
  | error error =>
    rw [result] at compiled
    cases compiled
  | ok automata =>
    change (Except.mapError StoreError.grammar held.compile).bind _ = _
    rw [result]
    rfl

theorem Represents.loadAll {library : Library} (represents : store.Represents library.patterns) :
    store.loadAll = .ok library.patterns :=
  represents.shows.all

/-- What a store holds overrides what the store holds that it is imported into. -/
theorem Represents.overridden {held : Grammar} {library : Library} (named : held.Named)
    (represents : store.Represents library.patterns) : ∃ merged,
      (held.values.foldl Store.write store).loadAll = .ok merged ∧
        ∀ name, merged.get? name = (held.get? name).or (library.patterns.get? name) :=
  ⟨_, (represents.writeAll held.values).loadAll, Library.get?_insertAll named library⟩

/-- Every store that was only called compiles in full and can be moved: its text is read by a new
store as what it holds, and by any other as what overrides the patterns there. -/
theorem Reached.migrates (reached : store.Reached) :
    (∀ name ∈ store.patternNames, ∃ pattern, store.load name = .ok (some pattern) ∧
      ∀ other, (pattern.compile other).isOk = true) ∧
    ∃ held text, store.loadAll = .ok held ∧ store.exportText = .ok text ∧
      (∃ copy, Store.empty.importText text = .ok (store.patternNames.length, copy) ∧
        copy.loadAll = .ok held) ∧
      ∀ other : Store, other.Reached → ∃ theirs after merged, other.loadAll = .ok theirs ∧
        other.importText text = .ok (store.patternNames.length, after) ∧
        after.loadAll = .ok merged ∧
        ∀ name, merged.get? name = (held.get? name).or (theirs.get? name) := by
  obtain ⟨library, represents, compiles⟩ := reached.library
  have named : library.patterns.Named := represents.filed
  have count : store.patternNames.length = library.patterns.size := by
    rw [represents.names_keys, Table.keys, List.length_map, Table.size]
  constructor
  · intro name known
    rw [represents.names_keys] at known
    obtain ⟨pattern, found⟩ := Table.get?_of_mem_keys known
    exact ⟨pattern, by rw [represents.load, found], compiles name pattern found⟩
  · have exported : store.exportText = .ok (Document.exportGrammar library.patterns) := by
      unfold exportText
      rw [represents.loadAll]
      rfl
    refine ⟨library.patterns, _, represents.loadAll, exported, ?_, ?_⟩
    · have blank : Store.empty.Represents (Library.mk .empty).patterns := represents_empty
      obtain ⟨merged, loaded, same⟩ := blank.overridden named
      refine ⟨_, by rw [count, importText_export named compiles], ?_⟩
      rw [loaded, Table.ext_get? fun name => (same name).trans (Option.or_none)]
    · intro other reachable
      obtain ⟨theirs, shown, _⟩ := reachable.library
      obtain ⟨merged, loaded, same⟩ := shown.overridden named
      exact ⟨_, _, merged, shown.loadAll, by rw [count, importText_export named compiles], loaded,
        same⟩

def entrance : Pattern := Pattern.sequence "door" ["OPEN", "CLOSE"]

def bell : Pattern := Pattern.sequence "bell" ["RING", "@door"]

def houseCalls : List Call :=
  [.saveAll (Table.ofList [("gate", entrance), ("bell", bell)]), .delete "bell"]

/-- The door was saved by another key than its name and the bell is gone again. -/
def house : Store := (empty.run houseCalls).2.setMetadata "built" "1900"

def shedCalls : List Call := [.save (Pattern.sequence "door" ["OPEN"]), .save bell]

def shed : Store := (empty.run shedCalls).2

theorem migrates_house : house.Reached ∧ shed.Reached ∧
    house.loadAll = .ok (Table.ofList [("door", entrance)]) ∧
    shed.loadAll =
      .ok (Table.ofList [("bell", bell), ("door", Pattern.sequence "door" ["OPEN"])]) ∧
    (entrance.compile "hatch").isOk = true ∧
    ∃ text after merged, house.exportText = .ok text ∧ shed.importText text = .ok (1, after) ∧
      after.loadAll = .ok merged ∧ merged.get? "door" = some entrance ∧
      merged.get? "bell" = some bell := by
  have ours : house.Reached := (Reached.empty.run houseCalls).noted "built" "1900"
  have theirs : shed.Reached := Reached.empty.run shedCalls
  have blank : empty.Represents (Library.mk .empty).patterns := represents_empty
  have inHouse : ((Library.mk .empty).run houseCalls).2.patterns =
      Table.ofList [("door", entrance)] := by decide +kernel
  have inShed : ((Library.mk .empty).run shedCalls).2.patterns =
      Table.ofList [("bell", bell), ("door", Pattern.sequence "door" ["OPEN"])] := by
    decide +kernel
  have shown := (blank.run houseCalls).2.noted "built" "1900"
  have here := shown.loadAll.trans (congrArg Except.ok inHouse)
  have there := (blank.run shedCalls).2.loadAll.trans (congrArg Except.ok inShed)
  have names : house.patternNames = ["door"] := by decide +kernel
  obtain ⟨compile, held, text, loaded, exported, _, onto⟩ := ours.migrates
  obtain ⟨other, after, merged, known, accepted, merges, same⟩ := onto shed theirs
  cases loaded.symm.trans here
  cases known.symm.trans there
  obtain ⟨pattern, found, compiles⟩ := compile "door" (by simp [names])
  have door : house.load "door" = .ok (some entrance) := by
    refine (shown.load "door").trans (congrArg Except.ok ?_)
    rw [inHouse]
    decide +kernel
  cases found.symm.trans door
  refine ⟨ours, theirs, here, there, compiles "hatch", text, after, merged, exported, ?_, merges,
    ?_, ?_⟩
  · rw [accepted, names]
    rfl
  · rw [same]
    decide +kernel
  · rw [same]
    decide +kernel

end Store

end Constructicon
