import Constructicon.Proofs.Document
import Constructicon.Proofs.Table

/-! The two forms of a grammar document. Lists stand for records too, so a list may be a document by
itself or a version with the patterns; but a version is a text and a pattern is not, so no document
has both forms. A list of patterns is read alike by itself and under whatever wraps it, and of two
patterns with one name the later counts. -/
namespace Constructicon

namespace Grammar

theorem get?_ofPatterns (patterns : List Pattern) (name : String) :
    (ofPatterns patterns).get? name = patterns.reverse.find? (·.name == name) := by
  have last := Table.get?_insertAll_last
    (patterns.map fun pattern => (pattern.name, pattern)) .empty name
  rw [ofPatterns, Table.ofList, last, Table.get?_empty, Option.or_none, ← List.map_reverse,
    List.find?_map, Option.map_map]
  exact Option.map_id_apply

/-- A name looks up the last pattern that bears it. -/
theorem get?_ofPatterns_eq_some {patterns : List Pattern} {name : String} {pattern : Pattern} :
    (ofPatterns patterns).get? name = some pattern ↔
      ∃ before after, patterns = before ++ pattern :: after ∧ pattern.name = name ∧
        ∀ later ∈ after, later.name ≠ name := by
  rw [get?_ofPatterns, List.find?_eq_some_iff_append]
  constructor
  · rintro ⟨named, before, after, split, others⟩
    refine ⟨after.reverse, before.reverse, ?_, eq_of_beq named, fun later member => ?_⟩
    · simpa using congrArg List.reverse split
    · simpa using others later (List.mem_reverse.mp member)
  · rintro ⟨before, after, rfl, named, others⟩
    refine ⟨beq_iff_eq.mpr named, after.reverse, before.reverse, by simp, fun later member => ?_⟩
    simpa using others later (List.mem_reverse.mp member)

theorem mem_keys_ofPatterns {patterns : List Pattern} {name : String} :
    name ∈ (ofPatterns patterns).keys ↔ ∃ pattern ∈ patterns, pattern.name = name := by
  rw [← Table.contains_iff_mem_keys, Table.contains_eq_isSome, get?_ofPatterns,
    List.find?_isSome]
  simp

end Grammar

namespace Document

/-- What a document wraps: the value of its one field `patterns`, beside one version at most, which
is a text, and any other fields; or what follows the version in a list of the two. -/
inductive Wraps : Json → Json → Prop where
  | named {fields : List (String × Json)} {inner : Json}
      (version : fields.filter (·.1 = "version") = [] ∨
        ∃ text, fields.filter (·.1 = "version") = [("version", .string text)])
      (patterns : fields.filter (·.1 = "patterns") = [("patterns", inner)]) :
      Wraps (.object fields) inner
  | listed (text : String) (inner : Json) : Wraps (.array [.string text, inner]) inner

theorem field?_eq_some {fields : List (String × Json)} {name : String} {value : Option Json} :
    field? fields name = some value ↔
      fields.filter (·.1 = name) = (value.map (name, ·)).toList := by
  unfold field?
  have named : ∀ entry ∈ fields.filter (·.1 = name), entry.1 = name := fun entry member =>
    of_decide_eq_true (List.mem_filter.mp member).2
  split
  · rename_i none
    rw [none]
    cases value <;> simp
  · rename_i key only one
    have same : key = name := named _ (one ▸ List.mem_singleton_self _)
    rw [one, same]
    cases value <;> simp [eq_comm]
  · rename_i several lone
    refine iff_of_false nofun fun same => ?_
    cases value with
    | none => exact several same
    | some value => exact lone name value same

theorem text?_isSome {json : Json} : (text? json).isSome = true ↔ ∃ text, json = .string text := by
  cases json <;> simp [text?]

theorem mapM_eq_some_iff {α β : Type} {read : α → Option β} {items : List α} {results : List β} :
    items.mapM read = some results ↔ items.map read = results.map some := by
  induction items generalizing results with
  | nil => cases results <;> simp
  | cons item rest ih =>
    rw [List.mapM_cons, List.map_cons]
    cases results with
    | nil => cases read item <;> cases rest.mapM read <;> simp
    | cons result results =>
      rw [List.map_cons, List.cons.injEq, ← ih]
      cases read item <;> cases rest.mapM read <;> simp

theorem bare?_array {items : List Json} {patterns : List Pattern} :
    bare? (.array items) = some patterns ↔ items.map pattern? = patterns.map some :=
  mapM_eq_some_iff

/-- Of the two fields the first may be missing. -/
theorem record?_two {first second : String} {json inner : Json} {before : Option Json} :
    record? [first, second] json = some [before, some inner] ↔
      (∃ fields, json = .object fields ∧ field? fields first = some before ∧
        field? fields second = some (some inner)) ∨
      ∃ item, json = .array [item, inner] ∧ before = some item := by
  match json with
  | .object fields =>
    rw [record?, mapM_eq_some_iff]
    simp
  | .array [] => simp [record?]
  | .array [item] => simp [record?]
  | .array [item, other] => simp [record?, eq_comm, and_comm]
  | .array (_ :: _ :: _ :: _) => simp [record?]
  | .null | .bool _ | .number _ | .string _ => simp [record?]

/-- A document has the wrapped form just if it wraps a document of the bare form. -/
theorem wrapped?_eq_some {json : Json} {patterns : List Pattern} :
    wrapped? json = some patterns ↔ ∃ inner, Wraps json inner ∧ bare? inner = some patterns := by
  constructor
  · intro read
    unfold wrapped? at read
    split at read
    · rename_i version inner records
      split at read
      · rename_i versioned
        refine ⟨inner, ?_, read⟩
        rcases record?_two.mp records with ⟨fields, rfl, first, second⟩ | ⟨item, rfl, rfl⟩
        · refine .named ?_ (field?_eq_some.mp second)
          cases version with
          | none => exact .inl (field?_eq_some.mp first)
          | some json =>
            obtain ⟨text, rfl⟩ := text?_isSome.mp versioned
            exact .inr ⟨text, field?_eq_some.mp first⟩
        · obtain ⟨text, rfl⟩ := text?_isSome.mp versioned
          exact .listed text inner
      · cases read
    · cases read
  · rintro ⟨inner, wraps, read⟩
    cases wraps with
    | @named fields _ version patterns =>
      have second : field? fields "patterns" = some (some inner) := field?_eq_some.mpr patterns
      rcases version with missing | ⟨text, present⟩
      · have first : field? fields "version" = some none := field?_eq_some.mpr missing
        rw [wrapped?, record?_two.mpr (.inl ⟨fields, rfl, first, second⟩)]
        exact read
      · have first : field? fields "version" = some (some (.string text)) :=
          field?_eq_some.mpr present
        rw [wrapped?, record?_two.mpr (.inl ⟨fields, rfl, first, second⟩)]
        exact read
    | listed text inner => exact read

theorem wraps_alone {inner other : Json} :
    Wraps (.object [("patterns", inner)]) other ↔ other = inner := by
  constructor
  · intro wraps
    cases wraps with
    | named version patterns => simpa [eq_comm] using patterns
  · rintro rfl
    exact .named (.inl rfl) rfl

/-- Of the two items of a wrapped list the first is a text, and a text is no pattern. -/
theorem forms_apart (json : Json) : wrapped? json = none ∨ bare? json = none := by
  rw [Option.eq_none_iff_forall_ne_some, Option.eq_none_iff_forall_ne_some]
  by_contra both
  simp only [not_or, not_forall, Classical.not_not] at both
  obtain ⟨⟨_, wrapped⟩, patterns, bare⟩ := both
  obtain ⟨inner, wraps, _⟩ := wrapped?_eq_some.mp wrapped
  cases wraps with
  | named => cases bare
  | listed text inner =>
    have read := bare?_array.mp bare
    cases patterns with
    | nil => cases read
    | cons first rest => cases (List.cons.inj read).1

theorem grammar?_bare {items : List Json} {patterns : List Pattern}
    (read : bare? (.array items) = some patterns) :
    grammar? (.array items) = some (Grammar.ofPatterns patterns) := by
  have other : wrapped? (.array items) = none :=
    (forms_apart (.array items)).resolve_right (by simp [read])
  rw [grammar?, other, read]
  rfl

theorem grammar?_wraps {json inner : Json} {patterns : List Pattern} (wraps : Wraps json inner)
    (read : bare? inner = some patterns) : grammar? json = some (Grammar.ofPatterns patterns) := by
  rw [grammar?, wrapped?_eq_some.mpr ⟨inner, wraps, read⟩]
  rfl

/-- No document has both forms. A list is read as it is just if it is read under `patterns`, with
the same result under any version; there every name that occurs looks up the last pattern so
named. -/
theorem forms_agree :
    (∀ json, wrapped? json = none ∨ bare? json = none) ∧
    ∀ items patterns,
      (bare? (.array items) = some patterns ↔ items.map pattern? = patterns.map some) ∧
      (bare? (.array items) = some patterns ↔
        wrapped? (.object [("patterns", .array items)]) = some patterns) ∧
      (bare? (.array items) = some patterns → ∃ grammar,
        grammar? (.array items) = some grammar ∧
        (∀ json, Wraps json (.array items) → grammar? json = some grammar) ∧
        (∀ version, grammar? (.object [("version", .string version), ("patterns", .array items)]) =
          some grammar) ∧
        (∀ name, name ∈ grammar.keys ↔ ∃ pattern ∈ patterns, pattern.name = name) ∧
        ∀ name pattern, grammar.get? name = some pattern ↔
          ∃ before after, patterns = before ++ pattern :: after ∧ pattern.name = name ∧
            ∀ later ∈ after, later.name ≠ name) := by
  refine ⟨forms_apart, fun items patterns => ⟨bare?_array, ?_, fun read => ?_⟩⟩
  · rw [wrapped?_eq_some]
    simp only [wraps_alone, exists_eq_left]
  · refine ⟨Grammar.ofPatterns patterns, grammar?_bare read,
      fun json wraps => grammar?_wraps wraps read, fun version => ?_,
      fun name => Grammar.mem_keys_ofPatterns,
      fun name pattern => Grammar.get?_ofPatterns_eq_some⟩
    have wraps : Wraps (.object [("version", .string version), ("patterns", .array items)])
        (.array items) := .named (.inr ⟨version, rfl⟩) rfl
    exact grammar?_wraps wraps read

/-- A name twice, first as a list of fields and then as an object with a node; a name between. -/
def twice : List Json :=
  [.array [.string "P", .object []],
    .array [.string "Q",
      .object [("a", .array [.string "ELEMENT", .null]), ("a", .array [.string "END"])]],
    .object [("nodes", .object [("s", .object [("kind", .string "START")])]), ("name", .string "P"),
      ("edges", .array [.array [.string "s", .string "s", .bool true]])]]

/-- The later of the two stands for the name, also where a list begins with a version. -/
theorem forms_agree_twice :
    let first : Pattern := ⟨"P", .empty, []⟩
    let between : Pattern := ⟨"Q", Table.ofList [("a", { kind := .finish })], []⟩
    let later : Pattern := ⟨"P", Table.ofList [("s", { kind := .start })], [⟨"s", "s", true⟩]⟩
    bare? (.array twice) = some [first, between, later] ∧ wrapped? (.array twice) = none ∧
      ∃ grammar, grammar? (.array twice) = some grammar ∧
        grammar? (.array [.string "9", .array twice]) = some grammar ∧
        grammar? (.object [("version", .string "9"), ("patterns", .array twice)]) = some grammar ∧
        grammar.get? "P" = some later ∧ "Q" ∈ grammar.keys := by
  intro first between later
  have read : bare? (.array twice) = some [first, between, later] := by decide +kernel
  obtain ⟨apart, alike⟩ := forms_agree
  obtain ⟨_, _, imports⟩ := alike twice [first, between, later]
  obtain ⟨grammar, bare, wrapped, versioned, names, last⟩ := imports read
  refine ⟨read, (apart _).resolve_right (by simp [read]), grammar, bare, wrapped _ (.listed "9" _),
    versioned "9", (last "P" later).mpr ⟨[first, between], [], rfl, rfl, by simp⟩, ?_⟩
  exact (names "Q").mpr ⟨between, by simp, rfl⟩

end Document

end Constructicon
