import Mathlib.Data.List.Induction
import Constructicon.Table

/-! Tables made of their own entries, of the entries of another table, of pairs that agree wherever
a key is named twice, and of pairs of which the last with a key counts. -/
namespace Constructicon.Table

variable {α β : Type}

theorem contains_eq_isSome (table : Table α) (key : String) :
    table.contains key = (table.get? key).isSome := by
  rw [Bool.eq_iff_iff]
  simp [contains, get?]

theorem get?_of_mem_keys {table : Table α} {key : String} (member : key ∈ table.keys) :
    ∃ value, table.get? key = some value := by
  rwa [← contains_iff_mem_keys, contains_eq_isSome, Option.isSome_iff_exists] at member

theorem get?_eq_none {table : Table α} {key : String} (absent : key ∉ table.keys) :
    table.get? key = none := by
  rwa [← contains_iff_mem_keys, contains_eq_isSome, Bool.not_eq_true, Option.isSome_eq_false_iff,
    Option.isNone_iff_eq_none] at absent

@[simp] theorem get?_map (f : α → β) (table : Table α) (key : String) :
    (table.map f).get? key = (table.get? key).map f := by
  simp [get?, map, List.find?_map, Function.comp_def]

theorem map_insert (f : α → β) (table : Table α) (key : String) (value : α) :
    (table.insert key value).map f = (table.map f).insert key (f value) := by
  apply ext_get?
  intro other
  by_cases same : other = key
  · simp [same]
  · simp [get?_insert_of_ne _ _ same]

theorem map_erase (f : α → β) (table : Table α) (key : String) :
    (table.erase key).map f = (table.map f).erase key := by
  apply ext_get?
  intro other
  by_cases same : other = key
  · simp [same]
  · simp [get?_erase_of_ne _ same]

theorem insert_erase (table : Table α) (key : String) (value : α) :
    (table.erase key).insert key value = table.insert key value := by
  apply ext_get?
  intro other
  by_cases same : other = key
  · simp [same]
  · simp [get?_insert_of_ne _ _ same, get?_erase_of_ne _ same]

theorem ofList_entries (table : Table α) : ofList table.entries = table := by
  apply ext_get?
  intro key
  ext value
  rw [get?_ofList table.nodup_keys, get?_eq_some_iff]

theorem mem_insertAll {pairs : List (String × α)} {table : Table α} {entry : String × α}
    (member : entry ∈ (table.insertAll pairs).entries) : entry ∈ pairs ∨ entry ∈ table.entries := by
  induction pairs generalizing table with
  | nil => exact .inr member
  | cons first rest ih =>
    rcases ih member with later | written
    · exact .inl (List.mem_cons_of_mem _ later)
    · rcases mem_place written with rfl | old
      · exact .inl List.mem_cons_self
      · exact .inr old

theorem mem_ofList {pairs : List (String × α)} {entry : String × α}
    (member : entry ∈ (ofList pairs).entries) : entry ∈ pairs :=
  (mem_insertAll member).resolve_right List.not_mem_nil

theorem get?_insertAll_agree {value : String → Option α} {pairs : List (String × α)}
    (agree : ∀ pair ∈ pairs, value pair.1 = some pair.2) (table : Table α) (key : String) :
    (table.insertAll pairs).get? key =
      if key ∈ pairs.map (·.1) then value key else table.get? key := by
  induction pairs generalizing table with
  | nil => rfl
  | cons first rest ih =>
    have written : table.insertAll (first :: rest) =
        (table.insert first.1 first.2).insertAll rest := rfl
    rw [written, ih fun pair later => agree pair (List.mem_cons_of_mem _ later)]
    by_cases same : key = first.1
    · simp [same, agree first List.mem_cons_self]
    · have later : key ∈ (first :: rest).map (·.1) ↔ key ∈ rest.map (·.1) := by
        rw [List.map_cons, List.mem_cons, or_iff_right same]
      rw [get?_insert_of_ne _ _ same]
      simp only [later]

/-- Pairs that agree make the table of what they agree on, however often a key is repeated. -/
theorem get?_ofList_agree {value : String → Option α} {pairs : List (String × α)}
    (agree : ∀ pair ∈ pairs, value pair.1 = some pair.2) (key : String) :
    (ofList pairs).get? key = if key ∈ pairs.map (·.1) then value key else none :=
  get?_insertAll_agree agree empty key

/-- Of several pairs with one key the last counts. -/
theorem get?_insertAll_last (pairs : List (String × α)) (table : Table α) (key : String) :
    (table.insertAll pairs).get? key =
      ((pairs.reverse.find? (·.1 == key)).map (·.2)).or (table.get? key) := by
  induction pairs using List.reverseRecOn with
  | nil => rfl
  | append_singleton pairs last ih =>
    have written : table.insertAll (pairs ++ [last]) =
        (table.insertAll pairs).insert last.1 last.2 := List.foldl_append
    rw [written, List.reverse_concat, List.find?_cons]
    by_cases same : last.1 = key
    · simp [same]
    · rw [get?_insert_of_ne _ _ (Ne.symm same), ih, beq_eq_false_iff_ne.mpr same]

theorem mem_distinct {texts : List String} {text : String} :
    text ∈ distinct texts ↔ text ∈ texts := by
  let value (_ : String) : Option Unit := some ()
  have agree : ∀ pair ∈ texts.map (·, ()), value pair.1 = some pair.2 := fun _ _ => rfl
  have written := get?_ofList_agree agree text
  rw [distinct, ← contains_iff_mem_keys, contains_eq_isSome, written]
  simp [value]

end Constructicon.Table
