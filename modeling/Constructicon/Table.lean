/-! Tables from texts to values in strictly ascending key order, texts being compared by their
code points. A key has one value at most, and writing a key again replaces its value. Two tables
are equal when every key looks up the same value in both. -/
namespace Constructicon

structure Table (α : Type) where
  entries : List (String × α)
  ascending : entries.Pairwise (fun a b => a.1 < b.1)
  deriving DecidableEq

namespace Table

variable {α β : Type}

@[ext] theorem ext_entries {a b : Table α} (same : a.entries = b.entries) : a = b := by
  cases a; cases b; cases same; rfl

def empty : Table α := ⟨[], .nil⟩

instance : Inhabited (Table α) := ⟨empty⟩

instance : EmptyCollection (Table α) := ⟨empty⟩

/-- The entries with `key` written at its place in the order. -/
def place (key : String) (value : α) : List (String × α) → List (String × α)
  | [] => [(key, value)]
  | (k, v) :: rest =>
    if key < k then (key, value) :: (k, v) :: rest
    else if key = k then (key, value) :: rest
    else (k, v) :: place key value rest

theorem mem_place {key : String} {value : α} {entries : List (String × α)} {entry : String × α}
    (member : entry ∈ place key value entries) : entry = (key, value) ∨ entry ∈ entries := by
  induction entries with
  | nil => exact .inl (by simpa [place] using member)
  | cons first rest ih =>
    obtain ⟨k, v⟩ := first
    simp only [place] at member
    split at member
    · simpa [or_assoc] using member
    · split at member
      · rcases List.mem_cons.mp member with h | h
        · exact .inl h
        · exact .inr (List.mem_cons_of_mem _ h)
      · rcases List.mem_cons.mp member with h | h
        · exact .inr (h ▸ List.mem_cons_self)
        · exact (ih h).imp_right (List.mem_cons_of_mem _)

theorem ascending_place (key : String) (value : α) {entries : List (String × α)}
    (ascending : entries.Pairwise (fun a b => a.1 < b.1)) :
    (place key value entries).Pairwise (fun a b => a.1 < b.1) := by
  induction entries with
  | nil => simp [place]
  | cons first rest ih =>
    obtain ⟨k, v⟩ := first
    obtain ⟨above, sorted⟩ := List.pairwise_cons.mp ascending
    simp only [place]
    split
    · rename_i before
      refine List.pairwise_cons.mpr ⟨fun entry member => ?_, ascending⟩
      rcases List.mem_cons.mp member with rfl | h
      · exact before
      · exact String.lt_trans before (above entry h)
    · split
      · rename_i same
        exact List.pairwise_cons.mpr ⟨fun entry member => same ▸ above entry member, sorted⟩
      · rename_i notBefore notSame
        refine List.pairwise_cons.mpr ⟨fun entry member => ?_, ih sorted⟩
        rcases mem_place member with rfl | h
        · have after : k ≤ key := String.not_lt.mp notBefore
          exact Decidable.byContradiction fun still =>
            notSame (String.le_antisymm (String.not_lt.mp still) after)
        · exact above entry h

def insert (table : Table α) (key : String) (value : α) : Table α :=
  ⟨place key value table.entries, ascending_place key value table.ascending⟩

def erase (table : Table α) (key : String) : Table α :=
  ⟨table.entries.filter (·.1 ≠ key), table.ascending.filter _⟩

def get? (table : Table α) (key : String) : Option α :=
  (table.entries.find? (·.1 == key)).map (·.2)

def contains (table : Table α) (key : String) : Bool :=
  table.entries.any (·.1 == key)

def keys (table : Table α) : List String :=
  table.entries.map (·.1)

def values (table : Table α) : List α :=
  table.entries.map (·.2)

def size (table : Table α) : Nat :=
  table.entries.length

/-- Writes the pairs in turn, so that of two pairs with one key the later counts. -/
def insertAll (table : Table α) (pairs : List (String × α)) : Table α :=
  pairs.foldl (fun t pair => t.insert pair.1 pair.2) table

def ofList (pairs : List (String × α)) : Table α :=
  empty.insertAll pairs

def map (f : α → β) (table : Table α) : Table β :=
  ⟨table.entries.map (fun entry => (entry.1, f entry.2)),
    List.pairwise_map.mpr table.ascending⟩

/-- The distinct texts of a list, in ascending order. -/
def distinct (texts : List String) : List String :=
  (ofList (texts.map (·, ()))).keys

@[simp] theorem entries_empty : (empty : Table α).entries = [] := rfl

@[simp] theorem keys_map (f : α → β) (table : Table α) : (table.map f).keys = table.keys := by
  simp [keys, map]

theorem contains_iff_mem_keys {table : Table α} {key : String} :
    table.contains key = true ↔ key ∈ table.keys := by
  simp [contains, keys]

theorem nodup_keys (table : Table α) : table.keys.Nodup := by
  refine List.pairwise_map.mpr (table.ascending.imp ?_)
  intro a b before same
  exact String.lt_irrefl _ (same ▸ before)

theorem idxOf_keys {table : Table α} {position : Nat} {entry : String × α}
    (found : table.entries[position]? = some entry) : table.keys.idxOf entry.1 = position := by
  obtain ⟨bound, rfl⟩ := List.getElem?_eq_some_iff.mp found
  have size : position < table.keys.length := by simpa [keys] using bound
  have same : table.keys[position] = table.entries[position].1 := by simp [keys]
  rw [← same, table.nodup_keys.idxOf_getElem position size]

theorem find?_place_self (key : String) (value : α) (entries : List (String × α)) :
    (place key value entries).find? (·.1 == key) = some (key, value) := by
  induction entries with
  | nil => simp [place]
  | cons first rest ih =>
    obtain ⟨k, v⟩ := first
    simp only [place]
    split
    · simp
    · split
      · simp
      · rename_i notSame
        rw [List.find?_cons_of_neg (by simpa using Ne.symm notSame)]
        exact ih

theorem find?_place_of_ne {key other : String} (value : α) (entries : List (String × α))
    (differ : other ≠ key) :
    (place key value entries).find? (·.1 == other) = entries.find? (·.1 == other) := by
  induction entries with
  | nil => simp [place, Ne.symm differ]
  | cons first rest ih =>
    obtain ⟨k, v⟩ := first
    simp only [place]
    split
    · rw [List.find?_cons_of_neg (by simpa using Ne.symm differ)]
    · split
      · rename_i same
        subst same
        rw [List.find?_cons_of_neg (by simpa using Ne.symm differ),
          List.find?_cons_of_neg (by simpa using Ne.symm differ)]
      · simp [List.find?_cons, ih]

@[simp] theorem get?_empty (key : String) : (empty : Table α).get? key = none := rfl

@[simp] theorem get?_insert_self (table : Table α) (key : String) (value : α) :
    (table.insert key value).get? key = some value := by
  simp [get?, insert, find?_place_self]

theorem get?_insert_of_ne (table : Table α) {key other : String} (value : α)
    (differ : other ≠ key) : (table.insert key value).get? other = table.get? other := by
  simp [get?, insert, find?_place_of_ne value table.entries differ]

@[simp] theorem get?_erase_self (table : Table α) (key : String) :
    (table.erase key).get? key = none := by
  simp [get?, erase, List.find?_filter]

theorem get?_erase_of_ne (table : Table α) {key other : String} (differ : other ≠ key) :
    (table.erase key).get? other = table.get? other := by
  simp only [get?, erase, List.find?_filter]
  congr 1
  congr 1
  funext entry
  by_cases h : entry.1 = other
  · simp [h, differ]
  · simp [h]

theorem get?_eq_some_iff {table : Table α} {key : String} {value : α} :
    table.get? key = some value ↔ (key, value) ∈ table.entries := by
  have distinct : table.entries.Pairwise (fun a b => a.1 ≠ b.1) :=
    List.pairwise_map.mp table.nodup_keys
  unfold get?
  generalize table.entries = entries at distinct ⊢
  induction entries with
  | nil => simp
  | cons first rest ih =>
    obtain ⟨k, v⟩ := first
    obtain ⟨above, distinct⟩ := List.pairwise_cons.mp distinct
    by_cases here : k = key
    · subst here
      have absent (other : α) : (k, other) ∉ rest := fun member => above _ member rfl
      simp [absent, eq_comm]
    · simpa [here, Ne.symm here] using ih distinct

theorem get?_insertAll {pairs : List (String × α)} (distinct : (pairs.map (·.1)).Nodup)
    (table : Table α) {key : String} {value : α} : (table.insertAll pairs).get? key = some value ↔
      (key, value) ∈ pairs ∨ key ∉ pairs.map (·.1) ∧ table.get? key = some value := by
  induction pairs generalizing table with
  | nil => simp [insertAll]
  | cons first rest ih =>
    obtain ⟨k, v⟩ := first
    obtain ⟨fresh, distinct⟩ := List.nodup_cons.mp distinct
    have written : table.insertAll ((k, v) :: rest) = (table.insert k v).insertAll rest := rfl
    rw [written, ih distinct]
    by_cases same : key = k
    · subst same
      have fresh (other : α) : (key, other) ∉ rest := fun member =>
        fresh (List.mem_map.mpr ⟨_, member, rfl⟩)
      simp [fresh, eq_comm]
    · rw [get?_insert_of_ne _ _ same]
      simp [same]

/-- A table made of pairs with distinct keys holds just these pairs. -/
theorem get?_ofList {pairs : List (String × α)} (distinct : (pairs.map (·.1)).Nodup) {key : String}
    {value : α} : (ofList pairs).get? key = some value ↔ (key, value) ∈ pairs := by
  simp [ofList, get?_insertAll distinct]

theorem find?_eq_none_of_lt {key : String} {entries : List (String × α)}
    (above : ∀ entry ∈ entries, key < entry.1) : entries.find? (·.1 == key) = none := by
  rw [List.find?_eq_none]
  intro entry member same
  have order := above entry member
  rw [eq_of_beq same] at order
  exact String.lt_irrefl _ order

theorem entries_eq_of_find? {a b : List (String × α)}
    (sortedA : a.Pairwise (fun x y => x.1 < y.1)) (sortedB : b.Pairwise (fun x y => x.1 < y.1))
    (same : ∀ key : String, (a.find? (·.1 == key)).map (·.2) = (b.find? (·.1 == key)).map (·.2)) :
    a = b := by
  induction a generalizing b with
  | nil =>
    cases b with
    | nil => rfl
    | cons first rest => simpa using same first.1
  | cons first rest ih =>
    cases b with
    | nil => simpa using same first.1
    | cons other others =>
      obtain ⟨k, v⟩ := first
      obtain ⟨k', v'⟩ := other
      obtain ⟨aboveA, restA⟩ := List.pairwise_cons.mp sortedA
      obtain ⟨aboveB, restB⟩ := List.pairwise_cons.mp sortedB
      have keyEq : k = k' := by
        refine String.le_antisymm (String.not_lt.mp fun lower => ?_)
          (String.not_lt.mp fun lower => ?_)
        · have absent : ((k, v) :: rest).find? (·.1 == k') = none :=
            find?_eq_none_of_lt fun entry member => by
              rcases List.mem_cons.mp member with rfl | h
              · exact lower
              · exact String.lt_trans lower (aboveA entry h)
          simpa [absent] using same k'
        · have absent : ((k', v') :: others).find? (·.1 == k) = none :=
            find?_eq_none_of_lt fun entry member => by
              rcases List.mem_cons.mp member with rfl | h
              · exact lower
              · exact String.lt_trans lower (aboveB entry h)
          simpa [absent] using same k
      subst keyEq
      have valueEq : v = v' := by simpa using same k
      subst valueEq
      have restEq : rest = others := ih restA restB fun key => by
        by_cases h : key = k
        · subst h
          rw [find?_eq_none_of_lt aboveA, find?_eq_none_of_lt aboveB]
        · simpa [List.find?_cons, beq_eq_false_iff_ne.mpr (Ne.symm h)] using same key
      rw [restEq]

theorem ext_get? {a b : Table α} (same : ∀ key, a.get? key = b.get? key) : a = b :=
  ext_entries (entries_eq_of_find? a.ascending b.ascending same)

end Table

end Constructicon
