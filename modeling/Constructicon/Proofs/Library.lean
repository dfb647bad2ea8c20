import Constructicon.Library
import Constructicon.Proofs.Table

/-! Requests to a library. Known names, repeated or not, are answered by the patterns under just
these names; otherwise the first unknown name is what the request is refused by. -/
namespace Constructicon

theorem selectNames_mapError {ε ζ : Type} (why : ε → ζ) (load : String → Except ε Pattern)
    (names : List String) : selectNames names (fun name => (load name).mapError why) =
      (selectNames names load).mapError why := by
  unfold selectNames
  suffices same : names.mapM (fun name => ((load name).mapError why).map (name, ·)) =
      (names.mapM fun name => (load name).map (name, ·)).mapError why by
    rw [same]
    cases names.mapM fun name => (load name).map (name, ·) <;> rfl
  induction names with
  | nil => rfl
  | cons name rest ih =>
    rw [List.mapM_cons, List.mapM_cons, ih]
    cases load name with
    | error error => rfl
    | ok pattern => cases rest.mapM fun name => (load name).map (name, ·) <;> rfl

namespace Library

variable {library : Library} {names : List String}

theorem mapM_load (known : ∀ name ∈ names, name ∈ library.patterns.keys) : ∃ pairs,
    names.mapM (fun name => (library.load name).map (name, ·)) = .ok pairs ∧
      pairs.map (·.1) = names ∧ ∀ pair ∈ pairs, library.patterns.get? pair.1 = some pair.2 := by
  induction names with
  | nil => exact ⟨[], rfl, rfl, List.forall_mem_nil _⟩
  | cons name rest ih =>
    obtain ⟨here, later⟩ := List.forall_mem_cons.mp known
    obtain ⟨pattern, found⟩ := Table.get?_of_mem_keys here
    obtain ⟨pairs, others, named, agree⟩ := ih later
    refine ⟨(name, pattern) :: pairs, ?_, ?_, List.forall_mem_cons.mpr ⟨found, agree⟩⟩
    · rw [List.mapM_cons, others, load, found]
      rfl
    · rw [List.map_cons, named]

theorem loadByNames_known (known : ∀ name ∈ names, name ∈ library.patterns.keys) : ∃ part,
    library.loadByNames names = .ok part ∧
      ∀ name, part.get? name = if name ∈ names then library.patterns.get? name else none := by
  obtain ⟨pairs, mapped, named, agree⟩ := mapM_load known
  refine ⟨Table.ofList pairs, ?_, fun name => ?_⟩
  · rw [loadByNames, selectNames, mapped]
    rfl
  · rw [Table.get?_ofList_agree agree, named]

theorem loadByNames_missing {before after : List String} {name : String}
    (known : ∀ name ∈ before, name ∈ library.patterns.keys)
    (absent : name ∉ library.patterns.keys) :
    library.loadByNames (before ++ name :: after) = .error ⟨name⟩ := by
  obtain ⟨pairs, mapped, _⟩ := mapM_load known
  rw [loadByNames, selectNames, List.mapM_append, mapped, List.mapM_cons, load,
    Table.get?_eq_none absent]
  rfl

theorem loadByNames_all : library.loadByNames library.patterns.keys = .ok library.patterns := by
  have known : ∀ name ∈ library.patterns.keys, name ∈ library.patterns.keys := fun _ member => member
  obtain ⟨part, loaded, same⟩ := loadByNames_known known
  rw [loaded]
  congr 1
  apply Table.ext_get?
  intro name
  rw [same name]
  split
  · rfl
  · rename_i absent
    exact (Table.get?_eq_none absent).symm

end Library

end Constructicon
