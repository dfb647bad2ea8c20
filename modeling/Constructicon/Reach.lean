/-! Breadth-first search along arcs. The search lists what it finds in the order in which it
finds it, nearest first; an arc is followed once, when its source is first met, which bounds
the search by the arcs not yet followed. Main statement: exactly the nodes reachable from a
seed are found, each once. -/
namespace Constructicon

variable {ν : Type} [DecidableEq ν]

/-- The targets of the arcs that leave `node`, in arc order. -/
def targets (arcs : List (ν × ν)) (node : ν) : List ν :=
  (arcs.filter (·.1 = node)).map (·.2)

/-- The arcs whose sources are still to be met. -/
def unfollowed (arcs : List (ν × ν)) (found : List ν) : List (ν × ν) :=
  arcs.filter (·.1 ∉ found)

theorem length_targets_add_unfollowed {arcs : List (ν × ν)} {found : List ν} {node : ν}
    (new : node ∉ found) :
    (targets arcs node).length + (unfollowed arcs (found ++ [node])).length =
      (unfollowed arcs found).length := by
  induction arcs with
  | nil => rfl
  | cons arc rest ih =>
    simp only [targets, unfollowed, List.length_map] at ih ⊢
    by_cases same : arc.1 = node
    · simp [same, new] at ih ⊢
      omega
    · by_cases old : arc.1 ∈ found <;> simp [same, old] at ih ⊢ <;> omega

def search (arcs : List (ν × ν)) (found : List ν) : List ν → List ν
  | [] => found
  | node :: queue =>
    if node ∈ found then search arcs found queue
    else search arcs (found ++ [node]) (queue ++ targets arcs node)
termination_by queue => queue.length + (unfollowed arcs found).length
decreasing_by
  · simp
  · rename_i new
    have : (targets arcs node).length + (unfollowed arcs (found ++ [node])).length =
        (unfollowed arcs found).length := length_targets_add_unfollowed new
    simp only [List.length_append, List.length_cons]
    omega

/-- The nodes reachable from `seeds`, in the order in which they are found. -/
def reach (arcs : List (ν × ν)) (seeds : List ν) : List ν :=
  search arcs [] seeds

inductive Path (arcs : List (ν × ν)) : ν → ν → Prop where
  | refl (node : ν) : Path arcs node node
  | step {a b c : ν} (arc : (a, b) ∈ arcs) (rest : Path arcs b c) : Path arcs a c

theorem mem_targets {arcs : List (ν × ν)} {node next : ν} :
    next ∈ targets arcs node ↔ (node, next) ∈ arcs := by
  simp [targets]

theorem found_subset_search {arcs : List (ν × ν)} {found queue : List ν} {node : ν}
    (member : node ∈ found) : node ∈ search arcs found queue := by
  fun_induction search arcs found queue with
  | case1 => exact member
  | case2 _ _ _ _ ih => exact ih member
  | case3 _ _ _ _ ih => exact ih (List.mem_append_left _ member)

theorem queue_subset_search {arcs : List (ν × ν)} {found queue : List ν} {node : ν}
    (member : node ∈ queue) : node ∈ search arcs found queue := by
  fun_induction search arcs found queue with
  | case1 => cases member
  | case2 found first rest old ih =>
    rcases List.mem_cons.mp member with rfl | h
    · exact found_subset_search old
    · exact ih h
  | case3 found first rest new ih =>
    rcases List.mem_cons.mp member with rfl | h
    · exact found_subset_search (List.mem_append_right _ List.mem_cons_self)
    · exact ih (List.mem_append_left _ h)

theorem path_of_mem_search {arcs : List (ν × ν)} {found queue : List ν} {node : ν}
    (member : node ∈ search arcs found queue) :
    node ∈ found ∨ ∃ seed ∈ queue, Path arcs seed node := by
  fun_induction search arcs found queue with
  | case1 => exact .inl member
  | case2 found first rest old ih =>
    exact (ih member).imp_right fun ⟨seed, h, path⟩ => ⟨seed, List.mem_cons_of_mem _ h, path⟩
  | case3 found first rest new ih =>
    rcases ih member with h | ⟨seed, h, path⟩
    · rcases List.mem_append.mp h with h | h
      · exact .inl h
      · rw [List.mem_singleton.mp h]
        exact .inr ⟨first, List.mem_cons_self, .refl first⟩
    · rcases List.mem_append.mp h with h | h
      · exact .inr ⟨seed, List.mem_cons_of_mem _ h, path⟩
      · exact .inr ⟨first, List.mem_cons_self, .step (mem_targets.mp h) path⟩

theorem search_closed {arcs : List (ν × ν)} {found queue : List ν}
    (pending : ∀ a ∈ found, ∀ b, (a, b) ∈ arcs → b ∈ found ∨ b ∈ queue) {a b : ν}
    (member : a ∈ search arcs found queue) (arc : (a, b) ∈ arcs) :
    b ∈ search arcs found queue := by
  fun_induction search arcs found queue with
  | case1 => exact (pending a member b arc).resolve_right (by simp)
  | case2 found first rest old ih =>
    refine ih (fun x hx y hy => ?_) member
    rcases pending x hx y hy with h | h
    · exact .inl h
    · rcases List.mem_cons.mp h with rfl | h
      · exact .inl old
      · exact .inr h
  | case3 found first rest new ih =>
    refine ih (fun x hx y hy => ?_) member
    rcases List.mem_append.mp hx with hx | hx
    · rcases pending x hx y hy with h | h
      · exact .inl (List.mem_append_left _ h)
      · rcases List.mem_cons.mp h with rfl | h
        · exact .inl (List.mem_append_right _ List.mem_cons_self)
        · exact .inr (List.mem_append_left _ h)
    · rw [List.mem_singleton.mp hx] at hy
      exact .inr (List.mem_append_right _ (mem_targets.mpr hy))

theorem nodup_search {arcs : List (ν × ν)} {found queue : List ν} (distinct : found.Nodup) :
    (search arcs found queue).Nodup := by
  fun_induction search arcs found queue with
  | case1 => exact distinct
  | case2 _ _ _ _ ih => exact ih distinct
  | case3 found first rest new ih =>
    exact ih (List.nodup_append.mpr
      ⟨distinct, by simp, fun a ha b hb => by
        rintro rfl
        exact new (List.mem_singleton.mp hb ▸ ha)⟩)

theorem reach_closed {arcs : List (ν × ν)} {seeds : List ν} {a b : ν}
    (member : a ∈ reach arcs seeds) (arc : (a, b) ∈ arcs) : b ∈ reach arcs seeds :=
  search_closed (by simp) member arc

theorem mem_reach {arcs : List (ν × ν)} {seeds : List ν} {node : ν} :
    node ∈ reach arcs seeds ↔ ∃ seed ∈ seeds, Path arcs seed node := by
  refine ⟨fun member => (path_of_mem_search member).resolve_left (by simp), ?_⟩
  rintro ⟨seed, member, path⟩
  have start : seed ∈ reach arcs seeds := queue_subset_search member
  clear member
  induction path with
  | refl => exact start
  | step arc _ ih => exact ih (reach_closed start arc)

theorem nodup_reach (arcs : List (ν × ν)) (seeds : List ν) : (reach arcs seeds).Nodup :=
  nodup_search .nil

end Constructicon
