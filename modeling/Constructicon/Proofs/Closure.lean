import Constructicon.Closure

/-! Closures seen from outside. A closure finds elements only, each once, and stays within every
set that no edge leaves. It only depends on where the nodes of such a set lead: under other names
for them it finds the same nodes in the same order, and edges from elsewhere change nothing. -/
namespace Constructicon

variable {ν μ : Type}

def Edge.map (name : ν → μ) (edge : Edge ν) : Edge μ :=
  { source := name edge.source, target := name edge.target, bypass := edge.bypass }

def Closure.map (name : ν → μ) (closure : Closure ν) : Closure μ :=
  { elements := closure.elements.map name, reachesEnd := closure.reachesEnd }

section Paths

variable {arcs others : List (ν × ν)} {a b c : ν}

theorem Path.trans (first : Path arcs a b) (second : Path arcs b c) : Path arcs a c := by
  induction first with
  | refl => exact second
  | step arc _ ih => exact .step arc (ih second)

theorem Path.snoc (path : Path arcs a b) (arc : (b, c) ∈ arcs) : Path arcs a c :=
  path.trans (.step arc (.refl c))

theorem Path.mono (path : Path arcs a b) (subset : ∀ arc ∈ arcs, arc ∈ others) :
    Path others a b := by
  induction path with
  | refl => exact .refl _
  | step arc _ ih => exact .step (subset _ arc) ih

end Paths

theorem Path.stays {arcs : List (ν × ν)} {inside : ν → Prop} {a b : ν} (path : Path arcs a b)
    (closed : ∀ arc ∈ arcs, inside arc.1 → inside arc.2) (start : inside a) : inside b := by
  induction path with
  | refl => exact start
  | step arc _ ih => exact ih (closed _ arc start)

theorem mem_silentArcs {kind : ν → NodeKind} {edges : List (Edge ν)} {arc : ν × ν}
    (member : arc ∈ silentArcs kind edges) :
    ∃ edge ∈ edges, edge.source = arc.1 ∧ edge.target = arc.2 := by
  obtain ⟨edge, kept, rfl⟩ := List.mem_map.mp member
  exact ⟨edge, (List.mem_filter.mp kept).1, rfl, rfl⟩

variable [DecidableEq ν] [DecidableEq μ]

theorem mem_successors {edges : List (Edge ν)} {node next : ν} :
    next ∈ Edge.successors edges node ↔
      ∃ edge ∈ edges, edge.source = node ∧ edge.target = next := by
  simp [Edge.successors, Edge.leaving, and_assoc]

theorem mem_closure_elements {kind : ν → NodeKind} {edges : List (Edge ν)} {seeds : List ν}
    {node : ν} : node ∈ (closure kind edges seeds).elements ↔
      kind node = .element ∧ ∃ seed ∈ seeds, Path (silentArcs kind edges) seed node := by
  simp only [closure, List.mem_filter, mem_reach, decide_eq_true_eq, and_comm]

theorem nodup_closure_elements (kind : ν → NodeKind) (edges : List (Edge ν)) (seeds : List ν) :
    (closure kind edges seeds).elements.Nodup :=
  (nodup_reach _ _).filter _

theorem closure_stays (inside : ν → Prop) {kind : ν → NodeKind} {edges : List (Edge ν)}
    {seeds : List ν} (closed : ∀ edge ∈ edges, inside edge.source → inside edge.target)
    (seeded : ∀ seed ∈ seeds, inside seed) {node : ν}
    (member : node ∈ (closure kind edges seeds).elements) : inside node := by
  obtain ⟨_, seed, start, path⟩ := mem_closure_elements.mp member
  refine path.stays (fun arc found => ?_) (seeded seed start)
  obtain ⟨edge, present, source, target⟩ := mem_silentArcs found
  rw [← source, ← target]
  exact closed edge present

/-- A search runs the same under other names, since it only looks where each node leads. -/
theorem search_map {arcs : List (ν × ν)} {others : List (μ × μ)} {name : ν → μ} {inside : ν → Prop}
    {found queue : List ν} (closed : ∀ arc ∈ arcs, inside arc.1 → inside arc.2)
    (injective : ∀ a b, inside a → inside b → name a = name b → a = b)
    (leads : ∀ node, inside node → targets others (name node) = (targets arcs node).map name)
    (known : ∀ node ∈ found, inside node) (queued : ∀ node ∈ queue, inside node) :
    search others (found.map name) (queue.map name) = (search arcs found queue).map name := by
  fun_induction search arcs found queue with
  | case1 => simp only [List.map_nil, search]
  | case2 found node queue old ih =>
    rw [List.map_cons, search, if_pos (List.mem_map_of_mem old)]
    exact ih known fun next member => queued next (List.mem_cons_of_mem _ member)
  | case3 found node queue new ih =>
    have here : inside node := queued node List.mem_cons_self
    have fresh : name node ∉ found.map name := by
      intro member
      obtain ⟨other, before, same⟩ := List.mem_map.mp member
      exact new (injective other node (known other before) here same ▸ before)
    rw [List.map_cons, search, if_neg fresh, leads node here]
    have inner := ih (fun next member => ?_) fun next member => ?_
    · simpa using inner
    · rcases List.mem_append.mp member with before | last
      · exact known next before
      · exact List.mem_singleton.mp last ▸ here
    · rcases List.mem_append.mp member with later | follows
      · exact queued next (List.mem_cons_of_mem _ later)
      · exact closed _ (mem_targets.mp follows) here

theorem targets_silentArcs (kind : ν → NodeKind) (edges : List (Edge ν)) (node : ν) :
    targets (silentArcs kind edges) node =
      ((Edge.leaving edges node).filter (·.isSilent kind)).map (·.target) := by
  simp only [targets, silentArcs, Edge.leaving, List.filter_map, List.map_map, List.filter_filter]
  congr 1
  apply List.filter_congr
  intro edge _
  simp [Bool.and_comm]

section Renaming

variable {kind : ν → NodeKind} {other : μ → NodeKind} {edges : List (Edge ν)}
  {others : List (Edge μ)} {name : ν → μ} {inside : ν → Prop}

theorem targets_map
    (kinds : ∀ node, inside node → other (name node) = kind node)
    (leaving : ∀ node, inside node →
      Edge.leaving others (name node) = (Edge.leaving edges node).map (Edge.map name))
    {node : ν} (here : inside node) : targets (silentArcs other others) (name node) =
      (targets (silentArcs kind edges) node).map name := by
  rw [targets_silentArcs, targets_silentArcs, leaving node here, List.filter_map, List.map_map,
    List.map_map]
  have silent : ∀ edge ∈ Edge.leaving edges node,
      ((·.isSilent other) ∘ Edge.map name) edge = edge.isSilent kind := by
    intro edge member
    have source : edge.source = node := of_decide_eq_true (List.mem_filter.mp member).2
    simp only [Function.comp_apply, Edge.isSilent, Edge.map, source, kinds node here]
  rw [List.filter_congr silent]
  rfl

/-- Closures under other names for the nodes. -/
theorem closure_map (closed : ∀ edge ∈ edges, inside edge.source → inside edge.target)
    (injective : ∀ a b, inside a → inside b → name a = name b → a = b)
    (kinds : ∀ node, inside node → other (name node) = kind node)
    (leaving : ∀ node, inside node →
      Edge.leaving others (name node) = (Edge.leaving edges node).map (Edge.map name))
    {seeds : List ν} (seeded : ∀ seed ∈ seeds, inside seed) :
    closure other others (seeds.map name) = (closure kind edges seeds).map name := by
  have arcsClosed : ∀ arc ∈ silentArcs kind edges, inside arc.1 → inside arc.2 := by
    intro arc member here
    obtain ⟨edge, present, source, target⟩ := mem_silentArcs member
    exact target ▸ closed edge present (source ▸ here)
  have found : reach (silentArcs other others) (seeds.map name) =
      (reach (silentArcs kind edges) seeds).map name := by
    have leads (node : ν) (here : inside node) := targets_map kinds leaving here
    exact search_map arcsClosed injective leads (List.forall_mem_nil _) seeded
  have stays : ∀ node ∈ reach (silentArcs kind edges) seeds, other (name node) = kind node := by
    intro node member
    obtain ⟨seed, start, path⟩ := mem_reach.mp member
    exact kinds node (path.stays arcsClosed (seeded seed start))
  simp only [closure, found, Closure.map, List.filter_map, List.any_map]
  congr 1
  · congr 1
    apply List.filter_congr
    intro node member
    simp only [Function.comp_apply, stays node member]
  · rw [Bool.eq_iff_iff]
    simp only [List.any_eq_true, Function.comp_apply]
    exact exists_congr fun node => and_congr_right fun member => by rw [stays node member]

theorem eraseDups_map {items : List ν}
    (injective : ∀ a ∈ items, ∀ b ∈ items, name a = name b → a = b) :
    (items.map name).eraseDups = items.eraseDups.map name := by
  induction size : items.length using Nat.strongRecOn generalizing items with
  | ind n ih =>
    cases items with
    | nil => rfl
    | cons first rest =>
      rw [List.map_cons, List.eraseDups_cons, List.eraseDups_cons, List.map_cons, List.filter_map]
      have same : rest.filter ((fun b => !b == name first) ∘ name) = rest.filter fun b => !b == first := by
        apply List.filter_congr
        intro b member
        have iff : name b = name first ↔ b = first :=
          ⟨injective b (List.mem_cons_of_mem _ member) first List.mem_cons_self, congrArg name⟩
        simp [iff, Bool.beq_eq_decide_eq]
      rw [same]
      have shorter : (rest.filter fun b => !b == first).length < n := by
        have := List.length_filter_le (fun b => !b == first) rest
        simp at size
        omega
      rw [ih _ shorter (fun a left b right => ?_) rfl]
      exact injective a (List.mem_cons_of_mem _ (List.mem_filter.mp left).1) b
        (List.mem_cons_of_mem _ (List.mem_filter.mp right).1)

theorem successors_map (injective : ∀ a b, inside a → inside b → name a = name b → a = b)
    (closed : ∀ edge ∈ edges, inside edge.source → inside edge.target)
    (leaving : ∀ node, inside node →
      Edge.leaving others (name node) = (Edge.leaving edges node).map (Edge.map name))
    {node : ν} (here : inside node) :
    Edge.successors others (name node) = (Edge.successors edges node).map name := by
  have targets : ∀ a ∈ (Edge.leaving edges node).map (·.target), inside a := by
    intro a member
    obtain ⟨edge, left, rfl⟩ := List.mem_map.mp member
    obtain ⟨present, source⟩ := List.mem_filter.mp left
    exact closed edge present (of_decide_eq_true source ▸ here)
  unfold Edge.successors
  rw [leaving node here, List.map_map, ← eraseDups_map fun a left b right =>
    injective a b (targets a left) (targets b right), List.map_map]
  rfl

end Renaming

theorem closure_append (inside : ν → Prop) {kind other : ν → NodeKind}
    {edges extra : List (Edge ν)} {seeds : List ν}
    (edgesInside : ∀ edge ∈ edges, inside edge.source ∧ inside edge.target)
    (foreign : ∀ edge ∈ extra, ¬ inside edge.source) (seeded : ∀ seed ∈ seeds, inside seed)
    (same : ∀ node, inside node → other node = kind node) :
    closure other (edges ++ extra) seeds = closure kind edges seeds := by
  have leaving : ∀ node, inside node →
      Edge.leaving (edges ++ extra) node = (Edge.leaving edges node).map (Edge.map id) := by
    intro node here
    have none : extra.filter (·.source = node) = [] := by
      rw [List.filter_eq_nil_iff]
      intro edge member equal
      exact foreign edge member (of_decide_eq_true equal ▸ here)
    simp only [Edge.leaving, List.filter_append, none, List.append_nil]
    exact (List.map_id _).symm
  have renamed : closure other (edges ++ extra) (seeds.map id) = (closure kind edges seeds).map id :=
    closure_map (fun edge member _ => (edgesInside edge member).2) (fun _ _ _ _ => id) same leaving
      seeded
  simpa [Closure.map] using renamed

end Constructicon
