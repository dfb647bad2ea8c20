
/-! Excerpts. One list is an excerpt of another when it stands for its items one by one, in order,
except for items that are dropped. What is done to two such lists item by item leaves them so, if
it agrees on items that stand for one another and makes nothing new of those dropped. -/
namespace Constructicon

variable {α β γ δ : Type}

inductive Excerpt (dropped : α → Prop) (same : α → β → Prop) : List α → List β → Prop where
  | nil : Excerpt dropped same [] []
  | take {a : α} {b : β} {whole : List α} {part : List β} (both : same a b)
      (rest : Excerpt dropped same whole part) : Excerpt dropped same (a :: whole) (b :: part)
  | skip {a : α} {whole : List α} {part : List β} (gone : dropped a)
      (rest : Excerpt dropped same whole part) : Excerpt dropped same (a :: whole) part

namespace Excerpt

variable {dropped : α → Prop} {same : α → β → Prop} {whole : List α} {part : List β}

theorem mono {more : α → Prop} {alike : α → β → Prop} (excerpt : Excerpt dropped same whole part)
    (gone : ∀ a ∈ whole, dropped a → more a) (both : ∀ a ∈ whole, ∀ b, same a b → alike a b) :
    Excerpt more alike whole part := by
  induction excerpt with
  | nil => exact .nil
  | take here _ ih =>
    exact .take (both _ List.mem_cons_self _ here) (ih
      (fun a member => gone a (List.mem_cons_of_mem _ member))
      (fun a member => both a (List.mem_cons_of_mem _ member)))
  | skip here _ ih =>
    exact .skip (gone _ List.mem_cons_self here) (ih
      (fun a member => gone a (List.mem_cons_of_mem _ member))
      (fun a member => both a (List.mem_cons_of_mem _ member)))

theorem imp {alike : α → β → Prop} (excerpt : Excerpt dropped same whole part)
    (both : ∀ a b, same a b → alike a b) : Excerpt dropped alike whole part :=
  excerpt.mono (fun _ _ gone => gone) fun a _ b here => both a b here

theorem append {more : List α} {others : List β} (excerpt : Excerpt dropped same whole part)
    (next : Excerpt dropped same more others) :
    Excerpt dropped same (whole ++ more) (part ++ others) := by
  induction excerpt with
  | nil => exact next
  | take here _ ih => exact .take here ih
  | skip here _ ih => exact .skip here ih

theorem nothing (gone : ∀ a ∈ whole, dropped a) : Excerpt dropped same whole [] := by
  induction whole with
  | nil => exact .nil
  | cons a rest ih =>
    exact .skip (gone a List.mem_cons_self) (ih fun b member => gone b (List.mem_cons_of_mem _ member))

theorem append_nothing {more : List α} (excerpt : Excerpt dropped same whole part)
    (gone : ∀ a ∈ more, dropped a) : Excerpt dropped same (whole ++ more) part := by
  have all : Excerpt dropped same (whole ++ more) (part ++ []) := excerpt.append (.nothing gone)
  rwa [List.append_nil] at all

theorem of_map {left : γ → α} {right : γ → β} (items : List γ)
    (both : ∀ item ∈ items, same (left item) (right item)) :
    Excerpt dropped same (items.map left) (items.map right) := by
  induction items with
  | nil => exact .nil
  | cons item rest ih =>
    exact .take (both item List.mem_cons_self)
      (ih fun other member => both other (List.mem_cons_of_mem _ member))

theorem map {absent : γ → Prop} {alike : γ → δ → Prop} {f : α → γ} {g : β → δ}
    (excerpt : Excerpt dropped same whole part) (both : ∀ a b, same a b → alike (f a) (g b))
    (gone : ∀ a, dropped a → absent (f a)) : Excerpt absent alike (whole.map f) (part.map g) := by
  induction excerpt with
  | nil => exact .nil
  | take here _ ih => exact .take (both _ _ here) ih
  | skip here _ ih => exact .skip (gone _ here) ih

theorem filter {p : α → Bool} {q : β → Bool} (excerpt : Excerpt dropped same whole part)
    (agree : ∀ a b, same a b → p a = q b) :
    Excerpt dropped same (whole.filter p) (part.filter q) := by
  induction excerpt with
  | nil => exact .nil
  | @take a b _ _ here _ ih =>
    rw [List.filter_cons, List.filter_cons, agree a b here]
    split
    · exact .take here ih
    · exact ih
  | skip here _ ih =>
    rw [List.filter_cons]
    split
    · exact .skip here ih
    · exact ih

/-- A question that only dropped items answer finds nothing in the excerpt. -/
theorem filter_nothing {p : α → Bool} (excerpt : Excerpt dropped same whole part)
    (silent : ∀ a b, same a b → p a = false) : Excerpt dropped same (whole.filter p) [] := by
  have kept : Excerpt dropped same (whole.filter p) (part.filter fun _ => false) :=
    excerpt.filter silent
  rwa [List.filter_eq_nil_iff.mpr fun _ _ => Bool.false_ne_true] at kept

theorem flatMap {absent : γ → Prop} {alike : γ → δ → Prop} {f : α → List γ} {g : β → List δ}
    (excerpt : Excerpt dropped same whole part)
    (both : ∀ a b, same a b → Excerpt absent alike (f a) (g b))
    (gone : ∀ a, dropped a → Excerpt absent alike (f a) []) :
    Excerpt absent alike (whole.flatMap f) (part.flatMap g) := by
  induction excerpt with
  | nil => exact .nil
  | take here _ ih => exact (both _ _ here).append ih
  | skip here _ ih => exact (gone _ here).append ih

/-- The places of the items of a list and of those of its excerpt. -/
theorem range (excerpt : Excerpt dropped same whole part) :
    Excerpt (fun i => ∃ a, whole[i]? = some a ∧ dropped a)
      (fun i j => ∃ a b, whole[i]? = some a ∧ part[j]? = some b ∧ same a b)
      (List.range whole.length) (List.range part.length) := by
  induction excerpt with
  | nil => exact .nil
  | @take a b _ _ here _ ih =>
    rw [List.length_cons, List.length_cons, List.range_succ_eq_map, List.range_succ_eq_map]
    exact .take ⟨a, b, rfl, rfl, here⟩ (ih.map (fun _ _ both => both) fun _ gone => gone)
  | @skip a whole part here _ ih =>
    rw [List.length_cons, List.range_succ_eq_map, ← List.map_id (List.range part.length)]
    exact .skip ⟨_, rfl, here⟩ (ih.map (fun _ _ both => both) fun _ gone => gone)

theorem of_filter (items : List α) (p : α → Bool) :
    Excerpt (fun a => p a = false) (fun a b => a = b ∧ p a = true) items (items.filter p) := by
  induction items with
  | nil => exact .nil
  | cons a rest ih =>
    cases passes : p a with
    | true =>
      rw [List.filter_cons_of_pos passes]
      exact .take ⟨rfl, passes⟩ ih
    | false =>
      rw [List.filter_cons_of_neg (by simp [passes])]
      exact .skip passes ih

theorem eq_filter_map {p : α → Bool} {f : α → β} (excerpt : Excerpt dropped same whole part)
    (both : ∀ a b, same a b → p a = true ∧ b = f a) (gone : ∀ a, dropped a → p a = false) :
    part = (whole.filter p).map f := by
  induction excerpt with
  | nil => rfl
  | @take a b _ _ here _ ih =>
    obtain ⟨passes, rfl⟩ := both a b here
    rw [List.filter_cons_of_pos passes, List.map_cons, ih]
  | skip here _ ih =>
    rw [List.filter_cons_of_neg (by simp [gone _ here])]
    exact ih

theorem split (excerpt : Excerpt dropped same whole part) {a : α} (member : a ∈ whole) :
    dropped a ∨ ∃ b ∈ part, same a b := by
  induction excerpt with
  | nil => cases member
  | take here _ ih =>
    rcases List.mem_cons.mp member with rfl | later
    · exact .inr ⟨_, List.mem_cons_self, here⟩
    · exact (ih later).imp_right fun ⟨b, there, both⟩ => ⟨b, List.mem_cons_of_mem _ there, both⟩
  | skip here _ ih =>
    rcases List.mem_cons.mp member with rfl | later
    · exact .inl here
    · exact ih later

theorem eq_nil (excerpt : Excerpt dropped same ([] : List α) part) : part = [] := by
  cases excerpt
  rfl

end Excerpt

end Constructicon
