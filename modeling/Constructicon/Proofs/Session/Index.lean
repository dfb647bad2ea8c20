import Constructicon.Proofs.Session.Reports
import Constructicon.Proofs.Session.Share
import Mathlib.Data.List.Nodup
import Mathlib.Data.List.Perm.Subperm

/-! The active listeners by node. An index of them need not be computed anew: what is planted is
added to the entry of its node, what the token takes and what is swept away is taken out of it, and
an entry that is emptied goes. Kept in this way along any calls, the index lists at every node
exactly the listeners active there, each of them once. -/
namespace Constructicon

/-- For each node that has active listeners, the ids of these in planting order. -/
abbrev Index := Std.ExtTreeMap Nat (List Nat)

namespace Index

def add (index : Index) (listener : Listener) : Index :=
  index.alter listener.node fun entry => some (entry.getD [] ++ [listener.id])

def addAll (index : Index) (listeners : List Listener) : Index :=
  listeners.foldl add index

/-- Keeps of the entry of a node the ids that pass, and the entry only if one does. -/
def retain (index : Index) (node : Nat) (passes : Nat → Bool) : Index :=
  index.alter node fun entry => (entry.map (·.filter passes)).filter (· ≠ [])

/-- Takes out of the entry of a node what the token at `tick` fires or supersedes. -/
def takeAt (session : Session) (tick : Nat) (index : Index) (node : Nat) : Index :=
  if session.consumesTokens node then
    index.retain node fun id => ¬ (session.listener? id).any (·.readyAt ≤ tick)
  else index

def take (index : Index) (session : Session) (tick : Nat) : Index :=
  index.keys.foldl (takeAt session tick) index

def dropAll (index : Index) (listeners : List Listener) : Index :=
  listeners.foldl (fun index listener => index.retain listener.node (· ≠ listener.id)) index

/-- The ids of all active listeners, node by node. -/
def ids (index : Index) : List Nat :=
  index.toList.flatMap (·.2)

/-- The entries are those of the listeners, and none is empty. -/
structure Lists (index : Index) (active : List Listener) : Prop where
  entries : ∀ node : Nat, (index[node]?).getD [] = (active.filter (·.node = node)).map (·.id)
  filled : ∀ node : Nat, index[node]? ≠ some []

variable {index : Index} {active : List Listener}

theorem lists_nil : Lists ∅ [] := by
  constructor <;> simp

theorem getElem?_add (index : Index) (listener : Listener) (node : Nat) :
    (index.add listener)[node]? = if listener.node = node then
      some ((index[node]?).getD [] ++ [listener.id]) else index[node]? := by
  unfold add
  rw [Std.ExtTreeMap.getElem?_alter]
  by_cases here : listener.node = node
  · subst here
    simp
  · simp [here]

theorem getElem?_retain (index : Index) (place node : Nat) (passes : Nat → Bool) :
    (index.retain place passes)[node]? = if place = node then
      ((index[node]?).map (·.filter passes)).filter (· ≠ []) else index[node]? := by
  unfold retain
  rw [Std.ExtTreeMap.getElem?_alter]
  by_cases here : place = node
  · subst here
    simp
  · simp [here]

theorem Lists.add (lists : index.Lists active) (listener : Listener) :
    (index.add listener).Lists (active ++ [listener]) := by
  constructor
  case entries =>
    intro node
    rw [getElem?_add]
    by_cases here : listener.node = node
    · simp [here, lists.entries node]
    · simp [here, lists.entries node]
  case filled =>
    intro node
    rw [getElem?_add]
    split
    · simp
    · exact lists.filled node

theorem Lists.addAll (lists : index.Lists active) (listeners : List Listener) :
    (index.addAll listeners).Lists (active ++ listeners) := by
  unfold Index.addAll
  induction listeners generalizing index active with
  | nil => simpa using lists
  | cons listener rest ih =>
    rw [List.foldl_cons, List.append_cons]
    exact ih (lists.add listener)

theorem Lists.retain (lists : index.Lists active) (place : Nat) (passes : Nat → Bool) :
    (index.retain place passes).Lists
      (active.filter fun listener => listener.node = place → passes listener.id) := by
  constructor
  case entries =>
    intro node
    rw [getElem?_retain]
    by_cases here : place = node
    · subst here
      have kept : (((index[place]?).map (·.filter passes)).filter (· ≠ [])).getD [] =
          ((index[place]?).getD []).filter passes := by
        cases index[place]? with
        | none => rfl
        | some ids => by_cases none : ids.filter passes = [] <;> simp [Option.filter, none]
      rw [if_pos rfl, kept, lists.entries place, List.filter_map, List.filter_filter,
        List.filter_filter]
      refine congrArg (List.map _) (List.filter_congr fun listener _ => ?_)
      by_cases at' : listener.node = place <;> simp [at']
    · rw [if_neg here, lists.entries node, List.filter_filter]
      refine congrArg (List.map _) (List.filter_congr fun listener _ => ?_)
      by_cases at' : listener.node = node
      · have away : listener.node ≠ place := fun same => here (same.symm.trans at')
        simp [at', at' ▸ away]
      · simp [at']
  case filled =>
    intro node
    rw [getElem?_retain]
    split
    · intro emptied
      obtain ⟨_, nonempty⟩ := Option.filter_eq_some_iff.mp emptied
      exact of_decide_eq_true nonempty rfl
    · exact lists.filled node

theorem Lists.mem_keys (lists : index.Lists active) {listener : Listener}
    (member : listener ∈ active) : listener.node ∈ index.keys := by
  rw [Std.ExtTreeMap.mem_keys, Std.ExtTreeMap.mem_iff_isSome_getElem?]
  have entry := lists.entries listener.node
  have listed : listener.id ∈ (index[listener.node]?).getD [] := by
    rw [entry]
    exact List.mem_map.mpr ⟨listener, List.mem_filter.mpr ⟨member, by simp⟩, rfl⟩
  cases found : index[listener.node]? with
  | none => simp [found] at listed
  | some ids => rfl

theorem Lists.entry (lists : index.Lists active) {node : Nat} {entry : List Nat}
    (found : index[node]? = some entry) :
    entry = (active.filter (·.node = node)).map (·.id) := by
  have same := lists.entries node
  rwa [found, Option.getD_some] at same

theorem Lists.mem_ids (lists : index.Lists active) {id : Nat} :
    id ∈ index.ids ↔ id ∈ active.map (·.id) := by
  simp only [ids, List.mem_flatMap, Prod.exists, Std.ExtTreeMap.mem_toList_iff_getElem?_eq_some]
  constructor
  · rintro ⟨node, entry, found, listed⟩
    rw [lists.entry found] at listed
    exact (List.filter_sublist.map _).subset listed
  · intro active
    obtain ⟨listener, member, rfl⟩ := List.mem_map.mp active
    have here := Std.ExtTreeMap.mem_keys.mp (lists.mem_keys member)
    obtain ⟨entry, found⟩ :=
      Option.isSome_iff_exists.mp (Std.ExtTreeMap.mem_iff_isSome_getElem?.mp here)
    refine ⟨listener.node, entry, found, ?_⟩
    rw [lists.entry found]
    exact List.mem_map.mpr ⟨listener, List.mem_filter.mpr ⟨member, by simp⟩, rfl⟩

/-- No listener is listed twice, neither in one entry nor in two. -/
theorem Lists.nodup_ids (lists : index.Lists active) (distinct : (active.map (·.id)).Nodup) :
    index.ids.Nodup := by
  refine List.nodup_flatMap.mpr ⟨?_, ?_⟩
  · rintro ⟨node, entry⟩ member
    rw [lists.entry (Std.ExtTreeMap.mem_toList_iff_getElem?_eq_some.mp member)]
    exact distinct.sublist (List.filter_sublist.map _)
  · refine Std.ExtTreeMap.distinct_keys_toList.imp_of_mem ?_
    rintro ⟨node, entry⟩ ⟨node', entry'⟩ member member' apart id listed listed'
    rw [lists.entry (Std.ExtTreeMap.mem_toList_iff_getElem?_eq_some.mp member)] at listed
    rw [lists.entry (Std.ExtTreeMap.mem_toList_iff_getElem?_eq_some.mp member')] at listed'
    obtain ⟨a, here, rfl⟩ := List.mem_map.mp listed
    obtain ⟨b, there, same⟩ := List.mem_map.mp listed'
    obtain ⟨activeA, onA⟩ := List.mem_filter.mp here
    obtain ⟨activeB, onB⟩ := List.mem_filter.mp there
    obtain rfl := List.inj_on_of_nodup_map distinct activeA activeB same.symm
    have nodes : node = node' := (of_decide_eq_true onA).symm.trans (of_decide_eq_true onB)
    exact apart (by simp [nodes])

theorem Lists.perm (lists : index.Lists active) (distinct : (active.map (·.id)).Nodup) :
    index.ids.Perm (active.map (·.id)) :=
  (List.perm_ext_iff_of_nodup (lists.nodup_ids distinct) distinct).mpr fun _ => lists.mem_ids

theorem Lists.filter_congr {p q : Listener → Bool} (lists : index.Lists (active.filter p))
    (same : ∀ listener ∈ active, p listener = q listener) : index.Lists (active.filter q) :=
  List.filter_congr same ▸ lists

section Take

variable {session : Session}
  (known : ∀ listener ∈ active, session.listener? listener.id = some listener) (tick : Nat)
include known

theorem Lists.takeAt (lists : index.Lists active) (node : Nat) :
    (takeAt session tick index node).Lists
      (active.filter fun listener => ¬ (listener.node = node ∧ session.isDue tick listener)) := by
  unfold Index.takeAt
  by_cases consumes : session.consumesTokens node = true
  · rw [if_pos consumes]
    refine (lists.retain node _).filter_congr fun listener member => ?_
    by_cases here : listener.node = node
    · simp [here, known listener member, Session.isDue, consumes]
    · simp [here]
  · rw [if_neg consumes]
    have undue (listener : Listener) :
        ¬ (listener.node = node ∧ session.isDue tick listener = true) := by
      rintro ⟨rfl, due⟩
      exact consumes (of_decide_eq_true due).1
    simpa [undue] using lists

theorem Lists.foldl_takeAt (lists : index.Lists active) (nodes : List Nat) :
    (nodes.foldl (Index.takeAt session tick) index).Lists
      (active.filter fun listener => ¬ (listener.node ∈ nodes ∧ session.isDue tick listener)) := by
  induction nodes generalizing index active with
  | nil => simpa using lists
  | cons node rest ih =>
    have taken := ih (fun listener member => known listener (List.mem_of_mem_filter member))
      (lists.takeAt known tick node)
    rw [List.filter_filter] at taken
    refine taken.filter_congr fun listener _ => ?_
    by_cases due : session.isDue tick listener = true <;> simp [due, Bool.and_comm]

/-- What the token takes is what is due. -/
theorem Lists.take (lists : index.Lists active) :
    (index.take session tick).Lists
      (active.filter fun listener => ¬ session.isDue tick listener) := by
  refine (lists.foldl_takeAt known tick index.keys).filter_congr fun listener member => ?_
  simp [lists.mem_keys member]

end Take

theorem Lists.dropAll (lists : index.Lists active) (gone : List Listener)
    (distinct : ∀ a ∈ active, ∀ b ∈ gone, a.id = b.id → a = b) :
    (index.dropAll gone).Lists (active.filter (· ∉ gone)) := by
  unfold Index.dropAll
  induction gone generalizing index active with
  | nil => simpa using lists
  | cons first rest ih =>
    have dropped := ih (lists.retain first.node (· ≠ first.id)) fun a here b later =>
      distinct a (List.mem_of_mem_filter here) b (List.mem_cons_of_mem _ later)
    rw [List.filter_filter] at dropped
    refine dropped.filter_congr fun listener member => ?_
    have told : listener = first ↔ listener.node = first.node ∧ listener.id = first.id :=
      ⟨fun same => same ▸ ⟨rfl, rfl⟩,
        fun same => distinct listener member first List.mem_cons_self same.2⟩
    simp only [List.mem_cons, told]
    by_cases here : listener.node = first.node <;> simp [here, Bool.and_comm]

theorem eq_filter_of_sublist {α : Type} [DecidableEq α] {kept all : List α}
    (sub : kept.Sublist all) (distinct : all.Nodup) : kept = all.filter (· ∈ kept) := by
  have listed : kept.Sublist (all.filter (· ∈ kept)) := by
    have itself : kept.filter (· ∈ kept) = kept := List.filter_eq_self.mpr (by simp)
    have filtered := sub.filter (· ∈ kept)
    rwa [itself] at filtered
  have within : all.filter (· ∈ kept) ⊆ kept := fun item member =>
    of_decide_eq_true (List.mem_filter.mp member).2
  exact listed.eq_of_length_le (List.subperm_of_subset (distinct.filter _) within).length_le

/-- What is left when all others are dropped, one by one. -/
theorem Lists.keep {kept : List Listener} (lists : index.Lists active)
    (sub : kept.Sublist active) (distinct : (active.map (·.id)).Nodup) :
    (index.dropAll (active.filter (· ∉ kept))).Lists kept := by
  have dropped := lists.dropAll (active.filter (· ∉ kept)) fun a here b gone same =>
    List.inj_on_of_nodup_map distinct here (List.mem_of_mem_filter gone) same
  have rest := dropped.filter_congr (q := (· ∈ kept)) fun listener member => by simp [member]
  rwa [← eq_filter_of_sublist sub distinct.of_map] at rest

end Index

namespace Session
open Tick

variable {tokens : List Token} {session : Session}

/-- What has been planted since `before`. -/
def plantedSince (session before : Session) : List Listener :=
  session.arena.toList.drop before.arena.size

/-- How a call edits an index kept along. -/
def reindex (session : Session) (index : Index) : Call → Index
  | .feed token =>
    if session.aborted then index
    else
      let opened := (index.addAll (session.seeded.plantedSince session)).take session.seeded
        (session.time + 1)
      let tick := session.tick token
      (opened.addAll (tick.session.plantedSince session.seeded)).dropAll
        (tick.session.active.filter (· ∉ (session.feed token).2.active))
  | .register automaton =>
    match session.register automaton with
    | .error _ => index
    | .ok after => index.addAll (after.plantedSince session)
  | .reset => Index.addAll ∅ session.reset.arena.toList

def reindexAll (session : Session) (index : Index) : List Call → Index
  | [] => index
  | call :: rest => (session.call sweepUnified call).2.reindexAll (session.reindex index call) rest

/-- The index kept along all calls since the opening of a session. -/
def indexed (session : Session) (calls : List Call) : Index :=
  session.reindexAll (Index.addAll ∅ session.arena.toList) calls

/-- The ids of the listeners planted count up. -/
theorem Sound.ids_arena (sound : session.Sound tokens) :
    session.arena.toList.map (·.id) = List.range session.arena.size := by
  apply List.ext_getElem
  · simp
  · intro position bound bound'
    have found := List.getElem?_eq_getElem (l := session.arena.toList) (i := position)
      (by simpa using bound)
    simpa using (sound.arena position _ found).id

theorem Sound.ids_active (sound : session.Sound tokens) :
    (session.active.map (·.id)).Pairwise (· < ·) :=
  (sound.ids_arena ▸ List.pairwise_lt_range).sublist (sound.active.map _)

theorem Sound.nodup_ids (sound : session.Sound tokens) : (session.active.map (·.id)).Nodup :=
  sound.ids_active.imp Nat.ne_of_lt

theorem Sound.listener?_planted (sound : session.Sound tokens) {listener : Listener}
    (planted : listener ∈ session.arena.toList) :
    session.listener? listener.id = some listener := by
  obtain ⟨position, found⟩ := List.mem_iff_getElem?.mp planted
  rw [listener?, (sound.arena position listener found).id, ← Array.getElem?_toList]
  exact found

theorem start_active (network : Network) (mode : Mode) (limits : Limits) :
    (start network mode limits).active = (start network mode limits).arena.toList := by
  cases mode with
  | unified => rfl
  | isolated => simp [start, seedAll_eq, grow]

/-- The index before anything fires: seeds have been added, and what is due has been taken. -/
theorem lists_opened {index : Index} (token : Token) (lists : index.Lists session.active)
    (sound : session.Sound tokens) (now : session.time = tokens.length) :
    ((index.addAll (session.seeded.plantedSince session)).take session.seeded
      (session.time + 1)).Lists session.opened.session.active := by
  have seeds : session.seeded.plantedSince session = session.seeds := by
    simp [plantedSince, seeded_eq, grow]
  have due : session.seeded.isDue = session.isDue := by
    rw [seeded_eq]
    rfl
  have known : ∀ listener ∈ session.active ++ session.seeds,
      session.seeded.listener? listener.id = some listener := by
    intro listener member
    have planted : listener ∈ session.opened.session.arena.toList := by
      rw [opened_arena]
      exact (sound.active.append (.refl _)).subset member
    exact (sound_opened token sound now).session.listener?_planted planted
  have taken := (lists.addAll session.seeds).take known (session.time + 1)
  rwa [seeds, opened_active, ← due]

theorem lists_feed {index : Index} (token : Token) (lists : index.Lists session.active)
    (sound : session.Sound tokens) (now : session.time = tokens.length) :
    (session.reindex index (.feed token)).Lists (session.feed token).2.active := by
  cases going : session.aborted with
  | true =>
    simp only [reindex, going, if_true, feed, feedWith_refused token going]
    exact lists
  | false =>
    obtain ⟨events, planted, tells⟩ := tells_tick token sound now
    have followers : (session.tick token).session.plantedSince session.seeded = planted := by
      have before : session.opened.session.arena = session.seeded.arena := rfl
      rw [plantedSince, tells.arena, before, ← Array.length_toList, List.drop_left]
    have grown := (lists_opened token lists sound now).addAll planted
    rw [← tells.active] at grown
    simp only [reindex, going, Bool.false_eq_true, if_false, followers]
    obtain ⟨kept, aborted, sub, fed⟩ := feedWith_ticked dropping_sweepUnified token going
    have rest : (session.feed token).2.active = kept := (congrArg active fed).trans rfl
    rw [rest]
    exact grown.keep sub (sound_tick token sound now).session.nodup_ids

theorem lists_register {index : Index} {automaton : Automaton} {after : Session}
    (lists : index.Lists session.active) (ok : session.register automaton = .ok after) :
    (index.addAll (after.plantedSince session)).Lists after.active := by
  obtain ⟨network, listeners, _, rfl⟩ := register_grows ok
  simpa [plantedSince, grow] using lists.addAll listeners

theorem lists_start (network : Network) (mode : Mode) (limits : Limits) :
    (Index.addAll ∅ (start network mode limits).arena.toList).Lists
      (start network mode limits).active := by
  rw [start_active]
  exact Index.lists_nil.addAll _

theorem lists_call {index : Index} (lists : index.Lists session.active)
    (sound : session.Sound tokens) (now : session.time = tokens.length) (call : Call) :
    (session.reindex index call).Lists (session.call sweepUnified call).2.active := by
  cases call with
  | feed token => exact lists_feed token lists sound now
  | register automaton =>
    simp only [reindex, Session.call]
    cases ok : session.register automaton with
    | error error => exact lists
    | ok after => exact lists_register lists ok
  | reset => exact lists_start ..

end Session

/-- How a listener was planted: on a node of its pattern, either as a first element or after the
firing that it continues at the next tick. -/
structure Listener.Rooted (session : Session) (listener : Listener) : Prop where
  owner : ∃ site, session.network.sites[listener.node]? = some site ∧
    site.pattern = some listener.pattern
  born : listener.bornAt = listener.readyAt - 1
  begins : listener.start = none ↔ listener.origin = none
  opens : listener.origin = none → ∃ member,
    session.network.members[listener.pattern]? = some member ∧ listener.node ∈ member.entryNodes
  follows : ∀ cause, listener.origin = some cause → ∃ event member last,
    session.events[cause]? = some event ∧ event.kind = .fire ∧
    session.network.members[listener.pattern]? = some member ∧ event.pattern = member.name ∧
    listener.start = some event.start ∧ listener.readyAt = event.time + 1 ∧
    session.network.find? event.pattern event.node = some last ∧
    listener.node ∈ (session.network.closureAfter last).elements

/-- What an active listener waits for: the next token, or completions of what it refers to. -/
structure Listener.Awaits (session : Session) (listener : Listener) : Prop where
  token : session.consumesTokens listener.node = true → listener.readyAt = session.time + 1
  reference : session.consumesTokens listener.node = false → session.mode = .unified ∧
    (∃ site, session.network.sites[listener.node]? = some site ∧ site.reference.isSome = true) ∧
    1 ≤ listener.readyAt ∧ listener.readyAt ≤ session.time + 1

namespace Session

variable {tokens : List Token} {session : Session}

theorem Sound.rooted (sound : session.Sound tokens) {id : Nat} {listener : Listener}
    (found : session.listener? id = some listener) :
    listener.id = id ∧ listener.Rooted session := by
  rw [listener?, ← Array.getElem?_toList] at found
  obtain ⟨same, _, born, grounded⟩ := sound.arena id listener found
  obtain ⟨site, here, _, owned⟩ := grounded.site sound.network
  cases grounded with
  | entry origin start registered opens =>
    refine ⟨same, ⟨site, here, owned⟩, born, by simp [origin, start],
      fun _ => ⟨_, registered, opens⟩, fun cause planted => ?_⟩
    cases origin.symm.trans planted
  | after origin recorded fired start adjacent place pattern follows =>
    obtain ⟨member, registered, name⟩ := Network.Sound.member_of_memberIndex? pattern
    refine ⟨same, ⟨site, here, owned⟩, born, by simp [origin, start], fun none => ?_,
      fun cause planted => ?_⟩
    · cases origin.symm.trans none
    · cases origin.symm.trans planted
      exact ⟨_, member, _, recorded, fired, registered, name.symm, start, adjacent, place, follows⟩

theorem Sound.awaits (sound : session.Sound tokens) (now : session.time = tokens.length)
    {listener : Listener} (member : listener ∈ session.active) : listener.Awaits session := by
  have ready := sound.ready listener member
  obtain ⟨position, found⟩ := List.mem_iff_getElem?.mp (sound.active.subset member)
  have here := sound.arena position listener found
  constructor
  case token =>
    intro consumes
    rw [now]
    exact ready.2 consumes
  case reference =>
    intro waits
    obtain ⟨site, at', role, _⟩ := here.grounded.site sound.network
    have kinds : ¬ (site.reference = none ∨ session.mode = .isolated) := by
      intro consumes
      rw [(consumesTokens_iff at').mpr ⟨role, consumes⟩] at waits
      cases waits
    obtain ⟨refers, composed⟩ := not_or.mp kinds
    refine ⟨?_, ⟨site, at', Option.isSome_iff_ne_none.mpr refers⟩, here.ready, now ▸ ready.1⟩
    cases mode : session.mode with
    | unified => rfl
    | isolated => exact absurd mode composed

end Session

namespace Course
open Session

variable {course : Course}

/-- The index kept along lists what is active. -/
theorem Reached.lists (reached : course.Reached Opening sweepUnified) {index : Index}
    (lists : index.Lists course.session.active) (calls : List Call)
    (compiled : ∀ call ∈ calls, call.Compiled) :
    (course.session.reindexAll index calls).Lists
      (course.session.run sweepUnified calls).2.active := by
  induction calls generalizing course index with
  | nil => exact lists
  | cons call rest ih =>
    obtain ⟨sound, now⟩ := reached.sound (fun _ opening => opening.starts) dropping_sweepUnified
    exact ih (reached.call call (compiled call List.mem_cons_self))
      (lists_call lists sound now call) fun later member =>
        compiled later (List.mem_cons_of_mem _ member)

/-- An isolated session is never aborted, since nothing cascades. -/
theorem Reached.going_isolated (reached : course.Reached Opening sweepUnified) :
    course.session.mode = .isolated → course.session.aborted = false := by
  induction reached with
  | start opening =>
    obtain ⟨network, mode, limits, rfl, _⟩ := opening.starts
    intro _
    exact aborted_start network mode limits
  | @call course before call compiled ih =>
    intro isolated
    cases call with
    | feed token =>
      have basis := feedWith_basis dropping_sweepUnified course.session token
      have mode : course.session.mode = .isolated := (mode_of_basis basis).symm.trans isolated
      exact aborted_feedWith dropping_sweepUnified (ih mode) (tick_settled mode token)
    | register automaton =>
      simp only [Course.call, Session.call] at isolated ⊢
      cases ok : course.session.register automaton with
      | error error =>
        rw [ok] at isolated
        exact ih isolated
      | ok after =>
        rw [ok] at isolated
        obtain ⟨_, _, _, rfl⟩ := register_grows ok
        exact ih isolated
    | reset => exact aborted_start ..

/-- After a token, an isolated session listens just where the report says. -/
theorem Reached.isolated_feed (reached : course.Reached Opening sweepUnified)
    (isolated : course.session.mode = .isolated) (token : Token) :
    ∃ report, (course.session.feed token).1 = .ok report ∧
      (course.session.feed token).2.active.length = report.newListeners.length := by
  obtain ⟨sound, now⟩ := reached.sound (fun _ opening => opening.starts) dropping_sweepUnified
  obtain ⟨events, planted, tells⟩ := tells_tick token sound now
  have fed : course.session.feedWith sweepUnified token = _ :=
    feedWith_settled (reached.going_isolated isolated) (tick_settled isolated token)
  have mode : (course.session.tick token).session.mode = .isolated :=
    (mode_of_frame (course.session.tick_frame token)).trans isolated
  refine ⟨(course.session.tick token).report, congrArg Prod.fst fed, ?_⟩
  have unswept : (course.session.feed token).2.active =
      (course.session.tick token).session.active := by
    rw [feed, fed]
    simp only [sweepUnified, mode]
  rw [unswept, tells.active, tells.newListeners, sound.opened_isolated now isolated]
  simp [Session.opened]

/-- The listeners of a session and the index kept of those that are active, after any calls in
either mode. -/
theorem listeners_indexed {session : Session} (opening : Opening session) (calls : List Call)
    (compiled : ∀ call ∈ calls, call.Compiled) :
    let after := (session.run sweepUnified calls).2
    let index := session.indexed calls
    (∀ (id : Nat) (listener : Listener), after.listener? id = some listener →
      listener.id = id ∧ listener.Rooted after) ∧
    (∀ (node : Nat) (entry : List Nat), index[node]? = some entry →
      entry ≠ [] ∧ entry.Pairwise (· < ·) ∧
        ∀ id ∈ entry, ∃ listener, after.listener? id = some listener ∧ listener.node = node) ∧
    index.ids.Nodup ∧
    index.ids.Perm (after.active.map (·.id)) ∧
    (∀ id ∈ index.ids, ∃ listener, after.listener? id = some listener ∧ listener.Awaits after) ∧
    (after.mode = .isolated → ∀ token : Token, ∃ report, (after.feed token).1 = .ok report ∧
      (after.reindex index (.feed token)).ids.length = report.newListeners.length) := by
  intro after index
  have start : (Course.start session).Reached Opening sweepUnified := .start opening
  have listed : (Index.addAll ∅ session.arena.toList).Lists session.active := by
    obtain ⟨network, mode, limits, rfl, _⟩ := opening.starts
    exact lists_start network mode limits
  have lists : index.Lists after.active := start.lists listed calls compiled
  obtain ⟨course, reached, same⟩ := start.run calls compiled
  change course.session = after at same
  clear_value after index
  subst same
  obtain ⟨sound, now⟩ := reached.sound (fun _ opening => opening.starts) dropping_sweepUnified
  have known {listener : Listener} (member : listener ∈ course.session.active) :
      course.session.listener? listener.id = some listener :=
    sound.listener?_planted (sound.active.subset member)
  refine ⟨fun id listener found => sound.rooted found, fun node entry found => ⟨?_, ?_, ?_⟩,
    lists.nodup_ids sound.nodup_ids, lists.perm sound.nodup_ids, fun id listed => ?_,
    fun isolated token => ?_⟩
  · rintro rfl
    exact lists.filled node found
  · rw [lists.entry found]
    exact sound.ids_active.sublist (List.filter_sublist.map _)
  · intro id listed
    rw [lists.entry found] at listed
    obtain ⟨listener, member, rfl⟩ := List.mem_map.mp listed
    obtain ⟨active, here⟩ := List.mem_filter.mp member
    exact ⟨listener, known active, of_decide_eq_true here⟩
  · obtain ⟨listener, active, rfl⟩ := List.mem_map.mp (lists.mem_ids.mp listed)
    exact ⟨listener, known active, sound.awaits now active⟩
  · obtain ⟨report, accepted, count⟩ := reached.isolated_feed isolated token
    have fed := (sound_feedWith dropping_sweepUnified token (reached.going_isolated isolated) sound
      now).1
    have perm := (lists_feed token lists sound now).perm fed.nodup_ids
    exact ⟨report, accepted, by rw [perm.length_eq, List.length_map, count]⟩

/-- Among sums the references at the first token wait on after the second, and the pattern that
joined between has begun; on its own, the same pattern moves on with every token that it takes. -/
theorem listeners_indexed_pairs :
    let calls : List Call := [.feed ⟨"N", "1"⟩, .register pairsAutomaton, .feed ⟨"N", "2"⟩]
    let composed := ((unified sumsNetwork {}).run sweepUnified calls).2
    let index := (unified sumsNetwork {}).indexed calls
    let alone := Session.start {} .isolated {}
    let joined := (alone.run sweepUnified [.register pairsAutomaton]).2
    (∀ (id : Nat) (listener : Listener), composed.listener? id = some listener →
      listener.id = id ∧ listener.Rooted composed) ∧
    index.ids.Perm [1, 2, 4, 5, 6, 7, 8] ∧
    (∀ id ∈ index.ids, ∃ listener,
      composed.listener? id = some listener ∧ listener.Awaits composed) ∧
    joined.mode = .isolated ∧
    ∃ report, (joined.feed ⟨"sum", "a"⟩).1 = .ok report ∧
      (joined.reindex (alone.indexed [.register pairsAutomaton]) (.feed ⟨"sum", "a"⟩)).ids.length =
        report.newListeners.length := by
  intro calls composed index alone joined
  have grammar : Opening (unified sumsNetwork {}) := .unified (.composed (.grammar sums_network))
  have opened : Session.isolated [] {} = .ok alone := rfl
  have empty : Opening alone := .isolated (List.forall_mem_nil _) opened
  obtain ⟨rooted, _, _, listed, awaits, _⟩ := listeners_indexed grammar calls
    (by simp [calls, Call.Compiled, pairs_compiled])
  obtain ⟨_, _, _, _, _, counted⟩ := listeners_indexed empty [.register pairsAutomaton]
    (by simp [Call.Compiled, pairs_compiled])
  have active : composed.active.map (·.id) = [1, 2, 4, 5, 6, 7, 8] := by decide +kernel
  have isolated : joined.mode = .isolated := by decide +kernel
  exact ⟨rooted, active ▸ listed, awaits, isolated, counted isolated ⟨"sum", "a"⟩⟩

end Course

end Constructicon
