import Constructicon.Proofs.Session.Reports

/-! The views of a session are views of its log. The histories of the nodes keep one entry for each
event, so a history is the events of its node, the snapshot of a pattern is the events of the
pattern counted and sorted by node, and a report is the events and the listeners that the tick has
appended. This holds at every point of every course, also once the session is aborted. -/
namespace Constructicon

namespace Session
open Tick

variable {tokens : List Token} {session : Session}

/-- The histories of the nodes, taken together, are the log. -/
def Noted (session : Session) : Prop :=
  List.Forall₂ (Event.Noted session.network) session.firings.toList session.log.toList

theorem Noted.grow_network {network : Network} (noted : session.Noted)
    (sound : session.network.Sound) (grown : network.Sound)
    (grows : session.network.Grows network) : Noted { session with network } := by
  refine List.Forall₂.imp (fun entry event here => ?_) noted
  obtain ⟨site, found, role⟩ := here.role
  exact ⟨grows.find? sound grown here.place, here.firing, site, grows.site found, role⟩

theorem noted_start (network : Network) (mode : Mode) (limits : Limits) :
    (start network mode limits).Noted := by
  cases mode with
  | unified => exact .nil
  | isolated =>
    simp only [start, seedAll_eq]
    exact .nil

theorem Noted.feedWith {sweep : Session → Session} (noted : session.Noted)
    (dropping : Dropping sweep) (token : Token) (sound : session.Sound tokens)
    (now : session.time = tokens.length) : (session.feedWith sweep token).2.Noted := by
  cases going : session.aborted with
  | true =>
    rw [feedWith_refused token going]
    exact noted
  | false =>
    obtain ⟨kept, aborted, _, fed⟩ := feedWith_ticked dropping token going
    obtain ⟨events, _, tells⟩ := tells_tick token sound now
    obtain ⟨entries, same, facts⟩ := tells.firings
    have firings : session.opened.session.firings = session.firings := by rw [opened_eq]
    rw [fed]
    change List.Forall₂ _ (session.tick token).session.firings.toList
      (session.tick token).session.log.toList
    rw [same, tells.log, tells.network, firings, opened_log, opened_network]
    rw [opened_network] at facts
    exact List.rel_append noted facts

theorem Noted.register {automaton : Automaton} {after : Session} (noted : session.Noted)
    (sound : session.network.Sound) (compiled : automaton.Compiled)
    (ok : session.register automaton = .ok after) : after.Noted := by
  obtain ⟨network, _, attached, rfl⟩ := register_grows ok
  obtain ⟨grown, grows, _⟩ := Network.attach_grows sound compiled.sound attached
  exact noted.grow_network sound grown grows

section Views

/-- The histories and the log select alike what they agree on. -/
theorem Noted.map_filter {β : Type} (noted : session.Noted) {p : Nat → Bool} {q : Event → Bool}
    {f : Firing → β} {g : Event → β}
    (selects : ∀ node firing event, event.Noted session.network (node, firing) → p node = q event)
    (reads : ∀ event : Event, f ⟨event.time, event.elementValue⟩ = g event) :
    (session.firings.toList.filter fun entry => p entry.1).map (fun entry => f entry.2) =
      (session.events.filter q).map g := by
  unfold Noted at noted
  unfold events
  generalize session.firings.toList = entries at noted ⊢
  generalize session.log.toList = log at noted ⊢
  induction noted with
  | nil => rfl
  | @cons entry event _ _ here _ ih =>
    have same := selects entry.1 entry.2 event here
    rw [List.filter_cons, List.filter_cons, same]
    split
    · rw [List.map_cons, List.map_cons, ih, here.firing, reads]
    · exact ih

/-- The node that an event found is the one place where it was noted. -/
theorem noted_iff (sound : session.network.Sound) {pattern node : String} {index : Nat}
    (found : session.network.find? pattern node = some index) {entry : Nat × Firing} {event : Event}
    (noted : event.Noted session.network entry) :
    entry.1 = index ↔ event.pattern = pattern ∧ event.node = node := by
  constructor
  · intro same
    exact sound.find?_injective noted.place (same ▸ found)
  · rintro ⟨rfl, rfl⟩
    exact Option.some.inj (noted.place.symm.trans found)

theorem firingsOf_eq (noted : session.Noted) (sound : session.network.Sound)
    (pattern node : String) : session.firingsOf pattern node =
      (session.events.filter fun event => event.pattern = pattern ∧ event.node = node).map
        fun event => ⟨event.time, event.elementValue⟩ := by
  unfold firingsOf
  cases found : session.network.find? pattern node with
  | none =>
    have none := noted.map_filter (p := fun _ => false)
      (q := fun event => event.pattern = pattern ∧ event.node = node) (f := fun firing => firing)
      (fun _ _ _ here => (decide_eq_false fun same => by
        obtain ⟨rfl, rfl⟩ := same
        cases found.symm.trans here.place).symm) fun _ => rfl
    simpa using none
  | some index =>
    exact noted.map_filter (p := fun node => node = index) (f := fun firing => firing)
      (fun _ _ _ noted => decide_eq_decide.mpr (noted_iff sound found noted)) fun _ => rfl

/-- When an element of a pattern has fired, by the log. -/
def timesLogged (session : Session) (pattern node : String) : List Nat :=
  (session.events.filter fun event =>
    event.kind = .fire ∧ event.pattern = pattern ∧ event.node = node).map (·.time)

/-- What the log says of the pattern `name`, the one at the place `owner`: its elements that have
fired, and how often it has completed. -/
def stateLogged (session : Session) (owner : Nat) (name : String) : PatternState :=
  { firedNodes := (session.network.sites.filter fun site => site.pattern = some owner ∧
        site.role = .element ∧ session.timesLogged name site.localId ≠ []).map
      fun site =>
        { id := site.localId, elementType := site.matchType
          timestamps := session.timesLogged name site.localId }
    completions := (session.events.filter fun event =>
      event.kind = .complete ∧ event.pattern = name).length }

theorem timesFired_eq (noted : session.Noted) (sound : session.network.Sound) {owner index : Nat}
    {member : Member} {site : Site} (registered : session.network.members[owner]? = some member)
    (found : session.network.sites[index]? = some site) (owned : site.pattern = some owner)
    (element : site.role = .element) :
    session.timesFired index = session.timesLogged member.name site.localId := by
  have place : session.network.find? member.name site.localId = some index :=
    sound.find?_eq_some.mpr
      ⟨owner, site, sound.memberIndex?_eq registered, found, owned, rfl, by simp [element]⟩
  refine noted.map_filter (p := fun node => node = index) (f := (·.time)) ?_ fun _ => rfl
  intro node firing event here
  rw [decide_eq_decide, noted_iff sound place here]
  constructor
  · intro same
    obtain ⟨site', found', role⟩ := here.role
    have spot : node = index := (noted_iff sound place here).mpr same
    cases found.symm.trans (spot ▸ found')
    rw [element] at role
    refine ⟨?_, same⟩
    cases kind : event.kind with
    | fire => rfl
    | complete =>
      rw [kind] at role
      cases role
  · exact fun same => same.2

/-- Only elements fire and only ends complete. -/
theorem timesFired_eq_nil (noted : session.Noted) {index : Nat} {site : Site}
    (found : session.network.sites[index]? = some site) (element : site.role ≠ .element)
    (finish : site.role ≠ .finish) : session.timesFired index = [] := by
  have none := noted.map_filter (p := fun node => node = index) (q := fun _ => false)
    (f := (·.time))
    (fun node _ event here => decide_eq_false fun same => by
      obtain ⟨site', found', role⟩ := here.role
      cases found.symm.trans (same ▸ found')
      cases kind : event.kind with
      | fire =>
        rw [kind] at role
        exact element role
      | complete =>
        rw [kind] at role
        exact finish role) fun _ => rfl
  exact none.trans (by simp)

theorem length_filter_mem_cons {α : Type} {node : Nat} {rest : List Nat} (fresh : node ∉ rest)
    (entries : List (Nat × α)) : (entries.filter (·.1 ∈ node :: rest)).length =
      (entries.filter (·.1 = node)).length + (entries.filter (·.1 ∈ rest)).length := by
  induction entries with
  | nil => rfl
  | cons entry others ih => grind

theorem length_flatMap_filter {α β : Type} {nodes : List Nat} (distinct : nodes.Nodup)
    (entries : List (Nat × α)) (read : Nat × α → β) :
    (nodes.flatMap fun node => (entries.filter (·.1 = node)).map read).length =
      (entries.filter (·.1 ∈ nodes)).length := by
  induction nodes with
  | nil => simp
  | cons node rest ih =>
    obtain ⟨fresh, distinct⟩ := List.nodup_cons.mp distinct
    rw [List.flatMap_cons, List.length_append, List.length_map, ih distinct,
      length_filter_mem_cons fresh]

/-- The places of the ends of a pattern. -/
def endsOf (session : Session) (owner : Nat) : List Nat :=
  ((session.sitesOf owner).filter (·.2.role = .finish)).map (·.1)

theorem mem_sitesOf {owner index : Nat} {site : Site} : (index, site) ∈ session.sitesOf owner ↔
    session.network.sites[index]? = some site ∧ site.pattern = some owner := by
  simp [sitesOf, List.mem_mapIdx, List.getElem?_eq_some_iff]

theorem mem_endsOf {owner index : Nat} : index ∈ session.endsOf owner ↔
    ∃ site, session.network.sites[index]? = some site ∧ site.pattern = some owner ∧
      site.role = .finish := by
  simp [endsOf, mem_sitesOf, and_assoc]

theorem nodup_endsOf (session : Session) (owner : Nat) : (session.endsOf owner).Nodup := by
  have places : (session.network.sites.mapIdx fun node site => (node, site)).map (·.1) =
      List.range session.network.sites.length := by
    apply List.ext_getElem <;> simp
  have distinct : ((session.network.sites.mapIdx fun node site => (node, site)).map (·.1)).Nodup :=
    places ▸ List.nodup_range
  exact distinct.sublist ((List.filter_sublist.trans List.filter_sublist).map _)

theorem completions_eq (noted : session.Noted) (sound : session.network.Sound) {owner : Nat}
    {member : Member} (registered : session.network.members[owner]? = some member) :
    (session.patternState owner).completions = (session.events.filter fun event =>
      event.kind = .complete ∧ event.pattern = member.name).length := by
  have counted : (session.patternState owner).completions =
      (session.firings.toList.filter (·.1 ∈ session.endsOf owner)).length := by
    rw [← length_flatMap_filter (session.nodup_endsOf owner) _ (·.2.time)]
    simp only [patternState, endsOf, List.filter_map, List.flatMap_map]
    rfl
  have selected := noted.map_filter (p := (· ∈ session.endsOf owner))
    (q := fun event => event.kind = .complete ∧ event.pattern = member.name) (f := (·.time)) ?_
    fun _ => rfl
  · rw [counted, ← List.length_map (f := fun entry : Nat × Firing => entry.2.time), selected,
      List.length_map]
  intro node firing event here
  obtain ⟨site, found, role⟩ := here.role
  obtain ⟨owner', site', index, found', owned, _⟩ := sound.find?_eq_some.mp here.place
  cases found.symm.trans found'
  rw [decide_eq_decide, mem_endsOf]
  constructor
  · rintro ⟨final, foundFinal, ownedFinal, finish⟩
    cases found.symm.trans foundFinal
    cases owned.symm.trans ownedFinal
    obtain ⟨_, same, name⟩ := Network.Sound.member_of_memberIndex? index
    cases registered.symm.trans same
    refine ⟨?_, name.symm⟩
    cases kind : event.kind with
    | complete => rfl
    | fire =>
      rw [kind, finish] at role
      cases role
  · rintro ⟨completed, named⟩
    rw [named, sound.memberIndex?_eq registered] at index
    cases index
    rw [completed] at role
    exact ⟨site, found, owned, role⟩

theorem patternState_eq (noted : session.Noted) (sound : session.network.Sound) {owner : Nat}
    {member : Member} (registered : session.network.members[owner]? = some member) :
    session.patternState owner = session.stateLogged owner member.name := by
  have fired : (session.patternState owner).firedNodes =
      (session.stateLogged owner member.name).firedNodes := by
    have listed : (session.network.sites.mapIdx fun node site => (node, site)).map (·.2) =
        session.network.sites := by
      apply List.ext_getElem <;> simp
    rw [stateLogged, ← listed]
    simp only [patternState, sitesOf, List.filter_map, List.map_map, List.filter_filter]
    refine (congrArg (List.map _) (List.filter_congr ?_)).trans (List.map_congr_left ?_)
    · rintro ⟨index, site⟩ here
      have found : session.network.sites[index]? = some site := by
        simpa [List.mem_mapIdx, List.getElem?_eq_some_iff] using here
      by_cases owned : site.pattern = some owner
      · by_cases element : site.role = .element
        · simp [owned, element, timesFired_eq noted sound registered found owned element]
        · by_cases finish : site.role = .finish
          · simp [finish]
          · simp [element, timesFired_eq_nil noted found element finish]
      · simp [owned]
    · rintro ⟨index, site⟩ here
      obtain ⟨here, facts⟩ := List.mem_filter.mp here
      have found : session.network.sites[index]? = some site := by
        simpa [List.mem_mapIdx, List.getElem?_eq_some_iff] using here
      obtain ⟨owned, element, _⟩ := of_decide_eq_true facts
      simp [timesFired_eq noted sound registered found owned element]
  have completed : (session.patternState owner).completions =
      (session.stateLogged owner member.name).completions := completions_eq noted sound registered
  cases state : session.patternState owner
  cases logged : session.stateLogged owner member.name
  simp_all

end Views

theorem snapshot_states (noted : session.Noted) (sound : session.network.Sound) (name : String) :
    session.snapshot.patternStates.get? name =
      (session.network.memberIndex? name).map (session.stateLogged · name) := by
  have distinct : ((session.network.members.mapIdx fun owner member =>
      (member.name, session.patternState owner)).map (·.1)).Nodup := by
    have names : (session.network.members.mapIdx fun owner member =>
        (member.name, session.patternState owner)).map (·.1) =
          session.network.members.map (·.name) := by
      apply List.ext_getElem <;> simp
    exact names ▸ sound.distinct
  refine Option.ext fun state => (Table.get?_ofList distinct).trans ?_
  rw [List.mem_mapIdx, Option.map_eq_some_iff]
  constructor
  · rintro ⟨owner, bound, same⟩
    obtain ⟨rfl, rfl⟩ := Prod.mk.inj same
    have registered := List.getElem?_eq_getElem bound
    exact ⟨owner, sound.memberIndex?_eq registered, (patternState_eq noted sound registered).symm⟩
  · rintro ⟨owner, index, rfl⟩
    obtain ⟨member, registered, rfl⟩ := Network.Sound.member_of_memberIndex? index
    obtain ⟨bound, rfl⟩ := List.getElem?_eq_some_iff.mp registered
    exact ⟨owner, bound, congrArg (Prod.mk _) (patternState_eq noted sound registered)⟩

/-- The report of a token that was accepted. -/
theorem report_tells {sweep : Session → Session} (dropping : Dropping sweep) {token : Token}
    {report : Report} (sound : session.Sound tokens) (now : session.time = tokens.length)
    (accepted : (session.feedWith sweep token).1 = .ok report) :
    let after := (session.feedWith sweep token).2
    ∃ events listeners, after.events = session.events ++ events ∧
      after.arena.toList = session.arena.toList ++ listeners ∧
      report.firedNodes = (events.filter (·.kind = .fire)).map Event.place ∧
      report.completedPatterns = (events.filter (·.kind = .complete)).map (·.pattern) ∧
      report.newListeners = (listeners.filter (·.origin.isSome)).map (after.placeOf ·.node) := by
  intro after
  obtain ⟨going, settled⟩ := feedWith_isOk.mp (by rw [accepted]; rfl)
  obtain ⟨events, planted, tells⟩ := tells_tick token sound now
  obtain ⟨_, _, _, fed⟩ := feedWith_ticked dropping token going
  have same : report = (session.tick token).report := by
    rw [feedWith_settled going settled] at accepted
    exact (Except.ok.inj accepted).symm
  have log : after.events = (session.tick token).session.events :=
    events_feedWith dropping token going
  have arena : after.arena = (session.tick token).session.arena :=
    (congrArg Session.arena fed).trans rfl
  have place : after.placeOf = session.opened.session.placeOf := by
    have network : after.network = session.opened.session.network :=
      (congrArg Session.network fed).trans tells.network
    funext node
    simp only [placeOf, network]
  have seeds : session.seeds.filter (·.origin.isSome) = [] := by
    rw [List.filter_eq_nil_iff]
    intro listener member
    simp [(mem_seeds member).2.2]
  have told : planted.filter (·.origin.isSome) = planted :=
    List.filter_eq_self.mpr tells.origin
  refine ⟨events, session.seeds ++ planted, ?_, ?_, ?_, ?_, ?_⟩
  · rw [log, Session.events, tells.log, opened_log]
    rfl
  · rw [arena, tells.arena, opened_arena, List.append_assoc]
  · rw [same, tells.firedNodes]
    rfl
  · rw [same, tells.completedPatterns]
    rfl
  · rw [same, tells.newListeners, List.filter_append, seeds, told, place]
    rfl

end Session

namespace Course
open Session

variable {course : Course}

theorem Reached.noted (reached : course.Reached Opening sweepUnified) : course.session.Noted := by
  induction reached with
  | start opening =>
    obtain ⟨network, mode, limits, rfl, _⟩ := opening.starts
    exact noted_start network mode limits
  | @call course before call compiled ih =>
    obtain ⟨sound, now⟩ := before.sound (fun _ opening => opening.starts) dropping_sweepUnified
    cases call with
    | feed token => exact ih.feedWith dropping_sweepUnified token sound now
    | register automaton =>
      simp only [Course.call, Session.call]
      split
      · exact ih
      · exact ih.register sound.network compiled ‹_›
    | reset => exact noted_start ..

/-- All that a session shows is in its log, in either mode and whether or not it is aborted: the
history of every node, the state of every pattern, and what each accepted token is reported to have
done. Patterns and nodes are told apart by their own names only. -/
theorem views_agree (reached : course.Reached Opening sweepUnified) :
    let session := course.session
    (∀ pattern node : String, session.firingsOf pattern node =
      (session.events.filter fun event => event.pattern = pattern ∧ event.node = node).map
        fun event => ⟨event.time, event.elementValue⟩) ∧
    (∀ name : String, session.snapshot.patternStates.get? name =
      (session.network.memberIndex? name).map (session.stateLogged · name)) ∧
    ∀ (token : Token) (report : Report), (session.feed token).1 = .ok report →
      let after := (session.feed token).2
      ∃ events listeners, after.events = session.events ++ events ∧
        after.arena.toList = session.arena.toList ++ listeners ∧
        report.firedNodes = (events.filter (·.kind = .fire)).map Event.place ∧
        report.completedPatterns = (events.filter (·.kind = .complete)).map (·.pattern) ∧
        report.newListeners = (listeners.filter (·.origin.isSome)).map (after.placeOf ·.node) := by
  intro session
  have noted : session.Noted := reached.noted
  obtain ⟨sound, now⟩ := reached.sound (fun _ opening => opening.starts) dropping_sweepUnified
  exact ⟨firingsOf_eq noted sound.network, snapshot_states noted sound.network,
    fun token report accepted => report_tells dropping_sweepUnified sound now accepted⟩

/-- The node `b::x` of the pattern `a` and the node `x` of the pattern `a::b` have one key. -/
def colliding : Grammar :=
  Grammar.ofPatterns [
    { name := "a"
      nodes := Table.ofList [("start", { kind := .start }), ("b::x", Node.consuming "X"),
        ("end", { kind := .finish })]
      edges := [{ source := "start", target := "b::x" }, { source := "b::x", target := "end" }] },
    { name := "a::b"
      nodes := Table.ofList [("start", { kind := .start }), ("x", Node.consuming "Y"),
        ("end", { kind := .finish })]
      edges := [{ source := "start", target := "x" }, { source := "x", target := "end" }] }]

/-- The second token continues the history of the node `x` of `a::b` and of no other. -/
theorem views_agree_colliding :
    let course := (Course.start (Session.unified colliding.composed {})).call sweepUnified
      (.feed ⟨"X", "1"⟩)
    let session := course.session
    let after := (session.feed ⟨"Y", "2"⟩).2
    let report : Report :=
      { time := 2, firedNodes := [⟨"a::b", "x"⟩], completedPatterns := ["a::b"] }
    (session.network.find? "a" "b::x").map session.network.keyOf =
        (session.network.find? "a::b" "x").map session.network.keyOf ∧
      after.firingsOf "a" "b::x" = [⟨1, some "1"⟩] ∧
      after.firingsOf "a::b" "x" = [⟨2, some "2"⟩] ∧
      session.firingsOf "a" "b::x" =
        (session.events.filter fun event => event.pattern = "a" ∧ event.node = "b::x").map
          (fun event => ⟨event.time, event.elementValue⟩) ∧
      session.snapshot.patternStates.get? "a" =
        (session.network.memberIndex? "a").map (session.stateLogged · "a") ∧
      (session.feed ⟨"Y", "2"⟩).1.toOption = some report ∧
      ∃ events listeners, after.events = session.events ++ events ∧
        after.arena.toList = session.arena.toList ++ listeners ∧
        report.firedNodes = (events.filter (·.kind = .fire)).map Event.place ∧
        report.completedPatterns = (events.filter (·.kind = .complete)).map (·.pattern) ∧
        report.newListeners = (listeners.filter (·.origin.isSome)).map (after.placeOf ·.node) := by
  intro course session after report
  have opening : Opening (Session.unified colliding.composed {}) :=
    .unified (.composed (.grammar (Grammar.network_composed (by decide +kernel))))
  obtain ⟨histories, states, reports⟩ := views_agree
    ((Reached.start opening).call (.feed ⟨"X", "1"⟩) trivial)
  have accepted : (session.feed ⟨"Y", "2"⟩).1.toOption = some report := by decide +kernel
  have fed : (session.feed ⟨"Y", "2"⟩).1 = .ok report := by
    cases result : (session.feed ⟨"Y", "2"⟩).1 with
    | ok told =>
      rw [result] at accepted
      exact congrArg Except.ok (Option.some.inj accepted)
    | error error =>
      rw [result] at accepted
      cases accepted
  exact ⟨by decide +kernel, by decide +kernel, by decide +kernel, histories "a" "b::x", states "a",
    accepted, reports _ _ fed⟩

end Course

end Constructicon
