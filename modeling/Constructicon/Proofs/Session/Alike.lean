import Constructicon.Proofs.Network.Alike
import Constructicon.Proofs.Session.History

/-! Sessions over alike networks. The order of the links is never looked at, so a session whose
network is replaced by one alike answers every token as before and stays the same in all else. -/
namespace Constructicon

def Session.over (session : Session) (network : Network) : Session := { session with network }

def Tick.over (tick : Tick) (network : Network) : Tick :=
  { tick with session := tick.session.over network }

namespace Session

variable {session : Session} {network : Network} (alike : session.network.Alike network)
include alike

theorem over_sites : (session.over network).network.sites = session.network.sites :=
  alike.sites.symm

theorem over_members : (session.over network).network.members = session.network.members :=
  alike.members.symm

theorem over_ownerName :
    (session.over network).network.ownerName = session.network.ownerName := by
  funext owner
  rw [Network.ownerName, Network.ownerName, over_members alike]

theorem over_closureAfter :
    (session.over network).network.closureAfter = session.network.closureAfter :=
  alike.closureAfter.symm

theorem over_placeOf : (session.over network).placeOf = session.placeOf := by
  funext node
  rw [placeOf, placeOf, over_sites alike, over_ownerName alike]

theorem over_roleOf : (session.over network).roleOf = session.roleOf := by
  funext node
  rw [roleOf, roleOf, over_sites alike]

theorem over_consumesTokens :
    (session.over network).consumesTokens = session.consumesTokens := by
  funext node
  rw [consumesTokens, consumesTokens, over_sites alike]
  rfl

theorem over_isDue : (session.over network).isDue = session.isDue := by
  funext tick listener
  rw [isDue, isDue, over_consumesTokens alike]

theorem over_matchTypeOf : (session.over network).matchTypeOf = session.matchTypeOf := by
  funext node
  rw [matchTypeOf, matchTypeOf, over_sites alike]

theorem over_seeds : (session.over network).seeds = session.seeds := by
  have openings : allOpenings (session.over network).network = allOpenings session.network := by
    unfold allOpenings Session.openings
    rw [over_members alike]
  unfold seeds
  rw [openings]
  rfl

theorem over_opened : (session.over network).opened = session.opened.over network := by
  rw [opened_eq, opened_eq, over_isDue alike, over_seeds alike]
  rfl

theorem over_matching (elementType : String) :
    (session.over network).seeded.matching (session.time + 1) elementType =
      session.seeded.matching (session.time + 1) elementType := by
  have here := seeded_matching (session.over network) elementType
  rw [over_isDue alike, over_matchTypeOf alike, over_seeds alike] at here
  rw [seeded_matching, alike.members]
  exact here

theorem over_snapshot : (session.over network).snapshot = session.snapshot := by
  have view : (session.over network).listenerView = session.listenerView := by
    funext listener
    rw [listenerView, listenerView, over_matchTypeOf alike, over_ownerName alike]
    simp only [Network.keyOf, over_sites alike]
  have state : (session.over network).patternState = session.patternState := by
    funext owner
    have sites : (session.over network).sitesOf owner = session.sitesOf owner := by
      rw [sitesOf, sitesOf, over_sites alike]
    rw [patternState, patternState, sites]
    rfl
  rw [snapshot, snapshot, view, state, over_members alike]
  rfl

theorem over_firingsOf : (session.over network).firingsOf = session.firingsOf := by
  have found : (session.over network).network.find? = session.network.find? := alike.find?.symm
  funext pattern node
  rw [firingsOf, firingsOf, found]
  rfl

theorem over_sweepUnified :
    (session.over network).sweepUnified = session.sweepUnified.over network := by
  have reference : (session.over network).referenceOf = session.referenceOf := by
    have index : (session.over network).network.memberIndex? = session.network.memberIndex? := by
      funext name
      rw [Network.memberIndex?, Network.memberIndex?, over_members alike]
    funext node
    rw [referenceOf, referenceOf, over_sites alike, index]
  have overdue : (session.over network).isOverdue = session.isOverdue := by
    funext listener
    rw [isOverdue, isOverdue, reference]
    rfl
  have support : (session.over network).support? = session.support? := by
    funext listener
    rw [support?, support?, reference]
  have inFlight : (session.over network).inFlight = session.inFlight := by
    unfold inFlight
    rw [overdue, support]
    rfl
  unfold sweepUnified
  cases mode : session.mode with
  | isolated => simp only [Session.over, mode]
  | unified =>
    have swept : (session.over network).sweep = session.sweep.over network := by
      unfold sweep
      rw [inFlight, overdue, support]
      rfl
    have mode' : (session.over network).mode = .unified := mode
    simp only [mode', swept]

end Session

namespace Tick
open Session

variable {tick : Tick} {network : Network}

section

variable (alike : tick.session.network.Alike network)
include alike

theorem over_fire (listener : Listener) (position : Nat) (elementType value : String)
    (subEvent : Option Nat) (path : List String) :
    (tick.over network).fire listener position elementType value subEvent path =
      (tick.fire listener position elementType value subEvent path).over network := by
  rw [fire_eq, fire_eq]
  simp only [Tick.over, firing, followers, reached, over_placeOf alike, over_roleOf alike,
    over_closureAfter alike, over_ownerName alike]
  rfl

theorem over_tell (member : Member) (done : Completion) :
    (tick.over network).tell member done = (tick.tell member done).over network := by
  simp only [tell, completing, Tick.over, over_placeOf alike, over_roleOf alike]
  rfl

end

/-- What a fold of steps does to a tick it does to the tick over another network. -/
theorem foldl_over {α : Type} {step : Tick → α → Tick} (items : List α)
    (alike : tick.session.network.Alike network)
    (stays : ∀ t item, (step t item).session.frame = t.session.frame)
    (commutes : ∀ t item, t.session.network.Alike network →
      step (t.over network) item = (step t item).over network) :
    items.foldl step (tick.over network) = (items.foldl step tick).over network := by
  induction items generalizing tick with
  | nil => rfl
  | cons item rest ih =>
    rw [List.foldl_cons, List.foldl_cons, commutes tick item alike]
    exact ih (by rwa [network_of_frame (stays tick item)])

theorem over_complete (alike : tick.session.network.Alike network) (done : Completion) :
    (tick.over network).complete done = (tick.complete done).over network := by
  have members : (tick.over network).session.network.members[done.pattern]? =
      tick.session.network.members[done.pattern]? := by rw [alike.members]; rfl
  cases found : tick.session.network.members[done.pattern]? with
  | none => rw [complete_none found, complete_none (members.trans found)]
  | some member =>
    have told := over_tell alike member done
    cases mode : tick.session.mode with
    | isolated =>
      rw [complete_isolated found mode, complete_isolated (members.trans found) mode, told]
    | unified =>
      have mode' : (tick.over network).session.mode = .unified := mode
      simp only [complete, members, found, mode, mode']
      have targets : (tick.over network).session.network.refTargets member =
          tick.session.network.refTargets member := by rw [alike.refTargets]; rfl
      rw [targets]
      change List.foldl _ ((tick.over network).tell member done) _ = _
      rw [told]
      refine foldl_over _ alike ?_ ?_
      · exact fun t target => foldl_frame _ t fun t listener => fire_frame ..
      · exact fun t target alike => foldl_over _ alike (fun t listener => fire_frame ..)
          fun t listener alike => over_fire alike ..

theorem over_settle (alike : tick.session.network.Alike network) (depths : Nat) :
    (tick.over network).settle depths = (tick.settle depths).over network := by
  induction depths generalizing tick with
  | zero => rw [settle_zero, settle_zero]
  | succ depths ih =>
    have round : tick.pending.foldl complete (Tick.over { tick with pending := [] } network) =
        (tick.pending.foldl complete { tick with pending := [] }).over network :=
      foldl_over _ alike complete_frame fun t done alike => over_complete alike done
    rw [settle_succ, settle_succ, ← ih]
    · exact congrArg (Tick.settle depths) round
    · rwa [network_of_frame (foldl_frame tick.pending { tick with pending := [] } complete_frame)]

end Tick

namespace Session

variable {session : Session} {network a b : Network}

theorem over_tick (alike : session.network.Alike network) (token : Token) :
    (session.over network).tick token = (session.tick token).over network := by
  have opened := session.opened_network
  rw [tick_eq, tick_eq, ← Tick.over_settle, ← Tick.foldl_over, ← over_opened alike]
  · exact congrArg (fun listeners => Tick.settle _ (List.foldl _ _ listeners))
      (over_matching alike token.elementType)
  · rwa [opened]
  · exact fun t listener => Tick.fire_frame ..
  · exact fun t listener alike => Tick.over_fire alike ..
  · rwa [network_of_frame (Tick.foldl_frame _ _ fun t listener => Tick.fire_frame ..), opened]

theorem over_feed (alike : session.network.Alike network) (token : Token) :
    (session.over network).feed token =
      ((session.feed token).1, (session.feed token).2.over network) := by
  have going : (session.over network).aborted = session.aborted := rfl
  have ticked := over_tick alike token
  have pending : ((session.over network).tick token).pending = (session.tick token).pending := by
    rw [ticked]
    rfl
  unfold feed
  cases aborted : session.aborted with
  | true => rw [feedWith_refused token aborted, feedWith_refused token (going.trans aborted)]; rfl
  | false =>
    have going := going.trans aborted
    cases waits : (session.tick token).pending with
    | nil =>
      rw [feedWith_settled aborted waits, feedWith_settled going (pending.trans waits), ticked]
      have kept : (session.tick token).session.network.Alike network := by
        rwa [network_of_frame (session.tick_frame token)]
      have swept : (Session.over { (session.tick token).session with
          time := (session.tick token).report.time } network).sweepUnified = _ :=
        over_sweepUnified kept
      exact congrArg (Prod.mk _) swept
    | cons deepest rest =>
      rw [feedWith_deep aborted waits, feedWith_deep going (pending.trans waits), ticked]
      rw [over_sites alike]
      rfl

theorem over_start (alike : a.Alike b) (mode : Mode) (limits : Limits) :
    (start a mode limits).over b = start b mode limits := by
  cases mode with
  | unified => rfl
  | isolated =>
    have openings : allOpenings a = allOpenings b := by
      unfold allOpenings Session.openings
      rw [alike.members]
    simp only [start, seedAll_eq, openings]
    rfl

end Session

end Constructicon
