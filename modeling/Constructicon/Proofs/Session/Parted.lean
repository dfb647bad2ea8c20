import Constructicon.Proofs.Session.Beside
import Constructicon.Proofs.Session.Rest

/-! Unified sessions beside one that knows only some of their patterns and only the tokens from some
tick on. A token that the first consumes is consumed by the second, which then lies beside it as
before; so it does when a pattern joins either or both. -/
namespace Constructicon

open Network (Kept Gone Twin Foreign Part)

namespace Network.Part

variable {inside : String → Bool} {whole part : Network} {automata : List Automaton}

/-- Patterns that stay begin where they began, in the same order. -/
theorem allOpenings (parted : Part inside whole part automata) :
    Excerpt (Foreign inside whole) (Twin inside whole part) (Session.allOpenings whole)
      (Session.allOpenings part) := by
  have opens {network : Network} {automaton : Automaton} {owner base : Nat}
      (carries : network.Carries automaton owner base) : Session.openings network owner =
        automaton.entryClosure.elements.map fun key => (owner, automaton.spot base key) := by
    obtain ⟨member, found, _, _, entries⟩ := carries.member
    simp [Session.openings, found, entries]
  refine parted.owners.flatMap (fun owner owner' kept => ?_) fun owner gone => ?_
  · obtain ⟨automaton, base, base', stays, here, there⟩ := kept
    rw [opens here, opens there]
    refine Excerpt.of_map _ fun key entry => ?_
    exact ⟨automaton, base, base', key, stays, Automaton.mem_keys_of_closureFrom entry, here, there,
      rfl, rfl⟩
  · obtain ⟨automaton, base, goes, here⟩ := gone
    rw [opens here]
    refine Excerpt.nothing fun spot opening => ?_
    obtain ⟨key, entry, rfl⟩ := List.mem_map.mp opening
    exact ⟨automaton, base, key, goes, Automaton.mem_keys_of_closureFrom entry, here, rfl⟩

/-- If what waits in one session is an excerpt of what waits in another, so is what a token fires. -/
theorem matching {whole part : Session} (parted : Part inside whole.network part.network automata)
    {dropped : Listener → Prop} {same : Listener → Listener → Prop}
    (waiting : Excerpt dropped same (whole.active ++ whole.seeds) (part.active ++ part.seeds))
    (twins : ∀ listener listener', same listener listener' → Twin inside whole.network part.network
      (listener.pattern, listener.node) (listener'.pattern, listener'.node))
    (agree : ∀ listener listener', same listener listener' →
      whole.isDue (whole.time + 1) listener = part.isDue (part.time + 1) listener' ∧
        whole.matchTypeOf listener.node = part.matchTypeOf listener'.node) (elementType : String) :
    Excerpt dropped same (whole.seeded.matching (whole.time + 1) elementType)
      (part.seeded.matching (part.time + 1) elementType) := by
  rw [Session.seeded_matching, Session.seeded_matching]
  have taken := waiting.filter
    (p := fun listener => whole.isDue (whole.time + 1) listener ∧
      whole.matchTypeOf listener.node = some elementType)
    (q := fun listener => part.isDue (part.time + 1) listener ∧
      part.matchTypeOf listener.node = some elementType)
    fun listener listener' both => by
      rw [(agree listener listener' both).1, (agree listener listener' both).2]
  refine parted.owners.flatMap (fun owner owner' kept => ?_) fun owner gone => ?_
  · exact taken.filter fun listener listener' both =>
      decide_eq_decide.mpr (parted.owner_iff (twins listener listener' both) kept)
  · exact taken.filter_nothing fun listener listener' both =>
      decide_eq_false (parted.owner_ne (twins listener listener' both) gone)

end Network.Part

namespace Network

variable {inside : String → Bool} {whole part grown grown' : Network} {automata : List Automaton}
  {spot spot' : Nat × Nat}

theorem Twin.grow (soundWhole : whole.Sound) (soundPart : part.Sound) (grows : whole.Grows grown)
    (grows' : part.Grows grown') (twin : Twin inside whole part spot spot') :
    Twin inside grown grown' spot spot' := by
  obtain ⟨automaton, base, base', key, stays, member, here, there, same⟩ := twin
  exact ⟨automaton, base, base', key, stays, member, here.grow soundWhole grows,
    there.grow soundPart grows', same⟩

theorem Foreign.grow (sound : whole.Sound) (grows : whole.Grows grown)
    (foreign : Foreign inside whole spot) : Foreign inside grown spot := by
  obtain ⟨automaton, base, key, goes, member, here, same⟩ := foreign
  exact ⟨automaton, base, key, goes, member, here.grow sound grows, same⟩

end Network

/-- What is due in one session is due in another in which it waits for a token less far on. -/
theorem Session.isDue_shifted {whole part : Session} {listener listener' : Listener} {since : Nat}
    (consumes : whole.consumesTokens listener.node = part.consumesTokens listener'.node)
    (time : whole.time = part.time + since) (ready : listener.readyAt = listener'.readyAt + since) :
    whole.isDue (whole.time + 1) listener = part.isDue (part.time + 1) listener' := by
  unfold isDue
  rw [consumes]
  refine decide_eq_decide.mpr (and_congr_right fun _ => ?_)
  omega

structure Session.Beside (cut : Cut) (whole part : Session) : Prop where
  rest : Tick.Beside cut whole.atRest part.atRest
  limits : part.limits = whole.limits
  going : whole.aborted = false
  going' : part.aborted = false

namespace Session.Beside
open Tick

variable {cut : Cut} {whole part : Session} {tokens : List Token}

theorem time (beside : whole.Beside cut part) : whole.time = part.time + cut.since :=
  beside.rest.time

theorem unified (beside : whole.Beside cut part) : whole.mode = .unified ∧ part.mode = .unified :=
  ⟨beside.rest.unified, beside.rest.unified'⟩

theorem consumes (beside : whole.Beside cut part) {spot spot' : Nat × Nat}
    (twin : Twin cut.inside whole.network part.network spot spot') :
    whole.consumesTokens spot.2 = part.consumesTokens spot'.2 ∧
      whole.matchTypeOf spot.2 = part.matchTypeOf spot'.2 := by
  obtain ⟨automaton, key, node, found, found'⟩ := Part.site twin
  obtain ⟨unified, unified'⟩ := beside.unified
  refine ⟨?_, ?_⟩
  · simp [consumesTokens, found, found', Network.siteOf, unified, unified']
  · simp [matchTypeOf, found, found', Network.matchType_siteOf]

theorem fresh (beside : whole.Beside cut part) :
    Excerpt (cut.Drops whole.network) (cut.Mirrors whole.network part.network whole.log.toList)
      (whole.active ++ whole.seeds) (part.active ++ part.seeds) := by
  obtain ⟨automata, parted⟩ := beside.rest.parted
  obtain ⟨unified, unified'⟩ := beside.unified
  have time := beside.time
  refine beside.rest.active.append ?_
  simp only [seeds, unified, unified']
  exact Cut.planted _ _ parted.allOpenings (by omega) rfl (by simp; omega) (Nat.le_refl _)
    (.none _)

theorem isDue (beside : whole.Beside cut part) {listener listener' : Listener}
    (mirrors : cut.Mirrors whole.network part.network whole.log.toList listener listener') :
    whole.isDue (whole.time + 1) listener = part.isDue (part.time + 1) listener' :=
  isDue_shifted (beside.consumes mirrors.twin).1 beside.time mirrors.ready

theorem opened (beside : whole.Beside cut part) : Tick.Beside cut whole.opened part.opened := by
  have time := beside.time
  constructor
  case parted =>
    rw [opened_network, opened_network]
    exact beside.rest.parted
  case unified => rw [opened_mode, beside.unified.1]
  case unified' => rw [opened_mode, beside.unified.2]
  case time =>
    rw [opened_time, opened_time]
    omega
  case log =>
    rw [opened_log, opened_log]
    exact beside.rest.log
  case active =>
    rw [opened_active, opened_active, opened_network, opened_network, opened_log]
    exact beside.fresh.filter fun listener listener' mirrors => by rw [beside.isDue mirrors]
  case pending => exact .nil
  case early => exact fun done none => by cases none

theorem matching (beside : whole.Beside cut part) (elementType : String) :
    Excerpt (cut.Drops whole.network) (cut.Mirrors whole.network part.network whole.log.toList)
      (whole.seeded.matching (whole.time + 1) elementType)
      (part.seeded.matching (part.time + 1) elementType) := by
  obtain ⟨automata, parted⟩ := beside.rest.parted
  exact parted.matching beside.fresh (fun _ _ mirrors => mirrors.twin)
    (fun _ _ mirrors => ⟨beside.isDue mirrors, (beside.consumes mirrors.twin).2⟩) elementType

theorem tick (beside : whole.Beside cut part) (sound : whole.Sound tokens)
    (now : whole.time = tokens.length) (token : Token) :
    Tick.Beside cut (whole.tick token) (part.tick token) := by
  have time := beside.time
  rw [tick_eq, tick_eq, beside.limits]
  refine (beside.opened.foldl_fire token.elementType token.value [] [] ?_ ?_
    (fun listener fired => (matching_fed token sound now listener fired).2.1) (Nat.le_refl _)
    (.none _)).settle _
  · rw [opened_network, opened_network, opened_log]
    exact beside.matching token.elementType
  · omega

/-- What the first session consumes without refusal, the second does. -/
theorem feed (beside : whole.Beside cut part) (sound : whole.Sound tokens)
    (now : whole.time = tokens.length) {token : Token}
    (accepted : (whole.feedWith id token).1.isOk = true) :
    (part.feedWith id token).1.isOk = true ∧
      (whole.feedWith id token).2.Beside cut (part.feedWith id token).2 := by
  obtain ⟨going, settled⟩ := feedWith_isOk.mp accepted
  have going' := beside.going'
  have ticked := beside.tick sound now token
  have pending := ticked.pending
  rw [settled] at pending
  have settled' := pending.eq_nil
  have frame := whole.tick_frame token
  have frame' := part.tick_frame token
  refine ⟨feedWith_isOk.mpr ⟨going', settled'⟩, ?_⟩
  rw [feedWith_settled going settled, feedWith_settled going' settled']
  refine ⟨⟨ticked.parted, ticked.unified, ticked.unified', ticked.time, ticked.log,
    ticked.active, .nil, fun done none => by cases none⟩, ?_, ?_, ?_⟩
  · exact (congrArg (·.2.2.1) frame').trans (beside.limits.trans (congrArg (·.2.2.1) frame).symm)
  · exact (aborted_of_frame frame).trans going
  · exact (aborted_of_frame frame').trans going'

theorem grow (beside : whole.Beside cut part) {grown grown' : Network} {automata : List Automaton}
    (parted : Part cut.inside grown grown' automata) (grows : whole.network.Grows grown)
    (grows' : part.network.Grows grown') :
    Session.Beside cut { whole with network := grown } { part with network := grown' } := by
  obtain ⟨_, before⟩ := beside.rest.parted
  refine ⟨⟨⟨automata, parted⟩, beside.unified.1, beside.unified.2, beside.time, beside.rest.log, ?_,
    .nil, fun done none => by cases none⟩, beside.limits, beside.going, beside.going'⟩
  refine beside.rest.active.mono (fun listener _ drops => ?_) fun listener _ listener' mirrors => ?_
  · exact { drops with gone := drops.gone.imp_right (·.grow before.whole.sound grows) }
  · exact { mirrors with
      twin := mirrors.twin.grow before.whole.sound before.part.sound grows grows' }

end Session.Beside

end Constructicon
