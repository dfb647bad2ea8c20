import Constructicon.Proofs.Session.Batch
import Constructicon.Proofs.Session.Hops
import Mathlib.Data.Finset.Prod
import Mathlib.Order.Interval.Finset.Nat

/-! How deep cascades can go at all. Where no pattern is at once another in a circle, no pattern
completes twice from one start within a cascade, so a cascade is no longer than there are patterns
and starts; where patterns do not refer to one another in a circle, it is no longer than there are
patterns. A limit above these bounds never aborts a session. -/
namespace Constructicon

open Relation (TransGen)

theorem length_le_of_bounded {spots : List (Nat × Nat)} {patterns ticks : Nat}
    (distinct : spots.Nodup)
    (bounded : ∀ spot ∈ spots, spot.1 < patterns ∧ 1 ≤ spot.2 ∧ spot.2 ≤ ticks) :
    spots.length ≤ patterns * ticks := by
  have inside : spots.toFinset ⊆ Finset.range patterns ×ˢ Finset.Icc 1 ticks := by
    intro spot member
    obtain ⟨pattern, begins, past⟩ := bounded spot (List.mem_toFinset.mp member)
    exact Finset.mem_product.mpr
      ⟨Finset.mem_range.mpr pattern, Finset.mem_Icc.mpr ⟨begins, past⟩⟩
  calc spots.length = spots.toFinset.card := (List.toFinset_card_of_nodup distinct).symm
    _ ≤ (Finset.range patterns ×ˢ Finset.Icc 1 ticks).card := Finset.card_le_card inside
    _ = patterns * ticks := by simp

namespace Completion

variable {network : Network} {time : Nat} {chain : List Completion}

/-- Along a cascade starts only move back, and while one stays patterns are at once one another. -/
theorem Cascade.narrows (cascade : Cascade network time chain) :
    chain.Pairwise fun next done => next.start < done.start ∨ next.start = done.start ∧
      TransGen network.ZeroWidth done.pattern next.pattern := by
  let narrows (next done : Completion) : Prop := next.start < done.start ∨
    next.start = done.start ∧ TransGen network.ZeroWidth done.pattern next.pattern
  have : Trans narrows narrows narrows := ⟨fun {last next done} second first => by
    rcases second with back | ⟨same, later⟩
    · rcases first with back' | ⟨same', _⟩
      · exact .inl (Nat.lt_trans back back')
      · exact .inl (same' ▸ back)
    · rcases first with back' | ⟨same', before⟩
      · exact .inl (same ▸ back')
      · exact .inr ⟨same.trans same', before.trans later⟩⟩
  exact List.isChain_iff_pairwise.mp (cascade.hops.imp fun next done hop =>
    hop.begins.imp_right fun facts => ⟨facts.1, .single facts.2⟩)

theorem Cascade.feeds (cascade : Cascade network time chain) :
    chain.Pairwise fun next done =>
      TransGen network.Feeds done.pattern next.pattern := by
  let feeds (next done : Completion) : Prop :=
    TransGen network.Feeds done.pattern next.pattern
  have : Trans feeds feeds feeds := ⟨fun second first => first.trans second⟩
  exact List.isChain_iff_pairwise.mp (cascade.hops.imp fun next done hop => .single hop.feeds)

theorem Cascade.length_le_mul (cascade : Cascade network time chain)
    (acyclic : ∀ pattern, ¬ TransGen network.ZeroWidth pattern pattern) :
    chain.length ≤ network.members.length * time := by
  have distinct : (chain.map fun done => (done.pattern, done.start)).Nodup := by
    refine List.pairwise_map.mpr (cascade.narrows.imp fun {next done} narrows same => ?_)
    obtain ⟨pattern, start⟩ := Prod.mk.inj same
    rcases narrows with back | ⟨_, around⟩
    · exact absurd start (Nat.ne_of_lt back)
    · rw [pattern] at around
      exact acyclic _ around
  rw [← List.length_map fun done : Completion => (done.pattern, done.start)]
  refine length_le_of_bounded distinct fun spot member => ?_
  obtain ⟨done, here, rfl⟩ := List.mem_map.mp member
  have within := cascade.within done here
  exact ⟨within.pattern, within.begins, within.past⟩

theorem Cascade.length_le (cascade : Cascade network time chain)
    (acyclic : ∀ pattern, ¬ TransGen network.Feeds pattern pattern) :
    chain.length ≤ network.members.length := by
  have distinct : (chain.map fun done => (done.pattern, 1)).Nodup := by
    refine List.pairwise_map.mpr (cascade.feeds.imp fun {next done} around same => ?_)
    rw [(Prod.mk.inj same).1] at around
    exact acyclic _ around
  rw [← List.length_map fun done : Completion => (done.pattern, 1),
    ← Nat.mul_one network.members.length]
  refine length_le_of_bounded distinct fun spot member => ?_
  obtain ⟨done, here, rfl⟩ := List.mem_map.mp member
  exact ⟨(cascade.within done here).pattern, Nat.le_refl 1, Nat.le_refl 1⟩

end Completion

theorem Grammar.length_compile {grammar : Grammar} {automata : List Automaton}
    (ok : grammar.compile = .ok automata) : automata.length = grammar.size :=
  (mapM_eq_ok.mp ok).length_eq.symm

theorem Grammar.length_members {grammar : Grammar} {network : Network}
    (built : grammar.network = .ok network) : network.members.length = grammar.size := by
  obtain ⟨automata, compiled, composed⟩ := bind_success built
  obtain ⟨_, _, rfl⟩ := Network.compose_eq_ok.mp composed
  have names := congrArg List.length (Network.names_assembly automata)
  rw [List.length_map, List.length_map] at names
  exact names.trans (Grammar.length_compile compiled)

namespace Session
open Tick

variable {network : Network} {limits : Limits} {session : Session} {token : Token}

/-- The cascade of a token ends within the limits. -/
def Shallow (session : Session) (token : Token) : Prop :=
  session.completionsAt token (session.limits.maxCascadeDepth + 1) = []

section Feed

variable {sweep : Session → Session}

theorem Shallow.settled (shallow : session.Shallow token) : (session.tick token).pending = [] :=
  (congrArg Tick.pending (session.tick_eq_struck token)).trans shallow

theorem feedWith_ne_cycle (shallow : session.Shallow token) (time depth : Nat) (node : String)
    (path : List String) :
    (session.feedWith sweep token).1 ≠ .error (.compositionCycle time depth node path) := by
  intro cycle
  cases going : session.aborted with
  | true =>
    rw [feedWith_refused token going] at cycle
    cases cycle
  | false =>
    rw [feedWith_settled going shallow.settled] at cycle
    cases cycle

theorem aborted_run (dropping : Dropping sweep) (going : session.aborted = false)
    (shallow : ∀ (tokens : List Token) (token : Token),
      (session.run sweep (tokens.map .feed)).2.Shallow token) (tokens : List Token) :
    (session.run sweep (tokens.map .feed)).2.aborted = false := by
  induction tokens using List.reverseRecOn with
  | nil => exact going
  | append_singleton tokens last ih =>
    rw [List.map_append, run_append]
    exact aborted_feedWith dropping ih (shallow tokens last).settled

end Feed

/-- A unified session over a network, whatever it has consumed. -/
structure UnifiedOver (network : Network) (limits : Limits) (session : Session) : Prop where
  network : session.network = network
  unified : session.mode = .unified
  limits : session.limits = limits
  sound : ∃ tokens, session.Sound tokens ∧ session.time = tokens.length

theorem unifiedOver_run {grammar : Grammar} (built : grammar.network = .ok network)
    (limits : Limits) (tokens : List Token) :
    ((unified network limits).run sweepUnified (tokens.map .feed)).2.UnifiedOver network
      limits := by
  have opening : Opening (unified network limits) := .unified (.composed (.grammar built))
  obtain ⟨course, reached, same⟩ := Course.Reached.run
    (.start opening : (Course.start (unified network limits)).Reached Opening sweepUnified)
    (tokens.map .feed) (by simp [Call.Compiled])
  have sound := reached.sound (fun _ opening => opening.starts) dropping_sweepUnified
  rw [same] at sound
  have basis := run_basis tokens (unified network limits)
  exact ⟨congrArg (·.1) basis, congrArg (·.2.1) basis, congrArg (·.2.2) basis, _, sound⟩

namespace UnifiedOver

variable (reached : session.UnifiedOver network limits)
include reached

theorem cascade {depth : Nat} {done : Completion}
    (waits : done ∈ session.completionsAt token depth) : done.path.length = depth + 1 ∧
      ∃ earlier : List Completion, (done :: earlier).length = depth + 1 ∧
        Completion.Cascade network (session.time + 1) (done :: earlier) := by
  obtain ⟨same, unified, _, _, sound, now⟩ := reached
  obtain ⟨length, earlier, size, cascade⟩ := cascade_of_completionsAt sound now unified waits
  exact ⟨length, earlier, congrArg Nat.succ size, same ▸ cascade⟩

theorem depth_le_mul (token : Token)
    (acyclic : ∀ pattern, ¬ TransGen network.ZeroWidth pattern pattern) (depth : Nat)
    (done : Completion) (waits : done ∈ session.completionsAt token depth) :
    done.path.length = depth + 1 ∧ depth + 1 ≤ network.members.length * (session.time + 1) := by
  obtain ⟨length, earlier, size, cascade⟩ := reached.cascade waits
  exact ⟨length, size ▸ cascade.length_le_mul acyclic⟩

theorem depth_le (token : Token)
    (acyclic : ∀ pattern, ¬ TransGen network.Feeds pattern pattern) (depth : Nat)
    (done : Completion) (waits : done ∈ session.completionsAt token depth) :
    done.path.length = depth + 1 ∧ depth + 1 ≤ network.members.length := by
  obtain ⟨length, earlier, size, cascade⟩ := reached.cascade waits
  exact ⟨length, size ▸ cascade.length_le acyclic⟩

theorem shallow {bound : Nat}
    (bounded : ∀ depth, ∀ done ∈ session.completionsAt token depth,
      done.path.length = depth + 1 ∧ depth + 1 ≤ bound)
    (within : bound ≤ limits.maxCascadeDepth + 1) : session.Shallow token := by
  refine List.eq_nil_iff_forall_not_mem.mpr fun done waits => ?_
  have deep := (bounded _ done waits).2
  have limited := reached.limits
  subst limited
  omega

end UnifiedOver

/-- Cascades are bounded. Where no pattern is at once another in a circle, a tick has no deeper
completions than there are patterns times ticks, and where none refers to another in a circle, no
deeper ones than there are patterns; limits beyond these bounds are never exceeded. -/
theorem cascade_bounded {grammar : Grammar} {limits : Limits} {session : Session}
    (opened : ofGrammar grammar limits = .ok session) (tokens : List Token) (token : Token) :
    let before := (session.run sweepUnified (tokens.map .feed)).2
    let tick := before.time + 1
    ((∀ pattern, ¬ TransGen session.network.ZeroWidth pattern pattern) →
      (∀ depth, ∀ done ∈ before.completionsAt token depth,
        done.path.length = depth + 1 ∧ depth + 1 ≤ grammar.size * tick) ∧
      (grammar.size * tick ≤ limits.maxCascadeDepth + 1 →
        ∀ (time depth : Nat) (node : String) (path : List String),
          (before.feed token).1 ≠ .error (.compositionCycle time depth node path))) ∧
    ((∀ pattern, ¬ TransGen session.network.Feeds pattern pattern) →
      (∀ depth, ∀ done ∈ before.completionsAt token depth,
        done.path.length = depth + 1 ∧ depth + 1 ≤ grammar.size) ∧
      (grammar.size ≤ limits.maxCascadeDepth + 1 →
        ∃ report, (before.feed token).1 = .ok report)) := by
  obtain ⟨network, built, ok⟩ := bind_success opened
  cases ok
  have reached (tokens : List Token) := unifiedOver_run built limits tokens
  rw [← Grammar.length_members built]
  intro before tick
  constructor
  case left =>
    intro acyclic
    have bounded := (reached tokens).depth_le_mul token acyclic
    exact ⟨bounded, fun within => feedWith_ne_cycle ((reached tokens).shallow bounded within)⟩
  case right =>
    intro acyclic
    refine ⟨(reached tokens).depth_le token acyclic, fun within => ⟨(before.tick token).report, ?_⟩⟩
    have shallow (tokens : List Token) (token : Token) :=
      (reached tokens).shallow ((reached tokens).depth_le token acyclic) within
    have going := aborted_run dropping_sweepUnified rfl shallow tokens
    rw [feed, feedWith_settled going (shallow tokens token).settled]

/-- A list is a number or a number before a list: the third number ends three lists in turn. -/
def lists : Grammar :=
  Grammar.ofPatterns [
    { name := "list"
      nodes := Table.ofList [("start", { kind := .start }), ("head", Node.consuming "N"),
        ("tail", Node.referring "list"), ("end", { kind := .finish })]
      edges := [{ source := "start", target := "head" }, { source := "head", target := "tail" },
        { source := "head", target := "end" }, { source := "tail", target := "end" }] }]

/-- A clause is a phrase, and a phrase is a noun. -/
def clauses : Grammar :=
  Grammar.ofPatterns [Pattern.sequence "clause" ["@phrase"], Pattern.sequence "noun" ["N"],
    Pattern.sequence "phrase" ["@noun"]]

/-- No list is at once another, since the end is reached from no first element that refers. -/
theorem lists_narrow (pattern : Nat) : ¬ TransGen lists.composed.ZeroWidth pattern pattern := by
  have none : ∀ member ∈ lists.composed.members, ∀ node ∈ member.entryNodes,
      (lists.composed.sites[node]?).bind (·.reference) = none := by decide +kernel
  intro around
  obtain ⟨_, step, _⟩ := TransGen.head'_iff.mp around
  obtain ⟨member, node, registered, entry, ⟨site, _, here, _, names⟩, _⟩ := step
  have refers := none member (List.mem_of_getElem? registered) node entry
  rw [here, Option.bind_some, names] at refers
  cases refers

/-- Every reference leads on in one order: noun, phrase, clause. -/
theorem clauses_acyclic (pattern : Nat) : ¬ TransGen clauses.composed.Feeds pattern pattern := by
  let rank (pattern : Nat) : Nat := [2, 0, 1].getD pattern 0
  have onward : ∀ site ∈ clauses.composed.sites, ∀ inner < clauses.composed.members.length,
      site.reference = (clauses.composed.members[inner]?).map (·.name) →
        rank inner < rank (site.pattern.getD 0) := by decide +kernel
  have climbs {inner outer : Nat} (path : TransGen clauses.composed.Feeds inner outer) :
      rank inner < rank outer := by
    have step {inner outer : Nat} (feeds : clauses.composed.Feeds inner outer) :
        rank inner < rank outer := by
      obtain ⟨node, site, here, owned, _, member, here', registered, names⟩ := feeds
      cases here.symm.trans here'
      have bound := (List.getElem?_eq_some_iff.mp registered).1
      have later := onward site (List.mem_of_getElem? here) inner bound
        (by rw [names, registered]; rfl)
      rwa [owned, Option.getD_some] at later
    induction path with
    | single feeds => exact step feeds
    | tail _ feeds ih => exact Nat.lt_trans ih (step feeds)
  exact fun around => Nat.lt_irrefl _ (climbs around)

/-- Both bounds are met: the third number of a list and the noun of a clause lead two hops on. -/
theorem cascade_bounded_lists :
    let limits : Limits := { maxCascadeDepth := 2 }
    let before := ((unified lists.composed limits).run sweepUnified
      ([⟨"N", "1"⟩, ⟨"N", "2"⟩].map .feed)).2
    let opened := unified clauses.composed limits
    (∀ pattern, ¬ TransGen lists.composed.ZeroWidth pattern pattern) ∧
      (before.completionsAt ⟨"N", "3"⟩ 2).length = 1 ∧
      (∀ depth, ∀ done ∈ before.completionsAt ⟨"N", "3"⟩ depth,
        done.path.length = depth + 1 ∧ depth + 1 ≤ 3) ∧
      (∀ (time depth : Nat) (node : String) (path : List String),
        (before.feed ⟨"N", "3"⟩).1 ≠ .error (.compositionCycle time depth node path)) ∧
      (∀ pattern, ¬ TransGen clauses.composed.Feeds pattern pattern) ∧
      (opened.completionsAt ⟨"N", "1"⟩ 2).length = 1 ∧
      (∀ depth, ∀ done ∈ opened.completionsAt ⟨"N", "1"⟩ depth,
        done.path.length = depth + 1 ∧ depth + 1 ≤ 3) ∧
      ∃ report, (opened.feed ⟨"N", "1"⟩).1 = .ok report := by
  intro limits before opened
  have recurses : lists.network.isOk = true := by decide +kernel
  have nests : clauses.network.isOk = true := by decide +kernel
  have recursive := (cascade_bounded (ofGrammar_composed recurses limits) [⟨"N", "1"⟩, ⟨"N", "2"⟩] ⟨"N", "3"⟩).1 lists_narrow
  have flat := (cascade_bounded (ofGrammar_composed nests limits) [] ⟨"N", "1"⟩).2 clauses_acyclic
  have bound : lists.size * (before.time + 1) = 3 := by decide +kernel
  have three : clauses.size = 3 := by decide +kernel
  exact ⟨lists_narrow, by decide +kernel, bound ▸ recursive.1, recursive.2 (Nat.le_of_eq bound),
    clauses_acyclic, by decide +kernel, three ▸ flat.1, flat.2 (Nat.le_of_eq three)⟩

end Session

end Constructicon
