import Constructicon.Proofs.Session.Hops

/-! A cascade as the loop that it is: what waits longest is settled next, what that brings about
waits behind everything else, and the loop stops at a completion that lies too deep. Its turns do
what settling depth by depth does, so it comes to an end, whatever refers to what. -/
namespace Constructicon

/-- How many hops a completion lies from the token. -/
def Completion.depth (done : Completion) : Nat :=
  done.path.length - 1

namespace Tick
open Session
open Relation (ReflTransGen)

variable {tokens : List Token} {limit depth : Nat} {tick after other : Tick}

/-- One turn of the loop: the completion that waits longest is settled, unless it is too deep. -/
inductive Settles (limit : Nat) : Tick → Tick → Prop where
  | next {tick : Tick} {done : Completion} {rest : List Completion}
      (waits : tick.pending = done :: rest) (shallow : done.depth ≤ limit) :
      Settles limit tick (complete { tick with pending := rest } done)

theorem Settles.unique (first : Settles limit tick after) (second : Settles limit tick other) :
    after = other := by
  cases first with
  | next waits =>
    cases second with
    | next waits' =>
      cases waits.symm.trans waits'
      rfl

theorem Settles.sound (turn : Settles limit tick after) (sound : tick.Sound tokens) :
    after.Sound tokens := by
  cases turn with
  | next waits =>
    exact sound_complete (sound.pop waits) (sound.pending _ (waits ▸ List.mem_cons_self))

theorem Settles.frame (turn : Settles limit tick after) :
    after.session.frame = tick.session.frame := by
  cases turn with
  | next => exact complete_frame ..

/-- Since a turn leaves no choice, a run that is stuck in the end is the only one. -/
theorem acc_of_stuck (run : ReflTransGen (Settles limit) tick after)
    (stuck : ∀ next, ¬ Settles limit after next) : Acc (Function.swap (Settles limit)) tick := by
  induction run using ReflTransGen.head_induction_on with
  | refl => exact .intro _ fun next turn => absurd turn (stuck next)
  | head turn _ ih => exact .intro _ fun next taken => turn.unique taken ▸ ih

/-- A round of completions takes one turn for each. -/
theorem run_foldl_complete (queue : List Completion) (shallow : ∀ done ∈ queue, done.depth ≤ limit)
    (tick : Tick) :
    ReflTransGen (Settles limit) (tick.await queue) (queue.foldl complete tick) := by
  induction queue generalizing tick with
  | nil => exact .refl
  | cons done rest ih =>
    obtain ⟨here, later⟩ := List.forall_mem_cons.mp shallow
    have turn : Settles limit (tick.await (done :: rest)) (complete (tick.await rest) done) :=
      .next rfl here
    rw [complete_await] at turn
    exact .head turn (ih later _)

theorem settle_one (tick : Tick) :
    tick.settle 1 = tick.pending.foldl complete { tick with pending := [] } :=
  (settle_succ tick 0).trans (settle_zero _)

theorem settle_succ_one (tick : Tick) (rounds : Nat) :
    tick.settle (rounds + 1) = (tick.settle 1).settle rounds := by
  rw [settle_succ, settle_one]

/-- Settling depth by depth, no deeper than the limit, is a run of the loop. -/
theorem AtDepth.run_settle (deep : tick.AtDepth depth) (sound : tick.Sound tokens)
    (unified : tick.session.mode = .unified) (rounds : Nat) (within : depth + rounds ≤ limit + 1) :
    ReflTransGen (Settles limit) tick (tick.settle rounds) := by
  induction rounds generalizing tick depth with
  | zero => rw [settle_zero]
  | succ rounds ih =>
    have round : ReflTransGen (Settles limit) tick (tick.settle 1) := by
      have shallow : ∀ done ∈ tick.pending, done.depth ≤ limit := by
        intro done waits
        have length := (deep done waits).1
        unfold Completion.depth
        omega
      have run := run_foldl_complete tick.pending shallow { tick with pending := [] }
      rw [settle_one]
      simpa [await] using run
    have same := mode_of_frame (tick.settle_frame 1)
    rw [settle_succ_one]
    exact round.trans (ih (deep.settle sound unified 1) (sound_settle 1 sound)
      (same.trans unified) (by omega))

end Tick

namespace Session
open Tick
open Relation (ReflTransGen)

variable {tokens : List Token} {session : Session} {token : Token}

theorem struck_frame (session : Session) (token : Token) :
    (session.struck token).session.frame = session.frame := by
  rw [struck, foldl_frame _ _ fun t listener => fire_frame .., opened_eq]
  rfl

/-- What a tick leaves is what the loop leaves. -/
theorem run_tick (token : Token) (sound : session.Sound tokens)
    (now : session.time = tokens.length) (unified : session.mode = .unified) :
    ReflTransGen (Settles session.limits.maxCascadeDepth) (session.struck token)
      (session.tick token) := by
  rw [tick_eq_struck]
  exact (struck_atDepth token sound now).run_settle (sound_struck token sound now)
    ((mode_of_frame (session.struck_frame token)).trans unified) _ (by omega)

/-- What a tick leaves to be settled lies one hop deeper than allowed. -/
theorem depth_of_pending {done : Completion} (sound : session.Sound tokens)
    (now : session.time = tokens.length) (unified : session.mode = .unified)
    (waits : done ∈ (session.tick token).pending) :
    done.depth = session.limits.maxCascadeDepth + 1 := by
  rw [tick_eq_struck] at waits
  have length := (cascade_of_completionsAt sound now unified waits).1
  simp [Completion.depth, length]

theorem stuck_tick (sound : session.Sound tokens) (now : session.time = tokens.length)
    (unified : session.mode = .unified) (next : Tick) :
    ¬ Settles session.limits.maxCascadeDepth (session.tick token) next := by
  intro turn
  cases turn with
  | next waits shallow =>
    have deep := depth_of_pending sound now unified (waits ▸ List.mem_cons_self)
    omega

end Session

end Constructicon
