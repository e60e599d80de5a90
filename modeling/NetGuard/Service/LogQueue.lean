import NetGuard.Library.Run
import NetGuard.Service.Policy

/-! # The queue of log messages

`queue` runs on any thread and sends a message unless the counter is above its limit.
The main looper handles one message at a time, so calls of `queue` can fall between the
start and the end of a handling. Only a handling that does not throw counts down.
-/
namespace NetGuard.Service

variable {Log : Type}

inductive LogMessage (Log : Type)
  | traffic (log : Log)
  | text (message : Text)
  | error (errorCode message : Text)
  | start
  | stop

/-- The call of `VpnEventChannel` that a message is handled by. -/
inductive EventCall (Log : Type)
  | logTraffic (log : Log)
  | logText (text : Text)
  | logError (errorCode message : Text)
  | updateVpnState (running : Bool)

def LogMessage.call : LogMessage Log → EventCall Log
  | .traffic log => .logTraffic log
  | .text message => .logText message
  | .error errorCode message => .logError errorCode message
  | .start => .updateVpnState true
  | .stop => .updateVpnState false

def maxQueue : Int := 250

/-- `sent` is the looper's queue and `handling` the message that it has taken from it. -/
structure LogHandler (Log : Type) where
  queue : Int
  sent : List (LogMessage Log)
  handling : Option (LogMessage Log)
  called : List (EventCall Log)

inductive LogStep (Log : Type)
  | queue (msg : LogMessage Log)
  | take
  | finish (throws : Bool)

namespace LogHandler

def new : LogHandler Log := ⟨0, [], none, []⟩

def enqueue (msg : LogMessage Log) (s : LogHandler Log) : LogHandler Log :=
  if s.queue > maxQueue then s else { s with sent := s.sent ++ [msg], queue := s.queue + 1 }

def take (s : LogHandler Log) : LogHandler Log :=
  match s.handling, s.sent with
  | none, msg :: rest => { s with handling := some msg, sent := rest }
  | _, _ => s

/-- The end of `handleMessage`. What the call throws is caught behind the count. -/
def finish (throws : Bool) (s : LogHandler Log) : LogHandler Log :=
  match s.handling with
  | some msg =>
    if throws then { s with handling := none }
    else { s with handling := none, called := s.called ++ [msg.call], queue := s.queue - 1 }
  | none => s

def step (s : LogHandler Log) : LogStep Log → LogHandler Log
  | .queue msg => s.enqueue msg
  | .take => s.take
  | .finish throws => s.finish throws

/-- The messages that were sent and are not handled yet. -/
def pending (s : LogHandler Log) : Int := s.sent.length + s.handling.toList.length

structure Exact (s : LogHandler Log) : Prop where
  counts : s.queue = s.pending
  bounded : s.pending ≤ maxQueue
  accepts : s.pending = 0 → ∀ msg, (s.enqueue msg).pending = 1

/-- A step that neither throws nor sends one message too many. -/
def Fits (s : LogHandler Log) : LogStep Log → Prop
  | .queue _ => s.pending ≠ maxQueue
  | .take => True
  | .finish throws => s.handling.isSome → throws = false

variable {s : LogHandler Log}

theorem enqueue_pending (h : s.queue ≤ maxQueue) (msg : LogMessage Log) :
    (s.enqueue msg).queue = s.queue + 1 ∧ (s.enqueue msg).pending = s.pending + 1 := by
  rw [enqueue, if_neg (by omega)]
  refine ⟨rfl, ?_⟩
  simp only [pending, List.length_append, List.length_singleton]
  omega

theorem Exact.of_counts (hcounts : s.queue = s.pending) (hbounded : s.pending ≤ maxQueue) :
    s.Exact := by
  refine ⟨hcounts, hbounded, ?_⟩
  intro hzero msg
  rw [(enqueue_pending (by omega) msg).2, hzero]
  rfl

theorem take_pending : s.take.queue = s.queue ∧ s.take.pending = s.pending := by
  unfold take
  split
  next hhandling hsent =>
    refine ⟨rfl, ?_⟩
    simp only [pending, hhandling, hsent, Option.toList_some, Option.toList_none,
      List.length_cons, List.length_nil]
    omega
  next => exact ⟨rfl, rfl⟩

theorem finish_pending {msg : LogMessage Log} (h : s.handling = some msg) (throws : Bool) :
    (s.finish throws).queue = (if throws then s.queue else s.queue - 1) ∧
      (s.finish throws).pending = s.pending - 1 := by
  simp only [finish, h]
  cases throws with
  | true =>
    refine ⟨rfl, ?_⟩
    simp [pending, h]
  | false =>
    refine ⟨rfl, ?_⟩
    simp [pending, h]

theorem exact_new : (new : LogHandler Log).Exact :=
  .of_counts rfl (show (0 : Int) ≤ 250 by omega)

theorem step_exact_iff (h : s.Exact) (e : LogStep Log) : (s.step e).Exact ↔ s.Fits e := by
  obtain ⟨hcounts, hbounded, -⟩ := h
  cases e with
  | queue msg =>
    obtain ⟨hqueue, hpending⟩ := enqueue_pending (s := s) (by omega) msg
    constructor
    · intro hnext hfull
      have hover := hnext.bounded
      rw [step, hpending] at hover
      omega
    · intro hroom
      apply Exact.of_counts
      · rw [step, hqueue, hpending, hcounts]
      · have hroom : s.pending ≠ maxQueue := hroom
        rw [step, hpending]
        omega
  | take =>
    obtain ⟨hqueue, hpending⟩ := take_pending (s := s)
    refine iff_of_true ?_ trivial
    apply Exact.of_counts
    · rw [step, hqueue, hpending, hcounts]
    · rw [step, hpending]
      exact hbounded
  | finish throws =>
    cases hhandling : s.handling with
    | none =>
      have hstate : s.finish throws = s := by simp [finish, hhandling]
      rw [step, hstate]
      exact iff_of_true (.of_counts hcounts hbounded) (by simp [Fits, hhandling])
    | some msg =>
      obtain ⟨hqueue, hpending⟩ := finish_pending hhandling throws
      constructor
      · intro hnext _
        have hcounts' := hnext.counts
        rw [step, hqueue, hpending] at hcounts'
        cases throws with
        | false => rfl
        | true =>
          simp only [if_true] at hcounts'
          omega
      · intro hfits
        obtain rfl := hfits (by rw [hhandling]; rfl)
        simp only [Bool.false_eq_true, if_false] at hqueue
        apply Exact.of_counts
        · rw [step, hqueue, hpending, hcounts]
        · rw [step, hpending]
          omega

/-- The counter is exact after every step exactly if no handling throws and nothing is
queued while the limit is reached. -/
theorem exact_run_iff (es : List (LogStep Log)) :
    (∀ pre e post, es = pre ++ e :: post → ((pre.foldl step new).step e).Exact) ↔
      ∀ pre e post, es = pre ++ e :: post → (pre.foldl step new).Fits e := by
  refine (Run.along_iff_forall step fun s e => (step s e).Exact).symm.trans
    (Iff.trans ?_ (Run.along_iff_forall step Fits))
  apply Run.Along.congr (I := Exact) (P := fun _ => True)
  · intro s e _ h
    exact step_exact_iff h e
  · intro _ _ _ _ hnext
    exact hnext
  · exact fun _ _ => trivial
  · exact exact_new

theorem enqueue_replicate (msg : LogMessage Log) {n : Nat} (hn : n ≤ 251) :
    ((List.replicate n (LogStep.queue msg)).foldl step new).queue = n ∧
      ((List.replicate n (LogStep.queue msg)).foldl step new).pending = n := by
  induction n with
  | zero => exact ⟨rfl, rfl⟩
  | succ n ih =>
    obtain ⟨hqueue, hpending⟩ := ih (by omega)
    obtain ⟨hqueue', hpending'⟩ := enqueue_pending
      (s := (List.replicate n (LogStep.queue msg)).foldl step new)
      (by rw [hqueue, maxQueue]; omega) msg
    rw [List.replicate_succ', List.foldl_append, List.foldl_cons, List.foldl_nil, step, hqueue',
      hpending', hqueue, hpending]
    omega

/-- A message whose handling throws is handled and still counted, and one message more
than the limit is accepted. -/
theorem not_exact_run :
    (([.queue .start, .take, .finish true].foldl step (new : LogHandler Unit)).queue = 1 ∧
      ([.queue .start, .take, .finish true].foldl step (new : LogHandler Unit)).pending = 0) ∧
    ((List.replicate 251 (.queue .start)).foldl step (new : LogHandler Unit)).pending =
      maxQueue + 1 := by
  refine ⟨⟨by decide, by decide⟩, ?_⟩
  exact (enqueue_replicate LogMessage.start (Nat.le_refl 251)).2

end LogHandler

end NetGuard.Service
