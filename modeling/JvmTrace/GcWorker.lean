import JvmTrace.ZqueueCalls
import JvmTrace.ZqueueWakeups

/-!
The worker thread of src/trace_agent.h, the gc_start callbacks that feed its
queue and the Agent_OnUnload of src/main.cpp that stops it. The queue takes its
own fine-grained steps; the sections under agent_lock::mu_ are one step each. The
worker looks at stop_ only after a timed-out try_pop, and the two are not one
step: a value pushed in between, before the stop, is left behind. The runs that
lose nothing are those in which nothing is inserted between the start of the last
wait and the stop.
-/
namespace JvmTrace.GcWorker

open Runs Zqueue ZqueueCalls

/-- The threads that use the queue. -/
inductive Thread (G : Type*)
  | worker
  | gc (g : G)
  deriving DecidableEq

/-- Where the worker is in its loop. -/
inductive Pc
  | loopHead
  | popping
  | timedOut
  | tracing (tm : UInt64)
  | left

/-- traced lists the popped values in the order of their stack_trace calls. -/
structure State (G : Type*) where
  queue : Zqueue.State (Thread G) UInt64
  stop_ : Bool
  pc : Pc
  traced : List UInt64
  pushedBeforeStop : List UInt64

inductive Act (G : Type*)
  | gcStart (g : G) (tm : UInt64)
  | gcReturn (g : G)
  | queue (a : Zqueue.Act (Thread G) UInt64)
  | callTryPop
  | tryPopReturned
  | stackTrace
  | checkStop
  | agentOnUnload

variable {G : Type*} [DecidableEq G]

def onQueue (s : State G) (a : Zqueue.Act (Thread G) UInt64) (pc : Pc) : Option (State G) :=
  (Zqueue.step s.queue a).map fun q => { s with queue := q, pc := pc }

def step (s : State G) : Act G → Option (State G)
  | .gcStart g tm => onQueue s (.call (.gc g) (.push tm)) s.pc
  | .gcReturn g => onQueue s (.finish (.gc g)) s.pc
  | .queue a => if Internal a then onQueue s a s.pc else none
  | .callTryPop =>
      match s.pc with
      | .loopHead => onQueue s (.call .worker .tryPop) .popping
      | _ => none
  | .tryPopReturned =>
      match s.pc, s.queue.pc .worker with
      | .popping, .returned (.popped tm) => onQueue s (.finish .worker) (.tracing tm)
      | .popping, .returned .gaveUp => onQueue s (.finish .worker) .timedOut
      | _, _ => none
  | .stackTrace =>
      match s.pc with
      | .tracing tm => some { s with pc := .loopHead, traced := s.traced ++ [tm] }
      | _ => none
  | .checkStop =>
      match s.pc with
      | .timedOut => some { s with pc := if s.stop_ then .left else .loopHead }
      | _ => none
  | .agentOnUnload =>
      if s.stop_ then none
      else some { s with stop_ := true, pushedBeforeStop := s.queue.pushed }

omit [DecidableEq G] in
def init : State G where
  queue := Zqueue.init
  stop_ := false
  pc := .loopHead
  traced := []
  pushedBeforeStop := []

/-- Once the worker has left its loop, every value pushed before the stop has
been popped and followed by its stack_trace. -/
def Drained (s : State G) : Prop :=
  s.pc = .left → s.pushedBeforeStop <+: s.traced

/-- A gc_start has inserted a value since the worker last began to wait in try_pop, and
did so before the stop. -/
def noteInsertion (s : State G) (inserted : Bool) : Act G → Bool
  | .queue (.block .worker) => false
  | .queue (.exec (.gc _)) => inserted || !s.stop_
  | _ => inserted

/-- Between the start of the wait that times out and the stop that the worker then finds,
no gc_start inserts a value. -/
def QuietStop (p : State G × Bool) : Act G → Prop
  | .checkStop => p.1.stop_ = true → p.2 = false
  | _ => True

/-- What the worker has popped and not yet traced. -/
def inFlight (s : State G) : List UInt64 :=
  match s.pc with
  | .tracing tm => [tm]
  | .popping => held (s.queue.pc .worker)
  | _ => []

structure Inv (s : State G) : Prop where
  queue : Reachable Zqueue.step Zqueue.init s.queue
  gc : ∀ g, s.queue.pc (.gc g) = .idle ∨ ∃ tm, During (.push tm) (s.queue.pc (.gc g))
  popping : s.pc = .popping → During .tryPop (s.queue.pc .worker)
  outside : s.pc ≠ .popping → s.queue.pc .worker = .idle
  traced : s.traced ++ inFlight s = s.queue.removed
  before : s.pushedBeforeStop <+: s.queue.pushed
  stopped : s.pc = .left → s.stop_ = true

theorem onQueue_eq_some (s s' : State G) (a : Zqueue.Act (Thread G) UInt64) (pc : Pc) :
    onQueue s a pc = some s' ↔
      ∃ q, Zqueue.step s.queue a = some q ∧ { s with queue := q, pc := pc } = s' := by
  rw [onQueue, Option.map_eq_some_iff]

/-- What each step of the system can do. -/
inductive Move (s : State G) : Act G → State G → Prop
  | gcStart (g : G) (tm : UInt64) (q : Zqueue.State (Thread G) UInt64)
      (hq : Zqueue.step s.queue (.call (.gc g) (.push tm)) = some q) :
      Move s (.gcStart g tm) { s with queue := q }
  | gcReturn (g : G) (q : Zqueue.State (Thread G) UInt64)
      (hq : Zqueue.step s.queue (.finish (.gc g)) = some q) :
      Move s (.gcReturn g) { s with queue := q }
  | queue (a : Zqueue.Act (Thread G) UInt64) (q : Zqueue.State (Thread G) UInt64)
      (hint : Internal a) (hq : Zqueue.step s.queue a = some q) :
      Move s (.queue a) { s with queue := q }
  | callTryPop (q : Zqueue.State (Thread G) UInt64) (hpc : s.pc = .loopHead)
      (hq : Zqueue.step s.queue (.call .worker .tryPop) = some q) :
      Move s .callTryPop { s with queue := q, pc := .popping }
  | popped (tm : UInt64) (q : Zqueue.State (Thread G) UInt64) (hpc : s.pc = .popping)
      (hret : s.queue.pc .worker = .returned (.popped tm))
      (hq : Zqueue.step s.queue (.finish .worker) = some q) :
      Move s .tryPopReturned { s with queue := q, pc := .tracing tm }
  | gaveUp (q : Zqueue.State (Thread G) UInt64) (hpc : s.pc = .popping)
      (hret : s.queue.pc .worker = .returned .gaveUp)
      (hq : Zqueue.step s.queue (.finish .worker) = some q) :
      Move s .tryPopReturned { s with queue := q, pc := .timedOut }
  | stackTrace (tm : UInt64) (hpc : s.pc = .tracing tm) :
      Move s .stackTrace { s with pc := .loopHead, traced := s.traced ++ [tm] }
  | checkStop (hpc : s.pc = .timedOut) :
      Move s .checkStop { s with pc := if s.stop_ then .left else .loopHead }
  | agentOnUnload (hstop : s.stop_ = false) :
      Move s .agentOnUnload { s with stop_ := true, pushedBeforeStop := s.queue.pushed }

theorem step_move (s : State G) (a : Act G) (s' : State G) (h : step s a = some s') :
    Move s a s' := by
  cases a with
  | gcStart g tm =>
    obtain ⟨q, hq, rfl⟩ := (onQueue_eq_some s s' _ _).mp h
    exact .gcStart g tm q hq
  | gcReturn g =>
    obtain ⟨q, hq, rfl⟩ := (onQueue_eq_some s s' _ _).mp h
    exact .gcReturn g q hq
  | queue a =>
    simp only [step, Option.ite_none_right_eq_some] at h
    obtain ⟨q, hq, rfl⟩ := (onQueue_eq_some s s' _ _).mp h.2
    exact .queue a q h.1 hq
  | callTryPop =>
    simp only [step] at h
    split at h
    · rename_i hpc
      obtain ⟨q, hq, rfl⟩ := (onQueue_eq_some s s' _ _).mp h
      exact .callTryPop q hpc hq
    · cases h
  | tryPopReturned =>
    simp only [step] at h
    split at h
    · rename_i tm hpc hret
      obtain ⟨q, hq, rfl⟩ := (onQueue_eq_some s s' _ _).mp h
      exact .popped tm q hpc hret hq
    · rename_i hpc hret
      obtain ⟨q, hq, rfl⟩ := (onQueue_eq_some s s' _ _).mp h
      exact .gaveUp q hpc hret hq
    · cases h
  | stackTrace =>
    simp only [step] at h
    split at h
    · rename_i tm hpc
      cases h
      exact .stackTrace tm hpc
    · cases h
  | checkStop =>
    simp only [step] at h
    split at h
    · rename_i hpc
      cases h
      exact .checkStop hpc
    · cases h
  | agentOnUnload =>
    simp only [step] at h
    split at h
    · cases h
    · rename_i hstop
      cases h
      exact .agentOnUnload (by simpa using hstop)

/-- An internal step of the queue is one of the worker's try_pop or of a callback's push. -/
theorem queue_actor (s : State G) (a : Zqueue.Act (Thread G) UInt64)
    (q : Zqueue.State (Thread G) UInt64) (hint : Internal a)
    (hq : Zqueue.step s.queue a = some q) (h : Inv s) :
    (actor a = .worker ∧ s.pc = .popping) ∨
      ∃ g tm, actor a = .gc g ∧ During (.push tm) (s.queue.pc (.gc g)) := by
  have hactor := internal_not_idle s.queue a q (Zqueue.step_move s.queue a q hq) hint
  cases hact : actor a with
  | worker =>
    left
    refine ⟨rfl, ?_⟩
    by_contra hpc
    exact hactor (hact ▸ h.outside hpc)
  | gc g =>
    right
    rcases h.gc g with hidle | ⟨tm, hduring⟩
    · exact absurd (hact ▸ hidle) hactor
    · exact ⟨g, tm, rfl, hduring⟩

/-- An internal step of the queue, taken by the worker or by a callback. -/
theorem queue_inv (s : State G) (a : Zqueue.Act (Thread G) UInt64)
    (q : Zqueue.State (Thread G) UInt64) (hint : Internal a)
    (hq : Zqueue.step s.queue a = some q) (h : Inv s) : Inv { s with queue := q } := by
  have hmove := Zqueue.step_move s.queue a q hq
  have hactor := internal_not_idle s.queue a q hmove hint
  constructor
  · exact reachable_step h.queue hq
  · intro g
    by_cases hg : Thread.gc g = actor a
    · rcases h.gc g with hidle | ⟨tm, hduring⟩
      · exact absurd (hg ▸ hidle) hactor
      · right
        refine ⟨tm, ?_⟩
        change During _ (q.pc (.gc g))
        rw [hg] at hduring ⊢
        exact during_self s.queue a q hmove hint _ hduring
    · rcases h.gc g with hidle | ⟨tm, hduring⟩
      · exact Or.inl (idle_other s.queue a q hmove _ hg hidle)
      · exact Or.inr ⟨tm, during_other s.queue a q hmove _ hg _ hduring⟩
  · intro hpc
    have hduring := h.popping hpc
    change During _ (q.pc .worker)
    by_cases hw : Thread.worker = actor a
    · rw [hw] at hduring ⊢
      exact during_self s.queue a q hmove hint _ hduring
    · exact during_other s.queue a q hmove _ hw _ hduring
  · intro hpc
    have hidle := h.outside hpc
    have hw : Thread.worker ≠ actor a := fun hw => hactor (hw ▸ hidle)
    exact idle_other s.queue a q hmove _ hw hidle
  · have htraced := h.traced
    rcases queue_actor s a q hint hq h with ⟨hact, hpc⟩ | ⟨g, tm, hact, hduring⟩
    · obtain ⟨out, hremoved, hheld⟩ := tryPop_held s.queue a q hmove hint
        (hact ▸ h.popping hpc)
      rw [hact] at hheld
      simp only [inFlight, hpc] at htraced ⊢
      rw [hremoved, hheld, ← List.append_assoc, htraced]
    · have hremoved := push_removed s.queue a q hmove tm (hact ▸ hduring)
      have hheld : held (q.pc .worker) = held (s.queue.pc .worker) :=
        held_other s.queue a q hmove _ (by simp [hact])
      simp only [inFlight] at htraced ⊢
      rw [hremoved, hheld]
      exact htraced
  · exact h.before.trans (pushed_grows s.queue a q hmove)
  · exact h.stopped

/-- A callback enters its push or returns from it. -/
theorem gc_inv (s : State G) (g : G) (p : Zqueue.Pc UInt64)
    (hreach : Reachable Zqueue.step Zqueue.init (s.queue.goto (.gc g) p))
    (hp : p = .idle ∨ ∃ tm, During (.push tm) p) (h : Inv s) :
    Inv { s with queue := s.queue.goto (.gc g) p } := by
  have hworker : (s.queue.goto (.gc g) p).pc .worker = s.queue.pc .worker :=
    goto_pc_of_ne _ _ _ _ (by simp)
  constructor
  · exact hreach
  · intro g'
    by_cases hg : g' = g
    · subst hg
      simpa only [goto_pc_self] using hp
    · simp only [goto_pc_of_ne s.queue (.gc g) (.gc g') _ (by simp [hg])]
      exact h.gc g'
  · simpa only [hworker] using h.popping
  · simpa only [hworker] using h.outside
  · have htraced := h.traced
    simp only [inFlight, hworker] at htraced ⊢
    exact htraced
  · exact h.before
  · exact h.stopped

theorem callTryPop_inv (s : State G) (q : Zqueue.State (Thread G) UInt64)
    (hpc : s.pc = .loopHead) (hq : Zqueue.step s.queue (.call .worker .tryPop) = some q)
    (h : Inv s) : Inv { s with queue := q, pc := .popping } := by
  have hreach := reachable_step h.queue hq
  obtain ⟨_, rfl⟩ := step_call_eq_some s.queue q _ _ hq
  constructor
  · exact hreach
  · intro g
    simp only [goto_pc_of_ne s.queue .worker (.gc g) _ (by simp)]
    exact h.gc g
  · intro _
    simp only [goto_pc_self]
    rfl
  · intro hne
    exact absurd rfl hne
  · have htraced := h.traced
    simp only [inFlight, hpc] at htraced
    simp only [inFlight, goto_pc_self]
    exact htraced
  · exact h.before
  · intro hleft
    cases hleft

/-- The result of a try_pop is taken over, with the element in flight if any. -/
theorem tryPopReturned_inv (s : State G) (q : Zqueue.State (Thread G) UInt64) (pc : Pc)
    (hpc : s.pc = .popping) (hq : Zqueue.step s.queue (.finish .worker) = some q)
    (hnext : pc ≠ .popping ∧ pc ≠ .left)
    (hflight : inFlight { s with queue := q, pc := pc } = held (s.queue.pc .worker)) (h : Inv s) :
    Inv { s with queue := q, pc := pc } := by
  have hreach := reachable_step h.queue hq
  obtain ⟨_, rfl⟩ := step_finish_eq_some s.queue q _ hq
  constructor
  · exact hreach
  · intro g
    simp only [goto_pc_of_ne s.queue .worker (.gc g) _ (by simp)]
    exact h.gc g
  · intro hp
    exact absurd hp hnext.1
  · intro _
    exact goto_pc_self _ _ _
  · have htraced := h.traced
    simp only [inFlight, hpc] at htraced
    rw [hflight]
    exact htraced
  · exact h.before
  · intro hleft
    exact absurd hleft hnext.2

theorem step_inv (s : State G) (a : Act G) (s' : State G) (hstep : step s a = some s')
    (h : Inv s) : Inv s' := by
  cases step_move s a s' hstep with
  | gcStart g tm q hq =>
    have hreach := reachable_step h.queue hq
    obtain ⟨_, rfl⟩ := step_call_eq_some s.queue q _ _ hq
    exact gc_inv s g _ hreach (Or.inr ⟨tm, rfl⟩) h
  | gcReturn g q hq =>
    have hreach := reachable_step h.queue hq
    obtain ⟨_, rfl⟩ := step_finish_eq_some s.queue q _ hq
    exact gc_inv s g _ hreach (Or.inl rfl) h
  | queue a q hint hq => exact queue_inv s a q hint hq h
  | callTryPop q hpc hq => exact callTryPop_inv s q hpc hq h
  | popped tm q hpc hret hq =>
    exact tryPopReturned_inv s q _ hpc hq (by simp) (by simp [inFlight, hret, held]) h
  | gaveUp q hpc hret hq =>
    exact tryPopReturned_inv s q _ hpc hq (by simp) (by simp [inFlight, hret, held]) h
  | stackTrace tm hpc =>
    have htraced := h.traced
    have hidle := h.outside (by simp [hpc])
    simp only [inFlight, hpc] at htraced
    exact ⟨h.queue, h.gc, by simp, fun _ => hidle, by simpa [inFlight] using htraced,
      h.before, by simp⟩
  | checkStop hpc =>
    have htraced := h.traced
    have hidle := h.outside (by simp [hpc])
    simp only [inFlight, hpc] at htraced
    cases hstop : s.stop_ with
    | false =>
      exact ⟨h.queue, h.gc, by simp, fun _ => hidle, by simpa [inFlight] using htraced,
        h.before, by simp⟩
    | true =>
      exact ⟨h.queue, h.gc, by simp, fun _ => hidle, by simpa [inFlight] using htraced,
        h.before, by simp⟩
  | agentOnUnload hstop =>
    exact ⟨h.queue, h.gc, h.popping, h.outside, h.traced, List.prefix_rfl, fun _ => rfl⟩

theorem init_inv : Inv (init : State G) where
  queue := ⟨[], rfl⟩
  gc _ := Or.inl rfl
  popping h := by simp [init] at h
  outside _ := rfl
  traced := rfl
  before := List.prefix_rfl
  stopped h := by simp [init] at h

/-- At the stop check nothing is in flight: what was popped has been traced. -/
theorem traced_of_timedOut (s : State G) (h : Inv s) (hpc : s.pc = .timedOut) :
    s.traced = s.queue.removed := by
  have htraced := h.traced
  simpa [inFlight, hpc] using htraced

/-- From the start of a wait to the stop check that follows its timeout. -/
def WaitsOut (s : State G) : Prop :=
  s.pc = .timedOut ∨ s.pc = .popping ∧ GivingUp (s.queue.pc .worker)

/-- The number of values the worker owes a trace: those pushed so far, or up to the stop
once it has come. -/
def due (s : State G) : ℕ :=
  if s.stop_ then s.pushedBeforeStop.length else s.queue.pushed.length

/-- While the worker waits its time out, the record says whether anything due is queued. -/
def Recorded (p : State G × Bool) : Prop :=
  WaitsOut p.1 → (p.2 = false ↔ due p.1 ≤ p.1.queue.removed.length)

theorem due_le_pushed (s : State G) (h : Inv s) : due s ≤ s.queue.pushed.length := by
  rw [due]
  split
  · exact h.before.length_le
  · exact le_refl _

theorem removed_le_pushed (s : State G) (h : Inv s) :
    s.queue.removed.length ≤ s.queue.pushed.length := by
  rw [← (ZqueueFifo.reachable_inv s.queue h.queue).fifo, List.length_append]
  exact Nat.le_add_right _ _

omit [DecidableEq G] in
/-- A step that changes neither what is due nor what is popped keeps the record. -/
theorem recorded_of_eq (s t : State G) (inserted : Bool)
    (hsame : WaitsOut t → WaitsOut s ∧ due t = due s ∧ t.queue.removed = s.queue.removed)
    (h : Recorded (s, inserted)) : Recorded (t, inserted) := by
  intro hw
  obtain ⟨hwaits, hdue, hremoved⟩ := hsame hw
  rw [hdue, hremoved]
  exact h hwaits

/-- The wait starts on an empty queue: everything pushed so far has been popped. -/
theorem recorded_block (s : State G) (q : Zqueue.State (Thread G) UInt64) (h : Inv s)
    (hq : Zqueue.step s.queue (.block .worker) = some q) :
    Recorded ({ s with queue := q }, false) := by
  have hreach := ZqueueWakeups.reachable_inv s.queue h.queue
  have hinv := queue_inv s (.block .worker) q trivial hq h
  intro _
  refine ⟨fun _ => ?_, fun _ => rfl⟩
  refine (due_le_pushed _ hinv).trans (le_of_eq ?_)
  cases Zqueue.step_move s.queue _ q hq with
  | block _ op hpc hown =>
    change s.queue.pushed.length = s.queue.removed.length
    rw [← hreach.fifo.fifo, hreach.empty .worker op hpc, List.append_nil]

/-- An insertion before the stop is due and not yet popped. -/
theorem recorded_insert (s : State G) (q : Zqueue.State (Thread G) UInt64) (g : G)
    (inserted : Bool) (h : Inv s) (hq : Zqueue.step s.queue (.exec (.gc g)) = some q)
    (hs : Recorded (s, inserted)) :
    Recorded ({ s with queue := q }, inserted || !s.stop_) := by
  have hmove := Zqueue.step_move s.queue _ q hq
  intro hw
  have hwaits : WaitsOut s := by
    rcases hw with hout | ⟨hpc, hgives⟩
    · exact Or.inl hout
    · exact Or.inr ⟨hpc, givingUp_other s.queue _ q hmove .worker (by simp [actor]) hgives⟩
  have hold := hs hwaits
  have hle := removed_le_pushed s h
  cases hmove with
  | exec _ op hpc =>
    rcases h.gc g with hidle | ⟨tm, hduring⟩
    · rw [hidle] at hpc
      cases hpc
    · rw [hpc] at hduring
      have hop : op = .push tm := hduring
      subst hop
      cases hstop : s.stop_ with
      | true =>
        simp only [due, hstop, if_true] at hold
        simp only [due, if_true, Bool.not_true, Bool.or_false]
        exact hold
      | false =>
        simp only [due, Bool.false_eq_true, if_false, Bool.not_false, Bool.or_true,
          Bool.true_eq_false, false_iff, not_le]
        change s.queue.removed.length < (s.queue.pushed ++ [tm]).length
        rw [List.length_append, List.length_singleton]
        omega

/-- The other steps of the queue move no value while the worker waits its time out. -/
theorem recorded_queue (s : State G) (a : Zqueue.Act (Thread G) UInt64)
    (q : Zqueue.State (Thread G) UInt64) (inserted : Bool) (hint : Internal a)
    (hq : Zqueue.step s.queue a = some q) (hexec : ∀ g, a ≠ .exec (.gc g))
    (hblock : a ≠ .block .worker) (h : Inv s) (hs : Recorded (s, inserted)) :
    Recorded ({ s with queue := q }, inserted) := by
  have hmove := Zqueue.step_move s.queue a q hq
  refine recorded_of_eq s _ inserted ?_ hs
  intro hw
  rcases queue_actor s a q hint hq h with ⟨hact, hpc⟩ | ⟨g, tm, hact, hduring⟩
  · have hgives : GivingUp (q.pc .worker) := by
      rcases hw with hout | hin
      · exact absurd (hpc.symm.trans hout) (by simp)
      · exact hin.2
    rw [← hact] at hgives
    rcases givingUp_self s.queue a q hmove hint (hact ▸ h.popping hpc) hgives with
      hstart | ⟨hbefore, hpushed, hremoved⟩
    · exact absurd (hact ▸ hstart) hblock
    · rw [hact] at hbefore
      exact ⟨Or.inr ⟨hpc, hbefore⟩, by simp only [due, hpushed], hremoved⟩
  · have hremoved := push_removed s.queue a q hmove tm (hact ▸ hduring)
    have hpushed : q.pushed = s.queue.pushed := by
      rcases move_pushed s.queue a q hmove with heq | ⟨t, v, rfl, _⟩
      · exact heq
      · exact absurd (congrArg Zqueue.Act.exec hact) (hexec g)
    refine ⟨?_, by simp only [due, hpushed], hremoved⟩
    rcases hw with hout | ⟨hpc, hgives⟩
    · exact Or.inl hout
    · exact Or.inr ⟨hpc, givingUp_other s.queue a q hmove .worker (by simp [hact]) hgives⟩

omit [DecidableEq G] in
theorem noteInsertion_queue (s : State G) (inserted : Bool) (a : Zqueue.Act (Thread G) UInt64)
    (hexec : ∀ g, a ≠ .exec (.gc g)) (hblock : a ≠ .block .worker) :
    noteInsertion s inserted (.queue a) = inserted := by
  cases a with
  | exec t =>
    cases t with
    | worker => rfl
    | gc g => exact absurd rfl (hexec g)
  | block t =>
    cases t with
    | worker => exact absurd rfl hblock
    | gc g => rfl
  | _ => rfl

theorem step_recorded (s : State G) (inserted : Bool) (a : Act G) (s' : State G)
    (hstep : step s a = some s') (h : Inv s) (hs : Recorded (s, inserted)) :
    Recorded (s', noteInsertion s inserted a) := by
  cases step_move s a s' hstep with
  | gcStart g tm q hq =>
    obtain ⟨_, rfl⟩ := step_call_eq_some s.queue q _ _ hq
    refine recorded_of_eq s _ inserted (fun hw => ⟨?_, rfl, rfl⟩) hs
    simpa only [WaitsOut, goto_pc_of_ne s.queue (.gc g) .worker _ (by simp)] using hw
  | gcReturn g q hq =>
    obtain ⟨_, rfl⟩ := step_finish_eq_some s.queue q _ hq
    refine recorded_of_eq s _ inserted (fun hw => ⟨?_, rfl, rfl⟩) hs
    simpa only [WaitsOut, goto_pc_of_ne s.queue (.gc g) .worker _ (by simp)] using hw
  | queue a q hint hq =>
    by_cases hblock : a = .block .worker
    · subst hblock
      exact recorded_block s q h hq
    · by_cases hexec : ∃ g, a = .exec (.gc g)
      · obtain ⟨g, rfl⟩ := hexec
        exact recorded_insert s q g inserted h hq hs
      · have hexec' : ∀ g, a ≠ .exec (.gc g) := fun g hg => hexec ⟨g, hg⟩
        rw [noteInsertion_queue s inserted a hexec' hblock]
        exact recorded_queue s a q inserted hint hq hexec' hblock h hs
  | callTryPop q hpc hq =>
    obtain ⟨_, rfl⟩ := step_call_eq_some s.queue q _ _ hq
    intro hw
    rcases hw with hout | ⟨_, hgives⟩
    · cases hout
    · simp only [goto_pc_self] at hgives
      exact False.elim hgives
  | popped tm q hpc hret hq =>
    intro hw
    rcases hw with hout | ⟨hout, _⟩ <;> cases hout
  | gaveUp q hpc hret hq =>
    obtain ⟨_, rfl⟩ := step_finish_eq_some s.queue q _ hq
    have hwaits : WaitsOut s := Or.inr ⟨hpc, by simp [hret, GivingUp]⟩
    exact recorded_of_eq s _ inserted (fun _ => ⟨hwaits, rfl, rfl⟩) hs
  | stackTrace tm hpc =>
    intro hw
    rcases hw with hout | ⟨hout, _⟩ <;> cases hout
  | checkStop hpc =>
    intro hw
    cases hstop : s.stop_ <;> simp [WaitsOut, hstop] at hw
  | agentOnUnload hstop =>
    exact recorded_of_eq s _ inserted (fun hw => ⟨hw, by simp [due, hstop], rfl⟩) hs

/-- The worker that leaves with nothing due in the queue has traced all of it. -/
theorem step_drained (s : State G) (inserted : Bool) (a : Act G) (s' : State G)
    (hstep : step s a = some s') (h : Inv s) (hrec : Recorded (s, inserted))
    (hok : QuietStop (s, inserted) a) (hs : Drained s) : Drained s' := by
  cases step_move s a s' hstep with
  | gcStart g tm q hq => exact hs
  | gcReturn g q hq => exact hs
  | queue a q hint hq => exact hs
  | callTryPop q hpc hq => exact fun hleft => Pc.noConfusion hleft
  | popped tm q hpc hret hq => exact fun hleft => Pc.noConfusion hleft
  | gaveUp q hpc hret hq => exact fun hleft => Pc.noConfusion hleft
  | stackTrace tm hpc => exact fun hleft => Pc.noConfusion hleft
  | checkStop hpc =>
    intro hleft
    have hstop : s.stop_ = true := by
      by_contra hrun
      simp [hrun] at hleft
    have hlen := (hrec (Or.inl hpc)).mp (hok hstop)
    simp only [due, hstop, if_true] at hlen
    have hfifo := (ZqueueFifo.reachable_inv s.queue h.queue).fifo
    have hremoved : s.queue.removed <+: s.queue.pushed := by
      rw [← hfifo]
      exact List.prefix_append _ _
    change s.pushedBeforeStop <+: s.traced
    rw [traced_of_timedOut s h hpc]
    exact List.prefix_of_prefix_length_le h.before hremoved hlen
  | agentOnUnload hstop =>
    intro hleft
    have hstopped := h.stopped hleft
    rw [hstop] at hstopped
    cases hstopped

/-- Leaving the loop past an insertion of the window loses it. -/
theorem step_quietStop (s : State G) (inserted : Bool) (a : Act G) (s' : State G)
    (hstep : step s a = some s') (h : Inv s) (hrec : Recorded (s, inserted))
    (hs' : Drained s') : QuietStop (s, inserted) a := by
  cases step_move s a s' hstep with
  | checkStop hpc =>
    intro hstop
    change s.stop_ = true at hstop
    have hprefix : s.pushedBeforeStop <+: s.traced := hs' (by simp [hstop])
    refine (hrec (Or.inl hpc)).mpr ?_
    rw [due, if_pos hstop, ← traced_of_timedOut s h hpc]
    exact hprefix.length_le
  | _ => trivial

/-- In every run: nothing pushed before the stop is lost if and only if no gc_start
inserts between the start of the worker's last wait and the stop it finds after it. -/
theorem drained_along_iff (actions : List (Act G)) :
    Along step Drained init actions ↔
      Meets (noting step noteInsertion) QuietStop ((init : State G), false) actions := by
  rw [← along_noting noteInsertion Drained init false]
  apply along_iff_meets (I := fun p => Inv p.1 ∧ Recorded p) (P := fun p => Drained p.1)
  · rintro ⟨s, inserted⟩ a ⟨s', inserted'⟩ hnoting ⟨hinv, hrec⟩
    obtain ⟨hstep, rfl⟩ := (noting_eq_some noteInsertion s s' _ _ a).mp hnoting
    exact ⟨step_inv s a s' hstep hinv, step_recorded s inserted a s' hstep hinv hrec⟩
  · rintro ⟨s, inserted⟩ a ⟨s', inserted'⟩ hnoting ⟨hinv, hrec⟩ hok hs
    obtain ⟨hstep, rfl⟩ := (noting_eq_some noteInsertion s s' _ _ a).mp hnoting
    exact step_drained s inserted a s' hstep hinv hrec hok hs
  · rintro ⟨s, inserted⟩ a ⟨s', inserted'⟩ hnoting ⟨hinv, hrec⟩ _ hs'
    obtain ⟨hstep, rfl⟩ := (noting_eq_some noteInsertion s s' _ _ a).mp hnoting
    exact step_quietStop s inserted a s' hstep hinv hrec hs'
  · refine ⟨init_inv, ?_⟩
    intro hw
    simp [due, init, Zqueue.init]
  · exact fun hleft => Pc.noConfusion hleft

/-- A collection between the timed-out try_pop and the stop check is lost. -/
theorem gc_event_lost :
    ∃ s : State Unit, Reachable step init s ∧ s.pc = .left ∧ s.pushedBeforeStop = [7] ∧
      s.traced = [] ∧ ¬ Drained s := by
  have hrun : ∃ s : State Unit, run step init
      [.callTryPop, .queue (.acquire .worker), .queue (.exec .worker), .queue (.block .worker),
        .queue (.expire .worker), .queue (.timeout .worker), .queue (.leave .worker),
        .tryPopReturned, .gcStart () 7, .queue (.acquire (.gc ())), .queue (.exec (.gc ())),
        .queue (.leave (.gc ())), .queue (.notify (.gc ()) none), .gcReturn (),
        .agentOnUnload, .checkStop] = some s ∧
      s.pc = .left ∧ s.pushedBeforeStop = [7] ∧ s.traced = [] := ⟨_, rfl, rfl, rfl, rfl⟩
  obtain ⟨s, hs, hpc, hbefore, htraced⟩ := hrun
  refine ⟨s, ⟨_, hs⟩, hpc, hbefore, htraced, ?_⟩
  intro hdrained
  have hprefix := hdrained hpc
  rw [hbefore, htraced] at hprefix
  simp at hprefix

end JvmTrace.GcWorker
