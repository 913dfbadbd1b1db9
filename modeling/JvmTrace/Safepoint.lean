import JvmTrace.MemFuller
import JvmTrace.ZqueueFifo

/-!
safepoint_worker and the safepoint_notify thread it starts, from
src/trace_agent.h, with any number of application threads that call
mem_fuller::pending. The worker serves one request: it starts the notifier,
takes the stack trace, pushes the stop token on qq and joins. The notifier
signals one waiter a round until it gets the token. Whoever is past its push and
not yet woken when the notifier leaves, or gets there later, is waited for by
nobody.
-/
namespace JvmTrace.Safepoint

open Monitors Runs ZqueueCalls

/-- The two threads that share qq. -/
inductive Party
  | worker
  | notifier
  deriving DecidableEq

/-- The threads that use mem_fuller. -/
inductive Thread (A : Type*)
  | party (p : Party)
  | app (a : A)
  deriving DecidableEq

/-- Where safepoint_worker is. -/
inductive WorkerPc
  | loopHead
  | popping
  | timedOut
  | starting
  | tracing
  | traced
  | pushing
  | joining
  | finished
  deriving DecidableEq

/-- Where safepoint_notify is. -/
inductive NotifierPc
  | notStarted
  | loopHead
  | notifying
  | notified
  | popping
  | finished
  deriving DecidableEq

structure State (A : Type*) where
  fuller : MemFuller.State (Thread A)
  qq : Zqueue.State Party UInt64
  stop_ : Bool
  worker : WorkerPc
  notifier : NotifierPc

inductive Act (A : Type*)
  | pending (a : A) (tm : UInt64)
  | fuller (a : MemFuller.Act (Thread A))
  | agentOnUnload
  | callTryPop
  | tryPopReturned
  | checkStop
  | startNotifier
  | stackTrace
  | callPush
  | pushReturned
  | join
  | qq (a : Zqueue.Act Party UInt64)
  | callNotify
  | notifyReturned
  | callTryPopToken
  | tryPopTokenReturned

/-- The steps that go on with a call of mem_fuller already made. -/
def Continues {T : Type*} : MemFuller.Act T → Prop
  | .callTryPop _ => False
  | .tryPopReturned _ => False
  | .pending _ _ => False
  | .notify _ _ => False
  | _ => True

instance {T : Type*} : DecidablePred (Continues : MemFuller.Act T → Prop)
  | .callTryPop _ => isFalse id
  | .tryPopReturned _ => isFalse id
  | .pending _ _ => isFalse id
  | .notify _ _ => isFalse id
  | .queue _ => isTrue trivial
  | .pushReturned _ => isTrue trivial
  | .lock _ => isTrue trivial
  | .condWait _ => isTrue trivial
  | .spurious _ => isTrue trivial
  | .unlock _ => isTrue trivial
  | .signal _ _ => isTrue trivial
  | .broadcast _ => isTrue trivial

variable {A : Type*} [DecidableEq A]

def onFuller (s : State A) (a : MemFuller.Act (Thread A)) (worker : WorkerPc)
    (notifier : NotifierPc) : Option (State A) :=
  (MemFuller.step s.fuller a).map fun f =>
    { s with fuller := f, worker := worker, notifier := notifier }

omit [DecidableEq A] in
def onQq (s : State A) (a : Zqueue.Act Party UInt64) (worker : WorkerPc)
    (notifier : NotifierPc) : Option (State A) :=
  (Zqueue.step s.qq a).map fun q => { s with qq := q, worker := worker, notifier := notifier }

def step (s : State A) : Act A → Option (State A)
  | .pending a tm => onFuller s (.pending (.app a) tm) s.worker s.notifier
  | .fuller a => if Continues a then onFuller s a s.worker s.notifier else none
  | .agentOnUnload => if s.stop_ then none else some { s with stop_ := true }
  | .callTryPop =>
      match s.worker with
      | .loopHead => onFuller s (.callTryPop (.party .worker)) .popping s.notifier
      | _ => none
  | .tryPopReturned =>
      match s.worker, s.fuller.queue_.pc (.party .worker) with
      | .popping, .returned (.popped _) =>
          onFuller s (.tryPopReturned (.party .worker)) .starting s.notifier
      | .popping, .returned .gaveUp =>
          onFuller s (.tryPopReturned (.party .worker)) .timedOut s.notifier
      | _, _ => none
  | .checkStop =>
      match s.worker with
      | .timedOut => some { s with worker := if s.stop_ then .finished else .loopHead }
      | _ => none
  | .startNotifier =>
      match s.worker with
      | .starting => some { s with qq := Zqueue.init, worker := .tracing, notifier := .loopHead }
      | _ => none
  | .stackTrace =>
      match s.worker with
      | .tracing => some { s with worker := .traced }
      | _ => none
  | .callPush =>
      match s.worker with
      | .traced => onQq s (.call .worker (.push 1)) .pushing s.notifier
      | _ => none
  | .pushReturned =>
      match s.worker with
      | .pushing => onQq s (.finish .worker) .joining s.notifier
      | _ => none
  | .join =>
      match s.worker, s.notifier with
      | .joining, .finished => some { s with worker := .finished }
      | _, _ => none
  | .qq a => if Internal a then onQq s a s.worker s.notifier else none
  | .callNotify =>
      match s.notifier with
      | .loopHead => onFuller s (.notify (.party .notifier) false) s.worker .notifying
      | _ => none
  | .notifyReturned =>
      match s.notifier, s.fuller.pc (.party .notifier) with
      | .notifying, .outside => some { s with notifier := .notified }
      | _, _ => none
  | .callTryPopToken =>
      match s.notifier with
      | .notified => onQq s (.call .notifier .tryPop) s.worker .popping
      | _ => none
  | .tryPopTokenReturned =>
      match s.notifier, s.qq.pc .notifier with
      | .popping, .returned (.popped _) => onQq s (.finish .notifier) s.worker .finished
      | .popping, .returned .gaveUp => onQq s (.finish .notifier) s.worker .loopHead
      | _, _ => none

omit [DecidableEq A] in
/-- Only the worker has called set_stack_trace. -/
def init : State A where
  fuller := MemFuller.init fun
    | .party .worker => true
    | _ => false
  qq := Zqueue.init
  stop_ := false
  worker := .loopHead
  notifier := .notStarted

/-- Both threads are gone and an application thread waits, or is about to. -/
def Stranded (s : State A) : Prop :=
  s.worker = .finished ∧ s.notifier = .finished ∧ ∃ a, (s.fuller.pc (.app a)).Stuck

/-- The notifier takes the token only when no application thread is past its
push and not yet woken, and none gets past its push once the notifier has left. -/
def InTime (s : State A) : Act A → Prop
  | .tryPopTokenReturned =>
      ∀ tm, s.qq.pc .notifier = .returned (.popped tm) → ∀ a, ¬ (s.fuller.pc (.app a)).Stuck
  | .fuller (.pushReturned (.app _)) => s.notifier ≠ .finished
  | _ => True

/-- What each step can do, with the guards it had to pass. -/
inductive Move (s : State A) : Act A → State A → Prop
  | pending (a : A) (tm : UInt64) (f : MemFuller.State (Thread A))
      (hf : MemFuller.step s.fuller (.pending (.app a) tm) = some f) :
      Move s (.pending a tm) { s with fuller := f }
  | fuller (a : MemFuller.Act (Thread A)) (f : MemFuller.State (Thread A)) (hcont : Continues a)
      (hf : MemFuller.step s.fuller a = some f) : Move s (.fuller a) { s with fuller := f }
  | agentOnUnload : Move s .agentOnUnload { s with stop_ := true }
  | callTryPop (f : MemFuller.State (Thread A)) (hw : s.worker = .loopHead)
      (hf : MemFuller.step s.fuller (.callTryPop (.party .worker)) = some f) :
      Move s .callTryPop { s with fuller := f, worker := .popping }
  | popped (f : MemFuller.State (Thread A)) (hw : s.worker = .popping)
      (hf : MemFuller.step s.fuller (.tryPopReturned (.party .worker)) = some f) :
      Move s .tryPopReturned { s with fuller := f, worker := .starting }
  | gaveUp (f : MemFuller.State (Thread A)) (hw : s.worker = .popping)
      (hf : MemFuller.step s.fuller (.tryPopReturned (.party .worker)) = some f) :
      Move s .tryPopReturned { s with fuller := f, worker := .timedOut }
  | checkStop (hw : s.worker = .timedOut) :
      Move s .checkStop { s with worker := if s.stop_ then .finished else .loopHead }
  | startNotifier (hw : s.worker = .starting) :
      Move s .startNotifier
        { s with qq := Zqueue.init, worker := .tracing, notifier := .loopHead }
  | stackTrace (hw : s.worker = .tracing) : Move s .stackTrace { s with worker := .traced }
  | callPush (q : Zqueue.State Party UInt64) (hw : s.worker = .traced)
      (hq : Zqueue.step s.qq (.call .worker (.push 1)) = some q) :
      Move s .callPush { s with qq := q, worker := .pushing }
  | pushReturned (q : Zqueue.State Party UInt64) (hw : s.worker = .pushing)
      (hq : Zqueue.step s.qq (.finish .worker) = some q) :
      Move s .pushReturned { s with qq := q, worker := .joining }
  | join (hw : s.worker = .joining) (hn : s.notifier = .finished) :
      Move s .join { s with worker := .finished }
  | qq (a : Zqueue.Act Party UInt64) (q : Zqueue.State Party UInt64) (hint : Internal a)
      (hq : Zqueue.step s.qq a = some q) : Move s (.qq a) { s with qq := q }
  | callNotify (f : MemFuller.State (Thread A)) (hn : s.notifier = .loopHead)
      (hf : MemFuller.step s.fuller (.notify (.party .notifier) false) = some f) :
      Move s .callNotify { s with fuller := f, notifier := .notifying }
  | notifyReturned (hn : s.notifier = .notifying) :
      Move s .notifyReturned { s with notifier := .notified }
  | callTryPopToken (q : Zqueue.State Party UInt64) (hn : s.notifier = .notified)
      (hq : Zqueue.step s.qq (.call .notifier .tryPop) = some q) :
      Move s .callTryPopToken { s with qq := q, notifier := .popping }
  | tokenPopped (tm : UInt64) (q : Zqueue.State Party UInt64) (hn : s.notifier = .popping)
      (hret : s.qq.pc .notifier = .returned (.popped tm))
      (hq : Zqueue.step s.qq (.finish .notifier) = some q) :
      Move s .tryPopTokenReturned { s with qq := q, notifier := .finished }
  | tokenGaveUp (q : Zqueue.State Party UInt64) (hn : s.notifier = .popping)
      (hret : s.qq.pc .notifier = .returned .gaveUp)
      (hq : Zqueue.step s.qq (.finish .notifier) = some q) :
      Move s .tryPopTokenReturned { s with qq := q, notifier := .loopHead }

theorem onFuller_eq_some (s s' : State A) (a : MemFuller.Act (Thread A)) (worker : WorkerPc)
    (notifier : NotifierPc) :
    onFuller s a worker notifier = some s' ↔
      ∃ f, MemFuller.step s.fuller a = some f ∧
        { s with fuller := f, worker := worker, notifier := notifier } = s' := by
  rw [onFuller, Option.map_eq_some_iff]

omit [DecidableEq A] in
theorem onQq_eq_some (s s' : State A) (a : Zqueue.Act Party UInt64) (worker : WorkerPc)
    (notifier : NotifierPc) :
    onQq s a worker notifier = some s' ↔
      ∃ q, Zqueue.step s.qq a = some q ∧
        { s with qq := q, worker := worker, notifier := notifier } = s' := by
  rw [onQq, Option.map_eq_some_iff]

theorem step_move (s : State A) (a : Act A) (s' : State A) (h : step s a = some s') :
    Move s a s' := by
  cases a with
  | pending a tm =>
    obtain ⟨f, hf, rfl⟩ := (onFuller_eq_some s s' _ _ _).mp h
    exact .pending a tm f hf
  | fuller a =>
    simp only [step, Option.ite_none_right_eq_some] at h
    obtain ⟨f, hf, rfl⟩ := (onFuller_eq_some s s' _ _ _).mp h.2
    exact .fuller a f h.1 hf
  | agentOnUnload =>
    simp only [step] at h
    split at h
    · cases h
    · cases h
      exact .agentOnUnload
  | callTryPop =>
    simp only [step] at h
    split at h
    · rename_i hw
      obtain ⟨f, hf, rfl⟩ := (onFuller_eq_some s s' _ _ _).mp h
      exact .callTryPop f hw hf
    · cases h
  | tryPopReturned =>
    simp only [step] at h
    split at h
    · rename_i hw _
      obtain ⟨f, hf, rfl⟩ := (onFuller_eq_some s s' _ _ _).mp h
      exact .popped f hw hf
    · rename_i hw _
      obtain ⟨f, hf, rfl⟩ := (onFuller_eq_some s s' _ _ _).mp h
      exact .gaveUp f hw hf
    · cases h
  | checkStop =>
    simp only [step] at h
    split at h
    · rename_i hw
      cases h
      exact .checkStop hw
    · cases h
  | startNotifier =>
    simp only [step] at h
    split at h
    · rename_i hw
      cases h
      exact .startNotifier hw
    · cases h
  | stackTrace =>
    simp only [step] at h
    split at h
    · rename_i hw
      cases h
      exact .stackTrace hw
    · cases h
  | callPush =>
    simp only [step] at h
    split at h
    · rename_i hw
      obtain ⟨q, hq, rfl⟩ := (onQq_eq_some s s' _ _ _).mp h
      exact .callPush q hw hq
    · cases h
  | pushReturned =>
    simp only [step] at h
    split at h
    · rename_i hw
      obtain ⟨q, hq, rfl⟩ := (onQq_eq_some s s' _ _ _).mp h
      exact .pushReturned q hw hq
    · cases h
  | join =>
    simp only [step] at h
    split at h
    · rename_i hw hn
      cases h
      exact .join hw hn
    · cases h
  | qq a =>
    simp only [step, Option.ite_none_right_eq_some] at h
    obtain ⟨q, hq, rfl⟩ := (onQq_eq_some s s' _ _ _).mp h.2
    exact .qq a q h.1 hq
  | callNotify =>
    simp only [step] at h
    split at h
    · rename_i hn
      obtain ⟨f, hf, rfl⟩ := (onFuller_eq_some s s' _ _ _).mp h
      exact .callNotify f hn hf
    · cases h
  | notifyReturned =>
    simp only [step] at h
    split at h
    · rename_i hn _
      cases h
      exact .notifyReturned hn
    · cases h
  | callTryPopToken =>
    simp only [step] at h
    split at h
    · rename_i hn
      obtain ⟨q, hq, rfl⟩ := (onQq_eq_some s s' _ _ _).mp h
      exact .callTryPopToken q hn hq
    · cases h
  | tryPopTokenReturned =>
    simp only [step] at h
    split at h
    · rename_i tm hn hret
      obtain ⟨q, hq, rfl⟩ := (onQq_eq_some s s' _ _ _).mp h
      exact .tokenPopped tm q hn hret hq
    · rename_i hn hret
      obtain ⟨q, hq, rfl⟩ := (onQq_eq_some s s' _ _ _).mp h
      exact .tokenGaveUp q hn hret hq
    · cases h

/-- Once the notifier has left, no application thread is past its push and
not yet woken. -/
def Released (s : State A) : Prop :=
  s.notifier = .finished → ∀ a, ¬ (s.fuller.pc (.app a)).Stuck

/-- A step of mem_fuller that is not the return from an application's push. -/
theorem fuller_released (s : State A) (a : MemFuller.Act (Thread A))
    (f : MemFuller.State (Thread A)) (hf : MemFuller.step s.fuller a = some f)
    (ha : ∀ b, a = .pushReturned (.app b) → s.notifier ≠ .finished) (h : Released s) :
    s.notifier = .finished → ∀ b, ¬ (f.pc (.app b)).Stuck := by
  intro hn b hstuck
  rcases MemFuller.step_stuck s.fuller a f hf (.app b) hstuck with hbefore | ⟨hpush, _⟩
  · exact h hn b hbefore
  · exact ha b hpush hn

theorem step_released (s : State A) (a : Act A) (s' : State A) (hstep : step s a = some s')
    (hok : InTime s a) (h : Released s) : Released s' := by
  cases step_move s a s' hstep with
  | pending a tm f hf => exact fuller_released s _ f hf (by simp) h
  | fuller a f hcont hf =>
    apply fuller_released s a f hf _ h
    intro b hb
    subst hb
    exact hok
  | agentOnUnload => exact h
  | callTryPop f hw hf => exact fuller_released s _ f hf (by simp) h
  | popped f hw hf => exact fuller_released s _ f hf (by simp) h
  | gaveUp f hw hf => exact fuller_released s _ f hf (by simp) h
  | checkStop hw => exact h
  | startNotifier hw => exact fun hn => NotifierPc.noConfusion hn
  | stackTrace hw => exact h
  | callPush q hw hq => exact h
  | pushReturned q hw hq => exact h
  | join hw hn => exact h
  | qq a q hint hq => exact h
  | callNotify f hn hf => exact fun hn => NotifierPc.noConfusion hn
  | notifyReturned hn => exact fun hn => NotifierPc.noConfusion hn
  | callTryPopToken q hn hq => exact fun hn => NotifierPc.noConfusion hn
  | tokenPopped tm q hn hret hq => exact fun _ => hok tm hret
  | tokenGaveUp q hn hret hq => exact fun hn => NotifierPc.noConfusion hn

omit [DecidableEq A] in
theorem init_released : Released (init : State A) :=
  fun hn => NotifierPc.noConfusion hn

omit [DecidableEq A] in
theorem released_not_stranded (s : State A) (h : Released s) : ¬ Stranded s := by
  intro hs
  obtain ⟨_, hn, a, ha⟩ := hs
  exact h hn a ha

/-- Before the notifier is started. -/
def WorkerPc.Early : WorkerPc → Prop
  | .loopHead => True
  | .popping => True
  | .timedOut => True
  | .starting => True
  | _ => False

/-- Where the token is, seen from the two threads that share qq. -/
structure Handshake (s : State A) : Prop where
  qq : Reachable Zqueue.step Zqueue.init s.qq
  early : s.worker.Early → s.notifier = .notStarted
  quiet : s.worker = .tracing ∨ s.worker = .traced → s.qq.pushed = []
  pushing : s.worker = .pushing → During (.push 1) (s.qq.pc .worker) ∧
    (s.qq.pushed = [] ∨ Inserted (s.qq.pc .worker))
  notPushing : s.worker ≠ .pushing → s.qq.pc .worker = .idle
  popping : s.notifier = .popping → During .tryPop (s.qq.pc .notifier)
  notPopping : s.notifier ≠ .popping → s.qq.pc .notifier = .idle
  got : held (s.qq.pc .notifier) ≠ [] → s.qq.removed ≠ []
  token : s.notifier = .finished → s.qq.removed ≠ []

omit [DecidableEq A] in
/-- An internal step of the worker on qq belongs to its push. -/
theorem worker_handshake (s : State A) (a : Zqueue.Act Party UInt64)
    (q : Zqueue.State Party UInt64) (hint : Internal a) (hq : Zqueue.step s.qq a = some q)
    (hact : actor a = .worker) (h : Handshake s) : Handshake { s with qq := q } := by
  have hmove := Zqueue.step_move s.qq a q hq
  have hactor := internal_not_idle s.qq a q hmove hint
  rw [hact] at hactor
  have hw : s.worker = .pushing := by
    by_contra hw
    exact hactor (h.notPushing hw)
  obtain ⟨hduring, hins⟩ := h.pushing hw
  have hne : Party.notifier ≠ actor a := by simp [hact]
  have hremoved : q.removed = s.qq.removed :=
    push_removed s.qq a q hmove 1 (by rw [hact]; exact hduring)
  have hheld := held_other s.qq a q hmove .notifier hne
  constructor
  · exact reachable_step h.qq hq
  · exact h.early
  · intro hquiet
    rw [hw] at hquiet
    rcases hquiet with hquiet | hquiet <;> cases hquiet
  · intro _
    refine ⟨?_, ?_⟩
    · have hself := during_self s.qq a q hmove hint (.push 1) (by rw [hact]; exact hduring)
      rwa [hact] at hself
    · rcases hins with hnil | hins
      · rcases move_pushed s.qq a q hmove with heq | ⟨t, v, rfl, _, _, hleaving⟩
        · exact Or.inl (heq.trans hnil)
        · right
          change t = Party.worker at hact
          subst hact
          change Inserted (q.pc Party.worker)
          rw [hleaving]
          trivial
      · right
        have hself := inserted_self s.qq a q hmove hint 1 (by rw [hact]; exact hduring)
          (by rw [hact]; exact hins)
        rwa [hact] at hself
  · intro hne
    exact absurd hw hne
  · exact fun hn => during_other s.qq a q hmove .notifier hne _ (h.popping hn)
  · exact fun hn => idle_other s.qq a q hmove .notifier hne (h.notPopping hn)
  · change held (q.pc .notifier) ≠ [] → q.removed ≠ []
    rw [hheld, hremoved]
    exact h.got
  · change _ → q.removed ≠ []
    rw [hremoved]
    exact h.token

omit [DecidableEq A] in
/-- An internal step of the notifier on qq belongs to its try_pop. -/
theorem notifier_handshake (s : State A) (a : Zqueue.Act Party UInt64)
    (q : Zqueue.State Party UInt64) (hint : Internal a) (hq : Zqueue.step s.qq a = some q)
    (hact : actor a = .notifier) (h : Handshake s) : Handshake { s with qq := q } := by
  have hmove := Zqueue.step_move s.qq a q hq
  have hactor := internal_not_idle s.qq a q hmove hint
  rw [hact] at hactor
  have hn : s.notifier = .popping := by
    by_contra hn
    exact hactor (h.notPopping hn)
  have hduring := h.popping hn
  have hne : Party.worker ≠ actor a := by simp [hact]
  have hpushed : q.pushed = s.qq.pushed :=
    tryPop_pushed s.qq a q hmove (by rw [hact]; exact hduring)
  obtain ⟨out, hremoved, hheld⟩ := tryPop_held s.qq a q hmove hint (by rw [hact]; exact hduring)
  rw [hact] at hheld
  constructor
  · exact reachable_step h.qq hq
  · exact h.early
  · change _ → q.pushed = []
    rw [hpushed]
    exact h.quiet
  · intro hw
    obtain ⟨hpush, hins⟩ := h.pushing hw
    refine ⟨during_other s.qq a q hmove .worker hne _ hpush, ?_⟩
    rcases hins with hnil | hins
    · exact Or.inl (hpushed.trans hnil)
    · exact Or.inr (inserted_other s.qq a q hmove .worker hne hins)
  · exact fun hw => idle_other s.qq a q hmove .worker hne (h.notPushing hw)
  · intro _
    have hself := during_self s.qq a q hmove hint .tryPop (by rw [hact]; exact hduring)
    rwa [hact] at hself
  · intro hne
    exact absurd hn hne
  · change held (q.pc .notifier) ≠ [] → q.removed ≠ []
    intro hgot
    rw [hremoved]
    rw [hheld] at hgot
    intro hnil
    obtain ⟨hremoved, hout⟩ := List.append_eq_nil_iff.mp hnil
    rw [hout, List.append_nil] at hgot
    exact h.got hgot hremoved
  · intro hfin
    rw [hn] at hfin
    cases hfin

omit [DecidableEq A] in
/-- The worker enters qq.push or comes back from it. -/
theorem worker_goto (s : State A) (pc : Zqueue.Pc UInt64) (w : WorkerPc) (h : Handshake s)
    (hreach : Reachable Zqueue.step Zqueue.init (s.qq.goto .worker pc)) (hearly : ¬ w.Early)
    (hquiet : w ≠ .tracing ∧ w ≠ .traced)
    (hpush : w = .pushing → During (.push 1) pc ∧ (s.qq.pushed = [] ∨ Inserted pc))
    (hidle : w ≠ .pushing → pc = .idle) :
    Handshake { s with qq := s.qq.goto .worker pc, worker := w } := by
  have hnot : (s.qq.goto .worker pc).pc .notifier = s.qq.pc .notifier :=
    goto_pc_of_ne _ _ _ pc (by simp)
  constructor
  · exact hreach
  · exact fun he => absurd he hearly
  · intro hq
    rcases hq with hq | hq
    · exact absurd hq hquiet.1
    · exact absurd hq hquiet.2
  · intro hw
    simp only [goto_pc_self]
    exact hpush hw
  · intro hw
    simpa only [goto_pc_self] using hidle hw
  · simpa only [hnot] using h.popping
  · simpa only [hnot] using h.notPopping
  · simp only [hnot]
    exact h.got
  · exact h.token

omit [DecidableEq A] in
/-- The notifier enters qq.try_pop or comes back from it. -/
theorem notifier_goto (s : State A) (pc : Zqueue.Pc UInt64) (n : NotifierPc) (h : Handshake s)
    (hreach : Reachable Zqueue.step Zqueue.init (s.qq.goto .notifier pc))
    (hstarted : s.notifier ≠ .notStarted) (hpop : n = .popping → During .tryPop pc)
    (hidle : n ≠ .popping → pc = .idle) (hheld : held pc = [])
    (htoken : n = .finished → s.qq.removed ≠ []) :
    Handshake { s with qq := s.qq.goto .notifier pc, notifier := n } := by
  have hwork : (s.qq.goto .notifier pc).pc .worker = s.qq.pc .worker :=
    goto_pc_of_ne _ _ _ pc (by simp)
  constructor
  · exact hreach
  · exact fun he => absurd (h.early he) hstarted
  · exact h.quiet
  · simp only [hwork]
    exact h.pushing
  · simpa only [hwork] using h.notPushing
  · intro hn
    simpa only [goto_pc_self] using hpop hn
  · intro hn
    simpa only [goto_pc_self] using hidle hn
  · intro hgot
    simp only [goto_pc_self] at hgot
    exact absurd hheld hgot
  · exact htoken

omit [DecidableEq A] in
/-- The worker goes on outside qq. -/
theorem worker_outside (s : State A) (f : MemFuller.State (Thread A)) (w : WorkerPc)
    (h : Handshake s) (hw : s.worker ≠ .pushing) (hw' : w ≠ .pushing)
    (hearly : w.Early → s.notifier = .notStarted)
    (hquiet : w = .tracing ∨ w = .traced → s.qq.pushed = []) :
    Handshake { s with fuller := f, worker := w } :=
  ⟨h.qq, hearly, hquiet, fun hp => absurd hp hw', fun _ => h.notPushing hw, h.popping,
    h.notPopping, h.got, h.token⟩

omit [DecidableEq A] in
/-- The notifier goes on outside qq. -/
theorem notifier_outside (s : State A) (f : MemFuller.State (Thread A)) (n : NotifierPc)
    (h : Handshake s) (hn : s.notifier ≠ .popping) (hstarted : s.notifier ≠ .notStarted)
    (hn' : n ≠ .popping ∧ n ≠ .finished) : Handshake { s with fuller := f, notifier := n } :=
  ⟨h.qq, fun he => absurd (h.early he) hstarted, h.quiet, h.pushing, h.notPushing,
    fun hp => absurd hp hn'.1, fun _ => h.notPopping hn, h.got, fun hf => absurd hf hn'.2⟩

omit [DecidableEq A] in
/-- The handshake does not look at mem_fuller or at stop_. -/
theorem handshake_of_eq (s s' : State A) (h : Handshake s) (hqq : s'.qq = s.qq)
    (hw : s'.worker = s.worker) (hn : s'.notifier = s.notifier) : Handshake s' := by
  obtain ⟨f', qq', stop', w', n'⟩ := s'
  simp only at hqq hw hn
  subst hqq hw hn
  exact ⟨h.qq, h.early, h.quiet, h.pushing, h.notPushing, h.popping, h.notPopping, h.got, h.token⟩

theorem step_handshake (s : State A) (a : Act A) (s' : State A) (hstep : step s a = some s')
    (h : Handshake s) : Handshake s' := by
  cases step_move s a s' hstep with
  | pending a tm f hf => exact handshake_of_eq s _ h rfl rfl rfl
  | fuller a f hcont hf => exact handshake_of_eq s _ h rfl rfl rfl
  | agentOnUnload => exact handshake_of_eq s _ h rfl rfl rfl
  | callTryPop f hw hf =>
    exact worker_outside s f _ h (by simp [hw]) (by simp) (fun _ => h.early (by rw [hw]; trivial))
      (by simp)
  | popped f hw hf =>
    exact worker_outside s f _ h (by simp [hw]) (by simp) (fun _ => h.early (by rw [hw]; trivial))
      (by simp)
  | gaveUp f hw hf =>
    exact worker_outside s f _ h (by simp [hw]) (by simp) (fun _ => h.early (by rw [hw]; trivial))
      (by simp)
  | checkStop hw =>
    apply worker_outside s s.fuller _ h (by simp [hw])
    · split <;> simp
    · exact fun _ => h.early (by rw [hw]; trivial)
    · split <;> simp
  | startNotifier hw =>
    exact ⟨⟨[], rfl⟩, False.elim, fun _ => rfl, by simp, fun _ => rfl, by simp, fun _ => rfl,
      fun hheld => absurd rfl hheld, by simp⟩
  | stackTrace hw =>
    exact worker_outside s s.fuller _ h (by simp [hw]) (by simp) False.elim
      fun _ => h.quiet (Or.inl hw)
  | callPush q hw hq =>
    have hreach := reachable_step h.qq hq
    have hquiet := h.quiet (Or.inr hw)
    obtain ⟨_, rfl⟩ := step_call_eq_some s.qq q _ _ hq
    exact worker_goto s _ _ h hreach id (by simp) (fun _ => ⟨rfl, Or.inl hquiet⟩) (by simp)
  | pushReturned q hw hq =>
    have hreach := reachable_step h.qq hq
    obtain ⟨_, rfl⟩ := step_finish_eq_some s.qq q _ hq
    exact worker_goto s _ _ h hreach id (by simp) (by simp) fun _ => rfl
  | join hw hn => exact worker_outside s s.fuller _ h (by simp [hw]) (by simp) False.elim (by simp)
  | qq a q hint hq =>
    cases hact : actor a with
    | worker => exact worker_handshake s a q hint hq hact h
    | notifier => exact notifier_handshake s a q hint hq hact h
  | callNotify f hn hf =>
    exact notifier_outside s f _ h (by simp [hn]) (by simp [hn]) (by simp)
  | notifyReturned hn =>
    exact notifier_outside s s.fuller _ h (by simp [hn]) (by simp [hn]) (by simp)
  | callTryPopToken q hn hq =>
    have hreach := reachable_step h.qq hq
    obtain ⟨_, rfl⟩ := step_call_eq_some s.qq q _ _ hq
    exact notifier_goto s _ _ h hreach (by simp [hn]) (fun _ => rfl) (by simp) rfl (by simp)
  | tokenPopped tm q hn hret hq =>
    have hreach := reachable_step h.qq hq
    have hgot := h.got (by rw [hret]; simp [held])
    obtain ⟨_, rfl⟩ := step_finish_eq_some s.qq q _ hq
    exact notifier_goto s _ _ h hreach (by simp [hn]) (by simp) (fun _ => rfl) rfl fun _ => hgot
  | tokenGaveUp q hn hret hq =>
    have hreach := reachable_step h.qq hq
    obtain ⟨_, rfl⟩ := step_finish_eq_some s.qq q _ hq
    exact notifier_goto s _ _ h hreach (by simp [hn]) (by simp) (fun _ => rfl) rfl (by simp)

omit [DecidableEq A] in
theorem init_handshake : Handshake (init : State A) where
  qq := ⟨[], rfl⟩
  early _ := rfl
  quiet _ := rfl
  pushing h := WorkerPc.noConfusion h
  notPushing _ := rfl
  popping h := NotifierPc.noConfusion h
  notPopping _ := rfl
  got h := absurd rfl h
  token h := NotifierPc.noConfusion h

/-- The two threads can run to their end without the application threads. -/
def CanFinish (s : State A) : Prop :=
  ∃ more u, run step s more = some u ∧ u.worker = .finished ∧ u.notifier = .finished ∧
    u.fuller = s.fuller

theorem canFinish_of_step (s t : State A) (a : Act A) (hstep : step s a = some t)
    (hfuller : t.fuller = s.fuller) (h : CanFinish t) : CanFinish s := by
  obtain ⟨more, u, hrun, hw, hn, hu⟩ := h
  exact ⟨a :: more, u, (run_cons_eq_some s u a more).mpr ⟨t, hstep, hrun⟩, hw, hn,
    hu.trans hfuller⟩

theorem canFinish_joining (s : State A) (hw : s.worker = .joining)
    (hn : s.notifier = .finished) : CanFinish s := by
  apply canFinish_of_step s { s with worker := .finished } .join
  · simp only [step, hw, hn]
  · rfl
  · exact ⟨[], _, rfl, rfl, hn, rfl⟩

theorem canFinish_returned (s : State A) (hw : s.worker = .pushing)
    (hn : s.notifier = .finished) (r : Zqueue.Result UInt64)
    (hpc : s.qq.pc .worker = .returned r) : CanFinish s := by
  apply canFinish_of_step s { s with qq := s.qq.goto .worker .idle, worker := .joining }
    .pushReturned
  · simp only [step, hw, onQq, Zqueue.step, hpc, Option.map_some]
  · rfl
  · exact canFinish_joining _ rfl hn

theorem canFinish_notifying (s : State A) (hw : s.worker = .pushing)
    (hn : s.notifier = .finished) (hpc : s.qq.pc .worker = .notifying) : CanFinish s := by
  obtain ⟨choice, m, hm⟩ := Monitor.notifyOne_enabled s.qq.monitor
  let q := (({ s.qq with monitor := m } : Zqueue.State Party UInt64).goto .worker
    (.returned .done)).wokenBy choice
  have hq : Zqueue.step s.qq (.notify .worker choice) = some q := by
    simp only [Zqueue.step, hpc, hm, Option.map_some]
    rfl
  have hret : q.pc .worker = .returned .done := by
    have hgoto := goto_pc_self { s.qq with monitor := m } Party.worker (.returned .done)
    rcases wokenBy_pc ({ s.qq with monitor := m }.goto Party.worker (.returned .done)) choice
      .worker with heq | ⟨op, hwait, _⟩
    · exact heq.trans hgoto
    · rw [hgoto] at hwait
      cases hwait
  apply canFinish_of_step s { s with qq := q } (.qq (.notify .worker choice))
  · simp only [step, Internal, if_true, onQq, hq, Option.map_some]
  · rfl
  · exact canFinish_returned _ hw hn _ hret

theorem canFinish_leaving (s : State A) (hw : s.worker = .pushing) (hn : s.notifier = .finished)
    (hown : s.qq.monitor.owner = some .worker)
    (hpc : s.qq.pc .worker = .leaving (.push 1) .done) : CanFinish s := by
  let q := ({ s.qq with monitor := { s.qq.monitor with owner := none } } :
    Zqueue.State Party UInt64).goto .worker .notifying
  have hq : Zqueue.step s.qq (.leave .worker) = some q := by
    simp only [Zqueue.step, hpc, Monitor.release, hown, if_true, Option.map_some]
    rfl
  apply canFinish_of_step s { s with qq := q } (.qq (.leave .worker))
  · simp only [step, Internal, if_true, onQq, hq, Option.map_some]
  · rfl
  · exact canFinish_notifying _ hw hn (goto_pc_self _ _ _)

/-- The token was taken, so the worker is past its insertion: nothing keeps it
from its join any more. -/
theorem canFinish_of_finished (s : State A) (h : Handshake s) (hn : s.notifier = .finished) :
    CanFinish s := by
  have hfifo := ZqueueFifo.reachable_inv s.qq h.qq
  have hpushed : s.qq.pushed ≠ [] := by
    rw [← hfifo.fifo]
    intro hnil
    exact h.token hn (List.append_eq_nil_iff.mp hnil).1
  have hlate : ¬ s.worker.Early := by
    intro hearly
    have hnone := h.early hearly
    rw [hn] at hnone
    cases hnone
  cases hw : s.worker with
  | tracing => exact absurd (h.quiet (Or.inl hw)) hpushed
  | traced => exact absurd (h.quiet (Or.inr hw)) hpushed
  | pushing =>
    obtain ⟨hduring, hins⟩ := h.pushing hw
    have hins : Inserted (s.qq.pc .worker) := hins.resolve_left hpushed
    cases hpc : s.qq.pc .worker with
    | leaving op r =>
      rw [hpc] at hduring
      obtain ⟨hop, hret⟩ := hduring
      subst hop
      have hown := hfifo.guarded .worker (by rw [hpc]; trivial)
      cases r with
      | done => exact canFinish_leaving s hw hn hown hpc
      | _ => exact False.elim hret
    | notifying => exact canFinish_notifying s hw hn hpc
    | returned r => exact canFinish_returned s hw hn r hpc
    | _ => simp [hpc, Inserted] at hins
  | joining => exact canFinish_joining s hw hn
  | finished => exact ⟨[], s, rfl, hw, hn, rfl⟩
  | _ => simp [hw, WorkerPc.Early] at hlate

/-- A stuck application thread stays behind when the two threads run to their end. -/
theorem strands_of_stuck (s : State A) (h : Handshake s) (hn : s.notifier = .finished) (a : A)
    (ha : (s.fuller.pc (.app a)).Stuck) : ∃ more u, run step s more = some u ∧ Stranded u := by
  obtain ⟨more, u, hrun, hw, hn, hfuller⟩ := canFinish_of_finished s h hn
  exact ⟨more, u, hrun, hw, hn, a, by rw [hfuller]; exact ha⟩

/-- Application threads never call set_stack_trace. -/
def Untraced (s : State A) : Prop := ∀ a, s.fuller.stack_trace_ (.app a) = false

theorem step_untraced (s : State A) (a : Act A) (s' : State A) (hstep : step s a = some s')
    (h : Untraced s) : Untraced s' := by
  have hfuller : ∀ b f, MemFuller.step s.fuller b = some f →
      ∀ a, f.stack_trace_ (.app a) = false := by
    intro b f hf a
    rw [MemFuller.step_stack_trace s.fuller b f hf]
    exact h a
  cases step_move s a s' hstep with
  | pending a tm f hf => exact hfuller _ f hf
  | fuller a f hcont hf => exact hfuller _ f hf
  | callTryPop f hw hf => exact hfuller _ f hf
  | popped f hw hf => exact hfuller _ f hf
  | gaveUp f hw hf => exact hfuller _ f hf
  | callNotify f hn hf => exact hfuller _ f hf
  | _ => exact h

/-- A step that comes too late leaves a stuck thread behind the notifier. -/
theorem step_late (s : State A) (a : Act A) (t : State A) (hstep : step s a = some t)
    (hs : Untraced s) (hlate : ¬ InTime s a) :
    t.notifier = .finished ∧ ∃ b, (t.fuller.pc (.app b)).Stuck := by
  cases step_move s a t hstep with
  | tokenPopped tm q hn hret hq =>
    refine ⟨rfl, ?_⟩
    by_contra hnone
    exact hlate fun _ _ b hb => hnone ⟨b, hb⟩
  | tokenGaveUp q hn hret hq =>
    refine absurd ?_ hlate
    intro tm hpop
    rw [hret] at hpop
    cases hpop
  | fuller a f hcont hf =>
    cases MemFuller.step_move s.fuller a f hf with
    | pushReturned u q hpc hq =>
      cases u with
      | party p => exact absurd trivial hlate
      | app b =>
        refine ⟨not_not.mp hlate, b, ?_⟩
        simp [MemFuller.State.goto, hs b, MemFuller.Pc.Stuck]
    | _ => exact absurd trivial hlate
  | _ => exact absurd trivial hlate

/-- In every run whose steps are in time nobody is ever stranded; and after any
reachable step that is not, the two threads can finish with somebody stranded. -/
theorem not_stranded_in_time :
    (∀ actions : List (Act A), Meets step InTime init actions →
      Along step (fun s => ¬ Stranded s) init actions) ∧
    ∀ (s : State A) (a : Act A) (t : State A), Reachable step init s → step s a = some t →
      ¬ InTime s a → ∃ more u, run step t more = some u ∧ Stranded u := by
  constructor
  · intro actions hmeets
    have hreleased := along_of_meets step_released init actions init_released hmeets
    exact hreleased.mono released_not_stranded
  · intro s a t hreach hstep hlate
    have hshake : Handshake t :=
      reachable_invariant step_handshake (reachable_step hreach hstep) init_handshake
    have huntraced : Untraced s := reachable_invariant step_untraced hreach fun _ => rfl
    obtain ⟨hn, b, hb⟩ := step_late s a t hstep huntraced hlate
    exact strands_of_stuck t hshake hn b hb

/-- One application thread waits before the notifier signals: it is released, and both
threads finish. -/
theorem not_stranded_in_time_released :
    let begun : List (Act Unit) :=
      [.pending () 7, .fuller (.queue (.acquire (.app ()))), .fuller (.queue (.exec (.app ()))),
        .fuller (.queue (.leave (.app ()))), .fuller (.queue (.notify (.app ()) none))]
    let served : List (Act Unit) :=
      [.fuller (.lock (.app ())), .fuller (.condWait (.app ())),
        .callTryPop, .fuller (.queue (.acquire (.party .worker))),
        .fuller (.queue (.exec (.party .worker))), .fuller (.queue (.remove (.party .worker))),
        .fuller (.queue (.leave (.party .worker))), .tryPopReturned, .startNotifier,
        .stackTrace, .callPush, .qq (.acquire .worker), .qq (.exec .worker), .qq (.leave .worker),
        .qq (.notify .worker none), .pushReturned,
        .callNotify, .fuller (.lock (.party .notifier)),
        .fuller (.signal (.party .notifier) (some (.app ()))),
        .fuller (.unlock (.party .notifier)), .notifyReturned,
        .fuller (.lock (.app ())), .fuller (.unlock (.app ())), .callTryPopToken,
        .qq (.acquire .notifier), .qq (.exec .notifier), .qq (.remove .notifier),
        .qq (.leave .notifier)]
    let actions := (begun ++ .fuller (.pushReturned (.app ())) :: served) ++
      [.tryPopTokenReturned, .join]
    (∃ s, run step init actions = some s ∧ s.worker = .finished ∧ s.notifier = .finished ∧
      s.fuller.pc (.app ()) = .outside) ∧
    Along step (fun s => ¬ Stranded s) init actions := by
  intro begun served actions
  refine ⟨⟨_, rfl, rfl, rfl, rfl⟩, not_stranded_in_time.1 actions ?_⟩
  have hbegun : ∃ s, run step init begun = some s ∧ s.notifier = .notStarted := ⟨_, rfl, rfl⟩
  have hserved : ∃ s, run step init (begun ++ .fuller (.pushReturned (.app ())) :: served) =
      some s ∧ s.fuller.pc (.app ()) = .outside := ⟨_, rfl, rfl⟩
  obtain ⟨s, hs, hnotifier⟩ := hbegun
  obtain ⟨t, ht, houtside⟩ := hserved
  rw [meets_append, meets_append]
  refine ⟨⟨?_, ?_⟩, ?_⟩
  · apply meets_of_forall
    simp [begun, InTime]
  · intro s' hs'
    obtain rfl := Option.some.inj (hs.symm.trans hs')
    intro u _
    refine ⟨by simp [InTime, hnotifier], meets_of_forall u served ?_⟩
    simp [served, InTime]
  · intro t' ht'
    obtain rfl := Option.some.inj (ht.symm.trans ht')
    intro u _
    refine ⟨?_, meets_of_forall u [Act.join] (by simp [InTime])⟩
    intro _ _ a hstuck
    rw [houtside] at hstuck
    exact hstuck

/-- One application thread: its request is served and its only signal lost before
it waits. -/
theorem app_stranded :
    ∃ s : State Unit, Reachable step init s ∧ s.fuller.pc (.app ()) = .waiting ∧ Stranded s := by
  have hrun : ∃ s : State Unit, run step init
      [.pending () 7, .fuller (.queue (.acquire (.app ()))), .fuller (.queue (.exec (.app ()))),
        .fuller (.queue (.leave (.app ()))), .fuller (.queue (.notify (.app ()) none)),
        .fuller (.pushReturned (.app ())),
        .callTryPop, .fuller (.queue (.acquire (.party .worker))),
        .fuller (.queue (.exec (.party .worker))), .fuller (.queue (.remove (.party .worker))),
        .fuller (.queue (.leave (.party .worker))), .tryPopReturned, .startNotifier,
        .stackTrace, .callPush, .qq (.acquire .worker), .qq (.exec .worker), .qq (.leave .worker),
        .qq (.notify .worker none), .pushReturned,
        .callNotify, .fuller (.lock (.party .notifier)), .fuller (.signal (.party .notifier) none),
        .fuller (.unlock (.party .notifier)), .notifyReturned, .callTryPopToken,
        .qq (.acquire .notifier), .qq (.exec .notifier), .qq (.remove .notifier),
        .qq (.leave .notifier), .tryPopTokenReturned, .join,
        .fuller (.lock (.app ())), .fuller (.condWait (.app ()))] = some s ∧
      s.worker = .finished ∧ s.notifier = .finished ∧ s.fuller.pc (.app ()) = .waiting :=
    ⟨_, rfl, rfl, rfl, rfl⟩
  obtain ⟨s, hs, hw, hn, hpc⟩ := hrun
  refine ⟨s, ⟨_, hs⟩, hpc, hw, hn, (), ?_⟩
  rw [hpc]
  trivial

end JvmTrace.Safepoint
