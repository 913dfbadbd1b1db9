import JvmTrace.SafepointProgress

/-!
stack_trace of src/trace_agent.h with the answers of the JVMTI calls it makes,
and what an error does to safepoint_worker. Five calls for each frame are checked
by CHECK_ERR, which throws; nobody catches, and the unwinding meets the std::thread
th, which is still joinable, so the process is terminated. The answers of
GetAllStackTraces and GetThreadInfo are not checked; without stacks there is
nothing to do.
-/
namespace JvmTrace.SafepointErrors

open Runs Safepoint SafepointProgress

abbrev JvmtiError := ℕ

def JVMTI_ERROR_NONE : JvmtiError := 0

structure AgentException where
  err_ : JvmtiError
  deriving DecidableEq

/-- The answers to the calls made for one frame. -/
structure FrameInfo where
  getMethodDeclaringClass : JvmtiError
  getClassSignature : JvmtiError
  getMethodName : JvmtiError
  deallocateName : JvmtiError
  deallocateSignature : JvmtiError

/-- One of the stacks handed out by GetAllStackTraces; the buffer may be NULL and
otherwise holds frame_count frames. -/
structure StackInfo where
  frame_buffer : Option (List FrameInfo)

def checkErr (error : JvmtiError) : Except AgentException Unit :=
  if error ≠ JVMTI_ERROR_NONE then .error ⟨error⟩ else .ok ()

def printFrame (ii : FrameInfo) : Except AgentException Unit := do
  checkErr ii.getMethodDeclaringClass
  checkErr ii.getClassSignature
  checkErr ii.getMethodName
  checkErr ii.deallocateName
  checkErr ii.deallocateSignature

def printStack (stack : StackInfo) : Except AgentException Unit :=
  match stack.frame_buffer with
  | none => .ok ()
  | some info => forM info printFrame

def stackTrace (print : Bool) (stackInfos : List StackInfo) : Except AgentException Unit :=
  if print then forM stackInfos printStack else .ok ()

/-- Every one of the five calls succeeds. -/
def FrameInfo.Succeeds (ii : FrameInfo) : Prop :=
  ii.getMethodDeclaringClass = JVMTI_ERROR_NONE ∧ ii.getClassSignature = JVMTI_ERROR_NONE ∧
    ii.getMethodName = JVMTI_ERROR_NONE ∧ ii.deallocateName = JVMTI_ERROR_NONE ∧
    ii.deallocateSignature = JVMTI_ERROR_NONE

/-- No call made for any frame of any stack fails. -/
def Clean (stackInfos : List StackInfo) : Prop :=
  ∀ stack ∈ stackInfos, ∀ info, stack.frame_buffer = some info → ∀ ii ∈ info, ii.Succeeds

/-- The agent's process: the machine of the two threads, and the exception that
ended the process. -/
structure Agent (A : Type*) where
  safepoint : Safepoint.State A
  terminated : Option AgentException

inductive AgentAct (A : Type*)
  | safepoint (a : Safepoint.Act A)
  | stackTrace (stackInfos : List StackInfo)

variable {A : Type*} [DecidableEq A]

/-- The steps of the two threads, with the stack trace taken apart. An exception
leaves the block of qq and th, and the destructor of the joinable th terminates. -/
def agentStep (s : Agent A) : AgentAct A → Option (Agent A)
  | .safepoint a =>
      match s.terminated, a with
      | some _, _ => none
      | none, .stackTrace => none
      | none, a => (Safepoint.step s.safepoint a).map fun t => ⟨t, none⟩
  | .stackTrace stackInfos =>
      match s.terminated, s.safepoint.worker with
      | none, .tracing =>
          match stackTrace true stackInfos with
          | .ok _ => (Safepoint.step s.safepoint .stackTrace).map fun t => ⟨t, none⟩
          | .error e => some ⟨s.safepoint, some e⟩
      | _, _ => none

omit [DecidableEq A] in
def agentInit : Agent A where
  safepoint := Safepoint.init
  terminated := none

/-- stack_trace is over, by its return or by an exception, and the join is still
to come. -/
def Traced (s : Agent A) : Prop :=
  s.terminated.isSome ∨ s.safepoint.worker = .traced ∨ s.safepoint.worker = .pushing ∨
    s.safepoint.worker = .joining

/-- qq and th are gone. -/
def OutOfScope (s : Agent A) : Prop :=
  s.terminated.isSome ∨ s.safepoint.worker = .finished ∧ s.safepoint.notifier ≠ .notStarted

/-- The worker goes on to its push and its join and the notifier to its end, and qq
and th are given up only after that. -/
structure Kept (s : Agent A) : Prop where
  goesOn : Traced s → ∃ more t, run agentStep s more = some t ∧ t.terminated = none ∧
    t.safepoint.worker = .finished ∧ t.safepoint.notifier = .finished
  joined : OutOfScope s → s.safepoint.notifier = .finished

/-- The JVMTI calls of the stack trace succeed. -/
def Succeeds (_ : Agent A) (a : AgentAct A) : Prop :=
  ∀ stackInfos, a = .stackTrace stackInfos → Clean stackInfos

theorem seq_eq_ok {ε : Type*} (x : Except ε Unit) (y : Except ε Unit) :
    (do x; y) = .ok () ↔ x = .ok () ∧ y = .ok () := by
  cases x with
  | error e => simp [bind, Except.bind]
  | ok u => simp [bind, Except.bind]

/-- A loop over a list ends normally exactly when every round does. -/
theorem forM_eq_ok {ε α : Type*} (f : α → Except ε Unit) (l : List α) :
    forM l f = .ok () ↔ ∀ a ∈ l, f a = .ok () := by
  induction l with
  | nil => simp [pure, Except.pure]
  | cons a rest ih => rw [List.forM_cons, seq_eq_ok, ih, List.forall_mem_cons]

theorem checkErr_eq_ok (error : JvmtiError) : checkErr error = .ok () ↔ error = JVMTI_ERROR_NONE := by
  unfold checkErr
  split
  · simp_all
  · simp_all

theorem printFrame_eq_ok (ii : FrameInfo) : printFrame ii = .ok () ↔ ii.Succeeds := by
  simp only [printFrame, seq_eq_ok, checkErr_eq_ok, FrameInfo.Succeeds]

/-- stack_trace(true) returns exactly when no checked call fails, at any frame of
any stack. -/
theorem stackTrace_eq_ok (stackInfos : List StackInfo) :
    stackTrace true stackInfos = .ok () ↔ Clean stackInfos := by
  simp only [stackTrace, if_true, forM_eq_ok, Clean]
  apply forall_congr'
  intro stack
  apply imp_congr_right
  intro _
  unfold printStack
  cases stack.frame_buffer with
  | none => simp
  | some info => simp [forM_eq_ok, printFrame_eq_ok]

/-- What each step can do: a step of the two threads, a stack trace that returns,
or one that throws. -/
inductive AgentMove (s : Agent A) : AgentAct A → Agent A → Prop
  | safepoint (a : Safepoint.Act A) (t : Safepoint.State A) (halive : s.terminated = none)
      (ha : a ≠ .stackTrace) (ht : Safepoint.step s.safepoint a = some t) :
      AgentMove s (.safepoint a) ⟨t, none⟩
  | returned (stackInfos : List StackInfo) (t : Safepoint.State A) (halive : s.terminated = none)
      (hclean : Clean stackInfos) (ht : Safepoint.step s.safepoint .stackTrace = some t) :
      AgentMove s (.stackTrace stackInfos) ⟨t, none⟩
  | threw (stackInfos : List StackInfo) (e : AgentException) (hw : s.safepoint.worker = .tracing)
      (hfail : ¬ Clean stackInfos) : AgentMove s (.stackTrace stackInfos) ⟨s.safepoint, some e⟩

theorem agentStep_move (s : Agent A) (a : AgentAct A) (s' : Agent A)
    (h : agentStep s a = some s') : AgentMove s a s' := by
  cases a with
  | safepoint a =>
    simp only [agentStep] at h
    split at h
    · cases h
    · cases h
    · rename_i halive ha
      obtain ⟨t, ht, rfl⟩ := Option.map_eq_some_iff.mp h
      exact .safepoint _ t halive ha ht
  | stackTrace stackInfos =>
    simp only [agentStep] at h
    split at h
    · rename_i halive hw
      split at h
      · rename_i u htrace
        obtain ⟨t, ht, rfl⟩ := Option.map_eq_some_iff.mp h
        exact .returned stackInfos t halive ((stackTrace_eq_ok stackInfos).mp htrace) ht
      · rename_i e htrace
        cases h
        apply AgentMove.threw stackInfos e hw
        rw [← stackTrace_eq_ok, htrace]
        simp
    · cases h

theorem agentStep_inv (s : Agent A) (a : AgentAct A) (s' : Agent A)
    (hstep : agentStep s a = some s') (h : Inv s.safepoint) : Inv s'.safepoint := by
  cases agentStep_move s a s' hstep with
  | safepoint a t halive ha ht => exact step_inv _ _ _ ht h
  | returned stackInfos t halive hclean ht => exact step_inv _ _ _ ht h
  | threw stackInfos e hw hfail => exact h

/-- Past the stack trace. -/
def Late : WorkerPc → Prop
  | .traced => True
  | .pushing => True
  | .joining => True
  | .finished => True
  | _ => False

theorem step_late (s : Safepoint.State A) (a : Safepoint.Act A) (t : Safepoint.State A)
    (hstep : Safepoint.step s a = some t) (h : Late s.worker) : a ≠ .stackTrace ∧ Late t.worker := by
  cases Safepoint.step_move s a t hstep with
  | callTryPop f hw hf => simp [hw, Late] at h
  | popped f hw hf => simp [hw, Late] at h
  | gaveUp f hw hf => simp [hw, Late] at h
  | checkStop hw => simp [hw, Late] at h
  | startNotifier hw => simp [hw, Late] at h
  | stackTrace hw => simp [hw, Late] at h
  | callPush q hw hq => simp [Late]
  | pushReturned q hw hq => simp [Late]
  | join hw hn => simp [Late]
  | _ => exact ⟨by simp, h⟩

/-- Past the stack trace a run of the two threads is a run of the process. -/
theorem run_late (s t : Safepoint.State A) (actions : List (Safepoint.Act A))
    (hrun : run Safepoint.step s actions = some t) (h : Late s.worker) :
    run agentStep ⟨s, none⟩ (actions.map .safepoint) = some ⟨t, none⟩ := by
  induction actions generalizing s with
  | nil =>
    cases hrun
    rfl
  | cons a rest ih =>
    obtain ⟨u, hu, hrest⟩ := (run_cons_eq_some s t a rest).mp hrun
    obtain ⟨ha, hlate⟩ := step_late s a u hu h
    apply (run_cons_eq_some _ _ _ _).mpr
    refine ⟨⟨u, none⟩, ?_, ih u hrest hlate⟩
    cases a with
    | stackTrace => exact absurd rfl ha
    | _ => simp only [agentStep, hu, Option.map_some]

theorem kept_of_alive (s : Agent A) (h : Inv s.safepoint) (halive : s.terminated = none) :
    Kept s := by
  obtain ⟨s, terminated⟩ := s
  simp only at halive
  subst halive
  have hends : Late s.worker → Ends s → ∃ more t, run agentStep ⟨s, none⟩ more = some t ∧
      t.terminated = none ∧ t.safepoint.worker = .finished ∧ t.safepoint.notifier = .finished := by
    intro hlate h
    obtain ⟨more, t, hrun, hw, hn⟩ := h
    exact ⟨_, _, run_late s t more hrun hlate, rfl, hw, hn⟩
  constructor
  · intro h
    rcases h with hterminated | hw | hw | hw
    · cases hterminated
    · exact hends (by rw [show s.worker = _ from hw]; trivial) (ends_traced s h hw)
    · exact hends (by rw [show s.worker = _ from hw]; trivial) (ends_pushing s h hw)
    · exact hends (by rw [show s.worker = _ from hw]; trivial) (ends_joining s h hw)
  · intro h
    rcases h with hterminated | ⟨hw, hstarted⟩
    · cases hterminated
    · exact (h.token.joined hw).resolve_left hstarted

theorem step_kept (s : Agent A) (a : AgentAct A) (s' : Agent A) (hstep : agentStep s a = some s')
    (h : Inv s.safepoint) (hok : Succeeds s a) : Kept s' := by
  apply kept_of_alive s' (agentStep_inv s a s' hstep h)
  cases agentStep_move s a s' hstep with
  | safepoint a t halive ha ht => rfl
  | returned stackInfos t halive hclean ht => rfl
  | threw stackInfos e hw hfail => exact absurd (hok stackInfos rfl) hfail

/-- While the worker traces nothing has been pushed, so the notifier cannot be gone. -/
theorem notifier_running (s : Safepoint.State A) (h : Inv s) (hw : s.worker = .tracing) :
    s.notifier ≠ .finished := by
  intro hn
  have hremoved := h.handshake.token hn
  have hfifo := (qq_fifo s h).fifo
  rw [h.handshake.quiet (Or.inl hw)] at hfifo
  exact hremoved (List.append_eq_nil_iff.mp hfifo).1

theorem succeeds_of_kept (s : Agent A) (a : AgentAct A) (s' : Agent A)
    (hstep : agentStep s a = some s') (h : Inv s.safepoint) (hkept : Kept s') : Succeeds s a := by
  rintro stackInfos rfl
  cases agentStep_move s _ s' hstep with
  | returned _ t halive hclean ht => exact hclean
  | threw _ e hw hfail =>
    exact absurd (hkept.joined (Or.inl rfl)) (notifier_running s.safepoint h hw)

/-- The handshake is kept all along a run exactly when no checked JVMTI call of the
run's stack trace fails. -/
theorem along_kept_iff (actions : List (AgentAct A)) :
    Along agentStep Kept (agentInit : Agent A) actions ↔
      Meets agentStep Succeeds (agentInit : Agent A) actions :=
  along_iff_meets agentStep_inv (fun s a s' hstep h hok _ => step_kept s a s' hstep h hok)
    (fun s a s' hstep h _ hkept => succeeds_of_kept s a s' hstep h hkept) agentInit actions
    init_inv (kept_of_alive _ init_inv rfl)

/-- One stack of one frame whose method name cannot be had: the token is never
pushed, and the process ends under the running notifier. -/
theorem handshake_broken :
    ∃ s : Agent Unit, Reachable agentStep agentInit s ∧ s.terminated = some ⟨23⟩ ∧
      s.safepoint.qq.pushed = [] ∧ s.safepoint.notifier = .loopHead ∧ ¬ Kept s := by
  have hrun : ∃ s : Agent Unit, run agentStep agentInit
      [.safepoint (.pending () 7), .safepoint (.fuller (.queue (.acquire (.app ())))),
        .safepoint (.fuller (.queue (.exec (.app ())))),
        .safepoint (.fuller (.queue (.leave (.app ())))), .safepoint .callTryPop,
        .safepoint (.fuller (.queue (.acquire (.party .worker)))),
        .safepoint (.fuller (.queue (.exec (.party .worker)))),
        .safepoint (.fuller (.queue (.remove (.party .worker)))),
        .safepoint (.fuller (.queue (.leave (.party .worker)))), .safepoint .tryPopReturned,
        .safepoint .startNotifier, .stackTrace [⟨some [⟨0, 0, 23, 0, 0⟩]⟩]] = some s ∧
      s.terminated = some ⟨23⟩ ∧ s.safepoint.qq.pushed = [] ∧
      s.safepoint.notifier = .loopHead := ⟨_, rfl, rfl, rfl, rfl⟩
  obtain ⟨s, hs, hterminated, hpushed, hn⟩ := hrun
  refine ⟨s, ⟨_, hs⟩, hterminated, hpushed, hn, ?_⟩
  intro h
  have hfinished := h.joined (Or.inl (by simp [hterminated]))
  rw [hn] at hfinished
  cases hfinished

end JvmTrace.SafepointErrors
