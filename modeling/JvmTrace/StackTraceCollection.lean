import JvmTrace.Runs
import JvmTrace.StackTraceCollector

/-!
Steps 1 to 5 of StackTraceCollector::Collect in src/ts/signal_handler.cc, called again and
again by one thread, beside the signal handlers of all threads. A form is known by the
number of its allocation and is freed when Collect returns; a handler that then touches it
is a fault, after which nothing is said. The bytes in the pipe are counted. Kept beside
the program's state: what each handler unwound, which forms it submitted, and what the
calls returned.
-/
namespace JvmTrace.StackTraceCollection

open Runs OrderedMaps StackTraceCollector

/-- What a handler gets: siginfo's si_pid, and the form behind sival_ptr or a null. -/
structure Signal where
  si_pid : Int32
  sival_ptr : Option ℕ

/-- A running InternalHandler: its form, and the frames it has not walked yet, each with
the instruction pointer or none when it cannot be read. -/
structure Handler where
  form : ℕ
  frames : List (Option Int64)

inductive Descriptor
  | pipeRead
  | pipeWrite
  | timer
  deriving DecidableEq

/-- Where Collect is: not called, in the loop of step 2, or in that of step 4. -/
inductive Phase
  | idle
  | signalling (rest : List Int32)
  | waiting

/-- One return of Collect, with the thread ids of step 4 and what each of these threads
unwound for its form. -/
structure Outcome where
  error : Option String
  results : List Result
  tids : List Int32
  observed : List (Int32 × List (Option Int64))

structure State where
  alive : Int32 → Bool
  pending : Int32 → List Signal
  running : Int32 → Option Handler
  forms : ℕ → Option StackTraceForm
  next : ℕ
  phase : Phase
  pipe_fd : Int32
  init_tids : List Int32
  failed_tids : List Int32
  slot : List ℕ
  pipe : ℕ
  acks : ℕ
  descriptors : List Descriptor
  settimeFailures : ℕ
  fault : Bool
  unwound : ℕ → List (Option Int64)
  submitted : List ℕ
  returned : List Outcome

/-- The process, the thread that calls Collect, and Symbolize. -/
structure Process where
  pid : Int32
  self : Int32
  Symbolize : Int64 → Option String

/-- Of the collector: the call with what ListThreads and pipe gave, one round of step 2
with its allocation, step 3, and the rounds of step 4. Of the handlers: a signal begins to
be handled, with what libunwind will give; one frame; the ack. Of the rest of the system:
signals from elsewhere, and threads that begin and end. -/
inductive Act
  | collect (tids_v : List Int32) (pipe : Option Int32)
  | signal (delivered : Bool) (memory : ℕ → Int64)
  | arm (created armed : Bool)
  | retry
  | readAck
  | expire
  | post
  | deliver (t : Int32) (unwound : Option (List (Option Int64)))
  | frame (t : Int32)
  | submit (t : Int32) (written : Bool)
  | send (t : Int32) (signal : Signal)
  | spawn (t : Int32)
  | exit (t : Int32)

def tidLt (a b : Int32) : Bool := decide (a < b)

theorem compares_tid : Compares tidLt Int32.toInt := by
  intro a b
  rw [tidLt, decide_eq_true_eq, Int32.lt_iff_toInt_lt]

/-- A std::set<pid_t> filled from a vector. -/
def setOf (tids_v : List Int32) : List Int32 := keysOf tidLt tids_v

namespace State

def tids (s : State) : List Int32 := s.init_tids.filter fun tid => decide (tid ∉ s.failed_tids)

/-- The forms in the slots. -/
def slotForms (s : State) : List StackTraceForm := s.slot.filterMap s.forms

def observed (s : State) : List (Int32 × List (Option Int64)) :=
  s.slot.filterMap fun f => (s.forms f).map fun form => (form.stack.tid, s.unwound f)

/-- Collect returns: the deferred closes run and the forms in the slots are deleted. -/
def leave (s : State) (error : Option String) (results : List Result)
    (closes : List Descriptor) : State :=
  { s with
    phase := .idle
    forms := fun f => if f ∈ s.slot then none else s.forms f
    slot := []
    submitted := []
    descriptors := s.descriptors.diff closes
    returned := s.returned ++ [⟨error, results, s.tids, s.observed⟩] }

/-- Steps 1 and 2 up to the loop. -/
def begin (s : State) (tids_v : List Int32) (pipe : Option Int32) : State :=
  let call : State := { s with init_tids := setOf tids_v, failed_tids := [] }
  match pipe with
  | none => call.leave (some "Internal server error") [] []
  | some fd =>
    { call with
      phase := .signalling (setOf tids_v)
      pipe_fd := fd
      pipe := 0
      acks := 0
      descriptors := .pipeWrite :: .pipeRead :: s.descriptors }

/-- One round of the loop of step 2. -/
def signal (p : Process) (s : State) (tid : Int32) (rest : List Int32) (delivered : Bool)
    (memory : ℕ → Int64) : Option State :=
  if delivered then
    if s.alive tid then
      some { s with
        forms := Function.update s.forms s.next (some (newForm tid s.pipe_fd memory))
        next := s.next + 1
        pending := Function.update s.pending tid (s.pending tid ++ [⟨p.pid, some s.next⟩])
        slot := s.slot ++ [s.next]
        phase := .signalling rest }
    else none
  else
    some { s with
      next := s.next + 1
      failed_tids := s.failed_tids ++ [tid]
      phase := .signalling rest }

/-- Step 3. When the timer cannot be set its DEFER has not been reached. -/
def arm (s : State) (created armed : Bool) : State :=
  if created then
    if armed then { s with phase := .waiting, descriptors := .timer :: s.descriptors }
    else
      { s with
        descriptors := .timer :: s.descriptors
        settimeFailures := s.settimeFailures + 1 }.leave
          (some "Failed to set an internal timer") [] [.pipeWrite, .pipeRead]
  else s.leave (some "Failed to create an internal timer") [] [.pipeWrite, .pipeRead]

/-- The timer is readable. -/
def expire (s : State) : State :=
  s.leave (some ("Failed to get all (" ++ toString s.tids.length ++
    ") stacktraces within timeout. Got only " ++ toString s.acks)) []
    [.timer, .pipeWrite, .pipeRead]

/-- Behind the loop of step 4. -/
def post (p : Process) (s : State) : State :=
  s.leave none (collectResults p.Symbolize s.slotForms) [.timer, .pipeWrite, .pipeRead]

/-- InternalHandler up to its loop. -/
def deliver (p : Process) (s : State) (t : Int32) (signal : Signal) (rest : List Signal)
    (unwound : Option (List (Option Int64))) : State :=
  let s' : State := { s with pending := Function.update s.pending t rest }
  if signal.si_pid ≠ p.pid then s'
  else
    match signal.sival_ptr, unwound with
    | some f, some frames =>
      { s' with
        running := Function.update s.running t (some ⟨f, frames⟩)
        unwound := Function.update s.unwound f frames }
    | _, _ => s'

/-- One round of the loop of InternalHandler. -/
def frame (s : State) (t : Int32) (f : ℕ) (ip : Option Int64) (rest : List (Option Int64)) :
    State :=
  match ip with
  | none => { s with running := Function.update s.running t (some ⟨f, rest⟩) }
  | some ip =>
    match s.forms f with
    | none => { s with fault := true }
    | some form =>
      { s with
        forms := Function.update s.forms f (some (AddAddress form ip).1)
        running := Function.update s.running t
          (some ⟨f, if (AddAddress form ip).2 then rest else []⟩) }

/-- Submit, with the result of its write. -/
def submit (s : State) (t : Int32) (f : ℕ) (written : Bool) : State :=
  match s.forms f with
  | none => { s with fault := true }
  | some _ =>
    if written then
      { s with
        running := Function.update s.running t none
        pipe := s.pipe + 1
        submitted := s.submitted ++ [f] }
    else { s with running := Function.update s.running t none }

end State

/-- The collector is held up while its own thread runs the handler. -/
def step (p : Process) (s : State) (a : Act) : Option State :=
  if s.fault then none
  else
    match a with
    | .collect tids_v pipe =>
      match s.phase, s.running p.self with
      | .idle, none => some (s.begin tids_v pipe)
      | _, _ => none
    | .signal delivered memory =>
      match s.phase, s.running p.self with
      | .signalling (tid :: rest), none => s.signal p tid rest delivered memory
      | _, _ => none
    | .arm created armed =>
      match s.phase, s.running p.self with
      | .signalling [], none => some (s.arm created armed)
      | _, _ => none
    | .retry =>
      match s.phase, s.running p.self with
      | .waiting, none => if s.acks < s.tids.length then some s else none
      | _, _ => none
    | .readAck =>
      match s.phase, s.running p.self with
      | .waiting, none =>
        if s.acks < s.tids.length ∧ 0 < s.pipe then
          some { s with acks := s.acks + 1, pipe := s.pipe - 1 }
        else none
      | _, _ => none
    | .expire =>
      match s.phase, s.running p.self with
      | .waiting, none => if s.acks < s.tids.length then some s.expire else none
      | _, _ => none
    | .post =>
      match s.phase, s.running p.self with
      | .waiting, none => if s.acks < s.tids.length then none else some (s.post p)
      | _, _ => none
    | .deliver t unwound =>
      match s.pending t, s.running t with
      | signal :: rest, none => some (s.deliver p t signal rest unwound)
      | _, _ => none
    | .frame t =>
      match s.running t with
      | some ⟨f, ip :: rest⟩ => some (s.frame t f ip rest)
      | _ => none
    | .submit t written =>
      match s.running t with
      | some ⟨f, []⟩ => some (s.submit t f written)
      | _ => none
    | .send t signal =>
      if s.alive t ∧ (signal.si_pid ≠ p.pid ∨ signal.sival_ptr = none) then
        some { s with pending := Function.update s.pending t (s.pending t ++ [signal]) }
      else none
    | .spawn t =>
      if s.alive t then none else some { s with alive := Function.update s.alive t true }
    | .exit t =>
      if t = p.self then none
      else
        match s.alive t, s.running t with
        | true, none =>
          some { s with
            alive := Function.update s.alive t false
            pending := Function.update s.pending t [] }
        | _, _ => none

/-- What each step can do, with the guards it had to pass. -/
inductive Move (p : Process) (s : State) : Act → State → Prop
  | collect (tids_v : List Int32) (pipe : Option Int32) (hphase : s.phase = .idle) :
      Move p s (.collect tids_v pipe) (s.begin tids_v pipe)
  | signalSent (memory : ℕ → Int64) (tid : Int32) (rest : List Int32)
      (hphase : s.phase = .signalling (tid :: rest)) (halive : s.alive tid = true) :
      Move p s (.signal true memory)
        { s with
          forms := Function.update s.forms s.next (some (newForm tid s.pipe_fd memory))
          next := s.next + 1
          pending := Function.update s.pending tid (s.pending tid ++ [⟨p.pid, some s.next⟩])
          slot := s.slot ++ [s.next]
          phase := .signalling rest }
  | signalFailed (memory : ℕ → Int64) (tid : Int32) (rest : List Int32)
      (hphase : s.phase = .signalling (tid :: rest)) :
      Move p s (.signal false memory)
        { s with
          next := s.next + 1
          failed_tids := s.failed_tids ++ [tid]
          phase := .signalling rest }
  | arm (created armed : Bool) (hphase : s.phase = .signalling []) :
      Move p s (.arm created armed) (s.arm created armed)
  | retry (hphase : s.phase = .waiting) : Move p s .retry s
  | readAck (hphase : s.phase = .waiting) (hless : s.acks < s.tids.length) (hpipe : 0 < s.pipe) :
      Move p s .readAck { s with acks := s.acks + 1, pipe := s.pipe - 1 }
  | expire (hphase : s.phase = .waiting) (hless : s.acks < s.tids.length) :
      Move p s .expire s.expire
  | post (hphase : s.phase = .waiting) (hall : s.tids.length ≤ s.acks) : Move p s .post (s.post p)
  | deliver (t : Int32) (unwound : Option (List (Option Int64))) (signal : Signal)
      (rest : List Signal) (hpending : s.pending t = signal :: rest) (hnone : s.running t = none) :
      Move p s (.deliver t unwound) (s.deliver p t signal rest unwound)
  | frame (t : Int32) (f : ℕ) (ip : Option Int64) (rest : List (Option Int64))
      (hrunning : s.running t = some ⟨f, ip :: rest⟩) :
      Move p s (.frame t) (s.frame t f ip rest)
  | submit (t : Int32) (written : Bool) (f : ℕ) (hrunning : s.running t = some ⟨f, []⟩) :
      Move p s (.submit t written) (s.submit t f written)
  | send (t : Int32) (signal : Signal)
      (hforeign : signal.si_pid ≠ p.pid ∨ signal.sival_ptr = none) :
      Move p s (.send t signal)
        { s with pending := Function.update s.pending t (s.pending t ++ [signal]) }
  | spawn (t : Int32) : Move p s (.spawn t) { s with alive := Function.update s.alive t true }
  | exit (t : Int32) (hnone : s.running t = none) :
      Move p s (.exit t)
        { s with
          alive := Function.update s.alive t false
          pending := Function.update s.pending t [] }

theorem step_move (p : Process) (s s' : State) (a : Act) (h : step p s a = some s') :
    Move p s a s' := by
  have hfault : ¬ s.fault = true := by
    intro hfault
    simp [step, hfault] at h
  rw [step.eq_def, if_neg hfault] at h
  cases a with
  | collect tids_v pipe =>
    dsimp only at h
    split at h
    · obtain rfl := Option.some.inj h
      exact Move.collect tids_v pipe ‹_›
    · cases h
  | signal delivered memory =>
    dsimp only at h
    split at h
    · unfold State.signal at h
      split_ifs at h with hdelivered halive
      · obtain rfl := Option.some.inj h
        rw [hdelivered]
        exact Move.signalSent memory _ _ ‹_› halive
      · obtain rfl := Option.some.inj h
        rw [Bool.not_eq_true] at hdelivered
        rw [hdelivered]
        exact Move.signalFailed memory _ _ ‹_›
    · cases h
  | arm created armed =>
    dsimp only at h
    split at h
    · obtain rfl := Option.some.inj h
      exact Move.arm created armed ‹_›
    · cases h
  | retry =>
    dsimp only at h
    split at h
    · split_ifs at h
      obtain rfl := Option.some.inj h
      exact Move.retry ‹_›
    · cases h
  | readAck =>
    dsimp only at h
    split at h
    · split_ifs at h with hguard
      obtain rfl := Option.some.inj h
      exact Move.readAck ‹_› hguard.1 hguard.2
    · cases h
  | expire =>
    dsimp only at h
    split at h
    · split_ifs at h with hless
      obtain rfl := Option.some.inj h
      exact Move.expire ‹_› hless
    · cases h
  | post =>
    dsimp only at h
    split at h
    · split_ifs at h with hless
      obtain rfl := Option.some.inj h
      exact Move.post ‹_› (not_lt.1 hless)
    · cases h
  | deliver t unwound =>
    dsimp only at h
    split at h
    · obtain rfl := Option.some.inj h
      exact Move.deliver t unwound _ _ ‹_› ‹_›
    · cases h
  | frame t =>
    dsimp only at h
    split at h
    · obtain rfl := Option.some.inj h
      exact Move.frame t _ _ _ ‹_›
    · cases h
  | submit t written =>
    dsimp only at h
    split at h
    · obtain rfl := Option.some.inj h
      exact Move.submit t written _ ‹_›
    · cases h
  | send t signal =>
    dsimp only at h
    split_ifs at h with hguard
    obtain rfl := Option.some.inj h
    exact Move.send t signal hguard.2
  | spawn t =>
    dsimp only at h
    split_ifs at h
    obtain rfl := Option.some.inj h
    exact Move.spawn t
  | exit t =>
    dsimp only at h
    split_ifs at h
    split at h
    · obtain rfl := Option.some.inj h
      exact Move.exit t ‹_›
    · cases h

/-- Before the first call. -/
def init (alive : Int32 → Bool) : State where
  alive := alive
  pending := fun _ => []
  running := fun _ => none
  forms := fun _ => none
  next := 0
  phase := .idle
  pipe_fd := -1
  init_tids := []
  failed_tids := []
  slot := []
  pipe := 0
  acks := 0
  descriptors := []
  settimeFailures := 0
  fault := false
  unwound := fun _ => []
  submitted := []
  returned := []

end JvmTrace.StackTraceCollection
