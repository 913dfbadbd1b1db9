import JvmTrace.ZqueueCalls

/-!
mem_fuller of src/trace_util.h: the public queue_ of requests, and the mutex
c_mutex_ with the condition variable cond_ on which pending waits without a
predicate. The request is pushed before the mutex is taken, a signal without a
waiter is lost, and notify(true) returns from its branch without the unlock.
Any number of threads call pending, notify and queue_.try_pop.
-/
namespace JvmTrace.MemFuller

open Monitors ZqueueCalls

/-- Where a thread is in its call. -/
inductive Pc
  | outside
  | popping
  | pushing
  | pendingLock
  | beforeWait
  | waiting
  | woken
  | unlocking
  | notifyLock (all : Bool)
  | signalling (all : Bool)
  | broadcasting
  deriving DecidableEq

/-- Past its push and not yet woken: where only a later signal, or a spurious
wake-up, lets pending go on. -/
def Pc.Stuck : Pc → Prop
  | .pendingLock => True
  | .beforeWait => True
  | .waiting => True
  | _ => False

structure State (T : Type*) where
  queue_ : Zqueue.State T UInt64
  monitor : Monitor T
  stack_trace_ : T → Bool
  pc : T → Pc

inductive Act (T : Type*)
  | callTryPop (t : T)
  | tryPopReturned (t : T)
  | pending (t : T) (tm : UInt64)
  | queue (a : Zqueue.Act T UInt64)
  | pushReturned (t : T)
  | lock (t : T)
  | condWait (t : T)
  | spurious (t : T)
  | unlock (t : T)
  | notify (t : T) (all : Bool)
  | signal (t : T) (choice : Option T)
  | broadcast (t : T)

variable {T : Type*} [DecidableEq T]

namespace State

def goto (s : State T) (t : T) (p : Pc) : State T :=
  { s with pc := Function.update s.pc t p }

def wokenBy (s : State T) : Option T → State T
  | none => s
  | some u => if s.pc u = .waiting then s.goto u .woken else s

omit [DecidableEq T] in
def wokenAll (s : State T) : State T :=
  { s with pc := fun u => if s.pc u = .waiting then .woken else s.pc u }

/-- A step of queue_ together with the place its thread goes to. -/
def onQueue (s : State T) (a : Zqueue.Act T UInt64) (t : T) (p : Pc) : Option (State T) :=
  (Zqueue.step s.queue_ a).map fun q => { s with queue_ := q }.goto t p

/-- A step of c_mutex_ and cond_ together with the place its thread goes to. -/
def onMonitor (s : State T) (m : Option (Monitor T)) (t : T) (p : Pc) : Option (State T) :=
  m.map fun m => { s with monitor := m }.goto t p

end State

/-- The place a thread reaches by taking c_mutex_. -/
def afterLock : Pc → Option Pc
  | .pendingLock => some .beforeWait
  | .woken => some .unlocking
  | .notifyLock all => some (.signalling all)
  | _ => none

def step (s : State T) : Act T → Option (State T)
  | .callTryPop t =>
      match s.pc t with
      | .outside => s.onQueue (.call t .tryPop) t .popping
      | _ => none
  | .tryPopReturned t =>
      match s.pc t with
      | .popping => s.onQueue (.finish t) t .outside
      | _ => none
  | .pending t tm =>
      match s.pc t with
      | .outside => s.onQueue (.call t (.push tm)) t .pushing
      | _ => none
  | .queue a => if Internal a then (Zqueue.step s.queue_ a).map fun q => { s with queue_ := q } else none
  | .pushReturned t =>
      match s.pc t with
      | .pushing => s.onQueue (.finish t) t (if s.stack_trace_ t then .outside else .pendingLock)
      | _ => none
  | .lock t => (afterLock (s.pc t)).bind fun p => s.onMonitor (s.monitor.acquire t) t p
  | .condWait t =>
      match s.pc t with
      | .beforeWait => s.onMonitor (s.monitor.wait t) t .waiting
      | _ => none
  | .spurious t =>
      match s.pc t with
      | .waiting => s.onMonitor (s.monitor.wake t) t .woken
      | _ => none
  | .unlock t =>
      match s.pc t with
      | .unlocking => s.onMonitor (s.monitor.release t) t .outside
      | _ => none
  | .notify t all =>
      match s.pc t with
      | .outside => some (s.goto t (.notifyLock all))
      | _ => none
  | .signal t choice =>
      match s.pc t with
      | .signalling all =>
          (s.onMonitor (s.monitor.notifyOne choice) t (if all then .broadcasting else .unlocking)).map
            fun s => s.wokenBy choice
      | _ => none
  | .broadcast t =>
      match s.pc t with
      | .broadcasting => some ({ s with monitor := s.monitor.notifyAll }.goto t .outside).wokenAll
      | _ => none

omit [DecidableEq T] in
/-- stack_trace_ is thread local: each thread has its own value for good. -/
def init (stack_trace_ : T → Bool) : State T where
  queue_ := Zqueue.init
  monitor := Monitor.init
  stack_trace_ := stack_trace_
  pc := fun _ => .outside

/-- What each step can do, with the guards it had to pass. -/
inductive Move (s : State T) : Act T → State T → Prop
  | callTryPop (t : T) (q : Zqueue.State T UInt64) (hpc : s.pc t = .outside)
      (hq : Zqueue.step s.queue_ (.call t .tryPop) = some q) :
      Move s (.callTryPop t) ({ s with queue_ := q }.goto t .popping)
  | tryPopReturned (t : T) (q : Zqueue.State T UInt64) (hpc : s.pc t = .popping)
      (hq : Zqueue.step s.queue_ (.finish t) = some q) :
      Move s (.tryPopReturned t) ({ s with queue_ := q }.goto t .outside)
  | pending (t : T) (tm : UInt64) (q : Zqueue.State T UInt64) (hpc : s.pc t = .outside)
      (hq : Zqueue.step s.queue_ (.call t (.push tm)) = some q) :
      Move s (.pending t tm) ({ s with queue_ := q }.goto t .pushing)
  | queue (a : Zqueue.Act T UInt64) (q : Zqueue.State T UInt64) (hint : Internal a)
      (hq : Zqueue.step s.queue_ a = some q) : Move s (.queue a) { s with queue_ := q }
  | pushReturned (t : T) (q : Zqueue.State T UInt64) (hpc : s.pc t = .pushing)
      (hq : Zqueue.step s.queue_ (.finish t) = some q) :
      Move s (.pushReturned t)
        ({ s with queue_ := q }.goto t (if s.stack_trace_ t then .outside else .pendingLock))
  | lock (t : T) (p : Pc) (hpc : afterLock (s.pc t) = some p) (hfree : s.monitor.owner = none) :
      Move s (.lock t) ({ s with monitor := { s.monitor with owner := some t } }.goto t p)
  | condWait (t : T) (hpc : s.pc t = .beforeWait) (hown : s.monitor.owner = some t) :
      Move s (.condWait t)
        ({ s with monitor := { owner := none, waiters := s.monitor.waiters ++ [t] } }.goto t .waiting)
  | spurious (t : T) (hpc : s.pc t = .waiting) (hwait : t ∈ s.monitor.waiters) :
      Move s (.spurious t)
        ({ s with monitor := { s.monitor with waiters := s.monitor.waiters.erase t } }.goto t .woken)
  | unlock (t : T) (hpc : s.pc t = .unlocking) (hown : s.monitor.owner = some t) :
      Move s (.unlock t) ({ s with monitor := { s.monitor with owner := none } }.goto t .outside)
  | notify (t : T) (all : Bool) (hpc : s.pc t = .outside) :
      Move s (.notify t all) (s.goto t (.notifyLock all))
  | signal (t : T) (all : Bool) (choice : Option T) (m : Monitor T)
      (hpc : s.pc t = .signalling all) (hm : s.monitor.notifyOne choice = some m) :
      Move s (.signal t choice)
        (({ s with monitor := m }.goto t (if all then .broadcasting else .unlocking)).wokenBy choice)
  | broadcast (t : T) (hpc : s.pc t = .broadcasting) :
      Move s (.broadcast t) ({ s with monitor := s.monitor.notifyAll }.goto t .outside).wokenAll

theorem onQueue_eq_some (s s' : State T) (a : Zqueue.Act T UInt64) (t : T) (p : Pc) :
    s.onQueue a t p = some s' ↔
      ∃ q, Zqueue.step s.queue_ a = some q ∧ { s with queue_ := q }.goto t p = s' := by
  rw [State.onQueue, Option.map_eq_some_iff]

theorem onMonitor_eq_some (s s' : State T) (m : Option (Monitor T)) (t : T) (p : Pc) :
    s.onMonitor m t p = some s' ↔ ∃ m', m = some m' ∧ { s with monitor := m' }.goto t p = s' := by
  rw [State.onMonitor, Option.map_eq_some_iff]

theorem step_move (s : State T) (a : Act T) (s' : State T) (h : step s a = some s') :
    Move s a s' := by
  cases a with
  | callTryPop t =>
    simp only [step] at h
    split at h
    · rename_i hpc
      obtain ⟨q, hq, rfl⟩ := (onQueue_eq_some s s' _ _ _).mp h
      exact .callTryPop t q hpc hq
    · cases h
  | tryPopReturned t =>
    simp only [step] at h
    split at h
    · rename_i hpc
      obtain ⟨q, hq, rfl⟩ := (onQueue_eq_some s s' _ _ _).mp h
      exact .tryPopReturned t q hpc hq
    · cases h
  | pending t tm =>
    simp only [step] at h
    split at h
    · rename_i hpc
      obtain ⟨q, hq, rfl⟩ := (onQueue_eq_some s s' _ _ _).mp h
      exact .pending t tm q hpc hq
    · cases h
  | queue a =>
    simp only [step, Option.ite_none_right_eq_some] at h
    obtain ⟨q, hq, rfl⟩ := Option.map_eq_some_iff.mp h.2
    exact .queue a q h.1 hq
  | pushReturned t =>
    simp only [step] at h
    split at h
    · rename_i hpc
      obtain ⟨q, hq, rfl⟩ := (onQueue_eq_some s s' _ _ _).mp h
      exact .pushReturned t q hpc hq
    · cases h
  | lock t =>
    obtain ⟨p, hpc, hlock⟩ := Option.bind_eq_some_iff.mp h
    obtain ⟨m, hm, rfl⟩ := (onMonitor_eq_some s s' _ _ _).mp hlock
    obtain ⟨hfree, rfl⟩ := (Monitor.acquire_eq_some _ m t).mp hm
    exact .lock t p hpc hfree
  | condWait t =>
    simp only [step] at h
    split at h
    · rename_i hpc
      obtain ⟨m, hm, rfl⟩ := (onMonitor_eq_some s s' _ _ _).mp h
      obtain ⟨hown, rfl⟩ := (Monitor.wait_eq_some _ m t).mp hm
      exact .condWait t hpc hown
    · cases h
  | spurious t =>
    simp only [step] at h
    split at h
    · rename_i hpc
      obtain ⟨m, hm, rfl⟩ := (onMonitor_eq_some s s' _ _ _).mp h
      obtain ⟨hwait, rfl⟩ := (Monitor.wake_eq_some _ m t).mp hm
      exact .spurious t hpc hwait
    · cases h
  | unlock t =>
    simp only [step] at h
    split at h
    · rename_i hpc
      obtain ⟨m, hm, rfl⟩ := (onMonitor_eq_some s s' _ _ _).mp h
      obtain ⟨hown, rfl⟩ := (Monitor.release_eq_some _ m t).mp hm
      exact .unlock t hpc hown
    · cases h
  | notify t all =>
    simp only [step] at h
    split at h
    · rename_i hpc
      cases h
      exact .notify t all hpc
    · cases h
  | signal t choice =>
    simp only [step] at h
    split at h
    · rename_i all hpc
      obtain ⟨u, hu, rfl⟩ := Option.map_eq_some_iff.mp h
      obtain ⟨m, hm, rfl⟩ := (onMonitor_eq_some s u _ _ _).mp hu
      exact .signal t all choice m hpc hm
    · cases h
  | broadcast t =>
    simp only [step] at h
    split at h
    · rename_i hpc
      cases h
      exact .broadcast t hpc
    · cases h

theorem wokenBy_stack_trace (s : State T) (choice : Option T) :
    (s.wokenBy choice).stack_trace_ = s.stack_trace_ := by
  cases choice with
  | none => rfl
  | some c =>
    simp only [State.wokenBy]
    split <;> rfl

theorem step_stack_trace (s : State T) (a : Act T) (s' : State T) (h : step s a = some s') :
    s'.stack_trace_ = s.stack_trace_ := by
  cases step_move s a s' h with
  | signal t all choice m hpc hm => exact wokenBy_stack_trace _ choice
  | _ => rfl

theorem goto_stuck (s : State T) (t u : T) (p : Pc) (hu : ((s.goto t p).pc u).Stuck)
    (hp : p.Stuck → (s.pc t).Stuck) : (s.pc u).Stuck := by
  by_cases hut : u = t
  · subst u
    exact hp (by simpa [State.goto] using hu)
  · simpa [State.goto, hut] using hu

theorem wokenBy_stuck (s : State T) (choice : Option T) (u : T)
    (hu : ((s.wokenBy choice).pc u).Stuck) : (s.pc u).Stuck := by
  cases choice with
  | none => exact hu
  | some c =>
    simp only [State.wokenBy] at hu
    split at hu
    · exact goto_stuck s c u .woken hu False.elim
    · exact hu

omit [DecidableEq T] in
theorem wokenAll_stuck (s : State T) (u : T) (hu : (s.wokenAll.pc u).Stuck) :
    (s.pc u).Stuck := by
  simp only [State.wokenAll] at hu
  split at hu
  · exact False.elim hu
  · exact hu

theorem afterLock_stuck (p p' : Pc) (h : afterLock p = some p') (hp' : p'.Stuck) : p.Stuck := by
  cases p with
  | pendingLock => trivial
  | woken => cases h; exact hp'
  | notifyLock all => cases h; exact hp'
  | _ => cases h

/-- A thread gets stuck only by returning from its push. -/
theorem step_stuck (s : State T) (a : Act T) (s' : State T) (h : step s a = some s') (u : T)
    (hu : (s'.pc u).Stuck) : (s.pc u).Stuck ∨ a = .pushReturned u ∧ s.stack_trace_ u = false := by
  cases step_move s a s' h with
  | pushReturned t q hpc hq =>
    by_cases hut : u = t
    · subst u
      right
      cases hst : s.stack_trace_ t with
      | false => exact ⟨rfl, rfl⟩
      | true => simp [State.goto, hst, Pc.Stuck] at hu
    · left
      simpa [State.goto, hut] using hu
  | queue a q hint hq => exact Or.inl hu
  | lock t p hpc hfree =>
    exact Or.inl (goto_stuck { s with monitor := _ } t u p hu (afterLock_stuck _ p hpc))
  | condWait t hpc hown =>
    left
    apply goto_stuck { s with monitor := _ } t u .waiting hu
    intro _
    simp [hpc, Pc.Stuck]
  | signal t all choice m hpc hm =>
    left
    have hgoto := wokenBy_stuck _ choice u hu
    apply goto_stuck { s with monitor := m } t u _ hgoto
    intro hstuck
    cases all <;> exact False.elim hstuck
  | broadcast t hpc =>
    have hgoto := wokenAll_stuck _ u hu
    exact Or.inl (goto_stuck { s with monitor := _ } t u .outside hgoto False.elim)
  | callTryPop t q hpc hq => exact Or.inl (goto_stuck { s with queue_ := q } t u _ hu False.elim)
  | tryPopReturned t q hpc hq => exact Or.inl (goto_stuck { s with queue_ := q } t u _ hu False.elim)
  | pending t tm q hpc hq => exact Or.inl (goto_stuck { s with queue_ := q } t u _ hu False.elim)
  | spurious t hpc hwait => exact Or.inl (goto_stuck { s with monitor := _ } t u _ hu False.elim)
  | unlock t hpc hown => exact Or.inl (goto_stuck { s with monitor := _ } t u _ hu False.elim)
  | notify t all hpc => exact Or.inl (goto_stuck s t u _ hu False.elim)

end JvmTrace.MemFuller
