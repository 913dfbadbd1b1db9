import JvmTrace.Monitors
import JvmTrace.Runs
import Mathlib.Data.Nat.Notation

/-!
The blocking queue of src/zqueue.h as a step function over any number of
threads. Every lock operation, the emptiness test, the access to the underlying
queue, the wait and the notification after the unlock of push are steps of their
own. A timed wait whose deadline has passed reports a timeout even when it was
notified. The values pushed and removed so far are recorded beside the queue.
-/
namespace JvmTrace.Zqueue

open Monitors Runs

inductive Op (V : Type*)
  | push (t : V)
  | pop
  | tryPop
  | count
  | clear

/-- What a call returns; the element of a successful pop is part of it, and count returns
the length as an int. -/
inductive Result (V : Type*)
  | done
  | popped (t : V)
  | gaveUp
  | size (n : Int32)

/-- Where a thread is in its call. -/
inductive Pc (V : Type*)
  | idle
  | entering (op : Op V)
  | inside (op : Op V)
  | blocking (op : Op V)
  | waiting (op : Op V)
  | woken (op : Op V)
  | expired
  | removing (op : Op V)
  | leaving (op : Op V) (r : Result V)
  | notifying
  | returned (r : Result V)

/-- The places where the thread holds mutex_. -/
def Pc.Holds {V : Type*} : Pc V → Prop
  | .inside _ => True
  | .blocking _ => True
  | .removing _ => True
  | .leaving _ _ => True
  | _ => False

/-- underflow records that front or pop was executed on an empty queue. -/
structure State (T V : Type*) where
  que_ : List V
  monitor : Monitor T
  pc : T → Pc V
  pushed : List V
  removed : List V
  underflow : Bool

inductive Act (T V : Type*)
  | call (t : T) (op : Op V)
  | acquire (t : T)
  | timeout (t : T)
  | exec (t : T)
  | remove (t : T)
  | block (t : T)
  | spurious (t : T)
  | expire (t : T)
  | leave (t : T)
  | notify (t : T) (choice : Option T)
  | finish (t : T)

variable {T V : Type*} [DecidableEq T]

namespace State

def goto (s : State T V) (t : T) (p : Pc V) : State T V :=
  { s with pc := Function.update s.pc t p }

/-- A waiter that is notified, or wakes by itself, has to take the lock again. -/
def wokenBy (s : State T V) : Option T → State T V
  | none => s
  | some u =>
      match s.pc u with
      | .waiting op => s.goto u (.woken op)
      | _ => s

/-- The statement a thread executes while it holds the lock. -/
def exec (s : State T V) (t : T) : Op V → State T V
  | .push v =>
      { s with que_ := s.que_ ++ [v], pushed := s.pushed ++ [v] }.goto t (.leaving (.push v) .done)
  | .pop => s.goto t (if s.que_ = [] then .blocking .pop else .removing .pop)
  | .tryPop => s.goto t (if s.que_ = [] then .blocking .tryPop else .removing .tryPop)
  | .count => s.goto t (.leaving .count (.size (Int32.ofNat s.que_.length)))
  | .clear => s.goto t (if s.que_ = [] then .leaving .clear .done else .removing .clear)

/-- Where a consumer goes with the element it has removed. -/
def afterRemove (op : Op V) (v : V) : Pc V :=
  match op with
  | .clear => .inside .clear
  | op => .leaving op (.popped v)

/-- front and pop on the underlying queue. -/
def remove (s : State T V) (t : T) (op : Op V) : State T V :=
  match s.que_ with
  | [] => { s with underflow := true }
  | v :: rest =>
      { s with que_ := rest, removed := s.removed ++ [v] }.goto t (afterRemove op v)

/-- push unlocks before it notifies; the other calls unlock as they return. -/
def afterLeave (op : Op V) (r : Result V) : Pc V :=
  match op with
  | .push _ => .notifying
  | _ => .returned r

end State

open State

def step (s : State T V) : Act T V → Option (State T V)
  | .call t op =>
      match s.pc t with
      | .idle => some (s.goto t (.entering op))
      | _ => none
  | .acquire t =>
      match s.pc t with
      | .entering op | .woken op =>
          (s.monitor.acquire t).map fun m => { s with monitor := m }.goto t (.inside op)
      | _ => none
  | .timeout t =>
      match s.pc t with
      | .woken .tryPop | .expired =>
          (s.monitor.acquire t).map fun m => { s with monitor := m }.goto t (.leaving .tryPop .gaveUp)
      | _ => none
  | .exec t =>
      match s.pc t with
      | .inside op => some (s.exec t op)
      | _ => none
  | .remove t =>
      match s.pc t with
      | .removing op => some (s.remove t op)
      | _ => none
  | .block t =>
      match s.pc t with
      | .blocking op => (s.monitor.wait t).map fun m => { s with monitor := m }.goto t (.waiting op)
      | _ => none
  | .spurious t =>
      match s.pc t with
      | .waiting op => (s.monitor.wake t).map fun m => { s with monitor := m }.goto t (.woken op)
      | _ => none
  | .expire t =>
      match s.pc t with
      | .waiting .tryPop => (s.monitor.wake t).map fun m => { s with monitor := m }.goto t .expired
      | _ => none
  | .leave t =>
      match s.pc t with
      | .leaving op r =>
          (s.monitor.release t).map fun m => { s with monitor := m }.goto t (afterLeave op r)
      | _ => none
  | .notify t choice =>
      match s.pc t with
      | .notifying =>
          (s.monitor.notifyOne choice).map fun m =>
            ({ s with monitor := m }.goto t (.returned .done)).wokenBy choice
      | _ => none
  | .finish t =>
      match s.pc t with
      | .returned _ => some (s.goto t .idle)
      | _ => none

omit [DecidableEq T] in
def init : State T V where
  que_ := []
  monitor := Monitor.init
  pc := fun _ => .idle
  pushed := []
  removed := []
  underflow := false

/-- What each step can do, with the guards it had to pass. -/
inductive Move (s : State T V) : Act T V → State T V → Prop
  | call (t : T) (op : Op V) (hpc : s.pc t = .idle) :
      Move s (.call t op) (s.goto t (.entering op))
  | acquire (t : T) (op : Op V) (hpc : s.pc t = .entering op ∨ s.pc t = .woken op)
      (hfree : s.monitor.owner = none) :
      Move s (.acquire t)
        ({ s with monitor := { s.monitor with owner := some t } }.goto t (.inside op))
  | timeout (t : T) (hpc : s.pc t = .woken .tryPop ∨ s.pc t = .expired)
      (hfree : s.monitor.owner = none) :
      Move s (.timeout t)
        ({ s with monitor := { s.monitor with owner := some t } }.goto t (.leaving .tryPop .gaveUp))
  | exec (t : T) (op : Op V) (hpc : s.pc t = .inside op) : Move s (.exec t) (s.exec t op)
  | remove (t : T) (op : Op V) (hpc : s.pc t = .removing op) : Move s (.remove t) (s.remove t op)
  | block (t : T) (op : Op V) (hpc : s.pc t = .blocking op) (hown : s.monitor.owner = some t) :
      Move s (.block t)
        ({ s with monitor := { owner := none, waiters := s.monitor.waiters ++ [t] } }.goto t
          (.waiting op))
  | spurious (t : T) (op : Op V) (hpc : s.pc t = .waiting op) (hwait : t ∈ s.monitor.waiters) :
      Move s (.spurious t)
        ({ s with monitor := { s.monitor with waiters := s.monitor.waiters.erase t } }.goto t
          (.woken op))
  | expire (t : T) (hpc : s.pc t = .waiting .tryPop) (hwait : t ∈ s.monitor.waiters) :
      Move s (.expire t)
        ({ s with monitor := { s.monitor with waiters := s.monitor.waiters.erase t } }.goto t
          .expired)
  | leave (t : T) (op : Op V) (r : Result V) (hpc : s.pc t = .leaving op r)
      (hown : s.monitor.owner = some t) :
      Move s (.leave t)
        ({ s with monitor := { s.monitor with owner := none } }.goto t (afterLeave op r))
  | notify (t : T) (choice : Option T) (m : Monitor T) (hpc : s.pc t = .notifying)
      (hm : s.monitor.notifyOne choice = some m) :
      Move s (.notify t choice)
        (({ s with monitor := m }.goto t (.returned .done)).wokenBy choice)
  | finish (t : T) (r : Result V) (hpc : s.pc t = .returned r) : Move s (.finish t) (s.goto t .idle)

theorem acquire_goto_eq_some (s s' : State T V) (t : T) (p : Pc V)
    (h : ((s.monitor.acquire t).map fun m => { s with monitor := m }.goto t p) = some s') :
    s.monitor.owner = none ∧
      s' = { s with monitor := { s.monitor with owner := some t } }.goto t p := by
  obtain ⟨m, hm, rfl⟩ := Option.map_eq_some_iff.mp h
  obtain ⟨hfree, rfl⟩ := (Monitor.acquire_eq_some _ m t).mp hm
  exact ⟨hfree, rfl⟩

theorem step_move (s : State T V) (a : Act T V) (s' : State T V) (h : step s a = some s') :
    Move s a s' := by
  cases a with
  | call t op =>
    simp only [step] at h
    split at h
    · rename_i hpc
      cases h
      exact .call t op hpc
    · cases h
  | acquire t =>
    simp only [step] at h
    split at h
    · rename_i op hpc
      obtain ⟨hfree, rfl⟩ := acquire_goto_eq_some s s' t _ h
      exact .acquire t op (Or.inl hpc) hfree
    · rename_i op hpc
      obtain ⟨hfree, rfl⟩ := acquire_goto_eq_some s s' t _ h
      exact .acquire t op (Or.inr hpc) hfree
    · cases h
  | timeout t =>
    simp only [step] at h
    split at h
    · rename_i hpc
      obtain ⟨hfree, rfl⟩ := acquire_goto_eq_some s s' t _ h
      exact .timeout t (Or.inl hpc) hfree
    · rename_i hpc
      obtain ⟨hfree, rfl⟩ := acquire_goto_eq_some s s' t _ h
      exact .timeout t (Or.inr hpc) hfree
    · cases h
  | exec t =>
    simp only [step] at h
    split at h
    · rename_i op hpc
      cases h
      exact .exec t op hpc
    · cases h
  | remove t =>
    simp only [step] at h
    split at h
    · rename_i op hpc
      cases h
      exact .remove t op hpc
    · cases h
  | block t =>
    simp only [step] at h
    split at h
    · rename_i op hpc
      obtain ⟨m, hm, rfl⟩ := Option.map_eq_some_iff.mp h
      obtain ⟨hown, rfl⟩ := (Monitor.wait_eq_some _ m t).mp hm
      exact .block t op hpc hown
    · cases h
  | spurious t =>
    simp only [step] at h
    split at h
    · rename_i op hpc
      obtain ⟨m, hm, rfl⟩ := Option.map_eq_some_iff.mp h
      obtain ⟨hwait, rfl⟩ := (Monitor.wake_eq_some _ m t).mp hm
      exact .spurious t op hpc hwait
    · cases h
  | expire t =>
    simp only [step] at h
    split at h
    · rename_i hpc
      obtain ⟨m, hm, rfl⟩ := Option.map_eq_some_iff.mp h
      obtain ⟨hwait, rfl⟩ := (Monitor.wake_eq_some _ m t).mp hm
      exact .expire t hpc hwait
    · cases h
  | leave t =>
    simp only [step] at h
    split at h
    · rename_i op r hpc
      obtain ⟨m, hm, rfl⟩ := Option.map_eq_some_iff.mp h
      obtain ⟨hown, rfl⟩ := (Monitor.release_eq_some _ m t).mp hm
      exact .leave t op r hpc hown
    · cases h
  | notify t choice =>
    simp only [step] at h
    split at h
    · rename_i hpc
      obtain ⟨m, hm, rfl⟩ := Option.map_eq_some_iff.mp h
      exact .notify t choice m hpc hm
    · cases h
  | finish t =>
    simp only [step] at h
    split at h
    · rename_i r hpc
      cases h
      exact .finish t r hpc
    · cases h

end JvmTrace.Zqueue
