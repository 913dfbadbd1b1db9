import Mathlib.Data.List.Nodup
import Mathlib.Logic.Function.Basic

/-!
A mutex with one condition variable. Waiting gives the mutex up and joins the
waiters in one step; a waiter leaves by a notification, by a spurious wake-up or
by its deadline, and must then take the mutex again. A notification without a
waiter is lost. A thread's place in its own code is any type with a predicate
that says where it holds the mutex; at most the owner stands at such a place.
-/
namespace JvmTrace.Monitors

structure Monitor (T : Type*) where
  owner : Option T
  waiters : List T

variable {T : Type*}

namespace Monitor

def init : Monitor T where
  owner := none
  waiters := []

def acquire (m : Monitor T) (t : T) : Option (Monitor T) :=
  match m.owner with
  | none => some { m with owner := some t }
  | some _ => none

variable [DecidableEq T]

def release (m : Monitor T) (t : T) : Option (Monitor T) :=
  if m.owner = some t then some { m with owner := none } else none

/-- Give the mutex up and join the waiters. -/
def wait (m : Monitor T) (t : T) : Option (Monitor T) :=
  if m.owner = some t then some { owner := none, waiters := m.waiters ++ [t] } else none

/-- Take one thread out of the waiters, whatever the reason. -/
def wake (m : Monitor T) (t : T) : Option (Monitor T) :=
  if t ∈ m.waiters then some { m with waiters := m.waiters.erase t } else none

/-- Notify one waiter of the scheduler's choice; no choice is possible exactly
when nobody waits. -/
def notifyOne (m : Monitor T) : Option T → Option (Monitor T)
  | some t => m.wake t
  | none => if m.waiters = [] then some m else none

/-- Notify every waiter. -/
def notifyAll (m : Monitor T) : Monitor T := { m with waiters := [] }

omit [DecidableEq T] in
theorem acquire_eq_some (m m' : Monitor T) (t : T) :
    m.acquire t = some m' ↔ m.owner = none ∧ m' = { m with owner := some t } := by
  unfold acquire
  cases h : m.owner <;> simp [eq_comm]

theorem release_eq_some (m m' : Monitor T) (t : T) :
    m.release t = some m' ↔ m.owner = some t ∧ m' = { m with owner := none } := by
  simp [release, eq_comm]

theorem wait_eq_some (m m' : Monitor T) (t : T) :
    m.wait t = some m' ↔
      m.owner = some t ∧ m' = { owner := none, waiters := m.waiters ++ [t] } := by
  simp [wait, eq_comm]

theorem wake_eq_some (m m' : Monitor T) (t : T) :
    m.wake t = some m' ↔ t ∈ m.waiters ∧ m' = { m with waiters := m.waiters.erase t } := by
  simp [wake, eq_comm]

/-- Notifying is never blocked. -/
theorem notifyOne_enabled (m : Monitor T) : ∃ choice m', m.notifyOne choice = some m' := by
  cases hw : m.waiters with
  | nil => exact ⟨none, m, by simp [notifyOne, hw]⟩
  | cons t rest =>
    refine ⟨some t, { m with waiters := m.waiters.erase t }, ?_⟩
    exact (wake_eq_some m _ t).mpr ⟨by simp [hw], rfl⟩

theorem notifyOne_owner (m m' : Monitor T) (choice : Option T)
    (h : m.notifyOne choice = some m') : m'.owner = m.owner := by
  cases choice with
  | none =>
    simp only [notifyOne, Option.ite_none_right_eq_some, Option.some.injEq] at h
    rw [← h.2]
  | some t =>
    obtain ⟨_, rfl⟩ := (wake_eq_some m m' t).mp h
    rfl

end Monitor

section Places

variable {P : Type*} (holds : P → Prop)

/-- Only the owner stands at a place where the mutex is held. -/
def Guarded (owner : Option T) (pc : T → P) : Prop :=
  ∀ t, holds (pc t) → owner = some t

variable {holds} {owner : Option T} {pc : T → P}

theorem Guarded.unique (h : Guarded holds owner pc) {t u : T} (ht : holds (pc t))
    (hu : holds (pc u)) : t = u :=
  Option.some.inj ((h t ht).symm.trans (h u hu))

variable [DecidableEq T]

/-- A move that does not enter a place where the mutex is held. -/
theorem Guarded.move (h : Guarded holds owner pc) (t : T) (p : P)
    (hp : holds p → holds (pc t)) : Guarded holds owner (Function.update pc t p) := by
  intro u hu
  by_cases hut : u = t
  · subst u
    exact h t (hp (by simpa using hu))
  · exact h u (by simpa [hut] using hu)

theorem Guarded.acquire (h : Guarded holds none pc) (t : T) (p : P) :
    Guarded holds (some t) (Function.update pc t p) := by
  intro u hu
  by_cases hut : u = t
  · rw [hut]
  · have hnone := h u (by simpa [hut] using hu)
    cases hnone

theorem Guarded.release {t : T} (h : Guarded holds (some t) pc) (p : P) (hp : ¬ holds p) :
    Guarded holds none (Function.update pc t p) := by
  intro u hu
  by_cases hut : u = t
  · subst u
    exact absurd (by simpa using hu) hp
  · have hown := h u (by simpa [hut] using hu)
    exact absurd (Option.some.inj hown).symm hut

/-- The owner stands at a place where the mutex is held. -/
def Occupied (holds : P → Prop) (owner : Option T) (pc : T → P) : Prop :=
  ∀ t, owner = some t → holds (pc t)

theorem Occupied.move (h : Occupied holds owner pc) (t : T) (p : P)
    (hp : holds (pc t) → holds p) : Occupied holds owner (Function.update pc t p) := by
  intro u hu
  by_cases hut : u = t
  · subst u
    simpa using hp (h t hu)
  · simpa [hut] using h u hu

theorem occupied_acquire (t : T) (p : P) (hp : holds p) :
    Occupied holds (some t) (Function.update pc t p) := by
  intro u hu
  cases hu
  simpa using hp

omit [DecidableEq T] in
theorem occupied_none : Occupied holds none pc := by
  intro t ht
  cases ht

end Places

section Waiters

variable {P : Type*} (waits : P → Prop)

/-- The waiters are the threads that stand at a waiting place, each listed once. -/
structure Queued (waiters : List T) (pc : T → P) : Prop where
  nodup : waiters.Nodup
  mem_iff : ∀ t, t ∈ waiters ↔ waits (pc t)

variable {waits} {waiters : List T} {pc : T → P} [DecidableEq T]

/-- A move that neither enters nor leaves a waiting place. -/
theorem Queued.move (h : Queued waits waiters pc) (t : T) (p : P)
    (hp : waits p ↔ waits (pc t)) : Queued waits waiters (Function.update pc t p) where
  nodup := h.nodup
  mem_iff u := by
    rw [h.mem_iff u]
    by_cases hut : u = t
    · subst u
      simpa using hp.symm
    · simp [hut]

theorem Queued.join (h : Queued waits waiters pc) (t : T) (p : P) (hp : waits p)
    (ht : ¬ waits (pc t)) : Queued waits (waiters ++ [t]) (Function.update pc t p) where
  nodup := by
    have hmem : t ∉ waiters := fun hmem => ht ((h.mem_iff t).mp hmem)
    rw [← List.concat_eq_append]
    exact List.Nodup.concat hmem h.nodup
  mem_iff u := by
    rw [List.mem_append, h.mem_iff u]
    by_cases hut : u = t
    · subst u
      simpa using hp
    · simp [hut]

theorem Queued.quit (h : Queued waits waiters pc) (t : T) (p : P) (hp : ¬ waits p) :
    Queued waits (waiters.erase t) (Function.update pc t p) where
  nodup := h.nodup.erase t
  mem_iff u := by
    rw [h.nodup.mem_erase_iff, h.mem_iff u]
    by_cases hut : u = t
    · subst u
      simpa using hp
    · simp [hut]

end Waiters

end JvmTrace.Monitors
