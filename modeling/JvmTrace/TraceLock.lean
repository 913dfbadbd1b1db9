import JvmTrace.MemChecker
import JvmTrace.Runs
import Mathlib.Logic.Function.Basic

/-!
The spin lock trace_lock of src/mem_checker.cpp (and of src/trace_util.h) around
the bodies of mem_checker::add and mem_checker::del. The constructor takes the
mutex by value and keeps the address of its own parameter, so the compare and
swap works on a copy that belongs to the call. The shared mutex is only read,
every constructor succeeds at once, and exclusion holds for one thread only.
-/
namespace JvmTrace.TraceLock

open MemChecker Runs

/-- The call a thread makes under the lock; del returns before it for NULL. -/
inductive Op
  | add (p : Addr) (len : UInt64)
  | del (p : Addr) (hp : p ≠ NULL)

def Op.body : Op → Checker → Checker
  | .add p len => MemChecker.add p len
  | .del p _ => MemChecker.del p

inductive Pc
  | idle
  | trying (op : Op)
  | locked (op : Op)
  | done

/-- The constructor has completed and the destructor has not started. -/
def Pc.Critical : Pc → Prop
  | .locked _ => True
  | .done => True
  | _ => False

/-- cell is the constructor's parameter, the word that mutex_ points to. -/
structure State (T : Type*) where
  m_mutex_ : Int
  cell : T → Int
  pc : T → Pc
  checker : Checker

/-- The atomic steps: passing the argument, one compare and swap of the
constructor, the body, the destructor's compare and swap. The parameter is dead
once the constructor has returned, so the body may leave any value in it. -/
inductive Act (T : Type*)
  | pass (t : T) (op : Op)
  | swap (t : T)
  | body (t : T) (leftover : Int)
  | release (t : T)

variable {T : Type*} [DecidableEq T]

/-- `__sync_bool_compare_and_swap` on a thread's own word. -/
def compareAndSwap (cell : T → Int) (t : T) (old new : Int) : T → Int :=
  if cell t = old then Function.update cell t new else cell

def step (s : State T) : Act T → Option (State T)
  | .pass t op =>
      match s.pc t with
      | .idle => some { s with
          cell := Function.update s.cell t s.m_mutex_
          pc := Function.update s.pc t (.trying op) }
      | _ => none
  | .swap t =>
      match s.pc t with
      | .trying op => some { s with
          cell := compareAndSwap s.cell t 0 1
          pc := if s.cell t = 0 then Function.update s.pc t (.locked op) else s.pc }
      | _ => none
  | .body t leftover =>
      match s.pc t with
      | .locked op => some { s with
          cell := Function.update s.cell t leftover
          pc := Function.update s.pc t .done
          checker := op.body s.checker }
      | _ => none
  | .release t =>
      match s.pc t with
      | .done => some { s with
          cell := compareAndSwap s.cell t 1 0
          pc := Function.update s.pc t .idle }
      | _ => none

omit [DecidableEq T] in
def init : State T where
  m_mutex_ := 0
  cell := fun _ => 0
  pc := fun _ => .idle
  checker := MemChecker.empty

omit [DecidableEq T] in
def MutualExclusion (s : State T) : Prop :=
  ∀ t u, (s.pc t).Critical → (s.pc u).Critical → t = u

/-- No step writes the shared mutex. -/
theorem step_m_mutex (s : State T) (a : Act T) (s' : State T) (h : step s a = some s') :
    s'.m_mutex_ = s.m_mutex_ := by
  cases a <;> simp only [step] at h <;> split at h <;> cases h <;> rfl

theorem reachable_m_mutex (s : State T) (h : Reachable step init s) : s.m_mutex_ = 0 := by
  refine reachable_invariant (P := fun s : State T => s.m_mutex_ = 0) ?_ h rfl
  intro s a s' hstep hs
  rw [step_m_mutex s a s' hstep]
  exact hs

/-- An idle thread enters the critical section in two steps of its own,
whoever else is inside. -/
theorem enters_at_once (s : State T) (t : T) (op : Op) (hm : s.m_mutex_ = 0)
    (ht : s.pc t = .idle) :
    ∃ s', run step s [.pass t op, .swap t] = some s' ∧ s'.pc t = .locked op ∧
      ∀ u, u ≠ t → s'.pc u = s.pc u := by
  refine ⟨{ s with
    cell := Function.update (Function.update s.cell t 0) t 1
    pc := Function.update (Function.update s.pc t (.trying op)) t (.locked op) }, ?_, ?_, ?_⟩
  · simp [run, step, ht, hm, compareAndSwap]
  · simp
  · intro u hu
    simp [hu]

/-- Exclusion in every reachable state means that there is at most one thread. -/
theorem mutualExclusion_iff_single_thread :
    (∀ s : State T, Reachable step init s → MutualExclusion s) ↔ ∀ t u : T, t = u := by
  constructor
  · intro hex t u
    by_contra hne
    obtain ⟨s₁, hrun₁, ht₁, hother₁⟩ := enters_at_once (init : State T) t (.add NULL 0) rfl rfl
    have hu₁ : s₁.pc u = .idle := hother₁ u (Ne.symm hne)
    have hm₁ : s₁.m_mutex_ = 0 := reachable_m_mutex s₁ ⟨_, hrun₁⟩
    obtain ⟨s₂, hrun₂, hu₂, hother₂⟩ := enters_at_once s₁ u (.add NULL 0) hm₁ hu₁
    have ht₂ : s₂.pc t = .locked (.add NULL 0) := (hother₂ t hne).trans ht₁
    have hreach : Reachable step init s₂ := by
      refine ⟨[.pass t (.add NULL 0), .swap t] ++ [.pass u (.add NULL 0), .swap u], ?_⟩
      rw [run_append, hrun₁]
      exact hrun₂
    apply hne
    apply hex s₂ hreach t u
    · simp [ht₂, Pc.Critical]
    · simp [hu₂, Pc.Critical]
  · intro hsingle s _ t u _ _
    exact hsingle t u

/-- Two threads stand in the critical section together. -/
theorem two_threads_inside :
    ¬ ∀ s : State Bool, Reachable step init s → MutualExclusion s := by
  intro hex
  have hrun : ∃ s : State Bool, run step init
      [.pass false (.add 0x1000 16), .pass true (.del 0x1000 (by decide)), .swap false, .swap true] = some s ∧
        (s.pc false).Critical ∧ (s.pc true).Critical := ⟨_, rfl, trivial, trivial⟩
  obtain ⟨s, hs, hfalse, htrue⟩ := hrun
  exact Bool.noConfusion (hex s ⟨_, hs⟩ false true hfalse htrue)

end JvmTrace.TraceLock
