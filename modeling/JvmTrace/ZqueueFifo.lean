import JvmTrace.Zqueue

/-!
First in, first out under every interleaving. Removing and pushing happen only
where the lock is held, so the values removed so far followed by the queue are
the values pushed so far, and a consumer that has seen a non-empty queue finds it
non-empty when it reads the front.
-/
namespace JvmTrace.ZqueueFifo

open Monitors Runs Zqueue

variable {T V : Type*}

/-- The two results together with what carries them through every step. -/
structure Inv (s : State T V) : Prop where
  fifo : s.removed ++ s.que_ = s.pushed
  safe : s.underflow = false
  guarded : Guarded Pc.Holds s.monitor.owner s.pc
  nonempty : ∀ t op, s.pc t = .removing op → s.que_ ≠ []

variable [DecidableEq T]

/-- A move of one thread that leaves the queue alone. -/
theorem inv_goto (s : State T V) (m : Monitor T) (t : T) (p : Pc V) (h : Inv s)
    (hguarded : Guarded Pc.Holds m.owner (Function.update s.pc t p))
    (hremoving : ∀ op, p = .removing op → s.que_ ≠ []) :
    Inv ({ s with monitor := m }.goto t p) where
  fifo := h.fifo
  safe := h.safe
  guarded := hguarded
  nonempty u op hu := by
    by_cases hut : u = t
    · subst u
      exact hremoving op (by simpa [State.goto] using hu)
    · exact h.nonempty u op (by simpa [State.goto, hut] using hu)

/-- Such a move with the mutex left as it is. -/
theorem inv_stay (s : State T V) (t : T) (p : Pc V) (h : Inv s)
    (hholds : p.Holds → (s.pc t).Holds) (hremoving : ∀ op, p = .removing op → s.que_ ≠ []) :
    Inv (s.goto t p) :=
  inv_goto s s.monitor t p h (h.guarded.move t p hholds) hremoving

theorem inv_acquire (s : State T V) (t : T) (p : Pc V) (h : Inv s)
    (hfree : s.monitor.owner = none) (hremoving : ∀ op, p ≠ .removing op) :
    Inv ({ s with monitor := { s.monitor with owner := some t } }.goto t p) := by
  have hguarded := h.guarded
  rw [hfree] at hguarded
  exact inv_goto s _ t p h (hguarded.acquire t p) fun op hp => absurd hp (hremoving op)

theorem inv_release (s : State T V) (m : Monitor T) (t : T) (p : Pc V) (h : Inv s)
    (hown : s.monitor.owner = some t) (hm : m.owner = none) (hp : ¬ p.Holds) :
    Inv ({ s with monitor := m }.goto t p) := by
  have hguarded := h.guarded
  rw [hown] at hguarded
  apply inv_goto s m t p h
  · rw [hm]
    exact hguarded.release p hp
  · intro op hop
    subst hop
    exact absurd trivial hp

theorem inv_exec (s : State T V) (t : T) (op : Op V) (h : Inv s) (hpc : s.pc t = .inside op) :
    Inv (s.exec t op) := by
  have hholds : ∀ p : Pc V, p.Holds → (s.pc t).Holds := by
    intro p _
    rw [hpc]
    trivial
  cases op with
  | push v =>
    constructor
    · change s.removed ++ (s.que_ ++ [v]) = s.pushed ++ [v]
      rw [← List.append_assoc, h.fifo]
    · exact h.safe
    · exact h.guarded.move t _ (hholds _)
    · intro u op _
      change s.que_ ++ [v] ≠ []
      simp
  | pop =>
    apply inv_stay s t _ h (hholds _)
    intro op hop
    split at hop
    · cases hop
    · assumption
  | tryPop =>
    apply inv_stay s t _ h (hholds _)
    intro op hop
    split at hop
    · cases hop
    · assumption
  | count => exact inv_stay s t _ h (hholds _) (by simp)
  | clear =>
    apply inv_stay s t _ h (hholds _)
    intro op hop
    split at hop
    · cases hop
    · assumption

theorem afterRemove_ne (op op' : Op V) (v : V) : State.afterRemove op v ≠ .removing op' := by
  cases op <;> simp [State.afterRemove]

theorem inv_remove (s : State T V) (t : T) (op : Op V) (h : Inv s)
    (hpc : s.pc t = .removing op) : Inv (s.remove t op) := by
  have hholds : (s.pc t).Holds := by
    rw [hpc]
    trivial
  cases hque : s.que_ with
  | nil => exact absurd hque (h.nonempty t op hpc)
  | cons v rest =>
    have hfifo := h.fifo
    rw [hque] at hfifo
    simp only [State.remove, hque]
    constructor
    · change (s.removed ++ [v]) ++ rest = s.pushed
      simpa using hfifo
    · exact h.safe
    · exact h.guarded.move t _ fun _ => hholds
    · intro u op' hu
      by_cases hut : u = t
      · subst u
        exact absurd (by simpa [State.goto] using hu) (afterRemove_ne op op' v)
      · have hu' : s.pc u = .removing op' := by simpa [State.goto, hut] using hu
        have hholds' : (s.pc u).Holds := by
          rw [hu']
          trivial
        exact absurd (h.guarded.unique hholds' hholds) hut

theorem inv_wokenBy (s : State T V) (choice : Option T) (h : Inv s) :
    Inv (s.wokenBy choice) := by
  cases choice with
  | none => exact h
  | some u =>
    simp only [State.wokenBy]
    split
    · exact inv_stay s u _ h (fun hp => False.elim hp) (by simp)
    · exact h

theorem step_inv (s : State T V) (a : Act T V) (s' : State T V) (hstep : step s a = some s')
    (h : Inv s) : Inv s' := by
  cases step_move s a s' hstep with
  | call t op hpc =>
    exact inv_stay s t _ h (fun hp => False.elim hp) (by simp)
  | acquire t op hpc hfree => exact inv_acquire s t _ h hfree (by simp)
  | timeout t hpc hfree => exact inv_acquire s t _ h hfree (by simp)
  | exec t op hpc => exact inv_exec s t op h hpc
  | remove t op hpc => exact inv_remove s t op h hpc
  | block t op hpc hown => exact inv_release s _ t _ h hown rfl (fun hp => hp)
  | spurious t op hpc hwait =>
    exact inv_goto s _ t _ h (h.guarded.move t _ fun hp => False.elim hp) (by simp)
  | expire t hpc hwait =>
    exact inv_goto s _ t _ h (h.guarded.move t _ fun hp => False.elim hp) (by simp)
  | leave t op r hpc hown =>
    apply inv_release s _ t _ h hown rfl
    cases op <;> exact fun hp => hp
  | notify t choice m hpc hm =>
    apply inv_wokenBy
    apply inv_goto s m t _ h _ (by simp)
    rw [Monitor.notifyOne_owner s.monitor m choice hm]
    exact h.guarded.move t _ fun hp => False.elim hp
  | finish t r hpc =>
    exact inv_stay s t _ h (fun hp => False.elim hp) (by simp)

omit [DecidableEq T] in
theorem init_inv : Inv (init : State T V) where
  fifo := rfl
  safe := rfl
  guarded _ ht := False.elim ht
  nonempty _ _ ht := by simp [init] at ht

theorem reachable_inv (s : State T V) (h : Reachable step init s) : Inv s :=
  reachable_invariant step_inv h init_inv

end JvmTrace.ZqueueFifo
