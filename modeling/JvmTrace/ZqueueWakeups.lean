import JvmTrace.Headcounts
import JvmTrace.ZqueueFifo

/-!
Wake-ups of the queue's consumers. One notification is issued for each element,
after the unlock, and a consumer that was chosen by it may leave by its deadline
and take no element. The elements are counted against the pushes that still have
to notify and the consumers that are on their way to an element; the balance is
kept by every step except such a timeout, and by that one too when enough others
are on their way. The timeout of try_pop does not look at the queue again, which
decides what the queue holds when it gives up.
-/
namespace JvmTrace.ZqueueWakeups

open Monitors Runs Zqueue Headcounts

variable {T V : Type*}

/-- The calls that wait for an element. -/
def Consumes : Op V → Prop
  | .pop => True
  | .tryPop => True
  | _ => False

/-- Blocked in wait or wait_for. -/
def Waits : Pc V → Prop
  | .waiting _ => True
  | _ => False

/-- A push between its insertion and its notify_one. -/
def Announces : Pc V → Prop
  | .leaving (.push _) _ => True
  | .notifying => True
  | _ => False

/-- Woken, without having taken the lock again. -/
def Woken : Pc V → Prop
  | .woken _ => True
  | _ => False

/-- A consumer inside its critical section that is about to look at the queue or
to take the element it has seen. -/
def Takes : Pc V → Prop
  | .inside op => Consumes op
  | .removing op => Consumes op
  | _ => False

/-- On the way to an element, or to waking somebody who will be. -/
def Covers (p : Pc V) : Prop := Announces p ∨ Woken p ∨ Takes p

/-- An element and a consumer that waits for one, and nobody to bring them together. -/
structure LostWakeup (s : State T V) : Prop where
  nonempty : s.que_ ≠ []
  waiting : ∃ t, Waits (s.pc t)
  unannounced : ∀ t, ¬ Announces (s.pc t)
  unwoken : ∀ t, ¬ Woken (s.pc t)
  untaken : ∀ t, ¬ Takes (s.pc t)

/-- Either every waiting consumer has a notification still coming, or there are
no more elements than threads on the way. -/
def Balanced (s : State T V) : Prop :=
  headcount Waits s.pc ≤ headcount Announces s.pc ∨ s.que_.length ≤ headcount Covers s.pc

/-- A woken try_pop reports a timeout only where it is not missed. -/
def Covered (s : State T V) (a : Act T V) : Prop :=
  ∀ t, a = .timeout t → s.pc t = .woken .tryPop →
    headcount Waits s.pc ≤ headcount Announces s.pc ∨ s.que_.length < headcount Covers s.pc

theorem not_lostWakeup_of_balanced (s : State T V) (h : Balanced s) : ¬ LostWakeup s := by
  intro hlost
  have hwaits : 0 < headcount Waits s.pc := (headcount_pos Waits s.pc).mpr hlost.waiting
  have hannounces := headcount_eq_zero Announces s.pc hlost.unannounced
  have hcovers : headcount Covers s.pc = 0 := by
    apply headcount_eq_zero
    intro t ht
    rcases ht with hann | hwok | htak
    · exact hlost.unannounced t hann
    · exact hlost.unwoken t hwok
    · exact hlost.untaken t htak
  have hlength : s.que_.length ≠ 0 := by simpa using hlost.nonempty
  rcases h with hwait | hque
  · rw [hannounces] at hwait
    exact absurd hwait (not_le.mpr hwaits)
  · rw [hcovers] at hque
    exact hlength (by simpa using hque)

/-- What every step keeps: only consumers wait, a consumer that is about to wait
has just seen an empty queue, and the waiters are the threads that wait. -/
structure Inv (s : State T V) : Prop where
  fifo : ZqueueFifo.Inv s
  consumes : ∀ t op, s.pc t = .blocking op ∨ s.pc t = .waiting op ∨ s.pc t = .woken op →
    Consumes op
  empty : ∀ t op, s.pc t = .blocking op → s.que_ = []
  queued : Queued Waits s.monitor.waiters s.pc

variable [DecidableEq T]

/-- A move of one thread that leaves the queue alone. -/
theorem inv_goto (s : State T V) (m : Monitor T) (t : T) (p : Pc V) (h : Inv s)
    (hfifo : ZqueueFifo.Inv ({ s with monitor := m }.goto t p))
    (hqueued : Queued Waits m.waiters (Function.update s.pc t p))
    (hconsumes : ∀ op, p = .blocking op ∨ p = .waiting op ∨ p = .woken op → Consumes op)
    (hempty : ∀ op, p = .blocking op → s.que_ = []) :
    Inv ({ s with monitor := m }.goto t p) where
  fifo := hfifo
  consumes u op hu := by
    by_cases hut : u = t
    · subst u
      exact hconsumes op (by simpa [State.goto] using hu)
    · exact h.consumes u op (by simpa [State.goto, hut] using hu)
  empty u op hu := by
    by_cases hut : u = t
    · subst u
      exact hempty op (by simpa [State.goto] using hu)
    · exact h.empty u op (by simpa [State.goto, hut] using hu)
  queued := hqueued

/-- Such a move between places where nobody waits, with the waiters left as they are. -/
theorem inv_stay (s : State T V) (m : Monitor T) (t : T) (p : Pc V) (h : Inv s)
    (hfifo : ZqueueFifo.Inv ({ s with monitor := m }.goto t p))
    (hm : m.waiters = s.monitor.waiters) (ht : ¬ Waits (s.pc t)) (hp : ¬ Waits p)
    (hwoken : ¬ Woken p) (hblocking : ∀ op, p = .blocking op → Consumes op ∧ s.que_ = []) :
    Inv ({ s with monitor := m }.goto t p) := by
  apply inv_goto s m t p h hfifo
  · rw [hm]
    exact h.queued.move t p (by simp [hp, ht])
  · intro op hop
    rcases hop with rfl | rfl | rfl
    · exact (hblocking op rfl).1
    · exact absurd trivial hp
    · exact absurd trivial hwoken
  · intro op hop
    exact (hblocking op hop).2

/-- A move of the lock's owner that changes the queue and does not end at a wait. -/
theorem inv_queue (s : State T V) (t : T) (p : Pc V) (que pushed removed : List V) (h : Inv s)
    (hfifo : ZqueueFifo.Inv ({ s with que_ := que, pushed := pushed, removed := removed }.goto t p))
    (hholds : (s.pc t).Holds) (ht : ¬ Waits (s.pc t)) (hp : ¬ Waits p) (hwoken : ¬ Woken p)
    (hblocking : ∀ op, p ≠ .blocking op) :
    Inv ({ s with que_ := que, pushed := pushed, removed := removed }.goto t p) where
  fifo := hfifo
  consumes u op hu := by
    by_cases hut : u = t
    · subst u
      have hu' : p = .blocking op ∨ p = .waiting op ∨ p = .woken op := by
        simpa [State.goto] using hu
      rcases hu' with hop | rfl | rfl
      · exact absurd hop (hblocking op)
      · exact absurd trivial hp
      · exact absurd trivial hwoken
    · exact h.consumes u op (by simpa [State.goto, hut] using hu)
  empty u op hu := by
    by_cases hut : u = t
    · subst u
      exact absurd (by simpa [State.goto] using hu) (hblocking op)
    · have hu' : s.pc u = .blocking op := by simpa [State.goto, hut] using hu
      have huholds : (s.pc u).Holds := by
        rw [hu']
        trivial
      exact absurd (h.fifo.guarded.unique huholds hholds) hut
  queued := h.queued.move t p (by simp [hp, ht])

/-- The emptiness test of a consumer. -/
theorem inv_test (s : State T V) (t : T) (op : Op V) (h : Inv s) (ht : ¬ Waits (s.pc t))
    (hop : Consumes op)
    (hfifo : ZqueueFifo.Inv (s.goto t (if s.que_ = [] then .blocking op else .removing op))) :
    Inv (s.goto t (if s.que_ = [] then .blocking op else .removing op)) := by
  apply inv_stay s s.monitor t _ h hfifo rfl ht
  · split <;> simp [Waits]
  · split <;> simp [Woken]
  · split
    · rename_i hque
      intro op' hop'
      cases hop'
      exact ⟨hop, hque⟩
    · simp

theorem inv_exec (s : State T V) (t : T) (op : Op V) (h : Inv s) (hpc : s.pc t = .inside op)
    (hfifo : ZqueueFifo.Inv (s.exec t op)) : Inv (s.exec t op) := by
  have ht : ¬ Waits (s.pc t) := by simp [hpc, Waits]
  have hholds : (s.pc t).Holds := by simp [hpc, Pc.Holds]
  cases op with
  | push v =>
    apply inv_queue s t _ _ _ s.removed h hfifo hholds ht
    · simp [Waits]
    · simp [Woken]
    · simp
  | pop => exact inv_test s t .pop h ht trivial hfifo
  | tryPop => exact inv_test s t .tryPop h ht trivial hfifo
  | count =>
    apply inv_stay s s.monitor t _ h hfifo rfl ht
    · simp [Waits]
    · simp [Woken]
    · simp
  | clear =>
    apply inv_stay s s.monitor t _ h hfifo rfl ht
    · split <;> simp [Waits]
    · split <;> simp [Woken]
    · split <;> simp

theorem inv_remove (s : State T V) (t : T) (op : Op V) (h : Inv s) (hpc : s.pc t = .removing op)
    (hfifo : ZqueueFifo.Inv (s.remove t op)) : Inv (s.remove t op) := by
  unfold State.remove at hfifo ⊢
  cases hque : s.que_ with
  | nil => exact absurd hque (h.fifo.nonempty t op hpc)
  | cons v rest =>
    simp only [hque] at hfifo ⊢
    apply inv_queue s t _ _ s.pushed _ h hfifo
    · simp [hpc, Pc.Holds]
    · simp [hpc, Waits]
    · cases op <;> simp [State.afterRemove, Waits]
    · cases op <;> simp [State.afterRemove, Woken]
    · cases op <;> simp [State.afterRemove]

theorem inv_wokenBy (s : State T V) (m m' : Monitor T) (choice : Option T) (h : Inv s)
    (hm : s.monitor = m) (hnotify : m.notifyOne choice = some m')
    (hfifo : ZqueueFifo.Inv ({ s with monitor := m' }.wokenBy choice)) :
    Inv ({ s with monitor := m' }.wokenBy choice) := by
  subst m
  cases choice with
  | none =>
    simp only [Monitor.notifyOne, Option.ite_none_right_eq_some, Option.some.injEq] at hnotify
    obtain ⟨_, rfl⟩ := hnotify
    exact h
  | some u =>
    obtain ⟨hmem, rfl⟩ := (Monitor.wake_eq_some s.monitor m' u).mp hnotify
    have hwaits : Waits (s.pc u) := (h.queued.mem_iff u).mp hmem
    cases hu : s.pc u with
    | waiting op =>
      simp only [State.wokenBy, hu] at hfifo ⊢
      apply inv_goto s _ u _ h hfifo
      · exact h.queued.quit u _ (by simp [Waits])
      · intro op' hop'
        have heq : op = op' := by simpa using hop'
        subst op'
        exact h.consumes u op (Or.inr (Or.inl hu))
      · simp
    | _ =>
      rw [hu] at hwaits
      exact absurd hwaits id

theorem step_inv (s : State T V) (a : Act T V) (s' : State T V) (hstep : step s a = some s')
    (h : Inv s) : Inv s' := by
  have hfifo := ZqueueFifo.step_inv s a s' hstep h.fifo
  cases step_move s a s' hstep with
  | call t op hpc =>
    exact inv_stay s s.monitor t _ h hfifo rfl (by simp [hpc, Waits]) (by simp [Waits])
      (by simp [Woken]) (by simp)
  | acquire t op hpc hfree =>
    apply inv_stay s _ t _ h hfifo rfl
    · rcases hpc with hpc | hpc <;> simp [hpc, Waits]
    · simp [Waits]
    · simp [Woken]
    · simp
  | timeout t hpc hfree =>
    apply inv_stay s _ t _ h hfifo rfl
    · rcases hpc with hpc | hpc <;> simp [hpc, Waits]
    · simp [Waits]
    · simp [Woken]
    · simp
  | exec t op hpc => exact inv_exec s t op h hpc hfifo
  | remove t op hpc => exact inv_remove s t op h hpc hfifo
  | block t op hpc hown =>
    apply inv_goto s _ t _ h hfifo
    · exact h.queued.join t _ trivial (by simp [hpc, Waits])
    · intro op' hop'
      have heq : op = op' := by simpa using hop'
      subst op'
      exact h.consumes t op (Or.inl hpc)
    · simp
  | spurious t op hpc hwait =>
    apply inv_goto s _ t _ h hfifo
    · exact h.queued.quit t _ (by simp [Waits])
    · intro op' hop'
      have heq : op = op' := by simpa using hop'
      subst op'
      exact h.consumes t op (Or.inr (Or.inl hpc))
    · simp
  | expire t hpc hwait =>
    apply inv_goto s _ t _ h hfifo
    · exact h.queued.quit t _ (by simp [Waits])
    · simp
    · simp
  | leave t op r hpc hown =>
    apply inv_stay s _ t _ h hfifo rfl
    · simp [hpc, Waits]
    · cases op <;> simp [State.afterLeave, Waits]
    · cases op <;> simp [State.afterLeave, Woken]
    · cases op <;> simp [State.afterLeave]
  | notify t choice m hpc hm =>
    have hreturn : Inv (s.goto t (.returned .done)) := by
      apply inv_stay s s.monitor t _ h _ rfl (by simp [hpc, Waits])
      · simp [Waits]
      · simp [Woken]
      · simp
      · exact ZqueueFifo.inv_stay s t _ h.fifo (fun hp => False.elim hp) (by simp)
    exact inv_wokenBy (s.goto t (.returned .done)) s.monitor m choice hreturn rfl hm hfifo
  | finish t r hpc =>
    exact inv_stay s s.monitor t _ h hfifo rfl (by simp [hpc, Waits]) (by simp [Waits])
      (by simp [Woken]) (by simp)

omit [DecidableEq T] in
theorem init_inv : Inv (init : State T V) where
  fifo := ZqueueFifo.init_inv
  consumes _ _ ht := by simp [init] at ht
  empty _ _ _ := rfl
  queued := ⟨List.nodup_nil, by simp [init, Monitor.init, Waits]⟩

theorem reachable_inv (s : State T V) (h : Reachable step init s) : Inv s :=
  reachable_invariant step_inv h init_inv

/-- A move that starts no wait and gives up no notification. -/
theorem announced_update (pc : T → Pc V) (t : T) (p : Pc V)
    (h : headcount Waits pc ≤ headcount Announces pc)
    (hwaits : Waits p → Waits (pc t)) (hannounces : Announces (pc t) → Announces p) :
    headcount Waits (Function.update pc t p) ≤ headcount Announces (Function.update pc t p) :=
  calc headcount Waits (Function.update pc t p)
      ≤ headcount Waits pc := headcount_update_le Waits pc t p hwaits
    _ ≤ headcount Announces pc := h
    _ ≤ headcount Announces (Function.update pc t p) :=
        headcount_le_update Announces pc t p hannounces

/-- A move of one thread that leaves the queue alone, starts no wait and gives up
neither a notification nor a way to an element. -/
theorem balanced_goto (s : State T V) (m : Monitor T) (t : T) (p : Pc V) (h : Balanced s)
    (hwaits : Waits p → Waits (s.pc t)) (hannounces : Announces (s.pc t) → Announces p)
    (hcovers : Covers (s.pc t) → Covers p) : Balanced ({ s with monitor := m }.goto t p) := by
  rcases h with hwait | hque
  · exact Or.inl (announced_update s.pc t p hwait hwaits hannounces)
  · exact Or.inr (hque.trans (headcount_le_update Covers s.pc t p hcovers))

omit [DecidableEq T] in
theorem balanced_of_empty (s : State T V) (h : s.que_ = []) : Balanced s := by
  right
  simp [h]

/-- The insertion of a push: one element more, and one notification more. -/
theorem balanced_push (s : State T V) (t : T) (v : V) (h : Balanced s)
    (hpc : s.pc t = .inside (.push v)) : Balanced (s.exec t (.push v)) := by
  have hcovers : ¬ Covers (s.pc t) := by simp [hpc, Covers, Announces, Woken, Takes, Consumes]
  have hleaving : Covers (Pc.leaving (.push v) .done) := Or.inl trivial
  rcases h with hwait | hque
  · exact Or.inl (announced_update s.pc t _ hwait (by simp [Waits]) fun _ => trivial)
  · right
    change ((s.que_ ++ [v]).length : ℕ∞) ≤ headcount Covers (Function.update s.pc t _)
    rw [headcount_update_enter Covers s.pc t _ hleaving hcovers]
    rw [List.length_append, List.length_singleton, Nat.cast_add, Nat.cast_one]
    exact (ENat.add_le_add_iff_right ENat.one_ne_top).mpr hque

/-- A consumer takes one element and is itself no longer on the way. -/
theorem balanced_take (s : State T V) (t : T) (op : Op V) (v : V) (rest : List V) (h : Balanced s)
    (hpc : s.pc t = .removing op) (hop : Consumes op) (hque : s.que_ = v :: rest) :
    Balanced (s.remove t op) := by
  have hcovers : Covers (s.pc t) := by
    rw [hpc]
    exact Or.inr (Or.inr hop)
  have hafter : State.afterRemove op v = .leaving op (.popped v) := by
    cases op <;> simp_all [Consumes, State.afterRemove]
  have hleave : ¬ Covers (Pc.leaving op (.popped v)) := by
    cases op <;> simp_all [Consumes, Covers, Announces, Woken, Takes]
  simp only [State.remove, hque, hafter]
  rcases h with hwait | hlength
  · exact Or.inl (announced_update s.pc t _ hwait (by simp [Waits]) (by simp [hpc, Announces]))
  · right
    change (rest.length : ℕ∞) ≤ headcount Covers (Function.update s.pc t _)
    rw [← headcount_update_leave Covers s.pc t (.leaving op (.popped v)) hleave hcovers, hque,
      List.length_cons, Nat.cast_add, Nat.cast_one] at hlength
    exact (ENat.add_le_add_iff_right ENat.one_ne_top).mp hlength

/-- clear drops an element and is not on the way to one. -/
theorem balanced_drop (s : State T V) (t : T) (op : Op V) (v : V) (rest : List V) (h : Balanced s)
    (hpc : s.pc t = .removing op) (hop : ¬ Consumes op) (hque : s.que_ = v :: rest) :
    Balanced (s.remove t op) := by
  have hcovers : ¬ Covers (s.pc t) := by simpa [hpc, Covers, Announces, Woken, Takes] using hop
  have hgoto : Balanced (s.goto t (State.afterRemove op v)) := by
    apply balanced_goto s s.monitor t _ h
    · cases op <;> simp [State.afterRemove, Waits]
    · simp [hpc, Announces]
    · exact fun ht => absurd ht hcovers
  simp only [State.remove, hque]
  rcases hgoto with hwait | hlength
  · exact Or.inl hwait
  · right
    apply le_trans _ hlength
    change (rest.length : ℕ∞) ≤ s.que_.length
    rw [hque]
    exact_mod_cast Nat.le_succ rest.length

theorem balanced_remove (s : State T V) (t : T) (op : Op V) (hinv : Inv s) (h : Balanced s)
    (hpc : s.pc t = .removing op) : Balanced (s.remove t op) := by
  obtain ⟨v, rest, hque⟩ := List.exists_cons_of_ne_nil (hinv.fifo.nonempty t op hpc)
  by_cases hop : Consumes op
  · exact balanced_take s t op v rest h hpc hop hque
  · exact balanced_drop s t op v rest h hpc hop hque

/-- The emptiness test: a consumer that turns to waiting has seen no element. -/
theorem balanced_test (s : State T V) (t : T) (op : Op V) (h : Balanced s)
    (hpc : s.pc t = .inside op) (hop : Consumes op) :
    Balanced (s.goto t (if s.que_ = [] then .blocking op else .removing op)) := by
  by_cases hque : s.que_ = []
  · exact balanced_of_empty _ hque
  · rw [if_neg hque]
    apply balanced_goto s s.monitor t _ h
    · simp [Waits]
    · simp [hpc, Announces]
    · exact fun _ => Or.inr (Or.inr hop)

theorem balanced_exec (s : State T V) (t : T) (op : Op V) (h : Balanced s)
    (hpc : s.pc t = .inside op) : Balanced (s.exec t op) := by
  cases op with
  | push v => exact balanced_push s t v h hpc
  | pop => exact balanced_test s t .pop h hpc trivial
  | tryPop => exact balanced_test s t .tryPop h hpc trivial
  | count =>
    apply balanced_goto s s.monitor t _ h
    · simp [Waits]
    · simp [hpc, Announces]
    · simp [hpc, Covers, Announces, Woken, Takes, Consumes]
  | clear =>
    apply balanced_goto s s.monitor t _ h
    · split <;> simp [Waits]
    · simp [hpc, Announces]
    · simp [hpc, Covers, Announces, Woken, Takes, Consumes]

/-- A woken consumer leaves by its deadline. -/
theorem balanced_timeout (s : State T V) (m : Monitor T) (t : T)
    (hpc : s.pc t = .woken .tryPop)
    (hcovered : headcount Waits s.pc ≤ headcount Announces s.pc ∨
      s.que_.length < headcount Covers s.pc) :
    Balanced ({ s with monitor := m }.goto t (.leaving .tryPop .gaveUp)) := by
  have hcovers : Covers (s.pc t) := by
    rw [hpc]
    exact Or.inr (Or.inl trivial)
  have hleave : ¬ Covers (Pc.leaving .tryPop .gaveUp : Pc V) := by
    simp [Covers, Announces, Woken, Takes]
  rcases hcovered with hwait | hlength
  · exact Or.inl (announced_update s.pc t _ hwait (by simp [Waits]) (by simp [hpc, Announces]))
  · right
    rw [← headcount_update_leave Covers s.pc t _ hleave hcovers] at hlength
    exact ENat.natCast_lt_add_one_iff.mp hlength

/-- A notification handed to a waiting consumer: one thread comes off the way and
another one sets out. -/
theorem covers_handover (pc : T → Pc V) (t u : T) (op : Op V) (hut : u ≠ t)
    (ht : pc t = .notifying) (hu : pc u = .waiting op) :
    headcount Covers (Function.update (Function.update pc t (.returned .done)) u (.woken op)) =
      headcount Covers pc := by
  calc headcount Covers (Function.update (Function.update pc t (.returned .done)) u (.woken op))
      = headcount Covers (Function.update pc t (.returned .done)) + 1 := by
        apply headcount_update_enter
        · exact Or.inr (Or.inl trivial)
        · simp [Function.update_of_ne hut, hu, Covers, Announces, Woken, Takes]
    _ = headcount Covers pc := by
        apply headcount_update_leave
        · simp [Covers, Announces, Woken, Takes]
        · simp [ht, Covers, Announces]

/-- The same notification: one waiting consumer less and one announcement less. -/
theorem announced_handover (pc : T → Pc V) (t u : T) (op : Op V) (hut : u ≠ t)
    (ht : pc t = .notifying) (hu : pc u = .waiting op)
    (h : headcount Waits pc ≤ headcount Announces pc) :
    headcount Waits (Function.update (Function.update pc t (.returned .done)) u (.woken op)) ≤
      headcount Announces (Function.update (Function.update pc t (.returned .done)) u (.woken op)) := by
  have hwaits : headcount Waits (Function.update (Function.update pc t (.returned .done)) u
      (.woken op)) + 1 = headcount Waits pc := by
    rw [headcount_update_leave Waits _ u _ (by simp [Waits])
      (by simp [Function.update_of_ne hut, hu, Waits])]
    exact headcount_update_same Waits pc t _ (by simp [ht, Waits])
  have hannounces : headcount Announces (Function.update (Function.update pc t (.returned .done)) u
      (.woken op)) + 1 = headcount Announces pc := by
    rw [headcount_update_same Announces _ u _
      (by simp [Function.update_of_ne hut, hu, Announces])]
    exact headcount_update_leave Announces pc t _ (by simp [Announces]) (by simp [ht, Announces])
  rw [← hwaits, ← hannounces] at h
  exact (ENat.add_le_add_iff_right ENat.one_ne_top).mp h

/-- The notification of a push goes to a waiting consumer, or nobody waits. -/
theorem balanced_notify (s : State T V) (m : Monitor T) (t : T) (choice : Option T) (hinv : Inv s)
    (h : Balanced s) (hpc : s.pc t = .notifying) (hm : s.monitor.notifyOne choice = some m) :
    Balanced (({ s with monitor := m }.goto t (.returned .done)).wokenBy choice) := by
  cases choice with
  | none =>
    simp only [Monitor.notifyOne, Option.ite_none_right_eq_some, Option.some.injEq] at hm
    have hnone : ∀ u, ¬ Waits (Function.update s.pc t (.returned .done) u) := by
      intro u
      by_cases hut : u = t
      · subst u
        simp [Waits]
      · rw [Function.update_of_ne hut, ← hinv.queued.mem_iff u, hm.1]
        simp
    left
    change headcount Waits (Function.update s.pc t _) ≤ headcount Announces (Function.update s.pc t _)
    rw [headcount_eq_zero Waits _ hnone]
    exact zero_le
  | some u =>
    obtain ⟨hmem, rfl⟩ := (Monitor.wake_eq_some s.monitor m u).mp hm
    have hwaits : Waits (s.pc u) := (hinv.queued.mem_iff u).mp hmem
    cases hu : s.pc u with
    | waiting op =>
      have hut : u ≠ t := by
        intro heq
        rw [heq, hpc] at hu
        cases hu
      have hgoto : ∀ m' : Monitor T, ({ s with monitor := m' }.goto t (.returned .done)).wokenBy
          (some u) = ({ s with monitor := m' }.goto t (.returned .done)).goto u (.woken op) := by
        intro m'
        simp [State.wokenBy, State.goto, Function.update_of_ne hut, hu]
      rw [hgoto]
      rcases h with hwait | hlength
      · exact Or.inl (announced_handover s.pc t u op hut hpc hu hwait)
      · right
        exact hlength.trans (covers_handover s.pc t u op hut hpc hu).ge
    | _ =>
      rw [hu] at hwaits
      exact absurd hwaits id

theorem step_balanced (s : State T V) (a : Act T V) (s' : State T V) (hstep : step s a = some s')
    (hinv : Inv s) (hcovered : Covered s a) (h : Balanced s) : Balanced s' := by
  cases step_move s a s' hstep with
  | call t op hpc =>
    apply balanced_goto s s.monitor t _ h
    · simp [Waits]
    · simp [hpc, Announces]
    · simp [hpc, Covers, Announces, Woken, Takes]
  | acquire t op hpc hfree =>
    apply balanced_goto s _ t _ h
    · simp [Waits]
    · rcases hpc with hpc | hpc <;> simp [hpc, Announces]
    · rcases hpc with hpc | hpc
      · simp [hpc, Covers, Announces, Woken, Takes]
      · exact fun _ => Or.inr (Or.inr (hinv.consumes t op (Or.inr (Or.inr hpc))))
  | timeout t hpc hfree =>
    rcases hpc with hpc | hpc
    · exact balanced_timeout s _ t hpc (hcovered t rfl hpc)
    · apply balanced_goto s _ t _ h
      · simp [Waits]
      · simp [hpc, Announces]
      · simp [hpc, Covers, Announces, Woken, Takes]
  | exec t op hpc => exact balanced_exec s t op h hpc
  | remove t op hpc => exact balanced_remove s t op hinv h hpc
  | block t op hpc hown => exact balanced_of_empty _ (hinv.empty t op hpc)
  | spurious t op hpc hwait =>
    apply balanced_goto s _ t _ h
    · simp [Waits]
    · simp [hpc, Announces]
    · exact fun _ => Or.inr (Or.inl trivial)
  | expire t hpc hwait =>
    apply balanced_goto s _ t _ h
    · simp [Waits]
    · simp [hpc, Announces]
    · simp [hpc, Covers, Announces, Woken, Takes]
  | leave t op r hpc hown =>
    apply balanced_goto s _ t _ h
    · cases op <;> simp [State.afterLeave, Waits]
    · cases op <;> simp [State.afterLeave, hpc, Announces]
    · cases op <;> simp [State.afterLeave, hpc, Covers, Announces, Woken, Takes]
  | notify t choice m hpc hm => exact balanced_notify s m t choice hinv h hpc hm
  | finish t r hpc =>
    apply balanced_goto s s.monitor t _ h
    · simp [Waits]
    · simp [hpc, Announces]
    · simp [hpc, Covers, Announces, Woken, Takes]

/-- In every run in which a woken try_pop times out only where others cover it,
no state has an element and a waiting consumer that nobody will bring together. -/
theorem along_not_lostWakeup (actions : List (Act T V))
    (hcovered : Meets step Covered (init : State T V) actions) :
    Along step (fun s => ¬ LostWakeup s) (init : State T V) actions := by
  have hkeep : ∀ (s : State T V) a s', step s a = some s' → Covered s a →
      Inv s ∧ Balanced s → Inv s' ∧ Balanced s' := by
    intro s a s' hstep ha h
    obtain ⟨hinv, hbalanced⟩ := h
    exact ⟨step_inv s a s' hstep hinv, step_balanced s a s' hstep hinv ha hbalanced⟩
  have hinit : Inv (init : State T V) ∧ Balanced (init : State T V) :=
    ⟨init_inv, balanced_of_empty _ rfl⟩
  exact (along_of_meets hkeep init actions hinit hcovered).mono
    fun s hs => not_lostWakeup_of_balanced s hs.2

/-- A notified try_pop times out while nobody else waits. -/
theorem along_not_lostWakeup_alone :
    let notified : List (Act (Fin 2) ℕ) :=
      [.call 0 .tryPop, .acquire 0, .exec 0, .block 0, .call 1 (.push 7), .acquire 1, .exec 1,
        .leave 1, .notify 1 (some 0)]
    Meets step Covered init (notified ++ [.timeout 0]) ∧
      Along step (fun s => ¬ LostWakeup s) (init : State (Fin 2) ℕ) (notified ++ [.timeout 0]) := by
  intro notified
  have hrun : ∃ s : State (Fin 2) ℕ, run step init notified = some s ∧
      s.pc 0 = .woken .tryPop ∧ s.pc 1 = .returned .done := ⟨_, rfl, rfl, rfl⟩
  obtain ⟨s, hs, h0, h1⟩ := hrun
  have hnone : ∀ t, ¬ Waits (s.pc t) := by
    intro t
    fin_cases t <;> simp [h0, h1, Waits]
  have hmeets : Meets step Covered (init : State (Fin 2) ℕ) (notified ++ [.timeout 0]) := by
    rw [meets_append]
    constructor
    · apply meets_of_forall
      simp [notified, Covered]
    · intro s' hs'
      have heq : s = s' := Option.some.inj (hs.symm.trans hs')
      subst s'
      intro u _
      refine ⟨fun v _ _ => Or.inl ?_, trivial⟩
      rw [headcount_eq_zero Waits s.pc hnone]
      exact zero_le
  exact ⟨hmeets, along_not_lostWakeup _ hmeets⟩

/-- A notified try_pop leaves by its deadline; the element stays behind with a pop
still waiting, the lock free and every other call finished. -/
theorem lostWakeup_reachable :
    ∃ s : State (Fin 3) ℕ, Reachable step init s ∧ s.monitor.owner = none ∧ LostWakeup s := by
  have hrun : ∃ s : State (Fin 3) ℕ, run step init
      [.call 0 .tryPop, .acquire 0, .exec 0, .block 0, .call 1 .pop, .acquire 1, .exec 1, .block 1,
        .call 2 (.push 7), .acquire 2, .exec 2, .leave 2, .notify 2 (some 0), .finish 2,
        .timeout 0, .leave 0, .finish 0] = some s ∧
      s.que_ = [7] ∧ s.monitor.owner = none ∧ s.pc 0 = .idle ∧ s.pc 1 = .waiting .pop ∧
        s.pc 2 = .idle := ⟨_, rfl, rfl, rfl, rfl, rfl, rfl⟩
  obtain ⟨s, hs, hque, howner, h0, h1, h2⟩ := hrun
  refine ⟨s, ⟨_, hs⟩, howner, ?_⟩
  constructor
  · simp [hque]
  · exact ⟨1, by simp [h1, Waits]⟩
  · intro t
    fin_cases t <;> simp [h0, h1, h2, Announces]
  · intro t
    fin_cases t <;> simp [h0, h1, h2, Woken]
  · intro t
    fin_cases t <;> simp [h0, h1, h2, Takes]

/-- A try_pop that is about to return false, with the lock still held, leaves an
empty queue. -/
def GivesUpEmpty (s : State T V) : Prop :=
  ∀ t, s.pc t = .leaving .tryPop .gaveUp → s.que_ = []

/-- Of each thread: the queue was empty when the thread last left its wait, and no push
has inserted anything since. -/
def noteWake (s : State T V) (quiet : T → Bool) : Act T V → T → Bool
  | .spurious t => Function.update quiet t s.que_.isEmpty
  | .expire t => Function.update quiet t s.que_.isEmpty
  | .notify _ (some t) => Function.update quiet t s.que_.isEmpty
  | .exec t =>
      match s.pc t with
      | .inside (.push _) => fun _ => false
      | _ => quiet
  | _ => quiet

/-- A wait that reports its timeout was left on an empty queue, and no push has inserted
between that moment and the return of the mutex. -/
def QuietTimeout (p : State T V × (T → Bool)) (a : Act T V) : Prop :=
  ∀ t, a = .timeout t → p.2 t = true

theorem givesUpEmpty_goto (s : State T V) (m : Monitor T) (t : T) (p : Pc V)
    (h : GivesUpEmpty s) (hp : p = .leaving .tryPop .gaveUp → s.que_ = []) :
    GivesUpEmpty ({ s with monitor := m }.goto t p) := by
  intro u hu
  by_cases hut : u = t
  · subst u
    exact hp (by simpa [State.goto] using hu)
  · exact h u (by simpa [State.goto, hut] using hu)

/-- While one thread works on the queue no other thread can be giving up. -/
theorem givesUpEmpty_queue (s : State T V) (t : T) (p : Pc V) (que pushed removed : List V)
    (hinv : ZqueueFifo.Inv s) (hholds : (s.pc t).Holds) (hp : p ≠ .leaving .tryPop .gaveUp) :
    GivesUpEmpty ({ s with que_ := que, pushed := pushed, removed := removed }.goto t p) := by
  intro u hu
  by_cases hut : u = t
  · subst u
    exact absurd (by simpa [State.goto] using hu) hp
  · have hu' : s.pc u = .leaving .tryPop .gaveUp := by simpa [State.goto, hut] using hu
    have huholds : (s.pc u).Holds := by
      rw [hu']
      trivial
    exact absurd (hinv.guarded.unique huholds hholds) hut

theorem givesUpEmpty_exec (s : State T V) (t : T) (op : Op V) (hinv : ZqueueFifo.Inv s)
    (h : GivesUpEmpty s) (hpc : s.pc t = .inside op) : GivesUpEmpty (s.exec t op) := by
  have hholds : (s.pc t).Holds := by simp [hpc, Pc.Holds]
  cases op with
  | push v => exact givesUpEmpty_queue s t _ _ _ s.removed hinv hholds (by simp)
  | count => exact givesUpEmpty_goto s s.monitor t _ h (by simp)
  | _ =>
    apply givesUpEmpty_goto s s.monitor t _ h
    split <;> simp

theorem givesUpEmpty_remove (s : State T V) (t : T) (op : Op V) (hinv : ZqueueFifo.Inv s)
    (hpc : s.pc t = .removing op) : GivesUpEmpty (s.remove t op) := by
  obtain ⟨v, rest, hque⟩ := List.exists_cons_of_ne_nil (hinv.nonempty t op hpc)
  simp only [State.remove, hque]
  apply givesUpEmpty_queue s t _ _ s.pushed _ hinv
  · simp [hpc, Pc.Holds]
  · cases op <;> simp [State.afterRemove]

theorem step_givesUpEmpty (s : State T V) (a : Act T V) (s' : State T V)
    (hstep : step s a = some s') (hinv : ZqueueFifo.Inv s) (hok : ∀ t, a = .timeout t → s.que_ = [])
    (h : GivesUpEmpty s) : GivesUpEmpty s' := by
  cases step_move s a s' hstep with
  | call t op hpc => exact givesUpEmpty_goto s s.monitor t _ h (by simp)
  | acquire t op hpc hfree => exact givesUpEmpty_goto s _ t _ h (by simp)
  | timeout t hpc hfree => exact givesUpEmpty_goto s _ t _ h fun _ => hok t rfl
  | exec t op hpc => exact givesUpEmpty_exec s t op hinv h hpc
  | remove t op hpc => exact givesUpEmpty_remove s t op hinv hpc
  | block t op hpc hown => exact givesUpEmpty_goto s _ t _ h (by simp)
  | spurious t op hpc hwait => exact givesUpEmpty_goto s _ t _ h (by simp)
  | expire t hpc hwait => exact givesUpEmpty_goto s _ t _ h (by simp)
  | leave t op r hpc hown =>
    apply givesUpEmpty_goto s _ t _ h
    cases op <;> simp [State.afterLeave]
  | notify t choice m hpc hm =>
    have hreturn := givesUpEmpty_goto s m t (.returned .done) h (by simp)
    cases choice with
    | none => exact hreturn
    | some u =>
      simp only [State.wokenBy]
      split
      · exact givesUpEmpty_goto _ m u _ hreturn (by simp)
      · exact hreturn
  | finish t r hpc => exact givesUpEmpty_goto s s.monitor t _ h (by simp)

/-- An empty queue stays empty, or the step is the insertion of a push. -/
theorem que_of_step (s : State T V) (a : Act T V) (s' : State T V) (hstep : step s a = some s')
    (hempty : s.que_ = []) (hinsert : ∀ t v, a = .exec t → s.pc t ≠ .inside (.push v)) :
    s'.que_ = [] := by
  cases step_move s a s' hstep with
  | exec t op hpc =>
    cases op with
    | push v => exact absurd hpc (hinsert t v rfl)
    | _ => exact hempty
  | remove t op hpc =>
    simp only [State.remove, hempty]
  | notify t choice m hpc hm =>
    cases choice with
    | none => exact hempty
    | some u =>
      simp only [State.wokenBy]
      split <;> exact hempty
  | _ => exact hempty

/-- A thread is recorded as quiet only by a step that is no insertion. -/
theorem noteWake_eq_true (s : State T V) (quiet : T → Bool) (a : Act T V) (t : T)
    (h : noteWake s quiet a t = true) :
    (quiet t = true ∨ s.que_ = []) ∧ ∀ u v, a = .exec u → s.pc u ≠ .inside (.push v) := by
  have hleft : ∀ u, Function.update quiet u s.que_.isEmpty t = true →
      quiet t = true ∨ s.que_ = [] := by
    intro u hu
    by_cases htu : t = u
    · subst u
      exact Or.inr (by simpa using hu)
    · exact Or.inl (by simpa [htu] using hu)
  cases a with
  | spurious u => exact ⟨hleft u h, by simp⟩
  | expire u => exact ⟨hleft u h, by simp⟩
  | notify u choice =>
    cases choice with
    | none => exact ⟨Or.inl h, by simp⟩
    | some c => exact ⟨hleft c h, by simp⟩
  | exec u =>
    have hpush : ∀ v, s.pc u ≠ .inside (.push v) := by
      intro v hpc
      simp [noteWake, hpc] at h
    refine ⟨Or.inl (by simpa [noteWake, hpush] using h), ?_⟩
    rintro _ v ⟨rfl⟩
    exact hpush v
  | _ => exact ⟨Or.inl h, by simp⟩

/-- While a thread is recorded as quiet the queue is empty. -/
theorem step_quiet (s : State T V) (quiet : T → Bool) (a : Act T V) (s' : State T V)
    (hstep : step s a = some s') (h : ∀ t, quiet t = true → s.que_ = []) (t : T)
    (ht : noteWake s quiet a t = true) : s'.que_ = [] := by
  obtain ⟨hbefore, hinsert⟩ := noteWake_eq_true s quiet a t ht
  have hempty : s.que_ = [] := by
    rcases hbefore with hquiet | hempty
    · exact h t hquiet
    · exact hempty
  exact que_of_step s a s' hstep hempty hinsert

/-- try_pop gives up on an empty queue all along a run whose waits time out quietly. -/
theorem along_givesUpEmpty (actions : List (Act T V))
    (hquiet : Meets (noting step noteWake) QuietTimeout
      ((init : State T V), fun _ => false) actions) :
    Along step GivesUpEmpty (init : State T V) actions := by
  rw [← along_noting noteWake GivesUpEmpty init (fun _ => false)]
  have hkeep : ∀ (p : State T V × (T → Bool)) a q, noting step noteWake p a = some q →
      QuietTimeout p a →
      ZqueueFifo.Inv p.1 ∧ (∀ t, p.2 t = true → p.1.que_ = []) ∧ GivesUpEmpty p.1 →
      ZqueueFifo.Inv q.1 ∧ (∀ t, q.2 t = true → q.1.que_ = []) ∧ GivesUpEmpty q.1 := by
    rintro ⟨s, quiet⟩ a ⟨s', quiet'⟩ hnoting ha ⟨hinv, hempty, hs⟩
    obtain ⟨hstep, rfl⟩ := (noting_eq_some noteWake s s' quiet quiet' a).mp hnoting
    refine ⟨ZqueueFifo.step_inv s a s' hstep hinv, step_quiet s quiet a s' hstep hempty, ?_⟩
    exact step_givesUpEmpty s a s' hstep hinv (fun t ht => hempty t (ha t ht)) hs
  have hinit : ZqueueFifo.Inv (init : State T V) ∧
      (∀ t : T, (fun _ => false : T → Bool) t = true → (init : State T V).que_ = []) ∧
      GivesUpEmpty (init : State T V) :=
    ⟨ZqueueFifo.init_inv, by simp, by simp [GivesUpEmpty, init]⟩
  exact (along_of_meets hkeep _ actions hinit hquiet).mono fun p hp => hp.2.2

/-- A wait expires and gets the mutex back while a push stands before the lock. -/
theorem along_givesUpEmpty_expired :
    let expired : List (Act (Fin 2) ℕ) :=
      [.call 0 .tryPop, .acquire 0, .exec 0, .block 0, .call 1 (.push 7), .expire 0]
    let late : List (Act (Fin 2) ℕ) := [.leave 0, .acquire 1, .exec 1, .leave 1, .notify 1 none]
    (∃ s, run step init (expired ++ .timeout 0 :: late) = some s ∧
      s.pc 0 = .returned .gaveUp ∧ s.que_ = [7]) ∧
    Along step GivesUpEmpty (init : State (Fin 2) ℕ) (expired ++ .timeout 0 :: late) := by
  intro expired late
  refine ⟨⟨_, rfl, rfl, rfl⟩, along_givesUpEmpty _ ?_⟩
  have hrun : ∃ p : State (Fin 2) ℕ × (Fin 2 → Bool),
      run (noting step noteWake) (init, fun _ => false) expired = some p ∧ p.2 0 = true :=
    ⟨_, rfl, rfl⟩
  obtain ⟨p, hp, hquiet⟩ := hrun
  rw [meets_append]
  constructor
  · apply meets_of_forall
    simp [expired, QuietTimeout]
  · intro q hq
    obtain rfl := Option.some.inj (hp.symm.trans hq)
    intro q' _
    refine ⟨by simpa [QuietTimeout] using hquiet, meets_of_forall q' late ?_⟩
    simp [late, QuietTimeout]

/-- A push completes between the expiry of the wait and the return of the mutex. -/
theorem givesUpEmpty_fails :
    ∃ s : State (Fin 2) ℕ, Reachable step init s ∧
      s.pc 0 = .leaving .tryPop .gaveUp ∧ s.monitor.owner = some 0 ∧ s.que_ = [7] ∧
      ¬ GivesUpEmpty s := by
  have hrun : ∃ s : State (Fin 2) ℕ, run step init
      [.call 0 .tryPop, .acquire 0, .exec 0, .block 0, .call 1 (.push 7), .acquire 1, .expire 0,
        .exec 1, .leave 1, .notify 1 none, .timeout 0] = some s ∧
      s.pc 0 = .leaving .tryPop .gaveUp ∧ s.monitor.owner = some 0 ∧ s.que_ = [7] :=
    ⟨_, rfl, rfl, rfl, rfl⟩
  obtain ⟨s, hs, h0, howner, hque⟩ := hrun
  refine ⟨s, ⟨_, hs⟩, h0, howner, hque, ?_⟩
  intro h
  have hempty := h 0 h0
  simp [hque] at hempty

end JvmTrace.ZqueueWakeups
