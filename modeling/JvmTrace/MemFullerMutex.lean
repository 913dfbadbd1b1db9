import JvmTrace.MemFuller

/-!
Who has c_mutex_ of mem_fuller, over every run of pending and notify. The owner
is followed through its own moves: it either stands where its code gives the
mutex back, or, once it is in notify(true), at places from which it never does.
The broadcast of that branch returns with the mutex held, and from the moment it
took the mutex nobody can take it again.
-/
namespace JvmTrace.MemFullerMutex

open Monitors Runs MemFuller

/-- Executing inside pending or notify. -/
def Inside : Pc → Prop
  | .outside => False
  | .popping => False
  | _ => True

/-- Where the owner's own code gives the mutex back. -/
def Returns : Pc → Prop
  | .beforeWait => True
  | .unlocking => True
  | .signalling all => all = false
  | _ => False

/-- The places that do not need the mutex, the queue's calls included. -/
def Unlocked : Pc → Prop
  | .outside => True
  | .popping => True
  | .pushing => True
  | .pendingLock => True
  | .notifyLock _ => True
  | _ => False

/-- Where an owner never gives the mutex back. -/
def Keeps (p : Pc) : Prop := Unlocked p ∨ p = .signalling true ∨ p = .broadcasting

/-- How an owner can move while it has the mutex. -/
inductive Keeping : Pc → Pc → Prop
  | stay (p : Pc) : Keeping p p
  | signal (all : Bool) :
      Keeping (.signalling all) (if all then .broadcasting else .unlocking)
  | broadcast : Keeping .broadcasting .outside
  | elsewhere (p p' : Pc) (hp : Unlocked p) (hp' : Unlocked p') : Keeping p p'

theorem returns_keeping (p p' : Pc) (h : Keeping p p') (hp : Returns p) : Returns p' := by
  cases h with
  | stay => exact hp
  | signal all =>
    cases all with
    | false => trivial
    | true => cases hp
  | broadcast => exact False.elim hp
  | elsewhere _ _ hunlocked _ => cases p <;> first | exact False.elim hp | exact False.elim hunlocked

theorem keeps_keeping (p p' : Pc) (h : Keeping p p') (hp : Keeps p) : Keeps p' := by
  cases h with
  | stay => exact hp
  | signal all =>
    cases all with
    | false => simp [Keeps, Unlocked] at hp
    | true => exact Or.inr (Or.inr rfl)
  | broadcast => exact Or.inl trivial
  | elsewhere _ _ _ hunlocked => exact Or.inl hunlocked

theorem returns_or_keeps (p : Pc) (hwaiting : p ≠ .waiting) (hwoken : p ≠ .woken) :
    Returns p ∨ Keeps p := by
  cases p with
  | waiting => exact absurd rfl hwaiting
  | woken => exact absurd rfl hwoken
  | signalling all => cases all <;> simp [Returns, Keeps]
  | _ => simp [Returns, Keeps, Unlocked]

theorem not_returns_of_keeps (p : Pc) (h : Keeps p) : ¬ Returns p := by
  rcases h with hunlocked | rfl | rfl
  · cases p <;> simp_all [Unlocked, Returns]
  · simp [Returns]
  · simp [Returns]

variable {T : Type*} [DecidableEq T]

theorem wokenBy_owner (s : State T) (choice : Option T) :
    (s.wokenBy choice).monitor = s.monitor := by
  cases choice with
  | none => rfl
  | some c =>
    simp only [State.wokenBy]
    split <;> rfl

theorem wokenBy_pc (s : State T) (choice : Option T) (t : T) (ht : s.pc t ≠ .waiting) :
    (s.wokenBy choice).pc t = s.pc t := by
  cases choice with
  | none => rfl
  | some c =>
    simp only [State.wokenBy]
    split
    · rename_i hc
      have htc : t ≠ c := by
        rintro rfl
        exact ht hc
      simp [State.goto, htc]
    · rfl

theorem wokenBy_waiting (s : State T) (choice : Option T) (t : T) (ht : s.pc t = .waiting) :
    (s.wokenBy choice).pc t = .waiting ∨ (s.wokenBy choice).pc t = .woken := by
  cases choice with
  | none => exact Or.inl ht
  | some c =>
    simp only [State.wokenBy]
    split
    · by_cases htc : t = c
      · subst c
        exact Or.inr (by simp [State.goto])
      · exact Or.inl (by simpa [State.goto, htc] using ht)
    · exact Or.inl ht

theorem goto_keeping (s : State T) (t u : T) (p : Pc) (h : Keeping (s.pc u) p) :
    Keeping (s.pc t) ((s.goto u p).pc t) := by
  by_cases htu : t = u
  · subst u
    simpa [State.goto] using h
  · simpa [State.goto, htu] using Keeping.stay (s.pc t)

theorem goto_ne_waiting (s : State T) (t u : T) (p : Pc) (ht : s.pc t ≠ .waiting)
    (hp : p ≠ .waiting) : (s.goto u p).pc t ≠ .waiting := by
  by_cases htu : t = u
  · subst u
    simpa [State.goto] using hp
  · simpa [State.goto, htu] using ht

/-- A thread that has the mutex and does not wait keeps it by a move of its own
places, or gives it back where its code does. -/
theorem move_owner (s : State T) (a : Act T) (s' : State T) (h : Move s a s') (t : T)
    (hown : s.monitor.owner = some t) (hwaiting : s.pc t ≠ .waiting) :
    s'.monitor.owner = some t ∧ Keeping (s.pc t) (s'.pc t) ∨
      s'.monitor.owner = none ∧ Returns (s.pc t) := by
  cases h with
  | callTryPop u q hpc hq =>
    exact Or.inl ⟨hown, goto_keeping { s with queue_ := q } t u _
      (.elsewhere _ _ (by simp [hpc, Unlocked]) trivial)⟩
  | tryPopReturned u q hpc hq =>
    exact Or.inl ⟨hown, goto_keeping { s with queue_ := q } t u _
      (.elsewhere _ _ (by simp [hpc, Unlocked]) trivial)⟩
  | pending u tm q hpc hq =>
    exact Or.inl ⟨hown, goto_keeping { s with queue_ := q } t u _
      (.elsewhere _ _ (by simp [hpc, Unlocked]) trivial)⟩
  | queue a q hint hq => exact Or.inl ⟨hown, .stay _⟩
  | pushReturned u q hpc hq =>
    refine Or.inl ⟨hown, goto_keeping { s with queue_ := q } t u _
      (.elsewhere _ _ (by simp [hpc, Unlocked]) ?_)⟩
    split <;> trivial
  | lock u p hpc hfree =>
    rw [hfree] at hown
    cases hown
  | condWait u hpc hown' =>
    have hut : u = t := Option.some.inj (hown'.symm.trans hown)
    subst u
    exact Or.inr ⟨rfl, by simp [hpc, Returns]⟩
  | spurious u hpc hwait =>
    have htu : t ≠ u := by
      rintro rfl
      exact hwaiting hpc
    refine Or.inl ⟨hown, ?_⟩
    simpa [State.goto, htu] using Keeping.stay (s.pc t)
  | unlock u hpc hown' =>
    have hut : u = t := Option.some.inj (hown'.symm.trans hown)
    subst u
    exact Or.inr ⟨rfl, by simp [hpc, Returns]⟩
  | notify u all hpc =>
    exact Or.inl ⟨hown, goto_keeping s t u _ (.elsewhere _ _ (by simp [hpc, Unlocked]) trivial)⟩
  | signal u all choice m hpc hm =>
    left
    have hgoto := goto_ne_waiting { s with monitor := m } t u
      (if all then .broadcasting else .unlocking) hwaiting (by split <;> simp)
    constructor
    · rw [wokenBy_owner]
      exact (Monitor.notifyOne_owner s.monitor m choice hm).trans hown
    · rw [wokenBy_pc _ choice t hgoto]
      apply goto_keeping { s with monitor := m } t u
      rw [hpc]
      exact .signal all
  | broadcast u hpc =>
    left
    have hgoto := goto_ne_waiting { s with monitor := s.monitor.notifyAll } t u .outside hwaiting
      (by simp)
    refine ⟨hown, ?_⟩
    simp only [State.wokenAll, if_neg hgoto]
    apply goto_keeping { s with monitor := s.monitor.notifyAll } t u
    rw [hpc]
    exact .broadcast

/-- The mutex gets an owner only by that thread's lock. -/
theorem move_acquired (s : State T) (a : Act T) (s' : State T) (h : Move s a s') (t : T)
    (hown : s'.monitor.owner = some t) :
    s.monitor.owner = some t ∨ a = .lock t ∧ afterLock (s.pc t) = some (s'.pc t) := by
  cases h with
  | lock u p hpc hfree =>
    have hut : u = t := Option.some.inj hown
    subst u
    exact Or.inr ⟨rfl, by simpa [State.goto] using hpc⟩
  | condWait u hpc hown' => cases hown
  | unlock u hpc hown' => cases hown
  | signal u all choice m hpc hm =>
    left
    rw [wokenBy_owner] at hown
    exact (Monitor.notifyOne_owner s.monitor m choice hm).symm.trans hown
  | _ => exact Or.inl hown

/-- The places where the code has the mutex. -/
def Holds : Pc → Prop
  | .beforeWait => True
  | .unlocking => True
  | .signalling _ => True
  | .broadcasting => True
  | _ => False

theorem holds_wokenBy (s : State T) (choice : Option T) (t : T)
    (h : Holds ((s.wokenBy choice).pc t)) : Holds (s.pc t) := by
  by_cases hwaiting : s.pc t = .waiting
  · rcases wokenBy_waiting s choice t hwaiting with hpc | hpc
    · rw [hpc] at h
      exact False.elim h
    · rw [hpc] at h
      exact False.elim h
  · rwa [wokenBy_pc s choice t hwaiting] at h

/-- Whoever stands where the code has the mutex is its owner. -/
theorem step_guarded (s : State T) (a : Act T) (s' : State T) (hstep : step s a = some s')
    (h : Guarded Holds s.monitor.owner s.pc) : Guarded Holds s'.monitor.owner s'.pc := by
  cases step_move s a s' hstep with
  | callTryPop t q hpc hq => exact h.move t _ False.elim
  | tryPopReturned t q hpc hq => exact h.move t _ False.elim
  | pending t tm q hpc hq => exact h.move t _ False.elim
  | queue a q hint hq => exact h
  | pushReturned t q hpc hq =>
    apply h.move t
    split <;> exact False.elim
  | lock t p hpc hfree =>
    rw [hfree] at h
    exact h.acquire t p
  | condWait t hpc hown =>
    rw [hown] at h
    exact h.release _ id
  | spurious t hpc hwait => exact h.move t _ False.elim
  | unlock t hpc hown =>
    rw [hown] at h
    exact h.release _ id
  | notify t all hpc => exact h.move t _ False.elim
  | signal t all choice m hpc hm =>
    intro u hu
    rw [wokenBy_owner]
    change m.owner = some u
    rw [Monitor.notifyOne_owner s.monitor m choice hm]
    apply h.move t (if all then .broadcasting else .unlocking) _ u (holds_wokenBy _ choice u hu)
    simp [hpc, Holds]
  | broadcast t hpc =>
    intro u hu
    simp only [State.wokenAll] at hu
    split at hu
    · exact False.elim hu
    · exact h.move t .outside False.elim u hu

/-- A thread's own moves. -/
inductive Turn (t : T) : Act T → Pc → Pc → Prop
  | callTryPop : Turn t (.callTryPop t) .outside .popping
  | tryPopReturned : Turn t (.tryPopReturned t) .popping .outside
  | pending (tm : UInt64) : Turn t (.pending t tm) .outside .pushing
  | pushReturned (traced : Bool) :
      Turn t (.pushReturned t) .pushing (if traced then .outside else .pendingLock)
  | lock (p p' : Pc) (h : afterLock p = some p') : Turn t (.lock t) p p'
  | condWait : Turn t (.condWait t) .beforeWait .waiting
  | spurious : Turn t (.spurious t) .waiting .woken
  | unlock : Turn t (.unlock t) .unlocking .outside
  | notify (all : Bool) : Turn t (.notify t all) .outside (.notifyLock all)
  | signal (all : Bool) (choice : Option T) :
      Turn t (.signal t choice) (.signalling all) (if all then .broadcasting else .unlocking)
  | broadcast : Turn t (.broadcast t) .broadcasting .outside

/-- A thread moves by its own steps; all another thread does to it is to wake it. -/
def Moves (t : T) (a : Act T) (p p' : Pc) : Prop :=
  p' = p ∨ p = .waiting ∧ p' = .woken ∨ Turn t a p p'

theorem goto_moves (s : State T) (a : Act T) (t u : T) (p : Pc) (h : Turn u a (s.pc u) p) :
    Moves t a (s.pc t) ((s.goto u p).pc t) := by
  by_cases htu : t = u
  · subst u
    right
    right
    simpa [State.goto] using h
  · left
    simp [State.goto, htu]

theorem move_moves (s : State T) (a : Act T) (s' : State T) (h : Move s a s') (t : T) :
    Moves t a (s.pc t) (s'.pc t) := by
  cases h with
  | callTryPop u q hpc hq =>
    exact goto_moves { s with queue_ := q } _ t u _ (by simpa only [hpc] using .callTryPop)
  | tryPopReturned u q hpc hq =>
    exact goto_moves { s with queue_ := q } _ t u _ (by simpa only [hpc] using .tryPopReturned)
  | pending u tm q hpc hq =>
    exact goto_moves { s with queue_ := q } _ t u _ (by simpa only [hpc] using .pending tm)
  | queue a q hint hq => exact Or.inl rfl
  | pushReturned u q hpc hq =>
    exact goto_moves { s with queue_ := q } _ t u _
      (by simpa only [hpc] using .pushReturned (s.stack_trace_ u))
  | lock u p hpc hfree => exact goto_moves { s with monitor := _ } _ t u _ (.lock _ p hpc)
  | condWait u hpc hown =>
    exact goto_moves { s with monitor := _ } _ t u _ (by simpa only [hpc] using .condWait)
  | spurious u hpc hwait =>
    exact goto_moves { s with monitor := _ } _ t u _ (by simpa only [hpc] using .spurious)
  | unlock u hpc hown =>
    exact goto_moves { s with monitor := _ } _ t u _ (by simpa only [hpc] using .unlock)
  | notify u all hpc => exact goto_moves s _ t u _ (by simpa only [hpc] using .notify all)
  | signal u all choice m hpc hm =>
    have hturn := goto_moves { s with monitor := m } (.signal u choice) t u
      (if all then .broadcasting else .unlocking) (by simpa only [hpc] using .signal all choice)
    by_cases hwaiting : ({ s with monitor := m }.goto u
        (if all then .broadcasting else .unlocking)).pc t = .waiting
    · have hpct : s.pc t = .waiting := by
        by_cases htu : t = u
        · subst u
          cases all <;> simp [State.goto] at hwaiting
        · simpa [State.goto, htu] using hwaiting
      rcases wokenBy_waiting _ choice t hwaiting with hwait | hwoken
      · exact Or.inl (hwait.trans hpct.symm)
      · exact Or.inr (Or.inl ⟨hpct, hwoken⟩)
    · rw [wokenBy_pc _ choice t hwaiting]
      exact hturn
  | broadcast u hpc =>
    have hturn := goto_moves { s with monitor := s.monitor.notifyAll } (.broadcast u) t u
      .outside (by simpa only [hpc] using .broadcast)
    simp only [State.wokenAll]
    split
    · rename_i hwaiting
      by_cases htu : t = u
      · subst u
        simp [State.goto] at hwaiting
      · exact Or.inr (Or.inl ⟨by simpa [State.goto, htu] using hwaiting, rfl⟩)
    · exact hturn

/-- Nobody but the callers of notify(true) is at its lock. -/
theorem step_notifyLock (s : State T) (a : Act T) (s' : State T) (hstep : step s a = some s')
    (ha : ∀ t, a ≠ .notify t true) (h : ∀ t, s.pc t ≠ .notifyLock true) (t : T) :
    s'.pc t ≠ .notifyLock true := by
  intro hlock
  have hmoves := move_moves s a s' (step_move s a s' hstep) t
  rw [hlock] at hmoves
  rcases hmoves with heq | ⟨_, hwoken⟩ | hturn
  · exact h t heq.symm
  · cases hwoken
  · generalize s.pc t = p at hturn
    generalize hp' : Pc.notifyLock true = p' at hturn
    cases hturn with
    | notify all =>
      cases hp'
      exact ha t rfl
    | lock p p' hafter =>
      subst hp'
      cases p <;> simp [afterLock] at hafter
    | pushReturned traced => cases traced <;> cases hp'
    | signal all choice => cases all <;> cases hp'
    | _ => cases hp'

/-- The owner is awake. -/
def Awake (s : State T) : Prop :=
  ∀ t, s.monitor.owner = some t → s.pc t ≠ .waiting ∧ s.pc t ≠ .woken

theorem afterLock_awake (p p' : Pc) (h : afterLock p = some p') : p' ≠ .waiting ∧ p' ≠ .woken := by
  cases p <;> simp [afterLock] at h <;> subst h <;> simp

theorem keeping_awake (p p' : Pc) (h : Keeping p p') (hp : p ≠ .waiting ∧ p ≠ .woken) :
    p' ≠ .waiting ∧ p' ≠ .woken := by
  cases h with
  | stay => exact hp
  | signal all => cases all <;> simp
  | broadcast => simp
  | elsewhere _ _ _ hunlocked =>
    constructor
    · rintro rfl
      exact hunlocked
    · rintro rfl
      exact hunlocked

theorem step_awake (s : State T) (a : Act T) (s' : State T) (hstep : step s a = some s')
    (h : Awake s) : Awake s' := by
  intro t hown
  have hmove := step_move s a s' hstep
  rcases move_acquired s a s' hmove t hown with hown' | ⟨_, hlock⟩
  · rcases move_owner s a s' hmove t hown' (h t hown').1 with ⟨_, hkeeping⟩ | ⟨hnone, _⟩
    · exact keeping_awake _ _ hkeeping (h t hown')
    · rw [hnone] at hown
      cases hown
  · exact afterLock_awake _ _ hlock

/-- Some run from here frees the mutex for the next caller. -/
def CanBeFreed (s : State T) : Prop :=
  ∃ actions s', run step s actions = some s' ∧ s'.monitor.owner = none

/-- Whoever has the mutex is inside pending or notify, and the mutex can be had again. -/
structure GivenBack (s : State T) : Prop where
  inside : ∀ t, s.monitor.owner = some t → Inside (s.pc t)
  freed : CanBeFreed s

/-- notify(true) does not get the mutex. -/
def NotAll (s : State T) (a : Act T) : Prop :=
  ∀ t, a = .lock t → s.pc t ≠ .notifyLock true

/-- The owner stands where its code gives the mutex back. -/
def Returning (s : State T) : Prop :=
  ∀ t, s.monitor.owner = some t → Returns (s.pc t)

theorem canBeFreed_of_step (s s' : State T) (a : Act T) (hstep : step s a = some s')
    (h : CanBeFreed s') : CanBeFreed s := by
  obtain ⟨actions, t, hrun, hfree⟩ := h
  exact ⟨a :: actions, t, (run_cons_eq_some s t a actions).mpr ⟨s', hstep, hrun⟩, hfree⟩

theorem canBeFreed_of_free (s : State T) (h : s.monitor.owner = none) : CanBeFreed s :=
  ⟨[], s, rfl, h⟩

theorem canBeFreed_unlocking (s : State T) (t : T) (hpc : s.pc t = .unlocking)
    (hown : s.monitor.owner = some t) : CanBeFreed s := by
  have hstep : step s (.unlock t) =
      some ({ s with monitor := { s.monitor with owner := none } }.goto t .outside) := by
    simp [step, hpc, State.onMonitor, Monitor.release, hown]
  exact canBeFreed_of_step s _ _ hstep (canBeFreed_of_free _ rfl)

theorem canBeFreed_of_returning (s : State T) (h : Returning s) : CanBeFreed s := by
  cases hown : s.monitor.owner with
  | none => exact canBeFreed_of_free s hown
  | some t =>
    have hreturns := h t hown
    cases hpc : s.pc t with
    | beforeWait =>
      have hstep : step s (.condWait t) =
          some ({ s with monitor := ⟨none, s.monitor.waiters ++ [t]⟩ }.goto t .waiting) := by
        simp [step, hpc, State.onMonitor, Monitor.wait, hown]
      exact canBeFreed_of_step s _ _ hstep (canBeFreed_of_free _ rfl)
    | unlocking => exact canBeFreed_unlocking s t hpc hown
    | signalling all =>
      rw [hpc] at hreturns
      have hall : all = false := hreturns
      subst all
      obtain ⟨choice, m, hm⟩ := Monitor.notifyOne_enabled s.monitor
      have hstep : step s (.signal t choice) =
          some (({ s with monitor := m }.goto t .unlocking).wokenBy choice) := by
        simp [step, hpc, State.onMonitor, hm]
      apply canBeFreed_of_step s _ _ hstep
      apply canBeFreed_unlocking _ t
      · rw [wokenBy_pc _ choice t (by simp [State.goto])]
        simp [State.goto]
      · rw [wokenBy_owner]
        exact (Monitor.notifyOne_owner s.monitor m choice hm).trans hown
    | _ =>
      rw [hpc] at hreturns
      exact False.elim hreturns

/-- An owner that never gives the mutex back stays such an owner. -/
theorem step_kept (t : T) (s : State T) (a : Act T) (s' : State T) (hstep : step s a = some s')
    (h : s.monitor.owner = some t ∧ Keeps (s.pc t)) :
    s'.monitor.owner = some t ∧ Keeps (s'.pc t) := by
  obtain ⟨hown, hkeeps⟩ := h
  have hwaiting : s.pc t ≠ .waiting := by
    intro hpc
    rw [hpc] at hkeeps
    simp [Keeps, Unlocked] at hkeeps
  rcases move_owner s a s' (step_move s a s' hstep) t hown hwaiting with ⟨hown', hkeeping⟩ | ⟨_, hreturns⟩
  · exact ⟨hown', keeps_keeping _ _ hkeeping hkeeps⟩
  · exact absurd hreturns (not_returns_of_keeps _ hkeeps)

theorem not_canBeFreed_of_keeps (s : State T) (t : T) (hown : s.monitor.owner = some t)
    (hkeeps : Keeps (s.pc t)) : ¬ CanBeFreed s := by
  intro h
  obtain ⟨actions, s', hrun, hfree⟩ := h
  have hkept := run_invariant (step_kept t) hrun ⟨hown, hkeeps⟩
  rw [hfree] at hkept
  cases hkept.1

theorem returning_of_givenBack (s : State T) (hawake : Awake s) (h : GivenBack s) :
    Returning s := by
  intro t hown
  rcases returns_or_keeps (s.pc t) (hawake t hown).1 (hawake t hown).2 with hreturns | hkeeps
  · exact hreturns
  · exact absurd h.freed (not_canBeFreed_of_keeps s t hown hkeeps)

theorem givenBack_of_returning (s : State T) (h : Returning s) : GivenBack s where
  inside t hown := by
    have hreturns := h t hown
    cases hpc : s.pc t <;> simp_all [Returns, Inside]
  freed := canBeFreed_of_returning s h

theorem step_returning (s : State T) (a : Act T) (s' : State T) (hstep : step s a = some s')
    (hawake : Awake s) (hnotAll : NotAll s a) (h : Returning s) : Returning s' := by
  intro t hown
  have hmove := step_move s a s' hstep
  rcases move_acquired s a s' hmove t hown with hown' | ⟨rfl, hlock⟩
  · rcases move_owner s a s' hmove t hown' (hawake t hown').1 with ⟨_, hkeeping⟩ | ⟨hnone, _⟩
    · exact returns_keeping _ _ hkeeping (h t hown')
    · rw [hnone] at hown
      cases hown
  · have hne := hnotAll t rfl
    cases hpc : s.pc t with
    | notifyLock all =>
      rw [hpc] at hlock hne
      obtain rfl : all = false := by simpa using hne
      rw [← Option.some.inj hlock]
      rfl
    | pendingLock =>
      rw [hpc] at hlock
      rw [← Option.some.inj hlock]
      trivial
    | woken =>
      rw [hpc] at hlock
      rw [← Option.some.inj hlock]
      trivial
    | _ =>
      rw [hpc] at hlock
      cases hlock

/-- What holds of the mutex as long as notify(true) is not called. -/
structure Sound (s : State T) : Prop where
  awake : Awake s
  returning : Returning s
  guarded : Guarded Holds s.monitor.owner s.pc
  notAll : ∀ t, s.pc t ≠ .notifyLock true

theorem step_sound (s : State T) (a : Act T) (s' : State T) (hstep : step s a = some s')
    (ha : ∀ t, a ≠ .notify t true) (h : Sound s) : Sound s' where
  awake := step_awake s a s' hstep h.awake
  returning := step_returning s a s' hstep h.awake (fun t _ => h.notAll t) h.returning
  guarded := step_guarded s a s' hstep h.guarded
  notAll := step_notifyLock s a s' hstep ha h.notAll

omit [DecidableEq T] in
theorem init_sound (stack_trace_ : T → Bool) : Sound (init stack_trace_) where
  awake t hown := by cases hown
  returning t hown := by cases hown
  guarded t ht := False.elim ht
  notAll t ht := by cases ht

theorem notAll_of_step (s : State T) (a : Act T) (s' : State T) (hstep : step s a = some s')
    (h : Returning s') : NotAll s a := by
  rintro t rfl hpc
  cases step_move s _ s' hstep with
  | lock _ p hlock hfree =>
    rw [hpc] at hlock
    have hreturns := h t rfl
    simp [State.goto, ← Option.some.inj hlock, Returns] at hreturns

/-- c_mutex_ is given back all along a run exactly when no notify(true) of the run
gets it. -/
theorem along_givenBack_iff (stack_trace_ : T → Bool) (actions : List (Act T)) :
    Along step GivenBack (init stack_trace_) actions ↔
      Meets step NotAll (init stack_trace_) actions := by
  have hinit := init_sound stack_trace_
  apply along_iff_meets step_awake
  · intro s a s' hstep hawake hnotAll h
    exact givenBack_of_returning s'
      (step_returning s a s' hstep hawake hnotAll (returning_of_givenBack s hawake h))
  · intro s a s' hstep hawake _ h
    exact notAll_of_step s a s' hstep
      (returning_of_givenBack s' (step_awake s a s' hstep hawake) h)
  · exact hinit.awake
  · exact givenBack_of_returning _ hinit.returning

/-- After one notify(true) the mutex belongs to a thread that is outside, and no
later call can take it. -/
theorem notifyAll_keeps_mutex :
    ∃ s : State (Fin 2), Reachable step (init fun _ => false) s ∧ s.monitor.owner = some 0 ∧
      s.pc 0 = .outside ∧ ¬ GivenBack s ∧
      ∀ actions s', run step s actions = some s' → s'.monitor.owner = some 0 := by
  have hrun : ∃ s : State (Fin 2), run step (init fun _ => false)
      [.notify 0 true, .lock 0, .signal 0 none, .broadcast 0] = some s ∧
      s.monitor.owner = some 0 ∧ s.pc 0 = .outside := ⟨_, rfl, rfl, rfl⟩
  obtain ⟨s, hs, hown, hpc⟩ := hrun
  refine ⟨s, ⟨_, hs⟩, hown, hpc, ?_, ?_⟩
  · intro h
    have hinside := h.inside 0 hown
    rw [hpc] at hinside
    exact hinside
  · intro actions s' hs'
    have hkeeps : Keeps (s.pc 0) := by simp [hpc, Keeps, Unlocked]
    exact (run_invariant (step_kept 0) hs' ⟨hown, hkeeps⟩).1

end JvmTrace.MemFullerMutex
