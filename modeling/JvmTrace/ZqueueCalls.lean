import JvmTrace.Zqueue
import Mathlib.Data.List.Infix

/-!
Calls of the queue seen from the thread that makes them. An internal step keeps
every thread inside the call it is in, a thread outside any call stays outside,
and only a consumer's own removal moves a value out of the queue. Programs that
use the queue are built from its steps with these facts.
-/
namespace JvmTrace.ZqueueCalls

open Monitors Zqueue

variable {T V : Type*}

/-- The thread a step belongs to. -/
def actor : Act T V → T
  | .call t _ => t
  | .acquire t => t
  | .timeout t => t
  | .exec t => t
  | .remove t => t
  | .block t => t
  | .spurious t => t
  | .expire t => t
  | .leave t => t
  | .notify t _ => t
  | .finish t => t

/-- The step neither starts a call nor hands back its result. -/
def Internal : Act T V → Prop
  | .call _ _ => False
  | .finish _ => False
  | _ => True

instance : DecidablePred (Internal : Act T V → Prop)
  | .call _ _ => isFalse id
  | .finish _ => isFalse id
  | .acquire _ => isTrue trivial
  | .timeout _ => isTrue trivial
  | .exec _ => isTrue trivial
  | .remove _ => isTrue trivial
  | .block _ => isTrue trivial
  | .spurious _ => isTrue trivial
  | .expire _ => isTrue trivial
  | .leave _ => isTrue trivial
  | .notify _ _ => isTrue trivial

/-- The results a call can have. -/
def Returns : Op V → Result V → Prop
  | .push _, .done => True
  | .pop, .popped _ => True
  | .tryPop, .popped _ => True
  | .tryPop, .gaveUp => True
  | .count, .size _ => True
  | .clear, .done => True
  | _, _ => False

/-- The thread is inside a call of the operation, up to and including its return. -/
def During (op : Op V) : Pc V → Prop
  | .entering op' => op' = op
  | .inside op' => op' = op
  | .blocking op' => op' = op ∧ (op = .pop ∨ op = .tryPop)
  | .waiting op' => op' = op ∧ (op = .pop ∨ op = .tryPop)
  | .woken op' => op' = op ∧ (op = .pop ∨ op = .tryPop)
  | .expired => op = .tryPop
  | .removing op' => op' = op ∧ (op = .pop ∨ op = .tryPop ∨ op = .clear)
  | .leaving op' r => op' = op ∧ Returns op r
  | .notifying => ∃ v, op = .push v
  | .returned r => Returns op r
  | .idle => False

/-- The element a consumer has removed and not yet handed to its caller. -/
def held : Pc V → List V
  | .leaving _ (.popped v) => [v]
  | .returned (.popped v) => [v]
  | _ => []

/-- The places of a push after its insertion. -/
def Inserted : Pc V → Prop
  | .leaving _ _ => True
  | .notifying => True
  | .returned _ => True
  | _ => False

/-- The thread is in the wait that its call will give up after, or has given up. -/
def GivingUp : Pc V → Prop
  | .waiting .tryPop => True
  | .woken .tryPop => True
  | .expired => True
  | .leaving _ .gaveUp => True
  | .returned .gaveUp => True
  | _ => False

variable [DecidableEq T]

theorem goto_pc_self (s : State T V) (t : T) (p : Pc V) : (s.goto t p).pc t = p := by
  simp [State.goto]

theorem goto_pc_of_ne (s : State T V) (t u : T) (p : Pc V) (h : u ≠ t) :
    (s.goto t p).pc u = s.pc u := by
  simp [State.goto, h]

theorem wokenBy_pc (s : State T V) (choice : Option T) (u : T) :
    (s.wokenBy choice).pc u = s.pc u ∨
      ∃ op, s.pc u = .waiting op ∧ (s.wokenBy choice).pc u = .woken op := by
  cases choice with
  | none => exact Or.inl rfl
  | some c =>
    simp only [State.wokenBy]
    split
    · rename_i op hpc
      by_cases huc : u = c
      · subst u
        exact Or.inr ⟨op, hpc, goto_pc_self s c _⟩
      · exact Or.inl (goto_pc_of_ne s c u _ huc)
    · exact Or.inl rfl

/-- Another thread's step leaves a thread where it is, or wakes it. -/
theorem move_other (s : State T V) (a : Act T V) (s' : State T V) (h : Move s a s') (u : T)
    (hu : u ≠ actor a) :
    s'.pc u = s.pc u ∨ ∃ op, s.pc u = .waiting op ∧ s'.pc u = .woken op := by
  cases h with
  | exec t op hpc =>
    left
    cases op <;> exact goto_pc_of_ne _ t u _ hu
  | remove t op hpc =>
    left
    simp only [State.remove]
    split
    · rfl
    · exact goto_pc_of_ne _ t u _ hu
  | notify t choice m hpc hm =>
    have hgoto := goto_pc_of_ne { s with monitor := m } t u (.returned .done) hu
    rcases wokenBy_pc ({ s with monitor := m }.goto t (.returned .done)) choice u with
      heq | ⟨op, hwait, hwoken⟩
    · exact Or.inl (heq.trans hgoto)
    · exact Or.inr ⟨op, hgoto.symm.trans hwait, hwoken⟩
  | _ => exact Or.inl (goto_pc_of_ne _ _ u _ hu)

theorem idle_other (s : State T V) (a : Act T V) (s' : State T V) (h : Move s a s') (u : T)
    (hu : u ≠ actor a) (hidle : s.pc u = .idle) : s'.pc u = .idle := by
  rcases move_other s a s' h u hu with heq | ⟨op, hwait, _⟩
  · exact heq.trans hidle
  · rw [hidle] at hwait
    cases hwait

theorem during_other (s : State T V) (a : Act T V) (s' : State T V) (h : Move s a s') (u : T)
    (hu : u ≠ actor a) (op : Op V) (hduring : During op (s.pc u)) : During op (s'.pc u) := by
  rcases move_other s a s' h u hu with heq | ⟨op', hwait, hwoken⟩
  · rw [heq]
    exact hduring
  · rw [hwait] at hduring
    rw [hwoken]
    exact hduring

/-- The owner of mutex_ is inside its critical section. -/
theorem step_occupied (s : State T V) (a : Act T V) (s' : State T V) (hstep : step s a = some s')
    (h : Occupied Pc.Holds s.monitor.owner s.pc) : Occupied Pc.Holds s'.monitor.owner s'.pc := by
  cases step_move s a s' hstep with
  | call t op hpc => exact h.move t _ (by simp [hpc, Pc.Holds])
  | acquire t op hpc hfree => exact occupied_acquire t _ trivial
  | timeout t hpc hfree => exact occupied_acquire t _ trivial
  | exec t op hpc =>
    cases op with
    | push v => exact h.move t _ fun _ => trivial
    | count => exact h.move t _ fun _ => trivial
    | _ =>
      apply h.move t
      split <;> exact fun _ => trivial
  | remove t op hpc =>
    unfold State.remove
    split
    · exact h
    · apply h.move t
      cases op <;> exact fun _ => trivial
  | block t op hpc hown => exact occupied_none
  | spurious t op hpc hwait => exact h.move t _ (by simp [hpc, Pc.Holds])
  | expire t hpc hwait => exact h.move t _ (by simp [hpc, Pc.Holds])
  | leave t op r hpc hown => exact occupied_none
  | notify t choice m hpc hm =>
    have hreturn : Occupied Pc.Holds m.owner (Function.update s.pc t (.returned .done)) := by
      rw [Monitor.notifyOne_owner s.monitor m choice hm]
      exact h.move t _ (by simp [hpc, Pc.Holds])
    cases choice with
    | none => exact hreturn
    | some u =>
      simp only [State.wokenBy]
      split
      · rename_i op hu
        exact hreturn.move u _ fun hholds => by
          change ({ s with monitor := m }.goto t (.returned .done)).pc u |>.Holds at hholds
          rw [hu] at hholds
          exact hholds
      · exact hreturn
  | finish t r hpc => exact h.move t _ (by simp [hpc, Pc.Holds])

theorem step_call_eq_some (s s' : State T V) (t : T) (op : Op V)
    (h : step s (.call t op) = some s') : s.pc t = .idle ∧ s' = s.goto t (.entering op) := by
  cases step_move s _ s' h with
  | call t op hpc => exact ⟨hpc, rfl⟩

theorem step_finish_eq_some (s s' : State T V) (t : T) (h : step s (.finish t) = some s') :
    (∃ r, s.pc t = .returned r) ∧ s' = s.goto t .idle := by
  cases step_move s _ s' h with
  | finish t r hpc => exact ⟨⟨r, hpc⟩, rfl⟩

/-- A thread outside any call takes no internal step. -/
theorem internal_not_idle (s : State T V) (a : Act T V) (s' : State T V) (h : Move s a s')
    (hint : Internal a) : s.pc (actor a) ≠ .idle := by
  intro hidle
  cases h with
  | call t op hpc => exact hint
  | acquire t op hpc hfree =>
    rcases hpc with hpc | hpc <;> simp [actor, hpc] at hidle
  | timeout t hpc hfree =>
    rcases hpc with hpc | hpc <;> simp [actor, hpc] at hidle
  | finish t r hpc => exact hint
  | _ => simp_all [actor]

theorem during_exec (s : State T V) (t : T) (op op' : Op V) (hpc : s.pc t = .inside op')
    (h : During op (s.pc t)) : During op ((s.exec t op').pc t) := by
  rw [hpc] at h
  have hop : op' = op := h
  subst hop
  cases op' with
  | push v =>
    rw [State.exec, goto_pc_self]
    exact ⟨rfl, trivial⟩
  | pop =>
    rw [State.exec, goto_pc_self]
    split <;> simp [During]
  | tryPop =>
    rw [State.exec, goto_pc_self]
    split <;> simp [During]
  | count =>
    rw [State.exec, goto_pc_self]
    exact ⟨rfl, trivial⟩
  | clear =>
    rw [State.exec, goto_pc_self]
    split <;> simp [During, Returns]

theorem during_remove (s : State T V) (t : T) (op op' : Op V) (hpc : s.pc t = .removing op')
    (h : During op (s.pc t)) : During op ((s.remove t op').pc t) := by
  have hremoving := h
  rw [hpc] at hremoving
  obtain ⟨hop, hkind⟩ := hremoving
  subst hop
  simp only [State.remove]
  split
  · exact h
  · rw [goto_pc_self]
    rcases hkind with rfl | rfl | rfl <;> simp [State.afterRemove, During, Returns]

/-- An internal step of its own keeps the thread inside its call. -/
theorem during_self (s : State T V) (a : Act T V) (s' : State T V) (h : Move s a s')
    (hint : Internal a) (op : Op V) (hduring : During op (s.pc (actor a))) :
    During op (s'.pc (actor a)) := by
  cases h with
  | call t op' hpc => exact False.elim hint
  | acquire t op' hpc hfree =>
    simp only [actor, goto_pc_self] at hduring ⊢
    rcases hpc with hpc | hpc
    · rw [hpc] at hduring
      exact hduring
    · rw [hpc] at hduring
      exact hduring.1
  | timeout t hpc hfree =>
    simp only [actor, goto_pc_self] at hduring ⊢
    rcases hpc with hpc | hpc
    · rw [hpc] at hduring
      obtain ⟨hop, _⟩ := hduring
      subst hop
      exact ⟨rfl, trivial⟩
    · rw [hpc] at hduring
      have hop : op = .tryPop := hduring
      subst hop
      exact ⟨rfl, trivial⟩
  | exec t op' hpc => exact during_exec s t op op' hpc hduring
  | remove t op' hpc => exact during_remove s t op op' hpc hduring
  | block t op' hpc hown =>
    simp only [actor, goto_pc_self] at hduring ⊢
    rw [hpc] at hduring
    exact hduring
  | spurious t op' hpc hwait =>
    simp only [actor, goto_pc_self] at hduring ⊢
    rw [hpc] at hduring
    exact hduring
  | expire t hpc hwait =>
    simp only [actor, goto_pc_self] at hduring ⊢
    rw [hpc] at hduring
    exact hduring.1.symm
  | leave t op' r hpc hown =>
    simp only [actor, goto_pc_self] at hduring ⊢
    rw [hpc] at hduring
    obtain ⟨hop, hreturns⟩ := hduring
    subst hop
    cases op' with
    | push v => exact ⟨v, rfl⟩
    | _ => exact hreturns
  | notify t choice m hpc hm =>
    simp only [actor] at hduring ⊢
    rw [hpc] at hduring
    obtain ⟨v, hop⟩ := hduring
    subst hop
    have hgoto := goto_pc_self { s with monitor := m } t (.returned .done)
    rcases wokenBy_pc ({ s with monitor := m }.goto t (.returned .done)) choice t with
      heq | ⟨op, hwait, _⟩
    · rw [heq, hgoto]
      trivial
    · rw [hgoto] at hwait
      cases hwait
  | finish t r hpc => exact False.elim hint

/-- Values leave the queue only by a removal of the step's own thread. -/
theorem move_removed (s : State T V) (a : Act T V) (s' : State T V) (h : Move s a s') :
    s'.removed = s.removed ∨
      ∃ t op v, a = .remove t ∧ s.pc t = .removing op ∧ s'.removed = s.removed ++ [v] ∧
        s'.pc t = State.afterRemove op v := by
  cases h with
  | exec t op hpc =>
    left
    cases op <;> rfl
  | remove t op hpc =>
    simp only [State.remove]
    split
    · exact Or.inl rfl
    · rename_i v rest hque
      exact Or.inr ⟨t, op, v, rfl, hpc, rfl, goto_pc_self _ t _⟩
  | notify t choice m hpc hm =>
    left
    cases choice with
    | none => rfl
    | some c =>
      simp only [State.wokenBy]
      split <;> rfl
  | _ => exact Or.inl rfl

/-- Values enter the queue only by the insertion of a push. -/
theorem move_pushed (s : State T V) (a : Act T V) (s' : State T V) (h : Move s a s') :
    s'.pushed = s.pushed ∨
      ∃ t v, a = .exec t ∧ s.pc t = .inside (.push v) ∧ s'.pushed = s.pushed ++ [v] ∧
        s'.pc t = .leaving (.push v) .done := by
  cases h with
  | exec t op hpc =>
    cases op with
    | push v => exact Or.inr ⟨t, v, rfl, hpc, rfl, goto_pc_self _ t _⟩
    | _ => exact Or.inl rfl
  | remove t op hpc =>
    left
    simp only [State.remove]
    split <;> rfl
  | notify t choice m hpc hm =>
    left
    cases choice with
    | none => rfl
    | some c =>
      simp only [State.wokenBy]
      split <;> rfl
  | _ => exact Or.inl rfl

theorem pushed_grows (s : State T V) (a : Act T V) (s' : State T V) (h : Move s a s') :
    s.pushed <+: s'.pushed := by
  rcases move_pushed s a s' h with heq | ⟨t, v, _, _, heq, _⟩
  · rw [heq]
  · rw [heq]
    exact List.prefix_append s.pushed [v]

/-- A thread inside a try_pop inserts nothing. -/
theorem tryPop_pushed (s : State T V) (a : Act T V) (s' : State T V) (h : Move s a s')
    (hduring : During .tryPop (s.pc (actor a))) : s'.pushed = s.pushed := by
  rcases move_pushed s a s' h with heq | ⟨t, v, rfl, hpc, _, _⟩
  · exact heq
  · simp only [actor, hpc, During] at hduring
    cases hduring

/-- Past its insertion a push goes on to its unlock, its notification and its return. -/
theorem inserted_self (s : State T V) (a : Act T V) (s' : State T V) (h : Move s a s')
    (hint : Internal a) (v : V) (hduring : During (.push v) (s.pc (actor a)))
    (hins : Inserted (s.pc (actor a))) : Inserted (s'.pc (actor a)) := by
  cases h with
  | call t op hpc => exact False.elim hint
  | acquire t op hpc hfree =>
    rcases hpc with hpc | hpc <;> simp [actor, hpc, Inserted] at hins
  | timeout t hpc hfree =>
    rcases hpc with hpc | hpc <;> simp [actor, hpc, Inserted] at hins
  | exec t op hpc => simp [actor, hpc, Inserted] at hins
  | remove t op hpc => simp [actor, hpc, Inserted] at hins
  | block t op hpc hown => simp [actor, hpc, Inserted] at hins
  | spurious t op hpc hwait => simp [actor, hpc, Inserted] at hins
  | expire t hpc hwait => simp [actor, hpc, Inserted] at hins
  | leave t op r hpc hown =>
    simp only [actor, goto_pc_self]
    cases op <;> trivial
  | notify t choice m hpc hm =>
    simp only [actor]
    have hgoto := goto_pc_self { s with monitor := m } t (.returned .done)
    rcases wokenBy_pc ({ s with monitor := m }.goto t (.returned .done)) choice t with
      heq | ⟨op, hwait, _⟩
    · rw [heq, hgoto]
      trivial
    · rw [hgoto] at hwait
      cases hwait
  | finish t r hpc => exact False.elim hint

theorem inserted_other (s : State T V) (a : Act T V) (s' : State T V) (h : Move s a s') (u : T)
    (hu : u ≠ actor a) (hins : Inserted (s.pc u)) : Inserted (s'.pc u) := by
  rcases move_other s a s' h u hu with heq | ⟨op, hwait, _⟩
  · rw [heq]
    exact hins
  · rw [hwait] at hins
    exact False.elim hins

theorem held_other (s : State T V) (a : Act T V) (s' : State T V) (h : Move s a s') (u : T)
    (hu : u ≠ actor a) : held (s'.pc u) = held (s.pc u) := by
  rcases move_other s a s' h u hu with heq | ⟨op, hwait, hwoken⟩
  · rw [heq]
  · rw [hwait, hwoken]
    rfl

/-- A thread inside a push removes nothing. -/
theorem push_removed (s : State T V) (a : Act T V) (s' : State T V) (h : Move s a s') (v : V)
    (hduring : During (.push v) (s.pc (actor a))) : s'.removed = s.removed := by
  rcases move_removed s a s' h with heq | ⟨t, op, w, rfl, hpc, _, _⟩
  · exact heq
  · simp only [actor, hpc, During] at hduring
    rcases hduring with ⟨rfl, hkind | hkind | hkind⟩ <;> cases hkind

/-- What a consumer removes is what it then holds for its caller. -/
theorem tryPop_held (s : State T V) (a : Act T V) (s' : State T V) (h : Move s a s')
    (hint : Internal a) (hduring : During .tryPop (s.pc (actor a))) :
    ∃ out, s'.removed = s.removed ++ out ∧
      held (s'.pc (actor a)) = held (s.pc (actor a)) ++ out := by
  cases h with
  | call t op hpc => exact False.elim hint
  | acquire t op hpc hfree =>
    refine ⟨[], (List.append_nil _).symm, ?_⟩
    simp only [actor, goto_pc_self]
    rcases hpc with hpc | hpc <;> rw [hpc] <;> rfl
  | timeout t hpc hfree =>
    refine ⟨[], (List.append_nil _).symm, ?_⟩
    simp only [actor, goto_pc_self]
    rcases hpc with hpc | hpc <;> rw [hpc] <;> rfl
  | exec t op hpc =>
    simp only [actor] at hduring ⊢
    rw [hpc] at hduring ⊢
    have hop : op = .tryPop := hduring
    subst hop
    refine ⟨[], (List.append_nil _).symm, ?_⟩
    rw [State.exec, goto_pc_self]
    split <;> rfl
  | remove t op hpc =>
    simp only [actor] at hduring ⊢
    have hremoving := hduring
    rw [hpc] at hremoving
    obtain ⟨hop, _⟩ := hremoving
    subst hop
    cases hque : s.que_ with
    | nil =>
      refine ⟨[], ?_, ?_⟩ <;> simp [State.remove, hque]
    | cons v rest =>
      refine ⟨[v], ?_, ?_⟩
      · simp [State.remove, hque, State.goto]
      · simp [State.remove, hque, State.goto, State.afterRemove, hpc, held]
  | block t op hpc hown =>
    refine ⟨[], (List.append_nil _).symm, ?_⟩
    simp only [actor, goto_pc_self, hpc]
    rfl
  | spurious t op hpc hwait =>
    refine ⟨[], (List.append_nil _).symm, ?_⟩
    simp only [actor, goto_pc_self, hpc]
    rfl
  | expire t hpc hwait =>
    refine ⟨[], (List.append_nil _).symm, ?_⟩
    simp only [actor, goto_pc_self, hpc]
    rfl
  | leave t op r hpc hown =>
    simp only [actor] at hduring
    rw [hpc] at hduring
    obtain ⟨hop, _⟩ := hduring
    subst hop
    refine ⟨[], (List.append_nil _).symm, ?_⟩
    simp only [actor, goto_pc_self, hpc, State.afterLeave, List.append_nil]
    cases r <;> rfl
  | notify t choice m hpc hm =>
    simp only [actor] at hduring
    rw [hpc] at hduring
    obtain ⟨v, hop⟩ := hduring
    cases hop
  | finish t r hpc => exact False.elim hint

/-- A try_pop that gives up does so by way of its wait, in which it moves no value. -/
theorem givingUp_self (s : State T V) (a : Act T V) (s' : State T V) (h : Move s a s')
    (hint : Internal a) (hduring : During .tryPop (s.pc (actor a)))
    (hgives : GivingUp (s'.pc (actor a))) :
    a = .block (actor a) ∨
      GivingUp (s.pc (actor a)) ∧ s'.pushed = s.pushed ∧ s'.removed = s.removed := by
  cases h with
  | call t op hpc => exact False.elim hint
  | acquire t op hpc hfree => simp [actor, goto_pc_self, GivingUp] at hgives
  | timeout t hpc hfree =>
    right
    refine ⟨?_, rfl, rfl⟩
    rcases hpc with hpc | hpc <;> simp [actor, hpc, GivingUp]
  | exec t op hpc =>
    simp only [actor, hpc] at hduring
    have hop : op = .tryPop := hduring
    subst hop
    simp only [actor, State.exec, goto_pc_self] at hgives
    split at hgives <;> exact False.elim hgives
  | remove t op hpc =>
    simp only [actor, hpc] at hduring
    obtain ⟨rfl, _⟩ := hduring
    cases hque : s.que_ with
    | nil => simp [actor, State.remove, hque, hpc, GivingUp] at hgives
    | cons v rest =>
      simp [actor, State.remove, hque, goto_pc_self, State.afterRemove, GivingUp] at hgives
  | block t op hpc hown => exact Or.inl rfl
  | spurious t op hpc hwait =>
    right
    simp only [actor, goto_pc_self, hpc] at hgives ⊢
    refine ⟨?_, rfl, rfl⟩
    cases op <;> simp_all [GivingUp]
  | expire t hpc hwait =>
    right
    exact ⟨by simp [actor, hpc, GivingUp], rfl, rfl⟩
  | leave t op r hpc hown =>
    right
    simp only [actor, goto_pc_self, hpc] at hduring hgives ⊢
    obtain ⟨rfl, _⟩ := hduring
    refine ⟨?_, rfl, rfl⟩
    cases r <;> simp_all [State.afterLeave, GivingUp]
  | notify t choice m hpc hm =>
    simp only [actor, hpc] at hduring
    obtain ⟨v, hop⟩ := hduring
    cases hop
  | finish t r hpc => exact False.elim hint

theorem givingUp_other (s : State T V) (a : Act T V) (s' : State T V) (h : Move s a s') (u : T)
    (hu : u ≠ actor a) (hgives : GivingUp (s'.pc u)) : GivingUp (s.pc u) := by
  rcases move_other s a s' h u hu with heq | ⟨op, hwait, hwoken⟩
  · rw [← heq]
    exact hgives
  · rw [hwoken] at hgives
    rw [hwait]
    cases op <;> exact hgives

end JvmTrace.ZqueueCalls
