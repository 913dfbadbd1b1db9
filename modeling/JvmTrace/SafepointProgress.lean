import JvmTrace.MemFullerMutex
import JvmTrace.Safepoint
import JvmTrace.ZqueueWakeups

/-!
From every reachable state in which safepoint_worker has its stack trace, the
worker and the notifier can run to their end: the worker pushes the token, the
notifier takes it and leaves, and the worker joins. Nobody else has to help but
the thread that has c_mutex_, which can always give it back because notify(true)
is never called. A notifier that waits on qq goes on by its deadline.
-/
namespace JvmTrace.SafepointProgress

open Monitors Runs ZqueueCalls Safepoint

variable {A : Type*}

/-- Where the token is once the worker is past its insertion: in qq, with the
notifier, or taken by it for good. -/
structure Token (s : State A) : Prop where
  sent : s.worker = .joining ∨ s.worker = .pushing ∧ Inserted (s.qq.pc .worker) → s.qq.pushed ≠ []
  taken : s.qq.removed ≠ [] → s.notifier = .finished ∨ held (s.qq.pc .notifier) ≠ []
  joined : s.worker = .finished → s.notifier = .notStarted ∨ s.notifier = .finished
  started : ¬ s.worker.Early → s.worker ≠ .finished → s.notifier ≠ .notStarted

/-- A call of notify(false) from its lock to its return. -/
def Notifies : MemFuller.Pc → Prop
  | .notifyLock all => all = false
  | .signalling all => all = false
  | .unlocking => True
  | .outside => True
  | _ => False

/-- c_mutex_ can be had: its owner gives it back, and the notifier is inside
mem_fuller exactly while it is in its call of notify(false). -/
structure Mutex [DecidableEq A] (s : State A) : Prop where
  sound : MemFullerMutex.Sound s.fuller
  notifying : s.notifier = .notifying → Notifies (s.fuller.pc (.party .notifier))
  outside : s.notifier ≠ .notifying → s.fuller.pc (.party .notifier) = .outside

variable [DecidableEq A]

omit [DecidableEq A] in
theorem token_of_eq (s s' : State A) (h : Token s) (hqq : s'.qq = s.qq)
    (hw : s'.worker = s.worker) (hn : s'.notifier = s.notifier) : Token s' := by
  obtain ⟨f', qq', stop', w', n'⟩ := s'
  simp only at hqq hw hn
  subst hqq hw hn
  exact ⟨h.sent, h.taken, h.joined, h.started⟩

omit [DecidableEq A] in
/-- The worker goes on outside its push. -/
theorem token_worker (s : State A) (f : MemFuller.State (Thread A)) (w : WorkerPc) (h : Token s)
    (hsent : w ≠ .joining ∧ w ≠ .pushing)
    (hjoined : w = .finished → s.notifier = .notStarted ∨ s.notifier = .finished)
    (hstarted : ¬ w.Early → w ≠ .finished → s.notifier ≠ .notStarted) :
    Token { s with fuller := f, worker := w } where
  sent hw := by
    rcases hw with hw | ⟨hw, _⟩
    · exact absurd hw hsent.1
    · exact absurd hw hsent.2
  taken := h.taken
  joined := hjoined
  started := hstarted

omit [DecidableEq A] in
/-- The notifier goes on outside its try_pop. -/
theorem token_notifier (s : State A) (f : MemFuller.State (Thread A)) (n : NotifierPc) (h : Token s)
    (hstarted : s.notifier ≠ .notStarted)
    (hn : s.notifier ≠ .finished) (hn' : n ≠ .notStarted) :
    Token { s with fuller := f, notifier := n } where
  sent := h.sent
  taken hremoved := by
    rcases h.taken hremoved with hfinished | hheld
    · exact absurd hfinished hn
    · exact Or.inr hheld
  joined hw := by
    rcases h.joined hw with hnone | hfinished
    · exact absurd hnone hstarted
    · exact absurd hfinished hn
  started _ _ := hn'

/-- A push becomes inserted only by putting its value into the queue. -/
theorem inserted_before {T V : Type*} [DecidableEq T] (q : Zqueue.State T V) (a : Zqueue.Act T V)
    (q' : Zqueue.State T V) (h : Zqueue.Move q a q') (v : V)
    (hduring : During (.push v) (q.pc (actor a))) (hins : Inserted (q'.pc (actor a))) :
    Inserted (q.pc (actor a)) ∨ q'.pushed ≠ [] := by
  cases h with
  | call t op hpc => simp [actor, hpc, During] at hduring
  | acquire t op hpc hfree => simp [actor, goto_pc_self, Inserted] at hins
  | timeout t hpc hfree =>
    rcases hpc with hpc | hpc <;> simp [actor, hpc, During] at hduring
  | exec t op hpc =>
    simp only [actor, hpc, During] at hduring
    subst hduring
    right
    simp [Zqueue.State.exec, Zqueue.State.goto]
  | remove t op hpc =>
    simp only [actor, hpc, During] at hduring
    rcases hduring with ⟨rfl, hkind | hkind | hkind⟩ <;> cases hkind
  | block t op hpc hown => simp [actor, goto_pc_self, Inserted] at hins
  | spurious t op hpc hwait => simp [actor, goto_pc_self, Inserted] at hins
  | expire t hpc hwait => simp [actor, goto_pc_self, Inserted] at hins
  | leave t op r hpc hown =>
    left
    simp [actor, hpc, Inserted]
  | notify t choice m hpc hm =>
    left
    simp [actor, hpc, Inserted]
  | finish t r hpc =>
    left
    simp [actor, hpc, Inserted]

omit [DecidableEq A] in
/-- An internal step on qq: the worker's insertion sends the token, the notifier's
removal takes it. -/
theorem token_qq (s : State A) (a : Zqueue.Act Party UInt64) (q : Zqueue.State Party UInt64)
    (hint : Internal a) (hq : Zqueue.step s.qq a = some q) (hshake : Handshake s) (h : Token s) :
    Token { s with qq := q } := by
  have hmove := Zqueue.step_move s.qq a q hq
  have hactor := internal_not_idle s.qq a q hmove hint
  have hgrows : s.qq.pushed ≠ [] → q.pushed ≠ [] := by
    intro hne hnil
    have hgrows := pushed_grows s.qq a q hmove
    rw [hnil, List.prefix_nil] at hgrows
    exact hne hgrows
  cases hact : actor a with
  | worker =>
    rw [hact] at hactor
    have hw : s.worker = .pushing := by
      by_contra hw
      exact hactor (hshake.notPushing hw)
    have hduring : During (.push 1) (s.qq.pc (actor a)) := by
      rw [hact]
      exact (hshake.pushing hw).1
    refine ⟨?_, ?_, h.joined, h.started⟩
    · intro h
      rcases h with hjoining | ⟨_, hins⟩
      · exact hgrows (h.sent (Or.inl hjoining))
      · rw [← hact] at hins
        rcases inserted_before s.qq a q hmove 1 hduring hins with hbefore | hpushed
        · rw [hact] at hbefore
          exact hgrows (h.sent (Or.inr ⟨hw, hbefore⟩))
        · exact hpushed
    · change q.removed ≠ [] → _ ∨ held (q.pc .notifier) ≠ []
      rw [held_other s.qq a q hmove .notifier (by simp [hact]),
        push_removed s.qq a q hmove 1 hduring]
      exact h.taken
  | notifier =>
    rw [hact] at hactor
    have hn : s.notifier = .popping := by
      by_contra hn
      exact hactor (hshake.notPopping hn)
    have hduring : During .tryPop (s.qq.pc (actor a)) := by
      rw [hact]
      exact hshake.popping hn
    obtain ⟨out, hremoved, hheld⟩ := tryPop_held s.qq a q hmove hint hduring
    rw [hact] at hheld
    refine ⟨?_, ?_, h.joined, h.started⟩
    · intro h
      rcases h with hjoining | ⟨hw, hins⟩
      · exact hgrows (h.sent (Or.inl hjoining))
      · rcases move_other s.qq a q hmove .worker (by simp [hact]) with heq | ⟨op, _, hwoken⟩
        · change Inserted (q.pc .worker) at hins
          rw [heq] at hins
          exact hgrows (h.sent (Or.inr ⟨hw, hins⟩))
        · change Inserted (q.pc .worker) at hins
          rw [hwoken] at hins
          exact False.elim hins
    · intro htaken
      right
      change held (q.pc .notifier) ≠ []
      rw [hheld]
      intro hnil
      obtain ⟨hheldnil, hout⟩ := List.append_eq_nil_iff.mp hnil
      change q.removed ≠ [] at htaken
      rw [hremoved, hout, List.append_nil] at htaken
      rcases h.taken htaken with hfinished | hheld'
      · rw [hn] at hfinished
        cases hfinished
      · exact hheld' hheldnil

theorem step_token (s : State A) (a : Act A) (s' : State A) (hstep : step s a = some s')
    (hshake : Handshake s) (h : Token s) : Token s' := by
  cases step_move s a s' hstep with
  | pending a tm f hf => exact token_of_eq s _ h rfl rfl rfl
  | fuller a f hcont hf => exact token_of_eq s _ h rfl rfl rfl
  | agentOnUnload => exact token_of_eq s _ h rfl rfl rfl
  | callTryPop f hw hf =>
    exact token_worker s f _ h (by simp) (by simp) fun hlate => absurd trivial hlate
  | popped f hw hf =>
    exact token_worker s f _ h (by simp) (by simp) fun hlate => absurd trivial hlate
  | gaveUp f hw hf =>
    exact token_worker s f _ h (by simp) (by simp) fun hlate => absurd trivial hlate
  | checkStop hw =>
    apply token_worker s s.fuller _ h
    · split <;> simp
    · exact fun _ => Or.inl (hshake.early (by rw [hw]; trivial))
    · split
      · exact fun _ hne => absurd rfl hne
      · exact fun hlate => absurd trivial hlate
  | startNotifier hw => exact ⟨by simp, fun hne => absurd rfl hne, by simp, by simp⟩
  | stackTrace hw =>
    exact token_worker s s.fuller _ h (by simp) (by simp)
      fun _ _ => h.started (by simp [hw, WorkerPc.Early]) (by simp [hw])
  | callPush q hw hq =>
    obtain ⟨_, rfl⟩ := step_call_eq_some s.qq q _ _ hq
    refine ⟨?_, ?_, by simp,
      fun _ _ => h.started (by simp [hw, WorkerPc.Early]) (by simp [hw])⟩
    · intro h
      rcases h with hjoining | ⟨_, hins⟩
      · cases hjoining
      · simp [goto_pc_self, Inserted] at hins
    · simp only [goto_pc_of_ne _ Party.worker Party.notifier _ (by simp)]
      exact h.taken
  | pushReturned q hw hq =>
    obtain ⟨⟨r, hret⟩, rfl⟩ := step_finish_eq_some s.qq q _ hq
    refine ⟨fun _ => h.sent (Or.inr ⟨hw, by simp [hret, Inserted]⟩), ?_, by simp,
      fun _ _ => h.started (by simp [hw, WorkerPc.Early]) (by simp [hw])⟩
    simp only [goto_pc_of_ne _ Party.worker Party.notifier _ (by simp)]
    exact h.taken
  | join hw hn =>
    exact token_worker s s.fuller _ h (by simp) (fun _ => Or.inr hn) fun _ hne => absurd rfl hne
  | qq a q hint hq => exact token_qq s a q hint hq hshake h
  | callNotify f hn hf => exact token_notifier s f _ h (by simp [hn]) (by simp [hn]) (by simp)
  | notifyReturned hn => exact token_notifier s s.fuller _ h (by simp [hn]) (by simp [hn]) (by simp)
  | callTryPopToken q hn hq =>
    obtain ⟨hidle, rfl⟩ := step_call_eq_some s.qq q _ _ hq
    have hback := token_notifier s s.fuller .popping h (by simp [hn]) (by simp [hn]) (by simp)
    refine ⟨?_, ?_, hback.joined, hback.started⟩
    · simp only [goto_pc_of_ne _ Party.notifier Party.worker _ (by simp)]
      exact h.sent
    · intro hremoved
      rcases h.taken hremoved with hfinished | hheld
      · rw [hn] at hfinished
        cases hfinished
      · rw [hidle] at hheld
        exact absurd rfl hheld
  | tokenPopped tm q hn hret hq =>
    obtain ⟨_, rfl⟩ := step_finish_eq_some s.qq q _ hq
    refine ⟨?_, fun _ => Or.inl rfl, fun _ => Or.inr rfl, by simp⟩
    simp only [goto_pc_of_ne _ Party.notifier Party.worker _ (by simp)]
    exact h.sent
  | tokenGaveUp q hn hret hq =>
    obtain ⟨_, rfl⟩ := step_finish_eq_some s.qq q _ hq
    have hback := token_notifier s s.fuller .loopHead h (by simp [hn]) (by simp [hn]) (by simp)
    refine ⟨?_, ?_, hback.joined, hback.started⟩
    · simp only [goto_pc_of_ne _ Party.notifier Party.worker _ (by simp)]
      exact h.sent
    · intro hremoved
      rcases h.taken hremoved with hfinished | hheld
      · rw [hn] at hfinished
        cases hfinished
      · rw [hret] at hheld
        exact absurd rfl hheld

omit [DecidableEq A] in
theorem init_token : Token (init : State A) where
  sent h := by simp [init] at h
  taken h := absurd rfl h
  joined h := by cases h
  started h := absurd trivial h

/-- The call of notify goes on by the steps of mem_fuller. -/
theorem notifies_moves {T : Type*} (t : T) (a : MemFuller.Act T) (p p' : MemFuller.Pc)
    (h : MemFullerMutex.Moves t a p p') (hcont : Continues a) (hp : Notifies p) : Notifies p' := by
  rcases h with rfl | ⟨rfl, _⟩ | hturn
  · exact hp
  · exact False.elim hp
  · cases hturn with
    | lock _ _ hafter =>
      cases p with
      | notifyLock all =>
        cases hafter
        exact hp
      | woken => exact False.elim hp
      | pendingLock => exact False.elim hp
      | _ => cases hafter
    | signal all choice =>
      have hall : all = false := hp
      subst hall
      trivial
    | unlock => trivial
    | _ => first | exact False.elim hp | exact False.elim hcont

theorem outside_moves {T : Type*} (t : T) (a : MemFuller.Act T) (p' : MemFuller.Pc)
    (h : MemFullerMutex.Moves t a .outside p') (hcont : Continues a) : p' = .outside := by
  rcases h with rfl | ⟨hwaiting, _⟩ | hturn
  · rfl
  · cases hwaiting
  · cases hturn with
    | lock _ _ hafter => cases hafter
    | _ => exact False.elim hcont

/-- The steps another thread takes leave the notifier's place alone. -/
theorem moves_other {T : Type*} (t : T) (a : MemFuller.Act T) (p p' : MemFuller.Pc)
    (h : MemFullerMutex.Moves t a p p') (ha : ∀ q q', ¬ MemFullerMutex.Turn t a q q')
    (hp : p ≠ .waiting) : p' = p := by
  rcases h with heq | ⟨hwaiting, _⟩ | hturn
  · exact heq
  · exact absurd hwaiting hp
  · exact absurd hturn (ha p p')

/-- A step of mem_fuller by another thread. -/
theorem mutex_fuller (s : State A) (a : MemFuller.Act (Thread A)) (f : MemFuller.State (Thread A))
    (w : WorkerPc) (hf : MemFuller.step s.fuller a = some f)
    (ha : ∀ q q', ¬ MemFullerMutex.Turn (.party .notifier) a q q')
    (hall : ∀ t, a ≠ .notify t true) (h : Mutex s) : Mutex { s with fuller := f, worker := w } := by
  have hmoves := MemFullerMutex.move_moves s.fuller a f (MemFuller.step_move s.fuller a f hf)
    (.party .notifier)
  have hpc : f.pc (.party .notifier) = s.fuller.pc (.party .notifier) := by
    apply moves_other _ a _ _ hmoves ha
    intro hwaiting
    by_cases hn : s.notifier = .notifying
    · have hnotifies := h.notifying hn
      rw [hwaiting] at hnotifies
      exact hnotifies
    · rw [h.outside hn] at hwaiting
      cases hwaiting
  refine ⟨MemFullerMutex.step_sound s.fuller a f hf hall h.sound, ?_, ?_⟩
  · change s.notifier = .notifying → Notifies (f.pc _)
    rw [hpc]
    exact h.notifying
  · change s.notifier ≠ .notifying → f.pc _ = .outside
    rw [hpc]
    exact h.outside

/-- The notifier goes on outside its call of notify. -/
theorem mutex_notifier (s : State A) (q : Zqueue.State Party UInt64) (w : WorkerPc) (n : NotifierPc)
    (h : Mutex s) (hout : s.fuller.pc (.party .notifier) = .outside) (hn : n ≠ .notifying) :
    Mutex { s with qq := q, worker := w, notifier := n } :=
  ⟨h.sound, fun hn' => absurd hn' hn, fun _ => hout⟩

theorem step_notifyReturned_eq_some (s s' : State A) (h : step s .notifyReturned = some s') :
    s.fuller.pc (.party .notifier) = .outside := by
  simp only [step] at h
  split at h
  · assumption
  · cases h

theorem step_mutex (s : State A) (a : Act A) (s' : State A) (hstep : step s a = some s')
    (hshake : Handshake s) (h : Mutex s) : Mutex s' := by
  cases step_move s a s' hstep with
  | pending a tm f hf =>
    exact mutex_fuller s _ f s.worker hf (by rintro q q' ⟨⟩) (by simp) h
  | fuller a f hcont hf =>
    have hmoves := MemFullerMutex.move_moves s.fuller a f (MemFuller.step_move s.fuller a f hf)
      (.party .notifier)
    refine ⟨MemFullerMutex.step_sound s.fuller a f hf ?_ h.sound, ?_, ?_⟩
    · rintro t rfl
      exact hcont
    · exact fun hn => notifies_moves _ a _ _ hmoves hcont (h.notifying hn)
    · intro hn
      rw [h.outside hn] at hmoves
      exact outside_moves _ a _ hmoves hcont
  | callTryPop f hw hf => exact mutex_fuller s _ f _ hf (by rintro q q' ⟨⟩) (by simp) h
  | popped f hw hf => exact mutex_fuller s _ f _ hf (by rintro q q' ⟨⟩) (by simp) h
  | gaveUp f hw hf => exact mutex_fuller s _ f _ hf (by rintro q q' ⟨⟩) (by simp) h
  | startNotifier hw =>
    have hnone : s.notifier = .notStarted := hshake.early (by rw [hw]; trivial)
    exact mutex_notifier s _ _ _ h (h.outside (by simp [hnone])) (by simp)
  | callNotify f hn hf =>
    refine ⟨MemFullerMutex.step_sound s.fuller _ f hf (by simp) h.sound, ?_, by simp⟩
    intro _
    cases MemFuller.step_move s.fuller _ f hf with
    | notify t all hpc => simp [MemFuller.State.goto, Notifies]
  | notifyReturned hn =>
    exact mutex_notifier s s.qq s.worker _ h (step_notifyReturned_eq_some s _ hstep) (by simp)
  | callTryPopToken q hn hq =>
    exact mutex_notifier s q s.worker _ h (h.outside (by simp [hn])) (by simp)
  | tokenPopped tm q hn hret hq =>
    exact mutex_notifier s q s.worker _ h (h.outside (by simp [hn])) (by simp)
  | tokenGaveUp q hn hret hq =>
    exact mutex_notifier s q s.worker _ h (h.outside (by simp [hn])) (by simp)
  | _ => exact ⟨h.sound, h.notifying, h.outside⟩

theorem init_mutex : Mutex (init : State A) where
  sound := MemFullerMutex.init_sound _
  notifying h := by cases h
  outside _ := rfl

/-- Everything the two threads rely on. -/
structure Inv (s : State A) : Prop where
  handshake : Handshake s
  token : Token s
  mutex : Mutex s

theorem step_inv (s : State A) (a : Act A) (s' : State A) (hstep : step s a = some s')
    (h : Inv s) : Inv s' where
  handshake := step_handshake s a s' hstep h.handshake
  token := step_token s a s' hstep h.handshake h.token
  mutex := step_mutex s a s' hstep h.handshake h.mutex

theorem init_inv : Inv (init : State A) := ⟨init_handshake, init_token, init_mutex⟩

/-- The two threads can run to their end. -/
def Ends (s : State A) : Prop :=
  ∃ more u, run step s more = some u ∧ u.worker = .finished ∧ u.notifier = .finished

theorem ends_of_step (s t : State A) (a : Act A) (hstep : step s a = some t) (h : Ends t) :
    Ends s := by
  obtain ⟨more, u, hrun, hw, hn⟩ := h
  exact ⟨a :: more, u, (run_cons_eq_some s u a more).mpr ⟨t, hstep, hrun⟩, hw, hn⟩

theorem ends_of_finished (s : State A) (h : Inv s) (hn : s.notifier = .finished) : Ends s := by
  obtain ⟨more, u, hrun, hw, hn, _⟩ := canFinish_of_finished s h.handshake hn
  exact ⟨more, u, hrun, hw, hn⟩

/-- Let one of the two threads take an internal step on qq. -/
theorem ends_qq (s : State A) (a : Zqueue.Act Party UInt64) (q : Zqueue.State Party UInt64)
    (h : Inv s) (hint : Internal a) (hq : Zqueue.step s.qq a = some q)
    (hnext : Inv { s with qq := q } → Ends { s with qq := q }) : Ends s := by
  have hstep : step s (.qq a) = some { s with qq := q } := by
    simp only [step, hint, if_true, onQq, hq, Option.map_some]
  exact ends_of_step s _ _ hstep (hnext (step_inv s _ _ hstep h))

/-- Let some thread go on with its call of mem_fuller. -/
theorem ends_fuller (s : State A) (a : MemFuller.Act (Thread A)) (f : MemFuller.State (Thread A))
    (h : Inv s) (hcont : Continues a) (hf : MemFuller.step s.fuller a = some f)
    (hnext : Inv { s with fuller := f } → Ends { s with fuller := f }) : Ends s := by
  have hstep : step s (.fuller a) = some { s with fuller := f } := by
    simp only [step, hcont, if_true, onFuller, hf, Option.map_some]
  exact ends_of_step s _ _ hstep (hnext (step_inv s _ _ hstep h))

theorem qq_fifo (s : State A) (h : Inv s) : ZqueueFifo.Inv s.qq :=
  ZqueueFifo.reachable_inv s.qq h.handshake.qq

theorem qq_wakeups (s : State A) (h : Inv s) : ZqueueWakeups.Inv s.qq :=
  reachable_invariant ZqueueWakeups.step_inv h.handshake.qq ZqueueWakeups.init_inv

/-- A thread at a place that does not hold the lock, with the other one outside. -/
theorem qq_free (s : State A) (h : Inv s) (hw : ¬ (s.qq.pc .worker).Holds)
    (hn : ¬ (s.qq.pc .notifier).Holds) : s.qq.monitor.owner = none := by
  have hoccupied : Occupied Zqueue.Pc.Holds s.qq.monitor.owner s.qq.pc :=
    reachable_invariant (P := fun q => Occupied Zqueue.Pc.Holds q.monitor.owner q.pc)
      step_occupied h.handshake.qq occupied_none
  cases hown : s.qq.monitor.owner with
  | none => rfl
  | some t =>
    cases t with
    | worker => exact absurd (hoccupied .worker hown) hw
    | notifier => exact absurd (hoccupied .notifier hown) hn

theorem ends_returned_popped (s : State A) (h : Inv s) (hn : s.notifier = .popping) (v : UInt64)
    (hpc : s.qq.pc .notifier = .returned (.popped v)) : Ends s := by
  have hstep : step s .tryPopTokenReturned =
      some { s with qq := s.qq.goto .notifier .idle, notifier := .finished } := by
    simp only [step, hn, hpc, onQq, Zqueue.step, Option.map_some]
  exact ends_of_step s _ _ hstep (ends_of_finished _ (step_inv s _ _ hstep h) rfl)

theorem ends_leaving_popped (s : State A) (h : Inv s) (hn : s.notifier = .popping) (v : UInt64)
    (hpc : s.qq.pc .notifier = .leaving .tryPop (.popped v)) : Ends s := by
  have hown := (qq_fifo s h).guarded .notifier (by rw [hpc]; trivial)
  apply ends_qq s (.leave .notifier)
    ({ s.qq with monitor := { s.qq.monitor with owner := none } }.goto .notifier
      (.returned (.popped v))) h trivial
  · simp only [Zqueue.step, hpc, Monitor.release, hown, if_true, Option.map_some]
    rfl
  · intro h'
    exact ends_returned_popped _ h' hn v (goto_pc_self _ _ _)

theorem ends_removing (s : State A) (h : Inv s) (hn : s.notifier = .popping)
    (hpc : s.qq.pc .notifier = .removing .tryPop) : Ends s := by
  obtain ⟨v, rest, hque⟩ := List.exists_cons_of_ne_nil ((qq_fifo s h).nonempty .notifier _ hpc)
  apply ends_qq s (.remove .notifier) (s.qq.remove .notifier .tryPop) h trivial
  · simp only [Zqueue.step, hpc]
  · intro h'
    apply ends_leaving_popped _ h' hn v
    simp only [Zqueue.State.remove, hque]
    exact goto_pc_self _ _ _

theorem ends_inside (s : State A) (h : Inv s) (hn : s.notifier = .popping)
    (hque : s.qq.que_ ≠ []) (hpc : s.qq.pc .notifier = .inside .tryPop) : Ends s := by
  apply ends_qq s (.exec .notifier) (s.qq.exec .notifier .tryPop) h trivial
  · simp only [Zqueue.step, hpc]
  · intro h'
    apply ends_removing _ h' hn
    simp only [Zqueue.State.exec, if_neg hque]
    exact goto_pc_self _ _ _

/-- The notifier takes the lock of qq when the worker does not have it. -/
theorem ends_entering (s : State A) (h : Inv s) (hn : s.notifier = .popping)
    (hque : s.qq.que_ ≠ []) (hw : ¬ (s.qq.pc .worker).Holds)
    (hpc : s.qq.pc .notifier = .entering .tryPop ∨ s.qq.pc .notifier = .woken .tryPop) :
    Ends s := by
  have hfree : s.qq.monitor.owner = none := by
    apply qq_free s h hw
    rcases hpc with hpc | hpc <;> simp [hpc, Zqueue.Pc.Holds]
  apply ends_qq s (.acquire .notifier)
    ({ s.qq with monitor := { s.qq.monitor with owner := some Party.notifier } }.goto .notifier
      (.inside .tryPop)) h trivial
  · rcases hpc with hpc | hpc <;>
      simp only [Zqueue.step, hpc, Monitor.acquire, hfree, Option.map_some]
  · intro h'
    exact ends_inside _ h' hn hque (goto_pc_self _ _ _)

/-- The token is in qq and the worker waits in join. -/
structure Sent (s : State A) : Prop where
  inv : Inv s
  joining : s.worker = .joining
  queued : s.qq.que_ ≠ []

theorem Sent.worker_idle {s : State A} (h : Sent s) : ¬ (s.qq.pc .worker).Holds := by
  rw [h.inv.handshake.notPushing (by simp [h.joining])]
  exact id

theorem ends_notified (s : State A) (h : Sent s) (hn : s.notifier = .notified) : Ends s := by
  have hidle := h.inv.handshake.notPopping (by simp [hn])
  have hstep : step s .callTryPopToken =
      some { s with qq := s.qq.goto .notifier (.entering .tryPop), notifier := .popping } := by
    simp only [step, hn, onQq, Zqueue.step, hidle, Option.map_some]
  apply ends_of_step s _ _ hstep
  apply ends_entering _ (step_inv s _ _ hstep h.inv) rfl h.queued
  · simpa only [goto_pc_of_ne _ Party.notifier Party.worker _ (by simp)] using h.worker_idle
  · exact Or.inl (goto_pc_self _ _ _)

theorem ends_notify_outside (s : State A) (h : Sent s) (hn : s.notifier = .notifying)
    (hpc : s.fuller.pc (.party .notifier) = .outside) : Ends s := by
  have hstep : step s .notifyReturned = some { s with notifier := .notified } := by
    simp only [step, hn, hpc]
  exact ends_of_step s _ _ hstep (ends_notified _ ⟨step_inv s _ _ hstep h.inv, h.joining, h.queued⟩ rfl)

theorem ends_notify_unlocking (s : State A) (h : Sent s) (hn : s.notifier = .notifying)
    (hpc : s.fuller.pc (.party .notifier) = .unlocking) : Ends s := by
  have hown := h.inv.mutex.sound.guarded (.party .notifier) (by rw [hpc]; trivial)
  apply ends_fuller s (.unlock (.party .notifier))
    ({ s.fuller with monitor := { s.fuller.monitor with owner := none } }.goto (.party .notifier)
      .outside) h.inv trivial
  · simp only [MemFuller.step, hpc, MemFuller.State.onMonitor, Monitor.release, hown, if_true,
      Option.map_some]
  · intro h'
    apply ends_notify_outside _ ⟨h', h.joining, h.queued⟩ hn
    simp [MemFuller.State.goto]

theorem ends_notify_signalling (s : State A) (h : Sent s) (hn : s.notifier = .notifying)
    (hpc : s.fuller.pc (.party .notifier) = .signalling false) : Ends s := by
  obtain ⟨choice, m, hm⟩ := Monitor.notifyOne_enabled s.fuller.monitor
  apply ends_fuller s (.signal (.party .notifier) choice)
    (({ s.fuller with monitor := m }.goto (.party .notifier) .unlocking).wokenBy choice) h.inv
    trivial
  · simp [MemFuller.step, hpc, MemFuller.State.onMonitor, hm]
  · intro h'
    apply ends_notify_unlocking _ ⟨h', h.joining, h.queued⟩ hn
    change (MemFuller.State.wokenBy _ choice).pc _ = _
    rw [MemFullerMutex.wokenBy_pc _ choice _ (by simp [MemFuller.State.goto])]
    simp [MemFuller.State.goto]

theorem ends_notify_free (s : State A) (h : Sent s) (hn : s.notifier = .notifying)
    (hpc : s.fuller.pc (.party .notifier) = .notifyLock false)
    (hfree : s.fuller.monitor.owner = none) : Ends s := by
  apply ends_fuller s (.lock (.party .notifier))
    ({ s.fuller with monitor := { s.fuller.monitor with owner := some (.party .notifier) } }.goto
      (.party .notifier) (.signalling false)) h.inv trivial
  · simp [MemFuller.step, hpc, MemFuller.afterLock, MemFuller.State.onMonitor, Monitor.acquire,
      hfree]
  · intro h'
    apply ends_notify_signalling _ ⟨h', h.joining, h.queued⟩ hn
    simp [MemFuller.State.goto]

/-- The holder that is about to unlock does so, and the notifier enters. -/
theorem ends_holder_unlocking (s : State A) (t : Thread A) (h : Sent s) (hn : s.notifier = .notifying)
    (hpc : s.fuller.pc (.party .notifier) = .notifyLock false)
    (hown : s.fuller.monitor.owner = some t) (ht : s.fuller.pc t = .unlocking) : Ends s := by
  have hne : Thread.party Party.notifier ≠ t := by
    rintro rfl
    rw [hpc] at ht
    cases ht
  apply ends_fuller s (.unlock t)
    ({ s.fuller with monitor := ⟨none, s.fuller.monitor.waiters⟩ }.goto t .outside) h.inv trivial
  · simp only [MemFuller.step, ht, MemFuller.State.onMonitor, Monitor.release, hown, if_true,
      Option.map_some]
  · intro h'
    apply ends_notify_free _ ⟨h', h.joining, h.queued⟩ hn _ rfl
    simpa [MemFuller.State.goto, hne] using hpc

/-- Whoever has c_mutex_ gives it back, and the notifier is still at its lock. -/
theorem ends_notify_lock (s : State A) (h : Sent s) (hn : s.notifier = .notifying)
    (hpc : s.fuller.pc (.party .notifier) = .notifyLock false) : Ends s := by
  cases hown : s.fuller.monitor.owner with
  | none => exact ends_notify_free s h hn hpc hown
  | some t =>
    have hreturns := h.inv.mutex.sound.returning t hown
    have hne : Thread.party Party.notifier ≠ t := by
      rintro rfl
      rw [hpc] at hreturns
      exact hreturns
    cases ht : s.fuller.pc t with
    | beforeWait =>
      apply ends_fuller s (.condWait t)
        ({ s.fuller with monitor := ⟨none, s.fuller.monitor.waiters ++ [t]⟩ }.goto t .waiting) h.inv
        trivial
      · simp only [MemFuller.step, ht, MemFuller.State.onMonitor, Monitor.wait, hown, if_true,
          Option.map_some]
      · intro h'
        apply ends_notify_free _ ⟨h', h.joining, h.queued⟩ hn _ rfl
        simpa [MemFuller.State.goto, hne] using hpc
    | unlocking => exact ends_holder_unlocking s t h hn hpc hown ht
    | signalling all =>
      rw [ht] at hreturns
      have hall : all = false := hreturns
      subst all
      obtain ⟨choice, m, hm⟩ := Monitor.notifyOne_enabled s.fuller.monitor
      apply ends_fuller s (.signal t choice)
        (({ s.fuller with monitor := m }.goto t .unlocking).wokenBy choice) h.inv trivial
      · simp [MemFuller.step, ht, MemFuller.State.onMonitor, hm]
      · intro h'
        apply ends_holder_unlocking _ t ⟨h', h.joining, h.queued⟩ hn
        · change (MemFuller.State.wokenBy _ choice).pc _ = _
          rw [MemFullerMutex.wokenBy_pc _ choice _ (by simp [MemFuller.State.goto, hne, hpc])]
          simpa [MemFuller.State.goto, hne] using hpc
        · change (MemFuller.State.wokenBy _ choice).monitor.owner = _
          rw [MemFullerMutex.wokenBy_owner]
          exact (Monitor.notifyOne_owner s.fuller.monitor m choice hm).trans hown
        · change (MemFuller.State.wokenBy _ choice).pc _ = _
          rw [MemFullerMutex.wokenBy_pc _ choice _ (by simp [MemFuller.State.goto])]
          simp [MemFuller.State.goto]
    | _ =>
      rw [ht] at hreturns
      exact False.elim hreturns

theorem ends_notifying (s : State A) (h : Sent s) (hn : s.notifier = .notifying) : Ends s := by
  have hnotifies := h.inv.mutex.notifying hn
  cases hpc : s.fuller.pc (.party .notifier) with
  | notifyLock all =>
    rw [hpc] at hnotifies
    have hall : all = false := hnotifies
    subst all
    exact ends_notify_lock s h hn hpc
  | signalling all =>
    rw [hpc] at hnotifies
    have hall : all = false := hnotifies
    subst all
    exact ends_notify_signalling s h hn hpc
  | unlocking => exact ends_notify_unlocking s h hn hpc
  | outside => exact ends_notify_outside s h hn hpc
  | _ =>
    rw [hpc] at hnotifies
    exact False.elim hnotifies

theorem ends_loopHead (s : State A) (h : Sent s) (hn : s.notifier = .loopHead) : Ends s := by
  have hout := h.inv.mutex.outside (by simp [hn])
  have hstep : step s .callNotify =
      some { s with
        fuller := s.fuller.goto (.party .notifier) (.notifyLock false)
        notifier := .notifying } := by
    simp only [step, hn, onFuller, MemFuller.step, hout, Option.map_some]
  exact ends_of_step s _ _ hstep
    (ends_notifying _ ⟨step_inv s _ _ hstep h.inv, h.joining, h.queued⟩ rfl)

theorem ends_returned_gaveUp (s : State A) (h : Sent s) (hn : s.notifier = .popping)
    (hpc : s.qq.pc .notifier = .returned .gaveUp) : Ends s := by
  have hstep : step s .tryPopTokenReturned =
      some { s with qq := s.qq.goto .notifier .idle, notifier := .loopHead } := by
    simp only [step, hn, hpc, onQq, Zqueue.step, Option.map_some]
  exact ends_of_step s _ _ hstep
    (ends_loopHead _ ⟨step_inv s _ _ hstep h.inv, h.joining, h.queued⟩ rfl)

theorem ends_leaving_gaveUp (s : State A) (h : Sent s) (hn : s.notifier = .popping)
    (hpc : s.qq.pc .notifier = .leaving .tryPop .gaveUp) : Ends s := by
  have hown := (qq_fifo s h.inv).guarded .notifier (by rw [hpc]; trivial)
  apply ends_qq s (.leave .notifier)
    ({ s.qq with monitor := { s.qq.monitor with owner := none } }.goto .notifier
      (.returned .gaveUp)) h.inv trivial
  · simp only [Zqueue.step, hpc, Monitor.release, hown, if_true, Option.map_some]
    rfl
  · intro h'
    exact ends_returned_gaveUp _ ⟨h', h.joining, h.queued⟩ hn (goto_pc_self _ _ _)

theorem ends_expired (s : State A) (h : Sent s) (hn : s.notifier = .popping)
    (hpc : s.qq.pc .notifier = .expired) : Ends s := by
  have hfree : s.qq.monitor.owner = none :=
    qq_free s h.inv h.worker_idle (by simp [hpc, Zqueue.Pc.Holds])
  apply ends_qq s (.timeout .notifier)
    ({ s.qq with monitor := { s.qq.monitor with owner := some Party.notifier } }.goto .notifier
      (.leaving .tryPop .gaveUp)) h.inv trivial
  · simp only [Zqueue.step, hpc, Monitor.acquire, hfree, Option.map_some]
  · intro h'
    exact ends_leaving_gaveUp _ ⟨h', h.joining, h.queued⟩ hn (goto_pc_self _ _ _)

/-- The wait of try_pop ends by its deadline at the latest. -/
theorem ends_waiting (s : State A) (h : Sent s) (hn : s.notifier = .popping)
    (hpc : s.qq.pc .notifier = .waiting .tryPop) : Ends s := by
  have hmem : Party.notifier ∈ s.qq.monitor.waiters := by
    rw [(qq_wakeups s h.inv).queued.mem_iff, hpc]
    trivial
  apply ends_qq s (.expire .notifier)
    ({ s.qq with monitor := ⟨s.qq.monitor.owner, s.qq.monitor.waiters.erase .notifier⟩ }.goto
      .notifier .expired) h.inv trivial
  · simp only [Zqueue.step, hpc, Monitor.wake, hmem, if_true, Option.map_some]
  · intro h'
    exact ends_expired _ ⟨h', h.joining, h.queued⟩ hn (goto_pc_self _ _ _)

/-- The notifier gets the token from wherever it is. -/
theorem ends_of_sent (s : State A) (h : Sent s) : Ends s := by
  cases hn : s.notifier with
  | notStarted =>
    exact absurd hn (h.inv.token.started (by simp [h.joining, WorkerPc.Early]) (by simp [h.joining]))
  | loopHead => exact ends_loopHead s h hn
  | notifying => exact ends_notifying s h hn
  | notified => exact ends_notified s h hn
  | finished => exact ends_of_finished s h.inv hn
  | popping =>
    have hduring := h.inv.handshake.popping hn
    cases hpc : s.qq.pc .notifier with
    | idle =>
      rw [hpc] at hduring
      exact False.elim hduring
    | entering op =>
      rw [hpc] at hduring
      cases hduring
      exact ends_entering s h.inv hn h.queued h.worker_idle (Or.inl hpc)
    | woken op =>
      rw [hpc] at hduring
      cases hduring.1
      exact ends_entering s h.inv hn h.queued h.worker_idle (Or.inr hpc)
    | inside op =>
      rw [hpc] at hduring
      cases hduring
      exact ends_inside s h.inv hn h.queued hpc
    | removing op =>
      rw [hpc] at hduring
      cases hduring.1
      exact ends_removing s h.inv hn hpc
    | blocking op => exact absurd ((qq_wakeups s h.inv).empty .notifier op hpc) h.queued
    | waiting op =>
      rw [hpc] at hduring
      cases hduring.1
      exact ends_waiting s h hn hpc
    | expired => exact ends_expired s h hn hpc
    | leaving op r =>
      rw [hpc] at hduring
      obtain ⟨rfl, hret⟩ := hduring
      cases r with
      | popped v => exact ends_leaving_popped s h.inv hn v hpc
      | gaveUp => exact ends_leaving_gaveUp s h hn hpc
      | _ => exact False.elim hret
    | notifying =>
      rw [hpc] at hduring
      obtain ⟨v, hv⟩ := hduring
      cases hv
    | returned r =>
      rw [hpc] at hduring
      cases r with
      | popped v => exact ends_returned_popped s h.inv hn v hpc
      | gaveUp => exact ends_returned_gaveUp s h hn hpc
      | _ => exact False.elim hduring

/-- A notifier that holds the token hands it to its loop and leaves. -/
theorem ends_of_held (s : State A) (h : Inv s) (hheld : held (s.qq.pc .notifier) ≠ []) :
    Ends s := by
  have hn : s.notifier = .popping := by
    by_contra hn
    rw [h.handshake.notPopping hn] at hheld
    exact hheld rfl
  have hduring := h.handshake.popping hn
  cases hpc : s.qq.pc .notifier with
  | leaving op r =>
    rw [hpc] at hduring hheld
    obtain ⟨rfl, hret⟩ := hduring
    cases r with
    | popped v => exact ends_leaving_popped s h hn v hpc
    | _ => exact absurd rfl hheld
  | returned r =>
    rw [hpc] at hheld
    cases r with
    | popped v => exact ends_returned_popped s h hn v hpc
    | _ => exact absurd rfl hheld
  | _ =>
    rw [hpc] at hheld
    exact absurd rfl hheld

theorem ends_joining (s : State A) (h : Inv s) (hw : s.worker = .joining) : Ends s := by
  by_cases hque : s.qq.que_ = []
  · have hfifo := (qq_fifo s h).fifo
    rw [hque, List.append_nil] at hfifo
    have hremoved : s.qq.removed ≠ [] := by
      rw [hfifo]
      exact h.token.sent (Or.inl hw)
    rcases h.token.taken hremoved with hfinished | hheld
    · exact ends_of_finished s h hfinished
    · exact ends_of_held s h hheld
  · exact ends_of_sent s ⟨h, hw, hque⟩

theorem ends_push_returned (s : State A) (h : Inv s) (hw : s.worker = .pushing)
    (r : Zqueue.Result UInt64) (hpc : s.qq.pc .worker = .returned r) : Ends s := by
  have hstep : step s .pushReturned =
      some { s with qq := s.qq.goto .worker .idle, worker := .joining } := by
    simp only [step, hw, onQq, Zqueue.step, hpc, Option.map_some]
  exact ends_of_step s _ _ hstep (ends_joining _ (step_inv s _ _ hstep h) rfl)

theorem ends_push_notifying (s : State A) (h : Inv s) (hw : s.worker = .pushing)
    (hpc : s.qq.pc .worker = .notifying) : Ends s := by
  obtain ⟨choice, m, hm⟩ := Monitor.notifyOne_enabled s.qq.monitor
  apply ends_qq s (.notify .worker choice)
    (({ s.qq with monitor := m }.goto .worker (.returned .done)).wokenBy choice) h trivial
  · simp only [Zqueue.step, hpc, hm, Option.map_some]
  · intro h'
    apply ends_push_returned _ h' hw .done
    have hgoto := goto_pc_self { s.qq with monitor := m } Party.worker (.returned .done)
    rcases wokenBy_pc ({ s.qq with monitor := m }.goto Party.worker (.returned .done)) choice
      .worker with heq | ⟨op, hwait, _⟩
    · exact heq.trans hgoto
    · rw [hgoto] at hwait
      cases hwait

theorem ends_push_leaving (s : State A) (h : Inv s) (hw : s.worker = .pushing)
    (r : Zqueue.Result UInt64) (hpc : s.qq.pc .worker = .leaving (.push 1) r) : Ends s := by
  have hown := (qq_fifo s h).guarded .worker (by rw [hpc]; trivial)
  apply ends_qq s (.leave .worker)
    ({ s.qq with monitor := { s.qq.monitor with owner := none } }.goto .worker .notifying) h trivial
  · simp only [Zqueue.step, hpc, Monitor.release, hown, if_true, Option.map_some]
    rfl
  · intro h'
    exact ends_push_notifying _ h' hw (goto_pc_self _ _ _)

theorem ends_push_inside (s : State A) (h : Inv s) (hw : s.worker = .pushing)
    (hpc : s.qq.pc .worker = .inside (.push 1)) : Ends s := by
  apply ends_qq s (.exec .worker) (s.qq.exec .worker (.push 1)) h trivial
  · simp only [Zqueue.step, hpc]
  · intro h'
    exact ends_push_leaving _ h' hw .done (goto_pc_self _ _ _)

theorem ends_push_free (s : State A) (h : Inv s) (hw : s.worker = .pushing)
    (hpc : s.qq.pc .worker = .entering (.push 1)) (hfree : s.qq.monitor.owner = none) : Ends s := by
  apply ends_qq s (.acquire .worker)
    ({ s.qq with monitor := { s.qq.monitor with owner := some Party.worker } }.goto .worker
      (.inside (.push 1))) h trivial
  · simp only [Zqueue.step, hpc, Monitor.acquire, hfree, Option.map_some]
  · intro h'
    exact ends_push_inside _ h' hw (goto_pc_self _ _ _)

/-- The notifier leaves its critical section, with a result or into its wait, while
the worker stands before the lock. -/
theorem ends_push_behind_leaving (s : State A) (h : Inv s) (hw : s.worker = .pushing)
    (hpc : s.qq.pc .worker = .entering (.push 1)) (op : Zqueue.Op UInt64)
    (r : Zqueue.Result UInt64) (hn : s.qq.pc .notifier = .leaving op r) : Ends s := by
  have hown := (qq_fifo s h).guarded .notifier (by rw [hn]; trivial)
  apply ends_qq s (.leave .notifier)
    ({ s.qq with monitor := { s.qq.monitor with owner := none } }.goto .notifier
      (Zqueue.State.afterLeave op r)) h trivial
  · simp only [Zqueue.step, hn, Monitor.release, hown, if_true, Option.map_some]
  · intro h'
    exact ends_push_free _ h' hw ((goto_pc_of_ne _ _ _ _ (by simp)).trans hpc) rfl

theorem ends_push_behind_blocking (s : State A) (h : Inv s) (hw : s.worker = .pushing)
    (hpc : s.qq.pc .worker = .entering (.push 1)) (op : Zqueue.Op UInt64)
    (hn : s.qq.pc .notifier = .blocking op) : Ends s := by
  have hown := (qq_fifo s h).guarded .notifier (by rw [hn]; trivial)
  apply ends_qq s (.block .notifier)
    ({ s.qq with monitor := ⟨none, s.qq.monitor.waiters ++ [Party.notifier]⟩ }.goto .notifier
      (.waiting op)) h trivial
  · simp only [Zqueue.step, hn, Monitor.wait, hown, if_true, Option.map_some]
  · intro h'
    exact ends_push_free _ h' hw ((goto_pc_of_ne _ _ _ _ (by simp)).trans hpc) rfl

theorem ends_push_behind_removing (s : State A) (h : Inv s) (hw : s.worker = .pushing)
    (hpc : s.qq.pc .worker = .entering (.push 1))
    (hn : s.qq.pc .notifier = .removing .tryPop) : Ends s := by
  obtain ⟨v, rest, hque⟩ := List.exists_cons_of_ne_nil ((qq_fifo s h).nonempty .notifier _ hn)
  apply ends_qq s (.remove .notifier) (s.qq.remove .notifier .tryPop) h trivial
  · simp only [Zqueue.step, hn]
  · intro h'
    have hremove : s.qq.remove .notifier .tryPop =
        { s.qq with que_ := rest, removed := s.qq.removed ++ [v] }.goto .notifier
          (.leaving .tryPop (.popped v)) := by
      simp only [Zqueue.State.remove, hque, Zqueue.State.afterRemove]
    apply ends_push_behind_leaving _ h' hw _ .tryPop (.popped v)
    · change (s.qq.remove .notifier .tryPop).pc .notifier = _
      rw [hremove, goto_pc_self]
    · change (s.qq.remove .notifier .tryPop).pc .worker = _
      rw [hremove]
      exact (goto_pc_of_ne _ _ _ _ (by simp)).trans hpc

theorem ends_push_behind_inside (s : State A) (h : Inv s) (hw : s.worker = .pushing)
    (hpc : s.qq.pc .worker = .entering (.push 1))
    (hn : s.qq.pc .notifier = .inside .tryPop) : Ends s := by
  apply ends_qq s (.exec .notifier) (s.qq.exec .notifier .tryPop) h trivial
  · simp only [Zqueue.step, hn]
  · intro h'
    have hworker : (s.qq.exec .notifier .tryPop).pc .worker = .entering (.push 1) :=
      (goto_pc_of_ne _ _ _ _ (by simp)).trans hpc
    have hnotifier : (s.qq.exec .notifier .tryPop).pc .notifier =
        if s.qq.que_ = [] then .blocking .tryPop else .removing .tryPop := goto_pc_self _ _ _
    by_cases hque : s.qq.que_ = []
    · rw [if_pos hque] at hnotifier
      exact ends_push_behind_blocking _ h' hw hworker _ hnotifier
    · rw [if_neg hque] at hnotifier
      exact ends_push_behind_removing _ h' hw hworker hnotifier

theorem ends_push_entering (s : State A) (h : Inv s) (hw : s.worker = .pushing)
    (hpc : s.qq.pc .worker = .entering (.push 1)) : Ends s := by
  by_cases hholds : (s.qq.pc .notifier).Holds
  · have hn : s.notifier = .popping := by
      by_contra hn
      rw [h.handshake.notPopping hn] at hholds
      exact hholds
    have hduring := h.handshake.popping hn
    cases hnotifier : s.qq.pc .notifier with
    | inside op =>
      rw [hnotifier] at hduring
      cases hduring
      exact ends_push_behind_inside s h hw hpc hnotifier
    | blocking op => exact ends_push_behind_blocking s h hw hpc op hnotifier
    | removing op =>
      rw [hnotifier] at hduring
      cases hduring.1
      exact ends_push_behind_removing s h hw hpc hnotifier
    | leaving op r => exact ends_push_behind_leaving s h hw hpc op r hnotifier
    | _ =>
      rw [hnotifier] at hholds
      exact False.elim hholds
  · exact ends_push_free s h hw hpc (qq_free s h (by simp [hpc, Zqueue.Pc.Holds]) hholds)

theorem ends_pushing (s : State A) (h : Inv s) (hw : s.worker = .pushing) : Ends s := by
  have hduring := (h.handshake.pushing hw).1
  cases hpc : s.qq.pc .worker with
  | entering op =>
    rw [hpc] at hduring
    cases hduring
    exact ends_push_entering s h hw hpc
  | inside op =>
    rw [hpc] at hduring
    cases hduring
    exact ends_push_inside s h hw hpc
  | leaving op r =>
    rw [hpc] at hduring
    cases hduring.1
    exact ends_push_leaving s h hw r hpc
  | notifying => exact ends_push_notifying s h hw hpc
  | returned r => exact ends_push_returned s h hw r hpc
  | _ => simp [hpc, During] at hduring

theorem ends_traced (s : State A) (h : Inv s) (hw : s.worker = .traced) : Ends s := by
  have hidle := h.handshake.notPushing (by simp [hw])
  have hstep : step s .callPush =
      some { s with qq := s.qq.goto .worker (.entering (.push 1)), worker := .pushing } := by
    simp only [step, hw, onQq, Zqueue.step, hidle, Option.map_some]
  exact ends_of_step s _ _ hstep
    (ends_push_entering _ (step_inv s _ _ hstep h) rfl (goto_pc_self _ _ _))

end JvmTrace.SafepointProgress
