import JvmTrace.ChannelHandoff

/-!
Nobody sleeps through the event it waits for. While the zone is free a thread blocked on
writers_ is matched by one that is on its way to test the predicate; so is a thread blocked
on readers_ while an unread value is in the zone; a closed channel has nobody blocked who
Close is not still about to notify. With a write and a read in progress the locks alone
then lead to the next hand-off, whatever deadlines have passed.
-/
namespace JvmTrace.ChannelWakeups

open Runs UnbufferedChannel ChannelHandoff

variable {T V : Type*}

/-- About to test the predicate of writers_, and of readers_. -/
def testsTurn : Pc V → Bool
  | .writing _ _ => true
  | _ => false

def testsWriter : Pc V → Bool
  | .reading _ => true
  | _ => false

/-- Close, before its first, second and third notification. -/
def beforeWriters : Pc V → Bool
  | .wakingWriters => true
  | _ => false

def beforeReaders : Pc V → Bool
  | .wakingWriters => true
  | .wakingReaders => true
  | _ => false

def beforeHandshake : Pc V → Bool
  | .wakingWriters => true
  | .wakingReaders => true
  | .wakingHandshake => true
  | _ => false

/-- Somebody at one place is matched by somebody at another. -/
def Covered (waits cover : Pc V → Bool) (pc : T → Pc V) : Prop :=
  (∃ t, waits (pc t) = true) → ∃ u, cover (pc u) = true

section Covered

variable {waits cover : Pc V → Bool}

theorem covered_of_none (pc : T → Pc V) (h : ∀ t, waits (pc t) = false) :
    Covered waits cover pc := by
  intro hsome
  obtain ⟨t, ht⟩ := hsome
  exact absurd ((h t).symm.trans ht) (by simp)

theorem covered_of_cover (pc : T → Pc V) (u : T) (h : cover (pc u) = true) :
    Covered waits cover pc := fun _ => ⟨u, h⟩

/-- Cases: the waiting kept by a move come with the cover kept by it. -/
theorem Covered.mono {pc pc' : T → Pc V} (h : Covered waits cover pc)
    (hwaits : ∀ t, waits (pc' t) = true → waits (pc t) = true)
    (hcover : ∀ t, cover (pc t) = true → cover (pc' t) = true) : Covered waits cover pc' := by
  intro hsome
  obtain ⟨t, ht⟩ := hsome
  obtain ⟨u, hu⟩ := h ⟨t, hwaits t ht⟩
  exact ⟨u, hcover u hu⟩

/-- Waking somebody does not take the cover away. -/
def Lasting (waits cover : Pc V → Bool) : Prop :=
  ∀ (p : Pc V) (arrival : Arrival), (waits (p.woken arrival) = true → waits p = true) ∧
    (cover p = true → cover (p.woken arrival) = true)

theorem Covered.notifyAll {s : State T V} (h : Covered waits cover s.pc)
    (hlasting : Lasting waits cover) (wakes : Pc V → Bool) :
    Covered waits cover (s.notifyAll wakes).pc := by
  have hpc : ∀ t, (s.notifyAll wakes).pc t =
      if wakes (s.pc t) then (s.pc t).woken .notified else s.pc t := fun _ => rfl
  apply h.mono
  · intro t ht
    rw [hpc] at ht
    split_ifs at ht
    · exact (hlasting _ _).1 ht
    · exact ht
  · intro t ht
    rw [hpc]
    split_ifs
    · exact (hlasting _ _).2 ht
    · exact ht

variable [DecidableEq T]

theorem Covered.goto {s : State T V} (h : Covered waits cover s.pc) (t : T) (p : Pc V)
    (hwaits : waits p = true → waits (s.pc t) = true)
    (hcover : cover (s.pc t) = true → cover p = true) : Covered waits cover (s.goto t p).pc := by
  apply h.mono
  · intro u hu
    rw [goto_pc] at hu
    split_ifs at hu with hut
    · rw [hut]
      exact hwaits hu
    · exact hu
  · intro u hu
    rw [goto_pc]
    split_ifs with hut
    · rw [hut] at hu
      exact hcover hu
    · exact hu

variable [Fintype T]

theorem Covered.notifyOne {s : State T V} (s' : State T V) (h : Covered waits cover s.pc)
    (hlasting : Lasting waits cover) (wakes : Pc V → Bool) (choice : Option T)
    (hnotify : s.notifyOne wakes choice = some s') : Covered waits cover s'.pc := by
  rcases notifyOne_eq_some s s' wakes choice hnotify with hsame | hone
  · rw [hsame.1]
    exact h
  · obtain ⟨u, _, rfl⟩ := hone
    exact h.goto u _ (hlasting _ _).1 (hlasting _ _).2

/-- The notification itself covers those who go on waiting. -/
theorem covered_notifyOne (s s' : State T V) (choice : Option T)
    (hwoken : ∀ p, waits p = true → cover (p.woken .notified) = true)
    (hnotify : s.notifyOne waits choice = some s') : Covered waits cover s'.pc := by
  rcases notifyOne_eq_some s s' waits choice hnotify with hsame | hone
  · rw [hsame.1]
    exact covered_of_none s.pc hsame.2
  · obtain ⟨u, hu, rfl⟩ := hone
    apply covered_of_cover _ u
    rw [goto_pc_self]
    exact hwoken _ hu

end Covered

theorem lasting_writers : Lasting (Pc.onWriters : Pc V → Bool) testsTurn := by
  intro p arrival
  cases p <;> simp [Pc.woken, Pc.onWriters, testsTurn]

theorem lasting_readers : Lasting (Pc.onReaders : Pc V → Bool) testsWriter := by
  intro p arrival
  cases p <;> simp [Pc.woken, Pc.onReaders, testsWriter]

theorem lasting_closedWriters : Lasting (Pc.onWriters : Pc V → Bool) beforeWriters := by
  intro p arrival
  cases p <;> simp [Pc.woken, Pc.onWriters, beforeWriters]

theorem lasting_closedReaders : Lasting (Pc.onReaders : Pc V → Bool) beforeReaders := by
  intro p arrival
  cases p <;> simp [Pc.woken, Pc.onReaders, beforeReaders]

theorem lasting_closedHandshake : Lasting (Pc.onHandshake : Pc V → Bool) beforeHandshake := by
  intro p arrival
  cases p <;> simp [Pc.woken, Pc.onHandshake, beforeHandshake]

/-- While the zone is free. -/
def WritersCovered (s : State T V) : Prop :=
  s.closed_ = false → s.writter_in_zone_ = false → Covered Pc.onWriters testsTurn s.pc

/-- While an unread value is in the zone. -/
def ReadersCovered (s : State T V) : Prop :=
  s.closed_ = false → s.writter_in_zone_ = true → s.reader_in_zone_ = false →
    Covered Pc.onReaders testsWriter s.pc

/-- Behind a Close. -/
structure Shut (s : State T V) : Prop where
  writers : Covered Pc.onWriters beforeWriters s.pc
  readers : Covered Pc.onReaders beforeReaders s.pc
  handshake : Covered Pc.onHandshake beforeHandshake s.pc

def ShutCovered (s : State T V) : Prop := s.closed_ = true → Shut s

theorem writersCovered_of_closed (s : State T V) (h : s.closed_ = true) : WritersCovered s := by
  intro hopen
  exact absurd (hopen.symm.trans h) (by simp)

theorem writersCovered_of_busy (s : State T V) (h : s.writter_in_zone_ = true) :
    WritersCovered s := by
  intro _ hfree
  exact absurd (hfree.symm.trans h) (by simp)

theorem readersCovered_of_closed (s : State T V) (h : s.closed_ = true) : ReadersCovered s := by
  intro hopen
  exact absurd (hopen.symm.trans h) (by simp)

theorem readersCovered_of_read (s : State T V)
    (h : ¬ (s.reader_in_zone_ = false ∧ s.writter_in_zone_ = true)) : ReadersCovered s := by
  intro _ hbusy hunread
  exact absurd ⟨hunread, hbusy⟩ h

theorem shutCovered_of_open (s : State T V) (h : s.closed_ = false) : ShutCovered s := by
  intro hclosed
  exact absurd (h.symm.trans hclosed) (by simp)

variable [DecidableEq T]

theorem WritersCovered.goto {s : State T V} (h : WritersCovered s) (t : T) (p : Pc V)
    (hwaits : p.onWriters = true → (s.pc t).onWriters = true)
    (hcover : testsTurn (s.pc t) = true → testsTurn p = true) : WritersCovered (s.goto t p) :=
  fun hopen hfree => (h hopen hfree).goto t p hwaits hcover

theorem ReadersCovered.goto {s : State T V} (h : ReadersCovered s) (t : T) (p : Pc V)
    (hwaits : p.onReaders = true → (s.pc t).onReaders = true)
    (hcover : testsWriter (s.pc t) = true → testsWriter p = true) : ReadersCovered (s.goto t p) :=
  fun hopen hbusy hunread => (h hopen hbusy hunread).goto t p hwaits hcover

variable [Fintype T]

/-- What a notification leaves alone. -/
theorem notifyOne_members (s s' : State T V) (waits : Pc V → Bool) (choice : Option T)
    (h : s.notifyOne waits choice = some s') : s' = { s with pc := s'.pc } := by
  rcases notifyOne_eq_some s s' waits choice h with hsame | hone
  · rw [hsame.1]
  · obtain ⟨u, _, rfl⟩ := hone
    rfl

theorem writersCovered_step (s : State T V) (a : Act T V) (s' : State T V)
    (h : step s a = some s') (hcov : WritersCovered s) : WritersCovered s' := by
  cases step_move s s' a h with
  | call t op hpc =>
    refine hcov.goto t _ ?_ ?_
    · cases op <;> simp [enter, Pc.onWriters]
    · simp [hpc, testsTurn]
  | wake t arrival _ _ =>
    exact hcov.goto t _ (lasting_writers _ arrival).1 (lasting_writers _ arrival).2
  | lateWrite t item hpc => exact hcov.goto t _ (by simp [Pc.onWriters]) (by simp [testsTurn])
  | lateHand t item hpc =>
    exact hcov.goto t _ (by simp [Pc.onWriters]) (by simp [hpc, testsTurn])
  | lateRead t hpc => exact hcov.goto t _ (by simp [Pc.onWriters]) (by simp [hpc, testsTurn])
  | writeClosed t choice item arrival hpc hclosed => exact writersCovered_of_closed _ hclosed
  | enterZone t choice item arrival s₁ hpc hopen hfree hnotify =>
    apply writersCovered_of_busy
    show s₁.writter_in_zone_ = true
    rw [notifyOne_members _ s₁ _ choice hnotify]
  | writeLapse t choice item hpc hopen hbusy => exact writersCovered_of_busy _ hbusy
  | writeWait t choice item arrival hpc hopen hbusy => exact writersCovered_of_busy _ hbusy
  | handClosed t choice item arrival hpc hclosed hunread => exact writersCovered_of_closed _ hclosed
  | handDone t choice item arrival _ hpc hread hnotify =>
    intro _ _
    apply covered_notifyOne _ s' choice _ hnotify
    intro p hp
    cases p <;> simp [Pc.onWriters, Pc.woken, testsTurn] at hp ⊢
  | handLapse t choice item _ hpc hopen hunread hnotify =>
    intro _ _
    apply covered_notifyOne _ s' choice _ hnotify
    intro p hp
    cases p <;> simp [Pc.onWriters, Pc.woken, testsTurn] at hp ⊢
  | handWait t choice item arrival hpc hopen hunread =>
    exact hcov.goto t _ (by simp [Pc.onWriters]) (by simp [hpc, testsTurn])
  | readClosed t choice arrival hpc hclosed => exact writersCovered_of_closed _ hclosed
  | readDangling t choice arrival hpc hopen hunread hbusy hitem =>
    exact writersCovered_of_busy _ hbusy
  | readTake t choice arrival item _ hpc hopen hunread hbusy hitem hnotify =>
    apply writersCovered_of_busy
    rw [notifyOne_members _ s' _ choice hnotify]
    exact hbusy
  | readLapse t choice hpc hopen hnone =>
    exact hcov.goto t _ (by simp [Pc.onWriters]) (by simp [hpc, testsTurn])
  | readWait t choice arrival hpc hopen hnone =>
    exact hcov.goto t _ (by simp [Pc.onWriters]) (by simp [hpc, testsTurn])
  | closeTwice t choice hpc hclosed => exact writersCovered_of_closed _ hclosed
  | closeDone t choice hpc hopen => exact writersCovered_of_closed _ rfl
  | wakeWriters t choice hpc =>
    intro hopen hfree
    refine ((hcov hopen hfree).notifyAll lasting_writers _).goto t _ (by simp [Pc.onWriters]) ?_
    show testsTurn (if Pc.onWriters (s.pc t) then _ else s.pc t) = true → _
    simp [hpc, Pc.onWriters, testsTurn]
  | wakeReaders t choice hpc =>
    intro hopen hfree
    refine ((hcov hopen hfree).notifyAll lasting_writers _).goto t _ (by simp [Pc.onWriters]) ?_
    show testsTurn (if Pc.onReaders (s.pc t) then _ else s.pc t) = true → _
    simp [hpc, Pc.onReaders, testsTurn]
  | wakeHandshake t choice _ hpc hnotify =>
    intro hopen hfree
    rw [notifyOne_members _ s' _ choice hnotify] at hopen hfree
    have hgoto := (hcov hopen hfree).goto t .idle (by simp [Pc.onWriters])
      (by simp [hpc, testsTurn])
    exact hgoto.notifyOne s' lasting_writers _ choice hnotify

/-- A thread that does not wait is not moved. -/
theorem notifyOne_pc (s s' : State T V) (waits : Pc V → Bool) (choice : Option T) (t : T)
    (h : s.notifyOne waits choice = some s') (ht : waits (s.pc t) = false) :
    s'.pc t = s.pc t := by
  rcases notifyOne_eq_some s s' waits choice h with hsame | hone
  · rw [hsame.1]
  · obtain ⟨u, hu, rfl⟩ := hone
    apply goto_pc_of_ne
    intro htu
    rw [htu, hu] at ht
    cases ht

theorem readersCovered_step (s : State T V) (a : Act T V) (s' : State T V)
    (h : step s a = some s') (hinv : Inv s) (hcov : ReadersCovered s) : ReadersCovered s' := by
  cases step_move s s' a h with
  | call t op hpc =>
    refine hcov.goto t _ ?_ ?_
    · cases op <;> simp [enter, Pc.onReaders]
    · simp [hpc, testsWriter]
  | wake t arrival _ _ =>
    exact hcov.goto t _ (lasting_readers _ arrival).1 (lasting_readers _ arrival).2
  | lateWrite t item hpc =>
    exact hcov.goto t _ (by simp [Pc.onReaders]) (by simp [hpc, testsWriter])
  | lateHand t item hpc =>
    exact hcov.goto t _ (by simp [Pc.onReaders]) (by simp [hpc, testsWriter])
  | lateRead t hpc => exact hcov.goto t _ (by simp [Pc.onReaders]) (by simp [testsWriter])
  | writeClosed t choice item arrival hpc hclosed => exact readersCovered_of_closed _ hclosed
  | enterZone t choice item arrival s₁ hpc hopen hfree hnotify =>
    intro _ _ _
    have hcovered : Covered Pc.onReaders testsWriter s₁.pc := by
      apply covered_notifyOne _ s₁ choice _ hnotify
      intro p hp
      cases p <;> simp [Pc.onReaders, Pc.woken, testsWriter] at hp ⊢
    have hpc₁ : s₁.pc t = .writing item arrival :=
      (notifyOne_pc _ s₁ _ choice t hnotify (by simp [hpc, Pc.onReaders])).trans hpc
    refine hcovered.goto t _ ?_ ?_
    · split_ifs <;> simp [Pc.onReaders]
    · simp [hpc₁, testsWriter]
  | writeLapse t choice item hpc hopen hbusy =>
    exact hcov.goto t _ (by simp [Pc.onReaders]) (by simp [hpc, testsWriter])
  | writeWait t choice item arrival hpc hopen hbusy =>
    exact hcov.goto t _ (by simp [Pc.onReaders]) (by simp [hpc, testsWriter])
  | handClosed t choice item arrival hpc hclosed hunread => exact readersCovered_of_closed _ hclosed
  | handDone t choice item arrival _ hpc hread hnotify =>
    apply readersCovered_of_read
    rw [notifyOne_members _ s' _ choice hnotify]
    simp [State.goto]
  | handLapse t choice item _ hpc hopen hunread hnotify =>
    apply readersCovered_of_read
    rw [notifyOne_members _ s' _ choice hnotify]
    simp [State.goto]
  | handWait t choice item arrival hpc hopen hunread =>
    exact hcov.goto t _ (by simp [Pc.onReaders]) (by simp [hpc, testsWriter])
  | readClosed t choice arrival hpc hclosed => exact readersCovered_of_closed _ hclosed
  | readDangling t choice arrival hpc hopen hunread hbusy hitem =>
    obtain ⟨_, item, _, _, hzone⟩ := hinv.exists_zoneItem hbusy
    exact absurd (hitem.symm.trans hzone) (by simp)
  | readTake t choice arrival item _ hpc hopen hunread hbusy hitem hnotify =>
    apply readersCovered_of_read
    rw [notifyOne_members _ s' _ choice hnotify]
    simp [State.goto]
  | readLapse t choice hpc hopen hnone => exact readersCovered_of_read _ hnone
  | readWait t choice arrival hpc hopen hnone => exact readersCovered_of_read _ hnone
  | closeTwice t choice hpc hclosed => exact readersCovered_of_closed _ hclosed
  | closeDone t choice hpc hopen => exact readersCovered_of_closed _ rfl
  | wakeWriters t choice hpc =>
    intro hopen hbusy hunread
    refine ((hcov hopen hbusy hunread).notifyAll lasting_readers _).goto t _
      (by simp [Pc.onReaders]) ?_
    show testsWriter (if Pc.onWriters (s.pc t) then _ else s.pc t) = true → _
    simp [hpc, Pc.onWriters, testsWriter]
  | wakeReaders t choice hpc =>
    intro hopen hbusy hunread
    refine ((hcov hopen hbusy hunread).notifyAll lasting_readers _).goto t _
      (by simp [Pc.onReaders]) ?_
    show testsWriter (if Pc.onReaders (s.pc t) then _ else s.pc t) = true → _
    simp [hpc, Pc.onReaders, testsWriter]
  | wakeHandshake t choice _ hpc hnotify =>
    intro hopen hbusy hunread
    rw [notifyOne_members _ s' _ choice hnotify] at hopen hbusy hunread
    have hgoto := (hcov hopen hbusy hunread).goto t .idle (by simp [Pc.onReaders])
      (by simp [hpc, testsWriter])
    exact hgoto.notifyOne s' lasting_readers _ choice hnotify

omit [Fintype T] in
/-- A thread of a closed channel that neither goes to wait nor notifies. -/
theorem ShutCovered.goto {s : State T V} (h : ShutCovered s) (t : T) (p : Pc V)
    (hwriters : p.onWriters = true → (s.pc t).onWriters = true)
    (hreaders : p.onReaders = true → (s.pc t).onReaders = true)
    (hhandshake : p.onHandshake = true → (s.pc t).onHandshake = true)
    (hclose : beforeHandshake (s.pc t) = false) : ShutCovered (s.goto t p) := by
  intro hclosed
  obtain ⟨hw, hr, hh⟩ := h hclosed
  have hnotW : beforeWriters (s.pc t) = false := by
    cases hpc : s.pc t <;> simp [hpc, beforeWriters, beforeHandshake] at hclose ⊢
  have hnotR : beforeReaders (s.pc t) = false := by
    cases hpc : s.pc t <;> simp [hpc, beforeReaders, beforeHandshake] at hclose ⊢
  exact ⟨hw.goto t p hwriters (by simp [hnotW]), hr.goto t p hreaders (by simp [hnotR]),
    hh.goto t p hhandshake (by simp [hclose])⟩

omit [Fintype T] in
theorem ShutCovered.wake {s : State T V} (h : ShutCovered s) (t : T) (arrival : Arrival) :
    ShutCovered (s.goto t ((s.pc t).woken arrival)) := by
  intro hclosed
  obtain ⟨hw, hr, hh⟩ := h hclosed
  exact ⟨hw.goto t _ (lasting_closedWriters _ _).1 (lasting_closedWriters _ _).2,
    hr.goto t _ (lasting_closedReaders _ _).1 (lasting_closedReaders _ _).2,
    hh.goto t _ (lasting_closedHandshake _ _).1 (lasting_closedHandshake _ _).2⟩

theorem ShutCovered.notifyOne {s : State T V} (s' : State T V) (h : ShutCovered s)
    (waits : Pc V → Bool) (choice : Option T) (hnotify : s.notifyOne waits choice = some s') :
    ShutCovered s' := by
  rcases notifyOne_eq_some s s' waits choice hnotify with hsame | hone
  · rw [hsame.1]
    exact h
  · obtain ⟨u, _, rfl⟩ := hone
    exact h.wake u .notified

omit [DecidableEq T] [Fintype T] in
/-- After notify_all nobody is left on the condition. -/
theorem notifyAll_none (s : State T V) (waits : Pc V → Bool)
    (hwoken : ∀ p arrival, waits p = true → waits (p.woken arrival) = false) (t : T) :
    waits ((s.notifyAll waits).pc t) = false := by
  show waits (if waits (s.pc t) then (s.pc t).woken .notified else s.pc t) = false
  split_ifs with hwaits
  · exact hwoken _ _ hwaits
  · simpa using hwaits

theorem shutCovered_step (s : State T V) (a : Act T V) (s' : State T V)
    (h : step s a = some s') (hinv : Inv s) (hcov : ShutCovered s) : ShutCovered s' := by
  cases step_move s s' a h with
  | call t op hpc =>
    refine hcov.goto t _ ?_ ?_ ?_ (by simp [hpc, beforeHandshake])
    · cases op <;> simp [enter, Pc.onWriters]
    · cases op <;> simp [enter, Pc.onReaders]
    · cases op <;> simp [enter, Pc.onHandshake]
  | wake t arrival _ _ => exact hcov.wake t arrival
  | lateWrite t item hpc =>
    exact hcov.goto t _ (by simp [Pc.onWriters]) (by simp [Pc.onReaders]) (by simp [Pc.onHandshake])
      (by simp [hpc, beforeHandshake])
  | lateHand t item hpc =>
    exact hcov.goto t _ (by simp [Pc.onWriters]) (by simp [Pc.onReaders]) (by simp [Pc.onHandshake])
      (by simp [hpc, beforeHandshake])
  | lateRead t hpc =>
    exact hcov.goto t _ (by simp [Pc.onWriters]) (by simp [Pc.onReaders]) (by simp [Pc.onHandshake])
      (by simp [hpc, beforeHandshake])
  | writeClosed t choice item arrival hpc hclosed =>
    intro _
    obtain ⟨hw, hr, hh⟩ := hcov hclosed
    exact ⟨hw, hr, hh⟩
  | enterZone t choice item arrival s₁ hpc hopen hfree hnotify =>
    apply shutCovered_of_open
    show s₁.closed_ = false
    rw [notifyOne_members _ s₁ _ choice hnotify]
    exact hopen
  | writeLapse t choice item hpc hopen hbusy => exact shutCovered_of_open _ hopen
  | writeWait t choice item arrival hpc hopen hbusy => exact shutCovered_of_open _ hopen
  | handClosed t choice item arrival hpc hclosed hunread =>
    intro _
    obtain ⟨hw, hr, hh⟩ := hcov hclosed
    exact ⟨hw, hr, hh⟩
  | handDone t choice item arrival _ hpc hread hnotify =>
    refine ShutCovered.notifyOne s' ?_ _ choice hnotify
    intro hclosed
    obtain ⟨hw, hr, hh⟩ := hcov.goto t .idle (by simp [Pc.onWriters]) (by simp [Pc.onReaders])
      (by simp [Pc.onHandshake]) (by simp [hpc, beforeHandshake]) hclosed
    exact ⟨hw, hr, hh⟩
  | handLapse t choice item _ hpc hopen hunread hnotify =>
    apply shutCovered_of_open
    rw [notifyOne_members _ s' _ choice hnotify]
    exact hopen
  | handWait t choice item arrival hpc hopen hunread => exact shutCovered_of_open _ hopen
  | readClosed t choice arrival hpc hclosed =>
    exact hcov.goto t _ (by simp [Pc.onWriters]) (by simp [Pc.onReaders]) (by simp [Pc.onHandshake])
      (by simp [hpc, beforeHandshake])
  | readDangling t choice arrival hpc hopen hunread hbusy hitem => exact shutCovered_of_open _ hopen
  | readTake t choice arrival item _ hpc hopen hunread hbusy hitem hnotify =>
    apply shutCovered_of_open
    rw [notifyOne_members _ s' _ choice hnotify]
    exact hopen
  | readLapse t choice hpc hopen hnone => exact shutCovered_of_open _ hopen
  | readWait t choice arrival hpc hopen hnone => exact shutCovered_of_open _ hopen
  | closeTwice t choice hpc hclosed =>
    intro _
    obtain ⟨hw, hr, hh⟩ := hcov hclosed
    exact ⟨hw, hr, hh⟩
  | closeDone t choice hpc hopen =>
    intro _
    exact ⟨covered_of_cover _ t (by simp [beforeWriters]),
      covered_of_cover _ t (by simp [beforeReaders]),
      covered_of_cover _ t (by simp [beforeHandshake])⟩
  | wakeWriters t choice hpc =>
    intro _
    refine ⟨covered_of_none _ ?_, covered_of_cover _ t (by simp [beforeReaders]),
      covered_of_cover _ t (by simp [beforeHandshake])⟩
    intro u
    rw [goto_pc]
    split_ifs
    · rfl
    · exact notifyAll_none s _ (by intro p arrival; cases p <;> simp [Pc.onWriters, Pc.woken]) u
  | wakeReaders t choice hpc =>
    intro hclosed
    obtain ⟨hw, _, _⟩ := hcov hclosed
    refine ⟨?_, covered_of_none _ ?_, covered_of_cover _ t (by simp [beforeHandshake])⟩
    · refine (hw.notifyAll lasting_closedWriters _).goto t _ (by simp [Pc.onWriters]) ?_
      show beforeWriters (if Pc.onReaders (s.pc t) then _ else s.pc t) = true → _
      simp [hpc, Pc.onReaders, beforeWriters]
    · intro u
      rw [goto_pc]
      split_ifs
      · rfl
      · exact notifyAll_none s _ (by intro p arrival; cases p <;> simp [Pc.onReaders, Pc.woken]) u
  | wakeHandshake t choice _ hpc hnotify =>
    intro hclosed
    rw [notifyOne_members _ s' _ choice hnotify] at hclosed
    obtain ⟨hw, hr, _⟩ := hcov hclosed
    have hw' := hw.goto t .idle (by simp [Pc.onWriters]) (by simp [hpc, beforeWriters])
    have hr' := hr.goto t .idle (by simp [Pc.onReaders]) (by simp [hpc, beforeReaders])
    refine ⟨hw'.notifyOne s' lasting_closedWriters _ choice hnotify,
      hr'.notifyOne s' lasting_closedReaders _ choice hnotify, covered_of_none _ ?_⟩
    -- one notification is enough: the zone has one writer
    have hgoto := (Quiet.outside s t .idle (by simp [hpc, Pc.inZone]) rfl).inv hinv
    exact notifyOne_handshake _ s' choice hgoto.eq_of_inZone hnotify

theorem covered_reachable (s : State T V) (h : Reachable step init s) :
    Inv s ∧ WritersCovered s ∧ ReadersCovered s ∧ ShutCovered s := by
  apply reachable_invariant
    (P := fun s => Inv s ∧ WritersCovered s ∧ ReadersCovered s ∧ ShutCovered s) _ h
  · refine ⟨inv_init, ?_, ?_, shutCovered_of_open _ rfl⟩
    · intro _ _
      exact covered_of_none _ fun _ => rfl
    · exact readersCovered_of_read _ (by simp [init])
  · intro s a s' hstep hs
    obtain ⟨hinv, hwriters, hreaders, hshut⟩ := hs
    exact ⟨inv_step s a s' hstep hinv, writersCovered_step s a s' hstep hwriters,
      readersCovered_step s a s' hstep hinv hreaders, shutCovered_step s a s' hstep hinv hshut⟩

theorem exists_writing (p : Pc V) (h : testsTurn p = true) :
    ∃ item arrival, p = .writing item arrival := by
  cases p with
  | writing item arrival => exact ⟨item, arrival, rfl⟩
  | _ => simp [testsTurn] at h

theorem exists_reading (p : Pc V) (h : testsWriter p = true) : ∃ arrival, p = .reading arrival := by
  cases p with
  | reading arrival => exact ⟨arrival, rfl⟩
  | _ => simp [testsWriter] at h

/-- While the zone is free, a blocked writer has another one on its way there. -/
theorem exists_writing_of_blocked (s : State T V) (h : Reachable step init s)
    (hopen : s.closed_ = false) (hfree : s.writter_in_zone_ = false)
    (hblocked : ∃ t, (s.pc t).onWriters = true) :
    ∃ u item arrival, s.pc u = .writing item arrival := by
  obtain ⟨u, hu⟩ := (covered_reachable s h).2.1 hopen hfree hblocked
  exact ⟨u, exists_writing _ hu⟩

/-- While the zone holds an unread value, a blocked reader has another one on its way there. -/
theorem exists_reading_of_blocked (s : State T V) (h : Reachable step init s)
    (hopen : s.closed_ = false) (hbusy : s.writter_in_zone_ = true)
    (hunread : s.reader_in_zone_ = false) (hblocked : ∃ t, (s.pc t).onReaders = true) :
    ∃ u arrival, s.pc u = .reading arrival := by
  obtain ⟨u, hu⟩ := (covered_reachable s h).2.2.1 hopen hbusy hunread hblocked
  exact ⟨u, exists_reading _ hu⟩

/-- No wake-up is lost. A writer blocked while the zone is free, or a reader blocked while
it holds an unread value, has another of its kind on its way there; the writer whose value
was read is awake; and once Close has notified, nobody is blocked. -/
theorem no_lost_wakeup (s : State T V) (h : Reachable step init s) :
    (s.closed_ = false → s.writter_in_zone_ = false → (∃ t, (s.pc t).onWriters = true) →
      ∃ u item arrival, s.pc u = .writing item arrival) ∧
    (s.closed_ = false → s.writter_in_zone_ = true → s.reader_in_zone_ = false →
      (∃ t, (s.pc t).onReaders = true) → ∃ u arrival, s.pc u = .reading arrival) ∧
    (s.reader_in_zone_ = true → ∀ t, (s.pc t).onHandshake = false) ∧
    (s.closed_ = true → (∀ t, beforeHandshake (s.pc t) = false) → ∀ t,
      (s.pc t).onWriters = false ∧ (s.pc t).onReaders = false ∧ (s.pc t).onHandshake = false) := by
  refine ⟨exists_writing_of_blocked s h, exists_reading_of_blocked s h,
    (covered_reachable s h).1.awake, ?_⟩
  · intro hclosed hdone t
    obtain ⟨hw, hr, hh⟩ := (covered_reachable s h).2.2.2 hclosed
    have hnone : ∀ waits cover : Pc V → Bool, Covered waits cover s.pc →
        (∀ p, cover p = true → beforeHandshake p = true) → waits (s.pc t) = false := by
      intro waits cover hcov hsub
      by_contra hne
      obtain ⟨u, hu⟩ := hcov ⟨t, by simpa using hne⟩
      exact absurd ((hdone u).symm.trans (hsub _ hu)) (by simp)
    refine ⟨hnone _ _ hw ?_, hnone _ _ hr ?_, hnone _ _ hh fun _ hp => hp⟩
    · intro p hp
      cases p <;> simp [beforeWriters, beforeHandshake] at hp ⊢
    · intro p hp
      cases p <;> simp [beforeReaders, beforeHandshake] at hp ⊢

/-- Threads 1 and 2 have blocked in Read; thread 0 enters the zone and wakes one of them. The
other one stays blocked. -/
theorem no_lost_wakeup_read :
    ∃ s : State (Fin 3) ℕ, run step init [.call 1 .read, .lock 1 none, .call 2 .read,
        .lock 2 none, .call 0 (.write 7), .lock 0 (some 1)] = some s ∧
      (s.pc 2).onReaders = true ∧ ∃ u arrival, s.pc u = .reading arrival := by
  refine ⟨_, rfl, rfl, ?_⟩
  exact (no_lost_wakeup _ ⟨[.call 1 .read, .lock 1 none, .call 2 .read, .lock 2 none,
    .call 0 (.write 7), .lock 0 (some 1)], rfl⟩).2.1 rfl rfl rfl ⟨2, rfl⟩

/-- Only the next critical section of some thread. -/
def Locks (a : Act T V) : Prop := ∃ t choice, a = .lock t choice

/-- A read in progress. -/
def reads : Pc V → Bool
  | .reading _ => true
  | .awaitWriter => true
  | _ => false

theorem notifyOne_enabled (s : State T V) (waits : Pc V → Bool) :
    ∃ choice s', s.notifyOne waits choice = some s' := by
  by_cases hnone : ∀ u, waits (s.pc u) = false
  · exact ⟨none, s, if_pos hnone⟩
  · push Not at hnone
    obtain ⟨u, hu⟩ := hnone
    exact ⟨some u, _, if_pos (by simpa using hu)⟩

theorem notifyOne_item (s s' : State T V) (waits : Pc V → Bool) (choice : Option T) (w : T)
    (h : s.notifyOne waits choice = some s') : (s'.pc w).item? = (s.pc w).item? := by
  rcases notifyOne_eq_some s s' waits choice h with hsame | hone
  · rw [hsame.1]
  · obtain ⟨u, _, rfl⟩ := hone
    rw [goto_pc]
    split_ifs with hwu
    · rw [hwu]
      exact item?_woken _ _
    · rfl

theorem notifyOne_reads (s s' : State T V) (waits : Pc V → Bool) (choice : Option T) (w : T)
    (h : s.notifyOne waits choice = some s') : reads (s'.pc w) = reads (s.pc w) := by
  rcases notifyOne_eq_some s s' waits choice h with hsame | hone
  · rw [hsame.1]
  · obtain ⟨u, _, rfl⟩ := hone
    rw [goto_pc]
    split_ifs with hwu
    · rw [hwu]
      cases s.pc u <;> rfl
    · rfl

/-- The writer that was read finds out and returns. -/
theorem exists_acknowledge (s : State T V) (hinv : Inv s) (hfault : s.fault = none)
    (hread : s.reader_in_zone_ = true) :
    ∃ t item choice s', (s.pc t).item? = some item ∧ step s (.lock t choice) = some s' ∧
      s'.delivered = s.delivered ++ [(t, item)] := by
  obtain ⟨t, item, hzone, hitem, _⟩ := hinv.exists_zoneItem (hinv.reader hread)
  have hawake := hinv.awake hread t
  rcases hpc : s.pc t with _ | _ | _ | ⟨item', arrival⟩ | item' | _ | _ | _ | _ | _ | _ <;>
    simp [hpc, Pc.inZone, Pc.onHandshake, Pc.item?] at hzone hawake hitem
  obtain ⟨choice, s', hnotify⟩ := notifyOne_enabled ({ s with
      writter_in_zone_ := false
      reader_in_zone_ := false
      delivered := s.delivered ++ [(t, item')] }.goto t .idle) Pc.onWriters
  refine ⟨t, item', choice, s', by simp [hpc, Pc.item?], ?_, ?_⟩
  · simpa [step, hfault, hpc, State.hand, hread] using hnotify
  · rw [notifyOne_members _ s' _ choice hnotify]
    rfl

/-- A reader takes the value in the zone. -/
theorem exists_take (s : State T V) (hinv : Inv s) (hfault : s.fault = none)
    (hopen : s.closed_ = false) (hbusy : s.writter_in_zone_ = true)
    (hunread : s.reader_in_zone_ = false) (u : T) (arrival : Arrival)
    (hpc : s.pc u = .reading arrival) :
    ∃ choice s', step s (.lock u choice) = some s' ∧ s'.fault = none ∧
      s'.reader_in_zone_ = true ∧ s'.delivered = s.delivered ∧
      ∀ w, (s'.pc w).item? = (s.pc w).item? := by
  obtain ⟨_, item, _, _, hitem⟩ := hinv.exists_zoneItem hbusy
  obtain ⟨choice, s', hnotify⟩ := notifyOne_enabled ({ s with
      reader_in_zone_ := true
      received := s.received ++ [(u, item)] }.goto u .idle) Pc.onHandshake
  have hmembers := notifyOne_members _ s' _ choice hnotify
  refine ⟨choice, s', ?_, ?_, ?_, ?_, ?_⟩
  · have hitem' : (s.item_.bind fun w => (s.pc w).item?) = some item := hitem
    simpa [step, hfault, hpc, State.read, hopen, hbusy, hunread, hitem'] using hnotify
  · rw [hmembers]
    exact hfault
  · rw [hmembers]
    rfl
  · rw [hmembers]
    rfl
  · intro w
    rw [notifyOne_item _ s' _ choice w hnotify, goto_pc]
    split_ifs with hwu
    · rw [hwu, hpc]
      rfl
    · rfl

/-- A writer enters the free zone; who reads goes on reading. -/
theorem exists_enter (s : State T V) (hinv : Inv s) (hfault : s.fault = none)
    (hopen : s.closed_ = false) (hfree : s.writter_in_zone_ = false) (t : T) (item : V)
    (arrival : Arrival) (hpc : s.pc t = .writing item arrival) :
    ∃ choice s', step s (.lock t choice) = some s' ∧ s'.fault = none ∧ s'.closed_ = false ∧
      s'.writter_in_zone_ = true ∧ s'.reader_in_zone_ = false ∧ s'.delivered = s.delivered ∧
      ∀ w, (s'.pc w).item? = (s.pc w).item? ∧ reads (s'.pc w) = reads (s.pc w) := by
  obtain ⟨choice, s₁, hnotify⟩ := notifyOne_enabled
    { s with writter_in_zone_ := true, item_ := some t } Pc.onReaders
  have hmembers := notifyOne_members _ s₁ _ choice hnotify
  have hunread : s₁.reader_in_zone_ = false := by
    rw [hmembers]
    exact hinv.unread hfree
  refine ⟨choice, s₁.goto t (.awaitReader item), ?_, ?_, ?_, ?_, hunread, ?_, ?_⟩
  · have hstep : step s (.lock t choice) = s.write t item arrival choice := by
      simp [step, hfault, hpc]
    have hwrite : s.write t item arrival choice =
        ({ s with writter_in_zone_ := true, item_ := some t }.notifyOne Pc.onReaders choice).map
          fun s : State T V => s.goto t
            (if s.reader_in_zone_ then .handing item .fresh else .awaitReader item) := by
      simp [State.write, hopen, hfree]
    rw [hstep, hwrite, hnotify]
    simp [hunread]
  · show s₁.fault = none
    rw [hmembers]
    exact hfault
  · show s₁.closed_ = false
    rw [hmembers]
    exact hopen
  · show s₁.writter_in_zone_ = true
    rw [hmembers]
  · show s₁.delivered = s.delivered
    rw [hmembers]
  · intro w
    rw [goto_pc]
    split_ifs with hwt
    · rw [hwt, hpc]
      exact ⟨rfl, rfl⟩
    · have hitem := notifyOne_item _ s₁ _ choice w hnotify
      have hreads := notifyOne_reads _ s₁ _ choice w hnotify
      exact ⟨hitem, hreads⟩

/-- With an unread value in the zone two critical sections are enough. -/
theorem exists_handoff_busy (s : State T V) (h : Reachable step init s) (hfault : s.fault = none)
    (hopen : s.closed_ = false) (hbusy : s.writter_in_zone_ = true)
    (hunread : s.reader_in_zone_ = false) (hreads : ∃ u, reads (s.pc u) = true) :
    ∃ actions s' t item, (∀ a ∈ actions, Locks a) ∧ actions.length = 2 ∧
      run step s actions = some s' ∧ (s.pc t).item? = some item ∧
      s'.delivered = s.delivered ++ [(t, item)] := by
  have hreading : ∃ u arrival, s.pc u = .reading arrival := by
    obtain ⟨u, hu⟩ := hreads
    rcases hpc : s.pc u with _ | _ | _ | _ | _ | arrival | _ | _ | _ | _ | _ <;>
      simp [hpc, reads] at hu
    · exact ⟨u, arrival, hpc⟩
    · exact exists_reading_of_blocked s h hopen hbusy hunread ⟨u, by simp [hpc, Pc.onReaders]⟩
  obtain ⟨u, arrival, hpc⟩ := hreading
  have hinv := inv_reachable s h
  obtain ⟨c₁, s₁, hstep₁, hfault₁, hread₁, hdelivered₁, hitem₁⟩ :=
    exists_take s hinv hfault hopen hbusy hunread u arrival hpc
  obtain ⟨t, item, c₂, s₂, hitem₂, hstep₂, hdelivered₂⟩ :=
    exists_acknowledge s₁ (inv_step s _ s₁ hstep₁ hinv) hfault₁ hread₁
  refine ⟨[.lock u c₁, .lock t c₂], s₂, t, item, ?_, rfl, ?_, ?_, ?_⟩
  · intro a ha
    simp only [List.mem_cons, List.not_mem_nil, or_false] at ha
    rcases ha with rfl | rfl
    · exact ⟨u, c₁, rfl⟩
    · exact ⟨t, c₂, rfl⟩
  · simp [run, hstep₁, hstep₂]
  · rw [← hitem₁ t]
    exact hitem₂
  · rw [hdelivered₂, hdelivered₁]

/-- A write and a read in progress on an open channel can always meet: at most three
critical sections end one of the writes in progress with its value read. -/
theorem handoff_completes (s : State T V) (h : Reachable step init s) (hfault : s.fault = none)
    (hopen : s.closed_ = false) (hwrites : ∃ t, (s.pc t).item?.isSome = true)
    (hreads : ∃ u, reads (s.pc u) = true) :
    ∃ actions s' t item, (∀ a ∈ actions, Locks a) ∧ actions.length ≤ 3 ∧
      run step s actions = some s' ∧ (s.pc t).item? = some item ∧
      s'.delivered = s.delivered ++ [(t, item)] := by
  have hinv := inv_reachable s h
  by_cases hread : s.reader_in_zone_ = true
  · obtain ⟨t, item, c, s', hitem, hstep, hdelivered⟩ := exists_acknowledge s hinv hfault hread
    refine ⟨[.lock t c], s', t, item, ?_, by simp, by simp [run, hstep], hitem, hdelivered⟩
    intro a ha
    exact ⟨t, c, List.mem_singleton.mp ha⟩
  · have hunread : s.reader_in_zone_ = false := by simpa using hread
    by_cases hbusy : s.writter_in_zone_ = true
    · obtain ⟨actions, s', t, item, hlocks, hlength, hrun, hitem, hdelivered⟩ :=
        exists_handoff_busy s h hfault hopen hbusy hunread hreads
      exact ⟨actions, s', t, item, hlocks, by omega, hrun, hitem, hdelivered⟩
    · have hfree : s.writter_in_zone_ = false := by simpa using hbusy
      have hwriting : ∃ t item arrival, s.pc t = .writing item arrival := by
        obtain ⟨t, ht⟩ := hwrites
        have hout := hinv.free hfree t
        rcases hpc : s.pc t with _ | ⟨item, arrival⟩ | _ | _ | _ | _ | _ | _ | _ | _ | _ <;>
          simp [hpc, Pc.inZone, Pc.item?] at hout ht
        · exact ⟨t, item, arrival, hpc⟩
        · exact exists_writing_of_blocked s h hopen hfree ⟨t, by simp [hpc, Pc.onWriters]⟩
      obtain ⟨w, value, arrival, hpc⟩ := hwriting
      obtain ⟨c, s₁, hstep, hfault₁, hopen₁, hbusy₁, hunread₁, hdelivered₁, hplaces⟩ :=
        exists_enter s hinv hfault hopen hfree w value arrival hpc
      have hreads₁ : ∃ u, reads (s₁.pc u) = true := by
        obtain ⟨u, hu⟩ := hreads
        exact ⟨u, (hplaces u).2.trans hu⟩
      obtain ⟨actions, s', t, item, hlocks, hlength, hrun, hitem, hdelivered⟩ :=
        exists_handoff_busy s₁ (reachable_step h hstep) hfault₁ hopen₁ hbusy₁ hunread₁ hreads₁
      refine ⟨.lock w c :: actions, s', t, item, ?_, by simp [hlength], ?_, ?_, ?_⟩
      · intro a ha
        rcases List.mem_cons.mp ha with rfl | ha
        · exact ⟨w, c, rfl⟩
        · exact hlocks a ha
      · simp [run, hstep, hrun]
      · rw [← (hplaces t).1]
        exact hitem
      · rw [hdelivered, hdelivered₁]

/-- Thread 1 blocks in Read with nobody there, then thread 0 calls Write. -/
theorem handoff_completes_blocked :
    let blocked : List (Act Bool ℕ) := [.call true .read, .lock true none, .call false (.write 7)]
    ∃ s : State Bool ℕ, run step init blocked = some s ∧
      ∃ actions s' t item, (∀ a ∈ actions, Locks a) ∧ actions.length ≤ 3 ∧
        run step s actions = some s' ∧ (s.pc t).item? = some item ∧
        s'.delivered = s.delivered ++ [(t, item)] := by
  intro blocked
  refine ⟨_, rfl, ?_⟩
  exact handoff_completes _ ⟨blocked, rfl⟩ rfl rfl ⟨false, rfl⟩ ⟨true, rfl⟩

end JvmTrace.ChannelWakeups
