import JvmTrace.ChannelWakeups
import JvmTrace.Rendezvous

/-!
The channel as a place where writers and readers meet. A Write in progress offers its
value, a Read in progress asks, and the critical section in which a reader takes *item_
is the meeting; the writer acknowledges it when it leaves the zone. Everything else, the
waits, the notifications and the way into the zone, is nothing to the meeting place.
-/
namespace JvmTrace.ChannelRefinement

open Runs UnbufferedChannel ChannelHandoff ChannelWakeups Rendezvous

variable {T V : Type*}

/-- What a thread is doing there, when the value in the zone has been read or not. -/
def placeOf (read : Bool) : Pc V → Place V
  | .writing item _ => .offering item
  | .awaitTurn item => .offering item
  | .handing item _ => if read then .served item else .offering item
  | .awaitReader item => if read then .served item else .offering item
  | .reading _ => .asking
  | .awaitWriter => .asking
  | _ => .outside

/-- The state of the channel, seen as one of the meeting place. -/
structure Refines (s : State T V) (h : Hall T V) : Prop where
  shut : h.shut = s.closed_
  place : ∀ t, h.place t = placeOf s.reader_in_zone_ (s.pc t)
  acknowledged : h.acknowledged = s.delivered
  received : h.meetings.map Meeting.got = s.received

theorem placeOf_woken (read : Bool) (p : Pc V) (arrival : Arrival) :
    placeOf read (p.woken arrival) = placeOf read p := by
  cases p <;> rfl

/-- Outside of the zone the flag says nothing. -/
theorem placeOf_of_not_inZone (read read' : Bool) (p : Pc V) (h : p.inZone = false) :
    placeOf read p = placeOf read' p := by
  cases p <;> simp [Pc.inZone] at h <;> rfl

theorem placeOf_inZone (read : Bool) (p : Pc V) (item : V) (h : p.inZone = true)
    (hitem : p.item? = some item) :
    placeOf read p = if read then .served item else .offering item := by
  cases p <;> simp [Pc.inZone, Pc.item?] at h hitem
  · rw [hitem]
    rfl
  · rw [hitem]
    rfl

theorem inZone_of_served (read : Bool) (p : Pc V) (item : V) (h : placeOf read p = .served item) :
    p.inZone = true ∧ p.item? = some item := by
  cases p <;> cases read <;> simp [placeOf, Pc.inZone, Pc.item?] at h ⊢
  · exact h
  · exact h

/-- The channel moves and the meeting place does not. -/
theorem Refines.stutter {s : State T V} {h : Hall T V} (s' : State T V) (href : Refines s h)
    (hclosed : s'.closed_ = s.closed_)
    (hplace : ∀ t, placeOf s'.reader_in_zone_ (s'.pc t) = placeOf s.reader_in_zone_ (s.pc t))
    (hdelivered : s'.delivered = s.delivered) (hreceived : s'.received = s.received) :
    Refines s' h where
  shut := href.shut.trans hclosed.symm
  place t := (href.place t).trans (hplace t).symm
  acknowledged := href.acknowledged.trans hdelivered.symm
  received := href.received.trans hreceived.symm

variable [DecidableEq T]

/-- One thread moves without a change of place. -/
theorem Refines.goto {s : State T V} {h : Hall T V} (t : T) (p : Pc V) (href : Refines s h)
    (hp : placeOf s.reader_in_zone_ p = placeOf s.reader_in_zone_ (s.pc t)) :
    Refines (s.goto t p) h := by
  refine href.stutter _ rfl ?_ rfl rfl
  intro u
  show placeOf s.reader_in_zone_ ((s.goto t p).pc u) = _
  rw [goto_pc]
  split_ifs with hut
  · rw [hut, hp]
  · rfl

/-- One thread changes its place in both. -/
theorem Refines.move {s : State T V} {h : Hall T V} (t : T) (p : Pc V) (q : Place V)
    (href : Refines s h) (hp : placeOf s.reader_in_zone_ p = q) :
    Refines (s.goto t p) (h.move t q) where
  shut := href.shut
  place u := by
    show _ = placeOf s.reader_in_zone_ ((s.goto t p).pc u)
    rw [move_place, goto_pc]
    split_ifs with hut
    · exact hp.symm
    · exact href.place u
  acknowledged := href.acknowledged
  received := href.received

omit [DecidableEq T] in
theorem Refines.notifyAll {s : State T V} {h : Hall T V} (waits : Pc V → Bool)
    (href : Refines s h) : Refines (s.notifyAll waits) h := by
  refine href.stutter _ rfl ?_ rfl rfl
  intro t
  show placeOf s.reader_in_zone_
    (if waits (s.pc t) then (s.pc t).woken .notified else s.pc t) = _
  split_ifs
  · exact placeOf_woken _ _ _
  · rfl

variable [Fintype T]

theorem Refines.notifyOne {s : State T V} {h : Hall T V} (s' : State T V) (waits : Pc V → Bool)
    (choice : Option T) (href : Refines s h) (hnotify : s.notifyOne waits choice = some s') :
    Refines s' h := by
  rcases notifyOne_eq_some s s' waits choice hnotify with hsame | hone
  · rw [hsame.1]
    exact href
  · obtain ⟨u, _, rfl⟩ := hone
    exact href.goto u _ (placeOf_woken _ _ _)

/-- The writer whose value was read leaves the zone. -/
theorem exists_acknowledged (s : State T V) (h : Hall T V) (t : T) (item : V) (hinv : Inv s)
    (href : Refines s h) (ht : (s.pc t).inZone = true) (hitem : (s.pc t).item? = some item)
    (hread : s.reader_in_zone_ = true) :
    ∃ h', Rendezvous.step h (.acknowledge t) = some h' ∧
      Refines ({ s with
        writter_in_zone_ := false
        reader_in_zone_ := false
        delivered := s.delivered ++ [(t, item)] }.goto t .idle) h' := by
  have hserved : h.place t = .served item := by
    rw [href.place t, placeOf_inZone _ _ item ht hitem, hread]
    rfl
  refine ⟨{ h.move t .outside with acknowledged := h.acknowledged ++ [(t, item)] }, ?_, ?_⟩
  · simp only [Rendezvous.step, hserved]
  · constructor
    · exact href.shut
    · intro u
      show (h.move t .outside).place u = placeOf false (Function.update s.pc t .idle u)
      rw [move_place, Function.update_apply]
      split_ifs with hut
      · rfl
      · have hout : (s.pc u).inZone = false := by
          by_contra hne
          exact hut (hinv.eq_of_inZone u t (by simpa using hne) ht)
        rw [href.place u]
        exact placeOf_of_not_inZone _ _ _ hout
    · show h.acknowledged ++ [(t, item)] = s.delivered ++ [(t, item)]
      rw [href.acknowledged]
    · exact href.received

/-- A reader takes the value in the zone. -/
theorem exists_met (s : State T V) (h : Hall T V) (t : T) (item : V) (arrival : Arrival)
    (hinv : Inv s) (href : Refines s h) (hpc : s.pc t = .reading arrival)
    (hopen : s.closed_ = false) (hunread : s.reader_in_zone_ = false)
    (hbusy : s.writter_in_zone_ = true)
    (hitem : (s.item_.bind fun w => (s.pc w).item?) = some item) :
    ∃ w h', Rendezvous.step h (.meet w t) = some h' ∧
      Refines ({ s with
        reader_in_zone_ := true
        received := s.received ++ [(t, item)] }.goto t .idle) h' := by
  obtain ⟨w, item', hw, hwitem, hzone⟩ := hinv.exists_zoneItem hbusy
  obtain rfl : item' = item := Option.some.inj (hzone.symm.trans hitem)
  have hwt : w ≠ t := by
    intro hwt
    rw [hwt, hpc] at hw
    cases hw
  have hoffering : h.place w = .offering item' := by
    rw [href.place w, placeOf_inZone _ _ item' hw hwitem, hunread]
    rfl
  have hasking : h.place t = .asking := by
    rw [href.place t, hpc]
    rfl
  have hnone : ∀ v, (h.place v).isServed = false := by
    intro v
    rw [href.place v, hunread]
    cases s.pc v <;> rfl
  refine ⟨w, { (h.move t .outside).move w (.served item') with
    meetings := h.meetings ++ [⟨w, t, item'⟩] }, ?_, ?_⟩
  · have hshut : h.shut = false := href.shut.trans hopen
    simp only [Rendezvous.step]
    rw [if_pos ⟨hshut, hnone⟩, hoffering, hasking]
  · constructor
    · exact href.shut
    · intro v
      show ((h.move t .outside).move w (.served item')).place v =
        placeOf true (Function.update s.pc t .idle v)
      rw [move_place, move_place, Function.update_apply]
      split_ifs with hvw hvt hvt
      · exact absurd (hvw.symm.trans hvt) hwt
      · rw [hvw, placeOf_inZone true _ item' hw hwitem]
        rfl
      · rfl
      · have hout : (s.pc v).inZone = false := by
          by_contra hne
          exact hvw (hinv.eq_of_inZone v w (by simpa using hne) hw)
        rw [href.place v]
        exact placeOf_of_not_inZone _ _ _ hout
    · exact href.acknowledged
    · show List.map Meeting.got (h.meetings ++ [(⟨w, t, item'⟩ : Meeting T V)]) =
        s.received ++ [(t, item')]
      rw [List.map_append, href.received]
      rfl

/-- A call that ends without a meeting. -/
theorem exists_withdrawn (s : State T V) (h : Hall T V) (t : T) (href : Refines s h)
    (ht : (∃ item, h.place t = .offering item) ∨ h.place t = .asking) :
    ∃ h', Rendezvous.step h (.withdraw t) = some h' ∧ Refines (s.goto t .idle) h' := by
  refine ⟨h.move t .outside, ?_, href.move t .idle .outside rfl⟩
  rcases ht with hoffering | hasking
  · obtain ⟨item, hitem⟩ := hoffering
    simp only [Rendezvous.step, hitem]
  · simp only [Rendezvous.step, hasking]

/-- Every step of the channel is one of the meeting place, or nothing to it. -/
theorem refines_step (s : State T V) (a : UnbufferedChannel.Act T V) (s' : State T V) (h : Hall T V)
    (hreach : Reachable UnbufferedChannel.step init s)
    (hstep : UnbufferedChannel.step s a = some s')
    (href : Refines s h) :
    Refines s' h ∨ ∃ a' h', Rendezvous.step h a' = some h' ∧ Refines s' h' := by
  have hinv := inv_reachable s hreach
  have hplace : ∀ t p, s.pc t = p → h.place t = placeOf s.reader_in_zone_ p :=
    fun t p hpc => (href.place t).trans (congrArg _ hpc)
  cases step_move s s' a hstep with
  | call t op hpc =>
    have hout := hplace t _ hpc
    cases op with
    | write item =>
      right
      refine ⟨.offer t item, h.move t (.offering item), ?_, href.move t _ _ rfl⟩
      simp only [Rendezvous.step, hout, placeOf]
    | read =>
      right
      refine ⟨.ask t, h.move t .asking, ?_, href.move t _ _ rfl⟩
      simp only [Rendezvous.step, hout, placeOf]
    | close => exact Or.inl (href.goto t _ (by rw [hpc]; rfl))
  | wake t arrival _ _ => exact Or.inl (href.goto t _ (placeOf_woken _ _ _))
  | lateWrite t item hpc => exact Or.inl (href.goto t _ (by rw [hpc]; rfl))
  | lateHand t item hpc => exact Or.inl (href.goto t _ (by rw [hpc]; rfl))
  | lateRead t hpc => exact Or.inl (href.goto t _ (by rw [hpc]; rfl))
  | writeClosed t choice item arrival hpc hclosed =>
    exact Or.inl (href.stutter (s.fail .writeToClosed) rfl (fun _ => rfl) rfl rfl)
  | enterZone t choice item arrival s₁ hpc hopen hfree hnotify =>
    left
    have hunread := hinv.unread hfree
    have hentered : Refines { s with writter_in_zone_ := true, item_ := some t } h :=
      href.stutter _ rfl (fun _ => rfl) rfl rfl
    have hnotified := hentered.notifyOne s₁ _ choice hnotify
    have hmembers := notifyOne_members _ s₁ _ choice hnotify
    have hunread₁ : s₁.reader_in_zone_ = false := by
      rw [hmembers]
      exact hunread
    have hpc₁ : s₁.pc t = .writing item arrival :=
      (notifyOne_pc _ s₁ _ choice t hnotify (by simp [hpc, Pc.onReaders])).trans hpc
    apply hnotified.goto
    rw [hpc₁, hunread₁]
    rfl
  | writeLapse t choice item hpc hopen hbusy =>
    right
    exact ⟨_, exists_withdrawn s h t href (Or.inl ⟨item, hplace t _ hpc⟩)⟩
  | writeWait t choice item arrival hpc hopen hbusy =>
    exact Or.inl (href.goto t _ (by rw [hpc]; rfl))
  | handClosed t choice item arrival hpc hclosed hunread =>
    exact Or.inl (href.stutter (s.fail .writeToClosed) rfl (fun _ => rfl) rfl rfl)
  | handDone t choice item arrival _ hpc hread hnotify =>
    right
    obtain ⟨h', hstep', href'⟩ :=
      exists_acknowledged s h t item hinv href (by simp [hpc, Pc.inZone])
      (by simp [hpc, Pc.item?]) hread
    exact ⟨_, h', hstep', href'.notifyOne s' _ choice hnotify⟩
  | handLapse t choice item _ hpc hopen hunread hnotify =>
    right
    have hoffering : h.place t = .offering item := by
      rw [hplace t _ hpc, hunread]
      rfl
    obtain ⟨h', hstep', href'⟩ := exists_withdrawn s h t href (Or.inl ⟨item, hoffering⟩)
    have hleft : Refines ({ s with writter_in_zone_ := false }.goto t .idle) h' :=
      href'.stutter _ rfl (fun _ => rfl) rfl rfl
    exact ⟨_, h', hstep', hleft.notifyOne s' _ choice hnotify⟩
  | handWait t choice item arrival hpc hopen hunread =>
    exact Or.inl (href.goto t _ (by rw [hpc]; rfl))
  | readClosed t choice arrival hpc hclosed =>
    right
    exact ⟨_, exists_withdrawn s h t href (Or.inr (hplace t _ hpc))⟩
  | readDangling t choice arrival hpc hopen hunread hbusy hitem =>
    obtain ⟨_, item, _, _, hzone⟩ := hinv.exists_zoneItem hbusy
    exact absurd (hitem.symm.trans hzone) (by simp)
  | readTake t choice arrival item _ hpc hopen hunread hbusy hitem hnotify =>
    right
    obtain ⟨w, h', hstep', href'⟩ :=
      exists_met s h t item arrival hinv href hpc hopen hunread hbusy hitem
    exact ⟨_, h', hstep', href'.notifyOne s' _ choice hnotify⟩
  | readLapse t choice hpc hopen hnone =>
    right
    exact ⟨_, exists_withdrawn s h t href (Or.inr (hplace t _ hpc))⟩
  | readWait t choice arrival hpc hopen hnone => exact Or.inl (href.goto t _ (by rw [hpc]; rfl))
  | closeTwice t choice hpc hclosed =>
    exact Or.inl (href.stutter (s.fail .closeTwice) rfl (fun _ => rfl) rfl rfl)
  | closeDone t choice hpc hopen =>
    right
    have hshut : Refines { s with closed_ := true } { h with shut := true } :=
      ⟨rfl, href.place, href.acknowledged, href.received⟩
    refine ⟨.shut, { h with shut := true }, ?_, hshut.goto t _ ?_⟩
    · simp [Rendezvous.step, href.shut, hopen]
    · show _ = placeOf s.reader_in_zone_ (s.pc t)
      rw [hpc]
      rfl
  | wakeWriters t choice hpc =>
    left
    apply (href.notifyAll Pc.onWriters).goto
    show _ = placeOf s.reader_in_zone_ (if Pc.onWriters (s.pc t) then _ else s.pc t)
    rw [hpc]
    rfl
  | wakeReaders t choice hpc =>
    left
    apply (href.notifyAll Pc.onReaders).goto
    show _ = placeOf s.reader_in_zone_ (if Pc.onReaders (s.pc t) then _ else s.pc t)
    rw [hpc]
    rfl
  | wakeHandshake t choice _ hpc hnotify =>
    left
    exact (href.goto t .idle (by rw [hpc]; rfl)).notifyOne s' _ choice hnotify

omit [Fintype T] [DecidableEq T] in
theorem refines_init : Refines (init : State T V) empty := ⟨rfl, fun _ => rfl, rfl, rfl⟩

/-- Every run of the channel is one of the meeting place. -/
theorem channel_refines (s : State T V) (h : Reachable UnbufferedChannel.step init s) :
    ∃ hall : Hall T V, Reachable Rendezvous.step empty hall ∧ Refines s hall :=
  reachable_simulation refines_init refines_step h

/-- Thread 1 reads what thread 0 writes, and the handshake is not over. -/
theorem channel_refines_read :
    ∃ s : State Bool ℕ, run UnbufferedChannel.step init [.call false (.write 7), .lock false none,
        .call true .read, .lock true (some false)] = some s ∧
      ∃ hall : Hall Bool ℕ, Reachable Rendezvous.step empty hall ∧ Refines s hall := by
  refine ⟨_, rfl, ?_⟩
  exact channel_refines _ ⟨[.call false (.write 7), .lock false none, .call true .read,
    .lock true (some false)], rfl⟩

/-- Each value that was read is that of one Write, and each Write that did not time out is
that of one Read, in the same order; at most the last of these has not returned yet. -/
theorem received_paired (s : State T V) (h : Reachable UnbufferedChannel.step init s) :
    ∃ meetings : List (Meeting T V), s.received = meetings.map Meeting.got ∧
      (meetings.map Meeting.sent = s.delivered ∨
        ∃ t item, (s.pc t).inZone = true ∧ (s.pc t).item? = some item ∧
          meetings.map Meeting.sent = s.delivered ++ [(t, item)]) := by
  obtain ⟨hall, hhall, href⟩ := reachable_simulation refines_init refines_step h
  have hacc := accounted_reachable hall hhall
  refine ⟨hall.meetings, href.received.symm, ?_⟩
  by_cases hnone : ∀ t, (hall.place t).isServed = false
  · left
    rw [hacc.none_served hnone, href.acknowledged]
  · right
    push Not at hnone
    obtain ⟨t, ht⟩ := hnone
    obtain ⟨item, hitem⟩ := Place.eq_served _ (by simpa using ht)
    have hplace := (href.place t).symm.trans hitem
    obtain ⟨hzone, hvalue⟩ := inZone_of_served _ _ item hplace
    exact ⟨t, item, hzone, hvalue, by rw [hacc.served t item hitem, href.acknowledged]⟩

/-- A write that times out, and a second one that is read. -/
theorem received_paired_lapse :
    ∃ s : State Bool ℕ, run UnbufferedChannel.step init [.call false (.write 7), .lock false none,
        .wake false .expired, .lock false none, .call true (.write 8), .lock true none,
        .call false .read, .lock false (some true), .lock true none] = some s ∧
      s.received = [(false, 8)] ∧
      ∃ meetings : List (Meeting Bool ℕ), s.received = meetings.map Meeting.got ∧
        (meetings.map Meeting.sent = s.delivered ∨
          ∃ t item, (s.pc t).inZone = true ∧ (s.pc t).item? = some item ∧
            meetings.map Meeting.sent = s.delivered ++ [(t, item)]) := by
  refine ⟨_, rfl, rfl, ?_⟩
  exact received_paired _ ⟨[.call false (.write 7), .lock false none,
    .wake false .expired, .lock false none, .call true (.write 8), .lock true none,
    .call false .read, .lock false (some true), .lock true none], rfl⟩

end JvmTrace.ChannelRefinement
