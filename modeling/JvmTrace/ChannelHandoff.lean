import JvmTrace.UnbufferedChannel

/-!
What every run of the channel keeps. One writer at most is between entering the
handshake zone and leaving it, and item_ points to it; a reader has entered only while
that writer is there and awake. So the values that were read are the values of the
writes that succeeded, in their order, and at most the one still in the zone; a write
that timed out was never read. Reading *item_ finds its writer, and the DCHECKs hold.
-/
namespace JvmTrace.ChannelHandoff

open Runs UnbufferedChannel

variable {T V : Type*}

/-- The value item_ points to. -/
def zoneItem (s : State T V) : Option V := s.item_.bind fun w => (s.pc w).item?

/-- Read, and not yet acknowledged to its writer. -/
def unacknowledged (s : State T V) : List V :=
  if s.reader_in_zone_ then (zoneItem s).toList else []

structure Inv (s : State T V) : Prop where
  zone : ∀ t, (s.pc t).inZone = true → s.writter_in_zone_ = true ∧ s.item_ = some t
  occupied : s.writter_in_zone_ = true → ∃ t, (s.pc t).inZone = true
  reader : s.reader_in_zone_ = true → s.writter_in_zone_ = true
  awake : s.reader_in_zone_ = true → ∀ t, (s.pc t).onHandshake = false
  handed : s.received.map Prod.snd = s.delivered.map Prod.snd ++ unacknowledged s
  sound : s.fault ≠ some .dangling ∧ s.fault ≠ some .dcheck

/-- The thread in the zone has an argument. -/
theorem exists_item_of_inZone (p : Pc V) (h : p.inZone = true) : ∃ item, p.item? = some item := by
  cases p <;> simp [Pc.inZone, Pc.item?] at h ⊢

theorem inZone_of_onHandshake (p : Pc V) (h : p.onHandshake = true) : p.inZone = true := by
  cases p <;> simp [Pc.inZone, Pc.onHandshake] at h ⊢

theorem Inv.zoneItem_of_inZone {s : State T V} (h : Inv s) (t : T)
    (ht : (s.pc t).inZone = true) : zoneItem s = (s.pc t).item? := by
  simp [zoneItem, (h.zone t ht).2]

/-- While a writer is in the zone item_ leads to its value. -/
theorem Inv.exists_zoneItem {s : State T V} (h : Inv s) (hbusy : s.writter_in_zone_ = true) :
    ∃ t item, (s.pc t).inZone = true ∧ (s.pc t).item? = some item ∧ zoneItem s = some item := by
  obtain ⟨t, ht⟩ := h.occupied hbusy
  obtain ⟨item, hitem⟩ := exists_item_of_inZone (s.pc t) ht
  exact ⟨t, item, ht, hitem, by rw [h.zoneItem_of_inZone t ht, hitem]⟩

theorem Inv.free {s : State T V} (h : Inv s) (hfree : s.writter_in_zone_ = false) (t : T) :
    (s.pc t).inZone = false := by
  by_contra hne
  have hbusy := (h.zone t (by simpa using hne)).1
  simp [hfree] at hbusy

theorem Inv.unread {s : State T V} (h : Inv s) (hfree : s.writter_in_zone_ = false) :
    s.reader_in_zone_ = false := by
  by_contra hne
  have hbusy := h.reader (by simpa using hne)
  simp [hfree] at hbusy

/-- At most one writer is in the zone. -/
theorem Inv.eq_of_inZone {s : State T V} (h : Inv s) (t u : T) (ht : (s.pc t).inZone = true)
    (hu : (s.pc u).inZone = true) : t = u :=
  Option.some.inj ((h.zone t ht).2.symm.trans (h.zone u hu).2)

/-- A change of places that nobody in the zone notices. -/
structure Quiet (s s' : State T V) : Prop where
  zone : ∀ t, (s'.pc t).inZone = (s.pc t).inZone
  item : ∀ t, (s.pc t).inZone = true → (s'.pc t).item? = (s.pc t).item?
  asleep : ∀ t, (s'.pc t).onHandshake = true → (s.pc t).onHandshake = true
  writter_in_zone_ : s'.writter_in_zone_ = s.writter_in_zone_
  reader_in_zone_ : s'.reader_in_zone_ = s.reader_in_zone_
  item_ : s'.item_ = s.item_
  delivered : s'.delivered = s.delivered
  received : s'.received = s.received
  sound : s'.fault = s.fault ∨ s'.fault = some .writeToClosed ∨ s'.fault = some .closeTwice

theorem Quiet.rfl' (s : State T V) : Quiet s s :=
  ⟨fun _ => rfl, fun _ _ => rfl, fun _ h => h, rfl, rfl, rfl, rfl, rfl, Or.inl rfl⟩

theorem Quiet.inv {s s' : State T V} (h : Quiet s s') (hinv : Inv s) : Inv s' where
  zone t ht := by
    rw [h.zone t] at ht
    rw [h.writter_in_zone_, h.item_]
    exact hinv.zone t ht
  occupied hbusy := by
    rw [h.writter_in_zone_] at hbusy
    obtain ⟨t, ht⟩ := hinv.occupied hbusy
    exact ⟨t, by rw [h.zone t, ht]⟩
  reader hread := by
    rw [h.reader_in_zone_] at hread
    rw [h.writter_in_zone_]
    exact hinv.reader hread
  awake hread t := by
    rw [h.reader_in_zone_] at hread
    by_contra hne
    have hasleep := h.asleep t (by simpa using hne)
    simp [hinv.awake hread t] at hasleep
  handed := by
    rw [h.received, h.delivered, hinv.handed]
    congr 1
    unfold unacknowledged
    rw [h.reader_in_zone_]
    split_ifs with hread
    · obtain ⟨t, ht⟩ := hinv.occupied (hinv.reader hread)
      have hzone : zoneItem s' = (s'.pc t).item? := by
        simp [zoneItem, h.item_, (hinv.zone t ht).2]
      rw [hzone, h.item t ht, hinv.zoneItem_of_inZone t ht]
    · rfl
  sound := by
    rcases h.sound with hfault | hfault | hfault
    · rw [hfault]
      exact hinv.sound
    · simp [hfault]
    · simp [hfault]

variable [DecidableEq T]

theorem goto_pc (s : State T V) (t u : T) (p : Pc V) :
    (s.goto t p).pc u = if u = t then p else s.pc u := by
  simp [State.goto, Function.update_apply]

@[simp] theorem goto_pc_self (s : State T V) (t : T) (p : Pc V) : (s.goto t p).pc t = p := by
  simp [goto_pc]

theorem goto_pc_of_ne (s : State T V) (t u : T) (p : Pc V) (h : u ≠ t) :
    (s.goto t p).pc u = s.pc u := by
  simp [goto_pc, h]

/-- A thread that keeps its place in the zone, or stays outside. -/
theorem Quiet.move (s : State T V) (t : T) (p : Pc V) (hzone : p.inZone = (s.pc t).inZone)
    (hitem : (s.pc t).inZone = true → p.item? = (s.pc t).item?)
    (hasleep : p.onHandshake = true → (s.pc t).onHandshake = true) : Quiet s (s.goto t p) where
  zone u := by
    rw [goto_pc]
    split_ifs with hut
    · rw [hut, hzone]
    · rfl
  item u hu := by
    rw [goto_pc]
    split_ifs with hut
    · rw [hut] at hu ⊢
      exact hitem hu
    · rfl
  asleep u hu := by
    rw [goto_pc] at hu
    split_ifs at hu with hut
    · rw [hut]
      exact hasleep hu
    · exact hu
  writter_in_zone_ := rfl
  reader_in_zone_ := rfl
  item_ := rfl
  delivered := rfl
  received := rfl
  sound := Or.inl rfl

theorem Quiet.outside (s : State T V) (t : T) (p : Pc V) (ht : (s.pc t).inZone = false)
    (hp : p.inZone = false) : Quiet s (s.goto t p) := by
  apply Quiet.move s t p (hp.trans ht.symm)
  · intro hzone
    exact absurd (ht.symm.trans hzone) (by simp)
  · intro hasleep
    exact absurd (hp.symm.trans (inZone_of_onHandshake p hasleep)) (by simp)

omit [DecidableEq T] in
theorem Quiet.closed (s : State T V) (b : Bool) : Quiet s { s with closed_ := b } :=
  ⟨fun _ => rfl, fun _ _ => rfl, fun _ h => h, rfl, rfl, rfl, rfl, rfl, Or.inl rfl⟩

omit [DecidableEq T] in
theorem Quiet.fail (s : State T V) (f : Fault) (hf : f = .writeToClosed ∨ f = .closeTwice) :
    Quiet s (s.fail f) where
  zone _ := rfl
  item _ _ := rfl
  asleep _ h := h
  writter_in_zone_ := rfl
  reader_in_zone_ := rfl
  item_ := rfl
  delivered := rfl
  received := rfl
  sound := by
    rcases hf with rfl | rfl
    · exact Or.inr (Or.inl rfl)
    · exact Or.inr (Or.inr rfl)

omit [DecidableEq T] in
theorem Quiet.trans {s s' s'' : State T V} (h : Quiet s s') (h' : Quiet s' s'')
    (hfault : s''.fault = s'.fault) : Quiet s s'' where
  zone t := (h'.zone t).trans (h.zone t)
  item t ht := (h'.item t (by rw [h.zone t, ht])).trans (h.item t ht)
  asleep t ht := h.asleep t (h'.asleep t ht)
  writter_in_zone_ := h'.writter_in_zone_.trans h.writter_in_zone_
  reader_in_zone_ := h'.reader_in_zone_.trans h.reader_in_zone_
  item_ := h'.item_.trans h.item_
  delivered := h'.delivered.trans h.delivered
  received := h'.received.trans h.received
  sound := by
    rw [hfault]
    exact h.sound

omit [DecidableEq T] in
theorem inZone_woken (p : Pc V) (arrival : Arrival) : (p.woken arrival).inZone = p.inZone := by
  cases p <;> rfl

omit [DecidableEq T] in
theorem item?_woken (p : Pc V) (arrival : Arrival) : (p.woken arrival).item? = p.item? := by
  cases p <;> rfl

omit [DecidableEq T] in
theorem onHandshake_woken (p : Pc V) (arrival : Arrival) :
    (p.woken arrival).onHandshake = false := by
  cases p <;> rfl

/-- Leaving a wait. -/
theorem Quiet.wake (s : State T V) (t : T) (arrival : Arrival) :
    Quiet s (s.goto t ((s.pc t).woken arrival)) := by
  apply Quiet.move s t _ (inZone_woken _ _)
  · intro _
    exact item?_woken _ _
  · intro hasleep
    simp [onHandshake_woken] at hasleep

omit [DecidableEq T] in
theorem Quiet.notifyAll (s : State T V) (waits : Pc V → Bool) : Quiet s (s.notifyAll waits) where
  zone u := by
    show (if waits (s.pc u) then (s.pc u).woken .notified else s.pc u).inZone = _
    split_ifs
    · exact inZone_woken _ _
    · rfl
  item u _ := by
    show (if waits (s.pc u) then (s.pc u).woken .notified else s.pc u).item? = _
    split_ifs
    · exact item?_woken _ _
    · rfl
  asleep u hu := by
    have hpc : (s.notifyAll waits).pc u =
        if waits (s.pc u) then (s.pc u).woken .notified else s.pc u := rfl
    rw [hpc] at hu
    split_ifs at hu
    · simp [onHandshake_woken] at hu
    · exact hu
  writter_in_zone_ := rfl
  reader_in_zone_ := rfl
  item_ := rfl
  delivered := rfl
  received := rfl
  sound := Or.inl rfl

variable [Fintype T]

/-- One thread leaves its wait, or nobody is in one. -/
theorem notifyOne_eq_some (s s' : State T V) (waits : Pc V → Bool) (choice : Option T)
    (h : s.notifyOne waits choice = some s') :
    (s' = s ∧ ∀ u, waits (s.pc u) = false) ∨
      ∃ u, waits (s.pc u) = true ∧ s' = s.goto u ((s.pc u).woken .notified) := by
  cases choice with
  | none =>
    simp only [State.notifyOne] at h
    split_ifs at h with hnone
    exact Or.inl ⟨(Option.some.inj h).symm, hnone⟩
  | some u =>
    simp only [State.notifyOne] at h
    split_ifs at h with hwaits
    exact Or.inr ⟨u, hwaits, (Option.some.inj h).symm⟩

theorem Quiet.notifyOne (s s' : State T V) (waits : Pc V → Bool) (choice : Option T)
    (h : s.notifyOne waits choice = some s') : Quiet s s' := by
  rcases notifyOne_eq_some s s' waits choice h with hsame | hone
  · rw [hsame.1]
    exact Quiet.rfl' s
  · obtain ⟨u, _, rfl⟩ := hone
    exact Quiet.wake s u .notified

/-- The writer in the zone is the only one the condition can hold. -/
theorem notifyOne_handshake (s s' : State T V) (choice : Option T)
    (hunique : ∀ t u, (s.pc t).inZone = true → (s.pc u).inZone = true → t = u)
    (h : s.notifyOne Pc.onHandshake choice = some s') (u : T) :
    (s'.pc u).onHandshake = false := by
  rcases notifyOne_eq_some s s' _ choice h with hsame | hone
  · rw [hsame.1]
    exact hsame.2 u
  · obtain ⟨w, hw, rfl⟩ := hone
    by_cases huw : u = w
    · rw [huw, goto_pc_self]
      exact onHandshake_woken _ _
    · rw [goto_pc_of_ne _ _ _ _ huw]
      by_contra hne
      have hu : (s.pc u).onHandshake = true := by simpa using hne
      exact huw (hunique u w (inZone_of_onHandshake _ hu) (inZone_of_onHandshake _ hw))

/-- A writer enters a zone that nobody is in. -/
theorem inv_enterZone (s s' : State T V) (t : T) (choice : Option T) (item : V) (hinv : Inv s)
    (hfree : s.writter_in_zone_ = false)
    (hnotify : ({ s with writter_in_zone_ := true, item_ := some t }.notifyOne
      Pc.onReaders choice) = some s') :
    Inv (s'.goto t (if s'.reader_in_zone_ then .handing item .fresh else .awaitReader item)) := by
  have hquiet := Quiet.notifyOne _ s' _ choice hnotify
  have hread : s'.reader_in_zone_ = false := hquiet.reader_in_zone_.trans (hinv.unread hfree)
  have hzone : ∀ u, (s'.pc u).inZone = false := fun u => (hquiet.zone u).trans (hinv.free hfree u)
  rw [hread]
  constructor
  · intro u hu
    have hut : u = t := by
      by_contra hne
      simp [goto_pc_of_ne _ _ _ _ hne, hzone u] at hu
    rw [hut]
    exact ⟨hquiet.writter_in_zone_, hquiet.item_⟩
  · intro _
    exact ⟨t, by simp [Pc.inZone]⟩
  · intro hr
    exact absurd (hread.symm.trans hr) (by simp)
  · intro hr
    exact absurd (hread.symm.trans hr) (by simp)
  · have hnone : unacknowledged (s'.goto t (.awaitReader item)) = [] := by
      simp [unacknowledged, State.goto, hread]
    have hold : unacknowledged s = [] := by simp [unacknowledged, hinv.unread hfree]
    have hhanded := hinv.handed
    rw [hold] at hhanded
    show s'.received.map Prod.snd = s'.delivered.map Prod.snd ++ _
    rw [hquiet.received, hquiet.delivered]
    exact hhanded.trans (congrArg _ hnone.symm)
  · rcases hquiet.sound with hfault | hfault | hfault
    · exact hfault ▸ hinv.sound
    · simp [State.goto, hfault]
    · simp [State.goto, hfault]

omit [Fintype T] in
/-- The writer leaves the zone, whether or not its value was read. -/
theorem inv_leaveZone (s : State T V) (t : T) (delivered : List (T × V)) (hinv : Inv s)
    (ht : (s.pc t).inZone = true)
    (hhanded : s.received.map Prod.snd = delivered.map Prod.snd) :
    Inv ({ s with
      writter_in_zone_ := false
      reader_in_zone_ := false
      delivered := delivered }.goto t .idle) where
  zone u hu := by
    by_cases hut : u = t
    · rw [hut, goto_pc_self] at hu
      simp [Pc.inZone] at hu
    · rw [goto_pc_of_ne _ _ _ _ hut] at hu
      exact absurd (hinv.eq_of_inZone u t hu ht) hut
  occupied hbusy := by simp [State.goto] at hbusy
  reader hread := by simp [State.goto] at hread
  awake hread := by simp [State.goto] at hread
  handed := by
    show s.received.map Prod.snd = delivered.map Prod.snd ++ _
    rw [hhanded]
    simp [unacknowledged, State.goto]
  sound := hinv.sound

omit [DecidableEq T] [Fintype T] in
/-- The writer's value, when a reader has taken it. -/
theorem Inv.handed_acknowledged {s : State T V} (h : Inv s) (t : T) (item : V)
    (arrival : Arrival) (hpc : s.pc t = .handing item arrival) (hread : s.reader_in_zone_ = true) :
    s.received.map Prod.snd = (s.delivered ++ [(t, item)]).map Prod.snd := by
  have ht : (s.pc t).inZone = true := by simp [hpc, Pc.inZone]
  rw [h.handed]
  simp [unacknowledged, hread, h.zoneItem_of_inZone t ht, hpc, Pc.item?]

/-- A reader takes the value of the writer in the zone; the writer is woken. -/
theorem inv_readTake (s s' : State T V) (t : T) (choice : Option T) (arrival : Arrival) (item : V)
    (hinv : Inv s) (hpc : s.pc t = .reading arrival) (hunread : s.reader_in_zone_ = false)
    (hbusy : s.writter_in_zone_ = true) (hitem : zoneItem s = some item)
    (hnotify : ({ s with
      reader_in_zone_ := true
      received := s.received ++ [(t, item)] }.goto t .idle).notifyOne Pc.onHandshake choice =
        some s') : Inv s' := by
  have hquiet := Quiet.notifyOne _ s' _ choice hnotify
  have htz : (s.pc t).inZone = false := by simp [hpc, Pc.inZone]
  have hgoto := Quiet.outside s t .idle htz rfl
  have hzone : ∀ u, (s'.pc u).inZone = (s.pc u).inZone := fun u =>
    (hquiet.zone u).trans (hgoto.zone u)
  have hreader : s'.reader_in_zone_ = true := hquiet.reader_in_zone_
  have hwriter : s'.writter_in_zone_ = true := hquiet.writter_in_zone_.trans hbusy
  constructor
  · intro u hu
    rw [hzone u] at hu
    exact ⟨hwriter, hquiet.item_.trans (hinv.zone u hu).2⟩
  · intro _
    obtain ⟨w, hw⟩ := hinv.occupied hbusy
    exact ⟨w, by rw [hzone w, hw]⟩
  · intro _
    exact hwriter
  · intro _
    apply notifyOne_handshake _ s' choice _ hnotify
    intro u w hu hw
    exact hinv.eq_of_inZone u w ((hgoto.zone u).symm.trans hu) ((hgoto.zone w).symm.trans hw)
  · have hitem' : zoneItem s' = some item := by
      obtain ⟨w, hw⟩ := hinv.occupied hbusy
      have hw' : ((s.goto t .idle).pc w).inZone = true := by rw [hgoto.zone w, hw]
      have hsame : (s'.pc w).item? = (s.pc w).item? :=
        (hquiet.item w hw').trans (hgoto.item w hw)
      have hitem_ : s'.item_ = some w := hquiet.item_.trans (hinv.zone w hw).2
      rw [zoneItem, hitem_, Option.bind_some, hsame, ← hinv.zoneItem_of_inZone w hw, hitem]
    have hold := hinv.handed
    simp only [unacknowledged, hunread, Bool.false_eq_true, if_false, List.append_nil] at hold
    have hreceived : s'.received = s.received ++ [(t, item)] := hquiet.received
    have hdelivered : s'.delivered = s.delivered := hquiet.delivered
    simp [unacknowledged, hreader, hitem', hreceived, hdelivered, hold]
  · rcases hquiet.sound with hfault | hfault | hfault
    · exact hfault ▸ hinv.sound
    · simp [hfault]
    · simp [hfault]

omit [Fintype T] in
/-- The writer goes to sleep before a reader has entered. -/
theorem inv_handWait (s : State T V) (t : T) (item : V) (arrival : Arrival) (hinv : Inv s)
    (hpc : s.pc t = .handing item arrival) (hunread : s.reader_in_zone_ = false) :
    Inv (s.goto t (.awaitReader item)) where
  zone u hu := by
    rw [goto_pc] at hu
    split_ifs at hu with hut
    · rw [hut]
      exact hinv.zone t (by simp [hpc, Pc.inZone])
    · exact hinv.zone u hu
  occupied _ := ⟨t, by simp [Pc.inZone]⟩
  reader hread := absurd (hunread.symm.trans hread) (by simp)
  awake hread := absurd (hunread.symm.trans hread) (by simp)
  handed := by
    have hold := hinv.handed
    simp only [unacknowledged, hunread, Bool.false_eq_true, if_false, List.append_nil] at hold
    simpa [unacknowledged, State.goto, hunread] using hold
  sound := hinv.sound

theorem inv_step (s : State T V) (a : Act T V) (s' : State T V) (h : step s a = some s')
    (hinv : Inv s) : Inv s' := by
  cases step_move s s' a h with
  | call t op hpc =>
    refine (Quiet.outside s t (enter op) ?_ ?_).inv hinv
    · simp [hpc, Pc.inZone]
    · cases op <;> rfl
  | wake t arrival _ _ => exact (Quiet.wake s t arrival).inv hinv
  | lateWrite t item hpc => exact (Quiet.outside s t _ (by simp [hpc, Pc.inZone]) rfl).inv hinv
  | lateHand t item hpc =>
    refine (Quiet.move s t _ ?_ ?_ ?_).inv hinv
    · simp [hpc, Pc.inZone]
    · simp [hpc, Pc.item?]
    · simp [Pc.onHandshake]
  | lateRead t hpc => exact (Quiet.outside s t _ (by simp [hpc, Pc.inZone]) rfl).inv hinv
  | writeClosed t choice item arrival hpc hclosed =>
    exact (Quiet.fail s .writeToClosed (Or.inl rfl)).inv hinv
  | enterZone t choice item arrival s₁ hpc hopen hfree hnotify =>
    exact inv_enterZone s s₁ t choice item hinv hfree hnotify
  | writeLapse t choice item hpc hopen hbusy =>
    exact (Quiet.outside s t _ (by simp [hpc, Pc.inZone]) rfl).inv hinv
  | writeWait t choice item arrival hpc hopen hbusy =>
    exact (Quiet.outside s t _ (by simp [hpc, Pc.inZone]) rfl).inv hinv
  | handClosed t choice item arrival hpc hclosed hunread =>
    exact (Quiet.fail s .writeToClosed (Or.inl rfl)).inv hinv
  | handDone t choice item arrival _ hpc hread hnotify =>
    apply (Quiet.notifyOne _ s' _ choice hnotify).inv
    apply inv_leaveZone s t _ hinv
    · simp [hpc, Pc.inZone]
    · exact hinv.handed_acknowledged t item arrival hpc hread
  | handLapse t choice item _ hpc hopen hunread hnotify =>
    apply (Quiet.notifyOne _ s' _ choice hnotify).inv
    have hhanded := hinv.handed
    simp only [unacknowledged, hunread, Bool.false_eq_true, if_false, List.append_nil] at hhanded
    have hleave := inv_leaveZone s t s.delivered hinv (by simp [hpc, Pc.inZone]) hhanded
    have hsame : ({ s with writter_in_zone_ := false, reader_in_zone_ := false } : State T V) =
        { s with writter_in_zone_ := false } := by simp [hunread]
    exact hsame ▸ hleave
  | handWait t choice item arrival hpc hopen hunread =>
    exact inv_handWait s t item arrival hinv hpc hunread
  | readClosed t choice arrival hpc hclosed =>
    exact (Quiet.outside s t _ (by simp [hpc, Pc.inZone]) rfl).inv hinv
  | readDangling t choice arrival hpc hopen hunread hbusy hitem =>
    obtain ⟨_, item, _, _, hzone⟩ := hinv.exists_zoneItem hbusy
    exact absurd (hitem.symm.trans hzone) (by simp)
  | readTake t choice arrival item _ hpc hopen hunread hbusy hitem hnotify =>
    exact inv_readTake s s' t choice arrival item hinv hpc hunread hbusy hitem hnotify
  | readLapse t choice hpc hopen hnone =>
    exact (Quiet.outside s t _ (by simp [hpc, Pc.inZone]) rfl).inv hinv
  | readWait t choice arrival hpc hopen hnone =>
    exact (Quiet.outside s t _ (by simp [hpc, Pc.inZone]) rfl).inv hinv
  | closeTwice t choice hpc hclosed =>
    exact (Quiet.fail s .closeTwice (Or.inr rfl)).inv hinv
  | closeDone t choice hpc hopen =>
    apply (Quiet.outside { s with closed_ := true } t _ (by simp [hpc, Pc.inZone]) rfl).inv
    exact (Quiet.closed s true).inv hinv
  | wakeWriters t choice hpc =>
    apply (Quiet.outside _ t _ ?_ rfl).inv ((Quiet.notifyAll s Pc.onWriters).inv hinv)
    rw [(Quiet.notifyAll s Pc.onWriters).zone, hpc]
    rfl
  | wakeReaders t choice hpc =>
    apply (Quiet.outside _ t _ ?_ rfl).inv ((Quiet.notifyAll s Pc.onReaders).inv hinv)
    rw [(Quiet.notifyAll s Pc.onReaders).zone, hpc]
    rfl
  | wakeHandshake t choice _ hpc hnotify =>
    apply (Quiet.notifyOne _ s' _ choice hnotify).inv
    exact (Quiet.outside s t _ (by simp [hpc, Pc.inZone]) rfl).inv hinv

omit [DecidableEq T] [Fintype T] in
theorem inv_init : Inv (init : State T V) where
  zone t ht := by simp [init, Pc.inZone] at ht
  occupied hbusy := by simp [init] at hbusy
  reader hread := by simp [init] at hread
  awake hread := by simp [init] at hread
  handed := by simp [init, unacknowledged]
  sound := by simp [init]

theorem inv_reachable (s : State T V) (h : Reachable step init s) : Inv s :=
  reachable_invariant inv_step h inv_init

/-- The header's two invariants: the flag says that exactly one writer is in the zone,
and a reader's flag says that this writer is awake, with its value read last. -/
theorem zone_invariants (s : State T V) (h : Reachable step init s) :
    (s.writter_in_zone_ = true ↔ ∃ t, (s.pc t).inZone = true) ∧
      (∀ t u, (s.pc t).inZone = true → (s.pc u).inZone = true → t = u) ∧
      (s.reader_in_zone_ = true → ∃ t item arrival, s.pc t = .handing item arrival ∧
        s.received.map Prod.snd = s.delivered.map Prod.snd ++ [item]) := by
  have hinv := inv_reachable s h
  refine ⟨⟨hinv.occupied, ?_⟩, hinv.eq_of_inZone, ?_⟩
  · intro hsome
    obtain ⟨t, ht⟩ := hsome
    exact (hinv.zone t ht).1
  · intro hread
    obtain ⟨t, item, hzone, hitem, hzoneItem⟩ := hinv.exists_zoneItem (hinv.reader hread)
    have hawake := hinv.awake hread t
    have hhanded := hinv.handed
    simp only [unacknowledged, hread, if_true, hzoneItem, Option.toList_some] at hhanded
    rcases hpc : s.pc t with _ | _ | _ | ⟨item', arrival⟩ | item' | _ | _ | _ | _ | _ | _ <;>
      simp [hpc, Pc.inZone, Pc.onHandshake, Pc.item?] at hzone hawake hitem
    rw [hitem] at hpc
    exact ⟨t, item, arrival, hpc, hhanded⟩

/-- Thread 0 writes, thread 1 reads, and thread 0 has not come back yet. -/
theorem zone_invariants_read :
    ∃ s : State Bool ℕ, run step init [.call false (.write 7), .lock false none,
        .call true .read, .lock true (some false)] = some s ∧
      ∃ t item arrival, s.pc t = .handing item arrival ∧
        s.received.map Prod.snd = s.delivered.map Prod.snd ++ [item] := by
  refine ⟨_, rfl, ?_⟩
  exact (zone_invariants _ ⟨[.call false (.write 7), .lock false none, .call true .read,
    .lock true (some false)], rfl⟩).2.2 rfl

/-- The channel is closed once, while the only writes in progress have been read, and
nobody writes later. -/
def Disciplined (s : State T V) : Act T V → Prop
  | .call _ (.write _) => s.closed_ = false
  | .lock t _ => s.pc t = .closing → s.closed_ = false ∧ ∀ u, (s.pc u).item?.isSome = true →
      s.reader_in_zone_ = true ∧ (s.pc u).inZone = true
  | _ => True

/-- Behind a Close, at most a write whose value was read. -/
def Settled (s : State T V) : Prop :=
  s.closed_ = true → ∀ u, (s.pc u).item?.isSome = true →
    s.reader_in_zone_ = true ∧ (s.pc u).inZone = true

omit [DecidableEq T] [Fintype T] in
theorem settled_of_open (s : State T V) (h : s.closed_ = false) : Settled s := by
  intro hclosed
  exact absurd (h.symm.trans hclosed) (by simp)

omit [DecidableEq T] [Fintype T] in
/-- Calls may end and waits may be left. -/
theorem Settled.places {s : State T V} (s' : State T V) (h : Settled s)
    (hclosed : s'.closed_ = s.closed_) (hread : s'.reader_in_zone_ = s.reader_in_zone_)
    (hpc : ∀ u, (s'.pc u).item?.isSome = true →
      (s'.pc u).item? = (s.pc u).item? ∧ (s'.pc u).inZone = (s.pc u).inZone) : Settled s' := by
  intro hc u hu
  obtain ⟨hitem, hzone⟩ := hpc u hu
  rw [hclosed] at hc
  rw [hitem] at hu
  rw [hread, hzone]
  exact h hc u hu

omit [Fintype T] in
theorem Settled.goto {s : State T V} (t : T) (p : Pc V) (h : Settled s)
    (hp : p.item?.isSome = true → p.item? = (s.pc t).item? ∧ p.inZone = (s.pc t).inZone) :
    Settled (s.goto t p) := by
  refine h.places (s.goto t p) rfl rfl ?_
  intro u hu
  rw [goto_pc] at hu ⊢
  split_ifs at hu ⊢ with hut
  · rw [hut]
    exact hp hu
  · exact ⟨rfl, rfl⟩

omit [DecidableEq T] [Fintype T] in
theorem Settled.notifyAll {s : State T V} (waits : Pc V → Bool) (h : Settled s) :
    Settled (s.notifyAll waits) := by
  refine h.places (s.notifyAll waits) rfl rfl ?_
  intro u _
  have hpc : (s.notifyAll waits).pc u =
      if waits (s.pc u) then (s.pc u).woken .notified else s.pc u := rfl
  rw [hpc]
  split_ifs
  · exact ⟨item?_woken _ _, inZone_woken _ _⟩
  · exact ⟨rfl, rfl⟩

theorem notifyOne_closed (s s' : State T V) (waits : Pc V → Bool) (choice : Option T)
    (h : s.notifyOne waits choice = some s') : s'.closed_ = s.closed_ ∧ s'.fault = s.fault := by
  rcases notifyOne_eq_some s s' waits choice h with hsame | hone
  · rw [hsame.1]
    exact ⟨rfl, rfl⟩
  · obtain ⟨u, _, rfl⟩ := hone
    exact ⟨rfl, rfl⟩

theorem Settled.notifyOne {s : State T V} (s' : State T V) (waits : Pc V → Bool)
    (choice : Option T) (h : Settled s) (hnotify : s.notifyOne waits choice = some s') :
    Settled s' := by
  rcases notifyOne_eq_some s s' waits choice hnotify with hsame | hone
  · rw [hsame.1]
    exact h
  · obtain ⟨u, _, rfl⟩ := hone
    exact h.goto u _ fun _ => ⟨item?_woken _ _, inZone_woken _ _⟩

/-- The writer that was read leaves; it had the only write in progress. -/
theorem settled_handDone (s s' : State T V) (t : T) (item : V) (choice : Option T) (hinv : Inv s)
    (hsettled : Settled s) (ht : (s.pc t).inZone = true)
    (hnotify : ({ s with
      writter_in_zone_ := false
      reader_in_zone_ := false
      delivered := s.delivered ++ [(t, item)] }.goto t .idle).notifyOne Pc.onWriters choice =
        some s') : Settled s' := by
  refine Settled.notifyOne s' _ choice ?_ hnotify
  intro hclosed u hu
  by_cases hut : u = t
  · rw [hut, goto_pc_self] at hu
    simp [Pc.item?] at hu
  · rw [goto_pc_of_ne _ _ _ _ hut] at hu
    exact absurd (hinv.eq_of_inZone u t (hsettled hclosed u hu).2 ht) hut

theorem settled_step (s : State T V) (a : Act T V) (s' : State T V) (h : step s a = some s')
    (hok : Disciplined s a) (hs : Inv s ∧ s.fault = none ∧ Settled s) :
    s'.fault = none ∧ Settled s' := by
  obtain ⟨hinv, hfault, hsettled⟩ := hs
  cases step_move s s' a h with
  | call t op hpc =>
    refine ⟨hfault, ?_⟩
    cases op with
    | write item => exact settled_of_open _ hok
    | read => exact hsettled.goto t _ (by simp [enter, Pc.item?])
    | close => exact hsettled.goto t _ (by simp [enter, Pc.item?])
  | wake t arrival _ _ =>
    exact ⟨hfault, hsettled.goto t _ fun _ => ⟨item?_woken _ _, inZone_woken _ _⟩⟩
  | lateWrite t item hpc => exact ⟨hfault, hsettled.goto t _ (by simp [hpc, Pc.item?, Pc.inZone])⟩
  | lateHand t item hpc => exact ⟨hfault, hsettled.goto t _ (by simp [hpc, Pc.item?, Pc.inZone])⟩
  | lateRead t hpc => exact ⟨hfault, hsettled.goto t _ (by simp [Pc.item?])⟩
  | writeClosed t choice item arrival hpc hclosed =>
    have hzone := (hsettled hclosed t (by simp [hpc, Pc.item?])).2
    simp [hpc, Pc.inZone] at hzone
  | enterZone t choice item arrival s₁ hpc hopen hfree hnotify =>
    obtain ⟨hclosed, hfault'⟩ := notifyOne_closed _ s₁ _ choice hnotify
    exact ⟨hfault'.trans hfault, settled_of_open _ (hclosed.trans hopen)⟩
  | writeLapse t choice item hpc hopen hbusy => exact ⟨hfault, settled_of_open _ hopen⟩
  | writeWait t choice item arrival hpc hopen hbusy => exact ⟨hfault, settled_of_open _ hopen⟩
  | handClosed t choice item arrival hpc hclosed hunread =>
    have hread := (hsettled hclosed t (by simp [hpc, Pc.item?])).1
    exact absurd (hunread.symm.trans hread) (by simp)
  | handDone t choice item arrival _ hpc hread hnotify =>
    refine ⟨(notifyOne_closed _ s' _ choice hnotify).2.trans hfault, ?_⟩
    exact settled_handDone s s' t item choice hinv hsettled (by simp [hpc, Pc.inZone]) hnotify
  | handLapse t choice item _ hpc hopen hunread hnotify =>
    obtain ⟨hclosed, hfault'⟩ := notifyOne_closed _ s' _ choice hnotify
    exact ⟨hfault'.trans hfault, settled_of_open _ (hclosed.trans hopen)⟩
  | handWait t choice item arrival hpc hopen hunread => exact ⟨hfault, settled_of_open _ hopen⟩
  | readClosed t choice arrival hpc hclosed =>
    exact ⟨hfault, hsettled.goto t _ (by simp [Pc.item?])⟩
  | readDangling t choice arrival hpc hopen hunread hbusy hitem =>
    obtain ⟨_, item, _, _, hzone⟩ := hinv.exists_zoneItem hbusy
    exact absurd (hitem.symm.trans hzone) (by simp)
  | readTake t choice arrival item _ hpc hopen hunread hbusy hitem hnotify =>
    obtain ⟨hclosed, hfault'⟩ := notifyOne_closed _ s' _ choice hnotify
    exact ⟨hfault'.trans hfault, settled_of_open _ (hclosed.trans hopen)⟩
  | readLapse t choice hpc hopen hnone => exact ⟨hfault, settled_of_open _ hopen⟩
  | readWait t choice arrival hpc hopen hnone => exact ⟨hfault, settled_of_open _ hopen⟩
  | closeTwice t choice hpc hclosed =>
    have hopen := (hok hpc).1
    exact absurd (hopen.symm.trans hclosed) (by simp)
  | closeDone t choice hpc hopen =>
    have hread : Settled { s with closed_ := true } := fun _ => (hok hpc).2
    exact ⟨hfault, hread.goto t _ (by simp [Pc.item?])⟩
  | wakeWriters t choice hpc =>
    exact ⟨hfault, (hsettled.notifyAll Pc.onWriters).goto t _ (by simp [Pc.item?])⟩
  | wakeReaders t choice hpc =>
    exact ⟨hfault, (hsettled.notifyAll Pc.onReaders).goto t _ (by simp [Pc.item?])⟩
  | wakeHandshake t choice _ hpc hnotify =>
    refine ⟨(notifyOne_closed _ s' _ choice hnotify).2.trans hfault, ?_⟩
    exact (hsettled.goto t .idle (by simp [Pc.item?])).notifyOne s' _ choice hnotify

/-- A reader never follows item_ to a writer that has left, and the DCHECKs hold,
whatever the callers do. While a writer is in the zone, and only then may a reader read,
item_ names that writer and no other is there. -/
theorem reachable_sound (s : State T V) (h : Reachable step init s) :
    s.fault ≠ some .dangling ∧ s.fault ≠ some .dcheck ∧
      (s.writter_in_zone_ = true → ∃ t, s.item_ = some t ∧ (s.pc t).inZone = true ∧
        ∀ u, (s.pc u).inZone = true → u = t) := by
  have hinv := inv_reachable s h
  refine ⟨hinv.sound.1, hinv.sound.2, ?_⟩
  intro hbusy
  obtain ⟨t, ht⟩ := hinv.occupied hbusy
  exact ⟨t, (hinv.zone t ht).2, ht, fun u hu => hinv.eq_of_inZone u t hu ht⟩

/-- A Write times out before a Read comes, which takes the value of the next Write. -/
theorem reachable_sound_lapsed :
    ∃ s : State Bool ℕ, run step init [.call false (.write 7), .lock false none,
        .wake false .expired, .lock false none, .call true .read, .lock true none,
        .call false (.write 8), .lock false (some true), .lock true (some false)] = some s ∧
      s.received = [(true, 8)] ∧ s.item_ = some false ∧ s.fault ≠ some .dangling ∧
      ∃ t, s.item_ = some t ∧ (s.pc t).inZone = true := by
  refine ⟨_, rfl, rfl, rfl, ?_⟩
  obtain ⟨hdangling, _, hzone⟩ := reachable_sound _ ⟨[.call false (.write 7), .lock false none,
    .wake false .expired, .lock false none, .call true .read, .lock true none,
    .call false (.write 8), .lock false (some true), .lock true (some false)], rfl⟩
  obtain ⟨t, hitem, ht, _⟩ := hzone rfl
  exact ⟨hdangling, t, hitem, ht⟩

/-- In a run that closes the channel as it should, no check fails. -/
theorem along_sound (actions : List (Act T V)) (hok : Meets step Disciplined init actions) :
    Along step (fun s => s.fault = none) (init : State T V) actions := by
  have hkeep : ∀ (s : State T V) a s', step s a = some s' → Disciplined s a →
      Inv s ∧ s.fault = none ∧ Settled s → Inv s' ∧ s'.fault = none ∧ Settled s' := by
    intro s a s' hstep ha hs
    exact ⟨inv_step s a s' hstep hs.1, settled_step s a s' hstep ha hs⟩
  have hinit : Inv (init : State T V) ∧ (init : State T V).fault = none ∧
      Settled (init : State T V) := ⟨inv_init, rfl, settled_of_open _ rfl⟩
  exact (along_of_meets hkeep init actions hinit hok).mono fun _ hs => hs.2.1

/-- The sequence the comment in Write allows: the reader closes the channel before the
writer it has read from is back. -/
theorem along_sound_close :
    let actions : List (Act Bool ℕ) := [.call false (.write 7), .lock false none,
      .call true .read, .lock true (some false), .call true .close, .lock true none,
      .lock false none, .lock true none, .lock true none, .lock true none]
    (run step init actions).map (fun s => (s.closed_, s.delivered, s.received)) =
        some (true, [(false, 7)], [(true, 7)]) ∧
      Along step (fun s => s.fault = none) (init : State Bool ℕ) actions := by
  intro actions
  refine ⟨rfl, ?_⟩
  apply along_sound
  refine meets_cons _ _ _ _ rfl rfl ?_
  refine meets_cons _ _ _ _ rfl (fun hpc => by cases hpc) ?_
  refine meets_cons _ _ _ _ rfl trivial ?_
  refine meets_cons _ _ _ _ rfl (fun hpc => by cases hpc) ?_
  refine meets_cons _ _ _ _ rfl trivial ?_
  refine meets_cons _ _ _ _ rfl (fun _ => ⟨rfl, ?_⟩) ?_
  · intro u hu
    cases u with
    | false => exact ⟨rfl, rfl⟩
    | true => cases hu
  refine meets_cons _ _ _ _ rfl (fun hpc => by cases hpc) ?_
  refine meets_cons _ _ _ _ rfl (fun hpc => by cases hpc) ?_
  refine meets_cons _ _ _ _ rfl (fun hpc => by cases hpc) ?_
  exact meets_cons _ _ _ _ rfl (fun hpc => by cases hpc) trivial

end JvmTrace.ChannelHandoff
