import JvmTrace.CollectionResults

/-!
When Collect can come to its end behind step 3. A form in a slot is answerable while it
has been submitted or is still on its way; a thread that ends under its signal, an unwinder
that fails and an ack that cannot be written each leave one that is not. As long as every
form is answerable the handlers can finish, and the acks of all threads are read; one that
is not leaves only the timer.
-/
namespace JvmTrace.CollectionProgress

open Runs StackTraceCollector StackTraceCollection CollectionForms CollectionResults

/-- Every form in a slot has been submitted or is still on its way. -/
def Answerable (p : Process) (s : State) : Prop :=
  ∀ f ∈ s.slot, f ∈ s.submitted ∨ ∃ t, f ∈ due p s t

/-- What a thread has still to do for its handlers when nothing more is unwound: a
delivery and a submission for each signal. -/
def work (s : State) (t : Int32) : ℕ :=
  ((s.running t).elim 0 fun handler => handler.frames.length + 1) + 2 * (s.pending t).length

/-- The work of the threads that were signalled and of the collector's own, and the acks
still to be read. -/
def rank (p : Process) (s : State) : ℕ :=
  ((p.self :: s.tids).map (work s)).sum + (s.tids.length - s.acks)

/-- Collect waits, and all it waits for can come. -/
structure OnCourse (p : Process) (returned : List Outcome) (s : State) : Prop where
  forms : FormsInv p s
  count : CountInv s
  held : Held p s
  answerable : Answerable p s
  waiting : s.phase = .waiting
  returned_eq : s.returned = returned

theorem OnCourse.kept {p : Process} {returned : List Outcome} {s : State}
    (h : OnCourse p returned s) (a : Act) (s' : State)
    (hstep : step p s a = some s') (hok : GivesUpQuiet p s a)
    (hphase : s'.phase = s.phase) (hreturned : s'.returned = s.returned)
    (hslot : s'.slot = s.slot) (hsubmitted : ∀ f ∈ s.submitted, f ∈ s'.submitted)
    (hdue : ∀ t, ∀ f ∈ due p s t, f ∈ s'.submitted ∨ f ∈ due p s' t) :
    OnCourse p returned s' where
  forms := formsInv_step p s a s' hstep h.forms
  count := countInv_step p s a s' hstep h.forms h.count
  held := held_step p s a s' hstep h.forms h.count hok h.held
  answerable := by
    intro f hf
    rw [hslot] at hf
    rcases h.answerable f hf with hdone | ⟨t, ht⟩
    · exact Or.inl (hsubmitted f hdone)
    · exact (hdue t f ht).imp_right fun hmem => ⟨t, hmem⟩
  waiting := hphase.trans h.waiting
  returned_eq := hreturned.trans h.returned_eq

/-- A step of one thread's handler. -/
theorem rank_lt (p : Process) (s s' : State) (t : Int32) (ht : t ∈ p.self :: s.tids)
    (htids : s'.tids = s.tids) (hacks : s'.acks = s.acks) (hlt : work s' t < work s t)
    (hother : ∀ u, u ≠ t → work s' u = work s u) : rank p s' < rank p s := by
  unfold rank
  rw [htids, hacks]
  have hsum : ((p.self :: s.tids).map (work s')).sum < ((p.self :: s.tids).map (work s)).sum := by
    apply List.sum_lt_sum
    · intro u _
      by_cases hut : u = t
      · rw [hut]
        exact hlt.le
      · exact (hother u hut).le
    · exact ⟨t, ht, hlt⟩
  omega

theorem work_running (s s' : State) (t : Int32) (handler : Option Handler)
    (hrunning : s'.running = Function.update s.running t handler)
    (hpending : s'.pending = s.pending) (u : Int32) (hut : u ≠ t) : work s' u = work s u := by
  unfold work
  rw [hrunning, hpending, Function.update_of_ne hut]

theorem due_running (p : Process) (s s' : State) (t : Int32) (f : ℕ)
    (frames frames' : List (Option Int64)) (hr : s.running t = some ⟨f, frames⟩)
    (hrunning : s'.running = Function.update s.running t (some ⟨f, frames'⟩))
    (hpending : s'.pending = s.pending) (u : Int32) : due p s' u = due p s u := by
  unfold due queued
  rw [hrunning, hpending]
  by_cases hut : u = t
  · simp [hut, hr]
  · simp [hut]

/-- A handler with a frame left walks on. -/
theorem OnCourse.frame {p : Process} {returned : List Outcome} {s : State}
    (h : OnCourse p returned s) (t : Int32) (ht : t ∈ p.self :: s.tids) (f : ℕ)
    (ip : Option Int64) (rest : List (Option Int64))
    (hr : s.running t = some ⟨f, ip :: rest⟩) :
    ∃ a s', step p s a = some s' ∧ OnCourse p returned s' ∧
      rank p s' < rank p s := by
  have hstep : step p s (.frame t) = some (s.frame t f ip rest) := by
    simp [step, h.held.1, hr]
  obtain ⟨form, hform⟩ := h.held.live h.forms t f (mem_due_of_running p s t _ hr)
  obtain ⟨forms, frames', heq, hle⟩ : ∃ forms frames', s.frame t f ip rest =
      { s with
        forms := forms
        running := Function.update s.running t (some ⟨f, frames'⟩) } ∧
      frames'.length ≤ rest.length := by
    cases ip with
    | none => exact ⟨s.forms, rest, rfl, le_rfl⟩
    | some ip =>
      refine ⟨Function.update s.forms f (some (AddAddress form ip).1),
        if (AddAddress form ip).2 then rest else [], by simp [State.frame, hform], ?_⟩
      split_ifs
      · exact le_rfl
      · exact Nat.zero_le _
  rw [heq] at hstep
  refine ⟨_, _, hstep, ?_, ?_⟩
  · refine h.kept _ _ hstep trivial rfl rfl rfl (fun _ hf => hf) ?_
    intro u g hg
    right
    rwa [due_running p s { s with
      forms := forms
      running := Function.update s.running t (some ⟨f, frames'⟩) } t f _ frames' hr rfl rfl u]
  · refine rank_lt p s _ t ht rfl rfl ?_ ?_
    · simp only [work, Function.update_self, hr, Option.elim_some, List.length_cons]
      omega
    · exact work_running s _ t _ rfl rfl

/-- A handler without frames submits. -/
theorem OnCourse.submit {p : Process} {returned : List Outcome} {s : State}
    (h : OnCourse p returned s) (t : Int32) (ht : t ∈ p.self :: s.tids) (f : ℕ)
    (hr : s.running t = some ⟨f, []⟩) :
    ∃ a s', step p s a = some s' ∧ OnCourse p returned s' ∧
      rank p s' < rank p s := by
  obtain ⟨form, hform⟩ := h.held.live h.forms t f (mem_due_of_running p s t _ hr)
  have hstep : step p s (.submit t true) =
      some { s with
        running := Function.update s.running t none
        pipe := s.pipe + 1
        submitted := s.submitted ++ [f] } := by
    simp [step, State.submit, h.held.1, hr, hform]
  refine ⟨_, _, hstep, ?_, ?_⟩
  · refine h.kept _ _ hstep trivial rfl rfl rfl (fun _ hf => List.mem_append_left _ hf) ?_
    intro u g hg
    by_cases hut : u = t
    · rw [hut] at hg ⊢
      simp only [due, hr, Option.toList_some, List.map_cons, List.map_nil, List.singleton_append,
        List.mem_cons] at hg
      rcases hg with rfl | hg
      · exact Or.inl (List.mem_append_right _ (List.mem_singleton_self _))
      · exact Or.inr (mem_due_of_queued _ _ _ _ hg)
    · right
      simpa [due, queued, hut] using hg
  · refine rank_lt p s _ t ht rfl rfl ?_ ?_
    · simp [work, hr]
    · exact work_running s _ t _ rfl rfl

/-- A thread at rest gets its next signal; libunwind gives it no frame. -/
theorem OnCourse.deliver {p : Process} {returned : List Outcome} {s : State}
    (h : OnCourse p returned s) (t : Int32) (ht : t ∈ p.self :: s.tids) (signal : Signal)
    (rest : List Signal) (hpending : s.pending t = signal :: rest) (hnone : s.running t = none) :
    ∃ a s', step p s a = some s' ∧ OnCourse p returned s' ∧
      rank p s' < rank p s := by
  have hstep : step p s (.deliver t (some [])) =
      some (s.deliver p t signal rest (some [])) := by
    simp [step, h.held.1, hpending, hnone]
  -- the form goes from the signal to the handler, or there is none
  obtain ⟨running, unwound, heq, hself, hother⟩ : ∃ running unwound,
      s.deliver p t signal rest (some []) =
        { s with
          pending := Function.update s.pending t rest
          running := running
          unwound := unwound } ∧
      running t = (payload p signal).map (fun f => ⟨f, []⟩) ∧
      ∀ u, u ≠ t → running u = s.running u := by
    unfold State.deliver
    dsimp only
    split_ifs with hpid
    · exact ⟨s.running, s.unwound, rfl, by simp [payload, hpid, hnone], fun _ _ => rfl⟩
    · have hpayload : payload p signal = signal.sival_ptr := by
        rw [payload, if_pos (not_not.1 hpid)]
      rw [hpayload]
      split
      · rename_i f frames hptr hframes
        obtain rfl := Option.some.inj hframes
        refine ⟨_, _, rfl, by simp [hptr], ?_⟩
        intro u hut
        exact Function.update_of_ne hut _ _
      · rename_i hptr
        refine ⟨s.running, s.unwound, rfl, ?_, fun _ _ => rfl⟩
        cases hval : signal.sival_ptr with
        | none => exact hnone
        | some f => exact absurd rfl (hptr f [] hval)
  rw [heq] at hstep
  refine ⟨_, _, hstep, ?_, ?_⟩
  · refine h.kept _ _ hstep trivial rfl rfl rfl (fun _ hf => hf) ?_
    intro u f hf
    right
    by_cases hut : u = t
    · rw [hut] at hf ⊢
      cases hpayload : payload p signal with
      | none => simpa [due, queued, hpending, hnone, hself, hpayload] using hf
      | some g => simpa [due, queued, hpending, hnone, hself, hpayload] using hf
    · simpa [due, queued, hut, hother u hut] using hf
  · refine rank_lt p s _ t ht rfl rfl ?_ ?_
    · cases hpayload : payload p signal with
      | none =>
        simp only [work, hself, hpayload, hpending, hnone, Function.update_self, Option.map_none,
          Option.elim_none, List.length_cons]
        omega
      | some f =>
        simp only [work, hself, hpayload, hpending, hnone, Function.update_self, Option.map_some,
          Option.elim_some, Option.elim_none, List.length_cons, List.length_nil]
        omega
    · intro u hut
      simp [work, hut, hother u hut]

/-- When the threads that were signalled have nothing left to do, every form was
submitted, and its ack is in the pipe or was read. -/
theorem OnCourse.readAck {p : Process} {returned : List Outcome} {s : State}
    (h : OnCourse p returned s) (hself : s.running p.self = none)
    (hless : s.acks < s.tids.length) (hdue : ∀ t ∈ s.tids, due p s t = []) :
    ∃ a s', step p s a = some s' ∧ OnCourse p returned s' ∧
      rank p s' < rank p s := by
  have hsubmitted : s.slot ⊆ s.submitted := by
    intro f hf
    rcases h.answerable f hf with hdone | ⟨t, ht⟩
    · exact hdone
    · obtain ⟨form, hform⟩ := h.held.live h.forms t f ht
      have htid : form.stack.tid = t := (h.forms.own t f ht form hform).1
      have hmem : t ∈ s.tids := by
        rw [← h.count.waiting h.waiting, slotTids, List.mem_filterMap]
        exact ⟨f, hf, by rw [hform, Option.map_some, htid]⟩
      rw [hdue t hmem] at ht
      cases ht
  have hlength := (List.subperm_of_subset h.forms.slotNodup hsubmitted).length_le
  have hslot := slot_length h.forms h.count h.waiting
  have hcounted := h.count.counted (by simp [h.waiting])
  have hpipe : 0 < s.pipe := by omega
  have hstep : step p s .readAck =
      some { s with acks := s.acks + 1, pipe := s.pipe - 1 } := by
    simp [step, h.held.1, h.waiting, hself, hless, hpipe]
  refine ⟨_, _, hstep, ?_, ?_⟩
  · exact h.kept _ _ hstep trivial rfl rfl rfl (fun _ hf => hf) fun _ _ hf => Or.inr hf
  · have htids : s.tids.length - (s.acks + 1) < s.tids.length - s.acks := by omega
    exact Nat.add_lt_add_left htids _

/-- A form in a slot that no handler will submit. -/
structure Lost (p : Process) (f : ℕ) (s : State) : Prop where
  waiting : s.phase = .waiting
  slot : f ∈ s.slot
  submitted : f ∉ s.submitted
  notDue : ∀ t, f ∉ due p s t

theorem Lost.same {p : Process} {f : ℕ} {s : State} (s' : State) (h : Lost p f s)
    (hphase : s'.phase = s.phase) (hslot : s'.slot = s.slot)
    (hsubmitted : s'.submitted = s.submitted)
    (hdue : ∀ t, ∀ g ∈ due p s' t, g ∈ due p s t) :
    Lost p f s' where
  waiting := hphase.trans h.waiting
  slot := hslot ▸ h.slot
  submitted := hsubmitted ▸ h.submitted
  notDue t hf := h.notDue t (hdue t f hf)

end JvmTrace.CollectionProgress
