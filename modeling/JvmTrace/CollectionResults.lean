import JvmTrace.CollectionForms

/-!
What Collect returns, over every run. Behind step 4 the slots hold one complete form for
each thread that was signalled, whatever else was delivered meanwhile, so the results show
every such thread once and with what its own handler unwound. A return that does not wait
for the acks deletes the forms under the handlers still to come; that is exactly when a
form is missed later.
-/
namespace JvmTrace.CollectionResults

open Runs OrderedMaps StackTraceCollector StackTraceCollection CollectionForms

/-- The threads whose forms are in the slots, in order. -/
def slotTids (s : State) : List Int32 :=
  s.slot.filterMap fun f => (s.forms f).map fun form => form.stack.tid

structure CountInv (s : State) : Prop where
  nodup : s.init_tids.Nodup
  counted : s.phase ≠ .idle → s.acks + s.pipe = s.submitted.length
  idle : s.phase = .idle → s.slot = []
  signalling : ∀ rest, s.phase = .signalling rest → ∃ before, s.init_tids = before ++ rest ∧
    (∀ tid ∈ s.failed_tids, tid ∈ before) ∧
    slotTids s = before.filter fun tid => decide (tid ∉ s.failed_tids)
  waiting : s.phase = .waiting → slotTids s = s.tids

theorem nodup_setOf (tids_v : List Int32) : (setOf tids_v).Nodup :=
  nodup_keysOf compares_tid (fun _ _ hab => Int32.toInt_inj.1 hab) tids_v

/-- The other threads and the handlers: forms keep their threads. -/
theorem CountInv.same {s : State} (s' : State) (h : CountInv s)
    (hforms : ∀ f, (s'.forms f).map (fun form => form.stack.tid) =
      (s.forms f).map fun form => form.stack.tid)
    (hphase : s'.phase = s.phase) (hinit : s'.init_tids = s.init_tids)
    (hfailed : s'.failed_tids = s.failed_tids) (hslot : s'.slot = s.slot)
    (hcounted : s'.acks + s'.pipe + s.submitted.length = s.acks + s.pipe + s'.submitted.length) :
    CountInv s' := by
  have htids : slotTids s' = slotTids s := by
    unfold slotTids
    rw [hslot]
    congr 1
    funext f
    exact hforms f
  constructor
  · rw [hinit]
    exact h.nodup
  · intro hne
    rw [hphase] at hne
    have hold := h.counted hne
    omega
  · rw [hphase, hslot]
    exact h.idle
  · rw [hphase, hinit, hfailed, htids]
    exact h.signalling
  · intro hwaiting
    rw [hphase] at hwaiting
    rw [htids, h.waiting hwaiting]
    simp [State.tids, hinit, hfailed]

theorem CountInv.leave {s : State} (h : CountInv s) (error : Option String)
    (results : List Result) (closes : List Descriptor) :
    CountInv (s.leave error results closes) where
  nodup := h.nodup
  counted hne := absurd rfl hne
  idle _ := rfl
  signalling rest hphase := by cases hphase
  waiting hphase := by cases hphase

theorem slotTids_append (s : State) (form : StackTraceForm) (f : ℕ) (hf : f ∉ s.slot) :
    (s.slot ++ [f]).filterMap (fun g => (Function.update s.forms f (some form) g).map
      fun form => form.stack.tid) = slotTids s ++ [form.stack.tid] := by
  rw [List.filterMap_append]
  congr 1
  · unfold slotTids
    apply List.filterMap_congr
    intro g hg
    have hne : g ≠ f := by
      intro heq
      exact hf (heq ▸ hg)
    rw [Function.update_of_ne hne]
  · simp

/-- A round of step 2 whose signal was sent. -/
theorem CountInv.signalSent {p : Process} {s : State} (s' : State) (h : CountInv s)
    (hforms : FormsInv p s) (tid : Int32) (rest : List Int32) (form : StackTraceForm)
    (htid : form.stack.tid = tid) (hphase : s.phase = .signalling (tid :: rest))
    (hphase' : s'.phase = .signalling rest)
    (hforms' : s'.forms = Function.update s.forms s.next (some form))
    (hslot : s'.slot = s.slot ++ [s.next]) (hinit : s'.init_tids = s.init_tids)
    (hfailed : s'.failed_tids = s.failed_tids) (hacks : s'.acks = s.acks)
    (hpipe : s'.pipe = s.pipe) (hsubmitted : s'.submitted = s.submitted) : CountInv s' := by
  obtain ⟨before, hinit', hsub, hslotTids⟩ := h.signalling _ hphase
  have hnew : s.next ∉ s.slot := fun hmem => lt_irrefl _ (hforms.slotFresh _ hmem)
  -- a thread is signalled once, so it has not failed before
  have hnotFailed : tid ∉ s.failed_tids := by
    intro hmem
    have hnodup := h.nodup
    rw [hinit'] at hnodup
    exact (List.nodup_append.1 hnodup).2.2 tid (hsub tid hmem) tid (List.mem_cons_self ..) rfl
  have hslotTids' : slotTids s' = slotTids s ++ [tid] := by
    unfold slotTids
    rw [hslot, hforms', slotTids_append s form s.next hnew, htid]
    rfl
  constructor
  · rw [hinit]
    exact h.nodup
  · intro _
    rw [hacks, hpipe, hsubmitted]
    exact h.counted (by simp [hphase])
  · intro hidle
    rw [hphase'] at hidle
    cases hidle
  · intro rest' hrest
    rw [hphase'] at hrest
    obtain rfl : rest = rest' := by injection hrest
    refine ⟨before ++ [tid], by rw [hinit, hinit', List.append_assoc]; rfl, ?_, ?_⟩
    · intro t ht
      rw [hfailed] at ht
      exact List.mem_append_left _ (hsub t ht)
    · rw [hslotTids', hslotTids, hfailed, List.filter_append]
      simp [hnotFailed]
  · intro hwaiting
    rw [hphase'] at hwaiting
    cases hwaiting

/-- A round of step 2 whose signal could not be sent. -/
theorem CountInv.signalFailed {s : State} (s' : State) (h : CountInv s) (tid : Int32)
    (rest : List Int32) (hphase : s.phase = .signalling (tid :: rest))
    (hphase' : s'.phase = .signalling rest) (hforms : s'.forms = s.forms)
    (hslot : s'.slot = s.slot) (hinit : s'.init_tids = s.init_tids)
    (hfailed : s'.failed_tids = s.failed_tids ++ [tid]) (hacks : s'.acks = s.acks)
    (hpipe : s'.pipe = s.pipe) (hsubmitted : s'.submitted = s.submitted) : CountInv s' := by
  obtain ⟨before, hinit', hsub, hslotTids⟩ := h.signalling _ hphase
  have hnew : tid ∉ before := by
    intro hmem
    have hnodup := h.nodup
    rw [hinit'] at hnodup
    exact (List.nodup_append.1 hnodup).2.2 tid hmem tid (List.mem_cons_self ..) rfl
  have hslotTids' : slotTids s' = slotTids s := by
    unfold slotTids
    rw [hslot, hforms]
  constructor
  · rw [hinit]
    exact h.nodup
  · intro _
    rw [hacks, hpipe, hsubmitted]
    exact h.counted (by simp [hphase])
  · intro hidle
    rw [hphase'] at hidle
    cases hidle
  · intro rest' hrest
    rw [hphase'] at hrest
    obtain rfl : rest = rest' := by injection hrest
    refine ⟨before ++ [tid], by rw [hinit, hinit', List.append_assoc]; rfl, ?_, ?_⟩
    · intro t ht
      rw [hfailed] at ht
      rcases List.mem_append.1 ht with ht | ht
      · exact List.mem_append_left _ (hsub t ht)
      · exact List.mem_append_right _ ht
    · rw [hslotTids', hslotTids, hfailed, List.filter_append]
      have hlast : [tid].filter (fun t => decide (t ∉ s.failed_tids ++ [tid])) = [] := by simp
      rw [hlast, List.append_nil]
      apply List.filter_congr
      intro t ht
      have hne : t ≠ tid := fun heq => hnew (heq ▸ ht)
      simp [hne]
  · intro hwaiting
    rw [hphase'] at hwaiting
    cases hwaiting

/-- What was submitted is in a slot. -/
theorem submitted_subset_slot {p : Process} {s : State} (h : FormsInv p s) (f : ℕ)
    (hf : f ∈ s.submitted) : f ∈ s.slot := by
  obtain ⟨form, hform, _⟩ := h.handed f hf
  exact (h.held f).1 (by simp [hform])

theorem CountInv.begin {p : Process} {s : State} (h : CountInv s) (hforms : FormsInv p s)
    (tids_v : List Int32) (pipe : Option Int32) (hphase : s.phase = .idle) :
    CountInv (s.begin tids_v pipe) := by
  have hslot := h.idle hphase
  have hsubmitted : s.submitted = [] := by
    rw [List.eq_nil_iff_forall_not_mem]
    intro f hf
    have hmem := submitted_subset_slot hforms f hf
    rw [hslot] at hmem
    cases hmem
  unfold State.begin
  dsimp only
  split
  · refine ⟨nodup_setOf tids_v, fun hne => absurd rfl hne, fun _ => rfl, ?_, ?_⟩
    · intro rest hrest
      cases hrest
    · intro hwaiting
      cases hwaiting
  · refine ⟨nodup_setOf tids_v, ?_, ?_, ?_, ?_⟩
    · intro _
      simp [hsubmitted]
    · intro hidle
      cases hidle
    · intro rest hrest
      obtain rfl : setOf tids_v = rest := by injection hrest
      refine ⟨[], rfl, ?_, ?_⟩
      · intro tid htid
        cases htid
      · simp [slotTids, hslot]
    · intro hwaiting
      cases hwaiting

theorem countInv_step (p : Process) (s : State) (a : Act) (s' : State)
    (h : step p s a = some s') (hforms : FormsInv p s) (hinv : CountInv s) : CountInv s' := by
  cases step_move p s s' a h with
  | collect tids_v pipe hphase => exact hinv.begin hforms tids_v pipe hphase
  | signalSent memory tid rest hphase halive =>
    exact hinv.signalSent _ hforms tid rest (newForm tid s.pipe_fd memory) rfl hphase rfl rfl rfl
      rfl rfl rfl rfl rfl
  | signalFailed memory tid rest hphase =>
    exact hinv.signalFailed _ tid rest hphase rfl rfl rfl rfl rfl rfl rfl rfl
  | arm created armed hphase =>
    have hwaiting : slotTids s = s.tids := by
      obtain ⟨before, hinit, _, hslotTids⟩ := hinv.signalling [] hphase
      rw [hslotTids, State.tids, hinit, List.append_nil]
    have hcounted := hinv.counted (by simp [hphase])
    unfold State.arm
    split_ifs
    · constructor
      · exact hinv.nodup
      · intro _
        exact hcounted
      · intro hidle
        cases hidle
      · intro rest hrest
        cases hrest
      · intro _
        exact hwaiting
    · apply CountInv.leave
      exact hinv.same _ (fun _ => rfl) rfl rfl rfl rfl rfl
    · exact hinv.leave _ _ _
  | retry hphase => exact hinv
  | readAck hphase hless hpipe =>
    refine hinv.same _ (fun _ => rfl) rfl rfl rfl rfl ?_
    show s.acks + 1 + (s.pipe - 1) + s.submitted.length = s.acks + s.pipe + s.submitted.length
    omega
  | expire hphase hless => exact hinv.leave _ _ _
  | post hphase hall => exact hinv.leave _ _ _
  | deliver t unwound signal rest hpending hnone =>
    unfold State.deliver
    dsimp only
    split_ifs
    · exact hinv.same _ (fun _ => rfl) rfl rfl rfl rfl rfl
    · split
      · exact hinv.same _ (fun _ => rfl) rfl rfl rfl rfl rfl
      · exact hinv.same _ (fun _ => rfl) rfl rfl rfl rfl rfl
  | frame t f ip rest hrunning =>
    unfold State.frame
    split
    · exact hinv.same _ (fun _ => rfl) rfl rfl rfl rfl rfl
    · split
      · exact hinv.same _ (fun _ => rfl) rfl rfl rfl rfl rfl
      · rename_i ip _ form hform
        refine hinv.same _ ?_ rfl rfl rfl rfl rfl
        intro g
        by_cases hg : g = f
        · rw [hg, hform]
          simp only [Function.update_self, Option.map_some, Option.some.injEq]
          unfold AddAddress
          split_ifs <;> rfl
        · simp [hg]
  | submit t written f hrunning =>
    unfold State.submit
    split
    · exact hinv.same _ (fun _ => rfl) rfl rfl rfl rfl rfl
    · split_ifs
      · refine hinv.same _ (fun _ => rfl) rfl rfl rfl rfl ?_
        show s.acks + (s.pipe + 1) + s.submitted.length =
          s.acks + s.pipe + (s.submitted ++ [f]).length
        simp
        omega
      · exact hinv.same _ (fun _ => rfl) rfl rfl rfl rfl rfl
  | send t signal hforeign => exact hinv.same _ (fun _ => rfl) rfl rfl rfl rfl rfl
  | spawn t => exact hinv.same _ (fun _ => rfl) rfl rfl rfl rfl rfl
  | exit t hnone => exact hinv.same _ (fun _ => rfl) rfl rfl rfl rfl rfl

theorem slotTids_eq (s : State) : slotTids s = s.slotForms.map fun form => form.stack.tid := by
  unfold slotTids State.slotForms
  rw [List.map_filterMap]

/-- A return of Collect that reports no error. -/
structure Complete (p : Process) (o : Outcome) : Prop where
  nodup : o.tids.Nodup
  observed : o.observed.map Prod.fst = o.tids
  forms : ∃ forms : List StackTraceForm, o.results = collectResults p.Symbolize forms ∧
    forms.map (fun form => form.stack.tid) = o.tids ∧
    ∀ ob ∈ o.observed, ∃ form ∈ forms, form.stack.tid = ob.1 ∧
      trace form.stack = ob.2.reduceOption.take kMaxDepth

theorem slot_length {p : Process} {s : State} (hforms : FormsInv p s) (h : CountInv s)
    (hphase : s.phase = .waiting) : s.slot.length = s.tids.length := by
  rw [← h.waiting hphase]
  unfold slotTids
  rw [List.length_filterMap_eq_countP, List.countP_eq_length.2]
  intro g hg
  have hsome := (hforms.held g).2 hg
  simpa using hsome

/-- As many acks as slots: every form was submitted. -/
theorem slot_submitted {p : Process} {s : State} (hforms : FormsInv p s) (h : CountInv s)
    (hphase : s.phase = .waiting) (hall : s.tids.length ≤ s.acks) (f : ℕ) (hf : f ∈ s.slot) :
    f ∈ s.submitted := by
  have hsubset : s.submitted ⊆ s.slot := fun g hg => submitted_subset_slot hforms g hg
  have hperm : s.submitted.Subperm s.slot := List.subperm_of_subset hforms.submittedNodup hsubset
  have hlength := slot_length hforms h hphase
  have hcounted := h.counted (by simp [hphase])
  exact (hperm.perm_of_length_le (by omega)).mem_iff.2 hf

theorem complete_post {p : Process} {s : State} (hforms : FormsInv p s) (h : CountInv s)
    (hphase : s.phase = .waiting) (hall : s.tids.length ≤ s.acks) :
    Complete p ⟨none, collectResults p.Symbolize s.slotForms, s.tids, s.observed⟩ where
  nodup := h.nodup.filter _
  observed := by
    rw [← h.waiting hphase]
    show s.observed.map Prod.fst = slotTids s
    unfold State.observed slotTids
    rw [List.map_filterMap]
    apply List.filterMap_congr
    intro f _
    cases s.forms f <;> rfl
  forms := by
    refine ⟨s.slotForms, rfl, ?_, ?_⟩
    · rw [← slotTids_eq, h.waiting hphase]
    · intro ob hob
      obtain ⟨f, hf, hmap⟩ := List.mem_filterMap.1 hob
      obtain ⟨form, hform, rfl⟩ := Option.map_eq_some_iff.1 hmap
      obtain ⟨form', hform', hwalked⟩ :=
        hforms.handed f (slot_submitted hforms h hphase hall f hf)
      obtain rfl := Option.some.inj (hform.symm.trans hform')
      exact ⟨form, List.mem_filterMap.2 ⟨f, hf, hform⟩, rfl, hwalked.trace_eq⟩

/-- What has been returned so far: an error and nothing else, or a complete collection. -/
def Answered (p : Process) (s : State) : Prop :=
  ∀ o ∈ s.returned, (o.error = none → Complete p o) ∧ (o.error ≠ none → o.results = [])

theorem Answered.same {p : Process} {s : State} (s' : State) (h : Answered p s)
    (hreturned : s'.returned = s.returned) : Answered p s' := by
  intro o ho
  rw [hreturned] at ho
  exact h o ho

theorem Answered.leave {p : Process} {s : State} (h : Answered p s) (error : Option String)
    (results : List Result) (closes : List Descriptor)
    (hnone : error = none → Complete p ⟨error, results, s.tids, s.observed⟩)
    (hsome : error ≠ none → results = []) : Answered p (s.leave error results closes) := by
  intro o ho
  rcases List.mem_append.1 ho with ho | ho
  · exact h o ho
  · obtain rfl := List.mem_singleton.1 ho
    exact ⟨hnone, hsome⟩

theorem Answered.fail {p : Process} {s : State} (h : Answered p s) (text : String)
    (closes : List Descriptor) : Answered p (s.leave (some text) [] closes) :=
  h.leave _ _ _ (fun hnone => by cases hnone) fun _ => rfl

theorem answered_step (p : Process) (s : State) (a : Act) (s' : State) (h : step p s a = some s')
    (hforms : FormsInv p s) (hcount : CountInv s) (hans : Answered p s) : Answered p s' := by
  cases step_move p s s' a h with
  | collect tids_v pipe hphase =>
    unfold State.begin
    dsimp only
    split
    · exact (hans.same { s with init_tids := setOf tids_v, failed_tids := [] } rfl).fail _ _
    · exact hans.same _ rfl
  | signalSent memory tid rest hphase halive => exact hans.same _ rfl
  | signalFailed memory tid rest hphase => exact hans.same _ rfl
  | arm created armed hphase =>
    unfold State.arm
    split_ifs
    · exact hans.same _ rfl
    · apply Answered.fail
      exact hans.same _ rfl
    · exact hans.fail _ _
  | retry hphase => exact hans
  | readAck hphase hless hpipe => exact hans.same _ rfl
  | expire hphase hless => exact hans.fail _ _
  | post hphase hall =>
    exact hans.leave _ _ _ (fun _ => complete_post hforms hcount hphase hall)
      fun hne => absurd rfl hne
  | deliver t unwound signal rest hpending hnone =>
    unfold State.deliver
    dsimp only
    split_ifs
    · exact hans.same _ rfl
    · split <;> exact hans.same _ rfl
  | frame t f ip rest hrunning =>
    unfold State.frame
    split
    · exact hans.same _ rfl
    · split <;> exact hans.same _ rfl
  | submit t written f hrunning =>
    unfold State.submit
    split
    · exact hans.same _ rfl
    · split_ifs <;> exact hans.same _ rfl
  | send t signal hforeign => exact hans.same _ rfl
  | spawn t => exact hans.same _ rfl
  | exit t hnone => exact hans.same _ rfl

theorem inv_reachable (p : Process) (alive : Int32 → Bool) (s : State)
    (h : Reachable (step p) (init alive) s) : FormsInv p s ∧ CountInv s ∧ Answered p s := by
  apply reachable_invariant (P := fun s => FormsInv p s ∧ CountInv s ∧ Answered p s) _ h
  · refine ⟨formsInv_init p alive,
      ⟨List.nodup_nil, fun hne => absurd rfl hne, fun _ => rfl, ?_, ?_⟩, ?_⟩
    · intro rest hrest
      cases hrest
    · intro hwaiting
      cases hwaiting
    · intro o ho
      cases ho
  · intro s a s' hstep hs
    obtain ⟨hforms, hcount, hans⟩ := hs
    exact ⟨formsInv_step p s a s' hstep hforms, countInv_step p s a s' hstep hforms hcount,
      answered_step p s a s' hstep hforms hcount hans⟩

/-- In the results of different threads' forms, a thread is in exactly one, with the
trace of its form. -/
theorem result_of_form (Symbolize : Int64 → Option String) (forms : List StackTraceForm)
    (htids : (forms.map fun form => form.stack.tid).Nodup) (form : StackTraceForm)
    (hform : form ∈ forms) :
    (∃! i : ℕ, ∃ r : Result, (collectResults Symbolize forms)[i]? = some r ∧
      form.stack.tid ∈ r.tids) ∧
    ∀ r ∈ collectResults Symbolize forms, form.stack.tid ∈ r.tids →
      r.trace.map Prod.fst = trace form.stack := by
  have hperm := flatMap_unique_traces forms
  rw [← flatMap_collectResults Symbolize] at hperm
  refine ⟨?_, ?_⟩
  · apply existsUnique_index _ (hperm.nodup_iff.2 htids)
    exact hperm.mem_iff.2 (List.mem_map.2 ⟨form, hform, rfl⟩)
  · intro r hr hmem
    exact trace_of_tid_mem Symbolize forms htids form hform r hr hmem

/-- Collect returns an empty vector with its error, and without one exactly when there was
no thread it could signal. -/
theorem results_nil_iff (p : Process) (alive : Int32 → Bool) (s : State)
    (h : Reachable (step p) (init alive) s) (o : Outcome) (ho : o ∈ s.returned) :
    o.results = [] ↔ o.error ≠ none ∨ o.tids = [] := by
  obtain ⟨hcomplete, hfailed⟩ := (inv_reachable p alive s h).2.2 o ho
  by_cases hnone : o.error = none
  · obtain ⟨hnodup, _, forms, hresults, htids, _⟩ := hcomplete hnone
    rw [hresults, ← htids, List.map_eq_nil_iff]
    simp only [hnone, ne_eq, not_true_eq_false, false_or]
    constructor
    · intro hnil
      rw [List.eq_nil_iff_forall_not_mem]
      intro form hform
      obtain ⟨i, ⟨r, hr, _⟩, _⟩ :=
        (result_of_form p.Symbolize forms (htids ▸ hnodup) form hform).1
      simp [hnil] at hr
    · intro hnil
      rw [hnil]
      rfl
  · exact ⟨fun _ => Or.inl hnone, fun _ => hfailed hnone⟩

/-- ListThreads gave no thread. -/
theorem results_nil_iff_noThreads :
    ∃ s o, run (step ⟨100, 7, fun _ => none⟩) (init fun _ => true)
        [.collect [] (some 5), .arm true true, .post] = some s ∧ o ∈ s.returned ∧
      o.error = none ∧ o.results = [] := by
  refine ⟨_, _, rfl, List.mem_singleton_self _, rfl, ?_⟩
  rw [results_nil_iff ⟨100, 7, fun _ => none⟩ (fun _ => true) _
    ⟨[.collect [] (some 5), .arm true true, .post], rfl⟩ _ (List.mem_singleton_self _)]
  exact Or.inr rfl

/-- No handler has missed its form, and none still to come will. -/
def Held (p : Process) (s : State) : Prop :=
  s.fault = false ∧ ∀ t, ∀ f ∈ due p s t, f ∈ s.slot

/-- Collect gives up, without its timer or at its end, only while no form is on its way. -/
def GivesUpQuiet (p : Process) (s : State) : Act → Prop
  | .arm created armed => (created && armed) = false → ∀ t, due p s t = []
  | .expire => ∀ t, due p s t = []
  | _ => True

theorem Held.subset {p : Process} {s : State} (s' : State) (h : Held p s)
    (hfault : s'.fault = s.fault) (hslot : s'.slot = s.slot)
    (hdue : ∀ t, ∀ f ∈ due p s' t, f ∈ due p s t) : Held p s' := by
  refine ⟨hfault.trans h.1, ?_⟩
  intro t f hf
  rw [hslot]
  exact h.2 t f (hdue t f hf)

theorem held_leave {p : Process} {s : State} (hfault : s.fault = false)
    (hdue : ∀ t, due p s t = []) (error : Option String) (results : List Result)
    (closes : List Descriptor) : Held p (s.leave error results closes) := by
  refine ⟨hfault, ?_⟩
  intro t f hf
  have hnone : f ∈ due p s t := hf
  rw [hdue t] at hnone
  cases hnone

theorem Held.allocate {p : Process} {s : State} (s' : State) (h : Held p s) (tid : Int32)
    (hpending : s'.pending = Function.update s.pending tid
      (s.pending tid ++ [⟨p.pid, some s.next⟩])) (hrunning : s'.running = s.running)
    (hslot : s'.slot = s.slot ++ [s.next]) (hfault : s'.fault = s.fault) : Held p s' := by
  refine ⟨hfault.trans h.1, ?_⟩
  intro u f hf
  rw [due_allocate s' tid hpending hrunning] at hf
  rw [hslot]
  rcases List.mem_append.1 hf with hf | hf
  · exact List.mem_append_left _ (h.2 u f hf)
  · split_ifs at hf
    · exact List.mem_append_right _ hf
    · cases hf

/-- Leaving while a form is on its way leaves it behind. -/
theorem due_nil_of_held_leave {p : Process} {s : State} {error : Option String}
    {results : List Result} {closes : List Descriptor}
    (h : Held p (s.leave error results closes)) (t : Int32) : due p s t = [] := by
  rw [List.eq_nil_iff_forall_not_mem]
  intro f hf
  have hslot := h.2 t f hf
  cases hslot

theorem Held.live {p : Process} {s : State} (h : Held p s) (hforms : FormsInv p s) (t : Int32)
    (f : ℕ) (hf : f ∈ due p s t) : ∃ form, s.forms f = some form :=
  Option.isSome_iff_exists.1 ((hforms.held f).2 (h.2 t f hf))

theorem held_step (p : Process) (s : State) (a : Act) (s' : State) (h : step p s a = some s')
    (hforms : FormsInv p s) (hcount : CountInv s) (hok : GivesUpQuiet p s a) (hheld : Held p s) :
    Held p s' := by
  cases step_move p s s' a h with
  | collect tids_v pipe hphase =>
    have hdue : ∀ t, due p s t = [] := by
      intro t
      rw [List.eq_nil_iff_forall_not_mem]
      intro f hf
      have hslot := hheld.2 t f hf
      rw [hcount.idle hphase] at hslot
      cases hslot
    unfold State.begin
    dsimp only
    split
    · apply held_leave
      · exact hheld.1
      · exact hdue
    · exact hheld.subset _ rfl rfl fun _ _ hf => hf
  | signalSent memory tid rest hphase halive =>
    exact hheld.allocate _ tid rfl rfl rfl rfl
  | signalFailed memory tid rest hphase => exact hheld.subset _ rfl rfl fun _ _ hf => hf
  | arm created armed hphase =>
    unfold State.arm
    split_ifs with hcreated harmed
    · exact hheld.subset _ rfl rfl fun _ _ hf => hf
    · apply held_leave
      · exact hheld.1
      · exact hok (by simp [harmed])
    · exact held_leave hheld.1 (hok (by simp [hcreated])) _ _ _
  | retry hphase => exact hheld
  | readAck hphase hless hpipe => exact hheld.subset _ rfl rfl fun _ _ hf => hf
  | expire hphase hless => exact held_leave hheld.1 hok _ _ _
  | post hphase hall =>
    -- every form in a slot was submitted, so none is due
    have hdue : ∀ t, due p s t = [] := by
      intro t
      rw [List.eq_nil_iff_forall_not_mem]
      intro f hf
      obtain ⟨form, hform⟩ := hheld.live hforms t f hf
      exact (hforms.own t f hf form hform).2
        (slot_submitted hforms hcount hphase hall f (hheld.2 t f hf))
    exact held_leave hheld.1 hdue _ _ _
  | deliver t unwound signal rest hpending hnone =>
    exact hheld.subset _ (deliver_same p s t signal rest unwound).1
      (deliver_same p s t signal rest unwound).2
      (due_deliver p s t signal rest unwound hpending hnone)
  | frame t f ip rest hrunning =>
    obtain ⟨form, hform⟩ := hheld.live hforms t f (mem_due_of_running p s t _ hrunning)
    have hdue := due_frame p s t f ip rest hrunning
    cases ip with
    | none => exact hheld.subset _ rfl rfl hdue
    | some ip =>
      have heq : s.frame t f (some ip) rest =
          { s with
            forms := Function.update s.forms f (some (AddAddress form ip).1)
            running := Function.update s.running t
              (some ⟨f, if (AddAddress form ip).2 then rest else []⟩) } := by
        simp [State.frame, hform]
      rw [heq] at hdue ⊢
      exact hheld.subset _ rfl rfl hdue
  | submit t written f hrunning =>
    obtain ⟨form, hform⟩ := hheld.live hforms t f (mem_due_of_running p s t _ hrunning)
    have hdue := due_submit p s t f written
    unfold State.submit at hdue ⊢
    rw [hform] at hdue ⊢
    split_ifs at hdue ⊢
    · exact hheld.subset _ rfl rfl hdue
    · exact hheld.subset _ rfl rfl hdue
  | send t signal hforeign =>
    refine hheld.subset _ rfl rfl ?_
    intro u f hf
    rwa [due_send p s t signal hforeign] at hf
  | spawn t => exact hheld.subset _ rfl rfl fun _ _ hf => hf
  | exit t hnone => exact hheld.subset _ rfl rfl (due_exit p s t)

/-- No handler ever works on a form that has been deleted, if and only if Collect never
gives up while a form is on its way. -/
theorem along_held_iff (p : Process) (alive : Int32 → Bool) (actions : List Act) :
    Along (step p) (Held p) (init alive) actions ↔
      Meets (step p) (GivesUpQuiet p) (init alive) actions := by
  have hinit := inv_reachable p alive (init alive) ⟨[], rfl⟩
  apply along_iff_meets (I := fun s => FormsInv p s ∧ CountInv s)
  · intro s a s' hstep hs
    exact ⟨formsInv_step p s a s' hstep hs.1, countInv_step p s a s' hstep hs.1 hs.2⟩
  · intro s a s' hstep hs hok hheld
    exact held_step p s a s' hstep hs.1 hs.2 hok hheld
  · intro s a s' hstep _ _ hheld
    cases step_move p s s' a hstep with
    | arm created armed hphase =>
      intro hfailed
      unfold State.arm at hheld
      split_ifs at hheld with hcreated harmed
      · simp [hcreated, harmed] at hfailed
      · have hnil := due_nil_of_held_leave hheld
        exact hnil
      · exact due_nil_of_held_leave hheld
    | expire hphase hless =>
      unfold State.expire at hheld
      exact due_nil_of_held_leave hheld
    | _ => trivial
  · exact ⟨hinit.1, hinit.2.1⟩
  · refine ⟨rfl, ?_⟩
    intro t f hf
    cases hf

/-- The timer cannot be created after thread 8 was signalled; its handler then enters an
address in a form that is gone. -/
example :
    (run (step ⟨100, 7, fun _ => none⟩) (init fun _ => true) [.collect [8] (some 5),
      .signal true fun _ => 0, .arm false false, .deliver 8 (some [some 16]), .frame 8]).map
        (fun s => s.fault) = some true := rfl

/-- What Collect holds open where it is. -/
def opened : Phase → List Descriptor
  | .idle => []
  | .signalling _ => [.pipeWrite, .pipeRead]
  | .waiting => [.timer, .pipeWrite, .pipeRead]

/-- The descriptors of the call in progress, and a timer for every timerfd_settime that
failed. -/
def Accounted (s : State) : Prop :=
  s.descriptors = opened s.phase ++ List.replicate s.settimeFailures .timer

theorem accounted_step (p : Process) (s : State) (a : Act) (s' : State)
    (h : step p s a = some s') (hacc : Accounted s) : Accounted s' := by
  unfold Accounted at hacc ⊢
  cases step_move p s s' a h with
  | collect tids_v pipe hphase =>
    rw [hphase] at hacc
    unfold State.begin
    dsimp only
    split
    · exact hacc
    · show Descriptor.pipeWrite :: .pipeRead :: s.descriptors = _
      rw [hacc]
      rfl
  | signalSent memory tid rest hphase halive =>
    rw [hphase] at hacc
    exact hacc
  | signalFailed memory tid rest hphase =>
    rw [hphase] at hacc
    exact hacc
  | arm created armed hphase =>
    rw [hphase] at hacc
    unfold State.arm
    split_ifs
    · show Descriptor.timer :: s.descriptors = _
      rw [hacc]
      rfl
    · show (Descriptor.timer :: s.descriptors).diff [.pipeWrite, .pipeRead] =
        List.replicate (s.settimeFailures + 1) .timer
      rw [hacc]
      simp [opened, List.diff_cons, List.replicate_succ]
    · show s.descriptors.diff [.pipeWrite, .pipeRead] = List.replicate s.settimeFailures .timer
      rw [hacc]
      simp [opened, List.diff_cons]
  | retry hphase => exact hacc
  | readAck hphase hless hpipe => exact hacc
  | expire hphase hless =>
    rw [hphase] at hacc
    show s.descriptors.diff [.timer, .pipeWrite, .pipeRead] =
      List.replicate s.settimeFailures .timer
    rw [hacc]
    simp [opened, List.diff_cons]
  | post hphase hall =>
    rw [hphase] at hacc
    show s.descriptors.diff [.timer, .pipeWrite, .pipeRead] =
      List.replicate s.settimeFailures .timer
    rw [hacc]
    simp [opened, List.diff_cons]
  | deliver t unwound signal rest hpending hnone =>
    unfold State.deliver
    dsimp only
    split_ifs
    · exact hacc
    · split <;> exact hacc
  | frame t f ip rest hrunning =>
    unfold State.frame
    split
    · exact hacc
    · split <;> exact hacc
  | submit t written f hrunning =>
    unfold State.submit
    split
    · exact hacc
    · split_ifs <;> exact hacc
  | send t signal hforeign => exact hacc
  | spawn t => exact hacc
  | exit t hnone => exact hacc

/-- Every way out of Collect closes what the call has opened, but for the timer when
timerfd_settime fails: after any number of calls one timer is open for each such failure. -/
theorem descriptors_accounted (p : Process) (alive : Int32 → Bool) (s : State)
    (h : Reachable (step p) (init alive) s) :
    s.descriptors = opened s.phase ++ List.replicate s.settimeFailures .timer :=
  reachable_invariant (P := Accounted) (accounted_step p) h rfl

/-- Two calls: in the first the timer cannot be set. -/
theorem descriptors_accounted_settime :
    ∃ s, run (step ⟨100, 7, fun _ => none⟩) (init fun _ => true) [.collect [] (some 5),
        .arm true false, .collect [] (some 6), .arm true true] = some s ∧
      s.descriptors = [.timer, .pipeWrite, .pipeRead, .timer] ∧
      s.descriptors = opened s.phase ++ List.replicate s.settimeFailures .timer := by
  refine ⟨_, rfl, rfl, ?_⟩
  exact descriptors_accounted ⟨100, 7, fun _ => none⟩ (fun _ => true) _
    ⟨[.collect [] (some 5), .arm true false, .collect [] (some 6), .arm true true], rfl⟩

end JvmTrace.CollectionResults
