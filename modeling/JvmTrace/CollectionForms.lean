import JvmTrace.StackTraceCollection

/-!
The forms of a collection and the handlers that fill them in. A form that is still in a
slot is on its way to one thread, or in the hands of that thread's handler, or submitted;
a submitted form holds the first addresses its thread unwound. The bytes read and the
bytes in the pipe are the submissions, and no form is submitted twice, so as many acks as
slots mean that every form is complete.
-/
namespace JvmTrace.CollectionForms

open Runs OrderedMaps StackTraceCollector StackTraceCollection

/-- The form a signal leads InternalHandler to. -/
def payload (p : Process) (signal : Signal) : Option ℕ :=
  if signal.si_pid = p.pid then signal.sival_ptr else none

/-- The forms on their way to a thread. -/
def queued (p : Process) (s : State) (t : Int32) : List ℕ := (s.pending t).filterMap (payload p)

/-- The forms a thread has still to submit. -/
def due (p : Process) (s : State) (t : Int32) : List ℕ :=
  (s.running t).toList.map Handler.form ++ queued p s t

/-- Walking the rest gives what walking everything gives on a blank form. -/
def Walked (form : StackTraceForm) (rest unwound : List (Option Int64)) : Prop :=
  ∃ start : StackTraceForm, start.stack.depth = 0 ∧ fillForm form rest = fillForm start unwound

structure FormsInv (p : Process) (s : State) : Prop where
  fresh : ∀ t, ∀ f ∈ due p s t, f < s.next
  slotFresh : ∀ f ∈ s.slot, f < s.next
  slotNodup : s.slot.Nodup
  held : ∀ f, (s.forms f).isSome = true ↔ f ∈ s.slot
  once : ∀ t, (due p s t).Nodup
  own : ∀ t, ∀ f ∈ due p s t, ∀ form, s.forms f = some form → form.stack.tid = t ∧ f ∉ s.submitted
  blank : ∀ t, ∀ f ∈ queued p s t, ∀ form, s.forms f = some form → form.stack.depth = 0
  walked : ∀ t h form, s.running t = some h → s.forms h.form = some form →
    Walked form h.frames (s.unwound h.form)
  handed : ∀ f ∈ s.submitted, ∃ form, s.forms f = some form ∧ Walked form [] (s.unwound f)
  submittedNodup : s.submitted.Nodup

theorem mem_due_of_running (p : Process) (s : State) (t : Int32) (h : Handler)
    (hrunning : s.running t = some h) : h.form ∈ due p s t := by
  simp [due, hrunning]

theorem mem_due_of_queued (p : Process) (s : State) (t : Int32) (f : ℕ)
    (h : f ∈ queued p s t) : f ∈ due p s t := List.mem_append_right _ h

/-- The addresses of a complete form. -/
theorem Walked.trace_eq {form : StackTraceForm} {unwound : List (Option Int64)}
    (h : Walked form [] unwound) : trace form.stack = unwound.reduceOption.take kMaxDepth := by
  obtain ⟨start, hdepth, hfill⟩ := h
  have htrace := (trace_fillForm start unwound).1
  have hnone : trace start.stack = [] := by simp [trace, hdepth]
  rw [← hfill, hnone, hdepth] at htrace
  simpa [fillForm] using htrace

/-- The collector's own steps, and anything else that leaves forms and handlers alone. -/
theorem FormsInv.same {p : Process} {s : State} (s' : State) (h : FormsInv p s)
    (hpending : s'.pending = s.pending) (hrunning : s'.running = s.running)
    (hforms : s'.forms = s.forms) (hslot : s'.slot = s.slot) (hunwound : s'.unwound = s.unwound)
    (hsubmitted : s'.submitted = s.submitted) (hnext : s.next ≤ s'.next) : FormsInv p s' := by
  have hdue : due p s' = due p s := by
    funext t
    simp [due, queued, hpending, hrunning]
  have hqueued : queued p s' = queued p s := by
    funext t
    simp [queued, hpending]
  constructor
  · intro t f hf
    rw [hdue] at hf
    exact (h.fresh t f hf).trans_le hnext
  · intro f hf
    rw [hslot] at hf
    exact (h.slotFresh f hf).trans_le hnext
  · rw [hslot]
    exact h.slotNodup
  · rw [hforms, hslot]
    exact h.held
  · rw [hdue]
    exact h.once
  · rw [hdue, hforms, hsubmitted]
    exact h.own
  · rw [hqueued, hforms]
    exact h.blank
  · rw [hrunning, hforms, hunwound]
    exact h.walked
  · rw [hsubmitted, hforms, hunwound]
    exact h.handed
  · rw [hsubmitted]
    exact h.submittedNodup

/-- Signals get lost and handlers give up. -/
theorem FormsInv.shrink {p : Process} {s : State} (s' : State) (h : FormsInv p s)
    (hdue : ∀ t, (due p s' t).Sublist (due p s t))
    (hqueued : ∀ t, ∀ f ∈ queued p s' t, f ∈ queued p s t)
    (hrunning : ∀ t handler, s'.running t = some handler → s.running t = some handler)
    (hforms : s'.forms = s.forms) (hslot : s'.slot = s.slot) (hunwound : s'.unwound = s.unwound)
    (hsubmitted : s'.submitted = s.submitted) (hnext : s'.next = s.next) : FormsInv p s' := by
  constructor
  · intro t f hf
    rw [hnext]
    exact h.fresh t f ((hdue t).subset hf)
  · rw [hslot, hnext]
    exact h.slotFresh
  · rw [hslot]
    exact h.slotNodup
  · rw [hforms, hslot]
    exact h.held
  · intro t
    exact (h.once t).sublist (hdue t)
  · intro t f hf
    rw [hforms, hsubmitted]
    exact h.own t f ((hdue t).subset hf)
  · intro t f hf
    rw [hforms]
    exact h.blank t f (hqueued t f hf)
  · intro t handler form hr
    rw [hforms, hunwound]
    exact h.walked t handler form (hrunning t handler hr)
  · rw [hsubmitted, hforms, hunwound]
    exact h.handed
  · rw [hsubmitted]
    exact h.submittedNodup

/-- When Collect returns, no form is left. -/
theorem FormsInv.leave {p : Process} {s : State} (h : FormsInv p s) (error : Option String)
    (results : List Result) (closes : List Descriptor) :
    FormsInv p (s.leave error results closes) := by
  have hnone : ∀ f, (s.leave error results closes).forms f = none := by
    intro f
    show (if f ∈ s.slot then none else s.forms f) = none
    split_ifs with hf
    · rfl
    · rw [← h.held] at hf
      simpa using hf
  constructor
  · exact h.fresh
  · intro f hf
    cases hf
  · exact List.nodup_nil
  · intro f
    rw [hnone]
    show _ ↔ f ∈ []
    simp
  · exact h.once
  · intro t f _ form hform
    rw [hnone] at hform
    cases hform
  · intro t f _ form hform
    rw [hnone] at hform
    cases hform
  · intro t handler form _ hform
    rw [hnone] at hform
    cases hform
  · intro f hf
    cases hf
  · exact List.nodup_nil

theorem due_allocate {p : Process} {s : State} (s' : State) (tid : Int32)
    (hpending : s'.pending = Function.update s.pending tid
      (s.pending tid ++ [⟨p.pid, some s.next⟩])) (hrunning : s'.running = s.running) (u : Int32) :
    due p s' u = due p s u ++ if u = tid then [s.next] else [] := by
  unfold due queued
  rw [hpending, hrunning]
  split_ifs with hut
  · simp [hut, payload]
  · simp [hut]

/-- A form is allocated and sent on its way. -/
theorem FormsInv.allocate {p : Process} {s : State} (s' : State) (h : FormsInv p s) (tid : Int32)
    (form : StackTraceForm) (htid : form.stack.tid = tid) (hblank : form.stack.depth = 0)
    (hforms : s'.forms = Function.update s.forms s.next (some form))
    (hpending : s'.pending = Function.update s.pending tid
      (s.pending tid ++ [⟨p.pid, some s.next⟩]))
    (hslot : s'.slot = s.slot ++ [s.next]) (hnext : s'.next = s.next + 1)
    (hrunning : s'.running = s.running) (hunwound : s'.unwound = s.unwound)
    (hsubmitted : s'.submitted = s.submitted) : FormsInv p s' := by
  have hslot' : s.next ∉ s.slot := fun hmem => lt_irrefl _ (h.slotFresh _ hmem)
  have hnew : ∀ u, ∀ f ∈ due p s u, f ≠ s.next := by
    intro u f hf heq
    rw [heq] at hf
    exact lt_irrefl _ (h.fresh u _ hf)
  have hold : ∀ f, f ≠ s.next → s'.forms f = s.forms f := by
    intro f hf
    rw [hforms, Function.update_of_ne hf]
  have hqueued : ∀ u, queued p s' u = queued p s u ++ if u = tid then [s.next] else [] := by
    intro u
    unfold queued
    rw [hpending]
    split_ifs with hut
    · simp [hut, payload]
    · simp [hut]
  have hdue := due_allocate s' tid hpending hrunning
  have hmem : ∀ u f, f ∈ due p s' u → f ∈ due p s u ∨ (u = tid ∧ f = s.next) := by
    intro u f hf
    rw [hdue] at hf
    split_ifs at hf with hut
    · exact (List.mem_append.1 hf).imp_right fun hf' => ⟨hut, List.mem_singleton.1 hf'⟩
    · exact Or.inl (by simpa using hf)
  constructor
  · intro u f hf
    rw [hnext]
    rcases hmem u f hf with hf' | ⟨_, rfl⟩
    · exact Nat.lt_succ_of_lt (h.fresh u f hf')
    · exact Nat.lt_succ_self _
  · intro f hf
    rw [hnext]
    rw [hslot] at hf
    rcases List.mem_append.1 hf with hf' | hf'
    · exact Nat.lt_succ_of_lt (h.slotFresh f hf')
    · rw [List.mem_singleton.1 hf']
      exact Nat.lt_succ_self _
  · rw [hslot, ← List.concat_eq_append]
    exact List.Nodup.concat hslot' h.slotNodup
  · intro f
    rw [hslot]
    by_cases hf : f = s.next
    · simp [hf, hforms]
    · rw [hold f hf, h.held f]
      simp [hf]
  · intro u
    rw [hdue]
    split_ifs with hut
    · have hnot : s.next ∉ due p s u := fun hf => hnew u _ hf rfl
      rw [← List.concat_eq_append]
      exact List.Nodup.concat hnot (h.once u)
    · simpa using h.once u
  · intro u f hf form' hform
    rw [hsubmitted]
    rcases hmem u f hf with hf' | ⟨rfl, rfl⟩
    · rw [hold f (hnew u f hf')] at hform
      exact h.own u f hf' form' hform
    · have heq : form = form' := by simpa [hforms] using hform
      rw [← heq]
      refine ⟨htid, ?_⟩
      intro hmem
      obtain ⟨other, hother, _⟩ := h.handed _ hmem
      exact hslot' ((h.held _).1 (by simp [hother]))
  · intro u f hf form' hform
    rw [hqueued] at hf
    rcases List.mem_append.1 hf with hf' | hf'
    · rw [hold f (hnew u f (mem_due_of_queued p s u f hf'))] at hform
      exact h.blank u f hf' form' hform
    · have hfnext : f = s.next := by
        split_ifs at hf'
        · exact List.mem_singleton.1 hf'
        · cases hf'
      have heq : form = form' := by simpa [hforms, hfnext] using hform
      rw [← heq]
      exact hblank
  · intro u handler form' hr hform
    rw [hrunning] at hr
    rw [hold _ (hnew u _ (mem_due_of_running p s u handler hr))] at hform
    rw [hunwound]
    exact h.walked u handler form' hr hform
  · intro f hf
    rw [hsubmitted] at hf
    obtain ⟨form', hform, hwalked⟩ := h.handed f hf
    have hne : f ≠ s.next := by
      intro heq
      exact hslot' ((h.held _).1 (by rw [← heq, hform]; rfl))
    rw [hunwound]
    exact ⟨form', (hold f hne).trans hform, hwalked⟩
  · rw [hsubmitted]
    exact h.submittedNodup

/-- A thread's handler begins with the form that was next on its way. -/
theorem FormsInv.start {p : Process} {s : State} (s' : State) (h : FormsInv p s) (t : Int32)
    (f : ℕ) (frames : List (Option Int64)) (signal : Signal) (rest : List Signal)
    (hsignal : s.pending t = signal :: rest) (hpayload : payload p signal = some f)
    (hnone : s.running t = none) (hpending : s'.pending = Function.update s.pending t rest)
    (hrunning : s'.running = Function.update s.running t (some ⟨f, frames⟩))
    (hunwound : s'.unwound = Function.update s.unwound f frames) (hforms : s'.forms = s.forms)
    (hslot : s'.slot = s.slot) (hsubmitted : s'.submitted = s.submitted)
    (hnext : s'.next = s.next) : FormsInv p s' := by
  have hqueue : queued p s t = f :: queued p s' t := by
    simp [queued, hsignal, hpayload, hpending]
  have hdueT : due p s t = f :: queued p s' t := by simp [due, hnone, hqueue]
  have hqueued : ∀ u, u ≠ t → queued p s' u = queued p s u := by
    intro u hut
    simp [queued, hpending, hut]
  have hdue : ∀ u, due p s' u = due p s u := by
    intro u
    by_cases hut : u = t
    · rw [hut, hdueT]
      simp [due, hrunning]
    · simp [due, hrunning, hut, hqueued u hut]
  have hmine : f ∈ due p s t := by simp [hdueT]
  constructor
  · intro u g hg
    rw [hdue] at hg
    rw [hnext]
    exact h.fresh u g hg
  · rw [hslot, hnext]
    exact h.slotFresh
  · rw [hslot]
    exact h.slotNodup
  · rw [hforms, hslot]
    exact h.held
  · intro u
    rw [hdue]
    exact h.once u
  · intro u g hg
    rw [hdue] at hg
    rw [hforms, hsubmitted]
    exact h.own u g hg
  · intro u g hg
    rw [hforms]
    by_cases hut : u = t
    · rw [hut] at hg
      exact h.blank t g (by rw [hqueue]; exact List.mem_cons_of_mem _ hg)
    · rw [hqueued u hut] at hg
      exact h.blank u g hg
  · intro u handler form hr hform
    rw [hforms] at hform
    rw [hrunning] at hr
    rw [hunwound]
    by_cases hut : u = t
    · rw [hut, Function.update_self] at hr
      obtain rfl := Option.some.inj hr
      rw [Function.update_self]
      exact ⟨form, h.blank t f (by simp [hqueue]) form hform, rfl⟩
    · rw [Function.update_of_ne hut] at hr
      have hgu := mem_due_of_running p s u handler hr
      -- a live form is on its way to one thread only
      have hne : handler.form ≠ f := by
        intro heq
        have hu := (h.own u _ hgu form hform).1
        rw [heq] at hform
        exact hut (hu.symm.trans (h.own t f hmine form hform).1)
      rw [Function.update_of_ne hne]
      exact h.walked u handler form hr hform
  · intro g hg
    rw [hsubmitted] at hg
    obtain ⟨form, hform, hwalked⟩ := h.handed g hg
    have hne : g ≠ f := by
      intro heq
      rw [heq] at hform hg
      exact (h.own t f hmine form hform).2 hg
    rw [hforms, hunwound, Function.update_of_ne hne]
    exact ⟨form, hform, hwalked⟩
  · rw [hsubmitted]
    exact h.submittedNodup

/-- A handler goes on to its next frame, with what it may have entered in its form. -/
theorem FormsInv.walk {p : Process} {s : State} (s' : State) (h : FormsInv p s) (t : Int32)
    (f : ℕ) (frames rest : List (Option Int64)) (hr : s.running t = some ⟨f, frames⟩)
    (hforms : ∀ g, g ≠ f → s'.forms g = s.forms g)
    (hform : ∀ form', s'.forms f = some form' → ∃ form, s.forms f = some form ∧
      form'.stack.tid = form.stack.tid ∧ fillForm form' rest = fillForm form frames)
    (hlive : (s'.forms f).isSome = (s.forms f).isSome)
    (hrunning : s'.running = Function.update s.running t (some ⟨f, rest⟩))
    (hpending : s'.pending = s.pending) (hunwound : s'.unwound = s.unwound)
    (hslot : s'.slot = s.slot) (hsubmitted : s'.submitted = s.submitted)
    (hnext : s'.next = s.next) : FormsInv p s' := by
  have hqueued : queued p s' = queued p s := by
    funext u
    simp [queued, hpending]
  have hdue : ∀ u, due p s' u = due p s u := by
    intro u
    unfold due
    rw [hqueued, hrunning]
    by_cases hut : u = t
    · simp [hut, hr]
    · simp [hut]
  have hmine : f ∈ due p s t := mem_due_of_running p s t _ hr
  have hnotQueued : ∀ u form, s.forms f = some form → f ∉ queued p s u := by
    intro u form hsome hq
    have hut : u = t := (h.own u f (mem_due_of_queued p s u f hq) form hsome).1.symm.trans
      (h.own t f hmine form hsome).1
    have honce := h.once t
    unfold due at honce
    rw [hr] at honce
    rw [hut] at hq
    exact (List.nodup_cons.1 honce).1 hq
  constructor
  · intro u g hg
    rw [hdue] at hg
    rw [hnext]
    exact h.fresh u g hg
  · rw [hslot, hnext]
    exact h.slotFresh
  · rw [hslot]
    exact h.slotNodup
  · intro g
    rw [hslot, ← h.held g]
    by_cases hgf : g = f
    · rw [hgf, hlive]
    · rw [hforms g hgf]
  · intro u
    rw [hdue]
    exact h.once u
  · intro u g hg form' hsome
    rw [hdue] at hg
    rw [hsubmitted]
    by_cases hgf : g = f
    · rw [hgf] at hg hsome ⊢
      obtain ⟨form, hold, htid, _⟩ := hform form' hsome
      rw [htid]
      exact h.own u f hg form hold
    · rw [hforms g hgf] at hsome
      exact h.own u g hg form' hsome
  · intro u g hg form' hsome
    rw [hqueued] at hg
    by_cases hgf : g = f
    · rw [hgf] at hg hsome
      obtain ⟨form, hold, _⟩ := hform form' hsome
      exact absurd hg (hnotQueued u form hold)
    · rw [hforms g hgf] at hsome
      exact h.blank u g hg form' hsome
  · intro u handler form' hru hsome
    rw [hrunning] at hru
    rw [hunwound]
    by_cases hut : u = t
    · rw [hut, Function.update_self] at hru
      obtain rfl := Option.some.inj hru
      obtain ⟨form, hold, _, hfill⟩ := hform form' hsome
      obtain ⟨start, hdepth, hstart⟩ := h.walked t _ form hr hold
      exact ⟨start, hdepth, hfill.trans hstart⟩
    · rw [Function.update_of_ne hut] at hru
      have hgu := mem_due_of_running p s u handler hru
      have hne : handler.form ≠ f := by
        intro heq
        rw [heq] at hsome hgu
        obtain ⟨form, hold, _⟩ := hform form' hsome
        exact hut ((h.own u f hgu form hold).1.symm.trans (h.own t f hmine form hold).1)
      rw [hforms _ hne] at hsome
      exact h.walked u handler form' hru hsome
  · intro g hg
    rw [hsubmitted] at hg
    obtain ⟨form, hsome, hwalked⟩ := h.handed g hg
    have hne : g ≠ f := by
      intro heq
      rw [heq] at hsome hg
      exact (h.own t f hmine form hsome).2 hg
    rw [hforms g hne, hunwound]
    exact ⟨form, hsome, hwalked⟩
  · rw [hsubmitted]
    exact h.submittedNodup

/-- A handler that has walked all frames submits its form. -/
theorem FormsInv.submit {p : Process} {s : State} (s' : State) (h : FormsInv p s) (t : Int32)
    (f : ℕ) (form : StackTraceForm) (hr : s.running t = some ⟨f, []⟩)
    (hform : s.forms f = some form) (hrunning : s'.running = Function.update s.running t none)
    (hsubmitted : s'.submitted = s.submitted ++ [f]) (hforms : s'.forms = s.forms)
    (hpending : s'.pending = s.pending) (hunwound : s'.unwound = s.unwound)
    (hslot : s'.slot = s.slot) (hnext : s'.next = s.next) : FormsInv p s' := by
  have hqueued : queued p s' = queued p s := by
    funext u
    simp [queued, hpending]
  have hdueT : due p s t = f :: due p s' t := by simp [due, hqueued, hrunning, hr]
  have hdue : ∀ u, u ≠ t → due p s' u = due p s u := by
    intro u hut
    simp [due, hqueued, hrunning, hut]
  have hsub : ∀ u, (due p s' u).Sublist (due p s u) := by
    intro u
    by_cases hut : u = t
    · rw [hut, hdueT]
      exact List.sublist_cons_self _ _
    · rw [hdue u hut]
  have hmine : f ∈ due p s t := mem_due_of_running p s t _ hr
  obtain ⟨htid, hnew⟩ := h.own t f hmine form hform
  constructor
  · intro u g hg
    rw [hnext]
    exact h.fresh u g ((hsub u).subset hg)
  · rw [hslot, hnext]
    exact h.slotFresh
  · rw [hslot]
    exact h.slotNodup
  · rw [hforms, hslot]
    exact h.held
  · intro u
    exact (h.once u).sublist (hsub u)
  · intro u g hg other hsome
    rw [hforms] at hsome
    obtain ⟨hutid, hold⟩ := h.own u g ((hsub u).subset hg) other hsome
    refine ⟨hutid, ?_⟩
    rw [hsubmitted, List.mem_append, List.mem_singleton, not_or]
    refine ⟨hold, ?_⟩
    intro hgf
    rw [hgf] at hg hsome
    have hut : u = t := by
      rw [← hutid, ← htid]
      exact congrArg (fun form : StackTraceForm => form.stack.tid)
        (Option.some.inj (hsome.symm.trans hform))
    rw [hut] at hg
    have honce := h.once t
    rw [hdueT] at honce
    exact (List.nodup_cons.1 honce).1 hg
  · intro u g hg
    rw [hqueued] at hg
    rw [hforms]
    exact h.blank u g hg
  · intro u handler other hru hsome
    rw [hforms] at hsome
    rw [hrunning] at hru
    rw [hunwound]
    by_cases hut : u = t
    · rw [hut, Function.update_self] at hru
      cases hru
    · rw [Function.update_of_ne hut] at hru
      exact h.walked u handler other hru hsome
  · intro g hg
    rw [hforms, hunwound]
    rw [hsubmitted] at hg
    rcases List.mem_append.1 hg with hg | hg
    · exact h.handed g hg
    · rw [List.mem_singleton.1 hg]
      exact ⟨form, hform, h.walked t _ form hr hform⟩
  · rw [hsubmitted, ← List.concat_eq_append]
    exact List.Nodup.concat hnew h.submittedNodup

/-- A thread forgets signals, the first one or all. -/
theorem FormsInv.forget {p : Process} {s : State} (s' : State) (h : FormsInv p s) (t : Int32)
    (rest : List Signal) (hrest : rest.Sublist (s.pending t))
    (hpending : s'.pending = Function.update s.pending t rest)
    (hrunning : s'.running = s.running)
    (hforms : s'.forms = s.forms) (hslot : s'.slot = s.slot) (hunwound : s'.unwound = s.unwound)
    (hsubmitted : s'.submitted = s.submitted) (hnext : s'.next = s.next) : FormsInv p s' := by
  have hqueued : ∀ u, (queued p s' u).Sublist (queued p s u) := by
    intro u
    unfold queued
    rw [hpending]
    by_cases hut : u = t
    · rw [hut, Function.update_self]
      exact hrest.filterMap _
    · rw [Function.update_of_ne hut]
  apply h.shrink s' _ _ _ hforms hslot hunwound hsubmitted hnext
  · intro u
    unfold due
    rw [hrunning]
    exact (hqueued u).append_left _
  · intro u f hf
    exact (hqueued u).subset hf
  · intro u handler hr
    rwa [hrunning] at hr

theorem due_forget (p : Process) (s : State) (t : Int32) (rest : List Signal)
    (hrest : rest.Sublist (s.pending t)) (u : Int32) (f : ℕ)
    (hf : f ∈ due p { s with pending := Function.update s.pending t rest } u) :
    f ∈ due p s u := by
  unfold due queued at hf ⊢
  by_cases hut : u = t
  · rw [hut] at hf ⊢
    simp only [Function.update_self] at hf
    exact ((hrest.filterMap _).append_left _).subset hf
  · simpa only [Function.update_of_ne hut] using hf

theorem due_exit (p : Process) (s : State) (t u : Int32) (f : ℕ)
    (hf : f ∈ due p { s with
      alive := Function.update s.alive t false
      pending := Function.update s.pending t [] } u) : f ∈ due p s u :=
  due_forget p s t [] (List.nil_sublist _) u f hf

theorem deliver_same (p : Process) (s : State) (t : Int32) (signal : Signal)
    (rest : List Signal) (unwound : Option (List (Option Int64))) :
    (s.deliver p t signal rest unwound).fault = s.fault ∧
      (s.deliver p t signal rest unwound).slot = s.slot := by
  unfold State.deliver
  dsimp only
  split_ifs
  · exact ⟨rfl, rfl⟩
  · split <;> exact ⟨rfl, rfl⟩

theorem due_deliver (p : Process) (s : State) (t : Int32) (signal : Signal) (rest : List Signal)
    (unwound : Option (List (Option Int64))) (hsignal : s.pending t = signal :: rest)
    (hnone : s.running t = none) (u : Int32) (f : ℕ)
    (hf : f ∈ due p (s.deliver p t signal rest unwound) u) : f ∈ due p s u := by
  have hrest : rest.Sublist (s.pending t) := by
    rw [hsignal]
    exact List.sublist_cons_self _ _
  unfold State.deliver at hf
  dsimp only at hf
  split_ifs at hf with hpid
  · exact due_forget p s t rest hrest u f hf
  · split at hf
    · rename_i _ g frames hptr
      by_cases hut : u = t
      · have hpayload : payload p signal = some g := by
          rw [payload, if_pos (not_not.1 hpid), hptr]
        rw [hut] at hf ⊢
        simpa [due, queued, hnone, hsignal, hpayload] using hf
      · simpa [due, queued, hut] using hf
    · exact due_forget p s t rest hrest u f hf

theorem due_frame (p : Process) (s : State) (t : Int32) (f : ℕ) (ip : Option Int64)
    (rest : List (Option Int64)) (hr : s.running t = some ⟨f, ip :: rest⟩) (u : Int32) (g : ℕ)
    (hg : g ∈ due p (s.frame t f ip rest) u) : g ∈ due p s u := by
  have hwalk : ∀ frames, (Function.update s.running t (some ⟨f, frames⟩) u).map Handler.form =
      (s.running u).map Handler.form := by
    intro frames
    by_cases hut : u = t
    · simp [hut, hr]
    · simp [hut]
  unfold State.frame at hg
  split at hg
  · simpa [due, queued, hwalk, ← Option.toList_map] using hg
  · split at hg
    · exact hg
    · simpa [due, queued, hwalk, ← Option.toList_map] using hg

theorem due_submit (p : Process) (s : State) (t : Int32) (f : ℕ) (written : Bool) (u : Int32)
    (g : ℕ) (hg : g ∈ due p (s.submit t f written) u) : g ∈ due p s u := by
  have hleave : g ∈ (Function.update s.running t none u).toList.map Handler.form ++
      queued p s u → g ∈ due p s u := by
    intro hmem
    by_cases hut : u = t
    · rw [hut] at hmem ⊢
      exact List.mem_append_right _ (by simpa using hmem)
    · rwa [Function.update_of_ne hut] at hmem
  unfold State.submit at hg
  split at hg
  · exact hg
  · split_ifs at hg
    · exact hleave hg
    · exact hleave hg

theorem FormsInv.deliver {p : Process} {s : State} (h : FormsInv p s) (t : Int32)
    (unwound : Option (List (Option Int64))) (signal : Signal) (rest : List Signal)
    (hsignal : s.pending t = signal :: rest) (hnone : s.running t = none) :
    FormsInv p (s.deliver p t signal rest unwound) := by
  have hdrop : FormsInv p { s with pending := Function.update s.pending t rest } := by
    refine h.forget _ t rest ?_ rfl rfl rfl rfl rfl rfl rfl
    rw [hsignal]
    exact List.sublist_cons_self _ _
  unfold State.deliver
  dsimp only
  split_ifs with hpid
  · exact hdrop
  · split
    · rename_i _ f frames hptr
      refine h.start _ t f frames signal rest hsignal ?_ hnone rfl rfl rfl rfl rfl rfl rfl
      rw [payload, if_pos (not_not.1 hpid), hptr]
    · exact hdrop

theorem FormsInv.frame {p : Process} {s : State} (h : FormsInv p s) (t : Int32) (f : ℕ)
    (ip : Option Int64) (rest : List (Option Int64))
    (hr : s.running t = some ⟨f, ip :: rest⟩) : FormsInv p (s.frame t f ip rest) := by
  cases ip with
  | none =>
    refine h.walk (s.frame t f none rest) t f _ rest hr (fun _ _ => rfl) ?_ rfl rfl rfl rfl rfl rfl
      rfl
    intro form hform
    exact ⟨form, hform, rfl, rfl⟩
  | some ip =>
    unfold State.frame
    dsimp only
    split
    · exact h.same _ rfl rfl rfl rfl rfl rfl le_rfl
    · rename_i form hform
      have hother : ∀ g, g ≠ f →
          Function.update s.forms f (some (AddAddress form ip).1) g = s.forms g :=
        fun g hg => Function.update_of_ne hg _ _
      refine h.walk _ t f _ (if (AddAddress form ip).2 then rest else []) hr hother ?_ ?_ rfl rfl
        rfl rfl rfl rfl
      · intro form' hform'
        have heq : (AddAddress form ip).1 = form' := by simpa using hform'
        refine ⟨form, hform, ?_, ?_⟩
        · rw [← heq]
          unfold AddAddress
          split_ifs <;> rfl
        · rw [← heq, fillForm]
          split_ifs <;> rfl
      · simp [hform]

theorem FormsInv.submitStep {p : Process} {s : State} (h : FormsInv p s) (t : Int32) (f : ℕ)
    (written : Bool) (hr : s.running t = some ⟨f, []⟩) : FormsInv p (s.submit t f written) := by
  unfold State.submit
  split
  · exact h.same _ rfl rfl rfl rfl rfl rfl le_rfl
  · rename_i form hform
    split_ifs with hwritten
    · exact h.submit _ t f form hr hform rfl rfl rfl rfl rfl rfl rfl
    · refine h.shrink _ ?_ (fun _ _ hf => hf) ?_ rfl rfl rfl rfl rfl
      · intro u
        unfold due
        by_cases hut : u = t
        · rw [hut]
          simp [hr, queued]
        · simp [hut, queued]
      · intro u handler hu
        by_cases hut : u = t
        · simp [hut] at hu
        · simpa [hut] using hu

/-- A signal from elsewhere carries no form. -/
theorem queued_send (p : Process) (s : State) (t : Int32) (signal : Signal)
    (hforeign : signal.si_pid ≠ p.pid ∨ signal.sival_ptr = none) (u : Int32) :
    queued p { s with pending := Function.update s.pending t (s.pending t ++ [signal]) } u =
      queued p s u := by
  have hpayload : payload p signal = none := by
    unfold payload
    rcases hforeign with hpid | hptr
    · rw [if_neg hpid]
    · rw [hptr, ite_self]
  by_cases hut : u = t
  · simp [hut, queued, hpayload]
  · simp [hut, queued]

theorem due_send (p : Process) (s : State) (t : Int32) (signal : Signal)
    (hforeign : signal.si_pid ≠ p.pid ∨ signal.sival_ptr = none) (u : Int32) :
    due p { s with pending := Function.update s.pending t (s.pending t ++ [signal]) } u =
      due p s u := by
  unfold due
  rw [queued_send p s t signal hforeign u]

theorem formsInv_step (p : Process) (s : State) (a : Act) (s' : State)
    (h : step p s a = some s') (hinv : FormsInv p s) : FormsInv p s' := by
  cases step_move p s s' a h with
  | collect tids_v pipe hphase =>
    unfold State.begin
    dsimp only
    split
    · apply FormsInv.leave
      exact hinv.same _ rfl rfl rfl rfl rfl rfl le_rfl
    · exact hinv.same _ rfl rfl rfl rfl rfl rfl le_rfl
  | signalSent memory tid rest hphase halive =>
    exact hinv.allocate _ tid (newForm tid s.pipe_fd memory) rfl rfl rfl rfl rfl rfl rfl rfl rfl
  | signalFailed memory tid rest hphase =>
    exact hinv.same _ rfl rfl rfl rfl rfl rfl (Nat.le_succ _)
  | arm created armed hphase =>
    unfold State.arm
    split_ifs
    · exact hinv.same _ rfl rfl rfl rfl rfl rfl le_rfl
    · apply FormsInv.leave
      exact hinv.same _ rfl rfl rfl rfl rfl rfl le_rfl
    · exact hinv.leave _ _ _
  | retry hphase => exact hinv
  | readAck hphase hless hpipe => exact hinv.same _ rfl rfl rfl rfl rfl rfl le_rfl
  | expire hphase hless => exact hinv.leave _ _ _
  | post hphase hall => exact hinv.leave _ _ _
  | deliver t unwound signal rest hpending hnone =>
    exact hinv.deliver t unwound signal rest hpending hnone
  | frame t f ip rest hrunning => exact hinv.frame t f ip rest hrunning
  | submit t written f hrunning => exact hinv.submitStep t f written hrunning
  | send t signal hforeign =>
    refine hinv.shrink _ ?_ ?_ (fun _ _ hr => hr) rfl rfl rfl rfl rfl
    · intro u
      rw [due_send p s t signal hforeign u]
    · intro u f hf
      rwa [queued_send p s t signal hforeign u] at hf
  | spawn t => exact hinv.same _ rfl rfl rfl rfl rfl rfl le_rfl
  | exit t hnone => exact hinv.forget _ t [] (List.nil_sublist _) rfl rfl rfl rfl rfl rfl rfl

theorem formsInv_init (p : Process) (alive : Int32 → Bool) : FormsInv p (init alive) := by
  constructor <;> simp [init, due, queued]

end JvmTrace.CollectionForms
