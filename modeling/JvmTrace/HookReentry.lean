import JvmTrace.NestedHook

/-!
Re-entry of the checker's lock by one thread. The traffic of an addition runs
under in_mem and never reaches the checker; del clears nothing, so the node that
map_.erase gives back enters del again while the outer trace_lock is alive. Here
libc may also have no memory, in which case NULL is entered into the map, and
free may be given any pointer.
-/
namespace JvmTrace.HookReentry

open KeyedSums MemChecker NestedHook Runs

/-- The number of trace_locks alive after an event. -/
def held (n : ℕ) : Event → ℕ
  | .lock => n + 1
  | .find _ _ => n
  | .unlock => n - 1

/-- No trace_lock is entered while an earlier one is alive; n of them are alive at
the start. -/
def Quiet (n : ℕ) : List Event → Prop
  | [] => True
  | e :: rest => (e = .lock → n = 0) ∧ Quiet (held n e) rest

/-- The hooked malloc with any answer of libc: NULL too goes to the checker. -/
def malloc (s : Process) (size : UInt64) (ret : Addr) (before : List Nested)
    (nodeSize : UInt64) (node : Addr) (after : List Nested) : Option Process :=
  if ret = NULL then
    if s.inMem then some s
    else do
      let s ← Process.add { s with inMem := true } NULL size before nodeSize node after
      return { s with inMem := false }
  else s.malloc .interposed size ret before nodeSize node after

def step (s : Process) : Call → Option Process
  | .malloc size ret before nodeSize node after => malloc s size ret before nodeSize node after
  | .free ptr => s.free ptr

/-- The pointer handed to free is NULL or was never entered into the map. -/
def Untracked (s : Process) (call : Call) : Prop :=
  ∀ ptr, call = .free ptr → ptr = NULL ∨ ptr ∉ s.checker.map_

theorem quiet_append (n : ℕ) (first second : List Event) :
    Quiet n (first ++ second) ↔ Quiet n first ∧ Quiet (first.foldl held n) second := by
  induction first generalizing n with
  | nil => simp [Quiet]
  | cons e rest ih => simp only [List.cons_append, Quiet, ih, List.foldl_cons, and_assoc]

/-- What one call adds to the events leaves as many locks alive as it found. -/
def Balanced (events : List Event) : Prop := ∀ n, events.foldl held n = n

theorem balanced_wrap (inner : List Event) (p : Addr) (found : Bool) (h : Balanced inner) :
    Balanced ([.lock, .find p found] ++ inner ++ [.unlock]) := by
  intro n
  simp only [List.foldl_append, List.foldl_cons, List.foldl_nil, held]
  rw [h (n + 1)]
  omega

/-- Between two top-level calls: the flag is clear, no lock is alive, and every
binding has a node. -/
structure Between (s : Process) : Prop where
  clear : s.inMem = false
  unlocked : s.events.foldl held 0 = 0
  node_ne : ∀ p, s.Bound p → s.node p ≠ NULL

theorem insert_node_ne (s : Process) (p : Addr) (len : UInt64) (node : Addr) (hnode : node ≠ NULL)
    (h : ∀ q, s.Bound q → s.node q ≠ NULL) (q : Addr) (hq : (s.insert p len node).Bound q) :
    (s.insert p len node).node q ≠ NULL := by
  have hbound := Process.bound_of_add s p len q
  unfold Process.insert at hq ⊢
  split at hq
  · rename_i hp
    rw [if_pos hp]
    by_cases hqp : q = p
    · subst q
      exact h p hp
    · exact h q (hbound hqp hq)
  · rename_i hp
    rw [if_neg hp]
    by_cases hqp : q = p
    · subst q
      simpa using hnode
    · simpa [hqp] using h q (hbound hqp hq)

theorem insert_events (s : Process) (p : Addr) (len : UInt64) (node : Addr) :
    (s.insert p len node).events = s.events ∧ (s.insert p len node).inMem = s.inMem := by
  unfold Process.insert
  split <;> exact ⟨rfl, rfl⟩

/-- An addition takes the lock once, whatever its own traffic is. -/
theorem add_events (s t : Process) (p : Addr) (len : UInt64) (before : List Nested)
    (nodeSize : UInt64) (node : Addr) (after : List Nested)
    (hadd : s.add p len before nodeSize node after = some t)
    (h : ∀ q, s.Bound q → s.node q ≠ NULL) :
    t.events = s.events ++ [.lock, .unlock] ∧ ∀ q, t.Bound q → t.node q ≠ NULL := by
  simp only [Process.add, Option.bind_eq_bind, Option.bind_eq_some_iff, Option.pure_def,
    Option.some.injEq] at hadd
  obtain ⟨s₁, hbefore, s₂, hmalloc, s₃, hafter, rfl⟩ := hadd
  obtain ⟨hc₁, hn₁, _, he₁⟩ := Process.run_nested_sameChecker _ s₁ before hbefore
  simp only [Process.nested, Option.ite_none_right_eq_some, Process.libcMalloc_eq_some] at hmalloc
  obtain ⟨_, ⟨hne, _⟩, rfl⟩ := hmalloc
  obtain ⟨hc₃, hn₃, _, he₃⟩ := Process.run_nested_sameChecker _ s₃ after hafter
  constructor
  · change s₃.events ++ [.unlock] = s.events ++ [.lock, .unlock]
    rw [he₃, (insert_events _ p len node).1]
    change s₁.events ++ [.unlock] = _
    rw [he₁]
    simp [Process.emit]
  · intro q hq
    change s₃.node q ≠ NULL
    rw [hn₃]
    apply insert_node_ne _ p len node hne
    · intro r hr
      change s₁.node r ≠ NULL
      rw [hn₁]
      apply h r
      change r ∈ s₁.checker.map_ at hr
      rw [hc₁] at hr
      exact hr
    · change q ∈ s₃.checker.map_ at hq
      rw [hc₃] at hq
      exact hq

/-- A malloc outside the checker takes the lock once. -/
theorem malloc_events (s t : Process) (size : UInt64) (ret : Addr) (before : List Nested)
    (nodeSize : UInt64) (node : Addr) (after : List Nested)
    (hmalloc : malloc s size ret before nodeSize node after = some t) (h : Between s) :
    t.events = s.events ++ [.lock, .unlock] ∧ t.inMem = false ∧
      ∀ q, t.Bound q → t.node q ≠ NULL := by
  unfold malloc at hmalloc
  split at hmalloc
  · simp only [h.clear, Bool.false_eq_true, if_false, Option.bind_eq_bind, Option.bind_eq_some_iff,
      Option.pure_def, Option.some.injEq] at hmalloc
    obtain ⟨s₁, hadd, rfl⟩ := hmalloc
    obtain ⟨hevents, hnode⟩ := add_events _ s₁ NULL size before nodeSize node after hadd h.node_ne
    exact ⟨hevents, rfl, hnode⟩
  · simp only [Process.malloc, h.clear, Bool.false_eq_true, if_false, Process.traceMalloc,
      Option.bind_eq_bind, Option.bind_eq_some_iff, Option.pure_def, Option.some.injEq,
      Process.libcMalloc_eq_some] at hmalloc
    obtain ⟨s₂, ⟨s₁, ⟨_, rfl⟩, hadd⟩, rfl⟩ := hmalloc
    obtain ⟨hevents, hnode⟩ := add_events _ s₂ ret size before nodeSize node after hadd h.node_ne
    exact ⟨hevents, rfl, hnode⟩

theorem del_bound_of_bound (p q : Addr) (c : Checker) (h : q ∈ (MemChecker.del p c).map_) :
    q ∈ c.map_ := by
  unfold MemChecker.del at h
  split at h
  · exact h
  · split at h
    · exact h
    · exact (AList.mem_erase.mp h).2

/-- What any free does to the process, and that a pointer other than NULL takes
the lock first. -/
structure Freed (s t : Process) (ptr : Addr) (events : List Event) : Prop where
  events_eq : t.events = s.events ++ events
  balanced : Balanced events
  locks : ptr ≠ NULL → ∃ rest, events = .lock :: rest
  clear : t.inMem = false
  node_eq : t.node = s.node
  bound : ∀ q, t.Bound q → s.Bound q

theorem freed_null (s : Process) (hin : s.inMem = false) : Freed s (s.libcFree NULL) NULL [] where
  events_eq := by simp [Process.libcFree]
  balanced _ := rfl
  locks hne := absurd rfl hne
  clear := hin
  node_eq := rfl
  bound _ hq := hq

/-- A pointer that del does not find. -/
theorem freed_unbound (s : Process) (ptr : Addr) (hin : s.inMem = false) :
    Freed s ((((s.emit .lock).emit (.find ptr false)).emit .unlock).libcFree ptr) ptr
      [.lock, .find ptr false, .unlock] where
  events_eq := by simp [Process.libcFree, Process.emit]
  balanced := balanced_wrap [] ptr false fun _ => rfl
  locks _ := ⟨_, rfl⟩
  clear := hin
  node_eq := rfl
  bound _ hq := hq

/-- The erasure of a binding wraps the free of its node between lock and unlock. -/
theorem freed_erase (s t : Process) (ptr : Addr) (inner : List Event)
    (h : Freed (s.erased ptr) t (s.node ptr) inner) :
    Freed s ((t.emit .unlock).libcFree ptr) ptr
      ([.lock, .find ptr true] ++ inner ++ [.unlock]) where
  events_eq := by
    change t.events ++ [.unlock] = _
    rw [h.events_eq]
    simp [Process.erased, Process.emit]
  balanced := balanced_wrap inner ptr true h.balanced
  locks _ := ⟨_, rfl⟩
  clear := h.clear
  node_eq := h.node_eq
  bound q hq := del_bound_of_bound ptr q s.checker (h.bound q hq)

/-- A free of a bound pointer is a free of its node inside the critical section. -/
theorem freeDepth_bound_eq_some (depth : ℕ) (s t : Process) (ptr : Addr) (second : Int64)
    (hin : s.inMem = false) (hne : ptr ≠ NULL) (hlook : s.checker.map_.lookup ptr = some second)
    (hfree : Process.freeDepth (depth + 1) s ptr = some t) :
    ∃ u, Process.freeDepth depth (s.erased ptr) (s.node ptr) = some u ∧
      t = (u.emit .unlock).libcFree ptr := by
  simp only [Process.freeDepth, hin, Bool.false_eq_true, if_false, Process.del, hne, hlook,
    Option.bind_eq_bind, Option.bind_eq_some_iff, Option.pure_def, Option.some.injEq] at hfree
  obtain ⟨_, ⟨u, hu, rfl⟩, rfl⟩ := hfree
  exact ⟨u, hu, rfl⟩

theorem freeDepth_freed (depth : ℕ) (s t : Process) (ptr : Addr) (hin : s.inMem = false)
    (hfree : Process.freeDepth depth s ptr = some t) : ∃ events, Freed s t ptr events := by
  induction depth generalizing s t ptr with
  | zero => cases hfree
  | succ depth ih =>
    by_cases hnull : ptr = NULL
    · subst hnull
      rw [Process.freeDepth_null] at hfree
      cases hfree
      exact ⟨[], freed_null s hin⟩
    · cases hlook : s.checker.map_.lookup ptr with
      | none =>
        rw [Process.freeDepth_unbound s ptr depth hin hnull hlook] at hfree
        cases hfree
        exact ⟨_, freed_unbound s ptr hin⟩
      | some second =>
        obtain ⟨u, hu, rfl⟩ :=
          freeDepth_bound_eq_some depth s t ptr second hin hnull hlook hfree
        obtain ⟨inner, hinner⟩ := ih (s.erased ptr) u (s.node ptr) hin hu
        exact ⟨_, freed_erase s u ptr inner hinner⟩

/-- Each re-entry erases a binding, so the depth given to free is enough. -/
theorem freeDepth_isSome (depth : ℕ) (s : Process) (ptr : Addr) (hin : s.inMem = false)
    (hdepth : s.checker.map_.keys.length < depth) : (Process.freeDepth depth s ptr).isSome := by
  induction depth generalizing s ptr with
  | zero => omega
  | succ depth ih =>
    by_cases hnull : ptr = NULL
    · subst hnull
      rw [Process.freeDepth_null]
      rfl
    · cases hlook : s.checker.map_.lookup ptr with
      | none =>
        rw [Process.freeDepth_unbound s ptr depth hin hnull hlook]
        rfl
      | some second =>
        have hmem : ptr ∈ s.checker.map_ := by
          rw [← AList.lookup_isSome, hlook]
          rfl
        have hlength : (s.erased ptr).checker.map_.keys.length < s.checker.map_.keys.length := by
          simp only [Process.erased, del_bound ptr s.checker second hnull hlook, AList.keys_erase]
          have hpos := List.length_pos_of_mem (AList.mem_keys.mp hmem)
          rw [List.length_erase_of_mem (AList.mem_keys.mp hmem)]
          omega
        obtain ⟨u, hu⟩ := Option.isSome_iff_exists.mp
          (ih (s.erased ptr) (s.node ptr) hin (by omega))
        have hu' : Process.freeDepth depth { (s.emit .lock).emit (.find ptr true) with
            checker := MemChecker.del ptr s.checker } (s.node ptr) = some u := hu
        simp [Process.freeDepth, hin, Process.del, hnull, hlook, hu']

/-- The hooked free always comes to an end. -/
theorem free_returns (s : Process) (ptr : Addr) (hin : s.inMem = false) :
    ∃ t, step s (.free ptr) = some t :=
  Option.isSome_iff_exists.mp (freeDepth_isSome _ s ptr hin (Nat.lt_succ_self _))

/-- A free enters the lock twice exactly when its pointer is a tracked block: the
inner free is given the block's node, which is not NULL. -/
theorem free_quiet_iff (s t : Process) (ptr : Addr) (h : Between s)
    (hfree : step s (.free ptr) = some t) :
    ∃ events, Freed s t ptr events ∧
      (Quiet 0 events ↔ ptr = NULL ∨ ptr ∉ s.checker.map_) := by
  have hdepth : Process.freeDepth (s.checker.map_.keys.length + 1) s ptr = some t := hfree
  by_cases hnull : ptr = NULL
  · subst hnull
    rw [Process.freeDepth_null] at hdepth
    cases hdepth
    exact ⟨[], freed_null s h.clear, by simp [Quiet]⟩
  · cases hlook : s.checker.map_.lookup ptr with
    | none =>
      rw [Process.freeDepth_unbound s ptr _ h.clear hnull hlook] at hdepth
      cases hdepth
      refine ⟨_, freed_unbound s ptr h.clear, ?_⟩
      simp [Quiet, AList.lookup_eq_none.mp hlook]
    | some second =>
      have hbound : s.Bound ptr := by
        rw [Process.Bound, ← AList.lookup_isSome, hlook]
        rfl
      obtain ⟨u, hu, rfl⟩ := freeDepth_bound_eq_some _ s t ptr second h.clear hnull hlook hdepth
      obtain ⟨inner, hinner⟩ := freeDepth_freed _ (s.erased ptr) u (s.node ptr) h.clear hu
      obtain ⟨rest, rfl⟩ := hinner.locks (h.node_ne ptr hbound)
      refine ⟨_, freed_erase s u ptr _ hinner, ?_⟩
      have hmem : ptr ∈ s.checker.map_ := hbound
      simp [Quiet, held, hnull, hmem]

theorem step_between (s : Process) (call : Call) (t : Process) (hstep : step s call = some t)
    (h : Between s) : Between t := by
  cases call with
  | malloc size ret before nodeSize node after =>
    obtain ⟨hevents, hclear, hnode⟩ :=
      malloc_events s t size ret before nodeSize node after hstep h
    refine ⟨hclear, ?_, hnode⟩
    rw [hevents, List.foldl_append, h.unlocked]
    rfl
  | free ptr =>
    obtain ⟨events, hfreed, _⟩ := free_quiet_iff s t ptr h hstep
    refine ⟨hfreed.clear, ?_, ?_⟩
    · rw [hfreed.events_eq, List.foldl_append, h.unlocked, hfreed.balanced 0]
    · intro q hq
      rw [hfreed.node_eq]
      exact h.node_ne q (hfreed.bound q hq)

theorem step_quiet (s : Process) (call : Call) (t : Process) (hstep : step s call = some t)
    (h : Between s) (huntracked : Untracked s call) (hquiet : Quiet 0 s.events) :
    Quiet 0 t.events := by
  cases call with
  | malloc size ret before nodeSize node after =>
    obtain ⟨hevents, _⟩ := malloc_events s t size ret before nodeSize node after hstep h
    rw [hevents, quiet_append, h.unlocked]
    exact ⟨hquiet, by simp [Quiet]⟩
  | free ptr =>
    obtain ⟨events, hfreed, hiff⟩ := free_quiet_iff s t ptr h hstep
    rw [hfreed.events_eq, quiet_append, h.unlocked]
    exact ⟨hquiet, hiff.mpr (huntracked ptr rfl)⟩

theorem untracked_of_step (s : Process) (call : Call) (t : Process)
    (hstep : step s call = some t) (h : Between s) (hquiet : Quiet 0 t.events) :
    Untracked s call := by
  rintro ptr rfl
  obtain ⟨events, hfreed, hiff⟩ := free_quiet_iff s t ptr h hstep
  rw [hfreed.events_eq, quiet_append, h.unlocked] at hquiet
  exact hiff.mp hquiet.2

theorem init_between : Between Process.init where
  clear := rfl
  unlocked := rfl
  node_ne p hp := absurd hp (AList.notMem_empty p)

/-- The lock is never entered twice all along a run exactly when no free of the run
is given a tracked block. -/
theorem along_quiet_iff (calls : List Call) :
    Along step (fun s => Quiet 0 s.events) Process.init calls ↔
      Meets step Untracked Process.init calls :=
  along_iff_meets step_between step_quiet
    (fun s call t hstep h _ hquiet => untracked_of_step s call t hstep h hquiet)
    Process.init calls init_between trivial

/-- One block allocated and freed: the erased node enters del again inside del. -/
theorem free_reenters :
    ∃ s, run step Process.init [.malloc 16 0x1000 [] 48 0x3000 [], .free 0x1000] = some s ∧
      s.events = [.lock, .unlock, .lock, .find 0x1000 true, .lock, .find 0x3000 false, .unlock,
        .unlock] ∧ ¬ Quiet 0 s.events := by
  have hrun : (run step Process.init
      [.malloc 16 0x1000 [] 48 0x3000 [], .free 0x1000]).map Process.events =
      some [.lock, .unlock, .lock, .find 0x1000 true, .lock, .find 0x3000 false, .unlock,
        .unlock] := by decide
  obtain ⟨s, hs, hevents⟩ := Option.map_eq_some_iff.mp hrun
  refine ⟨s, hs, hevents, ?_⟩
  rw [hevents]
  simp [Quiet, held]

end JvmTrace.HookReentry
