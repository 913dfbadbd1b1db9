import JvmTrace.HeapAccounting

/-!
The hook of src/hook.cpp with the traffic its own checker causes. Inserting a
binding allocates a map node and printing a stack allocates temporaries, all
through the hooked malloc and free with in_mem set; erasing a binding gives its
node back through the hooked free with in_mem clear, so del is entered again
from inside its own erase. The invariant keeps tracked blocks, linked nodes and
temporaries apart under every such run, and the checker in step with what the
program holds, which is read off its calls.
-/
namespace JvmTrace.NestedHook

open KeyedSums MemChecker HeapAccounting Runs

/-- What a thread does inside the checker, in order. -/
inductive Event
  | lock
  | find (p : Addr) (found : Bool)
  | unlock
  deriving DecidableEq

/-- The globals of the checker, the thread's in_mem flag and libc's heap. The
node that holds the binding of a key is meaningful for bound keys only. -/
structure Process where
  checker : Checker
  node : Addr → Addr
  heap : Heap
  inMem : Bool
  events : List Event

/-- A call the checker itself makes through the hook, with libc's answer. -/
inductive Nested
  | malloc (size : UInt64) (ret : Addr)
  | free (ptr : Addr)

/-- A top-level call. The traffic of an addition is split at the allocation of
the node that the new binding is linked into. -/
inductive Call
  | malloc (size : UInt64) (ret : Addr) (before : List Nested)
      (nodeSize : UInt64) (node : Addr) (after : List Nested)
  | free (ptr : Addr)

namespace Process

def emit (s : Process) (e : Event) : Process := { s with events := s.events ++ [e] }

def Bound (s : Process) (p : Addr) : Prop := p ∈ s.checker.map_

/-- The address is a node that the map still uses. -/
def Linked (s : Process) (q : Addr) : Prop := q ∈ s.checker.map_.keys.map s.node

instance (s : Process) (q : Addr) : Decidable (s.Linked q) :=
  inferInstanceAs (Decidable (q ∈ s.checker.map_.keys.map s.node))

def libcMalloc (s : Process) (size : UInt64) (ret : Addr) (origin : Origin) : Option Process :=
  if h : ret ≠ NULL ∧ ¬ s.heap.Live ret then
    some { s with heap := s.heap.alloc ret ⟨size, origin⟩ h.1 }
  else none

def libcFree (s : Process) (ptr : Addr) : Process :=
  { s with heap := s.heap.release ptr }

/-- With in_mem set the hooked malloc and free go straight to libc. The checker
frees only what was allocated under in_mem, and the nodes in use belong to the
map. -/
def nested (s : Process) : Nested → Option Process
  | .malloc size ret => if s.inMem then s.libcMalloc size ret .checker else none
  | .free ptr =>
      if s.inMem ∧ (s.heap.block ptr).map Block.origin = some .checker ∧ ¬ s.Linked ptr then
        some (s.libcFree ptr)
      else none

/-- std::map's insertion with its node already allocated: a key that is present
keeps its binding and the spare node is freed. -/
def insert (s : Process) (p : Addr) (len : UInt64) (node : Addr) : Process :=
  if p ∈ s.checker.map_ then { s with checker := add p len s.checker }.libcFree node
  else { s with
    checker := add p len s.checker
    node := Function.update s.node p node }

def add (s : Process) (p : Addr) (len : UInt64) (before : List Nested)
    (nodeSize : UInt64) (node : Addr) (after : List Nested) : Option Process := do
  let s ← run nested (s.emit .lock) before
  let s ← s.nested (.malloc nodeSize node)
  let s ← run nested (s.insert p len node) after
  return s.emit .unlock

def traceMalloc (s : Process) (origin : Origin) (size : UInt64) (ret : Addr)
    (before : List Nested) (nodeSize : UInt64) (node : Addr) (after : List Nested) :
    Option Process := do
  let s ← s.libcMalloc size ret origin
  s.add ret size before nodeSize node after

def malloc (s : Process) (origin : Origin) (size : UInt64) (ret : Addr)
    (before : List Nested) (nodeSize : UInt64) (node : Addr) (after : List Nested) :
    Option Process :=
  if s.inMem then s.libcMalloc size ret origin
  else do
    let s ← traceMalloc { s with inMem := true } origin size ret before nodeSize node after
    return { s with inMem := false }

/-- The erased node is given back by the function passed in, while the lock
taken at the start is still held. -/
def del (free : Process → Addr → Option Process) (s : Process) (p : Addr) : Option Process :=
  if p = NULL then some s
  else match s.checker.map_.lookup p with
    | none => some (((s.emit .lock).emit (.find p false)).emit .unlock)
    | some _ => do
        let s' ← free { (s.emit .lock).emit (.find p true) with
          checker := MemChecker.del p s.checker } (s.node p)
        return s'.emit .unlock

/-- The hooked free, with a bound on the depth of its own re-entry. -/
def freeDepth : ℕ → Process → Addr → Option Process
  | 0, _, _ => none
  | depth + 1, s, ptr => do
      let s ← if s.inMem then some s else del (freeDepth depth) s ptr
      return s.libcFree ptr

/-- Every re-entry erases a binding, so this depth is never exhausted. -/
def free (s : Process) (ptr : Addr) : Option Process :=
  freeDepth (s.checker.map_.keys.length + 1) s ptr

/-- The program frees NULL or live blocks, and has no pointer to a linked node. -/
def Freeable (s : Process) (ptr : Addr) : Prop :=
  ptr = NULL ∨ (s.heap.Live ptr ∧ ¬ s.Linked ptr)

instance (s : Process) (ptr : Addr) : Decidable (s.Freeable ptr) :=
  inferInstanceAs (Decidable (_ ∨ _))

def step (s : Process) : Call → Option Process
  | .malloc size ret before nodeSize node after =>
      s.malloc .interposed size ret before nodeSize node after
  | .free ptr => if s.Freeable ptr then s.free ptr else none

def init : Process where
  checker := MemChecker.empty
  node := fun _ => NULL
  heap := Heap.empty
  inMem := false
  events := []

theorem linked_iff (s : Process) (q : Addr) :
    s.Linked q ↔ ∃ p, s.Bound p ∧ s.node p = q := by
  simp [Linked, Bound, List.mem_map, AList.mem_keys]

theorem libcMalloc_eq_some (s t : Process) (size : UInt64) (ret : Addr) (origin : Origin) :
    s.libcMalloc size ret origin = some t ↔
      ∃ h : ret ≠ NULL ∧ ¬ s.heap.Live ret,
        t = { s with heap := s.heap.alloc ret ⟨size, origin⟩ h.1 } := by
  unfold libcMalloc
  split
  · rename_i h
    simp [h, eq_comm]
  · rename_i h
    simp [h]

/-- Accounting is exact for the checker c, and the nodes of the bound keys are
distinct live blocks that were allocated under in_mem. Inside an addition c is
the checker as the insertion will leave it. -/
structure Separate (c : Checker) (s : Process) : Prop where
  exact : Exact c s.heap
  node_block : ∀ p, s.Bound p → (s.heap.block (s.node p)).map Block.origin = some .checker
  node_inj : ∀ p q, s.Bound p → s.Bound q → s.node p = s.node q → p = q

namespace Separate

variable {c : Checker} {s : Process}

theorem node_live (hs : Separate c s) (p : Addr) (hp : s.Bound p) : s.heap.Live (s.node p) := by
  by_contra hdead
  have hb := hs.node_block p hp
  rw [(s.heap.block_eq_none _).mpr hdead] at hb
  cases hb

/-- A fresh allocation under in_mem touches no linked node. -/
theorem alloc (hs : Separate c s) (ret : Addr) (size : UInt64) (hne : ret ≠ NULL)
    (hlive : ¬ s.heap.Live ret) :
    Separate c { s with heap := s.heap.alloc ret ⟨size, .checker⟩ hne } where
  exact := hs.exact.alloc_other ret _ hne hlive (by simp)
  node_block p hp := by
    have hnode : s.node p ≠ ret := fun heq => hlive (heq ▸ hs.node_live p hp)
    simpa [hnode] using hs.node_block p hp
  node_inj := hs.node_inj

/-- Releasing an uncounted block that is not a linked node. -/
theorem release (hs : Separate c s) (ptr : Addr) (hlinked : ¬ s.Linked ptr)
    (hother : ∀ len, s.heap.block ptr ≠ some ⟨len, .interposed⟩) :
    Separate c (s.libcFree ptr) where
  exact := hs.exact.release_other ptr hother
  node_block p hp := by
    have hnode : s.node p ≠ ptr := fun heq => hlinked ((s.linked_iff ptr).mpr ⟨p, hp, heq⟩)
    simpa [libcFree, hnode] using hs.node_block p hp
  node_inj := hs.node_inj

end Separate

/-- Two processes that agree on everything but libc's heap. -/
def SameChecker (s t : Process) : Prop :=
  t.checker = s.checker ∧ t.node = s.node ∧ t.inMem = s.inMem ∧ t.events = s.events

theorem nested_sameChecker (s : Process) (call : Nested) (t : Process)
    (hstep : s.nested call = some t) : SameChecker s t := by
  cases call with
  | malloc size ret =>
    simp only [nested, Option.ite_none_right_eq_some, libcMalloc_eq_some] at hstep
    obtain ⟨_, _, rfl⟩ := hstep
    exact ⟨rfl, rfl, rfl, rfl⟩
  | free ptr =>
    simp only [nested, Option.ite_none_right_eq_some, Option.some.injEq] at hstep
    obtain ⟨_, rfl⟩ := hstep
    exact ⟨rfl, rfl, rfl, rfl⟩

theorem run_nested_sameChecker (s t : Process) (calls : List Nested)
    (hrun : run nested s calls = some t) : SameChecker s t := by
  refine run_invariant (P := fun u => SameChecker s u) ?_ hrun ⟨rfl, rfl, rfl, rfl⟩
  intro u call v hstep h
  obtain ⟨hc, hn, hi, he⟩ := h
  obtain ⟨hc', hn', hi', he'⟩ := nested_sameChecker u call v hstep
  exact ⟨hc'.trans hc, hn'.trans hn, hi'.trans hi, he'.trans he⟩

theorem nested_separate {c : Checker} (s : Process) (call : Nested) (t : Process)
    (hstep : s.nested call = some t) (hs : Separate c s) : Separate c t := by
  cases call with
  | malloc size ret =>
    simp only [nested, Option.ite_none_right_eq_some, libcMalloc_eq_some] at hstep
    obtain ⟨_, ⟨hne, hlive⟩, rfl⟩ := hstep
    exact hs.alloc ret size hne hlive
  | free ptr =>
    simp only [nested, Option.ite_none_right_eq_some, Option.some.injEq] at hstep
    obtain ⟨⟨_, horigin, hlinked⟩, rfl⟩ := hstep
    refine hs.release ptr hlinked ?_
    intro len hb
    rw [hb] at horigin
    cases horigin

/-- Any traffic under in_mem leaves the checker alone and keeps the separation. -/
theorem run_nested_separate {c : Checker} (s t : Process) (calls : List Nested)
    (hrun : run nested s calls = some t) (hs : Separate c s) :
    Separate c t ∧ SameChecker s t := by
  refine ⟨run_invariant (P := fun u => Separate c u) ?_ hrun hs,
    run_nested_sameChecker s t calls hrun⟩
  intro u call v hstep hu
  exact nested_separate u call v hstep hu

theorem emit_separate {c : Checker} {s : Process} (hs : Separate c s) (e : Event) :
    Separate c (s.emit e) := ⟨hs.exact, hs.node_block, hs.node_inj⟩

/-- An addition binds no other pointer. -/
theorem bound_of_add (s : Process) (p : Addr) (len : UInt64) (q : Addr) (hq : q ≠ p)
    (hmem : q ∈ (MemChecker.add p len s.checker).map_) : s.Bound q := by
  rw [← AList.lookup_isSome] at hmem
  simp only [MemChecker.add, lookup_insertNew, hq, false_and, if_false] at hmem
  exact AList.lookup_isSome.mp hmem

/-- Linking the fresh node completes the insertion. -/
theorem insert_separate (s : Process) (p : Addr) (len size : UInt64) (node : Addr)
    (hfresh : ¬ s.Bound p) (hs : Separate (MemChecker.add p len s.checker) s)
    (hne : node ≠ NULL) (hlive : ¬ s.heap.Live node) :
    Separate (MemChecker.add p len s.checker)
      (insert { s with heap := s.heap.alloc node ⟨size, .checker⟩ hne } p len node) := by
  have halloc := hs.alloc node size hne hlive
  have hp : p ∉ s.checker.map_ := hfresh
  have hbound := bound_of_add s p len
  have hother : ∀ q, s.Bound q → s.node q ≠ node :=
    fun q hq heq => hlive (heq ▸ hs.node_live q hq)
  simp only [insert, hp, if_false]
  refine ⟨halloc.exact, ?_, ?_⟩
  · intro q hq
    by_cases hqp : q = p
    · subst q
      simp
    · simpa [Function.update, hqp] using halloc.node_block q (hbound q hqp hq)
  · intro q r hq hr heq
    by_cases hqp : q = p <;> by_cases hrp : r = p
    · exact hqp.trans hrp.symm
    · have hqr : node = s.node r := by simpa [Function.update, hqp, hrp] using heq
      exact absurd hqr.symm (hother r (hbound r hrp hr))
    · have hqr : s.node q = node := by simpa [Function.update, hqp, hrp] using heq
      exact absurd hqr (hother q (hbound q hqp hq))
    · exact hs.node_inj q r (hbound q hqp hq) (hbound r hrp hr)
        (by simpa [Function.update, hqp, hrp] using heq)

theorem add_separate (s t : Process) (p : Addr) (len : UInt64) (before : List Nested)
    (nodeSize : UInt64) (node : Addr) (after : List Nested)
    (hadd : s.add p len before nodeSize node after = some t) (hfresh : ¬ s.Bound p)
    (hs : Separate (MemChecker.add p len s.checker) s) :
    Separate t.checker t ∧ t.inMem = s.inMem ∧
      t.checker = MemChecker.add p len s.checker := by
  simp only [add, Option.bind_eq_bind, Option.bind_eq_some_iff, Option.pure_def,
    Option.some.injEq] at hadd
  obtain ⟨s₁, hbefore, s₂, hnode, s₃, hafter, rfl⟩ := hadd
  obtain ⟨hs₁, hc₁, hn₁, hi₁, _⟩ :=
    run_nested_separate _ s₁ before hbefore (emit_separate hs .lock)
  simp only [nested, Option.ite_none_right_eq_some, libcMalloc_eq_some] at hnode
  obtain ⟨_, ⟨hne, hlive⟩, rfl⟩ := hnode
  have hc : s₁.checker = s.checker := hc₁
  have hfresh₁ : ¬ s₁.Bound p := by
    unfold Bound
    rw [hc]
    exact hfresh
  rw [← hc] at hs₁
  have hins := insert_separate s₁ p len nodeSize node hfresh₁ hs₁ hne hlive
  obtain ⟨hs₃, hc₃, _, hi₃, _⟩ := run_nested_separate _ s₃ after hafter hins
  have hp : p ∉ s₁.checker.map_ := hfresh₁
  simp only [insert, hp, if_false] at hc₃ hi₃
  have hchecker : (s₃.emit .unlock).checker = MemChecker.add p len s₁.checker := hc₃
  refine ⟨?_, hi₃.trans hi₁, hchecker.trans (by rw [hc])⟩
  rw [hchecker]
  exact emit_separate hs₃ .unlock

/-- What holds of the process between two top-level calls. -/
def Settled (s : Process) : Prop := s.inMem = false ∧ Separate s.checker s

theorem malloc_settled (s t : Process) (size : UInt64) (ret : Addr) (before : List Nested)
    (nodeSize : UInt64) (node : Addr) (after : List Nested)
    (hmalloc : s.malloc .interposed size ret before nodeSize node after = some t)
    (hs : s.Settled) :
    t.Settled ∧ ret ∉ s.checker.map_ ∧ t.checker = MemChecker.add ret size s.checker := by
  obtain ⟨hin, hsep⟩ := hs
  simp only [malloc, hin, Bool.false_eq_true, if_false, traceMalloc, Option.bind_eq_bind,
    Option.bind_eq_some_iff, Option.pure_def, Option.some.injEq, libcMalloc_eq_some] at hmalloc
  obtain ⟨s₂, ⟨s₁, ⟨⟨hne, hlive⟩, rfl⟩, hadd⟩, rfl⟩ := hmalloc
  have hunbound : s.checker.map_.lookup ret = none :=
    hsep.exact.unbound ret (by simp [(s.heap.block_eq_none ret).mpr hlive])
  have hfresh : ¬ s.Bound ret := AList.lookup_eq_none.mp hunbound
  have hother : ∀ p, s.Bound p → s.node p ≠ ret :=
    fun p hp heq => hlive (heq ▸ hsep.node_live p hp)
  obtain ⟨hsep₂, _, hchecker⟩ := add_separate _ s₂ ret size before nodeSize node after hadd hfresh
    { exact := hsep.exact.add ret size hne hlive
      node_block := fun p hp => by simpa [hother p hp] using hsep.node_block p hp
      node_inj := hsep.node_inj }
  exact ⟨⟨rfl, hsep₂.exact, hsep₂.node_block, hsep₂.node_inj⟩, hfresh, hchecker⟩

theorem freeDepth_null (s : Process) (depth : ℕ) :
    freeDepth (depth + 1) s NULL = some (s.libcFree NULL) := by
  simp [freeDepth, del]

theorem freeDepth_unbound (s : Process) (ptr : Addr) (depth : ℕ) (hin : s.inMem = false)
    (hne : ptr ≠ NULL) (hlook : s.checker.map_.lookup ptr = none) :
    freeDepth (depth + 1) s ptr =
      some ((((s.emit .lock).emit (.find ptr false)).emit .unlock).libcFree ptr) := by
  simp [freeDepth, del, hin, hne, hlook]

/-- The state in which the erased node is given back. -/
def erased (s : Process) (ptr : Addr) : Process :=
  { (s.emit .lock).emit (.find ptr true) with checker := MemChecker.del ptr s.checker }

/-- The inner del of a free finds no entry: a node is never a key. -/
theorem node_unbound (s : Process) (ptr : Addr) (hs : Separate s.checker s)
    (hptr : s.Bound ptr) : s.checker.map_.lookup (s.node ptr) = none := by
  apply hs.exact.unbound
  intro len hb
  have horigin := hs.node_block ptr hptr
  rw [hb] at horigin
  cases horigin

theorem erased_unbound (s : Process) (ptr q : Addr) (h : s.checker.map_.lookup q = none) :
    (s.erased ptr).checker.map_.lookup q = none := by
  simp only [erased, MemChecker.del]
  split
  · exact h
  · split
    · exact h
    · by_cases hq : q = ptr
      · subst q
        simp
      · simpa [AList.lookup_erase_ne hq] using h

theorem freeDepth_bound (s : Process) (ptr : Addr) (depth : ℕ) (hin : s.inMem = false)
    (hs : Separate s.checker s) (hptr : s.Bound ptr) :
    freeDepth (depth + 2) s ptr =
      some ((((((((s.erased ptr).emit .lock).emit (.find (s.node ptr) false)).emit
        .unlock).libcFree (s.node ptr)).emit .unlock)).libcFree ptr) := by
  obtain ⟨second, hlook⟩ := Option.isSome_iff_exists.mp (AList.lookup_isSome.mpr hptr)
  have hb := (hs.exact.bound_iff ptr second.toUInt64).mp (by simp [hlook])
  have hne : ptr ≠ NULL := Heap.ne_null_of_block hb
  have hnode : s.node ptr ≠ NULL := by
    intro hnull
    have hlive := hs.node_live ptr hptr
    rw [hnull] at hlive
    exact s.heap.null_free hlive
  have hinner := freeDepth_unbound (s.erased ptr) (s.node ptr) depth hin hnode
    (s.erased_unbound ptr _ (s.node_unbound ptr hs hptr))
  rw [freeDepth]
  simp only [hin, Bool.false_eq_true, if_false, del, hne, hlook]
  change ((freeDepth (depth + 1) (s.erased ptr) (s.node ptr)).bind
    fun t => some (t.emit .unlock)).bind (fun t => some (t.libcFree ptr)) = _
  rw [hinner]
  rfl

/-- What one top-level free does inside the checker. -/
def chain (s : Process) (ptr : Addr) : List Event :=
  if ptr = NULL then []
  else if ptr ∈ s.checker.map_ then
    [.lock, .find ptr true, .lock, .find (s.node ptr) false, .unlock, .unlock]
  else [.lock, .find ptr false, .unlock]

theorem release_settled (s : Process) (ptr : Addr) (hs : Separate s.checker s)
    (hptr : s.Freeable ptr) (hunbound : s.checker.map_.lookup ptr = none) :
    Separate s.checker (s.libcFree ptr) := by
  have hother : ∀ len, s.heap.block ptr ≠ some ⟨len, .interposed⟩ := by
    intro len hb
    obtain ⟨second, hlook, _⟩ := hs.exact.bound hb
    rw [hunbound] at hlook
    cases hlook
  rcases hptr with rfl | ⟨_, hlinked⟩
  · apply hs.release NULL _ hother
    intro hlinked
    obtain ⟨p, hp, hnull⟩ := (s.linked_iff NULL).mp hlinked
    exact s.heap.null_free (hnull ▸ hs.node_live p hp)
  · exact hs.release ptr hlinked hother

/-- Freeing a tracked block releases its node and itself. -/
theorem bound_settled (s : Process) (ptr : Addr) (hs : Separate s.checker s)
    (hfree : s.Freeable ptr) (hptr : s.Bound ptr) :
    Separate (MemChecker.del ptr s.checker)
      { s with
        checker := MemChecker.del ptr s.checker
        heap := (s.heap.release (s.node ptr)).release ptr } := by
  have hbound : ∀ q, q ∈ (MemChecker.del ptr s.checker).map_ → s.Bound q ∧ q ≠ ptr := by
    obtain ⟨second, hlook⟩ := Option.isSome_iff_exists.mp (AList.lookup_isSome.mpr hptr)
    have hb := (hs.exact.bound_iff ptr second.toUInt64).mp (by simp [hlook])
    rw [del_bound ptr s.checker second (Heap.ne_null_of_block hb) hlook]
    intro q hq
    exact (AList.mem_erase.mp hq).symm
  have hnode : ∀ len, s.heap.block (s.node ptr) ≠ some ⟨len, .interposed⟩ := by
    intro len hb
    have horigin := hs.node_block ptr hptr
    rw [hb] at horigin
    cases horigin
  refine ⟨(hs.exact.release_other _ hnode).del ptr, ?_, ?_⟩
  · intro q hq
    obtain ⟨hqb, hqne⟩ := hbound q hq
    have hne₁ : s.node q ≠ s.node ptr := fun heq => hqne (hs.node_inj q ptr hqb hptr heq)
    have hne₂ : s.node q ≠ ptr := by
      intro heq
      rcases hfree with rfl | ⟨_, hlinked⟩
      · exact s.heap.null_free (heq ▸ hs.node_live q hqb)
      · exact hlinked ((s.linked_iff ptr).mpr ⟨q, hqb, heq⟩)
    simpa [hne₁, hne₂] using hs.node_block q hqb
  · intro q r hq hr heq
    exact hs.node_inj q r (hbound q hq).1 (hbound r hr).1 heq

/-- A top-level free ends, after at most one re-entry that finds nothing. -/
theorem free_settled (s : Process) (ptr : Addr) (hs : s.Settled) (hptr : s.Freeable ptr) :
    ∃ t, s.free ptr = some t ∧ t.events = s.events ++ s.chain ptr ∧
      t.checker = MemChecker.del ptr s.checker ∧ t.Settled := by
  obtain ⟨hin, hsep⟩ := hs
  by_cases hnull : ptr = NULL
  · subst hnull
    have hrel := s.release_settled NULL hsep hptr
      (hsep.exact.unbound NULL (by simp [s.heap.block_null]))
    refine ⟨s.libcFree NULL, s.freeDepth_null _, ?_, ?_, hin, hrel⟩
    · simp [libcFree, chain]
    · simp [libcFree, MemChecker.del]
  · cases hlook : s.checker.map_.lookup ptr with
    | none =>
      have hmem : ptr ∉ s.checker.map_ := AList.lookup_eq_none.mp hlook
      have hrel := s.release_settled ptr hsep hptr hlook
      refine ⟨_, s.freeDepth_unbound ptr _ hin hnull hlook, ?_,
        (del_unbound ptr s.checker hlook).symm, hin, hrel.exact, hrel.node_block, hrel.node_inj⟩
      simp [libcFree, emit, chain, hnull, hmem]
    | some second =>
      have hbound : s.Bound ptr := by
        rw [Bound, ← AList.lookup_isSome, hlook]
        rfl
      have hdepth : ∃ depth, s.checker.map_.keys.length + 1 = depth + 2 := by
        have hpos : 0 < s.checker.map_.keys.length :=
          List.length_pos_of_mem (AList.mem_keys.mp hbound)
        exact ⟨s.checker.map_.keys.length - 1, by omega⟩
      obtain ⟨depth, hdepth⟩ := hdepth
      have hrel := s.bound_settled ptr hsep hptr hbound
      have hmem : ptr ∈ s.checker.map_ := hbound
      have hfree := s.freeDepth_bound ptr depth hin hsep hbound
      rw [← hdepth] at hfree
      refine ⟨_, hfree, ?_, rfl, hin, hrel.exact, hrel.node_block, hrel.node_inj⟩
      simp [libcFree, emit, erased, chain, hnull, hmem]

/-- What the program holds: the blocks that its mallocs have returned and that it has not
freed, with the sizes it has asked for. It is read off the calls alone. -/
def holding (held : AList fun _ : Addr => UInt64) : Call → AList fun _ : Addr => UInt64
  | .malloc size ret _ _ _ _ => held.insert ret size
  | .free ptr => held.erase ptr

def outstanding (calls : List Call) : AList fun _ : Addr => UInt64 := calls.foldl holding ∅

/-- A call that the program makes keeps the checker in step with what it holds. -/
theorem step_mirrors (s : Process) (held : AList fun _ : Addr => UInt64) (call : Call)
    (t : Process) (hstep : s.step call = some t) (hs : s.Settled) (hm : Mirrors s.checker held) :
    t.Settled ∧ Mirrors t.checker (holding held call) := by
  cases call with
  | malloc size ret before nodeSize node after =>
    obtain ⟨hsettled, hfresh, hchecker⟩ := malloc_settled s t size ret before nodeSize node
      after hstep hs
    refine ⟨hsettled, ?_⟩
    rw [hchecker]
    exact hm.add ret size hfresh
  | free ptr =>
    simp only [step, Option.ite_none_right_eq_some] at hstep
    obtain ⟨hptr, hfree⟩ := hstep
    obtain ⟨u, hu, _, hchecker, hsettled⟩ := s.free_settled ptr hs hptr
    obtain rfl : u = t := Option.some.inj (hu.symm.trans hfree)
    refine ⟨hsettled, ?_⟩
    rw [hchecker]
    apply hm.del ptr
    exact AList.lookup_eq_none.mp (hs.2.exact.unbound NULL (by simp [s.heap.block_null]))

theorem init_settled : init.Settled where
  left := rfl
  right :=
    { exact := HeapAccounting.World.init_accounted
      node_block := fun p hp => absurd hp (AList.notMem_empty p)
      node_inj := fun p _ hp => absurd hp (AList.notMem_empty p) }

theorem init_mirrors : Mirrors init.checker ∅ where
  bound_iff p len := by simp [init, MemChecker.empty, AList.lookup_empty]
  mem_eq := rfl

/-- The step lemma over a whole run, with the program's blocks kept beside the process. -/
theorem run_mirrors (calls : List Call) (s : Process) (hrun : run step init calls = some s) :
    s.Settled ∧ Mirrors s.checker (outstanding calls) := by
  have hnoting : run (noting step fun _ => holding) (init, ∅) calls =
      some (s, outstanding calls) := by
    rw [run_noting, hrun]
    rfl
  refine run_invariant (P := fun p => p.1.Settled ∧ Mirrors p.1.checker p.2) ?_ hnoting
    ⟨init_settled, init_mirrors⟩
  rintro ⟨s, held⟩ call ⟨t, held'⟩ hstep ⟨hs, hm⟩
  obtain ⟨hcall, rfl⟩ := (noting_eq_some _ s t held held' call).mp hstep
  exact step_mirrors s held call t hcall hs hm

/-- After every top-level call the flag is clear, the keys of the map are exactly the
blocks that the program holds, which are live, and the counter is the sum of their sizes;
no node or temporary is a key, and the next free ends after the re-entry that finds no
entry. -/
theorem nested_traffic_accounted (calls : List Call) (s : Process)
    (hrun : run step init calls = some s) :
    s.inMem = false ∧ Mirrors s.checker (outstanding calls) ∧
      (∀ p, p ∈ outstanding calls → s.heap.Live p) ∧
      (∀ q, s.Linked q ∨ (s.heap.block q).map Block.origin = some .checker →
        q ∉ s.checker.map_) ∧
      ∀ ptr, s.Freeable ptr →
        ∃ t, s.free ptr = some t ∧ t.events = s.events ++ s.chain ptr := by
  obtain ⟨⟨hin, hsep⟩, hm⟩ := run_mirrors calls s hrun
  refine ⟨hin, hm, ?_, ?_, ?_⟩
  · intro p hp
    by_contra hdead
    have hunbound := hsep.exact.unbound p (by simp [(s.heap.block_eq_none p).mpr hdead])
    exact AList.lookup_eq_none.mp hunbound ((hm.mem_iff p).mpr hp)
  · intro q hq
    have horigin : (s.heap.block q).map Block.origin = some .checker := by
      rcases hq with hlinked | horigin
      · obtain ⟨p, hp, rfl⟩ := (s.linked_iff q).mp hlinked
        exact hsep.node_block p hp
      · exact horigin
    apply AList.lookup_eq_none.mp
    apply hsep.exact.unbound
    intro len hb
    rw [hb] at horigin
    cases horigin
  · intro ptr hptr
    obtain ⟨t, ht, hevents, _⟩ := s.free_settled ptr ⟨hin, hsep⟩ hptr
    exact ⟨t, ht, hevents⟩

/-- A run with a temporary, a reused address and a re-entrant free: the one block that is
left has the address of an erased node. -/
theorem nested_traffic_accounted_reuse :
    let calls : List Call := [.malloc 16 0x1000 [.malloc 8 0x2000] 48 0x3000 [.free 0x2000],
      .free 0x1000, .malloc 32 0x3000 [] 48 0x1000 []]
    ∃ s, run step init calls = some s ∧
      (outstanding calls).entries = [⟨0x3000, 32⟩] ∧ Mirrors s.checker (outstanding calls) := by
  intro calls
  obtain ⟨s, hs⟩ := Option.isSome_iff_exists.mp
    (show (run step init calls).isSome by decide)
  exact ⟨s, hs, by decide, (nested_traffic_accounted calls s hs).2.1⟩

end Process

end JvmTrace.NestedHook
