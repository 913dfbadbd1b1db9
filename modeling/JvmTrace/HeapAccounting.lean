import JvmTrace.MemChecker
import JvmTrace.Runs

/-!
The interposed malloc and free of src/hook.cpp over libc's heap. A call's
label carries libc's answer, which is NULL or an address that is not live.
calloc and realloc are declared in src/hook.h but have no body in src/hook.cpp,
so libc serves them and the checker does not see them. Accounting is exact
when the map binds exactly the live blocks of the interposed malloc; the steps
that keep it exact are characterized, and so are the runs.
-/
namespace JvmTrace.HeapAccounting

open KeyedSums MemChecker Runs

/-- How a live block was obtained. The checker's own blocks are those that
libc hands out while the flag in_mem is set. -/
inductive Origin
  | interposed
  | libc
  | checker
  deriving DecidableEq

structure Block where
  size : UInt64
  origin : Origin
  deriving DecidableEq

/-- What a block contributes to the exact total. -/
def Block.tracked (b : Block) : ℕ :=
  if b.origin = .interposed then b.size.toNat else 0

/-- The blocks libc has handed out and not taken back; NULL is never one. -/
structure Heap where
  blocks : AList fun _ : Addr => Block
  null_free : NULL ∉ blocks

namespace Heap

def Live (h : Heap) (p : Addr) : Prop := p ∈ h.blocks

instance (h : Heap) (p : Addr) : Decidable (h.Live p) :=
  inferInstanceAs (Decidable (p ∈ h.blocks))

def block (h : Heap) (p : Addr) : Option Block := h.blocks.lookup p

def alloc (h : Heap) (p : Addr) (b : Block) (hp : p ≠ NULL) : Heap where
  blocks := h.blocks.insert p b
  null_free := by
    rw [AList.mem_insert]
    intro h
    rcases h with hnull | hnull
    · exact hp hnull.symm
    · exact h.null_free hnull

def release (h : Heap) (p : Addr) : Heap where
  blocks := h.blocks.erase p
  null_free := fun hnull => h.null_free (AList.mem_erase.mp hnull).2

/-- Enter libc's answer: nothing is allocated when it is NULL. -/
def answered (h : Heap) (p : Addr) (b : Block) : Heap :=
  if hp : p = NULL then h else h.alloc p b hp

def empty : Heap where
  blocks := ∅
  null_free := AList.notMem_empty NULL

/-- The sum of the sizes of the live blocks of the interposed malloc. -/
def trackedTotal (h : Heap) : ℕ := total Block.tracked h.blocks

theorem block_eq_none (h : Heap) (p : Addr) : h.block p = none ↔ ¬ h.Live p :=
  AList.lookup_eq_none

theorem block_null (h : Heap) : h.block NULL = none :=
  (h.block_eq_none NULL).mpr h.null_free

theorem ne_null_of_block {h : Heap} {p : Addr} {b : Block} (hb : h.block p = some b) :
    p ≠ NULL := by
  intro hp
  rw [hp, h.block_null] at hb
  cases hb

@[simp] theorem block_alloc (h : Heap) (p : Addr) (b : Block) (hp : p ≠ NULL) (q : Addr) :
    (h.alloc p b hp).block q = if q = p then some b else h.block q := by
  by_cases hq : q = p
  · subst q
    simp [alloc, block]
  · simp [alloc, block, hq, AList.lookup_insert_ne]

@[simp] theorem block_release (h : Heap) (p q : Addr) :
    (h.release p).block q = if q = p then none else h.block q := by
  by_cases hq : q = p
  · subst q
    simp [release, block]
  · simp [release, block, hq, AList.lookup_erase_ne]

theorem trackedTotal_alloc (h : Heap) (p : Addr) (b : Block) (hp : p ≠ NULL)
    (hlive : ¬ h.Live p) : (h.alloc p b hp).trackedTotal = b.tracked + h.trackedTotal :=
  total_insert Block.tracked h.blocks p b hlive

theorem trackedTotal_release (h : Heap) (p : Addr) (b : Block) (hb : h.block p = some b) :
    (h.release p).trackedTotal + b.tracked = h.trackedTotal :=
  total_erase Block.tracked h.blocks p b hb

theorem release_of_not_live (h : Heap) (p : Addr) (hp : ¬ h.Live p) : h.release p = h := by
  have heq : h.blocks.erase p = h.blocks := erase_of_notMem h.blocks p hp
  cases h
  simp only [release] at heq ⊢
  congr

end Heap

/-- The map binds exactly the live blocks of the interposed malloc, each to its
requested size, and the counter is their sum modulo 2^64. -/
structure Exact (c : Checker) (h : Heap) : Prop where
  bound_iff : ∀ p len, (c.map_.lookup p).map Int64.toUInt64 = some len ↔
    h.block p = some ⟨len, .interposed⟩
  mem_eq : c.mem_.toNat = h.trackedTotal % 2 ^ 64

namespace Exact

variable {c : Checker} {h : Heap}

theorem unbound (hx : Exact c h) (p : Addr) (hp : ∀ len, h.block p ≠ some ⟨len, .interposed⟩) :
    c.map_.lookup p = none := by
  cases hlook : c.map_.lookup p with
  | none => rfl
  | some second =>
    have hb := (hx.bound_iff p second.toUInt64).mp (by simp [hlook])
    exact absurd hb (hp _)

theorem bound (hx : Exact c h) {p : Addr} {len : UInt64}
    (hb : h.block p = some ⟨len, .interposed⟩) :
    ∃ second, c.map_.lookup p = some second ∧ second.toUInt64 = len := by
  have hlook := (hx.bound_iff p len).mpr hb
  simpa using hlook

/-- A successful interposed allocation. -/
theorem add (hx : Exact c h) (p : Addr) (len : UInt64) (hp : p ≠ NULL) (hlive : ¬ h.Live p) :
    Exact (add p len c) (h.alloc p ⟨len, .interposed⟩ hp) where
  bound_iff q n := by
    have hnone : c.map_.lookup p = none := hx.unbound p (by simp [(h.block_eq_none p).mpr hlive])
    have hmem : p ∉ c.map_ := AList.lookup_eq_none.mp hnone
    rw [Heap.block_alloc, MemChecker.add, lookup_insertNew]
    by_cases hq : q = p
    · simp [hq, hmem]
    · simpa [hq] using hx.bound_iff q n
  mem_eq := by
    have hsum := h.trackedTotal_alloc p ⟨len, .interposed⟩ hp hlive
    have hmem := hx.mem_eq
    rw [hsum]
    simp only [MemChecker.add, UInt64.toNat_add, Block.tracked, if_true]
    omega

/-- Allocations that the checker does not count. -/
theorem alloc_other (hx : Exact c h) (p : Addr) (b : Block) (hp : p ≠ NULL)
    (hlive : ¬ h.Live p) (hb : b.origin ≠ .interposed) : Exact c (h.alloc p b hp) where
  bound_iff q n := by
    rw [Heap.block_alloc]
    by_cases hq : q = p
    · subst q
      have hnone : c.map_.lookup p = none :=
        hx.unbound p (by simp [(h.block_eq_none p).mpr hlive])
      have hne : b ≠ ⟨n, .interposed⟩ := fun heq => hb (by rw [heq])
      simp [hnone, hne]
    · simpa [hq] using hx.bound_iff q n
  mem_eq := by
    have hsum := h.trackedTotal_alloc p b hp hlive
    have hmem := hx.mem_eq
    simp only [Block.tracked, hb, if_false] at hsum
    rw [hsum, Nat.zero_add]
    exact hmem

/-- Releasing a block that the checker does not count. -/
theorem release_other (hx : Exact c h) (p : Addr)
    (hp : ∀ len, h.block p ≠ some ⟨len, .interposed⟩) : Exact c (h.release p) where
  bound_iff q n := by
    rw [Heap.block_release]
    by_cases hq : q = p
    · subst q
      simp [hx.unbound p hp]
    · simpa [hq] using hx.bound_iff q n
  mem_eq := by
    cases hb : h.block p with
    | none =>
      rw [h.release_of_not_live p ((h.block_eq_none p).mp hb)]
      exact hx.mem_eq
    | some b =>
      have hsum := h.trackedTotal_release p b hb
      have horigin : b.origin ≠ .interposed := by
        intro ho
        exact hp b.size (by rw [hb, ← ho])
      simp only [Block.tracked, horigin, if_false, Nat.add_zero] at hsum
      rw [hsum]
      exact hx.mem_eq

/-- An interposed free, of a tracked block, an untracked one or NULL. -/
theorem del (hx : Exact c h) (p : Addr) : Exact (del p c) (h.release p) := by
  by_cases htracked : ∃ len, h.block p = some ⟨len, .interposed⟩
  · obtain ⟨len, hb⟩ := htracked
    obtain ⟨second, hlook, hsecond⟩ := hx.bound hb
    rw [del_bound p c second (Heap.ne_null_of_block hb) hlook]
    constructor
    · intro q n
      rw [Heap.block_release]
      by_cases hq : q = p
      · subst q
        simp
      · simpa [hq, AList.lookup_erase_ne] using hx.bound_iff q n
    · have hsum := h.trackedTotal_release p _ hb
      have hmem := hx.mem_eq
      have hlt := len.toNat_lt
      simp only [Block.tracked, if_true] at hsum
      simp only [hsecond, UInt64.toNat_sub]
      omega
  · have hp : ∀ len, h.block p ≠ some ⟨len, .interposed⟩ := fun len hb => htracked ⟨len, hb⟩
    rw [del_unbound p c (hx.unbound p hp)]
    exact hx.release_other p hp

end Exact

structure World where
  checker : Checker
  heap : Heap

/-- A top-level call together with what libc answers to it. -/
inductive Call
  | malloc (size : UInt64) (ret : Addr)
  | calloc (nmemb size : UInt64) (ret : Addr)
  | realloc (ptr : Addr) (size : UInt64) (ret : Addr)
  | free (ptr : Addr)

namespace World

def traceMalloc (w : World) (origin : Origin) (size : UInt64) (p : Addr) : World where
  checker := add p size w.checker
  heap := w.heap.answered p ⟨size, origin⟩

/-- At top level the flag in_mem is clear, so the call is always traced. -/
def malloc (w : World) (origin : Origin) (size : UInt64) (p : Addr) : World :=
  w.traceMalloc origin size p

def free (w : World) (ptr : Addr) : World where
  checker := del ptr w.checker
  heap := w.heap.release ptr

/-- libc's own calloc. -/
def calloc (w : World) (origin : Origin) (nmemb size : UInt64) (p : Addr) : World :=
  { w with heap := w.heap.answered p ⟨nmemb * size, origin⟩ }

/-- libc's own realloc: a failure leaves the old block alone; otherwise the old
block is given back and the answer is a new block, at the same address or at
another one. With size zero libc frees the block and answers NULL. -/
def realloc (w : World) (origin : Origin) (ptr : Addr) (size : UInt64) (p : Addr) : World :=
  if p = NULL ∧ size ≠ 0 then w
  else { w with heap := (w.heap.release ptr).answered p ⟨size, origin⟩ }

def init : World where
  checker := MemChecker.empty
  heap := Heap.empty

/-- libc never answers with a live address, and the program gives back only
NULL or live blocks. How a block was obtained is the name of the call that returned it. -/
def step (w : World) : Call → Option World
  | .malloc size ret =>
      if ¬ w.heap.Live ret then some (w.malloc .interposed size ret) else none
  | .calloc nmemb size ret =>
      if ¬ w.heap.Live ret then some (w.calloc .libc nmemb size ret) else none
  | .realloc ptr size ret =>
      if (ptr = NULL ∨ w.heap.Live ptr) ∧ ¬ (w.heap.release ptr).Live ret then
        some (w.realloc .libc ptr size ret)
      else none
  | .free ptr =>
      if ptr = NULL ∨ w.heap.Live ptr then some (w.free ptr) else none

def Accounted (w : World) : Prop := Exact w.checker w.heap

/-- What a call must not do to stay accounted for: obtain NULL through the
interposed malloc, or give a tracked block back through realloc. -/
def Visible (w : World) : Call → Prop
  | .malloc _ ret => ret ≠ NULL
  | .realloc ptr size ret =>
      (∃ len, w.heap.block ptr = some ⟨len, .interposed⟩) → ret = NULL ∧ size ≠ 0
  | _ => True

theorem init_accounted : init.Accounted where
  bound_iff p len := by
    have hlook : (MemChecker.empty.map_).lookup p = none := AList.lookup_empty p
    have hblock : Heap.empty.block p = none := AList.lookup_empty p
    simp [init, hlook, hblock]
  mem_eq := rfl

theorem answered_libc {c : Checker} {h : Heap} (hx : Exact c h) (p : Addr) (size : UInt64)
    (hlive : ¬ h.Live p) : Exact c (h.answered p ⟨size, .libc⟩) := by
  unfold Heap.answered
  split
  · exact hx
  · exact hx.alloc_other p _ _ hlive (by simp)

theorem step_accounted (w : World) (call : Call) (w' : World)
    (hstep : step w call = some w') (hok : w.Visible call) (hw : w.Accounted) :
    w'.Accounted := by
  cases call with
  | malloc size ret =>
    simp only [step, Option.ite_none_right_eq_some, Option.some.injEq] at hstep
    obtain ⟨hlive, rfl⟩ := hstep
    have hne : ret ≠ NULL := hok
    simp only [Accounted, malloc, traceMalloc, Heap.answered, hne, dite_false]
    exact hw.add ret size hne hlive
  | calloc nmemb size ret =>
    simp only [step, Option.ite_none_right_eq_some, Option.some.injEq] at hstep
    obtain ⟨hlive, rfl⟩ := hstep
    exact answered_libc hw ret _ hlive
  | realloc ptr size ret =>
    simp only [step, Option.ite_none_right_eq_some, Option.some.injEq] at hstep
    obtain ⟨⟨_, hlive⟩, rfl⟩ := hstep
    unfold realloc
    split
    · exact hw
    · rename_i hfail
      have huntracked : ∀ len, w.heap.block ptr ≠ some ⟨len, .interposed⟩ :=
        fun len hb => hfail (hok ⟨len, hb⟩)
      exact answered_libc (hw.release_other ptr huntracked) ret size hlive
  | free ptr =>
    simp only [step, Option.ite_none_right_eq_some, Option.some.injEq] at hstep
    obtain ⟨_, rfl⟩ := hstep
    exact hw.del ptr

/-- A call outside the condition leaves a binding without its live block. -/
theorem step_visible (w : World) (call : Call) (w' : World)
    (hstep : step w call = some w') (hw : w.Accounted) (hw' : w'.Accounted) :
    w.Visible call := by
  cases call with
  | malloc size ret =>
    simp only [step, Option.ite_none_right_eq_some, Option.some.injEq] at hstep
    obtain ⟨hlive, rfl⟩ := hstep
    rintro rfl
    have hunbound : w.checker.map_.lookup NULL = none :=
      hw.unbound NULL (by simp [w.heap.block_null])
    have hbound : (((w.malloc .interposed size NULL).checker.map_).lookup NULL).map Int64.toUInt64 =
        some size := by
      simp [malloc, traceMalloc, add, lookup_insertNew, AList.lookup_eq_none.mp hunbound]
    have hblock := (hw'.bound_iff NULL size).mp hbound
    rw [Heap.block_null] at hblock
    cases hblock
  | calloc nmemb size ret => trivial
  | realloc ptr size ret =>
    simp only [step, Option.ite_none_right_eq_some, Option.some.injEq] at hstep
    obtain ⟨_, rfl⟩ := hstep
    intro h
    obtain ⟨len, hb⟩ := h
    by_contra hfail
    have hbound := (hw.bound_iff ptr len).mpr hb
    have hblock := (hw'.bound_iff ptr len).mp (by simpa [realloc, hfail] using hbound)
    simp only [realloc, hfail, if_false, Heap.answered] at hblock
    split at hblock
    · simp at hblock
    · simp only [Heap.block_alloc, Heap.block_release] at hblock
      split at hblock <;> simp at hblock
  | free ptr => trivial

/-- Accounting is exact after every call of a run if and only if no call of the
run goes past the checker. -/
theorem accounted_along_iff (calls : List Call) :
    Along step Accounted init calls ↔ Meets step Visible init calls :=
  along_iff_meets (I := fun _ => True) (fun _ _ _ _ _ => trivial)
    (fun w call w' hstep _ => step_accounted w call w' hstep)
    (fun w call w' hstep _ => step_visible w call w' hstep) init calls trivial init_accounted

/-- A malloc that libc answers with NULL is counted for ever, and so is a block
that realloc has moved. -/
theorem failed_malloc_not_accounted :
    (∃ w, run step init [.malloc 16 NULL] = some w ∧ ¬ w.Accounted) ∧
      ∃ w, run step init [.malloc 16 0x1000, .realloc 0x1000 32 0x2000] = some w ∧
        ¬ w.Accounted := by
  constructor
  · refine ⟨init.malloc .interposed 16 NULL, rfl, ?_⟩
    intro hx
    have hblock := (hx.bound_iff NULL 16).mp rfl
    rw [Heap.block_null] at hblock
    cases hblock
  · refine ⟨(init.malloc .interposed 16 0x1000).realloc .libc 0x1000 32 0x2000, rfl, ?_⟩
    intro hx
    have hblock := (hx.bound_iff 0x1000 16).mp rfl
    cases hblock

end World

end JvmTrace.HeapAccounting
