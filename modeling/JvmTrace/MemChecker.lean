import JvmTrace.KeyedSums

/-!
The allocation counter of src/mem_checker.cpp: the running total mem_ and the
map from tracked addresses to their sizes. Sizes are unsigned 64-bit when they
are added, are stored as signed 64-bit values, and are converted back when
they are subtracted. The printing of the call stack is not part of the state. An
account of addresses and sizes is mirrored by the checker as long as additions
enter fresh addresses.
-/
namespace JvmTrace.MemChecker

open KeyedSums

abbrev Addr := BitVec 64

def NULL : Addr := 0

/-- The two globals of the checker. -/
structure Checker where
  mem_ : UInt64
  map_ : AList fun _ : Addr => Int64

/-- The counter is raised whether or not the insertion finds an older binding,
and also when the address is NULL. -/
def add (p : Addr) (len : UInt64) (c : Checker) : Checker where
  mem_ := c.mem_ + len
  map_ := insertNew p len.toInt64 c.map_

def del (p : Addr) (c : Checker) : Checker :=
  if p = NULL then c
  else match c.map_.lookup p with
    | none => c
    | some second => { mem_ := c.mem_ - second.toUInt64, map_ := c.map_.erase p }

def empty : Checker where
  mem_ := 0
  map_ := ∅

theorem del_unbound (p : Addr) (c : Checker) (h : c.map_.lookup p = none) : del p c = c := by
  simp [del, h]

theorem del_bound (p : Addr) (c : Checker) (second : Int64) (hp : p ≠ NULL)
    (h : c.map_.lookup p = some second) :
    del p c = { mem_ := c.mem_ - second.toUInt64, map_ := c.map_.erase p } := by
  simp [del, hp, h]

/-- The map binds exactly the entries of an account, each to its size, and the counter is
the sum of the sizes modulo 2^64. -/
structure Mirrors (c : Checker) (account : AList fun _ : Addr => UInt64) : Prop where
  bound_iff : ∀ p len, (c.map_.lookup p).map Int64.toUInt64 = some len ↔
    account.lookup p = some len
  mem_eq : c.mem_.toNat = total UInt64.toNat account % 2 ^ 64

namespace Mirrors

variable {c : Checker} {account : AList fun _ : Addr => UInt64}

theorem mem_iff (hm : Mirrors c account) (p : Addr) : p ∈ c.map_ ↔ p ∈ account := by
  rw [← AList.lookup_isSome, ← AList.lookup_isSome, Option.isSome_iff_exists,
    Option.isSome_iff_exists]
  constructor
  · intro h
    obtain ⟨second, hlook⟩ := h
    exact ⟨second.toUInt64, (hm.bound_iff p _).mp (by simp [hlook])⟩
  · intro h
    obtain ⟨len, hlook⟩ := h
    obtain ⟨second, hsecond, _⟩ := Option.map_eq_some_iff.mp ((hm.bound_iff p len).mpr hlook)
    exact ⟨second, hsecond⟩

/-- An addition of an address that is not bound enters it into the account. -/
theorem add (hm : Mirrors c account) (p : Addr) (len : UInt64) (hp : p ∉ c.map_) :
    Mirrors (add p len c) (account.insert p len) where
  bound_iff q n := by
    rw [MemChecker.add, lookup_insertNew]
    by_cases hq : q = p
    · subst q
      simp [hp]
    · simpa [hq, AList.lookup_insert_ne] using hm.bound_iff q n
  mem_eq := by
    have hfresh : p ∉ account := fun hin => hp ((hm.mem_iff p).mpr hin)
    have hsum := total_insert UInt64.toNat account p len hfresh
    have hmem := hm.mem_eq
    rw [hsum]
    simp only [MemChecker.add, UInt64.toNat_add]
    omega

/-- A deletion strikes the address out, whether or not it is bound. -/
theorem del (hm : Mirrors c account) (p : Addr) (hnull : NULL ∉ c.map_) :
    Mirrors (del p c) (account.erase p) := by
  by_cases hp : p ∈ c.map_
  · have hne : p ≠ NULL := by
      rintro rfl
      exact hnull hp
    obtain ⟨second, hlook⟩ := Option.isSome_iff_exists.mp (AList.lookup_isSome.mpr hp)
    have haccount := (hm.bound_iff p second.toUInt64).mp (by simp [hlook])
    rw [del_bound p c second hne hlook]
    constructor
    · intro q n
      by_cases hq : q = p
      · subst q
        simp
      · simpa [AList.lookup_erase_ne hq] using hm.bound_iff q n
    · have hsum := total_erase UInt64.toNat account p _ haccount
      have hmem := hm.mem_eq
      have hlt := second.toUInt64.toNat_lt
      simp only [UInt64.toNat_sub]
      omega
  · have haccount : p ∉ account := fun hin => hp ((hm.mem_iff p).mpr hin)
    rw [del_unbound p c (AList.lookup_eq_none.mpr hp), erase_of_notMem account p haccount]
    exact hm

end Mirrors

end JvmTrace.MemChecker
