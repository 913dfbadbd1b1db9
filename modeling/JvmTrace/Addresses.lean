import Mathlib

/-!
Addresses modulo a power of two: how far one address is above another, and the
addresses of the entries of a table, which begins anew after a turn around the
address space. Nothing here names a program.
-/
namespace JvmTrace.Addresses

variable {w : ℕ}

theorem eq_offset (a addr : BitVec w) : a = addr + BitVec.ofNat w (a - addr).toNat := by
  rw [BitVec.ofNat_toNat, BitVec.setWidth_eq, add_sub_cancel]

theorem offset_toNat (addr : BitVec w) (k : ℕ) (hk : k < 2 ^ w) :
    (addr + BitVec.ofNat w k - addr).toNat = k := by
  have hcancel : addr + BitVec.ofNat w k - addr = BitVec.ofNat w k := add_sub_cancel_left _ _
  rw [hcancel, BitVec.toNat_ofNat, Nat.mod_eq_of_lt hk]

/-- An offset that stays below the end of the address space. -/
theorem add_toNat (addr : BitVec w) (k : ℕ) (hk : addr.toNat + k < 2 ^ w) :
    (addr + BitVec.ofNat w k).toNat = addr.toNat + k := by
  rw [BitVec.toNat_add, BitVec.toNat_ofNat, Nat.mod_eq_of_lt (show k < 2 ^ w by omega),
    Nat.mod_eq_of_lt hk]

/-- The distance from one address up to another, around the address space. -/
theorem sub_toNat (a addr : BitVec w) :
    (a - addr).toNat = if addr.toNat ≤ a.toNat then a.toNat - addr.toNat
      else 2 ^ w + a.toNat - addr.toNat := by
  have ha := a.isLt
  have haddr := addr.isLt
  rw [BitVec.toNat_sub]
  split_ifs with hle
  · rw [show 2 ^ w - addr.toNat + a.toNat = a.toNat - addr.toNat + 2 ^ w by omega,
      Nat.add_mod_right, Nat.mod_eq_of_lt (by omega)]
  · rw [Nat.mod_eq_of_lt (by omega)]
    omega

/-- The same, from a place further up. -/
theorem sub_add_toNat (a addr : BitVec w) (count : ℕ) (hcount : count < 2 ^ w) :
    (a - (addr + BitVec.ofNat w count)).toNat =
      if count ≤ (a - addr).toNat then (a - addr).toNat - count
      else 2 ^ w + (a - addr).toNat - count := by
  have hsub : a - (addr + BitVec.ofNat w count) = a - addr - BitVec.ofNat w count :=
    sub_add_eq_sub_sub _ _ _
  rw [hsub, sub_toNat, BitVec.toNat_ofNat, Nat.mod_eq_of_lt hcount]

theorem entry_succ (base : BitVec w) (size i : ℕ) :
    base + BitVec.ofNat w (size * (i + 1)) =
      base + BitVec.ofNat w (size * i) + BitVec.ofNat w size := by
  rw [BitVec.add_assoc, ← BitVec.ofNat_add]
  rfl

/-- A table repeats itself after one turn around the address space. -/
theorem entry_mod (base : BitVec w) (size period i : ℕ) (h : size * period = 2 ^ w) :
    base + BitVec.ofNat w (size * (i % period)) = base + BitVec.ofNat w (size * i) := by
  have hmod : size * (i % period) % 2 ^ w = size * i % 2 ^ w := by
    rw [← h, Nat.mul_mod_mul_left, Nat.mul_mod_mul_left, Nat.mod_mod]
  congr 1
  apply BitVec.eq_of_toNat_eq
  simpa using hmod

/-- Within one turn the entries are apart. -/
theorem entry_inj (base : BitVec w) (size i j : ℕ) (hsize : 0 < size) (hi : size * i < 2 ^ w)
    (hj : size * j < 2 ^ w)
    (h : base + BitVec.ofNat w (size * i) = base + BitVec.ofNat w (size * j)) : i = j := by
  have hofNat := congrArg BitVec.toNat (add_left_cancel h)
  rw [BitVec.toNat_ofNat, BitVec.toNat_ofNat, Nat.mod_eq_of_lt hi, Nat.mod_eq_of_lt hj] at hofNat
  exact Nat.eq_of_mul_eq_mul_left hsize hofNat

end JvmTrace.Addresses
