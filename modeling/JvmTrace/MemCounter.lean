import JvmTrace.MemChecker

/-!
Sequences of mem_checker::add and mem_checker::del with any pointers. An addition
raises the counter even when an older binding stays, so the counter covers the
lengths bound in the map and may exceed them; a deletion takes away a length that
is bound, and keeps the cover. The added lengths are what the counter can reach,
and as long as their sum is below 2^64 it does not overflow either.
-/
namespace JvmTrace.MemCounter

open KeyedSums MemChecker

inductive Op
  | add (p : Addr) (len : UInt64)
  | del (p : Addr)

def exec (c : Checker) : Op → Checker
  | .add p len => add p len c
  | .del p => del p c

/-- The sum of the lengths that a sequence adds. -/
def added : List Op → ℕ
  | [] => 0
  | .add _ len :: rest => len.toNat + added rest
  | .del _ :: rest => added rest

/-- A stored length, converted back to unsigned. -/
def bound (second : Int64) : ℕ := second.toUInt64.toNat

/-- What a call subtracts from the counter. -/
def subtracted (c : Checker) : Op → ℕ
  | .add _ _ => 0
  | .del p => if p = NULL then 0 else (c.map_.lookup p).elim 0 bound

/-- The counter is at least the sum of the bound lengths. -/
def Covered (c : Checker) : Prop := total bound c.map_ ≤ c.mem_.toNat

theorem bound_toInt64 (len : UInt64) : bound len.toInt64 = len.toNat := by
  simp [bound]

theorem bound_le_total (c : Checker) (p : Addr) (second : Int64)
    (h : c.map_.lookup p = some second) : bound second ≤ total bound c.map_ := by
  have herase := total_erase bound c.map_ p second h
  omega

theorem subtracted_le (c : Checker) (op : Op) (h : Covered c) :
    subtracted c op ≤ c.mem_.toNat := by
  unfold Covered at h
  cases op with
  | add p len => exact Nat.zero_le _
  | del p =>
    unfold subtracted
    by_cases hnull : p = NULL
    · simp [hnull]
    · rcases hlook : c.map_.lookup p with _ | second
      · simp [hlook]
      · have hle := bound_le_total c p second hlook
        simp only [hnull, hlook, if_false, Option.elim_some]
        omega

/-- An addition that does not overflow keeps the cover. -/
theorem add_covered (c : Checker) (p : Addr) (len : UInt64) (h : Covered c)
    (hroom : c.mem_.toNat + len.toNat < 2 ^ 64) :
    Covered (add p len c) ∧ (add p len c).mem_.toNat = c.mem_.toNat + len.toNat := by
  have hmem : (add p len c).mem_.toNat = c.mem_.toNat + len.toNat := by
    change (c.mem_ + len).toNat = _
    rw [UInt64.toNat_add]
    omega
  refine ⟨?_, hmem⟩
  unfold Covered at h ⊢
  rw [hmem]
  by_cases hp : p ∈ c.map_
  · have hmap : (add p len c).map_ = c.map_ := by simp [add, insertNew, hp]
    rw [hmap]
    omega
  · have hmap : (add p len c).map_ = c.map_.insert p len.toInt64 := by simp [add, insertNew, hp]
    rw [hmap, total_insert bound c.map_ p _ hp, bound_toInt64]
    omega

/-- A deletion lowers the counter by what it subtracts, and keeps the cover. -/
theorem del_covered (c : Checker) (p : Addr) (h : Covered c) :
    Covered (del p c) ∧ (del p c).mem_.toNat + subtracted c (.del p) = c.mem_.toNat := by
  by_cases hnull : p = NULL
  · simp [del, subtracted, hnull, h]
  · rcases hlook : c.map_.lookup p with _ | second
    · simp [del_unbound p c hlook, subtracted, hlook, hnull, h]
    · have hle := bound_le_total c p second hlook
      have herase := total_erase bound c.map_ p second hlook
      unfold Covered at h ⊢
      rw [del_bound p c second hnull hlook]
      have hsecond : second.toUInt64 ≤ c.mem_ := by
        rw [UInt64.le_iff_toNat_le]
        change bound second ≤ _
        omega
      have hsub : (c.mem_ - second.toUInt64).toNat = c.mem_.toNat - bound second :=
        UInt64.toNat_sub_of_le _ _ hsecond
      simp only [subtracted, hnull, hlook, if_false, Option.elim_some, hsub]
      omega

/-- Calls whose additions fit above the counter keep the cover. -/
theorem foldl_covered (ops : List Op) (c : Checker) (h : Covered c)
    (hroom : c.mem_.toNat + added ops < 2 ^ 64) : Covered (ops.foldl exec c) := by
  induction ops generalizing c with
  | nil => exact h
  | cons op rest ih =>
    cases op with
    | add p len =>
      simp only [added] at hroom
      obtain ⟨hcovered, hmem⟩ := add_covered c p len h (by omega)
      exact ih (add p len c) hcovered (by omega)
    | del p =>
      simp only [added] at hroom
      obtain ⟨hcovered, hmem⟩ := del_covered c p h
      exact ih (del p c) hcovered (by omega)

theorem added_append (first second : List Op) :
    added (first ++ second) = added first + added second := by
  induction first with
  | nil => simp [added]
  | cons op rest ih =>
    cases op with
    | add p len =>
      simp only [List.cons_append, added, ih]
      omega
    | del p => exact ih

/-- In a sequence of calls whose lengths total less than 2^64, the counter covers the
bound lengths after every call, and no call subtracts more than the counter holds. -/
theorem counter_never_wraps (ops : List Op) (hsum : added ops < 2 ^ 64) (done : List Op)
    (op : Op) (rest : List Op) (hops : ops = done ++ op :: rest) :
    subtracted (done.foldl exec empty) op ≤ (done.foldl exec empty).mem_.toNat ∧
      Covered (exec (done.foldl exec empty) op) := by
  have hsplit : added ops = added (done ++ [op]) + added rest := by
    rw [hops, ← added_append, List.append_assoc]
    rfl
  have hdone : added (done ++ [op]) = added done + added [op] := added_append done [op]
  have hstart : Covered empty := Nat.zero_le _
  have hbefore := foldl_covered done empty hstart (by change 0 + added done < _; omega)
  have hafter := foldl_covered (done ++ [op]) empty hstart
    (by change 0 + added (done ++ [op]) < _; omega)
  rw [List.foldl_append] at hafter
  exact ⟨subtracted_le _ op hbefore, hafter⟩

theorem counter_never_wraps_repeated :
    let done : List Op := [.add 16 100, .add 16 200, .add NULL 1, .del 32]
    added (done ++ [.del 16]) < 2 ^ 64 ∧
      subtracted (done.foldl exec empty) (.del 16) ≤ (done.foldl exec empty).mem_.toNat ∧
      Covered (exec (done.foldl exec empty) (.del 16)) :=
  ⟨by decide, counter_never_wraps _ (by decide) _ (.del 16) [] rfl⟩

end JvmTrace.MemCounter
