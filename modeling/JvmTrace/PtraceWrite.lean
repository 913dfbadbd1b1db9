import JvmTrace.Elf
import JvmTrace.PtraceSession

/-!
What ptrace_write and ptrace_push of src/tt.cpp leave in the memory of the target.
The write loop pokes whole words, so it writes the length rounded up to a multiple
of four, and the bytes beyond the length are those that follow the source in the
tool's own memory. A push makes room for the rounded length, so there the surplus
stays below the old stack pointer.
-/
namespace JvmTrace.PtraceWrite

open Addresses Ptrace Elf PtraceSession

/-- A byte of the target after the write loop. -/
theorem writeFrom_memory (t : Tracee) (addr : Word) (vptr : ℕ → Byte) (len count : ℕ)
    (hcount : count % 4 = 0) (hlen : roundUp len ≤ 2 ^ 32) (a : Word) :
    (writeFrom t addr vptr len count).memory a =
      if count ≤ (a - addr).toNat ∧ (a - addr).toNat < roundUp len then vptr (a - addr).toNat
      else t.memory a := by
  fun_induction writeFrom t addr vptr len count with
  | case1 t count hlt ih =>
    have hroom : count + 4 ≤ roundUp len := by
      unfold roundUp
      omega
    have hdist := sub_add_toNat a addr count (by omega)
    rw [ih (by omega)]
    by_cases hlater : count + 4 ≤ (a - addr).toNat
    · -- beyond this word
      have hnot : ¬ (a - (addr + BitVec.ofNat 32 count)).toNat < 4 := by
        rw [hdist, if_pos (by omega)]
        omega
      simp only [poketext, hnot, if_false]
      congr 1
      apply propext
      omega
    · rw [if_neg fun h => hlater h.1]
      by_cases hword : count ≤ (a - addr).toNat
      · -- within this word
        have hoffset : (a - (addr + BitVec.ofNat 32 count)).toNat = (a - addr).toNat - count := by
          rw [hdist, if_pos hword]
        have hbyte := bytesOf_word (fun i => vptr (count + i)) ((a - addr).toNat - count)
          (by omega)
        unfold bytesOf at hbyte
        rw [if_pos ⟨hword, by omega⟩]
        simp only [poketext, hoffset]
        rw [if_pos (by omega), hbyte]
        congr 1
        omega
      · have hnot : ¬ (a - (addr + BitVec.ofNat 32 count)).toNat < 4 := by
          rw [hdist, if_neg hword]
          omega
        rw [if_neg fun h => hword h.1]
        simp only [poketext, hnot, if_false]
  | case2 t count hge =>
    have hend : roundUp len ≤ count := by
      unfold roundUp
      omega
    rw [if_neg (by omega)]

theorem ptrace_write_memory (t : Tracee) (addr : Word) (vptr : ℕ → Byte) (len : ℕ)
    (hlen : roundUp len ≤ 2 ^ 32) (a : Word) :
    (ptrace_write t addr vptr len).memory a =
      if (a - addr).toNat < roundUp len then vptr (a - addr).toNat else t.memory a := by
  unfold ptrace_write
  rw [writeFrom_memory t addr vptr len 0 rfl hlen a]
  simp

end JvmTrace.PtraceWrite
