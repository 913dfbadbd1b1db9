import JvmTrace.TraceData

/-!
inject_code of src/trace.h. It saves two areas of STRLEN bytes on the stack of the
target, writes a return address and the path of the library into them, lets the target
run dlopen and puts registers and both areas back. Nothing compares the length of the
path with STRLEN: what it writes behind the second area is not saved and stays there.
-/
namespace JvmTrace.InjectCode

open Addresses Ptrace TraceData

/-- struct user_regs_struct of a 64-bit process. -/
structure user_regs_struct where
  r15 : Addr
  r14 : Addr
  r13 : Addr
  r12 : Addr
  rbp : Addr
  rbx : Addr
  r11 : Addr
  r10 : Addr
  r9 : Addr
  r8 : Addr
  rax : Addr
  rcx : Addr
  rdx : Addr
  rsi : Addr
  rdi : Addr
  orig_rax : Addr
  rip : Addr
  cs : Addr
  eflags : Addr
  rsp : Addr
  ss : Addr
  fs_base : Addr
  gs_base : Addr
  ds : Addr
  es : Addr
  fs : Addr
  gs : Addr

structure Target where
  regs : user_regs_struct
  memory : Memory

def RTLD_NOW : Addr := 2
def RTLD_GLOBAL : Addr := 0x100
def RTLD_NODELETE : Addr := 0x1000

/-- The eight bytes of ret_addr, 0x666. -/
def ret_addr : List Byte := [0x66, 0x06, 0, 0, 0, 0, 0, 0]

variable (calls : DataCalls) (STRLEN : ℕ)

/-- The target at PTRACE_CONT, with the arguments of dlopen in place. -/
def prepare (t : Target) (dlopen_addr : Addr) (libc_path : CString) : Target where
  regs := { t.regs with
    rdi := t.regs.rsp + BitVec.ofNat 64 STRLEN
    rsi := RTLD_NOW ||| RTLD_GLOBAL ||| RTLD_NODELETE
    rip := dlopen_addr + 2 }
  memory := calls.ptrace_setdata (calls.ptrace_setdata t.memory t.regs.rsp ret_addr)
    (t.regs.rsp + BitVec.ofNat 64 STRLEN) (libc_path.chars ++ [0])

/-- The argument dlopen is what the target does between PTRACE_CONT and its next stop. -/
def inject_code (dlopen : Target → Target) (t : Target) (dlopen_addr : Addr)
    (libc_path : CString) : Target :=
  let sbuf1 := calls.ptrace_getdata t.memory (t.regs.rsp + BitVec.ofNat 64 STRLEN) STRLEN
  let sbuf2 := calls.ptrace_getdata t.memory t.regs.rsp STRLEN
  let saved_regs := t.regs
  let stopped := dlopen (prepare calls STRLEN t dlopen_addr libc_path)
  let memory := calls.ptrace_setdata stopped.memory
    (saved_regs.rsp + BitVec.ofNat 64 STRLEN) sbuf1
  { regs := saved_regs, memory := calls.ptrace_setdata memory saved_regs.rsp sbuf2 }

/-- Both areas are back, and the rest is as dlopen left it. -/
theorem inject_code_memory (dlopen : Target → Target) (t : Target) (dlopen_addr : Addr)
    (libc_path : CString) (a : Addr) :
    (inject_code calls STRLEN dlopen t dlopen_addr libc_path).memory a =
      if (a - t.regs.rsp).toNat < STRLEN ∨
          (a - (t.regs.rsp + BitVec.ofNat 64 STRLEN)).toNat < STRLEN then t.memory a
      else (dlopen (prepare calls STRLEN t dlopen_addr libc_path)).memory a := by
  unfold inject_code
  simp only [setdata_getdata]
  by_cases hfirst : (a - t.regs.rsp).toNat < STRLEN
  · rw [if_pos hfirst, if_pos (Or.inl hfirst)]
  · by_cases hsecond : (a - (t.regs.rsp + BitVec.ofNat 64 STRLEN)).toNat < STRLEN
    · rw [if_neg hfirst, if_pos hsecond, if_pos (Or.inr hsecond)]
    · rw [if_neg hfirst, if_neg hsecond, if_neg (not_or.2 ⟨hfirst, hsecond⟩)]

/-- From the second area on, the distance to it. -/
theorem distance_second (a rsp : Addr) (h : STRLEN ≤ (a - rsp).toNat) :
    (a - (rsp + BitVec.ofNat 64 STRLEN)).toNat = (a - rsp).toNat - STRLEN := by
  have hlt := (a - rsp).isLt
  rw [sub_add_toNat a rsp STRLEN (by omega), if_pos h]

/-- Behind the return address, the memory at the call differs by the path only. -/
theorem prepare_memory (t : Target) (dlopen_addr : Addr) (libc_path : CString) (a : Addr)
    (h : 8 ≤ (a - t.regs.rsp).toNat) :
    (prepare calls STRLEN t dlopen_addr libc_path).memory a =
      ((libc_path.chars ++ [0])[(a - (t.regs.rsp + BitVec.ofNat 64 STRLEN)).toNat]?).getD
        (t.memory a) := by
  show calls.ptrace_setdata (calls.ptrace_setdata t.memory t.regs.rsp ret_addr)
    (t.regs.rsp + BitVec.ofNat 64 STRLEN) (libc_path.chars ++ [0]) a = _
  rw [calls.setdata_eq, calls.setdata_eq, List.getElem?_eq_none (show ret_addr.length ≤ _ from h)]
  rfl

/-- The registers are those at the start, and so is every byte at or above rsp. -/
def Restored (dlopen : Target → Target) (t : Target) (dlopen_addr : Addr)
    (libc_path : CString) : Prop :=
  (inject_code calls STRLEN dlopen t dlopen_addr libc_path).regs = t.regs ∧
    ∀ a : Addr, t.regs.rsp.toNat ≤ a.toNat →
      (inject_code calls STRLEN dlopen t dlopen_addr libc_path).memory a = t.memory a

/-- dlopen leaves the memory above its return address alone. -/
def LeavesCaller (dlopen : Target → Target) (entry : Target) : Prop :=
  ∀ a : Addr, entry.regs.rsp.toNat + 8 ≤ a.toNat → (dlopen entry).memory a = entry.memory a

/-- A byte in one of the areas is put back. -/
theorem inject_code_near (dlopen : Target → Target) (t : Target) (dlopen_addr : Addr)
    (libc_path : CString) (a : Addr) (hnear : (a - t.regs.rsp).toNat < 2 * STRLEN) :
    (inject_code calls STRLEN dlopen t dlopen_addr libc_path).memory a = t.memory a := by
  rw [inject_code_memory]
  apply if_pos
  by_cases hfirst : (a - t.regs.rsp).toNat < STRLEN
  · exact Or.inl hfirst
  · right
    rw [distance_second STRLEN a t.regs.rsp (by omega)]
    omega

/-- A byte above both areas is left as dlopen was called with it. -/
theorem inject_code_beyond (hSTRLEN : 8 ≤ STRLEN) (dlopen : Target → Target) (t : Target)
    (dlopen_addr : Addr) (libc_path : CString)
    (hdlopen : LeavesCaller dlopen (prepare calls STRLEN t dlopen_addr libc_path)) (a : Addr)
    (ha : t.regs.rsp.toNat ≤ a.toNat) (hfar : 2 * STRLEN ≤ (a - t.regs.rsp).toNat) :
    (inject_code calls STRLEN dlopen t dlopen_addr libc_path).memory a =
      ((libc_path.chars ++ [0])[(a - t.regs.rsp).toNat - STRLEN]?).getD (t.memory a) := by
  have hrsp : (prepare calls STRLEN t dlopen_addr libc_path).regs.rsp = t.regs.rsp := rfl
  have hdist := (sub_toNat a t.regs.rsp).trans (if_pos ha)
  have hsecond := distance_second STRLEN a t.regs.rsp (by omega)
  rw [inject_code_memory, if_neg (by omega), hdlopen a (by rw [hrsp]; omega),
    prepare_memory _ _ _ _ _ _ (by omega), hsecond]

theorem path_length (libc_path : CString) :
    (libc_path.chars ++ [0]).length = libc_path.strlen + 1 := by
  rw [List.length_append, List.length_singleton]
  rfl

/-- The target is restored if and only if the bytes of the path from STRLEN on, up to
the end of the address space, are those that were there before: for a path shorter than
STRLEN there are none. -/
theorem restored_iff (hSTRLEN : 8 ≤ STRLEN) (dlopen : Target → Target) (t : Target)
    (dlopen_addr : Addr) (libc_path : CString)
    (hdlopen : LeavesCaller dlopen (prepare calls STRLEN t dlopen_addr libc_path)) :
    Restored calls STRLEN dlopen t dlopen_addr libc_path ↔
      ∀ k, STRLEN ≤ k → k ≤ libc_path.strlen → t.regs.rsp.toNat + STRLEN + k < 2 ^ 64 →
        (libc_path.chars ++ [0])[k]? =
          some (t.memory (t.regs.rsp + BitVec.ofNat 64 (STRLEN + k))) := by
  have hlength := path_length libc_path
  have hbeyond := inject_code_beyond calls STRLEN hSTRLEN dlopen t dlopen_addr libc_path hdlopen
  constructor
  · intro h k hk hlen hroom
    obtain ⟨_, hmemory⟩ := h
    have hoffset := add_toNat t.regs.rsp (STRLEN + k) (by omega)
    have habove : t.regs.rsp.toNat ≤ (t.regs.rsp + BitVec.ofNat 64 (STRLEN + k)).toNat := by
      omega
    have hdist := offset_toNat t.regs.rsp (STRLEN + k) (by omega)
    have hsame := hmemory _ habove
    rw [hbeyond _ habove (by omega), hdist, Nat.add_sub_cancel_left,
      List.getElem?_eq_getElem (by omega)] at hsame
    rw [List.getElem?_eq_getElem (by omega)]
    exact congrArg some hsame
  · intro hpath
    refine ⟨rfl, ?_⟩
    intro a ha
    have hlt := a.isLt
    have hdist := (sub_toNat a t.regs.rsp).trans (if_pos ha)
    by_cases hfar : 2 * STRLEN ≤ (a - t.regs.rsp).toNat
    · rw [hbeyond a ha hfar]
      by_cases hin : (a - t.regs.rsp).toNat - STRLEN ≤ libc_path.strlen
      · rw [hpath _ (by omega) hin (by omega), Option.getD_some]
        congr 1
        rw [Nat.add_sub_cancel' (by omega), ← eq_offset]
      · rw [List.getElem?_eq_none (by omega), Option.getD_none]
    · exact inject_code_near calls STRLEN dlopen t dlopen_addr libc_path a (by omega)

/-- A call that pops its return address and stops there. -/
def returning (t : Target) : Target :=
  { t with regs := { t.regs with rip := 0x666, rsp := t.regs.rsp + 8 } }

/-- A target with its stack at 0x7000 and nothing on it. -/
def idle : Target where
  regs := ⟨0, 0, 0, 0, 0, 0, 0, 0, 0, 0, 0, 0, 0, 0, 0, 0, 0x4000, 0, 0, 0x7000, 0, 0, 0, 0, 0, 0, 0⟩
  memory := fun _ => 0

/-- The path /h.so. -/
def shortPath : CString := ⟨[0x2f, 0x68, 0x2e, 0x73, 0x6f], fun _ => 0⟩

theorem restored_shortPath :
    LeavesCaller returning (prepare DataCalls.copying 8 idle 0x5000 shortPath) ∧
      Restored DataCalls.copying 8 returning idle 0x5000 shortPath := by
  have hleaves : LeavesCaller returning (prepare DataCalls.copying 8 idle 0x5000 shortPath) :=
    fun _ _ => rfl
  refine ⟨hleaves, (restored_iff DataCalls.copying 8 (by omega) returning idle 0x5000 shortPath
    hleaves).2 ?_⟩
  intro k hk hlen
  have hstrlen : shortPath.strlen = 5 := rfl
  omega

/-- The path /tmp/h.so. -/
def longPath : CString := ⟨[0x2f, 0x74, 0x6d, 0x70, 0x2f, 0x68, 0x2e, 0x73, 0x6f], fun _ => 0⟩

/-- With STRLEN 8 the last letter of the path stays at rsp + 16. -/
theorem not_restored_longPath :
    LeavesCaller returning (prepare DataCalls.copying 8 idle 0x5000 longPath) ∧
      ¬ Restored DataCalls.copying 8 returning idle 0x5000 longPath := by
  refine ⟨fun _ _ => rfl, ?_⟩
  intro h
  obtain ⟨_, hmemory⟩ := h
  have hbyte := hmemory 0x7010 (by decide)
  revert hbyte
  decide

end JvmTrace.InjectCode
