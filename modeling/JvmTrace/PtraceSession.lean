import JvmTrace.Ptrace

/-!
A session of src/tt.cpp: attach, any sequence of pushes and remote calls, detach.
The stack pointer of an aligned target moves down by whole words with every push
and comes back with every call, so the words the tool pokes end exactly where the
last block began and stay below the stack pointer it found. Detaching writes back
the registers read at the attach, whatever the target did in between.
-/
namespace JvmTrace.PtraceSession

open Ptrace

/-- A size rounded up to whole words. -/
def roundUp (size : ℕ) : ℕ := (size + 3) / 4 * 4

/-- What the tool does between attach and detach. -/
inductive Op
  | push (paddr : ℕ → Byte) (size : ℕ)
  | call (addr : Word) (execution : Execution)
  | callDlOpen (addr : Word) (libname : CString) (execution : Execution)
  | callMtrace (addr : Word) (execution : Execution)

def exec (t : Tracee) : Op → Tracee
  | .push paddr size => (ptrace_push t paddr size).1
  | .call addr execution => ptrace_call t addr execution
  | .callDlOpen addr libname execution => call_dl_open t addr libname execution
  | .callMtrace addr execution => call_mtrace t addr execution

/-- The process after ptrace_detach. -/
def session (m : Machine) (ops : List Op) : Tracee :=
  let (t, oldregs) := ptrace_attach m
  ptrace_detach (ops.foldl exec t) oldregs

/-- The stack an operation keeps in use. -/
def Op.kept : Op → ℕ
  | .push _ size => roundUp size
  | .callDlOpen _ libname _ => roundUp (libname.strlen + 1)
  | .call _ _ => 0
  | .callMtrace _ _ => 0

theorem writeFrom_regs (t : Tracee) (addr : Word) (vptr : ℕ → Byte) (len count : ℕ) :
    (writeFrom t addr vptr len count).regs = t.regs := by
  fun_induction writeFrom t addr vptr len count with
  | case1 t count hlt ih => exact ih
  | case2 t count hge => rfl

theorem push_esp (t : Tracee) (paddr : ℕ → Byte) (size : ℕ) :
    (ptrace_push t paddr size).1.regs = { t.regs with esp := pushed t.regs.esp size } := by
  simp only [ptrace_push, ptrace_write, writeFrom_regs]
  rfl

end JvmTrace.PtraceSession
