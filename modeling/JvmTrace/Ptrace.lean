import Mathlib.Data.Nat.Notation
import Mathlib.Data.BitVec

/-!
The traced process as src/tt.cpp sees it through ptrace: a register file and a
byte memory of a 32-bit target, read and written a word at a time. Sizes are
natural numbers and addresses wrap modulo 2^32. The addresses the tool itself
pokes are recorded. Between a continue and the next stop the target runs code of
its own, which is any function that stops just above the pushed return address.
-/
namespace JvmTrace.Ptrace

abbrev Byte := BitVec 8
abbrev Word := BitVec 32

/-- user_regs_struct of a 32-bit target. -/
structure user_regs_struct where
  ebx : Word
  ecx : Word
  edx : Word
  esi : Word
  edi : Word
  ebp : Word
  eax : Word
  xds : Word
  xes : Word
  xfs : Word
  xgs : Word
  orig_eax : Word
  eip : Word
  xcs : Word
  eflags : Word
  esp : Word
  xss : Word

structure Machine where
  regs : user_regs_struct
  memory : Word → Byte

/-- The process under the tool, with every address the tool has poked so far. -/
structure Tracee extends Machine where
  poked : List Word

/-- Four consecutive bytes as a little-endian word. -/
def word (byte : ℕ → Byte) : Word := byte 3 ++ byte 2 ++ byte 1 ++ byte 0

/-- PTRACE_POKETEXT. -/
def poketext (t : Tracee) (addr data : Word) : Tracee :=
  { t with
    memory := fun a =>
      if (a - addr).toNat < 4 then data.extractLsb' (8 * (a - addr).toNat) 8 else t.memory a
    poked := t.poked ++ (List.range 4).map fun i => addr + BitVec.ofNat 32 i }

/-- The loop of ptrace_write: it copies a whole word from vptr as long as the
count is below the length. -/
def writeFrom (t : Tracee) (addr : Word) (vptr : ℕ → Byte) (len count : ℕ) : Tracee :=
  if count < len then
    writeFrom (poketext t (addr + BitVec.ofNat 32 count) (word fun i => vptr (count + i)))
      addr vptr len (count + 4)
  else t
  termination_by len - count

def ptrace_write (t : Tracee) (addr : Word) (vptr : ℕ → Byte) (len : ℕ) : Tracee :=
  writeFrom t addr vptr len 0

def ptrace_writereg (t : Tracee) (regs : user_regs_struct) : Tracee :=
  { t with regs := regs }

/-- The new top of the stack for a block of the given size. -/
def pushed (esp : Word) (size : ℕ) : Word :=
  let esp := esp - BitVec.ofNat 32 size
  esp - esp % 4

def ptrace_push (t : Tracee) (paddr : ℕ → Byte) (size : ℕ) : Tracee × Word :=
  let esp := pushed t.regs.esp size
  (ptrace_write (ptrace_writereg t { t.regs with esp := esp }) esp paddr size, esp)

/-- What the target does between a continue and its stop: anything, but it stops
with esp just above the return address it was started with. -/
structure Execution where
  resume : Machine → Machine
  esp_after : ∀ m, (resume m).regs.esp = m.regs.esp + 4

/-- The bytes of a word in memory order. -/
def bytesOf (data : Word) (i : ℕ) : Byte := data.extractLsb' (8 * i) 8

/-- The status loops after the continue are left out here: the target has stopped again by
the time that both are over. They are part of JvmTrace.Injection. -/
def ptrace_call (t : Tracee) (addr : Word) (execution : Execution) : Tracee :=
  let t := (ptrace_push t (bytesOf 0x41414140) 4).1
  let t := ptrace_writereg t { t.regs with eip := addr }
  { t with toMachine := execution.resume t.toMachine }

/-- A C string with the bytes that happen to follow its terminator. -/
structure CString where
  chars : List Byte
  after : ℕ → Byte

def CString.strlen (s : CString) : ℕ := s.chars.length

def CString.byte (s : CString) (i : ℕ) : Byte :=
  if h : i < s.chars.length then s.chars.get ⟨i, h⟩
  else if i = s.chars.length then 0 else s.after i

def RTLD_LAZY : Word := 1

def call_dl_open (t : Tracee) (addr : Word) (libname : CString) (execution : Execution) : Tracee :=
  let (t, pRLibName) := ptrace_push t libname.byte (libname.strlen + 1)
  let t := ptrace_writereg t { t.regs with eax := pRLibName, ecx := 0, edx := RTLD_LAZY }
  ptrace_call t addr execution

def call_mtrace (t : Tracee) (addr : Word) (execution : Execution) : Tracee :=
  ptrace_call t addr execution

/-- The registers ptrace_attach keeps in oldregs. -/
def ptrace_attach (m : Machine) : Tracee × user_regs_struct :=
  ({ m with poked := [] }, m.regs)

def ptrace_detach (t : Tracee) (oldregs : user_regs_struct) : Tracee :=
  ptrace_writereg t oldregs

end JvmTrace.Ptrace
