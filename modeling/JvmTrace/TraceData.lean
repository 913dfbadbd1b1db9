import JvmTrace.Addresses
import JvmTrace.LittleEndian
import JvmTrace.Loops
import JvmTrace.Ptrace

/-!
The 64-bit target of src/trace.h, the calls it is read and written with and the
structures that are read out of it. The calls are not part of the repository:
ptrace_getdata and ptrace_setdata copy the given number of bytes. Addresses wrap
modulo 2^64, so a table of equal structures repeats after a turn around the address space.
-/
namespace JvmTrace.TraceData

open Addresses LittleEndian Loops Ptrace

abbrev Addr := BitVec 64
abbrev Memory := Addr → Byte

/-- The bytes of the target from an address on. -/
def bytesFrom (m : Memory) (addr : Addr) (len : ℕ) : List Byte :=
  (List.range len).map fun i => m (addr + BitVec.ofNat 64 i)

/-- The data calls, with what trace.h takes them to do. -/
structure DataCalls where
  ptrace_getdata : Memory → Addr → ℕ → List Byte
  ptrace_setdata : Memory → Addr → List Byte → Memory
  getdata_eq : ∀ m addr len, ptrace_getdata m addr len = bytesFrom m addr len
  setdata_eq : ∀ m addr data a,
    ptrace_setdata m addr data a = (data[(a - addr).toNat]?).getD (m a)

/-- Calls that do this. -/
def DataCalls.copying : DataCalls where
  ptrace_getdata := bytesFrom
  ptrace_setdata m addr data a := (data[(a - addr).toNat]?).getD (m a)
  getdata_eq _ _ _ := rfl
  setdata_eq _ _ _ _ := rfl

/-- Putting back what was read leaves the other bytes alone. -/
theorem setdata_getdata (calls : DataCalls) (m n : Memory) (addr : Addr) (len : ℕ) (a : Addr) :
    calls.ptrace_setdata n addr (calls.ptrace_getdata m addr len) a =
      if (a - addr).toNat < len then m a else n a := by
  rw [calls.setdata_eq, calls.getdata_eq]
  unfold bytesFrom
  rw [List.getElem?_map]
  split_ifs with hlt
  · rw [List.getElem?_range hlt, Option.map_some, Option.getD_some, ← eq_offset]
  · rw [List.getElem?_eq_none (by simpa using hlt)]
    rfl

structure link_map where
  l_addr : Addr
  l_name : Addr
  l_ld : Addr
  l_next : Addr
  l_prev : Addr

structure Elf_Dyn where
  d_tag : Addr
  d_un : Addr

structure Elf_Sym where
  st_name : BitVec 32
  st_value : Addr
  st_size : Addr

structure lmap_result where
  symtab : Addr
  strtab : Addr
  jmprel : Addr
  reldyn : Addr
  link_addr : Addr
  nsymbols : Addr
  nrelplts : Addr
  nreldyns : Addr
  deriving DecidableEq

/-- A number of the given width in bytes that were copied from the target. -/
def number (width : ℕ) (raw : List Byte) (offset count : ℕ) : BitVec width :=
  BitVec.ofNat width (decode (field (raw.map UInt8.ofBitVec) offset count))

/-- ptrace_getdata into an Elf_Dyn. -/
def readDyn (calls : DataCalls) (m : Memory) (addr : Addr) : Elf_Dyn :=
  let raw := calls.ptrace_getdata m addr 16
  ⟨number 64 raw 0 8, number 64 raw 8 8⟩

/-- ptrace_getdata into an Elf_Sym, whose info, other and section index nothing reads. -/
def readSym (calls : DataCalls) (m : Memory) (addr : Addr) : Elf_Sym :=
  let raw := calls.ptrace_getdata m addr 24
  ⟨number 32 raw 0 4, number 64 raw 8 8, number 64 raw 16 8⟩

/-- ptrace_getdata into a struct link_map. -/
def readLinkMap (calls : DataCalls) (m : Memory) (addr : Addr) : link_map :=
  let raw := calls.ptrace_getdata m addr 40
  ⟨number 64 raw 0 8, number 64 raw 8 8, number 64 raw 16 8, number 64 raw 24 8, number 64 raw 32 8⟩

/-- The structures as they lie in memory. -/
def dynAt (m : Memory) (addr : Addr) : Elf_Dyn :=
  ⟨number 64 (bytesFrom m addr 16) 0 8, number 64 (bytesFrom m addr 16) 8 8⟩

def symAt (m : Memory) (addr : Addr) : Elf_Sym :=
  ⟨number 32 (bytesFrom m addr 24) 0 4, number 64 (bytesFrom m addr 24) 8 8,
    number 64 (bytesFrom m addr 24) 16 8⟩

def linkMapAt (m : Memory) (addr : Addr) : link_map :=
  ⟨number 64 (bytesFrom m addr 40) 0 8, number 64 (bytesFrom m addr 40) 8 8,
    number 64 (bytesFrom m addr 40) 16 8, number 64 (bytesFrom m addr 40) 24 8,
    number 64 (bytesFrom m addr 40) 32 8⟩

theorem readDyn_eq (calls : DataCalls) (m : Memory) (addr : Addr) :
    readDyn calls m addr = dynAt m addr := by
  unfold readDyn dynAt
  rw [calls.getdata_eq]

theorem readSym_eq (calls : DataCalls) (m : Memory) (addr : Addr) :
    readSym calls m addr = symAt m addr := by
  unfold readSym symAt
  rw [calls.getdata_eq]

theorem readLinkMap_eq (calls : DataCalls) (m : Memory) (addr : Addr) :
    readLinkMap calls m addr = linkMapAt m addr := by
  unfold readLinkMap linkMapAt
  rw [calls.getdata_eq]

/-- The address of an entry in a table of structures of the given size. -/
def entryAddr (base : Addr) (size i : ℕ) : Addr := base + BitVec.ofNat 64 (size * i)

theorem entryAddr_zero (base : Addr) (size : ℕ) : entryAddr base size 0 = base := by
  simp [entryAddr]

theorem entryAddr_succ (base : Addr) (size i : ℕ) :
    entryAddr base size (i + 1) = entryAddr base size i + BitVec.ofNat 64 size :=
  entry_succ base size i

theorem entryAddr_mod (base : Addr) (size period i : ℕ) (h : size * period = 2 ^ 64) :
    entryAddr base size (i % period) = entryAddr base size i :=
  entry_mod base size period i h

/-- More rounds than any table has different entries. -/
def addressSpace : ℕ := 2 ^ 64

end JvmTrace.TraceData
