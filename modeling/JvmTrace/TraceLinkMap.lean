import JvmTrace.LmapResult

/-!
get_linkmap of src/trace.h. Unlike the search of src/tt.cpp it stays within e_phnum headers
and p_memsz bytes of the dynamic section, and one entry more, so it always ends unless its
int overflows. But dyn_addr is a global, gotplt is not initialised and the buffer of the
headers comes from malloc: when a search finds nothing, what these held decides.
-/
namespace JvmTrace.TraceLinkMap

open Loops TraceData LmapResult

structure Elf_Ehdr where
  e_phoff : Addr
  e_phnum : BitVec 16

structure Elf_Phdr where
  p_type : BitVec 32
  p_vaddr : Addr
  p_memsz : Addr

def PT_DYNAMIC : BitVec 32 := 2
def DT_PLTGOT : Addr := 3
def sizeofPhdr : ℕ := 56

/-- ptrace_getdata into an Elf_Ehdr, of which two fields are read. -/
def readEhdr (calls : DataCalls) (m : Memory) (addr : Addr) : Elf_Ehdr :=
  let raw := calls.ptrace_getdata m addr 64
  ⟨number 64 raw 32 8, number 16 raw 56 2⟩

/-- ptrace_getdata into an Elf_Phdr. -/
def readPhdr (calls : DataCalls) (m : Memory) (addr : Addr) : Elf_Phdr :=
  let raw := calls.ptrace_getdata m addr sizeofPhdr
  ⟨number 32 raw 0 4, number 64 raw 16 8, number 64 raw 40 8⟩

/-- The structures as they lie in memory. -/
def ehdrAt (m : Memory) (addr : Addr) : Elf_Ehdr :=
  ⟨number 64 (bytesFrom m addr 64) 32 8, number 16 (bytesFrom m addr 64) 56 2⟩

def phdrAt (m : Memory) (addr : Addr) : Elf_Phdr :=
  ⟨number 32 (bytesFrom m addr sizeofPhdr) 0 4, number 64 (bytesFrom m addr sizeofPhdr) 16 8,
    number 64 (bytesFrom m addr sizeofPhdr) 40 8⟩

theorem readEhdr_eq (calls : DataCalls) (m : Memory) (addr : Addr) :
    readEhdr calls m addr = ehdrAt m addr := by
  unfold readEhdr ehdrAt
  rw [calls.getdata_eq]

theorem readPhdr_eq (calls : DataCalls) (m : Memory) (addr : Addr) :
    readPhdr calls m addr = phdrAt m addr := by
  unfold readPhdr phdrAt
  rw [calls.getdata_eq]

inductive Message
  | noDynamic
  | noGotPlt
  deriving DecidableEq

/-- What is there before the call: the global dyn_addr, the variable gotplt, and the bytes
behind the pointers phdr and dyn. -/
structure Before where
  dyn_addr : Addr
  gotplt : Addr
  phdr : Elf_Phdr
  dyn : Elf_Dyn

/-- The messages that were given to error_msg, and the result. -/
structure Outcome where
  messages : List Message
  lmap_addr : Addr
  deriving DecidableEq

variable (calls : DataCalls) (IMAGE_ADDR : Addr) (m : Memory)

/-- The program headers of the image. -/
def programHeader (i : ℕ) : Elf_Phdr :=
  phdrAt m (entryAddr (IMAGE_ADDR + (ehdrAt m IMAGE_ADDR).e_phoff) sizeofPhdr i)

/-- The loops run while the int i does not overflow. In the second, i * sizeof(Elf_Dyn) is
at most p_memsz while i is at most the quotient. -/
def get_linkmap (before : Before) : Option Outcome := do
  let ehdr := readEhdr calls m IMAGE_ADDR
  let phdr_addr := IMAGE_ADDR + ehdr.e_phoff
  let phdrs := fun i => readPhdr calls m (phdr_addr + BitVec.ofNat 64 (sizeofPhdr * i))
  let (i, phdr) ← Loops.searchFrom ehdr.e_phnum.toNat phdrs
    (fun i => decide ((phdrs i).p_type = PT_DYNAMIC)) (2 ^ 31) 0 before.phdr
  let dyn_addr := if i < ehdr.e_phnum.toNat then phdr.p_vaddr else before.dyn_addr
  let dyns := fun i => readDyn calls m (dyn_addr + BitVec.ofNat 64 (sizeofDyn * i))
  let bound := phdr.p_memsz.toNat / sizeofDyn + 1
  let (i, dyn) ← Loops.searchFrom bound dyns
    (fun i => decide ((dyns i).d_tag = DT_PLTGOT)) (2 ^ 31) 0 before.dyn
  let gotplt := if i < bound then dyn.d_un else before.gotplt
  let raw := calls.ptrace_getdata m (gotplt + 8) 8
  return {
    messages := (if 0 = dyn_addr then [.noDynamic] else []) ++
      (if 0 = gotplt then [.noGotPlt] else [])
    lmap_addr := number 64 raw 0 8 }

/-- The entries of the dynamic section that the first PT_DYNAMIC header gives. -/
def dynamicEntry (j : ℕ) (k : ℕ) : Elf_Dyn :=
  dynAt m (entryAddr (programHeader IMAGE_ADDR m j).p_vaddr sizeofDyn k)

/-- The j-th header is the first PT_DYNAMIC, and the k-th entry of its section the first
DT_PLTGOT; both are where the loops look, and both addresses are not 0. -/
structure Linked (j k : ℕ) : Prop where
  header : FirstAt (fun p => p.p_type = PT_DYNAMIC) (programHeader IMAGE_ADDR m) j
  within : j < (ehdrAt m IMAGE_ADDR).e_phnum.toNat
  vaddr : (programHeader IMAGE_ADDR m j).p_vaddr ≠ 0
  entry : FirstAt (fun d => d.d_tag = DT_PLTGOT) (dynamicEntry IMAGE_ADDR m j) k
  inside : sizeofDyn * k ≤ (programHeader IMAGE_ADDR m j).p_memsz.toNat
  int : k < 2 ^ 31
  gotplt : (dynamicEntry IMAGE_ADDR m j k).d_un ≠ 0

/-- A table that is searched from the start, with a hit below the bound. -/
theorem search_hit {α : Type*} (hit : α → Bool) (entry : ℕ → α) (bound n : ℕ) (last : α)
    (hbound : n < bound) (hint : n < 2 ^ 31) (hn : FirstAt (fun a => hit a = true) entry n) :
    Loops.searchFrom bound entry (fun i => hit (entry i)) (2 ^ 31) 0 last = some (n, entry n) :=
  searchFrom_hit bound entry (fun i => hit (entry i)) n (by omega) hn (2 ^ 31) 0 last (by omega)
    (by omega)

/-- What get_linkmap does behind its searches. -/
def finish (dyn_addr gotplt : Addr) : Outcome where
  messages := (if 0 = dyn_addr then [.noDynamic] else []) ++
    (if 0 = gotplt then [.noGotPlt] else [])
  lmap_addr := number 64 (bytesFrom m (gotplt + 8) 8) 0 8

/-- The result with the two searches. -/
theorem get_linkmap_eq (before : Before) :
    get_linkmap calls IMAGE_ADDR m before =
      (Loops.searchFrom (ehdrAt m IMAGE_ADDR).e_phnum.toNat (programHeader IMAGE_ADDR m)
        (fun i => decide ((programHeader IMAGE_ADDR m i).p_type = PT_DYNAMIC)) (2 ^ 31) 0
        before.phdr).bind fun s =>
      let dyn_addr := if s.1 < (ehdrAt m IMAGE_ADDR).e_phnum.toNat then s.2.p_vaddr
        else before.dyn_addr
      let dyns := fun k => dynAt m (entryAddr dyn_addr sizeofDyn k)
      let bound := s.2.p_memsz.toNat / sizeofDyn + 1
      (Loops.searchFrom bound dyns (fun k => decide ((dyns k).d_tag = DT_PLTGOT)) (2 ^ 31) 0
        before.dyn).bind fun s' =>
      some (finish m dyn_addr (if s'.1 < bound then s'.2.d_un else before.gotplt)) := by
  unfold get_linkmap finish
  simp only [readEhdr_eq, readPhdr_eq, readDyn_eq, calls.getdata_eq]
  rfl

theorem get_linkmap_linked (before : Before) (j k : ℕ) (h : Linked IMAGE_ADDR m j k) :
    get_linkmap calls IMAGE_ADDR m before =
      some (finish m (programHeader IMAGE_ADDR m j).p_vaddr
        (dynamicEntry IMAGE_ADDR m j k).d_un) := by
  have hphnum := (ehdrAt m IMAGE_ADDR).e_phnum.isLt
  have hwithin := h.within
  have hinside := h.inside
  have hbound : k < (programHeader IMAGE_ADDR m j).p_memsz.toNat / sizeofDyn + 1 := by
    rw [Nat.lt_succ_iff, Nat.le_div_iff_mul_le (by decide), Nat.mul_comm]
    exact hinside
  have hheader := search_hit (fun p : Elf_Phdr => decide (p.p_type = PT_DYNAMIC))
    (programHeader IMAGE_ADDR m) (ehdrAt m IMAGE_ADDR).e_phnum.toNat j before.phdr hwithin
    (by omega) (by simpa [FirstAt] using h.header)
  have hentry := search_hit (fun d : Elf_Dyn => decide (d.d_tag = DT_PLTGOT))
    (dynamicEntry IMAGE_ADDR m j) _ k before.dyn hbound h.int (by simpa [FirstAt] using h.entry)
  rw [get_linkmap_eq, hheader]
  simp only [Option.bind_some, if_pos hwithin]
  unfold dynamicEntry at hentry ⊢
  rw [hentry]
  simp only [Option.bind_some, if_pos hbound]

/-- A search that is left below its bound was left at the first hit. -/
theorem firstAt_of_search {α : Type*} (hit : α → Bool) (entry : ℕ → α) (bound n : ℕ) (last x : α)
    (h : Loops.searchFrom bound entry (fun i => hit (entry i)) (2 ^ 31) 0 last = some (n, x))
    (hn : n < bound) :
    n < 2 ^ 31 ∧ FirstAt (fun a => hit a = true) entry n ∧ x = entry n := by
  rcases searchFrom_some bound entry _ (2 ^ 31) 0 n last x (by omega) h with hbound | hfound
  · omega
  · obtain ⟨k, hk, hfirst⟩ := exists_firstAt (fun a => hit a = true) entry n hfound.2.2
    rw [search_hit hit entry bound k last (by omega) (by omega) hfirst] at h
    obtain ⟨rfl, rfl⟩ := Prod.mk.inj (Option.some.inj h)
    exact ⟨by omega, hfirst, rfl⟩

/-- With zeros in the variables get_linkmap is silent only if both searches succeed. -/
theorem linked_of_silent (phdr : Elf_Phdr) (dyn : Elf_Dyn) (addr : Addr)
    (h : get_linkmap calls IMAGE_ADDR m ⟨0, 0, phdr, dyn⟩ = some ⟨[], addr⟩) :
    ∃ j k, Linked IMAGE_ADDR m j k := by
  rw [get_linkmap_eq] at h
  obtain ⟨⟨j, found⟩, hheaders, hrest⟩ := Option.bind_eq_some_iff.1 h
  obtain ⟨⟨k, entry⟩, hentries, hfinish⟩ := Option.bind_eq_some_iff.1 hrest
  have hmessages := congrArg Outcome.messages (Option.some.inj hfinish)
  simp only [finish, List.append_eq_nil_iff, ite_eq_right_iff, reduceCtorEq, imp_false] at hmessages
  obtain ⟨hdyn_addr, hgotplt⟩ := hmessages
  have hwithin : j < (ehdrAt m IMAGE_ADDR).e_phnum.toNat := by
    by_contra hout
    simp [hout] at hdyn_addr
  have hinside : k < found.p_memsz.toNat / sizeofDyn + 1 := by
    by_contra hout
    simp [hout] at hgotplt
  obtain ⟨_, hfirst, rfl⟩ := firstAt_of_search (fun p : Elf_Phdr => decide (p.p_type = PT_DYNAMIC))
    (programHeader IMAGE_ADDR m) _ j phdr found hheaders hwithin
  simp only [if_pos hwithin] at hentries hdyn_addr
  obtain ⟨hint, hfirst', rfl⟩ := firstAt_of_search (fun d : Elf_Dyn => decide (d.d_tag = DT_PLTGOT))
    (dynamicEntry IMAGE_ADDR m j) _ k dyn entry hentries hinside
  simp only [if_pos hinside] at hgotplt
  refine ⟨j, k, ?_, hwithin, Ne.symm hdyn_addr, ?_, ?_, hint, Ne.symm hgotplt⟩
  · simpa [FirstAt] using hfirst
  · simpa [FirstAt] using hfirst'
  · rw [Nat.lt_succ_iff, Nat.le_div_iff_mul_le (by decide), Nat.mul_comm] at hinside
    exact hinside

/-- get_linkmap is silent and gives an address, whatever was in its variables, if and only
if both searches find what they look for where they look; then it is the second word of
the table that the section names. -/
theorem get_linkmap_iff (addr : Addr) :
    (∀ before, get_linkmap calls IMAGE_ADDR m before = some ⟨[], addr⟩) ↔
      ∃ j k, Linked IMAGE_ADDR m j k ∧
        addr = number 64 (bytesFrom m ((dynamicEntry IMAGE_ADDR m j k).d_un + 8) 8) 0 8 := by
  have hsilent : ∀ before j k, Linked IMAGE_ADDR m j k →
      get_linkmap calls IMAGE_ADDR m before =
        some ⟨[], number 64 (bytesFrom m ((dynamicEntry IMAGE_ADDR m j k).d_un + 8) 8) 0 8⟩ := by
    intro before j k hlinked
    rw [get_linkmap_linked calls IMAGE_ADDR m before j k hlinked]
    unfold finish
    rw [if_neg (Ne.symm hlinked.vaddr), if_neg (Ne.symm hlinked.gotplt)]
    rfl
  constructor
  · intro h
    let zeros : Before := ⟨0, 0, ⟨0, 0, 0⟩, ⟨0, 0⟩⟩
    obtain ⟨j, k, hlinked⟩ := linked_of_silent calls IMAGE_ADDR m _ _ addr (h zeros)
    have hboth := (h zeros).symm.trans (hsilent zeros j k hlinked)
    exact ⟨j, k, hlinked, congrArg Outcome.lmap_addr (Option.some.inj hboth)⟩
  · intro h before
    obtain ⟨j, k, hlinked, rfl⟩ := h
    exact hsilent before j k hlinked

end JvmTrace.TraceLinkMap
