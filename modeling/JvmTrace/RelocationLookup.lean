import JvmTrace.LibrarySearch

/-!
find_sym_in_rel of src/tt.cpp: the PLT relocations are searched for one whose
symbol has the name. Its tables come from get_dyn_info, which walks the section at
the global dyn_addr. Nothing assigns that global: get_linkmap, which finds the
section, has a local of the same name, so the walk starts at address 0 whatever the
target is. The lookup is right for a target whose section lies there, and it ends
in a division by zero where address 0 holds zeros.
-/
namespace JvmTrace.RelocationLookup

open Ptrace Elf Loops LinkMap DynamicSection RemoteStrings SymbolLookup LibrarySearch

/-- What malloc delivers during the search: the relocation, and the buffer of each round. -/
structure RelHeap where
  rel : Elf32_Rel
  str : ℕ → ℕ → Byte

/-- The relocation that a round of the loop reads. -/
def readRelocation (m : Memory) (g : Globals) (i : ℕ) : Elf32_Rel :=
  readRel m (g.jmprel + BitVec.ofNat 32 (i * 8))

/-- Whether the round ends in the break. -/
def relBreaks (heap : RelHeap) (m : Memory) (sym_name : SymName) (g : Globals) (i : ℕ) : Bool :=
  let rel := readRelocation m g i
  if ELF32_R_SYM rel.r_info = 0 then false
  else
    let sym := readSym m (g.symtab + ELF32_R_SYM rel.r_info * 16)
    let str := ptrace_readstr m (g.strtab + sym.st_name) (heap.str i)
    decide (strcmp str sym_name = 0)

/-- The index is compared with nrels as an unsigned number. -/
def find_sym_in_rel (heap : RelHeap) (m : Memory) (sym_name : SymName) (g : Globals) :
    Option (Word × Globals) := do
  let g ← get_dyn_info m g
  let (i, rel) ← searchFrom g.nrels.toNat (readRelocation m g) (relBreaks heap m sym_name g)
    addressSpace 0 heap.rel
  let ret := if i = g.nrels.toNat then 0 else rel.r_offset
  return (ret, g)

/-- The PLT relocations of a target. -/
def relocation (m : Memory) (jmprel : Word) (i : ℕ) : Elf32_Rel := relAt m (entryAddr jmprel 8 i)

/-- The symbol of a relocation. -/
def symbolOf (m : Memory) (symtab : Word) (rel : Elf32_Rel) : Elf32_Sym :=
  symbolEntry m symtab (ELF32_R_SYM rel.r_info).toNat

/-- The relocation is one for the name. -/
def RelMatches (m : Memory) (jmprel symtab strtab : Word) (sym_name : SymName) (i : ℕ) : Prop :=
  ELF32_R_SYM (relocation m jmprel i).r_info ≠ 0 ∧
    HoldsName m (strtab + (symbolOf m symtab (relocation m jmprel i)).st_name) sym_name

/-- The offset of the first relocation for the name, or 0. -/
def RelAnswer (m : Memory) (jmprel symtab strtab : Word) (count : ℕ) (sym_name : SymName)
    (ret : Word) : Prop :=
  (∃ i < count, FirstAt (RelMatches m jmprel symtab strtab sym_name) id i ∧
    ret = (relocation m jmprel i).r_offset) ∨
  ((∀ i < count, ¬ RelMatches m jmprel symtab strtab sym_name i) ∧ ret = 0)

theorem readRelocation_eq (m : Memory) (g : Globals) (i : ℕ) :
    readRelocation m g i = relocation m g.jmprel i := by
  unfold readRelocation relocation
  rw [readRel_eq, Nat.mul_comm]
  rfl

theorem readSym_symbolOf (m : Memory) (symtab : Word) (rel : Elf32_Rel) :
    readSym m (symtab + ELF32_R_SYM rel.r_info * 16) = symbolOf m symtab rel := by
  have haddr : ELF32_R_SYM rel.r_info * 16 =
      BitVec.ofNat 32 (16 * (ELF32_R_SYM rel.r_info).toNat) := by
    apply BitVec.eq_of_toNat_eq
    rw [BitVec.toNat_mul, BitVec.toNat_ofNat, Nat.mul_comm]
    rfl
  unfold symbolOf symbolEntry entryAddr
  rw [readSym_eq, haddr]

theorem relBreaks_iff (heap : RelHeap) (m : Memory) (sym_name : SymName) (g : Globals)
    (hlen : sym_name.bytes.length ≤ 63) (i : ℕ) :
    relBreaks heap m sym_name g i = true ↔
      RelMatches m g.jmprel g.symtab g.strtab sym_name i := by
  unfold relBreaks RelMatches
  rw [readRelocation_eq]
  by_cases hsym : ELF32_R_SYM (relocation m g.jmprel i).r_info = 0
  · rw [if_pos hsym]
    simp [hsym]
  · rw [if_neg hsym, decide_eq_true_iff, readSym_symbolOf, strcmp_readstr m _ _ sym_name hlen]
    exact ⟨fun hname => ⟨hsym, hname⟩, fun h => h.2⟩

theorem rel_search_answer (heap : RelHeap) (m : Memory) (sym_name : SymName) (g : Globals)
    (hlen : sym_name.bytes.length ≤ 63) :
    ∃ i rel, searchFrom g.nrels.toNat (readRelocation m g) (relBreaks heap m sym_name g)
        addressSpace 0 heap.rel = some (i, rel) ∧
      RelAnswer m g.jmprel g.symtab g.strtab g.nrels.toNat sym_name
        (if i = g.nrels.toNat then 0 else rel.r_offset) := by
  rcases searchFrom_cases g.nrels.toNat (readRelocation m g) (relBreaks heap m sym_name g) _
    (relBreaks_iff heap m sym_name g hlen) addressSpace heap.rel g.nrels.isLt with
    ⟨i, hi, hfirst, hsearch⟩ | ⟨hmiss, rel, hsearch⟩
  · refine ⟨i, _, hsearch, Or.inl ⟨i, hi, hfirst, ?_⟩⟩
    rw [if_neg (by omega), readRelocation_eq]
  · refine ⟨g.nrels.toNat, rel, hsearch, Or.inr ⟨hmiss, ?_⟩⟩
    rw [if_pos rfl]

/-- The globals after earlier searches of any kind, in a target that may have changed
in between. -/
inductive Earlier : Globals → Prop
  | start : Earlier Globals.start
  | find_symbol (heap : SearchHeap) (m : Memory) (map : link_map) (sym_name : SymName)
      (g g' : Globals) (ret : Word) :
      Earlier g → find_symbol heap m map sym_name g = some (ret, g') → Earlier g'
  | find_sym_in_rel (heap : RelHeap) (m : Memory) (sym_name : SymName) (g g' : Globals)
      (ret : Word) : Earlier g → find_sym_in_rel heap m sym_name g = some (ret, g') → Earlier g'

theorem find_sym_in_rel_dyn_addr (heap : RelHeap) (m : Memory) (sym_name : SymName)
    (g g' : Globals) (ret : Word) (h : find_sym_in_rel heap m sym_name g = some (ret, g')) :
    g'.dyn_addr = g.dyn_addr := by
  obtain ⟨g₁, hinfo, hsearch⟩ := Option.bind_eq_some_iff.1 h
  obtain ⟨s, _, hret⟩ := Option.bind_eq_some_iff.1 hsearch
  obtain rfl : g₁ = g' := congrArg Prod.snd (Option.some.inj hret)
  exact get_dyn_info_dyn_addr m g g₁ hinfo

/-- The global dyn_addr is 0 at any time. -/
theorem earlier_dyn_addr (g : Globals) (h : Earlier g) : g.dyn_addr = 0 := by
  induction h with
  | start => rfl
  | find_symbol heap m map sym_name g g' ret _ hfind ih =>
    rw [find_symbol_dyn_addr heap m map sym_name g g' ret hfind, ih]
  | find_sym_in_rel heap m sym_name g g' ret _ hfind ih =>
    rw [find_sym_in_rel_dyn_addr heap m sym_name g g' ret hfind, ih]

/-- A target whose image has PT_DYNAMIC and, in the section it names, the entries that
both searches need. Of several entries with one tag the last one counts. -/
structure Target (m : Memory) where
  header : ℕ
  header_lt : header < (ehdrAt m IMAGE_ADDR).e_phnum.toNat
  header_first : FirstAt (fun p => p.p_type = PT_DYNAMIC) (programHeader m) header
  entries : ℕ
  ends : EndsAt m (programHeader m header).p_vaddr entries
  pltgot : ∃ i < entries, (dynamicEntry m (programHeader m header).p_vaddr i).d_tag = DT_PLTGOT
  symtab : Word
  symtab_eq : tagValue m (programHeader m header).p_vaddr entries DT_SYMTAB = some symtab
  strtab : Word
  strtab_eq : tagValue m (programHeader m header).p_vaddr entries DT_STRTAB = some strtab
  jmprel : Word
  jmprel_eq : tagValue m (programHeader m header).p_vaddr entries DT_JMPREL = some jmprel
  pltrelsz : Word
  pltrelsz_eq : tagValue m (programHeader m header).p_vaddr entries DT_PLTRELSZ = some pltrelsz
  relent_eq : tagValue m (programHeader m header).p_vaddr entries DT_RELENT = some 8

/-- The address of the dynamic section. -/
def Target.base {m : Memory} (t : Target m) : Word := (programHeader m t.header).p_vaddr

/-- get_linkmap and then find_sym_in_rel return, the latter with the offset of the first
relocation for the name. -/
def RelocationFound (heap : RelHeap) (m : Memory) (t : Target m) (sym_name : SymName)
    (g : Globals) : Prop :=
  ∃ map ret g', get_linkmap m = some map ∧
    find_sym_in_rel heap m sym_name g = some (ret, g') ∧
    RelAnswer m t.jmprel t.symtab t.strtab (t.pltrelsz.toNat / 8) sym_name ret

theorem Target.get_linkmap_some {m : Memory} (t : Target m) : ∃ map, get_linkmap m = some map := by
  obtain ⟨i, _, htag⟩ := t.pltgot
  obtain ⟨k, _, hk⟩ := exists_firstAt (fun d : Elf32_Dyn => d.d_tag = DT_PLTGOT) _ i htag
  exact ⟨_, get_linkmap_eq m t.header k t.header_first hk⟩

theorem rel_lookup_of_search (heap : RelHeap) (m : Memory) (sym_name : SymName) (g g' : Globals)
    (i : ℕ) (rel : Elf32_Rel) (hinfo : get_dyn_info m g = some g')
    (hsearch : searchFrom g'.nrels.toNat (readRelocation m g') (relBreaks heap m sym_name g')
      addressSpace 0 heap.rel = some (i, rel)) :
    find_sym_in_rel heap m sym_name g =
      some (if i = g'.nrels.toNat then 0 else rel.r_offset, g') := by
  unfold find_sym_in_rel
  rw [hinfo, Option.bind_eq_bind, Option.bind_some, hsearch]
  rfl

/-- A section at address 0 with relocations of 8 bytes is the one that is walked. -/
theorem relocationFound_of_base (heap : RelHeap) (m : Memory) (t : Target m)
    (sym_name : SymName) (g : Globals) (hg : g.dyn_addr = 0)
    (hlen : sym_name.bytes.length ≤ 63) (hbase : t.base = 0)
    (hsize : entSize m t.base t.entries = some 8) : RelocationFound heap m t sym_name g := by
  obtain ⟨map, hmap⟩ := t.get_linkmap_some
  have hends : EndsAt m g.dyn_addr t.entries := by
    rw [hg, ← hbase]
    exact t.ends
  have hinfo := get_dyn_info_eq m g t.entries hends
  rw [hg, ← hbase] at hinfo
  have hrelsize : (dynInfo m t.base g t.entries).relsize = 8 := by
    simp [dynInfo, hsize]
  rw [divide_ne_zero _ (by rw [hrelsize]; decide)] at hinfo
  obtain ⟨i, rel, hsearch, hanswer⟩ := rel_search_answer heap m sym_name
    { dynInfo m t.base g t.entries with
      nrels := (dynInfo m t.base g t.entries).totalrelsize /
        (dynInfo m t.base g t.entries).relsize } hlen
  refine ⟨map, _, _, hmap, rel_lookup_of_search heap m sym_name g _ i rel hinfo hsearch, ?_⟩
  have hjmprel : (dynInfo m t.base g t.entries).jmprel = t.jmprel := by
    simp [dynInfo, Target.base, t.jmprel_eq]
  have hsymtab : (dynInfo m t.base g t.entries).symtab = t.symtab := by
    simp [dynInfo, Target.base, t.symtab_eq]
  have hstrtab : (dynInfo m t.base g t.entries).strtab = t.strtab := by
    simp [dynInfo, Target.base, t.strtab_eq]
  have hcount : ((dynInfo m t.base g t.entries).totalrelsize /
      (dynInfo m t.base g t.entries).relsize).toNat = t.pltrelsz.toNat / 8 := by
    rw [hrelsize]
    simp [dynInfo, Target.base, t.pltrelsz_eq]
  simp only [hjmprel, hsymtab, hstrtab, hcount] at hanswer
  simpa only [hcount] using hanswer

/-- Where address 0 holds a zero word the walk ends at once, and the division ends the
process unless an earlier search has set relsize. -/
theorem find_sym_in_rel_null (heap : RelHeap) (m : Memory) (sym_name : SymName) (g : Globals)
    (hg : g.dyn_addr = 0) (hnull : peektext m 0 = 0) (hrelsize : g.relsize = 0) :
    find_sym_in_rel heap m sym_name g = none := by
  have hends : EndsAt m g.dyn_addr 0 := by
    refine ⟨?_, fun i hi => absurd hi (by omega)⟩
    unfold dynamicEntry
    rw [entryAddr_zero, hg]
    exact hnull
  have hzero : (dynInfo m g.dyn_addr g 0).relsize = 0 := hrelsize
  unfold find_sym_in_rel
  rw [get_dyn_info_eq m g 0 hends, divide_zero _ hzero]
  rfl

/-- The lookup after get_linkmap finds the relocation when the section is at address 0
and its last entry size is that of a relocation; from a fresh start on a target with a
zero word at address 0, it never does. -/
theorem relocationFound_when_at_zero (heap : RelHeap) (m : Memory) (t : Target m)
    (sym_name : SymName) (g : Globals) (hg : Earlier g) (hlen : sym_name.bytes.length ≤ 63) :
    (t.base = 0 ∧ entSize m t.base t.entries = some 8 → RelocationFound heap m t sym_name g) ∧
      (peektext m 0 = 0 ∧ g.relsize = 0 → ¬ RelocationFound heap m t sym_name g) := by
  have haddr := earlier_dyn_addr g hg
  constructor
  · intro h
    obtain ⟨hbase, hsize⟩ := h
    exact relocationFound_of_base heap m t sym_name g haddr hlen hbase hsize
  · rintro ⟨hnull, hrelsize⟩ ⟨map, ret, g', _, hfind, _⟩
    rw [find_sym_in_rel_null heap m sym_name g haddr hnull hrelsize] at hfind
    simp at hfind

/-- An image with one PLT relocation, for the symbol a, and its section at the address. -/
def image (base : Word) : Memory := ofWords
  [(0x0804801c, 52), (0x0804802c, 1), (0x08048034, PT_DYNAMIC), (0x0804803c, base),
    (base, DT_PLTGOT), (base + 4, 0x0804a000), (base + 8, DT_SYMTAB), (base + 12, 0x3000),
    (base + 16, DT_STRTAB), (base + 20, 0x4000), (base + 24, DT_JMPREL), (base + 28, 0x6000),
    (base + 32, DT_PLTRELSZ), (base + 36, 8), (base + 40, DT_RELENT), (base + 44, 8),
    (0x3010, 1), (0x4000, 0x6100), (0x6000, 0x0804a00c), (0x6004, 0x107)]

def zeroRelHeap : RelHeap := ⟨⟨0, 0⟩, fun _ _ => 0⟩

/-- The image with its section at address 0. -/
def imageAtZero : Target (image 0) where
  header := 0
  header_lt := by decide
  header_first := ⟨by decide, fun i hi => absurd hi (by omega)⟩
  entries := 6
  ends := ⟨by decide, fun i hi => by interval_cases i <;> decide⟩
  pltgot := ⟨0, by omega, by decide⟩
  symtab := 0x3000
  symtab_eq := by decide
  strtab := 0x4000
  strtab_eq := by decide
  jmprel := 0x6000
  jmprel_eq := by decide
  pltrelsz := 8
  pltrelsz_eq := by decide
  relent_eq := by decide

theorem relocationFound_imageAtZero :
    Earlier Globals.start ∧
      RelocationFound zeroRelHeap (image 0) imageAtZero nameA Globals.start :=
  ⟨Earlier.start, (relocationFound_when_at_zero zeroRelHeap (image 0) imageAtZero nameA
    Globals.start Earlier.start (by decide)).1 ⟨by decide, by decide⟩⟩

/-- The image with its section where a linker puts it. -/
def imageLinked : Target (image 0x08049000) where
  header := 0
  header_lt := by decide
  header_first := ⟨by decide, fun i hi => absurd hi (by omega)⟩
  entries := 6
  ends := ⟨by decide, fun i hi => by interval_cases i <;> decide⟩
  pltgot := ⟨0, by omega, by decide⟩
  symtab := 0x3000
  symtab_eq := by decide
  strtab := 0x4000
  strtab_eq := by decide
  jmprel := 0x6000
  jmprel_eq := by decide
  pltrelsz := 8
  pltrelsz_eq := by decide
  relent_eq := by decide

theorem relocation_missed_imageLinked :
    RelMatches (image 0x08049000) 0x6000 0x3000 0x4000 nameA 0 ∧
      find_sym_in_rel zeroRelHeap (image 0x08049000) nameA Globals.start = none ∧
      ¬ RelocationFound zeroRelHeap (image 0x08049000) imageLinked nameA Globals.start := by
  have hnone := find_sym_in_rel_null zeroRelHeap (image 0x08049000) nameA Globals.start rfl
    (by decide) rfl
  refine ⟨⟨by decide, by decide⟩, hnone, ?_⟩
  intro h
  obtain ⟨map, ret, g', _, hfind, _⟩ := h
  rw [hnone] at hfind
  simp at hfind

end JvmTrace.RelocationLookup
