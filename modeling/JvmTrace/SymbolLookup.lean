import JvmTrace.DynamicSection
import JvmTrace.RemoteStrings

/-!
find_symbol_in_linkmap of src/tt.cpp. The symbols of a library are searched in
order for one with a name, a size and a value whose name is the one looked for.
The number of symbols and the addresses of the two tables are read from globals
that get_sym_info has set from the section of the library, or not: a library
without one of the tags is searched with what the library before it left behind.
The first part is about libraries that have all the tags, the second about two
lookups that start from different globals.
-/
namespace JvmTrace.SymbolLookup

open Ptrace Elf Loops LinkMap DynamicSection RemoteStrings

/-- What malloc delivers during a lookup: the symbol, and the buffer of each round. -/
structure Heap where
  sym : Elf32_Sym
  str : ℕ → ℕ → Byte

/-- The symbol that a round of the loop reads. -/
def readEntry (m : Memory) (g : Globals) (i : ℕ) : Elf32_Sym :=
  readSym m (g.symtab + BitVec.ofNat 32 (i * 16))

/-- Whether the round ends in the break. -/
def breaks (heap : Heap) (m : Memory) (sym_name : SymName) (g : Globals) (i : ℕ) : Bool :=
  let sym := readEntry m g i
  if sym.st_name = 0 ∨ sym.st_size = 0 ∨ sym.st_value = 0 then false
  else
    let str := ptrace_readstr m (g.strtab + sym.st_name) (heap.str i)
    decide (strcmp str sym_name = 0)

def find_symbol_in_linkmap (heap : Heap) (m : Memory) (lm : link_map) (sym_name : SymName)
    (g : Globals) : Option (Word × Globals) := do
  let g ← get_sym_info m lm g
  let (i, sym) ← searchFrom g.nchains.toInt (readEntry m g) (breaks heap m sym_name g)
    addressSpace 0 heap.sym
  let ret := if (i : ℤ) = g.nchains.toInt then 0 else lm.l_addr + sym.st_value
  return (ret, g)

/-- The symbol has a name, a size and a value. -/
def Defined (sym : Elf32_Sym) : Prop := sym.st_name ≠ 0 ∧ sym.st_size ≠ 0 ∧ sym.st_value ≠ 0

/-- The entries of a symbol table. -/
def symbolEntry (m : Memory) (symtab : Word) (i : ℕ) : Elf32_Sym :=
  symAt m (entryAddr symtab 16 i)

/-- The symbol is one to be found under the name. -/
def Matches (m : Memory) (symtab strtab : Word) (sym_name : SymName) (i : ℕ) : Prop :=
  Defined (symbolEntry m symtab i) ∧
    HoldsName m (strtab + (symbolEntry m symtab i).st_name) sym_name

theorem readEntry_eq (m : Memory) (g : Globals) (i : ℕ) :
    readEntry m g i = symbolEntry m g.symtab i := by
  unfold readEntry symbolEntry
  rw [readSym_eq, Nat.mul_comm]
  rfl

theorem not_defined (sym : Elf32_Sym) :
    (sym.st_name = 0 ∨ sym.st_size = 0 ∨ sym.st_value = 0) ↔ ¬ Defined sym := by
  unfold Defined
  tauto

theorem breaks_iff (heap : Heap) (m : Memory) (sym_name : SymName) (g : Globals)
    (hlen : sym_name.bytes.length ≤ 63) (i : ℕ) :
    breaks heap m sym_name g i = true ↔ Matches m g.symtab g.strtab sym_name i := by
  unfold breaks Matches
  rw [readEntry_eq]
  by_cases hdef : Defined (symbolEntry m g.symtab i)
  · rw [if_neg fun hzero => (not_defined _).1 hzero hdef, decide_eq_true_iff,
      strcmp_readstr m _ _ sym_name hlen]
    exact ⟨fun hname => ⟨hdef, hname⟩, fun h => h.2⟩
  · rw [if_pos ((not_defined _).2 hdef)]
    simp [hdef]

theorem nchains_lt (g : Globals) : g.nchains.toInt < addressSpace := by
  have h := BitVec.toInt_lt (x := g.nchains)
  unfold addressSpace
  norm_num at h ⊢
  omega

/-- The address of the lowest-indexed symbol of that name, or 0. -/
def Answer (m : Memory) (lm : link_map) (symtab strtab : Word) (nchain : ℕ) (sym_name : SymName)
    (ret : Word) : Prop :=
  (∃ i < nchain, FirstAt (Matches m symtab strtab sym_name) id i ∧
    ret = lm.l_addr + (symbolEntry m symtab i).st_value) ∨
  ((∀ i < nchain, ¬ Matches m symtab strtab sym_name i) ∧ ret = 0)

/-- The loop over tables that are known, with what it returns. -/
theorem search_answer (heap : Heap) (m : Memory) (lm : link_map) (sym_name : SymName) (g : Globals)
    (hlen : sym_name.bytes.length ≤ 63) (hchains : g.nchains.toNat < 2 ^ 31) :
    ∃ i sym, searchFrom g.nchains.toInt (readEntry m g) (breaks heap m sym_name g)
        addressSpace 0 heap.sym = some (i, sym) ∧
      Answer m lm g.symtab g.strtab g.nchains.toNat sym_name
        (if (i : ℤ) = g.nchains.toInt then 0 else lm.l_addr + sym.st_value) := by
  have hint : g.nchains.toInt = (g.nchains.toNat : ℤ) :=
    BitVec.toInt_eq_toNat_of_lt (by omega)
  rw [hint]
  rcases searchFrom_cases g.nchains.toNat (readEntry m g) (breaks heap m sym_name g) _
    (breaks_iff heap m sym_name g hlen) addressSpace heap.sym g.nchains.isLt with
    ⟨i, hi, hfirst, hsearch⟩ | ⟨hmiss, sym, hsearch⟩
  · refine ⟨i, _, hsearch, Or.inl ⟨i, hi, hfirst, ?_⟩⟩
    rw [if_neg (by omega), readEntry_eq]
  · refine ⟨g.nchains.toNat, sym, hsearch, Or.inr ⟨hmiss, ?_⟩⟩
    rw [if_pos rfl]

/-- A last size of zero ends the process before the search begins. -/
theorem lookup_entSize_zero (heap : Heap) (m : Memory) (lm : link_map) (sym_name : SymName)
    (g : Globals) (n : ℕ) (hend : EndsAt m lm.l_ld n) (hzero : entSize m lm.l_ld n = some 0) :
    find_symbol_in_linkmap heap m lm sym_name g = none := by
  have hrel : (symInfo m lm.l_ld g n).relsize = 0 := by
    simp [symInfo, dynInfo, hzero]
  unfold find_symbol_in_linkmap
  rw [get_sym_info_eq m lm g n hend, divide_zero _ hrel]
  rfl

/-- The globals that the search starts from. -/
def searchGlobals (m : Memory) (lm : link_map) (g : Globals) (n : ℕ) : Globals :=
  { symInfo m lm.l_ld g n with
    nrels := (symInfo m lm.l_ld g n).totalrelsize / (symInfo m lm.l_ld g n).relsize }

theorem get_sym_info_some (m : Memory) (lm : link_map) (g : Globals) (n : ℕ)
    (hend : EndsAt m lm.l_ld n) (hne : (entSize m lm.l_ld n).getD g.relsize ≠ 0) :
    get_sym_info m lm g = some (searchGlobals m lm g n) := by
  rw [get_sym_info_eq m lm g n hend, divide_ne_zero _ hne]
  rfl

theorem lookup_of_search (heap : Heap) (m : Memory) (lm : link_map) (sym_name : SymName)
    (g g' : Globals) (nchain : Word) (i : ℕ) (sym : Elf32_Sym)
    (hinfo : get_sym_info m lm g = some g') (hchain : g'.nchains = nchain)
    (hsearch : searchFrom nchain.toInt (readEntry m g') (breaks heap m sym_name g')
      addressSpace 0 heap.sym = some (i, sym)) :
    find_symbol_in_linkmap heap m lm sym_name g =
      some (if (i : ℤ) = nchain.toInt then 0 else lm.l_addr + sym.st_value, g') := by
  subst hchain
  unfold find_symbol_in_linkmap
  rw [hinfo, Option.bind_eq_bind, Option.bind_some, hsearch]
  rfl

/-- A lookup returns when its section ends and leaves a size to divide by. -/
theorem lookup_returns (heap : Heap) (m : Memory) (lm : link_map) (sym_name : SymName)
    (g : Globals) (n : ℕ) (hend : EndsAt m lm.l_ld n)
    (hne : (entSize m lm.l_ld n).getD g.relsize ≠ 0) :
    ∃ answer, find_symbol_in_linkmap heap m lm sym_name g = some answer := by
  have hinfo := get_sym_info_some m lm g n hend hne
  have hlt := nchains_lt (searchGlobals m lm g n)
  obtain ⟨⟨i, sym⟩, hsearch⟩ := searchFrom_returns (searchGlobals m lm g n).nchains.toInt
    (readEntry m (searchGlobals m lm g n)) (breaks heap m sym_name (searchGlobals m lm g n))
    addressSpace 0 heap.sym (by unfold addressSpace; omega) (by omega)
  exact ⟨_, lookup_of_search heap m lm sym_name g _ _ i sym hinfo rfl hsearch⟩

/-- It returns only then, and passes the size on. -/
theorem lookup_ends (heap : Heap) (m : Memory) (lm : link_map) (sym_name : SymName)
    (g g' : Globals) (ret : Word)
    (h : find_symbol_in_linkmap heap m lm sym_name g = some (ret, g')) :
    ∃ n, EndsAt m lm.l_ld n ∧ (entSize m lm.l_ld n).getD g.relsize ≠ 0 ∧
      g'.relsize = (entSize m lm.l_ld n).getD g.relsize := by
  obtain ⟨g₁, hinfo, hsearch⟩ := Option.bind_eq_some_iff.1 h
  obtain ⟨s, _, hret⟩ := Option.bind_eq_some_iff.1 hsearch
  obtain rfl : g₁ = g' := congrArg Prod.snd (Option.some.inj hret)
  obtain ⟨n, hend⟩ := get_sym_info_ends m lm g g₁ hinfo
  have hne : (entSize m lm.l_ld n).getD g.relsize ≠ 0 := by
    intro hzero
    rw [get_sym_info_eq m lm g n hend, divide_zero _ hzero] at hinfo
    cases hinfo
  rw [get_sym_info_some m lm g n hend hne] at hinfo
  obtain rfl := Option.some.inj hinfo
  exact ⟨n, hend, hne, rfl⟩

theorem find_symbol_in_linkmap_dyn_addr (heap : Heap) (m : Memory) (lm : link_map)
    (sym_name : SymName) (g g' : Globals) (ret : Word)
    (h : find_symbol_in_linkmap heap m lm sym_name g = some (ret, g')) :
    g'.dyn_addr = g.dyn_addr := by
  obtain ⟨g₁, hinfo, hsearch⟩ := Option.bind_eq_some_iff.1 h
  obtain ⟨s, _, hret⟩ := Option.bind_eq_some_iff.1 hsearch
  obtain rfl : g₁ = g' := congrArg Prod.snd (Option.some.inj hret)
  exact get_sym_info_dyn_addr m lm g g₁ hinfo

/-- In a library with all the tags, and a size of relocations that is not zero, the
address of the first symbol of that name is returned, or 0, if and only if the last
of the sizes is not zero. -/
theorem lookup_answers_iff (heap : Heap) (m : Memory) (lm : link_map)
    (sym_name : SymName) (g : Globals) (n : ℕ) (symtab strtab nchain : Word)
    (hend : EndsAt m lm.l_ld n) (hsymtab : tagValue m lm.l_ld n DT_SYMTAB = some symtab)
    (hstrtab : tagValue m lm.l_ld n DT_STRTAB = some strtab)
    (hhash : chainCount m lm.l_ld n = some nchain) (hchains : nchain.toNat < 2 ^ 31)
    (hrel : ∃ i < n, ((dynamicEntry m lm.l_ld i).d_tag = DT_RELENT ∨
      (dynamicEntry m lm.l_ld i).d_tag = DT_RELAENT) ∧ (dynamicEntry m lm.l_ld i).d_un ≠ 0)
    (hlen : sym_name.bytes.length ≤ 63) :
    (∃ ret g', find_symbol_in_linkmap heap m lm sym_name g = some (ret, g') ∧
      Answer m lm symtab strtab nchain.toNat sym_name ret) ↔ entSize m lm.l_ld n ≠ some 0 := by
  constructor
  · intro h hzero
    obtain ⟨ret, g', hfind, _⟩ := h
    rw [lookup_entSize_zero heap m lm sym_name g n hend hzero] at hfind
    simp at hfind
  · intro hne
    obtain ⟨i, hi, htag, _⟩ := hrel
    obtain ⟨d, hd, _⟩ := lastHit_isSome
      (fun d => decide (d.d_tag = DT_RELAENT ∨ d.d_tag = DT_RELENT))
      (dynamicEntry m lm.l_ld) n i hi (by simpa using htag.symm)
    have hsize : entSize m lm.l_ld n = some d.d_un := by
      unfold entSize
      rw [hd]
      rfl
    have hrelsize : (entSize m lm.l_ld n).getD g.relsize ≠ 0 := by
      rw [hsize]
      intro hzero
      exact hne (by rw [hsize]; exact congrArg some hzero)
    have hnchains : (searchGlobals m lm g n).nchains = nchain := by
      simp [searchGlobals, symInfo, hhash]
    have hsym : (searchGlobals m lm g n).symtab = symtab := by
      simp [searchGlobals, symInfo, dynInfo, hsymtab]
    have hstr : (searchGlobals m lm g n).strtab = strtab := by
      simp [searchGlobals, symInfo, dynInfo, hstrtab]
    obtain ⟨j, sym, hsearch, hanswer⟩ := search_answer heap m lm sym_name
      (searchGlobals m lm g n) hlen (by rw [hnchains]; exact hchains)
    have hinfo := get_sym_info_some m lm g n hend hrelsize
    rw [hnchains] at hsearch
    rw [hsym, hstr, hnchains] at hanswer
    exact ⟨_, _, lookup_of_search heap m lm sym_name g _ nchain j sym hinfo hnchains hsearch,
      hanswer⟩

/-- A library with two symbols, the second of which is called a, and a link_map of it. -/
def library : List (Word × Word) :=
  [(0x1004, 2), (0x2000, DT_HASH), (0x2004, 0x1000), (0x2008, DT_SYMTAB), (0x200c, 0x3000),
    (0x2010, DT_STRTAB), (0x2014, 0x4000), (0x2018, DT_RELENT), (0x201c, 8), (0x3010, 1),
    (0x3014, 0x500), (0x3018, 4), (0x4000, 0x6100), (0x5000, 0x20000), (0x5008, 0x2000)]

def nameA : SymName := ⟨[0x61], by decide⟩

def zeroHeap : Heap := ⟨⟨0, 0, 0⟩, fun _ _ => 0⟩

/-- A loaded library whose dynamic section is at the address. -/
def loaded (l_ld : Word) : link_map := ⟨0x10000, 0, l_ld, 0, 0⟩

/-- The second of two symbols is found in the tables of the library. -/
theorem lookup_nameA (lm : link_map) (g g' : Globals)
    (hinfo : get_sym_info (ofWords library) lm g = some g') (hchains : g'.nchains = 2)
    (hsymtab : g'.symtab = 0x3000) (hstrtab : g'.strtab = 0x4000) :
    find_symbol_in_linkmap zeroHeap (ofWords library) lm nameA g =
      some (lm.l_addr + 0x500, g') := by
  have hbreaks := breaks_iff zeroHeap (ofWords library) nameA g' (by decide)
  rw [hsymtab, hstrtab] at hbreaks
  have hfirst : FirstAt (fun i => breaks zeroHeap (ofWords library) nameA g' i = true) id 1 := by
    refine ⟨(hbreaks 1).2 ⟨⟨by decide, by decide, by decide⟩, by decide⟩, ?_⟩
    intro i hi hbreak
    obtain rfl : i = 0 := by omega
    exact ((hbreaks 0).1 hbreak).1.1 (by decide)
  have hsearch := searchFrom_hit (2 : Word).toInt (readEntry (ofWords library) g') _ 1
    (by decide) hfirst addressSpace 0 zeroHeap.sym (by omega) (by unfold addressSpace; omega)
  rw [lookup_of_search zeroHeap (ofWords library) lm nameA g g' 2 1 _ hinfo hchains hsearch,
    readEntry_eq, hsymtab]
  rfl

theorem library_endsAt : EndsAt (ofWords library) 0x2000 4 := by
  refine ⟨by decide, ?_⟩
  intro i hi
  interval_cases i <;> decide

theorem lookup_library :
    EndsAt (ofWords library) 0x2000 4 ∧
      ∃ ret g', find_symbol_in_linkmap zeroHeap (ofWords library) (loaded 0x2000) nameA
          Globals.start = some (ret, g') ∧
        Answer (ofWords library) (loaded 0x2000) 0x3000 0x4000 2 nameA ret := by
  have hrel : ∃ i < 4, ((dynamicEntry (ofWords library) 0x2000 i).d_tag = DT_RELENT ∨
      (dynamicEntry (ofWords library) 0x2000 i).d_tag = DT_RELAENT) ∧
        (dynamicEntry (ofWords library) 0x2000 i).d_un ≠ 0 := ⟨3, by omega, by decide⟩
  exact ⟨library_endsAt, (lookup_answers_iff zeroHeap (ofWords library)
    (loaded 0x2000) nameA Globals.start 4 0x3000 0x4000 2 library_endsAt (by decide) (by decide)
    (by decide) (by decide) hrel (by decide)).2 (by decide)⟩

/-- The same library with an empty size of relocations with addend after the other. -/
def zeroRelaent : Memory := ofWords ((0x2020, DT_RELAENT) :: library)

theorem lookup_zeroRelaent :
    EndsAt zeroRelaent 0x2000 5 ∧ tagValue zeroRelaent 0x2000 5 DT_SYMTAB = some 0x3000 ∧
      tagValue zeroRelaent 0x2000 5 DT_STRTAB = some 0x4000 ∧
      chainCount zeroRelaent 0x2000 5 = some 2 ∧
      tagValue zeroRelaent 0x2000 5 DT_RELENT = some 8 ∧ nameA.bytes.length ≤ 63 ∧
      Matches zeroRelaent 0x3000 0x4000 nameA 1 ∧
      find_symbol_in_linkmap zeroHeap zeroRelaent (loaded 0x2000) nameA Globals.start = none := by
  have hend : EndsAt zeroRelaent 0x2000 5 := by
    refine ⟨by decide, ?_⟩
    intro i hi
    interval_cases i <;> decide
  refine ⟨hend, by decide, by decide, by decide, by decide, by decide, ?_, ?_⟩
  · exact ⟨⟨by decide, by decide, by decide⟩, by decide⟩
  · exact lookup_entSize_zero zeroHeap zeroRelaent (loaded 0x2000) nameA Globals.start 5
      hend (by decide)

/-- Two lookups that differ only in what the globals hold before them both return, and
they return the same address. -/
def SameAddress (m : Memory) (lm : link_map) : Prop :=
  ∀ (heap : Heap) (sym_name : SymName) (g g' : Globals), g.relsize ≠ 0 → g'.relsize ≠ 0 →
    ∃ ret, (find_symbol_in_linkmap heap m lm sym_name g).map Prod.fst = some ret ∧
      (find_symbol_in_linkmap heap m lm sym_name g').map Prod.fst = some ret

/-- The section sets every global that the lookup reads: nchains in any case, symtab
when there is a symbol to look at, strtab when one of them is defined. -/
def SetsWhatIsRead (m : Memory) (base : Word) (n : ℕ) : Prop :=
  entSize m base n ≠ some 0 ∧
    ∃ nchain, chainCount m base n = some nchain ∧
      (0 < nchain.toInt → ∃ symtab, tagValue m base n DT_SYMTAB = some symtab ∧
        ((∃ i : ℕ, (i : ℤ) < nchain.toInt ∧ Defined (symbolEntry m symtab i)) →
          ∃ strtab, tagValue m base n DT_STRTAB = some strtab))

theorem searchGlobals_nchains (m : Memory) (lm : link_map) (g : Globals) (n : ℕ) :
    (searchGlobals m lm g n).nchains = (chainCount m lm.l_ld n).getD g.nchains := rfl

theorem searchGlobals_symtab (m : Memory) (lm : link_map) (g : Globals) (n : ℕ) :
    (searchGlobals m lm g n).symtab = (tagValue m lm.l_ld n DT_SYMTAB).getD g.symtab := rfl

theorem searchGlobals_strtab (m : Memory) (lm : link_map) (g : Globals) (n : ℕ) :
    (searchGlobals m lm g n).strtab = (tagValue m lm.l_ld n DT_STRTAB).getD g.strtab := rfl

theorem entSize_getD_ne_zero (m : Memory) (base : Word) (n : ℕ) (w : Word)
    (hne : entSize m base n ≠ some 0) (hw : w ≠ 0) : (entSize m base n).getD w ≠ 0 := by
  cases hsize : entSize m base n with
  | none => exact hw
  | some size =>
    intro hzero
    exact hne (hsize.trans (congrArg some hzero))

/-- Two searches that read the same globals find the same. -/
theorem breaks_congr (heap : Heap) (m : Memory) (sym_name : SymName) (g g' : Globals) (i : ℕ)
    (hsym : g.symtab = g'.symtab)
    (hstr : Defined (symbolEntry m g.symtab i) → g.strtab = g'.strtab) :
    breaks heap m sym_name g i = breaks heap m sym_name g' i := by
  unfold breaks
  rw [readEntry_eq, readEntry_eq, ← hsym]
  by_cases hdef : Defined (symbolEntry m g.symtab i)
  · rw [hstr hdef]
  · have hzero := (not_defined _).2 hdef
    rw [if_pos hzero, if_pos hzero]

/-- A round of the search reads the same after two histories. -/
theorem round_eq_of_sets (heap : Heap) (m : Memory) (lm : link_map) (sym_name : SymName) (n : ℕ)
    (nchain : Word)
    (htables : 0 < nchain.toInt → ∃ symtab, tagValue m lm.l_ld n DT_SYMTAB = some symtab ∧
      ((∃ i : ℕ, (i : ℤ) < nchain.toInt ∧ Defined (symbolEntry m symtab i)) →
        ∃ strtab, tagValue m lm.l_ld n DT_STRTAB = some strtab))
    (g g' : Globals) (i : ℕ) (hi : (i : ℤ) < nchain.toInt) :
    readEntry m (searchGlobals m lm g n) i = readEntry m (searchGlobals m lm g' n) i ∧
      breaks heap m sym_name (searchGlobals m lm g n) i =
        breaks heap m sym_name (searchGlobals m lm g' n) i := by
  obtain ⟨symtab, hsymtab, hnamed⟩ := htables (by omega)
  have hsym : (searchGlobals m lm g n).symtab = (searchGlobals m lm g' n).symtab := by
    rw [searchGlobals_symtab, searchGlobals_symtab, hsymtab]
    rfl
  refine ⟨by rw [readEntry_eq, readEntry_eq, hsym], breaks_congr heap m sym_name _ _ i hsym ?_⟩
  intro hdef
  rw [searchGlobals_symtab, hsymtab] at hdef
  obtain ⟨strtab, hstrtab⟩ := hnamed ⟨i, hi, hdef⟩
  rw [searchGlobals_strtab, searchGlobals_strtab, hstrtab]
  rfl

theorem sameAddress_of_sets (m : Memory) (lm : link_map) (n : ℕ) (hend : EndsAt m lm.l_ld n)
    (hsets : SetsWhatIsRead m lm.l_ld n) : SameAddress m lm := by
  obtain ⟨hne, nchain, hchain, htables⟩ := hsets
  intro heap sym_name g g' hg hg'
  have hinfo := get_sym_info_some m lm g n hend (entSize_getD_ne_zero m lm.l_ld n _ hne hg)
  have hinfo' := get_sym_info_some m lm g' n hend (entSize_getD_ne_zero m lm.l_ld n _ hne hg')
  have hbound : ∀ g, (searchGlobals m lm g n).nchains = nchain := by
    intro g
    rw [searchGlobals_nchains, hchain]
    rfl
  have hlt : nchain.toInt < addressSpace := by
    rw [← hbound g]
    exact nchains_lt _
  obtain ⟨⟨i, sym⟩, hsearch⟩ := searchFrom_returns nchain.toInt
    (readEntry m (searchGlobals m lm g n)) (breaks heap m sym_name (searchGlobals m lm g n))
    addressSpace 0 heap.sym (by unfold addressSpace; omega) (by omega)
  have hfind := lookup_of_search heap m lm sym_name g _ nchain i sym hinfo (hbound g) hsearch
  rw [searchFrom_congr nchain.toInt _ _ _ _
    (round_eq_of_sets heap m lm sym_name n nchain htables g g')] at hsearch
  have hfind' := lookup_of_search heap m lm sym_name g' _ nchain i sym hinfo' (hbound g') hsearch
  refine ⟨if (i : ℤ) = nchain.toInt then 0 else lm.l_addr + sym.st_value, ?_, ?_⟩
  · rw [hfind]
    rfl
  · rw [hfind']
    rfl

/-- With no symbols to look at, the symbol that malloc delivered is used. -/
theorem lookup_empty (heap : Heap) (m : Memory) (lm : link_map) (sym_name : SymName) (g : Globals)
    (n : ℕ) (nchain : Word) (hend : EndsAt m lm.l_ld n)
    (hne : (entSize m lm.l_ld n).getD g.relsize ≠ 0)
    (hchain : (chainCount m lm.l_ld n).getD g.nchains = nchain) (hempty : nchain.toInt ≤ 0) :
    find_symbol_in_linkmap heap m lm sym_name g =
      some (if nchain.toInt = 0 then 0 else lm.l_addr + heap.sym.st_value,
        searchGlobals m lm g n) := by
  have hinfo := get_sym_info_some m lm g n hend hne
  have hsearch := searchFrom_empty nchain.toInt (readEntry m (searchGlobals m lm g n))
    (breaks heap m sym_name (searchGlobals m lm g n)) addressSpace 0 heap.sym
    (by unfold addressSpace; omega) (by exact_mod_cast hempty)
  have hfind := lookup_of_search heap m lm sym_name g _ nchain 0 heap.sym hinfo hchain hsearch
  rw [hfind]
  simp [eq_comm]

theorem entSize_of_sameAddress (m : Memory) (lm : link_map) (n : ℕ) (hend : EndsAt m lm.l_ld n)
    (hsame : SameAddress m lm) : entSize m lm.l_ld n ≠ some 0 := by
  intro hzero
  let g : Globals := { Globals.start with relsize := 1 }
  have hg : g.relsize ≠ 0 := by decide
  obtain ⟨ret, hret, _⟩ := hsame ⟨⟨0, 0, 0⟩, fun _ _ => 0⟩ ⟨[], by simp⟩ g g hg hg
  rw [lookup_entSize_zero _ m lm _ g n hend hzero] at hret
  simp at hret

/-- Without DT_HASH no symbol name is looked up alike: 0 symbols give 0, and fewer give
whatever malloc delivers. -/
theorem hash_of_sameAddress (m : Memory) (lm : link_map) (n : ℕ) (hend : EndsAt m lm.l_ld n)
    (hsame : SameAddress m lm) : ∃ hash, tagValue m lm.l_ld n DT_HASH = some hash := by
  by_contra hnone
  have hchain : chainCount m lm.l_ld n = none := by
    unfold chainCount
    cases htag : tagValue m lm.l_ld n DT_HASH with
    | none => rfl
    | some hash => exact absurd ⟨hash, htag⟩ hnone
  have hne := entSize_of_sameAddress m lm n hend hsame
  let g : Globals := { Globals.start with relsize := 1 }
  let g' : Globals := { Globals.start with relsize := 1, nchains := -1 }
  have hg : g.relsize ≠ 0 := by decide
  have hg' : g'.relsize ≠ 0 := by decide
  let heap : Heap := ⟨⟨0, 1 - lm.l_addr, 0⟩, fun _ _ => 0⟩
  obtain ⟨ret, hret, hret'⟩ := hsame heap ⟨[], by simp⟩ g g' hg hg'
  rw [lookup_empty heap m lm _ g n 0 hend (entSize_getD_ne_zero m _ n _ hne hg)
    (by rw [hchain]; rfl) (by decide)] at hret
  rw [lookup_empty heap m lm _ g' n (-1) hend (entSize_getD_ne_zero m _ n _ hne hg')
    (by rw [hchain]; rfl) (by decide)] at hret'
  have hzero : ret = 0 := by simpa using hret.symm
  have hone : ret = 1 := by simpa [heap] using hret'.symm
  rw [hzero] at hone
  exact absurd hone (by decide)

/-- A section that sets what the lookup reads makes the address independent of earlier
lookups; one that does not name a hash table, or ends with a size of zero, does not. -/
theorem sameAddress_when_set (m : Memory) (lm : link_map) (n : ℕ) (hend : EndsAt m lm.l_ld n) :
    (SetsWhatIsRead m lm.l_ld n → SameAddress m lm) ∧
      (SameAddress m lm → entSize m lm.l_ld n ≠ some 0 ∧
        ∃ hash, tagValue m lm.l_ld n DT_HASH = some hash) :=
  ⟨sameAddress_of_sets m lm n hend, fun hsame =>
    ⟨entSize_of_sameAddress m lm n hend hsame, hash_of_sameAddress m lm n hend hsame⟩⟩

theorem sameAddress_library :
    EndsAt (ofWords library) 0x2000 4 ∧ SameAddress (ofWords library) (loaded 0x2000) := by
  refine ⟨library_endsAt,
    (sameAddress_when_set (ofWords library) (loaded 0x2000) 4 library_endsAt).1 ?_⟩
  exact ⟨by decide, 2, by decide, fun _ => ⟨0x3000, by decide, fun _ => ⟨0x4000, by decide⟩⟩⟩

/-- The section of the library without its DT_HASH entry. -/
theorem hashless_endsAt : EndsAt (ofWords library) 0x2008 3 := by
  refine ⟨by decide, ?_⟩
  intro i hi
  interval_cases i <;> decide

/-- The library without its DT_HASH entry, after a library of no symbols and after one
of two: the symbol a is missed the first time and found the second. -/
theorem hashless_library :
    EndsAt (ofWords library) 0x2008 3 ∧
      (find_symbol_in_linkmap zeroHeap (ofWords library) (loaded 0x2008) nameA
        { Globals.start with relsize := 8 }).map Prod.fst = some 0 ∧
      (find_symbol_in_linkmap zeroHeap (ofWords library) (loaded 0x2008) nameA
        { Globals.start with relsize := 8, nchains := 2 }).map Prod.fst = some 0x10500 := by
  refine ⟨hashless_endsAt, ?_, ?_⟩
  · rw [lookup_empty zeroHeap (ofWords library) (loaded 0x2008) nameA
      { Globals.start with relsize := 8 } 3 0 hashless_endsAt (by decide) (by decide)
      (by decide)]
    rfl
  · let g : Globals := { Globals.start with relsize := 8, nchains := 2 }
    have hinfo := get_sym_info_some (ofWords library) (loaded 0x2008) g 3 hashless_endsAt
      (by decide)
    rw [lookup_nameA (loaded 0x2008) g _ hinfo (by decide) (by decide) (by decide)]
    rfl

end JvmTrace.SymbolLookup
