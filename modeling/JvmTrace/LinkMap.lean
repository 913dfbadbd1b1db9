import JvmTrace.Elf

/-!
get_linkmap of src/tt.cpp: the program headers of the image are searched for
PT_DYNAMIC, the section it names for DT_PLTGOT, and the second word of that table
is the address of the first link_map. Neither search looks at e_phnum or DT_NULL.
The first search advances the address before each further read; the second reads
the first entry and then starts again at index 0.
-/
namespace JvmTrace.LinkMap

open Ptrace Elf Loops

/-- The search for PT_DYNAMIC, from the first header on. -/
def findDynamic (m : Memory) (phdr_addr : Word) : Option Elf32_Phdr :=
  (whileLoop (fun s : Word × Elf32_Phdr => decide (s.2.p_type ≠ PT_DYNAMIC))
    (fun s => some (s.1 + 32, readPhdr m (s.1 + 32)))
    addressSpace (phdr_addr, readPhdr m phdr_addr)).map Prod.snd

/-- The search for DT_PLTGOT, with the index i that the loop starts at 0. -/
def findPltgot (m : Memory) (dyn_addr : Word) : Option Elf32_Dyn :=
  (whileLoop (fun s : ℕ × Elf32_Dyn => decide (s.2.d_tag ≠ DT_PLTGOT))
    (fun s => some (s.1 + 1, readDyn m (dyn_addr + BitVec.ofNat 32 (s.1 * 8))))
    addressSpace (0, readDyn m dyn_addr)).map Prod.snd

/-- The local dyn_addr hides the global of that name, which keeps its value. -/
def get_linkmap (m : Memory) : Option link_map := do
  let ehdr := readEhdr m IMAGE_ADDR
  let phdr ← findDynamic m (IMAGE_ADDR + ehdr.e_phoff)
  let dyn_addr := phdr.p_vaddr
  let dyn ← findPltgot m dyn_addr
  let got := dyn.d_un + 4
  let map_addr := (ptrace_read m got 4).getD 0 0
  return readLinkMap m map_addr

/-- The program headers of the image. -/
def programHeader (m : Memory) (i : ℕ) : Elf32_Phdr :=
  phdrAt m (entryAddr (IMAGE_ADDR + (ehdrAt m IMAGE_ADDR).e_phoff) 32 i)

/-- The entries of the dynamic section at an address. -/
def dynamicEntry (m : Memory) (base : Word) (i : ℕ) : Elf32_Dyn := dynAt m (entryAddr base 8 i)

theorem dynamicEntry_mod (m : Memory) (base : Word) (i : ℕ) :
    dynamicEntry m base (i % 2 ^ 29) = dynamicEntry m base i := by
  unfold dynamicEntry
  rw [entryAddr_mod base 8 (2 ^ 29) i (by norm_num)]

/-- The address and the header after some rounds of the first search. -/
def headerState (m : Memory) (base : Word) (i : ℕ) : Word × Elf32_Phdr :=
  (entryAddr base 32 i, phdrAt m (entryAddr base 32 i))

theorem headerState_zero (m : Memory) (base : Word) :
    (base, readPhdr m base) = headerState m base 0 := by
  unfold headerState
  rw [entryAddr_zero, readPhdr_eq]

theorem headerState_succ (m : Memory) (base : Word) (i : ℕ) :
    ((headerState m base i).1 + 32, readPhdr m ((headerState m base i).1 + 32)) =
      headerState m base (i + 1) := by
  unfold headerState
  rw [readPhdr_eq, entryAddr_succ]
  rfl

/-- The index and the entry after some rounds of the second search: the entry is the
first one, or the one before the index. -/
def pltgotState (m : Memory) (base : Word) (i : ℕ) : ℕ × Elf32_Dyn :=
  (i, dynamicEntry m base (i - 1))

theorem pltgotState_zero (m : Memory) (base : Word) :
    (0, readDyn m base) = pltgotState m base 0 := by
  simp only [pltgotState, Nat.zero_sub, dynamicEntry, entryAddr_zero, readDyn_eq]

theorem pltgotState_succ (m : Memory) (base : Word) (i : ℕ) :
    ((pltgotState m base i).1 + 1,
      readDyn m (base + BitVec.ofNat 32 ((pltgotState m base i).1 * 8))) =
      pltgotState m base (i + 1) := by
  simp only [pltgotState, Nat.add_sub_cancel, readDyn_eq, Nat.mul_comm i 8]
  rfl

theorem findDynamic_eq (m : Memory) (base : Word) (n : ℕ)
    (h : FirstAt (fun p => p.p_type = PT_DYNAMIC) (fun i => phdrAt m (entryAddr base 32 i)) n) :
    findDynamic m base = some (phdrAt m (entryAddr base 32 n)) := by
  have hlt : n < 2 ^ 27 := by
    apply h.lt_period (by norm_num)
    intro i
    rw [entryAddr_mod base 32 (2 ^ 27) i (by norm_num)]
  unfold findDynamic
  rw [headerState_zero, whileLoop_trajectory (headerState m base) n ?_ ?_ addressSpace
    (by unfold addressSpace; omega)]
  · rfl
  · intro i hi
    exact ⟨decide_eq_true (h.2 i hi), congrArg some (headerState_succ m base i)⟩
  · exact decide_eq_false (not_not.2 h.1)

theorem findPltgot_eq (m : Memory) (base : Word) (n : ℕ)
    (h : FirstAt (fun d => d.d_tag = DT_PLTGOT) (dynamicEntry m base) n) :
    findPltgot m base = some (dynamicEntry m base n) := by
  have hlt : n < 2 ^ 29 := h.lt_period (by norm_num) (dynamicEntry_mod m base)
  unfold findPltgot
  rw [pltgotState_zero]
  by_cases hn : n = 0
  · -- the loop is not entered
    subst hn
    rw [whileLoop_stop addressSpace (pltgotState m base 0) ?_ (by unfold addressSpace; omega)]
    · rfl
    · exact decide_eq_false (not_not.2 h.1)
  · rw [whileLoop_trajectory (pltgotState m base) (n + 1) ?_ ?_ addressSpace
      (by unfold addressSpace; omega)]
    · rfl
    · intro i hi
      exact ⟨decide_eq_true (h.2 (i - 1) (by omega)), congrArg some (pltgotState_succ m base i)⟩
    · exact decide_eq_false (not_not.2 h.1)

/-- The address in the second word of the table that a DT_PLTGOT entry gives. -/
def mapAddr (m : Memory) (pltgot : Elf32_Dyn) : Word := peektext m (pltgot.d_un + 4)

theorem get_linkmap_eq (m : Memory) (j k : ℕ)
    (hdynamic : FirstAt (fun p => p.p_type = PT_DYNAMIC) (programHeader m) j)
    (hpltgot : FirstAt (fun d => d.d_tag = DT_PLTGOT)
      (dynamicEntry m (programHeader m j).p_vaddr) k) :
    get_linkmap m =
      some (linkMapAt m (mapAddr m (dynamicEntry m (programHeader m j).p_vaddr k))) := by
  have hphdr := findDynamic_eq m (IMAGE_ADDR + (ehdrAt m IMAGE_ADDR).e_phoff) j hdynamic
  have hdyn := findPltgot_eq m (programHeader m j).p_vaddr k hpltgot
  unfold get_linkmap
  simp only [readEhdr_eq, hphdr, Option.bind_eq_bind, Option.bind_some]
  change (findPltgot m (programHeader m j).p_vaddr).bind _ = _
  rw [hdyn]
  simp only [Option.bind_some, readLinkMap_eq, mapAddr]
  rw [ptrace_read_getD m _ 4 0 (by omega)]
  simp

/-- An entry with the tag that no DT_NULL precedes. -/
def HasTag (entry : ℕ → Elf32_Dyn) (tag : Word) : Prop :=
  ∃ k, (entry k).d_tag = tag ∧ ∀ i < k, (entry i).d_tag ≠ DT_NULL

/-- With PT_DYNAMIC among the e_phnum headers and DT_PLTGOT before the end of its
section, get_linkmap ends with the link_map found through the first DT_PLTGOT of
the first PT_DYNAMIC. -/
theorem get_linkmap_returns (m : Memory) (i : ℕ) (hi : i < (ehdrAt m IMAGE_ADDR).e_phnum.toNat)
    (hdynamic : (programHeader m i).p_type = PT_DYNAMIC)
    (hpltgot : ∀ j, FirstAt (fun p => p.p_type = PT_DYNAMIC) (programHeader m) j →
      HasTag (dynamicEntry m (programHeader m j).p_vaddr) DT_PLTGOT) :
    ∃ j k, j < (ehdrAt m IMAGE_ADDR).e_phnum.toNat ∧
      FirstAt (fun p => p.p_type = PT_DYNAMIC) (programHeader m) j ∧
      FirstAt (fun d => d.d_tag = DT_PLTGOT) (dynamicEntry m (programHeader m j).p_vaddr) k ∧
      get_linkmap m =
        some (linkMapAt m (mapAddr m (dynamicEntry m (programHeader m j).p_vaddr k))) := by
  obtain ⟨j, hji, hj⟩ :=
    exists_firstAt (fun p : Elf32_Phdr => p.p_type = PT_DYNAMIC) (programHeader m) i hdynamic
  obtain ⟨l, hl, _⟩ := hpltgot j hj
  obtain ⟨k, _, hk⟩ := exists_firstAt (fun d : Elf32_Dyn => d.d_tag = DT_PLTGOT) _ l hl
  exact ⟨j, k, by omega, hj, hk, get_linkmap_eq m j k hj hk⟩

/-- An image of two headers, with PT_DYNAMIC second and DT_PLTGOT second. -/
def twoHeaders : Memory := ofWords
  [(0x0804801c, 52), (0x0804802c, 2), (0x08048034, 6), (0x08048054, PT_DYNAMIC),
    (0x0804805c, 0x08049000), (0x08049000, 1), (0x08049004, 1), (0x08049008, DT_PLTGOT),
    (0x0804900c, 0x0804a000), (0x0804a004, 0xb7fff000), (0xb7fff000, 0x100),
    (0xb7fff008, 0x08049000), (0xb7fff00c, 0xb7fff100)]

theorem get_linkmap_twoHeaders :
    1 < (ehdrAt twoHeaders IMAGE_ADDR).e_phnum.toNat ∧
      get_linkmap twoHeaders = some ⟨0x100, 0, 0x08049000, 0xb7fff100, 0⟩ := by
  have hfirst : FirstAt (fun p => p.p_type = PT_DYNAMIC) (programHeader twoHeaders) 1 := by
    refine ⟨by decide, ?_⟩
    intro i hi
    obtain rfl : i = 0 := by omega
    decide
  have hgot : FirstAt (fun d => d.d_tag = DT_PLTGOT)
      (dynamicEntry twoHeaders (programHeader twoHeaders 1).p_vaddr) 1 := by
    refine ⟨by decide, ?_⟩
    intro i hi
    obtain rfl : i = 0 := by omega
    decide
  have hpltgot : ∀ j, FirstAt (fun p => p.p_type = PT_DYNAMIC) (programHeader twoHeaders) j →
      HasTag (dynamicEntry twoHeaders (programHeader twoHeaders j).p_vaddr) DT_PLTGOT := by
    intro j hj
    obtain rfl := hfirst.unique hj
    refine ⟨1, hgot.1, ?_⟩
    intro i hi
    obtain rfl : i = 0 := by omega
    decide
  have hphnum : 1 < (ehdrAt twoHeaders IMAGE_ADDR).e_phnum.toNat := by decide
  obtain ⟨j, k, _, hj, hk, heq⟩ :=
    get_linkmap_returns twoHeaders 1 hphnum hfirst.1 hpltgot
  obtain rfl := hfirst.unique hj
  obtain rfl := hgot.unique hk
  refine ⟨hphnum, heq.trans ?_⟩
  decide

end JvmTrace.LinkMap
