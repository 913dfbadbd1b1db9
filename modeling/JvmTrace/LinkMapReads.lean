import JvmTrace.LinkMap

/-!
Which headers and entries the two searches of get_linkmap in src/tt.cpp look at, and
when they end. A search reads up to the first PT_DYNAMIC or DT_PLTGOT and ends there;
with none it goes around the address space for ever. The number of headers and the
DT_NULL entry play no part, so the searches stay within the tables of the image
exactly when what they look for is in them.
-/
namespace JvmTrace.LinkMapReads

open Ptrace Elf Loops LinkMap

/-- The addresses that the first search reads headers from. -/
def headersRead (m : Memory) (phdr_addr : Word) : List Word :=
  (visited (fun s : Word × Elf32_Phdr => decide (s.2.p_type ≠ PT_DYNAMIC))
    (fun s => some (s.1 + 32, readPhdr m (s.1 + 32)))
    addressSpace (phdr_addr, readPhdr m phdr_addr)).map Prod.fst

/-- The indices of the entries that the second search reads. -/
def entriesRead (m : Memory) (dyn_addr : Word) : List ℕ :=
  (visited (fun s : ℕ × Elf32_Dyn => decide (s.2.d_tag ≠ DT_PLTGOT))
    (fun s => some (s.1 + 1, readDyn m (dyn_addr + BitVec.ofNat 32 (s.1 * 8))))
    addressSpace (0, readDyn m dyn_addr)).map fun s => s.1 - 1

theorem findDynamic_some (m : Memory) (base : Word) (phdr : Elf32_Phdr)
    (h : findDynamic m base = some phdr) :
    ∃ n, FirstAt (fun p => p.p_type = PT_DYNAMIC) (fun i => phdrAt m (entryAddr base 32 i)) n ∧
      phdr = phdrAt m (entryAddr base 32 n) := by
  unfold findDynamic at h
  rw [headerState_zero] at h
  obtain ⟨t, hloop, rfl⟩ := Option.map_eq_some_iff.1 h
  have hstates := fun hbody => whileLoop_states (headerState m base) hbody addressSpace 0 t hloop
  obtain ⟨n, _, _, rfl, hstop, hgo⟩ :=
    hstates fun i => congrArg some (headerState_succ m base i)
  refine ⟨n, ⟨not_not.1 (of_decide_eq_false hstop), ?_⟩, rfl⟩
  intro i hi
  exact of_decide_eq_true (hgo i (by omega) hi)

theorem findPltgot_some (m : Memory) (base : Word) (dyn : Elf32_Dyn)
    (h : findPltgot m base = some dyn) :
    ∃ n, FirstAt (fun d => d.d_tag = DT_PLTGOT) (dynamicEntry m base) n := by
  unfold findPltgot at h
  rw [pltgotState_zero] at h
  obtain ⟨t, hloop, rfl⟩ := Option.map_eq_some_iff.1 h
  have hstates := fun hbody => whileLoop_states (pltgotState m base) hbody addressSpace 0 t hloop
  obtain ⟨n, _, _, rfl, hstop, hgo⟩ :=
    hstates fun i => congrArg some (pltgotState_succ m base i)
  refine ⟨n - 1, ⟨not_not.1 (of_decide_eq_false hstop), ?_⟩⟩
  intro i hi
  exact of_decide_eq_true (hgo (i + 1) (by omega) (by omega))

theorem mem_headersRead_iff (m : Memory) (base : Word) (n : ℕ)
    (h : FirstAt (fun p => p.p_type = PT_DYNAMIC) (fun i => phdrAt m (entryAddr base 32 i)) n)
    (hn : n < 2 ^ 27) (a : Word) :
    a ∈ headersRead m base ↔ ∃ i ≤ n, a = entryAddr base 32 i := by
  unfold headersRead
  rw [headerState_zero]
  simp only [List.mem_map]
  rw [exists_congr fun s => and_congr_left' (mem_visited_iff (headerState m base) n ?_ ?_
    addressSpace (by unfold addressSpace; omega) s)]
  · constructor
    · intro h
      obtain ⟨s, ⟨i, hi, rfl⟩, rfl⟩ := h
      exact ⟨i, hi, rfl⟩
    · intro h
      obtain ⟨i, hi, rfl⟩ := h
      exact ⟨headerState m base i, ⟨i, hi, rfl⟩, rfl⟩
  · intro i hi
    exact ⟨decide_eq_true (h.2 i hi), congrArg some (headerState_succ m base i)⟩
  · exact decide_eq_false (not_not.2 h.1)

theorem mem_entriesRead_iff (m : Memory) (base : Word) (n : ℕ)
    (h : FirstAt (fun d => d.d_tag = DT_PLTGOT) (dynamicEntry m base) n) (k : ℕ) :
    k ∈ entriesRead m base ↔ k ≤ n := by
  have hlt : n < 2 ^ 29 := h.lt_period (by norm_num) (dynamicEntry_mod m base)
  -- the first entry is read twice, unless it is the one looked for
  let rounds := if n = 0 then 0 else n + 1
  have hrounds : rounds - 1 = n ∧ rounds < 2 ^ 32 := by
    unfold rounds
    split_ifs <;> omega
  unfold entriesRead
  rw [pltgotState_zero]
  simp only [List.mem_map]
  rw [exists_congr fun s => and_congr_left' (mem_visited_iff (pltgotState m base) rounds ?_ ?_
    addressSpace hrounds.2 s)]
  · constructor
    · intro h
      obtain ⟨s, ⟨i, hi, rfl⟩, rfl⟩ := h
      simp only [pltgotState]
      omega
    · intro hk
      by_cases hzero : k = 0
      · exact ⟨pltgotState m base 0, ⟨0, by omega, rfl⟩, hzero.symm⟩
      · exact ⟨pltgotState m base (k + 1), ⟨k + 1, by omega, rfl⟩, rfl⟩
  · intro i hi
    refine ⟨decide_eq_true (h.2 (i - 1) ?_), congrArg some (pltgotState_succ m base i)⟩
    unfold rounds at hi
    split_ifs at hi <;> omega
  · have hentry : (pltgotState m base rounds).2 = dynamicEntry m base n := by
      unfold pltgotState
      rw [hrounds.1]
    rw [hentry]
    exact decide_eq_false (not_not.2 h.1)

/-- Both searches end, the first has read headers among the e_phnum of the image only,
and the second no entry behind a DT_NULL. -/
def EndsWithin (m : Memory) : Prop :=
  (∃ map, get_linkmap m = some map) ∧
    (∀ a ∈ headersRead m (IMAGE_ADDR + (ehdrAt m IMAGE_ADDR).e_phoff),
      ∃ i < (ehdrAt m IMAGE_ADDR).e_phnum.toNat,
        a = entryAddr (IMAGE_ADDR + (ehdrAt m IMAGE_ADDR).e_phoff) 32 i) ∧
    ∀ phdr, findDynamic m (IMAGE_ADDR + (ehdrAt m IMAGE_ADDR).e_phoff) = some phdr →
      ∀ k ∈ entriesRead m phdr.p_vaddr, ∀ i < k,
        (dynamicEntry m phdr.p_vaddr i).d_tag ≠ DT_NULL

theorem get_linkmap_some (m : Memory) (map : link_map) (h : get_linkmap m = some map) :
    ∃ j k, FirstAt (fun p => p.p_type = PT_DYNAMIC) (programHeader m) j ∧
      FirstAt (fun d => d.d_tag = DT_PLTGOT) (dynamicEntry m (programHeader m j).p_vaddr) k := by
  unfold get_linkmap at h
  rw [readEhdr_eq] at h
  obtain ⟨phdr, hphdr, hrest⟩ := Option.bind_eq_some_iff.1 h
  obtain ⟨dyn, hdyn, _⟩ := Option.bind_eq_some_iff.1 hrest
  obtain ⟨j, hj, rfl⟩ := findDynamic_some m _ phdr hphdr
  obtain ⟨k, hk⟩ := findPltgot_some m _ dyn hdyn
  exact ⟨j, k, hj, hk⟩

/-- get_linkmap ends within the tables of the image if and only if PT_DYNAMIC is among
the e_phnum headers and DT_PLTGOT is before the end of the section of the first one. -/
theorem endsWithin_iff (m : Memory) :
    EndsWithin m ↔
      (∃ i < (ehdrAt m IMAGE_ADDR).e_phnum.toNat, (programHeader m i).p_type = PT_DYNAMIC) ∧
      ∀ j, FirstAt (fun p => p.p_type = PT_DYNAMIC) (programHeader m) j →
        HasTag (dynamicEntry m (programHeader m j).p_vaddr) DT_PLTGOT := by
  have hphnum := (ehdrAt m IMAGE_ADDR).e_phnum.isLt
  have hperiod : ∀ j, FirstAt (fun p => p.p_type = PT_DYNAMIC) (programHeader m) j →
      j < 2 ^ 27 := by
    intro j hj
    apply hj.lt_period (by norm_num)
    intro i
    unfold programHeader
    rw [entryAddr_mod _ 32 (2 ^ 27) i (by norm_num)]
  constructor
  · intro h
    obtain ⟨⟨map, hmap⟩, hheaders, hentries⟩ := h
    obtain ⟨j, k, hj, hk⟩ := get_linkmap_some m map hmap
    have hjlt := hperiod j hj
    obtain ⟨i, hi, haddr⟩ := hheaders _ ((mem_headersRead_iff m _ j hj hjlt _).2 ⟨j, le_refl j, rfl⟩)
    obtain rfl := Addresses.entry_inj _ 32 j i (by omega) (by omega) (by omega) haddr
    refine ⟨⟨j, hi, hj.1⟩, ?_⟩
    intro j' hj'
    obtain rfl := hj.unique hj'
    refine ⟨k, hk.1, ?_⟩
    exact hentries _ (findDynamic_eq m _ j hj) k ((mem_entriesRead_iff m _ k hk k).2 (le_refl k))
  · intro h
    obtain ⟨⟨i, hi, hdynamic⟩, hpltgot⟩ := h
    obtain ⟨j, hji, hj⟩ :=
      exists_firstAt (fun p : Elf32_Phdr => p.p_type = PT_DYNAMIC) (programHeader m) i hdynamic
    obtain ⟨l, hl, hnull⟩ := hpltgot j hj
    obtain ⟨k, hkl, hk⟩ := exists_firstAt (fun d : Elf32_Dyn => d.d_tag = DT_PLTGOT) _ l hl
    refine ⟨⟨_, get_linkmap_eq m j k hj hk⟩, ?_, ?_⟩
    · intro a ha
      obtain ⟨i', hi', rfl⟩ := (mem_headersRead_iff m _ j hj (hperiod j hj) a).1 ha
      exact ⟨i', by omega, rfl⟩
    · intro phdr hphdr e he i' hi'
      rw [findDynamic_eq m _ j hj] at hphdr
      obtain rfl := Option.some.inj hphdr
      have hek := (mem_entriesRead_iff m _ k hk e).1 he
      exact hnull i' (by omega)

/-- A statically linked target: one header, PT_LOAD, and nothing else. -/
def static : Memory := fun a =>
  if a = 0x0804801c then 52 else if a = 0x0804802c then 1 else if a = 0x08048034 then 1 else 0

theorem static_ne_two (a : Word) : static a ≠ 2 := by
  unfold static
  split_ifs <;> decide

/-- The search for PT_DYNAMIC does not end on a statically linked target. -/
theorem not_endsWithin_static : get_linkmap static = none ∧ ¬ EndsWithin static := by
  have hnone : get_linkmap static = none := by
    rcases hmap : get_linkmap static with _ | map
    · rfl
    · obtain ⟨j, _, hj, _⟩ := get_linkmap_some static map hmap
      have htype : peektext static (entryAddr (IMAGE_ADDR + (ehdrAt static IMAGE_ADDR).e_phoff) 32 j) =
          2 := hj.1
      have hbyte := bytesOf_word (fun i => static
        (entryAddr (IMAGE_ADDR + (ehdrAt static IMAGE_ADDR).e_phoff) 32 j + BitVec.ofNat 32 i)) 0
        (by omega)
      unfold peektext at htype
      rw [htype] at hbyte
      exact absurd hbyte.symm (static_ne_two _)
  refine ⟨hnone, ?_⟩
  intro h
  obtain ⟨⟨map, hmap⟩, _⟩ := h
  rw [hnone] at hmap
  simp at hmap

end JvmTrace.LinkMapReads
