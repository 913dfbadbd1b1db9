import JvmTrace.LinkMap

/-!
The two readers of a dynamic section in src/tt.cpp and the globals they leave
their results in. get_sym_info walks the section of a link_map, get_dyn_info the
one at the global dyn_addr, both up to DT_NULL. A global keeps the value of the
last entry with its tag, and its old value when there is none; relsize is set by
two tags. The division at the end takes whatever relsize is, and a division by
zero ends the process.
-/
namespace JvmTrace.DynamicSection

open Ptrace Elf Loops LinkMap

structure Globals where
  nchains : Word
  symtab : Word
  strtab : Word
  jmprel : Word
  totalrelsize : Word
  relsize : Word
  nrels : Word
  dyn_addr : Word

/-- The globals of a program that has just started. -/
def Globals.start : Globals := ⟨0, 0, 0, 0, 0, 0, 0, 0⟩

/-- The switch of get_dyn_info. -/
def dynCase (g : Globals) (dyn : Elf32_Dyn) : Globals :=
  if dyn.d_tag = DT_SYMTAB then { g with symtab := dyn.d_un }
  else if dyn.d_tag = DT_STRTAB then { g with strtab := dyn.d_un }
  else if dyn.d_tag = DT_JMPREL then { g with jmprel := dyn.d_un }
  else if dyn.d_tag = DT_PLTRELSZ then { g with totalrelsize := dyn.d_un }
  else if dyn.d_tag = DT_RELAENT then { g with relsize := dyn.d_un }
  else if dyn.d_tag = DT_RELENT then { g with relsize := dyn.d_un }
  else g

/-- The switch of get_sym_info has one case more. -/
def symCase (m : Memory) (g : Globals) (dyn : Elf32_Dyn) : Globals :=
  if dyn.d_tag = DT_HASH then { g with nchains := (ptrace_read m (dyn.d_un + 4) 4).getD 0 0 }
  else dynCase g dyn

def divide (g : Globals) : Option Globals :=
  if g.relsize = 0 then none else some { g with nrels := g.totalrelsize / g.relsize }

def get_sym_info (m : Memory) (lm : link_map) (g : Globals) : Option Globals := do
  let s ← whileLoop (fun s : Word × Elf32_Dyn × Globals => decide (s.2.1.d_tag ≠ DT_NULL))
    (fun s => some (s.1 + 8, readDyn m (s.1 + 8), symCase m s.2.2 s.2.1))
    addressSpace (lm.l_ld, readDyn m lm.l_ld, g)
  divide s.2.2

def get_dyn_info (m : Memory) (g : Globals) : Option Globals := do
  let s ← whileLoop (fun s : ℕ × Elf32_Dyn × Globals => decide (s.2.1.d_tag ≠ 0))
    (fun s =>
      some (s.1 + 1, readDyn m (g.dyn_addr + BitVec.ofNat 32 (s.1 * 8)), dynCase s.2.2 s.2.1))
    addressSpace (1, readDyn m (g.dyn_addr + BitVec.ofNat 32 (0 * 8)), g)
  divide s.2.2

/-- The section ends after n entries. -/
def EndsAt (m : Memory) (base : Word) (n : ℕ) : Prop :=
  FirstAt (fun d => d.d_tag = DT_NULL) (dynamicEntry m base) n

theorem EndsAt.lt {m : Memory} {base : Word} {n : ℕ} (h : EndsAt m base n) : n < addressSpace := by
  have hperiod : n < 2 ^ 29 := h.lt_period (by norm_num) (dynamicEntry_mod m base)
  unfold addressSpace
  omega

/-- The value of the last entry with the tag. -/
def tagValue (m : Memory) (base : Word) (n : ℕ) (tag : Word) : Option Word :=
  (lastHit (fun d => decide (d.d_tag = tag)) (dynamicEntry m base) n).map Elf32_Dyn.d_un

/-- The value of the last entry with one of the two tags for the size of a relocation. -/
def entSize (m : Memory) (base : Word) (n : ℕ) : Option Word :=
  (lastHit (fun d => decide (d.d_tag = DT_RELAENT ∨ d.d_tag = DT_RELENT))
    (dynamicEntry m base) n).map Elf32_Dyn.d_un

/-- The number of chains, from the second word of the hash table. -/
def chainCount (m : Memory) (base : Word) (n : ℕ) : Option Word :=
  (tagValue m base n DT_HASH).map fun hash => peektext m (hash + 4)

/-- The globals after the entries of a section have been seen. -/
def dynInfo (m : Memory) (base : Word) (g : Globals) (n : ℕ) : Globals :=
  { g with
    symtab := (tagValue m base n DT_SYMTAB).getD g.symtab
    strtab := (tagValue m base n DT_STRTAB).getD g.strtab
    jmprel := (tagValue m base n DT_JMPREL).getD g.jmprel
    totalrelsize := (tagValue m base n DT_PLTRELSZ).getD g.totalrelsize
    relsize := (entSize m base n).getD g.relsize }

def symInfo (m : Memory) (base : Word) (g : Globals) (n : ℕ) : Globals :=
  { dynInfo m base g n with nchains := (chainCount m base n).getD g.nchains }

/-- The cases of the switch exclude one another, so it is one assignment a field. -/
theorem dynCase_eq (g : Globals) (dyn : Elf32_Dyn) :
    dynCase g dyn = { g with
      symtab := if dyn.d_tag = DT_SYMTAB then dyn.d_un else g.symtab
      strtab := if dyn.d_tag = DT_STRTAB then dyn.d_un else g.strtab
      jmprel := if dyn.d_tag = DT_JMPREL then dyn.d_un else g.jmprel
      totalrelsize := if dyn.d_tag = DT_PLTRELSZ then dyn.d_un else g.totalrelsize
      relsize := if dyn.d_tag = DT_RELAENT ∨ dyn.d_tag = DT_RELENT then dyn.d_un
        else g.relsize } := by
  obtain ⟨tag, un⟩ := dyn
  unfold dynCase
  by_cases hsym : tag = DT_SYMTAB
  · subst hsym
    rfl
  by_cases hstr : tag = DT_STRTAB
  · subst hstr
    rfl
  by_cases hjmp : tag = DT_JMPREL
  · subst hjmp
    rfl
  by_cases hsize : tag = DT_PLTRELSZ
  · subst hsize
    rfl
  by_cases hrela : tag = DT_RELAENT
  · subst hrela
    rfl
  simp only [hsym, hstr, hjmp, hsize, hrela, if_false, false_or]
  split_ifs <;> rfl

theorem symCase_eq (m : Memory) (g : Globals) (dyn : Elf32_Dyn) :
    symCase m g dyn = { dynCase g dyn with
      nchains := if dyn.d_tag = DT_HASH then peektext m (dyn.d_un + 4) else g.nchains } := by
  obtain ⟨tag, un⟩ := dyn
  unfold symCase
  rw [dynCase_eq, ptrace_read_getD m _ 4 0 (by omega)]
  by_cases hhash : tag = DT_HASH
  · subst hhash
    simp [DT_HASH, DT_SYMTAB, DT_STRTAB, DT_JMPREL, DT_PLTRELSZ, DT_RELAENT, DT_RELENT]
  · simp [hhash]

theorem lastHit_getD_succ (hit : Elf32_Dyn → Bool) (entry : ℕ → Elf32_Dyn) (n : ℕ) (w : Word) :
    ((lastHit hit entry (n + 1)).map Elf32_Dyn.d_un).getD w =
      if hit (entry n) then (entry n).d_un
      else ((lastHit hit entry n).map Elf32_Dyn.d_un).getD w := by
  conv_lhs => unfold lastHit
  split_ifs <;> rfl

theorem takeIn_dynCase (m : Memory) (base : Word) (g : Globals) (n : ℕ) :
    takeIn dynCase (dynamicEntry m base) g n = dynInfo m base g n := by
  induction n with
  | zero => rfl
  | succ n ih =>
    unfold takeIn
    rw [ih, dynCase_eq]
    simp only [dynInfo, tagValue, entSize, lastHit_getD_succ, decide_eq_true_eq]

theorem chainCount_getD_succ (m : Memory) (base : Word) (n : ℕ) (w : Word) :
    (chainCount m base (n + 1)).getD w =
      if (dynamicEntry m base n).d_tag = DT_HASH then
        peektext m ((dynamicEntry m base n).d_un + 4)
      else (chainCount m base n).getD w := by
  unfold chainCount tagValue
  conv_lhs => unfold lastHit
  split_ifs <;> simp_all

theorem takeIn_symCase (m : Memory) (base : Word) (g : Globals) (n : ℕ) :
    takeIn (symCase m) (dynamicEntry m base) g n = symInfo m base g n := by
  induction n with
  | zero => rfl
  | succ n ih =>
    unfold takeIn
    rw [ih, symCase_eq, dynCase_eq]
    simp only [symInfo, dynInfo, tagValue, entSize, lastHit_getD_succ, chainCount_getD_succ,
      decide_eq_true_eq]

theorem get_sym_info_eq (m : Memory) (lm : link_map) (g : Globals) (n : ℕ)
    (h : EndsAt m lm.l_ld n) : get_sym_info m lm g = divide (symInfo m lm.l_ld g n) := by
  let state (i : ℕ) : Word × Elf32_Dyn × Globals :=
    (entryAddr lm.l_ld 8 i, dynamicEntry m lm.l_ld i,
      takeIn (symCase m) (dynamicEntry m lm.l_ld) g i)
  have hstart : (lm.l_ld, readDyn m lm.l_ld, g) = state 0 := by
    simp only [state, dynamicEntry, entryAddr_zero, readDyn_eq, takeIn]
  unfold get_sym_info
  rw [hstart, whileLoop_trajectory state n ?_ ?_ addressSpace h.lt]
  · simp only [state, Option.bind_eq_bind, Option.bind_some, takeIn_symCase]
  · intro i hi
    refine ⟨decide_eq_true (h.2 i hi), ?_⟩
    simp only [state, readDyn_eq, dynamicEntry, entryAddr_succ, takeIn]
    rfl
  · exact decide_eq_false (not_not.2 h.1)

/-- A walk that returns has met the end of its section. -/
theorem get_sym_info_ends (m : Memory) (lm : link_map) (g g' : Globals)
    (h : get_sym_info m lm g = some g') : ∃ n, EndsAt m lm.l_ld n := by
  obtain ⟨s, hloop, _⟩ := Option.bind_eq_some_iff.1 h
  let state (i : ℕ) : Word × Elf32_Dyn × Globals :=
    (entryAddr lm.l_ld 8 i, dynamicEntry m lm.l_ld i,
      takeIn (symCase m) (dynamicEntry m lm.l_ld) g i)
  have hstart : (lm.l_ld, readDyn m lm.l_ld, g) = state 0 := by
    simp only [state, dynamicEntry, entryAddr_zero, readDyn_eq, takeIn]
  rw [hstart] at hloop
  obtain ⟨n, _, _, _, hstop, hgo⟩ := whileLoop_states state (by
    intro i
    simp only [state, readDyn_eq, dynamicEntry, entryAddr_succ, takeIn]
    rfl) addressSpace 0 s hloop
  refine ⟨n, not_not.1 (of_decide_eq_false hstop), ?_⟩
  intro i hi
  exact of_decide_eq_true (hgo i (Nat.zero_le i) hi)

theorem get_dyn_info_eq (m : Memory) (g : Globals) (n : ℕ) (h : EndsAt m g.dyn_addr n) :
    get_dyn_info m g = divide (dynInfo m g.dyn_addr g n) := by
  have hread : ∀ i, readDyn m (g.dyn_addr + BitVec.ofNat 32 (i * 8)) =
      dynamicEntry m g.dyn_addr i := by
    intro i
    rw [readDyn_eq, Nat.mul_comm]
    rfl
  -- the index is one ahead of the entry at hand
  let state (i : ℕ) : ℕ × Elf32_Dyn × Globals :=
    (i + 1, dynamicEntry m g.dyn_addr i, takeIn dynCase (dynamicEntry m g.dyn_addr) g i)
  have hstart : (1, readDyn m (g.dyn_addr + BitVec.ofNat 32 (0 * 8)), g) = state 0 := by
    simp only [state, hread, takeIn]
  unfold get_dyn_info
  rw [hstart, whileLoop_trajectory state n ?_ ?_ addressSpace h.lt]
  · simp only [state, Option.bind_eq_bind, Option.bind_some, takeIn_dynCase]
  · intro i hi
    refine ⟨decide_eq_true (h.2 i hi), ?_⟩
    simp only [state, hread, takeIn]
  · exact decide_eq_false (not_not.2 h.1)

theorem divide_zero (g : Globals) (h : g.relsize = 0) : divide g = none := by
  unfold divide
  rw [if_pos h]

theorem divide_ne_zero (g : Globals) (h : g.relsize ≠ 0) :
    divide g = some { g with nrels := g.totalrelsize / g.relsize } := by
  unfold divide
  rw [if_neg h]

theorem divide_dyn_addr (g g' : Globals) (h : divide g = some g') : g'.dyn_addr = g.dyn_addr := by
  unfold divide at h
  by_cases hzero : g.relsize = 0
  · rw [if_pos hzero] at h
    simp at h
  · rw [if_neg hzero] at h
    obtain rfl := Option.some.inj h
    rfl

/-- No reader assigns the global dyn_addr; get_sym_info has a local of that name. -/
theorem get_sym_info_dyn_addr (m : Memory) (lm : link_map) (g g' : Globals)
    (h : get_sym_info m lm g = some g') : g'.dyn_addr = g.dyn_addr := by
  obtain ⟨s, hloop, hdivide⟩ := Option.bind_eq_some_iff.1 h
  rw [divide_dyn_addr _ _ hdivide]
  refine whileLoop_preserves (fun s => s.2.2.dyn_addr = g.dyn_addr) ?_ _ _ s rfl hloop
  rintro s t hs ht
  obtain rfl := Option.some.inj ht
  simp only [symCase_eq, dynCase_eq]
  exact hs

theorem get_dyn_info_dyn_addr (m : Memory) (g g' : Globals) (h : get_dyn_info m g = some g') :
    g'.dyn_addr = g.dyn_addr := by
  obtain ⟨s, hloop, hdivide⟩ := Option.bind_eq_some_iff.1 h
  rw [divide_dyn_addr _ _ hdivide]
  refine whileLoop_preserves (fun s => s.2.2.dyn_addr = g.dyn_addr) ?_ _ _ s rfl hloop
  rintro s t hs ht
  obtain rfl := Option.some.inj ht
  simp only [dynCase_eq]
  exact hs

end JvmTrace.DynamicSection
