import JvmTrace.TraceData

/-!
handle_one_lmap of src/trace.h. It walks the dynamic section of a library and keeps, in
local variables that nothing initialises, the value of the last entry of each kind. Its
address is a number and not a pointer, so the step of sizeof(Elf_Dyn)/sizeof(Elf_Addr)
takes it two bytes on and not to the next entry: it looks at every second byte of the
section and ends at the first one from which eight bytes are zero.
-/
namespace JvmTrace.LmapResult

open Loops TraceData

def DT_NULL : Addr := 0
def DT_PLTRELSZ : Addr := 2
def DT_STRTAB : Addr := 5
def DT_SYMTAB : Addr := 6
def DT_RELA : Addr := 7
def DT_RELASZ : Addr := 8
def DT_RELAENT : Addr := 9
def DT_SYMENT : Addr := 11
def DT_REL : Addr := 17
def DT_RELSZ : Addr := 18
def DT_RELENT : Addr := 19
def DT_JMPREL : Addr := 23
def DT_SYMINSZ : Addr := 0x6ffffdfe

/-- The local variables that the switch assigns. -/
inductive Local
  | symtab
  | syment
  | symsz
  | strtab
  | jmprel
  | relpltsz
  | reldyn
  | relent
  | reldynsz
  deriving DecidableEq

/-- The case of the switch that a tag selects. -/
def caseOf (d_tag : Addr) : Option Local :=
  if d_tag = DT_SYMTAB then some .symtab
  else if d_tag = DT_SYMENT then some .syment
  else if d_tag = DT_SYMINSZ then some .symsz
  else if d_tag = DT_STRTAB then some .strtab
  else if d_tag = DT_JMPREL then some .jmprel
  else if d_tag = DT_PLTRELSZ then some .relpltsz
  else if d_tag = DT_REL ∨ d_tag = DT_RELA then some .reldyn
  else if d_tag = DT_RELENT ∨ d_tag = DT_RELAENT then some .relent
  else if d_tag = DT_RELSZ ∨ d_tag = DT_RELASZ then some .reldynsz
  else none

/-- The switch. -/
def assign (locals : Local → Addr) (dyn : Elf_Dyn) : Local → Addr :=
  match caseOf dyn.d_tag with
  | none => locals
  | some x => Function.update locals x dyn.d_un

def sizeofDyn : ℕ := 16
def sizeofAddr : ℕ := 8

/-- What the walk adds to dyn_addr. -/
def step : Addr := BitVec.ofNat 64 (sizeofDyn / sizeofAddr)

/-- What is done with the local variables after the walk; none is NULL. -/
def makeResult (lm : link_map) (locals : Local → Addr) : Option lmap_result :=
  if 0 = locals .syment ∨ 0 = locals .relent then none
  else some
    { symtab := locals .symtab
      strtab := locals .strtab
      jmprel := locals .jmprel
      reldyn := locals .reldyn
      link_addr := lm.l_addr
      nsymbols := locals .symsz / locals .syment
      nrelplts := locals .relpltsz / locals .relent
      nreldyns := locals .reldynsz / locals .relent }

/-- The argument junk is what the local variables hold before they are assigned. -/
def handle_one_lmap (calls : DataCalls) (m : Memory) (junk : Local → Addr) (lm : link_map) :
    Option (Option lmap_result) := do
  let s ← whileLoop (fun s : Addr × Elf_Dyn × (Local → Addr) => decide (s.2.1.d_tag ≠ DT_NULL))
    (fun s => some (s.1 + step, readDyn calls m (s.1 + step), assign s.2.2 s.2.1))
    addressSpace (lm.l_ld, readDyn calls m lm.l_ld, junk)
  some (makeResult lm s.2.2)

/-- An entry of a table of dynamic entries that are the given number of bytes apart. -/
def dynEvery (m : Memory) (base : Addr) (size i : ℕ) : Elf_Dyn := dynAt m (entryAddr base size i)

/-- The value of the last of the first n entries that assign a variable. -/
def valueEvery (m : Memory) (base : Addr) (size n : ℕ) (x : Local) : Option Addr :=
  (lastHit (fun d => decide (caseOf d.d_tag = some x)) (dynEvery m base size) n).map Elf_Dyn.d_un

/-- The table ends after n entries. -/
def EndsAt (m : Memory) (base : Addr) (size n : ℕ) : Prop :=
  FirstAt (fun d => d.d_tag = DT_NULL) (dynEvery m base size) n

theorem assign_apply (locals : Local → Addr) (dyn : Elf_Dyn) (x : Local) :
    assign locals dyn x = if caseOf dyn.d_tag = some x then dyn.d_un else locals x := by
  unfold assign
  rcases hcase : caseOf dyn.d_tag with _ | y
  · simp
  · by_cases hx : y = x
    · subst hx
      simp
    · simp [hx, Function.update_of_ne (Ne.symm hx)]

theorem valueEvery_succ (m : Memory) (base : Addr) (size n : ℕ) (x : Local) :
    valueEvery m base size (n + 1) x =
      if caseOf (dynEvery m base size n).d_tag = some x then some (dynEvery m base size n).d_un
      else valueEvery m base size n x := by
  unfold valueEvery
  conv_lhs => unfold lastHit
  split_ifs with hhit hcase hcase
  · rfl
  · exact absurd (of_decide_eq_true hhit) hcase
  · exact absurd (decide_eq_true hcase) hhit
  · rfl

/-- A variable is left with the value of the last entry that assigns it. -/
theorem takeIn_assign (m : Memory) (base : Addr) (size : ℕ) (junk : Local → Addr) (n : ℕ)
    (x : Local) :
    takeIn assign (dynEvery m base size) junk n x =
      (valueEvery m base size n x).getD (junk x) := by
  induction n with
  | zero => rfl
  | succ n ih =>
    unfold takeIn
    rw [assign_apply, valueEvery_succ, ih]
    split_ifs <;> rfl

/-- The walk takes in what lies at every second byte up to the first zero. -/
theorem handle_one_lmap_eq (calls : DataCalls) (m : Memory) (junk : Local → Addr) (lm : link_map)
    (stop : ℕ) (hstop : EndsAt m lm.l_ld 2 stop) :
    handle_one_lmap calls m junk lm =
      some (makeResult lm fun x => (valueEvery m lm.l_ld 2 stop x).getD (junk x)) := by
  let state (i : ℕ) : Addr × Elf_Dyn × (Local → Addr) :=
    (entryAddr lm.l_ld 2 i, dynEvery m lm.l_ld 2 i, takeIn assign (dynEvery m lm.l_ld 2) junk i)
  have hstart : (lm.l_ld, readDyn calls m lm.l_ld, junk) = state 0 := by
    simp only [state, dynEvery, entryAddr_zero, readDyn_eq, takeIn]
  have hlt : stop < 2 ^ 63 := by
    apply hstop.lt_period (by norm_num)
    intro i
    unfold dynEvery
    rw [entryAddr_mod lm.l_ld 2 (2 ^ 63) i (by norm_num)]
  unfold handle_one_lmap
  rw [hstart, whileLoop_trajectory state stop ?_ ?_ addressSpace (by unfold addressSpace; omega)]
  · simp only [state, Option.bind_eq_bind, Option.bind_some]
    congr 2
    funext x
    exact takeIn_assign m lm.l_ld 2 junk stop x
  · intro i hi
    refine ⟨decide_eq_true (hstop.2 i hi), ?_⟩
    simp only [state, readDyn_eq, dynEvery, entryAddr_succ, takeIn]
    rfl
  · exact decide_eq_false (not_not.2 hstop.1)

/-- The variables whose values are addresses in the result. -/
def addressLocals : List Local := [.symtab, .strtab, .jmprel, .reldyn]

/-- The fields of the result that they go to. -/
def addressFields (r : lmap_result) : List (Local × Addr) :=
  [(.symtab, r.symtab), (.strtab, r.strtab), (.jmprel, r.jmprel), (.reldyn, r.reldyn)]

/-- There is a result unless a size is zero. -/
theorem makeResult_cases (lm : link_map) (locals : Local → Addr) :
    ((locals .syment = 0 ∨ locals .relent = 0) ∧ makeResult lm locals = none) ∨
    (locals .syment ≠ 0 ∧ locals .relent ≠ 0 ∧ ∃ r, makeResult lm locals = some r ∧
      addressFields r = addressLocals.map (fun x => (x, locals x)) ∧
      r.nrelplts = locals .relpltsz / locals .relent) := by
  unfold makeResult
  by_cases hzero : 0 = locals .syment ∨ 0 = locals .relent
  · rw [if_pos hzero]
    exact Or.inl ⟨hzero.imp Eq.symm Eq.symm, rfl⟩
  · rw [if_neg hzero]
    obtain ⟨hsyment, hrelent⟩ := not_or.1 hzero
    exact Or.inr ⟨Ne.symm hsyment, Ne.symm hrelent, _, rfl, rfl, rfl⟩

/-- Whatever the variables held before, there is a result, and it has the values of the
last entries of the array of n. -/
def Decodes (calls : DataCalls) (m : Memory) (lm : link_map) (n : ℕ) : Prop :=
  ∀ junk, ∃ r, handle_one_lmap calls m junk lm = some (some r) ∧
    (∀ p ∈ addressFields r, ∀ v, valueEvery m lm.l_ld sizeofDyn n p.1 = some v → p.2 = v) ∧
    ∀ size ent, valueEvery m lm.l_ld sizeofDyn n .relpltsz = some size →
      valueEvery m lm.l_ld sizeofDyn n .relent = some ent → r.nrelplts = size / ent

/-- The first stop places at every second byte tell the same as the array of n. -/
structure SeenSame (m : Memory) (base : Addr) (n stop : ℕ) : Prop where
  address : ∀ x ∈ addressLocals, ∀ v, valueEvery m base sizeofDyn n x = some v →
    valueEvery m base 2 stop x = some v
  syment : ∃ v, valueEvery m base 2 stop .syment = some v ∧ v ≠ 0
  relent : ∃ ent', valueEvery m base 2 stop .relent = some ent' ∧ ent' ≠ 0 ∧
    ∀ size ent, valueEvery m base sizeofDyn n .relpltsz = some size →
      valueEvery m base sizeofDyn n .relent = some ent →
      ∃ size', valueEvery m base 2 stop .relpltsz = some size' ∧ size' / ent' = size / ent

theorem decodes_of_seenSame (calls : DataCalls) (m : Memory) (lm : link_map) (n stop : ℕ)
    (hstop : EndsAt m lm.l_ld 2 stop) (h : SeenSame m lm.l_ld n stop) : Decodes calls m lm n := by
  intro junk
  obtain ⟨syment, hsyment, hsymne⟩ := h.syment
  obtain ⟨ent', hent', hentne, hquot⟩ := h.relent
  rw [handle_one_lmap_eq calls m junk lm stop hstop]
  rcases makeResult_cases lm (fun x => (valueEvery m lm.l_ld 2 stop x).getD (junk x)) with
    ⟨hzero, _⟩ | ⟨_, _, r, hr, hfields, hnrelplts⟩
  · simp only [hsyment, hent', Option.getD_some] at hzero
    exact absurd hzero (not_or.2 ⟨hsymne, hentne⟩)
  refine ⟨r, congrArg some hr, ?_, ?_⟩
  · intro p hp v hv
    rw [hfields] at hp
    obtain ⟨x, hx, rfl⟩ := List.mem_map.1 hp
    rw [h.address x hx v hv]
    rfl
  · intro size ent hsize hent
    obtain ⟨size', hsize', heq⟩ := hquot size ent hsize hent
    rw [hnrelplts, hsize', hent']
    exact heq

/-- A variable that has the right value whatever it held before was assigned it. -/
theorem eq_some_of_getD (o : Option Addr) (v : Addr) (h : ∀ junk, o.getD junk = v) :
    o = some v := by
  rcases o with _ | w
  · have hjunk : v + 1 = v := h (v + 1)
    exact absurd hjunk (by simp)
  · exact congrArg some (h 0)

/-- A quotient that does not depend on its numerator is none. -/
theorem div_junk (ent q : Addr) (hent : ent ≠ 0) (h : ∀ junk : Addr, junk / ent = q) : False := by
  have hzero := h 0
  have hones := h (BitVec.allOnes 64)
  have hq : q = 0 := by
    rw [← hzero]
    exact BitVec.zero_udiv
  rw [hq] at hones
  have htoNat := congrArg BitVec.toNat hones
  rw [BitVec.toNat_udiv, BitVec.toNat_allOnes] at htoNat
  have hlt := ent.isLt
  have hpos : 0 < ent.toNat := by
    rw [Nat.pos_iff_ne_zero]
    intro hz
    exact hent (BitVec.eq_of_toNat_eq hz)
  have hge : 1 ≤ (2 ^ 64 - 1) / ent.toNat := (Nat.one_le_div_iff hpos).2 (by omega)
  have hnone : (2 ^ 64 - 1) / ent.toNat = 0 := htoNat
  omega

/-- What is decoded when all the variables hold the same number before the walk. -/
theorem decoded_with_junk (calls : DataCalls) (m : Memory) (lm : link_map) (n stop : ℕ)
    (hstop : EndsAt m lm.l_ld 2 stop) (h : Decodes calls m lm n) (junk : Addr) :
    (valueEvery m lm.l_ld 2 stop .syment).getD junk ≠ 0 ∧
      (valueEvery m lm.l_ld 2 stop .relent).getD junk ≠ 0 ∧
      (∀ x ∈ addressLocals, ∀ v, valueEvery m lm.l_ld sizeofDyn n x = some v →
        (valueEvery m lm.l_ld 2 stop x).getD junk = v) ∧
      ∀ size ent, valueEvery m lm.l_ld sizeofDyn n .relpltsz = some size →
        valueEvery m lm.l_ld sizeofDyn n .relent = some ent →
        (valueEvery m lm.l_ld 2 stop .relpltsz).getD junk /
          (valueEvery m lm.l_ld 2 stop .relent).getD junk = size / ent := by
  obtain ⟨r, hr, haddress, hquot⟩ := h fun _ => junk
  rw [handle_one_lmap_eq calls m _ lm stop hstop, Option.some.injEq] at hr
  rcases makeResult_cases lm (fun x => (valueEvery m lm.l_ld 2 stop x).getD junk) with
    ⟨_, hnone⟩ | ⟨hsyment, hrelent, r', hr', hfields, hnrelplts⟩
  · rw [hnone] at hr
    simp at hr
  · rw [hr'] at hr
    obtain rfl := Option.some.inj hr
    rw [hfields] at haddress
    rw [hnrelplts] at hquot
    refine ⟨hsyment, hrelent, ?_, hquot⟩
    intro x hx v hv
    exact haddress _ (List.mem_map.2 ⟨x, hx, rfl⟩) v hv

theorem seenSame_of_decodes (calls : DataCalls) (m : Memory) (lm : link_map) (n stop : ℕ)
    (hstop : EndsAt m lm.l_ld 2 stop) (h : Decodes calls m lm n) : SeenSame m lm.l_ld n stop := by
  have hresult := decoded_with_junk calls m lm n stop hstop h
  -- a variable that was not assigned could hold zero
  have hassigned : ∀ x, (∀ junk : Addr, (valueEvery m lm.l_ld 2 stop x).getD junk ≠ 0) →
      ∃ v, valueEvery m lm.l_ld 2 stop x = some v ∧ v ≠ 0 := by
    intro x hx
    rcases hval : valueEvery m lm.l_ld 2 stop x with _ | v
    · exact absurd (by rw [hval]; rfl) (hx 0)
    · exact ⟨v, rfl, by simpa [hval] using hx 0⟩
  obtain ⟨ent', hent', hentne⟩ := hassigned .relent fun junk => (hresult junk).2.1
  refine ⟨?_, hassigned .syment fun junk => (hresult junk).1, ent', hent', hentne, ?_⟩
  · intro x hx v hv
    exact eq_some_of_getD _ v fun junk => (hresult junk).2.2.1 x hx v hv
  · intro size ent hsize hent
    have hquot := fun junk => (hresult junk).2.2.2 size ent hsize hent
    rw [hent'] at hquot
    rcases hval : valueEvery m lm.l_ld 2 stop .relpltsz with _ | size'
    · rw [hval] at hquot
      exact absurd hquot (div_junk ent' _ hentne)
    · refine ⟨size', rfl, ?_⟩
      rw [hval] at hquot
      exact hquot 0

/-- The entries are among the places at every second byte. -/
theorem dynEvery_eight (m : Memory) (base : Addr) (i : ℕ) :
    dynEvery m base 2 (8 * i) = dynEvery m base sizeofDyn i := by
  unfold dynEvery entryAddr sizeofDyn
  rw [← Nat.mul_assoc]

theorem exists_stop (m : Memory) (base : Addr) (n : ℕ) (hn : EndsAt m base sizeofDyn n) :
    ∃ stop ≤ 8 * n, EndsAt m base 2 stop := by
  have hzero : (dynEvery m base 2 (8 * n)).d_tag = DT_NULL := by
    rw [dynEvery_eight]
    exact hn.1
  exact exists_firstAt (fun d : Elf_Dyn => d.d_tag = DT_NULL) _ _ hzero

/-- The step of two bytes does no harm if and only if what lies at every second byte, up
to the first zero, tells the same as the array. -/
theorem decodes_iff (calls : DataCalls) (m : Memory) (lm : link_map) (n : ℕ)
    (hn : EndsAt m lm.l_ld sizeofDyn n) :
    Decodes calls m lm n ↔
      ∃ stop, EndsAt m lm.l_ld 2 stop ∧ SeenSame m lm.l_ld n stop := by
  constructor
  · intro h
    obtain ⟨stop, _, hstop⟩ := exists_stop m lm.l_ld n hn
    exact ⟨stop, hstop, seenSame_of_decodes calls m lm n stop hstop h⟩
  · intro h
    obtain ⟨stop, hstop, hseen⟩ := h
    exact decodes_of_seenSame calls m lm n stop hstop hseen

/-- A memory with the given numbers of eight bytes from 0x1000 on and zeros elsewhere. -/
def sectionOf (numbers : List ℕ) : Memory := fun a =>
  (((numbers.flatMap (LittleEndian.encode 8)).map UInt8.toBitVec)[(a - 0x1000).toNat]?).getD 0

/-- The library whose dynamic section is there. -/
def library : link_map := ⟨0x400000, 0, 0x1000, 0, 0⟩

/-- DT_SYMENT, DT_RELAENT and DT_SYMTAB, with no place between entries that is mistaken. -/
def lucky : Memory := sectionOf [11, 24, 9, 24, 6, 0x1234, 0, 0]

theorem decodes_lucky :
    EndsAt lucky library.l_ld sizeofDyn 3 ∧ Decodes DataCalls.copying lucky library 3 := by
  have hn : EndsAt lucky library.l_ld sizeofDyn 3 := ⟨by decide, by decide⟩
  have hsame : ∀ x ∈ addressLocals,
      valueEvery lucky library.l_ld 2 21 x = valueEvery lucky library.l_ld sizeofDyn 3 x := by
    decide
  have hnone : valueEvery lucky library.l_ld sizeofDyn 3 .relpltsz = none := by decide
  refine ⟨hn, (decodes_iff DataCalls.copying lucky library 3 hn).2 ⟨21, ⟨by decide, by decide⟩, ?_⟩⟩
  refine ⟨?_, ⟨24, by decide, by decide⟩, 24, by decide, by decide, ?_⟩
  · intro x hx v hv
    rw [hsame x hx, hv]
  · intro size ent hsize
    rw [hnone] at hsize
    simp at hsize

/-- The same section with another table: two bytes on, DT_SYMTAB and 0x400000 read as
zero, and the walk ends. -/
def unlucky : Memory := sectionOf [6, 0x400000, 11, 24, 9, 24, 0, 0]

/-- The sizes of the section are not found, and NULL is returned if the stack held zeros. -/
theorem not_decodes_unlucky :
    EndsAt unlucky library.l_ld sizeofDyn 3 ∧
      valueEvery unlucky library.l_ld sizeofDyn 3 .syment = some 24 ∧
      valueEvery unlucky library.l_ld sizeofDyn 3 .relent = some 24 ∧
      handle_one_lmap DataCalls.copying unlucky (fun _ => 0) library = some none ∧
      ¬ Decodes DataCalls.copying unlucky library 3 := by
  have hstop : EndsAt unlucky library.l_ld 2 1 := ⟨by decide, by decide⟩
  have hnull : handle_one_lmap DataCalls.copying unlucky (fun _ => 0) library = some none := by
    rw [handle_one_lmap_eq DataCalls.copying unlucky _ library 1 hstop]
    decide
  refine ⟨⟨by decide, by decide⟩, by decide, by decide, hnull, ?_⟩
  intro h
  obtain ⟨r, hr, _⟩ := h fun _ => 0
  rw [hnull] at hr
  simp at hr

/-- No place between two entries has a tag of the switch, and none before the last entry
is zero. -/
def Apart (m : Memory) (base : Addr) (n : ℕ) : Prop :=
  ∀ j < 8 * n, j % 8 ≠ 0 → caseOf (dynEvery m base 2 j).d_tag = none ∧
    (j < 8 * (n - 1) → (dynEvery m base 2 j).d_tag ≠ DT_NULL)

/-- Then the walk sees the entries and nothing else. -/
theorem valueEvery_apart (m : Memory) (base : Addr) (n stop : ℕ)
    (hn : EndsAt m base sizeofDyn n) (hstop : EndsAt m base 2 stop) (hle : stop ≤ 8 * n)
    (hapart : Apart m base n) (x : Local) :
    valueEvery m base 2 stop x = valueEvery m base sizeofDyn n x := by
  have hlate : 8 * (n - 1) < stop ∨ n = 0 := by
    by_contra hearly
    obtain ⟨hearly, hpos⟩ := not_or.1 hearly
    by_cases hentry : stop % 8 = 0
    · have hindex : stop = 8 * (stop / 8) := by omega
      have hnull := hstop.1
      rw [hindex, dynEvery_eight] at hnull
      exact hn.2 (stop / 8) (by omega) hnull
    · exact (hapart stop (by omega) hentry).2 (by omega) hstop.1
  have hcount : (stop + (8 - 1)) / 8 = n := by omega
  have hentries : (fun i => dynEvery m base 2 (8 * i)) = dynEvery m base sizeofDyn :=
    funext (dynEvery_eight m base)
  unfold valueEvery
  rw [lastHit_stride _ (dynEvery m base 2) 8 (by omega) stop ?_, hcount, hentries]
  intro j hj hbetween
  rw [(hapart j (by omega) hbetween).1]
  simp

/-- A section whose entries stand apart and that has both sizes is decoded. -/
theorem decodes_of_apart (calls : DataCalls) (m : Memory) (lm : link_map) (n : ℕ)
    (hn : EndsAt m lm.l_ld sizeofDyn n) (hapart : Apart m lm.l_ld n)
    (hsyment : ∃ v, valueEvery m lm.l_ld sizeofDyn n .syment = some v ∧ v ≠ 0)
    (hrelent : ∃ v, valueEvery m lm.l_ld sizeofDyn n .relent = some v ∧ v ≠ 0) :
    Decodes calls m lm n := by
  obtain ⟨stop, hle, hstop⟩ := exists_stop m lm.l_ld n hn
  have hsame := valueEvery_apart m lm.l_ld n stop hn hstop hle hapart
  apply decodes_of_seenSame calls m lm n stop hstop
  obtain ⟨ent, hent, hentne⟩ := hrelent
  refine ⟨?_, ?_, ent, ?_, hentne, ?_⟩
  · intro x _ v hv
    rw [hsame, hv]
  · rw [hsame]
    exact hsyment
  · rw [hsame, hent]
  · intro size ent' hsize hent'
    obtain rfl := Option.some.inj (hent.symm.trans hent')
    exact ⟨size, by rw [hsame, hsize], rfl⟩

end JvmTrace.LmapResult
