import JvmTrace.LmapResult
import JvmTrace.SymbolScan

/-!
find_symbol of src/trace.h, with what it calls put together: the libraries of a target in
the order of its link_map chain, each decoded by handle_one_lmap and searched as far as
find_symbol_in_linkmap goes. Every library without a name is skipped, the first ones too.
What the local variables of handle_one_lmap held before plays no part in libraries whose
sections it reads as they are.
-/
namespace JvmTrace.TraceSearch

open Loops Ptrace RemoteStrings TraceData LmapResult SymbolScan

/-- ptrace_getstr with its result, of which 0 is taken to mean that there is no string. -/
structure NameCall extends StringCall where
  nlen : Memory → Addr → ℕ → BitVec 32
  nlen_ne : ∀ m addr len, byteAt m addr 0 ≠ 0 → nlen m addr len ≠ 0

/-- A call that counts up to the length. -/
def NameCall.copying : NameCall where
  toStringCall := StringCall.copying
  nlen m addr _ := if byteAt m addr 0 = 0 then 0 else 1
  nlen_ne m addr _ h := by
    rw [if_neg h]
    decide

variable (calls : DataCalls) (names : NameCall) (m : Memory) (sym_name : SymName)
  (junk : Addr → Local → Addr)

/-- find_symbol_in_linkmap with the tables that handle_one_lmap finds. There is no result
when handle_one_lmap returns NULL, which is not tested. -/
def lookup (lm_addr : Addr) (lm : link_map) : Option Addr := do
  let lmret ← handle_one_lmap calls m (junk lm_addr) lm
  let lmret ← lmret
  let (answer, _) ← scanFrom calls names.toStringCall m lmret sym_name (2 ^ 31) 0 fun _ => 0
  return answer

/-- The loop, with the string that is in buf. -/
def searchFrom : ℕ → Addr → (ℕ → Byte) → Option Addr
  | 0, _, _ => none
  | rounds + 1, lm_addr, buf =>
    if lm_addr = 0 then some 0
    else
      let lmap := readLinkMap calls m lm_addr
      if 0 = lmap.l_name then searchFrom rounds lmap.l_next buf
      else
        let nlen := names.nlen m lmap.l_name 128
        let buf := names.ptrace_getstr m lmap.l_name buf 128
        if 0 = nlen ∨ buf 0 = 0 then searchFrom rounds lmap.l_next buf
        else do
          let sym_addr ← lookup calls names m sym_name junk lm_addr lmap
          if sym_addr ≠ 0 then some sym_addr else searchFrom rounds lmap.l_next buf

def find_symbol (lm_addr : Addr) : Option Addr :=
  searchFrom calls names m sym_name junk (addressSpace + 1) lm_addr fun _ => 0

/-- The next library, when there is one. -/
def library? (lm_addr : Addr) : Option Addr := if lm_addr = 0 then none else some lm_addr

/-- The addresses of the link_maps from the first one on. -/
def Chain (lm_addr : Addr) (addrs : List Addr) : Prop :=
  Follows (fun addr => library? (linkMapAt m addr).l_next) addrs (library? lm_addr)

/-- The library at an address has a name. -/
def named (addr : Addr) : Bool :=
  decide ((linkMapAt m addr).l_name ≠ 0 ∧ byteAt m (linkMapAt m addr).l_name 0 ≠ 0)

/-- One round: the library is skipped, or looked into. -/
theorem searchFrom_succ (rounds : ℕ) (addr : Addr) (buf : ℕ → Byte) (haddr : addr ≠ 0) :
    ∃ buf', searchFrom calls names m sym_name junk (rounds + 1) addr buf =
      if named m addr then
        (lookup calls names m sym_name junk addr (linkMapAt m addr)).bind fun sym_addr =>
          if sym_addr ≠ 0 then some sym_addr
          else searchFrom calls names m sym_name junk rounds (linkMapAt m addr).l_next buf'
      else searchFrom calls names m sym_name junk rounds (linkMapAt m addr).l_next buf' := by
  have hcopy : ∀ buf, names.ptrace_getstr m (linkMapAt m addr).l_name buf 128 0 =
      byteAt m (linkMapAt m addr).l_name 0 :=
    fun buf => names.getstr_eq m _ buf 128 0 (by simp)
  have hround : searchFrom calls names m sym_name junk (rounds + 1) addr buf = _ :=
    searchFrom.eq_2 calls names m sym_name junk addr buf rounds
  rw [hround]
  simp only [if_neg haddr, readLinkMap_eq, hcopy]
  by_cases hname : 0 = (linkMapAt m addr).l_name
  · have hnot : ¬ named m addr = true := fun h => (of_decide_eq_true h).1 hname.symm
    exact ⟨buf, by rw [if_pos hname, if_neg hnot]⟩
  · refine ⟨names.ptrace_getstr m (linkMapAt m addr).l_name buf 128, ?_⟩
    rw [if_neg hname]
    by_cases hempty : byteAt m (linkMapAt m addr).l_name 0 = 0
    · have hnot : ¬ named m addr = true := fun h => (of_decide_eq_true h).2 hempty
      rw [if_pos (Or.inr hempty), if_neg hnot]
    · have hnamed : named m addr = true := decide_eq_true ⟨Ne.symm hname, hempty⟩
      have hnlen := names.nlen_ne m (linkMapAt m addr).l_name 128 hempty
      rw [if_neg (not_or.2 ⟨Ne.symm hnlen, hempty⟩), if_pos hnamed]
      rfl

theorem library?_eq_none (addr : Addr) (h : library? addr = none) : addr = 0 := by
  by_contra hne
  unfold library? at h
  rw [if_neg hne] at h
  cases h

theorem library?_eq_some (addr next : Addr) (h : library? addr = some next) :
    addr ≠ 0 ∧ addr = next := by
  unfold library? at h
  split_ifs at h with hzero
  exact ⟨hzero, Option.some.inj h⟩

/-- The loop over a chain whose lookups return. -/
theorem searchFrom_eq (answer : Addr → Addr) (addrs : List Addr) (rounds : ℕ) (lm_addr : Addr)
    (buf : ℕ → Byte) (hchain : Chain m lm_addr addrs) (hrounds : addrs.length < rounds)
    (hanswer : ∀ addr ∈ addrs, named m addr = true →
      lookup calls names m sym_name junk addr (linkMapAt m addr) = some (answer addr)) :
    searchFrom calls names m sym_name junk rounds lm_addr buf =
      some ((((addrs.filter (named m)).map answer).find? fun a => decide (a ≠ 0)).getD 0) := by
  induction addrs generalizing rounds lm_addr buf with
  | nil =>
    simp only [List.length_nil] at hrounds
    obtain ⟨r, rfl⟩ : ∃ r, rounds = r + 1 := ⟨rounds - 1, by omega⟩
    have hzero := library?_eq_none lm_addr hchain
    unfold searchFrom
    rw [if_pos hzero]
    rfl
  | cons addr rest ih =>
    obtain ⟨hlink, hrest⟩ := hchain
    simp only [List.length_cons] at hrounds
    obtain ⟨r, rfl⟩ : ∃ r, rounds = r + 1 := ⟨rounds - 1, by omega⟩
    obtain ⟨hne, rfl⟩ := library?_eq_some lm_addr addr hlink
    have hlater := fun buf => ih r (linkMapAt m lm_addr).l_next buf hrest (by omega)
      fun a ha => hanswer a (List.mem_cons_of_mem _ ha)
    obtain ⟨buf', hround⟩ := searchFrom_succ calls names m sym_name junk r lm_addr buf hne
    rw [hround]
    by_cases hname : named m lm_addr = true
    · rw [if_pos hname, hanswer lm_addr (List.mem_cons_self ..) hname, Option.bind_some,
        List.filter_cons_of_pos hname, List.map_cons]
      by_cases hzero : answer lm_addr = 0
      · rw [if_neg (not_not.2 hzero), hlater, List.find?_cons, hzero]
        rfl
      · rw [if_pos hzero, List.find?_cons, decide_eq_true hzero]
        rfl
    · rw [if_neg hname, hlater, List.filter_cons_of_neg hname]

/-- Where the tables of a library are: the number of its dynamic entries, the addresses
among them that are used, and the index at which the search of its symbols stops. -/
structure Layout where
  entries : ℕ
  symtab : Addr
  strtab : Addr
  stop : ℕ

/-- The tables as the search uses them. -/
def Layout.tables (l : Layout) (lm : link_map) : lmap_result :=
  ⟨l.symtab, l.strtab, 0, 0, lm.l_addr, 0, 0, 0⟩

/-- The library has this layout, and nothing between two entries of its dynamic section is
mistaken for one. -/
structure Layout.Fits (l : Layout) (lm : link_map) : Prop where
  ends : EndsAt m lm.l_ld sizeofDyn l.entries
  apart : Apart m lm.l_ld l.entries
  syment : ∃ v, valueEvery m lm.l_ld sizeofDyn l.entries .syment = some v ∧ v ≠ 0
  relent : ∃ v, valueEvery m lm.l_ld sizeofDyn l.entries .relent = some v ∧ v ≠ 0
  symtab : valueEvery m lm.l_ld sizeofDyn l.entries .symtab = some l.symtab
  strtab : valueEvery m lm.l_ld sizeofDyn l.entries .strtab = some l.strtab
  stops : FirstAt (Stops m (l.tables lm) sym_name) id l.stop
  int : l.stop < 2 ^ 31

/-- The search looks at three fields of the tables. -/
theorem scanFrom_congr (strings : StringCall) (r r' : lmap_result) (hsymtab : r.symtab = r'.symtab)
    (hstrtab : r.strtab = r'.strtab) (hlink : r.link_addr = r'.link_addr) (rounds i : ℕ)
    (buf : ℕ → Byte) :
    scanFrom calls strings m r sym_name rounds i buf =
      scanFrom calls strings m r' sym_name rounds i buf := by
  have hentry : ∀ i buf, scanEntry calls strings m r sym_name i buf =
      scanEntry calls strings m r' sym_name i buf := by
    intro i buf
    unfold scanEntry
    rw [hsymtab, hstrtab, hlink]
  induction rounds generalizing i buf with
  | zero => rfl
  | succ rounds ih =>
    unfold scanFrom
    rw [hentry]
    cases scanEntry calls strings m r' sym_name i buf with
    | inl answer => rfl
    | inr buf' => exact ih (i + 1) buf'

/-- The address that such a library answers with. -/
def Layout.answer (l : Layout) (lm : link_map) : Addr := answerAt m (l.tables lm) l.stop

theorem lookup_fits (l : Layout) (lm_addr : Addr) (lm : link_map) (hfits : l.Fits m sym_name lm) :
    lookup calls names m sym_name junk lm_addr lm = some (l.answer m lm) := by
  obtain ⟨stop, hle, hstop⟩ := exists_stop m lm.l_ld l.entries hfits.ends
  have hsame := valueEvery_apart m lm.l_ld l.entries stop hfits.ends hstop hle hfits.apart
  obtain ⟨syment, hsyment, hsymne⟩ := hfits.syment
  obtain ⟨relent, hrelent, hrelne⟩ := hfits.relent
  have hresult := handle_one_lmap_eq calls m (junk lm_addr) lm stop hstop
  unfold makeResult at hresult
  simp only [hsame, hsyment, hrelent, hfits.symtab, hfits.strtab, Option.getD_some] at hresult
  rw [if_neg (not_or.2 ⟨Ne.symm hsymne, Ne.symm hrelne⟩)] at hresult
  have hint := hfits.int
  have hscan : ∀ r : lmap_result, r.symtab = l.symtab → r.strtab = l.strtab →
      r.link_addr = lm.l_addr →
      scanFrom calls names.toStringCall m r sym_name (2 ^ 31) 0 (fun _ => 0) =
        some (l.answer m lm, l.stop) := by
    intro r hsymtab hstrtab hlink
    rw [scanFrom_congr calls m sym_name names.toStringCall r (l.tables lm) hsymtab hstrtab hlink]
    exact scanFrom_stops calls names.toStringCall m (l.tables lm) sym_name l.stop hfits.stops
      (2 ^ 31) 0 _ (by omega) (by omega)
  unfold lookup
  rw [hresult]
  simp only [Option.bind_eq_bind, Option.bind_some]
  rw [hscan]
  · rfl
  · rfl
  · rfl
  · rfl

theorem chain_length_le (lm_addr : Addr) (addrs : List Addr) (h : Chain m lm_addr addrs) :
    addrs.length ≤ addressSpace := by
  have hcard := h.nodup.length_le_card
  rwa [← FinEnum.card_eq_fintypeCard, FinEnum.card_bitVec] at hcard

/-- In a chain whose named libraries have such layouts the search ends, with the first
answer that is not 0, or with 0, and uninitialised variables do not change it. -/
theorem find_symbol_fits (layout : Addr → Layout) (lm_addr : Addr) (addrs : List Addr)
    (hchain : Chain m lm_addr addrs)
    (hfits : ∀ addr ∈ addrs, named m addr = true →
      (layout addr).Fits m sym_name (linkMapAt m addr)) :
    find_symbol calls names m sym_name junk lm_addr =
      some ((((addrs.filter (named m)).map fun addr =>
        (layout addr).answer m (linkMapAt m addr)).find? fun a => decide (a ≠ 0)).getD 0) := by
  have hlength := chain_length_le m lm_addr addrs hchain
  apply searchFrom_eq calls names m sym_name junk
    (fun addr => (layout addr).answer m (linkMapAt m addr)) addrs (addressSpace + 1) lm_addr _
    hchain (by omega)
  intro addr haddr hname
  exact lookup_fits calls names m sym_name junk _ addr _ (hfits addr haddr hname)

/-- Two link_maps, the first without a name, and from 0x1050 on the section, the name, the
strings and the symbols of the second. -/
def twoMaps : Memory := sectionOf
  [0, 0, 0, 0x1028, 0, 0x400000, 0x10a0, 0x1050, 0, 0x1000,
    11, 24, 9, 24, 6, 0x10b0, 5, 0x10a8, 0, 0, 0x4c, 0x6100, 0, 0, 0, 1, 0x40, 8]

def symbolA : SymName := ⟨[0x61], by simp⟩

def secondLayout : Layout := ⟨4, 0x10b0, 0x10a8, 1⟩

theorem secondLayout_fits : secondLayout.Fits twoMaps symbolA (linkMapAt twoMaps 0x1028) where
  ends := ⟨by decide, by decide⟩
  apart := by
    unfold Apart
    decide
  syment := ⟨24, by decide, by decide⟩
  relent := ⟨24, by decide, by decide⟩
  symtab := by decide
  strtab := by decide
  stops := by
    refine ⟨Or.inr (by decide), ?_⟩
    intro i hi
    obtain rfl : i = 0 := by
      have hstop : secondLayout.stop = 1 := rfl
      omega
    exact not_or.2 ⟨by decide, by decide⟩
  int := by decide

/-- The unnamed library is skipped, the symbol is found in the second. -/
theorem find_symbol_fits_twoMaps :
    find_symbol DataCalls.copying NameCall.copying twoMaps symbolA (fun _ _ => 7) 0x1000 =
      some 0x400040 := by
  have hchain : Chain twoMaps 0x1000 [0x1000, 0x1028] := by
    have hend : library? (linkMapAt twoMaps 0x1028).l_next = none := by decide
    exact ⟨by decide, by decide, hend⟩
  have hfits : ∀ addr ∈ ([0x1000, 0x1028] : List Addr), named twoMaps addr = true →
      secondLayout.Fits twoMaps symbolA (linkMapAt twoMaps addr) := by
    intro addr haddr hname
    rcases List.mem_pair.1 haddr with rfl | rfl
    · exact absurd hname (by decide)
    · exact secondLayout_fits
  rw [find_symbol_fits DataCalls.copying NameCall.copying twoMaps symbolA (fun _ _ => 7)
    (fun _ => secondLayout) 0x1000 [0x1000, 0x1028] hchain hfits]
  decide

end JvmTrace.TraceSearch
