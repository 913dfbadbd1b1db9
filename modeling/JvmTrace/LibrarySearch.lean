import JvmTrace.SymbolLookup

/-!
find_symbol of src/tt.cpp: the libraries of a target in the order of its link_map
chain, up to the first lookup that gives an address. The first two are searched
without a look at their names; a later one with an empty name is skipped, which
takes the loop back to its test with the address still 0 and the skipped link_map
at hand. The globals that one lookup leaves are those the next one starts from, and
with them the size that each section divides by.
-/
namespace JvmTrace.LibrarySearch

open Ptrace Elf Loops DynamicSection RemoteStrings SymbolLookup

/-- What malloc delivers during a search: to the lookup in each library, and for the
name of each. The library of the argument map has no address of its own. -/
structure SearchHeap where
  lookup : Option Word → Heap
  name : Word → ℕ → Byte

/-- The test of the loop. -/
def goesOn (s : Word × link_map × Globals) : Bool := decide (s.1 = 0 ∧ s.2.1.l_next ≠ 0)

/-- A round of the loop. Its break is the address that is not 0, at which the test of
the loop fails. -/
def searchNext (heap : SearchHeap) (m : Memory) (sym_name : SymName)
    (s : Word × link_map × Globals) : Option (Word × link_map × Globals) :=
  let l_next := s.2.1.l_next
  let lm := readLinkMap m l_next
  let str := ptrace_readstr m lm.l_name (heap.name l_next)
  if str 0 = 0 then some (s.1, lm, s.2.2)
  else do
    let (sym_addr, g) ←
      find_symbol_in_linkmap (heap.lookup (some l_next)) m lm sym_name s.2.2
    return (sym_addr, lm, g)

def find_symbol (heap : SearchHeap) (m : Memory) (map : link_map) (sym_name : SymName)
    (g : Globals) : Option (Word × Globals) := do
  let (sym_addr, g) ← find_symbol_in_linkmap (heap.lookup none) m map sym_name g
  if sym_addr ≠ 0 then return (sym_addr, g)
  if map.l_next = 0 then return (0, g)
  let lm := readLinkMap m map.l_next
  let (sym_addr, g) ←
    find_symbol_in_linkmap (heap.lookup (some map.l_next)) m lm sym_name g
  let s ← whileLoop goesOn (searchNext heap m sym_name) addressSpace (sym_addr, lm, g)
  return (s.1, s.2.2)

/-- The next library, when there is one. -/
def link (lm : link_map) : Option Word := if lm.l_next = 0 then none else some lm.l_next

/-- The addresses of the link_maps behind the first one, up to an l_next of 0. -/
def Chain (m : Memory) (map : link_map) (addrs : List Word) : Prop :=
  Follows (fun addr => link (linkMapAt m addr)) addrs (link map)

/-- The lookup in the library at an address, or in that of the argument map. -/
def lookupIn (heap : SearchHeap) (m : Memory) (map : link_map) (sym_name : SymName)
    (lib : Option Word) (g : Globals) : Option (Word × Globals) :=
  find_symbol_in_linkmap (heap.lookup lib) m (lib.elim map (linkMapAt m)) sym_name g

/-- The name of the library at an address is not empty. -/
def named (m : Memory) (addr : Word) : Bool := decide (m (linkMapAt m addr).l_name ≠ 0)

/-- The libraries to be searched, in order: the first two, and the later ones with a name. -/
def searched (m : Memory) : List Word → List (Option Word)
  | [] => [none]
  | second :: later => none :: some second :: (later.filter (named m)).map some

/-- The answer is the first one that is not 0 in the libraries to be searched, or it is 0
and so are all of theirs. No library behind the one that answers is searched. -/
def FirstNonZero (heap : SearchHeap) (m : Memory) (map : link_map) (sym_name : SymName)
    (addrs : List Word) (g : Globals) (ret : Word) (g' : Globals) : Prop :=
  (ret = 0 ∧ AllZero (lookupIn heap m map sym_name) (searched m addrs) g g') ∨
    (ret ≠ 0 ∧ ∃ before lib after g₁, searched m addrs = before ++ lib :: after ∧
      AllZero (lookupIn heap m map sym_name) before g g₁ ∧
      lookupIn heap m map sym_name lib g₁ = some (ret, g'))

/-- Where the dynamic section of a library begins. -/
def sectionOf (m : Memory) (map : link_map) (lib : Option Word) : Word :=
  (lib.elim map (linkMapAt m)).l_ld

/-- The sections end, and each leaves a size that is not 0 behind: its own last one, or
that of the sections before it. -/
def Sized (m : Memory) (map : link_map) : List (Option Word) → Word → Prop
  | [], _ => True
  | lib :: rest, relsize =>
    ∃ n, EndsAt m (sectionOf m map lib) n ∧
      (entSize m (sectionOf m map lib) n).getD relsize ≠ 0 ∧
      Sized m map rest ((entSize m (sectionOf m map lib) n).getD relsize)

/-- The same of the libraries that are searched: those before which all have given 0. -/
def SearchedSized (heap : SearchHeap) (m : Memory) (map : link_map) (sym_name : SymName)
    (addrs : List Word) (g : Globals) : Prop :=
  ∀ before lib after g₁, searched m addrs = before ++ lib :: after →
    AllZero (lookupIn heap m map sym_name) before g g₁ → Sized m map (before ++ [lib]) g.relsize

theorem chain_length_le (m : Memory) (map : link_map) (addrs : List Word)
    (h : Chain m map addrs) : addrs.length ≤ addressSpace := by
  have hcard := h.nodup.length_le_card
  rwa [← FinEnum.card_eq_fintypeCard, FinEnum.card_bitVec] at hcard

theorem link_eq_none (lm : link_map) (h : link lm = none) : lm.l_next = 0 := by
  unfold link at h
  by_contra hne
  rw [if_neg hne] at h
  simp at h

theorem link_eq_some (lm : link_map) (addr : Word) (h : link lm = some addr) :
    lm.l_next ≠ 0 ∧ lm.l_next = addr := by
  unfold link at h
  by_cases hzero : lm.l_next = 0
  · rw [if_pos hzero] at h
    simp at h
  · rw [if_neg hzero] at h
    exact ⟨hzero, Option.some.inj h⟩

section Search

variable (heap : SearchHeap) (m : Memory) (map : link_map) (sym_name : SymName)

/-- A round of the loop looks the name up in the next library if that has a name. -/
theorem searchNext_eq (lm : link_map) (g : Globals) (addr : Word) (haddr : lm.l_next = addr) :
    searchNext heap m sym_name (0, lm, g) =
      if named m addr then
        (lookupIn heap m map sym_name (some addr) g).map fun answer =>
          (answer.1, linkMapAt m addr, answer.2)
      else some (0, linkMapAt m addr, g) := by
  subst haddr
  unfold searchNext lookupIn named
  simp only [readLinkMap_eq, ptrace_readstr_zero, Option.elim_some]
  by_cases hname : m (linkMapAt m lm.l_next).l_name = 0
  · simp [hname]
  · simp only [hname, if_false, ne_eq, not_false_eq_true, decide_true, if_true]
    cases find_symbol_in_linkmap (heap.lookup (some lm.l_next)) m (linkMapAt m lm.l_next)
      sym_name g <;> rfl

/-- The loop searches the rest of the chain when the address it starts with is 0. -/
theorem searchLoop_eq (later : List Word) (answer : Word) (lm : link_map) (g : Globals)
    (rounds : ℕ) (hchain : Follows (fun addr => link (linkMapAt m addr)) later (link lm))
    (hrounds : later.length < rounds) :
    (whileLoop goesOn (searchNext heap m sym_name) rounds (answer, lm, g)).map
        (fun s => (s.1, s.2.2)) =
      if answer = 0 then
        firstAnswer (lookupIn heap m map sym_name) ((later.filter (named m)).map some) g
      else some (answer, g) := by
  by_cases hanswer : answer = 0
  swap
  · have hstop : goesOn (answer, lm, g) = false := decide_eq_false fun h => hanswer h.1
    rw [if_neg hanswer, whileLoop_stop rounds _ hstop (by omega)]
    rfl
  rw [if_pos hanswer]
  subst hanswer
  induction later generalizing lm g rounds with
  | nil =>
    have hlast := link_eq_none lm hchain
    have hstop : goesOn (0, lm, g) = false := decide_eq_false fun h => h.2 hlast
    rw [whileLoop_stop rounds _ hstop hrounds]
    rfl
  | cons addr rest ih =>
    obtain ⟨hlink, hrest⟩ := hchain
    obtain ⟨hne, haddr⟩ := link_eq_some lm addr hlink
    simp only [List.length_cons] at hrounds
    obtain ⟨r, rfl⟩ : ∃ r, rounds = r + 1 := ⟨rounds - 1, by omega⟩
    have hgo : goesOn (0, lm, g) = true := decide_eq_true ⟨rfl, hne⟩
    unfold whileLoop
    rw [if_pos hgo, searchNext_eq heap m map sym_name lm g addr haddr]
    by_cases hname : named m addr = true
    · rw [if_pos hname, List.filter_cons_of_pos hname, List.map_cons]
      unfold firstAnswer
      rcases lookupIn heap m map sym_name (some addr) g with _ | ⟨answer, g₁⟩
      · rfl
      · simp only [Option.map_some, Option.bind_some]
        by_cases hzero : answer = 0
        · subst hzero
          rw [if_pos rfl]
          exact ih (linkMapAt m addr) g₁ r hrest (by omega)
        · have hstop : goesOn (answer, linkMapAt m addr, g₁) = false :=
            decide_eq_false fun h => hzero h.1
          rw [if_neg hzero, whileLoop_stop r _ hstop (by omega)]
          rfl
    · rw [if_neg hname, List.filter_cons_of_neg hname, Option.bind_some]
      exact ih (linkMapAt m addr) g r hrest (by omega)

/-- The three parts of find_symbol are one search through the chain. -/
theorem find_symbol_eq (addrs : List Word) (g : Globals) (hchain : Chain m map addrs) :
    find_symbol heap m map sym_name g =
      firstAnswer (lookupIn heap m map sym_name) (searched m addrs) g := by
  have hlength := chain_length_le m map addrs hchain
  have hhead : find_symbol_in_linkmap (heap.lookup none) m map sym_name g =
      lookupIn heap m map sym_name none g := rfl
  unfold find_symbol
  rw [hhead]
  cases addrs with
  | nil =>
    have hlast := link_eq_none map hchain
    unfold searched firstAnswer firstAnswer
    rcases lookupIn heap m map sym_name none g with _ | ⟨answer, g₁⟩
    · rfl
    · by_cases hzero : answer = 0
      · simp only [Option.bind_eq_bind, Option.bind_some, hzero, ne_eq, not_true_eq_false,
          if_false, hlast, if_true]
        rfl
      · simp only [Option.bind_eq_bind, Option.bind_some, hzero, ne_eq, not_false_eq_true,
          if_true, if_false]
        rfl
  | cons second later =>
    obtain ⟨hlink, hrest⟩ := hchain
    obtain ⟨hne, haddr⟩ := link_eq_some map second hlink
    simp only [List.length_cons] at hlength
    have hsecond : ∀ g, find_symbol_in_linkmap (heap.lookup (some map.l_next)) m
        (readLinkMap m map.l_next) sym_name g = lookupIn heap m map sym_name (some second) g := by
      intro g
      rw [readLinkMap_eq, haddr]
      rfl
    unfold searched firstAnswer
    rcases lookupIn heap m map sym_name none g with _ | ⟨answer, g₁⟩
    · rfl
    · by_cases hzero : answer = 0
      · unfold firstAnswer
        simp only [Option.bind_eq_bind, Option.bind_some, hzero, ne_eq, not_true_eq_false,
          if_false, hne, if_true, hsecond]
        rcases lookupIn heap m map sym_name (some second) g₁ with _ | ⟨answer', g₂⟩
        · rfl
        · have hloop := searchLoop_eq heap m map sym_name later answer' (linkMapAt m second) g₂
            addressSpace hrest (by omega)
          rw [haddr, readLinkMap_eq]
          simp only [Option.bind_some]
          rw [← hloop]
          exact Option.map_eq_bind.symm
      · simp only [Option.bind_eq_bind, Option.bind_some, hzero, ne_eq, not_false_eq_true,
          if_true, if_false]
        rfl

/-- The search fails to return only in a lookup that does not return itself. -/
theorem find_symbol_eq_none (addrs : List Word) (g : Globals) (hchain : Chain m map addrs) :
    find_symbol heap m map sym_name g = none ↔
      ∃ before lib after g₁, searched m addrs = before ++ lib :: after ∧
        AllZero (lookupIn heap m map sym_name) before g g₁ ∧
        lookupIn heap m map sym_name lib g₁ = none := by
  rw [find_symbol_eq heap m map sym_name addrs g hchain]
  apply firstAnswer_eq_iff
  simp

/-- Lookups that answer, up to one more, have had sections with a size to divide by. -/
theorem sized_of_lookups (before : List (Option Word)) (lib : Option Word) (g g₁ : Globals)
    (hzero : AllZero (lookupIn heap m map sym_name) before g g₁)
    (hlib : lookupIn heap m map sym_name lib g₁ ≠ none) :
    Sized m map (before ++ [lib]) g.relsize := by
  induction before generalizing g with
  | nil =>
    obtain rfl : g₁ = g := hzero
    obtain ⟨⟨ret, g'⟩, hlookup⟩ := Option.ne_none_iff_exists'.1 hlib
    obtain ⟨n, hend, hne, _⟩ := lookup_ends _ m _ sym_name g₁ g' ret hlookup
    exact ⟨n, hend, hne, trivial⟩
  | cons first rest ih =>
    obtain ⟨g₂, hfirst, hrest⟩ := hzero
    obtain ⟨n, hend, hne, hrelsize⟩ := lookup_ends _ m _ sym_name g g₂ 0 hfirst
    refine ⟨n, hend, hne, ?_⟩
    change Sized m map (rest ++ [lib]) ((entSize m (sectionOf m map first) n).getD g.relsize)
    have hsized := ih g₂ hrest
    rw [hrelsize] at hsized
    exact hsized

/-- The last of such sections is one that its lookup returns from. -/
theorem lookup_of_sized (before : List (Option Word)) (lib : Option Word) (g g₁ : Globals)
    (hzero : AllZero (lookupIn heap m map sym_name) before g g₁)
    (hsized : Sized m map (before ++ [lib]) g.relsize) :
    lookupIn heap m map sym_name lib g₁ ≠ none := by
  induction before generalizing g with
  | nil =>
    obtain rfl : g₁ = g := hzero
    obtain ⟨n, hend, hne, _⟩ := hsized
    obtain ⟨answer, hlookup⟩ :=
      lookup_returns (heap.lookup lib) m (lib.elim map (linkMapAt m)) sym_name g₁ n hend hne
    exact Option.ne_none_iff_exists'.2 ⟨answer, hlookup⟩
  | cons first rest ih =>
    obtain ⟨g₂, hfirst, hrest⟩ := hzero
    obtain ⟨n, hend, hne, hrestSized⟩ := hsized
    obtain ⟨k, hk, _, hrelsize⟩ := lookup_ends _ m _ sym_name g g₂ 0 hfirst
    obtain rfl : n = k := hend.unique hk
    apply ih g₂ hrest
    rw [hrelsize]
    exact hrestSized

theorem find_symbol_returns_iff (addrs : List Word) (g : Globals) (hchain : Chain m map addrs) :
    find_symbol heap m map sym_name g ≠ none ↔
      SearchedSized heap m map sym_name addrs g := by
  rw [Ne, find_symbol_eq_none heap m map sym_name addrs g hchain]
  constructor
  · intro hreturns before lib after g₁ hsplit hzero
    apply sized_of_lookups heap m map sym_name before lib g g₁ hzero
    intro hnone
    exact hreturns ⟨before, lib, after, g₁, hsplit, hzero, hnone⟩
  · intro hsized hnone
    obtain ⟨before, lib, after, g₁, hsplit, hzero, hlib⟩ := hnone
    exact lookup_of_sized heap m map sym_name before lib g g₁ hzero
      (hsized before lib after g₁ hsplit hzero) hlib

/-- What the search returns is 0 exactly when all the libraries to be searched give 0, and
otherwise the first address that is not 0, with the globals of the lookup that gave it. It
returns exactly when the section of each library it comes to ends and has a size to divide
by. -/
theorem find_symbol_first (addrs : List Word) (g : Globals) (hchain : Chain m map addrs) :
    (∀ g', find_symbol heap m map sym_name g = some (0, g') ↔
      AllZero (lookupIn heap m map sym_name) (searched m addrs) g g') ∧
    (∀ ret g', ret ≠ 0 → (find_symbol heap m map sym_name g = some (ret, g') ↔
      ∃ before lib after g₁, searched m addrs = before ++ lib :: after ∧
        AllZero (lookupIn heap m map sym_name) before g g₁ ∧
        lookupIn heap m map sym_name lib g₁ = some (ret, g'))) ∧
    ((∃ ret g', find_symbol heap m map sym_name g = some (ret, g') ∧
        FirstNonZero heap m map sym_name addrs g ret g') ↔
      SearchedSized heap m map sym_name addrs g) := by
  have hall : ∀ g', find_symbol heap m map sym_name g = some (0, g') ↔
      AllZero (lookupIn heap m map sym_name) (searched m addrs) g g' := by
    intro g'
    rw [find_symbol_eq heap m map sym_name addrs g hchain]
    exact firstAnswer_eq_zero_iff _ (searched m addrs) g g'
  have hfirst : ∀ ret g', ret ≠ 0 → (find_symbol heap m map sym_name g = some (ret, g') ↔
      ∃ before lib after g₁, searched m addrs = before ++ lib :: after ∧
        AllZero (lookupIn heap m map sym_name) before g g₁ ∧
        lookupIn heap m map sym_name lib g₁ = some (ret, g')) := by
    intro ret g' hne
    rw [find_symbol_eq heap m map sym_name addrs g hchain]
    apply firstAnswer_eq_iff
    intro g₁ heq
    exact hne (congrArg Prod.fst (Option.some.inj heq))
  refine ⟨hall, hfirst, ?_⟩
  rw [← find_symbol_returns_iff heap m map sym_name addrs g hchain]
  constructor
  · intro h
    obtain ⟨ret, g', hfind, _⟩ := h
    simp [hfind]
  · intro h
    obtain ⟨⟨ret, g'⟩, hfind⟩ := Option.ne_none_iff_exists'.1 h
    refine ⟨ret, g', hfind, ?_⟩
    by_cases hzero : ret = 0
    · subst hzero
      exact Or.inl ⟨rfl, (hall g').1 hfind⟩
    · exact Or.inr ⟨hzero, (hfirst ret g' hzero).1 hfind⟩

end Search

theorem searchNext_dyn_addr (heap : SearchHeap) (m : Memory) (sym_name : SymName)
    (s t : Word × link_map × Globals) (h : searchNext heap m sym_name s = some t) :
    t.2.2.dyn_addr = s.2.2.dyn_addr := by
  unfold searchNext at h
  simp only at h
  split_ifs at h
  · obtain rfl := Option.some.inj h
    rfl
  · obtain ⟨⟨ret, g⟩, hlookup, hret⟩ := Option.bind_eq_some_iff.1 h
    obtain rfl := Option.some.inj hret
    exact find_symbol_in_linkmap_dyn_addr _ m _ sym_name _ g ret hlookup

theorem find_symbol_dyn_addr (heap : SearchHeap) (m : Memory) (map : link_map)
    (sym_name : SymName) (g g' : Globals) (ret : Word)
    (h : find_symbol heap m map sym_name g = some (ret, g')) : g'.dyn_addr = g.dyn_addr := by
  obtain ⟨⟨ret₁, g₁⟩, hfirst, hrest⟩ := Option.bind_eq_some_iff.1 h
  have hg₁ := find_symbol_in_linkmap_dyn_addr _ m map sym_name g g₁ ret₁ hfirst
  simp only at hrest
  split_ifs at hrest
  · obtain rfl : g₁ = g' := congrArg Prod.snd (Option.some.inj hrest)
    exact hg₁
  · obtain rfl : g₁ = g' := congrArg Prod.snd (Option.some.inj hrest)
    exact hg₁
  · obtain ⟨⟨ret₂, g₂⟩, hsecond, hloop⟩ := Option.bind_eq_some_iff.1 hrest
    have hg₂ := find_symbol_in_linkmap_dyn_addr _ m _ sym_name g₁ g₂ ret₂ hsecond
    obtain ⟨t, hwhile, hret⟩ := Option.bind_eq_some_iff.1 hloop
    obtain rfl : t.2.2 = g' := congrArg Prod.snd (Option.some.inj hret)
    refine whileLoop_preserves (fun s => s.2.2.dyn_addr = g.dyn_addr) ?_ _ _ t ?_ hwhile
    · intro s u hs hu
      rw [searchNext_dyn_addr heap m sym_name s u hu, hs]
    · exact hg₂.trans hg₁

/-- A program without a hash table before the library of the symbol. -/
def program : link_map := ⟨0x10000, 0, 0x2008, 0x5000, 0⟩

def zeroSearchHeap : SearchHeap := ⟨fun _ => zeroHeap, fun _ _ => 0⟩

theorem program_chain : Chain (ofWords library) program [0x5000] := by
  have hend : link (linkMapAt (ofWords library) 0x5000) = none := by decide
  exact ⟨by decide, hend⟩

theorem find_symbol_program :
    Chain (ofWords library) program [0x5000] ∧
      (∃ g', find_symbol zeroSearchHeap (ofWords library) program nameA Globals.start =
        some (0x20500, g')) ∧
      SearchedSized zeroSearchHeap (ofWords library) program nameA [0x5000] Globals.start := by
  let g₁ : Globals := searchGlobals (ofWords library) program Globals.start 3
  have hfirst : lookupIn zeroSearchHeap (ofWords library) program nameA none Globals.start =
      some (0, g₁) :=
    lookup_empty zeroHeap (ofWords library) program nameA Globals.start 3 0 hashless_endsAt
      (by decide) (by decide) (by decide)
  let lm : link_map := linkMapAt (ofWords library) 0x5000
  have hinfo := get_sym_info_some (ofWords library) lm g₁ 4 library_endsAt (by decide)
  have hsecond : lookupIn zeroSearchHeap (ofWords library) program nameA (some 0x5000) g₁ =
      some (0x20500, searchGlobals (ofWords library) lm g₁ 4) :=
    lookup_nameA lm g₁ _ hinfo (by decide) (by decide) (by decide)
  obtain ⟨_, hanswer, hreturns⟩ := find_symbol_first zeroSearchHeap (ofWords library) program
    nameA [0x5000] Globals.start program_chain
  have hsplit : ∃ before lib after g, searched (ofWords library) [0x5000] = before ++ lib :: after ∧
      AllZero (lookupIn zeroSearchHeap (ofWords library) program nameA) before Globals.start g ∧
      lookupIn zeroSearchHeap (ofWords library) program nameA lib g =
        some (0x20500, searchGlobals (ofWords library) lm g₁ 4) :=
    ⟨[none], some 0x5000, [], g₁, rfl, ⟨g₁, hfirst, rfl⟩, hsecond⟩
  have hfind := (hanswer 0x20500 _ (by decide)).2 hsplit
  exact ⟨program_chain, ⟨_, hfind⟩, hreturns.1 ⟨0x20500, _, hfind, Or.inr ⟨by decide, hsplit⟩⟩⟩

/-- A program that has no relocations, and nothing behind it. -/
def lone : link_map := ⟨0x10000, 0, 0x2000, 0, 0⟩

def sizeless : Memory := ofWords [(0x2000, DT_SYMTAB), (0x2004, 0x3000)]

/-- Its section ends, but no section has set the size that get_sym_info divides by. -/
theorem find_symbol_sizeless :
    Chain sizeless lone [] ∧ EndsAt sizeless lone.l_ld 1 ∧
      find_symbol zeroSearchHeap sizeless lone nameA Globals.start = none ∧
      ¬ ∃ ret g', find_symbol zeroSearchHeap sizeless lone nameA Globals.start = some (ret, g') ∧
        FirstNonZero zeroSearchHeap sizeless lone nameA [] Globals.start ret g' := by
  have hend : EndsAt sizeless lone.l_ld 1 := by
    refine ⟨by decide, ?_⟩
    intro i hi
    obtain rfl : i = 0 := by omega
    decide
  have hinfo : get_sym_info sizeless lone Globals.start = none := by
    rw [get_sym_info_eq sizeless lone Globals.start 1 hend, divide_zero _ (by decide)]
  have hnone : find_symbol zeroSearchHeap sizeless lone nameA Globals.start = none := by
    unfold find_symbol find_symbol_in_linkmap
    rw [hinfo]
    rfl
  refine ⟨rfl, hend, hnone, ?_⟩
  intro h
  obtain ⟨ret, g', hfind, _⟩ := h
  rw [hnone] at hfind
  cases hfind

end JvmTrace.LibrarySearch
