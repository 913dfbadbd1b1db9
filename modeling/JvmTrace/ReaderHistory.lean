import JvmTrace.DynamicSection
import JvmTrace.Runs

/-!
Calls of get_sym_info and get_dyn_info of src/tt.cpp one after the other, on targets
that may change in between. Both end with a division by the global relsize. A call
that returns has divided, so it leaves a relsize that is not zero, and a later section
without an entry size divides by that one; the first section has nothing to fall back
on.
-/
namespace JvmTrace.ReaderHistory

open Ptrace Elf LinkMap DynamicSection Runs

inductive Reader
  | get_sym_info (m : Memory) (lm : link_map)
  | get_dyn_info (m : Memory)

def call (g : Globals) : Reader → Option Globals
  | .get_sym_info m lm => get_sym_info m lm g
  | .get_dyn_info m => get_dyn_info m g

/-- The memory a call reads, and where its section begins. -/
def Reader.memory : Reader → Memory
  | .get_sym_info m _ => m
  | .get_dyn_info m => m

def Reader.base (g : Globals) : Reader → Word
  | .get_sym_info _ lm => lm.l_ld
  | .get_dyn_info _ => g.dyn_addr

/-- The call returns, with the quotient by a relsize that is not zero. -/
def Divides (g : Globals) (reader : Reader) : Prop :=
  ∃ g', call g reader = some g' ∧ g'.relsize ≠ 0 ∧ g'.nrels = g'.totalrelsize / g'.relsize

/-- The section gives an entry size that is not zero, or gives none when an earlier
call has left one. -/
def SizeKnown (m : Memory) (base : Word) (n : ℕ) (earlier : List Reader) : Prop :=
  (∃ size, entSize m base n = some size ∧ size ≠ 0) ∨
    (entSize m base n = none ∧ earlier ≠ [])

theorem divide_relsize (g g' : Globals) (h : divide g = some g') :
    g'.relsize = g.relsize ∧ g.relsize ≠ 0 ∧ g'.nrels = g'.totalrelsize / g'.relsize := by
  by_cases hzero : g.relsize = 0
  · rw [divide_zero g hzero] at h
    simp at h
  · rw [divide_ne_zero g hzero] at h
    obtain rfl := Option.some.inj h
    exact ⟨rfl, hzero, rfl⟩

/-- A call that returns leaves a relsize that is not zero. -/
theorem call_relsize_ne_zero (g g' : Globals) (reader : Reader)
    (h : call g reader = some g') : g'.relsize ≠ 0 := by
  cases reader with
  | get_sym_info m lm =>
    obtain ⟨s, _, hdivide⟩ := Option.bind_eq_some_iff.1 h
    obtain ⟨hsame, hne, _⟩ := divide_relsize _ _ hdivide
    rwa [hsame]
  | get_dyn_info m =>
    obtain ⟨s, _, hdivide⟩ := Option.bind_eq_some_iff.1 h
    obtain ⟨hsame, hne, _⟩ := divide_relsize _ _ hdivide
    rwa [hsame]

theorem run_relsize_ne_zero (g g' : Globals) (calls : List Reader)
    (hrun : run call g calls = some g') (hg : g.relsize ≠ 0) : g'.relsize ≠ 0 := by
  apply run_invariant _ hrun hg
  intro s reader t hstep _
  exact call_relsize_ne_zero s t reader hstep

/-- The relsize of the program's start lasts as long as no call has been made. -/
theorem relsize_eq_zero_iff (g : Globals) (earlier : List Reader)
    (hrun : run call Globals.start earlier = some g) : g.relsize = 0 ↔ earlier = [] := by
  cases earlier with
  | nil =>
    obtain rfl : Globals.start = g := Option.some.inj hrun
    simp [Globals.start]
  | cons reader rest =>
    obtain ⟨g₁, hcall, hrest⟩ := (run_cons_eq_some _ _ _ _).1 hrun
    have hne := run_relsize_ne_zero g₁ g rest hrest (call_relsize_ne_zero _ g₁ reader hcall)
    exact ⟨fun hzero => absurd hzero hne, fun hnil => by simp at hnil⟩

/-- A call on a section that ends is a division of what the section has set. -/
theorem call_eq_divide (g : Globals) (reader : Reader) (n : ℕ)
    (hend : EndsAt reader.memory (reader.base g) n) :
    ∃ g₁, call g reader = divide g₁ ∧
      g₁.relsize = (entSize reader.memory (reader.base g) n).getD g.relsize := by
  cases reader with
  | get_sym_info m lm => exact ⟨_, get_sym_info_eq m lm g n hend, rfl⟩
  | get_dyn_info m => exact ⟨_, get_dyn_info_eq m g n hend, rfl⟩

/-- After any earlier calls that returned, a call on a section that ends divides by a
relsize that is not zero if and only if the entry size is known. -/
theorem divides_iff (g : Globals) (earlier : List Reader) (reader : Reader) (n : ℕ)
    (hrun : run call Globals.start earlier = some g)
    (hend : EndsAt reader.memory (reader.base g) n) :
    Divides g reader ↔ SizeKnown reader.memory (reader.base g) n earlier := by
  obtain ⟨g₁, hcall, hrelsize⟩ := call_eq_divide g reader n hend
  have hzero := relsize_eq_zero_iff g earlier hrun
  have hdivides : Divides g reader ↔ g₁.relsize ≠ 0 := by
    constructor
    · intro h
      obtain ⟨g', hg', _, _⟩ := h
      exact (divide_relsize g₁ g' (hcall.symm.trans hg')).2.1
    · intro hne
      refine ⟨_, hcall.trans (divide_ne_zero g₁ hne), hne, rfl⟩
  rw [hdivides, hrelsize]
  unfold SizeKnown
  rcases entSize reader.memory (reader.base g) n with _ | size
  · constructor
    · intro hne
      exact Or.inr ⟨rfl, fun hnil => hne (hzero.2 hnil)⟩
    · intro h
      rcases h with ⟨size, hsize, _⟩ | ⟨_, hearlier⟩
      · simp at hsize
      · exact fun hg => hearlier (hzero.1 hg)
  · simp

/-- A library whose section is at 0x2000. -/
def bare : link_map := ⟨0, 0, 0x2000, 0, 0⟩

/-- A section with an entry size, and one without. -/
def sized : Memory := ofWords [(0x2000, DT_RELENT), (0x2004, 8)]

def unsized : Memory := ofWords [(0x2000, DT_SYMTAB)]

theorem sized_endsAt : EndsAt sized bare.l_ld 1 := by
  refine ⟨by decide, ?_⟩
  intro i hi
  obtain rfl : i = 0 := by omega
  decide

theorem unsized_endsAt : EndsAt unsized bare.l_ld 1 := by
  refine ⟨by decide, ?_⟩
  intro i hi
  obtain rfl : i = 0 := by omega
  decide

theorem divides_after_sized :
    ∃ g, run call Globals.start [.get_sym_info sized bare] = some g ∧
      Divides g (.get_sym_info unsized bare) := by
  have hfirst := get_sym_info_eq sized bare Globals.start 1 sized_endsAt
  rw [divide_ne_zero _ (by decide)] at hfirst
  let g : Globals := { symInfo sized bare.l_ld Globals.start 1 with nrels := 0 }
  have hrun : run call Globals.start [.get_sym_info sized bare] = some g :=
    (run_cons_eq_some _ _ _ _).2 ⟨g, hfirst, rfl⟩
  exact ⟨g, hrun, (divides_iff _ _ (.get_sym_info unsized bare) 1 hrun unsized_endsAt).2
    (Or.inr ⟨by decide, by simp⟩)⟩

/-- The section without an entry size, when it is the first one that is read. -/
theorem not_divides_unsized :
    EndsAt unsized bare.l_ld 1 ∧ get_sym_info unsized bare Globals.start = none ∧
      ¬ Divides Globals.start (.get_sym_info unsized bare) := by
  have hnone : get_sym_info unsized bare Globals.start = none := by
    rw [get_sym_info_eq unsized bare Globals.start 1 unsized_endsAt, divide_zero _ (by decide)]
  refine ⟨unsized_endsAt, hnone, ?_⟩
  intro h
  obtain ⟨g', hcall, _, _⟩ := h
  have hsome : get_sym_info unsized bare Globals.start = some g' := hcall
  rw [hnone] at hsome
  simp at hsome

end JvmTrace.ReaderHistory
