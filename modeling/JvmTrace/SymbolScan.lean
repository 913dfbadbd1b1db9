import JvmTrace.RemoteStrings
import JvmTrace.TraceData

/-!
find_symbol_in_linkmap of src/trace.h, over the tables that handle_one_lmap has found.
Its loop goes on as long as the int i is not negative and never looks at nsymbols: it
ends at the symbol, or at an entry whose name begins with a byte that is no printable
ASCII character, which is taken for the end of the table. With neither below 2^31 the
counter overflows, and there is no result.
-/
namespace JvmTrace.SymbolScan

open Loops Ptrace RemoteStrings TraceData

/-- The bytes of the target from an address on. -/
def byteAt (m : Memory) (addr : Addr) (k : ℕ) : Byte := m (addr + BitVec.ofNat 64 k)

/-- ptrace_getstr, which is not part of the repository: it copies the string at the
address with its NUL into the buffer. Nothing is known of the buffer behind the NUL. -/
structure StringCall where
  ptrace_getstr : Memory → Addr → (ℕ → Byte) → ℕ → ℕ → Byte
  getstr_eq : ∀ m addr buf len k, (∀ j < k, byteAt m addr j ≠ 0) →
    ptrace_getstr m addr buf len k = byteAt m addr k

/-- A call that leaves the rest of the buffer alone. -/
def StringCall.copying : StringCall where
  ptrace_getstr m addr buf _ k :=
    if ∀ j < k, byteAt m addr j ≠ 0 then byteAt m addr k else buf k
  getstr_eq _ _ _ _ _ h := if_pos h

/-- The test on buf[0], a signed char. -/
def looksWrong (c : Byte) : Bool :=
  decide (c ≠ 0) && (decide (32 > c.toInt) || decide (127 = c.toInt))

def sizeofSym : ℕ := 24

variable (calls : DataCalls) (strings : StringCall) (m : Memory) (lmret : lmap_result)
  (sym_name : SymName)

/-- The body of the loop: it returns an answer, or goes on with what is in buf. -/
def scanEntry (i : ℕ) (buf : ℕ → Byte) : Addr ⊕ (ℕ → Byte) :=
  let sym := readSym calls m (lmret.symtab + BitVec.ofNat 64 (sizeofSym * i))
  if sym.st_name = 0 ∧ sym.st_size = 0 ∧ sym.st_value = 0 then .inr buf
  else
    let buf := strings.ptrace_getstr m (lmret.strtab + sym.st_name.setWidth 64) buf 128
    if looksWrong (buf 0) then .inl 0
    else if strcmp buf sym_name = 0 then
      if sym.st_value = 0 then .inr buf else .inl (lmret.link_addr + sym.st_value)
    else .inr buf

/-- The loop from index i on, with the answer and the index of the entry read last. No
rounds are left when i++ would overflow. -/
def scanFrom : ℕ → ℕ → (ℕ → Byte) → Option (Addr × ℕ)
  | 0, _, _ => none
  | rounds + 1, i, buf =>
    match scanEntry calls strings m lmret sym_name i buf with
    | .inl answer => some (answer, i)
    | .inr buf => scanFrom rounds (i + 1) buf

/-- The tables are those that handle_one_lmap returns for the library. -/
def find_symbol_in_linkmap (handle_one_lmap : Memory → link_map → lmap_result) (lm : link_map) :
    Option (Addr × ℕ) :=
  scanFrom calls strings m (handle_one_lmap m lm) sym_name (2 ^ 31) 0 fun _ => 0

/-- The entries of the symbol table. -/
def symbol (i : ℕ) : Elf_Sym := symAt m (entryAddr lmret.symtab sizeofSym i)

/-- Where the name of an entry is. -/
def nameAddr (i : ℕ) : Addr := lmret.strtab + (symbol m lmret i).st_name.setWidth 64

/-- The entry has the name, and a value. -/
def Defines (i : ℕ) : Prop :=
  (symbol m lmret i).st_value ≠ 0 ∧
    ∀ k < sym_name.bytes.length + 1, byteAt m (nameAddr m lmret i) k = sym_name.bytes.getD k 0

/-- The entry is not all zero and its name does not begin like one. -/
def Wrong (i : ℕ) : Prop :=
  ¬ ((symbol m lmret i).st_name = 0 ∧ (symbol m lmret i).st_size = 0 ∧
    (symbol m lmret i).st_value = 0) ∧ looksWrong (byteAt m (nameAddr m lmret i) 0) = true

instance (i : ℕ) : Decidable (Defines m lmret sym_name i) :=
  inferInstanceAs (Decidable (_ ∧ _))

instance (i : ℕ) : Decidable (Wrong m lmret i) :=
  inferInstanceAs (Decidable (_ ∧ _))

/-- The loop ends at such an entry. -/
def Stops (i : ℕ) : Prop := Wrong m lmret i ∨ Defines m lmret sym_name i

/-- The answer it gives there. -/
def answerAt (i : ℕ) : Addr :=
  if Wrong m lmret i then 0 else lmret.link_addr + (symbol m lmret i).st_value

/-- One round ends the loop or goes on to the next entry. -/
theorem scanEntry_cases (i : ℕ) (buf : ℕ → Byte) :
    (Stops m lmret sym_name i ∧
      scanEntry calls strings m lmret sym_name i buf = .inl (answerAt m lmret i)) ∨
    (¬ Stops m lmret sym_name i ∧ ∃ buf',
      scanEntry calls strings m lmret sym_name i buf = .inr buf') := by
  have hsym : readSym calls m (lmret.symtab + BitVec.ofNat 64 (sizeofSym * i)) =
      symbol m lmret i := readSym_eq calls m _
  have haddr : lmret.strtab + (symbol m lmret i).st_name.setWidth 64 = nameAddr m lmret i := rfl
  have hcopy := strings.getstr_eq m (nameAddr m lmret i) buf 128
  have hname := strcmp_copied (byteAt m (nameAddr m lmret i))
    (strings.ptrace_getstr m (nameAddr m lmret i) buf 128) sym_name fun k _ => hcopy k
  unfold scanEntry
  simp only [hsym, haddr, hcopy 0 (by simp)]
  by_cases hblank : (symbol m lmret i).st_name = 0 ∧ (symbol m lmret i).st_size = 0 ∧
      (symbol m lmret i).st_value = 0
  · rw [if_pos hblank]
    refine Or.inr ⟨?_, buf, rfl⟩
    intro h
    rcases h with hwrong | hdefines
    · exact hwrong.1 hblank
    · exact hdefines.1 hblank.2.2
  rw [if_neg hblank]
  by_cases hlooks : looksWrong (byteAt m (nameAddr m lmret i) 0) = true
  · have hwrong : Wrong m lmret i := ⟨hblank, hlooks⟩
    refine Or.inl ⟨Or.inl hwrong, ?_⟩
    unfold answerAt
    rw [if_pos hlooks, if_pos hwrong]
  have hwrong : ¬ Wrong m lmret i := fun h => hlooks h.2
  rw [if_neg hlooks]
  by_cases hmatch : strcmp (strings.ptrace_getstr m (nameAddr m lmret i) buf 128) sym_name = 0
  · rw [if_pos hmatch]
    by_cases hvalue : (symbol m lmret i).st_value = 0
    · rw [if_pos hvalue]
      exact Or.inr ⟨not_or.2 ⟨hwrong, fun h => h.1 hvalue⟩, _, rfl⟩
    · rw [if_neg hvalue]
      refine Or.inl ⟨Or.inr ⟨hvalue, hname.1 hmatch⟩, ?_⟩
      unfold answerAt
      rw [if_neg hwrong]
  · rw [if_neg hmatch]
    exact Or.inr ⟨not_or.2 ⟨hwrong, fun h => hmatch (hname.2 h.2)⟩, _, rfl⟩

/-- The loop ends at the first entry it can end at. -/
theorem scanFrom_stops (stop : ℕ) (hstop : FirstAt (Stops m lmret sym_name) id stop)
    (rounds i : ℕ) (buf : ℕ → Byte) (hi : i ≤ stop) (hrounds : stop < i + rounds) :
    scanFrom calls strings m lmret sym_name rounds i buf = some (answerAt m lmret stop, stop) := by
  induction rounds generalizing i buf with
  | zero => omega
  | succ rounds ih =>
    unfold scanFrom
    rcases scanEntry_cases calls strings m lmret sym_name i buf with
      ⟨hhere, hentry⟩ | ⟨hgo, buf', hentry⟩
    · obtain rfl : i = stop := Nat.le_antisymm hi (hstop.le hhere)
      rw [hentry]
    · have hne : i ≠ stop := by
        rintro rfl
        exact hgo hstop.1
      rw [hentry]
      exact ih (i + 1) buf' (by omega) (by omega)

theorem scanFrom_never (rounds i : ℕ) (buf : ℕ → Byte)
    (hnever : ∀ j, i ≤ j → j < i + rounds → ¬ Stops m lmret sym_name j) :
    scanFrom calls strings m lmret sym_name rounds i buf = none := by
  induction rounds generalizing i buf with
  | zero => rfl
  | succ rounds ih =>
    unfold scanFrom
    rcases scanEntry_cases calls strings m lmret sym_name i buf with
      ⟨hhere, _⟩ | ⟨_, buf', hentry⟩
    · exact absurd hhere (hnever i (by omega) (by omega))
    · rw [hentry]
      exact ih (i + 1) buf' fun j hij hj => hnever j (by omega) (by omega)

/-- The search ends, has read entries below nsymbols only, and answers with the first of
them that defines the symbol, or with 0. -/
def Exact (handle_one_lmap : Memory → link_map → lmap_result) (lm : link_map) : Prop :=
  ∃ answer last,
    find_symbol_in_linkmap calls strings m sym_name handle_one_lmap lm = some (answer, last) ∧
    last < (handle_one_lmap m lm).nsymbols.toNat ∧
    (∀ i < (handle_one_lmap m lm).nsymbols.toNat,
      FirstAt (Defines m (handle_one_lmap m lm) sym_name) id i →
      answer = (handle_one_lmap m lm).link_addr + (symbol m (handle_one_lmap m lm) i).st_value) ∧
    ((∀ i < (handle_one_lmap m lm).nsymbols.toNat,
      ¬ Defines m (handle_one_lmap m lm) sym_name i) → answer = 0)

/-- The search is exact if and only if it meets, below nsymbols and below 2^31, an entry
that it ends at, and the first such entry is the right one: when it only looks wrong, no
entry below nsymbols defines the symbol, or the address defined first is 0. -/
theorem exact_iff (handle_one_lmap : Memory → link_map → lmap_result) (lm : link_map) :
    Exact calls strings m sym_name handle_one_lmap lm ↔
      ∃ stop < (handle_one_lmap m lm).nsymbols.toNat, stop < 2 ^ 31 ∧
        FirstAt (Stops m (handle_one_lmap m lm) sym_name) id stop ∧
        (Wrong m (handle_one_lmap m lm) stop →
          ∀ i < (handle_one_lmap m lm).nsymbols.toNat,
            FirstAt (Defines m (handle_one_lmap m lm) sym_name) id i →
            (handle_one_lmap m lm).link_addr + (symbol m (handle_one_lmap m lm) i).st_value = 0) := by
  generalize hlmret : handle_one_lmap m lm = lmret
  unfold Exact find_symbol_in_linkmap
  rw [hlmret]
  constructor
  · intro h
    obtain ⟨answer, last, hfind, hlast, hfirst, _⟩ := h
    obtain ⟨k, hk, hstops⟩ : ∃ k < 2 ^ 31, Stops m lmret sym_name k := by
      by_contra hnone
      rw [scanFrom_never calls strings m lmret sym_name (2 ^ 31) 0 _
        (fun j _ hj hstops => hnone ⟨j, by omega, hstops⟩)] at hfind
      simp at hfind
    obtain ⟨stop, hle, hstop⟩ := exists_firstAt (Stops m lmret sym_name) id k hstops
    rw [scanFrom_stops calls strings m lmret sym_name stop hstop (2 ^ 31) 0 _ (by omega)
      (by omega), Option.some.injEq, Prod.mk.injEq] at hfind
    obtain ⟨rfl, rfl⟩ := hfind
    refine ⟨stop, hlast, by omega, hstop, ?_⟩
    intro hwrong i hi hdefines
    rw [← hfirst i hi hdefines]
    exact if_pos hwrong
  · intro h
    obtain ⟨stop, hlt, hint, hstop, hright⟩ := h
    refine ⟨answerAt m lmret stop, stop, scanFrom_stops calls strings m lmret sym_name stop hstop
      (2 ^ 31) 0 _ (by omega) (by omega), hlt, ?_, ?_⟩
    · intro i hi hdefines
      by_cases hwrong : Wrong m lmret stop
      · rw [hright hwrong i hi hdefines]
        exact if_pos hwrong
      · have hhere : Defines m lmret sym_name stop := hstop.1.resolve_left hwrong
        have hle : stop ≤ i := hstop.le (Or.inr hdefines.1)
        obtain rfl : i = stop := Nat.le_antisymm (hdefines.le hhere) hle
        exact if_neg hwrong
    · intro hnone
      have hwrong : Wrong m lmret stop := hstop.1.resolve_right (hnone stop hlt)
      exact if_pos hwrong

/-- The string puts at 0x7f1, its symbol with the value 0x40 behind the null entry of the
table at 0x800, and zeros elsewhere. -/
def putsMemory : Memory := fun a =>
  ([0, 0x70, 0x75, 0x74, 0x73, 0, 0, 0, 0, 0, 0, 0, 0, 0, 0, 0,
    0, 0, 0, 0, 0, 0, 0, 0, 0, 0, 0, 0, 0, 0, 0, 0, 0, 0, 0, 0, 0, 0, 0, 0,
    1, 0, 0, 0, 0x12, 0, 1, 0, 0x40, 0, 0, 0, 0, 0, 0, 0, 8, 0, 0, 0, 0, 0, 0, 0]
    : List Byte).getD (a - 0x7f0).toNat 0

def putsTables (_ : Memory) (_ : link_map) : lmap_result :=
  ⟨0x800, 0x7f0, 0, 0, 0x400000, 2, 0, 0⟩

def anyMap : link_map := ⟨0x400000, 0, 0, 0, 0⟩

theorem exact_puts :
    Exact DataCalls.copying StringCall.copying putsMemory ⟨[0x70, 0x75, 0x74, 0x73], by decide⟩
      putsTables anyMap := by
  apply (exact_iff DataCalls.copying StringCall.copying putsMemory _ putsTables anyMap).2
  refine ⟨1, by decide, by decide, ⟨Or.inr (by decide), ?_⟩, fun hwrong => ?_⟩
  · intro i hi
    obtain rfl : i = 0 := by omega
    exact not_or.2 ⟨by decide, by decide⟩
  · exact absurd hwrong (by decide)

/-- Behind the table there is nothing. -/
theorem putsMemory_blank (j : ℕ) (hj : 2 ≤ j) (hint : j < 2 ^ 31) :
    symbol putsMemory (putsTables putsMemory anyMap) j = ⟨0, 0, 0⟩ := by
  have hzeros : bytesFrom putsMemory (entryAddr 0x800 sizeofSym j) 24 = List.replicate 24 0 := by
    unfold bytesFrom
    rw [List.eq_replicate_iff]
    refine ⟨by simp, ?_⟩
    intro b hb
    obtain ⟨k, hk, rfl⟩ := List.mem_map.1 hb
    have hk := List.mem_range.1 hk
    unfold putsMemory entryAddr sizeofSym
    apply List.getD_eq_default
    have hdist : (0x800 + BitVec.ofNat 64 (24 * j) + BitVec.ofNat 64 k - 0x7f0 : Addr).toNat =
        16 + 24 * j + k := by
      have hsymtab : (0x800 : Addr).toNat = 0x800 := rfl
      have hstrtab : (0x7f0 : Addr).toNat = 0x7f0 := rfl
      simp only [BitVec.toNat_sub, BitVec.toNat_add, BitVec.toNat_ofNat, hsymtab, hstrtab]
      omega
    rw [hdist]
    simp only [List.length_cons, List.length_nil]
    omega
  show symAt putsMemory (entryAddr 0x800 sizeofSym j) = _
  unfold symAt
  rw [hzeros]
  rfl

/-- A symbol that the library does not have is looked for behind its two entries, for ever. -/
theorem not_exact_missing :
    find_symbol_in_linkmap DataCalls.copying StringCall.copying putsMemory ⟨[0x71], by decide⟩
        putsTables anyMap = none ∧
      ¬ Exact DataCalls.copying StringCall.copying putsMemory ⟨[0x71], by decide⟩
        putsTables anyMap := by
  have hnever : ∀ j < 2 ^ 31, ¬ Stops putsMemory (putsTables putsMemory anyMap)
      ⟨[0x71], by decide⟩ j := by
    have htwo : ∀ j < 2, ¬ Wrong putsMemory (putsTables putsMemory anyMap) j ∧
        ¬ Defines putsMemory (putsTables putsMemory anyMap) ⟨[0x71], by decide⟩ j := by
      decide
    intro j hj
    by_cases htable : j < 2
    · exact not_or.2 (htwo j htable)
    · have hblank := putsMemory_blank j (by omega) hj
      intro h
      rcases h with hwrong | hdefines
      · exact hwrong.1 (by rw [hblank]; exact ⟨rfl, rfl, rfl⟩)
      · exact hdefines.1 (by rw [hblank])
  have hnone : find_symbol_in_linkmap DataCalls.copying StringCall.copying putsMemory
      ⟨[0x71], by decide⟩ putsTables anyMap = none :=
    scanFrom_never _ _ _ _ _ (2 ^ 31) 0 _ fun j _ hj => hnever j (by omega)
  refine ⟨hnone, ?_⟩
  intro h
  obtain ⟨answer, last, hfind, _⟩ := h
  rw [hnone] at hfind
  simp at hfind

end JvmTrace.SymbolScan
