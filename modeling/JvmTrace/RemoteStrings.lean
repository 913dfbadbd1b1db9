import JvmTrace.Elf

/-!
ptrace_readstr of src/tt.cpp. A string of the target is copied into 64 bytes from
malloc, a word a round, up to and including its NUL. After sixteen rounds the
buffer is full, and a string of 64 bytes or more leaves it without a NUL: what
follows is what happened to lie behind it. A buffer is therefore a function on all
offsets, and the bytes that were not written are those found there before.
-/
namespace JvmTrace.RemoteStrings

open Ptrace Elf Loops

/-- The buffer and the index i of ptrace_readstr; ended is set by its breaks. -/
structure Reading where
  str : ℕ → Byte
  i : ℕ
  ended : Bool

/-- What is done in turn with pa[0], pa[1], pa[2] and pa[3]. -/
def Reading.put (s : Reading) (b : Byte) : Reading :=
  if s.ended then s
  else if b = 0 then { s with str := Function.update s.str s.i 0, ended := true }
  else { s with str := Function.update s.str s.i b, i := s.i + 1 }

def Reading.putWord (s : Reading) (pa : ℕ → Byte) : Reading :=
  (((s.put (pa 0)).put (pa 1)).put (pa 2)).put (pa 3)

/-- The loop, while i is at most 60. -/
def readWords (m : Memory) (addr : Word) : ℕ → ℕ → Reading → Reading
  | 0, _, s => s
  | rounds + 1, count, s =>
    if s.ended = false ∧ s.i ≤ 60 then
      readWords m addr rounds (count + 4)
        (s.putWord (bytesOf (peektext m (addr + BitVec.ofNat 32 count))))
    else s

/-- Sixteen rounds take i beyond 60. The argument str is what malloc delivers. -/
def ptrace_readstr (m : Memory) (addr : Word) (str : ℕ → Byte) : ℕ → Byte :=
  (readWords m addr 16 0 ⟨str, 0, false⟩).str

/-- The bytes of the target from an address on. -/
def byteFrom (m : Memory) (addr : Word) (k : ℕ) : Byte := m (addr + BitVec.ofNat 32 k)

/-- The first n bytes of the target have been looked at: what the buffer holds. -/
structure Taken (byte str : ℕ → Byte) (n : ℕ) (s : Reading) : Prop where
  str_eq : ∀ k, s.str k = if k < n ∧ ∀ j < k, byte j ≠ 0 then byte k else str k
  ended_iff : s.ended = true ↔ ∃ j < n, byte j = 0
  i_eq : s.ended = false → s.i = n

theorem taken_zero (byte str : ℕ → Byte) : Taken byte str 0 ⟨str, 0, false⟩ where
  str_eq := by simp
  ended_iff := by simp
  i_eq := by simp

theorem put_ended (s : Reading) (b : Byte) (hs : s.ended = true) : s.put b = s := by
  unfold Reading.put
  rw [if_pos hs]

theorem put_nul (s : Reading) (b : Byte) (hs : ¬ s.ended = true) (hb : b = 0) :
    s.put b = ⟨Function.update s.str s.i 0, s.i, true⟩ := by
  unfold Reading.put
  rw [if_neg hs, if_pos hb]

theorem put_char (s : Reading) (b : Byte) (hs : ¬ s.ended = true) (hb : b ≠ 0) :
    s.put b = ⟨Function.update s.str s.i b, s.i + 1, s.ended⟩ := by
  unfold Reading.put
  rw [if_neg hs, if_neg hb]

/-- The buffer after one more byte, when no NUL was met before. -/
theorem update_taken (byte str buffer : ℕ → Byte) (n : ℕ) (hnone : ∀ j < n, byte j ≠ 0)
    (h : ∀ k, buffer k = if k < n ∧ ∀ j < k, byte j ≠ 0 then byte k else str k) (k : ℕ) :
    Function.update buffer n (byte n) k =
      if k < n + 1 ∧ ∀ j < k, byte j ≠ 0 then byte k else str k := by
  by_cases hk : k = n
  · subst hk
    rw [Function.update_self, if_pos ⟨by omega, hnone⟩]
  · rw [Function.update_of_ne hk, h k]
    congr 2
    apply propext
    omega

theorem taken_put (byte str : ℕ → Byte) (n : ℕ) (s : Reading) (h : Taken byte str n s) :
    Taken byte str (n + 1) (s.put (byte n)) := by
  by_cases hs : s.ended = true
  · obtain ⟨j, hj, hzero⟩ := h.ended_iff.1 hs
    rw [put_ended s _ hs]
    refine ⟨?_, ?_, fun hf => by simp [hs] at hf⟩
    · intro k
      rw [h.str_eq k]
      by_cases hk : k = n
      · -- at n itself a NUL has been met before
        have hmet : ¬ ∀ i < k, byte i ≠ 0 := by
          intro hall
          exact hall j (by omega) hzero
        rw [if_neg fun hc => hmet hc.2, if_neg fun hc => hmet hc.2]
      · congr 2
        apply propext
        omega
    · simp only [hs, true_iff]
      exact ⟨j, by omega, hzero⟩
  · have hnone : ∀ j < n, byte j ≠ 0 := by
      intro j hj hzero
      exact hs (h.ended_iff.2 ⟨j, hj, hzero⟩)
    have hi : s.i = n := h.i_eq (by simpa using hs)
    have hstr := update_taken byte str s.str n hnone h.str_eq
    by_cases hb : byte n = 0
    · rw [put_nul s _ hs hb, hi]
      refine ⟨?_, ?_, fun hf => by simp at hf⟩
      · rwa [hb] at hstr
      · simp only [true_iff]
        exact ⟨n, by omega, hb⟩
    · rw [put_char s _ hs hb, hi]
      refine ⟨hstr, ⟨fun hended => absurd hended hs, ?_⟩, fun _ => rfl⟩
      intro h
      obtain ⟨j, hj, hzero⟩ := h
      exfalso
      rcases Nat.lt_succ_iff_lt_or_eq.1 hj with hlt | rfl
      · exact hnone j hlt hzero
      · exact hb hzero

/-- Nothing changes after the NUL. -/
theorem taken_ended (byte str : ℕ → Byte) (n d : ℕ) (s : Reading) (h : Taken byte str n s)
    (hs : s.ended = true) : Taken byte str (n + d) s := by
  induction d with
  | zero => exact h
  | succ d ih =>
    have hput := taken_put byte str (n + d) s ih
    rwa [put_ended s _ hs] at hput

theorem readWords_taken (m : Memory) (addr : Word) (str : ℕ → Byte) (rounds count : ℕ)
    (s : Reading) (h : Taken (byteFrom m addr) str count s) (hcount : count + 4 * rounds = 64) :
    Taken (byteFrom m addr) str 64 (readWords m addr rounds count s) := by
  induction rounds generalizing count s with
  | zero =>
    obtain rfl : count = 64 := by omega
    exact h
  | succ rounds ih =>
    unfold readWords
    by_cases hs : s.ended = true
    · have hend := taken_ended _ str count (4 * (rounds + 1)) s h hs
      rw [hcount] at hend
      simpa [hs] using hend
    · have hrun : s.ended = false ∧ s.i ≤ 60 := by
        have hf : s.ended = false := by simpa using hs
        have hi := h.i_eq hf
        exact ⟨hf, by omega⟩
      rw [if_pos hrun]
      apply ih (count + 4) _ _ (by omega)
      unfold Reading.putWord
      simp only [bytesOf_peektext m addr count _ (show 0 < 4 by omega),
        bytesOf_peektext m addr count _ (show 1 < 4 by omega),
        bytesOf_peektext m addr count _ (show 2 < 4 by omega),
        bytesOf_peektext m addr count _ (show 3 < 4 by omega)]
      exact taken_put _ str _ _ (taken_put _ str _ _ (taken_put _ str _ _ (taken_put _ str _ _ h)))

/-- A byte of the buffer is the target's up to its NUL and within the 64 bytes. -/
theorem ptrace_readstr_apply (m : Memory) (addr : Word) (str : ℕ → Byte) (k : ℕ) :
    ptrace_readstr m addr str k =
      if k < 64 ∧ ∀ j < k, byteFrom m addr j ≠ 0 then byteFrom m addr k else str k :=
  (readWords_taken m addr str 16 0 _ (taken_zero _ str) (by omega)).str_eq k

theorem ptrace_readstr_zero (m : Memory) (addr : Word) (str : ℕ → Byte) :
    ptrace_readstr m addr str 0 = m addr := by
  rw [ptrace_readstr_apply]
  simp [byteFrom]

/-- A C string from an offset on, cut to its first n bytes. -/
def cString (byte : ℕ → Byte) : ℕ → ℕ → List Byte
  | 0, _ => []
  | n + 1, i => if byte i = 0 then [] else byte i :: cString byte n (i + 1)

/-- Two strings that agree up to the NUL of one are the same, wherever they are cut
behind it. -/
theorem cString_eq (byte byte' : ℕ → Byte) (d n n' i : ℕ) (hn : d ≤ n) (hn' : d ≤ n')
    (hzero : byte (i + d) = 0) (hagree : ∀ k, i ≤ k → k ≤ i + d → byte k = byte' k) :
    cString byte n i = cString byte' n' i := by
  have hnil : ∀ (b : ℕ → Byte) (m j : ℕ), b j = 0 → cString b m j = [] := by
    intro b m j hj
    cases m with
    | zero => rfl
    | succ m =>
      unfold cString
      rw [if_pos hj]
  induction d generalizing n n' i with
  | zero =>
    have hzero' : byte' i = 0 := by
      rw [← hagree i (by omega) (by omega)]
      exact hzero
    rw [hnil byte n i hzero, hnil byte' n' i hzero']
  | succ d ih =>
    obtain ⟨p, rfl⟩ : ∃ p, n = p + 1 := ⟨n - 1, by omega⟩
    obtain ⟨q, rfl⟩ : ∃ q, n' = q + 1 := ⟨n' - 1, by omega⟩
    unfold cString
    rw [← hagree i (by omega) (by omega), ih p q (i + 1) (by omega) (by omega)
      (by rw [Nat.add_right_comm]; exact hzero) (fun k hk hkd => hagree k (by omega) (by omega))]

/-- The buffer holds a NUL, nothing outside of it was written, and its string is that of
the target, cut to 63 bytes. -/
def Faithful (m : Memory) (addr : Word) (str : ℕ → Byte) : Prop :=
  (∃ k < 64, ptrace_readstr m addr str k = 0) ∧
    (∀ k, 64 ≤ k → ptrace_readstr m addr str k = str k) ∧
    cString (ptrace_readstr m addr str) 64 0 = cString (byteFrom m addr) 63 0

/-- A string of the target is copied faithfully if and only if its NUL is among the
first 64 bytes. -/
theorem faithful_iff (m : Memory) (addr : Word) (str : ℕ → Byte) :
    Faithful m addr str ↔ ∃ k < 64, byteFrom m addr k = 0 := by
  have hbuffer := ptrace_readstr_apply m addr str
  constructor
  · intro h
    obtain ⟨⟨k, hk, hnul⟩, -, -⟩ := h
    by_contra hnone
    have hbefore : ∀ j < 64, byteFrom m addr j ≠ 0 := by
      intro j hj hzero
      exact hnone ⟨j, hj, hzero⟩
    rw [hbuffer, if_pos ⟨hk, fun j hj => hbefore j (by omega)⟩] at hnul
    exact hbefore k hk hnul
  · intro h
    obtain ⟨k, hk, hzero⟩ := h
    obtain ⟨d, hdk, hd, hbefore⟩ := exists_firstAt (fun b : Byte => b = 0) _ k hzero
    have hcopied : ∀ j ≤ d, ptrace_readstr m addr str j = byteFrom m addr j := by
      intro j hj
      rw [hbuffer, if_pos ⟨by omega, fun i hi => hbefore i (by omega)⟩]
    have hnul : ptrace_readstr m addr str d = 0 := (hcopied d (by omega)).trans hd
    refine ⟨⟨d, by omega, hnul⟩, ?_, ?_⟩
    · intro j hj
      rw [hbuffer, if_neg fun h => by omega]
    · exact cString_eq _ _ d 64 63 0 (by omega) (by omega) (by rw [Nat.zero_add]; exact hnul)
        (fun j _ hj => hcopied j (by omega))

/-- A string of 64 bytes fills the buffer and leaves no room for a NUL. -/
theorem not_faithful_longName :
    ¬ Faithful (fun a => if a.toNat < 64 then 0x61 else 0) 0 (fun _ => 0) := by
  rw [faithful_iff]
  intro h
  obtain ⟨k, hk, hzero⟩ := h
  have hle : 64 ≤ k % 2 ^ 32 := by simpa [byteFrom] using hzero
  omega

/-- The name a caller looks for: the bytes before its NUL. -/
structure SymName where
  bytes : List Byte
  no_nul : ∀ b ∈ bytes, b ≠ 0

/-- strcmp against the rest of a name, from an offset of the buffer on. -/
def strcmpFrom (str : ℕ → Byte) : List Byte → ℕ → ℤ
  | [], i => (str i).toNat
  | c :: cs, i => if str i = c then strcmpFrom str cs (i + 1) else (str i).toNat - c.toNat

def strcmp (str : ℕ → Byte) (name : SymName) : ℤ := strcmpFrom str name.bytes 0

theorem strcmpFrom_eq_zero (str : ℕ → Byte) (cs : List Byte) (i : ℕ) :
    strcmpFrom str cs i = 0 ↔ ∀ k ≤ cs.length, str (i + k) = cs.getD k 0 := by
  induction cs generalizing i with
  | nil =>
    have hzero : ((str i).toNat : ℤ) = 0 ↔ str i = 0 := by
      rw [Int.natCast_eq_zero, BitVec.toNat_eq]
      rfl
    unfold strcmpFrom
    rw [hzero]
    constructor
    · intro h k hk
      obtain rfl : k = 0 := by simpa using hk
      exact h
    · intro h
      exact h 0 (by simp)
  | cons c cs ih =>
    have hhead : (∀ k ≤ (c :: cs).length, str (i + k) = (c :: cs).getD k 0) ↔
        str i = c ∧ ∀ k ≤ cs.length, str (i + 1 + k) = cs.getD k 0 := by
      constructor
      · intro h
        refine ⟨h 0 (by simp), fun k hk => ?_⟩
        have hnext := h (k + 1) (by simpa using hk)
        rwa [List.getD_cons_succ, ← Nat.add_assoc, Nat.add_right_comm] at hnext
      · intro h k hk
        obtain ⟨hc, htail⟩ := h
        cases k with
        | zero => exact hc
        | succ k =>
          have hnext := htail k (by simpa using hk)
          rwa [List.getD_cons_succ, ← Nat.add_assoc, Nat.add_right_comm]
    rw [hhead]
    unfold strcmpFrom
    by_cases hc : str i = c
    · simp [hc, ih (i + 1)]
    · have hne : ((str i).toNat : ℤ) - c.toNat ≠ 0 := by
        intro hsub
        apply hc
        apply BitVec.eq_of_toNat_eq
        omega
      simp [hc, hne]

/-- The target holds exactly this name, with its NUL, at the address. -/
def HoldsName (m : Memory) (addr : Word) (name : SymName) : Prop :=
  ∀ k < name.bytes.length + 1, byteFrom m addr k = name.bytes.getD k 0

instance (m : Memory) (addr : Word) (name : SymName) : Decidable (HoldsName m addr name) :=
  inferInstanceAs (Decidable (∀ k < name.bytes.length + 1, _))

theorem SymName.getD_ne_zero (name : SymName) (k : ℕ) (hk : k < name.bytes.length) :
    name.bytes.getD k 0 ≠ 0 := by
  rw [List.getD_eq_getElem _ _ hk]
  exact name.no_nul _ (List.getElem_mem hk)

/-- strcmp against a buffer into which a string was copied up to its NUL, as far as the
name goes. -/
theorem strcmp_copied (byte str : ℕ → Byte) (name : SymName)
    (hcopy : ∀ k ≤ name.bytes.length, (∀ j < k, byte j ≠ 0) → str k = byte k) :
    strcmp str name = 0 ↔ ∀ k < name.bytes.length + 1, byte k = name.bytes.getD k 0 := by
  unfold strcmp
  rw [strcmpFrom_eq_zero]
  simp only [Nat.zero_add]
  constructor
  · intro h k
    -- the bytes before k are those of the name, so no NUL has stopped the copy
    induction k using Nat.strong_induction_on with
    | _ k ih =>
      intro hk
      have hbefore : ∀ j < k, byte j ≠ 0 := by
        intro j hj
        rw [ih j hj (by omega)]
        exact name.getD_ne_zero j (by omega)
      rw [← hcopy k (by omega) hbefore]
      exact h k (by omega)
  · intro h k hk
    have hbefore : ∀ j < k, byte j ≠ 0 := by
      intro j hj
      rw [h j (by omega)]
      exact name.getD_ne_zero j (by omega)
    rw [hcopy k hk hbefore]
    exact h k (by omega)

/-- A name that fits into the buffer is recognised exactly, whatever malloc delivers
and however long the string of the target is. -/
theorem strcmp_readstr (m : Memory) (addr : Word) (str : ℕ → Byte) (name : SymName)
    (hlen : name.bytes.length ≤ 63) :
    strcmp (ptrace_readstr m addr str) name = 0 ↔ HoldsName m addr name := by
  apply strcmp_copied
  intro k hk hbefore
  rw [ptrace_readstr_apply, if_pos ⟨by omega, hbefore⟩]

end JvmTrace.RemoteStrings
