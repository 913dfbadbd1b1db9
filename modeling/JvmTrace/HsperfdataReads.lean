import JvmTrace.HsperfdataParser

/-!
Where parse reads its buffer. Only the name scan is compared with the length of
the file; the copies of the headers, the values and the sums that place them
follow whatever the file says. The parse stays inside the file exactly when the
file contains what its own fields point to: the header, the prologue, and for
every entry it gets to the entry header, a name start that is not negative, and
the value, with every sum an int.
-/
namespace JvmTrace.HsperfdataReads

open LittleEndian HsperfdataParser

def InBounds (len : ℤ) (r : Read) : Prop :=
  ∀ k : ℕ, k < r.length → 0 ≤ r.start + k ∧ r.start + k < len

/-- The value fits an int. -/
def InInt (x : ℤ) : Prop := -2 ^ 31 ≤ x ∧ x < 2 ^ 31

/-- All reads lie in the buffer and no sum overflows. -/
def Inside (len : ℤ) (log : Log) : Prop :=
  (∀ r ∈ log.reads, InBounds len r) ∧ ∀ x ∈ log.sums, InInt x

/-- The file has count bytes from the start on. -/
def Span (file : Bytes) (start : ℤ) (count : ℕ) : Prop :=
  0 ≤ start ∧ start + count ≤ file.length

/-- The size of a value the parse goes on to read; none for an unsupported kind
and for a negative vector length. -/
def valueSize (entry : entry_header) : Option ℕ :=
  if entry.vector_length_ = 0 then (if scalarSupported entry then some 8 else none)
  else if vectorSupported entry ∧ 0 ≤ entry.vector_length_.toInt then
    some entry.vector_length_.toInt.toNat
  else none

/-- What the entry header at pos points to is contained in the file, up to the
first entry whose value is not read. -/
def EntriesFit (file : Bytes) : ℕ → ℤ → Prop
  | 0, _ => True
  | n + 1, pos =>
      let entry := entry_header.ofBytes (field file pos.toNat sizeofEntry)
      Span file pos sizeofEntry ∧
        InInt (pos + entry.name_offset_.toInt) ∧ 0 ≤ pos + entry.name_offset_.toInt ∧
        InInt (pos + entry.data_offset_.toInt) ∧
        ∀ count, valueSize entry = some count →
          Span file (pos + entry.data_offset_.toInt) count ∧
            InInt (pos + entry.entry_length_.toInt) ∧
            EntriesFit file n (pos + entry.entry_length_.toInt)

/-- The magic, the version and the byte order parse accepts. -/
def Accepted (header : perfdata_header) : Prop :=
  header.magic_ = 0xc0c0feca ∧ (header.major_ = 2 ∧ header.minor_ = 0) ∧ header.byte_order_ = 1

def Contained (file : Bytes) : Prop :=
  let header := perfdata_header.ofBytes (field file 0 sizeofHeader)
  let prologue := buffer_prologue.ofBytes (field file sizeofHeader sizeofPrologue)
  Span file 0 sizeofHeader ∧
    (Accepted header → Span file sizeofHeader sizeofPrologue ∧
      EntriesFit file prologue.num_entries_.toInt.toNat prologue.entry_offset_.toInt)

theorem wrap_of_inInt (x : ℤ) (h : InInt x) : wrap x = x := by
  obtain ⟨hlow, hhigh⟩ := h
  exact Int.bmod_eq_of_le (by omega) (by omega)

theorem inside_append (len : ℤ) (first second : Log) :
    Inside len (first.append second) ↔ Inside len first ∧ Inside len second := by
  simp only [Inside, Log.append, List.mem_append]
  constructor
  · intro h
    exact ⟨⟨fun r hr => h.1 r (Or.inl hr), fun x hx => h.2 x (Or.inl hx)⟩,
      fun r hr => h.1 r (Or.inr hr), fun x hx => h.2 x (Or.inr hx)⟩
  · intro h
    refine ⟨?_, ?_⟩
    · intro r hr
      exact hr.elim (h.1.1 r) (h.2.1 r)
    · intro x hx
      exact hx.elim (h.1.2 x) (h.2.2 x)

theorem inside_message (len : ℤ) (m : Message) : Inside len (.message m) := by
  simp [Inside, Log.message]

theorem inside_empty (len : ℤ) : Inside len .empty := by
  simp [Inside, Log.empty]

/-- A read of at least one byte. -/
theorem inBounds_iff (file : Bytes) (start : ℤ) (count : ℕ) (hpos : 0 < count) :
    InBounds file.length ⟨start, count⟩ ↔ Span file start count := by
  constructor
  · intro h
    have hfirst := h 0 hpos
    have hlast := h (count - 1) (Nat.sub_lt hpos Nat.one_pos)
    simp only at hfirst hlast
    constructor <;> omega
  · intro h k hk
    obtain ⟨hlow, hhigh⟩ := h
    simp only at hk ⊢
    constructor <;> omega

section InBuffer

variable (file : Bytes) (outside : ℤ → UInt8)

/-- Inside the file a copy is a field of the file. -/
theorem copy_eq_field (start : ℤ) (count : ℕ) (h : Span file start count) :
    (Buffer.mk file outside).copy start count = field file start.toNat count := by
  obtain ⟨hlow, hhigh⟩ := h
  apply List.ext_getElem
  · simp only [Buffer.copy, field, List.length_map, List.length_range, List.length_take,
      List.length_drop]
    omega
  · intro i hi hi'
    simp only [Buffer.copy, List.length_map, List.length_range] at hi
    simp only [Buffer.copy, field, List.getElem_map, List.getElem_range, List.getElem_take,
      List.getElem_drop, Buffer.byteAt, Buffer.len]
    have hin : 0 ≤ start + i ∧ start + i < file.length := by omega
    have hindex : (start + i).toNat = start.toNat + i := by omega
    rw [if_pos hin, hindex]
    exact (List.getElem_eq_getD 0).symm

theorem nameScan_length (buf : Buffer) (fuel : ℕ) (n : ℤ) : (nameScan buf fuel n).1 ≤ fuel := by
  induction fuel generalizing n with
  | zero => exact Nat.le_refl 0
  | succ fuel ih =>
    have hrest := ih (n + 1)
    simp only [nameScan]
    split
    · exact Nat.zero_le _
    · exact Nat.succ_le_succ hrest

/-- The scan reads single bytes between its start and the length. -/
theorem nameScan_reads (buf : Buffer) (fuel : ℕ) (n : ℤ) (r : Read)
    (hr : r ∈ (nameScan buf fuel n).2) : r.length = 1 ∧ n ≤ r.start ∧ r.start < n + fuel := by
  induction fuel generalizing n with
  | zero => simp [nameScan] at hr
  | succ fuel ih =>
    simp only [nameScan] at hr
    split at hr
    · rw [List.mem_singleton] at hr
      subst hr
      refine ⟨rfl, Int.le_refl n, ?_⟩
      change n < n + ((fuel + 1 : ℕ) : ℤ)
      omega
    · rcases List.mem_cons.mp hr with rfl | hr
      · refine ⟨rfl, Int.le_refl n, ?_⟩
        change n < n + ((fuel + 1 : ℕ) : ℤ)
        omega
      · have hrest := ih (n + 1) hr
        omega

theorem nameScan_first (buf : Buffer) (fuel : ℕ) (n : ℤ) :
    ⟨n, 1⟩ ∈ (nameScan buf (fuel + 1) n).2 := by
  simp only [nameScan]
  split <;> simp

/-- Finding the name stays inside exactly when it starts at an int that is not
negative: the scan itself stops at the length. -/
theorem readName_inside (pos : ℤ) (entry : entry_header) :
    Inside file.length (readName ⟨file, outside⟩ pos entry).2 ↔
      InInt (pos + entry.name_offset_.toInt) ∧ 0 ≤ pos + entry.name_offset_.toInt := by
  set x := pos + entry.name_offset_.toInt with hx
  simp only [readName, Inside, ← hx, List.mem_append, List.mem_singleton, forall_eq]
  constructor
  · intro h
    obtain ⟨hreads, hsum⟩ := h
    rw [wrap_of_inInt x hsum] at hreads
    refine ⟨hsum, ?_⟩
    by_contra hneg
    have hfuel : ((Buffer.mk file outside).len - x).toNat = file.length + (-x).toNat - 1 + 1 := by
      simp only [Buffer.len]
      omega
    have hfirst := hreads ⟨x, 1⟩ (Or.inl (by rw [hfuel]; exact nameScan_first _ _ x)) 0 Nat.one_pos
    simp only at hfirst
    omega
  · intro h
    obtain ⟨hsum, hlow⟩ := h
    rw [wrap_of_inInt x hsum]
    refine ⟨?_, hsum⟩
    intro r hr k hk
    have hlen : (Buffer.mk file outside).len = file.length := rfl
    rcases hr with hr | rfl
    · have hread := nameScan_reads _ _ x r hr
      omega
    · have hscan := nameScan_length ⟨file, outside⟩ ((Buffer.mk file outside).len - x).toNat x
      simp only at hk ⊢
      omega

end InBuffer

/-- Either the value is read and the parse goes on, or it stops without a read. -/
theorem readValue_cases (buf : Buffer) (entry : entry_header) (name : Bytes) (dataStart : ℤ) :
    (∃ count, valueSize entry = some count ∧ 0 < count ∧
      (readValue buf entry name dataStart).2 = none ∧
      (readValue buf entry name dataStart).1.reads = [⟨dataStart, count⟩] ∧
      (readValue buf entry name dataStart).1.sums = []) ∨
    (valueSize entry = none ∧ ∃ ending, (readValue buf entry name dataStart).2 = some ending ∧
      (readValue buf entry name dataStart).1.reads = [] ∧
      (readValue buf entry name dataStart).1.sums = []) := by
  by_cases hvec : entry.vector_length_ = 0
  · by_cases hkind : scalarSupported entry
    · exact Or.inl ⟨8, by simp [valueSize, hvec, hkind], by omega, by simp [readValue, hvec, hkind],
        by simp [readValue, hvec, hkind], by simp [readValue, hvec, hkind]⟩
    · exact Or.inr ⟨by simp [valueSize, hvec, hkind], .returned,
        by simp [readValue, hvec, hkind], by simp [readValue, hvec, hkind, Log.message],
        by simp [readValue, hvec, hkind, Log.message]⟩
  · by_cases hkind : vectorSupported entry
    · have hne : entry.vector_length_.toInt ≠ 0 := by
        intro heq
        exact hvec (Int32.toInt_inj.mp (heq.trans rfl))
      by_cases hneg : entry.vector_length_.toInt < 0
      · have hlow : ¬ 0 ≤ entry.vector_length_.toInt := by omega
        exact Or.inr ⟨by simp [valueSize, hvec, hneg], .lengthError,
          by simp [readValue, hvec, hkind, hneg], by simp [readValue, hvec, hkind, hneg, Log.empty],
          by simp [readValue, hvec, hkind, hneg, Log.empty]⟩
      · have hlow : 0 ≤ entry.vector_length_.toInt := by omega
        exact Or.inl ⟨entry.vector_length_.toInt.toNat, by simp [valueSize, hvec, hkind, hlow],
          by omega, by simp [readValue, hvec, hkind, hneg], by simp [readValue, hvec, hkind, hneg],
          by simp [readValue, hvec, hkind, hneg]⟩
    · exact Or.inr ⟨by simp [valueSize, hvec, hkind], .returned,
        by simp [readValue, hvec, hkind], by simp [readValue, hvec, hkind, Log.message],
        by simp [readValue, hvec, hkind, Log.message]⟩

theorem readValue_inside (file : Bytes) (outside : ℤ → UInt8) (entry : entry_header)
    (name : Bytes) (dataStart : ℤ) :
    Inside file.length (readValue ⟨file, outside⟩ entry name dataStart).1 ↔
      ∀ count, valueSize entry = some count → Span file dataStart count := by
  rcases readValue_cases ⟨file, outside⟩ entry name dataStart with
    ⟨count, hsize, hpos, _, hreads, hsums⟩ | ⟨hsize, _, _, hreads, hsums⟩
  · simp only [Inside, hreads, hsums, hsize, List.mem_singleton, forall_eq, List.not_mem_nil,
      false_implies, implies_true, and_true, Option.some.injEq, forall_eq', inBounds_iff file _ _ hpos]
  · simp [Inside, hreads, hsums, hsize]

/-- The sums alone. -/
theorem inside_sum (len x : ℤ) : Inside len ⟨[], [], [x]⟩ ↔ InInt x := by
  simp [Inside]

theorem inside_read (file : Bytes) (start : ℤ) (count : ℕ) (hpos : 0 < count) :
    Inside file.length ⟨[], [⟨start, count⟩], []⟩ ↔ Span file start count := by
  simp [Inside, inBounds_iff file start count hpos]

/-- What one round of the loop reads and adds, and when it goes on to the next. -/
theorem entries_succ_inside (len : ℤ) (buf : Buffer) (n : ℕ) (pos : ℤ) (entry : entry_header)
    (hentry : entry_header.ofBytes (buf.copy pos sizeofEntry) = entry) (name : Bytes) (dataStart : ℤ)
    (hname : (readName buf pos entry).1 = name)
    (hdata : wrap (pos + entry.data_offset_.toInt) = dataStart) :
    Inside len (entries buf (n + 1) pos).1 ↔
      Inside len ⟨[], [⟨pos, sizeofEntry⟩], []⟩ ∧ Inside len (readName buf pos entry).2 ∧
      InInt (pos + entry.data_offset_.toInt) ∧ Inside len (readValue buf entry name dataStart).1 ∧
      ((readValue buf entry name dataStart).2 = none →
        InInt (pos + entry.entry_length_.toInt) ∧
        Inside len (entries buf n (wrap (pos + entry.entry_length_.toInt))).1) := by
  subst hname hdata
  simp only [entries, hentry]
  split
  · rename_i ending hending
    simp only [inside_append, inside_sum, hending, reduceCtorEq, false_implies, and_true, and_assoc]
  · rename_i hending
    simp only [inside_append, inside_sum, hending, true_implies, and_assoc]

/-- The entries the parse gets to stay inside exactly when they fit. -/
theorem entries_inside (file : Bytes) (outside : ℤ → UInt8) (n : ℕ) (pos : ℤ) :
    Inside file.length (entries ⟨file, outside⟩ n pos).1 ↔ EntriesFit file n pos := by
  induction n generalizing pos with
  | zero => simp [entries, EntriesFit, inside_empty]
  | succ n ih =>
    rw [entries_succ_inside file.length ⟨file, outside⟩ n pos _ rfl _ _ rfl rfl,
      inside_read file pos sizeofEntry (by decide)]
    simp only [EntriesFit]
    refine and_congr_right ?_
    intro hspan
    rw [copy_eq_field file outside pos sizeofEntry hspan, readName_inside, and_assoc]
    set entry := entry_header.ofBytes (field file pos.toNat sizeofEntry)
    refine and_congr_right fun _ => and_congr_right fun _ => and_congr_right ?_
    intro hdata
    rw [wrap_of_inInt _ hdata, readValue_inside]
    rcases readValue_cases ⟨file, outside⟩ entry (readName ⟨file, outside⟩ pos entry).1
      (pos + entry.data_offset_.toInt) with ⟨count, hsize, _, hnext, _, _⟩ | ⟨hsize, _, hstop, _, _⟩
    · simp only [hsize, hnext, Option.some.injEq, forall_eq', true_implies]
      refine and_congr_right fun _ => and_congr_right ?_
      intro hlength
      rw [wrap_of_inInt _ hlength]
      exact ih _
    · simp [hsize, hstop]

theorem headerLog_inside (file : Bytes) :
    Inside file.length headerLog ↔ Span file 0 sizeofHeader := by
  have hsum : InInt (0 + (sizeofHeader : ℤ)) := by
    constructor <;> decide
  rw [← inside_read file 0 sizeofHeader (by decide)]
  simp only [Inside, headerLog, List.mem_singleton, forall_eq, hsum, and_true, List.not_mem_nil,
    false_implies, implies_true]

/-- The header is always read; the prologue and the entries when it is accepted. -/
theorem parseBuffer_accepted (len : ℤ) (buf : Buffer) (header : perfdata_header)
    (hheader : perfdata_header.ofBytes (buf.copy 0 sizeofHeader) = header)
    (prologue : buffer_prologue)
    (hprologue : buffer_prologue.ofBytes (buf.copy sizeofHeader sizeofPrologue) = prologue) :
    Inside len (parseBuffer buf).1 ↔ Inside len headerLog ∧
      (Accepted header → Inside len ⟨[], [⟨sizeofHeader, sizeofPrologue⟩], []⟩ ∧
        Inside len (entries buf prologue.num_entries_.toInt.toNat prologue.entry_offset_.toInt).1) := by
  simp only [parseBuffer, hheader, hprologue]
  split
  · rename_i hmagic
    simp [inside_append, inside_message, Accepted, hmagic]
  · split
    · rename_i hversion
      simp [inside_append, inside_message, Accepted, hversion]
    · split
      · rename_i horder
        simp [inside_append, inside_message, Accepted, horder]
      · rename_i hmagic hversion horder
        have hok : Accepted header := ⟨not_not.mp hmagic, not_not.mp hversion, not_not.mp horder⟩
        simp only [inside_append, hok, true_implies, and_assoc]

theorem parseBuffer_inside (file : Bytes) (outside : ℤ → UInt8) :
    Inside file.length (parseBuffer ⟨file, outside⟩).1 ↔ Contained file := by
  rw [parseBuffer_accepted file.length ⟨file, outside⟩ _ rfl _ rfl, headerLog_inside]
  refine and_congr_right ?_
  intro hspan
  rw [copy_eq_field file outside 0 sizeofHeader hspan]
  refine imp_congr_right fun _ => ?_
  rw [inside_read file sizeofHeader sizeofPrologue (by decide)]
  refine and_congr_right ?_
  intro hprologue
  rw [copy_eq_field file outside sizeofHeader sizeofPrologue hprologue, entries_inside]
  rfl

/-- A file whose length is an int is read whole. -/
theorem parse_eq_parseBuffer (filepath file : Bytes) (outside : ℤ → UInt8)
    (hlen : file.length < 2 ^ 31) :
    parse filepath (some file) outside = parseBuffer ⟨file, outside⟩ := by
  have hwrap : wrap file.length = file.length := wrap_of_inInt _ (by constructor <;> omega)
  simp only [parse, hwrap]
  rw [if_neg (by omega), Int.toNat_natCast, List.take_length]

/-- parse stays inside its buffer, with every sum an int, exactly on the files
that contain what their fields point to. -/
theorem parse_inside_iff (filepath file : Bytes) (outside : ℤ → UInt8)
    (hlen : file.length < 2 ^ 31) :
    Inside file.length (parse filepath (some file) outside).1 ↔ Contained file := by
  rw [parse_eq_parseBuffer filepath file outside hlen]
  exact parseBuffer_inside file outside

/-- One scalar entry behind the prologue, its name n and its value last. -/
def oneEntry : Bytes :=
  [0xca, 0xfe, 0xc0, 0xc0, 1, 2, 0, 1, 0, 0, 0, 0, 0, 0, 0, 0, 0, 0, 0, 0, 0, 0, 0, 0,
    32, 0, 0, 0, 1, 0, 0, 0,
    30, 0, 0, 0, 20, 0, 0, 0, 0, 0, 0, 0, 0x4a, 0, 1, 3, 22, 0, 0, 0,
    0x6e, 0, 7, 0, 0, 0, 0, 0, 0, 0]

theorem parse_inside_iff_oneEntry :
    Inside 62 (parse [] (some oneEntry) fun _ => 0).1 ∧ Contained oneEntry := by
  have hcontained : Contained oneEntry := by
    refine ⟨⟨by decide, by decide⟩, fun _ => ⟨⟨by decide, by decide⟩, ?_⟩⟩
    change EntriesFit oneEntry 1 32
    refine ⟨⟨by decide, by decide⟩, ⟨by decide, by decide⟩, by decide, ⟨by decide, by decide⟩, ?_⟩
    intro count hcount
    have hsize : count = 8 := by
      have hscalar : valueSize (entry_header.ofBytes (field oneEntry 32 sizeofEntry)) = some 8 := by
        decide
      exact Option.some.inj (hcount.symm.trans hscalar)
    subst hsize
    exact ⟨⟨by decide, by decide⟩, ⟨by decide, by decide⟩, trivial⟩
  exact ⟨(parse_inside_iff [] oneEntry (fun _ => 0) (by decide)).mpr hcontained, hcontained⟩

/-- The copy of the header reads past the end of an empty file. -/
theorem empty_file_read_outside : ¬ Inside 0 (parse [] (some []) fun _ => 0).1 := by
  intro h
  have hread : InBounds 0 ⟨0, 7⟩ := h.1 ⟨0, 7⟩ (by decide)
  have hfirst := (hread 0 (by decide)).2
  exact absurd hfirst (by decide)

end JvmTrace.HsperfdataReads
