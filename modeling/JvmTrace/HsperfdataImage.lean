import JvmTrace.HsperfdataReads

/-!
What a well-formed version 2.0 image is, and that parse decodes every one of
them. An image is a file together with a prologue and a list of entries such that
the encoded headers, the names with their terminators and the values stand where
the offsets say; everything else in the file is padding. The parse is then a
function of the entries: it reports those of the generations in order, up to the
first entry of a kind it does not support.
-/
namespace JvmTrace.HsperfdataImage

open LittleEndian HsperfdataParser HsperfdataReads

def buffer_prologue.toBytes (prologue : buffer_prologue) : Bytes :=
  [prologue.accessible_] ++ (ofInt32 prologue.used_ ++ (ofInt32 prologue.overflow_ ++
    (ofInt64 prologue.modify_time_ ++ (ofInt32 prologue.entry_offset_ ++
      ofInt32 prologue.num_entries_))))

def entry_header.toBytes (entry : entry_header) : Bytes :=
  ofInt32 entry.entry_length_ ++ (ofInt32 entry.name_offset_ ++ (ofInt32 entry.vector_length_ ++
    ([entry.data_type_, entry.flags_, entry.data_units_, entry.data_var_] ++
      ofInt32 entry.data_offset_)))

inductive Value
  | scalar (value : Int64)
  | vector (bytes : Bytes)

def Value.bytes : Value → Bytes
  | .scalar value => ofInt64 value
  | .vector bytes => bytes

/-- The vector length field tells the two kinds of value apart. -/
def Value.HasLength : Value → Int32 → Prop
  | .scalar _, length => length = 0
  | .vector bytes, length => length ≠ 0 ∧ length.toInt = bytes.length

/-- An entry as its writer means it. -/
structure Entry where
  header : entry_header
  name : Bytes
  value : Value
  name_terminated : 0 ∉ name
  has_length : value.HasLength header.vector_length_

/-- The bytes stand at a position inside the file. -/
def At (file : Bytes) (pos : ℤ) (bytes : Bytes) : Prop :=
  0 ≤ pos ∧ bytes <+: file.drop pos.toNat

/-- The entries from a position on, each at the position of the one before it
plus its length. -/
def Laid (file : Bytes) : List Entry → ℤ → Prop
  | [], _ => True
  | e :: rest, pos =>
      At file pos (entry_header.toBytes e.header) ∧
        At file (pos + e.header.name_offset_.toInt) (e.name ++ [0]) ∧
        At file (pos + e.header.data_offset_.toInt) e.value.bytes ∧
        Laid file rest (pos + e.header.entry_length_.toInt)

/-- A version 2.0 little-endian image with the given entries. -/
structure Image (file : Bytes) (prologue : buffer_prologue) (entries : List Entry) : Prop where
  header : At file 0 [0xca, 0xfe, 0xc0, 0xc0, 1, 2, 0]
  prologue_at : At file 7 (buffer_prologue.toBytes prologue)
  num_entries : prologue.num_entries_.toInt = entries.length
  laid : Laid file entries prologue.entry_offset_.toInt

/-- The kinds of entries parse understands. -/
def Supported (e : Entry) : Prop :=
  match e.value with
  | .scalar _ => e.header.data_type_ = 'J'.toUInt8
  | .vector _ => e.header.data_type_ = 'B'.toUInt8 ∧ e.header.data_units_ = 5 ∧
      (e.header.data_var_ = 1 ∨ e.header.data_var_ = 3)

instance : DecidablePred Supported := fun e =>
  match e with
  | ⟨_, _, .scalar _, _, _⟩ => inferInstanceAs (Decidable (_ = _))
  | ⟨_, _, .vector _, _, _⟩ => inferInstanceAs (Decidable (_ ∧ _ ∧ (_ ∨ _)))

def Generation (e : Entry) : Prop := ascii "sun.gc.generation" <:+: e.name

instance : DecidablePred Generation := fun _ => inferInstanceAs (Decidable (_ <:+: _))

def nameReport (e : Entry) : List Message := if Generation e then [.name e.name] else []

/-- The exact value: the number, or the bytes up to the first NUL. -/
def valueReport (e : Entry) : List Message :=
  if Generation e then
    match e.value with
    | .scalar value => [.intValue value]
    | .vector bytes => [.strValue (bytes.takeWhile (· ≠ 0))]
  else []

/-- The message about an entry of another kind. -/
def unsupportedReport (e : Entry) : Message :=
  match e.value with
  | .scalar _ => .unexpectedType e.header.data_type_
  | .vector _ => .unexpectedVector e.header.data_type_ e.header.data_units_ e.header.data_var_

/-- What is printed for a list of entries: the generations in order, and at the
first entry of an unsupported kind its message, after which nothing follows. -/
def reports : List Entry → List Message
  | [] => []
  | e :: rest =>
      if Supported e then nameReport e ++ valueReport e ++ reports rest
      else nameReport e ++ [unsupportedReport e]

theorem buffer_prologue_ofBytes (prologue : buffer_prologue) :
    buffer_prologue.ofBytes (buffer_prologue.toBytes prologue) = prologue := by
  simp [buffer_prologue.ofBytes, buffer_prologue.toBytes, field_all, field_cons, field_head,
    field_skip, byte]

theorem entry_header_ofBytes (entry : entry_header) :
    entry_header.ofBytes (entry_header.toBytes entry) = entry := by
  simp [entry_header.ofBytes, entry_header.toBytes, field_all, field_cons, field_head, field_skip,
    byte]

theorem find_isSome_iff (pattern name : Bytes) :
    (find pattern name).isSome ↔ pattern <:+: name := by
  induction name with
  | nil => by_cases hnil : pattern = [] <;> simp [find, hnil]
  | cons b rest ih =>
    rw [List.infix_cons_iff, ← ih]
    by_cases hhead : pattern <+: b :: rest <;> simp [find, hhead]

theorem find_le (pattern name : Bytes) (i : ℕ) (h : find pattern name = some i) :
    i ≤ name.length := by
  induction name generalizing i with
  | nil =>
    simp only [find] at h
    split at h
    · cases h
      exact Nat.le_refl 0
    · cases h
  | cons b rest ih =>
    simp only [find] at h
    split at h
    · cases h
      exact Nat.zero_le _
    · obtain ⟨j, hj, rfl⟩ := Option.map_eq_some_iff.mp h
      exact Nat.succ_le_succ (ih j hj)

/-- The int cast of find is harmless on names shorter than 2^31. -/
theorem is_generation_iff (name : Bytes) (hlen : name.length < 2 ^ 31) :
    is_generation name = true ↔ ascii "sun.gc.generation" <:+: name := by
  rw [← find_isSome_iff]
  cases hfind : find (ascii "sun.gc.generation") name with
  | none => simp [is_generation, hfind]
  | some i =>
    have hi := find_le _ name i hfind
    have hwrap : wrap i = i := wrap_of_inInt i (by constructor <;> omega)
    simp [is_generation, hfind, hwrap]

section Decoding

variable (file : Bytes) (outside : ℤ → UInt8)

theorem at_span (pos : ℤ) (bytes : Bytes) (h : At file pos bytes) (hne : bytes ≠ []) :
    Span file pos bytes.length := by
  obtain ⟨hlow, hbytes⟩ := h
  have hlen := hbytes.length_le
  have hpos := List.length_pos_iff.mpr hne
  rw [List.length_drop] at hlen
  constructor <;> omega

theorem at_inInt (pos : ℤ) (bytes : Bytes) (hfile : file.length < 2 ^ 31) (h : At file pos bytes)
    (hne : bytes ≠ []) : InInt pos := by
  obtain ⟨hlow, hhigh⟩ := at_span file pos bytes h hne
  constructor <;> omega

/-- What stands at a position is what a copy from there gives. -/
theorem copy_of_at (pos : ℤ) (bytes : Bytes) (h : At file pos bytes) :
    (Buffer.mk file outside).copy pos bytes.length = bytes := by
  cases bytes with
  | nil => rfl
  | cons b rest =>
    rw [copy_eq_field file outside pos _ (at_span file pos _ h (by simp))]
    exact List.prefix_iff_eq_take.mp h.2 |>.symm

theorem at_head (pos : ℤ) (b : UInt8) (rest : Bytes) (h : At file pos (b :: rest)) :
    (Buffer.mk file outside).byteAt pos = b := by
  have hcopy := copy_of_at file outside pos (b :: rest) h
  simp only [Buffer.copy, List.length_cons, List.range_succ_eq_map, List.map_cons] at hcopy
  have hfirst := (List.cons.inj hcopy).1
  simpa using hfirst

theorem at_tail (pos : ℤ) (b : UInt8) (rest : Bytes) (h : At file pos (b :: rest)) :
    At file (pos + 1) rest := by
  obtain ⟨hlow, hbytes⟩ := h
  have hindex : (pos + 1).toNat = pos.toNat + 1 := by omega
  refine ⟨by omega, ?_⟩
  rw [hindex, ← List.drop_drop]
  obtain ⟨tail, htail⟩ := hbytes
  refine ⟨tail, ?_⟩
  rw [← htail]
  rfl

theorem at_append_left (pos : ℤ) (first second : Bytes) (h : At file pos (first ++ second)) :
    At file pos first :=
  ⟨h.1, (List.prefix_append first second).trans h.2⟩

/-- The scan of a terminated name counts the name. -/
theorem nameScan_of_at (name : Bytes) (pos : ℤ) (fuel : ℕ) (hname : 0 ∉ name)
    (h : At file pos (name ++ [0])) (hfuel : name.length < fuel) :
    (nameScan ⟨file, outside⟩ fuel pos).1 = name.length := by
  induction name generalizing pos fuel with
  | nil =>
    cases fuel with
    | zero => exact absurd hfuel (Nat.not_lt_zero _)
    | succ fuel => simp [nameScan, at_head file outside pos 0 [] h]
  | cons b rest ih =>
    cases fuel with
    | zero => exact absurd hfuel (Nat.not_lt_zero _)
    | succ fuel =>
      rw [List.cons_append] at h
      have hb : b ≠ 0 := by
        intro heq
        exact hname (by simp [heq])
      have hrest := ih (pos + 1) fuel (fun hmem => hname (List.mem_cons_of_mem b hmem))
        (at_tail file pos b (rest ++ [0]) h) (Nat.lt_of_succ_lt_succ hfuel)
      simp [nameScan, at_head file outside pos b (rest ++ [0]) h, hb, hrest]

theorem name_length_lt (pos : ℤ) (e : Entry) (hfile : file.length < 2 ^ 31)
    (h : At file pos (e.name ++ [0])) : e.name.length < 2 ^ 31 := by
  obtain ⟨hlow, hhigh⟩ := at_span file pos _ h (by simp)
  rw [List.length_append, List.length_singleton] at hhigh
  omega

theorem readName_of_at (pos : ℤ) (e : Entry) (hfile : file.length < 2 ^ 31)
    (h : At file (pos + e.header.name_offset_.toInt) (e.name ++ [0])) :
    (readName ⟨file, outside⟩ pos e.header).1 = e.name ∧
      (readName ⟨file, outside⟩ pos e.header).2.out = nameReport e := by
  have hint := at_inInt file _ _ hfile h (by simp)
  have hspan := at_span file _ _ h (by simp)
  rw [List.length_append, List.length_singleton] at hspan
  have hlen := name_length_lt file _ e hfile h
  have hfuel : e.name.length <
      ((Buffer.mk file outside).len - (pos + e.header.name_offset_.toInt)).toNat := by
    have hlow := hspan.1
    have hhigh := hspan.2
    simp only [Buffer.len]
    omega
  have hscan := nameScan_of_at file outside e.name _ _ e.name_terminated h hfuel
  have hcopy := copy_of_at file outside _ e.name (at_append_left file _ _ [0] h)
  have hname : (readName ⟨file, outside⟩ pos e.header).1 = e.name := by
    simp only [readName, wrap_of_inInt _ hint, hscan, hcopy]
  refine ⟨hname, ?_⟩
  have hout : (readName ⟨file, outside⟩ pos e.header).2.out =
      if is_generation (readName ⟨file, outside⟩ pos e.header).1 then
        [.name (readName ⟨file, outside⟩ pos e.header).1] else [] := rfl
  rw [hout, hname, nameReport]
  have hgen := is_generation_iff e.name hlen
  by_cases hcontains : Generation e
  · rw [if_pos hcontains, if_pos (hgen.mpr hcontains)]
  · rw [if_neg hcontains, if_neg fun h => hcontains (hgen.mp h)]

theorem value_ne_nil (e : Entry) : e.value.bytes ≠ [] := by
  have hlength := e.has_length
  cases hvalue : e.value with
  | scalar value =>
    intro hnil
    have hzero := congrArg List.length hnil
    simp [Value.bytes] at hzero
  | vector bytes =>
    rw [hvalue] at hlength
    obtain ⟨hne, hcount⟩ := hlength
    intro hnil
    have hempty : bytes = [] := hnil
    rw [hempty] at hcount
    exact hne (Int32.toInt_inj.mp (hcount.trans rfl))

/-- A supported value is decoded as its writer means it. -/
theorem readValue_supported (e : Entry) (dataStart : ℤ) (hlen : e.name.length < 2 ^ 31)
    (h : At file dataStart e.value.bytes) (hkind : Supported e) :
    (readValue ⟨file, outside⟩ e.header e.name dataStart).1.out = valueReport e ∧
      (readValue ⟨file, outside⟩ e.header e.name dataStart).2 = none := by
  have hlength := e.has_length
  have hcopy := copy_of_at file outside dataStart e.value.bytes h
  cases hvalue : e.value with
  | scalar value =>
    rw [hvalue] at hlength hcopy
    have hzero : e.header.vector_length_ = 0 := hlength
    have hscalar : scalarSupported e.header = true := by
      simpa [Supported, hvalue, scalarSupported] using hkind
    have hint : int64 ((Buffer.mk file outside).copy dataStart 8) = value := by
      have hbytes : (Buffer.mk file outside).copy dataStart 8 = ofInt64 value := by
        simpa [Value.bytes] using hcopy
      rw [hbytes, int64_ofInt64]
    simp [readValue, hzero, hscalar, hint, valueReport, hvalue, Generation,
      is_generation_iff e.name hlen]
  | vector bytes =>
    rw [hvalue] at hlength hcopy
    obtain ⟨hne, hcount⟩ := hlength
    have hvector : vectorSupported e.header = true := by
      simpa [Supported, hvalue, vectorSupported] using hkind
    have hneg : ¬ e.header.vector_length_.toInt < 0 := by omega
    have hnat : e.header.vector_length_.toInt.toNat = bytes.length := by omega
    have hbytes : (Buffer.mk file outside).copy dataStart bytes.length = bytes := hcopy
    simp [readValue, hne, hvector, hneg, hnat, hbytes, cStr, valueReport, hvalue, Generation,
      is_generation_iff e.name hlen]

/-- Another kind of value ends the parse with its message. -/
theorem readValue_unsupported (buf : Buffer) (e : Entry) (dataStart : ℤ) (hkind : ¬ Supported e) :
    (readValue buf e.header e.name dataStart).1.out = [unsupportedReport e] ∧
      (readValue buf e.header e.name dataStart).2 = some .returned := by
  have hlength := e.has_length
  cases hvalue : e.value with
  | scalar value =>
    rw [hvalue] at hlength
    have hzero : e.header.vector_length_ = 0 := hlength
    have hscalar : scalarSupported e.header = false := by
      simpa [Supported, hvalue, scalarSupported] using hkind
    simp [readValue, hzero, hscalar, unsupportedReport, hvalue, Log.message]
  | vector bytes =>
    rw [hvalue] at hlength
    have hvector : vectorSupported e.header = false := by
      simpa [Supported, hvalue, vectorSupported] using hkind
    simp [readValue, hlength.1, hvector, unsupportedReport, hvalue, Log.message]

/-- The header copied from the position of an entry is the entry's own. -/
theorem entry_of_at (pos : ℤ) (e : Entry) (h : At file pos (entry_header.toBytes e.header)) :
    entry_header.ofBytes ((Buffer.mk file outside).copy pos sizeofEntry) = e.header := by
  have hcopy := copy_of_at file outside pos _ h
  have hsize : (entry_header.toBytes e.header).length = sizeofEntry := by
    simp [entry_header.toBytes, sizeofEntry]
  rw [hsize] at hcopy
  rw [hcopy, entry_header_ofBytes]

/-- The position of the next entry is an int wherever there is a next entry. -/
theorem entries_wrap (rest : List Entry) (pos : ℤ) (hfile : file.length < 2 ^ 31)
    (h : Laid file rest pos) :
    entries ⟨file, outside⟩ rest.length (wrap pos) = entries ⟨file, outside⟩ rest.length pos := by
  cases rest with
  | nil => rfl
  | cons e rest =>
    have hint := at_inInt file pos _ hfile h.1 (by simp [entry_header.toBytes])
    rw [wrap_of_inInt pos hint]

/-- The loop over laid out entries prints their reports and returns. -/
theorem entries_of_laid (es : List Entry) (pos : ℤ) (hfile : file.length < 2 ^ 31)
    (h : Laid file es pos) :
    (entries ⟨file, outside⟩ es.length pos).1.out = reports es ∧
      (entries ⟨file, outside⟩ es.length pos).2 = .returned := by
  induction es generalizing pos with
  | nil => exact ⟨rfl, rfl⟩
  | cons e rest ih =>
    obtain ⟨hheader, hname, hdata, hrest⟩ := h
    have hentry := entry_of_at file outside pos e hheader
    obtain ⟨hnameEq, hnameOut⟩ := readName_of_at file outside pos e hfile hname
    have hstart := at_inInt file _ _ hfile hdata (value_ne_nil e)
    have hlen := name_length_lt file _ e hfile hname
    simp only [List.length_cons, entries, hentry, hnameEq, wrap_of_inInt _ hstart]
    by_cases hkind : Supported e
    · obtain ⟨hout, hnext⟩ := readValue_supported file outside e _ hlen hdata hkind
      obtain ⟨hrestOut, hrestEnd⟩ := ih _ hrest
      rw [entries_wrap file outside rest _ hfile hrest, hnext]
      simp [Log.append, hnameOut, hout, hrestOut, hrestEnd, reports, hkind]
    · obtain ⟨hout, hnext⟩ := readValue_unsupported ⟨file, outside⟩ e
        (pos + e.header.data_offset_.toInt) hkind
      rw [hnext]
      simp [Log.append, hnameOut, hout, reports, hkind]

end Decoding

theorem header_accepted :
    Accepted (perfdata_header.ofBytes [0xca, 0xfe, 0xc0, 0xc0, 1, 2, 0]) := by
  refine ⟨?_, ⟨?_, ?_⟩, ?_⟩ <;> decide

/-- Past an accepted header the parse is the loop over the entries. -/
theorem parseBuffer_of_accepted (buf : Buffer) (raw : Bytes) (hraw : buf.copy 0 sizeofHeader = raw)
    (hok : Accepted (perfdata_header.ofBytes raw)) (prologue : buffer_prologue)
    (hprologue : buffer_prologue.ofBytes (buf.copy sizeofHeader sizeofPrologue) = prologue) :
    (parseBuffer buf).1.out =
        (entries buf prologue.num_entries_.toInt.toNat prologue.entry_offset_.toInt).1.out ∧
      (parseBuffer buf).2 =
        (entries buf prologue.num_entries_.toInt.toNat prologue.entry_offset_.toInt).2 := by
  obtain ⟨hmagic, hversion, horder⟩ := hok
  simp [parseBuffer, hraw, hmagic, hversion, horder, hprologue, headerLog, Log.append]

/-- parse decodes every well-formed image shorter than 2^31 bytes: it prints
exactly the reports of its entries and returns. -/
theorem parse_image (filepath file : Bytes) (outside : ℤ → UInt8) (prologue : buffer_prologue)
    (es : List Entry) (himage : Image file prologue es) (hfile : file.length < 2 ^ 31) :
    (parse filepath (some file) outside).1.out = reports es ∧
      (parse filepath (some file) outside).2 = .returned := by
  have hparse := parse_eq_parseBuffer filepath file outside hfile
  have hheader := copy_of_at file outside 0 _ himage.header
  have hprologue := copy_of_at file outside 7 _ himage.prologue_at
  have hsize : (buffer_prologue.toBytes prologue).length = sizeofPrologue := by
    simp [buffer_prologue.toBytes, sizeofPrologue]
  rw [hsize] at hprologue
  obtain ⟨hout, hend⟩ := entries_of_laid file outside es _ hfile himage.laid
  have hdecoded : buffer_prologue.ofBytes
      ((Buffer.mk file outside).copy sizeofHeader sizeofPrologue) = prologue := by
    rw [show ((sizeofHeader : ℕ) : ℤ) = 7 from rfl, hprologue, buffer_prologue_ofBytes]
  obtain ⟨hbuffer, hreturn⟩ := parseBuffer_of_accepted ⟨file, outside⟩ _ hheader header_accepted
    prologue hdecoded
  rw [himage.num_entries, Int.toNat_natCast] at hbuffer hreturn
  rw [hparse]
  exact ⟨hbuffer.trans hout, hreturn.trans hend⟩

instance (file : Bytes) (pos : ℤ) (bytes : Bytes) : Decidable (At file pos bytes) :=
  inferInstanceAs (Decidable (_ ∧ _))

/-- A scalar and a vector of the generations, then a scalar that is no long. -/
def sampleEntries : List Entry :=
  [⟨⟨48, 20, 0, 0x4a, 0, 1, 3, 40⟩, ascii "sun.gc.generation.0", .scalar (-5), by decide, rfl⟩,
    ⟨⟨44, 20, 4, 0x42, 0, 5, 1, 40⟩, ascii "sun.gc.generation.1", .vector [0x61, 0x62, 0, 0x63],
      by decide, ⟨by decide, by decide⟩⟩,
    ⟨⟨0, 20, 0, 0x49, 0, 1, 3, 22⟩, ascii "x", .scalar 7, by decide, rfl⟩]

def samplePrologue : buffer_prologue := ⟨1, 154, 0, 99, 32, 3⟩

def sampleFile : Bytes :=
  [0xca, 0xfe, 0xc0, 0xc0, 1, 2, 0] ++ buffer_prologue.toBytes samplePrologue ++
    sampleEntries.flatMap fun e =>
      entry_header.toBytes e.header ++ e.name ++ [0] ++ e.value.bytes

theorem sample_image : Image sampleFile samplePrologue sampleEntries where
  header := by decide
  prologue_at := by decide
  num_entries := by decide
  laid := ⟨by decide, by decide, by decide, by decide, by decide, by decide, by decide, by decide,
    by decide, trivial⟩

theorem sampleFile_length : sampleFile.length = 154 := by decide +kernel

theorem parse_image_sample :
    (parse [] (some sampleFile) fun _ => 0).1.out =
        [.name (ascii "sun.gc.generation.0"), .intValue (-5), .name (ascii "sun.gc.generation.1"),
          .strValue [0x61, 0x62], .unexpectedType 0x49] ∧
      (parse [] (some sampleFile) fun _ => 0).2 = .returned := by
  obtain ⟨hout, hend⟩ := parse_image [] sampleFile (fun _ => 0) samplePrologue sampleEntries
    sample_image (by rw [sampleFile_length]; decide)
  exact ⟨hout.trans (by decide), hend⟩

theorem at_padded (file pad : Bytes) (pos : ℤ) (bytes : Bytes) (h : At file pos bytes) :
    At (file ++ pad) pos bytes := by
  refine ⟨h.1, h.2.trans ?_⟩
  rw [List.drop_append]
  exact List.prefix_append _ _

theorem laid_padded (file pad : Bytes) (es : List Entry) (pos : ℤ) (h : Laid file es pos) :
    Laid (file ++ pad) es pos := by
  induction es generalizing pos with
  | nil => trivial
  | cons e rest ih =>
    obtain ⟨hheader, hname, hdata, hrest⟩ := h
    exact ⟨at_padded file pad _ _ hheader, at_padded file pad _ _ hname,
      at_padded file pad _ _ hdata, ih _ hrest⟩

/-- Padding behind the entries leaves an image an image. -/
theorem image_padded (file pad : Bytes) (prologue : buffer_prologue) (es : List Entry)
    (h : Image file prologue es) : Image (file ++ pad) prologue es :=
  ⟨at_padded file pad _ _ h.header, at_padded file pad _ _ h.prologue_at, h.num_entries,
    laid_padded file pad es _ h.laid⟩

theorem parse_of_negative (filepath file : Bytes) (outside : ℤ → UInt8)
    (h : wrap file.length < 0) : parse filepath (some file) outside = (.empty, .badAlloc) := by
  simp only [parse, if_pos h]

/-- With 2^31 bytes of padding the length is a negative int, new throws, and
nothing of the image is reported. -/
theorem long_image_not_reported :
    Image (sampleFile ++ List.replicate (2 ^ 31) 0) samplePrologue sampleEntries ∧
      (parse [] (some (sampleFile ++ List.replicate (2 ^ 31) 0)) fun _ => 0).1.out = [] ∧
      reports sampleEntries ≠ [] := by
  refine ⟨image_padded _ _ _ _ sample_image, ?_, by decide⟩
  have hlen : (sampleFile ++ List.replicate (2 ^ 31) (0 : UInt8)).length = 154 + 2 ^ 31 := by
    rw [List.length_append, List.length_replicate, sampleFile_length]
  have hneg : wrap (sampleFile ++ List.replicate (2 ^ 31) (0 : UInt8)).length < 0 := by
    rw [hlen]
    decide
  rw [parse_of_negative [] _ _ hneg]
  rfl

end JvmTrace.HsperfdataImage
