import JvmTrace.LittleEndian

/-!
hsperfdata_parser::parse of src/hsperfdata_parser.h. The buffer is the file as
far as the int length reaches; a byte read outside it is whatever the memory
there holds. Every fprintf is a message with its arguments, and beside the
messages the parse records each read it makes of the buffer and the exact value
of each 32-bit sum, so that bounds and overflows can be stated.
-/
namespace JvmTrace.HsperfdataParser

open LittleEndian

/-- The packed header of the file. -/
structure perfdata_header where
  magic_ : UInt32
  byte_order_ : UInt8
  major_ : UInt8
  minor_ : UInt8

structure buffer_prologue where
  accessible_ : UInt8
  used_ : Int32
  overflow_ : Int32
  modify_time_ : Int64
  entry_offset_ : Int32
  num_entries_ : Int32

structure entry_header where
  entry_length_ : Int32
  name_offset_ : Int32
  vector_length_ : Int32
  data_type_ : UInt8
  flags_ : UInt8
  data_units_ : UInt8
  data_var_ : UInt8
  data_offset_ : Int32

def byte (raw : Bytes) (offset : ℕ) : UInt8 := raw.getD offset 0

def perfdata_header.ofBytes (raw : Bytes) : perfdata_header where
  magic_ := uint32 (field raw 0 4)
  byte_order_ := byte raw 4
  major_ := byte raw 5
  minor_ := byte raw 6

def buffer_prologue.ofBytes (raw : Bytes) : buffer_prologue where
  accessible_ := byte raw 0
  used_ := int32 (field raw 1 4)
  overflow_ := int32 (field raw 5 4)
  modify_time_ := int64 (field raw 9 8)
  entry_offset_ := int32 (field raw 17 4)
  num_entries_ := int32 (field raw 21 4)

def entry_header.ofBytes (raw : Bytes) : entry_header where
  entry_length_ := int32 (field raw 0 4)
  name_offset_ := int32 (field raw 4 4)
  vector_length_ := int32 (field raw 8 4)
  data_type_ := byte raw 12
  flags_ := byte raw 13
  data_units_ := byte raw 14
  data_var_ := byte raw 15
  data_offset_ := int32 (field raw 16 4)

def sizeofHeader : ℕ := 7

def sizeofPrologue : ℕ := 25

def sizeofEntry : ℕ := 20

/-- The calls of fprintf on stderr. -/
inductive Message
  | errorOpen (filepath : Bytes)
  | illegalMagic (magic : UInt32)
  | unsupportedVersion (major minor : UInt8)
  | unsupportBigendian
  | name (text : Bytes)
  | intValue (value : Int64)
  | strValue (value : Bytes)
  | unexpectedType (data_type : UInt8)
  | unexpectedVector (data_type data_units data_var : UInt8)
  deriving DecidableEq

def ascii (s : String) : Bytes := s.toUTF8.data.toList

def hex (n : ℕ) : Bytes := ascii (String.ofList (Nat.toDigits 16 n))

/-- The text each call prints. -/
def Message.print : Message → Bytes
  | .errorOpen filepath => ascii "error open file:" ++ filepath ++ ascii "\n"
  | .illegalMagic magic => ascii "illegal magic " ++ hex magic.toNat ++ ascii "\n"
  | .unsupportedVersion major minor =>
      ascii "unsupported version " ++ hex major.toNat ++ ascii "." ++ hex minor.toNat ++ ascii "\n"
  | .unsupportBigendian => ascii "unsupport bigendian\n"
  | .name text => ascii "name:" ++ text ++ ascii ", "
  | .intValue value => ascii "\tint_value:" ++ ascii (toString value.toInt) ++ ascii "\n"
  | .strValue value => ascii "\tstr_value:" ++ value ++ ascii "\n"
  | .unexpectedType data_type =>
      ascii "\tUnexpected monitor type: " ++ hex data_type.toNat ++ ascii "\n"
  | .unexpectedVector data_type data_units data_var =>
      ascii "\tUnexpected vector monitor: data_type_:" ++ hex data_type.toNat ++
        ascii ",data_units_:" ++ hex data_units.toNat ++ ascii ",data_var_:" ++ hex data_var.toNat ++
        ascii "\n"

/-- How parse ends: by a return, or by an exception of new or of std::string. -/
inductive Ending
  | returned
  | badAlloc
  | lengthError
  deriving DecidableEq

/-- One read of the buffer: its first position and its number of bytes. -/
structure Read where
  start : ℤ
  length : ℕ
  deriving DecidableEq

structure Log where
  out : List Message
  reads : List Read
  sums : List ℤ

namespace Log

def empty : Log := ⟨[], [], []⟩

def append (first second : Log) : Log :=
  ⟨first.out ++ second.out, first.reads ++ second.reads, first.sums ++ second.sums⟩

def message (m : Message) : Log := ⟨[m], [], []⟩

end Log

/-- The value of an int after its computation. -/
def wrap (x : ℤ) : ℤ := x.bmod (2 ^ 32)

structure Buffer where
  bytes : Bytes
  outside : ℤ → UInt8

namespace Buffer

def len (buf : Buffer) : ℤ := buf.bytes.length

def byteAt (buf : Buffer) (i : ℤ) : UInt8 :=
  if 0 ≤ i ∧ i < buf.len then buf.bytes.getD i.toNat 0 else buf.outside i

/-- memcpy, or a std::string, of count bytes from the buffer. -/
def copy (buf : Buffer) (start : ℤ) (count : ℕ) : Bytes :=
  (List.range count).map fun i : ℕ => buf.byteAt (start + i)

end Buffer

/-- std::string::find. -/
def find (pattern : Bytes) : Bytes → Option ℕ
  | [] => if pattern = [] then some 0 else none
  | b :: rest => if pattern <+: b :: rest then some 0 else (find pattern rest).map (· + 1)

/-- npos is -1 as an int. -/
def is_generation (name : Bytes) : Bool :=
  let pos : ℤ :=
    match find (ascii "sun.gc.generation") name with
    | some i => wrap i
    | none => -1
  !(pos < 0)

/-- The loop that counts the bytes of a name, with the reads it makes; fuel is
the distance from n to the length. -/
def nameScan (buf : Buffer) : ℕ → ℤ → ℕ × List Read
  | 0, _ => (0, [])
  | fuel + 1, n =>
      if buf.byteAt n = 0 then (0, [⟨n, 1⟩])
      else
        let (nlen, reads) := nameScan buf fuel (n + 1)
        (nlen + 1, ⟨n, 1⟩ :: reads)

/-- The name of an entry and what finding it reads. -/
def readName (buf : Buffer) (pos : ℤ) (entry : entry_header) : Bytes × Log :=
  let nameStart := wrap (pos + entry.name_offset_.toInt)
  let (nlen, reads) := nameScan buf (buf.len - nameStart).toNat nameStart
  let name := buf.copy nameStart nlen
  (name, ⟨if is_generation name then [.name name] else [], reads ++ [⟨nameStart, nlen⟩],
    [pos + entry.name_offset_.toInt]⟩)

/-- What printing a std::string by its c_str shows. -/
def cStr (value : Bytes) : Bytes := value.takeWhile (· ≠ 0)

def scalarSupported (entry : entry_header) : Bool := entry.data_type_ = 'J'.toUInt8

def vectorSupported (entry : entry_header) : Bool :=
  entry.data_type_ = 'B'.toUInt8 ∧ entry.data_units_ = 5 ∧
    (entry.data_var_ = 1 ∨ entry.data_var_ = 3)

/-- The value of an entry: what it prints and reads, and the ending when the
parse does not go on. -/
def readValue (buf : Buffer) (entry : entry_header) (name : Bytes) (dataStart : ℤ) :
    Log × Option Ending :=
  if entry.vector_length_ = 0 then
    if scalarSupported entry then
      let value := int64 (buf.copy dataStart 8)
      (⟨if is_generation name then [.intValue value] else [], [⟨dataStart, 8⟩], []⟩, none)
    else (.message (.unexpectedType entry.data_type_), some .returned)
  else if vectorSupported entry then
    if entry.vector_length_.toInt < 0 then (.empty, some .lengthError)
    else
      let count := entry.vector_length_.toInt.toNat
      let value := buf.copy dataStart count
      (⟨if is_generation name then [.strValue (cStr value)] else [], [⟨dataStart, count⟩], []⟩, none)
  else
    (.message (.unexpectedVector entry.data_type_ entry.data_units_ entry.data_var_), some .returned)

/-- The loop over the entries. -/
def entries (buf : Buffer) : ℕ → ℤ → Log × Ending
  | 0, _ => (.empty, .returned)
  | n + 1, pos =>
      let entry := entry_header.ofBytes (buf.copy pos sizeofEntry)
      let (name, nameLog) := readName buf pos entry
      let dataStart := wrap (pos + entry.data_offset_.toInt)
      let (valueLog, ending) := readValue buf entry name dataStart
      let log := (Log.append ⟨[], [⟨pos, sizeofEntry⟩], []⟩ nameLog).append
        (Log.append ⟨[], [], [pos + entry.data_offset_.toInt]⟩ valueLog)
      match ending with
      | some ending => (log, ending)
      | none =>
          let (rest, ending) := entries buf n (wrap (pos + entry.entry_length_.toInt))
          ((log.append ⟨[], [], [pos + entry.entry_length_.toInt]⟩).append rest, ending)

/-- The copy of the header and the step of pos behind it. -/
def headerLog : Log := ⟨[], [⟨0, sizeofHeader⟩], [0 + sizeofHeader]⟩

/-- The parse of the buffer. -/
def parseBuffer (buf : Buffer) : Log × Ending :=
  let header := perfdata_header.ofBytes (buf.copy 0 sizeofHeader)
  if header.magic_ ≠ 0xc0c0feca then
    (headerLog.append (.message (.illegalMagic header.magic_)), .returned)
  else if ¬ (header.major_ = 2 ∧ header.minor_ = 0) then
    (headerLog.append (.message (.unsupportedVersion header.major_ header.minor_)), .returned)
  else if header.byte_order_ ≠ 1 then
    (headerLog.append (.message .unsupportBigendian), .returned)
  else
    let prologue := buffer_prologue.ofBytes (buf.copy sizeofHeader sizeofPrologue)
    let (rest, ending) := entries buf prologue.num_entries_.toInt.toNat prologue.entry_offset_.toInt
    ((headerLog.append ⟨[], [⟨sizeofHeader, sizeofPrologue⟩], []⟩).append rest, ending)

/-- The file is none when fopen fails. A length that is negative as an int makes
new throw; otherwise the buffer holds the file up to that length. -/
def parse (filepath : Bytes) (file : Option Bytes) (outside : ℤ → UInt8) : Log × Ending :=
  match file with
  | none => (.message (.errorOpen filepath), .returned)
  | some content =>
      let len := wrap content.length
      if len < 0 then (.empty, .badAlloc)
      else parseBuffer ⟨content.take len.toNat, outside⟩

end JvmTrace.HsperfdataParser
