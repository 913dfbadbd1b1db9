import Mathlib

/-!
Little-endian numbers in byte lists, and fields cut out of a list by offset and
length. Encoding a number in a fixed count of bytes and decoding it gives the
number back modulo the range of that count, and a field of a concatenation is
found in the part its offset falls into. Nothing here names a program.
-/
namespace JvmTrace.LittleEndian

abbrev Bytes := List UInt8

/-- The number whose bytes are listed from the least significant one. -/
def decode : Bytes → ℕ
  | [] => 0
  | b :: rest => b.toNat + 256 * decode rest

/-- The lowest bytes of a number, least significant one first. -/
def encode : ℕ → ℕ → Bytes
  | 0, _ => []
  | count + 1, n => UInt8.ofNat n :: encode count (n / 256)

/-- The bytes of a field at an offset. -/
def field (raw : Bytes) (offset count : ℕ) : Bytes := (raw.drop offset).take count

@[simp] theorem encode_length (count n : ℕ) : (encode count n).length = count := by
  induction count generalizing n with
  | zero => rfl
  | succ count ih => simp [encode, ih]

theorem decode_encode (count n : ℕ) : decode (encode count n) = n % 256 ^ count := by
  induction count generalizing n with
  | zero => simp [encode, decode, Nat.mod_one]
  | succ count ih =>
    have hpow : 256 ^ (count + 1) = 256 * 256 ^ count := Nat.pow_succ'
    rw [encode, decode, ih, UInt8.toNat_ofNat', hpow, Nat.mod_mul]

def uint32 (raw : Bytes) : UInt32 := UInt32.ofNat (decode raw)

def int32 (raw : Bytes) : Int32 := (uint32 raw).toInt32

def int64 (raw : Bytes) : Int64 := (UInt64.ofNat (decode raw)).toInt64

def ofUInt32 (x : UInt32) : Bytes := encode 4 x.toNat

def ofInt32 (x : Int32) : Bytes := ofUInt32 x.toUInt32

def ofInt64 (x : Int64) : Bytes := encode 8 x.toUInt64.toNat

@[simp] theorem ofInt32_length (x : Int32) : (ofInt32 x).length = 4 := encode_length 4 _

@[simp] theorem ofInt64_length (x : Int64) : (ofInt64 x).length = 8 := encode_length 8 _

@[simp] theorem uint32_ofUInt32 (x : UInt32) : uint32 (ofUInt32 x) = x := by
  have hlt : x.toNat < 256 ^ 4 := x.toNat_lt
  rw [uint32, ofUInt32, decode_encode, Nat.mod_eq_of_lt hlt, UInt32.ofNat_toNat]

@[simp] theorem int32_ofInt32 (x : Int32) : int32 (ofInt32 x) = x := by
  rw [int32, ofInt32, uint32_ofUInt32, Int32.toInt32_toUInt32]

@[simp] theorem int64_ofInt64 (x : Int64) : int64 (ofInt64 x) = x := by
  have hlt : x.toUInt64.toNat < 256 ^ 8 := x.toUInt64.toNat_lt
  rw [int64, ofInt64, decode_encode, Nat.mod_eq_of_lt hlt, UInt64.ofNat_toNat,
    Int64.toInt64_toUInt64]

theorem field_all (raw : Bytes) (count : ℕ) (hcount : raw.length = count) :
    field raw 0 count = raw := by
  subst hcount
  simp [field]

theorem field_cons (b : UInt8) (raw : Bytes) (offset count : ℕ) :
    field (b :: raw) (offset + 1) count = field raw offset count := rfl

/-- A field that begins a concatenation. -/
theorem field_head (head rest : Bytes) (count : ℕ) (hcount : head.length = count) :
    field (head ++ rest) 0 count = head := by
  subst hcount
  simp [field]

/-- A field beyond the first part of a concatenation. -/
theorem field_skip (head rest : Bytes) (offset count : ℕ) (hoffset : head.length ≤ offset) :
    field (head ++ rest) offset count = field rest (offset - head.length) count := by
  simp only [field]
  rw [List.drop_append, List.drop_eq_nil_of_le hoffset, List.nil_append]

end JvmTrace.LittleEndian
