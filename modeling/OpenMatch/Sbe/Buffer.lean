import OpenMatch.Common.LittleEndian
import OpenMatch.Common.Window

/-!
# Buffers of the generated codec

`ReadBuf` and `WriteBuf` read and write integers at byte offsets of a slice. A panic is
`none`. Arithmetic on offsets is where the two ways to build the crate differ: an overflow
panics in a development build and wraps round in a release build. `usize` has 64 bits.

The accessors of the floating-point types are left out: no message has such a field.
-/

namespace OpenMatch.Sbe

open Window

/-- How the crate is built. `dev` has overflow checks and debug assertions, `release` has neither. -/
inductive Profile where
  | dev
  | release
  deriving DecidableEq

/-- The offsets and lengths of a 64-bit target. -/
abbrev Usize := UInt64

/-- Addition on `usize`. -/
def Profile.add (profile : Profile) (a b : Usize) : Option Usize :=
  match profile with
  | .dev => if a.toNat + b.toNat < UInt64.size then some (a + b) else none
  | .release => some (a + b)

/-- Subtraction on `usize`. -/
def Profile.sub (profile : Profile) (a b : Usize) : Option Usize :=
  match profile with
  | .dev => if b.toNat ≤ a.toNat then some (a - b) else none
  | .release => some (a - b)

/-- The bytes of a slice, of which there are at most `isize::MAX`. -/
@[ext]
structure Slice where
  bytes : List UInt8
  fits : bytes.length < 2 ^ 63

namespace Slice

/-- No bytes. -/
def empty : Slice := ⟨[], by decide⟩

/-- The slice with some of its bytes replaced. -/
def write (slice : Slice) (start : ℕ) (src : List UInt8) (h : start + src.length ≤ slice.bytes.length) : Slice where
  bytes := overwrite slice.bytes start src
  fits := by
    rw [length_overwrite h]
    exact slice.fits

/-- `slice[start..stop]`. -/
def range (slice : Slice) (start stop : Usize) : Option (List UInt8) :=
  if start.toNat ≤ stop.toNat ∧ stop.toNat ≤ slice.bytes.length then
    some (window slice.bytes start.toNat (stop.toNat - start.toNat))
  else none

/-- `slice[start..stop].copy_from_slice(src)`, which panics on a bad range and on a `src` of another length. -/
def copyFromSlice (slice : Slice) (start stop : Usize) (src : List UInt8) : Option Slice :=
  if h : start.toNat ≤ stop.toNat ∧ stop.toNat ≤ slice.bytes.length ∧ stop.toNat - start.toNat = src.length then
    some (slice.write start.toNat src (by omega))
  else none

end Slice

/-- The integer types a buffer has accessors for. -/
inductive Primitive where
  | uint8
  | uint16
  | uint32
  | uint64
  | int8
  | int16
  | int32
  | int64
  deriving DecidableEq

namespace Primitive

/-- The values of an integer type. -/
abbrev Value : Primitive → Type
  | uint8 => UInt8
  | uint16 => UInt16
  | uint32 => UInt32
  | uint64 => UInt64
  | int8 => Int8
  | int16 => Int16
  | int32 => Int32
  | int64 => Int64

/-- The number of bytes of a value. -/
def size : Primitive → ℕ
  | uint8 | int8 => 1
  | uint16 | int16 => 2
  | uint32 | int32 => 4
  | uint64 | int64 => 8

/-- The bits of a value as a number; of a signed one, those of its two's complement. -/
def bits : (type : Primitive) → type.Value → ℕ
  | uint8, value => UInt8.toNat value
  | uint16, value => UInt16.toNat value
  | uint32, value => UInt32.toNat value
  | uint64, value => UInt64.toNat value
  | int8, value => (Int8.toUInt8 value).toNat
  | int16, value => (Int16.toUInt16 value).toNat
  | int32, value => (Int32.toUInt32 value).toNat
  | int64, value => (Int64.toUInt64 value).toNat

/-- The value with these bits. -/
def ofBits : (type : Primitive) → ℕ → type.Value
  | uint8, n => UInt8.ofNat n
  | uint16, n => UInt16.ofNat n
  | uint32, n => UInt32.ofNat n
  | uint64, n => UInt64.ofNat n
  | int8, n => (UInt8.ofNat n).toInt8
  | int16, n => (UInt16.ofNat n).toInt16
  | int32, n => (UInt32.ofNat n).toInt32
  | int64, n => (UInt64.ofNat n).toInt64

/-- `to_le_bytes`. -/
def toLeBytes (type : Primitive) (value : type.Value) : List UInt8 :=
  LittleEndian.toBytes type.size (type.bits value)

/-- `from_le_bytes`. -/
def fromLeBytes (type : Primitive) (bytes : List UInt8) : type.Value := type.ofBits (LittleEndian.value bytes)

/-- A value has as many bytes as its type. -/
theorem length_toLeBytes (type : Primitive) (value : type.Value) : (type.toLeBytes value).length = type.size :=
  LittleEndian.length_toBytes _ _

/-- The bits of a value are in the range of its type. -/
theorem bits_lt (type : Primitive) (value : type.Value) : type.bits value < 256 ^ type.size := by
  cases type with
  | uint8 => exact UInt8.toNat_lt value
  | uint16 => exact UInt16.toNat_lt value
  | uint32 => exact UInt32.toNat_lt value
  | uint64 => exact UInt64.toNat_lt value
  | int8 => exact UInt8.toNat_lt (Int8.toUInt8 value)
  | int16 => exact UInt16.toNat_lt (Int16.toUInt16 value)
  | int32 => exact UInt32.toNat_lt (Int32.toUInt32 value)
  | int64 => exact UInt64.toNat_lt (Int64.toUInt64 value)

/-- A value is determined by its bits. -/
theorem ofBits_bits (type : Primitive) (value : type.Value) : type.ofBits (type.bits value) = value := by
  cases type <;> simp [bits, ofBits]

/-- Bits in range are those of a value. -/
theorem bits_ofBits (type : Primitive) {n : ℕ} (hn : n < 256 ^ type.size) : type.bits (type.ofBits n) = n := by
  cases type <;> simp [bits, ofBits, size] at hn ⊢ <;> omega

/-- A value is read back from its bytes. -/
theorem fromLeBytes_toLeBytes (type : Primitive) (value : type.Value) :
    type.fromLeBytes (type.toLeBytes value) = value := by
  rw [fromLeBytes, toLeBytes, LittleEndian.value_toBytes (type.bits_lt value), ofBits_bits]

/-- Any bytes of the right number are those of a value. -/
theorem toLeBytes_fromLeBytes (type : Primitive) {bytes : List UInt8} (hbytes : bytes.length = type.size) :
    type.toLeBytes (type.fromLeBytes bytes) = bytes := by
  have hlt := LittleEndian.value_lt bytes
  rw [hbytes] at hlt
  rw [fromLeBytes, toLeBytes, type.bits_ofBits hlt, ← hbytes, LittleEndian.toBytes_value]

end Primitive

/-- A buffer to read from. -/
structure ReadBuf where
  data : Slice

/-- A buffer to write to. -/
@[ext]
structure WriteBuf where
  data : Slice

namespace ReadBuf

/-- `N` bytes from an index on; the conversion to an array panics on any other number of them. -/
def getBytesAt (profile : Profile) (slice : Slice) (index n : Usize) : Option (List UInt8) := do
  let stop ← profile.add index n
  let bytes ← slice.range index stop
  if bytes.length = n.toNat then some bytes else none

/-- The value at an index. The accessors of the integer types are this one at their types. -/
def getAt (profile : Profile) (type : Primitive) (buf : ReadBuf) (index : Usize) : Option type.Value := do
  let bytes ← getBytesAt profile buf.data index (UInt64.ofNat type.size)
  return type.fromLeBytes bytes

/-- The byte at an index. -/
def getU8At (buf : ReadBuf) (index : Usize) : Option UInt8 := buf.data.bytes[index.toNat]?

/-- The `i8` at an index. -/
def getI8At (profile : Profile) (buf : ReadBuf) (index : Usize) : Option Int8 := buf.getAt profile .int8 index

/-- The `i16` at an index. -/
def getI16At (profile : Profile) (buf : ReadBuf) (index : Usize) : Option Int16 := buf.getAt profile .int16 index

/-- The `i32` at an index. -/
def getI32At (profile : Profile) (buf : ReadBuf) (index : Usize) : Option Int32 := buf.getAt profile .int32 index

/-- The `i64` at an index. -/
def getI64At (profile : Profile) (buf : ReadBuf) (index : Usize) : Option Int64 := buf.getAt profile .int64 index

/-- The `u16` at an index. -/
def getU16At (profile : Profile) (buf : ReadBuf) (index : Usize) : Option UInt16 := buf.getAt profile .uint16 index

/-- The `u32` at an index. -/
def getU32At (profile : Profile) (buf : ReadBuf) (index : Usize) : Option UInt32 := buf.getAt profile .uint32 index

/-- The `u64` at an index. -/
def getU64At (profile : Profile) (buf : ReadBuf) (index : Usize) : Option UInt64 := buf.getAt profile .uint64 index

/-- Any number of bytes from an index on. -/
def getSliceAt (profile : Profile) (buf : ReadBuf) (index len : Usize) : Option (List UInt8) := do
  let stop ← profile.add index len
  buf.data.range index stop

end ReadBuf

namespace WriteBuf

/-- Write an array of bytes from an index on; returns their number. -/
def putBytesAt (profile : Profile) (buf : WriteBuf) (index : Usize) (bytes : List UInt8) :
    Option (Usize × WriteBuf) := do
  let count := UInt64.ofNat bytes.length
  let stop ← profile.add index count
  let data ← buf.data.copyFromSlice index stop bytes
  return (count, ⟨data⟩)

/-- Write a value at an index. The accessors of the integer types are this one at their types. -/
def putAt (profile : Profile) (type : Primitive) (buf : WriteBuf) (index : Usize) (value : type.Value) :
    Option WriteBuf := do
  let (_, buf) ← buf.putBytesAt profile index (type.toLeBytes value)
  return buf

/-- Write a byte at an index. -/
def putU8At (buf : WriteBuf) (index : Usize) (value : UInt8) : Option WriteBuf :=
  if h : index.toNat < buf.data.bytes.length then some ⟨buf.data.write index.toNat [value] h⟩ else none

/-- Write an `i8` at an index. -/
def putI8At (profile : Profile) (buf : WriteBuf) (index : Usize) (value : Int8) : Option WriteBuf :=
  buf.putAt profile .int8 index value

/-- Write an `i16` at an index. -/
def putI16At (profile : Profile) (buf : WriteBuf) (index : Usize) (value : Int16) : Option WriteBuf :=
  buf.putAt profile .int16 index value

/-- Write an `i32` at an index. -/
def putI32At (profile : Profile) (buf : WriteBuf) (index : Usize) (value : Int32) : Option WriteBuf :=
  buf.putAt profile .int32 index value

/-- Write an `i64` at an index. -/
def putI64At (profile : Profile) (buf : WriteBuf) (index : Usize) (value : Int64) : Option WriteBuf :=
  buf.putAt profile .int64 index value

/-- Write a `u16` at an index. -/
def putU16At (profile : Profile) (buf : WriteBuf) (index : Usize) (value : UInt16) : Option WriteBuf :=
  buf.putAt profile .uint16 index value

/-- Write a `u32` at an index. -/
def putU32At (profile : Profile) (buf : WriteBuf) (index : Usize) (value : UInt32) : Option WriteBuf :=
  buf.putAt profile .uint32 index value

/-- Write a `u64` at an index. -/
def putU64At (profile : Profile) (buf : WriteBuf) (index : Usize) (value : UInt64) : Option WriteBuf :=
  buf.putAt profile .uint64 index value

/-- Write any number of bytes from an index on, splitting the slice twice to get at its place. -/
def putSliceAt (buf : WriteBuf) (index : Usize) (src : Slice) : Option (Usize × WriteBuf) :=
  if h : index.toNat ≤ buf.data.bytes.length ∧ src.bytes.length ≤ buf.data.bytes.length - index.toNat then
    some (UInt64.ofNat src.bytes.length, ⟨buf.data.write index.toNat src.bytes (by omega)⟩)
  else none

end WriteBuf

section Access

variable (profile : Profile) {index : Usize}

/-- A sum in range is computed in both profiles. -/
theorem Profile.add_of_lt {a b : Usize} (h : a.toNat + b.toNat < UInt64.size) :
    ∃ c, profile.add a b = some c ∧ c.toNat = a.toNat + b.toNat := by
  refine ⟨a + b, ?_, ?_⟩
  · cases profile with
    | dev => rw [Profile.add, if_pos h]
    | release => rfl
  · rw [UInt64.toNat_add]
    exact Nat.mod_eq_of_lt h

/-- A sum out of range panics, or has wrapped round to less than either number. -/
theorem Profile.add_of_le {a b : Usize} (h : UInt64.size ≤ a.toNat + b.toNat) {c : Usize}
    (hadd : profile.add a b = some c) : profile = .release ∧ c.toNat + UInt64.size = a.toNat + b.toNat := by
  cases profile with
  | dev =>
    rw [Profile.add, if_neg (Nat.not_lt.mpr h)] at hadd
    cases hadd
  | release =>
    obtain rfl : a + b = c := Option.some.inj hadd
    have ha := a.toNat_lt
    have hb := b.toNat_lt
    have hsize : UInt64.size = 2 ^ 64 := rfl
    refine ⟨rfl, ?_⟩
    rw [UInt64.toNat_add]
    omega

/-- What was added is found by subtraction. -/
theorem Profile.sub_of_eq {a b c : Usize} (h : a.toNat = b.toNat + c.toNat) : profile.sub a b = some c := by
  have hdiff : a - b = c := by
    apply UInt64.toNat_inj.mp
    have hle : b ≤ a := UInt64.le_iff_toNat_le.mpr (by omega)
    rw [UInt64.toNat_sub_of_le a b hle]
    omega
  cases profile with
  | dev => rw [Profile.sub, if_pos (by omega), hdiff]
  | release => rw [Profile.sub, hdiff]

/-- The sizes of the integer types are in range. -/
theorem Primitive.toNat_size (type : Primitive) : (UInt64.ofNat type.size).toNat = type.size := by
  cases type <;> rfl

/-- Bytes are read exactly if all of them are in the slice. -/
theorem ReadBuf.getBytesAt_eq (slice : Slice) (n : Usize) :
    ReadBuf.getBytesAt profile slice index n =
      if index.toNat + n.toNat ≤ slice.bytes.length then some (window slice.bytes index.toNat n.toNat) else none := by
  have hfits := slice.fits
  have hsize : UInt64.size = 2 ^ 64 := rfl
  by_cases hrange : index.toNat + n.toNat < UInt64.size
  · obtain ⟨stop, hadd, hstop⟩ := profile.add_of_lt hrange
    by_cases hinside : index.toNat + n.toNat ≤ slice.bytes.length
    · have hlength : (window slice.bytes index.toNat n.toNat).length = n.toNat := length_window hinside
      simp [ReadBuf.getBytesAt, hadd, Slice.range, hstop, hinside, hlength]
    · simp [ReadBuf.getBytesAt, hadd, Slice.range, hstop, hinside]
  · rw [if_neg (by omega)]
    cases hadd : profile.add index n with
    | none => simp [ReadBuf.getBytesAt, hadd]
    | some stop =>
      -- the end has wrapped round to before the start, which slicing refuses
      obtain ⟨-, hstop⟩ := profile.add_of_le (Nat.not_lt.mp hrange) hadd
      have hn := n.toNat_lt
      have hbad : ¬ index.toNat ≤ stop.toNat := by omega
      simp [ReadBuf.getBytesAt, hadd, Slice.range, hbad]

/-- A value is read exactly if its bytes are in the buffer. -/
theorem ReadBuf.getAt_eq (buf : ReadBuf) (type : Primitive) :
    buf.getAt profile type index = if index.toNat + type.size ≤ buf.data.bytes.length then
      some (type.fromLeBytes (window buf.data.bytes index.toNat type.size)) else none := by
  rw [ReadBuf.getAt, ReadBuf.getBytesAt_eq, type.toNat_size]
  split <;> rfl

/-- An array of bytes is written exactly if the buffer has a place for all of it. -/
theorem WriteBuf.putBytesAt_eq (buf : WriteBuf) {bytes : List UInt8} (hbytes : bytes.length < UInt64.size) :
    buf.putBytesAt profile index bytes = if h : index.toNat + bytes.length ≤ buf.data.bytes.length then
      some (UInt64.ofNat bytes.length, ⟨buf.data.write index.toNat bytes h⟩) else none := by
  have hfits := buf.data.fits
  have hsize : UInt64.size = 2 ^ 64 := rfl
  have hcount : (UInt64.ofNat bytes.length).toNat = bytes.length := UInt64.toNat_ofNat_of_lt hbytes
  by_cases hrange : index.toNat + (UInt64.ofNat bytes.length).toNat < UInt64.size
  · obtain ⟨stop, hadd, hstop⟩ := profile.add_of_lt hrange
    rw [hcount] at hstop
    by_cases hinside : index.toNat + bytes.length ≤ buf.data.bytes.length
    · simp [WriteBuf.putBytesAt, hadd, Slice.copyFromSlice, hstop, hinside]
    · simp [WriteBuf.putBytesAt, hadd, Slice.copyFromSlice, hstop, hinside]
  · rw [dif_neg (by omega)]
    cases hadd : profile.add index (UInt64.ofNat bytes.length) with
    | none => simp [WriteBuf.putBytesAt, hadd]
    | some stop =>
      obtain ⟨-, hstop⟩ := profile.add_of_le (Nat.not_lt.mp hrange) hadd
      have hbad : ¬ index.toNat ≤ stop.toNat := by omega
      simp [WriteBuf.putBytesAt, hadd, Slice.copyFromSlice, hbad]

/-- A value is written exactly if the buffer has a place for its bytes. -/
theorem WriteBuf.putAt_eq (buf : WriteBuf) (type : Primitive) (value : type.Value) :
    buf.putAt profile type index value =
      if h : index.toNat + (type.toLeBytes value).length ≤ buf.data.bytes.length then
        some ⟨buf.data.write index.toNat (type.toLeBytes value) h⟩ else none := by
  have hlength : (type.toLeBytes value).length < UInt64.size := by
    rw [type.length_toLeBytes]
    cases type <;> decide
  rw [WriteBuf.putAt, buf.putBytesAt_eq profile hlength]
  split <;> rfl

/-- Any number of bytes is read like an array of that many. -/
theorem ReadBuf.getSliceAt_eq (buf : ReadBuf) (len : Usize) :
    buf.getSliceAt profile index len = ReadBuf.getBytesAt profile buf.data index len := by
  have hfits := buf.data.fits
  have hsize : UInt64.size = 2 ^ 64 := rfl
  rw [getBytesAt_eq, getSliceAt]
  by_cases hrange : index.toNat + len.toNat < UInt64.size
  · obtain ⟨stop, hadd, hstop⟩ := profile.add_of_lt hrange
    simp [hadd, Slice.range, hstop]
  · rw [if_neg (by omega)]
    cases hadd : profile.add index len with
    | none => rfl
    | some stop =>
      obtain ⟨-, hstop⟩ := profile.add_of_le (Nat.not_lt.mp hrange) hadd
      have hlen := len.toNat_lt
      have hbad : ¬ index.toNat ≤ stop.toNat := by omega
      simp [Slice.range, hbad]

/-- A byte is its own little-endian form. -/
theorem Primitive.toLeBytes_uint8 (value : UInt8) : toLeBytes .uint8 value = [value] := by
  have hvalue : UInt8.ofNat value.toNat = value := UInt8.ofNat_toNat
  simp [toLeBytes, LittleEndian.toBytes, size, bits, hvalue]

/-- A byte is read like an integer of one byte. -/
theorem ReadBuf.getU8At_eq (buf : ReadBuf) : buf.getU8At index = buf.getAt profile .uint8 index := by
  rw [getAt_eq, getU8At]
  change _ = if index.toNat + 1 ≤ buf.data.bytes.length then
    some (Primitive.fromLeBytes .uint8 (window buf.data.bytes index.toNat 1)) else none
  by_cases hinside : index.toNat + 1 ≤ buf.data.bytes.length
  · rw [if_pos hinside, List.getElem?_eq_getElem hinside]
    have hwindow : window buf.data.bytes index.toNat 1 = Primitive.toLeBytes .uint8 buf.data.bytes[index.toNat] := by
      rw [Primitive.toLeBytes_uint8, window, List.drop_eq_getElem_cons hinside, List.take_succ_cons, List.take_zero]
    rw [hwindow, Primitive.fromLeBytes_toLeBytes]
  · rw [if_neg hinside, List.getElem?_eq_none (by omega)]

/-- A byte is written like an integer of one byte. -/
theorem WriteBuf.putU8At_eq (buf : WriteBuf) (value : UInt8) :
    buf.putU8At index value = buf.putAt profile .uint8 index value := by
  rw [putU8At, putAt_eq]
  simp only [Primitive.toLeBytes_uint8]
  rfl

/-- Any number of bytes is written like an array of that many. -/
theorem WriteBuf.putSliceAt_eq (buf : WriteBuf) (src : Slice) :
    buf.putSliceAt index src = buf.putBytesAt profile index src.bytes := by
  have hsrc := src.fits
  have hsize : UInt64.size = 2 ^ 64 := rfl
  rw [putSliceAt, putBytesAt_eq profile _ (by omega)]
  by_cases hplace : index.toNat + src.bytes.length ≤ buf.data.bytes.length
  · rw [dif_pos hplace, dif_pos ⟨by omega, by omega⟩]
  · rw [dif_neg hplace, dif_neg (by omega)]

/-- The accessors that go to the bytes directly do what the others do, in both profiles: a byte is an integer of
one byte, and a slice is an array whose length is not known. A slice that was written is read back. -/
theorem direct_accessors_agree (data : Slice) (index : Usize) :
    (ReadBuf.mk data).getU8At index = (ReadBuf.mk data).getAt profile .uint8 index ∧
      (∀ value, (WriteBuf.mk data).putU8At index value = (WriteBuf.mk data).putAt profile .uint8 index value) ∧
      (∀ len, (ReadBuf.mk data).getSliceAt profile index len = ReadBuf.getBytesAt profile data index len) ∧
      ∀ src : Slice, (WriteBuf.mk data).putSliceAt index src = (WriteBuf.mk data).putBytesAt profile index src.bytes ∧
        ∀ len buf, (WriteBuf.mk data).putSliceAt index src = some (len, buf) →
          (ReadBuf.mk buf.data).getSliceAt profile index len = some src.bytes := by
  refine ⟨ReadBuf.getU8At_eq profile _, WriteBuf.putU8At_eq profile _, ReadBuf.getSliceAt_eq profile _,
    fun src => ⟨WriteBuf.putSliceAt_eq profile _ src, fun len buf hput => ?_⟩⟩
  have hsrc := src.fits
  have hsize : UInt64.size = 2 ^ 64 := rfl
  have hcount : (UInt64.ofNat src.bytes.length).toNat = src.bytes.length := UInt64.toNat_ofNat_of_lt (by omega)
  rw [WriteBuf.putSliceAt_eq profile, WriteBuf.putBytesAt_eq profile _ (by omega)] at hput
  split at hput
  · rename_i hplace
    obtain ⟨rfl, rfl⟩ := Prod.mk.inj (Option.some.inj hput)
    rw [ReadBuf.getSliceAt_eq, ReadBuf.getBytesAt_eq, hcount]
    change (if _ ≤ (overwrite data.bytes index.toNat src.bytes).length then
      some (window (overwrite data.bytes index.toNat src.bytes) index.toNat src.bytes.length) else none) = _
    rw [length_overwrite hplace, if_pos hplace, window_overwrite_self hplace]
  · cases hput

end Access

end OpenMatch.Sbe
