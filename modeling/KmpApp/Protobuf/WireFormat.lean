import Mathlib.Algebra.Ring.Nat
import Mathlib.Data.List.Basic
import Mathlib.Tactic.IntervalCases

/-!
# WireFormat — tags, zigzag numbers and the descriptors of a message

The `uint32_t` and `int32_t` of the runtime are both `BitVec 32`, its 64-bit integers `BitVec 64`: a
cast between the signed and the unsigned type of one width does not change the bits.  A `float` and a
`double` are their bits as well, since the runtime only copies them.
-/

namespace KmpApp
namespace Protobuf

inductive GPBWireFormat
  | varint
  | fixed64
  | lengthDelimited
  | startGroup
  | endGroup
  | fixed32
  deriving DecidableEq, Repr

def GPBWireFormat.rawValue : GPBWireFormat → BitVec 32
  | .varint => 0
  | .fixed64 => 1
  | .lengthDelimited => 2
  | .startGroup => 3
  | .endGroup => 4
  | .fixed32 => 5

/-! ## Tags -/

def GPBWireFormatMakeTag (fieldNumber : BitVec 32) (wireType : GPBWireFormat) : BitVec 32 :=
  (fieldNumber <<< 3) ||| wireType.rawValue

/-- The cast to the enumeration; the masks 6 and 7 are none of its values. -/
def GPBWireFormatGetTagWireType (tag : BitVec 32) : Option GPBWireFormat :=
  match (tag &&& 7).toNat with
  | 0 => some .varint
  | 1 => some .fixed64
  | 2 => some .lengthDelimited
  | 3 => some .startGroup
  | 4 => some .endGroup
  | 5 => some .fixed32
  | _ => none

def GPBWireFormatGetTagFieldNumber (tag : BitVec 32) : BitVec 32 :=
  tag >>> 3

def GPBWireFormatIsValidTag (tag : BitVec 32) : Bool :=
  tag &&& 7 ≤ 5

theorem toNat_and_seven (tag : BitVec 32) : (tag &&& 7).toNat = tag.toNat % 8 := by
  rw [BitVec.toNat_and]
  exact Nat.and_two_pow_sub_one_eq_mod _ 3

theorem toNat_fieldNumber (tag : BitVec 32) :
    (GPBWireFormatGetTagFieldNumber tag).toNat = tag.toNat / 8 := by
  simp [GPBWireFormatGetTagFieldNumber, Nat.shiftRight_eq_div_pow]

theorem rawValue_lt (wireType : GPBWireFormat) : wireType.rawValue.toNat < 6 := by
  cases wireType <;> decide

theorem toNat_makeTag {fieldNumber : BitVec 32} (h : fieldNumber.toNat < 2 ^ 29)
    (wireType : GPBWireFormat) :
    (GPBWireFormatMakeTag fieldNumber wireType).toNat =
      8 * fieldNumber.toNat + wireType.rawValue.toNat := by
  have hraw : wireType.rawValue.toNat < 2 ^ 3 := by
    have := rawValue_lt wireType
    omega
  -- The three bits shifted out at the top are zero for a field number of 29 bits.
  have hshift : (fieldNumber <<< 3).toNat = 2 ^ 3 * fieldNumber.toNat := by
    simp only [BitVec.toNat_shiftLeft, Nat.shiftLeft_eq]
    omega
  rw [GPBWireFormatMakeTag, BitVec.toNat_or, hshift, ← Nat.two_pow_add_eq_or_of_lt hraw]

theorem wireType_eq_some {tag : BitVec 32} {wireType : GPBWireFormat} :
    GPBWireFormatGetTagWireType tag = some wireType ↔
      tag.toNat % 8 = wireType.rawValue.toNat := by
  rw [GPBWireFormatGetTagWireType, toNat_and_seven]
  have hlt : tag.toNat % 8 < 8 := Nat.mod_lt _ (by omega)
  -- Only the three lowest bits count.
  generalize tag.toNat % 8 = bits at hlt
  interval_cases bits <;> cases wireType <;> decide

theorem isValidTag_iff {tag : BitVec 32} :
    GPBWireFormatIsValidTag tag = true ↔
      ∃ wireType, GPBWireFormatGetTagWireType tag = some wireType := by
  have hle : GPBWireFormatIsValidTag tag = true ↔ tag.toNat % 8 ≤ 5 := by
    rw [GPBWireFormatIsValidTag, decide_eq_true_iff, BitVec.le_def, toNat_and_seven]
    rfl
  rw [hle, GPBWireFormatGetTagWireType, toNat_and_seven]
  have hlt : tag.toNat % 8 < 8 := Nat.mod_lt _ (by omega)
  generalize tag.toNat % 8 = bits at hlt
  interval_cases bits <;> simp

theorem wireType_makeTag {fieldNumber : BitVec 32} (h : fieldNumber.toNat < 2 ^ 29)
    (wireType : GPBWireFormat) :
    GPBWireFormatGetTagWireType (GPBWireFormatMakeTag fieldNumber wireType) = some wireType := by
  have := rawValue_lt wireType
  rw [wireType_eq_some, toNat_makeTag h]
  omega

theorem fieldNumber_makeTag {fieldNumber : BitVec 32} (h : fieldNumber.toNat < 2 ^ 29)
    (wireType : GPBWireFormat) :
    GPBWireFormatGetTagFieldNumber (GPBWireFormatMakeTag fieldNumber wireType) = fieldNumber := by
  have := rawValue_lt wireType
  apply BitVec.eq_of_toNat_eq
  rw [toNat_fieldNumber, toNat_makeTag h]
  omega

/-- A tag is made of the field number and the wire type it is split into. -/
theorem makeTag_of_split {tag : BitVec 32} {wireType : GPBWireFormat}
    (h : GPBWireFormatGetTagWireType tag = some wireType) :
    GPBWireFormatMakeTag (GPBWireFormatGetTagFieldNumber tag) wireType = tag := by
  have hsmall : (GPBWireFormatGetTagFieldNumber tag).toNat < 2 ^ 29 := by
    rw [toNat_fieldNumber]
    have := tag.isLt
    omega
  apply BitVec.eq_of_toNat_eq
  rw [toNat_makeTag hsmall, toNat_fieldNumber, ← wireType_eq_some.mp h]
  omega

/-! ## Zigzag numbers -/

def encodeZigZag {w : ℕ} (n : BitVec w) : BitVec w :=
  (n <<< 1) ^^^ n.sshiftRight (w - 1)

def decodeZigZag {w : ℕ} (n : BitVec w) : BitVec w :=
  (n >>> 1) ^^^ -(n &&& 1)

def GPBEncodeZigZag32 (n : BitVec 32) : BitVec 32 :=
  encodeZigZag n

def GPBEncodeZigZag64 (n : BitVec 64) : BitVec 64 :=
  encodeZigZag n

def GPBDecodeZigZag32 (n : BitVec 32) : BitVec 32 :=
  decodeZigZag n

def GPBDecodeZigZag64 (n : BitVec 64) : BitVec 64 :=
  decodeZigZag n

theorem neg_and_one {w : ℕ} (n : BitVec w) :
    -(n &&& 1) = if n.getLsbD 0 then BitVec.allOnes w else 0 := by
  have hbit : n &&& 1 = if n.getLsbD 0 then 1 else 0 := by
    apply BitVec.eq_of_getLsbD_eq
    intro i hi
    by_cases h0 : i = 0
    · subst h0
      cases hb : n.getLsbD 0 <;> simp [hb]
    · cases n.getLsbD 0 <;> simp [BitVec.getLsbD_one, h0]
  rw [hbit]
  split
  · exact BitVec.neg_one_eq_allOnes
  · simp

/-- An arithmetic shift by the width less one fills the word with its sign. -/
theorem sshiftRight_pred {w : ℕ} (hw : 0 < w) (n : BitVec w) :
    n.sshiftRight (w - 1) = if n.msb then BitVec.allOnes w else 0 := by
  apply BitVec.eq_of_getLsbD_eq
  intro i hi
  rw [BitVec.getLsbD_sshiftRight]
  by_cases h0 : w - 1 + i < w
  · have hi0 : i = 0 := by omega
    subst hi0
    have hlast : n.getLsbD (w - 1) = n.msb := (BitVec.msb_eq_getLsbD_last n).symm
    rw [if_pos h0, Nat.add_zero, hlast]
    cases n.msb <;> simp [hw, Nat.ne_of_gt hw]
  · cases n.msb <;> simp [h0, hi]

theorem decodeZigZag_encodeZigZag {w : ℕ} (hw : 0 < w) (n : BitVec w) :
    decodeZigZag (encodeZigZag n) = n := by
  -- The lowest bit of the code is the sign.
  have h0 : (encodeZigZag n).getLsbD 0 = n.msb := by
    rw [encodeZigZag, sshiftRight_pred hw]
    cases n.msb <;> simp [hw]
  rw [decodeZigZag, neg_and_one, h0, encodeZigZag, sshiftRight_pred hw]
  apply BitVec.eq_of_getLsbD_eq
  intro i hi
  -- Bit by bit; the topmost is the sign, which the shift has lost.
  by_cases hl : 1 + i < w
  · cases n.msb <;> simp [hl, hi]
  · have hlast : i = w - 1 := by omega
    subst hlast
    have hbit : n.getLsbD (w - 1) = n.msb := (BitVec.msb_eq_getLsbD_last n).symm
    rw [hbit]
    cases n.msb <;> simp [hl, hi]

/-! ## Data types and descriptors -/

/-- The data types of scalar fields; `GPBDataTypeMessage` and `GPBDataTypeGroup` nest messages. -/
inductive GPBDataType
  | bool
  | fixed32
  | sFixed32
  | float
  | fixed64
  | sFixed64
  | double
  | int32
  | int64
  | sInt32
  | sInt64
  | uInt32
  | uInt64
  | bytes
  | string
  | enum
  deriving DecidableEq, Repr

/-- What a field of a data type holds. -/
def GPBDataType.Carrier : GPBDataType → Type
  | .bool => Bool
  | .fixed32 | .sFixed32 | .float | .int32 | .sInt32 | .uInt32 | .enum => BitVec 32
  | .fixed64 | .sFixed64 | .double | .int64 | .sInt64 | .uInt64 => BitVec 64
  | .bytes => List UInt8
  | .string => String

instance : (t : GPBDataType) → DecidableEq t.Carrier
  | .bool => inferInstanceAs (DecidableEq Bool)
  | .fixed32 | .sFixed32 | .float | .int32 | .sInt32 | .uInt32 | .enum =>
      inferInstanceAs (DecidableEq (BitVec 32))
  | .fixed64 | .sFixed64 | .double | .int64 | .sInt64 | .uInt64 =>
      inferInstanceAs (DecidableEq (BitVec 64))
  | .bytes => inferInstanceAs (DecidableEq (List UInt8))
  | .string => inferInstanceAs (DecidableEq String)

def GPBWireFormatForType (type : GPBDataType) (isPacked : Bool) : GPBWireFormat :=
  if isPacked then
    .lengthDelimited
  else
    match type with
    | .bool | .int32 | .int64 | .sInt32 | .sInt64 | .uInt32 | .uInt64 | .enum => .varint
    | .fixed32 | .sFixed32 | .float => .fixed32
    | .fixed64 | .sFixed64 | .double => .fixed64
    | .bytes | .string => .lengthDelimited

def GPBDataTypeIsObject : GPBDataType → Bool
  | .bytes | .string => true
  | _ => false

inductive GPBFieldType
  | single
  | repeated
  deriving DecidableEq, Repr

/-- The field's entry in the descriptor.  `clearHasIvarOnZero` and `packed` are its flags,
`isOpenOrValidValue` is the check of its enum descriptor, and `containingOneof` tells the oneofs of
the class apart.  No field is required, so every message is initialized. -/
structure GPBFieldDescriptor where
  number : BitVec 32
  dataType : GPBDataType
  fieldType : GPBFieldType
  clearHasIvarOnZero : Bool
  packed : Bool
  isOpenOrValidValue : BitVec 32 → Bool
  containingOneof : Option ℕ

namespace GPBFieldDescriptor

def isPackable (field : GPBFieldDescriptor) : Bool :=
  field.packed

def tag (field : GPBFieldDescriptor) : BitVec 32 :=
  GPBWireFormatMakeTag field.number (GPBWireFormatForType field.dataType field.packed)

def alternateTag (field : GPBFieldDescriptor) : BitVec 32 :=
  GPBWireFormatMakeTag field.number (GPBWireFormatForType field.dataType !field.packed)

/-- What the compiler of `.proto` files guarantees of one field. -/
structure WellFormed (field : GPBFieldDescriptor) : Prop where
  number_pos : 0 < field.number.toNat
  number_lt : field.number.toNat < 2 ^ 29
  packed_repeated : field.packed = true →
    field.fieldType = .repeated ∧ GPBDataTypeIsObject field.dataType = false
  oneof_single : field.fieldType = .repeated → field.containingOneof = none

end GPBFieldDescriptor

/-- The fields of a message class in the order of its descriptor, no number twice.  They are scalar:
there are no message, group or map fields, no extensions and no message sets. -/
structure GPBDescriptor where
  count : ℕ
  fields : Fin count → GPBFieldDescriptor
  wellFormed : ∀ i, (fields i).WellFormed
  number_injective : ∀ i j, (fields i).number = (fields j).number → i = j

namespace GPBDescriptor

/-- Two members of one oneof. -/
def Rivals (descriptor : GPBDescriptor) (i j : Fin descriptor.count) : Prop :=
  i ≠ j ∧ (descriptor.fields i).containingOneof ≠ none ∧
    (descriptor.fields i).containingOneof = (descriptor.fields j).containingOneof

instance (descriptor : GPBDescriptor) (i j : Fin descriptor.count) :
    Decidable (descriptor.Rivals i j) :=
  inferInstanceAs (Decidable (_ ∧ _ ∧ _))

variable {descriptor : GPBDescriptor} {i j : Fin descriptor.count}

theorem Rivals.symm (h : descriptor.Rivals i j) : descriptor.Rivals j i :=
  ⟨h.1.symm, h.2.2 ▸ h.2.1, h.2.2.symm⟩

theorem not_rivals_of_repeated (h : (descriptor.fields i).fieldType = .repeated)
    (j : Fin descriptor.count) : ¬descriptor.Rivals i j :=
  fun hrivals => hrivals.2.1 ((descriptor.wellFormed i).oneof_single h)

end GPBDescriptor

end Protobuf
end KmpApp
