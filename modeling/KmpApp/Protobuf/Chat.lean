import KmpApp.Protobuf.WireFormat

/-!
# Chat — the messages of `chat.proto`

The descriptors of `ChatMessage` and `MessageAck`.  In `proto3` a field that is zero or empty counts
as not set; no field here is repeated, an enum or in a oneof.
-/

namespace KmpApp
namespace Protobuf

/-- A singular field of a `proto3` file. -/
def proto3Field (number : BitVec 32) (dataType : GPBDataType) : GPBFieldDescriptor where
  number := number
  dataType := dataType
  fieldType := .single
  clearHasIvarOnZero := true
  packed := false
  isOpenOrValidValue _ := true
  containingOneof := none

theorem proto3Field_wellFormed {number : BitVec 32} (dataType : GPBDataType)
    (hpos : 0 < number.toNat) (hlt : number.toNat < 2 ^ 29) :
    (proto3Field number dataType).WellFormed where
  number_pos := hpos
  number_lt := hlt
  packed_repeated := by
    intro h
    cases h
  oneof_single := fun _ => rfl

/-- `user_id`, `content` and `timestamp`. -/
def ChatMessage : GPBDescriptor where
  count := 3
  fields
    | 0 => proto3Field 1 .string
    | 1 => proto3Field 2 .string
    | 2 => proto3Field 3 .string
  wellFormed
    | 0 => proto3Field_wellFormed _ (by decide) (by decide)
    | 1 => proto3Field_wellFormed _ (by decide) (by decide)
    | 2 => proto3Field_wellFormed _ (by decide) (by decide)
  number_injective := by decide

/-- `received`, `server_message` and `timestamp`. -/
def MessageAck : GPBDescriptor where
  count := 3
  fields
    | 0 => proto3Field 1 .bool
    | 1 => proto3Field 2 .string
    | 2 => proto3Field 3 .string
  wellFormed
    | 0 => proto3Field_wellFormed _ (by decide) (by decide)
    | 1 => proto3Field_wellFormed _ (by decide) (by decide)
    | 2 => proto3Field_wellFormed _ (by decide) (by decide)
  number_injective := by decide

end Protobuf
end KmpApp
