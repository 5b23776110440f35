import KmpApp.Protobuf.Groups
import Mathlib.Data.List.FinRange
import Mathlib.Logic.Function.Basic

/-!
# Message — messages of scalar fields

A `GPBMessage` stores a value or nothing for a singular field and a list for a repeated one, and
keeps the bytes of the fields its descriptor does not know.  Setting a member of a oneof clears the
others.  Reading merges one field after the other into the message; writing puts the fields out in
the order of the descriptor and the unknown bytes after them.

No field is required, so that the checks for missing fields, which a debug build makes when it reads
a message or asks for its `data`, never fail.
-/

namespace KmpApp
namespace Protobuf

open Codec

/-! ## Storage -/

/-- What is stored for a field; `none` is a field whose has-bit is clear. -/
def Storage : GPBFieldType → GPBDataType → Type
  | .single, type => Option type.Carrier
  | .repeated, type => List type.Carrier

def Storage.empty : (fieldType : GPBFieldType) → (type : GPBDataType) → Storage fieldType type
  | .single, _ => none
  | .repeated, _ => []

/-- The zero of a type, also the negative zero of the floating point types, or a length of zero. -/
def GPBDataType.isZero : (type : GPBDataType) → type.Carrier → Bool
  | .bool, value => !value
  | .fixed32, value | .sFixed32, value | .int32, value | .sInt32, value | .uInt32, value
  | .enum, value => BitVec.toNat value = 0
  | .fixed64, value | .sFixed64, value | .int64, value | .sInt64, value | .uInt64, value =>
      BitVec.toNat value = 0
  | .float, value => (BitVec.shiftLeft value 1).toNat = 0
  | .double, value => (BitVec.shiftLeft value 1).toNat = 0
  | .bytes, value => List.length value = 0
  | .string, value => (utf8 value).length = 0

/-- `GPBSetBoolIvarWithFieldPrivate` and its siblings: a zero counts as not set where the field
clears its has-bit on zero. -/
def setIvar (field : GPBFieldDescriptor) (type : GPBDataType) (value : type.Carrier) :
    Option type.Carrier :=
  if field.clearHasIvarOnZero && type.isZero value then
    none
  else
    some value

/-- A value set in a singular field, or added to the array of a repeated one. -/
def Storage.add (field : GPBFieldDescriptor) : (fieldType : GPBFieldType) → (type : GPBDataType) →
    Storage fieldType type → type.Carrier → Storage fieldType type
  -- the last value on the wire wins
  | .single, type, _, value => setIvar field type value
  | .repeated, _, values, value => List.append values [value]

/-- The raw value of an enum that is closed and does not have it. -/
def unknownEnumValue (field : GPBFieldDescriptor) :
    (type : GPBDataType) → type.Carrier → Option (BitVec 32)
  | .enum, value => if field.isOpenOrValidValue value then none else some value
  | _, _ => none

structure GPBMessage (descriptor : GPBDescriptor) where
  values : (i : Fin descriptor.count) →
    Storage (descriptor.fields i).fieldType (descriptor.fields i).dataType
  unknownFieldData : List UInt8

variable {descriptor : GPBDescriptor}

namespace GPBMessage

def message : GPBMessage descriptor where
  values i := Storage.empty (descriptor.fields i).fieldType (descriptor.fields i).dataType
  unknownFieldData := []

/-- Nothing of a oneof stays set, but for one field.  The source looks up which member is set, which
is one at most, and clears that. -/
def GPBMaybeClearOneofPrivate (self : GPBMessage descriptor) (oneof : ℕ)
    (notToClear : Option (Fin descriptor.count)) : GPBMessage descriptor :=
  { self with
    values := fun j =>
      if (descriptor.fields j).containingOneof = some oneof ∧ notToClear ≠ some j then
        Storage.empty (descriptor.fields j).fieldType (descriptor.fields j).dataType
      else
        self.values j }

def GPBClearOneof (self : GPBMessage descriptor) (oneof : ℕ) : GPBMessage descriptor :=
  self.GPBMaybeClearOneofPrivate oneof none

/-- What every setter does first. -/
def clearRivals (self : GPBMessage descriptor) (i : Fin descriptor.count) :
    GPBMessage descriptor :=
  match (descriptor.fields i).containingOneof with
  | none => self
  | some oneof => self.GPBMaybeClearOneofPrivate oneof (some i)

/-- What a setter leaves. -/
def put (self : GPBMessage descriptor) (i : Fin descriptor.count)
    (stored : Storage (descriptor.fields i).fieldType (descriptor.fields i).dataType) :
    GPBMessage descriptor :=
  { self with values := Function.update (self.clearRivals i).values i stored }

/-- A setter of a singular field, or an adder to the array of a repeated one, which is in no
oneof. -/
def addValue (self : GPBMessage descriptor) (i : Fin descriptor.count)
    (value : (descriptor.fields i).dataType.Carrier) : GPBMessage descriptor :=
  self.put i (Storage.add (descriptor.fields i) (descriptor.fields i).fieldType
    (descriptor.fields i).dataType (self.values i) value)

/-- Only for a singular field: a repeated one has no has-bit, which the source looks up first. -/
def GPBClearMessageField (self : GPBMessage descriptor) (i : Fin descriptor.count)
    (_hsingle : (descriptor.fields i).fieldType = .single) : GPBMessage descriptor :=
  { self with
    values := Function.update self.values i
      (Storage.empty (descriptor.fields i).fieldType (descriptor.fields i).dataType) }

def appendUnknown (self : GPBMessage descriptor) (bytes : List UInt8) : GPBMessage descriptor :=
  { self with unknownFieldData := self.unknownFieldData ++ bytes }

end GPBMessage

/-! ## Unknown fields -/

/-- The loops of `EncodeVarintU32` and `EncodeVarintU64`. -/
def encodeVarint {w : ℕ} : ℕ → BitVec w → List UInt8
  -- not reached: after the last shift nothing is left of the value
  | 0, _ => []
  | rounds + 1, val =>
      let byte := UInt8.ofNat (val &&& 0x7F).toNat
      let val := val >>> 7
      if val ≠ 0 then
        (byte ||| 0x80) :: encodeVarint rounds val
      else
        [byte]

def EncodeVarintU64 (val : BitVec 64) : List UInt8 :=
  encodeVarint 10 val

def EncodeVarintU32 (val : BitVec 32) : List UInt8 :=
  encodeVarint 5 val

def EncodeVarintS32 (val : BitVec 32) : List UInt8 :=
  if 0 ≤ val.toInt then
    EncodeVarintU32 val
  else
    -- a negative number is written with its sign over all ten bytes
    EncodeVarintU64 (val.signExtend 64)

def AddUnknownFieldVarint32 (self : GPBMessage descriptor) (fieldNumber value : BitVec 32) :
    GPBMessage descriptor :=
  self.appendUnknown
    (EncodeVarintU32 (GPBWireFormatMakeTag fieldNumber .varint) ++ EncodeVarintS32 value)

/-- The bytes of a fixed number as `ParseUnknownField` puts them down. -/
def shiftedBytes {w : ℕ} (shifts : List ℕ) (value : BitVec w) : List UInt8 :=
  shifts.map fun shift => UInt8.ofNat (value >>> shift).toNat

def ParseUnknownField (self : GPBMessage descriptor) (tag : BitVec 32) :
    Read (GPBMessage descriptor) :=
  match GPBWireFormatGetTagWireType tag with
  | some .varint => do
      let value ← GPBCodedInputStreamReadUInt64
      -- the number is put down in its shortest form, whatever form it had on the wire
      return self.appendUnknown (EncodeVarintU32 tag ++ EncodeVarintU64 value)
  | some .fixed64 => do
      let value ← GPBCodedInputStreamReadFixed64
      return self.appendUnknown
        (EncodeVarintU32 tag ++ shiftedBytes [0, 8, 16, 24, 32, 40, 48, 56] value)
  | some .lengthDelimited => do
      let bytesToAppend ← GPBCodedInputStreamReadRetainedBytes
      return self.appendUnknown (EncodeVarintU32 tag ++
        (EncodeVarintU64 (BitVec.ofNat 64 bytesToAppend.length) ++ bytesToAppend))
  | some .startGroup => do
      -- a group is kept as it stands, with its end tag
      let bytesToAppend ← GPBCodedInputStreamReadRetainedBytesToEndGroupNoCopy
        (GPBWireFormatGetTagFieldNumber tag)
      return self.appendUnknown (EncodeVarintU32 tag ++ bytesToAppend)
  | some .endGroup => GPBRaiseStreamError .invalidTag (some "Unexpected end-group tag")
  | some .fixed32 => do
      let value ← GPBCodedInputStreamReadFixed32
      return self.appendUnknown (EncodeVarintU32 tag ++ shiftedBytes [0, 8, 16, 24] value)
  -- no case of the switch of the source: only the tag is put down
  | none => return self.appendUnknown (EncodeVarintU32 tag)

/-! ## Merging from the wire -/

/-- A value that has been read is stored; one a closed enum does not have becomes an unknown
field. -/
def storeValue (self : GPBMessage descriptor) (i : Fin descriptor.count)
    (val : (descriptor.fields i).dataType.Carrier) : GPBMessage descriptor :=
  match unknownEnumValue (descriptor.fields i) (descriptor.fields i).dataType val with
  | none => self.addValue i val
  | some raw => AddUnknownFieldVarint32 self (descriptor.fields i).number raw

def mergeValue (self : GPBMessage descriptor) (i : Fin descriptor.count) :
    Read (GPBMessage descriptor) := do
  let val ← (descriptor.fields i).dataType.read
  return storeValue self i val

def MergeSingleFieldFromCodedInputStream (self : GPBMessage descriptor)
    (i : Fin descriptor.count) : Read (GPBMessage descriptor) :=
  mergeValue self i

def MergeRepeatedNotPackedFieldFromCodedInputStream (self : GPBMessage descriptor)
    (i : Fin descriptor.count) : Read (GPBMessage descriptor) :=
  mergeValue self i

/-- Stands for a loop that takes more rounds than there are bytes; none does (`mergeRounds_suffice`,
`packedRounds_suffice`). -/
def tooManyRounds : StreamError :=
  { code := .invalidSize
    reason := none }

def packedRound (i : Fin descriptor.count) (self : GPBMessage descriptor) :
    Read (Option (GPBMessage descriptor)) := do
  -- `while (GPBCodedInputStreamBytesUntilLimit(state) > 0)`, on an unsigned difference
  if (← GPBCodedInputStreamBytesUntilLimit) ≠ 0 then
    return some (← mergeValue self i)
  else
    return none

def MergeRepeatedPackedFieldFromCodedInputStream (self : GPBMessage descriptor)
    (i : Fin descriptor.count) : Read (GPBMessage descriptor) := do
  -- the length is an `int32`, so it may be negative
  let length ← GPBCodedInputStreamReadInt32
  let limit ← GPBCodedInputStreamPushLimit length.toInt
  let rounds := (← get).bytes.length + 1
  let self ← loop tooManyRounds (packedRound i) rounds self
  GPBCodedInputStreamPopLimit limit
  return self

/-- Behind the last field the search starts over. -/
def wrapIndex (descriptor : GPBDescriptor) (startingIndex : ℕ) : ℕ :=
  if descriptor.count ≤ startingIndex then 0 else startingIndex

/-- The search for a field, starting where the last one ended. -/
def findField (descriptor : GPBDescriptor) (found : GPBFieldDescriptor → Bool) :
    ℕ → ℕ → Option (Fin descriptor.count) × ℕ
  | 0, startingIndex => (none, startingIndex)
  | rounds + 1, startingIndex =>
      if h : wrapIndex descriptor startingIndex < descriptor.count then
        if found (descriptor.fields ⟨wrapIndex descriptor startingIndex, h⟩) then
          (some ⟨wrapIndex descriptor startingIndex, h⟩, wrapIndex descriptor startingIndex)
        else
          findField descriptor found rounds (wrapIndex descriptor startingIndex + 1)
      else
        -- a descriptor without fields
        (none, wrapIndex descriptor startingIndex)

/-- What `mergeFromCodedInputStream:extensionRegistry:endingTag:` does with a tag: the fields in the
preferred form, then the other form of repeated fields, then the unknown ones. -/
def mergeField (self : GPBMessage descriptor) (startingIndex : ℕ) (tag : BitVec 32) :
    Read (GPBMessage descriptor × ℕ) :=
  match findField descriptor (fun field => field.tag = tag) descriptor.count startingIndex with
  | (some i, startingIndex) =>
      match (descriptor.fields i).fieldType with
      | .single => do
          return (← MergeSingleFieldFromCodedInputStream self i, startingIndex + 1)
      | .repeated =>
          if (descriptor.fields i).isPackable then do
            return (← MergeRepeatedPackedFieldFromCodedInputStream self i, startingIndex + 1)
          else do
            -- the next tag is likely to be of the same field
            return (← MergeRepeatedNotPackedFieldFromCodedInputStream self i, startingIndex)
  -- from here on the tag is no field in its preferred form
  | (none, startingIndex) =>
      match findField descriptor (fun field => field.fieldType = .repeated &&
          !GPBDataTypeIsObject field.dataType && field.alternateTag = tag)
          descriptor.count startingIndex with
      | (some i, startingIndex) =>
          -- the other form: packed where the field is not, and the other way round
          if !(descriptor.fields i).isPackable then do
            return (← MergeRepeatedPackedFieldFromCodedInputStream self i, startingIndex + 1)
          else do
            return (← MergeRepeatedNotPackedFieldFromCodedInputStream self i, startingIndex)
      | (none, startingIndex) => do
          return (← ParseUnknownField self tag, startingIndex)

def mergeRound (endingTag : BitVec 32) :
    GPBMessage descriptor × ℕ → Read (Option (GPBMessage descriptor × ℕ))
  | (self, startingIndex) => do
      let tag ← GPBCodedInputStreamReadTag
      if tag = endingTag ∨ tag = 0 then
        -- zero is read at the end, where it is not what a group ends with
        GPBCodedInputStreamCheckLastTagWas endingTag
        return none
      else
        return some (← mergeField self startingIndex tag)

def mergeFromCodedInputStream (self : GPBMessage descriptor) (endingTag : BitVec 32) :
    Read (GPBMessage descriptor) := do
  let rounds := (← get).bytes.length + 1
  -- the search for the first field starts at the first field of the descriptor
  let (self, _) ← loop tooManyRounds (mergeRound endingTag) rounds (self, 0)
  return self

/-- The part of `mergeFromData:extensionRegistry:error:` under its `@try`. -/
def mergeToEnd (self : GPBMessage descriptor) : Read (GPBMessage descriptor) := do
  let self ← mergeFromCodedInputStream self 0
  -- the loop has made this check; the source makes it again
  GPBCodedInputStreamCheckLastTagWas 0
  return self

def mergeFromData (self : GPBMessage descriptor) (data : List UInt8) :
    Except StreamError (GPBMessage descriptor) :=
  (mergeToEnd self).run' (.initWithData data)

def parseFromData (descriptor : GPBDescriptor) (data : List UInt8) :
    Except StreamError (GPBMessage descriptor) :=
  mergeFromData GPBMessage.message data

/-! ## Writing -/

def writePackedArray (type : GPBDataType) (tag : BitVec 32) (values : List type.Carrier) :
    Write Unit := do
  -- an empty array has no tag on the wire
  if values.length = 0 then
    return
  let dataSize := (values.map type.sizeNoTag).sum
  GPBWriteRawVarint32 tag
  -- the source casts the sum of the sizes to 32 bits
  GPBWriteRawVarint32 (BitVec.ofNat 32 dataSize)
  values.forM type.writeNoTag

/-- `writeBoolArray:values:tag:` and its siblings; a tag of zero stands for the unpacked form. -/
def writeArray (type : GPBDataType) (fieldNumber : BitVec 32) (values : List type.Carrier)
    (tag : BitVec 32) : Write Unit :=
  if tag ≠ 0 then
    writePackedArray type tag values
  else
    values.forM (type.write fieldNumber)

def writeStorage (field : GPBFieldDescriptor) : (fieldType : GPBFieldType) →
    (type : GPBDataType) → Storage fieldType type → Write Unit
  | .single, _, none => pure ()
  | .single, type, some value => type.write field.number value
  | .repeated, type, values =>
      writeArray type field.number values (if field.isPackable then field.tag else 0)

def writeField (self : GPBMessage descriptor) (i : Fin descriptor.count) : Write Unit :=
  writeStorage (descriptor.fields i) (descriptor.fields i).fieldType
    (descriptor.fields i).dataType (self.values i)

def writeToCodedOutputStream (self : GPBMessage descriptor) : Write Unit := do
  (List.finRange descriptor.count).forM (writeField self)
  writeRawPtr self.unknownFieldData

def storageSize (field : GPBFieldDescriptor) : (fieldType : GPBFieldType) →
    (type : GPBDataType) → Storage fieldType type → ℕ
  | .single, _, none => 0
  | .single, type, some value => type.size field.number value
  | .repeated, type, values =>
      let count := List.length values
      if count = 0 then
        0
      else
        let dataSize := (List.map type.sizeNoTag values).sum
        let tagSize := GPBComputeTagSize field.number
        if field.isPackable then
          dataSize + (tagSize + GPBComputeSizeTSizeAsInt32NoTag dataSize)
        else
          -- each element has its tag
          dataSize + count * tagSize

def serializedSize (self : GPBMessage descriptor) : ℕ :=
  ((List.finRange descriptor.count).map fun i =>
    storageSize (descriptor.fields i) (descriptor.fields i).fieldType
      (descriptor.fields i).dataType (self.values i)).sum + self.unknownFieldData.length

def kMaximumMessageSize : ℕ := 0x7fffffff

/-- What is in a buffer of `length` zeros once a writer has filled it from the front. -/
def filled (length : ℕ) (write : Write Unit) : Except WriteException (List UInt8) := do
  let (_, state) ← (write >>= fun _ => flush).run (.initWithData length)
  -- the tail is not empty if the size was computed too large
  return state.bytes ++ List.replicate (length - state.position) 0

def data (self : GPBMessage descriptor) : Option (List UInt8) :=
  let expectedSize := serializedSize self
  if expectedSize > kMaximumMessageSize then
    none
  else
    (filled expectedSize (writeToCodedOutputStream self)).toOption

def writeDelimitedToCodedOutputStream (self : GPBMessage descriptor) : Write Unit := do
  let expectedSize := serializedSize self
  -- here the size is checked before anything is written
  if expectedSize > kMaximumMessageSize then
    throw (.messageTooLarge expectedSize)
  GPBWriteRawVarint32 (BitVec.ofNat 32 expectedSize)
  writeToCodedOutputStream self

/-- Empty where an exception is raised. -/
def delimitedData (self : GPBMessage descriptor) : List UInt8 :=
  let varintSize := GPBComputeRawVarint32SizeForInteger (serializedSize self)
  match filled (serializedSize self + varintSize) (writeDelimitedToCodedOutputStream self) with
  | .ok bytes => bytes
  | .error _ => []

def writeDelimitedToOutputStream (pageSize : ℕ) (self : GPBMessage descriptor)
    (output : NSOutputStream) : Except WriteException NSOutputStream := do
  let (_, state) ← (writeDelimitedToCodedOutputStream self >>= fun _ => flush).run
    (.initWithOutputStream pageSize output)
  return (state.output.getD output).close

/-- At the end of the stream there is an empty message. -/
def parseDelimitedFromCodedInputStream (descriptor : GPBDescriptor) :
    Read (GPBMessage descriptor) := do
  if ← GPBCodedInputStreamIsAtEnd then
    return GPBMessage.message
  let data ← GPBCodedInputStreamReadRetainedBytes
  match parseFromData descriptor data with
  | .ok self => return self
  | .error e => throw e

/-! ## Merging messages -/

/-- A repeated field has no has-bit to look at. -/
def Storage.isSet : (fieldType : GPBFieldType) → (type : GPBDataType) →
    Storage fieldType type → Bool
  | .single, _, stored => Option.isSome stored
  | .repeated, _, _ => true

def Storage.merge (field : GPBFieldDescriptor) : (fieldType : GPBFieldType) →
    (type : GPBDataType) → Storage fieldType type → Storage fieldType type → Storage fieldType type
  | .single, _, self, none => self
  -- a value that is set replaces the one before, also by clearing it
  | .single, type, _, some value => setIvar field type value
  | .repeated, _, self, other => List.append self other

/-- One round of the loop of `mergeFrom:`. -/
def GPBMessage.mergeStored (self other : GPBMessage descriptor) (i : Fin descriptor.count) :
    GPBMessage descriptor :=
  if Storage.isSet (descriptor.fields i).fieldType (descriptor.fields i).dataType
      (other.values i) then
    self.put i (Storage.merge (descriptor.fields i) (descriptor.fields i).fieldType
      (descriptor.fields i).dataType (self.values i) (other.values i))
  else
    self

def mergeFrom (self other : GPBMessage descriptor) : GPBMessage descriptor :=
  ((List.finRange descriptor.count).foldl (fun self i => self.mergeStored other i)
    self).appendUnknown other.unknownFieldData

end Protobuf
end KmpApp
