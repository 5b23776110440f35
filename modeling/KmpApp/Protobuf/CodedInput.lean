import KmpApp.Codec.Reader
import KmpApp.Protobuf.Words

/-!
# CodedInput — reading the fields of a message

`GPBCodedInputStream` walks over a buffer of bytes, never beyond its current limit.  Every reader
accepts certain words at the front of what is left up to that limit: the shortest numerals the
writers put out, and any longer form of the same number as well.
-/

namespace KmpApp
namespace Protobuf

open Codec

inductive GPBCodedInputStreamErrorCode
  | invalidSize
  | subsectionLimitReached
  | invalidSubsectionLimit
  | invalidTag
  | invalidUTF8
  | invalidVarInt
  | recursionDepthExceeded
  deriving DecidableEq, Repr

structure StreamError where
  code : GPBCodedInputStreamErrorCode
  reason : Option String
  deriving DecidableEq, Repr

structure GPBCodedInputStreamState where
  bytes : List UInt8
  bufferPos : ℕ
  currentLimit : ℕ
  lastTag : BitVec 32
  recursionDepth : ℕ
  deriving DecidableEq, Repr

abbrev Read :=
  StateT GPBCodedInputStreamState (Except StreamError)

def GPBCodedInputStreamState.initWithData (data : List UInt8) : GPBCodedInputStreamState :=
  { bytes := data
    bufferPos := 0
    currentLimit := data.length
    lastTag := 0
    recursionDepth := 0 }

def GPBRaiseStreamError {α : Type} (code : GPBCodedInputStreamErrorCode)
    (reason : Option String) : Read α :=
  throw { code := code, reason := reason }

/-! ## Checks -/

def kDefaultRecursionLimit : ℕ := 100

def CheckRecursionLimit : Read Unit := do
  let state ← get
  if kDefaultRecursionLimit ≤ state.recursionDepth then
    GPBRaiseStreamError .recursionDepthExceeded none

def CheckFieldSize (size : BitVec 64) : Read Unit :=
  -- the size is still the 64-bit number off the wire
  if size > 0x7fffffff then
    GPBRaiseStreamError .invalidSize none
  else
    pure ()

def CheckSize (size : ℕ) : Read Unit := do
  let state ← get
  let newSize := state.bufferPos + size
  -- the buffer is asked first, so a size beyond both ends is an invalid size
  if newSize > state.bytes.length then
    GPBRaiseStreamError .invalidSize none
  -- the source also moves the position to the limit here; the exception ends the reading
  if newSize > state.currentLimit then
    GPBRaiseStreamError .subsectionLimitReached none

def GPBCodedInputStreamCheckLastTagWas (value : BitVec 32) : Read Unit := do
  let state ← get
  if state.lastTag ≠ value then
    GPBRaiseStreamError .invalidTag (some "Unexpected tag read")

/-! ## Raw data -/

/-- The bytes at the position, and the position moved behind them. -/
def ReadRawData (size : ℕ) : Read (List UInt8) := do
  CheckSize size
  let state ← get
  set { state with bufferPos := state.bufferPos + size }
  return (state.bytes.drop state.bufferPos).take size

def ReadRawByte : Read UInt8 := do
  CheckSize 1
  let state ← get
  set { state with bufferPos := state.bufferPos + 1 }
  -- the default stands for a byte beyond the buffer, which `CheckSize` excludes
  return state.bytes.getD state.bufferPos 0

def SkipRawData (size : ℕ) : Read Unit := do
  CheckSize size
  modify fun state => { state with bufferPos := state.bufferPos + size }

def ReadRawLittleEndian32 : Read (BitVec 32) := do
  return BitVec.ofNat 32 (ofLittleEndian (← ReadRawData 4))

def ReadRawLittleEndian64 : Read (BitVec 64) := do
  return BitVec.ofNat 64 (ofLittleEndian (← ReadRawData 8))

/-- The loop of `ReadRawVarint64`: `shift < 64` allows ten rounds. -/
def readVarintRounds : ℕ → ℕ → BitVec 64 → Read (BitVec 64)
  -- the loop is left with the last byte read still asking for more
  | 0, _, _ => GPBRaiseStreamError .invalidVarInt (some "Invalid VarInt64")
  | rounds + 1, shift, result => do
      let b ← ReadRawByte
      -- bits pushed beyond the 64th are lost, as they are in the source
      let result := result ||| (BitVec.ofNat 64 (b &&& 0x7F).toNat <<< shift)
      if b &&& 0x80 = 0 then
        return result
      readVarintRounds rounds (shift + 7) result

def ReadRawVarint64 : Read (BitVec 64) :=
  readVarintRounds 10 0 0

def ReadRawVarint32 : Read (BitVec 32) := do
  return (← ReadRawVarint64).setWidth 32

/-! ## Values -/

def GPBCodedInputStreamReadDouble : Read (BitVec 64) := ReadRawLittleEndian64
def GPBCodedInputStreamReadFloat : Read (BitVec 32) := ReadRawLittleEndian32
def GPBCodedInputStreamReadUInt64 : Read (BitVec 64) := ReadRawVarint64
def GPBCodedInputStreamReadUInt32 : Read (BitVec 32) := ReadRawVarint32
def GPBCodedInputStreamReadInt64 : Read (BitVec 64) := ReadRawVarint64
def GPBCodedInputStreamReadInt32 : Read (BitVec 32) := ReadRawVarint32
def GPBCodedInputStreamReadFixed64 : Read (BitVec 64) := ReadRawLittleEndian64
def GPBCodedInputStreamReadFixed32 : Read (BitVec 32) := ReadRawLittleEndian32
def GPBCodedInputStreamReadEnum : Read (BitVec 32) := ReadRawVarint32
def GPBCodedInputStreamReadSFixed32 : Read (BitVec 32) := ReadRawLittleEndian32
def GPBCodedInputStreamReadSFixed64 : Read (BitVec 64) := ReadRawLittleEndian64

def GPBCodedInputStreamReadSInt32 : Read (BitVec 32) := do
  return GPBDecodeZigZag32 (← ReadRawVarint32)

def GPBCodedInputStreamReadSInt64 : Read (BitVec 64) := do
  return GPBDecodeZigZag64 (← ReadRawVarint64)

def GPBCodedInputStreamReadBool : Read Bool := do
  return (← ReadRawVarint64) ≠ 0

/-- What `GPBCodedInputStreamReadRetainedString` makes of the bytes it has read. -/
def decodeUTF8 (bytes : List UInt8) : Read String :=
  match String.fromUTF8? ⟨bytes.toArray⟩ with
  | some result => return result
  | none => GPBRaiseStreamError .invalidUTF8 none

def GPBCodedInputStreamReadRetainedString : Read String := do
  let size ← GPBCodedInputStreamReadUInt64
  CheckFieldSize size
  -- an empty string is made without a look at the buffer
  if size = 0 then
    return ""
  decodeUTF8 (← ReadRawData size.toNat)

def GPBCodedInputStreamReadRetainedBytes : Read (List UInt8) := do
  let size ← GPBCodedInputStreamReadUInt64
  CheckFieldSize size
  ReadRawData size.toNat

/-- The reader that belongs to a data type. -/
def GPBDataType.read : (type : GPBDataType) → Read type.Carrier
  | .bool => GPBCodedInputStreamReadBool
  | .fixed32 => GPBCodedInputStreamReadFixed32
  | .sFixed32 => GPBCodedInputStreamReadSFixed32
  | .float => GPBCodedInputStreamReadFloat
  | .fixed64 => GPBCodedInputStreamReadFixed64
  | .sFixed64 => GPBCodedInputStreamReadSFixed64
  | .double => GPBCodedInputStreamReadDouble
  | .int32 => GPBCodedInputStreamReadInt32
  | .int64 => GPBCodedInputStreamReadInt64
  | .sInt32 => GPBCodedInputStreamReadSInt32
  | .sInt64 => GPBCodedInputStreamReadSInt64
  | .uInt32 => GPBCodedInputStreamReadUInt32
  | .uInt64 => GPBCodedInputStreamReadUInt64
  | .bytes => GPBCodedInputStreamReadRetainedBytes
  | .string => GPBCodedInputStreamReadRetainedString
  | .enum => GPBCodedInputStreamReadEnum

/-! ## Tags -/

def GPBCodedInputStreamIsAtEnd : Read Bool := do
  let state ← get
  return state.bufferPos = state.bytes.length ∨ state.bufferPos = state.currentLimit

/-- What `GPBCodedInputStreamReadTag` checks of the tag it has read. -/
def acceptTag (tag : BitVec 32) : Read (BitVec 32) := do
  -- the tag is remembered before it is checked
  modify fun state => { state with lastTag := tag }
  if !GPBWireFormatIsValidTag tag then
    GPBRaiseStreamError .invalidTag (some "Invalid wireformat in tag.")
  if GPBWireFormatGetTagFieldNumber tag = 0 then
    GPBRaiseStreamError .invalidTag (some "A zero field number on the wire is invalid.")
  return tag

def GPBCodedInputStreamReadTag : Read (BitVec 32) := do
  if ← GPBCodedInputStreamIsAtEnd then
    -- zero is no valid tag, so it marks the end for the callers
    modify fun state => { state with lastTag := 0 }
    return 0
  acceptTag (← ReadRawVarint32)

/-! ## Groups -/

/-- The entry of `SkipToEndGroupInternal`. -/
def enterGroup : Read Unit := do
  CheckRecursionLimit
  modify fun state => { state with recursionDepth := state.recursionDepth + 1 }

/-- The switch of `SkipToEndGroupInternal`, with the call of itself as a parameter. -/
def skipField (skipGroup : BitVec 32 → Read Unit) (tag : BitVec 32) : Read Unit :=
  match GPBWireFormatGetTagWireType tag with
  | some .varint => do
      let _ ← ReadRawVarint64
  | some .fixed64 => SkipRawData 8
  | some .lengthDelimited => do
      let size ← ReadRawVarint64
      CheckFieldSize size
      SkipRawData size.toNat
  | some .startGroup =>
      skipGroup (GPBWireFormatMakeTag (GPBWireFormatGetTagFieldNumber tag) .endGroup)
  -- the end tag of the group itself does not get here
  | some .endGroup => GPBRaiseStreamError .invalidTag (some "Unmatched end group")
  | some .fixed32 => SkipRawData 4
  | none => pure ()

/-- The loop of `SkipToEndGroupInternal`; each round reads a tag of at least one byte. -/
def skipRounds : ℕ → BitVec 32 → Read Unit
  | 0, _ => GPBRaiseStreamError .invalidSize none
  | rounds + 1, endGroupTag => do
      let tag ← GPBCodedInputStreamReadTag
      if tag = endGroupTag ∨ tag = 0 then
        -- at the end of the input this check is what fails
        GPBCodedInputStreamCheckLastTagWas endGroupTag
        modify fun state => { state with recursionDepth := state.recursionDepth - 1 }
      else
        skipField (fun tag => enterGroup >>= fun _ => skipRounds rounds tag) tag
        skipRounds rounds endGroupTag

def SkipToEndGroupInternal (endGroupTag : BitVec 32) : Read Unit := do
  enterGroup
  let state ← get
  -- one round for each byte, and one to see the end
  skipRounds (state.bytes.length + 1) endGroupTag

/-- The bytes up to and including the end tag of the group whose start tag has just been read. -/
def GPBCodedInputStreamReadRetainedBytesToEndGroupNoCopy (fieldNumber : BitVec 32) :
    Read (List UInt8) := do
  GPBCodedInputStreamCheckLastTagWas (GPBWireFormatMakeTag fieldNumber .startGroup)
  -- the start tag is read, its bytes are not part of the answer
  let start := (← get).bufferPos
  SkipToEndGroupInternal (GPBWireFormatMakeTag fieldNumber .endGroup)
  let state ← get
  return (state.bytes.drop start).take (state.bufferPos - start)

/-! ## Limits -/

/-- A `size_t` sum below zero wraps around and lies beyond every limit. -/
def GPBCodedInputStreamPushLimit (byteLimit : ℤ) : Read ℕ := do
  let state ← get
  -- a limit counts from the position, the one stored from the start of the buffer
  let byteLimit := byteLimit + state.bufferPos
  if byteLimit < 0 ∨ state.currentLimit < byteLimit then
    GPBRaiseStreamError .invalidSubsectionLimit none
  set { state with currentLimit := byteLimit.toNat }
  return state.currentLimit

def GPBCodedInputStreamPopLimit (oldLimit : ℕ) : Read Unit :=
  modify fun state => { state with currentLimit := oldLimit }

/-- As a `size_t` the difference is positive unless it is zero. -/
def GPBCodedInputStreamBytesUntilLimit : Read ℤ := do
  let state ← get
  return state.currentLimit - state.bufferPos

end Protobuf
end KmpApp
