import KmpApp.Codec.Numeral
import KmpApp.Codec.Writer
import KmpApp.Protobuf.WireFormat

/-!
# CodedOutput — writing the fields of a message

`GPBCodedOutputStream` writes into a buffer.  Over an `NSMutableData` the buffer is all there is, and
a write beyond it raises; over an `NSOutputStream` a full buffer is handed to the stream, which may
take it in several parts or refuse.  The coded stream opens the stream below when it is made and
closes it when it is released.

Each writer puts out one word of bytes, whatever the buffer is (`sink`), and the size functions give
the length of that word.
-/

namespace KmpApp
namespace Protobuf

open Codec

/-! ## The stream below -/

inductive NSStreamStatus
  | notOpen
  | opened
  | closed
  deriving DecidableEq, Repr

/-- What a stream has taken, and what its next calls of `write:maxLength:` answer while it is open.
After those it takes all it is given. -/
structure NSOutputStream where
  taken : List UInt8
  answers : List ℤ
  streamStatus : NSStreamStatus
  deriving DecidableEq, Repr

/-- A stream can be opened once: a closed one stays closed. -/
def NSOutputStream.open (output : NSOutputStream) : NSOutputStream :=
  { output with
    streamStatus := if output.streamStatus = .closed then .closed else .opened }

def NSOutputStream.close (output : NSOutputStream) : NSOutputStream :=
  { output with streamStatus := .closed }

def NSOutputStream.write (output : NSOutputStream) (bytes : List UInt8) : ℤ × NSOutputStream :=
  if output.streamStatus = .opened then
    match output.answers with
    | [] => (bytes.length, { output with taken := output.taken ++ bytes })
    | answer :: answers =>
        (min answer bytes.length,
          -- a negative answer takes nothing
          { output with
            taken := output.taken ++ bytes.take answer.toNat
            answers := answers })
  else
    (-1, output)

/-- The loop of `WriteToOutputStream`; every further round has at least one byte less to write. -/
def writeRounds : ℕ → NSOutputStream → List UInt8 → ℤ → ℤ × NSOutputStream
  | 0, output, _, total => (total, output)
  | rounds + 1, output, bytes, total =>
      if bytes = [] then
        (total, output)
      else
        let (written, output) := output.write bytes
        if written = bytes.length then
          (total + written, output)
        else if 0 < written then
          writeRounds rounds output (bytes.drop written.toNat) (total + written)
        -- a stream that is full answers zero, one that fails a negative number
        else if written = 0 then
          (total, output)
        else
          (written, output)

def WriteToOutputStream (output : NSOutputStream) (bytes : List UInt8) : ℤ × NSOutputStream :=
  writeRounds bytes.length output bytes 0

/-! ## The buffer -/

/-- `bytes` are those in the buffer up to `position`. -/
structure GPBOutputBufferState where
  bytes : List UInt8
  size : ℕ
  bytesFlushed : ℕ
  output : Option NSOutputStream
  deriving DecidableEq, Repr

/-- The two exceptions of the stream, and `GPBMessageExceptionMessageTooLarge` with the size. -/
inductive WriteException
  | outOfSpace
  | writeFailed
  | messageTooLarge (size : ℕ)
  deriving DecidableEq, Repr

abbrev Write :=
  StateT GPBOutputBufferState (Except WriteException)

namespace GPBOutputBufferState

def position (state : GPBOutputBufferState) : ℕ :=
  state.bytes.length

def initWithData (length : ℕ) : GPBOutputBufferState :=
  { bytes := []
    size := length
    bytesFlushed := 0
    output := none }

/-- `pageSize` is the `PAGE_SIZE` of the platform. -/
def initWithOutputStream (pageSize : ℕ) (output : NSOutputStream) : GPBOutputBufferState :=
  { bytes := []
    size := pageSize
    bytesFlushed := 0
    output := some output.open }

def bytesWritten (state : GPBOutputBufferState) : ℕ :=
  state.bytesFlushed + state.position

/-- `memcpy` to the end of what the buffer holds. -/
def append (state : GPBOutputBufferState) (bytes : List UInt8) : GPBOutputBufferState :=
  { state with bytes := state.bytes ++ bytes }

end GPBOutputBufferState

def GPBRefreshBuffer : Write Unit := do
  let state ← get
  match state.output with
  -- over an `NSMutableData` there is nothing to hand the buffer to
  | none => throw .outOfSpace
  | some output =>
      if state.position ≠ 0 then
        let (written, output) := WriteToOutputStream output state.bytes
        if written ≠ state.position then
          -- what the stream has taken by then stays taken
          throw .writeFailed
        set { state with
          bytes := []
          bytesFlushed := state.bytesFlushed + state.position
          output := some output }

def GPBWriteRawByte (value : UInt8) : Write Unit := do
  let state ← get
  if state.position = state.size then
    GPBRefreshBuffer
  modify fun state => state.append [value]

/-- What `writeRawPtr:offset:length:` does with the rest once the buffer has been handed on. -/
def writeRest (rest : List UInt8) : Write Unit := do
  let state ← get
  if rest.length ≤ state.size then
    -- the buffer is empty here, so the rest is all it holds
    set { state with bytes := rest }
  else
    match state.output with
    | none => throw .outOfSpace
    | some output =>
        -- more than a buffer goes to the stream directly
        let (written, output) := WriteToOutputStream output rest
        if written ≠ rest.length then
          throw .writeFailed
        set { state with
          bytesFlushed := state.bytesFlushed + rest.length
          output := some output }

def writeRawPtr (value : List UInt8) : Write Unit := do
  if value.length = 0 then
    return
  let state ← get
  let bufferBytesLeft := state.size - state.position
  if value.length ≤ bufferBytesLeft then
    set (state.append value)
  else
    -- the buffer is filled up before it is handed on
    set (state.append (value.take bufferBytesLeft))
    GPBRefreshBuffer
    writeRest (value.drop bufferBytesLeft)

def flush : Write Unit := do
  let state ← get
  -- over an `NSMutableData` the bytes are where they belong
  if state.output.isSome then
    GPBRefreshBuffer

/-! ## Numbers -/

/-- The loops of `GPBWriteRawVarint32` and `GPBWriteRawVarint64`; after `rounds` shifts by seven
nothing is left of the value. -/
def GPBWriteRawVarint {w : ℕ} : ℕ → BitVec w → Write Unit
  | 0, _ => pure ()
  | rounds + 1, value =>
      if value &&& ~~~0x7F = 0 then
        GPBWriteRawByte (UInt8.ofNat value.toNat)
      else do
        GPBWriteRawByte (UInt8.ofNat ((value &&& 0x7F) ||| 0x80).toNat)
        GPBWriteRawVarint rounds (value >>> 7)

def GPBWriteRawVarint32 (value : BitVec 32) : Write Unit :=
  GPBWriteRawVarint 5 value

def GPBWriteRawVarint64 (value : BitVec 64) : Write Unit :=
  GPBWriteRawVarint 10 value

def GPBWriteInt32NoTag (value : BitVec 32) : Write Unit :=
  if 0 ≤ value.toInt then
    GPBWriteRawVarint32 value
  else
    -- readers of 64 bits have to find the same number
    GPBWriteRawVarint64 (value.signExtend 64)

def GPBWriteTagWithFormat (fieldNumber : BitVec 32) (format : GPBWireFormat) : Write Unit :=
  GPBWriteRawVarint32 (GPBWireFormatMakeTag fieldNumber format)

def writeShifted {w : ℕ} (shifts : List ℕ) (value : BitVec w) : Write Unit :=
  shifts.forM fun shift => GPBWriteRawByte (UInt8.ofNat (value.sshiftRight shift &&& 0xFF).toNat)

def GPBWriteRawLittleEndian32 (value : BitVec 32) : Write Unit :=
  writeShifted [0, 8, 16, 24] value

def GPBWriteRawLittleEndian64 (value : BitVec 64) : Write Unit :=
  writeShifted [0, 8, 16, 24, 32, 40, 48, 56] value

/-! ## Values -/

/-- The UTF-8 bytes of a string. -/
def utf8 (value : String) : List UInt8 :=
  value.toUTF8.data.toList

def writeDoubleNoTag (value : BitVec 64) : Write Unit := GPBWriteRawLittleEndian64 value
def writeFloatNoTag (value : BitVec 32) : Write Unit := GPBWriteRawLittleEndian32 value
def writeUInt64NoTag (value : BitVec 64) : Write Unit := GPBWriteRawVarint64 value
def writeInt64NoTag (value : BitVec 64) : Write Unit := GPBWriteRawVarint64 value
def writeInt32NoTag (value : BitVec 32) : Write Unit := GPBWriteInt32NoTag value
def writeFixed64NoTag (value : BitVec 64) : Write Unit := GPBWriteRawLittleEndian64 value
def writeFixed32NoTag (value : BitVec 32) : Write Unit := GPBWriteRawLittleEndian32 value
def writeBoolNoTag (value : Bool) : Write Unit := GPBWriteRawByte (if value then 1 else 0)
def writeUInt32NoTag (value : BitVec 32) : Write Unit := GPBWriteRawVarint32 value
def writeEnumNoTag (value : BitVec 32) : Write Unit := GPBWriteInt32NoTag value
def writeSFixed32NoTag (value : BitVec 32) : Write Unit := GPBWriteRawLittleEndian32 value
def writeSFixed64NoTag (value : BitVec 64) : Write Unit := GPBWriteRawLittleEndian64 value

def writeSInt32NoTag (value : BitVec 32) : Write Unit :=
  GPBWriteRawVarint32 (GPBEncodeZigZag32 value)

def writeSInt64NoTag (value : BitVec 64) : Write Unit :=
  GPBWriteRawVarint64 (GPBEncodeZigZag64 value)

/-- The fast path copies into the buffer; the others go through `writeRawPtr`. -/
def writeStringNoTag (value : String) : Write Unit := do
  let length := (utf8 value).length
  GPBWriteRawVarint32 (BitVec.ofNat 32 length)
  if length = 0 then
    return
  let state ← get
  if length ≤ state.size - state.position then
    set (state.append (utf8 value))
  else
    writeRawPtr (utf8 value)

def writeBytesNoTag (value : List UInt8) : Write Unit := do
  GPBWriteRawVarint32 (BitVec.ofNat 32 value.length)
  writeRawPtr value

/-- The writer without a tag that belongs to a data type. -/
def GPBDataType.writeNoTag : (type : GPBDataType) → type.Carrier → Write Unit
  | .bool, value => writeBoolNoTag value
  | .fixed32, value => writeFixed32NoTag value
  | .sFixed32, value => writeSFixed32NoTag value
  | .float, value => writeFloatNoTag value
  | .fixed64, value => writeFixed64NoTag value
  | .sFixed64, value => writeSFixed64NoTag value
  | .double, value => writeDoubleNoTag value
  | .int32, value => writeInt32NoTag value
  | .int64, value => writeInt64NoTag value
  | .sInt32, value => writeSInt32NoTag value
  | .sInt64, value => writeSInt64NoTag value
  | .uInt32, value => writeUInt32NoTag value
  | .uInt64, value => writeUInt64NoTag value
  | .bytes, value => writeBytesNoTag value
  | .string, value => writeStringNoTag value
  | .enum, value => writeEnumNoTag value

/-- `writeBool:value:` and its siblings: the tag of the data type, then the value. -/
def GPBDataType.write (type : GPBDataType) (fieldNumber : BitVec 32) (value : type.Carrier) :
    Write Unit := do
  GPBWriteTagWithFormat fieldNumber (GPBWireFormatForType type false)
  type.writeNoTag value

/-! ## Sizes -/

def GPBComputeRawVarint32Size (value : BitVec 32) : ℕ :=
  if value &&& (0xffffffff <<< 7) = 0 then 1
  else if value &&& (0xffffffff <<< 14) = 0 then 2
  else if value &&& (0xffffffff <<< 21) = 0 then 3
  else if value &&& (0xffffffff <<< 28) = 0 then 4
  else 5

def GPBComputeRawVarint64Size (value : BitVec 64) : ℕ :=
  if value &&& (0xffffffffffffffff <<< 7) = 0 then 1
  else if value &&& (0xffffffffffffffff <<< 14) = 0 then 2
  else if value &&& (0xffffffffffffffff <<< 21) = 0 then 3
  else if value &&& (0xffffffffffffffff <<< 28) = 0 then 4
  else if value &&& (0xffffffffffffffff <<< 35) = 0 then 5
  else if value &&& (0xffffffffffffffff <<< 42) = 0 then 6
  else if value &&& (0xffffffffffffffff <<< 49) = 0 then 7
  else if value &&& (0xffffffffffffffff <<< 56) = 0 then 8
  else if value &&& (0xffffffffffffffff <<< 63) = 0 then 9
  else 10

def GPBComputeRawVarint32SizeForInteger (value : ℕ) : ℕ :=
  GPBComputeRawVarint32Size (BitVec.ofNat 32 value)

def GPBComputeInt32SizeNoTag (value : BitVec 32) : ℕ :=
  if 0 ≤ value.toInt then
    GPBComputeRawVarint32Size value
  else
    -- a negative number is sign-extended to 64 bits
    10

def GPBComputeSizeTSizeAsInt32NoTag (value : ℕ) : ℕ :=
  GPBComputeInt32SizeNoTag (BitVec.ofNat 32 value)

def GPBComputeTagSize (fieldNumber : BitVec 32) : ℕ :=
  -- the wire format is in the lowest bits and does not change the size
  GPBComputeRawVarint32Size (GPBWireFormatMakeTag fieldNumber .varint)

def GPBComputeStringSizeNoTag (value : String) : ℕ :=
  GPBComputeRawVarint32SizeForInteger (utf8 value).length + (utf8 value).length

def GPBComputeBytesSizeNoTag (value : List UInt8) : ℕ :=
  GPBComputeRawVarint32SizeForInteger value.length + value.length

/-- `GPBComputeBoolSizeNoTag` and its siblings. -/
def GPBDataType.sizeNoTag : (type : GPBDataType) → type.Carrier → ℕ
  | .bool, _ => 1
  | .fixed32, _ | .sFixed32, _ | .float, _ => 4
  | .fixed64, _ | .sFixed64, _ | .double, _ => 8
  | .int32, value | .enum, value => GPBComputeInt32SizeNoTag value
  | .int64, value | .uInt64, value => GPBComputeRawVarint64Size value
  | .sInt32, value => GPBComputeRawVarint32Size (GPBEncodeZigZag32 value)
  | .sInt64, value => GPBComputeRawVarint64Size (GPBEncodeZigZag64 value)
  | .uInt32, value => GPBComputeRawVarint32Size value
  | .bytes, value => GPBComputeBytesSizeNoTag value
  | .string, value => GPBComputeStringSizeNoTag value

/-- `GPBComputeBoolSize` and its siblings. -/
def GPBDataType.size (type : GPBDataType) (fieldNumber : BitVec 32) (value : type.Carrier) : ℕ :=
  GPBComputeTagSize fieldNumber + type.sizeNoTag value

/-! ## What the stream below has taken -/

theorem NSOutputStream.write_le (output : NSOutputStream) (bytes : List UInt8) :
    (output.write bytes).1 ≤ bytes.length := by
  rw [NSOutputStream.write]
  split
  · split <;> simp
  · change (-1 : ℤ) ≤ bytes.length
    omega

theorem NSOutputStream.write_taken (output : NSOutputStream) (bytes : List UInt8) :
    (output.write bytes).2.taken = output.taken ++ bytes.take (output.write bytes).1.toNat := by
  rw [NSOutputStream.write]
  split
  · split
    · simp
    · rename_i answer answers _
      by_cases hle : answer ≤ bytes.length
      · simp [min_eq_left hle]
      · have hall : bytes.take answer.toNat = bytes := List.take_of_length_le (by omega)
        simp [min_eq_right (not_le.mp hle).le, hall]
  · simp

theorem writeRounds_taken {rounds : ℕ} {output output' : NSOutputStream} {bytes : List UInt8}
    {total : ℤ} (hrounds : bytes.length ≤ rounds) (htotal : 0 ≤ total)
    (h : writeRounds rounds output bytes total = (total + bytes.length, output')) :
    output'.taken = output.taken ++ bytes := by
  induction rounds generalizing output bytes total with
  | zero =>
      have hnil : bytes = [] := List.length_eq_zero_iff.mp (by omega)
      subst hnil
      have hsame : output = output' := congrArg Prod.snd h
      simp [hsame]
  | succ rounds ih =>
      by_cases hnil : bytes = []
      · subst hnil
        have hsame : output = output' := congrArg Prod.snd h
        simp [hsame]
      · have hpos : 0 < bytes.length := List.length_pos_of_ne_nil hnil
        have hle := output.write_le bytes
        have htaken := output.write_taken bytes
        rw [writeRounds, if_neg hnil] at h
        rcases hwrite : output.write bytes with ⟨written, next⟩
        rw [hwrite] at h hle htaken
        dsimp only at h hle htaken
        split at h
        · rename_i hall
          have hsame : next = output' := congrArg Prod.snd h
          rw [← hsame, htaken, hall]
          simp
        · rename_i hpart
          split at h
          · rename_i hsome
            have hdrop : (bytes.drop written.toNat).length = bytes.length - written.toNat :=
              List.length_drop
            have htotal' : total + bytes.length =
                total + written + (bytes.drop written.toNat).length := by
              rw [hdrop]
              omega
            rw [htotal'] at h
            have := ih (by omega) (by omega) h
            rw [this, htaken, List.append_assoc, List.take_append_drop]
          · split at h
            · have : total = total + bytes.length := congrArg Prod.fst h
              omega
            · have : written = total + bytes.length := congrArg Prod.fst h
              omega

theorem WriteToOutputStream_taken {output output' : NSOutputStream} {bytes : List UInt8}
    (h : WriteToOutputStream output bytes = ((bytes.length : ℤ), output')) :
    output'.taken = output.taken ++ bytes := by
  have hrounds : writeRounds bytes.length output bytes 0 = (0 + (bytes.length : ℤ), output') := by
    simpa [WriteToOutputStream] using h
  exact writeRounds_taken le_rfl le_rfl hrounds

theorem WriteToOutputStream_accepting (taken bytes : List UInt8) :
    WriteToOutputStream ⟨taken, [], .opened⟩ bytes =
      ((bytes.length : ℤ), ⟨taken ++ bytes, [], .opened⟩) := by
  cases bytes with
  | nil => simp [WriteToOutputStream, writeRounds]
  | cons b bytes => simp [WriteToOutputStream, writeRounds, NSOutputStream.write]

/-- A stream that is not open takes nothing. -/
theorem WriteToOutputStream_not_opened {output : NSOutputStream} {bytes : List UInt8}
    (h : output.streamStatus ≠ .opened) (hne : bytes ≠ []) :
    (WriteToOutputStream output bytes).1 ≠ bytes.length := by
  cases bytes with
  | nil => cases hne rfl
  | cons b bytes =>
      have hrefused : ¬(-1 : ℤ) = bytes.length + 1 := by omega
      simp [WriteToOutputStream, writeRounds, NSOutputStream.write, h, hrefused]

/-! ## The words the writers put out -/

namespace GPBOutputBufferState

def taken (state : GPBOutputBufferState) : List UInt8 :=
  match state.output with
  | none => []
  | some output => output.taken

/-- `before` is the stream as it was when the buffer was made on it, if there is one. -/
structure Consistent (before : Option NSOutputStream) (state : GPBOutputBufferState) : Prop where
  streamed : state.output.isSome = before.isSome
  flushed : ∀ output ∈ before, output.taken.length + state.bytesFlushed = state.taken.length
  refused : ∀ output ∈ before, output.streamStatus ≠ .opened → state.output = some output
  within : state.bytes.length ≤ state.size
  page : state.output.isSome → 0 < state.size

/-- An open stream that takes all it is given has room for everything. -/
def Fits (state : GPBOutputBufferState) (n : ℕ) : Prop :=
  match state.output with
  | none => state.bytes.length + n ≤ state.size
  | some output => output.answers = [] ∧ output.streamStatus = .opened

end GPBOutputBufferState

def sink (before : Option NSOutputStream) : Sink GPBOutputBufferState UInt8 where
  written state := state.taken ++ state.bytes
  Good := GPBOutputBufferState.Consistent before
  Fits := GPBOutputBufferState.Fits

open GPBOutputBufferState

variable {before : Option NSOutputStream}

theorem run_refreshBuffer {bytes : List UInt8} (h : bytes ≠ []) (size flushed : ℕ)
    (output : NSOutputStream) :
    GPBRefreshBuffer.run ⟨bytes, size, flushed, some output⟩ =
      if (WriteToOutputStream output bytes).1 = bytes.length then
        .ok ((), ⟨[], size, flushed + bytes.length, some (WriteToOutputStream output bytes).2⟩)
      else
        .error .writeFailed := by
  split
  · rename_i hall
    simp [GPBRefreshBuffer, GPBOutputBufferState.position, h, hall]
    rfl
  · rename_i hpart
    simp [GPBRefreshBuffer, GPBOutputBufferState.position, h, hpart]
    rfl

/-- Bytes that the stream has taken are counted as flushed. -/
theorem GPBOutputBufferState.Consistent.handOn {bytes sent rest : List UInt8} {size flushed : ℕ}
    {output : NSOutputStream} (hs : Consistent before ⟨bytes, size, flushed, some output⟩)
    (hne : sent ≠ []) (hall : (WriteToOutputStream output sent).1 = sent.length)
    (hrest : rest.length ≤ size) :
    Consistent before
      ⟨rest, size, flushed + sent.length, some (WriteToOutputStream output sent).2⟩ where
  streamed := hs.streamed
  flushed := by
    intro start hstart
    have hflushed : start.taken.length + flushed = output.taken.length := hs.flushed start hstart
    have htaken := WriteToOutputStream_taken (Prod.ext hall rfl)
    simp [taken, htaken, ← hflushed, Nat.add_assoc]
  refused := by
    intro start hstart hclosed
    -- The stream would still be the one that was there at first, which takes nothing.
    have hsame : output = start := Option.some.inj (hs.refused start hstart hclosed)
    rw [hsame] at hall
    exact absurd hall (WriteToOutputStream_not_opened hclosed hne)
  within := hrest
  page := hs.page

/-- Handing the buffer on moves bytes from the buffer to the stream and loses none. -/
theorem refreshBuffer_ok {s s' : GPBOutputBufferState} (hs : s.Consistent before)
    (hrun : GPBRefreshBuffer.run s = .ok ((), s')) :
    s'.taken = s.taken ++ s.bytes ∧ s'.bytes = [] ∧ s'.size = s.size ∧ s'.output.isSome ∧
      s'.Consistent before := by
  rcases s with ⟨bytes, size, flushed, output⟩
  cases output with
  | none => cases hrun
  | some output =>
      by_cases hnil : bytes = []
      · subst hnil
        cases hrun
        exact ⟨by simp, rfl, rfl, rfl, hs⟩
      · rw [run_refreshBuffer hnil] at hrun
        split at hrun
        · rename_i hall
          cases hrun
          have htaken := WriteToOutputStream_taken (Prod.ext hall rfl)
          exact ⟨htaken, rfl, rfl, rfl, hs.handOn hnil hall (Nat.zero_le _)⟩
        · cases hrun

theorem refreshBuffer_accepting (bytes taken : List UInt8) (size flushed : ℕ) :
    ∃ flushed' taken', GPBRefreshBuffer.run ⟨bytes, size, flushed, some ⟨taken, [], .opened⟩⟩ =
      .ok ((), ⟨[], size, flushed', some ⟨taken', [], .opened⟩⟩) := by
  by_cases hnil : bytes = []
  · subst hnil
    exact ⟨flushed, taken, rfl⟩
  · rw [run_refreshBuffer hnil, WriteToOutputStream_accepting, if_pos rfl]
    exact ⟨_, _, rfl⟩

theorem consistent_append {s : GPBOutputBufferState} {v : List UInt8} (hs : s.Consistent before)
    (hv : s.bytes.length + v.length ≤ s.size) : (s.append v).Consistent before where
  streamed := hs.streamed
  flushed := hs.flushed
  refused := hs.refused
  within := by simpa [append] using hv
  page := hs.page

theorem run_writeRawByte_room {s : GPBOutputBufferState} (value : UInt8)
    (h : s.position ≠ s.size) : (GPBWriteRawByte value).run s = .ok ((), s.append [value]) := by
  simp [GPBWriteRawByte, h]
  rfl

theorem run_writeRawByte_full {s : GPBOutputBufferState} (value : UInt8)
    (h : s.position = s.size) :
    (GPBWriteRawByte value).run s =
      (GPBRefreshBuffer >>= fun _ => modify fun state => state.append [value]).run s := by
  simp [GPBWriteRawByte, h]

theorem emits_writeRawByte (value : UInt8) : Emits (sink before) (GPBWriteRawByte value) [value] where
  sound := by
    intro s s' hs hrun
    by_cases hfull : s.position = s.size
    · rw [run_writeRawByte_full value hfull] at hrun
      rcases run_bind_ok.mp hrun with ⟨⟨⟩, t, hrefresh, happend⟩
      cases happend
      rcases refreshBuffer_ok hs hrefresh with ⟨htaken, hbytes, _, hsome, ht⟩
      refine ⟨?_, consistent_append ht ?_⟩
      · change t.taken ++ (t.bytes ++ [value]) = s.taken ++ s.bytes ++ [value]
        rw [htaken, hbytes, List.nil_append]
      · rw [hbytes]
        exact ht.page hsome
    · rw [run_writeRawByte_room value hfull] at hrun
      cases hrun
      refine ⟨(List.append_assoc _ _ _).symm, consistent_append hs ?_⟩
      have hle : s.bytes.length ≤ s.size := hs.within
      have hne : s.bytes.length ≠ s.size := hfull
      simp only [List.length_singleton]
      omega
  complete := by
    intro s n _ hfits
    rcases s with ⟨bytes, size, flushed, output⟩
    cases output with
    | none =>
        have hroom : bytes.length + (1 + n) ≤ size := hfits
        have hne : bytes.length ≠ size := by omega
        refine ⟨_, run_writeRawByte_room value hne, ?_⟩
        change (bytes ++ [value]).length + n ≤ size
        simp only [List.length_append, List.length_singleton]
        omega
    | some output =>
        rcases output with ⟨taken, answers, streamStatus⟩
        rcases hfits with ⟨rfl, rfl⟩
        by_cases hfull : bytes.length = size
        · rcases refreshBuffer_accepting bytes taken size flushed with ⟨_, _, hrefresh⟩
          have hposition : position ⟨bytes, size, flushed, some ⟨taken, [], .opened⟩⟩ = size := hfull
          rw [run_writeRawByte_full value hposition, StateT.run_bind, hrefresh]
          exact ⟨_, rfl, rfl, rfl⟩
        · exact ⟨_, run_writeRawByte_room value hfull, rfl, rfl⟩

theorem run_writeRest_fits {s : GPBOutputBufferState} {rest : List UInt8}
    (h : rest.length ≤ s.size) : (writeRest rest).run s = .ok ((), { s with bytes := rest }) := by
  simp [writeRest, h]
  rfl

theorem run_writeRest_beyond {rest : List UInt8} (bytes : List UInt8) {size : ℕ} (flushed : ℕ)
    (output : NSOutputStream) (h : ¬rest.length ≤ size) :
    (writeRest rest).run ⟨bytes, size, flushed, some output⟩ =
      if (WriteToOutputStream output rest).1 = rest.length then
        .ok ((), ⟨bytes, size, flushed + rest.length, some (WriteToOutputStream output rest).2⟩)
      else
        .error .writeFailed := by
  split
  · rename_i hall
    simp [writeRest, h, hall]
    rfl
  · rename_i hpart
    simp [writeRest, h, hpart]
    rfl

/-- The rest goes into the empty buffer or, where it is longer than that, straight to the stream. -/
theorem writeRest_ok {s s' : GPBOutputBufferState} {rest : List UInt8} (hs : s.Consistent before)
    (hbytes : s.bytes = []) (hsome : s.output.isSome)
    (hrun : (writeRest rest).run s = .ok ((), s')) :
    s'.taken ++ s'.bytes = s.taken ++ rest ∧ s'.Consistent before := by
  by_cases hle : rest.length ≤ s.size
  · rw [run_writeRest_fits hle] at hrun
    cases hrun
    exact ⟨rfl, hs.streamed, hs.flushed, hs.refused, hle, hs.page⟩
  · rcases s with ⟨bytes, size, flushed, output⟩
    cases output with
    | none => cases hsome
    | some output =>
        cases hbytes
        rw [run_writeRest_beyond [] flushed output hle] at hrun
        split at hrun
        · rename_i hall
          cases hrun
          have htaken := WriteToOutputStream_taken (Prod.ext hall rfl)
          have hne : rest ≠ [] := by
            rintro rfl
            exact hle (Nat.zero_le _)
          refine ⟨?_, hs.handOn hne hall (Nat.zero_le _)⟩
          simp [taken, htaken]
        · cases hrun

theorem run_writeRawPtr_fits {s : GPBOutputBufferState} {value : List UInt8}
    (h : value.length ≤ s.size - s.position) :
    (writeRawPtr value).run s = .ok ((), s.append value) := by
  by_cases hnil : value = []
  · subst hnil
    simp [writeRawPtr, append]
    rfl
  · simp [writeRawPtr, hnil, h]
    rfl

theorem run_writeRawPtr_beyond {s : GPBOutputBufferState} {value : List UInt8}
    (h : ¬value.length ≤ s.size - s.position) :
    (writeRawPtr value).run s =
      (GPBRefreshBuffer >>= fun _ => writeRest (value.drop (s.size - s.position))).run
        (s.append (value.take (s.size - s.position))) := by
  have hne : value ≠ [] := by
    rintro rfl
    exact h (Nat.zero_le _)
  simp [writeRawPtr, hne, h]

theorem emits_writeRawPtr (value : List UInt8) : Emits (sink before) (writeRawPtr value) value where
  sound := by
    intro s s' hs hrun
    have hwithin : s.bytes.length ≤ s.size := hs.within
    by_cases hle : value.length ≤ s.size - s.position
    · rw [run_writeRawPtr_fits hle] at hrun
      cases hrun
      refine ⟨(List.append_assoc _ _ _).symm, consistent_append hs ?_⟩
      simp only [position] at hle
      omega
    · rw [run_writeRawPtr_beyond hle] at hrun
      have hfill : (s.append (value.take (s.size - s.position))).Consistent before := by
        refine consistent_append hs ?_
        simp only [position, List.length_take] at hle ⊢
        omega
      rcases run_bind_ok.mp hrun with ⟨⟨⟩, t, hrefresh, hrest⟩
      rcases refreshBuffer_ok hfill hrefresh with ⟨htaken, hbytes, _, hsome, ht⟩
      rcases writeRest_ok ht hbytes hsome hrest with ⟨hwritten, hs'⟩
      refine ⟨?_, hs'⟩
      change s'.taken ++ s'.bytes = s.taken ++ s.bytes ++ value
      have hfilled : t.taken = s.taken ++ (s.bytes ++ value.take (s.size - s.position)) := htaken
      rw [hwritten, hfilled]
      simp
  complete := by
    intro s n _ hfits
    rcases s with ⟨bytes, size, flushed, output⟩
    cases output with
    | none =>
        have hroom : bytes.length + (value.length + n) ≤ size := hfits
        have hle : value.length ≤ size - bytes.length := by omega
        refine ⟨_, run_writeRawPtr_fits hle, ?_⟩
        change (bytes ++ value).length + n ≤ size
        simp only [List.length_append]
        omega
    | some output =>
        rcases output with ⟨taken, answers, streamStatus⟩
        rcases hfits with ⟨rfl, rfl⟩
        by_cases hle : value.length ≤ size - bytes.length
        · exact ⟨_, run_writeRawPtr_fits hle, rfl, rfl⟩
        · rcases refreshBuffer_accepting (bytes ++ value.take (size - bytes.length)) taken size
            flushed with ⟨flushed', taken', hrefresh⟩
          rw [run_writeRawPtr_beyond hle, StateT.run_bind, append, position, hrefresh]
          by_cases hrest : (value.drop (size - bytes.length)).length ≤ size
          · exact ⟨_, run_writeRest_fits hrest, rfl, rfl⟩
          · have hsent := run_writeRest_beyond [] flushed' ⟨taken', [], .opened⟩ hrest
            rw [WriteToOutputStream_accepting, if_pos rfl] at hsent
            exact ⟨_, hsent, rfl, rfl⟩

end Protobuf
end KmpApp
