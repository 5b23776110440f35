import KmpApp.Protobuf.Chat
import KmpApp.Protobuf.Message
import Mathlib.Algebra.Order.BigOperators.Group.List

/-!
# Encoding — the bytes a message is written as

`encode` lists the bytes of a message: the fields that are set, in the order of the descriptor, and
the unknown ones after them.  The writer puts out exactly these, into a buffer or over a stream, and
`serializedSize` is their number as long as the message is not too large to be written at all.
-/

namespace KmpApp
namespace Protobuf

open Codec

variable {descriptor : GPBDescriptor} {before : Option NSOutputStream}

/-! ## Fields -/

/-- A tag, the number of bytes that follow, cast to `int32_t`, and the values. -/
def packedWord (type : GPBDataType) (tag : BitVec 32) (values : List type.Carrier) : List UInt8 :=
  varint tag.toNat ++ (varint (BitVec.ofNat 32 (values.flatMap type.word).length).toNat ++
    values.flatMap type.word)

/-- The values of a repeated field. -/
def arrayWord (field : GPBFieldDescriptor) (type : GPBDataType) (values : List type.Carrier) :
    List UInt8 :=
  if field.isPackable then
    if values.length = 0 then [] else packedWord type field.tag values
  else
    values.flatMap (type.fieldWord field.number)

def storageWord (field : GPBFieldDescriptor) : (fieldType : GPBFieldType) →
    (type : GPBDataType) → Storage fieldType type → List UInt8
  | .single, _, none => []
  | .single, type, some value => type.fieldWord field.number value
  | .repeated, type, values => arrayWord field type values

def encode (self : GPBMessage descriptor) : List UInt8 :=
  (List.finRange descriptor.count).flatMap (fun i =>
    storageWord (descriptor.fields i) (descriptor.fields i).fieldType
      (descriptor.fields i).dataType (self.values i)) ++ self.unknownFieldData

theorem sum_sizeNoTag (type : GPBDataType) (values : List type.Carrier) :
    (values.map type.sizeNoTag).sum = (values.flatMap type.word).length := by
  rw [List.length_flatMap]
  congr 1
  apply List.map_congr_left
  intro value _
  exact (length_word type value).symm

theorem tag_ne_zero {field : GPBFieldDescriptor} (h : field.WellFormed) : field.tag ≠ 0 := by
  intro hzero
  have hnumber := congrArg GPBWireFormatGetTagFieldNumber hzero
  rw [GPBFieldDescriptor.tag, fieldNumber_makeTag h.number_lt] at hnumber
  have hpos := h.number_pos
  rw [hnumber] at hpos
  exact absurd hpos (by decide)

theorem emits_writePackedArray (type : GPBDataType) (tag : BitVec 32) (values : List type.Carrier) :
    Emits (sink before) (writePackedArray type tag values)
      (if values.length = 0 then [] else packedWord type tag values) := by
  rw [writePackedArray]
  split
  · exact emits_pure
  · rw [packedWord, sum_sizeNoTag]
    exact (emits_writeRawVarint32 _).seq ((emits_writeRawVarint32 _).seq
      (emits_forM fun value _ => emits_writeNoTag type value))

theorem emits_writeArray {field : GPBFieldDescriptor} (h : field.WellFormed) (type : GPBDataType)
    (values : List type.Carrier) :
    Emits (sink before) (writeArray type field.number values
      (if field.isPackable then field.tag else 0)) (arrayWord field type values) := by
  rw [writeArray, arrayWord]
  cases field.isPackable with
  | true =>
      simp only [if_true]
      -- No field has the tag zero, so the packed form is not mistaken for the other.
      rw [if_pos (tag_ne_zero h)]
      exact emits_writePackedArray type field.tag values
  | false => exact emits_forM fun value _ => emits_write type field.number value

theorem emits_writeStorage {field : GPBFieldDescriptor} (h : field.WellFormed) :
    (fieldType : GPBFieldType) → (type : GPBDataType) → (stored : Storage fieldType type) →
      Emits (sink before) (writeStorage field fieldType type stored)
        (storageWord field fieldType type stored)
  | .single, _, none => emits_pure
  | .single, type, some value => emits_write type field.number value
  | .repeated, type, values => emits_writeArray h type values

theorem emits_writeToCodedOutputStream (self : GPBMessage descriptor) :
    Emits (sink before) (writeToCodedOutputStream self) (encode self) :=
  (emits_forM fun i _ => emits_writeStorage (descriptor.wellFormed i) _ _ (self.values i)).seq
    (emits_writeRawPtr self.unknownFieldData)

/-! ## Sizes -/

theorem computeSizeTSizeAsInt32NoTag_eq {n : ℕ} (h : n ≤ kMaximumMessageSize) :
    GPBComputeSizeTSizeAsInt32NoTag n = (varint (BitVec.ofNat 32 n).toNat).length := by
  have hle : n ≤ 0x7fffffff := h
  have hnonneg : 0 ≤ (BitVec.ofNat 32 n).toInt := by
    rw [BitVec.toInt_eq_toNat_cond, BitVec.toNat_ofNat, Nat.mod_eq_of_lt (by omega), if_pos (by omega)]
    omega
  rw [GPBComputeSizeTSizeAsInt32NoTag, computeInt32SizeNoTag_eq, toNat_signExtend_of_nonneg hnonneg]

theorem length_fieldWords (type : GPBDataType) {fieldNumber : BitVec 32}
    (h : fieldNumber.toNat < 2 ^ 29) (values : List type.Carrier) :
    (values.flatMap (type.fieldWord fieldNumber)).length =
      (values.flatMap type.word).length + values.length * GPBComputeTagSize fieldNumber := by
  induction values with
  | nil => simp
  | cons value values ih =>
      rw [List.flatMap_cons, List.length_append, ih, GPBDataType.fieldWord, List.length_append,
        length_tagWord h, List.flatMap_cons, List.length_append, List.length_cons, Nat.succ_mul]
      omega

/-- The length of packed values is counted as an `int32_t`, which no length beyond the largest
message fits into. -/
theorem length_arrayWord {field : GPBFieldDescriptor} (h : field.WellFormed) (type : GPBDataType)
    (values : List type.Carrier)
    (hle : storageSize field .repeated type values ≤ kMaximumMessageSize ∨
      (arrayWord field type values).length ≤ kMaximumMessageSize) :
    (arrayWord field type values).length = storageSize field .repeated type values := by
  cases values with
  | nil => simp [arrayWord, storageSize]
  | cons value values =>
      simp only [storageSize, List.length_cons, Nat.add_one_ne_zero, if_false, sum_sizeNoTag] at hle ⊢
      cases hpacked : field.isPackable with
      | true =>
          simp only [hpacked, arrayWord, if_true, List.length_cons, Nat.add_one_ne_zero, if_false,
            packedWord, List.length_append] at hle ⊢
          -- Here the bound is needed: beyond it the size would count ten bytes for the length.
          rw [computeSizeTSizeAsInt32NoTag_eq (by omega)]
          have htag : (varint field.tag.toNat).length = GPBComputeTagSize field.number :=
            length_tagWord h.number_lt _
          omega
      | false =>
          simp only [arrayWord, hpacked, Bool.false_eq_true, if_false]
          exact length_fieldWords type h.number_lt (value :: values)

theorem length_storageWord {field : GPBFieldDescriptor} (h : field.WellFormed) :
    (fieldType : GPBFieldType) → (type : GPBDataType) → (stored : Storage fieldType type) →
      storageSize field fieldType type stored ≤ kMaximumMessageSize ∨
        (storageWord field fieldType type stored).length ≤ kMaximumMessageSize →
      (storageWord field fieldType type stored).length = storageSize field fieldType type stored
  | .single, _, none, _ => rfl
  | .single, type, some value, _ => length_fieldWord type h.number_lt value
  | .repeated, type, values, hle => length_arrayWord h type values hle

theorem le_sum_map {α : Type} {l : List α} {a : α} (h : a ∈ l) (f : α → ℕ) : f a ≤ (l.map f).sum :=
  List.single_le_sum (fun _ _ => Nat.zero_le _) _ (List.mem_map_of_mem h)

theorem length_encode {self : GPBMessage descriptor}
    (h : serializedSize self ≤ kMaximumMessageSize ∨ (encode self).length ≤ kMaximumMessageSize) :
    (encode self).length = serializedSize self := by
  rw [encode, List.length_append, List.length_flatMap, serializedSize] at *
  congr 2
  apply List.map_congr_left
  intro i hi
  apply length_storageWord (descriptor.wellFormed i)
  -- A bound on the whole is one on each field, by either way of counting.
  rcases h with h | h
  · have hpart := le_sum_map hi fun i => storageSize (descriptor.fields i)
      (descriptor.fields i).fieldType (descriptor.fields i).dataType (self.values i)
    exact Or.inl (by omega)
  · have hpart := le_sum_map hi fun i => (storageWord (descriptor.fields i)
      (descriptor.fields i).fieldType (descriptor.fields i).dataType (self.values i)).length
    exact Or.inr (by omega)

theorem serializedSize_le_iff (self : GPBMessage descriptor) :
    serializedSize self ≤ kMaximumMessageSize ↔ (encode self).length ≤ kMaximumMessageSize := by
  constructor
  · intro h
    rwa [length_encode (Or.inl h)]
  · intro h
    rwa [← length_encode (Or.inr h)]

/-! ## Into a buffer -/

section Buffer

variable {f : Write Unit} {w : List UInt8}

theorem consistent_initWithData (length : ℕ) :
    (GPBOutputBufferState.initWithData length).Consistent none where
  streamed := rfl
  flushed := by
    intro output houtput
    cases houtput
  refused := by
    intro output houtput
    cases houtput
  within := Nat.zero_le _
  page := by
    intro h
    cases h

/-- A writer fills a buffer that has the size of its word. -/
theorem filled_eq (h : Emits (sink none) f w) : filled w.length f = .ok w := by
  have hfits : GPBOutputBufferState.Fits (.initWithData w.length) (w.length + 0) := by
    change 0 + (w.length + 0) ≤ w.length
    omega
  rcases h.complete (consistent_initWithData w.length) hfits with ⟨s, hrun, _⟩
  rcases h.sound (consistent_initWithData w.length) hrun with ⟨hwritten, hs⟩
  rcases s with ⟨bytes, size, flushed, output⟩
  cases output with
  | some output => cases hs.streamed
  | none =>
      have hbytes : bytes = w := hwritten
      subst hbytes
      -- Over a buffer there is nothing to hand on.
      have hflush : (f >>= fun _ => flush).run (.initWithData bytes.length) =
          .ok ((), ⟨bytes, size, flushed, none⟩) := by
        rw [StateT.run_bind, hrun]
        rfl
      rw [filled, hflush]
      change Except.ok (bytes ++ List.replicate (bytes.length - bytes.length) 0) = _
      rw [Nat.sub_self, List.replicate_zero, List.append_nil]

/-- `data` never runs out of space: the size it expects is the size of what it writes. -/
theorem data_eq (self : GPBMessage descriptor) :
    data self =
      if (encode self).length ≤ kMaximumMessageSize then some (encode self) else none := by
  rw [data]
  by_cases h : serializedSize self ≤ kMaximumMessageSize
  · rw [if_neg (Nat.not_lt.mpr h), if_pos ((serializedSize_le_iff self).mp h),
      ← length_encode (Or.inl h), filled_eq (emits_writeToCodedOutputStream self)]
    rfl
  · rw [if_pos (Nat.not_le.mp h), if_neg fun hle => h ((serializedSize_le_iff self).mpr hle)]

theorem data_eq_some_iff {self : GPBMessage descriptor} {bytes : List UInt8} :
    data self = some bytes ↔ (encode self).length ≤ kMaximumMessageSize ∧ encode self = bytes := by
  rw [data_eq]
  split <;> simp_all

end Buffer

/-! ## Over a stream -/

section Stream

variable {f : Write Unit} {w : List UInt8} {pageSize : ℕ} {output output' : NSOutputStream}

theorem consistent_initWithOutputStream (hpage : 0 < pageSize) (output : NSOutputStream) :
    (GPBOutputBufferState.initWithOutputStream pageSize output).Consistent (some output.open) where
  streamed := rfl
  flushed := by
    intro start hstart
    cases hstart
    rfl
  refused := by
    intro start hstart _
    cases hstart
    rfl
  within := Nat.zero_le _
  page := fun _ => hpage

/-- Once a writer has returned and the buffer is handed on, the stream has all of the word. -/
theorem run_flush_ok (hpage : 0 < pageSize) (h : ∀ before, Emits (sink before) f w)
    {s : GPBOutputBufferState}
    (hrun : (f >>= fun _ => flush).run (.initWithOutputStream pageSize output) = .ok ((), s)) :
    ∃ output', s.output = some output' ∧ output'.taken = output.taken ++ w ∧
      s.bytesWritten = w.length ∧ (output.streamStatus = .closed → w = []) := by
  rcases run_bind_ok.mp hrun with ⟨⟨⟩, t, hwrite, hflush⟩
  rcases (h _).sound (consistent_initWithOutputStream hpage output) hwrite with ⟨hwritten, ht⟩
  have hsome : t.output.isSome = true := ht.streamed
  -- The buffer belongs to a stream, so it is handed on.
  have hrefresh : GPBRefreshBuffer.run t = .ok ((), s) := by
    simpa [flush, hsome] using hflush
  rcases refreshBuffer_ok ht hrefresh with ⟨htaken, hbytes, _, _, hs⟩
  have hall : s.taken = output.taken ++ [] ++ w := htaken.trans hwritten
  rw [List.append_nil] at hall
  -- What is counted as flushed is what the stream took since the buffer was opened.
  have hflushed := hs.flushed _ rfl
  rcases s with ⟨bytes, size, flushed, _ | output'⟩
  · cases hs.streamed
  · refine ⟨output', rfl, hall, ?_, ?_⟩
    · have hbytes' : bytes = [] := hbytes
      rw [hall, List.length_append] at hflushed
      change flushed + bytes.length = w.length
      rw [hbytes']
      exact Nat.add_left_cancel hflushed
    · intro hclosed
      -- A closed stream cannot be opened again and is left as it was.
      have hshut : output.open.streamStatus ≠ .opened := by
        simp [NSOutputStream.open, hclosed]
      have hsame : output' = output.open := Option.some.inj (hs.refused _ rfl hshut)
      have hnone : output.taken = output.taken ++ w := by
        rw [hsame] at hall
        exact hall
      exact List.self_eq_append_right.mp hnone

theorem run_flush_accepting (hpage : 0 < pageSize) (h : ∀ before, Emits (sink before) f w)
    (hall : output.answers = []) (hopen : output.streamStatus ≠ .closed) :
    ∃ s, (f >>= fun _ => flush).run (.initWithOutputStream pageSize output) = .ok ((), s) := by
  have hopened : output.open.streamStatus = .opened := if_neg hopen
  rcases (h _).complete (n := 0) (consistent_initWithOutputStream hpage output) ⟨hall, hopened⟩
    with ⟨⟨bytes, size, flushed, out⟩, hwrite, hfits⟩
  have ht := ((h _).sound (consistent_initWithOutputStream hpage output) hwrite).2
  cases out with
  | none => cases ht.streamed
  | some out =>
      rcases out with ⟨taken, answers, streamStatus⟩
      rcases hfits with ⟨rfl, rfl⟩
      rcases refreshBuffer_accepting bytes taken size flushed with ⟨flushed', taken', hrefresh⟩
      exact ⟨_, run_bind_ok.mpr ⟨(), _, hwrite, hrefresh⟩⟩

end Stream

/-- A `MessageAck` whose first field is set. -/
def acknowledged : GPBMessage MessageAck :=
  GPBMessage.message.addValue (0 : Fin 3) true

end Protobuf
end KmpApp
