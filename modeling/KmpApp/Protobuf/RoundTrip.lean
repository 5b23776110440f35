import KmpApp.Protobuf.Encoding
import KmpApp.Protobuf.Language
import Mathlib.Data.List.Induction

/-!
# RoundTrip — what is written is read back

Reading the bytes of a message into another one merges the two (`mergeFromData_data`); read into an
empty message they give the message itself.  This needs what every message keeps that is made by the
operations of the library (`Built`): no zero is stored where a zero counts as not set, a closed enum
has only its own values, of a oneof at most one field is set, and the unknown bytes are records that
any reader keeps as they are.
-/

namespace KmpApp
namespace Protobuf

open Codec

variable {descriptor : GPBDescriptor}

/-! ## One record after the other -/

theorem recordWord_unique {self self' self'' : GPBMessage descriptor} {w w' r r' : List UInt8}
    (h : RecordWord self w self') (h' : RecordWord self w' self'') (heq : w ++ r = w' ++ r') :
    w = w' ∧ self' = self'' :=
  (advances_mergeRound (c := ⟨w ++ r, (w ++ r).length, 0⟩)).unique (t := (self, 0))
    (within_initWithData (w ++ r)) h h'
    (rest_initWithData _) ((rest_initWithData _).trans heq)

theorem recordWord_ne_nil {self self' : GPBMessage descriptor} {w : List UInt8}
    (h : RecordWord self w self') : w ≠ [] :=
  (advances_mergeRound (c := ⟨[], 0, 0⟩)).nonempty h

/-- Bytes that are read one after the other may be read at once. -/
theorem mergeFromData_append {a b : GPBMessage descriptor} {first : List UInt8}
    (h : mergeFromData a first = .ok b) (second : List UInt8) (c : GPBMessage descriptor) :
    mergeFromData a (first ++ second) = .ok c ↔ mergeFromData b second = .ok c := by
  rw [mergeFromData_ok_iff] at h
  rw [mergeFromData_ok_iff, mergeFromData_ok_iff]
  constructor
  · intro h'
    exact Chain.of_append recordWord_ne_nil recordWord_unique h h'
  · intro h'
    exact h.append h'

/-- An acknowledgement, and then its text. -/
theorem acknowledged_append :
    mergeFromData acknowledged [18, 2, 111, 107] =
        .ok (acknowledged.addValue (1 : Fin 3) "ok") ∧
      parseFromData MessageAck ([8, 1] ++ [18, 2, 111, 107]) =
        .ok (acknowledged.addValue (1 : Fin 3) "ok") := by
  have hsecond : mergeFromData acknowledged [18, 2, 111, 107] =
      .ok (acknowledged.addValue (1 : Fin 3) "ok") := by
    rfl
  exact ⟨hsecond, (mergeFromData_append (by rfl) _ _).mpr hsecond⟩

/-! ## What a message keeps -/

namespace GPBMessage

@[simp] theorem appendUnknown_nil (self : GPBMessage descriptor) : self.appendUnknown [] = self := by
  simp [appendUnknown]

@[simp] theorem appendUnknown_appendUnknown (self : GPBMessage descriptor)
    (first second : List UInt8) :
    (self.appendUnknown first).appendUnknown second = self.appendUnknown (first ++ second) := by
  simp [appendUnknown]

theorem clearRivals_values (self : GPBMessage descriptor) (i j : Fin descriptor.count) :
    (self.clearRivals i).values j =
      if descriptor.Rivals i j then Storage.empty _ _ else self.values j := by
  rw [clearRivals]
  split
  · rename_i hnone
    rw [if_neg fun h => h.2.1 hnone]
  · rename_i oneof hsome
    have hiff : descriptor.Rivals i j ↔
        (descriptor.fields j).containingOneof = some oneof ∧ some i ≠ some j := by
      rw [GPBDescriptor.Rivals, hsome]
      simp [and_comm, eq_comm]
    simp only [GPBMaybeClearOneofPrivate, hiff]

@[simp] theorem put_self (self : GPBMessage descriptor) (i : Fin descriptor.count)
    (stored : Storage (descriptor.fields i).fieldType (descriptor.fields i).dataType) :
    (self.put i stored).values i = stored := by
  simp [put]

theorem put_of_ne (self : GPBMessage descriptor) {i j : Fin descriptor.count} (h : j ≠ i)
    (stored : Storage (descriptor.fields i).fieldType (descriptor.fields i).dataType) :
    (self.put i stored).values j =
      if descriptor.Rivals i j then Storage.empty _ _ else self.values j := by
  simp only [put, Function.update_of_ne h, clearRivals_values]

theorem ext_values {self self' : GPBMessage descriptor}
    (hvalues : ∀ j, self.values j = self'.values j)
    (hunknown : self.unknownFieldData = self'.unknownFieldData) : self = self' := by
  rcases self with ⟨values, unknown⟩
  rcases self' with ⟨values', unknown'⟩
  exact congrArg₂ GPBMessage.mk (funext hvalues) hunknown

theorem put_put (self : GPBMessage descriptor) (i : Fin descriptor.count)
    (first second : Storage (descriptor.fields i).fieldType (descriptor.fields i).dataType) :
    (self.put i first).put i second = self.put i second := by
  refine ext_values (fun j => ?_) rfl
  by_cases hj : j = i
  · subst hj
    rw [put_self, put_self]
  · rw [put_of_ne _ hj, put_of_ne _ hj, put_of_ne _ hj]
    split <;> rfl

theorem put_appendUnknown (self : GPBMessage descriptor) (i : Fin descriptor.count)
    (stored : Storage (descriptor.fields i).fieldType (descriptor.fields i).dataType)
    (bytes : List UInt8) :
    (self.appendUnknown bytes).put i stored = (self.put i stored).appendUnknown bytes := by
  refine ext_values (fun j => ?_) rfl
  by_cases hj : j = i
  · subst hj
    exact (put_self _ _ _).trans (put_self _ _ _).symm
  · exact (put_of_ne _ hj _).trans (put_of_ne self hj stored).symm

theorem put_values_of_repeated (self : GPBMessage descriptor) {i : Fin descriptor.count}
    (h : (descriptor.fields i).fieldType = .repeated) : self.put i (self.values i) = self := by
  refine ext_values (fun j => ?_) rfl
  by_cases hj : j = i
  · subst hj
    rw [put_self]
  · rw [put_of_ne _ hj, if_neg (GPBDescriptor.not_rivals_of_repeated h j)]

end GPBMessage

/-- Bytes that every message keeps as they are. -/
def Kept (descriptor : GPBDescriptor) (bytes : List UInt8) : Prop :=
  ∀ self : GPBMessage descriptor, Chain RecordWord self bytes (self.appendUnknown bytes)

theorem kept_nil : Kept descriptor [] := by
  intro self
  rw [GPBMessage.appendUnknown_nil]
  exact .nil self

theorem Kept.append {first second : List UInt8} (h : Kept descriptor first)
    (h' : Kept descriptor second) : Kept descriptor (first ++ second) := by
  intro self
  rw [← GPBMessage.appendUnknown_appendUnknown]
  exact (h self).append (h' _)

/-- What is kept of an unknown field is the tag and a word that is kept as it is. -/
theorem UnknownWord.again {tag : BitVec 32} {w kept : List UInt8} (h : UnknownWord tag w kept) :
    ∃ v, kept = Codec.varint tag.toNat ++ v ∧ UnknownWord tag v kept := by
  cases h with
  -- The shortest form of a number is kept as it is.
  | varint hwire _ => exact ⟨_, rfl, .varint hwire (varintWord_toNat _)⟩
  | fixed64 hwire hlen => exact ⟨_, rfl, .fixed64 hwire hlen⟩
  | lengthDelimited hwire hw =>
      rcases hw with ⟨u, n, _, _, hn, hlen⟩
      refine ⟨_, rfl, .lengthDelimited hwire ⟨_, n, rfl, ?_, hn, hlen⟩⟩
      rw [hlen]
      exact varintWord_toNat n
  | group hwire hw => exact ⟨_, rfl, .group hwire hw⟩
  | fixed32 hwire hlen => exact ⟨_, rfl, .fixed32 hwire hlen⟩

theorem kept_unknown {tag : BitVec 32} {w kept : List UInt8} (htag : ValidTag tag)
    (hplain : ∀ i : Fin descriptor.count, ¬TakesPlain i tag)
    (hpacked : ∀ i : Fin descriptor.count, ¬TakesPacked i tag) (h : UnknownWord tag w kept) :
    Kept descriptor kept := by
  intro self
  rcases h.again with ⟨v, hsplit, hv⟩
  exact .single ⟨tag, _, v, hsplit, tagWord_varint htag, .unknown hplain hpacked hv⟩

theorem validTag_plainTag (i : Fin descriptor.count) : ValidTag (descriptor.fields i).plainTag :=
  validTag_makeTag (descriptor.wellFormed i).number_pos (descriptor.wellFormed i).number_lt _

theorem validTag_packedTag (i : Fin descriptor.count) : ValidTag (descriptor.fields i).packedTag :=
  validTag_makeTag (descriptor.wellFormed i).number_pos (descriptor.wellFormed i).number_lt _

theorem unknownEnumValue_spells {field : GPBFieldDescriptor} {type : GPBDataType}
    {val : type.Carrier} {raw : BitVec 32} (h : unknownEnumValue field type val = some raw) :
    GPBWireFormatForType type false = .varint ∧
      type.Spells (varint (raw.signExtend 64).toNat) val := by
  cases type with
  | enum =>
      rw [unknownEnumValue] at h
      split at h
      · cases h
      · cases h
        exact ⟨rfl, _, varintWord_toNat _, setWidth_signExtend raw⟩
  | _ => cases h

/-- The record in which a value is kept that a closed enum does not have. -/
def enumWord (field : GPBFieldDescriptor) (raw : BitVec 32) : List UInt8 :=
  EncodeVarintU32 (GPBWireFormatMakeTag field.number .varint) ++ EncodeVarintS32 raw

theorem storeValue_of_none {i : Fin descriptor.count}
    {val : (descriptor.fields i).dataType.Carrier}
    (h : unknownEnumValue (descriptor.fields i) (descriptor.fields i).dataType val = none)
    (self : GPBMessage descriptor) : storeValue self i val = self.addValue i val := by
  rw [storeValue, h]

theorem storeValue_of_some {i : Fin descriptor.count}
    {val : (descriptor.fields i).dataType.Carrier} {raw : BitVec 32}
    (h : unknownEnumValue (descriptor.fields i) (descriptor.fields i).dataType val = some raw)
    (self : GPBMessage descriptor) :
    storeValue self i val = self.appendUnknown (enumWord (descriptor.fields i) raw) := by
  rw [storeValue, h]
  rfl

/-- It is read as unknown again. -/
theorem kept_enumWord {i : Fin descriptor.count}
    {val : (descriptor.fields i).dataType.Carrier} {raw : BitVec 32}
    (h : unknownEnumValue (descriptor.fields i) (descriptor.fields i).dataType val = some raw) :
    Kept descriptor (enumWord (descriptor.fields i) raw) := by
  rcases unknownEnumValue_spells h with ⟨hwire, hspells⟩
  intro self
  -- The record is one of the field itself, whose value is refused once more.
  refine .single ⟨(descriptor.fields i).plainTag, varint (descriptor.fields i).plainTag.toNat,
    varint (raw.signExtend 64).toNat, ?_, tagWord_varint (validTag_plainTag i),
    .plain rfl ⟨val, hspells, storeValue_of_some h self⟩⟩
  rw [enumWord, encodeVarintU32_eq, encodeVarintS32_eq, GPBFieldDescriptor.plainTag, hwire]

/-- No zero where a zero counts as not set, and only values the enum has. -/
def StorageSound (field : GPBFieldDescriptor) : (fieldType : GPBFieldType) →
    (type : GPBDataType) → Storage fieldType type → Prop
  | .single, type, stored => ∀ value, stored = some value →
      setIvar field type value = some value ∧ unknownEnumValue field type value = none
  | .repeated, type, values => ∀ value : type.Carrier, List.Mem value values →
      unknownEnumValue field type value = none

theorem storageSound_empty (field : GPBFieldDescriptor) :
    (fieldType : GPBFieldType) → (type : GPBDataType) →
      StorageSound field fieldType type (Storage.empty fieldType type)
  | .single, _ => fun _ h => nomatch h
  | .repeated, _ => fun _ h => nomatch h

theorem setIvar_eq_some {field : GPBFieldDescriptor} {type : GPBDataType}
    {value value' : type.Carrier} (h : setIvar field type value = some value') :
    value = value' ∧ setIvar field type value' = some value' := by
  have hvalue : value = value' := by
    rw [setIvar] at h
    split at h
    · cases h
    · exact Option.some.inj h
  subst hvalue
  exact ⟨rfl, h⟩

theorem StorageSound.add {field : GPBFieldDescriptor} :
    (fieldType : GPBFieldType) → (type : GPBDataType) → {stored : Storage fieldType type} →
      StorageSound field fieldType type stored → {value : type.Carrier} →
      unknownEnumValue field type value = none →
      StorageSound field fieldType type (Storage.add field fieldType type stored value)
  | .single, type, _, _, value, hvalue => by
      intro value' hset
      rcases setIvar_eq_some hset with ⟨rfl, hset'⟩
      exact ⟨hset', hvalue⟩
  | .repeated, type, values, h, value, hvalue => by
      intro value' hmem
      rcases List.mem_append.mp hmem with hmem | hmem
      · exact h value' hmem
      · rw [List.mem_singleton.mp hmem]
        exact hvalue

theorem StorageSound.merge {field : GPBFieldDescriptor} :
    (fieldType : GPBFieldType) → (type : GPBDataType) → {self other : Storage fieldType type} →
      StorageSound field fieldType type self → StorageSound field fieldType type other →
      StorageSound field fieldType type (Storage.merge field fieldType type self other)
  | .single, _, _, none, h, _ => h
  | .single, type, _, some value, _, h => by
      intro value' hset
      rcases setIvar_eq_some hset with ⟨rfl, hset'⟩
      exact ⟨hset', (h value rfl).2⟩
  | .repeated, _, _, _, h, h' => by
      intro value hmem
      rcases List.mem_append.mp hmem with hmem | hmem
      · exact h value hmem
      · exact h' value hmem

structure Sound (m : GPBMessage descriptor) : Prop where
  stored : ∀ i, StorageSound (descriptor.fields i) (descriptor.fields i).fieldType
    (descriptor.fields i).dataType (m.values i)
  exclusive : ∀ i j, descriptor.Rivals i j →
    m.values i = Storage.empty _ _ ∨ m.values j = Storage.empty _ _
  kept : Kept descriptor m.unknownFieldData

theorem sound_message : Sound (GPBMessage.message : GPBMessage descriptor) where
  stored _ := storageSound_empty _ _ _
  exclusive _ _ _ := Or.inl rfl
  kept := kept_nil

theorem Sound.appendUnknown {self : GPBMessage descriptor} (h : Sound self) {bytes : List UInt8}
    (hbytes : Kept descriptor bytes) : Sound (self.appendUnknown bytes) where
  stored := h.stored
  exclusive := h.exclusive
  kept := h.kept.append hbytes

/-- Fields may be emptied. -/
theorem Sound.of_empty {self self' : GPBMessage descriptor} (h : Sound self)
    (hvalues : ∀ j, self'.values j = Storage.empty _ _ ∨ self'.values j = self.values j)
    (hunknown : self'.unknownFieldData = self.unknownFieldData) : Sound self' where
  stored := by
    intro j
    rcases hvalues j with hempty | hsame
    · rw [hempty]
      exact storageSound_empty _ _ _
    · rw [hsame]
      exact h.stored j
  exclusive := by
    intro i j hrivals
    rcases hvalues i with hi | hi
    · exact Or.inl hi
    · rcases hvalues j with hj | hj
      · exact Or.inr hj
      · rw [hi, hj]
        exact h.exclusive i j hrivals
  kept := by
    rw [hunknown]
    exact h.kept

theorem Sound.put {self : GPBMessage descriptor} (h : Sound self) {i : Fin descriptor.count}
    {stored : Storage (descriptor.fields i).fieldType (descriptor.fields i).dataType}
    (hstored : StorageSound (descriptor.fields i) _ _ stored) : Sound (self.put i stored) where
  stored := by
    intro j
    by_cases hj : j = i
    · subst hj
      rw [GPBMessage.put_self]
      exact hstored
    · rw [GPBMessage.put_of_ne _ hj]
      split
      · exact storageSound_empty _ _ _
      · exact h.stored j
  exclusive := by
    intro a b hrivals
    by_cases ha : a = i
    · -- The rivals of the field have been cleared.
      subst ha
      rw [GPBMessage.put_of_ne _ hrivals.1.symm, if_pos hrivals]
      exact Or.inr rfl
    · by_cases hb : b = i
      · subst hb
        rw [GPBMessage.put_of_ne _ ha, if_pos hrivals.symm]
        exact Or.inl rfl
      · rw [GPBMessage.put_of_ne _ ha, GPBMessage.put_of_ne _ hb]
        rcases h.exclusive a b hrivals with hempty | hempty
        · left
          split
          · rfl
          · exact hempty
        · right
          split
          · rfl
          · exact hempty
  kept := h.kept

theorem Sound.addValue {self : GPBMessage descriptor} (h : Sound self) {i : Fin descriptor.count}
    {value : (descriptor.fields i).dataType.Carrier}
    (hvalue : unknownEnumValue (descriptor.fields i) (descriptor.fields i).dataType value = none) :
    Sound (self.addValue i value) :=
  h.put (StorageSound.add _ _ (h.stored i) hvalue)

theorem Sound.storeValue {self : GPBMessage descriptor} (h : Sound self) (i : Fin descriptor.count)
    (val : (descriptor.fields i).dataType.Carrier) : Sound (storeValue self i val) := by
  cases hval : unknownEnumValue (descriptor.fields i) (descriptor.fields i).dataType val with
  | none =>
      rw [storeValue_of_none hval]
      exact h.addValue hval
  | some raw =>
      rw [storeValue_of_some hval]
      exact h.appendUnknown (kept_enumWord hval)

theorem Sound.record {self self' : GPBMessage descriptor} {w : List UInt8}
    (hw : RecordWord self w self') (h : Sound self) : Sound self' := by
  rcases hw with ⟨tag, u, v, rfl, hu, hv⟩
  cases hv with
  | plain _ hvalue =>
      rcases hvalue with ⟨val, _, rfl⟩
      exact h.storeValue _ val
  | packed _ hvalues =>
      rcases hvalues with ⟨_, _, _, _, _, _, hchain⟩
      -- Each value of the array is stored like a single one.
      refine hchain.invariant ?_ h
      rintro m w m' ⟨val, _, rfl⟩ hm
      exact hm.storeValue _ val
  | unknown hplain hpacked hunknown => exact h.appendUnknown (kept_unknown hu.2 hplain hpacked hunknown)

theorem Sound.mergeFromData {self self' : GPBMessage descriptor} (h : Sound self)
    {data : List UInt8} (hrun : mergeFromData self data = .ok self') : Sound self' :=
  (mergeFromData_ok_iff.mp hrun).invariant Sound.record h

theorem Sound.mergeStored {self other : GPBMessage descriptor} (h : Sound self) (h' : Sound other)
    (i : Fin descriptor.count) : Sound (self.mergeStored other i) := by
  rw [GPBMessage.mergeStored]
  split
  · exact h.put (StorageSound.merge _ _ (h.stored i) (h'.stored i))
  · exact h

theorem Sound.foldl_mergeStored {self other : GPBMessage descriptor} (h : Sound self)
    (h' : Sound other) (l : List (Fin descriptor.count)) :
    Sound (l.foldl (fun self i => self.mergeStored other i) self) := by
  induction l generalizing self with
  | nil => exact h
  | cons i l ih => exact ih (h.mergeStored h' i)

theorem Sound.mergeFrom {self other : GPBMessage descriptor} (h : Sound self) (h' : Sound other) :
    Sound (mergeFrom self other) :=
  (h.foldl_mergeStored h' _).appendUnknown h'.kept

theorem Sound.clear {self : GPBMessage descriptor} (h : Sound self) (i : Fin descriptor.count)
    (hsingle : (descriptor.fields i).fieldType = .single) :
    Sound (self.GPBClearMessageField i hsingle) := by
  refine h.of_empty (fun j => ?_) rfl
  by_cases hj : j = i
  · subst hj
    simp [GPBMessage.GPBClearMessageField]
  · simp [GPBMessage.GPBClearMessageField, hj]

theorem Sound.clearOneof {self : GPBMessage descriptor} (h : Sound self) (oneof : ℕ) :
    Sound (self.GPBClearOneof oneof) := by
  refine h.of_empty (fun j => ?_) rfl
  rw [GPBMessage.GPBClearOneof, GPBMessage.GPBMaybeClearOneofPrivate]
  dsimp only
  split
  · exact Or.inl rfl
  · exact Or.inr rfl

/-- The messages that setters and adders, clearing, parsing and merging make.  A setter takes only a
value that the enum of the field has, or that an open enum could have: the setters of raw values,
which put any number into a closed enum, are left out. -/
inductive Built : GPBMessage descriptor → Prop
  | message : Built GPBMessage.message
  | addValue {self : GPBMessage descriptor} (i : Fin descriptor.count)
      (value : (descriptor.fields i).dataType.Carrier) : Built self →
      unknownEnumValue (descriptor.fields i) (descriptor.fields i).dataType value = none →
      Built (self.addValue i value)
  | clear {self : GPBMessage descriptor} (i : Fin descriptor.count)
      (hsingle : (descriptor.fields i).fieldType = .single) : Built self →
      Built (self.GPBClearMessageField i hsingle)
  | clearOneof {self : GPBMessage descriptor} (oneof : ℕ) : Built self →
      Built (self.GPBClearOneof oneof)
  | mergeFromData {self self' : GPBMessage descriptor} {data : List UInt8} : Built self →
      mergeFromData self data = .ok self' → Built self'
  | mergeFrom {self other : GPBMessage descriptor} : Built self → Built other →
      Built (mergeFrom self other)

theorem Built.sound {self : GPBMessage descriptor} (h : Built self) : Sound self := by
  induction h with
  | message => exact sound_message
  | addValue i value _ hvalue ih => exact ih.addValue hvalue
  | clear i hsingle _ ih => exact ih.clear i hsingle
  | clearOneof oneof _ ih => exact ih.clearOneof oneof
  | mergeFromData _ hrun ih => exact ih.mergeFromData hrun
  | mergeFrom _ _ ih ih' => exact ih.mergeFrom ih'

/-! ## The records of a field -/

/-- The values stored for a field, at most one for a singular field. -/
def Storage.toList : (fieldType : GPBFieldType) → (type : GPBDataType) →
    Storage fieldType type → List type.Carrier
  | .single, _, stored => Option.toList stored
  | .repeated, _, values => values

theorem foldl_snoc {α : Type} (first second : List α) :
    second.foldl (fun values value => values.append [value]) first = first.append second := by
  induction second generalizing first with
  | nil => exact (List.append_nil first).symm
  | cons value second ih =>
      rw [List.foldl_cons, ih]
      exact List.append_assoc first [value] second

theorem Storage.merge_eq_foldl (field : GPBFieldDescriptor) :
    (fieldType : GPBFieldType) → (type : GPBDataType) → (self other : Storage fieldType type) →
      Storage.merge field fieldType type self other =
        (Storage.toList fieldType type other).foldl (Storage.add field fieldType type) self
  | .single, _, _, none => rfl
  | .single, _, _, some _ => rfl
  | .repeated, _, self, other => (foldl_snoc self other).symm

theorem StorageSound.value {field : GPBFieldDescriptor} :
    (fieldType : GPBFieldType) → (type : GPBDataType) → {stored : Storage fieldType type} →
      StorageSound field fieldType type stored → {value : type.Carrier} →
      value ∈ Storage.toList fieldType type stored → unknownEnumValue field type value = none
  | .single, _, _, h, value, hmem => (h value (Option.mem_toList.mp hmem)).2
  | .repeated, _, _, h, value, hmem => h value hmem

theorem arrayWord_cases (field : GPBFieldDescriptor) (type : GPBDataType)
    (values : List type.Carrier) :
    arrayWord field type values = values.flatMap (type.fieldWord field.number) ∨
      field.packed = true ∧ arrayWord field type values = packedWord type field.tag values := by
  rw [arrayWord, GPBFieldDescriptor.isPackable]
  cases hpacked : field.packed with
  | false => exact .inl rfl
  | true =>
      -- An empty array is written as nothing, in either form.
      cases values with
      | nil => exact .inl rfl
      | cons value values => exact .inr ⟨rfl, rfl⟩

theorem storageWord_cases (field : GPBFieldDescriptor) :
    (fieldType : GPBFieldType) → (type : GPBDataType) → (stored : Storage fieldType type) →
      storageWord field fieldType type stored =
          (Storage.toList fieldType type stored).flatMap (type.fieldWord field.number) ∨
        field.packed = true ∧ storageWord field fieldType type stored =
          packedWord type field.tag (Storage.toList fieldType type stored)
  | .single, _, none => .inl rfl
  | .single, _, some _ => .inl (List.append_nil _).symm
  | .repeated, type, values => arrayWord_cases field type values

section Field

variable {i : Fin descriptor.count} {values : List (descriptor.fields i).dataType.Carrier}

def GPBMessage.addValues (self : GPBMessage descriptor) (i : Fin descriptor.count)
    (values : List (descriptor.fields i).dataType.Carrier) : GPBMessage descriptor :=
  values.foldl (fun self value => self.addValue i value) self

theorem valueWord_word {value : (descriptor.fields i).dataType.Carrier}
    (hvalue : unknownEnumValue (descriptor.fields i) (descriptor.fields i).dataType value = none)
    (hle : ((descriptor.fields i).dataType.word value).length ≤ kMaximumMessageSize)
    (self : GPBMessage descriptor) :
    ValueWord i self ((descriptor.fields i).dataType.word value) (self.addValue i value) :=
  ⟨value, spells_word hle, storeValue_of_none hvalue self⟩

theorem length_le_flatMap {α : Type} {l : List α} {a : α} (h : a ∈ l) (word : α → List UInt8) :
    (word a).length ≤ (l.flatMap word).length := by
  rw [List.length_flatMap]
  exact le_sum_map h fun a => (word a).length

theorem chain_fieldWords
    (hvalues : ∀ value ∈ values,
      unknownEnumValue (descriptor.fields i) (descriptor.fields i).dataType value = none)
    (hle : (values.flatMap ((descriptor.fields i).dataType.fieldWord
      (descriptor.fields i).number)).length ≤ kMaximumMessageSize) (self : GPBMessage descriptor) :
    Chain RecordWord self (values.flatMap ((descriptor.fields i).dataType.fieldWord
      (descriptor.fields i).number)) (self.addValues i values) := by
  refine Chain.flatMap ?_ self
  intro value hmem self
  -- A part of something that is not too long is not too long.
  have hpart := (length_le_flatMap hmem _).trans hle
  rw [GPBDataType.fieldWord, List.length_append] at hpart
  exact .single ⟨(descriptor.fields i).plainTag, _, _, rfl, tagWord_varint (validTag_plainTag i),
    .plain rfl (valueWord_word (hvalues value hmem) (by omega) self)⟩

theorem chain_packedWord (hpacked : (descriptor.fields i).packed = true)
    (hvalues : ∀ value ∈ values,
      unknownEnumValue (descriptor.fields i) (descriptor.fields i).dataType value = none)
    (hle : (packedWord (descriptor.fields i).dataType (descriptor.fields i).tag values).length ≤
      kMaximumMessageSize) (self : GPBMessage descriptor) :
    Chain RecordWord self (packedWord (descriptor.fields i).dataType (descriptor.fields i).tag values)
      (self.addValues i values) := by
  rw [packedWord, List.length_append, List.length_append] at hle
  have hsum : (values.flatMap (descriptor.fields i).dataType.word).length ≤ 0x7fffffff := by
    change _ ≤ kMaximumMessageSize
    omega
  -- The length is written in 32 bits and read in 64.
  rcases varintWord_toNat32
    (BitVec.ofNat 32 (values.flatMap (descriptor.fields i).dataType.word).length) with ⟨n, hn, hlen⟩
  have hbody : Chain (ValueWord i) self (values.flatMap (descriptor.fields i).dataType.word)
      (self.addValues i values) := by
    refine Chain.flatMap ?_ self
    intro value hmem self
    have hpart := length_le_flatMap hmem (descriptor.fields i).dataType.word
    exact .single (valueWord_word (hvalues value hmem) (by omega) self)
  have htag := (GPBFieldDescriptor.tag_of_packed hpacked).1
  rw [packedWord, htag]
  refine .single ⟨(descriptor.fields i).packedTag, _, _, rfl, tagWord_varint (validTag_packedTag i),
    .packed ⟨(descriptor.wellFormed i).packed_repeated hpacked, rfl⟩
      ⟨_, _, n, rfl, hn, ?_, hbody⟩⟩
  rw [hlen, BitVec.toInt_eq_toNat_cond, BitVec.toNat_ofNat, Nat.mod_eq_of_lt (by omega),
    if_pos (by omega)]

end Field

/-! ## Reading back -/

theorem addValues_cons (self : GPBMessage descriptor) (i : Fin descriptor.count)
    (value : (descriptor.fields i).dataType.Carrier)
    (values : List (descriptor.fields i).dataType.Carrier) :
    self.addValues i (value :: values) =
      self.put i ((value :: values).foldl (Storage.add (descriptor.fields i)
        (descriptor.fields i).fieldType (descriptor.fields i).dataType) (self.values i)) := by
  induction values generalizing self value with
  | nil => rfl
  | cons next values ih =>
      have hstep : self.addValues i (value :: next :: values) =
          (self.addValue i value).addValues i (next :: values) := rfl
      rw [hstep, ih, GPBMessage.addValue, GPBMessage.put_put, GPBMessage.put_self]
      rfl

theorem Storage.toList_empty : (fieldType : GPBFieldType) → (type : GPBDataType) →
    Storage.toList fieldType type (Storage.empty fieldType type) = []
  | .single, _ => rfl
  | .repeated, _ => rfl

theorem Storage.eq_empty_of_not_isSet : (fieldType : GPBFieldType) → (type : GPBDataType) →
    {stored : Storage fieldType type} → ¬Storage.isSet fieldType type stored = true →
      stored = Storage.empty fieldType type
  | .single, _, none, _ => rfl
  | .single, _, some _, h => absurd rfl h
  | .repeated, _, _, h => absurd rfl h

/-- Only an array may be there and have no values. -/
theorem Storage.repeated_of_isSet : (fieldType : GPBFieldType) → (type : GPBDataType) →
    {stored : Storage fieldType type} → Storage.isSet fieldType type stored = true →
      Storage.toList fieldType type stored = [] → fieldType = .repeated
  | .single, _, some _, _, h => nomatch h
  | .repeated, _, _, _, _ => rfl

theorem addValues_toList (self other : GPBMessage descriptor) (i : Fin descriptor.count) :
    self.addValues i (Storage.toList _ _ (other.values i)) = self.mergeStored other i := by
  rw [GPBMessage.mergeStored, Storage.merge_eq_foldl]
  split
  · rename_i hset
    cases hvalues : Storage.toList _ _ (other.values i) with
    | nil =>
        exact (self.put_values_of_repeated (Storage.repeated_of_isSet _ _ hset hvalues)).symm
    | cons value values => exact addValues_cons self i value values
  · rename_i hset
    rw [Storage.eq_empty_of_not_isSet _ _ hset, Storage.toList_empty]
    rfl

theorem chain_storageWord {other : GPBMessage descriptor} (h : Sound other)
    (i : Fin descriptor.count)
    (hle : (storageWord (descriptor.fields i) (descriptor.fields i).fieldType
      (descriptor.fields i).dataType (other.values i)).length ≤ kMaximumMessageSize)
    (self : GPBMessage descriptor) :
    Chain RecordWord self (storageWord (descriptor.fields i) (descriptor.fields i).fieldType
      (descriptor.fields i).dataType (other.values i)) (self.mergeStored other i) := by
  have hvalues : ∀ value ∈ Storage.toList _ _ (other.values i),
      unknownEnumValue (descriptor.fields i) (descriptor.fields i).dataType value = none :=
    fun value hmem => StorageSound.value _ _ (h.stored i) hmem
  rw [← addValues_toList]
  rcases storageWord_cases (descriptor.fields i) _ _ (other.values i) with hword | ⟨hpacked, hword⟩
  · rw [hword] at hle ⊢
    exact chain_fieldWords hvalues hle self
  · rw [hword] at hle ⊢
    exact chain_packedWord hpacked hvalues hle self

theorem chain_encode {other : GPBMessage descriptor} (h : Sound other)
    (hle : (encode other).length ≤ kMaximumMessageSize) (self : GPBMessage descriptor) :
    Chain RecordWord self (encode other) (mergeFrom self other) := by
  rw [encode]
  rw [encode, List.length_append] at hle
  -- The fields, one by one, and then the unknown bytes.
  refine (Chain.flatMap ?_ self).append (h.kept _)
  intro i hmem self
  have hpart := length_le_flatMap hmem fun i => storageWord (descriptor.fields i)
    (descriptor.fields i).fieldType (descriptor.fields i).dataType (other.values i)
  exact chain_storageWord h i (by omega) self

theorem Storage.merge_empty {field : GPBFieldDescriptor} :
    (fieldType : GPBFieldType) → (type : GPBDataType) → {stored : Storage fieldType type} →
      StorageSound field fieldType type stored →
      Storage.merge field fieldType type (Storage.empty fieldType type) stored = stored
  | .single, _, none, _ => rfl
  | .single, _, some value, h => (h value rfl).1
  | .repeated, _, _, _ => rfl

/-- Merged into an empty message, the fields of a list are there and no others. -/
theorem foldl_mergeStored_values {other : GPBMessage descriptor} (h : Sound other)
    {l : List (Fin descriptor.count)} (hl : l.Nodup) (j : Fin descriptor.count) :
    (l.foldl (fun self i => self.mergeStored other i) GPBMessage.message).values j =
      if j ∈ l then other.values j else Storage.empty _ _ := by
  induction l using List.reverseRecOn generalizing j with
  | nil => rfl
  | append_singleton l i ih =>
      rcases List.nodup_append.mp hl with ⟨hl', _, hdisjoint⟩
      have hi : i ∉ l := fun hmem => hdisjoint i hmem i (List.mem_singleton_self i) rfl
      have hbefore := ih hl' i
      rw [if_neg hi] at hbefore
      rw [List.foldl_append, List.foldl_cons, List.foldl_nil, GPBMessage.mergeStored]
      split
      · rename_i hset
        by_cases hj : j = i
        · subst hj
          rw [GPBMessage.put_self, hbefore, Storage.merge_empty _ _ (h.stored j)]
          simp
        · rw [GPBMessage.put_of_ne _ hj, ih hl' j]
          simp only [List.mem_append, List.mem_singleton, hj, or_false]
          -- A rival that came before was not set, as this field is.
          split
          · rename_i hrivals
            rcases h.exclusive i j hrivals with hempty | hempty
            · have hnil : Storage.toList _ _ (other.values i) = [] := by
                rw [hempty, Storage.toList_empty]
              exact absurd hrivals (GPBDescriptor.not_rivals_of_repeated
                (Storage.repeated_of_isSet _ _ hset hnil) j)
            · rw [hempty, ite_self]
          · rfl
      · rename_i hset
        have hempty := Storage.eq_empty_of_not_isSet _ _ hset
        rw [ih hl' j]
        by_cases hj : j = i
        · subst hj
          simp [hi, hempty]
        · simp [hj]

theorem foldl_mergeStored_unknown (other : GPBMessage descriptor) (l : List (Fin descriptor.count))
    (self : GPBMessage descriptor) :
    (l.foldl (fun self i => self.mergeStored other i) self).unknownFieldData =
      self.unknownFieldData := by
  induction l generalizing self with
  | nil => rfl
  | cons i l ih =>
      rw [List.foldl_cons, ih, GPBMessage.mergeStored]
      split <;> rfl

theorem mergeFrom_message {self : GPBMessage descriptor} (h : Sound self) :
    mergeFrom GPBMessage.message self = self := by
  refine GPBMessage.ext_values (fun j => ?_) ?_
  · have hvalues := foldl_mergeStored_values h (List.nodup_finRange _) j
    rw [if_pos (List.mem_finRange j)] at hvalues
    exact hvalues
  · rw [mergeFrom, GPBMessage.appendUnknown, foldl_mergeStored_unknown]
    rfl

theorem mergeFromData_data {other : GPBMessage descriptor} (h : Built other) {bytes : List UInt8}
    (hdata : data other = some bytes) (self : GPBMessage descriptor) :
    mergeFromData self bytes = .ok (mergeFrom self other) := by
  rcases data_eq_some_iff.mp hdata with ⟨hle, rfl⟩
  exact mergeFromData_ok_iff.mpr (chain_encode h.sound hle self)

theorem parseFromData_data {self : GPBMessage descriptor} (h : Built self) {bytes : List UInt8}
    (hdata : data self = some bytes) : parseFromData descriptor bytes = .ok self := by
  rw [parseFromData, mergeFromData_data h hdata, mergeFrom_message h.sound]

/-- The bytes of a message are parsed to that message and, read into any other one, merge it into
that. -/
theorem data_roundTrip {other : GPBMessage descriptor} (h : Built other) {bytes : List UInt8}
    (hdata : data other = some bytes) :
    parseFromData descriptor bytes = .ok other ∧
      ∀ self, mergeFromData self bytes = .ok (mergeFrom self other) :=
  ⟨parseFromData_data h hdata, mergeFromData_data h hdata⟩

theorem built_acknowledged : Built acknowledged :=
  @Built.addValue MessageAck GPBMessage.message (0 : Fin 3) true .message rfl

/-! ## An entry of a register -/

/-- A member of a oneof in a `proto3` file. -/
def oneofField (number : BitVec 32) (dataType : GPBDataType) : GPBFieldDescriptor :=
  { proto3Field number dataType with
    clearHasIvarOnZero := false
    containingOneof := some 0 }

theorem oneofField_wellFormed {number : BitVec 32} (dataType : GPBDataType)
    (hpos : 0 < number.toNat) (hlt : number.toNat < 2 ^ 29) :
    (oneofField number dataType).WellFormed where
  number_pos := hpos
  number_lt := hlt
  packed_repeated := by
    intro h
    cases h
  oneof_single := by
    intro h
    cases h

/-- An array of the values of a closed enum, zero and one. -/
def flagsField (number : BitVec 32) : GPBFieldDescriptor where
  number := number
  dataType := .enum
  fieldType := .repeated
  clearHasIvarOnZero := false
  packed := true
  isOpenOrValidValue value := value.toNat ≤ 1
  containingOneof := none

theorem flagsField_wellFormed {number : BitVec 32} (hpos : 0 < number.toNat)
    (hlt : number.toNat < 2 ^ 29) : (flagsField number).WellFormed where
  number_pos := hpos
  number_lt := hlt
  packed_repeated := fun _ => ⟨rfl, rfl⟩
  oneof_single := fun _ => rfl

/-- A name, a number or a text, and flags. -/
def Entry : GPBDescriptor where
  count := 4
  fields
    | 0 => proto3Field 1 .string
    | 1 => oneofField 2 .uInt32
    | 2 => oneofField 3 .string
    | 3 => flagsField 4
  wellFormed
    | 0 => proto3Field_wellFormed _ (by decide) (by decide)
    | 1 => oneofField_wellFormed _ (by decide) (by decide)
    | 2 => oneofField_wellFormed _ (by decide) (by decide)
    | 3 => flagsField_wellFormed (by decide) (by decide)
  number_injective := by decide

theorem exists_parsed {descriptor : GPBDescriptor} {bytes written : List UInt8}
    (h : (parseFromData descriptor bytes).toOption.bind data = some written) :
    ∃ m, parseFromData descriptor bytes = .ok m ∧ data m = some written := by
  cases hparse : parseFromData descriptor bytes with
  | error e =>
      rw [hparse] at h
      cases h
  | ok m =>
      rw [hparse] at h
      exact ⟨m, rfl, h⟩

/-- The number clears the text, and a flag that the enum does not have is kept behind the others. -/
theorem entry_roundTrip :
    ∃ m : GPBMessage Entry, parseFromData Entry [26, 1, 98, 34, 3, 1, 7, 0, 16, 65] = .ok m ∧
      data m = some [16, 65, 34, 2, 1, 0, 32, 7] ∧
      parseFromData Entry [16, 65, 34, 2, 1, 0, 32, 7] = .ok m := by
  have hwritten : (parseFromData Entry [26, 1, 98, 34, 3, 1, 7, 0, 16, 65]).toOption.bind data =
      some [16, 65, 34, 2, 1, 0, 32, 7] := by
    decide +kernel
  rcases exists_parsed hwritten with ⟨m, hparse, hdata⟩
  exact ⟨m, hparse, hdata, (data_roundTrip (Built.mergeFromData .message hparse) hdata).1⟩

end Protobuf
end KmpApp
