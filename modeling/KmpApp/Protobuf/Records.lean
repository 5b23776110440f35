import KmpApp.Protobuf.RoundTrip

/-!
# Records — what the bytes of a message say

A record is either some values of a field or an unknown field.  A list of records says what a message
holds (`Record.messageOf`): a repeated field has all values that were given to it, a singular one the
last, unless a later one went to another member of its oneof.

A message is parsed from exactly the bytes that spell a list of records, and is the one that the
records describe (`parseFromData_iff_records`).
-/

namespace KmpApp
namespace Protobuf

open Codec

/-! ## The words of a field, whatever the rest of the descriptor -/

inductive SpellsAll (type : GPBDataType) : List UInt8 → List type.Carrier → Prop
  | nil : SpellsAll type [] []
  | cons {w ws : List UInt8} {val : type.Carrier} {vals : List type.Carrier} :
      type.Spells w val → SpellsAll type ws vals → SpellsAll type (w ++ ws) (val :: vals)

/-- What follows a tag of the field, and the values in it. -/
inductive KnownWord (field : GPBFieldDescriptor) (tag : BitVec 32) :
    List UInt8 → List field.dataType.Carrier → Prop
  | plain {w : List UInt8} {val : field.dataType.Carrier} :
      field.plainTag = tag → field.dataType.Spells w val → KnownWord field tag w [val]
  | packed {u body : List UInt8} {n : BitVec 64} {vals : List field.dataType.Carrier} :
      field.Packable → field.packedTag = tag → VarintWord u n →
      (n.setWidth 32).toInt = body.length → SpellsAll field.dataType body vals →
      KnownWord field tag (u ++ body) vals

variable {descriptor : GPBDescriptor}

def GPBMessage.storeValues (self : GPBMessage descriptor) (i : Fin descriptor.count)
    (vals : List (descriptor.fields i).dataType.Carrier) : GPBMessage descriptor :=
  vals.foldl (fun self val => storeValue self i val) self

theorem chain_valueWord_iff {i : Fin descriptor.count} {self self' : GPBMessage descriptor}
    {body : List UInt8} :
    Chain (ValueWord i) self body self' ↔
      ∃ vals, SpellsAll (descriptor.fields i).dataType body vals ∧
        self.storeValues i vals = self' := by
  constructor
  · intro h
    induction h with
    | nil self => exact ⟨[], .nil, rfl⟩
    | cons hvalue _ ih =>
        rcases hvalue with ⟨val, hval, rfl⟩
        rcases ih with ⟨vals, hvals, rfl⟩
        exact ⟨val :: vals, .cons hval hvals, rfl⟩
  · rintro ⟨vals, hvals, rfl⟩
    induction hvals generalizing self with
    | nil => exact .nil self
    | cons hval _ ih => exact .cons ⟨_, hval, rfl⟩ ih

theorem KnownWord.record {i : Fin descriptor.count} {tag : BitVec 32} {u v : List UInt8}
    {vals : List (descriptor.fields i).dataType.Carrier} (hu : TagWord u tag)
    (h : KnownWord (descriptor.fields i) tag v vals) (self : GPBMessage descriptor) :
    RecordWord self (u ++ v) (self.storeValues i vals) := by
  cases h with
  | plain htag hval => exact ⟨tag, u, v, rfl, hu, .plain htag ⟨_, hval, rfl⟩⟩
  | packed hpackable htag hw hlen hvals =>
      exact ⟨tag, u, _, rfl, hu, .packed ⟨hpackable, htag⟩
        ⟨_, _, _, rfl, hw, hlen, chain_valueWord_iff.mpr ⟨_, hvals, rfl⟩⟩⟩

/-- A record belongs to a field and stores values in it, or is unknown. -/
theorem recordWord_cases {self self' : GPBMessage descriptor} {w : List UInt8}
    (h : RecordWord self w self') :
    ∃ tag u v, w = u ++ v ∧ TagWord u tag ∧
      ((∃ i vals, KnownWord (descriptor.fields i) tag v vals ∧ self' = self.storeValues i vals) ∨
        ((∀ i : Fin descriptor.count, ¬TakesPlain i tag) ∧
          (∀ i : Fin descriptor.count, ¬TakesPacked i tag) ∧
          ∃ kept, UnknownWord tag v kept ∧ self' = self.appendUnknown kept)) := by
  rcases h with ⟨tag, u, v, rfl, hu, hv⟩
  refine ⟨tag, u, v, rfl, hu, ?_⟩
  -- A single value is a list of one.
  cases hv with
  | @plain i _ _ _ htag hvalue =>
      rcases hvalue with ⟨val, hval, rfl⟩
      exact .inl ⟨i, [val], .plain htag hval, rfl⟩
  | @packed i _ _ _ htag hvalues =>
      rcases hvalues with ⟨u', body, n, rfl, hu', hlen, hchain⟩
      rcases chain_valueWord_iff.mp hchain with ⟨vals, hvals, rfl⟩
      exact .inl ⟨i, vals, .packed htag.1 htag.2 hu' hlen hvals, rfl⟩
  | unknown hplain hpacked hunknown => exact .inr ⟨hplain, hpacked, _, hunknown, rfl⟩

/-! ## Lists of records -/

inductive Record (descriptor : GPBDescriptor)
  | known (i : Fin descriptor.count) (vals : List (descriptor.fields i).dataType.Carrier)
  | unknown (kept : List UInt8)

namespace Record

/-- What the parser makes of a message when it reads a record. -/
def denote (self : GPBMessage descriptor) : Record descriptor → GPBMessage descriptor
  | .known i vals => self.storeValues i vals
  | .unknown kept => self.appendUnknown kept

/-- The words a record is read from: a tag, which says whose record it is, and what follows it. -/
inductive Word : List UInt8 → Record descriptor → Prop
  | known {tag : BitVec 32} {u v : List UInt8} {i : Fin descriptor.count}
      {vals : List (descriptor.fields i).dataType.Carrier} :
      TagWord u tag → KnownWord (descriptor.fields i) tag v vals → Word (u ++ v) (.known i vals)
  | unknown {tag : BitVec 32} {u v kept : List UInt8} :
      TagWord u tag → (∀ i : Fin descriptor.count, ¬TakesPlain i tag) →
      (∀ i : Fin descriptor.count, ¬TakesPacked i tag) → UnknownWord tag v kept →
      Word (u ++ v) (.unknown kept)

inductive Words : List UInt8 → List (Record descriptor) → Prop
  | nil : Words [] []
  | cons {w ws : List UInt8} {record : Record descriptor} {records : List (Record descriptor)} :
      Word w record → Words ws records → Words (w ++ ws) (record :: records)

theorem recordWord_iff {self self' : GPBMessage descriptor} {w : List UInt8} :
    RecordWord self w self' ↔ ∃ record, Word w record ∧ record.denote self = self' := by
  constructor
  · intro h
    rcases recordWord_cases h with ⟨tag, u, v, rfl, hu, hcases⟩
    rcases hcases with ⟨i, vals, hknown, rfl⟩ | ⟨hplain, hpacked, kept, hkept, rfl⟩
    · exact ⟨.known i vals, .known hu hknown, rfl⟩
    · exact ⟨.unknown kept, .unknown hu hplain hpacked hkept, rfl⟩
  · rintro ⟨record, hw, rfl⟩
    cases hw with
    | known hu hknown => exact hknown.record hu self
    | unknown hu hplain hpacked hkept => exact ⟨_, _, _, rfl, hu, .unknown hplain hpacked hkept⟩

theorem chain_iff {self self' : GPBMessage descriptor} {bytes : List UInt8} :
    Chain RecordWord self bytes self' ↔
      ∃ records, Words bytes records ∧ records.foldl denote self = self' := by
  constructor
  · intro h
    -- Along the chain; the effect of each record is the fold of `denote`.
    induction h with
    | nil self => exact ⟨[], .nil, rfl⟩
    | cons hw _ ih =>
        rcases recordWord_iff.mp hw with ⟨record, hrecord, rfl⟩
        rcases ih with ⟨records, hrecords, rfl⟩
        exact ⟨record :: records, .cons hrecord hrecords, rfl⟩
  · rintro ⟨records, hrecords, rfl⟩
    induction hrecords generalizing self with
    | nil => exact .nil self
    | cons hrecord _ ih => exact .cons (recordWord_iff.mpr ⟨_, hrecord, rfl⟩) ih

/-! ## What records describe -/

/-- A value for a field. -/
abbrev Input (descriptor : GPBDescriptor) : Type :=
  Σ i : Fin descriptor.count, (descriptor.fields i).dataType.Carrier

/-- The values of a record, but for those that a closed enum does not have. -/
def inputs : Record descriptor → List (Input descriptor)
  | .known i vals =>
      (vals.filter fun val =>
        (unknownEnumValue (descriptor.fields i) (descriptor.fields i).dataType val).isNone).map
          (Sigma.mk i)
  | .unknown _ => []

/-- These are kept as unknown fields, like the fields that the class does not have. -/
def kept : Record descriptor → List UInt8
  | .known i vals =>
      (vals.filterMap (unknownEnumValue (descriptor.fields i)
        (descriptor.fields i).dataType)).flatMap fun raw =>
          tagWord (descriptor.fields i).number .varint ++ varint (raw.signExtend 64).toNat
  | .unknown kept => kept

def valueFor (i : Fin descriptor.count) (input : Input descriptor) :
    Option (descriptor.fields i).dataType.Carrier :=
  if h : input.1 = i then some (h ▸ input.2) else none

/-- Values for the field itself and for the other members of its oneof. -/
def concerns (i : Fin descriptor.count) (input : Input descriptor) : Bool :=
  input.1 = i ∨ descriptor.Rivals input.1 i

/-- What is stored, given the last value that concerns the field and all its values. -/
def stored (field : GPBFieldDescriptor) : (fieldType : GPBFieldType) → (type : GPBDataType) →
    Option type.Carrier → List type.Carrier → Storage fieldType type
  | .single, type, last, _ => last.bind (setIvar field type)
  | .repeated, _, _, all => all

def messageOf (records : List (Record descriptor)) : GPBMessage descriptor where
  values i := stored (descriptor.fields i) (descriptor.fields i).fieldType
    (descriptor.fields i).dataType
    (((records.flatMap inputs).filter (concerns i)).getLast?.bind (valueFor i))
    ((records.flatMap inputs).filterMap (valueFor i))
  unknownFieldData := records.flatMap kept

theorem valueFor_self (i : Fin descriptor.count)
    (value : (descriptor.fields i).dataType.Carrier) : valueFor i ⟨i, value⟩ = some value := by
  simp [valueFor]

theorem valueFor_of_ne {i j : Fin descriptor.count} (h : j ≠ i)
    (value : (descriptor.fields j).dataType.Carrier) : valueFor i ⟨j, value⟩ = none := by
  simp [valueFor, h]

theorem add_stored (field : GPBFieldDescriptor) : (fieldType : GPBFieldType) →
    (type : GPBDataType) → (last : Option type.Carrier) → (all : List type.Carrier) →
    (value : type.Carrier) →
      Storage.add field fieldType type (stored field fieldType type last all) value =
        stored field fieldType type (some value) (all ++ [value])
  | .single, _, _, _, _ => rfl
  | .repeated, _, _, _, _ => rfl

theorem stored_none (field : GPBFieldDescriptor) : (fieldType : GPBFieldType) →
    (type : GPBDataType) → fieldType ≠ .repeated → (all : List type.Carrier) →
      stored field fieldType type none all = Storage.empty fieldType type
  | .single, _, _, _ => rfl
  | .repeated, _, h, _ => absurd rfl h

theorem stored_nil (field : GPBFieldDescriptor) : (fieldType : GPBFieldType) →
    (type : GPBDataType) → stored field fieldType type none [] = Storage.empty fieldType type
  | .single, _ => rfl
  | .repeated, _ => rfl

def addInputs (self : GPBMessage descriptor) (l : List (Input descriptor)) :
    GPBMessage descriptor :=
  l.foldl (fun self input => self.addValue input.1 input.2) self

/-- The setters, called with one value after the other, leave what the values describe. -/
theorem addInputs_values (l : List (Input descriptor)) (i : Fin descriptor.count) :
    (addInputs GPBMessage.message l).values i =
      stored (descriptor.fields i) _ _ ((l.filter (concerns i)).getLast?.bind (valueFor i))
        (l.filterMap (valueFor i)) := by
  induction l using List.reverseRecOn with
  | nil => exact (stored_nil _ _ _).symm
  | append_singleton l input ih =>
      rcases input with ⟨j, value⟩
      have hstep : addInputs GPBMessage.message (l ++ [⟨j, value⟩]) =
          (addInputs GPBMessage.message l).addValue j value := by
        rw [addInputs, List.foldl_append]
        rfl
      rw [hstep, GPBMessage.addValue, List.filter_append, List.filterMap_append]
      by_cases hj : j = i
      · subst hj
        rw [GPBMessage.put_self, ih, add_stored]
        simp [concerns, valueFor_self]
      · rw [GPBMessage.put_of_ne _ (Ne.symm hj)]
        split
        · -- A value for a rival clears the field, which is then no array.
          rename_i hrivals
          have hsingle : (descriptor.fields i).fieldType ≠ .repeated := fun hrepeated =>
            GPBDescriptor.not_rivals_of_repeated hrepeated j hrivals.symm
          have hconcerns : concerns i ⟨j, value⟩ = true := by
            simp [concerns, hrivals]
          simp [hconcerns, valueFor_of_ne hj, stored_none _ _ _ hsingle]
        · rename_i hrivals
          have hconcerns : concerns i ⟨j, value⟩ = false := by
            simp [concerns, hrivals, hj]
          rw [ih]
          simp [hconcerns, valueFor_of_ne hj]

theorem addInputs_unknown (l : List (Input descriptor)) (self : GPBMessage descriptor) :
    (addInputs self l).unknownFieldData = self.unknownFieldData := by
  induction l generalizing self with
  | nil => rfl
  | cons input l ih => exact ih _

theorem addInputs_appendUnknown (l : List (Input descriptor)) (self : GPBMessage descriptor)
    (bytes : List UInt8) :
    addInputs (self.appendUnknown bytes) l = (addInputs self l).appendUnknown bytes := by
  induction l generalizing self with
  | nil => rfl
  | cons input l ih =>
      have hinput : (self.appendUnknown bytes).addValue input.1 input.2 =
          (self.addValue input.1 input.2).appendUnknown bytes := self.put_appendUnknown _ _ _
      rw [addInputs, List.foldl_cons, hinput]
      exact ih _

theorem enumWord_eq (field : GPBFieldDescriptor) (raw : BitVec 32) :
    enumWord field raw = tagWord field.number .varint ++ varint (raw.signExtend 64).toNat := by
  rw [enumWord, encodeVarintU32_eq, encodeVarintS32_eq]
  rfl

/-- Of the values of a record some are stored and some are kept, in whatever order they come. -/
theorem storeValues_eq (self : GPBMessage descriptor) (i : Fin descriptor.count)
    (vals : List (descriptor.fields i).dataType.Carrier) :
    self.storeValues i vals =
      (addInputs self (inputs (.known i vals))).appendUnknown (kept (.known i vals)) := by
  induction vals generalizing self with
  | nil => exact self.appendUnknown_nil.symm
  | cons val vals ih =>
      have hstep : self.storeValues i (val :: vals) = (storeValue self i val).storeValues i vals :=
        rfl
      rw [hstep, ih]
      cases hval : unknownEnumValue (descriptor.fields i) (descriptor.fields i).dataType val with
      | none =>
          rw [storeValue_of_none hval]
          simp only [inputs, kept, List.filter_cons, List.filterMap_cons, hval]
          rfl
      | some raw =>
          rw [storeValue_of_some hval, addInputs_appendUnknown,
            GPBMessage.appendUnknown_appendUnknown, enumWord_eq]
          simp only [inputs, kept, List.filter_cons, List.filterMap_cons, hval]
          rfl

theorem denote_eq (self : GPBMessage descriptor) (record : Record descriptor) :
    record.denote self = (addInputs self record.inputs).appendUnknown record.kept := by
  cases record with
  | known i vals => exact storeValues_eq self i vals
  | unknown kept => rfl

theorem foldl_denote (records : List (Record descriptor)) (self : GPBMessage descriptor) :
    records.foldl denote self =
      (addInputs self (records.flatMap inputs)).appendUnknown (records.flatMap kept) := by
  induction records generalizing self with
  | nil => exact self.appendUnknown_nil.symm
  | cons record records ih =>
      have hinputs : addInputs self ((record :: records).flatMap inputs) =
          addInputs (addInputs self record.inputs) (records.flatMap inputs) := by
        rw [List.flatMap_cons, addInputs, List.foldl_append]
        rfl
      rw [List.foldl_cons, ih, denote_eq, addInputs_appendUnknown,
        GPBMessage.appendUnknown_appendUnknown, hinputs, List.flatMap_cons]

theorem foldl_denote_message (records : List (Record descriptor)) :
    records.foldl denote GPBMessage.message = messageOf records := by
  rw [foldl_denote]
  refine GPBMessage.ext_values (fun i => addInputs_values _ i) ?_
  rw [GPBMessage.appendUnknown, addInputs_unknown]
  rfl

end Record

/-- A message is parsed from the bytes that spell a list of records, and from no others; it is the
one that the records describe. -/
theorem parseFromData_iff_records {bytes : List UInt8} {self : GPBMessage descriptor} :
    parseFromData descriptor bytes = .ok self ↔
      ∃ records : List (Record descriptor), Record.Words bytes records ∧
        Record.messageOf records = self := by
  rw [parseFromData, mergeFromData_ok_iff, Record.chain_iff]
  simp only [Record.foldl_denote_message]

end Protobuf
end KmpApp
