import KmpApp.Protobuf.Message

/-!
# Language — the bytes a message is read from

A message accepts the chains of records: a tag and what follows it.  A record of a known field stores
the values it spells; any other record is kept, with its numbers written in the shortest form.  The
search for a field may start anywhere in the descriptor, so the order of the records does not matter
to which field a record belongs to.
-/

namespace KmpApp
namespace Protobuf

open Codec

variable {descriptor : GPBDescriptor} {c : Frame}

/-! ## The bytes of unknown fields -/

theorem or_high_byte {n : ℕ} (h : n < 128) : UInt8.ofNat n ||| 0x80 = UInt8.ofNat (n + 128) := by
  apply UInt8.toNat_inj.mp
  have hlt : n < 2 ^ 7 := h
  rw [UInt8.toNat_or, toNat_ofNat_lt (by omega), toNat_ofNat_lt (by omega)]
  change n ||| 2 ^ 7 * 1 = n + 128
  rw [Nat.or_comm, ← Nat.two_pow_add_eq_or_of_lt hlt]
  omega

theorem shift_seven_eq_zero_iff {w : ℕ} (v : BitVec w) : v >>> 7 = 0 ↔ v.toNat < 128 := by
  rw [← BitVec.toNat_inj, toNat_shift_seven]
  simp only [BitVec.ofNat_eq_ofNat, BitVec.toNat_ofNat, Nat.zero_mod]
  omega

theorem encodeVarint_eq {w : ℕ} (hw : 8 ≤ w) {rounds : ℕ} {v : BitVec w}
    (h : v.toNat < 128 ^ (rounds + 1)) : encodeVarint (rounds + 1) v = varint v.toNat := by
  -- Each round takes seven bits off the value and one off the bound on its groups.
  induction rounds generalizing v with
  | zero =>
      have hv : v.toNat < 128 := by simpa using h
      rw [encodeVarint, if_neg (not_not.mpr ((shift_seven_eq_zero_iff v).mpr hv)),
        varint_of_lt hv, toNat_and_low v hw, Nat.mod_eq_of_lt hv]
  | succ rounds ih =>
      rw [encodeVarint]
      by_cases hv : v.toNat < 128
      · rw [if_neg (not_not.mpr ((shift_seven_eq_zero_iff v).mpr hv)), varint_of_lt hv,
          toNat_and_low v hw, Nat.mod_eq_of_lt hv]
      · have hshift : (v >>> 7).toNat < 128 ^ (rounds + 1) := by
          rw [toNat_shift_seven]
          rw [pow_succ] at h
          exact (Nat.div_lt_iff_lt_mul (by omega)).mpr h
        rw [if_pos (fun h0 => hv ((shift_seven_eq_zero_iff v).mp h0)), varint_of_le (by omega),
          toNat_and_low v hw, or_high_byte (Nat.mod_lt _ (by omega)), ih hshift, toNat_shift_seven]

theorem encodeVarintU32_eq (v : BitVec 32) : EncodeVarintU32 v = varint v.toNat :=
  encodeVarint_eq (by omega) (lt_trans v.isLt (by decide))

theorem encodeVarintU64_eq (v : BitVec 64) : EncodeVarintU64 v = varint v.toNat :=
  encodeVarint_eq (by omega) (lt_trans v.isLt (by decide))

theorem encodeVarintS32_eq (v : BitVec 32) :
    EncodeVarintS32 v = varint (v.signExtend 64).toNat := by
  rw [EncodeVarintS32]
  split
  · rename_i hnonneg
    rw [encodeVarintU32_eq, toNat_signExtend_of_nonneg hnonneg]
  · rw [encodeVarintU64_eq]

theorem shiftedBytes_eq {w : ℕ} (v : BitVec w) {shifts : List ℕ} {k : ℕ}
    (hshifts : shifts = (List.range k).map (8 * ·)) :
    shiftedBytes shifts v = littleEndian k v.toNat := by
  rw [littleEndian_eq_map, hshifts, shiftedBytes, List.map_map]
  apply List.map_congr_left
  intro i _
  have hpow : 2 ^ (8 * i) = 256 ^ i := pow_mul 2 8 i
  rw [Function.comp_apply, BitVec.toNat_ushiftRight, Nat.shiftRight_eq_div_pow, hpow]

/-- A fixed number is put down as the bytes it was read from. -/
theorem shiftedBytes_ofLittleEndian {w k : ℕ} {shifts : List ℕ} {bytes : List UInt8}
    (hshifts : shifts = (List.range k).map (8 * ·)) (hw : 8 * k = w) (hlen : bytes.length = k) :
    shiftedBytes shifts (BitVec.ofNat w (ofLittleEndian bytes)) = bytes := by
  have hlt := ofLittleEndian_lt bytes
  have hpow : 256 ^ k = 2 ^ w := by
    rw [← hw]
    exact (pow_mul 2 8 k).symm
  rw [hlen, hpow] at hlt
  rw [shiftedBytes_eq _ hshifts, BitVec.toNat_ofNat, Nat.mod_eq_of_lt hlt, ← hlen,
    littleEndian_ofLittleEndian]

/-- What follows an unknown tag, and the bytes that are kept of the field. -/
inductive UnknownWord (tag : BitVec 32) : List UInt8 → List UInt8 → Prop
  | varint {w : List UInt8} {n : BitVec 64} :
      GPBWireFormatGetTagWireType tag = some .varint → VarintWord w n →
      UnknownWord tag w (varint tag.toNat ++ varint n.toNat)
  | fixed64 {w : List UInt8} : GPBWireFormatGetTagWireType tag = some .fixed64 → w.length = 8 →
      UnknownWord tag w (varint tag.toNat ++ w)
  | lengthDelimited {w bytes : List UInt8} :
      GPBWireFormatGetTagWireType tag = some .lengthDelimited → DelimitedWord w bytes →
      UnknownWord tag w (varint tag.toNat ++ (varint bytes.length ++ bytes))
  | group {w : List UInt8} : GPBWireFormatGetTagWireType tag = some .startGroup →
      GroupWord 1 (endGroupTag tag) w → UnknownWord tag w (varint tag.toNat ++ w)
  | fixed32 {w : List UInt8} : GPBWireFormatGetTagWireType tag = some .fixed32 → w.length = 4 →
      UnknownWord tag w (varint tag.toNat ++ w)

/-- `EncodeVarintU64` of a length that was read before. -/
theorem encodeLength {bytes w : List UInt8} (h : DelimitedWord w bytes) :
    EncodeVarintU64 (BitVec.ofNat 64 bytes.length) = varint bytes.length := by
  rcases h with ⟨u, n, _, _, hn, hlen⟩
  rw [encodeVarintU64_eq, BitVec.toNat_ofNat, Nat.mod_eq_of_lt (by omega)]

theorem parseUnknownField_sound {self self' : GPBMessage descriptor} {tag : BitVec 32}
    {s s' : GPBCodedInputStreamState} (htag : ValidTag tag) (hs : Within (c.atDepth 0) s)
    (hrun : (ParseUnknownField self tag).run s = .ok (self', s')) :
    ∃ w kept, UnknownWord tag w kept ∧ self' = self.appendUnknown kept ∧
      (tape c).rest s = w ++ (tape c).rest s' ∧ Within (c.atDepth 0) s' := by
  rcases isValidTag_iff.mp htag.1 with ⟨wireType, hwire⟩
  simp only [ParseUnknownField, hwire] at hrun
  cases wireType with
  | varint =>
      rcases run_bind_ok.mp hrun with ⟨n, t, hread, hnext⟩
      cases hnext
      rcases reads_readRawVarint64.sound hs hread with ⟨w, hw, hsplit, hs'⟩
      refine ⟨w, _, .varint hwire hw, ?_, hsplit, hs'⟩
      rw [encodeVarintU32_eq, encodeVarintU64_eq]
  | fixed64 =>
      rcases run_bind_ok.mp hrun with ⟨n, t, hread, hnext⟩
      cases hnext
      rcases (reads_read .fixed64).sound hs hread with ⟨_, ⟨w, ⟨hlen, rfl⟩, rfl⟩, hsplit, hs'⟩
      refine ⟨w, _, .fixed64 hwire hlen, ?_, hsplit, hs'⟩
      rw [encodeVarintU32_eq, shiftedBytes_ofLittleEndian (by decide) rfl hlen]
  -- The bytes are the same, their length may have been spelt in a longer form.
  | lengthDelimited =>
      rcases run_bind_ok.mp hrun with ⟨bytes, t, hread, hnext⟩
      cases hnext
      rcases reads_readRetainedBytes.sound hs hread with ⟨w, hw, hsplit, hs'⟩
      refine ⟨w, _, .lengthDelimited hwire hw, ?_, hsplit, hs'⟩
      rw [encodeVarintU32_eq, encodeLength hw]
  | startGroup =>
      rcases run_bind_ok.mp hrun with ⟨bytes, t, hread, hnext⟩
      cases hnext
      rcases readGroup_sound hs hread with ⟨⟨_, hw⟩, hsplit, hs'⟩
      refine ⟨bytes, _, .group hwire hw, ?_, hsplit, hs'⟩
      rw [encodeVarintU32_eq]
  -- An end tag outside any group is refused.
  | endGroup => cases hrun
  | fixed32 =>
      rcases run_bind_ok.mp hrun with ⟨n, t, hread, hnext⟩
      cases hnext
      rcases (reads_read .fixed32).sound hs hread with ⟨_, ⟨w, ⟨hlen, rfl⟩, rfl⟩, hsplit, hs'⟩
      refine ⟨w, _, .fixed32 hwire hlen, ?_, hsplit, hs'⟩
      rw [encodeVarintU32_eq, shiftedBytes_ofLittleEndian (by decide) rfl hlen]

theorem parseUnknownField_complete {self : GPBMessage descriptor} {tag : BitVec 32}
    {s : GPBCodedInputStreamState} {w kept r : List UInt8} (hs : Within (c.atDepth 0) s)
    (hlast : s.lastTag = tag) (hw : UnknownWord tag w kept) (hr : (tape c).rest s = w ++ r) :
    ∃ s', (ParseUnknownField self tag).run s = .ok (self.appendUnknown kept, s') ∧
      (tape c).rest s' = r := by
  rw [ParseUnknownField]
  cases hw with
  | varint hwire hw =>
      rcases reads_readRawVarint64.complete hs hw hr with ⟨s', hread, hrest⟩
      simp only [hwire]
      refine ⟨s', run_bind_ok.mpr ⟨_, s', hread, ?_⟩, hrest⟩
      rw [encodeVarintU32_eq, encodeVarintU64_eq]
      rfl
  | fixed64 hwire hlen =>
      rcases (reads_read .fixed64).complete hs ⟨_, ⟨hlen, rfl⟩, rfl⟩ hr with ⟨s', hread, hrest⟩
      simp only [hwire]
      refine ⟨s', run_bind_ok.mpr ⟨_, s', hread, ?_⟩, hrest⟩
      rw [encodeVarintU32_eq, shiftedBytes_ofLittleEndian (by decide) rfl hlen]
      rfl
  | lengthDelimited hwire hw =>
      rcases reads_readRetainedBytes.complete hs hw hr with ⟨s', hread, hrest⟩
      simp only [hwire]
      refine ⟨s', run_bind_ok.mpr ⟨_, s', hread, ?_⟩, hrest⟩
      rw [encodeVarintU32_eq, encodeLength hw]
      rfl
  -- The start tag is the last one that was read, as the reader of groups checks.
  | group hwire hw =>
      rcases readGroup_complete hs hwire hlast (by decide) hw hr with ⟨s', hread, hrest⟩
      simp only [hwire]
      refine ⟨s', run_bind_ok.mpr ⟨_, s', hread, ?_⟩, hrest⟩
      rw [encodeVarintU32_eq]
      rfl
  | fixed32 hwire hlen =>
      rcases (reads_read .fixed32).complete hs ⟨_, ⟨hlen, rfl⟩, rfl⟩ hr with ⟨s', hread, hrest⟩
      simp only [hwire]
      refine ⟨s', run_bind_ok.mpr ⟨_, s', hread, ?_⟩, hrest⟩
      rw [encodeVarintU32_eq, shiftedBytes_ofLittleEndian (by decide) rfl hlen]
      rfl

/-! ## The search for a field -/

theorem findField_some {p : GPBFieldDescriptor → Bool} {rounds startingIndex next : ℕ}
    {i : Fin descriptor.count}
    (h : findField descriptor p rounds startingIndex = (some i, next)) :
    p (descriptor.fields i) = true := by
  induction rounds generalizing startingIndex with
  | zero => cases h
  | succ rounds ih =>
      simp only [findField] at h
      split at h
      · split at h
        · rename_i hfound
          cases h
          exact hfound
        · exact ih h
      · cases h

theorem wrapIndex_lt (hcount : 0 < descriptor.count) (startingIndex : ℕ) :
    wrapIndex descriptor startingIndex < descriptor.count := by
  rw [wrapIndex]
  split <;> omega

theorem wrapIndex_succ_add {index : ℕ} (h : index < descriptor.count) (j : ℕ) :
    (wrapIndex descriptor (index + 1) + j) % descriptor.count =
      (index + (j + 1)) % descriptor.count := by
  rw [wrapIndex]
  split
  · have hall : index + (j + 1) = j + descriptor.count := by omega
    rw [hall, Nat.add_mod_right, Nat.zero_add]
  · congr 1
    omega

/-- The rounds of a search that finds nothing look at the fields one after the other, and start over
behind the last one. -/
theorem findField_none {p : GPBFieldDescriptor → Bool} {rounds startingIndex next : ℕ}
    (h : findField descriptor p rounds startingIndex = (none, next)) {j : ℕ} (hj : j < rounds)
    {i : Fin descriptor.count}
    (hi : (wrapIndex descriptor startingIndex + j) % descriptor.count = i) :
    p (descriptor.fields i) = false := by
  have hlt := wrapIndex_lt (Fin.pos i) startingIndex
  induction rounds generalizing startingIndex j with
  | zero => omega
  | succ rounds ih =>
      simp only [findField, dif_pos hlt] at h
      split at h
      · cases h
      · rename_i hmiss
        cases j with
        -- The field looked at in this round is not `i`, or it would have been found.
        | zero =>
            have hhere : (⟨wrapIndex descriptor startingIndex, hlt⟩ : Fin descriptor.count) = i := by
              apply Fin.ext
              rw [← hi, Nat.add_zero, Nat.mod_eq_of_lt hlt]
            rw [← hhere]
            simpa using hmiss
        | succ j =>
            refine ih h (j := j) (by omega) ?_ (wrapIndex_lt (Fin.pos i) _)
            rw [wrapIndex_succ_add hlt, hi]

/-- A search that goes once around finds the only field it can find, wherever it starts. -/
theorem findField_eq {p : GPBFieldDescriptor → Bool} {i : Fin descriptor.count}
    (hfound : p (descriptor.fields i) = true)
    (honly : ∀ j, p (descriptor.fields j) = true → j = i) (startingIndex : ℕ) :
    ∃ next, findField descriptor p descriptor.count startingIndex = (some i, next) := by
  rcases hsearch : findField descriptor p descriptor.count startingIndex with ⟨result, next⟩
  cases result with
  | none =>
      have hwrap := wrapIndex_lt (Fin.pos i) startingIndex
      -- The distance from the start to `i`, once around, is less than a full search.
      have hreach : (wrapIndex descriptor startingIndex +
          (i + descriptor.count - wrapIndex descriptor startingIndex) % descriptor.count) %
            descriptor.count = i := by
        have hsum : wrapIndex descriptor startingIndex +
            (i + descriptor.count - wrapIndex descriptor startingIndex) = i + descriptor.count := by
          omega
        rw [Nat.add_mod_mod, hsum, Nat.add_mod_right, Nat.mod_eq_of_lt i.isLt]
      have hmiss := findField_none hsearch (Nat.mod_lt _ (Fin.pos i)) hreach
      rw [hfound] at hmiss
      cases hmiss
  | some j =>
      rw [honly j (findField_some hsearch)]
      exact ⟨next, rfl⟩

theorem findField_eq_none {p : GPBFieldDescriptor → Bool}
    (hnone : ∀ j, p (descriptor.fields j) = false) (rounds startingIndex : ℕ) :
    ∃ next, findField descriptor p rounds startingIndex = (none, next) := by
  rcases hsearch : findField descriptor p rounds startingIndex with ⟨result, next⟩
  cases result with
  | none => exact ⟨next, rfl⟩
  | some j =>
      have hfound := findField_some hsearch
      rw [hnone j] at hfound
      cases hfound

/-! ## Which field a tag belongs to -/

namespace GPBFieldDescriptor

/-- The tag of one value of the field. -/
def plainTag (field : GPBFieldDescriptor) : BitVec 32 :=
  GPBWireFormatMakeTag field.number (GPBWireFormatForType field.dataType false)

/-- The tag of many values of the field at once. -/
def packedTag (field : GPBFieldDescriptor) : BitVec 32 :=
  GPBWireFormatMakeTag field.number .lengthDelimited

def Packable (field : GPBFieldDescriptor) : Prop :=
  field.fieldType = .repeated ∧ GPBDataTypeIsObject field.dataType = false

theorem tag_of_not_packed {field : GPBFieldDescriptor} (h : field.packed = false) :
    field.tag = field.plainTag ∧ field.alternateTag = field.packedTag := by
  simp [tag, alternateTag, plainTag, packedTag, h, GPBWireFormatForType]

theorem tag_of_packed {field : GPBFieldDescriptor} (h : field.packed = true) :
    field.tag = field.packedTag ∧ field.alternateTag = field.plainTag := by
  simp [tag, alternateTag, plainTag, packedTag, h, GPBWireFormatForType]

end GPBFieldDescriptor

theorem number_eq_of_makeTag {i j : Fin descriptor.count} {a b : GPBWireFormat}
    (h : GPBWireFormatMakeTag (descriptor.fields i).number a =
      GPBWireFormatMakeTag (descriptor.fields j).number b) : i = j := by
  apply descriptor.number_injective
  have hnumber := congrArg GPBWireFormatGetTagFieldNumber h
  rwa [fieldNumber_makeTag (descriptor.wellFormed i).number_lt,
    fieldNumber_makeTag (descriptor.wellFormed j).number_lt] at hnumber

theorem plainTag_ne_packedTag {i : Fin descriptor.count}
    (h : GPBDataTypeIsObject (descriptor.fields i).dataType = false) :
    (descriptor.fields i).plainTag ≠ (descriptor.fields i).packedTag := by
  intro heq
  have hwire := congrArg GPBWireFormatGetTagWireType heq
  rw [GPBFieldDescriptor.plainTag, GPBFieldDescriptor.packedTag,
    wireType_makeTag (descriptor.wellFormed i).number_lt,
    wireType_makeTag (descriptor.wellFormed i).number_lt] at hwire
  revert h hwire
  cases (descriptor.fields i).dataType <;> simp [GPBDataTypeIsObject, GPBWireFormatForType]

/-- The field, if any, that takes a tag for one value. -/
def TakesPlain (i : Fin descriptor.count) (tag : BitVec 32) : Prop :=
  (descriptor.fields i).plainTag = tag

/-- The field, if any, that takes a tag for packed values. -/
def TakesPacked (i : Fin descriptor.count) (tag : BitVec 32) : Prop :=
  (descriptor.fields i).Packable ∧ (descriptor.fields i).packedTag = tag

theorem tag_eq_or (field : GPBFieldDescriptor) :
    field.tag = field.plainTag ∧ field.alternateTag = field.packedTag ∧ field.packed = false ∨
      field.tag = field.packedTag ∧ field.alternateTag = field.plainTag ∧ field.packed = true := by
  cases hpacked : field.packed with
  | false =>
      rcases GPBFieldDescriptor.tag_of_not_packed hpacked with ⟨htag, halternate⟩
      exact .inl ⟨htag, halternate, rfl⟩
  | true =>
      rcases GPBFieldDescriptor.tag_of_packed hpacked with ⟨htag, halternate⟩
      exact .inr ⟨htag, halternate, rfl⟩

/-- The tags of a field, in either form, belong to no other field. -/
theorem eq_of_tag {i j : Fin descriptor.count} {tag : BitVec 32}
    (hi : (descriptor.fields i).plainTag = tag ∨ (descriptor.fields i).packedTag = tag)
    (hj : (descriptor.fields j).tag = tag ∨ (descriptor.fields j).alternateTag = tag) : j = i := by
  have hj' : (descriptor.fields j).plainTag = tag ∨ (descriptor.fields j).packedTag = tag := by
    rcases tag_eq_or (descriptor.fields j) with ⟨htag, halternate, _⟩ | ⟨htag, halternate, _⟩
    · rwa [htag, halternate] at hj
    · rw [htag, halternate] at hj
      exact hj.symm
  rcases hj' with hj' | hj' <;> rcases hi with hi | hi <;>
    exact number_eq_of_makeTag (hj'.trans hi.symm)

/-- The field a tag belongs to in the preferred form. -/
theorem findField_tag {i : Fin descriptor.count} {tag : BitVec 32}
    (h : (descriptor.fields i).tag = tag) (startingIndex : ℕ) :
    ∃ next, findField descriptor (fun field => field.tag = tag) descriptor.count startingIndex =
      (some i, next) := by
  refine findField_eq (by simpa using h) ?_ startingIndex
  intro j hj
  have hj' : (descriptor.fields j).tag = tag := by simpa using hj
  refine eq_of_tag ?_ (Or.inl hj')
  rcases tag_eq_or (descriptor.fields i) with ⟨htag, _⟩ | ⟨htag, _⟩
  · exact .inl (htag ▸ h)
  · exact .inr (htag ▸ h)

/-- The field a tag belongs to in the other form, when it is not the preferred form of any field. -/
theorem findField_alternateTag {i : Fin descriptor.count} {tag : BitVec 32}
    (hpackable : (descriptor.fields i).Packable) (h : (descriptor.fields i).alternateTag = tag)
    (startingIndex : ℕ) :
    (∃ next, findField descriptor (fun field => field.tag = tag) descriptor.count startingIndex =
      (none, next)) ∧
    ∀ startingIndex, ∃ next, findField descriptor (fun field => field.fieldType = .repeated &&
      !GPBDataTypeIsObject field.dataType && field.alternateTag = tag) descriptor.count
        startingIndex = (some i, next) := by
  have hforms : (descriptor.fields i).plainTag = tag ∨ (descriptor.fields i).packedTag = tag := by
    rcases tag_eq_or (descriptor.fields i) with ⟨_, halternate, _⟩ | ⟨_, halternate, _⟩
    · exact .inr (halternate ▸ h)
    · exact .inl (halternate ▸ h)
  constructor
  · refine findField_eq_none ?_ _ startingIndex
    intro j
    by_contra hj
    have hj' : (descriptor.fields j).tag = tag := by simpa using hj
    have hji := eq_of_tag hforms (Or.inl hj')
    subst hji
    -- One tag cannot be both forms of a packable field.
    have hne := plainTag_ne_packedTag hpackable.2
    rcases tag_eq_or (descriptor.fields j) with ⟨htag, halternate, _⟩ | ⟨htag, halternate, _⟩
    · exact hne (htag ▸ halternate ▸ hj'.trans h.symm)
    · exact hne (htag ▸ halternate ▸ h.trans hj'.symm)
  · intro startingIndex
    refine findField_eq ?_ ?_ startingIndex
    · simp [hpackable.1, hpackable.2, h]
    · intro j hj
      have hj' : (descriptor.fields j).alternateTag = tag := by
        simp only [Bool.and_eq_true, decide_eq_true_eq] at hj
        exact hj.2
      exact eq_of_tag hforms (Or.inr hj')

theorem mergeField_plain {i : Fin descriptor.count} {tag : BitVec 32} (h : TakesPlain i tag)
    (self : GPBMessage descriptor) (startingIndex : ℕ) :
    ∃ next, mergeField self startingIndex tag =
      (mergeValue self i >>= fun self => pure (self, next)) := by
  rcases tag_eq_or (descriptor.fields i) with ⟨htag, _, hpacked⟩ | ⟨_, halternate, hpacked⟩
  · rcases findField_tag (htag.trans h) startingIndex with ⟨next, hfind⟩
    rw [mergeField, hfind]
    dsimp only
    -- The preferred form: the field is found in the first search.
    cases hkind : (descriptor.fields i).fieldType with
    | single => exact ⟨next + 1, rfl⟩
    | repeated =>
        rw [GPBFieldDescriptor.isPackable, hpacked]
        exact ⟨next, rfl⟩
  -- The other form of a packed field: found in the second search only.
  · have hpackable := (descriptor.wellFormed i).packed_repeated hpacked
    rcases findField_alternateTag hpackable (halternate.trans h) startingIndex
      with ⟨⟨middle, hmiss⟩, hfind⟩
    rcases hfind middle with ⟨next, hfind⟩
    rw [mergeField, hmiss]
    dsimp only
    rw [hfind]
    dsimp only
    rw [GPBFieldDescriptor.isPackable, hpacked]
    exact ⟨next, rfl⟩

theorem mergeField_packed {i : Fin descriptor.count} {tag : BitVec 32} (h : TakesPacked i tag)
    (self : GPBMessage descriptor) (startingIndex : ℕ) :
    ∃ next, mergeField self startingIndex tag =
      (MergeRepeatedPackedFieldFromCodedInputStream self i >>= fun self => pure (self, next)) := by
  rcases h with ⟨hpackable, h⟩
  rcases tag_eq_or (descriptor.fields i) with ⟨_, halternate, hpacked⟩ | ⟨htag, _, hpacked⟩
  · rcases findField_alternateTag hpackable (halternate.trans h) startingIndex
      with ⟨⟨middle, hmiss⟩, hfind⟩
    rcases hfind middle with ⟨next, hfind⟩
    rw [mergeField, hmiss]
    dsimp only
    rw [hfind]
    dsimp only
    rw [GPBFieldDescriptor.isPackable, hpacked]
    exact ⟨next + 1, rfl⟩
  · rcases findField_tag (htag.trans h) startingIndex with ⟨next, hfind⟩
    rw [mergeField, hfind]
    dsimp only
    rw [hpackable.1, GPBFieldDescriptor.isPackable, hpacked]
    exact ⟨next + 1, rfl⟩

theorem mergeField_unknown {tag : BitVec 32}
    (hplain : ∀ i : Fin descriptor.count, ¬TakesPlain i tag)
    (hpacked : ∀ i : Fin descriptor.count, ¬TakesPacked i tag)
    (self : GPBMessage descriptor) (startingIndex : ℕ) :
    ∃ next, mergeField self startingIndex tag =
      (ParseUnknownField self tag >>= fun self => pure (self, next)) := by
  -- Both searches go once around and find nothing.
  have hfirst : ∀ j, decide ((descriptor.fields j).tag = tag) = false := by
    intro j
    rw [decide_eq_false_iff_not]
    intro hj
    rcases tag_eq_or (descriptor.fields j) with ⟨htag, _⟩ | ⟨htag, _, hp⟩
    · exact hplain j (htag.symm.trans hj)
    · exact hpacked j ⟨(descriptor.wellFormed j).packed_repeated hp, htag.symm.trans hj⟩
  have hsecond : ∀ j, (decide ((descriptor.fields j).fieldType = .repeated) &&
      !GPBDataTypeIsObject (descriptor.fields j).dataType &&
        decide ((descriptor.fields j).alternateTag = tag)) = false := by
    intro j
    by_contra hj
    simp only [Bool.not_eq_false, Bool.and_eq_true, decide_eq_true_eq, Bool.not_eq_true'] at hj
    rcases tag_eq_or (descriptor.fields j) with ⟨_, halternate, _⟩ | ⟨_, halternate, _⟩
    · exact hpacked j ⟨hj.1, halternate.symm.trans hj.2⟩
    · exact hplain j (halternate.symm.trans hj.2)
  rcases findField_eq_none (p := fun field => field.tag = tag) hfirst descriptor.count
    startingIndex with ⟨middle, hmiss⟩
  rcases findField_eq_none (p := fun field => field.fieldType = .repeated &&
    !GPBDataTypeIsObject field.dataType && field.alternateTag = tag) hsecond descriptor.count
    middle with ⟨next, hmiss'⟩
  rw [mergeField, hmiss]
  dsimp only
  rw [hmiss']
  exact ⟨next, rfl⟩

/-! ## Values of a known field -/

/-- One value of a field, and the message it is stored in. -/
def ValueWord (i : Fin descriptor.count) (self : GPBMessage descriptor) (w : List UInt8)
    (self' : GPBMessage descriptor) : Prop :=
  ∃ val, (descriptor.fields i).dataType.Spells w val ∧ storeValue self i val = self'

theorem reads_mergeValue (self : GPBMessage descriptor) (i : Fin descriptor.count) :
    Reads (tape c) (mergeValue self i) (ValueWord i self) :=
  (reads_read _).map _

/-- A length, cast to `int32_t`, and values that take up as many bytes. -/
def PackedWord (i : Fin descriptor.count) (self : GPBMessage descriptor) (w : List UInt8)
    (self' : GPBMessage descriptor) : Prop :=
  ∃ u body n, w = u ++ body ∧ VarintWord u n ∧ (n.setWidth 32).toInt = body.length ∧
    Chain (ValueWord i) self body self'

theorem run_packedRound_some {i : Fin descriptor.count} {self : GPBMessage descriptor}
    {s : GPBCodedInputStreamState} (h : s.bufferPos ≠ s.currentLimit) :
    (packedRound i self).run s = (mergeValue self i >>= fun self => pure (some self)).run s := by
  have hne : (s.currentLimit : ℤ) - s.bufferPos ≠ 0 := by omega
  simp [packedRound, GPBCodedInputStreamBytesUntilLimit, hne]

theorem run_packedRound_none {i : Fin descriptor.count} {self : GPBMessage descriptor}
    {s : GPBCodedInputStreamState} (h : s.bufferPos = s.currentLimit) :
    (packedRound i self).run s = .ok (none, s) := by
  simp [packedRound, GPBCodedInputStreamBytesUntilLimit, h]
  rfl

theorem advances_packedRound (i : Fin descriptor.count) :
    Advances (tape c) (packedRound i) id
      (fun self : GPBMessage descriptor => ValueWord i self) where
  nonempty := by
    rintro self w self' ⟨val, hw, _⟩
    exact Spells.ne_nil hw
  -- A packed field ends exactly at its limit.
  finish := by
    intro self s hs hrest
    have hend : s.bufferPos = s.currentLimit := by
      rw [hs.limit]
      exact (rest_eq_nil_iff hs).mp hrest
    exact ⟨s, run_packedRound_none hend, hrest, hs⟩
  sound := by
    intro self s o s' hs hrest hrun
    have hmore : s.bufferPos ≠ s.currentLimit := by
      rw [hs.limit]
      exact fun hend => hrest ((rest_eq_nil_iff hs).mpr hend)
    rw [run_packedRound_some hmore] at hrun
    rcases run_bind_ok.mp hrun with ⟨self', t, hread, hnext⟩
    cases hnext
    rcases (reads_mergeValue self i).sound hs hread with ⟨w, hw, hsplit, hs'⟩
    exact ⟨self', w, rfl, hw, hsplit, hs'⟩
  complete := by
    intro self s w self' r hs hw hr
    rcases hw with ⟨val, hspells, hstore⟩
    have hmore : s.bufferPos ≠ s.currentLimit := by
      rw [hs.limit]
      intro hend
      have hnil := (rest_eq_nil_iff hs).mpr hend
      rw [hr] at hnil
      exact Spells.ne_nil hspells (List.append_eq_nil_iff.mp hnil).1
    rcases (reads_mergeValue self i).complete hs ⟨val, hspells, hstore⟩ hr with ⟨s', hread, hrest⟩
    refine ⟨self', s', ?_, rfl, hrest⟩
    rw [run_packedRound_some hmore]
    exact run_bind_ok.mpr ⟨self', s', hread, rfl⟩

/-! ## Packed values

A negative length moves the limit back before the position, where every read fails. -/

theorem run_bind_error {α γ : Type} {f : Read α} {g : α → Read γ} {s : GPBCodedInputStreamState}
    {e : StreamError} (h : f.run s = .error e) : (f >>= g).run s = .error e := by
  rw [StateT.run_bind, h]
  rfl

theorem checkSize_beyond {s : GPBCodedInputStreamState} (h : s.currentLimit < s.bufferPos)
    (size : ℕ) : ∃ e, (CheckSize size).run s = .error e := by
  cases hcheck : (CheckSize size).run s with
  | error e => exact ⟨e, rfl⟩
  | ok p =>
      rcases p with ⟨⟨⟩, t⟩
      rcases checkSize_ok hcheck with ⟨_, _, hlimit⟩
      omega

theorem read_beyond {s : GPBCodedInputStreamState} (h : s.currentLimit < s.bufferPos)
    (type : GPBDataType) : ∃ e, type.read.run s = .error e := by
  have hbyte : ∃ e, ReadRawByte.run s = .error e := by
    rcases checkSize_beyond h 1 with ⟨e, he⟩
    exact ⟨e, run_bind_error he⟩
  have hdata : ∀ n, ∃ e, (ReadRawData n).run s = .error e := by
    intro n
    rcases checkSize_beyond h n with ⟨e, he⟩
    exact ⟨e, run_bind_error he⟩
  have hvarint : ∃ e, ReadRawVarint64.run s = .error e := by
    rcases hbyte with ⟨e, he⟩
    exact ⟨e, run_bind_error he⟩
  rcases hvarint with ⟨e, he⟩
  -- Whatever the type, the first thing a reader does is to check for a byte.
  cases type with
  | int64 | uInt64 => exact ⟨e, he⟩
  | sInt32 => exact ⟨e, run_bind_error (run_bind_error he)⟩
  | bool | int32 | uInt32 | enum | sInt64 | bytes | string => exact ⟨e, run_bind_error he⟩
  | fixed32 | sFixed32 | float =>
      rcases hdata 4 with ⟨e, he⟩
      exact ⟨e, run_bind_error he⟩
  | fixed64 | sFixed64 | double =>
      rcases hdata 8 with ⟨e, he⟩
      exact ⟨e, run_bind_error he⟩

theorem loop_beyond {s : GPBCodedInputStreamState} (h : s.currentLimit < s.bufferPos)
    (i : Fin descriptor.count) (self : GPBMessage descriptor) (rounds : ℕ) :
    ∃ e, (loop tooManyRounds (packedRound i) rounds self).run s = .error e := by
  cases rounds with
  | zero => exact ⟨_, rfl⟩
  | succ rounds =>
      rcases read_beyond h (descriptor.fields i).dataType with ⟨e, he⟩
      have hround : (packedRound i self).run s = .error e := by
        rw [run_packedRound_some (by omega)]
        exact run_bind_error (run_bind_error he)
      exact ⟨e, run_bind_error hround⟩

theorem run_pushLimit {s : GPBCodedInputStreamState} {byteLimit : ℤ}
    (hpos : 0 ≤ byteLimit + s.bufferPos) (hlimit : byteLimit + s.bufferPos ≤ s.currentLimit) :
    (GPBCodedInputStreamPushLimit byteLimit).run s =
      .ok (s.currentLimit, { s with currentLimit := (byteLimit + s.bufferPos).toNat }) := by
  simp [GPBCodedInputStreamPushLimit, not_lt.mpr hpos, not_lt.mpr hlimit]
  rfl

theorem pushLimit_ok {s s' : GPBCodedInputStreamState} {byteLimit : ℤ} {oldLimit : ℕ}
    (h : (GPBCodedInputStreamPushLimit byteLimit).run s = .ok (oldLimit, s')) :
    0 ≤ byteLimit + s.bufferPos ∧ byteLimit + s.bufferPos ≤ s.currentLimit ∧
      oldLimit = s.currentLimit ∧
      s' = { s with currentLimit := (byteLimit + s.bufferPos).toNat } := by
  by_cases hok : 0 ≤ byteLimit + s.bufferPos ∧ byteLimit + s.bufferPos ≤ s.currentLimit
  · rw [run_pushLimit hok.1 hok.2] at h
    cases h
    exact ⟨hok.1, hok.2, rfl, rfl⟩
  · have hbad : byteLimit + s.bufferPos < 0 ∨ (s.currentLimit : ℤ) < byteLimit + s.bufferPos := by
      omega
    simp [GPBCodedInputStreamPushLimit, hbad, GPBRaiseStreamError] at h
    cases h

/-- The frame of the bytes of a packed field. -/
def Frame.limited (c : Frame) (limit : ℕ) : Frame :=
  { c with limit := limit }

/-- What is left splits at a limit into the part before it and the part behind it. -/
theorem rest_limited {s : GPBCodedInputStreamState} {n : ℕ} (hs : Within c s)
    (hfit : s.bufferPos + n ≤ c.limit) :
    (tape c).rest s =
      (tape (c.limited (s.bufferPos + n))).rest { s with currentLimit := s.bufferPos + n } ++
        (tape c).rest { s with bufferPos := s.bufferPos + n } := by
  have hhead : (s.bytes.take (s.bufferPos + n)).drop s.bufferPos =
      (s.bytes.drop s.bufferPos).take n := by
    rw [List.drop_take, Nat.add_sub_cancel_left]
  have hsplit : (tape c).rest s = (s.bytes.drop s.bufferPos).take n ++
      (tape c).rest { s with bufferPos := s.bufferPos + n } := rest_split (hs.limit ▸ hfit)
  rw [← hhead] at hsplit
  exact hsplit

theorem within_limited {s : GPBCodedInputStreamState} {n : ℕ} (hs : Within c s)
    (hfit : s.bufferPos + n ≤ c.limit) :
    Within (c.limited (s.bufferPos + n)) { s with currentLimit := s.bufferPos + n } :=
  ⟨hs.bytes, rfl, hs.depth, Nat.le_add_right _ _, hfit.trans hs.limit_le⟩

/-- After the values the limit is put back. -/
theorem within_popLimit {s t : GPBCodedInputStreamState} {n : ℕ} (hs : Within c s)
    (hfit : s.bufferPos + n ≤ c.limit) (ht : Within (c.limited (s.bufferPos + n)) t)
    (hrest : (tape (c.limited (s.bufferPos + n))).rest t = []) :
    Within c { t with currentLimit := s.currentLimit } ∧
      (tape c).rest { t with currentLimit := s.currentLimit } =
        (tape c).rest { s with bufferPos := s.bufferPos + n } := by
  have hend : t.bufferPos = s.bufferPos + n := (rest_eq_nil_iff ht).mp hrest
  refine ⟨⟨ht.bytes, hs.limit, ht.depth, hend ▸ hfit, hs.limit_le⟩, ?_⟩
  have hbytes : t.bytes = s.bytes := ht.bytes.trans hs.bytes.symm
  simp [tape, hend, hbytes]

theorem reads_mergePacked (self : GPBMessage descriptor) (i : Fin descriptor.count) :
    Reads (tape c) (MergeRepeatedPackedFieldFromCodedInputStream self i) (PackedWord i self) where
  sound := by
    intro s self' s' hs hrun
    rcases run_bind_ok.mp hrun with ⟨length, t, hlength, hnext⟩
    rcases reads_readRawVarint32.sound hs hlength with ⟨u, ⟨n, hu, hn⟩, hsplit, ht⟩
    rcases run_bind_ok.mp hnext with ⟨limit, t₁, hpush, hnext⟩
    rcases pushLimit_ok hpush with ⟨_, hlimit, rfl, rfl⟩
    rcases run_bind_ok.mp hnext with ⟨_, _, hget, hnext⟩
    cases hget
    rcases run_bind_ok.mp hnext with ⟨self₁, t₂, hloop, hnext⟩
    rcases run_bind_ok.mp hnext with ⟨⟨⟩, t₃, hpop, hlast⟩
    cases hpop
    cases hlast
    -- A negative length would have failed in the loop.
    have hnonneg : 0 ≤ length.toInt := by
      by_contra hneg
      have hbefore : (length.toInt + t.bufferPos).toNat < t.bufferPos := by omega
      rcases loop_beyond (s := { t with currentLimit := (length.toInt + t.bufferPos).toNat })
        hbefore i self _ with ⟨e, he⟩
      rw [he] at hloop
      cases hloop
    obtain ⟨k, hk⟩ : ∃ k : ℕ, length.toInt = k := ⟨length.toInt.toNat, by omega⟩
    have hend : (length.toInt + t.bufferPos).toNat = t.bufferPos + k := by omega
    have hfit : t.bufferPos + k ≤ c.limit := by
      rw [← ht.limit]
      omega
    rw [hend] at hloop
    rcases (advances_packedRound i).loop_sound (within_limited ht hfit) hloop
      with ⟨hchain, hrest, ht₂⟩
    -- The values end at the limit, where the old one is put back.
    rcases within_popLimit ht hfit ht₂ hrest with ⟨hs', hrest'⟩
    refine ⟨_, ⟨u, _, n, rfl, hu, ?_, hchain⟩, ?_, hs'⟩
    · rw [hn, hk, length_rest (within_limited ht hfit)]
      simp [Frame.limited]
    · rw [hrest', hsplit, rest_limited ht hfit, List.append_assoc]
  complete := by
    rintro s w self' r hs ⟨u, body, n, rfl, hu, hn, hchain⟩ hr
    rw [List.append_assoc] at hr
    rcases reads_readRawVarint32.reads hs ⟨n, hu, rfl⟩ hr with ⟨t, hlength, hrest, ht⟩
    have hfit : t.bufferPos + body.length ≤ c.limit := by
      have hlen := length_rest ht
      rw [hrest, List.length_append] at hlen
      have := ht.pos_le
      omega
    have hsplit := (hrest.symm.trans (rest_limited ht hfit))
    -- The values are what is left before the new limit.
    have hbody : body.length = ((tape (c.limited (t.bufferPos + body.length))).rest
        { t with currentLimit := t.bufferPos + body.length }).length := by
      rw [length_rest (within_limited ht hfit)]
      simp [Frame.limited]
    rcases List.append_inj hsplit hbody with ⟨hinside, houtside⟩
    have hrounds := length_rest_lt (within_limited ht hfit)
    rcases (advances_packedRound i).loop_complete (e := tooManyRounds) (t := self)
      (within_limited ht hfit) hrounds (hinside ▸ hchain) with ⟨self₁, t₂, hloop, hview, hempty, ht₂⟩
    cases hview
    rcases within_popLimit ht hfit ht₂ hempty with ⟨_, hrest'⟩
    have hlimit : (n.setWidth 32).toInt + t.bufferPos ≤ t.currentLimit := by
      rw [hn, ht.limit]
      omega
    have hend : ((n.setWidth 32).toInt + t.bufferPos).toNat = t.bufferPos + body.length := by
      rw [hn]
      omega
    have hpush := run_pushLimit (by omega) hlimit
    rw [hend] at hpush
    refine ⟨_, run_bind_ok.mpr ⟨_, t, hlength, run_bind_ok.mpr ⟨_, _, hpush, ?_⟩⟩,
      hrest'.trans houtside.symm⟩
    exact run_bind_ok.mpr ⟨_, _, rfl, run_bind_ok.mpr ⟨_, t₂, hloop,
      run_bind_ok.mpr ⟨(), _, rfl, rfl⟩⟩⟩

/-! ## Records -/

/-- What follows a tag, and the message it makes of a message. -/
inductive Payload (tag : BitVec 32) :
    GPBMessage descriptor → List UInt8 → GPBMessage descriptor → Prop
  | plain {i : Fin descriptor.count} {self self' : GPBMessage descriptor} {w : List UInt8} :
      TakesPlain i tag → ValueWord i self w self' → Payload tag self w self'
  | packed {i : Fin descriptor.count} {self self' : GPBMessage descriptor} {w : List UInt8} :
      TakesPacked i tag → PackedWord i self w self' → Payload tag self w self'
  | unknown {self : GPBMessage descriptor} {w kept : List UInt8} :
      (∀ i : Fin descriptor.count, ¬TakesPlain i tag) →
      (∀ i : Fin descriptor.count, ¬TakesPacked i tag) → UnknownWord tag w kept →
      Payload tag self w (self.appendUnknown kept)

/-- A tag and what follows it. -/
def RecordWord (self : GPBMessage descriptor) (w : List UInt8) (self' : GPBMessage descriptor) :
    Prop :=
  ∃ tag u v, w = u ++ v ∧ TagWord u tag ∧ Payload tag self v self'

theorem mergeField_sound {self self' : GPBMessage descriptor} {startingIndex next : ℕ}
    {tag : BitVec 32} {s s' : GPBCodedInputStreamState} (htag : ValidTag tag)
    (hs : Within (c.atDepth 0) s)
    (hrun : (mergeField self startingIndex tag).run s = .ok ((self', next), s')) :
    ∃ w, Payload tag self w self' ∧ (tape c).rest s = w ++ (tape c).rest s' ∧
      Within (c.atDepth 0) s' := by
  -- A tag belongs to one field in one form, or is unknown.
  by_cases hplain : ∃ i : Fin descriptor.count, TakesPlain i tag
  · rcases hplain with ⟨i, hi⟩
    rcases mergeField_plain hi self startingIndex with ⟨_, hfield⟩
    rw [hfield] at hrun
    rcases run_bind_ok.mp hrun with ⟨_, t, hvalue, hlast⟩
    cases hlast
    rcases (reads_mergeValue self i).sound hs hvalue with ⟨w, hw, hsplit, hs'⟩
    exact ⟨w, .plain hi hw, hsplit, hs'⟩
  · by_cases hpacked : ∃ i : Fin descriptor.count, TakesPacked i tag
    · rcases hpacked with ⟨i, hi⟩
      rcases mergeField_packed hi self startingIndex with ⟨_, hfield⟩
      rw [hfield] at hrun
      rcases run_bind_ok.mp hrun with ⟨_, t, hvalue, hlast⟩
      cases hlast
      rcases (reads_mergePacked self i).sound hs hvalue with ⟨w, hw, hsplit, hs'⟩
      exact ⟨w, .packed hi hw, hsplit, hs'⟩
    · rw [not_exists] at hplain hpacked
      rcases mergeField_unknown hplain hpacked self startingIndex with ⟨_, hfield⟩
      rw [hfield] at hrun
      rcases run_bind_ok.mp hrun with ⟨_, t, hvalue, hlast⟩
      cases hlast
      rcases parseUnknownField_sound htag hs hvalue with ⟨w, kept, hw, rfl, hsplit, hs'⟩
      exact ⟨w, .unknown hplain hpacked hw, hsplit, hs'⟩

theorem mergeField_complete {self self' : GPBMessage descriptor} (startingIndex : ℕ)
    {tag : BitVec 32} {s : GPBCodedInputStreamState} {w r : List UInt8}
    (hs : Within (c.atDepth 0) s) (hlast : s.lastTag = tag) (hw : Payload tag self w self')
    (hr : (tape c).rest s = w ++ r) :
    ∃ next s', (mergeField self startingIndex tag).run s = .ok ((self', next), s') ∧
      (tape c).rest s' = r := by
  cases hw with
  | @plain i self self' w hi hw =>
      rcases mergeField_plain hi self startingIndex with ⟨next, hfield⟩
      rcases (reads_mergeValue self i).complete hs hw hr with ⟨s', hvalue, hrest⟩
      rw [hfield]
      exact ⟨next, s', run_bind_ok.mpr ⟨self', s', hvalue, rfl⟩, hrest⟩
  | @packed i self self' w hi hw =>
      rcases mergeField_packed hi self startingIndex with ⟨next, hfield⟩
      rcases (reads_mergePacked self i).complete hs hw hr with ⟨s', hvalue, hrest⟩
      rw [hfield]
      exact ⟨next, s', run_bind_ok.mpr ⟨self', s', hvalue, rfl⟩, hrest⟩
  | unknown hplain hpacked hw =>
      rcases mergeField_unknown hplain hpacked self startingIndex with ⟨next, hfield⟩
      rcases parseUnknownField_complete hs hlast hw hr with ⟨s', hvalue, hrest⟩
      rw [hfield]
      exact ⟨next, s', run_bind_ok.mpr ⟨_, s', hvalue, rfl⟩, hrest⟩

theorem advances_mergeRound :
    Advances (tape (c.atDepth 0)) (fun t : GPBMessage descriptor × ℕ => mergeRound 0 t) Prod.fst
      RecordWord where
  nonempty := by
    rintro self w self' ⟨tag, u, v, rfl, hu, _⟩
    exact List.append_ne_nil_of_left_ne_nil hu.ne_nil v
  finish := by
    rintro ⟨self, startingIndex⟩ s hs hrest
    -- At the end the tag is zero, which is the ending tag of a message.
    refine ⟨{ s with lastTag := 0 }, ?_, hrest, hs.bytes, hs.limit, hs.depth, hs.pos_le, hs.limit_le⟩
    refine run_bind_ok.mpr ⟨0, _, run_readTag_end hs hrest, ?_⟩
    rw [if_pos (Or.inl rfl)]
    exact run_bind_ok.mpr ⟨(), _, run_checkLastTagWas rfl, rfl⟩
  sound := by
    rintro ⟨self, startingIndex⟩ s o s' hs hrest hrun
    rcases run_bind_ok.mp hrun with ⟨tag, t, htag, hnext⟩
    rcases readTag_sound hs hrest htag with ⟨u, hu, hsplit, ht, _⟩
    rw [if_neg (not_or.mpr ⟨hu.2.ne_zero, hu.2.ne_zero⟩)] at hnext
    rcases run_bind_ok.mp hnext with ⟨⟨self', next⟩, t', hfield, hlast⟩
    cases hlast
    rcases mergeField_sound hu.2 ht hfield with ⟨v, hv, hsplit', hs'⟩
    refine ⟨(self', next), u ++ v, rfl, ⟨tag, u, v, rfl, hu, hv⟩, ?_, hs'⟩
    rw [hsplit, List.append_assoc]
    exact congrArg (u ++ ·) hsplit'
  complete := by
    rintro ⟨self, startingIndex⟩ s w self' r hs ⟨tag, u, v, rfl, hu, hv⟩ hr
    rw [List.append_assoc] at hr
    rcases readTag_complete hs hu hr with ⟨t, htag, hrest, ht, hlast⟩
    rcases mergeField_complete startingIndex ht hlast hv hrest with ⟨next, s', hfield, hrest'⟩
    refine ⟨(self', next), s', run_bind_ok.mpr ⟨tag, t, htag, ?_⟩, rfl, hrest'⟩
    rw [if_neg (not_or.mpr ⟨hu.2.ne_zero, hu.2.ne_zero⟩)]
    exact run_bind_ok.mpr ⟨_, s', hfield, rfl⟩

/-- With more rounds than there are bytes the bound does not show, whatever stands for it. -/
theorem mergeRounds_suffice {s : GPBCodedInputStreamState} (hs : Within (c.atDepth 0) s)
    (t : GPBMessage descriptor × ℕ) {e : StreamError} {rounds : ℕ} (h : s.bytes.length < rounds) :
    (loop e (mergeRound 0) rounds t).run s =
      (loop tooManyRounds (mergeRound 0) (s.bytes.length + 1) t).run s :=
  advances_mergeRound.loop_fuel hs (lt_of_lt_of_le (length_rest_lt hs) h) (length_rest_lt hs)

theorem packedRounds_suffice {s : GPBCodedInputStreamState} (hs : Within c s)
    (i : Fin descriptor.count) (self : GPBMessage descriptor) {e : StreamError} {rounds : ℕ}
    (h : s.bytes.length < rounds) :
    (loop e (packedRound i) rounds self).run s =
      (loop tooManyRounds (packedRound i) (s.bytes.length + 1) self).run s :=
  (advances_packedRound i).loop_fuel hs (lt_of_lt_of_le (length_rest_lt hs) h) (length_rest_lt hs)

theorem loop_lastTag {endingTag : BitVec 32} {fuel : ℕ} {t t' : GPBMessage descriptor × ℕ}
    {s s' : GPBCodedInputStreamState}
    (h : (loop tooManyRounds (mergeRound endingTag) fuel t).run s = .ok (t', s')) :
    s'.lastTag = endingTag := by
  induction fuel generalizing t s with
  | zero => cases h
  | succ fuel ih =>
      rw [loop] at h
      rcases run_bind_ok.mp h with ⟨o, u, hround, hnext⟩
      -- The loop was left through the check of the last tag.
      cases o with
      | some t₁ => exact ih hnext
      | none =>
          cases hnext
          rcases t' with ⟨self, startingIndex⟩
          rcases run_bind_ok.mp hround with ⟨tag, v, _, htest⟩
          split at htest
          · rcases run_bind_ok.mp htest with ⟨⟨⟩, v', hcheck, hlast⟩
            cases hlast
            rcases checkLastTagWas_ok hcheck with ⟨rfl, hlast⟩
            exact hlast
          · rcases run_bind_ok.mp htest with ⟨_, _, _, hlast⟩
            cases hlast

theorem run'_ok {α : Type} {f : Read α} {s : GPBCodedInputStreamState} {a : α} :
    f.run' s = .ok a ↔ ∃ s', f.run s = .ok (a, s') := by
  change Prod.fst <$> f.run s = .ok a ↔ _
  cases f.run s with
  | error e =>
      constructor
      · intro h
        cases h
      · rintro ⟨s', h⟩
        cases h
  | ok p =>
      constructor
      · intro h
        cases h
        exact ⟨p.2, rfl⟩
      · rintro ⟨s', h⟩
        cases h
        rfl

/-- A message takes exactly the chains of records, and becomes what they make of it. -/
theorem mergeFromData_ok_iff {self self' : GPBMessage descriptor} {data : List UInt8} :
    mergeFromData self data = .ok self' ↔ Chain RecordWord self data self' := by
  have hs : Within (Frame.atDepth ⟨data, data.length, 0⟩ 0) (.initWithData data) :=
    within_initWithData data
  have hrest : (tape (Frame.atDepth ⟨data, data.length, 0⟩ 0)).rest (.initWithData data) = data :=
    rest_initWithData data
  rw [mergeFromData, run'_ok]
  constructor
  · rintro ⟨s', hrun⟩
    rcases run_bind_ok.mp hrun with ⟨self₁, t, hmerge, hnext⟩
    rcases run_bind_ok.mp hnext with ⟨⟨⟩, t', _, hlast⟩
    cases hlast
    rcases run_bind_ok.mp hmerge with ⟨_, _, hget, hmerge⟩
    cases hget
    rcases run_bind_ok.mp hmerge with ⟨⟨_, index⟩, t'', hloop, hlast⟩
    cases hlast
    have hchain := (advances_mergeRound.loop_sound hs hloop).1
    rwa [hrest] at hchain
  · intro h
    have hchain : Chain RecordWord (Prod.fst (self, 0))
        ((tape (Frame.atDepth ⟨data, data.length, 0⟩ 0)).rest (.initWithData data)) self' := by
      rwa [hrest]
    -- There are enough rounds: each record has at least one byte.
    rcases advances_mergeRound.loop_complete (e := tooManyRounds) (t := (self, 0)) hs
      (length_rest_lt hs) hchain with ⟨⟨self₁, index⟩, s', hloop, hview, _⟩
    cases hview
    refine ⟨s', run_bind_ok.mpr ⟨self₁, s', ?_, run_bind_ok.mpr ⟨(), s', ?_, rfl⟩⟩⟩
    · exact run_bind_ok.mpr ⟨_, _, rfl, run_bind_ok.mpr ⟨_, s', hloop, rfl⟩⟩
    · exact run_checkLastTagWas (loop_lastTag hloop)

end Protobuf
end KmpApp
