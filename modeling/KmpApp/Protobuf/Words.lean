import KmpApp.Protobuf.CodedOutput

/-!
# Words — the bytes of a value

`GPBDataType.word` is the list of bytes a value is written as: the shortest varint, a little-endian
number, or a length and the bytes themselves.  The writers emit these words and the size functions
give their lengths.
-/

namespace KmpApp
namespace Protobuf

open Codec

variable {before : Option NSOutputStream}

/-! ## Bits of a machine word -/

section Bits

variable {w : ℕ} (v : BitVec w)

theorem and_mask_eq_zero_iff (k : ℕ) : v &&& (BitVec.allOnes w <<< k) = 0 ↔ v.toNat < 2 ^ k := by
  constructor
  · intro h
    apply Nat.lt_pow_two_of_testBit
    intro i hi
    have hbit := congrArg (fun x => x.getLsbD i) h
    -- A bit inside the word is masked; those beyond it are not there.
    by_cases hw : i < w
    · simpa [hw, Nat.not_lt.mpr hi, BitVec.getLsbD, show i - k < w by omega] using hbit
    · exact Nat.testBit_lt_two_pow
        (lt_of_lt_of_le v.isLt (Nat.pow_le_pow_right (by omega) (by omega)))
  · intro h
    apply BitVec.eq_of_getLsbD_eq
    intro i hi
    by_cases hk : i < k
    · simp [hk]
    · have hhigh : v.getLsbD i = false :=
        Nat.testBit_lt_two_pow
          (lt_of_lt_of_le h (Nat.pow_le_pow_right (by omega) (by omega)))
      simp [hhigh]

theorem and_mask_groups (k : ℕ) :
    v &&& (BitVec.allOnes w <<< (7 * k)) = 0 ↔ v.toNat < 128 ^ k := by
  have hpow : 2 ^ (7 * k) = 128 ^ k := pow_mul 2 7 k
  rw [and_mask_eq_zero_iff, hpow]

theorem toNat_of_lt {n : ℕ} (hw : 8 ≤ w) (hn : n < 256) : (BitVec.ofNat w n).toNat = n := by
  have hpow : 2 ^ 8 ≤ 2 ^ w := Nat.pow_le_pow_right (by omega) hw
  rw [BitVec.toNat_ofNat]
  exact Nat.mod_eq_of_lt (by omega)

theorem not_low_eq_mask (hw : 8 ≤ w) : ~~~(0x7F : BitVec w) = BitVec.allOnes w <<< 7 := by
  apply BitVec.eq_of_getLsbD_eq
  intro i hi
  have hlow : (0x7F : BitVec w).getLsbD i = decide (i < 7) := by
    change (BitVec.ofNat w 0x7F).toNat.testBit i = _
    rw [toNat_of_lt hw (by omega)]
    exact Nat.testBit_two_pow_sub_one 7 i
  rw [BitVec.getLsbD_not, hlow]
  by_cases h7 : i < 7
  · simp [hi, h7]
  · simp [hi, h7]

theorem and_not_low_eq_zero_iff (hw : 8 ≤ w) : v &&& ~~~0x7F = 0 ↔ v.toNat < 128 := by
  rw [not_low_eq_mask hw]
  exact and_mask_eq_zero_iff v 7

theorem toNat_and_low (hw : 8 ≤ w) : (v &&& 0x7F).toNat = v.toNat % 128 := by
  have hlow : (0x7F : BitVec w).toNat = 2 ^ 7 - 1 := toNat_of_lt hw (by decide)
  rw [BitVec.toNat_and, hlow]
  exact Nat.and_two_pow_sub_one_eq_mod _ 7

theorem toNat_or_high (hw : 8 ≤ w) : ((v &&& 0x7F) ||| 0x80).toNat = v.toNat % 128 + 128 := by
  have hhigh : (0x80 : BitVec w).toNat = 2 ^ 7 * 1 := toNat_of_lt hw (by decide)
  have hlt : v.toNat % 128 < 2 ^ 7 := Nat.mod_lt _ (by omega)
  rw [BitVec.toNat_or, toNat_and_low v hw, hhigh, Nat.or_comm, ← Nat.two_pow_add_eq_or_of_lt hlt]
  omega

theorem toNat_shift_seven : (v >>> 7).toNat = v.toNat / 128 := by
  rw [BitVec.toNat_ushiftRight, Nat.shiftRight_eq_div_pow]

/-- A byte cut out of a word, by an arithmetic shift or by a logical one. -/
theorem ofNat_sshiftRight {k : ℕ} (hk : k + 8 ≤ w) :
    UInt8.ofNat (v.sshiftRight k &&& 0xFF).toNat = UInt8.ofNat (v.toNat / 2 ^ k) := by
  have hlogical : v.sshiftRight k &&& 0xFF = v >>> k &&& 0xFF := by
    apply BitVec.eq_of_getLsbD_eq
    intro i hi
    have hbyte : (0xFF : BitVec w).getLsbD i = decide (i < 8) := by
      change (BitVec.ofNat w 0xFF).toNat.testBit i = _
      rw [toNat_of_lt (by omega) (by omega)]
      exact Nat.testBit_two_pow_sub_one 8 i
    rw [BitVec.getLsbD_and, BitVec.getLsbD_and, hbyte]
    -- The shifts differ only in the bits they bring in at the top, which the mask drops.
    by_cases h8 : i < 8
    · have hin : k + i < w := by omega
      rw [BitVec.getLsbD_sshiftRight, BitVec.getLsbD_ushiftRight, if_pos hin]
      simp [Nat.not_le.mpr hi]
    · simp [h8]
  have hbyte : (0xFF : BitVec w).toNat = 2 ^ 8 - 1 := toNat_of_lt (by omega) (by decide)
  apply UInt8.toNat_inj.mp
  rw [hlogical, BitVec.toNat_and, hbyte, Nat.and_two_pow_sub_one_eq_mod, BitVec.toNat_ushiftRight,
    Nat.shiftRight_eq_div_pow, UInt8.toNat_ofNat', UInt8.toNat_ofNat', Nat.mod_mod]

end Bits

/-! ## Numbers -/

theorem emits_writeRawVarint {w : ℕ} (hw : 8 ≤ w) {rounds : ℕ} {v : BitVec w}
    (h : v.toNat < 128 ^ (rounds + 1)) :
    Emits (sink before) (GPBWriteRawVarint (rounds + 1) v) (varint v.toNat) := by
  -- As the loop: the last group, or one with the high bit and the rest shifted down.
  induction rounds generalizing v with
  | zero =>
      have hlast : v.toNat < 128 := by simpa using h
      rw [GPBWriteRawVarint, if_pos ((and_not_low_eq_zero_iff v hw).mpr hlast), varint_of_lt hlast]
      exact emits_writeRawByte _
  | succ rounds ih =>
      rw [GPBWriteRawVarint]
      by_cases hlast : v.toNat < 128
      · rw [if_pos ((and_not_low_eq_zero_iff v hw).mpr hlast), varint_of_lt hlast]
        exact emits_writeRawByte _
      · rw [if_neg (fun h0 => hlast ((and_not_low_eq_zero_iff v hw).mp h0)),
          varint_of_le (by omega), ← toNat_or_high v hw, ← toNat_shift_seven v]
        refine (emits_writeRawByte _).seq (ih ?_)
        rw [toNat_shift_seven]
        rw [pow_succ] at h
        exact (Nat.div_lt_iff_lt_mul (by omega)).mpr h

theorem emits_writeRawVarint32 (v : BitVec 32) :
    Emits (sink before) (GPBWriteRawVarint32 v) (varint v.toNat) :=
  emits_writeRawVarint (by omega) (lt_trans v.isLt (by decide))

theorem emits_writeRawVarint64 (v : BitVec 64) :
    Emits (sink before) (GPBWriteRawVarint64 v) (varint v.toNat) :=
  emits_writeRawVarint (by omega) (lt_trans v.isLt (by decide))

theorem toNat_signExtend_of_nonneg {v : BitVec 32} (h : 0 ≤ v.toInt) :
    (v.signExtend 64).toNat = v.toNat := by
  have hmsb : v.msb = false := by
    simpa [BitVec.msb_eq_toInt] using h
  rw [BitVec.signExtend_eq_setWidth_of_msb_false hmsb, BitVec.toNat_setWidth]
  have := v.isLt
  omega

/-- A negative `int32` is extended to 64 bits before it is written. -/
theorem emits_writeInt32NoTag (v : BitVec 32) :
    Emits (sink before) (GPBWriteInt32NoTag v) (varint (v.signExtend 64).toNat) := by
  rw [GPBWriteInt32NoTag]
  split
  · rename_i hnonneg
    rw [toNat_signExtend_of_nonneg hnonneg]
    exact emits_writeRawVarint32 v
  · exact emits_writeRawVarint64 _

theorem emits_writeShifted {w : ℕ} (v : BitVec w) {shifts : List ℕ} {k : ℕ}
    (hshifts : shifts = (List.range k).map (8 * ·)) (hk : 8 * k ≤ w) :
    Emits (sink before) (writeShifted shifts v) (littleEndian k v.toNat) := by
  have hbytes : littleEndian k v.toNat =
      shifts.flatMap fun shift => [UInt8.ofNat (v.sshiftRight shift &&& 0xFF).toNat] := by
    rw [littleEndian_eq_map, hshifts, List.flatMap_map, ← List.map_eq_flatMap]
    apply List.map_congr_left
    intro i hi
    have hi' : i < k := List.mem_range.mp hi
    have hpow : 2 ^ (8 * i) = 256 ^ i := pow_mul 2 8 i
    rw [ofNat_sshiftRight v (by omega), hpow]
  rw [hbytes, writeShifted]
  exact emits_forM fun shift _ => emits_writeRawByte _

theorem emits_writeRawLittleEndian32 (v : BitVec 32) :
    Emits (sink before) (GPBWriteRawLittleEndian32 v) (littleEndian 4 v.toNat) :=
  emits_writeShifted v (by decide) (by omega)

theorem emits_writeRawLittleEndian64 (v : BitVec 64) :
    Emits (sink before) (GPBWriteRawLittleEndian64 v) (littleEndian 8 v.toNat) :=
  emits_writeShifted v (by decide) (by omega)

/-! ## Values -/

/-- A length and as many bytes; the length is cast to `int32_t`. -/
def lengthDelimited (value : List UInt8) : List UInt8 :=
  varint (BitVec.ofNat 32 value.length).toNat ++ value

/-- The bytes a value of a data type is written as. -/
def GPBDataType.word : (type : GPBDataType) → type.Carrier → List UInt8
  | .bool, value => [bif value then 1 else 0]
  | .fixed32, value | .sFixed32, value | .float, value => littleEndian 4 (BitVec.toNat value)
  | .fixed64, value | .sFixed64, value | .double, value => littleEndian 8 (BitVec.toNat value)
  | .int32, value | .enum, value => varint (BitVec.signExtend 64 value).toNat
  | .int64, value | .uInt64, value => varint (BitVec.toNat value)
  | .sInt32, value => varint (GPBEncodeZigZag32 value).toNat
  | .sInt64, value => varint (GPBEncodeZigZag64 value).toNat
  | .uInt32, value => varint (BitVec.toNat value)
  | .bytes, value => lengthDelimited value
  | .string, value => lengthDelimited (utf8 value)

def tagWord (fieldNumber : BitVec 32) (format : GPBWireFormat) : List UInt8 :=
  varint (GPBWireFormatMakeTag fieldNumber format).toNat

theorem emits_writeTagWithFormat (fieldNumber : BitVec 32) (format : GPBWireFormat) :
    Emits (sink before) (GPBWriteTagWithFormat fieldNumber format) (tagWord fieldNumber format) :=
  emits_writeRawVarint32 _

theorem emits_writeBytesNoTag (value : List UInt8) :
    Emits (sink before) (writeBytesNoTag value) (lengthDelimited value) :=
  (emits_writeRawVarint32 _).seq (emits_writeRawPtr value)

/-- The fast path of `writeStringNoTag:` is the one `writeRawPtr:offset:length:` takes itself. -/
theorem run_writeStringNoTag (value : String) (s : GPBOutputBufferState) :
    (writeStringNoTag value).run s = (writeBytesNoTag (utf8 value)).run s := by
  rw [writeStringNoTag, writeBytesNoTag, StateT.run_bind, StateT.run_bind]
  congr 1
  funext p
  rcases p with ⟨_, t⟩
  -- Nothing to write, room for all of it, or neither.
  by_cases hempty : (utf8 value).length = 0
  · have hnil : utf8 value = [] := List.length_eq_zero_iff.mp hempty
    simp [hnil, writeRawPtr]
  · by_cases hroom : (utf8 value).length ≤ t.size - t.position
    · rw [run_writeRawPtr_fits hroom]
      simp only [hempty, if_false]
      simp [hroom]
      rfl
    · simp only [hempty, if_false]
      simp [hroom]

theorem emits_writeStringNoTag (value : String) :
    Emits (sink before) (writeStringNoTag value) (lengthDelimited (utf8 value)) where
  sound := by
    intro s s' hs hrun
    rw [run_writeStringNoTag] at hrun
    exact (emits_writeBytesNoTag _).sound hs hrun
  complete := by
    intro s n hs hfits
    rw [run_writeStringNoTag]
    exact (emits_writeBytesNoTag _).complete hs hfits

theorem emits_writeNoTag (type : GPBDataType) (value : type.Carrier) :
    Emits (sink before) (type.writeNoTag value) (type.word value) := by
  cases type with
  | bool => cases value <;> exact emits_writeRawByte _
  | fixed32 | sFixed32 | float => exact emits_writeRawLittleEndian32 value
  | fixed64 | sFixed64 | double => exact emits_writeRawLittleEndian64 value
  | int32 | enum => exact emits_writeInt32NoTag value
  | int64 | uInt64 => exact emits_writeRawVarint64 value
  | sInt32 => exact emits_writeRawVarint32 _
  | sInt64 => exact emits_writeRawVarint64 _
  | uInt32 => exact emits_writeRawVarint32 value
  | bytes => exact emits_writeBytesNoTag value
  | string => exact emits_writeStringNoTag value

/-- The bytes of a field: its tag and its value. -/
def GPBDataType.fieldWord (type : GPBDataType) (fieldNumber : BitVec 32) (value : type.Carrier) :
    List UInt8 :=
  tagWord fieldNumber (GPBWireFormatForType type false) ++ type.word value

theorem emits_write (type : GPBDataType) (fieldNumber : BitVec 32) (value : type.Carrier) :
    Emits (sink before) (type.write fieldNumber value) (type.fieldWord fieldNumber value) :=
  (emits_writeTagWithFormat _ _).seq (emits_writeNoTag type value)

/-! ## Sizes -/

/-- One test of the size functions, once fewer bytes are ruled out. -/
theorem size_step {p : Prop} [Decidable p] {n k rest : ℕ} (hp : p ↔ n < 128 ^ (k + 1))
    (hlow : k < (varint n).length)
    (hrest : k + 1 < (varint n).length → rest = (varint n).length) :
    (if p then k + 1 else rest) = (varint n).length := by
  have hlen : (varint n).length ≤ k + 1 ↔ n < 128 ^ (k + 1) := length_varint_le (by omega)
  split
  · rename_i h
    have hle := hlen.mpr (hp.mp h)
    omega
  · rename_i h
    refine hrest (Nat.not_le.mp fun hle => h (hp.mpr (hlen.mp hle)))

theorem computeRawVarint32Size_eq (v : BitVec 32) :
    GPBComputeRawVarint32Size v = (varint v.toNat).length := by
  have hmask := and_mask_groups v
  have hpos : 0 < (varint v.toNat).length := List.length_pos_of_ne_nil (varint_ne_nil _)
  have hmax : (varint v.toNat).length ≤ 5 :=
    (length_varint_le (by omega)).mpr (lt_trans v.isLt (by decide))
  exact size_step (hmask 1) hpos fun h1 => size_step (hmask 2) h1 fun h2 =>
    size_step (hmask 3) h2 fun h3 => size_step (hmask 4) h3 fun h4 => by omega

theorem computeRawVarint64Size_eq (v : BitVec 64) :
    GPBComputeRawVarint64Size v = (varint v.toNat).length := by
  have hmask := and_mask_groups v
  have hpos : 0 < (varint v.toNat).length := List.length_pos_of_ne_nil (varint_ne_nil _)
  have hmax : (varint v.toNat).length ≤ 10 :=
    (length_varint_le (by omega)).mpr (lt_trans v.isLt (by decide))
  exact size_step (hmask 1) hpos fun h1 => size_step (hmask 2) h1 fun h2 =>
    size_step (hmask 3) h2 fun h3 => size_step (hmask 4) h3 fun h4 =>
    size_step (hmask 5) h4 fun h5 => size_step (hmask 6) h5 fun h6 =>
    size_step (hmask 7) h6 fun h7 => size_step (hmask 8) h7 fun h8 =>
    size_step (hmask 9) h8 fun h9 => by omega

theorem computeInt32SizeNoTag_eq (v : BitVec 32) :
    GPBComputeInt32SizeNoTag v = (varint (v.signExtend 64).toNat).length := by
  rw [GPBComputeInt32SizeNoTag]
  split
  · rename_i hnonneg
    rw [computeRawVarint32Size_eq, toNat_signExtend_of_nonneg hnonneg]
  · rename_i hneg
    have hmsb : v.msb = true := by
      simpa [BitVec.msb_eq_toInt] using hneg
    -- the sign fills the upper half, so the number takes all ten groups
    have hlarge : 2 ^ 63 ≤ (v.signExtend 64).toNat := by
      have hsign : (v.signExtend 64).msb = true := by
        simp [BitVec.msb_signExtend, hmsb]
      simpa [BitVec.msb_eq_decide] using hsign
    have hmax : (varint (v.signExtend 64).toNat).length ≤ 10 :=
      (length_varint_le (by omega)).mpr (lt_trans (v.signExtend 64).isLt (by decide))
    have hmin : ¬(varint (v.signExtend 64).toNat).length ≤ 9 := by
      rw [length_varint_le (by omega)]
      omega
    omega

theorem length_tagWord {fieldNumber : BitVec 32} (h : fieldNumber.toNat < 2 ^ 29)
    (format : GPBWireFormat) :
    (tagWord fieldNumber format).length = GPBComputeTagSize fieldNumber := by
  rw [GPBComputeTagSize, computeRawVarint32Size_eq, tagWord]
  have hraw := rawValue_lt format
  -- the three bits of the wire type do not reach into another group of seven
  have hiff : ∀ k, 0 < k →
      ((varint (GPBWireFormatMakeTag fieldNumber format).toNat).length ≤ k ↔
        (varint (GPBWireFormatMakeTag fieldNumber .varint).toNat).length ≤ k) := by
    intro k hk
    obtain ⟨j, rfl⟩ : ∃ j, k = j + 1 := ⟨k - 1, by omega⟩
    rw [length_varint_le hk, length_varint_le hk, toNat_makeTag h, toNat_makeTag h, pow_succ]
    change _ ↔ 8 * fieldNumber.toNat + 0 < _
    omega
  have hpos := List.length_pos_of_ne_nil
    (varint_ne_nil (GPBWireFormatMakeTag fieldNumber format).toNat)
  have hpos' := List.length_pos_of_ne_nil
    (varint_ne_nil (GPBWireFormatMakeTag fieldNumber .varint).toNat)
  exact le_antisymm ((hiff _ hpos').mpr le_rfl) ((hiff _ hpos).mp le_rfl)

theorem length_lengthDelimited (value : List UInt8) :
    (lengthDelimited value).length = GPBComputeBytesSizeNoTag value := by
  rw [lengthDelimited, List.length_append, ← computeRawVarint32Size_eq]
  rfl

theorem length_word (type : GPBDataType) (value : type.Carrier) :
    (type.word value).length = type.sizeNoTag value := by
  cases type with
  | bool => rfl
  | fixed32 | sFixed32 | float | fixed64 | sFixed64 | double => exact length_littleEndian _ _
  | int32 | enum => exact (computeInt32SizeNoTag_eq value).symm
  | int64 | uInt64 => exact (computeRawVarint64Size_eq value).symm
  | sInt32 => exact (computeRawVarint32Size_eq _).symm
  | sInt64 => exact (computeRawVarint64Size_eq _).symm
  | uInt32 => exact (computeRawVarint32Size_eq value).symm
  | bytes => exact length_lengthDelimited value
  | string => exact length_lengthDelimited (utf8 value)

theorem length_fieldWord (type : GPBDataType) {fieldNumber : BitVec 32}
    (h : fieldNumber.toNat < 2 ^ 29) (value : type.Carrier) :
    (type.fieldWord fieldNumber value).length = type.size fieldNumber value := by
  rw [GPBDataType.fieldWord, List.length_append, length_tagWord h, length_word]
  rfl

end Protobuf
end KmpApp
