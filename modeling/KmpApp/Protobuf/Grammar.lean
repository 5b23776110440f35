import KmpApp.Protobuf.CodedInput

/-!
# Grammar — the words the readers accept

For every reader of `CodedInput` the words it accepts at the front of what is left up to the current
limit, and the value it makes of each.  The words of the writers are among them.
-/

namespace KmpApp
namespace Protobuf

open Codec

/-! ## The tape -/

/-- What stays as it is while a reader moves on. -/
structure Frame where
  bytes : List UInt8
  limit : ℕ
  depth : ℕ

structure Within (c : Frame) (s : GPBCodedInputStreamState) : Prop where
  bytes : s.bytes = c.bytes
  limit : s.currentLimit = c.limit
  depth : s.recursionDepth = c.depth
  pos_le : s.bufferPos ≤ c.limit
  limit_le : c.limit ≤ c.bytes.length

/-- The bytes left up to the current limit. -/
def tape (c : Frame) : Tape GPBCodedInputStreamState UInt8 where
  rest s := (s.bytes.take s.currentLimit).drop s.bufferPos
  Good := Within c

variable {c : Frame}

theorem length_rest {s : GPBCodedInputStreamState} (hs : Within c s) :
    ((tape c).rest s).length = c.limit - s.bufferPos := by
  have hlimit := hs.limit_le
  simp only [tape, List.length_drop, List.length_take, hs.bytes, hs.limit]
  omega

theorem within_initWithData (data : List UInt8) :
    Within ⟨data, data.length, 0⟩ (.initWithData data) :=
  ⟨rfl, rfl, rfl, Nat.zero_le _, le_rfl⟩

theorem rest_initWithData (data : List UInt8) :
    (tape ⟨data, data.length, 0⟩).rest (.initWithData data) = data := by
  simp [tape, GPBCodedInputStreamState.initWithData]

/-! ## Raw data -/

theorem run_checkSize_ok {s : GPBCodedInputStreamState} {size : ℕ}
    (hbytes : s.bufferPos + size ≤ s.bytes.length) (hlimit : s.bufferPos + size ≤ s.currentLimit) :
    (CheckSize size).run s = .ok ((), s) := by
  simp [CheckSize, Nat.not_lt.mpr hbytes, Nat.not_lt.mpr hlimit]
  rfl

theorem checkSize_ok {s s' : GPBCodedInputStreamState} {size : ℕ}
    (h : (CheckSize size).run s = .ok ((), s')) :
    s' = s ∧ s.bufferPos + size ≤ s.bytes.length ∧ s.bufferPos + size ≤ s.currentLimit := by
  by_cases hbytes : s.bufferPos + size ≤ s.bytes.length
  · by_cases hlimit : s.bufferPos + size ≤ s.currentLimit
    · rw [run_checkSize_ok hbytes hlimit] at h
      cases h
      exact ⟨rfl, hbytes, hlimit⟩
    · simp [CheckSize, Nat.not_lt.mpr hbytes, Nat.not_le.mp hlimit, GPBRaiseStreamError] at h
      cases h
  · simp [CheckSize, Nat.not_le.mp hbytes, GPBRaiseStreamError] at h
    cases h

theorem run_checkSize_bind {α : Type} (size : ℕ) (g : Unit → Read α) (s : GPBCodedInputStreamState) :
    (CheckSize size >>= g).run s = (CheckSize size).run s >>= fun _ => (g ()).run s := by
  rw [StateT.run_bind]
  cases hcheck : (CheckSize size).run s with
  | error e => rfl
  | ok p =>
      rcases p with ⟨⟨⟩, t⟩
      rcases checkSize_ok hcheck with ⟨rfl, _, _⟩
      rfl

/-- The next `n` bytes split off what is left up to the limit. -/
theorem rest_split {bytes : List UInt8} {pos limit n : ℕ} (h : pos + n ≤ limit) :
    (bytes.take limit).drop pos =
      (bytes.drop pos).take n ++ (bytes.take limit).drop (pos + n) := by
  have hhead : ((bytes.take limit).drop pos).take n = (bytes.drop pos).take n := by
    rw [List.drop_take, List.take_take, min_eq_left (by omega)]
  rw [← hhead, ← List.drop_drop, List.take_append_drop]

/-- A reader that checks for `n` bytes, takes them off the tape and makes `v` of them. -/
theorem reads_advance {α : Type} {f : Read α} {n : ℕ} {v : List UInt8 → α}
    (hf : ∀ s, f.run s = (CheckSize n).run s >>= fun _ =>
      .ok (v ((s.bytes.drop s.bufferPos).take n), { s with bufferPos := s.bufferPos + n })) :
    Reads (tape c) f (fun w a => w.length = n ∧ a = v w) where
  sound := by
    intro s a s' hs hrun
    rw [hf] at hrun
    rcases bind_eq_ok.mp hrun with ⟨⟨⟨⟩, t⟩, hcheck, hend⟩
    cases hend
    rcases checkSize_ok hcheck with ⟨_, hbytes, hlimit⟩
    refine ⟨(s.bytes.drop s.bufferPos).take n, ⟨?_, rfl⟩, ?_, ?_⟩
    · simp only [List.length_take, List.length_drop]
      omega
    · exact rest_split hlimit
    · exact ⟨hs.bytes, hs.limit, hs.depth, hs.limit ▸ hlimit, hs.limit_le⟩
  complete := by
    rintro s w a r hs ⟨hlen, rfl⟩ hr
    -- The word is on the tape, so it ends before the limit.
    have hfit : s.bufferPos + n ≤ c.limit := by
      have hlength := length_rest hs
      rw [hr, List.length_append, hlen] at hlength
      have := hs.pos_le
      omega
    have hlimit : s.bufferPos + n ≤ s.currentLimit := hs.limit ▸ hfit
    have hbytes : s.bufferPos + n ≤ s.bytes.length := by
      rw [hs.bytes]
      exact hfit.trans hs.limit_le
    have hsplit : w ++ r =
        (s.bytes.drop s.bufferPos).take n ++ (s.bytes.take s.currentLimit).drop (s.bufferPos + n) :=
      hr.symm.trans (rest_split hlimit)
    have htaken : ((s.bytes.drop s.bufferPos).take n).length = n := by
      simp only [List.length_take, List.length_drop]
      omega
    rcases List.append_inj hsplit (hlen.trans htaken.symm) with ⟨hw, hrest⟩
    refine ⟨{ s with bufferPos := s.bufferPos + n }, ?_, hrest.symm⟩
    rw [hf, run_checkSize_ok hbytes hlimit, hw]
    rfl

theorem reads_readRawData (n : ℕ) :
    Reads (tape c) (ReadRawData n) (fun w a => w.length = n ∧ a = w) := by
  refine reads_advance (n := n) fun s => ?_
  rw [ReadRawData, run_checkSize_bind]
  rfl

theorem reads_skipRawData (n : ℕ) :
    Reads (tape c) (SkipRawData n) (fun w _ => w.length = n) := by
  refine (reads_advance (n := n) (v := fun _ => ()) fun s => ?_).of_iff (by simp)
  rw [SkipRawData, run_checkSize_bind]
  rfl

theorem getD_eq_headD (bytes : List UInt8) (pos : ℕ) :
    bytes.getD pos 0 = ((bytes.drop pos).take 1).headD 0 := by
  cases hdrop : bytes.drop pos with
  | nil => simp [List.getD, List.getElem?_eq_none (List.drop_eq_nil_iff.mp hdrop)]
  | cons b bs =>
      have hget : bytes[pos]? = some b := by
        rw [← Nat.add_zero pos, ← List.getElem?_drop, hdrop]
        rfl
      simp [List.getD, hget]

theorem reads_readRawByte : Reads (tape c) ReadRawByte (fun w b => w = [b]) := by
  have hiff : ∀ (w : List UInt8) (b : UInt8), w.length = 1 ∧ b = w.headD 0 ↔ w = [b] := by
    intro w b
    constructor
    · rintro ⟨hlen, rfl⟩
      rcases List.length_eq_one_iff.mp hlen with ⟨b, rfl⟩
      rfl
    · rintro rfl
      exact ⟨rfl, rfl⟩
  refine (reads_advance (n := 1) (v := fun w => w.headD 0) fun s => ?_).of_iff hiff
  rw [ReadRawByte, run_checkSize_bind, ← getD_eq_headD]
  rfl

/-! ## Varints -/

/-- A numeral of at most ten bytes, and its value in 64 bits. -/
def VarintWord (w : List UInt8) (v : BitVec 64) : Prop :=
  Terminated w ∧ w.length ≤ 10 ∧ BitVec.ofNat 64 (groups w) = v

theorem ofNat_shiftLeft (n k : ℕ) : BitVec.ofNat 64 (n <<< k) = BitVec.ofNat 64 n <<< k := by
  apply BitVec.eq_of_toNat_eq
  simp only [BitVec.toNat_ofNat, BitVec.toNat_shiftLeft, Nat.shiftLeft_eq, Nat.mod_mul_mod]

theorem ofNat_groups_cons (b : UInt8) (w : List UInt8) (shift : ℕ) :
    BitVec.ofNat 64 (groups (b :: w)) <<< shift =
      BitVec.ofNat 64 (b.toNat % 128) <<< shift ||| BitVec.ofNat 64 (groups w) <<< (shift + 7) := by
  have hlt : b.toNat % 128 < 2 ^ 7 := Nat.mod_lt _ (by omega)
  have hor : b.toNat % 128 + 128 * groups w = groups w <<< 7 ||| b.toNat % 128 := by
    rw [Nat.shiftLeft_eq, Nat.mul_comm (groups w), ← Nat.two_pow_add_eq_or_of_lt hlt]
    omega
  rw [groups, hor, BitVec.ofNat_or, BitVec.shiftLeft_or_distrib, BitVec.or_comm, ofNat_shiftLeft,
    ← BitVec.shiftLeft_add, Nat.add_comm 7]

theorem toNat_and_low_byte (b : UInt8) : (b &&& 0x7F).toNat = b.toNat % 128 := by
  rw [UInt8.toNat_and]
  exact Nat.and_two_pow_sub_one_eq_mod _ 7

theorem and_high_byte (b : UInt8) : b &&& 0x80 = 0 ↔ b.toNat < 128 := by
  -- A finite check, over all bytes.
  have hall : ∀ n : Fin 256, UInt8.ofNat n &&& 0x80 = 0 ↔ n.val < 128 := by decide +kernel
  have hb := hall ⟨b.toNat, b.toNat_lt⟩
  simpa using hb

theorem reads_varintRounds (rounds shift : ℕ) (result : BitVec 64) :
    Reads (tape c) (readVarintRounds rounds shift result) (fun w v =>
      Terminated w ∧ w.length ≤ rounds ∧ v = result ||| BitVec.ofNat 64 (groups w) <<< shift) := by
  -- One byte a round; the value so far and the shift vary with it.
  induction rounds generalizing shift result with
  | zero =>
      -- No round left: a numeral has at least one byte.
      refine (reads_throw _).of_iff fun w v => ?_
      constructor
      · exact False.elim
      · rintro ⟨hw, hlen, _⟩
        exact hw.ne_nil (List.length_eq_zero_iff.mp (by omega))
  | succ rounds ih =>
      rw [readVarintRounds]
      have hbyte : ∀ b : UInt8, Reads (tape c)
          (if b &&& 0x80 = 0 then
            pure (result ||| (BitVec.ofNat 64 (b &&& 0x7F).toNat <<< shift))
          else
            readVarintRounds rounds (shift + 7)
              (result ||| (BitVec.ofNat 64 (b &&& 0x7F).toNat <<< shift)))
          (fun w v => Terminated (b :: w) ∧ w.length ≤ rounds ∧
            v = result ||| BitVec.ofNat 64 (groups (b :: w)) <<< shift) := by
        intro b
        -- The high bit decides whether this byte is the last one.
        by_cases hb : b.toNat < 128
        · rw [if_pos ((and_high_byte b).mpr hb), toNat_and_low_byte]
          refine (reads_pure _).of_iff fun w v => ?_
          rw [terminated_cons_of_low hb]
          constructor
          · rintro ⟨rfl, rfl⟩
            exact ⟨rfl, Nat.zero_le _, by simp [groups]⟩
          · rintro ⟨rfl, _, rfl⟩
            exact ⟨rfl, by simp [groups]⟩
        · rw [if_neg (fun h0 => hb ((and_high_byte b).mp h0)), toNat_and_low_byte]
          refine (ih _ _).of_iff fun w v => ?_
          rw [terminated_cons_of_high (Nat.not_lt.mp hb), ofNat_groups_cons, BitVec.or_assoc]
      refine (reads_readRawByte.bind hbyte).of_iff fun w v => ?_
      constructor
      · rintro ⟨_, u, b, rfl, rfl, hw, hlen, hv⟩
        exact ⟨hw, by simpa using hlen, hv⟩
      · rintro ⟨hw, hlen, hv⟩
        cases w with
        | nil => exact absurd hw id
        | cons b w => exact ⟨[b], w, b, rfl, rfl, hw, by simpa using hlen, hv⟩

theorem reads_readRawVarint64 : Reads (tape c) ReadRawVarint64 VarintWord := by
  refine (reads_varintRounds 10 0 0).of_iff fun w v => ?_
  simp [VarintWord, eq_comm]

theorem reads_readRawVarint32 :
    Reads (tape c) ReadRawVarint32 (fun w v => ∃ n, VarintWord w n ∧ n.setWidth 32 = v) :=
  reads_readRawVarint64.map _

theorem varintWord_varint {n : ℕ} (h : n < 2 ^ 64) : VarintWord (varint n) (BitVec.ofNat 64 n) := by
  refine ⟨terminated_varint n, (length_varint_le (by omega)).mpr (lt_trans h (by decide)), ?_⟩
  rw [groups_varint]

theorem varintWord_toNat (v : BitVec 64) : VarintWord (varint v.toNat) v := by
  simpa using varintWord_varint v.isLt

theorem VarintWord.ne_nil {w : List UInt8} {v : BitVec 64} (h : VarintWord w v) : w ≠ [] :=
  h.1.ne_nil

/-! ## Values -/

/-- A length of at most two gigabytes, then the bytes. -/
def DelimitedWord (w bytes : List UInt8) : Prop :=
  ∃ u n, w = u ++ bytes ∧ VarintWord u n ∧ n.toNat ≤ 0x7fffffff ∧ bytes.length = n.toNat

/-- The words a data type is read from. -/
def GPBDataType.Spells : (type : GPBDataType) → List UInt8 → type.Carrier → Prop
  | .bool => fun w value => ∃ n, VarintWord w n ∧ decide (n ≠ 0) = value
  | .fixed32 | .sFixed32 | .float => fun w value =>
      ∃ bytes, (w.length = 4 ∧ bytes = w) ∧ BitVec.ofNat 32 (ofLittleEndian bytes) = value
  | .fixed64 | .sFixed64 | .double => fun w value =>
      ∃ bytes, (w.length = 8 ∧ bytes = w) ∧ BitVec.ofNat 64 (ofLittleEndian bytes) = value
  | .int32 | .uInt32 | .enum => fun w value => ∃ n, VarintWord w n ∧ n.setWidth 32 = value
  | .int64 | .uInt64 => VarintWord
  | .sInt32 => fun w value =>
      ∃ m, (∃ n, VarintWord w n ∧ n.setWidth 32 = m) ∧ GPBDecodeZigZag32 m = value
  | .sInt64 => fun w value => ∃ n, VarintWord w n ∧ GPBDecodeZigZag64 n = value
  | .bytes => DelimitedWord
  | .string => fun w value => DelimitedWord w (utf8 value)

theorem reads_checkFieldSize (size : BitVec 64) :
    Reads (tape c) (CheckFieldSize size) (fun w _ => w = [] ∧ size.toNat ≤ 0x7fffffff) := by
  have hle : size > 0x7fffffff ↔ ¬size.toNat ≤ 0x7fffffff := by
    rw [gt_iff_lt, BitVec.lt_def, Nat.not_le]
    rfl
  rw [CheckFieldSize]
  by_cases h : size.toNat ≤ 0x7fffffff
  · rw [if_neg (fun hgt => hle.mp hgt h)]
    exact (reads_pure ()).of_iff (by simp [h])
  · rw [if_pos (hle.mpr h)]
    exact (reads_throw _).of_iff (by simp [h])

theorem fromUTF8?_eq_some {bytes : List UInt8} {value : String} :
    String.fromUTF8? ⟨bytes.toArray⟩ = some value ↔ utf8 value = bytes := by
  rw [String.fromUTF8?, utf8, String.toUTF8_eq_toByteArray]
  constructor
  · intro h
    split at h
    · cases h
      rfl
    · cases h
  -- A string is stored as its valid bytes.
  · rintro rfl
    exact dif_pos value.isValidUTF8

theorem reads_readRetainedBytes :
    Reads (tape c) GPBCodedInputStreamReadRetainedBytes DelimitedWord := by
  refine (reads_readRawVarint64.bind fun size =>
    (reads_checkFieldSize size).bind fun _ => reads_readRawData size.toNat).of_iff fun w bytes => ?_
  constructor
  · rintro ⟨u, v, n, rfl, hu, _, v, _, rfl, ⟨rfl, hn⟩, hlen, rfl⟩
    exact ⟨u, n, by simp, hu, hn, hlen⟩
  · rintro ⟨u, n, rfl, hu, hn, hlen⟩
    exact ⟨u, bytes, n, rfl, hu, [], bytes, (), by simp, ⟨rfl, hn⟩, hlen, rfl⟩

theorem reads_readRetainedString :
    Reads (tape c) GPBCodedInputStreamReadRetainedString
      (fun w value => DelimitedWord w (utf8 value)) := by
  have hbody : ∀ size : BitVec 64, Reads (tape c)
      (if size = 0 then pure "" else ReadRawData size.toNat >>= decodeUTF8)
      (fun w value => w.length = size.toNat ∧ utf8 value = w) := by
    intro size
    -- The empty string is the only one without bytes.
    by_cases hzero : size = 0
    · subst hzero
      rw [if_pos rfl]
      refine (reads_pure _).of_iff fun w value => ?_
      constructor
      · rintro ⟨rfl, rfl⟩
        exact ⟨rfl, rfl⟩
      · rintro ⟨hlen, hvalue⟩
        have hnil : w = [] := List.length_eq_zero_iff.mp hlen
        subst hnil
        refine ⟨rfl, ?_⟩
        have hempty := fromUTF8?_eq_some.mpr (show utf8 "" = [] from rfl)
        rw [fromUTF8?_eq_some.mpr hvalue] at hempty
        exact Option.some.inj hempty
    · rw [if_neg hzero]
      refine ((reads_readRawData size.toNat).filterMap
        (p := fun bytes => String.fromUTF8? ⟨bytes.toArray⟩) ?_ ?_).of_iff fun w value => ?_
      · intro bytes value h
        rw [decodeUTF8, h]
      · intro bytes h
        refine ⟨⟨.invalidUTF8, none⟩, ?_⟩
        rw [decodeUTF8, h]
        rfl
      · simp only [fromUTF8?_eq_some]
        constructor
        · rintro ⟨_, ⟨hlen, rfl⟩, hvalue⟩
          exact ⟨hlen, hvalue⟩
        · rintro ⟨hlen, hvalue⟩
          exact ⟨w, ⟨hlen, rfl⟩, hvalue⟩
  refine (reads_readRawVarint64.bind fun size =>
    (reads_checkFieldSize size).bind fun _ => hbody size).of_iff fun w value => ?_
  constructor
  · rintro ⟨u, v, n, rfl, hu, _, v, _, rfl, ⟨rfl, hn⟩, hlen, hvalue⟩
    exact ⟨u, n, by simp [hvalue], hu, hn, hvalue ▸ hlen⟩
  · rintro ⟨u, n, rfl, hu, hn, hlen⟩
    exact ⟨u, utf8 value, n, rfl, hu, [], utf8 value, (), by simp, ⟨rfl, hn⟩, hlen, rfl⟩

theorem reads_read (type : GPBDataType) : Reads (tape c) type.read type.Spells := by
  cases type with
  | bool => exact reads_readRawVarint64.map _
  | fixed32 | sFixed32 | float => exact (reads_readRawData 4).map _
  | fixed64 | sFixed64 | double => exact (reads_readRawData 8).map _
  | int32 | uInt32 | enum => exact reads_readRawVarint32
  | int64 | uInt64 => exact reads_readRawVarint64
  | sInt32 => exact reads_readRawVarint32.map _
  | sInt64 => exact reads_readRawVarint64.map _
  | bytes => exact reads_readRetainedBytes
  | string => exact reads_readRetainedString

theorem Spells.ne_nil {type : GPBDataType} {w : List UInt8} {value : type.Carrier}
    (h : type.Spells w value) : w ≠ [] := by
  have hdelimited : ∀ {u d : List UInt8}, DelimitedWord u d → u ≠ [] := by
    rintro _ d ⟨u, n, rfl, hu, _⟩
    exact List.append_ne_nil_of_left_ne_nil hu.ne_nil d
  have hlength : ∀ {k : ℕ}, w.length = k + 1 → w ≠ [] := by
    rintro k hlen rfl
    cases hlen
  -- A numeral, a fixed number of bytes, or a length and what it announces.
  cases type with
  | bool | int32 | uInt32 | enum | sInt64 =>
      rcases h with ⟨n, hn, _⟩
      exact hn.ne_nil
  | fixed32 | sFixed32 | float | fixed64 | sFixed64 | double =>
      rcases h with ⟨_, ⟨hlen, _⟩, _⟩
      exact hlength hlen
  | int64 | uInt64 => exact VarintWord.ne_nil h
  | sInt32 =>
      rcases h with ⟨_, ⟨n, hn, _⟩, _⟩
      exact hn.ne_nil
  | bytes | string => exact hdelimited h

theorem varintWord_toNat32 (v : BitVec 32) :
    ∃ n, VarintWord (varint v.toNat) n ∧ n.setWidth 32 = v := by
  refine ⟨BitVec.ofNat 64 v.toNat, varintWord_varint (lt_trans v.isLt (by decide)), ?_⟩
  apply BitVec.eq_of_toNat_eq
  have := v.isLt
  simp only [BitVec.toNat_setWidth, BitVec.toNat_ofNat]
  omega

theorem ofNat_ofLittleEndian {w k : ℕ} (hw : 8 * k = w) (v : BitVec w) :
    BitVec.ofNat w (ofLittleEndian (littleEndian k v.toNat)) = v := by
  have hpow : 256 ^ k = 2 ^ w := by
    rw [← hw]
    exact (pow_mul 2 8 k).symm
  rw [ofLittleEndian_littleEndian, hpow, Nat.mod_eq_of_lt v.isLt, BitVec.ofNat_toNat,
    BitVec.setWidth_eq]

theorem setWidth_signExtend (v : BitVec 32) : (v.signExtend 64).setWidth 32 = v := by
  apply BitVec.eq_of_getLsbD_eq
  intro i hi
  have hi64 : i < 64 := by omega
  rw [BitVec.getLsbD_setWidth, BitVec.getLsbD_signExtend, if_pos hi]
  simp [hi, hi64]

theorem delimitedWord_lengthDelimited {bytes : List UInt8} (h : bytes.length ≤ 0x7fffffff) :
    DelimitedWord (lengthDelimited bytes) bytes := by
  have hcast : (BitVec.ofNat 32 bytes.length).toNat = bytes.length := by
    rw [BitVec.toNat_ofNat]
    omega
  refine ⟨varint bytes.length, BitVec.ofNat 64 bytes.length, ?_, varintWord_varint (by omega), ?_, ?_⟩
  · rw [lengthDelimited, hcast]
  · rw [BitVec.toNat_ofNat]
    omega
  · rw [BitVec.toNat_ofNat]
    omega

/-- The word a value is written as is one it is read from, unless it is too long to be read. -/
theorem spells_word {type : GPBDataType} {value : type.Carrier}
    (h : (type.word value).length ≤ 0x7fffffff) : type.Spells (type.word value) value := by
  have hdelimited : ∀ {bytes : List UInt8}, (lengthDelimited bytes).length ≤ 0x7fffffff →
      bytes.length ≤ 0x7fffffff := by
    intro bytes hle
    rw [lengthDelimited, List.length_append] at hle
    omega
  cases type with
  | bool =>
      cases value with
      | false => exact ⟨0, ⟨by simp [GPBDataType.word, Terminated], by decide, rfl⟩, rfl⟩
      | true => exact ⟨1, ⟨by simp [GPBDataType.word, Terminated], by decide, rfl⟩, rfl⟩
  | fixed32 | sFixed32 | float =>
      exact ⟨_, ⟨length_littleEndian 4 _, rfl⟩, ofNat_ofLittleEndian (k := 4) rfl value⟩
  | fixed64 | sFixed64 | double =>
      exact ⟨_, ⟨length_littleEndian 8 _, rfl⟩, ofNat_ofLittleEndian (k := 8) rfl value⟩
  -- Written over ten bytes where negative, read back by its lower half.
  | int32 | enum =>
      exact ⟨BitVec.signExtend 64 value, varintWord_toNat _, setWidth_signExtend value⟩
  | int64 | uInt64 => exact varintWord_toNat _
  | sInt32 => exact ⟨_, varintWord_toNat32 _, decodeZigZag_encodeZigZag (by omega) _⟩
  | sInt64 => exact ⟨_, varintWord_toNat _, decodeZigZag_encodeZigZag (by omega) _⟩
  | uInt32 => exact varintWord_toNat32 _
  | bytes => exact delimitedWord_lengthDelimited (hdelimited h)
  | string => exact delimitedWord_lengthDelimited (hdelimited h)

/-! ## Tags -/

def ValidTag (tag : BitVec 32) : Prop :=
  GPBWireFormatIsValidTag tag = true ∧ GPBWireFormatGetTagFieldNumber tag ≠ 0

def TagWord (w : List UInt8) (tag : BitVec 32) : Prop :=
  (∃ n, VarintWord w n ∧ n.setWidth 32 = tag) ∧ ValidTag tag

theorem TagWord.ne_nil {w : List UInt8} {tag : BitVec 32} (h : TagWord w tag) : w ≠ [] := by
  rcases h with ⟨⟨n, hn, _⟩, _⟩
  exact hn.ne_nil

theorem ValidTag.ne_zero {tag : BitVec 32} (h : ValidTag tag) : tag ≠ 0 := by
  rintro rfl
  exact h.2 rfl

theorem run_acceptTag {tag : BitVec 32} (h : ValidTag tag) (s : GPBCodedInputStreamState) :
    (acceptTag tag).run s = .ok (tag, { s with lastTag := tag }) := by
  have hnumber : GPBWireFormatGetTagFieldNumber tag ≠ 0#32 := h.2
  simp [acceptTag, h.1, hnumber]
  rfl

theorem acceptTag_ok {tag tag' : BitVec 32} {s s' : GPBCodedInputStreamState}
    (h : (acceptTag tag).run s = .ok (tag', s')) : ValidTag tag ∧ tag' = tag := by
  by_cases hvalid : GPBWireFormatIsValidTag tag = true
  · by_cases hnumber : GPBWireFormatGetTagFieldNumber tag = 0
    · simp [acceptTag, hvalid, hnumber, GPBRaiseStreamError] at h
      cases h
    · rw [run_acceptTag ⟨hvalid, hnumber⟩] at h
      cases h
      exact ⟨⟨hvalid, hnumber⟩, rfl⟩
  · simp [acceptTag, hvalid, GPBRaiseStreamError] at h
    cases h

theorem rest_eq_nil_iff {s : GPBCodedInputStreamState} (hs : Within c s) :
    (tape c).rest s = [] ↔ s.bufferPos = c.limit := by
  have hlength := length_rest hs
  have hle := hs.pos_le
  rw [← List.length_eq_zero_iff, hlength]
  omega

theorem run_readTag_end {s : GPBCodedInputStreamState} (hs : Within c s)
    (hrest : (tape c).rest s = []) :
    GPBCodedInputStreamReadTag.run s = .ok (0, { s with lastTag := 0 }) := by
  have hend : s.bufferPos = s.currentLimit := by
    rw [hs.limit]
    exact (rest_eq_nil_iff hs).mp hrest
  simp [GPBCodedInputStreamReadTag, GPBCodedInputStreamIsAtEnd, hend]
  rfl

theorem run_readTag {s : GPBCodedInputStreamState} (hs : Within c s)
    (hrest : (tape c).rest s ≠ []) :
    GPBCodedInputStreamReadTag.run s = (ReadRawVarint32 >>= acceptTag).run s := by
  have hlimit : s.bufferPos ≠ s.currentLimit := by
    rw [hs.limit]
    exact fun hend => hrest ((rest_eq_nil_iff hs).mpr hend)
  -- The limit is not beyond the buffer.
  have hbytes : s.bufferPos ≠ s.bytes.length := by
    intro hend
    have h1 := hs.pos_le
    have h2 := hs.limit_le
    rw [hs.bytes] at hend
    exact hlimit (hs.limit ▸ by omega)
  simp [GPBCodedInputStreamReadTag, GPBCodedInputStreamIsAtEnd, hlimit, hbytes]

theorem readTag_sound {s s' : GPBCodedInputStreamState} {tag : BitVec 32} (hs : Within c s)
    (hrest : (tape c).rest s ≠ []) (hrun : GPBCodedInputStreamReadTag.run s = .ok (tag, s')) :
    ∃ w, TagWord w tag ∧ (tape c).rest s = w ++ (tape c).rest s' ∧ Within c s' ∧
      s'.lastTag = tag := by
  rw [run_readTag hs hrest] at hrun
  rcases run_bind_ok.mp hrun with ⟨tag', t, hread, haccept⟩
  -- A tag that was accepted is valid, and so was read as it stands.
  rcases acceptTag_ok haccept with ⟨hvalid, rfl⟩
  rcases reads_readRawVarint32.sound hs hread with ⟨w, hw, hsplit, ht⟩
  rw [run_acceptTag hvalid] at haccept
  cases haccept
  exact ⟨w, ⟨hw, hvalid⟩, hsplit, ⟨ht.bytes, ht.limit, ht.depth, ht.pos_le, ht.limit_le⟩, rfl⟩

theorem readTag_complete {s : GPBCodedInputStreamState} {w r : List UInt8} {tag : BitVec 32}
    (hs : Within c s) (hw : TagWord w tag) (hsplit : (tape c).rest s = w ++ r) :
    ∃ s', GPBCodedInputStreamReadTag.run s = .ok (tag, s') ∧ (tape c).rest s' = r ∧ Within c s' ∧
      s'.lastTag = tag := by
  have hrest : (tape c).rest s ≠ [] := by
    rw [hsplit]
    exact List.append_ne_nil_of_left_ne_nil hw.ne_nil r
  rcases reads_readRawVarint32.reads hs hw.1 hsplit with ⟨t, hread, hr, ht⟩
  refine ⟨{ t with lastTag := tag }, ?_, hr,
    ⟨ht.bytes, ht.limit, ht.depth, ht.pos_le, ht.limit_le⟩, rfl⟩
  rw [run_readTag hs hrest]
  exact run_bind_ok.mpr ⟨tag, t, hread, run_acceptTag hw.2 t⟩

theorem validTag_makeTag {fieldNumber : BitVec 32} (hpos : 0 < fieldNumber.toNat)
    (hlt : fieldNumber.toNat < 2 ^ 29) (wireType : GPBWireFormat) :
    ValidTag (GPBWireFormatMakeTag fieldNumber wireType) := by
  refine ⟨isValidTag_iff.mpr ⟨_, wireType_makeTag hlt wireType⟩, ?_⟩
  rw [fieldNumber_makeTag hlt]
  rintro rfl
  exact absurd hpos (by decide)

theorem tagWord_varint {tag : BitVec 32} (h : ValidTag tag) : TagWord (varint tag.toNat) tag :=
  ⟨varintWord_toNat32 tag, h⟩

end Protobuf
end KmpApp
