import KmpApp.Protobuf.Grammar

/-!
# Groups — fields the descriptor does not know

A field is skipped by its wire type alone.  A group runs up to the end tag of its field number and
may hold further groups, down to the recursion limit: `GroupWord k e` are the bytes of the rest of a
group read at depth `k`, its end tag `e` included.
-/

namespace KmpApp
namespace Protobuf

open Codec

variable {c : Frame}

/-! ## The words of unknown fields -/

/-- What follows the tag of a field that is not a group. -/
def ScalarWord (tag : BitVec 32) (w : List UInt8) : Prop :=
  match GPBWireFormatGetTagWireType tag with
  | some .varint => ∃ n, VarintWord w n
  | some .fixed64 => w.length = 8
  | some .lengthDelimited => ∃ bytes, DelimitedWord w bytes
  | some .fixed32 => w.length = 4
  | some .startGroup | some .endGroup | none => False

def endGroupTag (tag : BitVec 32) : BitVec 32 :=
  GPBWireFormatMakeTag (GPBWireFormatGetTagFieldNumber tag) .endGroup

inductive GroupWord : ℕ → BitVec 32 → List UInt8 → Prop
  | close {k : ℕ} {e : BitVec 32} {w : List UInt8} : TagWord w e → GroupWord k e w
  | scalar {k : ℕ} {e tag : BitVec 32} {w u v : List UInt8} : TagWord w tag → ScalarWord tag u →
      GroupWord k e v → GroupWord k e (w ++ (u ++ v))
  | group {k : ℕ} {e tag : BitVec 32} {w u v : List UInt8} : TagWord w tag →
      GPBWireFormatGetTagWireType tag = some .startGroup → k < kDefaultRecursionLimit →
      GroupWord (k + 1) (endGroupTag tag) u → GroupWord k e v → GroupWord k e (w ++ (u ++ v))

/-- What follows the tag of any field at depth `k`. -/
def FieldWord (k : ℕ) (tag : BitVec 32) (w : List UInt8) : Prop :=
  ScalarWord tag w ∨ GPBWireFormatGetTagWireType tag = some .startGroup ∧
    k < kDefaultRecursionLimit ∧ GroupWord (k + 1) (endGroupTag tag) w

theorem FieldWord.cons {k : ℕ} {e tag : BitVec 32} {w u v : List UInt8} (hw : TagWord w tag)
    (hu : FieldWord k tag u) (hv : GroupWord k e v) : GroupWord k e (w ++ (u ++ v)) := by
  rcases hu with hscalar | ⟨hstart, hk, hgroup⟩
  · exact .scalar hw hscalar hv
  · exact .group hw hstart hk hgroup hv

/-! ## Skipping -/

/-- The frame at another depth of recursion. -/
def Frame.atDepth (c : Frame) (k : ℕ) : Frame :=
  { c with depth := k }

theorem run_enterGroup_ok {s : GPBCodedInputStreamState}
    (h : s.recursionDepth < kDefaultRecursionLimit) :
    enterGroup.run s = .ok ((), { s with recursionDepth := s.recursionDepth + 1 }) := by
  simp [enterGroup, CheckRecursionLimit, Nat.not_le.mpr h]
  rfl

theorem enterGroup_ok {s s' : GPBCodedInputStreamState} (h : enterGroup.run s = .ok ((), s')) :
    s.recursionDepth < kDefaultRecursionLimit := by
  by_contra hdepth
  simp [enterGroup, CheckRecursionLimit, Nat.not_lt.mp hdepth, GPBRaiseStreamError] at h
  cases h

theorem run_checkLastTagWas {s : GPBCodedInputStreamState} {value : BitVec 32}
    (h : s.lastTag = value) : (GPBCodedInputStreamCheckLastTagWas value).run s = .ok ((), s) := by
  simp [GPBCodedInputStreamCheckLastTagWas, h]
  rfl

theorem checkLastTagWas_ok {s s' : GPBCodedInputStreamState} {value : BitVec 32}
    (h : (GPBCodedInputStreamCheckLastTagWas value).run s = .ok ((), s')) :
    s' = s ∧ s.lastTag = value := by
  by_cases hlast : s.lastTag = value
  · rw [run_checkLastTagWas hlast] at h
    cases h
    exact ⟨rfl, hlast⟩
  · simp [GPBCodedInputStreamCheckLastTagWas, hlast, GPBRaiseStreamError] at h
    cases h

/-- What `skipRounds` does within its bound: it reads the rest of a group and leaves its depth. -/
structure Skips (n : ℕ) : Prop where
  sound : ∀ {c : Frame} {k : ℕ} {e : BitVec 32} {s s' : GPBCodedInputStreamState},
    GPBWireFormatGetTagWireType e = some .endGroup → Within (c.atDepth (k + 1)) s →
    ((tape c).rest s).length < n → (skipRounds n e).run s = .ok ((), s') →
    ∃ w, GroupWord (k + 1) e w ∧ (tape c).rest s = w ++ (tape c).rest s' ∧ Within (c.atDepth k) s'
  complete : ∀ {c : Frame} {k : ℕ} {e : BitVec 32} {s : GPBCodedInputStreamState}
    {w r : List UInt8},
    GPBWireFormatGetTagWireType e = some .endGroup → Within (c.atDepth (k + 1)) s →
    ((tape c).rest s).length < n → GroupWord (k + 1) e w → (tape c).rest s = w ++ r →
    ∃ s', (skipRounds n e).run s = .ok ((), s') ∧ (tape c).rest s' = r

/-- A group skipped as a whole, from the depth outside it. -/
theorem Skips.reads_group {n : ℕ} (h : Skips n) {k : ℕ} {e : BitVec 32}
    (he : GPBWireFormatGetTagWireType e = some .endGroup) :
    Reads ((tape (c.atDepth k)).bounded n) (enterGroup >>= fun _ => skipRounds n e)
      (fun w _ => k < kDefaultRecursionLimit ∧ GroupWord (k + 1) e w) where
  sound := by
    rintro s ⟨⟩ s' ⟨hs, hlen⟩ hrun
    rcases run_bind_ok.mp hrun with ⟨⟨⟩, t, henter, hskip⟩
    have hdepth := enterGroup_ok henter
    rw [run_enterGroup_ok hdepth] at henter
    cases henter
    -- The group is read one level further down.
    have hinside : Within (c.atDepth (k + 1)) { s with recursionDepth := s.recursionDepth + 1 } :=
      ⟨hs.bytes, hs.limit, congrArg (· + 1) hs.depth, hs.pos_le, hs.limit_le⟩
    rcases h.sound he hinside hlen hskip with ⟨w, hw, hsplit, hs'⟩
    have hk : s.recursionDepth = k := hs.depth
    refine ⟨w, ⟨hk ▸ hdepth, hw⟩, hsplit, hs', ?_⟩
    have hlen' : ((tape c).rest { s with recursionDepth := s.recursionDepth + 1 }).length < n := hlen
    rw [hsplit, List.length_append] at hlen'
    exact lt_of_le_of_lt (Nat.le_add_left _ _) hlen'
  complete := by
    rintro s w ⟨⟩ r ⟨hs, hlen⟩ ⟨hk, hw⟩ hr
    have hdepth : s.recursionDepth = k := hs.depth
    have hinside : Within (c.atDepth (k + 1)) { s with recursionDepth := s.recursionDepth + 1 } :=
      ⟨hs.bytes, hs.limit, congrArg (· + 1) hs.depth, hs.pos_le, hs.limit_le⟩
    rcases h.complete he hinside hlen hw hr with ⟨s', hskip, hrest⟩
    exact ⟨s', run_bind_ok.mpr ⟨(), _, run_enterGroup_ok (hdepth ▸ hk), hskip⟩, hrest⟩

theorem wireType_endGroupTag (tag : BitVec 32) :
    GPBWireFormatGetTagWireType (endGroupTag tag) = some .endGroup := by
  refine wireType_makeTag ?_ .endGroup
  rw [toNat_fieldNumber]
  have := tag.isLt
  omega

theorem reads_skipLengthDelimited :
    Reads (tape c) (ReadRawVarint64 >>= fun size => CheckFieldSize size >>= fun _ =>
      SkipRawData size.toNat) (fun w _ => ∃ bytes, DelimitedWord w bytes) := by
  refine (reads_readRawVarint64.bind fun size =>
    (reads_checkFieldSize size).bind fun _ => reads_skipRawData size.toNat).of_iff fun w _ => ?_
  constructor
  · rintro ⟨u, v, n, rfl, hu, _, v, _, rfl, ⟨rfl, hn⟩, hlen⟩
    exact ⟨v, u, n, by simp, hu, hn, hlen⟩
  · rintro ⟨bytes, u, n, rfl, hu, hn, hlen⟩
    exact ⟨u, bytes, n, rfl, hu, [], bytes, (), by simp, ⟨rfl, hn⟩, hlen⟩

theorem Skips.reads_field {n : ℕ} (h : Skips n) {k : ℕ} {tag : BitVec 32} (htag : ValidTag tag) :
    Reads ((tape (c.atDepth k)).bounded n)
      (skipField (fun tag => enterGroup >>= fun _ => skipRounds n tag) tag)
      (fun w _ => FieldWord k tag w) := by
  rcases isValidTag_iff.mp htag.1 with ⟨wireType, hwire⟩
  rw [skipField]
  simp only [FieldWord, ScalarWord, hwire]
  cases wireType with
  | varint =>
      refine ((reads_readRawVarint64.map fun _ => ()).bounded n).of_iff ?_
      simp
  | fixed64 =>
      refine ((reads_skipRawData 8).bounded n).of_iff ?_
      simp
  | lengthDelimited =>
      refine (reads_skipLengthDelimited.bounded n).of_iff ?_
      simp
  | startGroup =>
      refine (h.reads_group (wireType_endGroupTag tag)).of_iff ?_
      simp
  | endGroup =>
      refine (reads_throw _).of_iff ?_
      simp
  | fixed32 =>
      refine ((reads_skipRawData 4).bounded n).of_iff ?_
      simp

theorem FieldWord.ne_endGroup {k : ℕ} {e tag : BitVec 32} {w : List UInt8}
    (he : GPBWireFormatGetTagWireType e = some .endGroup) (h : FieldWord k tag w) : tag ≠ e := by
  rintro rfl
  rcases h with hscalar | ⟨hstart, _⟩
  · simp [ScalarWord, he] at hscalar
  · rw [he] at hstart
    cases hstart

theorem Skips.succ_sound {n : ℕ} (ih : Skips n) {k : ℕ} {e : BitVec 32}
    {s s' : GPBCodedInputStreamState} (he : GPBWireFormatGetTagWireType e = some .endGroup)
    (hs : Within (c.atDepth (k + 1)) s) (hlen : ((tape c).rest s).length < n + 1)
    (hrun : (skipRounds (n + 1) e).run s = .ok ((), s')) :
    ∃ w, GroupWord (k + 1) e w ∧ (tape c).rest s = w ++ (tape c).rest s' ∧
      Within (c.atDepth k) s' := by
  have he0 : e ≠ 0 := by
    rintro rfl
    cases he
  rw [skipRounds] at hrun
  rcases run_bind_ok.mp hrun with ⟨tag, t, htag, hnext⟩
  -- At the end of the input the tag is zero, which no group ends with.
  by_cases hend : (tape c).rest s = []
  · rw [run_readTag_end hs hend] at htag
    cases htag
    rw [if_pos (Or.inr rfl)] at hnext
    rcases run_bind_ok.mp hnext with ⟨⟨⟩, t, hcheck, _⟩
    rcases checkLastTagWas_ok hcheck with ⟨_, hlast⟩
    exact absurd hlast.symm he0
  · rcases readTag_sound hs hend htag with ⟨w, hw, hsplit, ht, _⟩
    -- The end of this group, or one more field of it.
    by_cases hclose : tag = e
    · subst hclose
      rw [if_pos (Or.inl rfl)] at hnext
      rcases run_bind_ok.mp hnext with ⟨⟨⟩, t', hcheck, hleave⟩
      rcases checkLastTagWas_ok hcheck with ⟨rfl, _⟩
      cases hleave
      refine ⟨w, .close hw, hsplit, ht.bytes, ht.limit, ?_, ht.pos_le, ht.limit_le⟩
      exact congrArg (· - 1) ht.depth
    · rw [if_neg (not_or.mpr ⟨hclose, hw.2.ne_zero⟩)] at hnext
      rcases run_bind_ok.mp hnext with ⟨⟨⟩, u, hfield, hloop⟩
      -- The tag has at least one byte, so one round less is enough for what follows.
      have htlen : ((tape c).rest t).length < n := by
        have hpos := List.length_pos_of_ne_nil hw.ne_nil
        have hlen' : (w ++ (tape c).rest t).length < n + 1 := hsplit ▸ hlen
        rw [List.length_append] at hlen'
        omega
      rcases (ih.reads_field hw.2).sound ⟨ht, htlen⟩ hfield with ⟨v, hv, hsplit', hu, hulen⟩
      rcases ih.sound he hu hulen hloop with ⟨x, hx, hsplit'', hs'⟩
      refine ⟨w ++ (v ++ x), hv.cons hw hx, ?_, hs'⟩
      calc
        (tape c).rest s = w ++ (tape c).rest t := hsplit
        _ = w ++ (v ++ (tape c).rest u) := congrArg (w ++ ·) hsplit'
        _ = w ++ (v ++ (x ++ (tape c).rest s')) := by rw [hsplit'']
        _ = w ++ (v ++ x) ++ (tape c).rest s' := by simp

theorem Skips.succ_field {n : ℕ} (ih : Skips n) {k : ℕ} {e tag : BitVec 32}
    {s : GPBCodedInputStreamState} {w u v r : List UInt8}
    (he : GPBWireFormatGetTagWireType e = some .endGroup) (hs : Within (c.atDepth (k + 1)) s)
    (hlen : ((tape c).rest s).length < n + 1) (hw : TagWord w tag) (hu : FieldWord (k + 1) tag u)
    (hv : GroupWord (k + 1) e v) (hr : (tape c).rest s = w ++ (u ++ v) ++ r) :
    ∃ s', (skipRounds (n + 1) e).run s = .ok ((), s') ∧ (tape c).rest s' = r := by
  have hsplit : (tape c).rest s = w ++ (u ++ (v ++ r)) := by simpa using hr
  rcases readTag_complete hs hw hsplit with ⟨t, htag, hrest, ht, _⟩
  have htlen : ((tape c).rest t).length < n := by
    have hpos := List.length_pos_of_ne_nil hw.ne_nil
    have hrest' : (tape c).rest t = u ++ (v ++ r) := hrest
    rw [hsplit, List.length_append] at hlen
    rw [hrest']
    omega
  rcases (ih.reads_field hw.2).reads ⟨ht, htlen⟩ hu hrest with ⟨t', hfield, hrest', ht', htlen'⟩
  rcases ih.complete he ht' htlen' hv hrest' with ⟨s', hloop, hfin⟩
  refine ⟨s', ?_, hfin⟩
  rw [skipRounds]
  refine run_bind_ok.mpr ⟨tag, t, htag, ?_⟩
  rw [if_neg (not_or.mpr ⟨hu.ne_endGroup he, hw.2.ne_zero⟩)]
  exact run_bind_ok.mpr ⟨(), t', hfield, hloop⟩

theorem Skips.succ_complete {n : ℕ} (ih : Skips n) {k : ℕ} {e : BitVec 32}
    {s : GPBCodedInputStreamState} {w r : List UInt8}
    (he : GPBWireFormatGetTagWireType e = some .endGroup) (hs : Within (c.atDepth (k + 1)) s)
    (hlen : ((tape c).rest s).length < n + 1) (hw : GroupWord (k + 1) e w)
    (hr : (tape c).rest s = w ++ r) :
    ∃ s', (skipRounds (n + 1) e).run s = .ok ((), s') ∧ (tape c).rest s' = r := by
  -- One case for each way the rest of a group goes on.
  cases hw with
  | close hclose =>
      rcases readTag_complete hs hclose hr with ⟨t, htag, hrest, _, hlast⟩
      refine ⟨{ t with recursionDepth := t.recursionDepth - 1 }, ?_, hrest⟩
      rw [skipRounds]
      refine run_bind_ok.mpr ⟨e, t, htag, ?_⟩
      rw [if_pos (Or.inl rfl)]
      exact run_bind_ok.mpr ⟨(), t, run_checkLastTagWas hlast, rfl⟩
  | scalar hw hu hv => exact ih.succ_field he hs hlen hw (Or.inl hu) hv hr
  | group hw hstart hk hu hv => exact ih.succ_field he hs hlen hw (Or.inr ⟨hstart, hk, hu⟩) hv hr

theorem skips (n : ℕ) : Skips n := by
  -- On the rounds: nested groups and further fields both have one round less.
  induction n with
  | zero =>
      constructor
      · intro c k e s s' _ _ hlen
        omega
      · intro c k e s w r _ _ hlen
        omega
  | succ n ih => exact ⟨ih.succ_sound, ih.succ_complete⟩

theorem run_skipToEndGroup (e : BitVec 32) (s : GPBCodedInputStreamState) :
    (SkipToEndGroupInternal e).run s =
      (enterGroup >>= fun _ => skipRounds (s.bytes.length + 1) e).run s := by
  rw [SkipToEndGroupInternal, StateT.run_bind, StateT.run_bind]
  cases henter : enterGroup.run s with
  | error e => rfl
  | ok p =>
      rcases p with ⟨⟨⟩, t⟩
      rw [run_enterGroup_ok (enterGroup_ok henter)] at henter
      cases henter
      rfl

theorem length_rest_lt {s : GPBCodedInputStreamState} (hs : Within c s) :
    ((tape c).rest s).length < s.bytes.length + 1 := by
  have hlimit := hs.limit_le
  rw [length_rest hs, hs.bytes]
  omega

/-- A group is skipped exactly if its nesting stays below the recursion limit. -/
theorem reads_skipToEndGroup {k : ℕ} {e : BitVec 32}
    (he : GPBWireFormatGetTagWireType e = some .endGroup) :
    Reads (tape (c.atDepth k)) (SkipToEndGroupInternal e)
      (fun w _ => k < kDefaultRecursionLimit ∧ GroupWord (k + 1) e w) where
  sound := by
    rintro s ⟨⟩ s' hs hrun
    rw [run_skipToEndGroup] at hrun
    rcases ((skips _).reads_group he).sound ⟨hs, length_rest_lt hs⟩ hrun
      with ⟨w, hw, hsplit, hs', _⟩
    exact ⟨w, hw, hsplit, hs'⟩
  complete := by
    rintro s w ⟨⟩ r hs hw hr
    rw [run_skipToEndGroup]
    exact ((skips _).reads_group he).complete ⟨hs, length_rest_lt hs⟩ hw hr

theorem slice_eq_of_rest {s s' : GPBCodedInputStreamState} {w : List UInt8} (hs : Within c s)
    (hs' : Within c s') (hsplit : (tape c).rest s = w ++ (tape c).rest s') :
    (s'.bytes.drop s.bufferPos).take (s'.bufferPos - s.bufferPos) = w := by
  have hlen := congrArg List.length hsplit
  rw [List.length_append, length_rest hs, length_rest hs'] at hlen
  have hpos := hs.pos_le
  have hpos' := hs'.pos_le
  -- The two positions differ by what was read between them.
  have hwlen : w.length = s'.bufferPos - s.bufferPos := by omega
  have hfit : s.bufferPos + (s'.bufferPos - s.bufferPos) ≤ c.limit := by omega
  have hstart : (tape c).rest s = (c.bytes.take c.limit).drop s.bufferPos := by
    simp [tape, hs.bytes, hs.limit]
  have hboth := hsplit.symm.trans (hstart.trans (rest_split hfit))
  rw [hs'.bytes]
  refine (List.append_inj hboth ?_).1.symm
  simp only [List.length_take, List.length_drop]
  have hlimit := hs.limit_le
  omega

/-- The bytes of a group whose start tag has just been read, to its end. -/
theorem readGroup_sound {k : ℕ} {tag : BitVec 32} {s s' : GPBCodedInputStreamState}
    {bytes : List UInt8} (hs : Within (c.atDepth k) s)
    (hrun : (GPBCodedInputStreamReadRetainedBytesToEndGroupNoCopy
      (GPBWireFormatGetTagFieldNumber tag)).run s = .ok (bytes, s')) :
    (k < kDefaultRecursionLimit ∧ GroupWord (k + 1) (endGroupTag tag) bytes) ∧
      (tape c).rest s = bytes ++ (tape c).rest s' ∧ Within (c.atDepth k) s' := by
  rcases run_bind_ok.mp hrun with ⟨⟨⟩, t, hcheck, hnext⟩
  rcases checkLastTagWas_ok hcheck with ⟨rfl, _⟩
  rcases run_bind_ok.mp hnext with ⟨start, u, hget, hskip⟩
  cases hget
  rcases run_bind_ok.mp hskip with ⟨⟨⟩, v, hgroup, hlast⟩
  cases hlast
  rcases (reads_skipToEndGroup (wireType_endGroupTag tag)).sound hs hgroup with ⟨w, hw, hsplit, hs'⟩
  rw [slice_eq_of_rest hs hs' hsplit]
  exact ⟨hw, hsplit, hs'⟩

theorem readGroup_complete {k : ℕ} {tag : BitVec 32} {s : GPBCodedInputStreamState}
    {w r : List UInt8} (hs : Within (c.atDepth k) s)
    (hstart : GPBWireFormatGetTagWireType tag = some .startGroup) (hlast : s.lastTag = tag)
    (hk : k < kDefaultRecursionLimit) (hw : GroupWord (k + 1) (endGroupTag tag) w)
    (hr : (tape c).rest s = w ++ r) :
    ∃ s', (GPBCodedInputStreamReadRetainedBytesToEndGroupNoCopy
      (GPBWireFormatGetTagFieldNumber tag)).run s = .ok (w, s') ∧ (tape c).rest s' = r := by
  rcases (reads_skipToEndGroup (wireType_endGroupTag tag)).reads hs ⟨hk, hw⟩ hr
    with ⟨s', hgroup, hrest, hs'⟩
  refine ⟨s', ?_, hrest⟩
  have hsplit : (tape c).rest s = w ++ (tape c).rest s' := by
    rw [hr]
    exact congrArg (w ++ ·) hrest.symm
  -- The start tag is put together again from its field number.
  have hcheck := run_checkLastTagWas (hlast.trans (makeTag_of_split hstart).symm)
  refine run_bind_ok.mpr ⟨(), s, hcheck, run_bind_ok.mpr ⟨s, s, rfl, ?_⟩⟩
  refine run_bind_ok.mpr ⟨(), s', hgroup, ?_⟩
  have hslice := slice_eq_of_rest hs hs' hsplit
  change Except.ok ((s'.bytes.drop s.bufferPos).take (s'.bufferPos - s.bufferPos), s') = _
  rw [hslice]

end Protobuf
end KmpApp
