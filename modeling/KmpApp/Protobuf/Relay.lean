import KmpApp.Protobuf.Records
import KmpApp.Protobuf.RoundTrip

/-!
# Relay — a message that passes through a reader that knows fewer fields

A reader whose descriptor has only some of the fields keeps the records of the others as unknown
bytes and writes them out behind its own fields.  Whoever knows all the fields reads from this what
it would have read from the bytes the relay was given (`relay_keeps_all`), though their order and the
spelling of their numbers are not the same.  A oneof must not be cut in two, since of its members the
one that comes last counts.
-/

namespace KmpApp
namespace Protobuf

open Codec

/-! ## Words are told apart by their beginning -/

theorem varintWord_unique {w w' r r' : List UInt8} {n n' : BitVec 64} (h : VarintWord w n)
    (h' : VarintWord w' n') (heq : w ++ r = w' ++ r') : w = w' ∧ n = n' :=
  reads_readRawVarint64.unique (within_initWithData (w ++ r)) h h' (rest_initWithData _)
    ((rest_initWithData _).trans heq)

theorem delimitedWord_unique {w w' r r' bytes bytes' : List UInt8} (h : DelimitedWord w bytes)
    (h' : DelimitedWord w' bytes') (heq : w ++ r = w' ++ r') : w = w' ∧ bytes = bytes' :=
  reads_readRetainedBytes.unique (within_initWithData (w ++ r)) h h' (rest_initWithData _)
    ((rest_initWithData _).trans heq)

theorem tagWord_unique {w w' r r' : List UInt8} {tag tag' : BitVec 32} (h : TagWord w tag)
    (h' : TagWord w' tag') (heq : w ++ r = w' ++ r') : w = w' ∧ tag = tag' :=
  reads_readRawVarint32.unique (within_initWithData (w ++ r)) h.1 h'.1 (rest_initWithData _)
    ((rest_initWithData _).trans heq)

/-! ## What the wire type says of a value -/

section Values

variable {type : GPBDataType} {w : List UInt8} {val : type.Carrier}

/-- Any varint of the same number spells the same value. -/
theorem spells_varint (hwire : GPBWireFormatForType type false = .varint)
    (h : type.Spells w val) :
    ∃ n, VarintWord w n ∧ ∀ w', VarintWord w' n → type.Spells w' val := by
  cases type with
  | bool | int32 | uInt32 | enum | sInt64 =>
      rcases h with ⟨n, hn, hval⟩
      exact ⟨n, hn, fun _ hw' => ⟨n, hw', hval⟩⟩
  | int64 | uInt64 => exact ⟨val, h, fun _ hw' => hw'⟩
  | sInt32 =>
      rcases h with ⟨m, ⟨n, hn, hm⟩, hval⟩
      exact ⟨n, hn, fun _ hw' => ⟨m, ⟨n, hw', hm⟩, hval⟩⟩
  | fixed32 | sFixed32 | float | fixed64 | sFixed64 | double | bytes | string => cases hwire

theorem spells_delimited (hwire : GPBWireFormatForType type false = .lengthDelimited)
    (h : type.Spells w val) :
    ∃ bytes, DelimitedWord w bytes ∧ ∀ w', DelimitedWord w' bytes → type.Spells w' val := by
  cases type with
  | bytes => exact ⟨val, h, fun _ hw' => hw'⟩
  | string => exact ⟨utf8 val, h, fun _ hw' => hw'⟩
  | _ => cases hwire

theorem wireFormatForType_ne_startGroup (type : GPBDataType) :
    GPBWireFormatForType type false ≠ .startGroup := by
  cases type <;> decide

theorem length_of_spells_fixed32 (hwire : GPBWireFormatForType type false = .fixed32)
    (h : type.Spells w val) : w.length = 4 := by
  cases type with
  | fixed32 | sFixed32 | float =>
      rcases h with ⟨_, ⟨hlen, _⟩, _⟩
      exact hlen
  | _ => cases hwire

theorem length_of_spells_fixed64 (hwire : GPBWireFormatForType type false = .fixed64)
    (h : type.Spells w val) : w.length = 8 := by
  cases type with
  | fixed64 | sFixed64 | double =>
      rcases h with ⟨_, ⟨hlen, _⟩, _⟩
      exact hlen
  | _ => cases hwire

end Values

/-! ## What is kept of a record -/

theorem toInt_setWidth_of_le {n : BitVec 64} (h : n.toNat ≤ 0x7fffffff) :
    (n.setWidth 32).toInt = n.toNat := by
  rw [BitVec.toInt_eq_toNat_cond, BitVec.toNat_setWidth, Nat.mod_eq_of_lt (by omega),
    if_pos (by omega)]

/-- What a reader keeps of a record it does not know holds the same values for one that does. -/
theorem KnownWord.of_kept {field : GPBFieldDescriptor} (hfield : field.WellFormed)
    {tag : BitVec 32} {v v' r r' kept : List UInt8} {vals : List field.dataType.Carrier}
    (h : KnownWord field tag v' vals) (hkept : UnknownWord tag v kept) (heq : v ++ r = v' ++ r') :
    v = v' ∧ ∃ k, kept = varint tag.toNat ++ k ∧ KnownWord field tag k vals := by
  cases h with
  | plain htag hval =>
      have hwire : GPBWireFormatGetTagWireType tag =
          some (GPBWireFormatForType field.dataType false) := by
        rw [← htag]
        exact wireType_makeTag hfield.number_lt _
      cases hkept with
      -- The number may be spelt anew, in its shortest form.
      | varint hwire' hn =>
          have htype := Option.some.inj (hwire.symm.trans hwire')
          rcases spells_varint htype hval with ⟨n, hn', hspells⟩
          rcases varintWord_unique hn hn' heq with ⟨rfl, rfl⟩
          exact ⟨rfl, _, rfl, .plain htag (hspells _ (varintWord_toNat _))⟩
      | fixed64 hwire' hlen =>
          have htype := Option.some.inj (hwire.symm.trans hwire')
          have hlen' := length_of_spells_fixed64 htype hval
          have hsame := (List.append_inj heq (hlen.trans hlen'.symm)).1
          exact ⟨hsame, _, rfl, hsame ▸ .plain htag hval⟩
      | lengthDelimited hwire' hw =>
          have htype := Option.some.inj (hwire.symm.trans hwire')
          rcases spells_delimited htype hval with ⟨bytes, hw', hspells⟩
          rcases delimitedWord_unique hw hw' heq with ⟨rfl, rfl⟩
          refine ⟨rfl, _, rfl, .plain htag (hspells _ ?_)⟩
          rcases hw with ⟨u, n, _, _, hn, hlen⟩
          exact ⟨_, n, rfl, hlen ▸ varintWord_toNat n, hn, hlen⟩
      -- No scalar field has the wire type of a group.
      | group hwire' _ =>
          have htype := Option.some.inj (hwire.symm.trans hwire')
          exact absurd htype (wireFormatForType_ne_startGroup _)
      | fixed32 hwire' hlen =>
          have htype := Option.some.inj (hwire.symm.trans hwire')
          have hlen' := length_of_spells_fixed32 htype hval
          have hsame := (List.append_inj heq (hlen.trans hlen'.symm)).1
          exact ⟨hsame, _, rfl, hsame ▸ .plain htag hval⟩
  | @packed _ body _ _ hpackable htag hu hlen hvals =>
      have hwire : GPBWireFormatGetTagWireType tag = some .lengthDelimited := by
        rw [← htag]
        exact wireType_makeTag hfield.number_lt _
      cases hkept with
      | @lengthDelimited bytes _ hw =>
          rcases hw with ⟨u, n, rfl, hu', hn, hbytes⟩
          rw [List.append_assoc, List.append_assoc] at heq
          rcases varintWord_unique hu' hu heq with ⟨rfl, rfl⟩
          -- the length counts the same bytes, cast to 32 bits or not
          have hcast := toInt_setWidth_of_le hn
          have hsame : bytes.length = body.length := by omega
          have hbody := (List.append_inj (List.append_cancel_left heq) hsame).1
          subst hbody
          exact ⟨rfl, _, rfl, .packed hpackable htag (hbytes ▸ varintWord_toNat n) hlen hvals⟩
      | varint hwire' | fixed64 hwire' | group hwire' | fixed32 hwire' =>
          rw [hwire] at hwire'
          cases hwire'

/-! ## A reader of some of the fields -/

def GPBDescriptor.restrict (full : GPBDescriptor) {n : ℕ} (f : Fin n → Fin full.count)
    (hf : Function.Injective f) : GPBDescriptor where
  count := n
  fields i := full.fields (f i)
  wellFormed i := full.wellFormed (f i)
  number_injective i j h := hf (full.number_injective (f i) (f j) h)

section Relay

variable {full : GPBDescriptor} {n : ℕ} {f : Fin n → Fin full.count} {hf : Function.Injective f}

/-- The relay knows all members of a oneof or none of them. -/
def WholeOneofs (full : GPBDescriptor) (f : Fin n → Fin full.count) : Prop :=
  ∀ i j, full.Rivals (f i) j → ∃ k, f k = j

theorem rivals_restrict {i k : Fin n} :
    (full.restrict f hf).Rivals i k ↔ full.Rivals (f i) (f k) := by
  have hne : i ≠ k ↔ f i ≠ f k := hf.ne_iff.symm
  exact and_congr_left fun _ => hne

/-- Bytes that change a message by `e`, and leave alone the fields the relay knows. -/
structure Passes (f : Fin n → Fin full.count) (bytes : List UInt8)
    (e : GPBMessage full → GPBMessage full) : Prop where
  chain : ∀ x, Chain RecordWord x bytes (e x)
  addValue : ∀ x i value, e (x.addValue (f i) value) = (e x).addValue (f i) value

theorem passes_nil : Passes f [] (fun x => x) where
  chain x := .nil x
  addValue _ _ _ := rfl

theorem Passes.append {first second : List UInt8} {e e' : GPBMessage full → GPBMessage full}
    (h : Passes f first e) (h' : Passes f second e') :
    Passes f (first ++ second) (fun x => e' (e x)) where
  chain x := (h.chain x).append (h'.chain (e x))
  addValue x i value := by rw [h.addValue, h'.addValue]

theorem Passes.kept {bytes : List UInt8} (h : Kept full bytes) :
    Passes f bytes (fun x => x.appendUnknown bytes) where
  chain := h
  addValue x i _ := (x.put_appendUnknown (f i) _ bytes).symm

theorem put_comm {j k : Fin full.count} (hjk : j ≠ k) (hrivals : ¬full.Rivals j k)
    (x : GPBMessage full) (a : Storage (full.fields j).fieldType (full.fields j).dataType)
    (b : Storage (full.fields k).fieldType (full.fields k).dataType) :
    (x.put j a).put k b = (x.put k b).put j a := by
  have hrivals' : ¬full.Rivals k j := fun h => hrivals h.symm
  refine GPBMessage.ext_values (fun l => ?_) rfl
  by_cases hj : l = j
  · subst hj
    rw [GPBMessage.put_self, GPBMessage.put_of_ne _ hjk, if_neg hrivals', GPBMessage.put_self]
  · by_cases hk : l = k
    · subst hk
      rw [GPBMessage.put_self, GPBMessage.put_of_ne _ hj, if_neg hrivals, GPBMessage.put_self]
    · rw [GPBMessage.put_of_ne _ hk, GPBMessage.put_of_ne _ hj, GPBMessage.put_of_ne _ hj,
        GPBMessage.put_of_ne _ hk]
      split
      · rw [ite_self]
      · rfl

theorem addValue_comm {j k : Fin full.count} (hjk : j ≠ k) (hrivals : ¬full.Rivals j k)
    (x : GPBMessage full) (value : (full.fields j).dataType.Carrier)
    (value' : (full.fields k).dataType.Carrier) :
    (x.addValue j value).addValue k value' = (x.addValue k value').addValue j value := by
  have hrivals' : ¬full.Rivals k j := fun h => hrivals h.symm
  simp only [GPBMessage.addValue]
  rw [GPBMessage.put_of_ne _ hjk.symm, if_neg hrivals, GPBMessage.put_of_ne _ hjk,
    if_neg hrivals', put_comm hjk hrivals]

theorem storeValue_comm {j k : Fin full.count} (hjk : j ≠ k) (hrivals : ¬full.Rivals j k)
    (x : GPBMessage full) (value : (full.fields j).dataType.Carrier)
    (val : (full.fields k).dataType.Carrier) :
    storeValue (x.addValue j value) k val = (storeValue x k val).addValue j value := by
  rw [storeValue, storeValue]
  split
  · exact addValue_comm hjk hrivals x value val
  · exact (x.put_appendUnknown j _ _).symm

theorem storeValues_comm {j k : Fin full.count} (hjk : j ≠ k) (hrivals : ¬full.Rivals j k)
    (x : GPBMessage full) (value : (full.fields j).dataType.Carrier)
    (vals : List (full.fields k).dataType.Carrier) :
    (x.addValue j value).storeValues k vals = (x.storeValues k vals).addValue j value := by
  induction vals generalizing x with
  | nil => rfl
  | cons val vals ih =>
      change (storeValue (x.addValue j value) k val).storeValues k vals =
        ((storeValue x k val).storeValues k vals).addValue j value
      rw [storeValue_comm hjk hrivals, ih]

/-- `E` has in the fields of the relay what the relay has, and nothing else. -/
structure Extends (E : GPBMessage full) (m : GPBMessage (full.restrict f hf)) : Prop where
  known : ∀ i, E.values (f i) = m.values i
  other : ∀ j, (∀ i, f i ≠ j) → E.values j = Storage.empty _ _
  unknown : E.unknownFieldData = []

theorem extends_message : Extends (GPBMessage.message : GPBMessage full)
    (GPBMessage.message : GPBMessage (full.restrict f hf)) where
  known _ := rfl
  other _ _ := rfl
  unknown := rfl

theorem Extends.addValue {E : GPBMessage full} {m : GPBMessage (full.restrict f hf)}
    (h : Extends E m) (i : Fin n) (value : (full.fields (f i)).dataType.Carrier) :
    Extends (E.addValue (f i) value) (GPBMessage.addValue m i value) where
  known := by
    intro k
    by_cases hk : k = i
    · subst hk
      have hstored : (GPBMessage.addValue m k value).values k =
          Storage.add (full.fields (f k)) _ _ (m.values k) value := GPBMessage.put_self m k _
      rw [hstored, GPBMessage.addValue, GPBMessage.put_self, h.known]
      rfl
    · have hne : f k ≠ f i := fun heq => hk (hf heq)
      rw [GPBMessage.addValue, GPBMessage.put_of_ne _ hne]
      -- The two readers clear the same fields.
      by_cases hrivals : full.Rivals (f i) (f k)
      · rw [if_pos hrivals]
        exact ((GPBMessage.put_of_ne m hk _).trans (if_pos (rivals_restrict.mpr hrivals))).symm
      · rw [if_neg hrivals, h.known]
        exact ((GPBMessage.put_of_ne m hk _).trans
          (if_neg fun h => hrivals (rivals_restrict.mp h))).symm
  other := by
    intro j hj
    rw [GPBMessage.addValue, GPBMessage.put_of_ne _ (hj i).symm, h.other j hj, ite_self]
  unknown := h.unknown

/-- The relay has read what the full reader has: the rest is among its unknown bytes. -/
def Relays (m : GPBMessage (full.restrict f hf)) (a : GPBMessage full) : Prop :=
  ∃ E e, Extends E m ∧ Passes f m.unknownFieldData e ∧ a = e E

theorem relays_message : Relays (GPBMessage.message : GPBMessage (full.restrict f hf))
    (GPBMessage.message : GPBMessage full) :=
  ⟨GPBMessage.message, fun x => x, extends_message, passes_nil, rfl⟩

theorem Relays.passes {m : GPBMessage (full.restrict f hf)} {a : GPBMessage full}
    (h : Relays m a) {bytes : List UInt8} {e : GPBMessage full → GPBMessage full}
    (he : Passes f bytes e) : Relays (m.appendUnknown bytes) (e a) := by
  rcases h with ⟨E, e', hE, he', rfl⟩
  exact ⟨E, fun x => e (e' x), ⟨hE.known, hE.other, hE.unknown⟩, he'.append he, rfl⟩

theorem Relays.storeValue {m : GPBMessage (full.restrict f hf)} {a : GPBMessage full}
    (h : Relays m a) (i : Fin n) (val : (full.fields (f i)).dataType.Carrier) :
    Relays (storeValue m i val) (storeValue a (f i) val) := by
  cases hval : unknownEnumValue (full.fields (f i)) (full.fields (f i)).dataType val with
  | none =>
      have hm : Protobuf.storeValue m i val = GPBMessage.addValue m i val :=
        @storeValue_of_none (full.restrict f hf) i val hval m
      -- The new value moves before what the unknown bytes do.
      rcases h with ⟨E, e, hE, he, rfl⟩
      rw [hm, storeValue_of_none hval]
      exact ⟨E.addValue (f i) val, e, hE.addValue i val, he, (he.addValue E i val).symm⟩
  | some raw =>
      -- Both readers refuse the value and keep the same record of it.
      have hm : Protobuf.storeValue m i val =
          m.appendUnknown (enumWord (full.fields (f i)) raw) :=
        @storeValue_of_some (full.restrict f hf) i val raw hval m
      rw [hm, storeValue_of_some hval]
      exact h.passes (.kept (kept_enumWord hval))

theorem Relays.storeValues {m : GPBMessage (full.restrict f hf)} {a : GPBMessage full}
    (h : Relays m a) (i : Fin n) (vals : List (full.fields (f i)).dataType.Carrier) :
    Relays (GPBMessage.storeValues m i vals) (a.storeValues (f i) vals) := by
  induction vals generalizing m a with
  | nil => exact h
  | cons val vals ih => exact ih (h.storeValue i val)

/-- A record that the relay does not know passes through it. -/
theorem passes_of_record (hwhole : WholeOneofs full f) {a a' : GPBMessage full} {tag : BitVec 32}
    {u v w r r' kept : List UInt8} (hu : TagWord u tag)
    (hplain : ∀ i : Fin (full.restrict f hf).count, ¬TakesPlain i tag)
    (hpacked : ∀ i : Fin (full.restrict f hf).count, ¬TakesPacked i tag)
    (hkept : UnknownWord tag v kept) (ha : RecordWord a w a') (heq : u ++ v ++ r = w ++ r') :
    u ++ v = w ∧ ∃ e, Passes f kept e ∧ a' = e a := by
  rcases recordWord_cases ha with ⟨tag', u', v', rfl, hu', hcases⟩
  have hsplit : u ++ (v ++ r) = u' ++ (v' ++ r') := by
    simpa [List.append_assoc] using heq
  rcases tagWord_unique hu hu' hsplit with ⟨rfl, rfl⟩
  -- Known to the full reader only, or to neither of the two.
  rcases hcases with ⟨j, vals, hknown, rfl⟩ | ⟨hplain', hpacked', kept', _, rfl⟩
  · rcases hknown.of_kept (full.wellFormed j) hkept (List.append_cancel_left hsplit)
      with ⟨rfl, k, rfl, hk⟩
    -- The field is none of the relay's, or it would have known the tag.
    have hother : ∀ i, f i ≠ j := by
      rintro i rfl
      cases hknown with
      | plain htag _ => exact hplain i htag
      | packed hpackable htag _ _ _ => exact hpacked i ⟨hpackable, htag⟩
    have hrivals : ∀ i, ¬full.Rivals (f i) j := by
      intro i hrivals
      rcases hwhole i j hrivals with ⟨k, hk⟩
      exact hother k hk
    exact ⟨rfl, fun x => x.storeValues j vals,
      ⟨fun x => .single (hk.record (tagWord_varint hu.2) x),
        fun x i value => storeValues_comm (hother i) (hrivals i) x value vals⟩, rfl⟩
  · have hrecord : RecordWord a (u ++ v) (a.appendUnknown kept) :=
      ⟨tag, u, v, rfl, hu, .unknown hplain' hpacked' hkept⟩
    rcases recordWord_unique hrecord ha heq with ⟨hsame, hresult⟩
    exact ⟨hsame, _, .kept (kept_unknown hu.2 hplain' hpacked' hkept), hresult.symm⟩

theorem Relays.record (hwhole : WholeOneofs full f) {m m' : GPBMessage (full.restrict f hf)}
    {a a' : GPBMessage full} {w w' r r' : List UInt8} (h : Relays m a) (hm : RecordWord m w m')
    (ha : RecordWord a w' a') (heq : w ++ r = w' ++ r') : w = w' ∧ Relays m' a' := by
  rcases recordWord_cases hm with ⟨tag, u, v, rfl, hu, hcases⟩
  rcases hcases with ⟨i, vals, hknown, rfl⟩ | ⟨hplain, hpacked, kept, hkept, rfl⟩
  -- Known to the relay, and so to the full reader.
  · have hfull : KnownWord (full.fields (f i)) tag v vals := hknown
    rcases recordWord_unique (hfull.record hu a) ha heq with ⟨hsame, hresult⟩
    exact ⟨hsame, hresult ▸ h.storeValues i vals⟩
  · rcases passes_of_record hwhole hu hplain hpacked hkept ha heq with ⟨hsame, e, he, rfl⟩
    exact ⟨hsame, h.passes he⟩

theorem Relays.chain (hwhole : WholeOneofs full f) {m m' : GPBMessage (full.restrict f hf)}
    {a a' : GPBMessage full} {bytes : List UInt8} (h : Relays m a)
    (hm : Chain RecordWord m bytes m') (ha : Chain RecordWord a bytes a') : Relays m' a' :=
  hm.lockstep (R := Relays) recordWord_ne_nil recordWord_ne_nil (Relays.record hwhole) ha h

/-! ## Reading what a relay has written -/

theorem Extends.sound {E : GPBMessage full} {m : GPBMessage (full.restrict f hf)}
    (h : Extends E m) (hm : Sound m) : Sound E where
  stored := by
    intro j
    by_cases hj : ∃ i, f i = j
    · rcases hj with ⟨i, rfl⟩
      rw [h.known i]
      exact hm.stored i
    · rw [h.other j (not_exists.mp hj)]
      exact storageSound_empty _ _ _
  exclusive := by
    intro a b hrivals
    by_cases ha : ∃ i, f i = a
    · by_cases hb : ∃ k, f k = b
      · rcases ha with ⟨i, rfl⟩
        rcases hb with ⟨k, rfl⟩
        rw [h.known i, h.known k]
        exact hm.exclusive i k (rivals_restrict.mpr hrivals)
      · exact Or.inr (h.other b (not_exists.mp hb))
    · exact Or.inl (h.other a (not_exists.mp ha))
  kept := by
    rw [h.unknown]
    exact kept_nil

/-- The fields of the relay, in its order, are all there is in `E`. -/
theorem Extends.foldl_mergeStored {E : GPBMessage full} {m : GPBMessage (full.restrict f hf)}
    (h : Extends E m) (hm : Sound m) :
    (List.finRange n).foldl (fun x i => x.mergeStored E (f i)) GPBMessage.message = E := by
  have hmap : (List.finRange n).foldl (fun x i => x.mergeStored E (f i)) GPBMessage.message =
      ((List.finRange n).map f).foldl (fun x j => x.mergeStored E j) GPBMessage.message := by
    rw [List.foldl_map]
  have hnodup : ((List.finRange n).map f).Nodup := (List.nodup_finRange n).map hf
  rw [hmap]
  refine GPBMessage.ext_values (fun j => ?_) ?_
  · rw [foldl_mergeStored_values (h.sound hm) hnodup]
    split
    · rfl
    · rename_i hmem
      refine (h.other j ?_).symm
      intro i hi
      exact hmem (List.mem_map.mpr ⟨i, List.mem_finRange i, hi⟩)
  · rw [foldl_mergeStored_unknown, h.unknown]
    rfl

theorem Relays.chain_encode {m : GPBMessage (full.restrict f hf)} {a : GPBMessage full}
    (h : Relays m a) (hm : Sound m) (hle : (encode m).length ≤ kMaximumMessageSize) :
    Chain RecordWord GPBMessage.message (encode m) a := by
  rcases h with ⟨E, e, hE, he, rfl⟩
  -- The relay writes its fields as the full reader would, only in its own order.
  have hencode : encode m = (List.finRange n).flatMap (fun i => storageWord (full.fields (f i))
      (full.fields (f i)).fieldType (full.fields (f i)).dataType (E.values (f i))) ++
        m.unknownFieldData := by
    rw [encode]
    congr 2
    funext i
    rw [hE.known i]
    rfl
  have hchain : Chain RecordWord GPBMessage.message ((List.finRange n).flatMap fun i =>
      storageWord (full.fields (f i)) (full.fields (f i)).fieldType (full.fields (f i)).dataType
        (E.values (f i)))
      ((List.finRange n).foldl (fun x i => x.mergeStored E (f i)) GPBMessage.message) := by
    refine Chain.flatMap ?_ GPBMessage.message
    intro i hmem x
    rw [hencode, List.length_append] at hle
    have hpart := length_le_flatMap hmem fun i => storageWord (full.fields (f i))
      (full.fields (f i)).fieldType (full.fields (f i)).dataType (E.values (f i))
    exact chain_storageWord (hE.sound hm) (f i) (by omega) x
  rw [hE.foldl_mergeStored hm] at hchain
  rw [hencode]
  exact hchain.append (he.chain E)

end Relay

/-- A reader of some of the fields, in any order, that writes out again what it has read loses
nothing of what the others make of the rest. -/
theorem relay_keeps_all {full : GPBDescriptor} {n : ℕ} {f : Fin n → Fin full.count}
    (hf : Function.Injective f) (hwhole : WholeOneofs full f) {bytes relayed : List UInt8}
    {m : GPBMessage (full.restrict f hf)} {m' : GPBMessage full}
    (hrelay : parseFromData (full.restrict f hf) bytes = .ok m) (hdata : data m = some relayed)
    (hfull : parseFromData full bytes = .ok m') : parseFromData full relayed = .ok m' := by
  rcases data_eq_some_iff.mp hdata with ⟨hle, rfl⟩
  have hrelays := relays_message.chain hwhole (mergeFromData_ok_iff.mp hrelay)
    (mergeFromData_ok_iff.mp hfull)
  exact mergeFromData_ok_iff.mpr
    (hrelays.chain_encode (sound_message.mergeFromData hrelay) hle)

/-- The relay knows all of an entry but the name, from the last field to the first. -/
def knownOfEntry (i : Fin 3) : Fin Entry.count :=
  i.castSucc.rev

theorem knownOfEntry_injective : Function.Injective knownOfEntry := by
  unfold Function.Injective
  decide

theorem wholeOneofs_knownOfEntry : WholeOneofs Entry knownOfEntry := by
  unfold WholeOneofs
  decide

/-- The text comes first and is cleared by the number; the relay puts its fields before the name. -/
theorem entry_relayed :
    ∃ m m', parseFromData (Entry.restrict knownOfEntry knownOfEntry_injective)
        [26, 1, 98, 10, 1, 97, 34, 3, 1, 7, 0, 16, 65] = .ok m ∧
      data m = some [34, 2, 1, 0, 16, 65, 10, 1, 97, 32, 7] ∧
      parseFromData Entry [26, 1, 98, 10, 1, 97, 34, 3, 1, 7, 0, 16, 65] = .ok m' ∧
      data m' = some [10, 1, 97, 16, 65, 34, 2, 1, 0, 32, 7] ∧
      parseFromData Entry [34, 2, 1, 0, 16, 65, 10, 1, 97, 32, 7] = .ok m' := by
  have hrelayed : (parseFromData (Entry.restrict knownOfEntry knownOfEntry_injective)
      [26, 1, 98, 10, 1, 97, 34, 3, 1, 7, 0, 16, 65]).toOption.bind data =
        some [34, 2, 1, 0, 16, 65, 10, 1, 97, 32, 7] := by
    decide +kernel
  have hread : (parseFromData Entry
      [26, 1, 98, 10, 1, 97, 34, 3, 1, 7, 0, 16, 65]).toOption.bind data =
        some [10, 1, 97, 16, 65, 34, 2, 1, 0, 32, 7] := by
    decide +kernel
  rcases exists_parsed hrelayed with ⟨m, hrelay, hdata⟩
  rcases exists_parsed hread with ⟨m', hfull, hdata'⟩
  exact ⟨m, m', hrelay, hdata, hfull, hdata',
    relay_keeps_all knownOfEntry_injective wholeOneofs_knownOfEntry hrelay hdata hfull⟩

/-- A relay that knows the number only puts it before the text that the number had cleared. -/
example : (parseFromData (Entry.restrict (fun _ : Fin 1 => (1 : Fin 4))
      (Function.injective_of_subsingleton _)) [26, 1, 98, 16, 65]).toOption.bind data =
        some [16, 65, 26, 1, 98] ∧
    (parseFromData Entry [26, 1, 98, 16, 65]).toOption.bind data = some [16, 65] ∧
    (parseFromData Entry [16, 65, 26, 1, 98]).toOption.bind data = some [26, 1, 98] := by
  decide +kernel

end Protobuf
end KmpApp
