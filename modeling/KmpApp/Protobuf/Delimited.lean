import KmpApp.Protobuf.RoundTrip

/-!
# Delimited — messages one after the other on a stream

A message carries no mark of its end, so several of them on one stream are each preceded by their
length.  The reader takes them off one by one; behind the last one it makes empty messages.
-/

namespace KmpApp
namespace Protobuf

open Codec

variable {descriptor : GPBDescriptor} {before : Option NSOutputStream}

/-! ## Writing -/

theorem emits_writeDelimited {self : GPBMessage descriptor}
    (h : (encode self).length ≤ kMaximumMessageSize) :
    Emits (sink before) (writeDelimitedToCodedOutputStream self) (lengthDelimited (encode self)) := by
  have hle := (serializedSize_le_iff self).mpr h
  rw [writeDelimitedToCodedOutputStream, if_neg (Nat.not_lt.mpr hle), lengthDelimited,
    length_encode (Or.inr h)]
  exact (emits_writeRawVarint32 _).seq (emits_writeToCodedOutputStream self)

theorem run_writeDelimited_tooLarge {self : GPBMessage descriptor}
    (h : ¬(encode self).length ≤ kMaximumMessageSize) (s : GPBOutputBufferState) :
    (writeDelimitedToCodedOutputStream self).run s =
      .error (.messageTooLarge (serializedSize self)) := by
  have hlt : serializedSize self > kMaximumMessageSize :=
    Nat.not_le.mp fun hle => h ((serializedSize_le_iff self).mp hle)
  rw [writeDelimitedToCodedOutputStream, if_pos hlt]
  rfl

/-- `delimitedData` answers an empty buffer in place of `nil`. -/
theorem delimitedData_eq (self : GPBMessage descriptor) :
    delimitedData self =
      if (encode self).length ≤ kMaximumMessageSize then lengthDelimited (encode self) else [] := by
  rw [delimitedData]
  by_cases h : (encode self).length ≤ kMaximumMessageSize
  · have hsize : serializedSize self + GPBComputeRawVarint32SizeForInteger (serializedSize self) =
        (lengthDelimited (encode self)).length := by
      rw [length_lengthDelimited, GPBComputeBytesSizeNoTag, length_encode (Or.inr h), Nat.add_comm]
    rw [hsize, filled_eq (emits_writeDelimited h), if_pos h]
  · have hraised : filled (serializedSize self + GPBComputeRawVarint32SizeForInteger
        (serializedSize self)) (writeDelimitedToCodedOutputStream self) =
        .error (.messageTooLarge (serializedSize self)) := by
      rw [filled, StateT.run_bind, run_writeDelimited_tooLarge h]
      rfl
    rw [hraised, if_neg h]

section Stream

variable {pageSize : ℕ} {output output' : NSOutputStream}

theorem writeDelimitedToOutputStream_ok (hpage : 0 < pageSize) {self : GPBMessage descriptor}
    (h : writeDelimitedToOutputStream pageSize self output = .ok output') :
    (encode self).length ≤ kMaximumMessageSize ∧
      output'.taken = output.taken ++ lengthDelimited (encode self) ∧
      output.streamStatus ≠ .closed ∧ output'.streamStatus = .closed := by
  rcases bind_eq_ok.mp h with ⟨⟨⟨⟩, s⟩, hrun, hend⟩
  -- A message that is too large is refused before anything is written.
  by_cases hle : (encode self).length ≤ kMaximumMessageSize
  · rcases run_flush_ok hpage (fun _ => emits_writeDelimited hle) hrun
      with ⟨out, hout, htaken, _, hclosed⟩
    simp only [hout, Option.getD_some] at hend
    cases hend
    refine ⟨hle, htaken, ?_, rfl⟩
    intro hshut
    -- Even an empty message has its length on the wire.
    exact List.append_ne_nil_of_left_ne_nil (varint_ne_nil _) _ (hclosed hshut)
  · rw [StateT.run_bind, run_writeDelimited_tooLarge hle] at hrun
    cases hrun

/-- The stream is closed behind the first message, so a second one is not written to it. -/
theorem writeDelimitedToOutputStream_once (hpage : 0 < pageSize) {self : GPBMessage descriptor}
    (h : writeDelimitedToOutputStream pageSize self output = .ok output')
    (next : GPBMessage descriptor) (output'' : NSOutputStream) :
    writeDelimitedToOutputStream pageSize next output' ≠ .ok output'' := by
  intro hnext
  exact (writeDelimitedToOutputStream_ok hpage hnext).2.2.1
    (writeDelimitedToOutputStream_ok hpage h).2.2.2

/-- Messages written in a row with one coded stream, which is flushed and released in the end. -/
def writeDelimitedMessages (pageSize : ℕ) (messages : List (GPBMessage descriptor))
    (output : NSOutputStream) : Except WriteException NSOutputStream := do
  let (_, state) ← (messages.forM writeDelimitedToCodedOutputStream >>= fun _ => flush).run
    (.initWithOutputStream pageSize output)
  return (state.output.getD output).close

theorem emits_writeDelimitedMessages {messages : List (GPBMessage descriptor)}
    (hle : ∀ self ∈ messages, (encode self).length ≤ kMaximumMessageSize)
    (before : Option NSOutputStream) :
    Emits (sink before) (messages.forM writeDelimitedToCodedOutputStream)
      (messages.flatMap fun self => lengthDelimited (encode self)) :=
  emits_forM fun self hself => emits_writeDelimited (hle self hself)

theorem writeDelimitedMessages_ok (hpage : 0 < pageSize) {messages : List (GPBMessage descriptor)}
    (h : writeDelimitedMessages pageSize messages output = .ok output') :
    (∀ self ∈ messages, (encode self).length ≤ kMaximumMessageSize) ∧
      output'.taken = output.taken ++ messages.flatMap fun self => lengthDelimited (encode self) := by
  rcases bind_eq_ok.mp h with ⟨⟨⟨⟩, s⟩, hrun, hend⟩
  -- None of the messages was refused for its size.
  have hle : ∀ self ∈ messages, (encode self).length ≤ kMaximumMessageSize := by
    intro self hself
    by_contra htoo
    rcases run_bind_ok.mp hrun with ⟨⟨⟩, t, hwrite, _⟩
    rcases run_of_run_forM hwrite hself with ⟨s₁, s₂, hone⟩
    rw [run_writeDelimited_tooLarge htoo] at hone
    cases hone
  rcases run_flush_ok hpage (emits_writeDelimitedMessages hle) hrun
    with ⟨out, hout, htaken, _, _⟩
  simp only [hout, Option.getD_some] at hend
  cases hend
  exact ⟨hle, htaken⟩

theorem writeDelimitedMessages_accepting (hpage : 0 < pageSize)
    {messages : List (GPBMessage descriptor)} (hall : output.answers = [])
    (hopen : output.streamStatus ≠ .closed)
    (hle : ∀ self ∈ messages, (encode self).length ≤ kMaximumMessageSize) :
    ∃ output', writeDelimitedMessages pageSize messages output = .ok output' := by
  rcases run_flush_accepting hpage (emits_writeDelimitedMessages hle) hall hopen with ⟨s, hrun⟩
  exact ⟨_, bind_eq_ok.mpr ⟨((), s), hrun, rfl⟩⟩

end Stream

/-! ## Reading -/

/-- Messages read from a stream in a row. -/
def parseDelimitedMessages (descriptor : GPBDescriptor) : ℕ → Read (List (GPBMessage descriptor))
  | 0 => return []
  | count + 1 => do
      let self ← parseDelimitedFromCodedInputStream descriptor
      return self :: (← parseDelimitedMessages descriptor count)

variable {c : Frame} {s : GPBCodedInputStreamState}

theorem run_parseDelimited_end (hs : Within c s) (hrest : (tape c).rest s = []) :
    (parseDelimitedFromCodedInputStream descriptor).run s = .ok (GPBMessage.message, s) := by
  have hend : s.bufferPos = s.currentLimit := by
    rw [hs.limit]
    exact (rest_eq_nil_iff hs).mp hrest
  simp [parseDelimitedFromCodedInputStream, GPBCodedInputStreamIsAtEnd, hend]
  rfl

theorem run_parseDelimited {w bytes r : List UInt8} {self : GPBMessage descriptor}
    (hs : Within c s) (hw : DelimitedWord w bytes) (hself : parseFromData descriptor bytes = .ok self)
    (hrest : (tape c).rest s = w ++ r) :
    ∃ s', (parseDelimitedFromCodedInputStream descriptor).run s = .ok (self, s') ∧
      (tape c).rest s' = r ∧ Within c s' := by
  -- A length has at least one byte, so the stream is not at its end.
  have hmore : s.bufferPos ≠ c.limit := by
    intro hend
    have hnil := (rest_eq_nil_iff hs).mpr hend
    rw [hrest] at hnil
    rcases hw with ⟨u, n, rfl, hu, _⟩
    exact hu.ne_nil (List.append_eq_nil_iff.mp (List.append_eq_nil_iff.mp hnil).1).1
  have hlimit := hs.limit_le
  have hpos := hs.pos_le
  have hin : s.bufferPos ≠ s.bytes.length := by
    rw [hs.bytes]
    omega
  have hbefore : s.bufferPos ≠ s.currentLimit := by
    rw [hs.limit]
    exact hmore
  rcases reads_readRetainedBytes.reads hs hw hrest with ⟨s', hread, hrest', hs'⟩
  refine ⟨s', ?_, hrest', hs'⟩
  have hgoes : GPBCodedInputStreamIsAtEnd.run s = .ok (false, s) := by
    have hfalse : decide (s.bufferPos = s.bytes.length ∨ s.bufferPos = s.currentLimit) = false :=
      decide_eq_false (not_or.mpr ⟨hin, hbefore⟩)
    rw [← hfalse]
    rfl
  refine run_bind_ok.mpr ⟨false, s, hgoes, ?_⟩
  rw [if_neg Bool.false_ne_true]
  refine run_bind_ok.mpr ⟨bytes, s', hread, ?_⟩
  rw [hself]
  rfl

theorem run_parseDelimitedMessages {messages : List (GPBMessage descriptor)}
    (hbuilt : ∀ self ∈ messages, Built self)
    (hle : ∀ self ∈ messages, (encode self).length ≤ kMaximumMessageSize) (hs : Within c s)
    (hrest : (tape c).rest s = messages.flatMap fun self => lengthDelimited (encode self))
    (further : ℕ) :
    ∃ s', (parseDelimitedMessages descriptor (messages.length + further)).run s =
      .ok (messages ++ List.replicate further GPBMessage.message, s') := by
  induction messages generalizing s with
  | nil =>
      induction further with
      | zero => exact ⟨s, rfl⟩
      | succ further ih =>
          rcases ih with ⟨s', hrun⟩
          rw [List.length_nil, Nat.zero_add] at hrun ⊢
          exact ⟨s', run_bind_ok.mpr ⟨_, s, run_parseDelimited_end hs hrest,
            run_bind_ok.mpr ⟨_, s', hrun, rfl⟩⟩⟩
  | cons self messages ih =>
      rw [List.forall_mem_cons] at hbuilt hle
      have hdata : data self = some (encode self) := data_eq_some_iff.mpr ⟨hle.1, rfl⟩
      rw [List.flatMap_cons] at hrest
      rcases run_parseDelimited hs (delimitedWord_lengthDelimited hle.1)
        (parseFromData_data hbuilt.1 hdata) hrest with ⟨t, hfirst, hrest', ht⟩
      rcases ih hbuilt.2 hle.2 ht hrest' with ⟨s', hrun⟩
      refine ⟨s', ?_⟩
      rw [List.length_cons, Nat.add_right_comm]
      exact run_bind_ok.mpr ⟨self, t, hfirst, run_bind_ok.mpr ⟨_, s', hrun, rfl⟩⟩

/-- Messages written with one coded stream, however the stream below takes them, are read back in
that order, and only empty messages after them.  A stream that takes all it is given does take them,
unless it has been closed before. -/
theorem delimited_roundTrip {pageSize : ℕ} (hpage : 0 < pageSize)
    {messages : List (GPBMessage descriptor)} (hbuilt : ∀ self ∈ messages, Built self)
    {output : NSOutputStream} (hnew : output.taken = []) :
    (∀ output', writeDelimitedMessages pageSize messages output = .ok output' → ∀ further,
      (parseDelimitedMessages descriptor (messages.length + further)).run'
        (.initWithData output'.taken) =
          .ok (messages ++ List.replicate further GPBMessage.message)) ∧
    (output.answers = [] → output.streamStatus ≠ .closed →
      (∀ self ∈ messages, ∃ bytes, data self = some bytes) →
      ∃ output', writeDelimitedMessages pageSize messages output = .ok output') := by
  constructor
  · intro output' hwrite further
    rcases writeDelimitedMessages_ok hpage hwrite with ⟨hle, htaken⟩
    rw [hnew, List.nil_append] at htaken
    rw [run'_ok]
    refine run_parseDelimitedMessages hbuilt hle (within_initWithData _) ?_ further
    rw [rest_initWithData, htaken]
  · intro hall hopen hdata
    refine writeDelimitedMessages_accepting hpage hall hopen ?_
    intro self hself
    rcases hdata self hself with ⟨bytes, hbytes⟩
    exact (data_eq_some_iff.mp hbytes).1

/-- Two acknowledgements, the second one with a text, over pages of four bytes, of which the stream
first takes one byte and then two. -/
theorem acknowledged_delimited :
    writeDelimitedMessages 4 [acknowledged, acknowledged.addValue (1 : Fin 3) "ok"]
        ⟨[], [1, 2], .notOpen⟩ = .ok ⟨[2, 8, 1, 6, 8, 1, 18, 2, 111, 107], [], .closed⟩ ∧
      (parseDelimitedMessages MessageAck 3).run'
        (.initWithData [2, 8, 1, 6, 8, 1, 18, 2, 111, 107]) =
          .ok [acknowledged, acknowledged.addValue (1 : Fin 3) "ok", GPBMessage.message] := by
  have hwrite : writeDelimitedMessages 4 [acknowledged, acknowledged.addValue (1 : Fin 3) "ok"]
      ⟨[], [1, 2], .notOpen⟩ = .ok ⟨[2, 8, 1, 6, 8, 1, 18, 2, 111, 107], [], .closed⟩ := by
    rfl
  have hbuilt : ∀ self ∈ [acknowledged, acknowledged.addValue (1 : Fin 3) "ok"], Built self := by
    intro self hself
    rcases List.mem_pair.mp hself with rfl | rfl
    · exact built_acknowledged
    · exact .addValue _ _ built_acknowledged rfl
  have hnew : (⟨[], [1, 2], .notOpen⟩ : NSOutputStream).taken = [] := rfl
  exact ⟨hwrite, (delimited_roundTrip (by decide) hbuilt hnew).1 _ hwrite 1⟩

end Protobuf
end KmpApp
