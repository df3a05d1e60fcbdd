import Orbuculum.Spec.Oflow
import Mathlib.Algebra.BigOperators.Group.List
import Mathlib.Tactic.Abel

/-!
# ORBFLOW checksums and frame extents

* `pumpcb_of_two_le`: on a frame of at least two bytes `_pumpcb` hands the callback one frame,
  `good` exactly when the 8-bit sum of all the frame's bytes is zero.
* `pumpcb_oflowEncode`: the content `OFLOWEncode` hands to `COBSEncode`, delivered back as one
  frame, comes out with its tag, payload and back matter, `good`, and no error counted.
* `pumpcb_set_not_good`: once a frame is `good`, changing any one of its bytes makes it bad
  and counts exactly one error.
* `oflowPump_spec`: over the frames the COBS pump completes in one call, the callback gets
  the fields of each frame of at least two bytes, in order, and `perror` counts the short and
  the bad ones.
* `oflowPump_encoded`: over a stream of messages encoded by `OFLOWEncode` and given back by
  the COBS pump, the callback gets each message's channel and payload, in order and `good`,
  with the receiving call's timestamp, and no error is counted.
* `oflowGetFrameExtent_eq`: on `len ≥ 1` bytes the loop stops at the first sync byte, or at
  the last byte; `oflowGetFrameExtent_empty`: on no bytes it reads past them.
-/

namespace Orbuculum

theorem foldl_add_eq (a : UInt8) (l : List UInt8) : l.foldl (· + ·) a = a + l.sum := by
  induction l generalizing a with
  | nil => simp
  | cons x l ih => simp [ih, add_assoc]

/-- `256 - s` converted to `uint8_t` is `-s`. -/
theorem ofNat_sub_toNat (s : UInt8) : UInt8.ofNat (256 - s.toNat) = -s := by
  apply eq_neg_of_add_eq_zero_left
  apply UInt8.eq_of_toBitVec_eq
  show BitVec.ofNat 8 (256 - s.toBitVec.toNat) + s.toBitVec = 0
  bv_omega

theorem oflowBackMatter_eq (channel : UInt8) (inputMsg : List UInt8) :
    oflowBackMatter channel inputMsg = -(channel + inputMsg.sum) := by
  rw [oflowBackMatter, ofNat_sub_toNat, foldl_add_eq]

/-- `_pumpcb` on a frame `tag :: (payload ++ [sum])`. -/
theorem pumpcb_frame (t : OFLOW) (a z : UInt8) (m : List UInt8) :
    pumpcb t ⟨a :: (m ++ [z])⟩ =
      let f := { t.f with
        len := m.length, tag := a, sum := z, d := m ++ [z]
        good := (a :: (m ++ [z])).sum == 0 }
      (⟨f, t.perror + if (a :: (m ++ [z])).sum = 0 then 0 else 1⟩, [f]) := by
  have hs : m.foldl (· + ·) a + z = (a :: (m ++ [z])).sum := by
    rw [foldl_add_eq]; simp [add_assoc]
  have hl : ¬ m.length + 1 + 1 < 2 := by omega
  simp [pumpcb, Frame.len, hs, hl]

theorem frame_shape {d : List UInt8} (h : 2 ≤ d.length) : ∃ a m z, d = a :: (m ++ [z]) := by
  obtain _ | ⟨a, rest⟩ := d
  · simp at h
  · have hr : rest ≠ [] := by rintro rfl; simp at h
    exact ⟨a, rest.dropLast, rest.getLast hr, by rw [List.dropLast_append_getLast]⟩

/-- `_pumpcb` on a frame of at least two bytes hands the callback one frame, `good` exactly
when the 8-bit sum of the frame's bytes is zero, and counts an error when it is not. -/
theorem pumpcb_of_two_le (t : OFLOW) {p : Frame} (h : 2 ≤ p.len) :
    ∃ f, pumpcb t p = (⟨f, t.perror + if p.d.sum = 0 then 0 else 1⟩, [f]) ∧
      f.good = (p.d.sum == 0) := by
  obtain ⟨d⟩ := p
  obtain ⟨a, m, z, rfl⟩ := frame_shape h
  exact ⟨_, pumpcb_frame t a z m, rfl⟩

/-- **Round trip of the checksum.** The content `OFLOWEncode` hands to `COBSEncode`, front
matter, body and back matter, completed as one frame, gives one callback with the channel as
tag, the payload and the back matter, marked `good`, and no error counted. -/
theorem pumpcb_oflowEncode (t : OFLOW) (channel : UInt8) (tstamp : UInt64)
    (inputMsg : List UInt8) :
    ∃ f, pumpcb t ⟨oflowEncode (fun front back body => front ++ body ++ back) channel tstamp
        inputMsg⟩ = (⟨f, t.perror⟩, [f]) ∧
      f.tag = channel ∧ f.len = inputMsg.length ∧ f.d.take f.len = inputMsg ∧
      f.sum = oflowBackMatter channel inputMsg ∧ f.good = true := by
  have hsum : (channel :: (inputMsg ++ [oflowBackMatter channel inputMsg])).sum = 0 := by
    simp only [List.sum_cons, List.sum_append, List.sum_singleton, oflowBackMatter_eq]
    abel
  have hd : [channel] ++ inputMsg ++ [oflowBackMatter channel inputMsg] =
      channel :: (inputMsg ++ [oflowBackMatter channel inputMsg]) := rfl
  simp only [oflowEncode, hd, pumpcb_frame, hsum]
  exact ⟨_, rfl, rfl, rfl, by simp, rfl, rfl⟩

/-- **Single-byte corruptions are always detected.** If `_pumpcb` marks a frame `good`, then
after any one of its bytes changes it marks the frame bad and counts exactly one error. -/
theorem pumpcb_set_not_good (t : OFLOW) {d : List UInt8} (hd : 2 ≤ d.length) {i : Nat}
    (hi : i < d.length) {v : UInt8} (hv : v ≠ d[i]) (hgood : (pumpcb t ⟨d⟩).1.f.good = true) :
    ∃ f, pumpcb t ⟨d.set i v⟩ = (⟨f, t.perror + 1⟩, [f]) ∧ f.good = false := by
  obtain ⟨f, hf, hfg⟩ := pumpcb_of_two_le t (p := ⟨d⟩) hd
  have h0 : d.sum = 0 := by rw [hf] at hgood; simpa [hfg] using hgood
  have hsplit : d.sum = (d.take i).sum + d[i] + (d.drop (i + 1)).sum := by
    rw [← List.sum_take_add_sum_drop d i, List.drop_eq_getElem_cons hi, List.sum_cons, add_assoc]
  have hset : (d.set i v).sum = v - d[i] := by
    rw [List.sum_set, if_pos hi]
    apply eq_sub_of_add_eq
    rw [hsplit] at h0
    calc (d.take i).sum + v + (d.drop (i + 1)).sum + d[i]
        = (d.take i).sum + d[i] + (d.drop (i + 1)).sum + v := by abel
      _ = v := by rw [h0, zero_add]
  have hne : (d.set i v).sum ≠ 0 := by rw [hset]; exact sub_ne_zero.mpr hv
  obtain ⟨f', hf', hfg'⟩ := pumpcb_of_two_le t (p := ⟨d.set i v⟩) (by simpa [Frame.len] using hd)
  exact ⟨f', by simpa [hne] using hf', by rw [hfg', beq_eq_false_iff_ne]; exact hne⟩

/-- The spec's bad-checksum scenario: `"hi"` on channel 3 with its back matter `44`, the last
byte then changed to `45`. -/
theorem pumpcb_set_not_good_hi :
    (pumpcb ⟨⟨0, 0, 0, 0, [], false⟩, 0⟩ ⟨[3, 104, 105, 44]⟩).1.f.good = true ∧
      ∃ f, pumpcb ⟨⟨0, 0, 0, 0, [], false⟩, 0⟩ ⟨[3, 104, 105, 44].set 3 45⟩ = (⟨f, 1⟩, [f]) ∧
        f.good = false :=
  ⟨by decide, pumpcb_set_not_good _ (by decide) (i := 3) (by decide) (v := 45) (by decide)
    (by decide)⟩

/-! ### `OFLOWPump` over the frames of a call -/

/-- What a frame of at least two bytes carries: its first byte as the tag, the bytes between
as the payload, its last byte as the sum, and whether its 8-bit sum is zero. -/
def Frame.fields (p : Frame) : UInt8 × List UInt8 × UInt8 × Bool :=
  (p.d.headD 0, (p.d.drop 1).dropLast, p.d.getLastD 0, p.d.sum == 0)

/-- The same fields of a frame handed to the packet callback. -/
def OFLOWFrame.fields (f : OFLOWFrame) : UInt8 × List UInt8 × UInt8 × Bool :=
  (f.tag, f.d.take f.len, f.sum, f.good)

theorem pumpcb_short (t : OFLOW) {p : Frame} (h : p.len < 2) :
    pumpcb t p = ({ t with perror := t.perror + 1 }, []) := by
  simp [pumpcb, h]

/-- On a frame of at least two bytes `_pumpcb` hands the callback the frame's fields, with the
timestamp of the call. -/
theorem pumpcb_fields (t : OFLOW) {p : Frame} (h : 2 ≤ p.len) :
    ∃ f, pumpcb t p = (⟨f, t.perror + if p.d.sum = 0 then 0 else 1⟩, [f]) ∧
      f.fields = p.fields ∧ f.tstamp = t.f.tstamp := by
  obtain ⟨d⟩ := p
  obtain ⟨a, m, z, rfl⟩ := frame_shape h
  refine ⟨_, pumpcb_frame t a z m, ?_, rfl⟩
  simp only [Frame.fields, List.getLastD_cons, List.getLastD_concat]
  simp [OFLOWFrame.fields]

theorem pumpFrames_spec (t : OFLOW) (ps : List Frame) :
    (pumpFrames t ps).2.map OFLOWFrame.fields = (ps.filter (2 ≤ ·.len)).map Frame.fields ∧
      (∀ f ∈ (pumpFrames t ps).2, f.tstamp = t.f.tstamp) ∧
      (pumpFrames t ps).1.f.tstamp = t.f.tstamp ∧
      (pumpFrames t ps).1.perror =
        t.perror + (ps.filter (·.len < 2)).length + (ps.filter (fun p => 2 ≤ p.len ∧ p.d.sum ≠ 0)).length := by
  induction ps generalizing t with
  | nil => simp [pumpFrames]
  | cons p ps ih =>
    by_cases h : p.len < 2
    · obtain ⟨h1, h2, h3, h4⟩ := ih { t with perror := t.perror + 1 }
      simp only [pumpFrames, pumpcb_short t h]
      refine ⟨by simpa [h] using h1, by simpa using h2, h3, ?_⟩
      simp [h, h4, Nat.not_le.2 h]; omega
    · obtain ⟨f, hf, hfs, hft⟩ := pumpcb_fields t (Nat.not_lt.1 h)
      obtain ⟨h1, h2, h3, h4⟩ := ih ⟨f, t.perror + if p.d.sum = 0 then 0 else 1⟩
      simp only [pumpFrames, hf]
      refine ⟨by simp [Nat.not_lt.1 h, h1, hfs], ?_, h3.trans hft, ?_⟩
      · simp only [List.singleton_append, List.mem_cons, forall_eq_or_imp]
        exact ⟨hft, fun g hg => (h2 g hg).trans hft⟩
      · rw [h4]
        split_ifs with hs
        · simp [h, hs]
        · simp [h, hs, Nat.not_lt.1 h]; omega

/-- **`OFLOWPump` over any call.** For every COBS pump and every run of bytes, the callback
gets one frame per completed frame of at least two bytes, in order, with that frame's tag,
payload and sum, `good` exactly when its 8-bit sum is zero, and the timestamp of the call;
`perror` grows by the number of frames shorter than two bytes plus the number of bad ones. -/
theorem oflowPump_spec {κ : Type} (cobsPump : κ → List UInt8 → κ × List Frame) (tstamp : UInt64)
    (c : κ) (t : OFLOW) (incoming : List UInt8) :
    (oflowPump cobsPump tstamp c t incoming).2.2.map OFLOWFrame.fields =
        ((cobsPump c incoming).2.filter (2 ≤ ·.len)).map Frame.fields ∧
      (∀ f ∈ (oflowPump cobsPump tstamp c t incoming).2.2, f.tstamp = tstamp) ∧
      (oflowPump cobsPump tstamp c t incoming).2.1.perror = t.perror +
        ((cobsPump c incoming).2.filter (·.len < 2)).length +
        ((cobsPump c incoming).2.filter (fun p => 2 ≤ p.len ∧ p.d.sum ≠ 0)).length := by
  obtain ⟨h1, h2, -, h4⟩ := pumpFrames_spec { t with f := { t.f with tstamp := tstamp } }
    (cobsPump c incoming).2
  exact ⟨h1, h2, h4⟩

/-- The frame the COBS pump gives back for the content `OFLOWEncode` hands `COBSEncode`. -/
def encodedFrame (channel : UInt8) (tstamp : UInt64) (inputMsg : List UInt8) : Frame :=
  ⟨oflowEncode (fun front back body => front ++ body ++ back) channel tstamp inputMsg⟩

theorem encodedFrame_fields (channel : UInt8) (tstamp : UInt64) (inputMsg : List UInt8) :
    2 ≤ (encodedFrame channel tstamp inputMsg).len ∧
      (encodedFrame channel tstamp inputMsg).d.sum = 0 ∧
      (encodedFrame channel tstamp inputMsg).fields =
        (channel, inputMsg, oflowBackMatter channel inputMsg, true) := by
  have hsum : (channel :: (inputMsg ++ [oflowBackMatter channel inputMsg])).sum = 0 := by
    simp only [List.sum_cons, List.sum_append, List.sum_singleton, oflowBackMatter_eq]
    abel
  refine ⟨by simp [encodedFrame, oflowEncode, Frame.len], hsum, ?_⟩
  simp only [Frame.fields, encodedFrame, oflowEncode, List.singleton_append, List.cons_append,
    List.nil_append, List.headD_cons, List.drop_one, List.tail_cons, List.dropLast_concat,
    List.getLastD_cons, List.getLastD_concat, hsum]
  rfl

/-- **Round trip of a stream of messages.** When one call of the COBS pump gives back the
frames `OFLOWEncode` handed `COBSEncode` for a list of messages, `OFLOWPump` hands the
callback each message's channel and payload, in order and `good`; every frame carries the
timestamp of the receiving call, not the one given to `OFLOWEncode`; and no error is
counted. -/
theorem oflowPump_encoded {κ : Type} (cobsPump : κ → List UInt8 → κ × List Frame)
    (tstamp : UInt64) (c : κ) (t : OFLOW) (incoming : List UInt8)
    (msgs : List (UInt8 × UInt64 × List UInt8))
    (hcobs : (cobsPump c incoming).2 = msgs.map fun m => encodedFrame m.1 m.2.1 m.2.2) :
    (oflowPump cobsPump tstamp c t incoming).2.2.map (fun f => (f.tag, f.d.take f.len, f.good)) =
        msgs.map (fun m => (m.1, m.2.2, true)) ∧
      (∀ f ∈ (oflowPump cobsPump tstamp c t incoming).2.2, f.tstamp = tstamp) ∧
      (oflowPump cobsPump tstamp c t incoming).2.1.perror = t.perror := by
  obtain ⟨h1, h2, -, h4⟩ := pumpFrames_spec { t with f := { t.f with tstamp := tstamp } }
    (cobsPump c incoming).2
  have hall : ∀ p ∈ (cobsPump c incoming).2, 2 ≤ p.len ∧ p.d.sum = 0 := by
    rw [hcobs]
    simp only [List.mem_map]
    rintro _ ⟨m, -, rfl⟩
    exact ⟨(encodedFrame_fields _ _ _).1, (encodedFrame_fields _ _ _).2.1⟩
  refine ⟨?_, h2, ?_⟩
  · calc _ = ((pumpFrames { t with f := { t.f with tstamp := tstamp } }
            (cobsPump c incoming).2).2.map OFLOWFrame.fields).map
              (fun x => (x.1, x.2.1, x.2.2.2)) := by
          simp [oflowPump, List.map_map, Function.comp_def, OFLOWFrame.fields]
      _ = _ := by
          rw [h1, List.filter_eq_self.2 fun p hp => by simpa using (hall p hp).1, hcobs]
          simp [List.map_map, Function.comp_def, (encodedFrame_fields _ _ _).2.2]
  · have hshort : (cobsPump c incoming).2.filter (·.len < 2) = [] :=
      List.filter_eq_nil_iff.2 fun p hp => by simpa using (hall p hp).1
    have hbad : (cobsPump c incoming).2.filter (fun p => 2 ≤ p.len ∧ p.d.sum ≠ 0) = [] :=
      List.filter_eq_nil_iff.2 fun p hp => by simp [(hall p hp).2]
    simp only [oflowPump, h4, hshort, hbad, List.length_nil, Nat.add_zero]

/-- A COBS pump that completes, in one call, the frame of message `AB` on channel 1. -/
def replayAB (c : Unit) (_ : List UInt8) : Unit × List Frame := (c, [encodedFrame 1 5 [0x41, 0x42]])

/-- `struct OFLOW` after `OFLOWInit`. -/
def oflowIdle : OFLOW := ⟨⟨0, 0, 0, 0, [], false⟩, 0⟩

theorem oflowPump_encoded_AB :
    (replayAB () []).2 = [((1 : UInt8), (5 : UInt64), [(0x41 : UInt8), 0x42])].map
        (fun m => encodedFrame m.1 m.2.1 m.2.2) ∧
      ((oflowPump replayAB 7 () oflowIdle []).2.2.map (fun f => (f.tag, f.d.take f.len, f.good)) =
          [((1 : UInt8), (5 : UInt64), [(0x41 : UInt8), 0x42])].map (fun m => (m.1, m.2.2, true)) ∧
        (∀ f ∈ (oflowPump replayAB 7 () oflowIdle []).2.2, f.tstamp = 7) ∧
        (oflowPump replayAB 7 () oflowIdle []).2.1.perror = oflowIdle.perror) :=
  ⟨rfl, oflowPump_encoded replayAB 7 () oflowIdle [] _ rfl⟩

theorem frameExtentFrom_eq (bs : List UInt8) (k : Nat) (h1 : 1 ≤ bs.length)
    (h2 : bs.length < 2 ^ 31) :
    frameExtentFrom bs bs.length k = some (k + min (bs.findIdx oflowIsEOFRAME) (bs.length - 1)) := by
  induction bs generalizing k with
  | nil => simp at h1
  | cons b bs ih =>
    have hlen : int32 (((b :: bs).length : Int) - 1) = bs.length := by
      rw [int32_of_mem] <;> simp at h2 ⊢ <;> omega
    simp only [frameExtentFrom, hlen, List.findIdx_cons]
    cases hb : oflowIsEOFRAME b
    · by_cases h0 : bs.length = 0
      · simp [h0]
      · simp only [Bool.false_eq_true, if_false, Int.natCast_eq_zero, h0, cond_false,
          List.length_cons, Nat.add_sub_cancel]
        rw [ih (k + 1) (by omega) (by simp at h2; omega), Option.some.injEq]
        omega
    · simp

/-- **`OFLOWgetFrameExtent` on a nonempty buffer.** On `len ≥ 1` bytes (an `int` count) the
loop reads no byte past them and returns the offset of the first sync byte, or `len - 1` when
there is none. -/
theorem oflowGetFrameExtent_eq (inputEnc : List UInt8) (h1 : 1 ≤ inputEnc.length)
    (h2 : inputEnc.length < 2 ^ 31) :
    oflowGetFrameExtent inputEnc inputEnc.length =
      some (min (inputEnc.findIdx oflowIsEOFRAME) (inputEnc.length - 1)) := by
  rw [oflowGetFrameExtent, frameExtentFrom_eq _ _ h1 h2, Nat.zero_add]

theorem oflowGetFrameExtent_sync : oflowGetFrameExtent [7, 0, 9] 3 = some 1 :=
  oflowGetFrameExtent_eq [7, 0, 9] (by decide) (by decide)

/-- With `len = 0` the loop still reads `*inputEnc`: on no readable bytes it reads past them,
and with `01 00` at `inputEnc` it returns `inputEnc + 1`. -/
theorem oflowGetFrameExtent_empty :
    oflowGetFrameExtent [] 0 = none ∧ oflowGetFrameExtent [1, 0] 0 = some 1 := ⟨rfl, rfl⟩

end Orbuculum
