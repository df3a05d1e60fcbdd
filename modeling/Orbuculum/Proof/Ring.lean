import Orbuculum.Spec.Ring
import Mathlib.Data.List.GetD

/-!
# Order of the blocks through the ring

* `RingInv`: what every reachable state of the atomic ring satisfies: `wp` and `rp` are the
  ghost counts modulo `NUM_RAW_BLOCKS`; each slot holds the latest block put there; the
  processed blocks are completed blocks at strictly increasing positions (`Order`).
* `ring_order`: **`_processBlocks` takes a strictly increasing subsequence of the blocks the
  feeder completed**, all of them while the backlog stays below `NUM_RAW_BLOCKS`, and in
  pass-through mode sends the first `fillLevel` bytes of each, in order.
-/

namespace Orbuculum

variable {α : Type}

theorem numRawBlocks_eq : numRawBlocks = 10 := rfl

@[simp] theorem advance_val (i : Fin numRawBlocks) :
    (advance i).val = (i.val + 1) % numRawBlocks := rfl

/-- The block that stands for an unwritten slot. -/
def emptyBlock : DataBlock := ⟨0, []⟩

/-- The processed blocks are the completed ones at the strictly increasing positions `is`,
all below `lo`, where the next read starts; while the backlog has stayed below
`NUM_RAW_BLOCKS` the positions are `0, 1, ...`. -/
structure Order (s : Ring α) (is : List Nat) (lo : Nat) : Prop where
  sorted : is.Pairwise (· < ·)
  lt_lo : ∀ i ∈ is, i < lo
  lo_le : lo ≤ s.completed.length
  lo_mod : lo % numRawBlocks = s.processed.length % numRawBlocks
  processed_eq : s.processed = is.map (s.completed.getD · emptyBlock)
  lossless : s.maxBacklog < numRawBlocks → is = List.range s.processed.length ∧ lo = s.processed.length

/-- The invariant of the atomic ring. -/
structure RingInv (s : Ring α) : Prop where
  wp_eq : s.wp.val = s.completed.length % numRawBlocks
  rp_eq : s.rp.val = s.processed.length % numRawBlocks
  slot : ∀ k (hk : k < s.completed.length), s.completed.length ≤ k + numRawBlocks →
    s.rawBlock ⟨k % numRawBlocks, Nat.mod_lt _ (by decide)⟩ = s.completed[k]
  backlog : s.completed.length - s.processed.length ≤ s.maxBacklog
  order : ∃ is lo, Order s is lo

theorem init_inv (r : α) : RingInv (Ring.init r) :=
  ⟨rfl, rfl, fun _ hk => absurd hk (Nat.not_lt_zero _), Nat.zero_le _,
    ⟨[], 0, ⟨List.Pairwise.nil, by simp, le_rfl, rfl, rfl, fun _ => ⟨rfl, rfl⟩⟩⟩⟩

theorem feed_inv {s : Ring α} (hs : RingInv s) (b : DataBlock) : RingInv (s.feed b) := by
  obtain ⟨is, lo, ho⟩ := hs.order
  have hwp := hs.wp_eq
  refine ⟨?_, hs.rp_eq, ?_, ?_, ⟨is, lo, ?_⟩⟩
  · simp only [Ring.feed, advance_val, List.length_append, List.length_singleton, hwp]
    simp [numRawBlocks_eq, Nat.add_mod]
  · intro k hk hkN
    simp only [Ring.feed, List.length_append, List.length_singleton] at hk hkN ⊢
    by_cases hkp : k = s.completed.length
    · subst hkp
      have hw : (⟨s.completed.length % numRawBlocks, Nat.mod_lt _ (by decide)⟩ : Fin numRawBlocks) =
          s.wp := Fin.ext hwp.symm
      rw [hw, Function.update_same, List.getElem_concat_length _ _ _ rfl]
    · have hlt : k < s.completed.length := by omega
      have hne : (⟨k % numRawBlocks, Nat.mod_lt _ (by decide)⟩ : Fin numRawBlocks) ≠ s.wp := by
        intro h
        have := congrArg Fin.val h
        simp only [hwp, numRawBlocks_eq] at this hkN
        omega
      rw [Function.update_noteq hne, hs.slot k hlt (by omega), List.getElem_append_left]
  · simp only [Ring.feed, List.length_append, List.length_singleton]
    have := hs.backlog
    omega
  · refine ⟨ho.sorted, ho.lt_lo, ?_, ho.lo_mod, ?_,
      fun h => ho.lossless (lt_of_le_of_lt (le_max_left _ _) h)⟩
    · simp only [Ring.feed, List.length_append]; have := ho.lo_le; omega
    · simp only [Ring.feed]
      rw [ho.processed_eq]
      apply List.map_congr_left
      intro i hi
      have := ho.lt_lo i hi
      have := ho.lo_le
      rw [List.getD_append _ _ _ _ (by omega)]

theorem consume_inv {s : Ring α} (hs : RingInv s) (hen : s.wp ≠ s.rp) (r' : α) :
    RingInv (s.consume r') := by
  obtain ⟨is, lo, ho⟩ := hs.order
  have hwr : s.completed.length % numRawBlocks ≠ s.processed.length % numRawBlocks := by
    rw [← hs.wp_eq, ← hs.rp_eq]; exact fun h => hen (Fin.ext h)
  have hlo := ho.lo_le
  have hmod := ho.lo_mod
  -- the block in `rawBlock[rp]` is the last one completed on the slot of `lo`
  obtain ⟨k, hk1, hk2, hk3, hk4⟩ : ∃ k, lo ≤ k ∧ k < s.completed.length ∧
      s.completed.length ≤ k + numRawBlocks ∧ k % numRawBlocks = lo % numRawBlocks :=
    ⟨s.completed.length - 1 - (s.completed.length - 1 - lo) % numRawBlocks, by
      rw [numRawBlocks_eq] at *; omega⟩
  have hslot : s.rawBlock s.rp = s.completed[k] := by
    rw [← hs.slot k hk2 hk3]
    congr 1
    exact Fin.ext (by rw [hs.rp_eq]; exact (hk4.trans hmod).symm)
  refine ⟨hs.wp_eq, ?_, hs.slot, ?_, ⟨is ++ [k], k + 1, ?_⟩⟩
  · simp [Ring.consume, hs.rp_eq, numRawBlocks_eq, Nat.add_mod]
  · simp only [Ring.consume, List.length_append, List.length_singleton]
    have := hs.backlog
    omega
  · refine ⟨?_, ?_, hk2, ?_, ?_, ?_⟩
    · refine List.pairwise_append.2 ⟨ho.sorted, by simp, fun a ha b hb => ?_⟩
      rw [List.mem_singleton] at hb
      subst hb
      exact lt_of_lt_of_le (ho.lt_lo a ha) hk1
    · intro i hi
      rcases List.mem_append.1 hi with hi | hi
      · have := ho.lt_lo i hi; omega
      · rw [List.mem_singleton] at hi; omega
    · simp only [Ring.consume, List.length_append, List.length_singleton, numRawBlocks_eq] at hk4 hmod ⊢
      omega
    · simp only [Ring.consume, List.map_append, List.map_singleton, ← ho.processed_eq, hslot,
        List.getD_eq_getElem _ _ hk2]
    · intro hb
      replace hb : s.maxBacklog < numRawBlocks := hb
      obtain ⟨h1, h2⟩ := ho.lossless hb
      have := hs.backlog
      have hkc : k = s.processed.length := by rw [numRawBlocks_eq] at *; omega
      simp [Ring.consume, h1, hkc, List.range_succ]

theorem step_inv {act : α → DataBlock → Except Fault α} {s s' : Ring α} (hs : RingInv s)
    (h : RingStep act s s') : RingInv s' := by
  cases h with
  | feed b => exact feed_inv hs b
  | consume r' hen _ => exact consume_inv hs hen r'

theorem reachable_inv {act : α → DataBlock → Except Fault α} {r0 : α} {s : Ring α}
    (h : RingReachable act r0 s) : RingInv s := by
  induction h with
  | init => exact init_inv r0
  | step _ hst ih => exact step_inv ih hst

theorem map_range_getD {l : List DataBlock} {n : Nat} (h : n ≤ l.length) :
    (List.range n).map (l.getD · emptyBlock) = l.take n := by
  apply List.ext_getElem (by simp; omega)
  intro i h1 h2
  simp only [List.length_map, List.length_range] at h1
  simp only [List.getElem_map, List.getElem_range, List.getElem_take]
  exact List.getD_eq_getElem _ _ (by omega)

variable {σ : Type} {ts : Nat} {dec : TPIU σ}

/-- One pass of `_processBlocks` without TPIU: `fillLevel` bytes of the block to `_r.n`, or
nothing for an empty block. -/
theorem processBlock_passThrough {r r' : RunTime σ} {b : DataBlock} (hr : r.useTPIU = false)
    (h : processBlock ts dec r b = .ok r') :
    r'.useTPIU = false ∧ r'.n = r.n ∧ r'.sent = r.sent ++
      if b.fillLevel = 0 then [] else [(r.n, b.buffer.take b.fillLevel.toNat)] := by
  unfold processBlock at h
  split at h
  · cases h; simp [hr, *]
  · rename_i h0
    split at h
    · cases h
    · rename_i bytes hp
      simp only [hr, Bool.false_eq_true, if_false, Except.ok.injEq] at h
      subst h
      simp only [DataBlock.payload] at hp
      split at hp
      · cases hp; simp [hr, h0]
      · cases hp

/-- The sends of a pass-through run over `bs`: the first `fillLevel` bytes of each non-empty
block, to `n`. -/
def passThroughSends (n : NwclientsHandle) (bs : List DataBlock) :
    List (NwclientsHandle × List UInt8) :=
  (bs.filter (·.fillLevel ≠ 0)).map fun b => (n, b.buffer.take b.fillLevel.toNat)

theorem reachable_passThrough {r0 : RunTime σ} (h0 : r0.useTPIU = false) {s : Ring (RunTime σ)}
    (h : RingReachable (processBlock ts dec) r0 s) :
    s.r.useTPIU = false ∧ s.r.n = r0.n ∧ s.r.sent = r0.sent ++ passThroughSends r0.n s.processed := by
  induction h with
  | init => simp [Ring.init, h0, passThroughSends]
  | step _ hst ih =>
    obtain ⟨ih1, ih2, ih3⟩ := ih
    cases hst with
    | feed b => exact ⟨ih1, ih2, ih3⟩
    | consume r' _ hact =>
      obtain ⟨h1, h2, h3⟩ := processBlock_passThrough ih1 hact
      refine ⟨h1, h2.trans ih2, ?_⟩
      simp only [Ring.consume, h3, ih3, ih2, passThroughSends, List.filter_append,
        List.map_append, List.append_assoc]
      split <;> simp [*]

/-- **Blocks go through the ring in order.** In every reachable state of the atomic ring, with
`_processBlocks` as the consumer: the blocks it processed are completed blocks at strictly
increasing positions (so none twice, none out of order, none unwritten); if the number of
completed but unprocessed blocks has stayed below `NUM_RAW_BLOCKS`, they are exactly the first
completed blocks; and in pass-through mode its sends are the first `fillLevel` bytes of each
non-empty processed block, in order, to `_r.n`. -/
theorem ring_order (r0 : RunTime σ) {s : Ring (RunTime σ)}
    (h : RingReachable (processBlock ts dec) r0 s) :
    (∃ is : List Nat, is.Pairwise (· < ·) ∧ (∀ i ∈ is, i < s.completed.length) ∧
        s.processed = is.map (s.completed.getD · emptyBlock)) ∧
      (s.maxBacklog < numRawBlocks → s.processed = s.completed.take s.processed.length) ∧
      (r0.useTPIU = false → s.r.sent = r0.sent ++ passThroughSends r0.n s.processed) := by
  obtain ⟨is, lo, ho⟩ := (reachable_inv h).order
  refine ⟨⟨is, ho.sorted, fun i hi => lt_of_lt_of_le (ho.lt_lo i hi) ho.lo_le, ho.processed_eq⟩,
    fun hb => ?_, fun h0 => (reachable_passThrough h0 h).2.2⟩
  obtain ⟨h1, h2⟩ := ho.lossless hb
  have hc : s.processed.length ≤ s.completed.length := h2 ▸ ho.lo_le
  conv_lhs => rw [ho.processed_eq, h1]
  exact map_range_getD hc

/-- A decoder that never completes a packet. -/
def idleDecoder : TPIU Unit := ⟨fun t _ => (t, .none), fun t => (t, ⟨[]⟩)⟩

/-- The distribution thread at start-up without TPIU, on the default listen port. -/
def passThroughStart : RunTime Unit := ⟨(), 0, false, [], ⟨3443⟩, []⟩

/-- The ring after the feeder completed the block `07 09` and `_processBlocks` sent it. -/
def ringDemo : Ring (RunTime Unit) :=
  ((Ring.init passThroughStart).feed ⟨2, [7, 9]⟩).consume
    { passThroughStart with intervalBytes := 2, sent := [(⟨3443⟩, [7, 9])] }

theorem ring_order_demo :
    (∃ is : List Nat, is.Pairwise (· < ·) ∧ (∀ i ∈ is, i < ringDemo.completed.length) ∧
        ringDemo.processed = is.map (ringDemo.completed.getD · emptyBlock)) ∧
      (ringDemo.maxBacklog < numRawBlocks →
        ringDemo.processed = ringDemo.completed.take ringDemo.processed.length) ∧
      (passThroughStart.useTPIU = false →
        ringDemo.r.sent = passThroughStart.sent ++ passThroughSends passThroughStart.n ringDemo.processed) :=
  ring_order passThroughStart
    (show RingReachable (processBlock 4096 idleDecoder) passThroughStart ringDemo from
      .step (.step .init (.feed _ _)) (.consume _ _ (by decide) rfl))

end Orbuculum
