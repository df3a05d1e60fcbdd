import Orbuculum.Proof.Threads

/-!
# The two threads refine the atomic ring

`Spec/Ring` takes one atomic step per side. `Spec/Threads` takes the code's steps: a feeder
reads into `rawBlock[wp]` and only later moves `wp` on (and unlocks), and `_processBlocks`
tests `wp == rp`, may wait on the mutex, and processes `rawBlock[rp]` in a later step.
`Traced` records along a run of the threads the blocks the feeder published and those
`_processBlocks` took.

* `refines_step`: reads, unlocks, tests and locks leave the atomic ring where it is, moving
  `wp` on is a feed, and a `process` that does not fault is a consume.
* `traced_refines`: while the feeder has never been a whole ring ahead, every state of the
  threads stands in `Refines` to a reachable state of the atomic ring.
* `threads_refine_ring`: so `_processBlocks`, step by step with the mutex, takes exactly the
  first blocks the feeder published, in order, and in pass-through mode sends their bytes in
  that order.
* `traced_processBlocks`: in every run, however far the feeder gets ahead, the distribution
  thread's state is `_processBlocks` over the blocks it took.
* `published_valid`: with `usbFeeder`, `seggerFeeder` or `serialFeeder`, while the feeder has
  never been a whole ring ahead, every block published and not yet taken, counted by the
  history, is still in its slot and valid.

`traced_indexInv`: in every run `wp` and `rp` count the blocks published and taken modulo
`NUM_RAW_BLOCKS`, so `Sys.Published` is exact while fewer than `NUM_RAW_BLOCKS` blocks wait
(`published_iff_waiting`). `reachable_traced`: every reachable state of the threads is reached
with some history, so these results speak about all of them.
-/

namespace Orbuculum

/-- What a run of the two threads has done so far: the blocks the feeder published (moved
`wp` past) and those `_processBlocks` took, both in order, and the largest number of
published blocks not yet taken. -/
structure History where
  completed : List DataBlock
  processed : List DataBlock
  maxBacklog : Nat

/-- Nothing done yet. -/
def History.init : History := ⟨[], [], 0⟩

section

variable {σ : Type} (ts : Nat) (dec : TPIU σ) (fd : Feeder) (fileTerminate : Bool)
  (r0 : RunTime σ)

/-- The history after step `e` from `s`: `advance` publishes `rawBlock[wp]`, and a `process`
that does not fault takes `rawBlock[rp]`. -/
def History.after (g : History) (s : Sys σ) : Event → History
  | .advance => ⟨g.completed ++ [s.rawBlock s.wp], g.processed,
      max g.maxBacklog (g.completed.length + 1 - g.processed.length)⟩
  | .process =>
    match processBlock ts dec s.r (s.rawBlock s.rp) with
    | .ok _ => { g with processed := g.processed ++ [s.rawBlock s.rp] }
    | .error _ => g
  | _ => g

/-- The states reachable from start-up, `_processBlocks` starting from `r0`, each with the
history of a run that reaches it. -/
inductive Traced : Sys σ → History → Prop
  | init : Traced (Sys.init r0) History.init
  | step {s s' : Sys σ} {g : History} {e : Event} : Traced s g →
      s.step ts dec fd fileTerminate e = some s' → Traced s' (g.after ts dec s e)

/-- A schedule run from `s` with history `g`. -/
def Sys.trace (s : Sys σ) (g : History) : List Event → Option (Sys σ × History)
  | [] => some (s, g)
  | e :: es => (s.step ts dec fd fileTerminate e).bind fun s' => Sys.trace s' (g.after ts dec s e) es

/-- How a state `s` of the threads with history `g` stands to a state `a` of the atomic ring:
the same indices, thread state and history, the same block in every slot but `rawBlock[wp]`,
and a `_processBlocks` about to process has a published block to take. -/
structure Refines (s : Sys σ) (g : History) (a : Ring (RunTime σ)) : Prop where
  wp : a.wp = s.wp
  rp : a.rp = s.rp
  r : a.r = s.r
  completed : a.completed = g.completed
  processed : a.processed = g.processed
  maxBacklog : a.maxBacklog = g.maxBacklog
  slots : ∀ i, i ≠ s.wp → a.rawBlock i = s.rawBlock i
  taken_le : g.processed.length ≤ g.completed.length
  pending : s.cons = .process → g.processed.length < g.completed.length

end

variable {σ : Type} {ts : Nat} {dec : TPIU σ} {fd : Feeder} {fileTerminate : Bool}
  {r0 : RunTime σ}

theorem Traced.run {s s' : Sys σ} {g g' : History} {es : List Event}
    (h : Traced ts dec fd fileTerminate r0 s g)
    (hr : s.trace ts dec fd fileTerminate g es = some (s', g')) :
    Traced ts dec fd fileTerminate r0 s' g' := by
  induction es generalizing s g with
  | nil => cases hr; exact h
  | cons e es ih =>
    obtain ⟨s1, h1, h2⟩ := Option.bind_eq_some.1 hr
    exact ih (h.step h1) h2

/-- Every reachable state is reached with some history. -/
theorem reachable_traced {s : Sys σ} (h : Reachable ts dec fd fileTerminate r0 s) :
    ∃ g, Traced ts dec fd fileTerminate r0 s g := by
  induction h with
  | init => exact ⟨_, .init⟩
  | step _ hst ih => obtain ⟨g, hg⟩ := ih; exact ⟨_, hg.step hst⟩

theorem Traced.reachable {s : Sys σ} {g : History} (h : Traced ts dec fd fileTerminate r0 s g) :
    Reachable ts dec fd fileTerminate r0 s := by
  induction h with
  | init => exact .init
  | step _ hst ih => exact ih.step hst

/-- The indices in every run, however far the feeder gets ahead: `wp` and `rp` are the numbers
of blocks published and taken modulo `NUM_RAW_BLOCKS`; `_processBlocks` has taken no more than
the feeder published, and fewer when it is about to process. -/
structure IndexInv (s : Sys σ) (g : History) : Prop where
  wp_eq : s.wp.val = g.completed.length % numRawBlocks
  rp_eq : s.rp.val = g.processed.length % numRawBlocks
  taken_le : g.processed.length ≤ g.completed.length
  pending : s.cons = .process → g.processed.length < g.completed.length

theorem indexInv_step {s s' : Sys σ} {g : History} {e : Event} (hs : IndexInv s g)
    (h : s.step ts dec fd fileTerminate e = some s') : IndexInv s' (g.after ts dec s e) := by
  have hw := hs.wp_eq
  have hr := hs.rp_eq
  have hle := hs.taken_le
  rcases step_cases h with h | h
  · rcases Feeder.step_cases h with ⟨x, b, p, rfl, -, -, -, -, rfl⟩ | ⟨rfl, -, rfl⟩ | ⟨rfl, -, -, rfl⟩
    · exact { hs with }
    · refine ⟨?_, hr, ?_, fun hc => ?_⟩ <;>
        simp only [History.after, advance_val, List.length_append, List.length_singleton]
      · rw [hw, Nat.mod_add_mod]
      · omega
      · have := hs.pending hc; omega
    · exact { hs with }
  · rcases processBlocksStep_cases h with ⟨rfl, -, rfl⟩ | ⟨rfl, -, -, rfl⟩ |
      ⟨rfl, hc, ⟨r, hpb, rfl⟩ | ⟨f, hpb, rfl⟩⟩
    · refine { hs with pending := fun hc => ?_ }
      have hne : s.wp ≠ s.rp := fun heq => by simp [heq] at hc
      refine lt_of_le_of_ne hle fun heq => hne (Fin.ext ?_)
      rw [hw, hr]
      exact (congrArg (· % numRawBlocks) heq).symm
    · exact { hs with pending := fun hc => by cases hc }
    · have hlt := hs.pending hc
      refine ⟨?_, ?_, ?_, fun hc' => by cases hc'⟩ <;>
        simp only [History.after, hpb, advance_val, List.length_append, List.length_singleton]
      · exact hw
      · rw [hr, Nat.mod_add_mod]
      · omega
    · have hg : g.after ts dec s .process = g := by simp only [History.after, hpb]
      rw [hg]
      exact { hs with pending := fun hc' => by cases hc' }

theorem traced_indexInv {s : Sys σ} {g : History} (h : Traced ts dec fd fileTerminate r0 s g) :
    IndexInv s g := by
  induction h with
  | init => exact ⟨rfl, rfl, le_rfl, fun hc => by cases hc⟩
  | step _ hst ih => exact indexInv_step ih hst

/-- `Sys.Published`, read from the indices alone, counts exactly the slots of the blocks
published and not yet taken while fewer than `NUM_RAW_BLOCKS` of them wait. -/
theorem published_iff_waiting {s : Sys σ} {g : History} (h : Traced ts dec fd fileTerminate r0 s g)
    (hw : g.completed.length - g.processed.length < numRawBlocks) (i : Fin numRawBlocks) :
    s.Published i ↔
      ∃ k, g.processed.length ≤ k ∧ k < g.completed.length ∧ k % numRawBlocks = i.val := by
  obtain ⟨hwp, hrp, hle, -⟩ := traced_indexInv h
  have hi := i.isLt
  simp only [Sys.Published, hwp, hrp, numRawBlocks_eq] at hw hi ⊢
  constructor
  · intro hlt
    exact ⟨g.processed.length + (i.val + 10 - g.processed.length % 10) % 10, by omega, by omega,
      by omega⟩
  · rintro ⟨k, h1, h2, h3⟩
    omega

theorem History.maxBacklog_le_after (g : History) (s : Sys σ) (e : Event) :
    g.maxBacklog ≤ (g.after ts dec s e).maxBacklog := by
  cases e with
  | advance => exact le_max_left _ _
  | process =>
    simp only [History.after]
    cases processBlock ts dec s.r (s.rawBlock s.rp) <;> exact le_rfl
  | _ => exact le_rfl

/-! ## The indices of the atomic ring -/

theorem RingInv.wp_ne_rp {α : Type} {a : Ring α} (ha : RingInv a)
    (hlt : a.processed.length < a.completed.length)
    (hb : a.completed.length - a.processed.length < numRawBlocks) : a.wp ≠ a.rp := by
  intro h
  have := congrArg Fin.val h
  rw [ha.wp_eq, ha.rp_eq, numRawBlocks_eq] at this
  rw [numRawBlocks_eq] at hb
  omega

theorem RingInv.taken_lt {α : Type} {a : Ring α} (ha : RingInv a)
    (hle : a.processed.length ≤ a.completed.length) (hne : a.wp ≠ a.rp) :
    a.processed.length < a.completed.length := by
  refine lt_of_le_of_ne hle fun h => hne (Fin.ext ?_)
  rw [ha.wp_eq, ha.rp_eq, h]

/-! ## One step -/

/-- **One step of the threads refines the atomic ring.** -/
theorem refines_step {s s' : Sys σ} {g : History} {e : Event} {a : Ring (RunTime σ)}
    (ha : RingReachable (processBlock ts dec) r0 a) (hR : Refines s g a)
    (hb : (g.after ts dec s e).maxBacklog < numRawBlocks)
    (h : s.step ts dec fd fileTerminate e = some s') :
    ∃ a', RingReachable (processBlock ts dec) r0 a' ∧ Refines s' (g.after ts dec s e) a' := by
  have hinv := reachable_inv ha
  rcases step_cases h with h | h
  · rcases Feeder.step_cases h with ⟨x, b, p, rfl, -, -, -, -, rfl⟩ | ⟨rfl, -, rfl⟩ | ⟨rfl, -, -, rfl⟩
    · exact ⟨a, ha, { hR with
        slots := fun i hi => (hR.slots i hi).trans (Function.update_noteq hi _ _).symm }⟩
    · refine ⟨a.feed (s.rawBlock s.wp), ha.step (.feed _ _), ⟨congrArg advance hR.wp, hR.rp, hR.r,
        congrArg (· ++ [s.rawBlock s.wp]) hR.completed, hR.processed, ?_, fun i hi => ?_, ?_,
        fun hc => ?_⟩⟩
      · simp only [Ring.feed, History.after, hR.completed, hR.processed, hR.maxBacklog]
      · by_cases hw : i = s.wp
        · subst hw; simp only [Ring.feed, hR.wp, Function.update_same]
        · simp only [Ring.feed]
          rw [Function.update_noteq (hR.wp ▸ hw), hR.slots i hw]
      · have := hR.taken_le; simp only [History.after, List.length_append]; omega
      · have := hR.pending hc; simp only [History.after, List.length_append]; omega
    · exact ⟨a, ha, { hR with }⟩
  · rcases processBlocksStep_cases h with ⟨rfl, -, rfl⟩ | ⟨rfl, -, -, rfl⟩ |
      ⟨rfl, hc, ⟨r, hpb, rfl⟩ | ⟨f, hpb, rfl⟩⟩
    · refine ⟨a, ha, { hR with pending := fun hc => ?_ }⟩
      have hne : s.wp ≠ s.rp := fun heq => by simp [heq] at hc
      exact hR.completed ▸ hR.processed ▸ hinv.taken_lt (hR.processed ▸ hR.completed ▸ hR.taken_le)
        (hR.wp ▸ hR.rp ▸ hne)
    · exact ⟨a, ha, { hR with pending := fun hc => by cases hc }⟩
    · have hg : g.after ts dec s .process =
          { g with processed := g.processed ++ [s.rawBlock s.rp] } := by
        simp only [History.after, hpb]
      rw [hg] at hb ⊢
      have hlt := hR.pending hc
      have hne : a.wp ≠ a.rp := hinv.wp_ne_rp (hR.processed ▸ hR.completed ▸ hlt) (by
        have := hinv.backlog
        rw [hR.maxBacklog] at this
        exact lt_of_le_of_lt this hb)
      have hslot : a.rawBlock a.rp = s.rawBlock s.rp := by
        rw [hR.rp, hR.slots _ fun heq => hne (by rw [hR.wp, hR.rp, heq])]
      refine ⟨a.consume r, ha.step (.consume _ _ hne (by rw [hR.r, hslot]; exact hpb)),
        ⟨hR.wp, by simp [Ring.consume, hR.rp], rfl, hR.completed, ?_, hR.maxBacklog, hR.slots,
          ?_, fun hc' => by cases hc'⟩⟩
      · simp [Ring.consume, hR.processed, hslot]
      · simp only [List.length_append, List.length_singleton]; omega
    · have hg : g.after ts dec s .process = g := by simp only [History.after, hpb]
      rw [hg]
      exact ⟨a, ha, { hR with pending := fun hc' => by cases hc' }⟩

/-! ## Whole runs -/

theorem processBlocks_append_singleton {r r' r'' : RunTime σ} {bs : List DataBlock}
    {b : DataBlock} (h : processBlocks ts dec r bs = .ok r') (hb : processBlock ts dec r' b = .ok r'') :
    processBlocks ts dec r (bs ++ [b]) = .ok r'' := by
  induction bs generalizing r with
  | nil => cases h; simp [processBlocks, hb]
  | cons x xs ih =>
    obtain ⟨r₁, hx, h⟩ := (processBlocks_cons_eq_ok ts dec).1 h
    exact (processBlocks_cons_eq_ok ts dec).2 ⟨r₁, hx, ih h⟩

/-- In every run, however far the feeder gets ahead, the distribution thread's state is
`_processBlocks` run over the blocks it took, in the order it took them. -/
theorem traced_processBlocks {s : Sys σ} {g : History} (h : Traced ts dec fd fileTerminate r0 s g) :
    processBlocks ts dec r0 g.processed = .ok s.r := by
  induction h with
  | init => rfl
  | @step s s' g e _ hst ih =>
    rcases step_cases hst with h | h
    · rcases Feeder.step_cases h with ⟨x, b, p, rfl, -, -, -, -, rfl⟩ | ⟨rfl, -, rfl⟩ | ⟨rfl, -, -, rfl⟩ <;>
        exact ih
    · rcases processBlocksStep_cases h with ⟨rfl, -, rfl⟩ | ⟨rfl, -, -, rfl⟩ |
        ⟨rfl, -, ⟨r, hpb, rfl⟩ | ⟨f, hpb, rfl⟩⟩
      · exact ih
      · exact ih
      · simpa only [History.after, hpb] using processBlocks_append_singleton ih hpb
      · simpa only [History.after, hpb] using ih

/-- While the feeder has never been a whole ring ahead, every traced state of the threads
stands in `Refines` to a reachable state of the atomic ring. -/
theorem traced_refines {s : Sys σ} {g : History} (h : Traced ts dec fd fileTerminate r0 s g)
    (hb : g.maxBacklog < numRawBlocks) :
    ∃ a, RingReachable (processBlock ts dec) r0 a ∧ Refines s g a := by
  induction h with
  | init =>
    exact ⟨Ring.init r0, .init,
      ⟨rfl, rfl, rfl, rfl, rfl, rfl, fun _ _ => rfl, le_rfl, fun hc => by cases hc⟩⟩
  | step _ hst ih =>
    obtain ⟨a, ha, hR⟩ := ih (lt_of_le_of_lt (History.maxBacklog_le_after _ _ _) hb)
    exact refines_step ha hR hb hst

/-- While the feeder has never been a whole ring ahead, `_processBlocks` has taken exactly the
first blocks the feeder published, in order. -/
theorem traced_taken_first {s : Sys σ} {g : History} (h : Traced ts dec fd fileTerminate r0 s g)
    (hb : g.maxBacklog < numRawBlocks) : g.processed = g.completed.take g.processed.length := by
  obtain ⟨a, ha, hR⟩ := traced_refines h hb
  obtain ⟨is, lo, ho⟩ := (reachable_inv ha).order
  obtain ⟨h1, h2⟩ := ho.lossless (hR.maxBacklog ▸ hb)
  have hc : a.processed.length ≤ a.completed.length := h2 ▸ ho.lo_le
  rw [← hR.processed, ← hR.completed]
  conv_lhs => rw [ho.processed_eq, h1]
  exact map_range_getD hc

/-- **The two threads refine the atomic ring, and keep the blocks in order.** In every run of
a feeder against `_processBlocks`, step by step with the mutex, in which the feeder has never
been `NUM_RAW_BLOCKS` published blocks ahead, the state corresponds to a reachable state of the
atomic ring with the same indices, thread state and history. So `_processBlocks` has taken
exactly the first blocks the feeder published, in order, and in pass-through mode its sends
are the first `fillLevel` bytes of each non-empty one, in order. -/
theorem threads_refine_ring {s : Sys σ} {g : History} (h : Traced ts dec fd fileTerminate r0 s g)
    (hb : g.maxBacklog < numRawBlocks) :
    (∃ a, RingReachable (processBlock ts dec) r0 a ∧ Refines s g a) ∧
      g.processed = g.completed.take g.processed.length ∧
      (r0.useTPIU = false → s.r.sent = r0.sent ++ passThroughSends r0.n g.processed) := by
  obtain ⟨a, ha, hR⟩ := traced_refines h hb
  refine ⟨⟨a, ha, hR⟩, traced_taken_first h hb, fun h0 => ?_⟩
  rw [← hR.r, ← hR.processed]
  exact (reachable_passThrough h0 ha).2.2

/-- A USB transfer of `07 09`, published, then sent whole by `_processBlocks`. -/
def usbSchedule : List Event := [.read ⟨0, [7, 9]⟩, .advance, .unlock, .check, .process]

/-- The state and history after `usbSchedule`. -/
def usbTrace : Sys Unit × History :=
  ((Sys.init passThroughStart).trace 4096 idleDecoder .usb false History.init usbSchedule).getD
    (Sys.init passThroughStart, History.init)

theorem usbTrace_traced : Traced 4096 idleDecoder .usb false passThroughStart usbTrace.1 usbTrace.2 :=
  Traced.init.run (rfl : (Sys.init passThroughStart).trace 4096 idleDecoder .usb false
    History.init usbSchedule = some (usbTrace.1, usbTrace.2))

theorem threads_refine_ring_usb :
    Traced 4096 idleDecoder .usb false passThroughStart usbTrace.1 usbTrace.2 ∧
      usbTrace.2.maxBacklog < numRawBlocks ∧
      ((∃ a, RingReachable (processBlock 4096 idleDecoder) passThroughStart a ∧
          Refines usbTrace.1 usbTrace.2 a) ∧
        usbTrace.2.processed = usbTrace.2.completed.take usbTrace.2.processed.length ∧
        (passThroughStart.useTPIU = false → usbTrace.1.r.sent =
          passThroughStart.sent ++ passThroughSends passThroughStart.n usbTrace.2.processed)) :=
  ⟨usbTrace_traced, by decide, threads_refine_ring usbTrace_traced (by decide)⟩

/-- **Published blocks stay in their slots, valid, until taken.** With `usbFeeder`,
`seggerFeeder` or `serialFeeder`, in every run in which the feeder has never been
`NUM_RAW_BLOCKS` published blocks ahead, each block published and not yet taken, counted by the
run's history, is still in its slot, `k % NUM_RAW_BLOCKS` for the `k`-th, and has `fillLevel`
in `[0, TRANSFER_SIZE]`. -/
theorem published_valid (hfd : fd ≠ .file) {s : Sys σ} {g : History}
    (h : Traced ts dec fd fileTerminate r0 s g) (hb : g.maxBacklog < numRawBlocks) {k : Nat}
    (hk : g.processed.length ≤ k) (hkc : k < g.completed.length) :
    g.completed[k]? = some (s.rawBlock ⟨k % numRawBlocks, Nat.mod_lt _ (by decide)⟩) ∧
      (s.rawBlock ⟨k % numRawBlocks, Nat.mod_lt _ (by decide)⟩).Valid ts := by
  obtain ⟨a, ha, hR⟩ := traced_refines h hb
  have hinv := reachable_inv ha
  have hback := hinv.backlog
  rw [hR.completed, hR.processed, hR.maxBacklog] at hback
  have hne : (⟨k % numRawBlocks, Nat.mod_lt _ (by decide)⟩ : Fin numRawBlocks) ≠ s.wp := by
    intro heq
    have hv := congrArg Fin.val heq
    rw [← hR.wp, hinv.wp_eq, hR.completed] at hv
    simp only [numRawBlocks_eq] at hv hb
    omega
  refine ⟨?_, (slots_valid hfd h.reachable).others _ hne⟩
  have hka : k < a.completed.length := hR.completed ▸ hkc
  rw [← hR.slots _ hne, hinv.slot k hka (by rw [hR.completed]; omega), List.getElem?_eq_getElem hkc]
  simp only [hR.completed]

/-- A USB transfer of `07 09`, published and not yet taken. -/
def usbPublished : Sys Unit × History :=
  ((Sys.init passThroughStart).trace 4096 idleDecoder .usb false History.init
    [.read ⟨0, [7, 9]⟩, .advance]).getD (Sys.init passThroughStart, History.init)

theorem published_valid_usb :
    Traced 4096 idleDecoder .usb false passThroughStart usbPublished.1 usbPublished.2 ∧
      usbPublished.2.maxBacklog < numRawBlocks ∧ usbPublished.2.processed.length ≤ 0 ∧
      0 < usbPublished.2.completed.length ∧
      (usbPublished.2.completed[0]? =
          some (usbPublished.1.rawBlock ⟨0 % numRawBlocks, Nat.mod_lt _ (by decide)⟩) ∧
        (usbPublished.1.rawBlock ⟨0 % numRawBlocks, Nat.mod_lt _ (by decide)⟩).Valid 4096) :=
  have h : Traced 4096 idleDecoder .usb false passThroughStart usbPublished.1 usbPublished.2 :=
    Traced.init.run (rfl : (Sys.init passThroughStart).trace 4096 idleDecoder .usb false
      History.init [.read ⟨0, [7, 9]⟩, .advance] = some (usbPublished.1, usbPublished.2))
  ⟨h, by decide, by decide, by decide,
    published_valid (by decide) h (by decide) (by decide) (by decide)⟩

end Orbuculum
