import Orbuculum.Proof.Delivery
import Orbuculum.Proof.Refine
import Orbuculum.Spec.Options

/-!
# What `_processBlocks` reads, and what it counts

A read stores its bytes at the front of `rawBlock[wp].buffer` and their number in `fillLevel`,
or `-1` when `read` fails; the rest of the array keeps what older reads left there.
`traced_fromRead`: in every run every slot, and every block `_processBlocks` has taken, is
such a block (`DataBlock.FromRead`). `_processBlocks` reads `fillLevel` bytes from the front of
the buffer and faults on `-1`, so it never reads what an older read left.

`threads_read_bytes`: in every run of any feeder against `_processBlocks` in which the feeder has
never been a whole ring ahead, the bytes `_processBlocks` has stripped or sent are exactly the
bytes the reads of the first blocks the feeder published returned, in order. `intervalBytes`
has grown by their number modulo `2 ^ 64` in a run without `-m`. With `-m`, `main` also starts
`_checkInterval`, which reads `intervalBytes` for its report and clears it; that thread is not
in the model.
-/

namespace Orbuculum

/-- Adding `uint64_t`s wraps modulo `2 ^ 64`. -/
theorem uint64_toNat_add (a b : UInt64) : (a + b).toNat = (a.toNat + b.toNat) % 2 ^ 64 :=
  BitVec.toNat_add _ _

theorem uint64_toNat_ofNat (n : Nat) : (UInt64.ofNat n).toNat = n % 2 ^ 64 :=
  BitVec.toNat_ofNat _ _

variable {σ : Type} (ts : Nat) (dec : TPIU σ) {fd : Feeder} {fileTerminate : Bool}
  {r0 : RunTime σ}

/-- A pass of `_processBlocks` that does not fault took a block with `fillLevel` in
`[0, TRANSFER_SIZE]`. -/
theorem processBlock_valid {r r' : RunTime σ} {b : DataBlock} (h : processBlock ts dec r b = .ok r') :
    b.Valid ts := by
  unfold processBlock at h
  split_ifs at h with h0
  · unfold DataBlock.Valid; omega
  · cases hp : b.payload ts with
    | none => rw [hp] at h; cases h
    | some _ => unfold DataBlock.payload at hp; split_ifs at hp with hv; exact hv

theorem DataBlock.FromRead.fillLevel_eq {b : DataBlock} (hb : b.FromRead) (hv : b.Valid ts) :
    b.fillLevel = b.buffer.length :=
  hb.resolve_right fun h1 => by unfold DataBlock.Valid at hv; omega

/-- The bytes `_processBlocks` reads from a valid block as a read leaves it are the read's. -/
theorem DataBlock.FromRead.payload_eq {b : DataBlock} (hb : b.FromRead) (hv : b.Valid ts) :
    b.payload ts = some b.buffer := by
  rw [DataBlock.payload, if_pos hv, hb.fillLevel_eq ts hv, Int.toNat_natCast, List.take_length]

/-- **One pass of `_processBlocks` reads the whole read.** On a block as a read leaves it, a
pass that does not fault reads exactly the bytes the read stored, and adds their number to
`intervalBytes`. -/
theorem processBlock_reads {r r' : RunTime σ} {b : DataBlock} (hb : b.FromRead)
    (h : processBlock ts dec r b = .ok r') :
    (b.payload ts).getD [] = b.buffer ∧
      r'.intervalBytes.toNat = (r.intervalBytes.toNat + b.buffer.length) % 2 ^ 64 := by
  have hv := processBlock_valid ts dec h
  have hl := hb.fillLevel_eq ts hv
  have hlt : r.intervalBytes.toNat < 2 ^ 64 := UInt64.toNat_lt_size _
  refine ⟨by rw [hb.payload_eq ts hv]; rfl, ?_⟩
  unfold processBlock at h
  split_ifs at h with h0
  · cases h; omega
  · have hcount : r'.intervalBytes =
        r.intervalBytes + UInt64.ofNat (b.fillLevel % 2 ^ 64).toNat := by
      cases htp : r.useTPIU <;>
        simp only [hb.payload_eq ts hv, htp, Bool.false_eq_true, if_false, if_true] at h
      · cases h; rfl
      · obtain ⟨r₂, hs, rfl⟩ := except_map_eq_ok.1 h
        rw [purgeBlock_intervalBytes, (stripTPIU_ok ts dec hs).1]
    rw [hcount, uint64_toNat_add, uint64_toNat_ofNat, hl]; omega

/-- `_processBlocks` over blocks as reads leave them reads their whole buffers, and adds their
lengths to `intervalBytes`. -/
theorem processBlocks_reads {r r' : RunTime σ} {bs : List DataBlock} (hbs : ∀ b ∈ bs, b.FromRead)
    (h : processBlocks ts dec r bs = .ok r') :
    blockBytes ts bs = bs.flatMap DataBlock.buffer ∧
      r'.intervalBytes.toNat = (r.intervalBytes.toNat + (bs.flatMap DataBlock.buffer).length) % 2 ^ 64 := by
  induction bs generalizing r with
  | nil => cases h; simp [blockBytes, Nat.mod_eq_of_lt (UInt64.toNat_lt_size _)]
  | cons b bs ih =>
    obtain ⟨r₁, hb, h⟩ := (processBlocks_cons_eq_ok ts dec).1 h
    obtain ⟨hp, hc⟩ := processBlock_reads ts dec (hbs b (List.mem_cons_self _ _)) hb
    obtain ⟨hp', hc'⟩ := ih (fun b' hb' => hbs b' (List.mem_cons_of_mem _ hb')) h
    refine ⟨by rw [blockBytes_cons, hp, hp', List.flatMap_cons], ?_⟩
    rw [hc', hc, List.flatMap_cons, List.length_append]
    omega

/-- Without TPIU, one pass of `_processBlocks` that does not fault, on a block as a read leaves
it, sends the read's bytes whole to `_r.n`, or nothing for an empty read. -/
theorem processBlock_sends_read {r r' : RunTime σ} {b : DataBlock} (hb : b.FromRead)
    (hr : r.useTPIU = false) (h : processBlock ts dec r b = .ok r') :
    r'.useTPIU = false ∧ r'.n = r.n ∧
      r'.sent = r.sent ++ if b.buffer = [] then [] else [(r.n, b.buffer)] := by
  obtain ⟨h1, h2, h3⟩ := processBlock_passThrough hr h
  refine ⟨h1, h2, ?_⟩
  rw [h3, hb.fillLevel_eq ts (processBlock_valid ts dec h)]
  simp

/-- Without TPIU, `_processBlocks` over blocks as reads leave them sends each non-empty read
whole to `_r.n`, in order. -/
theorem processBlocks_sends_reads {r r' : RunTime σ} {bs : List DataBlock}
    (hbs : ∀ b ∈ bs, b.FromRead) (hr : r.useTPIU = false) (h : processBlocks ts dec r bs = .ok r') :
    r'.sent = r.sent ++ (bs.filter (·.buffer ≠ [])).map fun b => (r.n, b.buffer) := by
  induction bs generalizing r with
  | nil => cases h; simp
  | cons b bs ih =>
    obtain ⟨r₁, hb, h⟩ := (processBlocks_cons_eq_ok ts dec).1 h
    obtain ⟨h1, h2, h3⟩ := processBlock_sends_read ts dec (hbs b (List.mem_cons_self _ _)) hr hb
    rw [ih (fun b' hb' => hbs b' (List.mem_cons_of_mem _ hb')) h1 h, h3, h2]
    by_cases he : b.buffer = [] <;> simp [he]

/-- Every slot holds a block as a read leaves it after any step. -/
theorem fromRead_step {s s' : Sys σ} {e : Event} (hs : ∀ i, (s.rawBlock i).FromRead)
    (h : s.step ts dec fd fileTerminate e = some s') : ∀ i, (s'.rawBlock i).FromRead := by
  rcases step_cases h with h | h
  · rcases Feeder.step_cases h with ⟨x, b, p, -, -, hb, -, -, rfl⟩ | ⟨-, -, rfl⟩ | ⟨-, -, -, rfl⟩
    · intro i
      by_cases hi : i = s.wp
      · subst hi; simpa only [Function.update_same] using hb
      · simpa only [Function.update_noteq hi] using hs i
    all_goals exact hs
  · rcases processBlocksStep_cases h with ⟨-, -, rfl⟩ | ⟨-, -, -, rfl⟩ | ⟨-, -, ⟨r, -, rfl⟩ | ⟨f, -, rfl⟩⟩ <;>
      exact hs

/-- In every run, every slot holds a block as a read leaves it, and so does every block
`_processBlocks` has taken. -/
theorem traced_fromRead {s : Sys σ} {g : History} (h : Traced ts dec fd fileTerminate r0 s g) :
    (∀ i, (s.rawBlock i).FromRead) ∧ ∀ b ∈ g.processed, b.FromRead := by
  induction h with
  | init => exact ⟨fun _ => .inl rfl, fun _ hb => by cases hb⟩
  | @step s s' g e _ hst ih =>
    refine ⟨fromRead_step ts dec ih.1 hst, fun b hb => ?_⟩
    cases e
    case process =>
      cases hpb : processBlock ts dec s.r (s.rawBlock s.rp) <;>
        simp only [History.after, hpb, List.mem_append, List.mem_singleton] at hb
      case error => exact ih.2 b hb
      case ok => exact hb.elim (ih.2 b) fun hb => hb ▸ ih.1 s.rp
    all_goals exact ih.2 b hb

/-- `main` starts `_processBlocks` with `intervalBytes` zero. -/
theorem mainStart_intervalBytes {t : σ} {n : NwclientsHandle} {o : Options} {r : RunTime σ}
    (hr : mainStart t n o = .ok r) : r.intervalBytes = 0 := by
  unfold mainStart at hr
  split_ifs at hr
  · obtain ⟨st, -, rfl⟩ := except_map_eq_ok.1 hr; rfl
  · cases hr; rfl

/-- **`_processBlocks` reads exactly what the reads returned, and counts it.** From `main`'s
start-up, in every run of any feeder against `_processBlocks`, step by step with the mutex, in
which the feeder has never been `NUM_RAW_BLOCKS` published blocks ahead: the bytes
`_processBlocks` has stripped or sent are the bytes the reads of the first blocks the feeder
published returned, in order, with no byte an older read left in a buffer. Without `-m`
(`intervalReportTime` zero), `main` starts no `_checkInterval`, and `intervalBytes` is their
number modulo `2 ^ 64`. -/
theorem threads_read_bytes {t : σ} {n : NwclientsHandle} {o : Options} {s : Sys σ} {g : History}
    (hr : mainStart t n o = .ok r0) (h : Traced ts dec fd fileTerminate r0 s g)
    (hb : g.maxBacklog < numRawBlocks) :
    blockBytes ts g.processed = (g.completed.take g.processed.length).flatMap DataBlock.buffer ∧
      (o.intervalReportTime = 0 →
        s.r.intervalBytes.toNat =
          ((g.completed.take g.processed.length).flatMap DataBlock.buffer).length % 2 ^ 64) := by
  obtain ⟨hbytes, hcount⟩ :=
    processBlocks_reads ts dec (traced_fromRead ts dec h).2 (traced_processBlocks h)
  rw [← traced_taken_first h hb]
  refine ⟨hbytes, fun _ => ?_⟩
  rw [hcount, mainStart_intervalBytes hr, UInt64.toNat_zero, Nat.zero_add]

theorem threads_read_bytes_usb :
    mainStart () ⟨3443⟩ (Options.init 3443) = .ok passThroughStart ∧
      Traced 4096 idleDecoder .usb false passThroughStart usbTrace.1 usbTrace.2 ∧
      usbTrace.2.maxBacklog < numRawBlocks ∧
      (blockBytes 4096 usbTrace.2.processed =
          (usbTrace.2.completed.take usbTrace.2.processed.length).flatMap DataBlock.buffer ∧
        ((Options.init 3443).intervalReportTime = 0 →
          usbTrace.1.r.intervalBytes.toNat =
            ((usbTrace.2.completed.take usbTrace.2.processed.length).flatMap
              DataBlock.buffer).length % 2 ^ 64)) :=
  have hr : mainStart () ⟨3443⟩ (Options.init 3443) = .ok passThroughStart := rfl
  ⟨hr, usbTrace_traced, by decide,
    threads_read_bytes 4096 idleDecoder hr usbTrace_traced (by decide)⟩

end Orbuculum
