import Orbuculum.Spec.Threads
import Orbuculum.Proof.Ring

/-!
# The feeders against `_processBlocks`

* `step_cases`: a step is one of the feeder or one of `_processBlocks`; `Feeder.step_cases` says
  what each feeder's step can do, from one lemma for the loop `usbFeeder`, `seggerFeeder` and
  `serialFeeder` share (`readLoop_cases`) and one for `fileFeeder` (`fileFeeder_cases`), and
  `processBlocksStep_cases` what `_processBlocks`'s can.
* `slots_valid`: with `usbFeeder`, `seggerFeeder` or `serialFeeder`, every slot but
  `rawBlock[wp]` holds a block whose `fillLevel` is in `[0, TRANSFER_SIZE]`.
* `fileFeeder_publishes_failed_read`: `fileFeeder` publishes the `-1` of a failed `read`, and
  `_processBlocks` then reads past the buffer.
* `waiting_released`: with the other three feeders, when `_processBlocks` waits on the held
  mutex, either the ring is empty or the feeder's next step unlocks it.
* `fileFeeder_never_wakes`: `fileFeeder` never unlocks, so `_processBlocks` can wait forever
  with a block published.
-/

namespace Orbuculum

/-- A block as a read leaves it: `fillLevel` is the number of bytes the read stored at the
front of the buffer, or the `-1` of a failed `read`. The zeroed blocks of start-up are empty
reads. -/
def DataBlock.FromRead (b : DataBlock) : Prop := b.fillLevel = b.buffer.length ∨ b.fillLevel = -1

variable {σ : Type} {ts : Nat} {dec : TPIU σ} {fd : Feeder} {fileTerminate : Bool}
  {r0 : RunTime σ}

theorem Reachable.run {s s' : Sys σ} {es : List Event} (hs : Reachable ts dec fd fileTerminate r0 s)
    (h : s.run ts dec fd fileTerminate es = some s') : Reachable ts dec fd fileTerminate r0 s' := by
  induction es generalizing s with
  | nil => cases h; exact hs
  | cons e es ih =>
    simp only [Sys.run, Option.bind_eq_some] at h
    obtain ⟨s1, h1, h2⟩ := h
    exact ih (hs.step h1) h2

/-! ## One step -/

/-- What `usbFeeder`'s transfer leaves: the bytes it stored and their number, a valid block. -/
theorem bulkTransfer_stored {x : ReadResult} (hx : x.ByBulkTransfer ts) :
    (⟨x.bytes.length, x.bytes⟩ : DataBlock).FromRead ∧ (⟨x.bytes.length, x.bytes⟩ : DataBlock).Valid ts :=
  ⟨.inl rfl, Int.natCast_nonneg _, Int.ofNat_le.2 hx.2⟩

/-- What a `read` leaves: a block as reads leave them, valid when `read` returned more than 0. -/
theorem read_stored {x : ReadResult} (hx : x.ByRead ts) :
    (⟨x.ret, x.bytes⟩ : DataBlock).FromRead ∧ (0 < x.ret → (⟨x.ret, x.bytes⟩ : DataBlock).Valid ts) := by
  rcases hx with h | ⟨h, hle⟩
  · exact ⟨.inr h, fun hp => by omega⟩
  · exact ⟨.inl h, fun _ => ⟨show 0 ≤ x.ret by omega, show x.ret ≤ ts by omega⟩⟩

/-- Everything a step of the loop `usbFeeder`, `seggerFeeder` and `serialFeeder` share can do,
for a call whose every result leaves a block as reads leave them, valid whenever the loop goes
on to publish it. -/
theorem readLoop_cases {possible : ReadResult → Prop} [DecidablePred possible]
    {stored : ReadResult → DataBlock} {publishes : ReadResult → Bool}
    (hok : ∀ x, possible x → (stored x).FromRead ∧ (publishes x = true → (stored x).Valid ts))
    {s s' : Sys σ} {e : Event} (h : readLoop possible stored publishes s e = some s') :
    (∃ x b p, e = .read x ∧ s.prod = .read ∧ b.FromRead ∧ p ≠ .unlock ∧ (p = .advance → b.Valid ts) ∧
      s' = { s with rawBlock := Function.update s.rawBlock s.wp b, prod := p }) ∨
    (e = .advance ∧ s.prod = .advance ∧ s' = { s with wp := advance s.wp, prod := .unlock }) ∨
    (e = .unlock ∧ s.prod = .unlock ∧ s' = { s with held := false, prod := .read }) := by
  cases e <;> simp only [readLoop, Option.ite_none_right_eq_some, Option.some.injEq, reduceCtorEq] at h
  case read x =>
    obtain ⟨⟨hp, hx⟩, rfl⟩ := h
    refine .inl ⟨x, _, _, rfl, hp, (hok x hx).1, by split <;> decide, fun hadv => (hok x hx).2 ?_, rfl⟩
    by_contra hn
    rw [if_neg hn] at hadv
    cases hadv
  case advance => obtain ⟨hp, rfl⟩ := h; exact .inr (.inl ⟨rfl, hp, rfl⟩)
  case unlock => obtain ⟨hp, rfl⟩ := h; exact .inr (.inr ⟨rfl, hp, rfl⟩)

/-- Everything a step of `fileFeeder` can do. -/
theorem fileFeeder_cases {s s' : Sys σ} {e : Event} (h : fileFeeder ts fileTerminate s e = some s') :
    (∃ x, e = .read x ∧ s.prod = .read ∧ x.ByRead ts ∧ s' = { s with
      rawBlock := Function.update s.rawBlock s.wp ⟨x.ret, x.bytes⟩
      prod := if x.ret != 0 then .advance else if fileTerminate then .done else .read }) ∨
    (e = .advance ∧ s.prod = .advance ∧ s' = { s with wp := advance s.wp, prod := .read }) := by
  cases e <;> simp only [fileFeeder, Option.ite_none_right_eq_some, Option.some.injEq, reduceCtorEq] at h
  case read x => obtain ⟨⟨hp, hx⟩, rfl⟩ := h; exact .inl ⟨x, rfl, hp, hx, rfl⟩
  case advance => obtain ⟨hp, rfl⟩ := h; exact .inr ⟨rfl, hp, rfl⟩

/-- **Everything a step of the feeder can do.** A read leaves a block as reads leave them and
never goes on to unlock; `usbFeeder`, `seggerFeeder` and `serialFeeder` go on to advance only
with a valid block, and only they unlock, after advancing. -/
theorem Feeder.step_cases {s s' : Sys σ} {e : Event} (h : fd.step ts fileTerminate s e = some s') :
    (∃ x b p, e = .read x ∧ s.prod = .read ∧ b.FromRead ∧ p ≠ .unlock ∧
      (fd ≠ .file → p = .advance → b.Valid ts) ∧
      s' = { s with rawBlock := Function.update s.rawBlock s.wp b, prod := p }) ∨
    (e = .advance ∧ s.prod = .advance ∧
      s' = { s with wp := advance s.wp, prod := if fd = .file then .read else .unlock }) ∨
    (e = .unlock ∧ fd ≠ .file ∧ s.prod = .unlock ∧ s' = { s with held := false, prod := .read }) := by
  cases fd
  case file =>
    rcases fileFeeder_cases h with ⟨x, rfl, hp, hx, rfl⟩ | ⟨rfl, hp, rfl⟩
    · exact .inl ⟨x, _, _, rfl, hp, (read_stored hx).1, by split <;> [decide; split <;> decide],
        fun h => absurd rfl h, rfl⟩
    · exact .inr (.inl ⟨rfl, hp, rfl⟩)
  -- `usbFeeder`, `seggerFeeder` and `serialFeeder`: the loop they share
  all_goals
    rcases readLoop_cases (by first
        | exact fun x hx => ⟨(bulkTransfer_stored hx).1, fun _ => (bulkTransfer_stored hx).2⟩
        | exact fun x hx => ⟨(read_stored hx).1, fun hp => (read_stored hx).2 (of_decide_eq_true hp)⟩) h
      with ⟨x, b, p, he, hp, hb, hu, hv, rfl⟩ | ⟨he, hp, rfl⟩ | ⟨he, hp, rfl⟩
    · exact .inl ⟨x, b, p, he, hp, hb, hu, fun _ => hv, rfl⟩
    · exact .inr (.inl ⟨he, hp, rfl⟩)
    · exact .inr (.inr ⟨he, by decide, hp, rfl⟩)

/-- **Everything a step of `_processBlocks` can do**, with its guard. -/
theorem processBlocksStep_cases {s s' : Sys σ} {e : Event} (h : processBlocksStep ts dec s e = some s') :
    (e = .check ∧ s.cons = .check ∧ s' = { s with cons := if s.wp = s.rp then .lock else .process }) ∨
    (e = .lock ∧ s.cons = .lock ∧ s.held = false ∧ s' = { s with held := true, cons := .check }) ∨
    (e = .process ∧ s.cons = .process ∧
      ((∃ r, processBlock ts dec s.r (s.rawBlock s.rp) = .ok r ∧
          s' = { s with r := r, rp := advance s.rp, cons := .check }) ∨
        (∃ f, processBlock ts dec s.r (s.rawBlock s.rp) = .error f ∧ s' = { s with cons := .fault }))) := by
  cases e <;>
    simp only [processBlocksStep, Option.ite_none_right_eq_some, Option.some.injEq, reduceCtorEq] at h
  case check => obtain ⟨hc, rfl⟩ := h; exact .inl ⟨rfl, hc, rfl⟩
  case lock => obtain ⟨⟨hc, hh⟩, rfl⟩ := h; exact .inr (.inl ⟨rfl, hc, hh, rfl⟩)
  case process =>
    obtain ⟨hc, h⟩ := h
    refine .inr (.inr ⟨rfl, hc, ?_⟩)
    cases hpb : processBlock ts dec s.r (s.rawBlock s.rp) with
    | ok r => rw [hpb] at h; cases h; exact .inl ⟨r, rfl, rfl⟩
    | error f => rw [hpb] at h; cases h; exact .inr ⟨f, rfl, rfl⟩

/-- A step of the two threads is one of the feeder or one of `_processBlocks`. -/
theorem step_cases {s s' : Sys σ} {e : Event} (h : s.step ts dec fd fileTerminate e = some s') :
    fd.step ts fileTerminate s e = some s' ∨ processBlocksStep ts dec s e = some s' := by
  cases e
  case read | advance | unlock => exact .inl h
  all_goals exact .inr h

/-! ## Slots hold valid blocks, except with `fileFeeder` -/

/-- Every slot but `rawBlock[wp]` holds a valid block, and `rawBlock[wp]` does too once the
feeder is about to publish it. -/
structure SlotInv (ts : Nat) (s : Sys σ) : Prop where
  others : ∀ i, i ≠ s.wp → (s.rawBlock i).Valid ts
  publishing : s.prod = .advance → (s.rawBlock s.wp).Valid ts

theorem slotInv_step (hfd : fd ≠ .file) {s s' : Sys σ} {e : Event} (hs : SlotInv ts s)
    (h : s.step ts dec fd fileTerminate e = some s') : SlotInv ts s' := by
  rcases step_cases h with h | h
  · rcases Feeder.step_cases h with ⟨x, b, p, -, -, -, -, hv, rfl⟩ | ⟨-, hp, rfl⟩ | ⟨-, -, -, rfl⟩
    · refine ⟨fun i hi => ?_, fun hadv => ?_⟩
      · dsimp only at hi ⊢
        rw [Function.update_noteq hi]; exact hs.others i hi
      · dsimp only at hadv ⊢
        rw [Function.update_same]; exact hv hfd hadv
    · refine ⟨fun i _ => ?_, fun hadv => by simp [hfd] at hadv⟩
      by_cases hiw : i = s.wp
      · subst hiw; exact hs.publishing hp
      · exact hs.others i hiw
    · exact ⟨hs.others, fun h => by cases h⟩
  · rcases processBlocksStep_cases h with ⟨-, -, rfl⟩ | ⟨-, -, -, rfl⟩ | ⟨-, -, ⟨r, -, rfl⟩ | ⟨f, -, rfl⟩⟩ <;>
      exact ⟨hs.others, hs.publishing⟩

/-- **Slots hold valid blocks.** With `usbFeeder`, `seggerFeeder` or `serialFeeder`, in every
reachable state every slot but `rawBlock[wp]` has `fillLevel` in `[0, TRANSFER_SIZE]`. -/
theorem slots_valid (hfd : fd ≠ .file) {s : Sys σ} (h : Reachable ts dec fd fileTerminate r0 s) :
    SlotInv ts s := by
  induction h with
  | init => exact ⟨fun _ _ => ⟨le_rfl, Int.natCast_nonneg _⟩, fun h => by cases h⟩
  | step _ hst ih => exact slotInv_step hfd ih hst

/-- With `fileFeeder`, a `read` that fails with `-1` is published in slot 0, and
`_processBlocks`, processing it, reads past the buffer. -/
theorem fileFeeder_publishes_failed_read (ts : Nat) (dec : TPIU σ) (fileTerminate : Bool)
    (r0 : RunTime σ) :
    ∃ s, Reachable ts dec .file fileTerminate r0 s ∧ s.Published ⟨0, by decide⟩ ∧
      (s.rawBlock ⟨0, by decide⟩).fillLevel = -1 ∧
      ∃ s', s.run ts dec .file fileTerminate [.check, .process] = some s' ∧ s'.cons = .fault := by
  have hr : (Sys.init r0).run ts dec .file fileTerminate [.read ⟨-1, []⟩, .advance] =
      some ⟨⟨1, by decide⟩, ⟨0, by decide⟩, Function.update (fun _ => ⟨0, []⟩) ⟨0, by decide⟩ ⟨-1, []⟩,
        false, .read, .check, r0⟩ := rfl
  refine ⟨_, Reachable.init.run hr, by simp only [Sys.Published]; decide, rfl, _, rfl, rfl⟩

/-! ## Waking `_processBlocks` -/

/-- While `_processBlocks` waits on the held mutex and the feeder is not about to unlock it,
the ring is empty. -/
def WakeInv (s : Sys σ) : Prop := s.cons = .lock → s.held = true → s.prod ≠ .unlock → s.wp = s.rp

theorem wakeInv_step (hfd : fd ≠ .file) {s s' : Sys σ} {e : Event} (hs : WakeInv s)
    (h : s.step ts dec fd fileTerminate e = some s') : WakeInv s' := by
  rcases step_cases h with h | h
  · rcases Feeder.step_cases h with ⟨x, b, p, -, hp, -, -, -, rfl⟩ | ⟨-, -, rfl⟩ | ⟨-, -, -, rfl⟩
    · exact fun hc hh _ => hs hc hh (by rw [hp]; decide)
    · intro _ _ hne; simp [hfd] at hne
    · intro _ hh; cases hh
  · rcases processBlocksStep_cases h with ⟨-, -, rfl⟩ | ⟨-, -, -, rfl⟩ | ⟨-, -, ⟨r, -, rfl⟩ | ⟨f, -, rfl⟩⟩
    · intro hc _ _; dsimp only at hc ⊢; split at hc
      · assumption
      · cases hc
    all_goals intro hc; cases hc

theorem reachable_wakeInv (hfd : fd ≠ .file) {s : Sys σ}
    (h : Reachable ts dec fd fileTerminate r0 s) : WakeInv s := by
  induction h with
  | init => intro hc; cases hc
  | step _ hst ih => exact wakeInv_step hfd ih hst

/-- **The feeder releases a waiting `_processBlocks`.** With `usbFeeder`, `seggerFeeder` or
`serialFeeder`, in every reachable state where `_processBlocks` waits to lock the held
`dataForClients`, either `wp == rp` or the feeder's next step unlocks it. -/
theorem waiting_released (hfd : fd ≠ .file) {s : Sys σ} (h : Reachable ts dec fd fileTerminate r0 s)
    (hc : s.cons = .lock) (hh : s.held = true) : s.wp = s.rp ∨ s.prod = .unlock := by
  by_cases hp : s.prod = .unlock
  · exact .inr hp
  · exact .inl (reachable_wakeInv hfd h hc hh hp)

/-- `serialFeeder` has published a byte while `_processBlocks` waits on the mutex it holds; the
feeder is about to unlock it. -/
def serialWaitDemo : Sys Unit :=
  ⟨⟨1, by decide⟩, ⟨0, by decide⟩, Function.update (fun _ => ⟨0, []⟩) ⟨0, by decide⟩ ⟨1, [0x41]⟩,
    true, .unlock, .lock, passThroughStart⟩

theorem waiting_released_serial :
    serialWaitDemo.wp = serialWaitDemo.rp ∨ serialWaitDemo.prod = .unlock :=
  waiting_released (by decide : Feeder.serial ≠ .file)
    (Reachable.init.run (rfl : (Sys.init passThroughStart).run 4096 idleDecoder .serial false
      [.check, .lock, .check, .read ⟨1, [0x41]⟩, .advance] = some serialWaitDemo)) rfl rfl

/-- With `fileFeeder`, nothing ever unlocks a held mutex that `_processBlocks` waits on:
`fileFeeder` has no unlock step. -/
theorem file_wait_step {s s' : Sys σ} {e : Event} (hc : s.cons = .lock) (hh : s.held = true)
    (h : s.step ts dec .file fileTerminate e = some s') : s'.cons = .lock ∧ s'.held = true := by
  rcases step_cases h with h | h
  · rcases Feeder.step_cases h with ⟨x, b, p, -, -, -, -, -, rfl⟩ | ⟨-, -, rfl⟩ | ⟨-, hf, -⟩
    · exact ⟨hc, hh⟩
    · exact ⟨hc, hh⟩
    · exact absurd rfl hf
  · rcases processBlocksStep_cases h with ⟨-, hc', -⟩ | ⟨-, -, hh', -⟩ | ⟨-, hc', -⟩
    · rw [hc] at hc'; cases hc'
    · rw [hh] at hh'; cases hh'
    · rw [hc] at hc'; cases hc'

theorem file_wait_run {s : Sys σ} (hc : s.cons = .lock) (hh : s.held = true) :
    ∀ es s', s.run ts dec .file fileTerminate es = some s' → s'.cons = .lock ∧ s'.held = true := by
  intro es
  induction es generalizing s with
  | nil => intro s' h; cases h; exact ⟨hc, hh⟩
  | cons e es ih =>
    intro s' h
    simp only [Sys.run, Option.bind_eq_some] at h
    obtain ⟨s1, h1, h2⟩ := h
    obtain ⟨hc1, hh1⟩ := file_wait_step hc hh h1
    exact ih hc1 hh1 s' h2

/-- With `fileFeeder`, `_processBlocks` can come to wait on the mutex it holds itself after
`fileFeeder` has published a block, and then waits for ever: no later step of either thread
releases it. -/
theorem fileFeeder_never_wakes (dec : TPIU σ) (fileTerminate : Bool) (r0 : RunTime σ) :
    ∃ s, Reachable 4096 dec .file fileTerminate r0 s ∧ s.cons = .lock ∧ s.held = true ∧
      s.wp ≠ s.rp ∧ s.prod ≠ .unlock ∧
      ∀ es s', s.run 4096 dec .file fileTerminate es = some s' → s'.cons = .lock ∧ s'.held = true := by
  have hr : (Sys.init r0).run 4096 dec .file fileTerminate
      [.check, .lock, .check, .read ⟨1, [0x41]⟩, .advance] =
      some ⟨⟨1, by decide⟩, ⟨0, by decide⟩,
        Function.update (fun _ => ⟨0, []⟩) ⟨0, by decide⟩ ⟨1, [0x41]⟩, true, .read, .lock, r0⟩ := rfl
  exact ⟨_, Reachable.init.run hr, rfl, rfl, by simp, by simp, file_wait_run rfl rfl⟩

end Orbuculum
