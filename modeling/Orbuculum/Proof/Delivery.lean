import Orbuculum.Proof.Purge
import Orbuculum.Proof.Channels

/-!
# No byte is lost, repeated or reordered on the way to a sink

With TPIU, between two passes of `_processBlocks` every byte routed to a handler has either
been sent to the handler's sink or is waiting in its buffer. `delivered r j` is what handler
`j` has sent, followed by what it holds.

* `delivered_stripTPIU`: `_stripTPIU` appends to what each handler has delivered the bytes
  routed to it.
* `delivered_purgeBlock`: `_purgeBlock` moves bytes from buffers to sinks and changes nothing
  that has been delivered, whatever handlers it skips.
* `processBlocks_delivers`: **over any sequence of blocks that `_processBlocks` takes without
  undefined behaviour, with one sink per handler, what each handler has delivered grows by
  exactly the bytes of the decoded stream routed to it**, in order. Bytes can wait forever
  (`purgeBlock_skips`), but none is dropped or sent twice. `processBlocks_run` also keeps
  the handlers' channels and TPIU mode.
* `parseChannelList_sinks_nodup`: the handlers `main` opens for an accepted `-t` list of fewer
  than 256 channels are all in use and have one sink each, as `processBlocks_delivers` asks
  (`parseChannelList_handlers`: they are the channels of the list, in order).
-/

namespace Orbuculum

variable {σ : Type} (ts : Nat) (dec : TPIU σ)

/-- The bytes sent to sink `n`, in order. -/
def sentTo (n : NwclientsHandle) (sent : List (NwclientsHandle × List UInt8)) : List UInt8 :=
  (sent.filter (·.1 == n)).flatMap (·.2)

/-- What handler `j` has delivered: the bytes sent to its sink, then those in its buffer. -/
def delivered (r : RunTime σ) (j : Nat) : Option (List UInt8) :=
  r.handler[j]?.map fun h => sentTo h.n r.sent ++ h.strippedBlock

/-- The sinks of a handler list. -/
def sinks (hs : List Handler) : List NwclientsHandle := hs.map (·.n)

/-- The bytes of the blocks `_processBlocks` takes, in order. -/
def blockBytes (bs : List DataBlock) : List UInt8 := bs.flatMap fun b => (b.payload ts).getD []

@[simp] theorem sentTo_nil (n : NwclientsHandle) : sentTo n [] = [] := rfl

@[simp] theorem sentTo_append (n : NwclientsHandle) (s s' : List (NwclientsHandle × List UInt8)) :
    sentTo n (s ++ s') = sentTo n s ++ sentTo n s' := by
  simp [sentTo, List.filter_append]

theorem sentTo_cons (n m : NwclientsHandle) (l : List UInt8) (s : List (NwclientsHandle × List UInt8)) :
    sentTo n ((m, l) :: s) = (if m = n then l else []) ++ sentTo n s := by
  by_cases h : m = n <;> simp [sentTo, List.filter_cons, h]

theorem sentTo_eq_nil {n : NwclientsHandle} {s : List (NwclientsHandle × List UInt8)}
    (h : ∀ p ∈ s, p.1 ≠ n) : sentTo n s = [] := by
  rw [sentTo, List.filter_eq_nil_iff.2 fun p hp => by simpa using h p hp]
  rfl

theorem routedTo_append (hs : List Handler) (gs gs' : List TPIUTuple) (j : Nat) :
    routedTo hs (gs ++ gs') j = routedTo hs gs j ++ routedTo hs gs' j := by
  simp [routedTo, List.filter_append]

theorem decodeAll_append (t : σ) (xs ys : List UInt8) :
    decodeAll dec t (xs ++ ys) =
      ((decodeAll dec (decodeAll dec t xs).1 ys).1,
        (decodeAll dec t xs).2 ++ (decodeAll dec (decodeAll dec t xs).1 ys).2) := by
  induction xs generalizing t with
  | nil => rfl
  | cons b xs ih =>
    simp only [List.cons_append, decodeAll, List.append_eq]
    rcases dec.pump t b with ⟨t1, ev⟩
    cases ev <;> simp only [ih, List.append_assoc]

/-! ### `_purgeBlock` -/

theorem flushPrefix_cons_send {h : Handler} (he : h.strippedBlock.length ≠ 0) (hs : List Handler) :
    flushPrefix (h :: hs) = ({ h with strippedBlock := [] } :: (flushPrefix hs).1,
      (h.n, h.strippedBlock) :: (flushPrefix hs).2) := by
  rw [flushPrefix, if_pos he]

theorem flushPrefix_cons_stop {h : Handler} (he : h.strippedBlock.length = 0) (hs : List Handler) :
    flushPrefix (h :: hs) = (h :: hs, []) := by
  rw [flushPrefix, if_neg (not_not.2 he)]

theorem flushPrefix_sinks (hs : List Handler) : sinks (flushPrefix hs).1 = sinks hs := by
  induction hs with
  | nil => rfl
  | cons h hs ih =>
    by_cases he : h.strippedBlock.length = 0
    · rw [flushPrefix_cons_stop he]
    · rw [flushPrefix_cons_send he]; exact congrArg (h.n :: ·) ih

theorem flushPrefix_channels (hs : List Handler) : channels (flushPrefix hs).1 = channels hs := by
  induction hs with
  | nil => rfl
  | cons h hs ih =>
    by_cases he : h.strippedBlock.length = 0
    · rw [flushPrefix_cons_stop he]
    · rw [flushPrefix_cons_send he]; exact congrArg (h.channel :: ·) ih

theorem flushPrefix_sent {hs : List Handler} {p : NwclientsHandle × List UInt8}
    (hp : p ∈ (flushPrefix hs).2) : p.1 ∈ sinks hs := by
  induction hs with
  | nil => cases hp
  | cons h hs ih =>
    by_cases he : h.strippedBlock.length = 0
    · rw [flushPrefix_cons_stop he] at hp; cases hp
    · rw [flushPrefix_cons_send he] at hp
      rcases List.mem_cons.1 hp with rfl | hp
      · exact List.mem_cons_self _ _
      · exact List.mem_cons_of_mem _ (ih hp)

/-- With one sink per handler, the flush moves each buffer to its own sink: after the sends
`s` made before it, what each handler has delivered is unchanged. -/
theorem flushPrefix_getElem? {hs : List Handler} (hnd : (sinks hs).Nodup)
    (s : List (NwclientsHandle × List UInt8)) (j : Nat) :
    (flushPrefix hs).1[j]?.map (fun h => sentTo h.n (s ++ (flushPrefix hs).2) ++ h.strippedBlock) =
      hs[j]?.map (fun h => sentTo h.n s ++ h.strippedBlock) := by
  induction hs generalizing j with
  | nil => rfl
  | cons h hs ih =>
    obtain ⟨hh, hnd⟩ : h.n ∉ sinks hs ∧ (sinks hs).Nodup := List.nodup_cons.1 hnd
    by_cases he : h.strippedBlock.length = 0
    · rw [flushPrefix_cons_stop he]
      simp
    · rw [flushPrefix_cons_send he]
      cases j with
      | zero =>
        have hnil : sentTo h.n (flushPrefix hs).2 = [] :=
          sentTo_eq_nil fun p hp hpn => hh (hpn ▸ flushPrefix_sent hp)
        simp [sentTo_cons, hnil]
      | succ k =>
        have hsink : ∀ x ∈ (flushPrefix hs).1[k]?, h.n ≠ x.n := fun x hx hxn => by
          have : x.n ∈ sinks (flushPrefix hs).1 := List.mem_map_of_mem _ (List.getElem?_mem hx)
          rw [flushPrefix_sinks, ← hxn] at this
          exact hh this
        rw [List.getElem?_cons_succ, List.getElem?_cons_succ, ← ih hnd k]
        cases hx : (flushPrefix hs).1[k]? with
        | none => rfl
        | some x => simp [sentTo_cons, hsink x hx]

theorem purgeBlock_eq (r : RunTime σ) (h : r.useTPIU = true) :
    purgeBlock r =
      { r with
        handler := (flushPrefix r.handler).1
        sent := r.sent ++ (flushPrefix r.handler).2 } := by
  have hp := purgeLoop_append [] r.handler r.sent
  simp only [List.nil_append, List.length_nil] at hp
  simp [purgeBlock, h, hp]

/-- `_purgeBlock` changes nothing that has been delivered. -/
theorem delivered_purgeBlock {r : RunTime σ} (hnd : (sinks r.handler).Nodup) (j : Nat) :
    delivered (purgeBlock r) j = delivered r j := by
  cases h : r.useTPIU
  · simp [purgeBlock, h]
  · rw [purgeBlock_eq r h]
    exact flushPrefix_getElem? hnd r.sent j

@[simp] theorem purgeBlock_t (r : RunTime σ) : (purgeBlock r).t = r.t := by
  unfold purgeBlock; split_ifs <;> rfl

@[simp] theorem purgeBlock_useTPIU (r : RunTime σ) : (purgeBlock r).useTPIU = r.useTPIU := by
  unfold purgeBlock; split_ifs <;> rfl

@[simp] theorem purgeBlock_intervalBytes (r : RunTime σ) :
    (purgeBlock r).intervalBytes = r.intervalBytes := by
  unfold purgeBlock; split_ifs <;> rfl

theorem purgeBlock_handler (r : RunTime σ) :
    sinks (purgeBlock r).handler = sinks r.handler ∧
      channels (purgeBlock r).handler = channels r.handler := by
  cases h : r.useTPIU
  · simp [purgeBlock, h]
  · rw [purgeBlock_eq r h]
    exact ⟨flushPrefix_sinks _, flushPrefix_channels _⟩

/-! ### `_stripTPIU` -/

theorem handler_of_push {hs hs' : List Handler} {l : Nat → List UInt8}
    (h : ∀ j, hs'[j]? = hs[j]?.map (Handler.push (l j))) :
    sinks hs' = sinks hs ∧ channels hs' = channels hs := by
  constructor <;> apply List.ext_getElem? <;> intro j <;>
    simp [sinks, channels, List.getElem?_map, h, Handler.push, Option.map_map, Function.comp_def]

/-- `_stripTPIU` appends to what each handler has delivered the bytes routed to it. -/
theorem delivered_stripTPIU {r r' : RunTime σ} {bytes : List UInt8}
    (h : stripTPIU ts dec r bytes = .ok r') (j : Nat) :
    delivered r' j = (delivered r j).map (· ++ routedTo r.handler (decodeAll dec r.t bytes).2 j) := by
  obtain ⟨hr, hj⟩ := stripTPIU_ok ts dec h
  have hsent : r'.sent = r.sent := by rw [hr]
  simp [delivered, hj, hsent, Option.map_map, Function.comp_def, Handler.push]

/-! ### `_processBlocks` -/

theorem except_map_eq_ok {ε α β : Type} {x : Except ε α} {f : α → β} {b : β} :
    x.map f = .ok b ↔ ∃ a, x = .ok a ∧ f a = b := by
  cases x <;> simp [Except.map]

theorem blockBytes_cons (b : DataBlock) (bs : List DataBlock) :
    blockBytes ts (b :: bs) = (b.payload ts).getD [] ++ blockBytes ts bs := rfl

/-- **One pass of `_processBlocks` with TPIU.** Handlers keep their channels and sinks, the
decoder moves over the block's bytes, and each handler's deliveries grow by the bytes routed
to it. -/
theorem processBlock_delivers {r r' : RunTime σ} {b : DataBlock} (htpiu : r.useTPIU = true)
    (hnd : (sinks r.handler).Nodup) (h : processBlock ts dec r b = .ok r') :
    r'.useTPIU = true ∧ sinks r'.handler = sinks r.handler ∧
      channels r'.handler = channels r.handler ∧
      r'.t = (decodeAll dec r.t ((b.payload ts).getD [])).1 ∧
      ∀ j, delivered r' j =
        (delivered r j).map (· ++ routedTo r.handler (decodeAll dec r.t ((b.payload ts).getD [])).2 j) := by
  unfold processBlock at h
  split_ifs at h with h0
  · cases h
    have hv : b.Valid ts := by unfold DataBlock.Valid; omega
    have hp : b.payload ts = some [] := by simp [DataBlock.payload, hv, h0]
    simp [hp, decodeAll, htpiu]
  · revert h
    cases hp : b.payload ts with
    | none => intro h; cases h
    | some bytes =>
      simp only [htpiu, if_true, Option.getD_some]
      intro h
      obtain ⟨r₂, hs, rfl⟩ := except_map_eq_ok.1 h
      obtain ⟨hr, hj⟩ := stripTPIU_ok ts dec hs
      have ⟨hsk, hch⟩ := handler_of_push hj
      have ⟨hsk', hch'⟩ := purgeBlock_handler r₂
      refine ⟨?_, hsk'.trans hsk, hch'.trans hch, ?_, fun j => ?_⟩
      · rw [purgeBlock_useTPIU, hr]
      · rw [purgeBlock_t, hr]
      · rw [delivered_purgeBlock (hsk ▸ hnd), delivered_stripTPIU ts dec hs]; rfl

/-- Over any blocks `_processBlocks` takes without undefined behaviour, with TPIU and one sink
per handler, handlers keep their channels and sinks, TPIU stays on, and what each handler has
delivered grows by the bytes of the decoded stream routed to it. -/
theorem processBlocks_run (r : RunTime σ) (bs : List DataBlock) (htpiu : r.useTPIU = true)
    (hnd : (sinks r.handler).Nodup) {r' : RunTime σ} (h : processBlocks ts dec r bs = .ok r') :
    r'.useTPIU = true ∧ sinks r'.handler = sinks r.handler ∧
      channels r'.handler = channels r.handler ∧ ∀ j, delivered r' j =
        (delivered r j).map (· ++ routedTo r.handler (decodeAll dec r.t (blockBytes ts bs)).2 j) := by
  induction bs generalizing r with
  | nil => cases h; simp [htpiu, blockBytes, decodeAll]
  | cons b bs ih =>
    obtain ⟨r₁, hb, h⟩ := (processBlocks_cons_eq_ok ts dec).1 h
    obtain ⟨ht1, hsk, hch, hts, hd⟩ := processBlock_delivers ts dec htpiu hnd hb
    obtain ⟨ht', hsk', hch', hd'⟩ := ih r₁ ht1 (hsk ▸ hnd) h
    refine ⟨ht', hsk'.trans hsk, hch'.trans hch, fun j => ?_⟩
    rw [hd', hd, routedTo_congr hch, hts, blockBytes_cons, decodeAll_append, routedTo_append,
      Option.map_map]
    simp [Function.comp_def]

/-- **No byte is lost, repeated or reordered.** With TPIU and one sink per handler, over any
sequence of blocks that `_processBlocks` takes without undefined behaviour, each handler keeps
its sink, and what it has delivered (sent to its sink, then waiting in its buffer) grows by
exactly the bytes of the decoded stream whose first handler it is, in order. -/
theorem processBlocks_delivers (r : RunTime σ) (bs : List DataBlock) (htpiu : r.useTPIU = true)
    (hnd : (sinks r.handler).Nodup) {r' : RunTime σ} (h : processBlocks ts dec r bs = .ok r') :
    sinks r'.handler = sinks r.handler ∧ ∀ j, delivered r' j =
      (delivered r j).map (· ++ routedTo r.handler (decodeAll dec r.t (blockBytes ts bs)).2 j) :=
  let ⟨_, hsk, _, hd⟩ := processBlocks_run ts dec r bs htpiu hnd h
  ⟨hsk, hd⟩

/-- The run of `purgeBlock_skips`: `0x41` is never sent, but it is delivered, waiting in the
second handler's buffer. -/
theorem processBlocks_delivers_skip :
    sinks [⟨1, [], ⟨3443⟩⟩, ⟨2, [0x41], ⟨3444⟩⟩] = sinks twoHandlers ∧
      ∀ j, delivered ({ startTPIU with
          t := 16, intervalBytes := 16, handler := [⟨1, [], ⟨3443⟩⟩, ⟨2, [0x41], ⟨3444⟩⟩] } : RunTime Nat) j =
        (delivered startTPIU j).map (· ++ routedTo twoHandlers
          (decodeAll (everySixteenth ⟨[⟨2, 0x41⟩]⟩) 0 (blockBytes 4096 [⟨16, List.replicate 16 0⟩])).2 j) :=
  @processBlocks_delivers Nat 4096 (everySixteenth ⟨[⟨2, 0x41⟩]⟩) startTPIU [⟨16, List.replicate 16 0⟩]
    rfl (by decide)
    { startTPIU with t := 16, intervalBytes := 16, handler := [⟨1, [], ⟨3443⟩⟩, ⟨2, [0x41], ⟨3444⟩⟩] } rfl

/-! ### From start-up -/

theorem sinks_mapIdx_openHandler (listenPort : Int) (xs : List Int) :
    sinks (xs.mapIdx (openHandler listenPort)) =
      (List.range xs.length).map fun i : Nat => nwclientStart (listenPort + (i : Int)) := by
  apply List.ext_getElem (by simp [sinks])
  intro i h1 h2
  simp [sinks, openHandler, List.getElem_mapIdx]

/-- For an accepted `-t` list of fewer than 256 channels, `numHandlers` counts them, handler
`i` is opened for the `i`-th on `listenPort + i`, and no two handlers share a sink. -/
theorem parseChannelList_handlers {listenPort : Int} {s : List Char} {st : ChannelState}
    (h : parseChannelList listenPort s = .ok st) (hlt : (openedChannels s).length < 256) :
    st.numHandlers.toNat = (openedChannels s).length ∧
      st.handler = (openedChannels s).mapIdx (openHandler listenPort) ∧ (sinks st.handler).Nodup := by
  obtain ⟨-, rfl⟩ := (channelLoop_ok_iff listenPort (Nat.lt_succ_self s.length)
    (show (⟨0, 0, []⟩ : ChannelState).x = 0 from rfl)).1 h
  rw [foldl_addHandler_numHandlers, foldl_addHandler_handler listenPort _ hlt.le,
    sinks_mapIdx_openHandler]
  refine ⟨by simp; omega, rfl, (List.nodup_range _).map fun i j hij => ?_⟩
  simp only [nwclientStart, NwclientsHandle.mk.injEq] at hij
  omega

/-- **The handlers `main` opens have one sink each.** For an accepted `-t` list with fewer
than 256 channels, all `numHandlers` handlers are in use, handler `i` listens on
`listenPort + i`, and so no two share a port. -/
theorem parseChannelList_sinks_nodup {listenPort : Int} {s : List Char} {st : ChannelState}
    (h : parseChannelList listenPort s = .ok st) (hlt : (openedChannels s).length < 256) :
    st.numHandlers.toNat = st.handler.length ∧
      sinks st.handler =
        (List.range st.handler.length).map (fun i : Nat => nwclientStart (listenPort + (i : Int))) ∧
      (sinks st.handler).Nodup := by
  obtain ⟨hn, hh, hnd⟩ := parseChannelList_handlers h hlt
  exact ⟨by rw [hn, hh, List.length_mapIdx],
    by rw [hh, List.length_mapIdx, sinks_mapIdx_openHandler], hnd⟩

theorem parseChannelList_sinks_nodup_two :
    parseChannelList 3443 "1,2".toList = .ok ⟨0, 2, [⟨1, [], ⟨3443⟩⟩, ⟨2, [], ⟨3444⟩⟩]⟩ ∧
      (openedChannels "1,2".toList).length < 256 ∧
      ((2 : UInt8).toNat = 2 ∧
        sinks [⟨1, [], ⟨3443⟩⟩, ⟨2, [], ⟨3444⟩⟩] =
          (List.range 2).map (fun i : Nat => nwclientStart (3443 + (i : Int))) ∧
        (sinks [⟨1, [], ⟨3443⟩⟩, ⟨2, [], ⟨3444⟩⟩]).Nodup) :=
  ⟨rfl, by decide, @parseChannelList_sinks_nodup 3443 "1,2".toList
    ⟨0, 2, [⟨1, [], ⟨3443⟩⟩, ⟨2, [], ⟨3444⟩⟩]⟩ rfl (by decide)⟩

end Orbuculum
