import Orbuculum.Proof.Interval
import Orbuculum.Spec.Options

/-!
# From the command line to the sinks

`mainStart_delivers`: with `-t`, `main` gives `_processBlocks` the handlers of the channel
list, with one sink each, which is what `processBlocks_delivers` asks. So every byte the
decoder routes to a listed channel reaches that channel's port, in order, or waits in its
handler's buffer, and nothing reaches any other handler. `threads_deliver`: the same holds
in every run of a feeder against `_processBlocks`, step by step with the mutex, for the
blocks `_processBlocks` has taken up to its first fault. `mainStart_passThrough`: without
`-t`, while the feeder has never been a whole ring ahead, every non-empty read `_processBlocks`
takes goes whole, and in order, to the one server `main` opens.
-/

namespace Orbuculum

variable {σ : Type} (ts : Nat) (dec : TPIU σ)

/-- With `-t` and a channel list of fewer than 256 channels, `main` hands `_processBlocks` one
fresh handler per channel, each on its own port. -/
theorem mainStart_tpiu {t : σ} {n : NwclientsHandle} {o : Options} {r : RunTime σ}
    (htpiu : o.useTPIU = true) (hr : mainStart t n o = .ok r)
    (hlt : (openedChannels (o.channelList.getD [])).length < 256) :
    r = ⟨t, 0, true, (openedChannels (o.channelList.getD [])).mapIdx (openHandler o.listenPort),
      n, []⟩ ∧ (sinks r.handler).Nodup := by
  simp only [mainStart, htpiu, if_true] at hr
  obtain ⟨st, hst, rfl⟩ := except_map_eq_ok.1 hr
  obtain ⟨hn, hh, hnd⟩ := parseChannelList_handlers hst hlt
  have hinit : st.handler.take st.numHandlers.toNat =
      (openedChannels (o.channelList.getD [])).mapIdx (openHandler o.listenPort) := by
    rw [hn, hh, List.take_of_length_le (by simp)]
  exact ⟨by rw [hinit], by rw [hinit, ← hh]; exact hnd⟩

/-- Fresh handlers have delivered nothing. -/
theorem delivered_opened (t : σ) (n : NwclientsHandle) (listenPort : Int) (xs : List Int) (j : Nat) :
    delivered (⟨t, 0, true, xs.mapIdx (openHandler listenPort), n, []⟩ : RunTime σ) j =
      if j < xs.length then some [] else none := by
  simp only [delivered]
  split_ifs with hj
  · simp [hj, openHandler]
  · simp [Nat.le_of_not_lt hj]

/-- **From the command line to the sinks.** With `useTPIU` and a channel list `main` accepts
with fewer than 256 channels, `main` gives `_processBlocks` one handler per channel, the `i`-th
on port `listenPort + i`. Over any blocks `_processBlocks` then takes without undefined
behaviour, the handlers keep their sinks, and what handler `j` has delivered (sent to its
sink, then waiting in its buffer) is exactly the bytes of the decoded stream whose first
handler it is, in order; there is no other handler. -/
theorem mainStart_delivers {t : σ} {n : NwclientsHandle} {o : Options} {r r' : RunTime σ}
    {bs : List DataBlock} (htpiu : o.useTPIU = true) (hr : mainStart t n o = .ok r)
    (hlt : (openedChannels (o.channelList.getD [])).length < 256)
    (hp : processBlocks ts dec r bs = .ok r') :
    r.handler = (openedChannels (o.channelList.getD [])).mapIdx (openHandler o.listenPort) ∧
      sinks r'.handler = sinks r.handler ∧
      ∀ j, delivered r' j =
        if j < (openedChannels (o.channelList.getD [])).length then
          some (routedTo r.handler (decodeAll dec t (blockBytes ts bs)).2 j)
        else none := by
  obtain ⟨rfl, hnd⟩ := mainStart_tpiu htpiu hr hlt
  obtain ⟨-, hsk, -, hd⟩ := processBlocks_run ts dec _ bs rfl hnd hp
  refine ⟨rfl, hsk, fun j => ?_⟩
  rw [hd j, delivered_opened]
  split_ifs <;> rfl

/-- `_options` after `-t 1,2`, with `NWCLIENT_SERVER_PORT` taken as 3443. -/
def tpiuOptions : Options :=
  ⟨seggerHostDefault, 0, none, 0, true, 0, none, false, 0, some "1,2".toList, 3443⟩

/-- The run of `purgeBlock_skips`, from `main`: `0x41`, routed to channel 2, waits in the
buffer of the handler on port 3444. -/
theorem mainStart_delivers_skip :
    tpiuOptions.useTPIU = true ∧ mainStart (0 : Nat) ⟨3443⟩ tpiuOptions = .ok startTPIU ∧
      (openedChannels (tpiuOptions.channelList.getD [])).length < 256 ∧
      processBlocks 4096 (everySixteenth ⟨[⟨2, 0x41⟩]⟩) startTPIU [⟨16, List.replicate 16 0⟩] =
        .ok { startTPIU with
          t := 16, intervalBytes := 16, handler := [⟨1, [], ⟨3443⟩⟩, ⟨2, [0x41], ⟨3444⟩⟩] } ∧
      (startTPIU.handler =
          (openedChannels (tpiuOptions.channelList.getD [])).mapIdx (openHandler tpiuOptions.listenPort) ∧
        sinks [⟨1, [], ⟨3443⟩⟩, ⟨2, [0x41], ⟨3444⟩⟩] = sinks startTPIU.handler ∧
        ∀ j, delivered ({ startTPIU with
            t := 16, intervalBytes := 16, handler := [⟨1, [], ⟨3443⟩⟩, ⟨2, [0x41], ⟨3444⟩⟩] } : RunTime Nat) j =
          if j < (openedChannels (tpiuOptions.channelList.getD [])).length then
            some (routedTo startTPIU.handler (decodeAll (everySixteenth ⟨[⟨2, 0x41⟩]⟩) 0
              (blockBytes 4096 [⟨16, List.replicate 16 0⟩])).2 j)
          else none) :=
  ⟨rfl, rfl, by decide, rfl,
    @mainStart_delivers Nat 4096 (everySixteenth ⟨[⟨2, 0x41⟩]⟩) 0 ⟨3443⟩ tpiuOptions startTPIU
      { startTPIU with t := 16, intervalBytes := 16, handler := [⟨1, [], ⟨3443⟩⟩, ⟨2, [0x41], ⟨3444⟩⟩] }
      [⟨16, List.replicate 16 0⟩] rfl rfl (by decide) rfl⟩

/-- **From the command line, through the two threads, to the sinks.** With `useTPIU` and a
channel list `main` accepts with fewer than 256 channels, in every run of any feeder against
`_processBlocks`, step by step with the mutex and however far the feeder gets ahead, up to
`_processBlocks`'s first fault (after which it takes no more blocks): the handlers keep their
sinks, handler `i` on port `listenPort + i`, and what handler `j` has delivered (sent to its
sink, then waiting in its buffer) is exactly the bytes of the decoded stream of the blocks
`_processBlocks` has taken whose first handler it is, in order. -/
theorem threads_deliver {t : σ} {n : NwclientsHandle} {o : Options} {r0 : RunTime σ}
    {fd : Feeder} {fileTerminate : Bool} {s : Sys σ} {g : History}
    (htpiu : o.useTPIU = true) (hr : mainStart t n o = .ok r0)
    (hlt : (openedChannels (o.channelList.getD [])).length < 256)
    (h : Traced ts dec fd fileTerminate r0 s g) :
    sinks s.r.handler = (List.range (openedChannels (o.channelList.getD [])).length).map
        (fun i : Nat => nwclientStart (o.listenPort + (i : Int))) ∧
      ∀ j, delivered s.r j =
        if j < (openedChannels (o.channelList.getD [])).length then
          some (routedTo r0.handler (decodeAll dec t (blockBytes ts g.processed)).2 j)
        else none := by
  obtain ⟨rfl, hnd⟩ := mainStart_tpiu htpiu hr hlt
  obtain ⟨-, hsk, -, hd⟩ := processBlocks_run ts dec _ _ rfl hnd (traced_processBlocks h)
  refine ⟨hsk.trans (sinks_mapIdx_openHandler _ _), fun j => ?_⟩
  rw [hd j, delivered_opened]
  split_ifs <;> rfl

/-- **Without `-t`, every read reaches the one server, whole and in order.** Without TPIU,
`main` opens one network server on `listenPort`. In every run of any feeder against
`_processBlocks`, step by step with the mutex, in which the feeder has never been
`NUM_RAW_BLOCKS` published blocks ahead, `_processBlocks` has sent to that server, and to
nothing else, the bytes of each non-empty read among the first blocks the feeder published,
one send per read, in order. -/
theorem mainStart_passThrough {t : σ} {n : NwclientsHandle} {o : Options} {r0 : RunTime σ}
    {fd : Feeder} {fileTerminate : Bool} {s : Sys σ} {g : History}
    (htpiu : o.useTPIU = false) (hr : mainStart t n o = .ok r0)
    (h : Traced ts dec fd fileTerminate r0 s g) (hb : g.maxBacklog < numRawBlocks) :
    s.r.sent = ((g.completed.take g.processed.length).filter (·.buffer ≠ [])).map
      fun b => (nwclientStart o.listenPort, b.buffer) := by
  simp only [mainStart, htpiu, Bool.false_eq_true, if_false, Except.ok.injEq] at hr
  subst hr
  rw [← traced_taken_first h hb]
  exact (processBlocks_sends_reads ts dec (traced_fromRead ts dec h).2 rfl
    (traced_processBlocks h)).trans (List.nil_append _)

/-- The run of `threads_refine_ring_usb`, from `main` without `-t`: `07 09` goes to port 3443. -/
theorem mainStart_passThrough_usb :
    (Options.init 3443).useTPIU = false ∧
      mainStart () ⟨3443⟩ (Options.init 3443) = .ok passThroughStart ∧
      Traced 4096 idleDecoder .usb false passThroughStart usbTrace.1 usbTrace.2 ∧
      usbTrace.2.maxBacklog < numRawBlocks ∧
      usbTrace.1.r.sent = ((usbTrace.2.completed.take usbTrace.2.processed.length).filter
        (·.buffer ≠ [])).map fun b => (nwclientStart (Options.init 3443).listenPort, b.buffer) :=
  have hr : mainStart () ⟨3443⟩ (Options.init 3443) = .ok passThroughStart := rfl
  ⟨rfl, hr, usbTrace_traced, by decide,
    mainStart_passThrough 4096 idleDecoder rfl hr usbTrace_traced (by decide)⟩

/-- A USB transfer of sixteen zero bytes after `-t 1,2`, published and then taken by
`_processBlocks`. -/
def tpiuSchedule : List Event := [.read ⟨0, List.replicate 16 0⟩, .advance, .unlock, .check, .process]

/-- The state and history after `tpiuSchedule`, with the decoder of `purgeBlock_skips`. -/
def tpiuTrace : Sys Nat × History :=
  ((Sys.init startTPIU).trace 4096 (everySixteenth ⟨[⟨2, 0x41⟩]⟩) .usb false History.init
    tpiuSchedule).getD (Sys.init startTPIU, History.init)

theorem threads_deliver_skip :
    tpiuOptions.useTPIU = true ∧ mainStart (0 : Nat) ⟨3443⟩ tpiuOptions = .ok startTPIU ∧
      (openedChannels (tpiuOptions.channelList.getD [])).length < 256 ∧
      Traced 4096 (everySixteenth ⟨[⟨2, 0x41⟩]⟩) .usb false startTPIU tpiuTrace.1 tpiuTrace.2 ∧
      (sinks tpiuTrace.1.r.handler =
          (List.range (openedChannels (tpiuOptions.channelList.getD [])).length).map
            (fun i : Nat => nwclientStart (tpiuOptions.listenPort + (i : Int))) ∧
        ∀ j, delivered tpiuTrace.1.r j =
          if j < (openedChannels (tpiuOptions.channelList.getD [])).length then
            some (routedTo startTPIU.handler (decodeAll (everySixteenth ⟨[⟨2, 0x41⟩]⟩) 0
              (blockBytes 4096 tpiuTrace.2.processed)).2 j)
          else none) :=
  have h : Traced 4096 (everySixteenth ⟨[⟨2, 0x41⟩]⟩) .usb false startTPIU tpiuTrace.1 tpiuTrace.2 :=
    Traced.init.run (rfl : (Sys.init startTPIU).trace 4096 (everySixteenth ⟨[⟨2, 0x41⟩]⟩) .usb false
      History.init tpiuSchedule = some (tpiuTrace.1, tpiuTrace.2))
  ⟨rfl, rfl, by decide, h, threads_deliver 4096 (everySixteenth ⟨[⟨2, 0x41⟩]⟩) rfl rfl (by decide) h⟩

end Orbuculum
