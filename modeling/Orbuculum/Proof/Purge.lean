import Orbuculum.Proof.Route

/-!
# What `_purgeBlock` flushes

`h++` sits inside `if ( h->strippedBlock->fillLevel )`, so the loop stops moving at the first
handler whose buffer is empty and spends its remaining passes there.

* `purgeLoop_eq`: **`_purgeBlock` flushes exactly the longest prefix of handlers whose buffers
  are non-empty**, in order, and leaves every later handler as it was.
* `purgeBlock_skips`: with `-t 1,2` and a block whose only tuple is on stream 2, the byte stays
  in the second handler's buffer after `rp` moves on, and nothing is sent.
* `purgeBlock_overflows`: the formatted-frame contract holds, every block fits, and still the
  second handler's buffer overflows on the second block.
-/

namespace Orbuculum

variable {σ : Type} (ts : Nat) (dec : TPIU σ)

/-- The flush the loop performs, walking the handlers from the first: send and empty
non-empty buffers up to the first empty one. -/
def flushPrefix : List Handler → List Handler × List (NwclientsHandle × List UInt8)
  | [] => ([], [])
  | h :: hs =>
    if h.strippedBlock.length ≠ 0 then
      ({ h with strippedBlock := [] } :: (flushPrefix hs).1, (h.n, h.strippedBlock) :: (flushPrefix hs).2)
    else (h :: hs, [])

/-- Once `h` rests on an empty buffer, the remaining passes change nothing. -/
theorem purgeLoop_stuck {hs : List Handler} {j : Nat} {h : Handler} (hj : hs[j]? = some h)
    (he : h.strippedBlock.length = 0) (sent : List (NwclientsHandle × List UInt8)) (i : Nat) :
    purgeLoop hs sent j i = (hs, sent) := by
  induction i with
  | zero => rfl
  | succ i ih => simp [purgeLoop, hj, he, ih]

theorem purgeLoop_append (pre l : List Handler) (sent : List (NwclientsHandle × List UInt8)) :
    purgeLoop (pre ++ l) sent pre.length l.length =
      (pre ++ (flushPrefix l).1, sent ++ (flushPrefix l).2) := by
  induction l generalizing pre sent with
  | nil => simp [purgeLoop, flushPrefix]
  | cons h l ih =>
    have hj : (pre ++ h :: l)[pre.length]? = some h := by
      rw [List.getElem?_append_right (le_refl _), Nat.sub_self, List.getElem?_cons_zero]
    by_cases he : h.strippedBlock.length = 0
    · rw [purgeLoop_stuck hj he]
      simp [flushPrefix, he]
    · have hset : (pre ++ h :: l).set pre.length { h with strippedBlock := [] } =
          (pre ++ [{ h with strippedBlock := [] }]) ++ l := by
        simp [List.set_append]
      simp only [List.length_cons, purgeLoop, hj, ne_eq, he, not_false_eq_true, if_true, hset]
      rw [show pre.length + 1 = (pre ++ [{ h with strippedBlock := [] }]).length by simp, ih]
      simp [flushPrefix, he]

/-- **What `_purgeBlock` flushes.** It sends and empties the handlers of the longest prefix
whose buffers are non-empty, in order, and no other. -/
theorem purgeLoop_eq (hs : List Handler) (sent : List (NwclientsHandle × List UInt8)) :
    purgeLoop hs sent 0 hs.length = ((flushPrefix hs).1, sent ++ (flushPrefix hs).2) :=
  purgeLoop_append [] hs sent

/-- The number of packets the decoder completes while pumping `bytes` from `t`. -/
def packets : σ → List UInt8 → Nat
  | _, [] => 0
  | t, b :: bs =>
    match dec.pump t b with
    | (t, .rxedPacket) => packets (dec.getPacket t).1 bs + 1
    | (t, _) => packets t bs

/-- The formatted-frame contract of a TPIU decoder: a packet holds at most 15 tuples, and `n`
bytes pumped from any state complete at most one packet per 16 bytes, `⌈n / 16⌉`. -/
structure FrameContract : Prop where
  packet_le : ∀ t, (dec.getPacket t).2.packet.length ≤ 15
  packets_le : ∀ t bytes, 16 * packets dec t bytes ≤ bytes.length + 15

/-- A decoder that counts the bytes it is fed and completes `pkt` on every sixteenth. -/
def everySixteenth (pkt : TPIUPacket) : TPIU Nat where
  pump c _ := (c + 1, if (c + 1) % 16 = 0 then .rxedPacket else .rxing)
  getPacket c := (c, pkt)

theorem packets_everySixteenth (pkt : TPIUPacket) (c : Nat) (bytes : List UInt8) :
    packets (everySixteenth pkt) c bytes = (c + bytes.length) / 16 - c / 16 := by
  induction bytes generalizing c with
  | nil => simp [packets]
  | cons b bs ih =>
    have hp : (everySixteenth pkt).pump c b =
        (c + 1, if (c + 1) % 16 = 0 then .rxedPacket else .rxing) := rfl
    have hg : ((everySixteenth pkt).getPacket (c + 1)).1 = c + 1 := rfl
    by_cases h : (c + 1) % 16 = 0 <;>
      simp only [packets, hp, hg, h, if_true, if_false, ih, List.length_cons] <;> omega

theorem everySixteenth_contract {pkt : TPIUPacket} (h : pkt.packet.length ≤ 15) :
    FrameContract (everySixteenth pkt) :=
  ⟨fun _ => h, fun c bytes => by rw [packets_everySixteenth]; omega⟩

/-- The handlers `-t 1,2` opens on the default listen port. -/
def twoHandlers : List Handler := [⟨1, [], ⟨3443⟩⟩, ⟨2, [], ⟨3444⟩⟩]

/-- The distribution thread at start-up with `-t 1,2`, its decoder's count at zero. -/
def startTPIU : RunTime Nat := ⟨0, 0, true, twoHandlers, ⟨3443⟩, []⟩

/-- With `-t 1,2` and one block of 16 bytes whose packet carries `0x41` on stream 2,
`_processBlocks` sends nothing and leaves `0x41` in the second handler's buffer when `rp`
moves past the block. -/
theorem purgeBlock_skips :
    processBlocks 4096 (everySixteenth ⟨[⟨2, 0x41⟩]⟩) startTPIU [⟨16, List.replicate 16 0⟩] =
      .ok { startTPIU with
        t := 16, intervalBytes := 16, handler := [⟨1, [], ⟨3443⟩⟩, ⟨2, [0x41], ⟨3444⟩⟩] } :=
  rfl

/-- Two full blocks of 256 bytes. -/
def twoFullBlocks : List DataBlock := [⟨256, List.replicate 256 0⟩, ⟨256, List.replicate 256 0⟩]

/-- With `TRANSFER_SIZE = 256`, `-t 1,2`, a decoder that keeps the formatted-frame contract
with 15 tuples on stream 2 per packet, and two full blocks, the second handler is never
flushed and its buffer overflows during the second block. -/
theorem purgeBlock_overflows :
    256 % 16 = 0 ∧ FrameContract (everySixteenth ⟨List.replicate 15 ⟨2, 0x41⟩⟩) ∧
      (∀ b ∈ twoFullBlocks, b.Valid 256) ∧
      processBlocks 256 (everySixteenth ⟨List.replicate 15 ⟨2, 0x41⟩⟩) startTPIU twoFullBlocks =
        .error .overflow :=
  ⟨rfl, everySixteenth_contract (by decide), by decide, rfl⟩

end Orbuculum
