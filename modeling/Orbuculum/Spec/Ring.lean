import Orbuculum.Spec.Process

/-!
# The ring of raw blocks, one atomic step per side

`rawBlock[NUM_RAW_BLOCKS]` with write index `wp` and read index `rp`. A feeder step writes a
whole block into `rawBlock[wp]` and sets `wp = ( wp + 1 ) % NUM_RAW_BLOCKS`; a step of
`_processBlocks` is enabled when `wp != rp`, processes `rawBlock[rp]` and sets
`rp = ( rp + 1 ) % NUM_RAW_BLOCKS`. Nothing stops the feeder from lapping the consumer.

Three ghost fields record the run: `completed`, the blocks the feeder completed, `processed`,
the blocks `_processBlocks` took, both in order, and `maxBacklog`, the largest number of
completed but unprocessed blocks seen so far.
-/

namespace Orbuculum

/-- `( i + 1 ) % NUM_RAW_BLOCKS`. -/
def advance (i : Fin numRawBlocks) : Fin numRawBlocks :=
  ⟨(i.val + 1) % numRawBlocks, Nat.mod_lt _ (by decide)⟩

/-- The ring and the distribution thread's state `r`, with the ghost record of the run. -/
structure Ring (α : Type) where
  wp : Fin numRawBlocks
  rp : Fin numRawBlocks
  rawBlock : Fin numRawBlocks → DataBlock
  r : α
  completed : List DataBlock
  processed : List DataBlock
  maxBacklog : Nat

/-- The ring at start-up: `_r` is zero-initialised. -/
def Ring.init (r : α) : Ring α := ⟨⟨0, by decide⟩, ⟨0, by decide⟩, fun _ => ⟨0, []⟩, r, [], [], 0⟩

/-- A feeder step: the whole block `b` into `rawBlock[wp]`, then `wp` moves on. -/
def Ring.feed (s : Ring α) (b : DataBlock) : Ring α :=
  { s with
    rawBlock := Function.update s.rawBlock s.wp b
    wp := advance s.wp
    completed := s.completed ++ [b]
    maxBacklog := max s.maxBacklog (s.completed.length + 1 - s.processed.length) }

/-- A step of `_processBlocks` that left the thread in state `r'`: `rp` moves on. -/
def Ring.consume (s : Ring α) (r' : α) : Ring α :=
  { s with rp := advance s.rp, r := r', processed := s.processed ++ [s.rawBlock s.rp] }

/-- The steps of the ring: the feeder writes any block; `_processBlocks`, when `wp != rp`,
runs `act` (one pass of its loop) on `rawBlock[rp]`, unless that faults. -/
inductive RingStep (act : α → DataBlock → Except Fault α) : Ring α → Ring α → Prop
  | feed (s : Ring α) (b : DataBlock) : RingStep act s (s.feed b)
  | consume (s : Ring α) (r' : α) : s.wp ≠ s.rp → act s.r (s.rawBlock s.rp) = .ok r' →
      RingStep act s (s.consume r')

/-- The states reachable from start-up, the thread starting in state `r0`. -/
inductive RingReachable (act : α → DataBlock → Except Fault α) (r0 : α) : Ring α → Prop
  | init : RingReachable act r0 (Ring.init r0)
  | step {s s' : Ring α} : RingReachable act r0 s → RingStep act s s' → RingReachable act r0 s'

end Orbuculum
