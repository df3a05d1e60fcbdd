import Mathlib.Data.UInt

/-!
# C integers and the blocks of `orbuculum.c`

The code's machine integers are modelled with their widths where it matters: `int32 z` is
`z` stored in a C `int`, wrapping modulo `2 ^ 32` into `[-2 ^ 31, 2 ^ 31)`.

`struct dataBlock` is a `ssize_t fillLevel` and a `uint8_t buffer[TRANSFER_SIZE]`.
`TRANSFER_SIZE` is set by the build and is not among the sources, so every definition that
depends on it takes it as an argument `ts`.
-/

namespace Orbuculum

/-- `z` stored in a 32-bit `int`. -/
def int32 (z : Int) : Int := (z + 2 ^ 31) % 2 ^ 32 - 2 ^ 31

theorem int32_of_mem {z : Int} (h1 : -2 ^ 31 ≤ z) (h2 : z < 2 ^ 31) : int32 z = z := by
  unfold int32; omega

/-- `NUM_RAW_BLOCKS`, the number of slots in the ring. -/
def numRawBlocks : Nat := 10

/-- `struct dataBlock` as a feeder leaves it: `fillLevel` is the value stored by the last
read, `buffer` the bytes that read put at the front of the array. The rest of the array is
stale, and only a count outside `[0, TRANSFER_SIZE]` reaches it, which is already a read past
the data. -/
structure DataBlock where
  fillLevel : Int
  buffer : List UInt8
deriving DecidableEq, Repr

/-- A block whose `fillLevel` lies in `[0, TRANSFER_SIZE]`. -/
def DataBlock.Valid (ts : Nat) (b : DataBlock) : Prop := 0 ≤ b.fillLevel ∧ b.fillLevel ≤ ts

instance (ts : Nat) (b : DataBlock) : Decidable (b.Valid ts) :=
  inferInstanceAs (Decidable (_ ∧ _))

/-- The `fillLevel` bytes that `while ( bytes-- )` in `_stripTPIU` and `nwclientSend` read
from `buffer`, or `none` when they run past the array: a negative `ssize_t` count only comes
back to zero after wrapping through `2 ^ 64`, and a count above `TRANSFER_SIZE` leaves the
array too. -/
def DataBlock.payload (ts : Nat) (b : DataBlock) : Option (List UInt8) :=
  if b.Valid ts then some (b.buffer.take b.fillLevel.toNat) else none

/-- `struct nwclientsHandle *`, known by the port `nwclientStart` opened it on. -/
structure NwclientsHandle where
  port : Int
deriving DecidableEq, Repr

end Orbuculum
