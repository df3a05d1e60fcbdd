import Orbuculum.Spec.Process

/-!
# The channel list of `-t` (`main`)

With `-t`, `main` walks `options.channelList`: each pass of `while ( *c )` skips commas,
reads a run of digits into `x`, rejects any other character, and opens a handler for a
non-zero `x` after checking it against `NUM_TPIU_CHANNELS`. `x = x * 10 + digit` is computed
in a 32-bit `int` (`int32`) and `numHandlers` is a `uint8_t`, so both wrap.

The string is the list of its characters before the terminating NUL. `genericsExit` ends the
program: it is the `error` of `Except`, with its message (without `EOL`).
-/

namespace Orbuculum

/-- `NUM_TPIU_CHANNELS`. -/
def numTpiuChannels : Int := 0x80

/-- `nwclientStart (port)`. `nwclient.c` is not among the sources: the handle is known by the
port it serves (`NwclientsHandle`). -/
def nwclientStart (port : Int) : NwclientsHandle := ⟨port⟩

/-- `realloc` of an array `p` to `k` entries: the first `k` entries are kept, and the new
ones, which C leaves unspecified, are `fill`. -/
def realloc {α : Type} (p : List α) (k : Nat) (fill : α) : List α :=
  p.take k ++ List.replicate (k - p.length) fill

/-- `while ( *c == ',' ) c++;` -/
def skipCommas : List Char → List Char
  | [] => []
  | d :: c => if d = ',' then skipCommas c else d :: c

/-- `*c - '0'` for a digit `*c`, in `int`. -/
def digitVal (d : Char) : Int := d.toNat - '0'.toNat

/-- `while ( isdigit( *c ) ) x = x * 10 + ( *c++ -'0' );` with `x` a 32-bit `int`. -/
def readDigits (x : Int) : List Char → Int × List Char
  | [] => (x, [])
  | d :: c => if d.isDigit then readDigits (int32 (x * 10 + digitVal d)) c else (x, d :: c)

/-- The loop's state: `x`, `_r.numHandlers` and the array `_r.handler`. -/
structure ChannelState where
  x : Int
  numHandlers : UInt8
  handler : List Handler
deriving DecidableEq, Repr

/-- `_r.handler[i]` as the loop fills it for channel `x`: `channel = x` (a `uint8_t`), a
zeroed `strippedBlock` from `calloc`, and a sink on `listenPort + i`. -/
def openHandler (listenPort : Int) (i : Nat) (x : Int) : Handler :=
  ⟨UInt8.ofNat (x % 256).toNat, [], nwclientStart (listenPort + i)⟩

/-- The block `if ( x )` runs once `x` is in range: `realloc` the array to `numHandlers + 1`
entries (`numHandlers` promoted to `int`), fill entry `numHandlers`, then `numHandlers++`
and `x = 0`. -/
def addHandler (listenPort : Int) (st : ChannelState) (x : Int) : ChannelState :=
  let h := openHandler listenPort st.numHandlers.toNat x
  { x := 0
    numHandlers := st.numHandlers + 1
    handler := (realloc st.handler (st.numHandlers.toNat + 1) h).set st.numHandlers.toNat h }

/-- The message of `genericsExit` for an illegal character. -/
def illegalCharacter (d : Char) : String :=
  "Illegal character in channel list (" ++ d.toString ++ ")"

/-- The message of `genericsExit` for a channel outside `[0, NUM_TPIU_CHANNELS)`. -/
def channelOutOfRange : String := "Channel number out of range"

/-- One pass of `while ( *c )` from the text at `c`: the text left and the new state. -/
def channelPass (listenPort : Int) (c : List Char) (st : ChannelState) :
    Except String (List Char × ChannelState) :=
  match readDigits st.x (skipCommas c) with
  | (x, c) =>
    match c.head?.filter (· != ',') with
    | some d => .error (illegalCharacter d)
    | none =>
      if x = 0 then .ok (c, { st with x := x })
      else if x < 0 ∨ numTpiuChannels ≤ x then .error channelOutOfRange
      else .ok (c, addHandler listenPort st x)

/-- `while ( *c )` with at most `fuel` passes. A pass that does not fail consumes a
character, so `c.length + 1` passes always reach the end of the text. -/
def channelLoop (listenPort : Int) : Nat → List Char → ChannelState → Except String ChannelState
  | 0, _, st => .ok st
  | _ + 1, [], st => .ok st
  | fuel + 1, d :: c, st =>
    match channelPass listenPort (d :: c) st with
    | .ok (c', st') => channelLoop listenPort fuel c' st'
    | .error e => .error e

/-- The channel list parsing of `main`, from `x = 0`, `numHandlers = 0` and no array. -/
def parseChannelList (listenPort : Int) (channelList : List Char) : Except String ChannelState :=
  channelLoop listenPort (channelList.length + 1) channelList ⟨0, 0, []⟩

end Orbuculum
