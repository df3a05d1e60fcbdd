import Orbuculum.Spec.Threads
import Orbuculum.Spec.Channels

/-!
# The command line (`_processOptions`, `main`)

`_processOptions` takes what `getopt` returns for `"a:ef:hl:m:no:p:s:t:v:"`, one option at a
time with its `optarg`, into `_options`. `-h`, an error of `getopt` (`'?'`) and an option the
`switch` does not list (`-n`, and `-o` without FPGA support) make it return `false` at once.
After the loop it refuses a file together with a serial port or a Segger, and a serial port
together with a Segger. `main` stops when it returns `false`; otherwise it opens the handlers
of the channel list of `-t`, or one network server, and enters the feeder of the source given:
Segger, serial port, file, or USB when none is.

This is the build without `INCLUDE_SERIAL_FPGA_SUPPORT`. `getopt` and `atoi` are libc's: the
command line is the list of what `getopt` returns, and `atoi` is a parameter. A string option
is the list of its characters; `NULL` is `none`.
-/

namespace Orbuculum

/-- `struct Options`, the fields `_processOptions` and `main` use. `seggerPort` is an
`int32_t` and `atoi` returns an `int`, so it is the `Int` `atoi` gives. -/
structure Options where
  seggerHost : List Char
  seggerPort : Int
  port : Option (List Char)
  speed : Int
  useTPIU : Bool
  dataSpeed : UInt32
  file : Option (List Char)
  fileTerminate : Bool
  intervalReportTime : UInt32
  channelList : Option (List Char)
  listenPort : Int
deriving DecidableEq, Repr

/-- `SEGGER_HOST`. -/
def seggerHostDefault : List Char := "localhost".toList

/-- `SEGGER_PORT`. -/
def seggerPortDefault : Int := 2332

/-- `_options` as the program starts: `listenPort = NWCLIENT_SERVER_PORT` (from `nwclient.h`,
not among the sources) and `seggerHost = SEGGER_HOST`; every other field is zero. -/
def Options.init (nwclientServerPort : Int) : Options :=
  ⟨seggerHostDefault, 0, none, 0, false, 0, none, false, 0, none, nwclientServerPort⟩

/-- An `int` stored in a `uint32_t`. -/
def uint32OfInt (z : Int) : UInt32 := UInt32.ofNat (z % 2 ^ 32).toNat

variable (atoi : List Char → Int)

/-- `case 's'`: `seggerHost = optarg`. A `:` in it is overwritten by a NUL, which ends the
host there, and `seggerPort` becomes `atoi` of the text after it; a `seggerPort` still zero
becomes `SEGGER_PORT`. -/
def seggerOption (o : Options) (optarg : List Char) : Options :=
  let o := match optarg.dropWhile (· != ':') with
    | _ :: a => { o with seggerHost := optarg.takeWhile (· != ':'), seggerPort := atoi a }
    | [] => { o with seggerHost := optarg }
  if o.seggerPort = 0 then { o with seggerPort := seggerPortDefault } else o

/-- One pass of `switch ( c )`: the options after it, or `none` where it returns `false`
(`-h`, `'?'` and the `default` case). `-v` sets the report level of `generics.c`, outside
`_options`. -/
def processOption (o : Options) (e : Char × List Char) : Option Options :=
  let (c, optarg) := e
  if c = 'a' then some { o with speed := atoi optarg, dataSpeed := uint32OfInt (atoi optarg) }
  else if c = 'e' then some { o with fileTerminate := true }
  else if c = 'f' then some { o with file := some optarg }
  else if c = 'h' then none
  else if c = 'l' then some { o with listenPort := atoi optarg }
  else if c = 'm' then some { o with intervalReportTime := uint32OfInt (atoi optarg) }
  else if c = 'p' then some { o with port := some optarg }
  else if c = 's' then some (seggerOption atoi o optarg)
  else if c = 't' then some { o with useTPIU := true, channelList := some optarg }
  else if c = 'v' then some o
  else none

/-- `while ( ( c = getopt ( ... ) ) != -1 )`. -/
def optionLoop (o : Options) : List (Char × List Char) → Option Options
  | [] => some o
  | c :: cs =>
    match processOption atoi o c with
    | some o => optionLoop o cs
    | none => none

/-- `_processOptions`: the options it leaves in `_options` when it returns `true`. -/
def processOptions (nwclientServerPort : Int) (argv : List (Char × List Char)) : Option Options :=
  match optionLoop atoi (Options.init nwclientServerPort) argv with
  | none => none
  | some o =>
    if o.file.isSome ∧ (o.port.isSome ∨ o.seggerPort ≠ 0) then none
    else if o.port.isSome ∧ o.seggerPort ≠ 0 then none
    else some o

/-- The dispatch at the end of `main`: `seggerFeeder` when `seggerPort` is set, else
`serialFeeder` when `port` is, else `fileFeeder` when `file` is, else `usbFeeder`. `main` gets
there only past its exits (`mainEnter`). -/
def mainFeeder (o : Options) : Feeder :=
  if o.seggerPort ≠ 0 then .segger
  else if o.port.isSome then .serial
  else if o.file.isSome then .file
  else .usb

/-- `main` between `_processOptions` and the threads: with `useTPIU`, the loop over
`channelList` (`genericsExit` is the `error`), whose first `numHandlers` handlers
`_processBlocks` uses; otherwise one network server on `listenPort`. `t` is the decoder after
`TPIUDecoderInit`; with TPIU, `_r.n` stays `NULL` and the thread never reads it: `n` stands
for it. `useTPIU` is only set by `-t`, which also sets `channelList`. -/
def mainStart {σ : Type} (t : σ) (n : NwclientsHandle) (o : Options) : Except String (RunTime σ) :=
  if o.useTPIU then
    (parseChannelList o.listenPort (o.channelList.getD [])).map fun st =>
      ⟨t, 0, true, st.handler.take st.numHandlers.toNat, n, []⟩
  else .ok ⟨t, 0, false, [], nwclientStart o.listenPort, []⟩

/-- `main` from the command line to the feeder it enters, with the state `_processBlocks` starts
from, or the message of the `genericsExit` that ends it first: `_processOptions` refusing the
command line (it prints its own messages, so the text is empty), or the channel list of `-t`.
The handlers for `SIGINT` and `SIGPIPE` are taken to install. `nwclient.c` is not among the
sources: `nwclientStart` is taken to open its server, so the exit when it cannot is not in the
model. -/
def mainEnter {σ : Type} (t : σ) (n : NwclientsHandle) (nwclientServerPort : Int)
    (argv : List (Char × List Char)) : Except String (RunTime σ × Feeder) :=
  match processOptions atoi nwclientServerPort argv with
  | none => .error ""
  | some o => (mainStart t n o).map fun r => (r, mainFeeder o)

end Orbuculum
