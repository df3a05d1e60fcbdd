import Orbuculum.Spec.Basic

/-!
# Finding and claiming the probe (`usbFeeder`)

Each pass of `usbFeeder`'s outer loop looks for the first device of `_deviceList` that
`libusb_open_device_with_vid_pid` opens. For a device marked `autodiscover` it then searches
the active configuration for a trace interface, with two nested loops that stop once
`interface_found` is set. It claims the interface and, when `num_altsetting > 1`, selects
`altsetting`. The transfer loop that follows is the feeder step of `Spec/Threads`.

`iface` and `ep` are set from the table at every pass, but `altsetting` and `num_altsetting`
are set to zero once, before the loop, and afterwards only by a search that finds an
interface: they carry over from one pass to the next.

libusb is not among the sources: what its calls return in a pass is a `UsbRound`.
-/

namespace Orbuculum

/-- An entry of `_deviceList`. -/
structure DeviceEntry where
  vid : UInt32
  pid : UInt32
  autodiscover : Bool
  iface : UInt8
  ep : UInt8
  name : String
deriving DecidableEq, Repr

/-- `_deviceList`, without its all-zero terminator. -/
def deviceList : List DeviceEntry :=
  [⟨0x1209, 0x3443, true, 0, 0x81, "Orbtrace"⟩,
   ⟨0x1d50, 0x6018, false, 5, 0x85, "Blackmagic Probe"⟩,
   ⟨0x2b3e, 0xc610, false, 3, 0x85, "Phywhisperer-UDT"⟩]

/-- `struct libusb_interface_descriptor`, the fields the search reads; `endpoint` lists the
`bEndpointAddress` of its `bNumEndpoints` endpoints. -/
structure InterfaceDescriptor where
  bInterfaceNumber : UInt8
  bAlternateSetting : UInt8
  bInterfaceClass : UInt8
  bInterfaceSubClass : UInt8
  bInterfaceProtocol : UInt8
  endpoint : List UInt8
  bNumEndpoints : UInt8
  endpoint_length : endpoint.length = bNumEndpoints.toNat

/-- `struct libusb_config_descriptor`: `interface[if_num].altsetting` for each of its
`bNumInterfaces` interfaces, whose `num_altsetting` is the length of the list. -/
structure ConfigDescriptor where
  interface : List (List InterfaceDescriptor)

/-- The test the inner loop makes: an interface the search does not `continue` past. -/
def isTraceInterface (i : InterfaceDescriptor) : Bool :=
  !(i.bInterfaceClass != 0xff || i.bInterfaceSubClass != 0x54 ||
    (i.bInterfaceProtocol != 0x00 && i.bInterfaceProtocol != 0x01) || i.bNumEndpoints != 0x01)

/-- The locals the search writes: `iface`, `altsetting`, `num_altsetting` and `ep`. -/
structure UsbIface where
  iface : UInt8
  altsetting : UInt8
  numAltsetting : UInt8
  ep : UInt8
deriving DecidableEq, Repr

/-- What the search stores on a match: `num_altsetting` is the `int` of the interface,
stored in a `uint8_t`, and `ep` is `endpoint[0]`. -/
def UsbIface.ofMatch (i : InterfaceDescriptor) (numAltsetting : Nat) : UsbIface :=
  ⟨i.bInterfaceNumber, i.bAlternateSetting, UInt8.ofNat numAltsetting, i.endpoint.headD 0⟩

/-- `for ( int alt_num = 0; alt_num < num_altsetting && !interface_found; alt_num++ )` over
the alternate settings of one interface. -/
def altLoop (numAltsetting : Nat) : List InterfaceDescriptor → UsbIface × Bool → UsbIface × Bool
  | [], s => s
  | i :: is, (u, found) =>
    if found then (u, found)
    else if isTraceInterface i then altLoop numAltsetting is (UsbIface.ofMatch i numAltsetting, true)
    else altLoop numAltsetting is (u, found)

/-- `for ( int if_num = 0; if_num < config->bNumInterfaces && !interface_found; if_num++ )`. -/
def ifLoop : List (List InterfaceDescriptor) → UsbIface × Bool → UsbIface × Bool
  | [], s => s
  | alts :: ifs, (u, found) =>
    if found then (u, found) else ifLoop ifs (altLoop alts.length alts (u, found))

/-- The search for a trace interface, from `interface_found = false`. -/
def searchInterface (config : ConfigDescriptor) (u : UsbIface) : UsbIface × Bool :=
  ifLoop config.interface (u, false)

/-- `while ( p->vid != 0 )`: the first entry that `libusb_open_device_with_vid_pid` opens. -/
def findDevice (opens : UInt32 → UInt32 → Bool) : List DeviceEntry → Option DeviceEntry
  | [] => none
  | p :: ps => if opens p.vid p.pid then some p else findDevice opens ps

/-- What libusb gives in one pass: the devices `libusb_open_device_with_vid_pid` opens in the
round of the search that finds one (a round that finds none only sleeps), whether
`libusb_get_device` gives a device, the active configuration (`none` when
`libusb_get_active_config_descriptor` fails), and whether `libusb_claim_interface` succeeds. -/
structure UsbRound where
  opens : UInt32 → UInt32 → Bool
  getDevice : Bool
  config : Option ConfigDescriptor
  claim : Bool

/-- `altsetting` and `num_altsetting`, which outlive a pass. -/
structure UsbState where
  altsetting : UInt8
  numAltsetting : UInt8
deriving DecidableEq, Repr

/-- Their values when `usbFeeder` starts. -/
def UsbState.init : UsbState := ⟨0, 0⟩

/-- A pass that claimed an interface: the device, the `iface` claimed, the endpoint `ep` the
transfers use, and the `altsetting` passed to `libusb_set_interface_alt_setting`, if it is
called. -/
structure UsbClaim where
  device : DeviceEntry
  iface : UInt8
  ep : UInt8
  setAlt : Option UInt8
deriving DecidableEq, Repr

/-- One pass of the outer loop up to the transfer loop: the state it leaves and, unless it
ends in `continue`, the interface it claimed. A round of the search in which no device opens
only sleeps: it leaves the state and claims nothing. -/
def usbPass (s : UsbState) (x : UsbRound) : UsbState × Option UsbClaim :=
  match findDevice x.opens deviceList with
  | none => (s, none)
  | some p =>
    if !x.getDevice then (s, none)
    else
      let u : UsbIface := ⟨p.iface, s.altsetting, s.numAltsetting, p.ep⟩
      let found : Option UsbIface :=
        if p.autodiscover then x.config.map fun config => (searchInterface config u).1 else some u
      match found with
      | none => (s, none)
      | some u =>
        let s' : UsbState := ⟨u.altsetting, u.numAltsetting⟩
        if !x.claim then (s', none)
        else (s', some ⟨p, u.iface, u.ep, if 1 < u.numAltsetting then some u.altsetting else none⟩)

/-- The state `usbFeeder` keeps after passes one after another. -/
def usbRun (s : UsbState) (xs : List UsbRound) : UsbState :=
  xs.foldl (fun s x => (usbPass s x).1) s

end Orbuculum
