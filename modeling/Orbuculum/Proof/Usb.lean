import Orbuculum.Spec.Usb

/-!
# The interface `usbFeeder` claims

`ifLoop_eq`: the nested loops of the interface search, which stop once `interface_found` is
set, find the first trace interface in the order they visit the alternate settings
(`firstTrace`). `usbPass_claim_iff` says when a pass claims an interface and which one, and
`usbPass_setAlt_last_found` which alternate setting it selects: the one of the most recent
pass whose search found an interface, in this pass or an earlier one, on whichever device.
-/

namespace Orbuculum

/-- The alternate settings of a configuration in the order the search visits them, each with
its interface's `num_altsetting`. -/
def altsettings (config : ConfigDescriptor) : List (InterfaceDescriptor × Nat) :=
  config.interface.flatMap fun alts => alts.map fun i => (i, alts.length)

/-- The first trace interface of a configuration, with its interface's `num_altsetting`. -/
def firstTrace (config : ConfigDescriptor) : Option (InterfaceDescriptor × Nat) :=
  (altsettings config).find? fun d => isTraceInterface d.1

/-- The search's locals and `interface_found` after it finds `d`, or nothing, from `u`. -/
def searchResult (u : UsbIface) : Option (InterfaceDescriptor × Nat) → UsbIface × Bool
  | some (i, n) => (UsbIface.ofMatch i n, true)
  | none => (u, false)

/-! ## The search loops -/

theorem altLoop_found (n : Nat) (alts : List InterfaceDescriptor) (u : UsbIface) :
    altLoop n alts (u, true) = (u, true) := by
  cases alts <;> rfl

theorem ifLoop_found (ifs : List (List InterfaceDescriptor)) (u : UsbIface) :
    ifLoop ifs (u, true) = (u, true) := by
  cases ifs <;> rfl

theorem altLoop_eq (n : Nat) (alts : List InterfaceDescriptor) (u : UsbIface) :
    altLoop n alts (u, false) =
      searchResult u ((alts.map fun i => (i, n)).find? fun d => isTraceInterface d.1) := by
  induction alts with
  | nil => rfl
  | cons i is ih =>
    by_cases hi : isTraceInterface i
    · simp [altLoop, hi, altLoop_found, searchResult]
    · simp [altLoop, hi, ih]

/-- The two loops, which leave as soon as `interface_found` is set, agree with a plain search
of the alternate settings in the order they visit them. -/
theorem ifLoop_eq (ifs : List (List InterfaceDescriptor)) (u : UsbIface) :
    ifLoop ifs (u, false) = searchResult u (firstTrace ⟨ifs⟩) := by
  induction ifs with
  | nil => rfl
  | cons alts ifs ih =>
    simp only [ifLoop, firstTrace, altsettings, List.flatMap_cons, List.find?_append,
      altLoop_eq, Bool.false_eq_true, ↓reduceIte]
    cases (alts.map fun i => (i, alts.length)).find? fun d => isTraceInterface d.1 with
    | some d => exact ifLoop_found _ _
    | none => exact ih

theorem searchInterface_eq (config : ConfigDescriptor) (u : UsbIface) :
    searchInterface config u = searchResult u (firstTrace config) :=
  ifLoop_eq config.interface u

/-- A trace interface has exactly one endpoint, the one the search takes as `ep`. -/
theorem isTraceInterface_endpoint {i : InterfaceDescriptor} (h : isTraceInterface i) :
    i.endpoint = [i.endpoint.headD 0] := by
  have h1 : i.bNumEndpoints = 1 := by simp [isTraceInterface] at h; exact h.2
  obtain ⟨e, he⟩ := List.length_eq_one.1 (i.endpoint_length.trans (by rw [h1]; rfl))
  rw [he]
  rfl

theorem firstTrace_isTrace {config : ConfigDescriptor} {d : InterfaceDescriptor × Nat}
    (h : firstTrace config = some d) : isTraceInterface d.1 := by
  simpa using List.find?_some h

theorem findDevice_eq (opens : UInt32 → UInt32 → Bool) (l : List DeviceEntry) :
    findDevice opens l = l.find? fun p => opens p.vid p.pid := by
  induction l with
  | nil => rfl
  | cons p ps ih => by_cases hp : opens p.vid p.pid <;> simp [findDevice, hp, ih]

/-! ## A pass -/

/-- The interface a pass's search finds: on the first device that opens, once
`libusb_get_device` has given it, when it autodiscovers and its configuration was read. -/
def UsbRound.discovery (x : UsbRound) : Option (InterfaceDescriptor × Nat) :=
  match deviceList.find? fun p => x.opens p.vid p.pid with
  | some p => if x.getDevice ∧ p.autodiscover then x.config.bind firstTrace else none
  | none => none

/-- `altsetting` and `num_altsetting` after a pass whose search found `d`, if it found one. -/
def UsbState.after (s : UsbState) : Option (InterfaceDescriptor × Nat) → UsbState
  | some (i, n) => ⟨i.bAlternateSetting, UInt8.ofNat n⟩
  | none => s

/-- The alternate setting selected with these values: only when `num_altsetting > 1`. -/
def UsbState.requestedAlt (s : UsbState) : Option UInt8 :=
  if 1 < s.numAltsetting then some s.altsetting else none

theorem discovery_of_autodiscover {x : UsbRound} {p : DeviceEntry}
    (hf : deviceList.find? (fun p => x.opens p.vid p.pid) = some p) (hg : x.getDevice)
    (ha : p.autodiscover) : x.discovery = x.config.bind firstTrace := by
  simp [UsbRound.discovery, hf, hg, ha]

theorem discovery_isTrace {x : UsbRound} {d : InterfaceDescriptor × Nat}
    (h : x.discovery = some d) : isTraceInterface d.1 := by
  unfold UsbRound.discovery at h
  split at h
  · split_ifs at h
    obtain ⟨config, -, hc⟩ := Option.bind_eq_some.1 h
    exact firstTrace_isTrace hc
  · cases h

/-- A pass in closed form: the device is the first table entry that opens, the interface and
endpoint the trace interface's when the search found one and the table's otherwise. -/
theorem usbPass_eq (s : UsbState) (x : UsbRound) :
    usbPass s x = (s.after x.discovery,
      (deviceList.find? fun p => x.opens p.vid p.pid).bind fun p =>
        if x.getDevice ∧ x.claim ∧ (p.autodiscover → x.config.isSome) then
          some ⟨p, x.discovery.elim p.iface fun d => d.1.bInterfaceNumber,
            x.discovery.elim p.ep fun d => d.1.endpoint.headD 0,
            (s.after x.discovery).requestedAlt⟩
        else none) := by
  unfold usbPass
  rw [findDevice_eq]
  cases hf : deviceList.find? fun p => x.opens p.vid p.pid with
  | none => simp [UsbRound.discovery, hf, UsbState.after]
  | some p =>
    cases hg : x.getDevice
    · simp [UsbRound.discovery, hf, hg, UsbState.after]
    cases ha : p.autodiscover
    · have hd : x.discovery = none := by simp [UsbRound.discovery, hf, ha]
      cases x.claim <;> simp [hd, ha, UsbState.after, UsbState.requestedAlt]
    rw [discovery_of_autodiscover hf hg ha]
    cases hc : x.config with
    | none => simp [ha, UsbState.after]
    | some config =>
      simp only [ha, ↓reduceIte, Option.map_some', Option.bind_some, searchInterface_eq]
      cases ht : firstTrace config with
      | none => cases x.claim <;> simp [ht, searchResult, UsbState.after, UsbState.requestedAlt]
      | some d =>
        cases x.claim <;>
          simp [ht, searchResult, UsbIface.ofMatch, UsbState.after, UsbState.requestedAlt]

theorem usbPass_state (s : UsbState) (x : UsbRound) : (usbPass s x).1 = s.after x.discovery := by
  rw [usbPass_eq]

theorem usbPass_setAlt {s : UsbState} {x : UsbRound} {c : UsbClaim}
    (h : (usbPass s x).2 = some c) : c.setAlt = (s.after x.discovery).requestedAlt := by
  rw [usbPass_eq] at h
  obtain ⟨p, -, hc⟩ := Option.bind_eq_some.1 h
  split at hc
  · cases hc; rfl
  · cases hc

/-- **When a pass claims an interface, and which.** A pass of `usbFeeder` claims an interface
exactly when a device of the table opens, `libusb_get_device` and `libusb_claim_interface`
succeed and, for a device that autodiscovers, its configuration is read. The device is the
first entry of `_deviceList` that opens. If the search found a trace interface, the pass
claims it and reads from its only endpoint; otherwise it claims the table's interface and
endpoint. It selects the alternate setting that `altsetting` holds after the pass, when
`num_altsetting` is above one. -/
theorem usbPass_claim_iff {s : UsbState} {x : UsbRound} {c : UsbClaim} :
    (usbPass s x).2 = some c ↔
      deviceList.find? (fun p => x.opens p.vid p.pid) = some c.device ∧ x.getDevice ∧
      x.claim ∧ (c.device.autodiscover → x.config.isSome) ∧
      (∀ d, x.discovery = some d → d.1.bInterfaceNumber = c.iface ∧ d.1.endpoint = [c.ep]) ∧
      (x.discovery = none → c.iface = c.device.iface ∧ c.ep = c.device.ep) ∧
      c.setAlt = (s.after x.discovery).requestedAlt := by
  rw [usbPass_eq]
  obtain ⟨dev, iface, ep, setAlt⟩ := c
  simp only [Option.bind_eq_some, Option.ite_none_right_eq_some, Option.some.injEq,
    UsbClaim.mk.injEq]
  constructor
  · rintro ⟨p, hf, ⟨hg, hcl, hac⟩, rfl, rfl, rfl, rfl⟩
    refine ⟨hf, hg, hcl, hac, fun d hd => ?_, fun hd => by simp [hd], rfl⟩
    simpa [hd] using isTraceInterface_endpoint (discovery_isTrace hd)
  · rintro ⟨hf, hg, hcl, hac, hsome, hnone, rfl⟩
    refine ⟨dev, hf, ⟨hg, hcl, hac⟩, rfl, ?_⟩
    cases hd : x.discovery with
    | none => simp [hnone hd]
    | some d =>
      obtain ⟨h1, h2⟩ := hsome d hd
      simp [h1, h2]

/-! ## Runs -/

theorem usbRun_append_singleton (s : UsbState) (xs : List UsbRound) (x : UsbRound) :
    usbRun s (xs ++ [x]) = (usbPass (usbRun s xs) x).1 := by
  simp [usbRun]

/-- After any passes, `altsetting` and `num_altsetting` hold the values of the last interface
a search found, or their values before the passes if no search found one. -/
theorem usbRun_eq (s : UsbState) (xs : List UsbRound) :
    usbRun s xs = s.after (xs.filterMap UsbRound.discovery).getLast? := by
  induction xs using List.reverseRecOn with
  | nil => rfl
  | append_singleton xs x ih =>
    rw [usbRun_append_singleton, usbPass_state, ih, List.filterMap_append, List.getLast?_append]
    cases hd : x.discovery with
    | none => simp only [List.filterMap_cons, hd, List.filterMap_nil, List.getLast?_nil,
        Option.none_or]; rfl
    | some d =>
      simp only [List.filterMap_cons, hd, List.filterMap_nil, List.getLast?_singleton,
        Option.or_some]
      rfl

/-- **A claim selects the alternate setting of the last interface found, on any device.**
`altsetting` and `num_altsetting` are set only by a search that finds an interface, so the
pass that follows any passes `pre` and claims an interface selects the alternate setting of
the last interface found in `pre` or in this pass, even if that was on another device or in a
pass whose claim failed; it selects none while no search has found an interface, or when that
interface had at most one alternate setting (counted in a `uint8_t`). -/
theorem usbPass_setAlt_last_found (pre : List UsbRound) (x : UsbRound) {c : UsbClaim}
    (h : (usbPass (usbRun UsbState.init pre) x).2 = some c) :
    c.setAlt = ((pre ++ [x]).filterMap UsbRound.discovery).getLast?.bind fun d =>
      if 1 < UInt8.ofNat d.2 then some d.1.bAlternateSetting else none := by
  rw [usbPass_setAlt h, ← usbPass_state, ← usbRun_append_singleton, usbRun_eq]
  cases ((pre ++ [x]).filterMap UsbRound.discovery).getLast? with
  | none => rfl
  | some d => rfl

/-- An Orbtrace configuration with one interface of two alternate settings, the second a trace
interface whose endpoint is `0x81`. -/
def orbtraceConfig : ConfigDescriptor :=
  ⟨[[⟨0, 0, 0xff, 0x54, 0x02, [], 0, rfl⟩, ⟨0, 1, 0xff, 0x54, 0x01, [0x81], 1, rfl⟩]]⟩

/-- A pass on an Orbtrace, claimed. -/
def orbtraceRound : UsbRound := ⟨fun vid _ => vid == 0x1209, true, some orbtraceConfig, true⟩

/-- A later pass with the Orbtrace gone and a Blackmagic Probe attached. -/
def blackmagicRound : UsbRound := ⟨fun vid _ => vid == 0x1d50, true, none, true⟩

/-- After an Orbtrace pass, a pass on a Blackmagic Probe selects the Orbtrace's alternate
setting 1 on its own interface 5. -/
theorem usbPass_setAlt_last_found_blackmagic :
    (usbPass (usbRun UsbState.init [orbtraceRound]) blackmagicRound).2 =
      some ⟨⟨0x1d50, 0x6018, false, 5, 0x85, "Blackmagic Probe"⟩, 5, 0x85, some 1⟩ ∧
    (⟨⟨0x1d50, 0x6018, false, 5, 0x85, "Blackmagic Probe"⟩, 5, 0x85, some 1⟩ : UsbClaim).setAlt =
      (([orbtraceRound] ++ [blackmagicRound]).filterMap UsbRound.discovery).getLast?.bind
        fun d => if 1 < UInt8.ofNat d.2 then some d.1.bAlternateSetting else none :=
  ⟨rfl, usbPass_setAlt_last_found _ _ rfl⟩

end Orbuculum
