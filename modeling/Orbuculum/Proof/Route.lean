import Orbuculum.Spec.Process

/-!
# The one-slot cache routes like a linear lookup

`_stripTPIU` keeps `cachedChannel`, `h` and `chIndex` from one tuple to the next, across the
packets of a block. `routeLinear` is the lookup without a cache: every tuple goes to the first
handler on its stream, or nowhere. `decodeAll` lists the tuples of every packet the decoder
completes on a run of bytes.

* `routeTuple_eq`: while the cache names the handler a search would find (`Cache.OK`), one
  pass of the tuple loop is `routeLinear`, and the cache stays valid.
* `routeAll_getElem?`: linear routing appends to each handler exactly the bytes of the tuples
  whose first handler it is (`findChannel_spec`), in order.
* `stripTPIU_eq_routeAll`: **`_stripTPIU` is decoding followed by linear routing** of the
  decoded tuples, faults included, for every decoder, handler list and run of bytes.
-/

namespace Orbuculum

variable {σ : Type} (ts : Nat) (dec : TPIU σ)

/-- Routing a tuple by a plain linear lookup: the byte goes to the first handler on its
stream, or nowhere. -/
def routeLinear (hs : List Handler) (g : TPIUTuple) : Except Fault (List Handler) :=
  if findChannel hs g.s ≠ hs.length then appendByte ts hs (findChannel hs g.s) g.d else .ok hs

/-- `routeLinear` over a list of tuples, stopping at the first fault. -/
def routeAll : List Handler → List TPIUTuple → Except Fault (List Handler)
  | hs, [] => .ok hs
  | hs, g :: gs =>
    match routeLinear ts hs g with
    | .ok hs => routeAll hs gs
    | .error e => .error e

/-- The decoder's state after `bytes`, and the tuples of every packet it completed, in order. -/
def decodeAll : σ → List UInt8 → σ × List TPIUTuple
  | t, [] => (t, [])
  | t, b :: bs =>
    match dec.pump t b with
    | (t, .rxedPacket) =>
      ((decodeAll (dec.getPacket t).1 bs).1,
        (dec.getPacket t).2.packet ++ (decodeAll (dec.getPacket t).1 bs).2)
    | (t, _) => decodeAll t bs

/-- The channels of a handler list, which is all that a search reads. -/
def channels (hs : List Handler) : List UInt8 := hs.map (·.channel)

theorem findChannel_eq (hs : List Handler) (s : UInt8) :
    findChannel hs s = (channels hs).findIdx (· == s) := by
  unfold findChannel channels
  induction hs with
  | nil => rfl
  | cons h hs ih => simp [List.findIdx_cons, ih]

theorem length_eq_of_channels {hs hs' : List Handler} (h : channels hs' = channels hs) :
    hs'.length = hs.length := by
  simpa [channels] using congrArg List.length h

theorem appendByte_channels {hs hs' : List Handler} {j : Nat} {d : UInt8}
    (h : appendByte ts hs j d = .ok hs') : channels hs' = channels hs := by
  unfold appendByte at h
  split at h
  · rename_i x hx
    split at h
    · cases h
      apply List.ext_getElem (by simp [channels])
      intro k h1 h2
      simp only [channels, List.getElem_map, List.getElem_set]
      split
      · subst k; simp [(List.getElem?_eq_some_iff.1 hx).2]
      · rfl
    · cases h
  · cases h; rfl

theorem routeLinear_channels {hs hs' : List Handler} {g : TPIUTuple}
    (h : routeLinear ts hs g = .ok hs') : channels hs' = channels hs := by
  unfold routeLinear at h
  split at h
  · exact appendByte_channels ts h
  · cases h; rfl

/-- The cache is either unset or names the handler a search for its channel finds. -/
def Cache.OK (hs : List Handler) (c : Cache) : Prop :=
  c.cachedChannel = -1 ∨ ∃ s : UInt8, c.cachedChannel = s.toNat ∧ c.chIndex = findChannel hs s

theorem Cache.init_OK (hs : List Handler) : Cache.init.OK hs := .inl rfl

/-- The cache after a tuple on stream `s`. -/
def Cache.after (hs : List Handler) (s : UInt8) : Cache := ⟨s.toNat, findChannel hs s⟩

theorem Cache.after_OK {hs hs' : List Handler} (h : channels hs' = channels hs) (s : UInt8) :
    (Cache.after hs s).OK hs' :=
  .inr ⟨s, rfl, by rw [Cache.after, findChannel_eq, findChannel_eq, h]⟩

/-- **One pass of the tuple loop.** With a valid cache it routes like a linear lookup and
leaves the cache on the tuple's stream. -/
theorem routeTuple_eq {hs : List Handler} {c : Cache} (hc : c.OK hs) (g : TPIUTuple) :
    routeTuple ts hs c g = (routeLinear ts hs g).map (·, Cache.after hs g.s) := by
  have hcache : (if c.cachedChannel ≠ g.s.toNat then Cache.after hs g.s else c) =
      Cache.after hs g.s := by
    split
    · rfl
    · rename_i heq
      rcases hc with h | ⟨s, hs1, hs2⟩
      · have := UInt8.toNat_lt_size g.s; omega
      · have hsg : s = g.s := UInt8.toNat.inj (by omega)
        subst hsg
        cases c; simp_all [Cache.after]
  simp only [routeTuple, Cache.after] at hcache ⊢
  rw [hcache, routeLinear]
  split <;> rfl

theorem routeAll_append (hs : List Handler) (gs gs' : List TPIUTuple) :
    routeAll ts hs (gs ++ gs') =
      match routeAll ts hs gs with
      | .ok hs => routeAll ts hs gs'
      | .error e => .error e := by
  induction gs generalizing hs with
  | nil => rfl
  | cons g gs ih =>
    simp only [List.cons_append, routeAll]
    cases routeLinear ts hs g with
    | error e => rfl
    | ok hs1 => exact ih hs1

/-- The tuple loop over a packet routes like `routeAll` and leaves a valid cache. -/
theorem routePacket_eq {hs : List Handler} {c : Cache} (hc : c.OK hs) (gs : List TPIUTuple) :
    match routePacket ts hs c gs with
    | .ok (hs', c') => routeAll ts hs gs = .ok hs' ∧ c'.OK hs'
    | .error e => routeAll ts hs gs = .error e := by
  induction gs generalizing hs c with
  | nil => exact ⟨rfl, hc⟩
  | cons g gs ih =>
    simp only [routePacket, routeAll, routeTuple_eq ts hc]
    cases h : routeLinear ts hs g with
    | error e => rfl
    | ok hs1 => exact ih (Cache.after_OK (routeLinear_channels ts h) g.s)

theorem stripLoop_eq {hs : List Handler} {c : Cache} (hc : c.OK hs) (t : σ)
    (bytes : List UInt8) :
    stripLoop ts dec t hs c bytes =
      (routeAll ts hs (decodeAll dec t bytes).2).map ((decodeAll dec t bytes).1, ·) := by
  induction bytes generalizing t hs c with
  | nil => rfl
  | cons b bs ih =>
    simp only [stripLoop, decodeAll]
    rcases dec.pump t b with ⟨t1, ev⟩
    cases ev
    case rxedPacket =>
      dsimp only
      have hp := routePacket_eq ts hc (dec.getPacket t1).2.packet
      rw [routeAll_append]
      cases hrp : routePacket ts hs c (dec.getPacket t1).2.packet with
      | ok p =>
        rw [hrp] at hp
        rw [hp.1]
        exact ih hp.2 _
      | error e =>
        rw [hrp] at hp
        rw [hp]
        rfl
    all_goals exact ih hc t1

/-- `findChannel` is the first handler on stream `s`. -/
theorem findChannel_spec {hs : List Handler} {s : UInt8} {j : Nat} (hj : j < hs.length) :
    findChannel hs s = j ↔ hs[j].channel = s ∧ ∀ k (hk : k < j), hs[k].channel ≠ s := by
  simp [findChannel, List.findIdx_eq hj]

/-- The bytes of the tuples in `gs` whose first handler is `j`. -/
def routedTo (hs : List Handler) (gs : List TPIUTuple) (j : Nat) : List UInt8 :=
  (gs.filter (fun g => findChannel hs g.s = j)).map (·.d)

/-- A handler with `l` appended to its buffer. -/
def Handler.push (l : List UInt8) (h : Handler) : Handler :=
  { h with strippedBlock := h.strippedBlock ++ l }

@[simp] theorem Handler.push_nil : Handler.push [] = id := by funext h; simp [Handler.push]

@[simp] theorem Handler.push_push (l l' : List UInt8) (h : Handler) :
    (h.push l).push l' = h.push (l ++ l') := by simp [Handler.push]

@[simp] theorem routedTo_nil (hs : List Handler) (j : Nat) : routedTo hs [] j = [] := rfl

theorem routedTo_singleton (hs : List Handler) (g : TPIUTuple) (j : Nat) :
    routedTo hs [g] j = if findChannel hs g.s = j then [g.d] else [] := by
  by_cases h : findChannel hs g.s = j <;> simp [routedTo, h]

theorem routedTo_cons (hs : List Handler) (g : TPIUTuple) (gs : List TPIUTuple) (j : Nat) :
    routedTo hs (g :: gs) j = routedTo hs [g] j ++ routedTo hs gs j := by
  by_cases h : findChannel hs g.s = j <;> simp [routedTo, List.filter_cons, h]

theorem routedTo_congr {hs hs' : List Handler} (h : channels hs' = channels hs)
    (gs : List TPIUTuple) (j : Nat) : routedTo hs' gs j = routedTo hs gs j := by
  simp only [routedTo, findChannel_eq, h]

theorem appendByte_getElem? {hs hs' : List Handler} {i : Nat} {d : UInt8} (hi : i < hs.length)
    (h : appendByte ts hs i d = .ok hs') (j : Nat) :
    hs'[j]? = hs[j]?.map (Handler.push (if i = j then [d] else [])) := by
  simp only [appendByte, List.getElem?_eq_getElem hi] at h
  split at h
  · cases h
    rw [List.getElem?_set]
    by_cases hij : i = j
    · subst hij; simp [hi, Handler.push]
    · simp [hij]
  · cases h

/-- One tuple routed by the linear lookup: its byte is appended to its first handler. -/
theorem routeLinear_getElem? {hs hs' : List Handler} {g : TPIUTuple}
    (h : routeLinear ts hs g = .ok hs') (j : Nat) :
    hs'[j]? = hs[j]?.map (Handler.push (routedTo hs [g] j)) := by
  unfold routeLinear at h
  split at h
  · rename_i hne
    have hlt : findChannel hs g.s < hs.length :=
      lt_of_le_of_ne (List.findIdx_le_length _) hne
    rw [appendByte_getElem? ts hlt h j, routedTo_singleton]
  · cases h
    rw [routedTo_singleton]
    by_cases hj : findChannel hs g.s = j
    · rename_i heq
      have : hs[j]? = none := List.getElem?_eq_none (by omega)
      simp [this]
    · simp [hj]

/-- **`routeAll` appends to each handler the bytes of exactly the tuples whose first handler
it is**, in order, and changes nothing else. -/
theorem routeAll_getElem? {hs hs' : List Handler} {gs : List TPIUTuple}
    (h : routeAll ts hs gs = .ok hs') (j : Nat) :
    hs'[j]? = hs[j]?.map (Handler.push (routedTo hs gs j)) := by
  induction gs generalizing hs with
  | nil => cases h; simp
  | cons g gs ih =>
    simp only [routeAll] at h
    split at h
    · rename_i hs1 h1
      rw [ih h, routedTo_congr (routeLinear_channels ts h1), routeLinear_getElem? ts h1,
        Option.map_map, routedTo_cons hs g gs]
      congr 1
      funext x
      simp
    · cases h

/-- `_stripTPIU` is decoding followed by linear routing, faults included. -/
theorem stripTPIU_eq (r : RunTime σ) (bytes : List UInt8) :
    stripTPIU ts dec r bytes = (routeAll ts r.handler (decodeAll dec r.t bytes).2).map
      (fun hs => { r with t := (decodeAll dec r.t bytes).1, handler := hs }) := by
  rw [stripTPIU, stripLoop_eq ts dec (Cache.init_OK r.handler)]
  cases routeAll ts r.handler (decodeAll dec r.t bytes).2 <;> rfl

/-- After `_stripTPIU`, every handler's buffer has grown by the bytes routed to it, and nothing
else has changed. -/
theorem stripTPIU_ok {r r' : RunTime σ} {bytes : List UInt8} (h : stripTPIU ts dec r bytes = .ok r') :
    r' = { r with t := (decodeAll dec r.t bytes).1, handler := r'.handler } ∧
      ∀ j, r'.handler[j]? =
        r.handler[j]?.map (Handler.push (routedTo r.handler (decodeAll dec r.t bytes).2 j)) := by
  rw [stripTPIU_eq] at h
  cases hr : routeAll ts r.handler (decodeAll dec r.t bytes).2 with
  | error e => rw [hr] at h; cases h
  | ok hs1 =>
    rw [hr] at h
    cases h
    exact ⟨rfl, routeAll_getElem? ts hr⟩

/-- **The cache refines the linear lookup.** For every decoder, handler list (duplicates
allowed) and run of bytes, `_stripTPIU` with its one-slot cache gives what decoding the bytes
and sending each decoded tuple to the first handler on its stream gives, faults included: every
handler's buffer grows by exactly the bytes of the tuples whose first handler it is.
`routedTo` keeps the tuples the search `findChannel` sends to a handler, and `findChannel_spec`
shows that this is the first handler on the tuple's stream. -/
theorem stripTPIU_eq_routeAll (r : RunTime σ) (bytes : List UInt8) :
    stripTPIU ts dec r bytes =
        (routeAll ts r.handler (decodeAll dec r.t bytes).2).map
          (fun hs => { r with t := (decodeAll dec r.t bytes).1, handler := hs }) ∧
      ∀ r', stripTPIU ts dec r bytes = .ok r' → ∀ j, r'.handler[j]? =
        r.handler[j]?.map (Handler.push (routedTo r.handler (decodeAll dec r.t bytes).2 j)) :=
  ⟨stripTPIU_eq ts dec r bytes, fun _ h => (stripTPIU_ok ts dec h).2⟩

end Orbuculum
