import Orbuculum.Spec.Channels

/-!
# What the `-t` parser accepts

A pass of `while ( *c )` reads `commas ++ digits ++ rest`, where `rest` is empty or starts with
a character that is not a digit. Over the whole text, the digit runs the passes read are the
maximal runs of digits of the list (`runValues`), and every other character is met at the
head of some `rest`. `x` starts each pass at `0`, so the pass leaves `int32` of the run's
value in `x`.

* `parseChannelList_spec`: **the list is accepted exactly when it holds only digits and commas
  and every run, taken modulo `2 ^ 32` into an `int`, lies in `[0, NUM_TPIU_CHANNELS)`**; then
  `numHandlers` is the number of runs that are non-zero in an `int`, modulo `256`, and, for up
  to 256 of them, `handler[i]` is the `i`-th with its sink on `listenPort + i`.
* `parseChannelList_error`: every `genericsExit` names its cause.
* `parseChannelList_wraps`: `4294967297` is accepted as channel 1.
-/

namespace Orbuculum

/-- The value of a run of decimal digits, as an unbounded integer. -/
def decValue (ds : List Char) : Int := ds.foldl (fun v d => v * 10 + digitVal d) 0

/-- The values of the maximal runs of digits of a text, left to right; `cur` is the value of
the run being read, if any. -/
def runValues : List Char → Option Int → List Int
  | [], cur => cur.toList
  | d :: s, cur =>
    if d.isDigit then runValues s (some (cur.getD 0 * 10 + digitVal d))
    else cur.toList ++ runValues s none

/-- A value `main` takes as a channel. -/
def ChannelInRange (x : Int) : Prop := 0 ≤ x ∧ x < numTpiuChannels

instance (x : Int) : Decidable (ChannelInRange x) := inferInstanceAs (Decidable (_ ∧ _))

/-- The lists `main` accepts: digits and commas only, and every run in range once it is held
in an `int`. -/
def ChannelListOK (s : List Char) : Prop :=
  (∀ d ∈ s, d.isDigit ∨ d = ',') ∧ ∀ v ∈ runValues s none, ChannelInRange (int32 v)

/-- The channels `main` opens, in order: the runs as an `int` holds them, zeros dropped. -/
def openedChannels (s : List Char) : List Int := ((runValues s none).map int32).filter (· != 0)

/-! ### One pass -/

/-- The digits a pass reads from `c`, after the commas. -/
def passDigits (c : List Char) : List Char := (c.dropWhile (· == ',')).takeWhile (·.isDigit)

/-- The text a pass leaves. -/
def passRest (c : List Char) : List Char := (c.dropWhile (· == ',')).dropWhile (·.isDigit)

@[simp] theorem int32_zero : int32 0 = 0 := rfl

theorem int32_mul_add (a k : Int) : int32 (int32 a * 10 + k) = int32 (a * 10 + k) := by
  unfold int32; omega

theorem skipCommas_eq (c : List Char) : skipCommas c = c.dropWhile (· == ',') := by
  induction c with
  | nil => rfl
  | cons d c ih => by_cases h : d = ',' <;> simp [skipCommas, List.dropWhile_cons, h, ih]

theorem readDigits_eq (x : Int) (c : List Char) :
    readDigits x c = ((c.takeWhile (·.isDigit)).foldl (fun x d => int32 (x * 10 + digitVal d)) x,
      c.dropWhile (·.isDigit)) := by
  induction c generalizing x with
  | nil => rfl
  | cons d c ih => by_cases h : d.isDigit <;> simp [readDigits, List.takeWhile_cons, h, ih]

theorem foldl_int32 (ds : List Char) (a : Int) :
    ds.foldl (fun x d => int32 (x * 10 + digitVal d)) (int32 a) =
      int32 (ds.foldl (fun v d => v * 10 + digitVal d) a) := by
  induction ds generalizing a with
  | nil => rfl
  | cons d ds ih => rw [List.foldl_cons, int32_mul_add, ih, List.foldl_cons]

/-- From `x = 0`, a run of digits leaves `int32` of its value in `x`. -/
theorem readDigits_zero (c : List Char) :
    readDigits 0 c = (int32 (decValue (c.takeWhile (·.isDigit))), c.dropWhile (·.isDigit)) := by
  rw [readDigits_eq, decValue, ← foldl_int32]; rfl

theorem channelState_with_x {st : ChannelState} {x : Int} (h : st.x = x) : { st with x := x } = st := by
  subst h; rfl

/-- A pass from `x = 0`, with its loops read off. -/
theorem channelPass_eq (listenPort : Int) (c : List Char) {st : ChannelState} (hx : st.x = 0) :
    channelPass listenPort c st =
      match (passRest c).head?.filter (· != ',') with
      | some d => .error (illegalCharacter d)
      | none =>
        if int32 (decValue (passDigits c)) = 0 then .ok (passRest c, st)
        else if int32 (decValue (passDigits c)) < 0 ∨
            numTpiuChannels ≤ int32 (decValue (passDigits c)) then .error channelOutOfRange
        else .ok (passRest c, addHandler listenPort st (int32 (decValue (passDigits c)))) := by
  simp only [channelPass, hx, skipCommas_eq, readDigits_zero, passRest, passDigits]
  cases ((c.dropWhile (· == ',')).dropWhile (·.isDigit)).head?.filter (· != ',') with
  | some d => rfl
  | none =>
    dsimp only
    split_ifs with h0
    · rw [channelState_with_x (hx.trans h0.symm)]
    all_goals rfl

/-- A pass that does not fail consumes a character. -/
theorem passRest_length_lt {d : Char} {c : List Char}
    (h : (passRest (d :: c)).head?.filter (· != ',') = none) :
    (passRest (d :: c)).length < (d :: c).length := by
  have hle : ∀ (p : Char → Bool) (l : List Char), (l.dropWhile p).length ≤ l.length :=
    fun p l => (List.dropWhile_suffix p).length_le
  by_cases hd : d = ','
  · simp only [passRest, List.dropWhile_cons, hd, beq_self_eq_true, if_true, List.length_cons]
    exact Nat.lt_succ_of_le ((hle _ _).trans (hle _ _))
  · by_cases hg : d.isDigit
    · simp only [passRest, List.dropWhile_cons, beq_iff_eq, hd, if_false, hg, if_true,
        List.length_cons]
      exact Nat.lt_succ_of_le (hle _ _)
    · simp [passRest, List.dropWhile_cons, hd, hg] at h

/-- A pass stops, when it does not stop at a comma, at a character of the text that is
neither a digit nor a comma. -/
theorem stop_not_channelChar {c : List Char} {e : Char}
    (he : (passRest c).head?.filter (· != ',') = some e) : e ∈ c ∧ ¬ (e.isDigit ∨ e = ',') := by
  rw [Option.filter_eq_some] at he
  have hn := List.head?_dropWhile_not (·.isDigit) (c.dropWhile (· == ','))
  rw [← passRest, Option.mem_def.mp he.1] at hn
  refine ⟨((List.dropWhile_suffix _).trans (List.dropWhile_suffix _)).subset
    (List.mem_of_mem_head? he.1), ?_⟩
  simp_all

/-- Leading commas end no run. -/
theorem runValues_dropWhile_comma (c : List Char) :
    runValues c none = runValues (c.dropWhile (· == ',')) none := by
  induction c with
  | nil => rfl
  | cons d c ih =>
    by_cases hd : d = ','
    · subst hd; simp [runValues, ih]
    · simp [List.dropWhile_cons, hd]

theorem runValues_some (c : List Char) (a : Int) :
    runValues c (some a) =
      (c.takeWhile (·.isDigit)).foldl (fun v d => v * 10 + digitVal d) a ::
        runValues (c.dropWhile (·.isDigit)) none := by
  induction c generalizing a with
  | nil => rfl
  | cons d c ih => by_cases h : d.isDigit <;> simp [runValues, List.takeWhile_cons, h, ih]

/-- The runs of a text: the pass's run, if it read digits, then the runs of what it leaves. -/
theorem runValues_pass (c : List Char) :
    runValues c none =
      (if passDigits c = [] then [] else [decValue (passDigits c)]) ++ runValues (passRest c) none := by
  rw [runValues_dropWhile_comma, passDigits, passRest]
  cases c.dropWhile (· == ',') with
  | nil => rfl
  | cons d c =>
    by_cases h : d.isDigit
    · simp [runValues, List.takeWhile_cons, h, runValues_some, decValue]
    · simp [runValues, List.takeWhile_cons, h]

/-- The characters a pass consumes are all digits or commas. -/
theorem forall_channelChar_pass (c : List Char) :
    (∀ d ∈ c, d.isDigit ∨ d = ',') ↔ ∀ d ∈ passRest c, d.isDigit ∨ d = ',' := by
  have split : ∀ (p : Char → Bool) (l : List Char), (∀ d, p d → d.isDigit ∨ d = ',') →
      ((∀ d ∈ l, d.isDigit ∨ d = ',') ↔ ∀ d ∈ l.dropWhile p, d.isDigit ∨ d = ',') := by
    intro p l hp
    conv_lhs => rw [← List.takeWhile_append_dropWhile p l]
    simp only [List.mem_append]
    exact ⟨fun h d hd => h d (.inr hd),
      fun h d => (·.elim (fun hd => hp d (List.mem_takeWhile_imp hd)) (h d))⟩
  rw [split (· == ',') c (fun d h => .inr (by simpa using h)), passRest]
  exact split _ _ (fun d h => .inl h)

theorem channelListOK_pass (c : List Char) :
    ChannelListOK c ↔
      ChannelInRange (int32 (decValue (passDigits c))) ∧ ChannelListOK (passRest c) := by
  have h0 : ChannelInRange (int32 (decValue [])) := by decide
  unfold ChannelListOK
  rw [forall_channelChar_pass, runValues_pass]
  split_ifs with h
  · simp [h, h0]
  · simp only [List.singleton_append, List.forall_mem_cons]; tauto

theorem openedChannels_pass (c : List Char) :
    openedChannels c = (if int32 (decValue (passDigits c)) = 0 then [] else
      [int32 (decValue (passDigits c))]) ++ openedChannels (passRest c) := by
  unfold openedChannels
  rw [runValues_pass]
  split_ifs with h h0 h0 <;> simp_all [decValue]

/-! ### The loop -/

theorem passRest_suffix (c : List Char) : passRest c <:+ c :=
  (List.dropWhile_suffix _).trans (List.dropWhile_suffix _)

/-- The causes of a `genericsExit` with message `e` that a text holds: a character that is
neither a digit nor a comma, or a run out of range once held in an `int`. -/
def ExitCause (c : List Char) (e : String) : Prop :=
  (∃ d ∈ c, ¬ (d.isDigit ∨ d = ',') ∧ e = illegalCharacter d) ∨
    (e = channelOutOfRange ∧ ∃ v ∈ runValues c none, ¬ ChannelInRange (int32 v))

/-- A cause in the text a pass leaves is a cause in the text. -/
theorem ExitCause.of_passRest {c : List Char} {e : String} :
    ExitCause (passRest c) e → ExitCause c e := by
  rintro (⟨d, hd, hc⟩ | ⟨he, v, hv, hr⟩)
  · exact .inl ⟨d, (passRest_suffix _).subset hd, hc⟩
  · exact .inr ⟨he, v, by rw [runValues_pass]; exact List.mem_append_right _ hv, hr⟩

/-- What the loop should give on the text `c` from the state `st`: the channels of an accepted
text opened one after the other, or, on any other text, a `genericsExit` whose cause the text
holds. -/
def LoopResult (listenPort : Int) (c : List Char) (st : ChannelState) :
    Except String ChannelState → Prop
  | .ok st' => ChannelListOK c ∧ st' = (openedChannels c).foldl (addHandler listenPort) st
  | .error e => ¬ ChannelListOK c ∧ ExitCause c e

/-- A pass that goes on to the rest of the text, accepting what it read and opening from `st`
what the rest opens from `st'`. -/
theorem LoopResult.of_pass {listenPort : Int} {c : List Char} {st st' : ChannelState}
    {res : Except String ChannelState} (hok : ChannelListOK c ↔ ChannelListOK (passRest c))
    (hopen : (openedChannels c).foldl (addHandler listenPort) st =
      (openedChannels (passRest c)).foldl (addHandler listenPort) st')
    (h : LoopResult listenPort (passRest c) st' res) : LoopResult listenPort c st res := by
  cases res with
  | ok st'' => exact And.intro (hok.2 h.1) (h.2.trans hopen.symm)
  | error e => exact And.intro (fun hc => h.1 (hok.1 hc)) h.2.of_passRest

/-- **The loop, whole.** From `x = 0` and with enough passes, the loop opens the channels of an
accepted text one after the other, and exits on any other text, naming a cause it holds. -/
theorem channelLoop_spec (listenPort : Int) {fuel : Nat} {c : List Char} {st : ChannelState}
    (hf : c.length < fuel) (hx : st.x = 0) :
    LoopResult listenPort c st (channelLoop listenPort fuel c st) := by
  induction fuel generalizing c st with
  | zero => omega
  | succ fuel ih =>
    cases c with
    | nil => exact And.intro ⟨by simp, by simp [runValues]⟩ rfl
    | cons d c =>
      have hpass := channelListOK_pass (d :: c)
      have hopen := openedChannels_pass (d :: c)
      rw [channelLoop, channelPass_eq listenPort _ hx]
      cases hr : (passRest (d :: c)).head?.filter (· != ',') with
      | some e =>
        have he := stop_not_channelChar hr
        exact And.intro (fun h => he.2 (h.1 e he.1)) (.inl ⟨e, he.1, he.2, rfl⟩)
      | none =>
        have hlt := passRest_length_lt hr
        simp only [List.length_cons] at hf hlt
        split_ifs with h0 hout
        · refine (ih (by omega) hx).of_pass ?_ ?_
          · rw [hpass, h0]; simp [ChannelInRange, numTpiuChannels]
          · rw [hopen, if_pos h0]; rfl
        · have hnot : ¬ ChannelInRange (int32 (decValue (passDigits (d :: c)))) := by
            unfold ChannelInRange; omega
          have hds : passDigits (d :: c) ≠ [] := fun hn => h0 (by rw [hn]; rfl)
          refine And.intro (fun h => hnot (hpass.1 h).1) (.inr ⟨rfl, _, ?_, hnot⟩)
          rw [runValues_pass, if_neg hds]; exact List.mem_append_left _ (List.mem_singleton_self _)
        · have hin : ChannelInRange (int32 (decValue (passDigits (d :: c)))) := by
            unfold ChannelInRange; omega
          refine (ih (by omega) rfl).of_pass ?_ ?_
          · rw [hpass]; simp [hin]
          · rw [hopen, if_neg h0]; rfl

theorem channelLoop_ok_iff (listenPort : Int) {fuel : Nat} {c : List Char} {st st' : ChannelState}
    (hf : c.length < fuel) (hx : st.x = 0) :
    channelLoop listenPort fuel c st = .ok st' ↔
      ChannelListOK c ∧ st' = (openedChannels c).foldl (addHandler listenPort) st := by
  have h := channelLoop_spec listenPort hf hx
  refine ⟨fun hok => by rw [hok] at h; exact h, fun ⟨hc, hst⟩ => ?_⟩
  cases hr : channelLoop listenPort fuel c st with
  | ok st'' => rw [hr] at h; rw [hst, ← h.2]
  | error e => rw [hr] at h; exact absurd hc h.1

/-- Every `genericsExit` of the parser names a cause the list holds. -/
theorem parseChannelList_error {listenPort : Int} {s : List Char} {e : String}
    (h : parseChannelList listenPort s = .error e) : ExitCause s e := by
  have hs := channelLoop_spec listenPort (Nat.lt_succ_self s.length)
    (show (⟨0, 0, []⟩ : ChannelState).x = 0 from rfl)
  rw [parseChannelList] at h
  rw [h] at hs
  exact hs.2

/-! ### The handlers opened -/

theorem toNat_add_one (a : UInt8) : (a + 1).toNat = (a.toNat + 1) % 256 := BitVec.toNat_add ..

theorem foldl_addHandler_numHandlers (listenPort : Int) (xs : List Int) (st : ChannelState) :
    (xs.foldl (addHandler listenPort) st).numHandlers.toNat =
      (st.numHandlers.toNat + xs.length) % 256 := by
  induction xs generalizing st with
  | nil => exact (Nat.mod_eq_of_lt st.numHandlers.toNat_lt_size).symm
  | cons x xs ih =>
    rw [List.foldl_cons, ih]
    simp only [addHandler, toNat_add_one, List.length_cons]
    omega

/-- Growing the array by one entry and filling that entry appends it. -/
theorem realloc_set {α : Type} {l : List α} {n : Nat} (hl : l.length = n) (h : α) :
    (realloc l (n + 1) h).set n h = l ++ [h] := by
  subst hl; simp [realloc]

theorem foldl_addHandler_handler (listenPort : Int) (xs : List Int) (hxs : xs.length ≤ 256) :
    (xs.foldl (addHandler listenPort) ⟨0, 0, []⟩).handler = xs.mapIdx (openHandler listenPort) := by
  induction xs using List.reverseRecOn with
  | nil => rfl
  | append_singleton xs x ih =>
    rw [List.length_append, List.length_singleton] at hxs
    have hn : (xs.foldl (addHandler listenPort) ⟨0, 0, []⟩).numHandlers.toNat = xs.length := by
      rw [foldl_addHandler_numHandlers]; simp only [UInt8.toNat_zero, zero_add]; omega
    rw [List.foldl_append, List.foldl_cons, List.foldl_nil, List.mapIdx_concat]
    simp only [addHandler, hn]
    rw [ih (by omega), realloc_set List.length_mapIdx]

/-- **The channel list parser.** `main` accepts the list exactly when it holds only digits and
commas and every maximal run of digits, held in an `int`, lies in `[0, NUM_TPIU_CHANNELS)`.
Then `numHandlers` counts the runs that are non-zero in an `int`, modulo `256`, and for up to
256 of them `handler[i]` is the `i`-th, with its sink on `listenPort + i`. -/
theorem parseChannelList_spec (listenPort : Int) (s : List Char) :
    ((∃ st, parseChannelList listenPort s = .ok st) ↔ ChannelListOK s) ∧
      ∀ st, parseChannelList listenPort s = .ok st →
        st.numHandlers.toNat = (openedChannels s).length % 256 ∧
          ((openedChannels s).length ≤ 256 → st.handler = (openedChannels s).mapIdx (openHandler listenPort)) := by
  have hf := Nat.lt_succ_self s.length
  have hx : (⟨0, 0, []⟩ : ChannelState).x = 0 := rfl
  refine ⟨⟨fun ⟨st, h⟩ => ((channelLoop_ok_iff listenPort hf hx).1 h).1,
    fun h => ⟨_, (channelLoop_ok_iff listenPort hf hx).2 ⟨h, rfl⟩⟩⟩, fun st h => ?_⟩
  obtain ⟨-, rfl⟩ := (channelLoop_ok_iff listenPort hf hx).1 h
  exact ⟨by rw [foldl_addHandler_numHandlers]; simp, foldl_addHandler_handler listenPort _⟩

/-- `4294967297` is no channel, but it is `1` once held in an `int`: `main` accepts it and
opens channel 1. -/
theorem parseChannelList_wraps :
    runValues "4294967297".toList none = [4294967297] ∧ ¬ ChannelInRange 4294967297 ∧
      parseChannelList 3443 "4294967297".toList = .ok ⟨0, 1, [⟨1, [], ⟨3443⟩⟩]⟩ :=
  ⟨rfl, by decide, rfl⟩

end Orbuculum
