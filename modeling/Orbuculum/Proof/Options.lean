import Orbuculum.Spec.Options
import Orbuculum.Spec.Channels

/-!
# What a command line sets

`processOptions_eq_some_iff`: `_processOptions` accepts exactly the command lines made of the
options its `switch` takes, with at most one source among a file, a serial port and a Segger.
What it leaves in `_options` is what the last occurrence of each option sets, except the
Segger port, which a later `-s` without a port keeps (`argvOptions`). `mainEnter_source`: when
`main` gets past its exits (the command line, then the channel list of `-t`), it enters the
feeder of the source given, and `usbFeeder` when none is.
-/

namespace Orbuculum

variable (atoi : List Char → Int)

/-- The options the `switch` of `_processOptions` takes. -/
def optionChars : List Char := ['a', 'e', 'f', 'l', 'm', 'p', 's', 't', 'v']

/-- The argument of the last `-c` of a command line, if it has one. -/
def lastArg (argv : List (Char × List Char)) (c : Char) : Option (List Char) :=
  ((argv.filter (·.1 = c)).getLast?).map (·.2)

/-- The port a `-s` argument gives after its first `:`, if it has one. -/
def seggerPortText (optarg : List Char) : Option (List Char) :=
  match optarg.dropWhile (· != ':') with
  | _ :: a => some a
  | [] => none

/-- A port `atoi` reads, or `SEGGER_PORT` for zero. -/
def seggerPortOr (p : Int) : Int := if p = 0 then seggerPortDefault else p

/-- The ports the `-s` options of a command line give, in order. -/
def seggerPorts (argv : List (Char × List Char)) : List (List Char) :=
  argv.filterMap fun e => if e.1 = 's' then seggerPortText e.2 else none

/-- `seggerPort` after a command line: with a `-s` that gives a port, the last such port, or
`SEGGER_PORT` for zero; otherwise `SEGGER_PORT` with `-s` and zero without. -/
def seggerPortOf (argv : List (Char × List Char)) : Int :=
  (seggerPorts argv).getLast?.elim (if (lastArg argv 's').isSome then seggerPortDefault else 0)
    (seggerPortOr ∘ atoi)

/-- `_options` as the last occurrence of each option sets it. -/
def argvOptions (nwclientServerPort : Int) (argv : List (Char × List Char)) : Options where
  seggerHost := (lastArg argv 's').elim seggerHostDefault (·.takeWhile (· != ':'))
  seggerPort := seggerPortOf atoi argv
  port := lastArg argv 'p'
  speed := (lastArg argv 'a').elim 0 atoi
  useTPIU := (lastArg argv 't').isSome
  dataSpeed := (lastArg argv 'a').elim 0 (uint32OfInt ∘ atoi)
  file := lastArg argv 'f'
  fileTerminate := (lastArg argv 'e').isSome
  intervalReportTime := (lastArg argv 'm').elim 0 (uint32OfInt ∘ atoi)
  channelList := lastArg argv 't'
  listenPort := (lastArg argv 'l').elim nwclientServerPort atoi

/-- A command line `_processOptions` accepts: only options its `switch` takes, and at most one
source among `-f`, `-p` and `-s`. -/
def ArgvOK (argv : List (Char × List Char)) : Prop :=
  (∀ e ∈ argv, e.1 ∈ optionChars) ∧
    ¬((lastArg argv 'f').isSome ∧ ((lastArg argv 'p').isSome ∨ (lastArg argv 's').isSome)) ∧
    ¬((lastArg argv 'p').isSome ∧ (lastArg argv 's').isSome)

instance (argv : List (Char × List Char)) : Decidable (ArgvOK argv) :=
  inferInstanceAs (Decidable (_ ∧ _))

/-! ## The last occurrence of an option -/

theorem lastArg_append_singleton (argv : List (Char × List Char)) (e : Char × List Char)
    (c : Char) : lastArg (argv ++ [e]) c = if e.1 = c then some e.2 else lastArg argv c := by
  by_cases h : e.1 = c <;> simp [lastArg, h]

theorem seggerPortOr_ne_zero (p : Int) : seggerPortOr p ≠ 0 := by
  unfold seggerPortOr seggerPortDefault
  split_ifs <;> omega

theorem seggerPortOr_idem (p : Int) : seggerPortOr (seggerPortOr p) = seggerPortOr p :=
  if_neg (seggerPortOr_ne_zero p)

theorem seggerPorts_append_singleton (argv : List (Char × List Char)) (e : Char × List Char) :
    (seggerPorts (argv ++ [e])).getLast? =
      (if e.1 = 's' then seggerPortText e.2 else none).or (seggerPorts argv).getLast? := by
  unfold seggerPorts
  rw [List.filterMap_append, List.getLast?_append]
  simp only [List.filterMap_cons, List.filterMap_nil]
  cases (if e.1 = 's' then seggerPortText e.2 else none) <;> rfl

/-- A `-s` with a port sets it; one without keeps a port given before, or sets
`SEGGER_PORT`; other options leave it. -/
theorem seggerPortOf_append_singleton (argv : List (Char × List Char)) (e : Char × List Char) :
    seggerPortOf atoi (argv ++ [e]) =
      if e.1 = 's' then (seggerPortText e.2).elim (seggerPortOr (seggerPortOf atoi argv))
        (seggerPortOr ∘ atoi)
      else seggerPortOf atoi argv := by
  unfold seggerPortOf
  rw [seggerPorts_append_singleton, lastArg_append_singleton]
  by_cases hs : e.1 = 's'
  · simp only [hs, ↓reduceIte, Option.isSome_some]
    cases seggerPortText e.2 with
    | some a => rfl
    | none =>
      cases (seggerPorts argv).getLast? with
      | some a => exact (seggerPortOr_idem _).symm
      | none => split_ifs <;> rfl
  · simp [hs]

theorem seggerPortOf_eq_zero_iff (argv : List (Char × List Char)) :
    seggerPortOf atoi argv = 0 ↔ lastArg argv 's' = none := by
  induction argv using List.reverseRecOn with
  | nil => simp [seggerPortOf, seggerPorts, lastArg]
  | append_singleton argv e ih =>
    rw [seggerPortOf_append_singleton, lastArg_append_singleton]
    by_cases hs : e.1 = 's'
    · simp only [hs, ↓reduceIte, reduceCtorEq, iff_false]
      cases seggerPortText e.2 <;> exact seggerPortOr_ne_zero _
    · simpa [hs] using ih

/-! ## One option -/

/-- `case 's'` in closed form: the host ends at the first `:`, and the port is the one after
it, or the one before when there is none, with zero read as `SEGGER_PORT`. -/
theorem seggerOption_eq (o : Options) (optarg : List Char) :
    seggerOption atoi o optarg = { o with
      seggerHost := optarg.takeWhile (· != ':')
      seggerPort := (seggerPortText optarg).elim (seggerPortOr o.seggerPort) (seggerPortOr ∘ atoi) } := by
  unfold seggerOption seggerPortText seggerPortOr
  cases h : optarg.dropWhile (· != ':') with
  | nil =>
    have host : optarg.takeWhile (· != ':') = optarg := by
      simpa [h] using List.takeWhile_append_dropWhile (· != ':') optarg
    simp only [host]
    split_ifs <;> rfl
  | cons d a => simp only [Option.elim, Function.comp]; split_ifs <;> rfl

theorem mem_optionChars {c : Char} :
    c ∈ optionChars ↔ c = 'a' ∨ c = 'e' ∨ c = 'f' ∨ c = 'l' ∨ c = 'm' ∨ c = 'p' ∨ c = 's' ∨
      c = 't' ∨ c = 'v' := by
  simp [optionChars]

theorem processOption_isSome_iff (o : Options) (e : Char × List Char) :
    (processOption atoi o e).isSome ↔ e.1 ∈ optionChars := by
  obtain ⟨c, a⟩ := e
  by_cases h : c ∈ optionChars
  · rcases mem_optionChars.1 h with rfl | rfl | rfl | rfl | rfl | rfl | rfl | rfl | rfl <;>
      simp [processOption, optionChars]
  · obtain ⟨h1, h2, h3, h4, h5, h6, h7, h8, h9⟩ := by simpa only [mem_optionChars, not_or] using h
    simp [processOption, h, h1, h2, h3, h4, h5, h6, h7, h8, h9]

/-- An option the `switch` takes moves `_options` from what the command line before it sets
to what the command line up to it sets. -/
theorem processOption_argvOptions (np : Int) (argv : List (Char × List Char))
    (e : Char × List Char) (he : e.1 ∈ optionChars) :
    processOption atoi (argvOptions atoi np argv) e = some (argvOptions atoi np (argv ++ [e])) := by
  obtain ⟨c, a⟩ := e
  rcases mem_optionChars.1 he with rfl | rfl | rfl | rfl | rfl | rfl | rfl | rfl | rfl <;>
    simp [processOption, argvOptions, lastArg_append_singleton, seggerPortOf_append_singleton,
      seggerOption_eq]

theorem lastArg_isSome_iff (argv : List (Char × List Char)) (c : Char) :
    (lastArg argv c).isSome ↔ ∃ e ∈ argv, e.1 = c := by
  simp [lastArg, List.getLast?_isSome, List.filter_eq_nil_iff]

/-! ## The loop -/

theorem optionLoop_append_singleton (o : Options) (argv : List (Char × List Char))
    (e : Char × List Char) :
    optionLoop atoi o (argv ++ [e]) = (optionLoop atoi o argv).bind (processOption atoi · e) := by
  induction argv generalizing o with
  | nil => cases h : processOption atoi o e <;> simp [optionLoop, h]
  | cons x xs ih =>
    simp only [List.cons_append, optionLoop]
    cases processOption atoi o x with
    | none => rfl
    | some o' => exact ih o'

/-- Over options the `switch` takes, the loop leaves what their last occurrences set. -/
theorem optionLoop_argvOptions (np : Int) (argv : List (Char × List Char))
    (h : ∀ e ∈ argv, e.1 ∈ optionChars) :
    optionLoop atoi (Options.init np) argv = some (argvOptions atoi np argv) := by
  induction argv using List.reverseRecOn with
  | nil => rfl
  | append_singleton argv e ih =>
    rw [optionLoop_append_singleton, ih fun x hx => h x (List.mem_append_left _ hx),
      Option.some_bind, processOption_argvOptions atoi np argv e (h e (by simp))]

/-- An option the `switch` does not take ends the loop with `false`. -/
theorem optionLoop_eq_none (o : Options) (argv : List (Char × List Char))
    (h : ∃ e ∈ argv, e.1 ∉ optionChars) : optionLoop atoi o argv = none := by
  induction argv generalizing o with
  | nil => simp at h
  | cons x xs ih =>
    unfold optionLoop
    cases hx : processOption atoi o x with
    | none => rfl
    | some o' =>
      have taken : x.1 ∈ optionChars := (processOption_isSome_iff atoi o x).1 (by simp [hx])
      obtain ⟨e, he, hn⟩ := h
      rcases List.mem_cons.1 he with rfl | he
      · exact absurd taken hn
      · exact ih o' ⟨e, he, hn⟩

/-! ## `_processOptions` and `main` -/

theorem argvOptions_seggerPort_ne_zero (np : Int) (argv : List (Char × List Char)) :
    (argvOptions atoi np argv).seggerPort ≠ 0 ↔ (lastArg argv 's').isSome := by
  simp [argvOptions, seggerPortOf_eq_zero_iff, Option.isSome_iff_ne_none]

theorem processOptions_of_ok (np : Int) (argv : List (Char × List Char))
    (hc : ∀ e ∈ argv, e.1 ∈ optionChars) :
    processOptions atoi np argv =
      if ¬((lastArg argv 'f').isSome ∧ ((lastArg argv 'p').isSome ∨ (lastArg argv 's').isSome)) ∧
        ¬((lastArg argv 'p').isSome ∧ (lastArg argv 's').isSome)
      then some (argvOptions atoi np argv) else none := by
  have hf : (argvOptions atoi np argv).file = lastArg argv 'f' := rfl
  have hp : (argvOptions atoi np argv).port = lastArg argv 'p' := rfl
  simp only [processOptions, optionLoop_argvOptions atoi np argv hc, hf, hp,
    argvOptions_seggerPort_ne_zero]
  conv_rhs => rw [ite_and, ite_not, ite_not]

theorem processOptions_some {np : Int} {argv : List (Char × List Char)} {o : Options}
    (h : processOptions atoi np argv = some o) : ArgvOK argv ∧ o = argvOptions atoi np argv := by
  by_cases hc : ∀ e ∈ argv, e.1 ∈ optionChars
  · rw [processOptions_of_ok atoi np argv hc] at h
    split_ifs at h with hok
    cases h
    exact ⟨⟨hc, hok⟩, rfl⟩
  · push_neg at hc
    simp [processOptions, optionLoop_eq_none atoi _ argv hc] at h

/-- **Which command lines `_processOptions` accepts, and what it sets.** It accepts a command
line exactly when every option is one its `switch` takes and at most one of `-f`, `-p` and
`-s` is given; `_options` then holds what the last occurrence of each option sets, with the
Segger port of the last `-s` that gives one. -/
theorem processOptions_eq_some_iff (np : Int) (argv : List (Char × List Char)) (o : Options) :
    processOptions atoi np argv = some o ↔ ArgvOK argv ∧ o = argvOptions atoi np argv := by
  refine ⟨processOptions_some atoi, ?_⟩
  rintro ⟨⟨hc, hok⟩, rfl⟩
  rw [processOptions_of_ok atoi np argv hc, if_pos hok]

/-- The feeder of a source option: `-s` a Segger, `-p` a serial port, `-f` a file. -/
def sourceFeeder (c : Char) : Option Feeder :=
  if c = 's' then some .segger
  else if c = 'p' then some .serial
  else if c = 'f' then some .file
  else none

theorem mainFeeder_argvOptions (np : Int) (argv : List (Char × List Char)) :
    mainFeeder (argvOptions atoi np argv) =
      if (lastArg argv 's').isSome then .segger
      else if (lastArg argv 'p').isSome then .serial
      else if (lastArg argv 'f').isSome then .file
      else .usb := by
  simp only [mainFeeder, argvOptions_seggerPort_ne_zero]
  rfl

/-- On a command line `_processOptions` accepts, each source option names the feeder
`mainFeeder` picks, so all of them name the same one; with none, it picks `usbFeeder`. -/
theorem mainFeeder_of_sources {np : Int} {argv : List (Char × List Char)} {o : Options}
    (h : processOptions atoi np argv = some o) :
    (∀ e ∈ argv, ∀ fd, sourceFeeder e.1 = some fd → mainFeeder o = fd) ∧
      ((∀ e ∈ argv, sourceFeeder e.1 = none) → mainFeeder o = .usb) := by
  obtain ⟨⟨-, hfp, hps⟩, rfl⟩ := processOptions_some atoi h
  rw [mainFeeder_argvOptions]
  constructor
  · intro e he fd hfd
    have given : ∀ c, e.1 = c → (lastArg argv c).isSome :=
      fun c hc => (lastArg_isSome_iff argv c).2 ⟨e, he, hc⟩
    unfold sourceFeeder at hfd
    split_ifs at hfd with hs hp hf <;> cases hfd
    · simp [given 's' hs]
    · simp_all [given 'p' hp]
    · simp_all [given 'f' hf]
  · intro hnone
    have absent : ∀ c, sourceFeeder c ≠ none → (lastArg argv c).isSome = false :=
      fun c hc => Bool.eq_false_iff.2 fun hg => by
        obtain ⟨e, he, rfl⟩ := (lastArg_isSome_iff argv c).1 hg
        exact hc (hnone e he)
    simp [absent 's' (by simp [sourceFeeder]), absent 'p' (by simp [sourceFeeder]),
      absent 'f' (by simp [sourceFeeder])]

theorem mainEnter_eq_ok {σ : Type} {t : σ} {n : NwclientsHandle} {np : Int}
    {argv : List (Char × List Char)} {r : RunTime σ} {fd : Feeder} :
    mainEnter atoi t n np argv = .ok (r, fd) ↔
      ∃ o, processOptions atoi np argv = some o ∧ mainStart t n o = .ok r ∧ fd = mainFeeder o := by
  unfold mainEnter
  cases processOptions atoi np argv with
  | none => simp
  | some o =>
    cases hs : mainStart t n o with
    | error e => simp [Except.map, hs]
    | ok r' => simp [Except.map, hs, eq_comm]

/-- **`main` enters the feeder of the source given.** On every command line on which `main`
gets past its exits and enters a feeder, each source option names that feeder, so all of them
name the same one; with none, it is `usbFeeder`. -/
theorem mainEnter_source {σ : Type} {t : σ} {n : NwclientsHandle} {np : Int}
    {argv : List (Char × List Char)} {r : RunTime σ} {fd : Feeder}
    (h : mainEnter atoi t n np argv = .ok (r, fd)) :
    (∀ e ∈ argv, ∀ fd', sourceFeeder e.1 = some fd' → fd = fd') ∧
      ((∀ e ∈ argv, sourceFeeder e.1 = none) → fd = .usb) := by
  obtain ⟨o, ho, -, rfl⟩ := (mainEnter_eq_ok atoi).1 h
  exact mainFeeder_of_sources atoi ho

/-- `atoi` on a run of decimal digits, in a 32-bit `int`. -/
def decimalAtoi (s : List Char) : Int := (readDigits 0 s).1

/-- `-t 1 -s remote:2331`: handlers for channel 1, and a Segger on `remote`, port 2331. -/
def seggerArgv : List (Char × List Char) := [('t', "1".toList), ('s', "remote:2331".toList)]

theorem mainEnter_source_segger :
    mainEnter decimalAtoi () ⟨3443⟩ 3443 seggerArgv =
        .ok (⟨(), 0, true, [⟨1, [], ⟨3443⟩⟩], ⟨3443⟩, []⟩, .segger) ∧
      ((∀ e ∈ seggerArgv, ∀ fd', sourceFeeder e.1 = some fd' → Feeder.segger = fd') ∧
        ((∀ e ∈ seggerArgv, sourceFeeder e.1 = none) → Feeder.segger = .usb)) :=
  have h : mainEnter decimalAtoi () ⟨3443⟩ 3443 seggerArgv =
      .ok (⟨(), 0, true, [⟨1, [], ⟨3443⟩⟩], ⟨3443⟩, []⟩, .segger) := rfl
  ⟨h, mainEnter_source decimalAtoi h⟩

/-- `-t 200 -f x` passes `_processOptions`, but `main` exits on the channel list before it
reaches `fileFeeder`. -/
example : mainEnter decimalAtoi () ⟨3443⟩ 3443 [('t', "200".toList), ('f', "x".toList)] =
    .error channelOutOfRange := rfl

end Orbuculum
