import PbdPapi.Papi.Interface

/-!
# PAPI's high level interface

The session state machine of `papi_hl.c` (`PAPI_start_counters`, `PAPI_stop_counters`,
`_hl_rate_calls` and the rate calls over it), above a machine whose events occur as time passes:
`Clock` counts the occurrences of every event, and the counters of a running `EventSet` hold what
occurred since its last `PAPI_start`. What the layers below decide (which events can be added, the
tables, the number of counters) is the parameter `Hw`; `PAPI_start` and `PAPI_stop` succeed.
-/

set_option autoImplicit false

namespace PbdPapi.Hl

/-- What has occurred: occurrences of each event, real and process time in microseconds. -/
structure Clock where
  count : Int → Nat
  real : Nat
  virt : Nat

/-- The clock after more has occurred. -/
def Clock.add (c d : Clock) : Clock :=
  ⟨fun e => c.count e + d.count e, c.real + d.real, c.virt + d.virt⟩

/-- The `HL_` states. -/
inductive Running where
  | stop
  | start
  | flip
  | flop
  | ipc
  | epc
deriving DecidableEq, Repr

/-- `HighLevelInfo`, with the events of its `EventSet`. `num_evts` is a `short` in C; the number of
hardware counters bounds it. -/
structure Info where
  eventSet : List Int
  numEvts : Nat
  running : Running
  initialRealTime : Int
  initialProcTime : Int
  lastRealTime : Int
  lastProcTime : Int
  totalIns : Int
deriving DecidableEq, Repr

/-- The state of the library. -/
structure State where
  info : Info
  /-- The clock at the last `PAPI_start` of the `EventSet`. -/
  base : Clock
  now : Clock

/-- The layers below. -/
structure Hw where
  numCounters : Int
  /-- The code of a name, the info of a code; a code that a name has, has an info. -/
  codeOf : String → Option Int
  info : Int → Option EventInfo
  info_codeOf : ∀ name code, codeOf name = some code → (info code).isSome
  /-- The return code of `PAPI_add_event` for an `EventSet` that holds the events given. -/
  addEvent : List Int → Int → Int
  /-- Whether `PAPI_query_event` finds `PAPI_REF_CYC`. -/
  hasRefCyc : Bool
  /-- The successor in an enumeration. -/
  enumEvent : Int → EnumMod → Option Int
  hwInfo : Option HwInfo
  opt : Opt → Int

/-! ## Event codes (`papiStdEventDefs.h`) -/

def papiTotIns : Int := papiPresetMask + 50
def papiFpIns : Int := papiPresetMask + 52
def papiTotCyc : Int := papiPresetMask + 59
def papiFpOps : Int := papiPresetMask + 102
def papiRefCyc : Int := papiPresetMask + 107

/-- The `HL_` state of a rate call. -/
def mode : Rate → Running
  | .flops => .flop
  | .flips => .flip
  | .ipc => .ipc
  | .epc _ => .epc

/-- The event whose total a rate call reports. -/
def mainEvent : Rate → Int
  | .flops => papiFpOps
  | .flips => papiFpIns
  | .ipc => papiTotIns
  | .epc event => if event ≠ 0 then event else papiTotIns

section
variable (H : Hw)

/-- The events of a rate call. -/
def rateEvents : Rate → List Int
  | .flops => [papiFpOps]
  | .flips => [papiFpIns]
  | .ipc => [papiTotIns, papiTotCyc]
  | .epc event =>
    if H.hasRefCyc then [mainEvent (.epc event), papiTotCyc, papiRefCyc]
    else [mainEvent (.epc event), papiTotCyc]

/-- `_internal_cleanup_hl_info` and `PAPI_cleanup_eventset` -/
def cleanup (s : State) : State :=
  { s with info := ⟨[], 0, .stop, -1, -1, s.info.lastRealTime, s.info.lastProcTime, 0⟩ }

/-- Add events one by one: the `EventSet`, or the number added before the first failure and its
code. -/
def addEvents : List Int → List Int → Except (Nat × Int) (List Int)
  | set, [] => .ok set
  | set, e :: es =>
    if H.addEvent set e = papiOK then
      match addEvents (set ++ [e]) es with
      | .ok set' => .ok set'
      | .error (n, c) => .error (n + 1, c)
    else .error (0, H.addEvent set e)

/-- What the counters of the running `EventSet` hold. -/
def counters (s : State) : List Int :=
  s.info.eventSet.map fun e => (s.now.count e : Int) - s.base.count e

/-! ## Start and stop -/

/-- `PAPI_start_counters` -/
def startCounters (events : List Int) (s : State) : Int × State :=
  if events.length = 0 then (papiEinval, s)
  else if s.info.running ≠ .stop then (papiEinval, s)
  else
    match addEvents H s.info.eventSet events with
    | .error (_, c) => if c = papiEisrun then (c, s) else (c, cleanup s)
    | .ok set =>
      (papiOK, { s with
        info := { s.info with eventSet := set, running := .start, numEvts := events.length }
        base := s.now })

/-- `PAPI_stop_counters` for an array of length `len`: the code and the values written. -/
def stopCounters (len : Nat) (s : State) : (Int × List Int) × State :=
  match s.info.running with
  | .stop => ((papiEnotrun, []), s)
  | .start =>
    if len < s.info.numEvts then ((papiEinval, []), s)
    else ((papiOK, counters s), cleanup s)
  -- a rate session stops into an array of the library's own
  | _ => ((papiOK, []), cleanup s)

/-! ## Rate calls -/

/-- The start branch of `_hl_rate_calls`. -/
def rateStart (r : Rate) (out : RateOut) (s : State) : (Int × RateOut) × State :=
  match addEvents H s.info.eventSet (rateEvents H r) with
  | .error (n, c) => ((if n = 0 then c else n, out), cleanup s)
  | .ok set =>
    ((papiOK, { out with rtime := 0, ptime := 0, rate := 0, ins := 0 }),
      { info := { s.info with
          eventSet := set
          totalIns := 0
          initialRealTime := s.now.real
          lastRealTime := s.now.real
          initialProcTime := s.now.virt
          lastProcTime := s.now.virt
          running := mode r }
        base := s.now
        now := s.now })

/-- The rate of the read branch: `values[0]` over the process time or over `values[1]`. The library
has it as a `float`, infinite or no number if no process time has passed; here it is exact, and
`x / 0` is 0. -/
def newRate (r : Rate) (out : RateOut) (s : State) : Rat :=
  let values := counters s
  match r with
  | .flops | .flips =>
    if 0 < s.now.virt then (values.getD 0 0 : Rat) / ((s.now.virt : Rat) - s.info.lastProcTime)
    else 0
  | .ipc | .epc _ =>
    if values.getD 1 0 ≠ 0 then (values.getD 0 0 : Rat) / (values.getD 1 0 : Rat) else out.rate

/-- The read branch of `_hl_rate_calls`. The library has the times as `float`s of single precision;
here they are exact. -/
def rateRead (r : Rate) (out : RateOut) (s : State) : (Int × RateOut) × State :=
  let total := s.info.totalIns + (counters s).getD 0 0
  ((papiOK, { out with
      rtime := ((s.now.real : Rat) - s.info.initialRealTime) / 1000000
      ptime := ((s.now.virt : Rat) - s.info.initialProcTime) / 1000000
      rate := newRate r out s
      ins := total }),
    { s with
      info := { s.info with
        totalIns := total
        lastRealTime := s.now.real
        lastProcTime := s.now.virt }
      base := s.now })

/-- `_hl_rate_calls` -/
def hlRateCalls (r : Rate) (out : RateOut) (s : State) : (Int × RateOut) × State :=
  if s.info.running ≠ .stop ∧ s.info.running ≠ mode r then ((papiEinval, out), s)
  else if s.info.running = .stop then rateStart H r out s
  else rateRead r out s

/-- The cycle counts that `PAPI_epc` reads out of its `values`, zero where nothing was read. -/
def epcCycles (s : State) : Int × Int :=
  if s.info.running = .epc then ((counters s).getD 1 0, (counters s).getD 2 0) else (0, 0)

/-- `PAPI_flops`, `PAPI_flips`, `PAPI_ipc`, `PAPI_epc` -/
def rate (r : Rate) (out : RateOut) (s : State) : (Int × RateOut) × State :=
  match r with
  | .epc _ =>
    let ((retval, out), s') := hlRateCalls H r out s
    ((retval, { out with core := (epcCycles s).1, ref := (epcCycles s).2 }), s')
  | r => hlRateCalls H r out s

/-! ## The library -/

/-- The library over `H`, initialised. -/
def papi : Papi State where
  isInitialized s := (1, s)
  libraryInit version s := (version, s)
  numCounters s := (H.numCounters, s)
  eventNameToCode name code s :=
    match H.codeOf name with
    | some c => ((papiOK, c), s)
    | none => ((papiEnoevnt, code), s)
  getEventInfo code ev s :=
    match H.info code with
    | some i => ((papiOK, i), s)
    | none => ((papiEnoevnt, ev), s)
  enumEvent code modifier s :=
    match H.enumEvent code modifier with
    | some c => ((papiOK, c), s)
    | none => ((papiEnoevnt, code), s)
  startCounters := startCounters H
  stopCounters := stopCounters
  rate := rate H
  getHardwareInfo s := (H.hwInfo, s)
  getOpt o s := (H.opt o, s)

end

end PbdPapi.Hl
