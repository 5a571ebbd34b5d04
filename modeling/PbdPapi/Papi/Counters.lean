import PbdPapi.Papi.HighLevel

/-!
# Counters of a session

What `papi_hl.c` does to the counters of a session and to the arrays of the program:
`PAPI_read_counters` and `PAPI_accum_counters` over `PAPI_read`, `PAPI_accum` and `PAPI_reset` of a
running `EventSet`, the stop into an array, and the calls that start an `EventSet`, with the return
code of `PAPI_start`. The array of a call is its content; `none` is a write beyond its end.
-/

set_option autoImplicit false

namespace PbdPapi.Hl

/-! ## The running event set -/

/-- `PAPI_reset` -/
def reset (s : State) : State := { s with base := s.now }

/-- `PAPI_read`: a value for each event -/
def readSet (values : List Int) (s : State) : Option (List Int) :=
  if (counters s).length ≤ values.length then
    some (counters s ++ values.drop (counters s).length)
  else none

/-- `PAPI_accum` -/
def accumSet (values : List Int) (s : State) : Option (List Int × State) :=
  if (counters s).length ≤ values.length then
    some (List.zipWith (· + ·) (counters s) values ++ values.drop (counters s).length, reset s)
  else none

/-! ## Reading a session -/

/-- `HL_READ` and `HL_ACCUM` -/
inductive Flag where
  | read
  | accum
deriving DecidableEq, Repr

/-- `_internal_hl_read_cnts` -/
def hlReadCnts (values : List Int) (flag : Flag) (s : State) : Option ((Int × List Int) × State) :=
  if s.info.running ≠ .start ∨ values.length < s.info.numEvts then
    some ((papiEinval, values), s)
  else
    match flag with
    | .accum => (accumSet values s).map fun (values, s) => ((papiOK, values), s)
    | .read => (readSet values s).map fun values => ((papiOK, values), reset s)

/-- `PAPI_read_counters` -/
def readCounters (values : List Int) (s : State) : Option ((Int × List Int) × State) :=
  hlReadCnts values .read s

/-- `PAPI_accum_counters` -/
def accumCounters (values : List Int) (s : State) : Option ((Int × List Int) × State) :=
  if values.length = 0 then some ((papiEinval, values), s) else hlReadCnts values .accum s

/-- `PAPI_stop_counters`; the stop of a rate session has an array of three values -/
def stopInto (values : List Int) (s : State) : Option ((Int × List Int) × State) :=
  match s.info.running with
  | .stop => some ((papiEnotrun, values), s)
  | .start =>
    if values.length < s.info.numEvts then some ((papiEinval, values), s)
    else (readSet values s).map fun values => ((papiOK, values), cleanup s)
  | _ => (readSet [0, 0, 0] s).map fun _ => ((papiOK, values), cleanup s)

/-! ## Calls that start an event set -/

section
variable (H : Hw) (retval : Int)

/-- `PAPI_start_counters`, where `PAPI_start` returns `retval` -/
def startWith (events : List Int) (s : State) : Int × State :=
  if events.length = 0 then (papiEinval, s)
  else if s.info.running ≠ .stop then (papiEinval, s)
  else
    match addEvents H s.info.eventSet events with
    | .error (_, c) => if c = papiEisrun then (c, s) else (c, cleanup s)
    | .ok set =>
      if retval = papiOK then
        (papiOK, { s with
          info := { s.info with eventSet := set, running := .start, numEvts := events.length }
          base := s.now })
      else (retval, { s with info := { s.info with eventSet := set } })

/-- How many values the array of a rate call has. -/
def rateLength : Rate → Nat
  | .flops | .flips => 1
  | .ipc => 2
  | .epc _ => 3

/-- `_hl_rate_calls`, where `PAPI_start` returns `retval` -/
def rateCallsWith (r : Rate) (out : RateOut) (s : State) : Option ((Int × RateOut) × State) :=
  if s.info.running ≠ .stop ∧ s.info.running ≠ mode r then some ((papiEinval, out), s)
  else if s.info.running = .stop then
    match addEvents H s.info.eventSet (rateEvents H r) with
    | .error (n, c) => some ((if n = 0 then c else n, out), cleanup s)
    | .ok set =>
      if retval = papiOK then some (rateStart H r out s)
      else some ((retval, out), { s with
        info := { s.info with
          eventSet := set
          totalIns := 0
          initialRealTime := s.now.real
          lastRealTime := s.now.real
          initialProcTime := s.now.virt
          lastProcTime := s.now.virt } })
  else if s.info.eventSet.length ≤ rateLength r then
    let ((code, out'), s') := rateRead r out s
    if retval = papiOK then some ((code, out'), s')
    else
      some ((retval, { out' with ins := out.ins }),
        { s' with info := { s'.info with running := .stop } })
  else none

end

/-! ## Runs -/

/-- What a program does: it works, or calls the library. -/
inductive Action where
  | work (d : Clock)
  | start (events : List Int) (retval : Int)
  | read (values : List Int)
  | accum (values : List Int)
  | stop (values : List Int)
  | rate (r : Rate) (out : RateOut) (retval : Int)

section
variable (H : Hw)

def Action.step (s : State) : Action → Option State
  | .work d => some { s with now := s.now.add d }
  | .start events retval => some (startWith H retval events s).2
  | .read values => (readCounters values s).map (·.2)
  | .accum values => (accumCounters values s).map (·.2)
  | .stop values => (stopInto values s).map (·.2)
  | .rate r out retval => (rateCallsWith H retval r out s).map (·.2)

/-- The state after some calls. -/
def runActions (cs : List Action) (s : State) : Option State := cs.foldlM (Action.step H) s

end

end PbdPapi.Hl
