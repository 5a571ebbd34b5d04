import PbdPapi.R.World

/-!
# The C entry points

The `.Call` entry points of `src/src/*.c`, each as one function under its C name, over an
arbitrary library `P`. A loop over the events of a vector is a recursion on that vector; the loops
of `papi_event_avail` over the library's enumeration take a bound on their number of iterations.
-/

set_option autoImplicit false

namespace PbdPapi.C

/-- `PBD_ERROR` -/
def pbdError : Int := -1

/-- `PBD_OK` -/
def pbdOK : Int := 0

section
variable {σ : Type} (P : Papi σ)

/-! ## papi_error.c, setret.c -/

/-- The text of a return code. -/
def errorText (retval : Int) : String :=
  if retval = papiEinval then
    "internal error: invalid argument to PAPI; please report this to pbdPAPI developers"
  else if retval = papiEnomem then "insufficient memory"
  else if retval = papiEsys then
    "internal error: a library call failed; please report this to pbdPAPI developers"
  else if retval = papiEsbstr then "substrate returned an error"
  else if retval = papiEclost then "access to counters was lost or interrupted"
  else if retval = papiEbug then "internal papi error: please report to PAPI developers"
  else if retval = papiEnoevnt then
    "hardware event does not exist or library does not support this feature"
  else if retval = papiEcnflct then
    "hardware event exists, but cannot be counted due to counter resource limitations"
  else if retval = papiEnotrun then "no events or event sets are currently not counting"
  else if retval = papiEisrun then "event set currently running"
  else if retval = papiEnoevst then
    "internal error: no such event available; please report this to pbdPAPI developers"
  else if retval = papiEnotpreset then
    "internal error: event is not a valid preset; please report this to pbdPAPI developers"
  else if retval = papiEnocntr then "hardware does not support performance counters"
  else if retval = papiEmisc then "papi internal error: 'unknown error'"
  else "internal error: unknown error; please report to pbdPAPI developers'"

/-- `R_papi_error` -/
def rPapiError (retval : Int) : RM σ Sexp := do
  if retval = papiOK then
    let _ ← allocInt
    protect
    unprotect 1
    return .int [0]
  else
    protect
    unprotect 1
    return .str [errorText retval]

/-- A one-element integer vector with content `PBD_ERROR`. -/
def errorVec : RM σ Sexp := do
  let _ ← allocInt
  protect
  return .int [pbdError]

/-- `R_papi_setret` -/
def rPapiSetret (retval : Int) (realTime procTime : Rat) (x : Int) (xlab : String) (y : Rat)
    (ylab : String) : RM σ Sexp := do
  if retval ≠ papiOK then
    let ret ← errorVec
    unprotect 1
    return ret
  else
    protect
    protect
    protect
    protect
    protect
    protect
    let ret := .list [("real_time", realTime), ("proc_time", procTime), (xlab, x), (ylab, y)]
    unprotect 6
    return ret

/-! ## check.c, init.c -/

/-- `NO_COUNTERS` -/
def noCounters : Int := -2

/-- `NOT_ENOUGH_COUNTERS` -/
def notEnoughCounters : Int := -1

def papiCheckCounters (n : Sexp) : RM σ Sexp := do
  let ncounters ← call P.numCounters
  let _ ← allocInt
  protect
  let ret ←
    if ncounters ≤ 0 then pure noCounters
    else do
      let n ← n.integer0
      pure (if ncounters < n then notEnoughCounters else ncounters)
  unprotect 1
  return .int [ret]

def papiInit : RM σ Sexp := do
  let init ← call P.isInitialized
  let retval ← if init ≠ 0 then pure papiVerCurrent else call (P.libraryInit papiVerCurrent)
  let _ ← allocInt
  protect
  let ret := if retval ≠ papiVerCurrent then -1 else 0
  unprotect 1
  return .int [ret]

/-! ## events.c -/

/-- The loop of `papi_event_counter_init`: the codes of the names, `none` once a lookup fails. -/
def namesToCodes : List String → Int → RM σ (Option (List Int))
  | [], _ => return some []
  | name :: names, id => do
    let (ret, id) ← call (P.eventNameToCode name id)
    if ret ≠ papiOK then return none
    else do
      let codes ← namesToCodes names id
      return codes.map (id :: ·)

def papiEventCounterInit (which : List String) : RM σ Sexp := do
  let _ ← allocInts which.length
  protect
  let codes ← namesToCodes P which (← get).locals.id
  match codes with
  | none =>
    unprotect 1
    rPapiError papiEnoevnt
  | some codes =>
    unprotect 1
    return .int codes

def papiEventCounterOn (which : Sexp) : RM σ Sexp := do
  let events ← which.integer
  let retval ← call (P.startCounters events)
  rPapiError retval

/-- The array after the library wrote `written` at its start. -/
def overwrite (values written : List Int) : List Int := written ++ values.drop written.length

/-- The loop of `papi_event_counter_off` over the codes and values, with the `PROTECT` of
`SETLISTVAR` in each pass: the list built, `none` once `PAPI_get_event_info` fails. -/
def setListVars : List (Int × Int) → EventInfo → RM σ (Option Measurement)
  | [], _ => return some []
  | (code, value) :: rest, ev => do
    let (ret, ev) ← call (P.getEventInfo code ev)
    if ret ≠ papiOK then do
      let _ ← errorVec
      return none
    else do
      protect
      let vars ← setListVars rest ev
      return vars.map ((ev.longDescr, (value : Rat)) :: ·)

/-- The codes that the loop reads. `INTEGER(which)` stands in its body, so that a vector of another
type is refused only when it has elements. -/
def loopCodes (which : Sexp) : RM σ (List Int) :=
  if which.length = 0 then pure [] else which.integer

def papiEventCounterOff (which : Sexp) : RM σ Sexp := do
  let num := which.length
  let values ← malloc num
  let (retval, written) ← call (P.stopCounters num)
  if retval ≠ papiOK then
    let ret ← errorVec
    unprotect 1
    return ret
  else
    protect
    protect
    let codes ← loopCodes which
    let vars ← setListVars P (codes.zip (overwrite values written)) (← get).locals.ev
    match vars with
    | none =>
      unprotect 2
      return .int [pbdError]
    | some vars =>
      unprotect (num + 2)
      return .list vars

/-! ## flops.c, flips.c, epc.c, utilization.c -/

/-- The on call of flops, flips and epc: the status is written on failure only. -/
def rateOn (r : RM σ Rate) : RM σ Sexp := do
  let ret ← allocInt
  protect
  let r ← r
  let (retval, _) ← call (P.rate r (← get).locals.out)
  let ret := if retval ≠ papiOK then pbdError else ret
  unprotect 1
  return .int [ret]

def papiFlopsOn : RM σ Sexp := rateOn P (pure .flops)

def papiFlipsOn : RM σ Sexp := rateOn P (pure .flips)

def papiEpcOn (event : Sexp) : RM σ Sexp := rateOn P (do return .epc (← event.integer0))

def papiUtilizationOn : RM σ Sexp := do
  let _ ← allocInt
  protect
  let (retval, _) ← call (P.rate .ipc (← get).locals.out)
  let ret := if retval ≠ papiOK then pbdError else pbdOK
  unprotect 1
  return .int [ret]

/-- The off call of flops and flips. -/
def setretOff (r : Rate) (xlab ylab : String) : RM σ Sexp := do
  let (retval, out) ← call (P.rate r (← get).locals.out)
  let _ ← call (P.stopCounters 3)
  rPapiSetret retval out.rtime out.ptime out.ins xlab out.rate ylab

def papiFlopsOff : RM σ Sexp := setretOff P .flops "flpops" "mflops"

def papiFlipsOff : RM σ Sexp := setretOff P .flips "flpins" "mflips"

def papiEpcOff (event : Sexp) : RM σ Sexp := do
  let code ← event.integer0
  let (retval, out) ← call (P.rate (.epc code) (← get).locals.out)
  let _ ← call (P.stopCounters 1)
  if retval ≠ papiOK then
    let ret ← errorVec
    unprotect 1
    return ret
  else
    protect
    protect
    protect
    protect
    protect
    protect
    protect
    protect
    -- the elements in the order of `SET_VECTOR_ELT`, the names in that of `SET_STRING_ELT`
    let elts : List Rat := [out.rtime, out.ptime, out.ins, out.rate, out.ref, out.core]
    let names := ["real_time", "proc_time", "ref", "core", "evt", "epc"]
    unprotect 8
    return .list (names.zip elts)

def papiUtilizationOff : RM σ Sexp := do
  let (retval, out) ← call (P.rate .ipc (← get).locals.out)
  let _ ← call (P.stopCounters 1)
  let clockrate ← call (P.getOpt .clockrate)
  let ncpus ← call (P.getOpt .maxCpus)
  if retval ≠ papiOK then
    let ret ← errorVec
    unprotect 1
    return ret
  else
    protect
    protect
    protect
    protect
    protect
    let utilization : Rat := (out.ins : Rat) / ((clockrate : Rat) * 1000000 * out.rtime) / ncpus
    protect
    protect
    let ret := .list [("real_time", out.rtime), ("proc_time", out.ptime), ("ins", out.ins),
      ("ipc", out.rate), ("utilization", utilization)]
    unprotect 7
    return ret

/-! ## hwinfo.c -/

def papiHwname : RM σ Sexp := do
  match ← call P.getHardwareInfo with
  | none => rPapiError papiEsys
  | some p =>
    protect
    protect
    protect
    let ret := .vec2 (.str ["vendor", "model"]) (.str [p.vendorString, p.modelString])
    unprotect 3
    return ret

def papiHwinfo : RM σ Sexp := do
  match ← call P.getHardwareInfo with
  | none => rPapiError papiEsys
  | some p =>
    let _ ← allocInts 10
    protect
    protect
    protect
    let vars := [("cpuid_family", p.cpuidFamily), ("cpuid_model", p.cpuidModel), ("ncpu", p.ncpu),
      ("threads", p.threads), ("cores", p.cores), ("sockets", p.sockets), ("nnodes", p.nnodes),
      ("totalcpus", p.totalcpus), ("vendor", p.vendor), ("model", p.model)]
    unprotect 3
    return .vec2 (.str (vars.map (·.1))) (.int (vars.map (·.2)))

def rPapiCpuinfo : RM σ Sexp := do
  let _ ← allocInt
  protect
  let _ ← allocInt
  protect
  let clockrate ← call (P.getOpt .clockrate)
  let ncpus ← call (P.getOpt .maxCpus)
  protect
  protect
  unprotect 4
  return .ilist [("clockrate", clockrate), ("ncpus", ncpus)]

/-! ## avail.c -/

/-- The first loop of `papi_event_avail`, from index `i`: the rows of the names, or the index at
which a lookup fails. -/
def availRows : Nat → List String → Int → EventInfo → RM σ (Except Nat (List AvailRow))
  | _, [], _, _ => return .ok []
  | i, name :: names, id, ev => do
    let (papiret, id) ← call (P.eventNameToCode name id)
    if papiret ≠ papiOK then return .error i
    else do
      let (_, ev) ← call (P.getEventInfo id ev)
      let rows ← availRows (i + 1) names id ev
      return rows.map (⟨name, decide (0 < ev.count), ev.longDescr⟩ :: ·)

/-- The counting loop: the number of events from `id` on, `none` after `fuel` of them. -/
def countEvents : Nat → Int → RM σ (Option Nat)
  | 0, _ => return none
  | fuel + 1, id => do
    let (ret, id) ← call (P.enumEvent id .events)
    if ret = papiOK then do
      let num ← countEvents fuel id
      return num.map (· + 1)
    else return some 1

/-- The filling loop: the rows of the events from `id` on, into vectors with `room` free elements.
`SET_STRING_ELT` refuses an index behind the end. -/
def fillEvents : Nat → Int → EventInfo → RM σ (List AvailRow)
  | 0, id, ev => do
    let _ ← call (P.getEventInfo id ev)
    stop "attempt to set index in SET_STRING_ELT"
  | room + 1, id, ev => do
    let (_, ev) ← call (P.getEventInfo id ev)
    let row : AvailRow := ⟨ev.symbol, decide (0 < ev.count), ev.longDescr⟩
    let (ret, id) ← call (P.enumEvent id .events)
    if ret = papiOK then do
      let rows ← fillEvents room id ev
      return row :: rows
    else return [row]

/-- Vectors with content `val` in the logical one, after `rows` were written at the start. -/
def writeRows (val : List Int) (rows : List AvailRow) : List AvailRow :=
  rows ++ (val.drop rows.length).map fun v => ⟨"", decide (v ≠ 0), ""⟩

/-- The three vectors of an availability table. -/
def availVec (rows : List AvailRow) : Sexp :=
  .vec3 (.str (rows.map (·.event))) (.lgl (rows.map (·.avail))) (.str (rows.map (·.desc)))

/-- The branch of `papi_event_avail` for all events of the library: `none` when there are more than
`fuel` of them. -/
def allEvents (fuel : Nat) (locals : Locals) : RM σ (Option Sexp) := do
  let (_, id) ← call (P.enumEvent papiPresetMask .first)
  let some num ← countEvents P fuel id | return none
  protect
  protect
  let val ← allocInts num
  protect
  protect
  let (_, id) ← call (P.enumEvent papiPresetMask .first)
  let rows ← fillEvents P num id locals.ev
  unprotect 4
  return some (availVec (writeRows val rows))

def papiEventAvail (fuel : Nat) (which : Sexp) : RM σ (Option Sexp) := do
  let locals := (← get).locals
  match which with
  | .str (name :: names) =>
    protect
    protect
    let _ ← allocInts (names.length + 1)
    protect
    protect
    let rows ← availRows P 0 (name :: names) locals.id locals.ev
    match rows with
    | .error i =>
      unprotect (i + 3)
      return some (← rPapiError papiEnoevnt)
    | .ok rows =>
      unprotect 4
      return some (availVec rows)
  | _ => allEvents P fuel locals

end

end PbdPapi.C
