import PbdPapi.Api.Event

/-!
# The rate interface

The R functions of `flops.r`, `flips.r`, `epc.r` and `utilization.r`. The four `papi.` functions
have one body (`papiRate`) around their own on and off calls, in which the expression is evaluated
bare, with no handler; the four `system.` functions have one body (`systemRate`) around that.
`RateKind` says which of the four it is.
-/

set_option autoImplicit false

namespace PbdPapi.Api

open Exec C

inductive RateKind where
  | flops
  | flips
  | epc
  | utilization
deriving DecidableEq, Repr

/-- The code that `INTEGER(event)[0]` reads. -/
def firstCode : Sexp → Int
  | .int (c :: _) => c
  | _ => 0

/-- The library's rate call behind a kind; `event` is the argument of `papi.epc`. -/
def RateKind.rate (event : Sexp) : RateKind → Rate
  | .flops => .flops
  | .flips => .flips
  | .epc => .epc (firstCode event)
  | .utilization => .ipc

/-- The error of a refused on call. -/
def initText : String :=
  "PAPI failed to initialize hardware counters.\n" ++
    "Your platform may not support floating point operation event.\n"

section
variable {σ : Type} (P : Papi σ)

/-- `.Call` of the on function of a kind. -/
def RateKind.on (event : Sexp) : RateKind → RM σ Sexp
  | .flops => papiFlopsOn P
  | .flips => papiFlipsOn P
  | .epc => papiEpcOn P event
  | .utilization => papiUtilizationOn P

/-- `.Call` of the off function of a kind. -/
def RateKind.off (event : Sexp) : RateKind → RM σ Sexp
  | .flops => papiFlopsOff P
  | .flips => papiFlipsOff P
  | .epc => papiEpcOff P event
  | .utilization => papiUtilizationOff P

/-! ## The `papi.` functions -/

/-- The first half of a `papi.` function: the gate, the on call, the test of its status. -/
def papiRateStart (k : RateKind) (event : Sexp) : RM σ Unit := do
  let _ ← papiCheckNcounters P 3
  let s := (← get).lib
  let ret ← k.on P event
  record (.on (k.rate event) s)
  match ret with
  | .int [ret] => if ← liftR (ifEq ret (-1)) then stop initText
  | _ => return

/-- The second half: the off call and the test of its result. -/
def papiRateFinish (k : RateKind) (event : Sexp) : RM σ Measurement := do
  let ret ← k.off P event
  if ret = .int [-1] then stop "There was a problem recovering the counter information."
  else asList ret

/-- The body of the `papi.` functions. -/
def papiRate (k : RateKind) (event : Sexp) (expr : Prom σ) : RM σ Measurement := do
  papiRateStart P k event
  let s₀ := (← get).lib
  let _ ← reval expr
  let s₁ := (← get).lib
  let ret ← papiRateFinish P k event
  record (.done (k.rate event) s₀ s₁ ret)
  return ret

/-- `papi.flops(expr)` -/
def papiFlops (expr : Prom σ) : RM σ Measurement := papiRate P .flops .null expr

/-- `papi.flips(expr)` -/
def papiFlips (expr : Prom σ) : RM σ Measurement := papiRate P .flips .null expr

/-- `papi.epc(expr, event)` -/
def papiEpc (expr : Prom σ) (event : Sexp) : RM σ Measurement := papiRate P .epc event expr

/-- `papi.utilization(expr)` -/
def papiUtilization (expr : Prom σ) : RM σ Measurement := papiRate P .utilization .null expr

/-! ## The `system.` functions -/

/-- The availability gate of a `system.` function, and the event that `system.epc` translates. -/
def RateKind.gate (event : List String) : RateKind → RM σ Sexp
  | .flops => do
    availLookup ["PAPI_FP_OPS", "PAPI_TOT_CYC"] none
    return .null
  | .flips => do
    availLookup ["PAPI_FP_INS"] none
    return .null
  | .epc => do
    availLookup event none
    papiEventInit P event
  | .utilization => do
    availLookup ["PAPI_TOT_INS", "PAPI_TOT_CYC"] none
    return .null

/-- The positions that the burn-in loop corrects in a list of length `n`. -/
def RateKind.idx (n : Int) : RateKind → List Int
  | .utilization => colon 3 (n - 1)
  | _ => colon 3 n

/-- A `system.` function with `burnin=FALSE`. -/
def rateRun (k : RateKind) (event : List String) (expr : Option (Prom σ)) (gcFirst : Bool) :
    RM σ Measurement := do
  if gcFirst then gc
  let expr := expr.getD nullProm
  let eventNum ← k.gate P event
  papiRate P k eventNum expr

/-- The body of the `system.` functions; the burn-in run omits `expr`. -/
def systemRate (k : RateKind) (event : List String) (expr : Option (Prom σ))
    (gcFirst burnin : Bool) : RM σ Measurement := do
  if burnin then
    let b ← rateRun P k event none gcFirst
    let ret ← rateRun P k event expr gcFirst
    liftR (burnLoop (k.idx ret.length) b ret)
  else rateRun P k event expr gcFirst

/-- `system.flops(expr, gcFirst, burnin)` -/
def systemFlops (expr : Option (Prom σ)) (gcFirst burnin : Bool) : RM σ Measurement :=
  systemRate P .flops [] expr gcFirst burnin

/-- `system.flips(expr, gcFirst, burnin)` -/
def systemFlips (expr : Option (Prom σ)) (gcFirst burnin : Bool) : RM σ Measurement :=
  systemRate P .flips [] expr gcFirst burnin

/-- `system.epc(expr, event, gcFirst, burnin)` -/
def systemEpc (expr : Option (Prom σ)) (event : List String) (gcFirst burnin : Bool) :
    RM σ Measurement :=
  systemRate P .epc event expr gcFirst burnin

/-- `system.utilization(expr, gcFirst, burnin)` -/
def systemUtilization (expr : Option (Prom σ)) (gcFirst burnin : Bool) : RM σ Measurement :=
  systemRate P .utilization [] expr gcFirst burnin

end

end PbdPapi.Api
