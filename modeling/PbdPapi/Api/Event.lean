import PbdPapi.C.Entry

/-!
# The event interface

The R functions of `counter_avail.r`, `init.r` and `papi_event.r`: the availability table and its
gate, `papi.start`, `papi.stop` and `system.event`. `papi.start` and `papi.stop` each translate and
de-duplicate their own copy of the events vector.
-/

set_option autoImplicit false

namespace PbdPapi.Api

open Exec C

/-! ## counter_avail.r -/

/-- `counter.avail(events)` for the table `avail`. -/
def counterAvail (avail : List AvailRow) (events : List String) : Except RError (List Bool) :=
  let all := avail.map (·.event)
  if ¬ ∀ e ∈ events, e ∈ all then
    let fail := events.filter fun e => e ∉ all
    .error (simpleError
      ("Event(s) " ++ pasteCollapse fail ", " ++ " is/are not recognized PAPI events"))
  else
    let l := events.map fun e => which (all.map (· == e))
    -- `sapply` gives a vector or a matrix when all positions are equally many, else a list
    match l with
    | [] => .error (simpleError "invalid subscript type 'list'")
    | k :: ks =>
      if ∀ k' ∈ ks, k'.length = k.length then
        .ok (l.flatten.map fun i => (avail.map (·.avail)).getD i false)
      else .error (simpleError "invalid subscript type 'list'")

/-- The message for unavailable events; `shorthand` is `none` when it is a logical. -/
def unsupportedText (event tobe fail : String) : Option String → String
  | some shorthand => "Your platform does not support the hardware" ++ event ++ "\x7b" ++ fail ++
      "\x7d which" ++ tobe ++ "needed for events=\"" ++ shorthand ++
      "\".\n\nSee ?papi.avail for more information."
  | none => "Your platform does not support the hardware" ++ event ++ "\x7b" ++ fail ++
      "\x7d.\n\nSee ?papi.avail for more information."

/-- `papi.avail.lookup(events, shorthand)` for the table `avail`. -/
def papiAvailLookup (avail : List AvailRow) (events : List String) (shorthand : Option String) :
    Except RError Unit :=
  match counterAvail avail events with
  | .error _ => .error (simpleError
      "Unknown hardware events; please report this bug to the pbdPAPI developers.")
  | .ok checkAvail =>
    if checkAvail.all id then .ok ()
    else
      -- the negatives of these positions index `events`
      let notavail := which checkAvail
      let single := (events.length : Int) - notavail.length = 1
      let event := if single then " event " else " events "
      let tobe := if single then " is " else " are "
      let fail := if notavail.length = 0 then events else dropAt events notavail
      .error (simpleError (unsupportedText event tobe (pasteCollapse fail ", ") shorthand))

section
variable {σ : Type} (P : Papi σ)

/-- `papi.avail.lookup(events, shorthand)` -/
def availLookup (events : List String) (shorthand : Option String) : RM σ Unit := do
  liftR (papiAvailLookup (← get).avail events shorthand)

/-! ## init.r -/

/-- `papi.init()` -/
def papiInitR : RM σ Unit := do
  let ret ← papiInit P
  if ret ≠ .int [0] then
    stop "Could not initialize PAPI; compile time and run time versions disagree"

/-- `papi.check.ncounters(n)` -/
def papiCheckNcounters (n : Nat) : RM σ Sexp := do
  let ret ← papiCheckCounters P (.int [n])
  if ret = .int [-2] then stop "No hardware counters available"
  else if ret = .int [-1] then stop "Insufficient hardware counters for operation"
  else return ret

/-- `papi.avail.internal()`: `false` when the enumeration has more than `fuel` events. -/
def papiAvailInternal (fuel : Nat) : RM σ Bool := do
  papiInitR P
  match ← papiEventAvail P fuel .null with
  | some (.vec3 (.str event) (.lgl avail) (.str desc)) =>
    let rows := (event.zip (avail.zip desc)).map fun r => AvailRow.mk r.1 r.2.1 r.2.2
    modify fun w => { w with avail := rows }
    return true
  | _ => return false

/-! ## papi_event.r -/

/-- `unique(x)` -/
def unique : Sexp → Sexp
  | .int v => .int v.eraseDups
  | .str v => .str v.eraseDups
  | x => x

/-- `papi.event.init(which)` -/
def papiEventInit (which : List String) : RM σ Sexp := do
  let ret ← papiEventCounterInit P which
  let retUniq := unique ret
  if retUniq.length ≠ ret.length then
    warning "Duplicate counters detected; using reduced set."
    return retUniq
  else return ret

/-- `papi.event.init.light(which)` -/
def papiEventInitLight (which : List String) : RM σ Sexp := do
  let ret ← papiEventCounterInit P which
  let retUniq := unique ret
  if retUniq.length ≠ ret.length then return retUniq
  else return ret

/-- `papi.start(events)` -/
def papiStart (events : List String) : RM σ Sexp := do
  let _ ← papiCheckNcounters P events.length
  let events ← papiEventInit P events
  let ret ← papiEventCounterOn P events
  match ret with
  | .int v => return .int v
  | .str v => stop (pasteCollapse v "")
  | _ => stop ""

/-- `papi.stop(events)` -/
def papiStop (events : List String) : RM σ Sexp := do
  let which ← papiEventInitLight P events
  let ret ← papiEventCounterOff P which
  if ret = .int [-1] then stop "There was a problem recovering the counter information."
  else return ret

/-- A value used as a list of measurements. -/
def asList : Sexp → RM σ Measurement
  | .list v => pure v
  | _ => stop "subscript out of bounds"

/-- One pass of the burn-in loops: `ret[[i]] <- max(ret[[i]] - b[[i]], 0)`. -/
def burnStep (b ret : Measurement) (i : Int) : Except RError Measurement := do
  let r ← elt ret i
  let y ← elt b i
  return setElt ret i (r.1, max (r.2 - y.2) 0)

/-- `for (i in idx) ret[[i]] <- max(ret[[i]] - b[[i]], 0)` -/
def burnLoop (idx : List Int) (b ret : Measurement) : Except RError Measurement :=
  idx.foldlM (burnStep b) ret

/-- `system.event` after its warm-up; `b` is the burn-in's call, if any. -/
def systemEventFrom (b : RM σ (Option Measurement)) (expr : Option (Prom σ)) (events : List String)
    (gcFirst : Bool) : RM σ Measurement := do
  let _ ← papiStart P events
  let _ ← papiStop P events
  let b ← b
  if gcFirst then gc
  let expr := expr.getD nullProm
  availLookup events none
  let _ ← papiStart P events
  let err ← tryIdentity (reval expr)
  let ret ← papiStop P events
  if err.inherits "simpleError" then throw (stopCond err)
  let ret ← asList ret
  match b with
  | some b => liftR (burnLoop (colon 1 ret.length) b ret)
  | none => return ret

/-- `system.event(expr, events, gcFirst, burnin)`; the burn-in run omits `expr`. -/
def systemEvent (expr : Option (Prom σ)) (events : List String) (gcFirst burnin : Bool) :
    RM σ Measurement :=
  systemEventFrom P
    (if burnin then some <$> systemEventFrom P (pure none) none events gcFirst else pure none)
    expr events gcFirst

end

end PbdPapi.Api
