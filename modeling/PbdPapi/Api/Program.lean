import PbdPapi.Api.Wrappers
import PbdPapi.Papi.HighLevel

/-!
# Measured expressions

A program is a sequence of calls of the measuring functions over PAPI's high level interface
(`Call`, `runCalls`), each on a promise that may do anything to the library.

`Expr`: an R expression as the counters see it, a tree of the work it does, the measuring calls
nested in it (with what it goes on to do after each outcome, so that it may handle an error), and
how it ends. Its other calls of the library (`papi.start`, `papi.stop`) are not in the tree.
`Expr.prom` is the expression as a promise.
-/

set_option autoImplicit false

namespace PbdPapi.Api

open Exec

variable (H : Hl.Hw)

/-! ## Calls -/

/-- A call of a measuring function. -/
structure Call where
  f : Wrapper
  expr : Option (Prom Hl.State)
  gcFirst : Bool
  burnin : Bool

/-- The call, over PAPI's high level interface. -/
def Call.run (c : Call) : RM Hl.State Ret := measure (Hl.papi H) c.f c.expr c.gcFirst c.burnin

/-- The state after a call, whether it returns or raises an error. -/
def Call.after (c : Call) (w : World Hl.State) : World Hl.State := final ((c.run H).run w)

/-- The state after a sequence of calls. -/
def runCalls : List Call → World Hl.State → World Hl.State
  | [], w => w
  | c :: cs, w => runCalls cs (c.after H w)

/-! ## Expressions -/

/-- A measured expression that measures. -/
inductive Expr where
  /-- Return an object. -/
  | value (o : Obj)
  /-- Return the expression as a language object. -/
  | quote (e : Expr)
  /-- Raise an error. -/
  | raise (c : RError)
  /-- Work for `d`, then go on. -/
  | work (d : Hl.Clock) (e : Expr)
  /-- Measure `arg`, and go on with the outcome. -/
  | measure (f : Wrapper) (gcFirst burnin : Bool) (arg : Expr) (k : Except RError Ret → Expr)

/-- The class of a language object that is not evaluated again. -/
def Obj.lang : Obj := ⟨["call"], "call"⟩

/-- The library's clock goes on by `d`. -/
def tick (d : Hl.Clock) : RM Hl.State Unit :=
  modify fun w => { w with lib := { w.lib with now := w.lib.now.add d } }

@[simp] theorem tick_run (d : Hl.Clock) (w : World Hl.State) :
    (tick d).run w = .ok () { w with lib := { w.lib with now := w.lib.now.add d } } := rfl

/-- The expression as a promise. -/
def Expr.prom : Expr → Prom Hl.State
  | .value o => (pure (.obj o) : RM _ _)
  | .quote e => (pure (.lang do
      match ← Expr.prom e with
      | .obj o => return o
      | .lang _ => return Obj.lang) : RM _ _)
  | .raise c => (throw c : RM _ _)
  | .work d e => (do
      tick d
      Expr.prom e : RM _ _)
  | .measure f gcFirst burnin arg k => (do
      let r ← caught (Api.measure (Hl.papi H) f (some (Expr.prom arg)) gcFirst burnin)
      Expr.prom (k r) : RM _ _)

/-- A call on an expression that measures. -/
structure ExprCall where
  f : Wrapper
  expr : Option Expr
  gcFirst : Bool
  burnin : Bool

/-- The call, on the promise of its expression. -/
def ExprCall.call (c : ExprCall) : Call :=
  ⟨c.f, c.expr.map (Expr.prom H), c.gcFirst, c.burnin⟩

/-! ## A small machine -/

/-- The events of the small machine. -/
def smallEvents : List (String × Int) :=
  [("PAPI_FP_OPS", Hl.papiFpOps), ("PAPI_FP_INS", Hl.papiFpIns), ("PAPI_TOT_INS", Hl.papiTotIns),
    ("PAPI_TOT_CYC", Hl.papiTotCyc)]

/-- A machine with four counters and the events of the rate functions. -/
def smallHw : Hl.Hw where
  numCounters := 4
  codeOf name := (smallEvents.find? (·.1 == name)).map (·.2)
  info code := some ⟨1, "", ((smallEvents.find? (·.2 == code)).map (·.1)).getD ""⟩
  info_codeOf _ _ _ := rfl
  addEvent _ _ := papiOK
  hasRefCyc := false
  enumEvent _ _ := none
  hwInfo := none
  opt _ := 1

/-- A clock that has counted `n` floating point operations. -/
def flopsClock (n : Nat) : Hl.Clock := ⟨fun e => if e = Hl.papiFpOps then n else 0, n, n⟩

/-- The small machine at rest, with all its events available and memory that reads zero. -/
def smallWorld : World Hl.State where
  lib := ⟨⟨[], 0, .stop, -1, -1, 0, 0, 0⟩, flopsClock 0, flopsClock 0⟩
  prot := []
  fresh _ := 0
  heap _ := 0
  locals := ⟨0, ⟨0, "", ""⟩, ⟨0, 0, 0, 0, 0, 0⟩⟩
  avail := smallEvents.map fun e => ⟨e.1, true, e.1⟩
  warnings := []
  trace := []

end PbdPapi.Api
