import PbdPapi.R.World
import PbdPapi.Lib.Log

/-!
# Watching a call

`logged P` is the library `P` with a log of the calls made of it, and `observed e` the expression
`e` with an entry in that log for each evaluation. The package's functions are written over every
library, so a call over `logged P` is the call over `P`, watched. What the expression itself does
with the library is its own affair and leaves no entry.
-/

set_option autoImplicit false

namespace PbdPapi

open Exec

/-- An entry of the log: a library call, with whether it succeeded, or an evaluation of the
expression. -/
inductive LogEntry where
  | query (ok : Bool)
  | start (ok : Bool)
  | stop (ok : Bool)
  | eval
deriving DecidableEq, Repr

def LogEntry.ok : LogEntry → Bool
  | .query ok => ok
  | .start ok => ok
  | .stop ok => ok
  | .eval => true

/-- The entry is a start, a stop or an evaluation. -/
def LogEntry.isStep : LogEntry → Bool
  | .query _ => false
  | _ => true

section
variable {σ : Type}

/-- A library call that makes an entry of its result. -/
def noted {α : Type} (f : σ → α × σ) (entry : α → LogEntry) (s : σ × List LogEntry) :
    α × (σ × List LogEntry) :=
  ((f s.1).1, ((f s.1).2, s.2 ++ [entry (f s.1).1]))

/-- The library `P` with a log. `PAPI_num_counters` succeeds if there are counters for `n`
events. -/
def logged (P : Papi σ) (n : Nat) : Papi (σ × List LogEntry) where
  isInitialized := noted P.isInitialized fun _ => .query true
  libraryInit version := noted (P.libraryInit version) fun r => .query (r = version)
  numCounters := noted P.numCounters fun r => .query (0 < r ∧ n ≤ r)
  eventNameToCode name code := noted (P.eventNameToCode name code) fun r => .query (r.1 = papiOK)
  getEventInfo code ev := noted (P.getEventInfo code ev) fun r => .query (r.1 = papiOK)
  enumEvent code modifier := noted (P.enumEvent code modifier) fun r => .query (r.1 = papiOK)
  startCounters events := noted (P.startCounters events) fun r => .start (r = papiOK)
  stopCounters len := noted (P.stopCounters len) fun r => .stop (r.1 = papiOK)
  rate r out := noted (P.rate r out) fun r => .query (r.1 = papiOK)
  getHardwareInfo := noted P.getHardwareInfo fun r => .query r.isSome
  getOpt o := noted (P.getOpt o) fun _ => .query true

/-! ## Worlds -/

/-- The world with an empty log. -/
def World.begun (w : World σ) : World (σ × List LogEntry) :=
  { w with lib := (w.lib, []), trace := [] }

/-- The world without the log. -/
def World.bare (w : World (σ × List LogEntry)) : World σ := { w with lib := w.lib.1, trace := [] }

/-- The world `w'` with the log of `w`. -/
def World.resume (w : World (σ × List LogEntry)) (w' : World σ) : World (σ × List LogEntry) :=
  { w' with lib := (w'.lib, w.lib.2), trace := w.trace }

/-- A log with one more entry. -/
def World.note (w : World (σ × List LogEntry)) (e : LogEntry) : World (σ × List LogEntry) :=
  { w with lib := (w.lib.1, w.lib.2 ++ [e]) }

/-! ## Expressions -/

/-- An evaluation that makes an entry. -/
def observe {α : Type} (x : RM σ α) : RM (σ × List LogEntry) α := fun w =>
  match x.run w.bare with
  | .ok a w' => .ok a ((w.note .eval).resume w')
  | .error c w' => .error c ((w.note .eval).resume w')

theorem observe_run {α : Type} (x : RM σ α) (w : World (σ × List LogEntry)) :
    (observe x).run w = match x.run w.bare with
      | .ok a w' => .ok a ((w.note .eval).resume w')
      | .error c w' => .error c ((w.note .eval).resume w') := rfl

/-- A value whose evaluation, if it is a language object, makes an entry. -/
def Val.observed : Val σ → Val (σ × List LogEntry)
  | .obj o => .obj o
  | .lang code => .lang (observe code)

/-- The expression `e`, watched. -/
def observed (e : Prom σ) : Prom (σ × List LogEntry) :=
  (Val.observed <$> observe (σ := σ) e : RM _ _)

end

/-- The log of `logged P`. -/
def callLog (σ : Type) : Logging (World (σ × List LogEntry)) LogEntry where
  log w := w.lib.2
  good e := e.ok
  mark e := e.isStep

end PbdPapi
