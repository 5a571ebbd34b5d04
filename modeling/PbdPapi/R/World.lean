import PbdPapi.Lib.Stack
import PbdPapi.Papi.Interface

/-!
# The state the package runs in

`World σ`: the library's state, R's protection stack (as a log of its operations), the memory that
R and `malloc` hand out uninitialised, the availability table of the package's environment, the
warnings given. `RM σ` is the monad of the package's functions, C and R alike: a failure is an R
error, and what was done before it stays done.

`World.trace` is a history of the rate measurements, which no function of the package reads.
-/

set_option autoImplicit false

namespace PbdPapi

open Exec

/-- A measurement: a named list of doubles, which are rationals here: a count below `2 ^ 53` is a
double, and times and rates are those before rounding. -/
abbrev Measurement := List (String × Rat)

/-- An R vector as the C code builds or receives one. -/
inductive Sexp where
  | null
  | lgl (v : List Bool)
  | int (v : List Int)
  | str (v : List String)
  /-- A `VECSXP` of `REALSXP`s of length one, with names. -/
  | list (v : Measurement)
  /-- A `VECSXP` of `INTSXP`s of length one, with names. -/
  | ilist (v : List (String × Int))
  /-- A `VECSXP` of two vectors, without names. -/
  | vec2 (a b : Sexp)
  /-- A `VECSXP` of three vectors, without names. -/
  | vec3 (a b c : Sexp)
deriving DecidableEq, Repr

/-- `LENGTH(x)` -/
def Sexp.length : Sexp → Nat
  | .null => 0
  | .lgl v => v.length
  | .int v => v.length
  | .str v => v.length
  | .list v => v.length
  | .ilist v => v.length
  | .vec2 _ _ => 2
  | .vec3 _ _ _ => 3

/-- A row of the availability table: the event's name, its flag, its description. -/
structure AvailRow where
  event : String
  avail : Bool
  desc : String
deriving DecidableEq, Repr

/-- A step of a rate measurement. -/
inductive Ev (σ : Type) where
  /-- The on call of `r`, made in library state `s`. -/
  | on (r : Rate) (s : σ)
  /-- A measurement of `r` returned `v`; its on call ended in `s₀`, its off call began in `s₁`. -/
  | done (r : Rate) (s₀ s₁ : σ) (v : Measurement)

/-- The content of the C locals that a function passes on uninitialised. -/
structure Locals where
  id : Int
  ev : EventInfo
  out : RateOut

structure World (σ : Type) where
  lib : σ
  /-- The operations on R's protection stack so far. -/
  prot : List Stack.Op
  /-- The content of the `INTSXP` elements that R allocates next. -/
  fresh : Nat → Int
  /-- The content of the `long_long`s that `malloc` hands out next. -/
  heap : Nat → Int
  locals : Locals
  avail : List AvailRow
  warnings : List String
  trace : List (Ev σ)

/-- The monad of the package's functions. -/
abbrev RM (σ : Type) := EStateM RError (World σ)

variable {σ : Type}

/-! ## R's C interface -/

/-- `PROTECT` -/
def protect : RM σ Unit := modify fun w => { w with prot := w.prot ++ [.push] }

/-- `UNPROTECT(n)` -/
def unprotect (n : Nat) : RM σ Unit := modify fun w => { w with prot := w.prot ++ [.pop n] }

/-- The element of `allocVector(INTSXP, 1)`. -/
def allocInt : RM σ Int :=
  modifyGet fun w => (w.fresh 0, { w with fresh := fun k => w.fresh (k + 1) })

/-- The elements of `allocVector(INTSXP, n)`. -/
def allocInts (n : Nat) : RM σ (List Int) :=
  modifyGet fun w => ((List.range n).map w.fresh, { w with fresh := fun k => w.fresh (k + n) })

/-- `malloc` of `n` `long_long`s. -/
def malloc (n : Nat) : RM σ (List Int) :=
  modifyGet fun w => ((List.range n).map w.heap, { w with heap := fun k => w.heap (k + n) })

/-- A library call. -/
def call {α : Type} (f : σ → α × σ) : RM σ α :=
  modifyGet fun w => ((f w.lib).1, { w with lib := (f w.lib).2 })

/-- `stop(msg)`, and the errors of R's own C functions. -/
def stop {α : Type} (msg : String) : RM σ α := throw (simpleError msg)

def warning (msg : String) : RM σ Unit := modify fun w => { w with warnings := w.warnings ++ [msg] }

/-- Extend the history. -/
def record (e : Ev σ) : RM σ Unit := modify fun w => { w with trace := w.trace ++ [e] }

/-- An R-level computation that does not touch the state. -/
def liftR {α : Type} : Except RError α → RM σ α
  | .ok a => pure a
  | .error c => throw c

/-- `INTEGER(x)`: an R error unless `x` is an integer or logical vector. -/
def Sexp.integer : Sexp → RM σ (List Int)
  | .int v => pure v
  | .lgl v => pure (v.map fun b => if b then 1 else 0)
  | _ => stop "INTEGER() can only be applied to an 'integer' vector"

/-- `INTEGER(x)[0]`: for an empty vector, whatever lies behind it. -/
def Sexp.integer0 (x : Sexp) : RM σ Int := do
  match ← x.integer with
  | v :: _ => pure v
  | [] => allocInt

/-! ## Promises -/

/-- The value of an R expression: an object, or a language object with the code it stands for. -/
inductive Val (σ : Type) where
  | obj (o : Obj)
  | lang (code : RM σ Obj)

/-- An unevaluated argument. -/
abbrev Prom (σ : Type) := RM σ (Val σ)

/-- `NULL` as an argument. -/
def nullProm : Prom σ := (pure (.obj .null) : RM σ (Val σ))

/-- `eval(expr)` of a promise: its value, and a language object is evaluated once more. -/
def reval (expr : Prom σ) : RM σ Obj := do
  match ← expr with
  | .obj o => pure o
  | .lang code => code

/-- `tryCatch(x, error=identity)` -/
def tryIdentity (x : RM σ Obj) : RM σ Obj := do
  match ← caught x with
  | .ok o => pure o
  | .error c => pure c.obj

/-- `gc(FALSE)` -/
def gc : RM σ Unit := pure ()

/-! ## What the primitives do -/

@[simp] theorem protect_run (w : World σ) :
    protect.run w = .ok () { w with prot := w.prot ++ [.push] } := rfl

@[simp] theorem unprotect_run (n : Nat) (w : World σ) :
    (unprotect n).run w = .ok () { w with prot := w.prot ++ [.pop n] } := rfl

@[simp] theorem allocInt_run (w : World σ) :
    allocInt.run w = .ok (w.fresh 0) { w with fresh := fun k => w.fresh (k + 1) } := rfl

@[simp] theorem allocInts_run (n : Nat) (w : World σ) :
    (allocInts n).run w =
      .ok ((List.range n).map w.fresh) { w with fresh := fun k => w.fresh (k + n) } := rfl

@[simp] theorem malloc_run (n : Nat) (w : World σ) :
    (malloc n).run w =
      .ok ((List.range n).map w.heap) { w with heap := fun k => w.heap (k + n) } := rfl

@[simp] theorem call_run {α : Type} (f : σ → α × σ) (w : World σ) :
    (call f).run w = .ok (f w.lib).1 { w with lib := (f w.lib).2 } := rfl

@[simp] theorem stop_run {α : Type} (msg : String) (w : World σ) :
    (stop msg : RM σ α).run w = .error (simpleError msg) w := rfl

@[simp] theorem warning_run (msg : String) (w : World σ) :
    (warning msg).run w = .ok () { w with warnings := w.warnings ++ [msg] } := rfl

@[simp] theorem record_run (e : Ev σ) (w : World σ) :
    (record e).run w = .ok () { w with trace := w.trace ++ [e] } := rfl

theorem liftR_run {α : Type} (x : Except RError α) (w : World σ) :
    (liftR x : RM σ α).run w = match x with
      | .ok a => .ok a w
      | .error c => .error c w := by
  cases x <;> rfl

@[simp] theorem liftR_ok {α : Type} (a : α) (w : World σ) :
    (liftR (.ok a) : RM σ α).run w = .ok a w := rfl

@[simp] theorem liftR_error {α : Type} (c : RError) (w : World σ) :
    (liftR (.error c) : RM σ α).run w = .error c w := rfl

@[simp] theorem integer_int (v : List Int) (w : World σ) :
    (Sexp.int v).integer.run w = .ok v w := rfl

@[simp] theorem integer_str (v : List String) (w : World σ) :
    ((Sexp.str v).integer : RM σ _).run w =
      .error (simpleError "INTEGER() can only be applied to an 'integer' vector") w := rfl

@[simp] theorem throw_run {α : Type} (c : RError) (w : World σ) :
    (throw c : RM σ α).run w = .error c w := rfl

@[simp] theorem gc_run (w : World σ) : gc.run w = .ok () w := rfl

/-! ## Inversion -/

theorem tryIdentity_ok {x : RM σ Obj} {w w' : World σ} {o : Obj} :
    (tryIdentity x).run w = .ok o w' ↔
      x.run w = .ok o w' ∨ ∃ c, o = c.obj ∧ x.run w = .error c w' := by
  unfold tryIdentity
  rw [bind_ok]
  constructor
  · rintro ⟨r, w₁, hr, h⟩
    rcases caught_ok.1 hr with ⟨a, rfl, hx⟩ | ⟨c, rfl, hx⟩
    · cases h; exact .inl hx
    · cases h; exact .inr ⟨c, rfl, hx⟩
  · rintro (hx | ⟨c, rfl, hx⟩)
    · exact ⟨.ok o, w', caught_ok.2 (.inl ⟨o, rfl, hx⟩), rfl⟩
    · exact ⟨.error c, w', caught_ok.2 (.inr ⟨c, rfl, hx⟩), rfl⟩

theorem tryIdentity_not_error (x : RM σ Obj) {w w' : World σ} {c : RError} :
    (tryIdentity x).run w ≠ .error c w' := by
  unfold tryIdentity
  rw [ne_eq, bind_error]
  rintro (h | ⟨r, w₁, -, h⟩)
  · exact caught_not_error x h
  · cases r <;> cases h

end PbdPapi
