import PbdPapi.R.World
import PbdPapi.Lib.Scope

/-!
# R's language

Expressions, as far as a function that receives one unevaluated can tell them apart, and the lookups
that their evaluation makes. What evaluates, prints and reads expressions is R itself: `Lang σ` is
what the package uses of it. Functions are known by their identity.

An assignment is a use of its name too: it writes to the frame that the expression is evaluated in.
-/

set_option autoImplicit false

namespace PbdPapi

open Lexical

/-- An R expression. -/
inductive RExpr where
  | const (text : String)
  /-- A symbol. `...` and the `..k` are the symbol `...`. -/
  | sym (x : String)
  | call (f : RExpr) (args : List RExpr)
  /-- `x <- e` -/
  | assign (x : String) (e : RExpr)
  /-- Two expressions in braces. -/
  | seq (e₁ e₂ : RExpr)
  /-- `function(formals) body` -/
  | fn (formals : List String) (body : RExpr)

/-- An element of a list of data: its content, `NROW` and `NCOL`. -/
structure Datum where
  content : String
  nrow : Nat
  ncol : Nat
deriving DecidableEq, Repr

/-- A value that a name is bound to. -/
inductive RVal where
  | fn (id : Nat)
  | int (k : Int)
  | data (l : List Datum)
  | other (text : String)
deriving DecidableEq, Repr

def RVal.isFun : RVal → Bool
  | .fn _ => true
  | _ => false

/-- The function that a value is. -/
def RVal.fn? : RVal → Option Nat
  | .fn id => some id
  | _ => none

abbrev RFrame := Frame String RVal
abbrev RScope := Scope String RVal

/-- The names that an expression assigns whenever it is evaluated. -/
def RExpr.assigned : RExpr → List String
  | .assign x e => x :: e.assigned
  | .seq e₁ e₂ => e₁.assigned ++ e₂.assigned
  | _ => []

mutual

/-- The uses of names that are free in an expression inside which `bound` are not. -/
def RExpr.uses (bound : List String) : RExpr → List (Use String)
  | .const _ => []
  | .sym x => if x ∈ bound then [] else [⟨.read, x⟩]
  | .call (.sym x) args => (if x ∈ bound then [] else [⟨.call, x⟩]) ++ usesAll bound args
  | .call f args => f.uses bound ++ usesAll bound args
  | .assign x e => ⟨.call, "<-"⟩ :: e.uses bound ++ [⟨.write, x⟩]
  | .seq e₁ e₂ => ⟨.call, "\x7b"⟩ :: e₁.uses bound ++ e₂.uses (e₁.assigned ++ bound)
  -- what the body assigns is a matter of the function's own frame
  | .fn formals body => ⟨.call, "function"⟩ ::
      (body.uses (formals ++ bound)).filter (·.mode ≠ .write)

def usesAll (bound : List String) : List RExpr → List (Use String)
  | [] => []
  | e :: es => e.uses bound ++ usesAll bound es

end

/-- The free uses of an expression. -/
def RExpr.free (e : RExpr) : List (Use String) := e.uses []

/-- The frame whose binding a use finds. -/
def bindingAt (s : RScope) (u : Use String) : Option Nat := resolve RVal.isFun s u

/-- The function that a use finds. -/
def funAt (s : RScope) (u : Use String) : Option Nat := (valueAt RVal.isFun s u).bind RVal.fn?

/-- `data[[j]]` -/
def RExpr.dataJ : RExpr := .call (.sym "[[") [.sym "data", .sym "j"]

/-- Texts with which no call begins: `function` wants formals, the others a left side. -/
def unreadable : List String := ["function", "::", ":::", "$", "@", "[", "[["]

/-- What the package uses of R's evaluator, printer and reader. -/
structure Lang (σ : Type) where
  /-- `eval(e)` in a scope. -/
  eval : RExpr → RScope → Prom σ
  /-- The function that an expression evaluates to. -/
  fnOf : RExpr → RScope → Option Nat
  fnOf_sym : ∀ x s, fnOf (.sym x) s = funAt s ⟨.read, x⟩
  /-- The text of an element of `as.character` of a call. -/
  deparse : RExpr → String
  /-- `as.character(e)` -/
  asCharacter : RExpr → List String
  asCharacter_sym : ∀ x, asCharacter (.sym x) = [x]
  asCharacter_call : ∀ x args, ∃ rest, asCharacter (.call (.sym x) args) = x :: rest
  asCharacter_fn : ∀ formals body, ∃ rest, asCharacter (.fn formals body) = "function" :: rest
  /-- The text is a name that needs no quoting. -/
  isName : String → Bool
  /-- `parse(text=lines)`: the expressions, or the syntax error. -/
  parse : List String → Except RError (List RExpr)
  parse_name : ∀ x, isName x = true →
    parse [x ++ "(data[[j]])"] = .ok [.call (.sym x) [.dataJ]]
  parse_unreadable : ∀ x ∈ unreadable, ∀ rest,
    ∃ c, parse ((x ++ "(data[[j]])") :: rest) = .error c

/-- `eval(es)` of an expression vector: the value of the last. -/
def Lang.evalAll {σ : Type} (L : Lang σ) : List RExpr → RScope → Prom σ
  | [], _ => nullProm
  | [e], s => L.eval e s
  | e :: es, s => (do
    let _ ← L.eval e s
    Lang.evalAll L es s : RM _ _)

/-- The function that a call with the callee `f` calls. -/
def Lang.callee {σ : Type} (L : Lang σ) (f : RExpr) (s : RScope) : Option Nat :=
  match f with
  | .sym x => funAt s ⟨.call, x⟩
  | f => L.fnOf f s

end PbdPapi
