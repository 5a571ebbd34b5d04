import PbdPapi.Lib.Exec
import Mathlib.Algebra.Order.Field.Rat

/-!
# R

The part of R that the package's functions use: objects with a class attribute, error conditions,
`NA`, the colon operator, indexing of lists, `match.arg`. R's doubles are rationals: counts below
`2 ^ 53` are exact doubles, and rounding beyond that is outside the model.
-/

set_option autoImplicit false

namespace PbdPapi

/-! ## Objects and conditions -/

/-- An R object as the package sees it: its class attribute, and its content as an opaque text. -/
structure Obj where
  cls : List String
  content : String
deriving DecidableEq, Repr

/-- `inherits(o, c)` -/
def Obj.inherits (o : Obj) (c : String) : Bool := c ∈ o.cls

/-- `NULL` -/
def Obj.null : Obj := ⟨["NULL"], "NULL"⟩

/-- An R error condition: a condition object that inherits from `"error"`. -/
structure RError where
  obj : Obj
  condition : "condition" ∈ obj.cls
  error : "error" ∈ obj.cls
deriving DecidableEq, Repr

/-- The condition that `stop(msg)` signals. -/
def simpleError (msg : String) : RError :=
  ⟨⟨["simpleError", "error", "condition"], msg⟩, by simp, by simp⟩

/-- The condition that `stop(o)` signals: `o` itself when it is an error condition. -/
def stopCond (o : Obj) : RError :=
  if h : "condition" ∈ o.cls ∧ "error" ∈ o.cls then ⟨o, h.1, h.2⟩ else simpleError o.content

@[simp] theorem stopCond_obj (c : RError) : stopCond c.obj = c := by
  simp [stopCond, c.condition, c.error]

/-! ## Vectors and lists -/

/-- `NA_integer_` -/
def naInteger : Int := -2147483648

/-- The condition of `if (x == y)` for integers `x` and `y ≠ NA`: an error when `x` is `NA`. -/
def ifEq (x y : Int) : Except RError Bool :=
  if x = naInteger then .error (simpleError "missing value where TRUE/FALSE needed")
  else .ok (x == y)

/-- `a:b` -/
def colon (a b : Int) : List Int :=
  if a ≤ b then (List.range (b - a + 1).toNat).map fun k : Nat => a + k
  else (List.range (a - b + 1).toNat).map fun k : Nat => a - k

/-- `x[[i]]` -/
def elt {α : Type} (x : List α) (i : Int) : Except RError α :=
  if 1 ≤ i then
    match x[(i - 1).toNat]? with
    | some a => .ok a
    | none => .error (simpleError "subscript out of bounds")
  else .error (simpleError "subscript out of bounds")

/-- `x[[i]] <- a` for an index in range. -/
def setElt {α : Type} (x : List α) (i : Int) (a : α) : List α := x.set (i - 1).toNat a

/-- `which(x)` -/
def which (x : List Bool) : List Nat :=
  (List.range x.length).filter fun k => x.getD k false

/-- `x[-i]` for positions `i`, counted from 0 here. -/
def dropAt {α : Type} (x : List α) (i : List Nat) : List α :=
  (x.zipIdx.filter fun p => p.2 ∉ i).map (·.1)

/-- `paste(x, collapse=sep)` -/
def pasteCollapse (x : List String) (sep : String) : String := sep.intercalate x

/-- `match.arg(arg, choices)`: an exact match, else the only choice that starts with `arg`. -/
def matchArg (arg : String) (choices : List String) : Except RError String :=
  if arg ∈ choices then .ok arg
  else match choices.filter fun c => arg.toList.isPrefixOf c.toList with
    | [c] => .ok c
    | _ => .error (simpleError ("'arg' should be one of " ++ pasteCollapse choices ", "))

/-! ## Lemmas -/

theorem elt_ok {α : Type} {x : List α} {i : Nat} {a : α} :
    elt x ((i : Int) + 1) = .ok a ↔ x[i]? = some a := by
  have hpos : (1 : Int) ≤ (i : Int) + 1 := by omega
  have hi : ((i : Int) + 1 - 1).toNat = i := by omega
  rw [elt, if_pos hpos, hi]
  cases x[i]? <;> simp

@[simp] theorem pasteCollapse_singleton (x sep : String) : pasteCollapse [x] sep = x := by
  simp [pasteCollapse]

end PbdPapi
