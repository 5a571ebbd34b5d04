import PbdPapi.Api.Wrappers
import PbdPapi.R.Lang

/-!
# The benchmarkers

`cachebench.r`, `flopsbench.r` and the two functions of `utils.r` behind them. Both benchmarkers
recover their arguments from `match.call()`, fill one matrix for each of them row by row
(`fill`), and evaluate the code of an argument in a frame of their own, whose parent is the
package's namespace.
-/

set_option autoImplicit false

namespace PbdPapi.Api

open Exec C Lexical

/-! ## Numbers -/

/-- A double. -/
inductive Dbl where
  | fin (x : Rat)
  | nan
  | inf
deriving DecidableEq, Repr

/-- `as.integer(x)`, `none` for `NA`. -/
def Dbl.asInteger : Dbl → Option Int
  | .fin x => if |x| < 2 ^ 31 then some (x.num.tdiv x.den) else none
  | _ => none

/-- `as.integer(x)` warns. -/
def Dbl.warns : Dbl → Bool
  | .fin x => ¬ |x| < 2 ^ 31
  | .nan => false
  | .inf => true

/-- The warning of `as.integer`, if it gives one. -/
def coercionWarning {σ : Type} (warns : Bool) : RM σ Unit :=
  if warns then warning "NAs introduced by coercion to integer range" else pure ()

/-- `x / y` -/
def Dbl.div (x y : Rat) : Dbl := if y ≠ 0 then .fin (x / y) else if x = 0 then .nan else .inf

/-- The values of a result under their names. -/
def Ret.values : Ret → List (String × Dbl)
  | .counts v => v.map fun p => (p.1, .fin p.2)
  | .ratio name num den => [(name, .div num den)]
  | .program v _ => v.map fun p => (p.1, .fin p.2)

/-! ## Matrices -/

/-- A matrix with column names. -/
structure Mat (α : Type) where
  colnames : List String
  rows : List (List α)
deriving DecidableEq, Repr

/-- `v` recycled to length `n`. -/
def recycle {α : Type} (n : Nat) (v : List α) : List α :=
  (List.range n).filterMap fun k => v[k % v.length]?

/-- `m[j, ] <- v` -/
def Mat.setRow {α : Type} (m : Mat α) (j : Int) (v : List α) : Except RError (Mat α) :=
  if j = 0 then .ok m
  else if 1 ≤ j ∧ j ≤ m.rows.length then
    if 0 < m.colnames.length ∧ v.length = 0 then
      .error (simpleError "replacement has length zero")
    else if m.colnames.length % v.length ≠ 0 then
      .error (simpleError "number of items to replace is not a multiple of replacement length")
    else .ok { m with rows := m.rows.set (j - 1).toNat (recycle m.colnames.length v) }
  else .error (simpleError "subscript out of bounds")

/-- `ret[[i]][j, ] <- v` -/
def putRow {α : Type} (ret : List (Mat α)) (p : Int × Int) (v : List α) :
    Except RError (List (Mat α)) := do
  let m ← elt ret p.1
  let m ← m.setRow p.2 v
  return setElt ret p.1 m

/-- The loops `for (i in 1:len) for (j in 1:n) ret[[i]][j, ] <- row(meas)`. -/
def fill {σ α β : Type} (len n : Nat) (meas : Int × Int → RM σ β) (row : β → List α)
    (ret : List (Mat α)) : RM σ (List (Mat α)) :=
  (colon 1 len).foldlM (fun ret i =>
    (colon 1 n).foldlM (fun ret j => do
      let tmp ← meas (i, j)
      liftR (putRow ret (i, j) (row tmp))) ret) ret

/-- The mean of a column, `none` for `NA`. -/
def mean (column : List (Option Int)) : Option Rat :=
  (column.mapM id).map fun v => (v.sum : Rat) / v.length

/-- `colMeans(m)` -/
def Mat.colMeans (m : Mat (Option Int)) : List (Option Rat) :=
  (List.range m.colnames.length).map fun k => mean (m.rows.map fun r => r.getD k none)

/-! ## Arguments -/

/-- An argument of a call as it is written: its name, empty if it has none, and its code. -/
abbrev Arg := String × RExpr

/-- A call of a benchmarker: its arguments in the order of the call, the scope that it is made in,
and the scope of the package's namespace. -/
structure BenchCall where
  args : List Arg
  caller : RScope
  ns : RScope
  /-- What the code that `cachebench` evaluated in its frame before a pass has assigned there. -/
  left : Int × Int → List (String × RVal) := fun _ => []

/-- The arguments in `...`, for a function with these other formals behind it. R refuses a call that
gives one of these twice. -/
def dots (formals : List String) (args : List Arg) : List Arg :=
  args.filter fun a => a.1 ∉ formals

/-- `match.call()[-1]` -/
def matchCall (formals : List String) (args : List Arg) : List Arg :=
  dots formals args ++ formals.filterMap fun f => args.find? fun a => a.1 == f

/-- `names(args)` is `NULL`. -/
def unnamed (args : List Arg) : Bool := args.all fun a => a.1 == ""

/-- The arguments that a benchmarker works with: all but the one that it drops by name. -/
def benchArgs (formals : List String) (dropped : String) (args : List Arg) : List Arg :=
  let args := matchCall formals args
  if unnamed args then args else args.filter fun a => a.1 ≠ dropped

/-- `argnames` -/
def benchNames (deparse : RExpr → String) (len : Nat) (args : List Arg) : List String :=
  if unnamed args then args.map fun a => deparse a.2
  else (args.take len).map fun a => if a.1 = "" then deparse a.2 else a.1

/-- The frame of a call of a benchmarker, with its locals `binds`. -/
def BenchCall.frame (c : BenchCall) (binds : List (String × RVal)) : RFrame :=
  ⟨freshId (c.caller ++ c.ns), binds⟩

/-- A local whose value is no function and of no concern. -/
def plain (name : String) : String × RVal := (name, .other name)

section
variable {σ : Type} (P : Papi σ) (L : Lang σ)

/-- `eval(args[[i]])` in a scope. -/
def evalArg (args : List Arg) (i : Int) (s : RScope) : Prom σ :=
  match elt args i with
  | .ok a => L.eval a.2 s
  | .error c => (throw c : RM _ _)

/-- `list(...)` -/
def forceDots (c : BenchCall) (dots : List Arg) : RM σ Unit :=
  dots.forM fun a => do
    let _ ← L.eval a.2 c.caller

/-! ## utils.r -/

/-- `pluralize(x)` -/
def pluralize (x : String) : String :=
  if x.toList.getLast? = some 's' then x ++ "es" else x ++ "s"

/-- `gsub` of a letter at the start or behind a blank by its capital. -/
def capitals : Bool → List Char → List Char
  | _, [] => []
  | start, c :: rest => (if start then c.toUpper else c) :: capitals c.isWhitespace rest

/-- `titlecase(x)` -/
def titlecase (x : String) : String := String.ofList (capitals true x.toList)

/-! ## cachebench.r -/

/-- A number as an argument. -/
inductive NumArg where
  | num (x : Dbl)
  | na
  /-- A value that is not numeric. -/
  | other
deriving DecidableEq, Repr

def nrepsText : String := "argument 'nreps' must be a positive integer"

/-- The checks of `nreps`. -/
def NumArg.positive : NumArg → Except RError Nat
  | .num x =>
    match x.asInteger with
    | some k => if k < 1 then .error (simpleError nrepsText) else .ok k.toNat
    | none => .error (simpleError nrepsText)
  | _ => .error (simpleError nrepsText)

/-- `as.integer(nreps)` warns. -/
def NumArg.warns : NumArg → Bool
  | .num x => x.warns
  | _ => false

def cacheFormals : List String := ["type", "events", "nreps"]

/-- The locals of `cachebench` in a pass. -/
def cacheLocals (named : Bool) (p : Int × Int) : List (String × RVal) :=
  (["...", "type", "events", "nreps", "l", "len", "typename", "args", "names", "argnames"].map
      plain) ++
    (if named then [plain "keep", plain "charargs"] else []) ++
    [plain "template", plain "colnames", plain "ret", ("i", .int p.1), ("j", .int p.2)] ++
    if p = (1, 1) then [] else [plain "tmp"]

/-- The scope in which `cachebench` evaluates code in a pass. -/
def cacheScope (c : BenchCall) (p : Int × Int) : RScope :=
  c.frame (c.left p ++ cacheLocals (!unnamed (matchCall cacheFormals c.args)) p) :: c.ns

/-- `gsub(x, pattern=pat, replacement="")`, `skip` characters into a match. -/
def gsubDrop (pat : List Char) : Nat → List Char → List Char
  | _, [] => []
  | skip + 1, _ :: rest => gsubDrop pat skip rest
  | 0, c :: rest =>
    if pat.isPrefixOf (c :: rest) then gsubDrop pat (pat.length - 1) rest
    else c :: gsubDrop pat 0 rest

/-- The name of a column of means. -/
def avgName (x : String) : String :=
  match gsubDrop " cache misses".toList 0 x.toList with
  | 'L' :: rest => "Avg.L" ++ String.ofList rest
  | x => String.ofList x

/-- The data frame of means: its column `nreps`, the names of the other columns, its rows. -/
structure Stats where
  nreps : Nat
  columns : List String
  rows : List (List (Option Rat))
deriving DecidableEq, Repr

/-- An element of the list that `cachebench` returns. -/
inductive BenchElt where
  | matrix (m : Mat (Option Int))
  | stats (s : Stats)
  | text (t : String)
deriving DecidableEq, Repr

/-- `ret$name <- e` -/
def setField (ret : List (String × BenchElt)) (name : String) (e : BenchElt) :
    List (String × BenchElt) :=
  match ret.findIdx? fun x => x.1 == name with
  | some k => ret.set k (name, e)
  | none => ret ++ [(name, e)]

/-- `do.call(rbind, rows)`: a row under the name of the option of `rbind` is taken for that. -/
def rbind {α : Type} (rows : List (String × α)) : Except RError (List (String × α)) :=
  if 2 ≤ (rows.filter fun r => r.1 = "deparse.level").length then
    .error (simpleError
      "formal argument \"deparse.level\" matched by multiple actual arguments")
  else .ok (rows.filter fun r => r.1 ≠ "deparse.level")

/-- `cachebench` after its loops. -/
def summarise (argnames colnames : List String) (nreps : Nat) (typename : String)
    (ret : List (Mat (Option Int))) : Except RError (List (String × BenchElt)) := do
  let means ← rbind (argnames.zip (ret.map Mat.colMeans))
  if means = [] then
    .error (simpleError
      "attempt to set 'colnames' on an object with less than two dimensions")
  else
    let stats := ⟨nreps, colnames.map avgName, means.map (·.2)⟩
    let ret := argnames.zip (ret.map .matrix)
    .ok (setField (setField ret "summarystats" (.stats stats)) "type" (.text typename))

/-- A replication: the call of `system.cache` in a pass, and the warnings of `as.integer`. -/
def replication (c : BenchCall) (type events : String) (p : Int × Int) : RM σ Ret := do
  let args := benchArgs cacheFormals "nreps" c.args
  let tmp ← systemCache P (some (evalArg L args p.1 (cacheScope c p))) type events false false
  tmp.values.forM fun x => coercionWarning x.2.warns
  return tmp

/-- `as.integer(tmp)` -/
def intRow (tmp : Ret) : List (Option Int) := tmp.values.map fun x => x.2.asInteger

/-- `cachebench` before its loops: the number of replications and the template. -/
def cacheSetup (c : BenchCall) (type events : String) (nreps : NumArg) : RM σ (Nat × Ret) := do
  forceDots L c (dots cacheFormals c.args)
  if (dots cacheFormals c.args).length = 0 then stop "No expressions"
  coercionWarning nreps.warns
  let nreps ← liftR nreps.positive
  let template ← systemCache P (some nullProm) type events true true
  return (nreps, template)

/-- `cachebench(..., type, events, nreps)` -/
def cachebench (c : BenchCall) (type events : String) (nreps : NumArg) :
    RM σ (List (String × BenchElt)) := do
  let (nreps, template) ← cacheSetup P L c type events nreps
  let len := (dots cacheFormals c.args).length
  let typename := "Cache " ++ titlecase (pluralize type) ++ " with " ++ toString nreps ++
    " Replications"
  let argnames := benchNames L.deparse len (benchArgs cacheFormals "nreps" c.args)
  let colnames := template.values.map (·.1)
  let zero := List.replicate nreps (List.replicate colnames.length (some 0))
  let ret ← fill len nreps (replication P L c type events) intRow
    (List.replicate len ⟨colnames, zero⟩)
  liftR (summarise argnames colnames nreps typename ret)

/-! ## flopsbench.r -/

def flopsFormals : List String := ["data"]

/-- The locals of `flopsbench` in a pass. -/
def flopsLocals (named : Bool) (data : List Datum) (p : Int × Int) : List (String × RVal) :=
  ("data", .data data) ::
    (["...", "l", "len", "datalen", "args", "names", "argnames"].map plain) ++
    (if named then [plain "keep", plain "charargs"] else []) ++
    [plain "template", plain "colnames", plain "ret", ("i", .int p.1), ("j", .int p.2),
      plain "expr"] ++
    if p = (1, 1) then [] else [plain "tmp"]

/-- The scope in which `flopsbench` evaluates code in a pass. -/
def flopsScope (c : BenchCall) (data : List Datum) (p : Int × Int) : RScope :=
  c.frame (flopsLocals (!unnamed (matchCall flopsFormals c.args)) data p) :: c.ns

/-- `parse(text=paste0(e, "(data[[j]])"))` -/
def applied (e : RExpr) : Except RError (List RExpr) :=
  L.parse ((L.asCharacter e).map (· ++ "(data[[j]])"))

/-- The measurement of a pass. -/
def flopsPass (c : BenchCall) (data : List Datum) (p : Int × Int) : RM σ Measurement := do
  let a ← liftR (elt (benchArgs flopsFormals "data" c.args) p.1)
  let expr ← liftR (applied L a.2)
  systemFlops P (some (L.evalAll expr (flopsScope c data p))) true false

/-- An element of `sapply(data, NROW) * sapply(data, NCOL)`, `none` for `NA`: a product of
integers, unless the length of a vector of the data is a double. -/
def entry (data : List Datum) (d : Datum) : Option Nat :=
  if (data.any fun d => 2 ^ 31 ≤ d.nrow) ∨ d.nrow * d.ncol < 2 ^ 31 then some (d.nrow * d.ncol)
  else none

/-- `cbind(m, n)` -/
def cbindN (n : List (Option Nat)) (m : Mat Rat) : Mat (Option Rat) :=
  ⟨m.colnames ++ ["n"],
    m.rows.zipWith (fun r k => r.map some ++ [k.map fun k : Nat => (k : Rat)]) n⟩

/-- `flopsbench` before its loops: the names of the columns. -/
def flopsSetup (c : BenchCall) : RM σ (List String) := do
  forceDots L c (dots flopsFormals c.args)
  if (dots flopsFormals c.args).length = 0 then stop "No expressions"
  let template ← systemFlops P (some nullProm) true true
  if template.length ≠ 4 then stop "length of 'dimnames' [2] not equal to array extent"
  return template.map (·.1)

/-- `flopsbench(..., data)` -/
def flopsbench (c : BenchCall) (data : List Datum) : RM σ (List (String × Mat (Option Rat))) := do
  let colnames ← flopsSetup P L c
  let len := (dots flopsFormals c.args).length
  let argnames := benchNames L.deparse len (benchArgs flopsFormals "data" c.args)
  let zero := List.replicate data.length [0, 0, 0, 0]
  let ret ← fill len data.length (flopsPass P L c data) (fun tmp => tmp.map (·.2))
    (List.replicate len ⟨colnames, zero⟩)
  let n := data.map (entry data)
  if none ∈ n then warning "NAs produced by integer overflow"
  return argnames.zip (ret.map (cbindN n))

end

end PbdPapi.Api
