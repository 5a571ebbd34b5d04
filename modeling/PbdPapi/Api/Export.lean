import PbdPapi.Api.Bench

/-!
# Exporting objects

`papiexport.r`: the names to export are recovered from `match.call()`, and `dump` looks them up from
the frame of `papiexport`, whose parent is the package's namespace.
-/

set_option autoImplicit false

namespace PbdPapi.Api

open Lexical

/-- An object that a name is bound to, as far as `dump` writes it. -/
inductive Stored where
  | val (v : RVal)
  | character (v : List String)
  | numeric (v : List Int)
  | connection (k : Nat)
deriving DecidableEq, Repr

def Stored.isFun : Stored → Bool
  | .val v => v.isFun
  | _ => false

abbrev ExportScope := Scope String Stored

/-- The object that a name finds. -/
def objectAt (s : ExportScope) (x : String) : Option Stored := valueAt Stored.isFun s ⟨.read, x⟩

/-! ## dump -/

/-- A file to write to. -/
inductive Target where
  | path (p : String)
  | connection (k : Nat)
deriving DecidableEq, Repr

/-- `stdout()` -/
def Target.stdout : Target := .connection 1

def Target.object : Target → Stored
  | .path p => .character [p]
  | .connection k => .connection k

/-- A call of `dump`: the names, the file, the objects written to it, and the names that the call
warns of. -/
structure Dump where
  list : List String
  file : Target
  written : List (String × Stored)
  notFound : List String
deriving DecidableEq, Repr

/-- `dump(list, file)` in a function whose frame is the first of the scope. -/
def dump (list : List String) (file : Target) (s : ExportScope) : Except RError Dump :=
  let written := list.filterMap fun x => (objectAt s x).map (x, ·)
  let notFound := list.filter fun x => (objectAt s x).isNone
  match file with
  | .path p =>
    -- a file is not opened for nothing
    if written = [] then .ok ⟨list, file, [], []⟩
    else .ok ⟨list, if p = "" then .stdout else file, written, notFound⟩
  | .connection _ =>
    if list = [] then .error (simpleError "zero-length argument")
    else .ok ⟨list, file, written, notFound⟩

/-! ## papiexport.r -/

def exportFormals : List String := ["file"]

/-- The code of the argument `file`. -/
def fileArg (args : List Arg) : Option RExpr := (args.find? fun a => a.1 == "file").map (·.2)

/-- `is.null` of an element of a call, or of none. -/
def isNullArg : Option RExpr → Bool
  | none => true
  | some (.const t) => t == "NULL"
  | some _ => false

/-- A call of `papiexport`: its arguments as they are written, the value of the argument `file`,
`none` for `NULL`, the scope that it is made in, and that of the package's namespace, both as they
are when `dump` is called. -/
structure ExportCall where
  args : List Arg
  file : Option Target
  file_null : isNullArg (fileArg args) = true → file = none
  caller : ExportScope
  ns : ExportScope

/-- `as.list(args)$name`: the element with this name, else the only one whose name starts with
it. -/
def dollar (args : List Arg) (name : String) : Option RExpr :=
  match args.find? fun a => a.1 == name with
  | some a => some a.2
  | none =>
    match args.filter fun a => name.toList.isPrefixOf a.1.toList with
    | [a] => some a.2
    | _ => none

/-- An element of `as.character` of a call; `deparse` is the text of one that is no symbol. -/
def elementText (deparse : RExpr → String) : RExpr → String
  | .sym x => x
  | e => deparse e

/-- The locals of `papiexport` when it calls `dump`, besides `...`. -/
def exportLocals (file : Target) (args : List String) (reject : List Nat) :
    List (String × Stored) :=
  [("file", file.object), ("args", .character args),
    ("reject", .numeric (reject.map fun k => -(k : Int)))]

/-- `papiexport(..., file)` -/
def papiexport (deparse : RExpr → String) (c : ExportCall) : Except RError Dump :=
  let file := c.file.getD .stdout
  let args := ("", .sym "papiexport") :: matchCall exportFormals c.args
  let reject := if !isNullArg (dollar args "file") then [1, args.length] else [1]
  let names := (dropAt args (reject.map (· - 1))).map fun a => elementText deparse a.2
  let frame := ⟨freshId (c.caller ++ c.ns), exportLocals file names reject⟩
  dump names file (frame :: c.ns)

end PbdPapi.Api
