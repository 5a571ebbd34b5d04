import PbdPapi.C.Entry

/-!
# Hardware information

`hw_info.r`: what `hw.info` reports of the processor, and the names of the microarchitectures that
it looks up by family and model.
-/

set_option autoImplicit false

namespace PbdPapi.Api

open Exec C

/-! ## Logic with `NA` -/

/-- `x == y` for integers `x` and `y ≠ NA`; `none` is `NA`. -/
def eqInt (x y : Int) : Option Bool := if x = naInteger then none else some (x == y)

/-- `x && y` -/
def andNA : Option Bool → Option Bool → Option Bool
  | some false, _ => some false
  | some true, y => y
  | none, some false => some false
  | none, _ => none

/-- `x == y₁ || x == y₂ || …` -/
def eqAny (x : Int) (ys : List Int) : Option Bool :=
  if x = naInteger then none else some (ys.contains x)

/-- The condition of `if (x)`: an error when `x` is `NA`. -/
def cond : Option Bool → Except RError Bool
  | some b => .ok b
  | none => .error (simpleError "missing value where TRUE/FALSE needed")

/-! ## Processor model lookup -/

/-- The models of Intel's family 6, in the order in which they are tried. -/
def intelModels : List (List Int × String) :=
  [([0x3C, 0x45, 0x46], "Haswell"), ([0x3A, 0x3E], "IvyBridge"), ([0x2A, 0x2D], "SandyBridge"),
    ([0x25, 0x2C, 0x2F], "Westmere"), ([0x1E, 0x1A, 0x2E], "Nehalem"), ([0x17, 0x1D], "Penryn"),
    ([0x0F, 0x16], "Merom"), ([0x03], "Nocona"), ([0x04], "Prescott"), ([0x0D], "Dothan")]

/-- The tests of a model against the rest of the table. -/
def intelModel (model : Int) : List (List Int × String) → Except RError String
  | [] => .ok "Unknown Intel"
  | (models, arch) :: rest => do
    if ← cond (eqAny model models) then return arch
    else intelModel model rest

/-- `arch.intel(family, model)` -/
def archIntel (family model : Int) : Except RError String := do
  if ← cond (andNA (eqInt family 0x0F) (eqInt model 0x06)) then return "Presler"
  else if ← cond ((eqInt family 0x06).map not) then return "Unknown"
  else intelModel model intelModels

section
variable {σ : Type}

/-- `arch.amd(family, model)` -/
def archAmd (_family _model : Int) : RM σ String := do
  warning "AMD chipsets are not supported at this time."
  return "Unknown AMD"

/-- `arch.lookup(vendor, family, model)` -/
def archLookup (vendor : String) (family model : Int) : RM σ String :=
  if vendor = "GenuineIntel" then liftR (archIntel family model)
  else if vendor = "AuthenticAMD" then archAmd family model
  else pure "Unknown"

/-! ## `hw.info` -/

/-- `info[[2L]]` under the names `info[[1L]]`, for integers. -/
def namedInts : Sexp → RM σ (List (String × Int))
  | .vec2 (.str names) (.int val) => pure (names.zip val)
  | _ => stop "subscript out of bounds"

/-- `info[[2L]]` under the names `info[[1L]]`, for texts. -/
def namedTexts : Sexp → RM σ (List (String × String))
  | .vec2 (.str names) (.str val) => pure (names.zip val)
  | _ => stop "subscript out of bounds"

/-- The elements of a list of integers. -/
def listElts : Sexp → List (String × Sexp)
  | .ilist v => v.map fun x => (x.1, .int [x.2])
  | _ => []

variable (P : Papi σ)

/-- `hw.info.internal()` -/
def hwInfoInternal : RM σ (List (String × Int)) := do
  let info ← papiHwinfo P
  namedInts info

/-- `cpuinfo()` -/
def cpuinfo : RM σ Sexp := rPapiCpuinfo P

/-- `hw.info()` -/
def hwInfo : RM σ (List (String × Sexp)) := do
  let intinfo ← hwInfoInternal P
  let info ← papiHwname P
  let info ← namedTexts info
  let some vendor := info.lookup "vendor" | stop "missing value where TRUE/FALSE needed"
  let family := (intinfo.lookup "cpuid_family").getD naInteger
  let model := (intinfo.lookup "cpuid_model").getD naInteger
  let arch ← archLookup vendor family model
  let val := info.map (fun x => (x.1, Sexp.str [x.2])) ++ [("codename", .str [arch])]
  let cpu ← cpuinfo P
  return val ++ listElts cpu

end

end PbdPapi.Api
