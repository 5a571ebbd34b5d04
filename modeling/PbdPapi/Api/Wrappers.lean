import PbdPapi.Api.Rate

/-!
# The measuring functions

The R functions of `cache.r`, `idle.r`, `characterize.r` and `ipcm.r`, all built on `system.event`,
and the nine measuring functions as one family (`Wrapper`, `measure`).
-/

set_option autoImplicit false

namespace PbdPapi.Api

open Exec C

/-- What a measuring function returns. -/
inductive Ret where
  | counts (v : Measurement)
  /-- A cache ratio: the quotient `num / den` under a name. -/
  | ratio (name : String) (num den : Rat)
  /-- The counts of `system.cpuormem` and its `"Program Characterization"`. -/
  | program (v : Measurement) (label : String)
deriving DecidableEq, Repr

/-- The measured list in a result. -/
def Ret.list : Ret → Measurement
  | .counts v => v
  | .ratio name num den => [(name, num / den)]
  | .program v _ => v

/-! ## cache.r -/

/-- `grep(pattern, x)` finds the literal `pattern`. -/
def isMatch (x pattern : String) : Bool :=
  x.toList.tails.any fun t => pattern.toList.isPrefixOf t

/-- `is.match(x, "l[0-9][.]suffix")` -/
def isLevelMatch (x suffix : String) : Bool :=
  x.toList.tails.any fun t =>
    match t with
    | 'l' :: d :: '.' :: rest => d.isDigit && suffix.toList.isPrefixOf rest
    | _ => false

/-- `cache.opts(type, which, level)` -/
def cacheOpts (type which level : String) : List String :=
  let char :=
    if type = "miss" then "M"
    else if type = "hit" then "H"
    else if type = "access" then "A"
    else "R"
  if which = "total" then ["PAPI_L1_TC", "PAPI_L2_TC", "PAPI_L3_TC"].map (· ++ char)
  else if which = "data" then ["PAPI_L1_DC", "PAPI_L2_DC", "PAPI_L3_DC"].map (· ++ char)
  else if which = "instruction" then ["PAPI_L1_IC", "PAPI_L2_IC", "PAPI_L3_IC"].map (· ++ char)
  else if which = "all" then
    ["PAPI_L1_IC", "PAPI_L1_DC", "PAPI_L2_IC", "PAPI_L2_DC", "PAPI_L3_IC", "PAPI_L3_DC"].map
      (· ++ char)
  else if isLevelMatch which "all" then
    ["PAPI_L" ++ level ++ "_IC", "PAPI_L" ++ level ++ "_DC"].map (· ++ char)
  else if isLevelMatch which "ratio" then
    ["PAPI_L" ++ level ++ "_TC" ++ char, "PAPI_L" ++ level ++ "_TCA"]
  else [which]

/-- The level of an event class: the text before the dot, less its first `l`. -/
def cacheLevel (events : String) : String :=
  String.ofList ((events.toList.takeWhile (· ≠ '.')).erase 'l')

/-- `gsub("Level ", "L", x)` -/
def gsubLevel : List Char → List Char
  | 'L' :: 'e' :: 'v' :: 'e' :: 'l' :: ' ' :: rest => 'L' :: gsubLevel rest
  | c :: rest => c :: gsubLevel rest
  | [] => []

def cacheTypes : List String := ["miss", "hit", "access", "read"]

def cacheEvents : List String :=
  ["total", "data", "instruction", "all", "l1.all", "l2.all", "l3.all", "l1.ratio", "l2.ratio",
    "l3.ratio"]

section
variable {σ : Type} (P : Papi σ)

/-- `system.cache(expr, type, events, gcFirst, burnin)` -/
def systemCache (expr : Option (Prom σ)) (type events : String) (gcFirst burnin : Bool) :
    RM σ Ret := do
  let type ← liftR (matchArg type.toLower cacheTypes)
  let expr := expr.getD nullProm
  let shorthand := events
  let events ← liftR (matchArg events.toLower cacheEvents)
  let isRatio := isMatch events ".ratio"
  let level := if isRatio || isMatch events ".all" then cacheLevel events else ""
  let name := "L" ++ level ++ " cache " ++ type ++ " ratio"
  if type = "access" ∧ isRatio then
    warning "Duplicate counters requested"
    return .counts [(name, 1)]
  else
    let events := cacheOpts type events level
    availLookup events (some shorthand)
    let ret ← systemEvent P (some expr) events gcFirst burnin
    if isRatio then
      let num ← liftR (elt ret 1)
      let den ← liftR (elt ret 2)
      return .ratio (String.ofList (gsubLevel name.toList)) num.2 den.2
    else
      return .counts (ret.map fun p => (String.ofList (gsubLevel p.1.toList), p.2))

/-! ## idle.r, characterize.r -/

def idleEvents : List String := ["float", "int", "numeric", "branch", "load", "all"]

/-- The events of a class of `system.idle`. -/
def idleOpts (events : String) : List String :=
  if events = "float" then ["PAPI_FPU_IDL"]
  else if events = "int" then ["PAPI_FXU_IDL"]
  else if events = "numeric" then ["PAPI_FPU_IDL", "PAPI_FXU_IDL"]
  else if events = "branch" then ["PAPI_BRU_IDL"]
  else if events = "load" then ["PAPI_LSU_IDL"]
  else if events = "all" then ["PAPI_FPU_IDL", "PAPI_FXU_IDL", "PAPI_BRU_IDL", "PAPI_LSU_IDL"]
  else [events]

/-- `system.idle(expr, events, gcFirst, burnin)` -/
def systemIdle (expr : Option (Prom σ)) (events : String) (gcFirst burnin : Bool) :
    RM σ Measurement := do
  let events ← liftR (matchArg events.toLower idleEvents)
  let expr := expr.getD nullProm
  let shorthand := events
  let events := idleOpts events
  availLookup events (some shorthand)
  systemEvent P (some expr) events gcFirst burnin

/-- `system.cpuormem(expr, gcFirst, burnin)`: `burnin` is not passed on, and defaults to `TRUE` in
`system.event`. -/
def systemCpuormem (expr : Option (Prom σ)) (gcFirst _burnin : Bool) : RM σ Ret := do
  let expr := expr.getD nullProm
  let events := ["PAPI_FP_INS", "PAPI_L2_TCA"]
  availLookup events none
  let ret ← systemEvent P (some expr) events gcFirst true
  let ins ← liftR (elt ret 1)
  let tca ← liftR (elt ret 2)
  if tca.2 ≤ ins.2 then return .program ret "compute bound"
  else return .program ret "memory bound"

/-! ## ipcm.r -/

/-- `ipcm.cache.opts(type, level)`. `grep` takes the level as a regular expression; here it is the
text itself, which is the same for the documented levels `"2"` and `"3"`. -/
def ipcmCacheOpts (type : String) (level : Option String) : List String :=
  let miss := ["IPCM_L2_TCM", "IPCM_L3_TCM"]
  let hit := ["IPCM_L2_TCH", "IPCM_L3_TCH", "IPCM_L3_TCH_S", "IPCM_L3_TCH_NS"]
  let ret := if type = "miss" then miss else if type = "hit" then hit else miss ++ hit
  match level with
  | some level => ret.filter fun e => isMatch e ("L" ++ level)
  | none => ret

/-- `ipcm.mid.events(expr, events, gcFirst, burnin)` -/
def ipcmMidEvents (expr : Option (Prom σ)) (events : List String) (gcFirst burnin : Bool) :
    RM σ Measurement :=
  systemEvent P expr events gcFirst burnin

/-- `ipcm.cache(expr, type, level, gcFirst, burnin)` -/
def ipcmCache (expr : Option (Prom σ)) (type : String) (level : Option String)
    (gcFirst burnin : Bool) : RM σ Measurement :=
  ipcmMidEvents P expr (ipcmCacheOpts type level) gcFirst burnin

end

/-! ## The family -/

/-- A measuring function with its arguments other than the expression and the flags. -/
inductive Wrapper where
  | event (events : List String)
  | cache (type events : String)
  | idle (events : String)
  | cpuormem
  | ipcmCache (type : String) (level : Option String)
  | flops
  | flips
  | epc (event : List String)
  | utilization
deriving DecidableEq, Repr

/-- The call of a measuring function. -/
def measure {σ : Type} (P : Papi σ) (f : Wrapper) (expr : Option (Prom σ))
    (gcFirst burnin : Bool) : RM σ Ret :=
  match f with
  | .event events => .counts <$> systemEvent P expr events gcFirst burnin
  | .cache type events => systemCache P expr type events gcFirst burnin
  | .idle events => .counts <$> systemIdle P expr events gcFirst burnin
  | .cpuormem => systemCpuormem P expr gcFirst burnin
  | .ipcmCache type level => .counts <$> ipcmCache P expr type level gcFirst burnin
  | .flops => .counts <$> systemFlops P expr gcFirst burnin
  | .flips => .counts <$> systemFlips P expr gcFirst burnin
  | .epc event => .counts <$> systemEpc P expr event gcFirst burnin
  | .utilization => .counts <$> systemUtilization P expr gcFirst burnin

end PbdPapi.Api
