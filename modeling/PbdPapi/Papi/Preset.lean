import PbdPapi.Papi.Formula

/-!
# Loading derived events

How `papi_preset.c` builds a derived event from its terms: `check_derived_events`,
`check_native_events`, `is_event`, and the loop of `papi_load_derived_events` over the terms of one
definition. A table of events is the list of its entries, the one that is being built among them.
-/

set_option autoImplicit false

namespace PbdPapi.Derived

/-- `PAPI_MAX_INFO_TERMS` -/
def maxInfoTerms : Nat := 12

/-- `strcasecmp(a, b) == 0` -/
def strcasecmp (a b : String) : Bool := a.toList.map Char.toLower = b.toList.map Char.toLower

/-- The layers that know the native events. -/
structure Natives where
  /-- `_papi_hwi_native_name_to_code`, where it returns `PAPI_OK` -/
  nameToCode : String → Option Int
  /-- `_papi_hwi_component_index` -/
  componentIndex : Int → Int

/-- Put a native event behind those of an event. -/
def addCode (code : Int) (name : String) (results : Preset) : Except Fault Preset :=
  if results.count < maxInfoTerms then
    .ok { results with code := results.code ++ [code], name := results.name ++ [name] }
  else .error .write

/-- The loop of `check_derived_events` over the native events of the event that is found, with
their names as far as they have any; `found` counts those that were known before. -/
def copyCodes (target : String) : List (Int × Option String) → Nat → Preset → Except Fault Preset
  | [], _, results => .ok results
  | (code, name) :: codes, found, results =>
    match results.code.findIdx? (· = code) with
    | some i => do
      let ops ← updateOpsString results.postfixOps (results.count + found) i
      copyCodes target codes (found + 1) { results with postfixOps := ops }
    | none =>
      if found = 0 then do
        let results ← addCode code (name.getD target) results
        copyCodes target codes found results
      else copyCodes target codes found results

/-- The native events of an event with their names. -/
def Preset.codes (p : Preset) : List (Int × Option String) :=
  p.code.zipIdx.map fun (code, k) => (code, p.name[k]?)

/-- The `switch` of `check_derived_events` over the type of the event that is built. -/
def addFormula (derivedType : DerivedType) (results event : Preset) (tokenIndex : Nat) :
    Except Fault Preset :=
  match derivedType with
  | .derivedPostfix => do
    let ops ← opsStringMerge results.postfixOps event.postfixOps tokenIndex results.count
    return { results with postfixOps := ops }
  | .derivedAdd => opsStringAppend results event true
  | .derivedSub => opsStringAppend results event false
  | _ => .ok results

/-- What `check_derived_events` does with the event that it finds. -/
def useEvent (target : String) (derivedType : DerivedType) (results event : Preset)
    (tokenIndex : Nat) : Except Fault Preset := do
  let results ← addFormula derivedType results event tokenIndex
  copyCodes target event.codes 0 results

/-- The entry that `check_derived_events` finds: the search ends at the first free entry. -/
def findEvent (target : String) : List Preset → Option Preset
  | [] => none
  | event :: search =>
    match event.symbol with
    | none => none
    | some symbol => if strcasecmp target symbol then some event else findEvent target search

/-- `check_derived_events`, `none` for the result 0 -/
def checkDerivedEvents (target : String) (derivedType : DerivedType) (results : Preset)
    (search : List Preset) (tokenIndex : Nat) : Except Fault (Option Preset) :=
  match findEvent target search with
  | none => .ok none
  | some event => some <$> useEvent target derivedType results event tokenIndex

/-- `check_native_events`, `none` for the result 0 -/
def checkNativeEvents (N : Natives) (target : String) (results : Preset) :
    Except Fault (Option Preset) :=
  match N.nameToCode target with
  | none => .ok none
  | some code =>
    if code = 0 then .ok none
    else if N.componentIndex code ≠ 0 then .ok none
    else some <$> addCode code target results

/-- The tables of preset events and of user defined events. -/
structure Tables where
  presets : List Preset
  userDefined : List Preset

/-- An entry of the tables that no event has been loaded into. -/
def freePreset : Preset := ⟨none, .notDerived, none, [], []⟩

section
variable (N : Natives)

/-- `is_event`, `none` for the result 0 -/
def isEvent (T : Tables) (eventName : String) (derivedType : DerivedType) (results : Preset)
    (tokenIndex : Nat) : Except Fault (Option Preset) := do
  match ← checkDerivedEvents eventName derivedType results T.presets tokenIndex with
  | some results => return some results
  | none =>
    match ← checkDerivedEvents eventName derivedType results T.userDefined tokenIndex with
    | some results => return some results
    | none => checkNativeEvents N eventName results

/-- The loop over the terms of a definition, from the term `i` on, where `T` are the tables that
hold the event as it is: the event, the number of its terms, and whether the next one is no event.
The loop ends early when the event has enough native events. -/
def addTerms (T : Preset → Tables) :
    List String → Nat → Preset → Except Fault (Preset × Nat × Bool)
  | [], i, results => .ok (results, i, false)
  | term :: terms, i, results => do
    match ← isEvent N (T results) term results.derivedInt results i with
    | none => return (results, i, true)
    | some results =>
      if results.count < eventsInDerivedEvent then addTerms T terms (i + 1) results
      else return (results, i + 1, false)

end

end PbdPapi.Derived
