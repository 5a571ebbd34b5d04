import PbdPapi.Papi.Preset
import Mathlib.Data.List.DropRight

/-!
# Loading event definitions

`papi_load_derived_events` (`papi_preset.c`): the lines of a file of event definitions, in sections
for the PMUs, and the array of events that they are put into. The lines are those that
`get_event_line` returns; descriptions and notes are left out.

An entry whose definition fails keeps what it has got so far, without its name.
-/

set_option autoImplicit false

namespace PbdPapi.Derived

/-- `isblank` -/
def isblank (c : Char) : Bool := c = ' ' || c = '\t'

/-- `trim_string` -/
def trimString (s : Text) : Text := (s.dropWhile isblank).rdropWhile isblank

/-- `trim_string(strtok_r(.., ",", ..))`, until `strtok_r` has no token left. -/
def fields (line : Text) : List Text := ((line.splitOn ',').filter (· ≠ [])).map trimString

/-- `strcasecmp(t, word) == 0` -/
def isWord (t : Text) (word : String) : Bool := strcasecmp (String.ofList t) word

/-- `sscanf(t, "%d", ..)`, `none` where nothing is read -/
def sscanfInt (t : Text) : Except Fault (Option Int) :=
  let number (sign : Int) (s : Text) : Except Fault (Option Int) :=
    if s.takeWhile Char.isDigit = [] then .ok none else some <$> int (sign * leading s)
  match t.dropWhile isspace with
  | '-' :: s => number (-1) s
  | '+' :: s => number 1 s
  | s => number 1 s

/-- `_papi_hwi_derived` -/
def papiHwiDerived : List (DerivedType × String) :=
  [(.notDerived, "NOT_DERIVED"), (.derivedAdd, "DERIVED_ADD"), (.derivedPs, "DERIVED_PS"),
    (.derivedAddPs, "DERIVED_ADD_PS"), (.derivedCmpd, "DERIVED_CMPD"),
    (.derivedSub, "DERIVED_SUB"), (.derivedPostfix, "DERIVED_POSTFIX"),
    (.derivedInfix, "DERIVED_INFIX")]

/-- `_papi_hwi_derived_type`, `none` for `PAPI_EINVAL` -/
def papiHwiDerivedType (tmp : Text) : Option DerivedType :=
  (papiHwiDerived.find? (isWord tmp ·.2)).map (·.1)

/-! ## One definition -/

/-- `find_event_index`, `none` for `PAPI_EINVAL` -/
def findEventIndex (tmp : String) : List Preset → Option Nat
  | [] => none
  | event :: array =>
    match event.symbol with
    | none => some 0
    | some symbol =>
      if strcasecmp tmp symbol then some 0 else (· + 1) <$> findEventIndex tmp array

/-- The entry that `find_event_index` finds: it gets the name if it is free. -/
def Preset.named (tmp : String) (p : Preset) : Preset :=
  { p with symbol := some (p.symbol.getD tmp) }

/-- A field that is a term, and not the start of the descriptions. -/
def isTerm (t : Text) : Bool :=
  t ≠ [] && !isWord t "NOTE" && !isWord t "LDESC" && !isWord t "SDESC"

/-- An infix formula is converted. -/
def readOps (derived : DerivedType) (t : Text) : Except Fault Text :=
  if derived = .derivedInfix then infixToPostfix t else .ok t

section
variable (N : Natives) (T : Preset → Tables)

/-- The loop over the terms and what follows it: the event, and whether it is valid. -/
def readTerms (results : Preset) (terms : List Text) : Except Fault (Preset × Bool) := do
  let (results, i, invalid) ← addTerms N T ((terms.takeWhile isTerm).map String.ofList) 0
    { results with code := [], name := [] }
  -- `PAPI_NULL` behind the native events
  if i < eventsInDerivedEvent ∧ maxInfoTerms ≤ results.count then .error .write
  else .ok (results, !invalid && i ≠ 0)

/-- What is behind the name in a definition: the event, and whether it is valid. -/
def readDefinition (results : Preset) : List Text → Except Fault (Preset × Bool)
  | [] => .ok (results, false)
  | type :: terms =>
    match papiHwiDerivedType type with
    | none => .ok (results, false)
    | some derived =>
      if derived = .derivedPostfix ∨ derived = .derivedInfix then
        match terms with
        | [] => .ok ({ results with derivedInt := derived }, false)
        | t :: terms =>
          if t = [] then .ok ({ results with derivedInt := derived }, false)
          else do
            let ops ← readOps derived t
            let results := { results with derivedInt := .derivedPostfix, postfixOps := some ops }
            readTerms N T results terms
      else readTerms N T { results with derivedInt := derived } terms

end

/-! ## The lines -/

/-- What a load is for. -/
structure Target where
  natives : Natives
  /-- `pmu_name`, `pmu_type` -/
  pmuName : Text
  pmuType : Int
  /-- The tables, by what the load has made of its array and of its count. -/
  tables : List Preset → Nat → Tables

/-- A load so far. -/
structure Loading where
  results : List Preset
  eventCount : Nat
  getEvents : Bool
  foundEvents : Bool

/-- `pmu_str` without its commas, in the array `pmu_name` -/
def pmuName (pmuStr : Text) : Except Fault Text :=
  let name := pmuStr.filter (· ≠ ',')
  if name.length < minStrLen then .ok name else .error .write

/-- The load of the preset events, beside the user defined events. -/
def presetTarget (N : Natives) (name : Text) (pmuType : Int) (userDefined : List Preset) :
    Target where
  natives := N
  pmuName := name
  pmuType := pmuType
  tables results _ := ⟨results, userDefined⟩

/-- The load of the user defined events, beside the preset events. -/
def userTarget (N : Natives) (name : Text) (pmuType : Int) (presets : List Preset) : Target where
  natives := N
  pmuName := name
  pmuType := pmuType
  tables results count := ⟨presets, results.take count⟩

section
variable (X : Target)

/-- A line of the kind `PRESET` or `EVENT`. -/
def defineEvent (s : Loading) : List Text → Except Fault Loading
  | [] => .ok s
  | t :: fields =>
    if t = [] then .ok s
    else
      match findEventIndex (String.ofList t) s.results with
      | none => .ok s
      | some i => do
        let entry ← cell s.results i
        let tables results := X.tables (s.results.set i results) s.eventCount
        let (event, valid) ←
          readDefinition X.natives tables (entry.named (String.ofList t)) fields
        if valid then
          return { s with results := s.results.set i event, eventCount := s.eventCount + 1 }
        else return { s with results := s.results.set i { event with symbol := none } }

/-- Whether a line of the kind `CPU` names the PMU. -/
def matchesPmu : List Text → Except Fault Bool
  | [] => .ok false
  | t :: fields =>
    if t ≠ [] ∧ strcasecmp (String.ofList t) (String.ofList X.pmuName) then
      match fields with
      | [] => .ok true
      | type :: _ => if type = [] then .ok true else (· = some X.pmuType) <$> sscanfInt type
    else .ok false

/-- A line of the kind `CPU`. -/
def selectPmu (s : Loading) (fields : List Text) : Except Fault Loading := do
  let s :=
    if s.getEvents && s.foundEvents then { s with getEvents := false, foundEvents := false } else s
  let found ← matchesPmu X fields
  return { s with getEvents := s.getEvents || found }

/-- A pass of the loop over the lines. -/
def loadLine (s : Loading) (line : Text) : Except Fault Loading :=
  match fields line with
  | [] => .ok s
  | t :: fields =>
    if t = [] ∨ t.head? = some '#' then .ok s
    else if isWord t "CPU" then selectPmu X s fields
    else if isWord t "PRESET" || isWord t "EVENT" then
      if s.getEvents then defineEvent X { s with foundEvents := true } fields else .ok s
    else .ok s

/-- `papi_load_derived_events` -/
def papiLoadDerivedEvents (results : List Preset) (eventCount : Nat) (lines : List Text) :
    Except Fault Loading :=
  lines.foldlM (loadLine X) ⟨results, eventCount, false, false⟩

end

end PbdPapi.Derived
