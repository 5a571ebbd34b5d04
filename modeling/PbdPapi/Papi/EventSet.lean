import PbdPapi.Lib.Keyed
import PbdPapi.Papi.Interface
import PbdPapi.Papi.Preset

/-!
# Event sets

The functions of `papi_internal.c` that add an event to an event set, remove one, and read the
counters: `_papi_hwi_add_event`, `_papi_hwi_remove_event`, `_papi_hwi_read` and what they call. An
event set keeps the events that were added (`eventInfoArray`) and, once each, the native events that
they are made of (`nativeInfoArray`); the component counts the first `nativeCount` of these.

The component is `perf_event`, which places the native events in their order
(`_pe_update_control_state`); whether the kernel opens them is an argument of each call. Overflow
and multiplexing are off.
-/

set_option autoImplicit false

namespace PbdPapi.Derived

open Keyed

def papiEnocmp : Int := -17
def papiEcount : Int := -23

/-- `PAPI_MAX_PRESET_EVENTS` -/
def papiMaxPresetEvents : Nat := 128

/-! ## Event codes -/

/-- `EventCode & PAPI_PRESET_MASK` -/
def presetBit (eventCode : Int) : Bool := 2 ^ 31 ≤ eventCode % 2 ^ 32

/-- `EventCode & PAPI_NATIVE_MASK` -/
def nativeBit (eventCode : Int) : Bool := 2 ^ 30 ≤ eventCode % 2 ^ 31

/-- `IS_PRESET`, `IS_NATIVE`, `IS_USER_DEFINED` -/
def isPreset (eventCode : Int) : Bool := presetBit eventCode && !nativeBit eventCode
def isNative (eventCode : Int) : Bool := nativeBit eventCode && !presetBit eventCode
def isUserDefined (eventCode : Int) : Bool := presetBit eventCode && nativeBit eventCode

/-- `EventCode & PAPI_PRESET_AND_MASK`, `EventCode & PAPI_UE_AND_MASK`, and the index of a native
event, `EventCode & PAPI_NATIVE_AND_MASK` where bit 31 is clear -/
def presetIndex (eventCode : Int) : Nat := (eventCode % 2 ^ 31).toNat
def ueIndex (eventCode : Int) : Nat := (eventCode % 2 ^ 30).toNat
def nativeIndex (eventCode : Int) : Nat := (eventCode % 2 ^ 30).toNat

/-- An entry of `_papi_native_events`. -/
structure NativeEvent where
  cidx : Int
  componentEvent : Int
deriving DecidableEq, Repr

/-- What PAPI knows once it is initialized. -/
structure Library where
  tables : Tables
  nativeEvents : List NativeEvent
  /-- `papi_num_components` -/
  numComponents : Nat
  /-- `cmp_info.num_mpx_cntrs` of each component -/
  numMpxCntrs : Int → Nat
  /-- `ntv_code_to_name` of each component, its return code -/
  ntvCodeToName : Int → Int → Int

section
variable (L : Library)

/-- `_papi_hwi_component_index` -/
def papiHwiComponentIndex (eventCode : Int) : Int :=
  if isPreset eventCode then 0
  else if isUserDefined eventCode then 0
  else
    match L.nativeEvents[nativeIndex eventCode]? with
    | none => papiEnoevnt
    | some event =>
      if event.cidx < 0 ∨ L.numComponents ≤ event.cidx then papiEnocmp else event.cidx

/-- `_papi_hwi_eventcode_to_native`; with bit 31 the index is negative -/
def papiHwiEventcodeToNative (eventCode : Int) : Int :=
  if presetBit eventCode then papiEnoevnt
  else
    match L.nativeEvents[nativeIndex eventCode]? with
    | none => papiEnoevnt
    | some event => event.componentEvent

/-- `_papi_hwi_query_native_event` -/
def papiHwiQueryNativeEvent (eventCode : Int) : Int :=
  if papiHwiComponentIndex L eventCode < 0 then papiEnocmp
  else if papiHwiEventcodeToNative L eventCode < 0 then papiHwiEventcodeToNative L eventCode
  else L.ntvCodeToName (papiHwiComponentIndex L eventCode) (papiHwiEventcodeToNative L eventCode)

end

/-- `_papi_hwi_presets[i]`, `user_defined_events[i]` -/
def Library.preset (L : Library) (i : Nat) : Preset := L.tables.presets[i]?.getD freePreset
def Library.userDefined (L : Library) (i : Nat) : Preset :=
  L.tables.userDefined[i]?.getD freePreset

/-- `code`, as an array of `PAPI_MAX_INFO_TERMS` cells: behind the native events there is
`PAPI_NULL`, and the cells behind that are still zero. -/
def Preset.cells (p : Preset) : List Int :=
  (p.code ++ papiNull :: List.replicate maxInfoTerms 0).take maxInfoTerms

/-! ## Event sets -/

/-- `NativeInfo_t` -/
structure NativeInfo where
  event : Int
  papiCode : Int
  position : Int
  owners : Int
deriving DecidableEq, Repr

/-- `EventSetInfo_t`; the control state is given by the native events that the component was told
to count last -/
structure EventSetInfo where
  cmpIdx : Int
  numberOfEvents : Nat
  eventInfoArray : List EventInfo
  nativeCount : Nat
  nativeInfoArray : List NativeInfo
  ctlState : List Int
deriving DecidableEq, Repr

def freeEventInfo : EventInfo :=
  ⟨papiNull, List.replicate eventsInDerivedEvent papiNull, none, .notDerived⟩

def freeNativeInfo : NativeInfo := ⟨-1, -1, -1, 0⟩

/-- `_papi_hwi_create_eventset` -/
def papiHwiCreateEventset : EventSetInfo := ⟨-1, 0, [], 0, [], []⟩

/-- `_papi_hwi_assign_eventset` -/
def papiHwiAssignEventset (L : Library) (cidx : Int) : EventSetInfo :=
  ⟨cidx, 0, List.replicate (L.numMpxCntrs cidx) freeEventInfo, 0,
    List.replicate (L.numMpxCntrs cidx) freeNativeInfo, []⟩

/-- `a[i] = x` -/
def writeCell {α : Type} (a : List α) (i : Nat) (x : α) : Except Fault (List α) :=
  if i < a.length then .ok (a.set i x) else .error .write

/-- `get_free_EventCodeIndex`, `none` for `PAPI_ECNFLCT` -/
def getFreeEventCodeIndex (eventCode : Int) : List EventInfo → Option Nat
  | [] => none
  | event :: events =>
    if event.eventCode = eventCode then none
    else if event.eventCode = papiNull then some 0
    else (· + 1) <$> getFreeEventCodeIndex eventCode events

/-- `_papi_hwi_lookup_EventCodeIndex`, `none` for `PAPI_EINVAL` -/
def papiHwiLookupEventCodeIndex (s : EventSetInfo) (eventCode : Int) : Option Nat :=
  s.eventInfoArray.findIdx? (·.eventCode = eventCode)

section
variable (L : Library)

/-- The test of `event_already_in_eventset`. -/
def matchesNative (papiEvent : Int) (n : NativeInfo) : Bool :=
  papiHwiEventcodeToNative L papiEvent = n.event && papiEvent = n.papiCode

/-- `event_already_in_eventset`: the entry, `none` for `PAPI_ENOEVNT` -/
def eventAlreadyInEventset (s : EventSetInfo) (papiEvent : Int) : Option NativeInfo :=
  (s.nativeInfoArray.take s.nativeCount).find? (matchesNative L papiEvent)

/-! ## Positions -/

/-- The loop over the native events of a derived event, that sets the positions of those for which
`same` finds an entry. -/
def mapSubevents (native : List NativeInfo) (same : Int → NativeInfo → Bool) :
    List Int → List Int → List Int
  | nevt :: codes, p :: pos =>
    if nevt = papiNull then p :: pos
    else
      (match native.find? (same nevt) with
        | some n => n.position
        | none => p) :: mapSubevents native same codes pos
  | _, pos => pos

/-- One event of `_papi_hwi_map_events_to_native`, `none` where the function returns. -/
def mapEvent (s : EventSetInfo) (event : EventInfo) : Option EventInfo :=
  let native := s.nativeInfoArray.take s.nativeCount
  if isPreset event.eventCode then
    let pos := mapSubevents native (fun nevt n => nevt = n.papiCode)
      (L.preset (presetIndex event.eventCode)).cells event.pos
    some { event with pos := pos }
  else if isNative event.eventCode then
    (eventAlreadyInEventset L s event.eventCode).map fun n =>
      { event with pos := event.pos.set 0 n.position }
  else if isUserDefined event.eventCode then
    let pos := mapSubevents native (fun nevt n => papiHwiEventcodeToNative L nevt = n.event)
      (L.userDefined (ueIndex event.eventCode)).cells event.pos
    some { event with pos := pos }
  else some event

/-- The loop of `_papi_hwi_map_events_to_native` over `total` events that are there. -/
def mapEvents (s : EventSetInfo) : List EventInfo → Nat → Except Fault (List EventInfo)
  | events, 0 => .ok events
  | [], _ + 1 => .error .read
  | event :: events, total + 1 =>
    if event.eventCode = papiNull then do
      let events ← mapEvents s events (total + 1)
      return event :: events
    else
      match mapEvent L s event with
      | none => .ok (event :: events)
      | some event => do
        let events ← mapEvents s events total
        return event :: events

/-- `_papi_hwi_map_events_to_native` -/
def papiHwiMapEventsToNative (s : EventSetInfo) : Except Fault EventSetInfo := do
  let events ← mapEvents L s s.eventInfoArray s.numberOfEvents
  return { s with eventInfoArray := events }

end

/-- `_pe_update_control_state`: the native events get their positions and are opened again. -/
def updateControlState (openPeEvents : List Int → Int) (s : EventSetInfo) : EventSetInfo × Int :=
  let native := (s.nativeInfoArray.take s.nativeCount).mapIdx fun i n => { n with position := i }
  let codes := native.map (·.papiCode)
  ({ s with
      nativeInfoArray := native ++ s.nativeInfoArray.drop s.nativeCount
      ctlState := codes },
    if s.nativeCount = 0 then papiOK else openPeEvents codes)

/-! ## Adding events -/

section
variable (L : Library)

/-- `add_native_fail_clean`, `none` where it returns a negative number -/
def addNativeFailClean (s : EventSetInfo) (nevt : Int) : Option EventSetInfo :=
  if papiHwiComponentIndex L nevt < 0 then none
  else
    match s.nativeInfoArray.find? (nevt = ·.papiCode) with
    | none => none
    | some n =>
      if n.owners - 1 = 0 then
        some { s with
          nativeInfoArray := modifyFirst (nevt = ·.papiCode) (fun _ => freeNativeInfo)
            s.nativeInfoArray
          nativeCount := s.nativeCount - 1 }
      else
        some { s with
          nativeInfoArray := modifyFirst (nevt = ·.papiCode)
            (fun n => { n with owners := n.owners - 1 }) s.nativeInfoArray }

/-- The loops that take back the native events of `nevt`, with `out->pos` from the index `i` on. -/
def failClean : List Int → Nat → EventSetInfo → List Int → Except Fault (EventSetInfo × List Int)
  | [], _, s, pos => .ok (s, pos)
  | nevt :: codes, i, s, pos =>
    match addNativeFailClean L s nevt with
    | none => failClean codes (i + 1) s pos
    | some s => do
      let pos ← writeCell pos i (-1)
      failClean codes (i + 1) s pos

/-- The loop of `add_native_events` behind the native events `done`: the number of native events
that are new, or `none` if there are no more counters. -/
def addLoop (done : List Int) : List Int → EventSetInfo → List Int → Nat →
    Except Fault (EventSetInfo × List Int × Option Nat)
  | [], s, pos, added => .ok (s, pos, some added)
  | nevt :: codes, s, pos, added =>
    match eventAlreadyInEventset L s nevt with
    | some n => do
      let pos ← writeCell pos done.length n.position
      let native := modifyFirst (matchesNative L nevt)
        (fun n => { n with owners := n.owners + 1 }) (s.nativeInfoArray.take s.nativeCount)
      addLoop (done ++ [nevt]) codes
        { s with nativeInfoArray := native ++ s.nativeInfoArray.drop s.nativeCount } pos added
    | none =>
      if s.nativeCount = L.numMpxCntrs s.cmpIdx then do
        let (s, pos) ← failClean L done 0 s pos
        return (s, pos, none)
      else do
        let n ← cell s.nativeInfoArray s.nativeCount
        let native ← writeCell s.nativeInfoArray s.nativeCount { n with
          event := papiHwiEventcodeToNative L nevt, papiCode := nevt, owners := 1 }
        addLoop (done ++ [nevt]) codes
          { s with nativeInfoArray := native, nativeCount := s.nativeCount + 1 } pos (added + 1)

/-- `add_native_events` -/
def addNativeEvents (openPeEvents : List Int → Int) (s : EventSetInfo) (nevt pos : List Int) :
    Except Fault (EventSetInfo × List Int × Int) := do
  match ← addLoop L [] nevt s pos 0 with
  | (s, pos, none) => return (s, pos, papiEcount)
  | (s, pos, some added) =>
    if added = 0 then return (s, pos, papiOK)
    else
      let (s, retval) := updateControlState openPeEvents s
      if retval = papiOK then return (s, pos, 1)
      else do
        let (s, pos) ← failClean L nevt 0 s pos
        let (s, retval2) := updateControlState openPeEvents s
        return (s, pos, if retval2 ≠ papiOK then retval2 else retval)

/-- What `_papi_hwi_add_event` does in all three cases: the event at `thisindex` gets its native
events and what `fill` gives it. -/
def addEventAt (openPeEvents : List Int → Int) (s : EventSetInfo) (thisindex : Nat)
    (nevt : List Int) (fill : EventInfo → EventInfo) : Except Fault (EventSetInfo × Int) := do
  let event ← cell s.eventInfoArray thisindex
  let (s, pos, remap) ← addNativeEvents L openPeEvents s nevt event.pos
  let event := { event with pos := pos }
  if remap < 0 then
    return ({ s with eventInfoArray := s.eventInfoArray.set thisindex event }, remap)
  else do
    let s ← papiHwiMapEventsToNative L { s with
      eventInfoArray := s.eventInfoArray.set thisindex (fill event)
      numberOfEvents := s.numberOfEvents + 1 }
    return (s, papiOK)

/-- `_papi_hwi_add_event`, in an event set that has its component -/
def addEventOf (openPeEvents : List Int → Int) (s : EventSetInfo) (eventCode : Int) :
    Except Fault (EventSetInfo × Int) :=
  match getFreeEventCodeIndex eventCode s.eventInfoArray with
  | none => .ok (s, papiEcnflct)
  | some thisindex =>
    if isPreset eventCode then
      let preset := L.preset (presetIndex eventCode)
      if papiMaxPresetEvents ≤ presetIndex eventCode then .ok (s, papiEinval)
      else if preset.count = 0 then .ok (s, papiEnoevnt)
      else
        addEventAt L openPeEvents s thisindex preset.code fun event => { event with
          eventCode := eventCode, derived := preset.derivedInt, ops := preset.postfixOps }
    else if isNative eventCode then
      if papiHwiQueryNativeEvent L eventCode ≠ papiOK then .ok (s, papiEnoevnt)
      else
        addEventAt L openPeEvents s thisindex [eventCode] fun event => { event with
          eventCode := eventCode }
    else if isUserDefined eventCode then
      let preset := L.userDefined (ueIndex eventCode)
      if L.tables.userDefined.length ≤ ueIndex eventCode then .ok (s, papiEinval)
      else
        addEventAt L openPeEvents s thisindex preset.code fun event => { event with
          eventCode := eventCode, derived := preset.derivedInt, ops := preset.postfixOps }
    else .ok (s, papiEbug)

/-- `_papi_hwi_add_event` -/
def papiHwiAddEvent (openPeEvents : List Int → Int) (s : EventSetInfo) (eventCode : Int) :
    Except Fault (EventSetInfo × Int) :=
  let cidx := papiHwiComponentIndex L eventCode
  if cidx < 0 then .ok (s, papiEnocmp)
  else if s.cmpIdx < 0 then
    addEventOf L openPeEvents (papiHwiAssignEventset L cidx) eventCode
  else if s.cmpIdx ≠ cidx then .ok (s, papiEinval)
  else addEventOf L openPeEvents s eventCode

end

/-! ## Removing events -/

section
variable (L : Library)

/-- The loop of `remove_native_events` that takes the owners off: the entries, and how many of them
have lost their last one. -/
def releaseNative : List Int → List NativeInfo → Nat → List NativeInfo × Nat
  | [], native, lost => (native, lost)
  | nevt :: codes, native, lost =>
    match native.find? (matchesNative L nevt) with
    | none => releaseNative codes native lost
    | some n =>
      releaseNative codes
        (modifyFirst (matchesNative L nevt) (fun n => { n with owners := n.owners - 1 }) native)
        (if n.owners - 1 = 0 then lost + 1 else lost)

end

/-- The last entry behind `i` that is to stay. -/
def lastOwned (native : List NativeInfo) (i : Nat) : Option (Nat × NativeInfo) :=
  (native.mapIdx fun j n => (j, n)).findRev? fun (j, n) => i < j && n.event ≠ -1 && n.owners ≠ 0

/-- One pass of the loop of `remove_native_events` that fills the holes. -/
def compactAt (native : List NativeInfo) (i : Nat) : List NativeInfo :=
  match native[i]? with
  | none => native
  | some n =>
    if n.event = -1 then native
    else if n.owners = 0 then
      match lastOwned native i with
      | some (j, m) =>
        (native.set i { n with event := m.event, position := m.position, owners := m.owners }).set j
          { m with event := -1, position := -1, owners := 0 }
      | none => native.set i { n with event := -1, position := -1 }
    else native

/-- The loop of `remove_native_events` that fills the holes. -/
def compact (native : List NativeInfo) : List NativeInfo :=
  (List.range native.length).foldl compactAt native

section
variable (L : Library)

/-- `remove_native_events` -/
def removeNativeEvents (openPeEvents : List Int → Int) (s : EventSetInfo) (nevt : List Int) :
    EventSetInfo × Int :=
  let (native, lost) := releaseNative L nevt (s.nativeInfoArray.take s.nativeCount) 0
  let s := { s with
    nativeInfoArray := compact native ++ s.nativeInfoArray.drop s.nativeCount
    nativeCount := s.nativeCount - lost }
  if lost = 0 then (s, papiOK) else updateControlState openPeEvents s

/-- `for ( j = 0; j < PAPI_EVENTS_IN_DERIVED_EVENT && code[j] != 0; j++ )`, from `j` on, where `n`
more native events may come: each pass removes the first `j` native events. -/
def removePrefixes (openPeEvents : List Int → Int) (cells : List Int) :
    Nat → Nat → EventSetInfo → EventSetInfo × Int
  | _, 0, s => (s, papiOK)
  | j, n + 1, s =>
    if cells[j]? = some 0 then (s, papiOK)
    else
      let (s, retval) := removeNativeEvents L openPeEvents s (cells.take j)
      if retval ≠ papiOK then (s, retval) else removePrefixes openPeEvents cells (j + 1) n s

/-- The loops at the end of `_papi_hwi_remove_event`. -/
def removeInfo (s : EventSetInfo) (thisindex : Nat) : EventSetInfo :=
  { s with
    eventInfoArray := (s.eventInfoArray.take s.numberOfEvents).eraseIdx thisindex ++
      freeEventInfo :: s.eventInfoArray.drop s.numberOfEvents
    numberOfEvents := s.numberOfEvents - 1 }

/-- `_papi_hwi_remove_event` -/
def papiHwiRemoveEvent (openPeEvents : List Int → Int) (s : EventSetInfo) (eventCode : Int) :
    EventSetInfo × Int :=
  match papiHwiLookupEventCodeIndex s eventCode with
  | none => (s, papiEinval)
  | some thisindex =>
    if isPreset eventCode then
      let preset := L.preset (presetIndex eventCode)
      if papiMaxPresetEvents ≤ presetIndex eventCode then (s, papiEinval)
      else if preset.count = 0 then (s, papiEnoevnt)
      else
        let (s, retval) := removeNativeEvents L openPeEvents s
          (preset.cells.takeWhile (· ≠ papiNull))
        if retval ≠ papiOK then (s, retval) else (removeInfo s thisindex, papiOK)
    else if isNative eventCode then
      if papiHwiQueryNativeEvent L eventCode ≠ papiOK then (s, papiEnoevnt)
      else
        let (s, retval) := removeNativeEvents L openPeEvents s [eventCode]
        if retval ≠ papiOK then (s, retval) else (removeInfo s thisindex, papiOK)
    else if isUserDefined eventCode then
      if L.tables.userDefined.length ≤ ueIndex eventCode then (s, papiEinval)
      else
        let (s, retval) := removePrefixes L openPeEvents (L.userDefined (ueIndex eventCode)).cells 0
          eventsInDerivedEvent s
        if retval ≠ papiOK then (s, retval) else (removeInfo s thisindex, papiOK)
    else (s, papiEnoevnt)

end

/-! ## Reading the counters -/

section
variable {D : Type} (F : Double D) (cpuMaxMhz : Int) (dp : List Int)

/-- The value of an event, `none` where its place in `values` is left as it is. -/
def readEvent (event : EventInfo) : Except Fault (Option Int) := do
  let index ← cell event.pos 0
  if index = -1 then return none
  else if event.derived = .notDerived then some <$> cell dp index
  else some <$> handleDerived F cpuMaxMhz event dp

/-- The loop of `_papi_hwi_read` over the first events. -/
def readEvents : Nat → List EventInfo → List Int → Except Fault (List Int)
  | 0, _, values => .ok values
  | n + 1, event :: events, value :: values => do
    let x ← readEvent F cpuMaxMhz dp event
    let values ← readEvents n events values
    return x.getD value :: values
  | _ + 1, [], _ => .error .read
  | _ + 1, _ :: _, [] => .error .write

/-- `_papi_hwi_read`, where the component has read the counters `dp` -/
def papiHwiRead (s : EventSetInfo) (values : List Int) : Except Fault (List Int) :=
  readEvents F cpuMaxMhz dp s.numberOfEvents s.eventInfoArray values

end

end PbdPapi.Derived
