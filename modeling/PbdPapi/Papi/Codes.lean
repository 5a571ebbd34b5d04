import PbdPapi.Papi.EventSet
import PbdPapi.Papi.HighLevel

/-!
# Names and codes of events

`PAPI_event_name_to_code`, `PAPI_get_event_info` and `PAPI_enum_event` (`papi.c`) over the tables of
preset events and of user defined events, as the layer below the high level interface (`tableHw`).
Native events are left to the components; the descriptions of the entries are an argument.
-/

set_option autoImplicit false

namespace PbdPapi.Derived

/-- `PAPI_MAX_USER_EVENTS` -/
def papiMaxUserEvents : Nat := 50

/-- `i | PAPI_PRESET_MASK`, `i | PAPI_UE_MASK` -/
def presetCode (i : Nat) : Int := papiPresetMask + i
def ueCode (i : Nat) : Int := papiPresetMask + 2 ^ 30 + i

/-- `strncpy(dst, s, n)` into an array of `n + 1` zeros -/
def strncpyStr (n : Nat) (s : String) : String := String.ofList (s.toList.take n)

/-- What the components know of native events. -/
structure NativeLayer where
  codeOf : String → Option Int
  info : Int → Option PbdPapi.EventInfo
  enumEvent : Int → EnumMod → Option Int
  native : ∀ name code, codeOf name = some code → isNative code = true
  info_codeOf : ∀ name code, codeOf name = some code → (info code).isSome

section
variable (L : Library) (K : NativeLayer) (longDescr : Int → String)

/-- The loop over the user defined events. -/
def findUserEvent (name : String) : List Preset → Option Nat
  | [] => none
  | event :: events =>
    match event.symbol with
    | none => none
    | some symbol =>
      if event.count = 0 then none
      else if strcasecmp symbol name then some 0
      else (· + 1) <$> findUserEvent name events

/-- The loop over the preset events, for a name that starts with `PAPI_`. -/
def findPreset (name : String) : Option Nat :=
  if "PAPI_".toList.isPrefixOf name.toList then
    (L.tables.presets.take papiMaxPresetEvents).findIdx? (·.symbol.any (strcasecmp · name))
  else none

/-- `PAPI_event_name_to_code` -/
def papiEventNameToCode (name : String) : Option Int :=
  match findPreset L name with
  | some i => some (presetCode i)
  | none =>
    match findUserEvent name L.tables.userDefined with
    | some i => some (ueCode i)
    | none => K.codeOf name

/-- `_papi_hwi_get_preset_event_info`, `_papi_hwi_get_user_event_info` -/
def tableInfo (event : Preset) (code : Int) : Option PbdPapi.EventInfo :=
  event.symbol.map fun symbol => ⟨event.count, strncpyStr (hugeStrLen - 1) symbol, longDescr code⟩

/-- `PAPI_get_event_info` -/
def papiGetEventInfo (code : Int) : Option PbdPapi.EventInfo :=
  if isPreset code then
    if papiMaxPresetEvents ≤ presetIndex code then none
    else tableInfo longDescr (L.preset (presetIndex code)) code
  else if isNative code then K.info code
  else if isUserDefined code then
    if papiMaxUserEvents ≤ ueIndex code then none
    else tableInfo longDescr (L.userDefined (ueIndex code)) code
  else none

/-- `PAPI_enum_event` -/
def papiEnumEvent (code : Int) (modifier : EnumMod) : Option Int :=
  if papiHwiComponentIndex L code < 0 then none
  else if isPreset code then
    match modifier with
    | .first => some (presetCode 0)
    | .events =>
      if papiMaxPresetEvents ≤ presetIndex code + 1 then none
      else if (L.preset (presetIndex code + 1)).symbol = none then none
      else some (presetCode (presetIndex code + 1))
  else if isNative code then K.enumEvent code modifier
  else if isUserDefined code then
    if L.tables.userDefined.length = 0 then none
    else
      match modifier with
      | .first => some (ueCode 0)
      | .events =>
        if L.tables.userDefined.length ≤ ueIndex code + 1 then none
        else if (L.userDefined (ueIndex code + 1)).symbol = none then none
        else if (L.userDefined (ueIndex code + 1)).count = 0 then none
        else some (ueCode (ueIndex code + 1))
  else none

end

/-! ## Codes of entries -/

theorem presetCode_emod {i : Nat} (hi : i < 2 ^ 30) : presetCode i % 2 ^ 32 = 2 ^ 31 + i ∧
    presetCode i % 2 ^ 31 = i := by
  unfold presetCode papiPresetMask
  omega

theorem isPreset_presetCode {i : Nat} (hi : i < 2 ^ 30) : isPreset (presetCode i) = true := by
  obtain ⟨h₁, h₂⟩ := presetCode_emod hi
  have hp : presetBit (presetCode i) = true := by
    rw [presetBit, h₁]
    exact decide_eq_true (by omega)
  have hn : nativeBit (presetCode i) = false := by
    rw [nativeBit, h₂]
    exact decide_eq_false (by omega)
  rw [isPreset, hp, hn]
  rfl

theorem presetIndex_presetCode {i : Nat} (hi : i < 2 ^ 30) : presetIndex (presetCode i) = i := by
  rw [presetIndex, (presetCode_emod hi).2, Int.toNat_natCast]

theorem ueCode_emod {i : Nat} (hi : i < 2 ^ 30) : ueCode i % 2 ^ 32 = 2 ^ 31 + 2 ^ 30 + i ∧
    ueCode i % 2 ^ 31 = 2 ^ 30 + i ∧ ueCode i % 2 ^ 30 = i := by
  unfold ueCode papiPresetMask
  omega

theorem isUserDefined_ueCode {i : Nat} (hi : i < 2 ^ 30) : isUserDefined (ueCode i) = true := by
  obtain ⟨h₁, h₂, -⟩ := ueCode_emod hi
  have hp : presetBit (ueCode i) = true := by
    rw [presetBit, h₁]
    exact decide_eq_true (by omega)
  have hn : nativeBit (ueCode i) = true := by
    rw [nativeBit, h₂]
    exact decide_eq_true (by omega)
  rw [isUserDefined, hp, hn]
  rfl

theorem ueIndex_ueCode {i : Nat} (hi : i < 2 ^ 30) : ueIndex (ueCode i) = i := by
  rw [ueIndex, (ueCode_emod hi).2.2, Int.toNat_natCast]

/-! ## The tables as the layer below -/

section
variable {L : Library} {K : NativeLayer} {longDescr : Int → String} {name : String} {i : Nat}

theorem findPreset_symbol (h : findPreset L name = some i) :
    i < papiMaxPresetEvents ∧ (L.preset i).symbol.isSome = true := by
  rw [findPreset] at h
  split at h
  · obtain ⟨hlt, hsymbol, -⟩ := List.findIdx?_eq_some_iff_getElem.1 h
    rw [List.length_take] at hlt
    rw [List.getElem_take] at hsymbol
    refine ⟨by omega, ?_⟩
    rw [Library.preset, List.getElem?_eq_getElem (by omega), Option.getD_some]
    exact Option.isSome_of_any hsymbol
  · cases h

theorem findUserEvent_symbol {events : List Preset} (h : findUserEvent name events = some i) :
    i < events.length ∧ (events[i]?.getD freePreset).symbol.isSome = true := by
  induction events generalizing i with
  | nil => cases h
  | cons event events ih =>
    rw [findUserEvent] at h
    split at h
    · cases h
    · next symbol hsymbol =>
      split at h
      · cases h
      split at h
      · cases h
        exact ⟨Nat.succ_pos _, by rw [List.getElem?_cons_zero, Option.getD_some, hsymbol]; rfl⟩
      · obtain ⟨j, hj, rfl⟩ := Option.map_eq_some_iff.1 h
        obtain ⟨hlt, hsome⟩ := ih hj
        exact ⟨Nat.succ_lt_succ hlt, hsome⟩

theorem papiGetEventInfo_preset (hi : i < papiMaxPresetEvents) :
    papiGetEventInfo L K longDescr (presetCode i) =
      tableInfo longDescr (L.preset i) (presetCode i) := by
  have hi' : i < 2 ^ 30 := Nat.lt_trans hi (by decide)
  rw [papiGetEventInfo, if_pos (isPreset_presetCode hi'), presetIndex_presetCode hi',
    if_neg (Nat.not_le.2 hi)]

theorem papiGetEventInfo_user (hi : i < papiMaxUserEvents) :
    papiGetEventInfo L K longDescr (ueCode i) =
      tableInfo longDescr (L.userDefined i) (ueCode i) := by
  have hi' : i < 2 ^ 30 := Nat.lt_trans hi (by decide)
  have huser := isUserDefined_ueCode hi'
  obtain ⟨hp, hn⟩ := (Bool.and_eq_true _ _).mp huser
  have hpreset : isPreset (ueCode i) = false := by rw [isPreset, hp, hn]; rfl
  have hnative : isNative (ueCode i) = false := by rw [isNative, hp, hn]; rfl
  rw [papiGetEventInfo, hpreset, hnative, huser, ueIndex_ueCode hi']
  simp only [Bool.false_eq_true, if_false, if_true]
  rw [if_neg (Nat.not_le.2 hi)]

theorem tableInfo_isSome {event : Preset} {code : Int} (h : event.symbol.isSome = true) :
    (tableInfo longDescr event code).isSome = true := by
  rw [tableInfo, Option.isSome_map, h]

/-- A code that a name has, has an info. -/
theorem papiGetEventInfo_isSome (hlen : L.tables.userDefined.length ≤ papiMaxUserEvents)
    {code : Int} (h : papiEventNameToCode L K name = some code) :
    (papiGetEventInfo L K longDescr code).isSome = true := by
  rw [papiEventNameToCode] at h
  split at h
  · next i hi =>
    cases h
    obtain ⟨hlt, hsome⟩ := findPreset_symbol hi
    rw [papiGetEventInfo_preset hlt]
    exact tableInfo_isSome hsome
  · split at h
    · next i hi =>
      cases h
      obtain ⟨hlt, hsome⟩ := findUserEvent_symbol hi
      rw [papiGetEventInfo_user (Nat.lt_of_lt_of_le hlt hlen)]
      exact tableInfo_isSome hsome
    · have hnative := K.native name code h
      have hpreset : isPreset code = false := by
        rw [isNative, Bool.and_eq_true] at hnative
        rw [isPreset, hnative.1]
        exact Bool.and_false _
      rw [papiGetEventInfo, hpreset, hnative]
      exact K.info_codeOf name code h

end

/-- The layers below the high level interface, with the events of the tables. -/
def tableHw (L : Library) (K : NativeLayer) (longDescr : Int → String) (H : Hl.Hw)
    (hlen : L.tables.userDefined.length ≤ papiMaxUserEvents) : Hl.Hw :=
  { H with
    codeOf := papiEventNameToCode L K
    info := papiGetEventInfo L K longDescr
    info_codeOf := fun _ _ => papiGetEventInfo_isSome hlen
    enumEvent := papiEnumEvent L K }

end PbdPapi.Derived
