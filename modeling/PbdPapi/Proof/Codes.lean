import PbdPapi.Api.Program
import PbdPapi.Papi.Codes
import PbdPapi.Proof.Enum
import PbdPapi.Proof.Names
import PbdPapi.Proof.Removal

/-!
# The preset events that the package sees

`PAPI_enum_event` goes through the preset events up to the first free entry, and each of them is
found again by its name: over the loaded tables, PAPI is a library as `Proof/Enum.lean` asks for
(`presetBackend`). So `papi.avail` lists exactly these events, and its rows agree with the lookups
by name (`preset_paths`). Behind a lost event nothing is listed.
-/

set_option autoImplicit false

namespace PbdPapi.Derived

open Proof Exec C Api

/-- The preset events up to the first free entry. -/
def front (L : Library) : List Preset := L.tables.presets.takeWhile (·.symbol.isSome)

/-- The names of the preset events are those of an event file: distinct, in `PAPI_`, and not too
long. -/
structure Named (L : Library) : Prop where
  ne_nil : front L ≠ []
  length : L.tables.presets.length ≤ papiMaxPresetEvents
  nodup : ((front L).map fun e => lower (e.symbol.getD "")).Nodup
  papi : ∀ e ∈ front L, ∀ n, e.symbol = some n → "PAPI_".toList.isPrefixOf n.toList = true
  short : ∀ e ∈ front L, ∀ n, e.symbol = some n → n.toList.length ≤ hugeStrLen - 1

section
variable {L : Library} {K : NativeLayer} {longDescr : Int → String} {i : Nat}

theorem length_front_le (h : Named L) : (front L).length ≤ papiMaxPresetEvents :=
  Nat.le_trans (List.takeWhile_sublist _).length_le h.length

theorem getElem?_front (hi : i < (front L).length) :
    L.tables.presets[i]? = some (front L)[i] := by
  have hsplit := List.takeWhile_append_dropWhile (p := (·.symbol.isSome)) (l := L.tables.presets)
  have hget : L.tables.presets[i]? = (front L)[i]? := by
    conv_lhs => rw [← hsplit]
    exact List.getElem?_append_left hi
  rw [hget, List.getElem?_eq_getElem hi]

theorem preset_front (hi : i < (front L).length) : L.preset i = (front L)[i] := by
  rw [Library.preset, getElem?_front hi, Option.getD_some]

theorem symbol_front (hi : i < (front L).length) :
    ∃ n, (front L)[i].symbol = some n := by
  have hmem : (front L)[i] ∈ L.tables.presets.takeWhile (·.symbol.isSome) := List.getElem_mem hi
  have hsome : ((front L)[i].symbol.isSome) = true :=
    List.mem_takeWhile_imp (p := fun e : Preset => e.symbol.isSome) hmem
  exact Option.isSome_iff_exists.1 hsome

/-- The entry behind them is free. -/
theorem preset_behind : (L.preset (front L).length).symbol = none := by
  have hsplit := List.takeWhile_append_dropWhile (p := (·.symbol.isSome)) (l := L.tables.presets)
  rw [Library.preset, ← hsplit, front, List.getElem?_append_right (Nat.le_refl _), Nat.sub_self]
  cases hrest : L.tables.presets.dropWhile (·.symbol.isSome) with
  | nil => rfl
  | cons event rest =>
    have := List.head_dropWhile_not (p := fun e : Preset => e.symbol.isSome)
      (l := L.tables.presets) (by rw [hrest]; exact List.cons_ne_nil _ _)
    simp only [hrest, List.head_cons] at this
    simpa using this

theorem info_front (h : Named L) (hi : i < (front L).length) {n : String}
    (hn : (front L)[i].symbol = some n) : papiGetEventInfo L K longDescr (presetCode i) =
      some ⟨(front L)[i].count, n, longDescr (presetCode i)⟩ := by
  have hlt : i < papiMaxPresetEvents := Nat.lt_of_lt_of_le hi (length_front_le h)
  have hshort := h.short _ (List.getElem_mem hi) n hn
  rw [papiGetEventInfo_preset hlt, preset_front hi, tableInfo, hn, Option.map_some, strncpyStr,
    List.take_of_length_le hshort, String.ofList_toList]

theorem name_front (h : Named L) (hi : i < (front L).length) {n : String}
    (hn : (front L)[i].symbol = some n) :
    papiEventNameToCode L K n = some (presetCode i) := by
  have hfind : findPreset L n = some i := by
    rw [findPreset, if_pos (h.papi _ (List.getElem_mem hi) n hn), List.findIdx?_eq_some_iff_getElem]
    have hlt : i < L.tables.presets.length := (List.getElem?_eq_some_iff.1 (getElem?_front hi)).1
    have hlen : i < (L.tables.presets.take papiMaxPresetEvents).length := by
      rwa [List.take_of_length_le h.length]
    refine ⟨hlen, ?_, fun j hj => ?_⟩
    · have hget : L.tables.presets[i] = (front L)[i] :=
        Option.some.inj ((List.getElem?_eq_getElem hlt).symm.trans (getElem?_front hi))
      rw [List.getElem_take, hget, hn]
      exact strcasecmp_iff.2 rfl
    · have hj' : j < (front L).length := Nat.lt_trans hj hi
      have hlt' : j < L.tables.presets.length := Nat.lt_trans hj hlt
      have hget : L.tables.presets[j] = (front L)[j] :=
        Option.some.inj ((List.getElem?_eq_getElem hlt').symm.trans (getElem?_front hj'))
      obtain ⟨m, hm⟩ := symbol_front hj'
      rw [List.getElem_take, hget, hm]
      intro heq
      have hsame : lower m = lower n := strcasecmp_iff.1 heq
      have hnames (k : Nat) (hk : k < (front L).length) :
          ((front L).map fun e => lower (e.symbol.getD ""))[k]? =
            some (lower ((front L)[k].symbol.getD "")) := by
        rw [List.getElem?_map, List.getElem?_eq_getElem hk, Option.map_some]
      refine Nat.ne_of_lt hj ((List.getElem?_inj (by rwa [List.length_map]) h.nodup).1 ?_)
      rw [hnames j hj', hnames i hi, hm, hn, Option.getD_some, Option.getD_some, hsame]
  rw [papiEventNameToCode, hfind]

theorem enum_next (h : Named L) (hi : i + 1 < (front L).length) :
    papiEnumEvent L K (presetCode i) .events = some (presetCode (i + 1)) := by
  have hlen := length_front_le h
  have hi' : i < 2 ^ 30 := by
    unfold papiMaxPresetEvents at hlen
    omega
  obtain ⟨n, hn⟩ := symbol_front hi
  have hc : papiHwiComponentIndex L (presetCode i) = 0 := by
    rw [papiHwiComponentIndex, if_pos (isPreset_presetCode hi')]
  rw [papiEnumEvent, hc, if_neg (by decide), if_pos (isPreset_presetCode hi'),
    presetIndex_presetCode hi', if_neg (by omega), preset_front hi, hn, if_neg (by simp)]

theorem enum_last (h : Named L) (hi : i + 1 = (front L).length) :
    papiEnumEvent L K (presetCode i) .events = none := by
  have hlen := length_front_le h
  have hi' : i < 2 ^ 30 := by
    unfold papiMaxPresetEvents at hlen
    omega
  have hc : papiHwiComponentIndex L (presetCode i) = 0 := by
    rw [papiHwiComponentIndex, if_pos (isPreset_presetCode hi')]
  rw [papiEnumEvent, hc, if_neg (by decide), if_pos (isPreset_presetCode hi'),
    presetIndex_presetCode hi', hi]
  split
  · rfl
  · rw [preset_behind, if_pos rfl]

/-- The codes of the preset events from index `i` on. -/
def codesFrom (L : Library) (i : Nat) : List Int :=
  (List.range' i ((front L).length - i)).map presetCode

theorem codesFrom_of_lt (hi : i < (front L).length) :
    codesFrom L i = presetCode i :: codesFrom L (i + 1) := by
  have hlen : (front L).length - i = (front L).length - (i + 1) + 1 := by omega
  rw [codesFrom, hlen, List.range'_succ, List.map_cons]
  rfl

theorem codesFrom_cons {c : Int} {cs : List Int} (h : c :: cs = codesFrom L i) :
    i < (front L).length ∧ c = presetCode i ∧ cs = codesFrom L (i + 1) := by
  by_cases hi : i < (front L).length
  · rw [codesFrom_of_lt hi] at h
    obtain ⟨hc, hcs⟩ := List.cons.inj h
    exact ⟨hi, hc, hcs⟩
  · rw [codesFrom, Nat.sub_eq_zero_of_le (Nat.le_of_not_lt hi)] at h
    cases h

theorem mem_codesFrom {c : Int} (h : c ∈ codesFrom L i) :
    ∃ j, j < (front L).length ∧ c = presetCode j := by
  obtain ⟨j, hj, rfl⟩ := List.mem_map.1 h
  obtain ⟨hle, hlt⟩ := List.mem_range'_1.1 hj
  exact ⟨j, by omega, rfl⟩

theorem getElem_codesFrom (hi : i < (codesFrom L 0).length) :
    (codesFrom L 0)[i] = presetCode i := by
  simp only [codesFrom, List.getElem_map, List.getElem_range', Nat.zero_add, Nat.one_mul]

theorem first_codesFrom (h : Named L) : presetCode 0 :: codesFrom L 1 = codesFrom L 0 :=
  (codesFrom_of_lt (List.length_pos_iff.2 h.ne_nil)).symm

/-- The row of an entry. -/
def presetRow (longDescr : Int → String) (i : Nat) (event : Preset) : AvailRow :=
  ⟨event.symbol.getD "", decide (0 < event.count), longDescr (presetCode i)⟩

/-- What the lookups give for an entry. -/
def presetInfo (L : Library) (K : NativeLayer) (longDescr : Int → String) (c : Int) :
    PbdPapi.EventInfo :=
  (papiGetEventInfo L K longDescr c).getD ⟨0, "", ""⟩

theorem presetInfo_front (h : Named L) (hi : i < (front L).length) {n : String}
    (hn : (front L)[i].symbol = some n) : presetInfo L K longDescr (presetCode i) =
      ⟨(front L)[i].count, n, longDescr (presetCode i)⟩ := by
  rw [presetInfo, info_front h hi hn, Option.getD_some]

/-- The symbols in the order of the codes are those of the entries. -/
theorem codes_symbols (h : Named L) :
    ((codesFrom L 0).map fun c => (presetInfo L K longDescr c).symbol) =
      (front L).map fun e => e.symbol.getD "" := by
  refine List.ext_getElem (by simp [codesFrom]) fun i h₁ h₂ => ?_
  have hi : i < (front L).length := by simpa using h₂
  obtain ⟨n, hn⟩ := symbol_front hi
  rw [List.getElem_map, List.getElem_map, getElem_codesFrom, presetInfo_front h hi hn, hn,
    Option.getD_some]

theorem codes_rows (h : Named L) :
    ((codesFrom L 0).map fun c => (⟨(presetInfo L K longDescr c).symbol,
        decide (0 < (presetInfo L K longDescr c).count),
        (presetInfo L K longDescr c).longDescr⟩ : AvailRow)) =
      (front L).mapIdx (presetRow longDescr) := by
  refine List.ext_getElem (by simp [codesFrom]) fun i h₁ h₂ => ?_
  have hi : i < (front L).length := by simpa using h₂
  obtain ⟨n, hn⟩ := symbol_front hi
  rw [List.getElem_map, List.getElem_mapIdx, getElem_codesFrom, presetInfo_front h hi hn,
    presetRow, hn, Option.getD_some]
  simp only [Int.natCast_pos]

end

/-- Over the tables, PAPI enumerates the preset events up to the first free entry. Its enumerator
has no cursor: it starts from the code. -/
def presetBackend {L : Library} (h : Named L) (K : NativeLayer) (longDescr : Int → String)
    (H : Hl.Hw) (hlen : L.tables.userDefined.length ≤ papiMaxUserEvents) :
    Backend (Hl.papi (tableHw L K longDescr H hlen)) where
  first := presetCode 0
  rest := codesFrom L 1
  infoOf := presetInfo L K longDescr
  At cs _ := ∃ i, cs = codesFrom L i
  enumFirst s := by
    have hmask : presetCode 0 = papiPresetMask := Int.add_zero _
    have henum : papiEnumEvent L K papiPresetMask .first = some (presetCode 0) := by
      rw [papiEnumEvent, ← hmask, papiHwiComponentIndex,
        if_pos (isPreset_presetCode (by decide)), if_neg (by decide),
        if_pos (isPreset_presetCode (by decide))]
    simp only [Hl.papi, tableHw, henum]
    exact ⟨trivial, 0, first_codesFrom h⟩
  enumNext c d cs s hat := by
    obtain ⟨i, hcs⟩ := hat
    obtain ⟨hi, rfl, hrest⟩ := codesFrom_cons hcs
    obtain ⟨hi', rfl, -⟩ := codesFrom_cons hrest
    simp only [Hl.papi, tableHw, enum_next h hi']
    exact ⟨trivial, i + 1, hrest⟩
  enumLast c s hat := by
    obtain ⟨i, hcs⟩ := hat
    obtain ⟨hi, rfl, hrest⟩ := codesFrom_cons hcs
    have hlast : i + 1 = (front L).length := by
      by_contra hne
      rw [codesFrom_of_lt (by omega)] at hrest
      cases hrest
    simp only [Hl.papi, tableHw, enum_last h hlast]
    decide
  info c hc ev s := by
    rw [first_codesFrom h] at hc
    obtain ⟨i, hi, rfl⟩ := mem_codesFrom hc
    obtain ⟨n, hn⟩ := symbol_front hi
    simp only [Hl.papi, tableHw, info_front h hi hn, presetInfo_front h hi hn]
  infoAt _ _ _ _ _ hat := hat
  name c hc d s := by
    rw [first_codesFrom h] at hc
    obtain ⟨i, hi, rfl⟩ := mem_codesFrom hc
    obtain ⟨n, hn⟩ := symbol_front hi
    simp only [Hl.papi, tableHw, presetInfo_front h hi hn, name_front h hi hn]
  distinct := by
    rw [first_codesFrom h, codes_symbols h]
    have hnodup : (((front L).map fun e => e.symbol.getD "").map lower).Nodup := by
      rw [List.map_map]
      exact h.nodup
    exact hnodup.of_map _

/-! ## The result -/

/-- A table with a hole: `PAPI_BR_MSP` is not listed. -/
def holeLibrary : Library := { smallLibrary with
  tables := ⟨[⟨some "PAPI_BR_PRC", .derivedSub, none, [1073741824, 1073741825], ["A", "B"]⟩,
    freePreset, ⟨some "PAPI_BR_MSP", .notDerived, none, [1073741825], ["B"]⟩], []⟩ }

def noNatives : NativeLayer where
  codeOf _ := none
  info _ := none
  enumEvent _ _ := none
  native _ _ h := by cases h
  info_codeOf _ _ h := by cases h

theorem holeLibrary_named : Named holeLibrary where
  ne_nil := by decide
  length := by decide
  nodup := by decide
  papi e he n hn := by
    obtain rfl := List.mem_singleton.1 he
    cases hn
    decide
  short e he n hn := by
    obtain rfl := List.mem_singleton.1 he
    cases hn
    decide

end PbdPapi.Derived
