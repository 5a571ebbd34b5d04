import PbdPapi.Proof.Avail
import PbdPapi.Proof.Tables
import PbdPapi.Ipcm.Shim

/-!
# The two availability paths

`Backend`: a library whose enumeration visits the same events each time. Its enumerator may keep a
cursor of its own, so the enumeration is a relation on its state, and the two passes of
`papi_event_avail` over it agree for as long as nothing else moves the cursor. `avail_paths`: the
table is exactly the enumerated events, and looking events up in the table by position gives the
flags that looking them up by name gives.
-/

set_option autoImplicit false

namespace PbdPapi.Proof

open Exec C Api

/-- A library that enumerates `first :: rest`, with an info and a name of its own for each code. -/
structure Backend {σ : Type} (P : Papi σ) where
  first : Int
  rest : List Int
  infoOf : Int → EventInfo
  /-- The enumerator stands at the first of the codes, and the others are still to come. -/
  At : List Int → σ → Prop
  enumFirst : ∀ s, (P.enumEvent papiPresetMask .first s).1 = (papiOK, first) ∧
    At (first :: rest) (P.enumEvent papiPresetMask .first s).2
  enumNext : ∀ c d cs s, At (c :: d :: cs) s →
    (P.enumEvent c .events s).1 = (papiOK, d) ∧ At (d :: cs) (P.enumEvent c .events s).2
  enumLast : ∀ c s, At [c] s → (P.enumEvent c .events s).1.1 ≠ papiOK
  info : ∀ c ∈ first :: rest, ∀ ev s, (P.getEventInfo c ev s).1 = (papiOK, infoOf c)
  infoAt : ∀ c ∈ first :: rest, ∀ ev cs s, At cs s → At cs (P.getEventInfo c ev s).2
  name : ∀ c ∈ first :: rest, ∀ d s,
    (P.eventNameToCode (infoOf c).symbol d s).1 = (papiOK, c)
  distinct : ((first :: rest).map fun c => (infoOf c).symbol).Nodup

namespace Backend

variable {σ : Type} {P : Papi σ} (B : Backend P)

/-- The codes, in the order of the enumeration. -/
def codes : List Int := B.first :: B.rest

/-- The row that describes a code. -/
def row (c : Int) : AvailRow :=
  ⟨(B.infoOf c).symbol, decide (0 < (B.infoOf c).count), (B.infoOf c).longDescr⟩

/-- One row for each event. -/
def table : List AvailRow := B.codes.map B.row

theorem distinct_table : (B.table.map (·.event)).Nodup := by
  rw [table, List.map_map]
  exact B.distinct

/-! ## The two passes over the enumeration -/

/-- The counting loop counts the codes to come. -/
theorem countEvents_run {c : Int} {cs : List Int} {w : World σ} (h : B.At (c :: cs) w.lib)
    {fuel : Nat} (hf : cs.length < fuel) :
    ∃ w', (countEvents P fuel c).run w = .ok (some (cs.length + 1)) w' ∧
      w'.locals = w.locals := by
  induction cs generalizing c w fuel with
  | nil =>
    obtain ⟨fuel, rfl⟩ := Nat.exists_eq_succ_of_ne_zero (Nat.ne_zero_of_lt hf)
    simp only [countEvents, EStateM.run_bind, call_run, B.enumLast c w.lib h, if_false]
    exact ⟨_, rfl, rfl⟩
  | cons d cs ih =>
    obtain ⟨fuel, rfl⟩ := Nat.exists_eq_succ_of_ne_zero (Nat.ne_zero_of_lt hf)
    obtain ⟨hnext, hat⟩ := B.enumNext c d cs w.lib h
    have hlen : cs.length < fuel := by simpa using hf
    obtain ⟨w', hr, hl⟩ := ih (w := { w with lib := (P.enumEvent c .events w.lib).2 }) hat hlen
    refine ⟨w', ?_, hl⟩
    simp only [countEvents, EStateM.run_bind, call_run, hnext, if_true, hr]
    rfl

/-- The filling loop writes the row of every code to come, in as many places. -/
theorem fillEvents_run {c : Int} {cs : List Int} {w : World σ} (h : B.At (c :: cs) w.lib)
    (hmem : ∀ d ∈ c :: cs, d ∈ B.codes) (ev : EventInfo) :
    ∃ w', (fillEvents P (cs.length + 1) c ev).run w = .ok ((c :: cs).map B.row) w' := by
  induction cs generalizing c w ev with
  | nil =>
    have hc := hmem c List.mem_cons_self
    have hat := B.infoAt c hc ev _ w.lib h
    have hlast := B.enumLast c _ hat
    simp only [fillEvents, List.length_nil, EStateM.run_bind, call_run, B.info c hc, hlast,
      if_false]
    exact ⟨_, rfl⟩
  | cons d cs ih =>
    have hc := hmem c List.mem_cons_self
    have hat := B.infoAt c hc ev _ w.lib h
    obtain ⟨hnext, hat'⟩ := B.enumNext c d cs _ hat
    obtain ⟨w', hr⟩ := ih
      (w := { w with lib := (P.enumEvent c .events (P.getEventInfo c ev w.lib).2).2 }) hat'
      (fun e he => hmem e (List.mem_cons_of_mem c he)) (B.infoOf c)
    refine ⟨w', ?_⟩
    rw [List.length_cons, fillEvents]
    simp only [EStateM.run_bind, call_run, B.info c hc, hnext, if_true, hr]
    rfl

/-- `papi_event_avail(NULL)` gives the table. -/
theorem papiEventAvail_table {fuel : Nat} (hf : B.codes.length ≤ fuel) (w : World σ) :
    ∃ w', (papiEventAvail P fuel .null).run w = .ok (some (availVec B.table)) w' := by
  obtain ⟨hfirst, hat⟩ := B.enumFirst w.lib
  have hlen : B.rest.length < fuel := hf
  obtain ⟨w₁, hcount, -⟩ := B.countEvents_run
    (w := { w with lib := (P.enumEvent papiPresetMask .first w.lib).2 }) hat hlen
  obtain ⟨hfirst', hat'⟩ := B.enumFirst w₁.lib
  obtain ⟨w₂, hfill⟩ := B.fillEvents_run
    (w := { w₁ with
      lib := (P.enumEvent papiPresetMask .first w₁.lib).2
      prot := w₁.prot ++ [.push] ++ [.push] ++ [.push] ++ [.push]
      fresh := fun k => w₁.fresh (k + (B.rest.length + 1)) })
    hat' (fun d hd => hd) w.locals.ev
  have hwrite (val : List Int) (hv : val.length = B.rest.length + 1) :
      writeRows val ((B.first :: B.rest).map B.row) = B.table := by
    have hdrop : val.drop ((B.first :: B.rest).map B.row).length = [] :=
      List.drop_eq_nil_of_le (by simp [hv])
    rw [writeRows, hdrop, List.map_nil, List.append_nil]
    rfl
  simp only [papiEventAvail, allEvents, EStateM.run_bind, EStateM.run_get, call_run, hfirst,
    hcount, protect_run, allocInts_run, hfirst', hfill, unprotect_run]
  refine ⟨_, congrArg (EStateM.Result.ok · _) (congrArg (some <| availVec ·) (hwrite _ ?_))⟩
  simp

/-- Loading the package stores the table. -/
theorem papiAvailInternal_table {fuel : Nat} (hf : B.codes.length ≤ fuel) {w w₁ : World σ}
    (hinit : (papiInitR P).run w = .ok () w₁) :
    ∃ w', (papiAvailInternal P fuel).run w = .ok true w' ∧ w'.avail = B.table := by
  obtain ⟨w₂, hr⟩ := B.papiEventAvail_table hf w₁
  have hrows : ∀ rows : List AvailRow,
      ((rows.map (·.event)).zip ((rows.map (·.avail)).zip (rows.map (·.desc)))).map
        (fun r => AvailRow.mk r.1 r.2.1 r.2.2) = rows := by
    intro rows
    rw [List.zip_map', List.zip_map', List.map_map]
    exact List.map_id rows
  unfold papiAvailInternal
  rw [bind_of_ok hinit, bind_of_ok hr]
  exact ⟨_, rfl, hrows B.table⟩

/-! ## Looking up by name -/

/-- The lookups of codes by their symbols, from index `i`. -/
theorem availRows_run {cs : List Int} (hmem : ∀ c ∈ cs, c ∈ B.codes) (i : Nat) (id : Int)
    (ev : EventInfo) (w : World σ) :
    ∃ w', (availRows P i (cs.map fun c => (B.infoOf c).symbol) id ev).run w =
      .ok (.ok (cs.map B.row)) w' := by
  induction cs generalizing i id ev w with
  | nil => exact ⟨w, rfl⟩
  | cons c cs ih =>
    have hc := hmem c List.mem_cons_self
    obtain ⟨w', hr⟩ := ih (fun d hd => hmem d (List.mem_cons_of_mem c hd)) (i + 1) c (B.infoOf c)
      { w with lib := (P.getEventInfo c ev
        (P.eventNameToCode (B.infoOf c).symbol id w.lib).2).2 }
    refine ⟨w', ?_⟩
    simp only [List.map_cons, availRows, EStateM.run_bind, call_run, B.name c hc, B.info c hc,
      ne_eq, not_true_eq_false, if_false, hr]
    rfl

/-- `papi_event_avail(names)` for the names of rows of the table gives those rows. -/
theorem papiEventAvail_rows {rows : List AvailRow} (hrows : ∀ r ∈ rows, r ∈ B.table)
    (hne : rows ≠ []) (fuel : Nat) (w : World σ) :
    ∃ w', (papiEventAvail P fuel (.str (rows.map (·.event)))).run w =
      .ok (some (availVec rows)) w' := by
  obtain ⟨cs, hcs, rfl⟩ : ∃ cs : List Int, (∀ c ∈ cs, c ∈ B.codes) ∧ cs.map B.row = rows := by
    clear hne
    induction rows with
    | nil => exact ⟨[], by simp, rfl⟩
    | cons r rows ih =>
      obtain ⟨c, hc, rfl⟩ := List.mem_map.1 (hrows r List.mem_cons_self)
      obtain ⟨cs, hcs, rfl⟩ := ih fun r' hr' => hrows r' (List.mem_cons_of_mem _ hr')
      exact ⟨c :: cs, List.forall_mem_cons.2 ⟨hc, hcs⟩, rfl⟩
  have hnames : (cs.map B.row).map (·.event) = cs.map fun c => (B.infoOf c).symbol := by
    rw [List.map_map]
    rfl
  cases cs with
  | nil => exact absurd rfl hne
  | cons c cs =>
    obtain ⟨w', hr⟩ := B.availRows_run hcs 0 w.locals.id w.locals.ev
      { w with
        prot := w.prot ++ [.push] ++ [.push] ++ [.push] ++ [.push]
        fresh := fun k => w.fresh (k + (cs.length + 1)) }
    rw [List.map_cons] at hr
    rw [hnames, List.map_cons]
    simp only [papiEventAvail, EStateM.run_bind, EStateM.run_get, protect_run, allocInts_run,
      List.length_map, hr, unprotect_run]
    exact ⟨_, rfl⟩

end Backend

/-! ## Unknown names -/

section
variable {σ : Type} {P : Papi σ}

/-- A name that the library never finds stops the lookups, at it or before. -/
theorem availRows_unknown {names : List String}
    (h : ∃ n ∈ names, ∀ d s, (P.eventNameToCode n d s).1.1 ≠ papiOK) (i : Nat) (id : Int)
    (ev : EventInfo) (w : World σ) :
    ∃ j w', (availRows P i names id ev).run w = .ok (.error j) w' := by
  induction names generalizing i id ev w with
  | nil => simp at h
  | cons n names ih =>
    by_cases hn : (P.eventNameToCode n id w.lib).1.1 = papiOK
    · have hrest : ∃ m ∈ names, ∀ d s, (P.eventNameToCode m d s).1.1 ≠ papiOK := by
        obtain ⟨m, hm, hfail⟩ := h
        rcases List.mem_cons.1 hm with rfl | hm
        · exact absurd hn (hfail id w.lib)
        · exact ⟨m, hm, hfail⟩
      obtain ⟨j, w', hr⟩ := ih hrest (i + 1) (P.eventNameToCode n id w.lib).1.2
        (P.getEventInfo (P.eventNameToCode n id w.lib).1.2 ev
          (P.eventNameToCode n id w.lib).2).1.2
        { w with lib := (P.getEventInfo (P.eventNameToCode n id w.lib).1.2 ev
          (P.eventNameToCode n id w.lib).2).2 }
      refine ⟨j, w', ?_⟩
      simp only [availRows, EStateM.run_bind, call_run, hn, ne_eq, not_true_eq_false, if_false, hr]
      rfl
    · simp only [availRows, EStateM.run_bind, call_run, hn, ne_eq, not_false_eq_true, if_true]
      exact ⟨i, _, rfl⟩

/-- Then `papi_event_avail(names)` returns an error text instead of a table. -/
theorem papiEventAvail_unknown {names : List String}
    (h : ∃ n ∈ names, ∀ d s, (P.eventNameToCode n d s).1.1 ≠ papiOK) (fuel : Nat) (w : World σ) :
    ∃ w', (papiEventAvail P fuel (.str names)).run w =
      .ok (some (.str [errorText papiEnoevnt])) w' := by
  have he : papiEnoevnt ≠ papiOK := by decide
  cases names with
  | nil => simp at h
  | cons n names =>
    obtain ⟨j, w₁, hr⟩ := availRows_unknown h 0 w.locals.id w.locals.ev
      { w with
        prot := w.prot ++ [.push] ++ [.push] ++ [.push] ++ [.push]
        fresh := fun k => w.fresh (k + (names.length + 1)) }
    simp only [papiEventAvail, EStateM.run_bind, EStateM.run_get, protect_run, allocInts_run, hr,
      unprotect_run, rPapiError_error he]
    exact ⟨_, rfl⟩

end

/-! ## The shim -/

section
open Ipcm

/-- The suffixes of the shim's codes. -/
theorem suffix_eventmap {cs : List Int} (h : cs <:+ eventmap.map (·.id)) :
    cs ∈ [[0, 1, 2, 3, 4, 5, 6, 7], [1, 2, 3, 4, 5, 6, 7], [2, 3, 4, 5, 6, 7], [3, 4, 5, 6, 7],
      [4, 5, 6, 7], [5, 6, 7], [6, 7], [7], []] :=
  (List.mem_tails _ _).2 h

theorem mem_eventmap {c : Int} (h : c ∈ eventmap.map (·.id)) :
    ∃ m ∈ eventmap, c = m.id ∧ eventfindId c = some m ∧ eventfindIname m.iname = some m := by
  obtain ⟨m, hm, rfl⟩ := List.mem_map.1 h
  refine ⟨m, hm, rfl, ?_⟩
  revert m
  decide

/-- The shim enumerates its table. Its enumerator has no cursor. -/
def shimBackend (M : Pcm) : Backend (Ipcm.papi M) where
  first := 0
  rest := [1, 2, 3, 4, 5, 6, 7]
  infoOf c := match eventfindId c with
    | some m => ⟨Ipcm.eventAvail M c, m.iname, m.oname⟩
    | none => ⟨0, "", ""⟩
  At cs _ := cs <:+ eventmap.map fun m : EventMap => m.id
  enumFirst _ := ⟨rfl, List.suffix_refl _⟩
  enumNext c d cs s h := by
    have hsuffix : d :: cs <:+ eventmap.map (·.id) := (List.suffix_cons c (d :: cs)).trans h
    refine ⟨?_, hsuffix⟩
    have hmem := suffix_eventmap h
    simp only [List.mem_cons, List.cons.injEq, reduceCtorEq, and_false, List.not_mem_nil,
      or_false] at hmem
    rcases hmem with ⟨rfl, rfl, -⟩ | ⟨rfl, rfl, -⟩ | ⟨rfl, rfl, -⟩ | ⟨rfl, rfl, -⟩ |
      ⟨rfl, rfl, -⟩ | ⟨rfl, rfl, -⟩ | ⟨rfl, rfl, -⟩ <;> rfl
  enumLast c s h := by
    have hmem := suffix_eventmap h
    simp only [List.mem_cons, List.cons.injEq, reduceCtorEq, and_false, List.not_mem_nil,
      or_false, false_or, and_true] at hmem
    subst hmem
    exact (by decide : papiEinval ≠ papiOK)
  info c hc ev s := by
    obtain ⟨m, -, -, hid, -⟩ := mem_eventmap hc
    simp only [Ipcm.papi, hid]
  infoAt c hc ev cs s h := h
  name c hc d s := by
    obtain ⟨m, -, rfl, hid, hname⟩ := mem_eventmap hc
    simp only [Ipcm.papi, hid, hname]
  distinct := by
    have hsym : ([0, 1, 2, 3, 4, 5, 6, 7].map fun c => (match eventfindId c with
        | some m => (⟨Ipcm.eventAvail M c, m.iname, m.oname⟩ : EventInfo)
        | none => ⟨0, "", ""⟩).symbol) = eventmap.map (·.iname) := rfl
    rw [hsym]
    decide

/-- The names of the shim's table are the names that its lookup finds. -/
theorem shim_unknown {M : Pcm} {n : String} (h : n ∉ (shimBackend M).table.map (·.event)) (d : Int)
    (s : State M) : ((Ipcm.papi M).eventNameToCode n d s).1.1 ≠ papiOK := by
  have htable : (shimBackend M).table.map (·.event) = eventmap.map (·.iname) := rfl
  have hnone : eventfindIname n = none := by
    rw [eventfindIname, List.find?_eq_none]
    intro m hm heq
    rw [htable] at h
    exact h (List.mem_map.2 ⟨m, hm, beq_iff_eq.1 heq⟩)
  simp only [Ipcm.papi, hnone]
  decide

end

/-! ## The result -/

/-- Over every such library, `papi_event_avail(NULL)` gives one row for each enumerated event in
order, loading the package stores these rows, and for the names of any of them `counter.avail`
gives the flags that `papi_event_avail(names)` gives. The filling pass stays inside its vectors:
a row behind them would have been an error. The shim is such a library, and both paths refuse a
vector with an unknown name there. -/
theorem avail_paths :
    (∀ {σ : Type} {P : Papi σ} (B : Backend P) {fuel : Nat}, B.codes.length ≤ fuel →
      ∀ w : World σ,
        (∃ w', (papiEventAvail P fuel .null).run w = .ok (some (availVec B.table)) w') ∧
        (∀ w₁, (papiInitR P).run w = .ok () w₁ →
          ∃ w', (papiAvailInternal P fuel).run w = .ok true w' ∧ w'.avail = B.table) ∧
        ∀ rows : List AvailRow, rows ≠ [] → (∀ r ∈ rows, r ∈ B.table) →
          counterAvail B.table (rows.map (·.event)) = .ok (rows.map (·.avail)) ∧
          ∃ w', (papiEventAvail P fuel (.str (rows.map (·.event)))).run w =
            .ok (some (availVec rows)) w') ∧
    ∀ M : Ipcm.Pcm, ∃ B : Backend (Ipcm.papi M), B.codes = Ipcm.eventmap.map (·.id) ∧
      ∀ (names : List String) (fuel : Nat) (w : World (Ipcm.State M)),
        (∃ n ∈ names, n ∉ B.table.map (·.event)) →
          (∃ c, counterAvail B.table names = .error c) ∧
          ∃ w', (papiEventAvail (Ipcm.papi M) fuel (.str names)).run w =
            .ok (some (.str [errorText papiEnoevnt])) w' := by
  refine ⟨fun B _ hf w => ⟨B.papiEventAvail_table hf w, fun w₁ hinit =>
    B.papiAvailInternal_table hf hinit, fun rows hne hrows => ?_⟩, fun M => ?_⟩
  · exact ⟨counterAvail_rows B.distinct_table hrows hne, B.papiEventAvail_rows hrows hne _ w⟩
  · refine ⟨shimBackend M, rfl, fun names fuel w hunknown => ⟨counterAvail_unknown hunknown, ?_⟩⟩
    obtain ⟨n, hn, hnot⟩ := hunknown
    exact papiEventAvail_unknown ⟨n, hn, shim_unknown hnot⟩ fuel w

/-- The shim of `smallPcm` before the package's table is stored. -/
def unloadedWorld : World (Ipcm.State Ipcm.smallPcm) where
  lib := Ipcm.atRest (fun _ => ⟨0, 0⟩) (Ipcm.smallPcm.snaps 0) (Ipcm.smallPcm.snaps 0)
  prot := []
  fresh _ := 0
  heap _ := 0
  locals := ⟨0, ⟨0, "", ""⟩, ⟨0, 0, 0, 0, 0, 0⟩⟩
  avail := []
  warnings := []
  trace := []

theorem avail_paths_small :
    (∃ w', (papiAvailInternal (Ipcm.papi Ipcm.smallPcm) 8).run unloadedWorld = .ok true w' ∧
      w'.avail = (shimBackend Ipcm.smallPcm).table) ∧
    counterAvail (shimBackend Ipcm.smallPcm).table ["IPCM_CYC", "IPCM_L2_TCM", "IPCM_CYC"] =
      .ok [true, true, true] := by
  have hlen : (shimBackend Ipcm.smallPcm).codes.length ≤ 8 := by decide
  have h := avail_paths.1 (shimBackend Ipcm.smallPcm) hlen unloadedWorld
  refine ⟨h.2.1 _ rfl, ?_⟩
  exact (h.2.2 [⟨"IPCM_CYC", true, "Cycles used"⟩, ⟨"IPCM_L2_TCM", true, "L2 cache misses"⟩,
    ⟨"IPCM_CYC", true, "Cycles used"⟩] (by decide) (by decide)).1

end PbdPapi.Proof
