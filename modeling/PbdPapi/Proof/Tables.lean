import PbdPapi.Lib.Unique
import PbdPapi.Proof.Calls

/-!
# Libraries with tables

PAPI's high level interface and the Intel PCM shim both answer the lookups of event names and
codes from tables that no call changes (`Tables`). Over such a library the lookups of the package
do not touch the library, and what `papi.start` and `papi.stop` do is one library call each on the
code vector of the events (`papiStart_run`, `papiStop_run`).
-/

set_option autoImplicit false

namespace PbdPapi.Proof

open Exec C Api

variable {σ : Type}

/-- R's bookkeeping after an integer of status was allocated, protected and released. -/
def afterStatus (w : World σ) : World σ :=
  { w with fresh := fun k => w.fresh (k + 1), prot := w.prot ++ [.push] ++ [.pop 1] }

theorem same_afterStatus (w : World σ) : Same w (afterStatus w) := ⟨⟨rfl, rfl, rfl⟩, rfl⟩

/-- The lookups of a library as tables. -/
structure Tables (P : Papi σ) where
  ncounters : Int
  codeOf : String → Option Int
  infoOf : Int → Option EventInfo
  num : ∀ s, P.numCounters s = (ncounters, s)
  name : ∀ n c s, P.eventNameToCode n c s =
    ((match codeOf n with
      | some d => (papiOK, d)
      | none => (papiEnoevnt, c)), s)
  info : ∀ c ev s, P.getEventInfo c ev s =
    ((match infoOf c with
      | some i => (papiOK, i)
      | none => (papiEnoevnt, ev)), s)

variable {P : Papi σ}

namespace Tables

variable (T : Tables P)

/-- The codes of a vector of names, if every name has one. -/
def codes : List String → Option (List Int)
  | [] => some []
  | e :: es => (T.codeOf e).bind fun c => (codes es).map (c :: ·)

/-- The vector that `papi_event_counter_init` returns. -/
def codesVec (events : List String) : Sexp :=
  match T.codes events with
  | some codes => .int codes
  | none => .str [errorText papiEnoevnt]

/-- The counters suffice for `n` events. -/
def Enough (n : Nat) : Prop := 0 < T.ncounters ∧ (n : Int) ≤ T.ncounters

theorem codes_eq_some {events : List String} {codes : List Int} :
    T.codes events = some codes ↔ events.map T.codeOf = codes.map some := by
  induction events generalizing codes with
  | nil => cases codes <;> simp [Tables.codes]
  | cons e events ih =>
    cases he : T.codeOf e with
    | none => cases codes <;> simp [Tables.codes, he]
    | some c =>
      cases codes with
      | nil => simp [Tables.codes, he]
      | cons d codes => simp [Tables.codes, he, ← ih, and_comm]

/-! ## Lookups -/

theorem namesToCodes_run (names : List String) (id : Int) (w : World σ) :
    (namesToCodes P names id).run w = .ok (T.codes names) w := by
  induction names generalizing id with
  | nil => rfl
  | cons n names ih =>
    cases h : T.codeOf n with
    | none => simp [namesToCodes, Tables.codes, T.name, h, papiEnoevnt, papiOK]
    | some c => simp [namesToCodes, Tables.codes, T.name, h, ih]

theorem counts_iff {n : Nat} {s : σ} : Counts P n s ↔ T.Enough n := by
  simp [Counts, Enough, T.num]

include T in
theorem afterCheck_eq (w : World σ) : afterCheck P w = afterStatus w := by
  simp [afterCheck, afterStatus, T.num]

/-- `papi.check.ncounters(n)` lets the call through exactly when the counters suffice. -/
theorem papiCheckNcounters_ok {n : Nat} (hn : T.Enough n) (w : World σ) :
    (papiCheckNcounters P n).run w = .ok (.int [T.ncounters]) (afterStatus w) := by
  rw [papiCheckNcounters_pass P (T.counts_iff.2 hn), T.num, T.afterCheck_eq]

theorem papiCheckNcounters_error {n : Nat} (hn : ¬ T.Enough n) (w : World σ) :
    ∃ c, (papiCheckNcounters P n).run w = .error c (afterStatus w) := by
  rw [← T.afterCheck_eq]
  exact papiCheckNcounters_fail P (mt T.counts_iff.1 hn)

end Tables

/-! ## Translation -/

theorem rPapiError_ok (w : World σ) :
    (rPapiError papiOK).run w = .ok (.int [0]) (afterStatus w) := by
  simp [rPapiError, afterStatus]

theorem rPapiError_error {retval : Int} (h : retval ≠ papiOK) (w : World σ) :
    (rPapiError retval).run w =
      .ok (.str [errorText retval]) { w with prot := w.prot ++ [.push] ++ [.pop 1] } := by
  simp [rPapiError, h]

namespace Tables

variable (T : Tables P)

theorem papiEventCounterInit_run (events : List String) (w : World σ) :
    ∃ w₁, (papiEventCounterInit P events).run w = .ok (T.codesVec events) w₁ ∧
      Same w w₁ ∧ w₁.heap = w.heap := by
  cases h : T.codes events with
  | none =>
    have he : papiEnoevnt ≠ papiOK := by decide
    simp only [papiEventCounterInit, EStateM.run_bind, allocInts_run, protect_run,
      EStateM.run_get, T.namesToCodes_run, h, unprotect_run, rPapiError_error he, codesVec]
    exact ⟨_, rfl, ⟨⟨rfl, rfl, rfl⟩, rfl⟩, rfl⟩
  | some codes =>
    simp only [papiEventCounterInit, EStateM.run_bind, allocInts_run, protect_run,
      EStateM.run_get, T.namesToCodes_run, h, unprotect_run, codesVec]
    exact ⟨_, rfl, ⟨⟨rfl, rfl, rfl⟩, rfl⟩, rfl⟩

/-- `papi.event.init` and `papi.event.init.light` give the vector without repetitions. -/
theorem unique_codesVec (events : List String) :
    unique (T.codesVec events) = match T.codes events with
      | some codes => .int codes.eraseDups
      | none => .str [errorText papiEnoevnt] := by
  cases h : T.codes events with
  | none => simp [codesVec, h, unique, List.eraseDups_cons]
  | some codes => simp [codesVec, h, unique]

theorem unique_eq_self {x : Sexp} (h : (unique x).length = x.length) : unique x = x := by
  cases x with
  | int v => exact congrArg Sexp.int (List.eraseDups_eq_self_of_length h)
  | str v => exact congrArg Sexp.str (List.eraseDups_eq_self_of_length h)
  | _ => rfl

theorem papiEventInit_run (events : List String) (w : World σ) :
    ∃ w₁, (papiEventInit P events).run w = .ok (unique (T.codesVec events)) w₁ ∧
      Same w w₁ ∧ w₁.heap = w.heap := by
  obtain ⟨w₁, hr, hs, hh⟩ := T.papiEventCounterInit_run events w
  unfold papiEventInit
  rw [bind_of_ok hr]
  by_cases h : (unique (T.codesVec events)).length = (T.codesVec events).length
  · simp only [ne_eq, not_true_eq_false, if_false, unique_eq_self h]
    exact ⟨w₁, rfl, hs, hh⟩
  · simp only [h, ne_eq, not_false_eq_true, if_true]
    exact ⟨_, rfl, ⟨⟨hs.trace, hs.avail, hs.locals⟩, hs.lib⟩, hh⟩

theorem papiEventInitLight_run (events : List String) (w : World σ) :
    ∃ w₁, (papiEventInitLight P events).run w = .ok (unique (T.codesVec events)) w₁ ∧
      Same w w₁ ∧ w₁.heap = w.heap := by
  obtain ⟨w₁, hr, hs, hh⟩ := T.papiEventCounterInit_run events w
  unfold papiEventInitLight
  rw [bind_of_ok hr]
  by_cases h : (unique (T.codesVec events)).length = (T.codesVec events).length
  · simp only [ne_eq, not_true_eq_false, if_false, unique_eq_self h]
    exact ⟨w₁, rfl, hs, hh⟩
  · simp only [h, ne_eq, not_false_eq_true, if_true]
    exact ⟨w₁, rfl, hs, hh⟩

/-! ## `papi.start` -/

/-- `papi.start` on recognised events that the counters suffice for: one library call. -/
theorem papiStart_run {events : List String} {codes : List Int} (hc : T.codes events = some codes)
    (hn : T.Enough events.length) (w : World σ) :
    ∃ w₁, (papiStart P events).run w =
        (if (P.startCounters codes.eraseDups w.lib).1 = papiOK then .ok (.int [0]) w₁
        else .error (simpleError (errorText (P.startCounters codes.eraseDups w.lib).1)) w₁) ∧
      Side w w₁ ∧ w₁.heap = w.heap ∧
      w₁.lib = (P.startCounters codes.eraseDups w.lib).2 := by
  obtain ⟨w₁, hr, hs, hh⟩ := T.papiEventInit_run events (afterStatus w)
  rw [unique_codesVec, hc] at hr
  have hl : w₁.lib = w.lib := hs.lib
  unfold papiStart
  rw [bind_of_ok (T.papiCheckNcounters_ok hn w), bind_of_ok hr]
  by_cases h : (P.startCounters codes.eraseDups w.lib).1 = papiOK
  · simp only [papiEventCounterOn, EStateM.run_bind, integer_int, call_run, hl, h,
      rPapiError_ok, if_true]
    exact ⟨_, rfl, ⟨hs.trace, hs.avail, hs.locals⟩, hh, rfl⟩
  · simp only [papiEventCounterOn, EStateM.run_bind, integer_int, call_run, hl,
      rPapiError_error h, h, if_false, stop_run]
    exact ⟨_, rfl, ⟨hs.trace, hs.avail, hs.locals⟩, hh, rfl⟩

/-- Otherwise it is an error before any library call that could change the session. -/
theorem papiStart_refused {events : List String}
    (h : T.codes events = none ∨ ¬ T.Enough events.length) (w : World σ) :
    ∃ c w₁, (papiStart P events).run w = .error c w₁ ∧ Same w w₁ := by
  by_cases hn : T.Enough events.length
  · have hc : T.codes events = none := h.resolve_right (not_not.2 hn)
    obtain ⟨w₁, hr, hs, -⟩ := T.papiEventInit_run events (afterStatus w)
    rw [unique_codesVec, hc] at hr
    unfold papiStart
    rw [bind_of_ok (T.papiCheckNcounters_ok hn w), bind_of_ok hr]
    exact ⟨_, w₁, rfl, ⟨⟨hs.trace, hs.avail, hs.locals⟩, hs.lib⟩⟩
  · obtain ⟨c, hr⟩ := T.papiCheckNcounters_error hn w
    exact ⟨c, _, bind_of_error hr, same_afterStatus w⟩

/-! ## `papi.stop` -/

/-- The list that the loop of `papi_event_counter_off` builds, if every code has an info. -/
def vars : List (Int × Int) → Option Measurement
  | [] => some []
  | (code, value) :: rest => (T.infoOf code).bind fun i =>
      (vars rest).map ((i.longDescr, (value : Rat)) :: ·)

/-- The description of a code. -/
def desc (code : Int) : String := ((T.infoOf code).map (·.longDescr)).getD ""

/-- The list exists if every code has an info, and names each value with its code's description. -/
theorem vars_eq_some {l : List (Int × Int)} {v : Measurement} :
    T.vars l = some v ↔
      (∀ p ∈ l, (T.infoOf p.1).isSome) ∧ v = l.map fun p => (T.desc p.1, (p.2 : Rat)) := by
  induction l generalizing v with
  | nil =>
    simp only [vars, Option.some.injEq, List.not_mem_nil, false_implies, implies_true, true_and,
      List.map_nil]
    exact eq_comm
  | cons p l ih =>
    obtain ⟨code, value⟩ := p
    cases hi : T.infoOf code with
    | none => simp [vars, hi]
    | some i =>
      have hd : T.desc code = i.longDescr := by simp [desc, hi]
      simp only [vars, hi, Option.bind_some, Option.map_eq_some_iff, ih, List.forall_mem_cons,
        Option.isSome_some, true_and, List.map_cons, hd]
      constructor
      · rintro ⟨_, ⟨h, rfl⟩, rfl⟩
        exact ⟨h, rfl⟩
      · rintro ⟨h, rfl⟩
        exact ⟨_, ⟨h, rfl⟩, rfl⟩

theorem vars_zip {codes : List Int} (values : List Int) (h : ∀ c ∈ codes, (T.infoOf c).isSome) :
    T.vars (codes.zip values) =
      some ((codes.map T.desc).zip (values.map fun v : Int => (v : Rat))) := by
  refine T.vars_eq_some.2 ⟨fun p hp => h p.1 (List.of_mem_zip hp).1, ?_⟩
  rw [List.zip_map]
  rfl

theorem setListVars_run (l : List (Int × Int)) (ev : EventInfo) (w : World σ) :
    ∃ w₁, (setListVars P l ev).run w = .ok (T.vars l) w₁ ∧ Same w w₁ := by
  induction l generalizing ev w with
  | nil => exact ⟨w, rfl, refl w⟩
  | cons p l ih =>
    obtain ⟨code, value⟩ := p
    cases hi : T.infoOf code with
    | none =>
      simp only [setListVars, vars, EStateM.run_bind, call_run, T.info, hi, papiEnoevnt, papiOK,
        ne_eq, Int.reduceNeg, Int.reduceEq, not_false_eq_true, if_true, errorVec, allocInt_run,
        protect_run, EStateM.run_pure, Option.bind_none]
      exact ⟨_, rfl, ⟨rfl, rfl, rfl⟩, rfl⟩
    | some i =>
      obtain ⟨w₁, hr, hs⟩ := ih i { w with prot := w.prot ++ [.push] }
      refine ⟨w₁, ?_, ⟨hs.trace, hs.avail, hs.locals⟩, hs.lib⟩
      simp only [setListVars, vars, EStateM.run_bind, call_run, T.info, hi, ne_eq,
        not_true_eq_false, if_false, protect_run, EStateM.run_pure, Option.bind_some, hr]

/-- The array of values after a stop call that wrote `written` into it. -/
def stopValues (n : Nat) (w : World σ) (written : List Int) : List Int :=
  overwrite ((List.range n).map w.heap) written

theorem le_stopValues_length (n : Nat) (w : World σ) (written : List Int) :
    n ≤ (stopValues n w written).length := by
  simp only [stopValues, overwrite, List.length_append, List.length_drop, List.length_map,
    List.length_range]
  omega

theorem stopValues_full (w : World σ) (written : List Int) :
    stopValues written.length w written = written := by
  simp [stopValues, overwrite]

/-- What a stop of `codes` builds, `none` if it fails. -/
def stopList (codes : List Int) (w : World σ) : Option Measurement :=
  if (P.stopCounters codes.length w.lib).1.1 = papiOK then
    T.vars (codes.zip (stopValues codes.length w (P.stopCounters codes.length w.lib).1.2))
  else none

/-- The list, or `PBD_ERROR`. -/
def offVec : Option Measurement → Sexp
  | some l => .list l
  | none => .int [pbdError]

/-- The names of the list are the descriptions of the codes. -/
theorem stopList_names {codes : List Int} {w : World σ} {v : Measurement}
    (h : T.stopList codes w = some v) : v.map (·.1) = codes.map T.desc := by
  unfold stopList at h
  split at h
  · obtain ⟨-, rfl⟩ := T.vars_eq_some.1 h
    have hz := List.map_fst_zip (le_stopValues_length codes.length w
      (P.stopCounters codes.length w.lib).1.2)
    rw [List.map_map]
    conv_rhs => rw [← hz, List.map_map]
    rfl
  · cases h

theorem loopCodes_int (codes : List Int) (w : World σ) :
    (loopCodes (.int codes)).run w = .ok codes w := by
  cases codes <;> simp [loopCodes, Sexp.length]

theorem papiEventCounterOff_run (codes : List Int) (w : World σ) :
    ∃ w₁, (papiEventCounterOff P (.int codes)).run w = .ok (offVec (T.stopList codes w)) w₁ ∧
      Side w w₁ ∧ w₁.lib = (P.stopCounters codes.length w.lib).2 := by
  by_cases h : (P.stopCounters codes.length w.lib).1.1 = papiOK
  · simp only [papiEventCounterOff, Sexp.length, EStateM.run_bind, malloc_run, call_run, h, ne_eq,
      not_true_eq_false, if_false, protect_run, loopCodes_int, EStateM.run_get]
    obtain ⟨w₁, hr, hs⟩ := T.setListVars_run
      (codes.zip (stopValues codes.length w (P.stopCounters codes.length w.lib).1.2)) w.locals.ev
      { w with
        lib := (P.stopCounters codes.length w.lib).2
        prot := w.prot ++ [.push] ++ [.push]
        heap := fun k => w.heap (k + codes.length) }
    unfold stopValues at hr
    rw [hr]
    simp only [stopList, h, if_true, stopValues]
    cases T.vars (codes.zip (overwrite ((List.range codes.length).map w.heap)
      (P.stopCounters codes.length w.lib).1.2)) with
    | none => exact ⟨_, rfl, ⟨hs.trace, hs.avail, hs.locals⟩, hs.lib⟩
    | some l => exact ⟨_, rfl, ⟨hs.trace, hs.avail, hs.locals⟩, hs.lib⟩
  · simp only [papiEventCounterOff, Sexp.length, EStateM.run_bind, malloc_run, call_run, h, ne_eq,
      not_false_eq_true, if_true, errorVec, allocInt_run, protect_run, EStateM.run_pure,
      unprotect_run, stopList, if_false, offVec]
    exact ⟨_, rfl, ⟨rfl, rfl, rfl⟩, rfl⟩

/-- `papi.stop` on recognised events: one library call, and a list only if it succeeds. -/
theorem papiStop_run {events : List String} {codes : List Int} (hc : T.codes events = some codes)
    (w : World σ) :
    ∃ w₁, (papiStop P events).run w =
        (match T.stopList codes.eraseDups w with
          | some l => .ok (.list l) w₁
          | none => .error stopError w₁) ∧
      Side w w₁ ∧ w₁.lib = (P.stopCounters codes.eraseDups.length w.lib).2 := by
  obtain ⟨w₁, hr, hs, hh⟩ := T.papiEventInitLight_run events w
  rw [unique_codesVec, hc] at hr
  obtain ⟨w₂, hr₂, hs₂, hl₂⟩ := T.papiEventCounterOff_run codes.eraseDups w₁
  have hv : T.stopList codes.eraseDups w₁ = T.stopList codes.eraseDups w := by
    simp only [stopList, stopValues, hs.lib, hh]
  rw [hv] at hr₂
  refine ⟨w₂, ?_, IsTrans.trans _ _ _ hs.toSide hs₂, by rw [hl₂, hs.lib]⟩
  unfold papiStop
  rw [bind_of_ok hr, bind_of_ok hr₂]
  cases T.stopList codes.eraseDups w with
  | none => rfl
  | some l => rfl

/-- `papi.stop` on a vector with an unknown name: the library is called with the length of the
error text, and the call ends in an error. -/
theorem papiStop_unknown {events : List String} (hc : T.codes events = none) (w : World σ) :
    ∃ c w₁, (papiStop P events).run w = .error c w₁ ∧ Side w w₁ ∧
      w₁.lib = (P.stopCounters 1 w.lib).2 := by
  obtain ⟨w₁, hr, hs, -⟩ := T.papiEventInitLight_run events w
  rw [unique_codesVec, hc] at hr
  have hl : w₁.lib = w.lib := hs.lib
  unfold papiStop
  rw [bind_of_ok hr]
  by_cases h : (P.stopCounters 1 w.lib).1.1 = papiOK
  · simp only [papiEventCounterOff, Sexp.length, List.length_singleton, EStateM.run_bind,
      malloc_run, call_run, hl, h, ne_eq, not_true_eq_false, if_false, protect_run, loopCodes,
      Nat.one_ne_zero, integer_str]
    exact ⟨_, _, rfl, ⟨hs.trace, hs.avail, hs.locals⟩, rfl⟩
  · simp only [papiEventCounterOff, Sexp.length, List.length_singleton, EStateM.run_bind,
      malloc_run, call_run, hl, h, ne_eq, not_false_eq_true, if_true, errorVec, allocInt_run,
      protect_run, EStateM.run_pure, unprotect_run]
    exact ⟨_, _, rfl, ⟨hs.trace, hs.avail, hs.locals⟩, rfl⟩

/-- What a `papi.stop` that returns gives: a list with one element for each distinct event, named
with its description. -/
theorem papiStop_ok {events : List String} {w w' : World σ} {ret : Sexp}
    (h : (papiStop P events).run w = .ok ret w') :
    ∃ codes l, T.codes events = some codes ∧ T.stopList codes.eraseDups w = some l ∧
      ret = .list l := by
  cases hc : T.codes events with
  | none =>
    obtain ⟨c, w₁, hr, -⟩ := T.papiStop_unknown hc w
    rw [hr] at h
    cases h
  | some codes =>
    obtain ⟨w₁, hr, -⟩ := T.papiStop_run hc w
    rw [hr] at h
    cases hl : T.stopList codes.eraseDups w with
    | none =>
      rw [hl] at h
      cases h
    | some l =>
      rw [hl] at h
      cases h
      exact ⟨codes, l, rfl, hl, rfl⟩

/-! ## The gates of the rate functions -/

/-- The availability gate refuses an empty events vector. -/
theorem availLookup_ok {events : List String} {shorthand : Option String} {w w₁ : World σ}
    (h : (availLookup events shorthand).run w = .ok () w₁) : w₁ = w ∧ events ≠ [] := by
  rw [availLookup_run] at h
  cases hl : papiAvailLookup w.avail events shorthand with
  | error c =>
    rw [hl] at h
    cases h
  | ok u =>
    rw [hl] at h
    cases h
    refine ⟨rfl, ?_⟩
    rintro rfl
    simp [papiAvailLookup, counterAvail] at hl

theorem codes_ne_nil {events : List String} {codes : List Int} (h : T.codes events = some codes)
    (he : events ≠ []) : codes.eraseDups ≠ [] := by
  have hl := congrArg List.length (T.codes_eq_some.1 h)
  simp only [List.length_map] at hl
  rw [ne_eq, List.eraseDups_eq_nil]
  rintro rfl
  exact he (List.length_eq_zero_iff.1 hl)

include T in
/-- What a gate lets through is an argument of the on call. -/
theorem gate_ok {k : RateKind} {event : List String} {ev : Sexp} {w w₁ : World σ}
    (h : (k.gate P event).run w = .ok ev w₁) : Same w w₁ ∧ Arg k ev := by
  cases k with
  | epc =>
    obtain ⟨⟨⟩, w₂, hl, h₂⟩ := bind_ok.1 h
    obtain ⟨rfl, he⟩ := availLookup_ok hl
    obtain ⟨w₃, hr, hs, -⟩ := T.papiEventInit_run event w₂
    rw [hr] at h₂
    cases h₂
    refine ⟨hs, ?_⟩
    rw [unique_codesVec]
    cases hc : T.codes event with
    | none => exact .inr ⟨rfl, _, rfl⟩
    | some codes =>
      obtain ⟨c, cs, hcs⟩ := List.exists_cons_of_ne_nil (T.codes_ne_nil hc he)
      exact .inl fun _ => ⟨c, cs, congrArg Sexp.int hcs⟩
  | _ =>
    obtain ⟨⟨⟩, w₂, hl, h₂⟩ := bind_ok.1 h
    obtain ⟨rfl, -⟩ := availLookup_ok hl
    cases h₂
    exact ⟨refl _, .inl fun hk => by cases hk⟩

include T in
theorem gate_error {k : RateKind} {event : List String} {c : RError} {w w₁ : World σ}
    (h : (k.gate P event).run w = .error c w₁) : w₁ = w := by
  have hlook (events : List String) (w' : World σ) (c' : RError)
      (h : (availLookup events none).run w = .error c' w') : w' = w := by
    rw [availLookup_run] at h
    cases hl : papiAvailLookup w.avail events none <;> rw [hl] at h <;> cases h
    rfl
  cases k with
  | epc =>
    rcases bind_error.1 h with hl | ⟨⟨⟩, w₂, hl, h₂⟩
    · exact hlook _ _ _ hl
    · obtain ⟨w₃, hr, -⟩ := T.papiEventInit_run event w₂
      rw [hr] at h₂
      cases h₂
  | _ =>
    rcases bind_error.1 h with hl | ⟨⟨⟩, w₂, hl, h₂⟩
    · exact hlook _ _ _ hl
    · cases h₂

include T in
/-- A run of a `system.` function goes along a relation that allows the gate and that its `papi.`
function goes along. -/
theorem rateRun_moves {R : World σ → World σ → Prop} [IsPreorder (World σ) R]
    (hs : ∀ w w', Same w w' → R w w') {k : RateKind} {expr : Option (Prom σ)}
    (hp : ∀ ev, Arg k ev → Moves R (papiRate P k ev (expr.getD nullProm)))
    (event : List String) (gcFirst : Bool) : Moves R (rateRun P k event expr gcFirst) := by
  rw [rateRun_eq]
  intro w
  unfold rateReading
  cases hg : (k.gate P event).run w with
  | ok ev w₁ =>
    obtain ⟨hsame, ha⟩ := T.gate_ok hg
    rw [bind_of_ok hg]
    exact IsTrans.trans _ _ _ (hs w w₁ hsame) (hp ev ha w₁)
  | error c w₁ =>
    rw [bind_of_error hg, T.gate_error hg]
    exact refl (r := R) w

include T in
theorem systemRate_moves {R : World σ → World σ → Prop} [IsPreorder (World σ) R]
    (hs : ∀ w w', Same w w' → R w w') {k : RateKind} {expr : Option (Prom σ)}
    (hn : ∀ ev, Arg k ev → Moves R (papiRate P k ev nullProm))
    (hp : ∀ ev, Arg k ev → Moves R (papiRate P k ev (expr.getD nullProm)))
    (event : List String) (gcFirst burnin : Bool) :
    Moves R (systemRate P k event expr gcFirst burnin) := by
  cases burnin with
  | false => exact T.rateRun_moves hs hp event gcFirst
  | true =>
    refine .bind (T.rateRun_moves hs hn event gcFirst) fun b =>
      .bind (T.rateRun_moves hs hp event gcFirst) fun ret => ?_
    cases burnLoop (k.idx ret.length) b ret with
    | ok v => exact .pure v
    | error c => exact .throw c

end Tables

end PbdPapi.Proof
