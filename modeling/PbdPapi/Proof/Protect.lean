import PbdPapi.Lib.Stack
import PbdPapi.Api.Program

/-!
# Balance of the protection stack

`Runs d d' x`: whenever `x` returns, its operations on the protection stack lead from depth `d` to
depth `d'`. An entry point is balanced if it runs from 0 to 0. `entry_balanced`: all are, for every
library and every argument, but `papi_event_avail` and `papi_event_counter_off`, whose counts are
wrong when a lookup of the library fails in their loops.
-/

set_option autoImplicit false

namespace PbdPapi.Proof

open Exec C

variable {σ α β : Type}

/-- Whenever `x` returns, its stack operations lead from depth `d` to depth `d'`. -/
def Runs (d d' : Nat) (x : RM σ α) : Prop :=
  ∀ w a w', x.run w = .ok a w' → ∃ l, w'.prot = w.prot ++ l ∧ Stack.run d l = some d'

namespace Runs

variable {d d' d'' : Nat}

theorem pure (a : α) : Runs d d (pure a : RM σ α) := by
  intro w b w' h
  cases h
  exact ⟨[], by simp, rfl⟩

theorem throw (c : RError) : Runs d d' (throw c : RM σ α) := by
  intro w b w' h
  cases h

theorem bind {x : RM σ α} {f : α → RM σ β} (hx : Runs d d' x) (hf : ∀ a, Runs d' d'' (f a)) :
    Runs d d'' (x >>= f) := by
  intro w b w' h
  obtain ⟨a, w₁, hxa, hfb⟩ := bind_ok.1 h
  obtain ⟨l₁, hp₁, hr₁⟩ := hx w a w₁ hxa
  obtain ⟨l₂, hp₂, hr₂⟩ := hf a w₁ b w' hfb
  exact ⟨l₁ ++ l₂, by rw [hp₂, hp₁, List.append_assoc], by rw [Stack.run_append, hr₁]; exact hr₂⟩

theorem map {x : RM σ α} (f : α → β) (hx : Runs d d' x) : Runs d d' (f <$> x) := by
  rw [map_eq_pure_bind]
  exact hx.bind fun a => .pure _

theorem protect : Runs d (d + 1) (protect : RM σ Unit) := by
  intro w a w' h
  cases h
  exact ⟨[.push], rfl, rfl⟩

theorem unprotect {n : Nat} (h : n ≤ d) : Runs d (d - n) (unprotect n : RM σ Unit) := by
  intro w a w' hr
  cases hr
  exact ⟨[.pop n], rfl, Stack.run_pop h []⟩

/-- `UNPROTECT` of all that was protected. -/
theorem release {n : Nat} : Runs n 0 (PbdPapi.unprotect n : RM σ Unit) := by
  simpa using unprotect (Nat.le_refl n)

/-- A computation that does not touch the stack. -/
theorem still {x : RM σ α} (h : ∀ w, (final (x.run w)).prot = w.prot) : Runs d d x := by
  intro w a w' hx
  have := h w
  rw [hx] at this
  exact ⟨[], by simpa using this, rfl⟩

theorem allocInt : Runs d d (allocInt : RM σ Int) := .still fun _ => rfl
theorem allocInts (n : Nat) : Runs d d (allocInts n : RM σ (List Int)) := .still fun _ => rfl
theorem malloc (n : Nat) : Runs d d (malloc n : RM σ (List Int)) := .still fun _ => rfl
theorem call (f : σ → α × σ) : Runs d d (call f) := .still fun _ => rfl
theorem get : Runs d d (get : RM σ (World σ)) := .still fun _ => rfl
theorem integer (x : Sexp) : Runs d d (x.integer : RM σ _) := by
  cases x <;> exact .still fun _ => rfl

theorem integer0 (x : Sexp) : Runs d d (x.integer0 : RM σ _) := by
  refine .bind (.integer x) ?_
  intro v
  cases v with
  | nil => exact .allocInt
  | cons c cs => exact .pure c

end Runs

/-! ## The entry points without loops -/

section
variable (P : Papi σ)

theorem rPapiError_runs (retval : Int) : Runs 0 0 (rPapiError retval : RM σ Sexp) := by
  unfold rPapiError
  split
  · exact .bind .allocInt fun _ => .bind .protect fun _ => .bind .release fun _ =>
      .pure _
  · exact .bind .protect fun _ => .bind .release fun _ => .pure _

theorem errorVec_runs (d : Nat) : Runs d (d + 1) (errorVec : RM σ Sexp) :=
  .bind .allocInt fun _ => .bind .protect fun _ => .pure _

/-- The failure exit of the off calls. -/
theorem errorExit_runs : Runs 0 0 (do
    let ret ← errorVec
    unprotect 1
    return ret : RM σ Sexp) :=
  .bind (errorVec_runs 0) fun _ => .bind .release fun _ => .pure _

theorem rPapiSetret_runs (retval : Int) (realTime procTime : Rat) (x : Int) (xlab : String)
    (y : Rat) (ylab : String) :
    Runs 0 0 (rPapiSetret retval realTime procTime x xlab y ylab : RM σ Sexp) := by
  unfold rPapiSetret
  split
  · exact errorExit_runs
  · exact .bind .protect fun _ => .bind .protect fun _ => .bind .protect fun _ =>
      .bind .protect fun _ => .bind .protect fun _ => .bind .protect fun _ =>
      .bind .release fun _ => .pure _

theorem papiCheckCounters_runs (n : Sexp) : Runs 0 0 (papiCheckCounters P n) := by
  refine .bind (.call _) fun ncounters => .bind .allocInt fun _ => .bind .protect fun _ => ?_
  dsimp only
  split
  · exact .bind (.pure _) fun _ => .bind .release fun _ => .pure _
  · exact .bind (.integer0 n) fun _ => .bind (.pure _) fun _ => .bind .release fun _ => .pure _

theorem papiInit_runs : Runs 0 0 (papiInit P) := by
  refine .bind (.call _) ?_
  intro init
  dsimp only
  split
  · exact .bind (.pure _) fun _ => .bind .allocInt fun _ => .bind .protect fun _ =>
      .bind .release fun _ => .pure _
  · exact .bind (.call _) fun _ => .bind .allocInt fun _ => .bind .protect fun _ =>
      .bind .release fun _ => .pure _

theorem papiEventCounterOn_runs (which : Sexp) : Runs 0 0 (papiEventCounterOn P which) :=
  .bind (.integer which) fun _ => .bind (.call _) fun _ => rPapiError_runs _

theorem rateOn_runs {r : RM σ Rate} (hr : Runs 1 1 r) : Runs 0 0 (rateOn P r) :=
  .bind .allocInt fun _ => .bind .protect fun _ => .bind hr fun _ => .bind .get fun _ =>
    .bind (.call _) fun _ => .bind .release fun _ => .pure _

theorem papiUtilizationOn_runs : Runs 0 0 (papiUtilizationOn P) :=
  .bind .allocInt fun _ => .bind .protect fun _ => .bind .get fun _ =>
    .bind (.call _) fun _ => .bind .release fun _ => .pure _

theorem setretOff_runs (r : Rate) (xlab ylab : String) : Runs 0 0 (setretOff P r xlab ylab) :=
  .bind .get fun _ => .bind (.call _) fun _ => .bind (.call _) fun _ =>
    rPapiSetret_runs _ _ _ _ _ _ _

theorem papiEpcOff_runs (event : Sexp) : Runs 0 0 (papiEpcOff P event) := by
  refine .bind (.integer0 event) fun _ => .bind .get fun _ => .bind (.call _) fun _ =>
    .bind (.call _) fun _ => ?_
  split
  · exact errorExit_runs
  · exact .bind .protect fun _ => .bind .protect fun _ => .bind .protect fun _ =>
      .bind .protect fun _ => .bind .protect fun _ => .bind .protect fun _ =>
      .bind .protect fun _ => .bind .protect fun _ => .bind .release fun _ => .pure _

theorem papiUtilizationOff_runs : Runs 0 0 (papiUtilizationOff P) := by
  refine .bind .get fun _ => .bind (.call _) fun _ => .bind (.call _) fun _ =>
    .bind (.call _) fun _ => .bind (.call _) fun _ => ?_
  split
  · exact errorExit_runs
  · exact .bind .protect fun _ => .bind .protect fun _ => .bind .protect fun _ =>
      .bind .protect fun _ => .bind .protect fun _ => .bind .protect fun _ =>
      .bind .protect fun _ => .bind .release fun _ => .pure _

theorem papiHwname_runs : Runs 0 0 (papiHwname P) := by
  refine .bind (.call _) ?_
  intro p
  cases p with
  | none => exact rPapiError_runs _
  | some p =>
    dsimp only
    exact .bind .protect fun _ => .bind .protect fun _ => .bind .protect fun _ =>
      .bind .release fun _ => .pure _

theorem papiHwinfo_runs : Runs 0 0 (papiHwinfo P) := by
  refine .bind (.call _) ?_
  intro p
  cases p with
  | none => exact rPapiError_runs _
  | some p =>
    dsimp only
    exact .bind (.allocInts _) fun _ => .bind .protect fun _ => .bind .protect fun _ =>
      .bind .protect fun _ => .bind .release fun _ => .pure _

theorem rPapiCpuinfo_runs : Runs 0 0 (rPapiCpuinfo P) :=
  .bind .allocInt fun _ => .bind .protect fun _ => .bind .allocInt fun _ => .bind .protect fun _ =>
    .bind (.call _) fun _ => .bind (.call _) fun _ =>
    .bind .protect fun _ => .bind .protect fun _ =>
    .bind .release fun _ => .pure _

/-! ## Loops -/

theorem namesToCodes_runs (d : Nat) (names : List String) (id : Int) :
    Runs d d (namesToCodes P names id) := by
  induction names generalizing id with
  | nil => exact .pure _
  | cons name names ih =>
    refine .bind (.call _) ?_
    intro p
    obtain ⟨ret, id'⟩ := p
    dsimp only
    split
    · exact .pure _
    · exact .bind (ih _) fun _ => .pure _

theorem papiEventCounterInit_runs (which : List String) :
    Runs 0 0 (papiEventCounterInit P which) := by
  refine .bind (.allocInts _) fun _ => .bind .protect fun _ => .bind .get fun _ =>
    .bind (namesToCodes_runs P 1 which _) fun codes => ?_
  cases codes with
  | none => exact .bind .release fun _ => rPapiError_runs _
  | some codes => exact .bind .release fun _ => .pure _

theorem countEvents_runs (d fuel : Nat) (id : Int) : Runs d d (countEvents P fuel id) := by
  induction fuel generalizing id with
  | zero => exact .pure _
  | succ fuel ih =>
    refine .bind (.call _) ?_
    intro p
    obtain ⟨ret, id'⟩ := p
    dsimp only
    split
    · exact .bind (ih _) fun _ => .pure _
    · exact .pure _

theorem fillEvents_runs (d room : Nat) (id : Int) (ev : EventInfo) :
    Runs d d (fillEvents P room id ev) := by
  induction room generalizing id ev with
  | zero => exact .bind (.call _) fun _ => .throw _
  | succ room ih =>
    refine .bind (.call _) fun _ => .bind (.call _) fun p => ?_
    obtain ⟨ret, id'⟩ := p
    dsimp only
    split
    · exact .bind (ih _ _) fun _ => .pure _
    · exact .pure _

/-! ## Failing lookups -/

/-- The index of the first name that the library does not know, in the loop of
`papi_event_avail`. -/
def firstUnknown : Nat → List String → Int → EventInfo → σ → Option Nat
  | _, [], _, _, _ => none
  | i, name :: names, id, ev, s =>
    let r := P.eventNameToCode name id s
    if r.1.1 ≠ papiOK then some i
    else
      let r' := P.getEventInfo r.1.2 ev r.2
      firstUnknown (i + 1) names r.1.2 r'.1.2 r'.2

/-- Some code of the vector has no info, in the loop of `papi_event_counter_off`. -/
def infoFails : List Int → EventInfo → σ → Bool
  | [], _, _ => false
  | code :: codes, ev, s =>
    let r := P.getEventInfo code ev s
    if r.1.1 ≠ papiOK then true else infoFails codes r.1.2 r.2

/-- The index in a failed result. -/
def failedAt {γ : Type} : Except Nat γ → Option Nat
  | .error i => some i
  | .ok _ => none

theorem failedAt_map {γ δ : Type} (f : γ → δ) (r : Except Nat γ) :
    failedAt (r.map f) = failedAt r := by
  cases r <;> rfl

theorem availRows_run (i : Nat) (names : List String) (id : Int) (ev : EventInfo) (w : World σ) :
    ∃ r w', (availRows P i names id ev).run w = .ok r w' ∧ w'.prot = w.prot ∧
      failedAt r = firstUnknown P i names id ev w.lib := by
  induction names generalizing i id ev w with
  | nil => exact ⟨_, w, rfl, rfl, rfl⟩
  | cons name names ih =>
    by_cases h : (P.eventNameToCode name id w.lib).1.1 = papiOK
    · obtain ⟨r, w', hr, hp, hres⟩ := ih (i + 1) (P.eventNameToCode name id w.lib).1.2
        (P.getEventInfo (P.eventNameToCode name id w.lib).1.2 ev
          (P.eventNameToCode name id w.lib).2).1.2
        { w with lib := (P.getEventInfo (P.eventNameToCode name id w.lib).1.2 ev
          (P.eventNameToCode name id w.lib).2).2 }
      simp only [availRows, firstUnknown, EStateM.run_bind, call_run, h, ne_eq,
        not_true_eq_false, if_false, hr, EStateM.run_pure]
      exact ⟨_, w', rfl, hp, (failedAt_map _ r).trans hres⟩
    · simp only [availRows, firstUnknown, EStateM.run_bind, call_run, h, ne_eq,
        not_false_eq_true, if_true, EStateM.run_pure]
      exact ⟨_, _, rfl, rfl, rfl⟩

/-- The loop of `papi_event_counter_off`: one push in each pass, and one more in the failing one. -/
theorem setListVars_prot (l : List (Int × Int)) (ev : EventInfo) (w : World σ) :
    ∃ r w', (setListVars P l ev).run w = .ok r w' ∧
      if infoFails P (l.map (·.1)) ev w.lib then
        r = none ∧ ∃ k, w'.prot = w.prot ++ List.replicate (k + 1) .push
      else r.isSome ∧ w'.prot = w.prot ++ List.replicate l.length .push := by
  induction l generalizing ev w with
  | nil => exact ⟨_, w, rfl, by simp [infoFails]⟩
  | cons p l ih =>
    obtain ⟨code, value⟩ := p
    by_cases h : (P.getEventInfo code ev w.lib).1.1 = papiOK
    · obtain ⟨r, w', hr, hres⟩ := ih (P.getEventInfo code ev w.lib).1.2
        { w with lib := (P.getEventInfo code ev w.lib).2, prot := w.prot ++ [.push] }
      simp only [setListVars, List.map_cons, infoFails, EStateM.run_bind, call_run, h, ne_eq,
        not_true_eq_false, if_false, protect_run, hr, EStateM.run_pure]
      refine ⟨_, w', rfl, ?_⟩
      split at hres
      · rename_i hf
        obtain ⟨rfl, k, hk⟩ := hres
        rw [if_pos hf]
        exact ⟨rfl, k + 1, by rw [hk, List.append_assoc]; rfl⟩
      · rename_i hf
        rw [if_neg hf]
        refine ⟨by rw [Option.isSome_map]; exact hres.1, ?_⟩
        rw [hres.2, List.append_assoc]
        rfl
    · simp only [setListVars, List.map_cons, infoFails, EStateM.run_bind, call_run, h, ne_eq,
        not_false_eq_true, if_true, errorVec, allocInt_run, protect_run, EStateM.run_pure]
      exact ⟨_, _, rfl, rfl, 0, rfl⟩

/-! ## All entry points -/

/-- An entry point with its arguments. -/
inductive Entry where
  | eventAvail (which : Sexp)
  | eventCounterInit (which : List String)
  | eventCounterOn (which : Sexp)
  | eventCounterOff (which : Sexp)
  | flopsOn
  | flopsOff
  | flipsOn
  | flipsOff
  | epcOn (event : Sexp)
  | epcOff (event : Sexp)
  | utilizationOn
  | utilizationOff
  | hwinfo
  | hwname
  | cpuinfo
  | checkCounters (n : Sexp)
  | init

/-- The call of an entry point; `none` if the library's enumeration has more than `fuel` events. -/
def Entry.run (fuel : Nat) : Entry → RM σ (Option Sexp)
  | .eventAvail which => papiEventAvail P fuel which
  | .eventCounterInit which => some <$> papiEventCounterInit P which
  | .eventCounterOn which => some <$> papiEventCounterOn P which
  | .eventCounterOff which => some <$> papiEventCounterOff P which
  | .flopsOn => some <$> papiFlopsOn P
  | .flopsOff => some <$> papiFlopsOff P
  | .flipsOn => some <$> papiFlipsOn P
  | .flipsOff => some <$> papiFlipsOff P
  | .epcOn event => some <$> papiEpcOn P event
  | .epcOff event => some <$> papiEpcOff P event
  | .utilizationOn => some <$> papiUtilizationOn P
  | .utilizationOff => some <$> papiUtilizationOff P
  | .hwinfo => some <$> papiHwinfo P
  | .hwname => some <$> papiHwname P
  | .cpuinfo => some <$> rPapiCpuinfo P
  | .checkCounters n => some <$> papiCheckCounters P n
  | .init => some <$> papiInit P

/-- When the call returns, it has popped what it pushed, and never more. -/
def BalancedCall (e : Entry) (w : World σ) : Prop :=
  ∀ fuel ret w', (e.run P fuel).run w = .ok (some ret) w' →
    ∃ l, w'.prot = w.prot ++ l ∧ Stack.Balanced l

/-- The codes that the loop of `papi_event_counter_off` reads, if they can be read. -/
def codesOf (which : Sexp) : Option (List Int) :=
  if which.length = 0 then some []
  else match which with
    | .int v => some v
    | .lgl v => some (v.map fun b => if b then 1 else 0)
    | _ => none

/-- The condition: in `papi_event_avail` no lookup of a name fails, or the first that fails is the
second; in `papi_event_counter_off` no lookup of a code fails after a successful stop. -/
def LookupsSafe (w : World σ) : Entry → Prop
  | .eventAvail (.str names) =>
    ∀ i, firstUnknown P 0 names w.locals.id w.locals.ev w.lib = some i → i = 1
  | .eventCounterOff which =>
    (P.stopCounters which.length w.lib).1.1 = papiOK → ∀ codes, codesOf which = some codes →
      infoFails P codes w.locals.ev (P.stopCounters which.length w.lib).2 = false
  | _ => True

variable {P}

theorem balanced_of_runs {e : Entry} (h : ∀ fuel, Runs 0 0 (e.run P fuel)) (w : World σ) :
    BalancedCall P e w := by
  intro fuel ret w' hr
  obtain ⟨l, hp, hl⟩ := h fuel w _ w' hr
  exact ⟨l, hp, Stack.balanced_iff.2 hl⟩

/-- A call whose operations on the stack are known. -/
theorem balanced_iff_of_run {e : Entry} {w : World σ} {l : List Stack.Op}
    (h : ∀ fuel, ∃ ret w', (e.run P fuel).run w = .ok (some ret) w' ∧ w'.prot = w.prot ++ l) :
    BalancedCall P e w ↔ Stack.run 0 l = some 0 := by
  rw [← Stack.balanced_iff]
  constructor
  · intro hb
    obtain ⟨ret, w', hr, hp⟩ := h 0
    obtain ⟨l', hp', hl'⟩ := hb 0 ret w' hr
    rwa [List.append_cancel_left (hp.symm.trans hp')]
  · intro hl fuel ret w' hr
    obtain ⟨ret₁, w₁, hr₁, hp₁⟩ := h fuel
    rw [hr₁] at hr
    cases hr
    exact ⟨l, hp₁, hl⟩

theorem papiEventAvail_names {name : String} {names : List String} (fuel : Nat) (w : World σ) :
    ∃ ret w', (papiEventAvail P fuel (.str (name :: names))).run w = .ok (some ret) w' ∧
      w'.prot = w.prot ++
        match firstUnknown P 0 (name :: names) w.locals.id w.locals.ev w.lib with
        | some i => [.push, .push, .push, .push, .pop (i + 3), .push, .pop 1]
        | none => [.push, .push, .push, .push, .pop 4] := by
  obtain ⟨r, w₁, hr, hp, hres⟩ := availRows_run P 0 (name :: names) w.locals.id w.locals.ev
    { w with
      prot := w.prot ++ [.push] ++ [.push] ++ [.push] ++ [.push]
      fresh := fun k => w.fresh (k + (names.length + 1)) }
  have he : papiEnoevnt ≠ papiOK := by decide
  simp only [papiEventAvail, EStateM.run_bind, EStateM.run_get, protect_run, allocInts_run, hr]
  rw [← hres]
  cases r with
  | error i =>
    simp only [EStateM.run_bind, unprotect_run, rPapiError, he, if_false, protect_run,
      EStateM.run_pure, hp]
    exact ⟨_, _, rfl, by simp [failedAt]⟩
  | ok rows =>
    simp only [EStateM.run_bind, unprotect_run, EStateM.run_pure, hp]
    exact ⟨_, _, rfl, by simp [failedAt]⟩

theorem allEvents_runs (fuel : Nat) (locals : Locals) : Runs 0 0 (allEvents P fuel locals) := by
  refine .bind (.call _) fun _ => .bind (countEvents_runs P 0 fuel _) fun num => ?_
  cases num with
  | none => exact .pure _
  | some num =>
    exact .bind .protect fun _ => .bind .protect fun _ => .bind (.allocInts _) fun _ =>
      .bind .protect fun _ => .bind .protect fun _ => .bind (.call _) fun _ =>
      .bind (fillEvents_runs P 4 num _ _) fun _ => .bind .release fun _ => .pure _

theorem papiEventAvail_all (fuel : Nat) {which : Sexp} (h : ∀ v, which = .str v → v = []) :
    Runs 0 0 (papiEventAvail P fuel which) := by
  refine .bind .get ?_
  intro w
  cases which with
  | str v =>
    cases h v rfl
    exact allEvents_runs fuel _
  | _ => exact allEvents_runs fuel _

theorem loopCodes_ok {which : Sexp} {codes : List Int} (h : codesOf which = some codes)
    (w : World σ) : (loopCodes which).run w = .ok codes w := by
  unfold codesOf at h
  unfold loopCodes
  split at h
  · rename_i h₀
    cases h
    rw [if_pos h₀]
    rfl
  · rename_i h₀
    rw [if_neg h₀]
    split at h <;> cases h <;> rfl

theorem loopCodes_error {which : Sexp} (h : codesOf which = none) (w : World σ) :
    ∃ c, (loopCodes which).run w = .error c w := by
  unfold codesOf at h
  unfold loopCodes
  split at h
  · cases h
  · rename_i h₀
    rw [if_neg h₀]
    cases which <;> first | exact ⟨_, rfl⟩ | cases h

theorem codesOf_length {which : Sexp} {codes : List Int} (h : codesOf which = some codes) :
    codes.length = which.length := by
  unfold codesOf at h
  split at h
  · rename_i h₀
    cases h
    exact h₀.symm
  · split at h <;> cases h
    · rfl
    · simp [Sexp.length]

theorem papiEventCounterOff_failed {which : Sexp} {w : World σ}
    (h : (P.stopCounters which.length w.lib).1.1 ≠ papiOK) :
    ∃ ret w', (papiEventCounterOff P which).run w = .ok ret w' ∧
      w'.prot = w.prot ++ [.push, .pop 1] := by
  simp only [papiEventCounterOff, EStateM.run_bind, malloc_run, call_run, h, ne_eq,
    not_false_eq_true, if_true, errorVec, allocInt_run, protect_run, EStateM.run_pure,
    unprotect_run]
  exact ⟨_, _, rfl, by simp⟩

theorem papiEventCounterOff_unread {which : Sexp} {w : World σ}
    (h : (P.stopCounters which.length w.lib).1.1 = papiOK) (hc : codesOf which = none) :
    ∃ c w', (papiEventCounterOff P which).run w = .error c w' := by
  obtain ⟨c, hl⟩ := loopCodes_error hc
    { w with
      lib := (P.stopCounters which.length w.lib).2
      heap := fun k => w.heap (k + which.length)
      prot := w.prot ++ [.push] ++ [.push] }
  simp only [papiEventCounterOff, EStateM.run_bind, malloc_run, call_run, h, ne_eq,
    not_true_eq_false, if_false, protect_run, hl]
  exact ⟨c, _, rfl⟩

/-- After a successful stop, the stack holds two slots and one for each pass of the loop. -/
theorem papiEventCounterOff_stopped {which : Sexp} {w : World σ} {codes : List Int}
    (h : (P.stopCounters which.length w.lib).1.1 = papiOK) (hc : codesOf which = some codes) :
    ∃ ret w', (papiEventCounterOff P which).run w = .ok ret w' ∧
      if infoFails P codes w.locals.ev (P.stopCounters which.length w.lib).2 then
        ∃ k, w'.prot = w.prot ++ (List.replicate (k + 3) .push ++ [.pop 2])
      else w'.prot = w.prot ++
        (List.replicate (which.length + 2) .push ++ [.pop (which.length + 2)]) := by
  have hlen := codesOf_length hc
  have hzip (written : List Int) (f : Nat → Int) :
      codes.length ≤ (overwrite ((List.range which.length).map f) written).length := by
    simp only [overwrite, List.length_append, List.length_drop, List.length_map, List.length_range]
    omega
  simp only [papiEventCounterOff, EStateM.run_bind, malloc_run, call_run, h, ne_eq,
    not_true_eq_false, if_false, protect_run, loopCodes_ok hc, EStateM.run_get]
  obtain ⟨r, w₁, hr, hres⟩ := setListVars_prot P
    (codes.zip (overwrite ((List.range which.length).map w.heap)
      (P.stopCounters which.length w.lib).1.2)) w.locals.ev
    { w with
      lib := (P.stopCounters which.length w.lib).2
      heap := fun k => w.heap (k + which.length)
      prot := w.prot ++ [.push] ++ [.push] }
  rw [hr]
  rw [List.map_fst_zip (hzip _ _), List.length_zip, Nat.min_eq_left (hzip _ _), hlen] at hres
  dsimp only at hres
  split at hres
  · rename_i hf
    obtain ⟨rfl, k, hk⟩ := hres
    refine ⟨_, _, rfl, ?_⟩
    rw [if_pos hf]
    refine ⟨k, ?_⟩
    show w₁.prot ++ [.pop 2] = _
    rw [hk]
    simp [List.replicate_succ]
  · rename_i hf
    obtain ⟨v, rfl⟩ := Option.isSome_iff_exists.1 hres.1
    refine ⟨_, _, rfl, ?_⟩
    rw [if_neg hf]
    show w₁.prot ++ [.pop (which.length + 2)] = _
    rw [hres.2]
    simp [List.replicate_succ]

/-- `papi_event_avail` for names: balanced unless the first unknown name is not the second. -/
theorem eventAvail_balanced (name : String) (names : List String) (w : World σ) :
    BalancedCall P (.eventAvail (.str (name :: names))) w ↔
      LookupsSafe P w (.eventAvail (.str (name :: names))) := by
  rw [balanced_iff_of_run fun fuel => papiEventAvail_names fuel w]
  show _ ↔ ∀ i, firstUnknown P 0 (name :: names) w.locals.id w.locals.ev w.lib = some i → i = 1
  cases firstUnknown P 0 (name :: names) w.locals.id w.locals.ev w.lib with
  | none => simp [Stack.run]
  | some i =>
    simp only [Option.some.injEq, forall_eq']
    show Stack.run 4 [.pop (i + 3), .push, .pop 1] = some 0 ↔ i = 1
    by_cases h : i + 3 ≤ 4
    · rw [Stack.run_pop h, Stack.run_push, Stack.run_pop (by omega), Stack.run_nil,
        Option.some.injEq]
      omega
    · rw [Stack.run_pop_lt (by omega)]
      refine iff_of_false (by simp) (by omega)

theorem run_pushes (n m : Nat) (h : m ≤ n) :
    Stack.run 0 (List.replicate n .push ++ [.pop m]) = some (n - m) := by
  rw [Stack.run_replicate_push, Nat.zero_add, Stack.run_pop h]
  rfl

/-- `papi_event_counter_off`: balanced unless the lookup of a code fails. -/
theorem eventCounterOff_balanced (which : Sexp) (w : World σ) :
    BalancedCall P (.eventCounterOff which) w ↔ LookupsSafe P w (.eventCounterOff which) := by
  have hrun {l : List Stack.Op} (h : ∃ ret w', (papiEventCounterOff P which).run w = .ok ret w' ∧
      w'.prot = w.prot ++ l) : BalancedCall P (.eventCounterOff which) w ↔
        Stack.run 0 l = some 0 := by
    obtain ⟨ret, w', hr, hp⟩ := h
    exact balanced_iff_of_run fun fuel => ⟨ret, w', by rw [Entry.run, map_run, hr], hp⟩
  by_cases h : (P.stopCounters which.length w.lib).1.1 = papiOK
  · cases hc : codesOf which with
    | none =>
      refine iff_of_true (fun fuel ret w' hr => ?_) fun _ codes hcodes => ?_
      swap
      · rw [hc] at hcodes
        cases hcodes
      obtain ⟨c, w₁, he⟩ := papiEventCounterOff_unread h hc
      rw [Entry.run, map_run, he] at hr
      cases hr
    | some codes =>
      obtain ⟨ret, w', hr, hres⟩ := papiEventCounterOff_stopped h hc
      split at hres
      · rename_i hf
        obtain ⟨k, hk⟩ := hres
        rw [hrun ⟨ret, w', hr, hk⟩, run_pushes _ _ (by omega)]
        refine iff_of_false (by simp) ?_
        intro hsafe
        rw [hsafe h codes hc] at hf
        cases hf
      · rename_i hf
        rw [hrun ⟨ret, w', hr, hres⟩, run_pushes _ _ (Nat.le_refl _)]
        refine iff_of_true (by simp) ?_
        intro _ codes' hcodes
        rw [hc] at hcodes
        cases hcodes
        simpa using hf
  · rw [hrun (papiEventCounterOff_failed h)]
    exact iff_of_true (by decide) fun h' => absurd h' h

/-- Every entry point is balanced, for every library, argument and return codes, exactly if its
lookups are safe. -/
theorem entry_balanced (P : Papi σ) (e : Entry) (w : World σ) :
    BalancedCall P e w ↔ LookupsSafe P w e := by
  cases e with
  | eventAvail which =>
    have hall (h : ∀ v, which = .str v → v = []) : BalancedCall P (.eventAvail which) w := by
      have hr : ∀ fuel, Runs 0 0 ((Entry.eventAvail which).run P fuel) :=
        fun fuel => papiEventAvail_all fuel h
      exact balanced_of_runs hr w
    cases which with
    | str v =>
      cases v with
      | nil => exact iff_of_true (hall fun v hv => by cases hv; rfl) fun i hi => by cases hi
      | cons name names => exact eventAvail_balanced name names w
    | _ => exact iff_of_true (hall fun v hv => by cases hv) trivial
  | eventCounterOff which => exact eventCounterOff_balanced which w
  | eventCounterInit which =>
    exact iff_of_true (balanced_of_runs (fun _ => .map _ (papiEventCounterInit_runs P which)) w)
      trivial
  | eventCounterOn which =>
    exact iff_of_true (balanced_of_runs (fun _ => .map _ (papiEventCounterOn_runs P which)) w)
      trivial
  | flopsOn =>
    exact iff_of_true (balanced_of_runs (fun _ => .map _ (rateOn_runs P (.pure _))) w) trivial
  | flopsOff =>
    exact iff_of_true (balanced_of_runs (fun _ => .map _ (setretOff_runs P _ _ _)) w) trivial
  | flipsOn =>
    exact iff_of_true (balanced_of_runs (fun _ => .map _ (rateOn_runs P (.pure _))) w) trivial
  | flipsOff =>
    exact iff_of_true (balanced_of_runs (fun _ => .map _ (setretOff_runs P _ _ _)) w) trivial
  | epcOn event =>
    exact iff_of_true (balanced_of_runs (fun _ => .map _ (rateOn_runs P (.bind (.integer0 event)
      fun _ => .pure _))) w) trivial
  | epcOff event =>
    exact iff_of_true (balanced_of_runs (fun _ => .map _ (papiEpcOff_runs P event)) w) trivial
  | utilizationOn =>
    exact iff_of_true (balanced_of_runs (fun _ => .map _ (papiUtilizationOn_runs P)) w) trivial
  | utilizationOff =>
    exact iff_of_true (balanced_of_runs (fun _ => .map _ (papiUtilizationOff_runs P)) w) trivial
  | hwinfo => exact iff_of_true (balanced_of_runs (fun _ => .map _ (papiHwinfo_runs P)) w) trivial
  | hwname => exact iff_of_true (balanced_of_runs (fun _ => .map _ (papiHwname_runs P)) w) trivial
  | cpuinfo =>
    exact iff_of_true (balanced_of_runs (fun _ => .map _ (rPapiCpuinfo_runs P)) w) trivial
  | checkCounters n =>
    exact iff_of_true (balanced_of_runs (fun _ => .map _ (papiCheckCounters_runs P n)) w) trivial
  | init => exact iff_of_true (balanced_of_runs (fun _ => .map _ (papiInit_runs P)) w) trivial

end

/-- A library whose lookups of codes fail. -/
def forgetful : Papi Hl.State :=
  { Hl.papi Api.smallHw with
    stopCounters := fun _ s => ((papiOK, []), s)
    getEventInfo := fun _ ev s => ((papiEnoevnt, ev), s) }

/-- An unknown first name leaves a slot on the stack, and so does a code without info. -/
theorem entry_not_balanced :
    ¬ BalancedCall (Hl.papi Api.smallHw) (.eventAvail (.str ["PAPI_NONE"])) Api.smallWorld ∧
    ¬ BalancedCall forgetful (.eventCounterOff (.int [Hl.papiFpOps])) Api.smallWorld := by
  constructor
  · rw [eventAvail_balanced]
    intro h
    exact absurd (h 0 (by decide)) (by decide)
  · rw [eventCounterOff_balanced]
    intro h
    exact absurd (h rfl [Hl.papiFpOps] rfl) (by decide)

end PbdPapi.Proof
