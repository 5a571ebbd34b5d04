import PbdPapi.Proof.Calls
import PbdPapi.Api.Program

/-!
# The status of an on call

The on functions of flops, flips and epc write their status vector on failure only, and the R code
tests what `allocVector` left in it otherwise. `papiRate_transparent`: for which contents
`papi.flops` and its siblings evaluate their expression exactly if the library's return code is
`PAPI_OK`, and two calls that differ in R's fresh memory only end alike.
-/

set_option autoImplicit false

namespace PbdPapi.Proof

open Exec C Api

variable {σ : Type} (P : Papi σ)

/-- The library's return code of the on call of a `papi.` rate function called in `w`. -/
def onCode (k : RateKind) (event : Sexp) (w : World σ) : Int :=
  (P.rate (k.rate event) w.locals.out (P.numCounters w.lib).2).1.1

/-- A `papi.` rate function from the evaluation of its expression on. -/
def papiRateGo (k : RateKind) (event : Sexp) (expr : Prom σ) : RM σ Measurement := do
  let s₀ := (← get).lib
  let _ ← reval expr
  let s₁ := (← get).lib
  let ret ← papiRateFinish P k event
  record (.done (k.rate event) s₀ s₁ ret)
  return ret

/-- The function evaluates its expression, whichever it is, where the on call ended, and goes on
from there. -/
def Evaluates (k : RateKind) (event : Sexp) (w : World σ) : Prop :=
  ∀ expr, (papiRate P k event expr).run w =
    (papiRateGo P k event expr).run (afterStart P k event w)

/-- The function ends with the error `c` where the on call ended, whatever its expression is. -/
def StopsWith (c : RError) (k : RateKind) (event : Sexp) (w : World σ) : Prop :=
  ∀ expr, (papiRate P k event expr).run w = .error c (afterStart P k event w)

/-- The function evaluates its expression if the on call succeeded, and stops with the
initialisation error if not. -/
def FollowsCode (k : RateKind) (event : Sexp) (w : World σ) : Prop :=
  (onCode P k event w = papiOK → Evaluates P k event w) ∧
    (onCode P k event w ≠ papiOK → StopsWith P (simpleError initText) k event w)

/-- The status is written, or the memory behind it reads neither `-1` nor `NA`. `w.fresh 1` is the
content of the second integer vector that R allocates from `w` on, the first being that of
`papi_check_counters`. -/
def StatusClean (k : RateKind) (event : Sexp) (w : World σ) : Prop :=
  k = .utilization ∨ onCode P k event w ≠ papiOK ∨ (w.fresh 1 ≠ -1 ∧ w.fresh 1 ≠ naInteger)

/-! ## The test of the status -/

theorem startStatus_eq (k : RateKind) (event : Sexp) (w : World σ) :
    startStatus P k event w = onStatus k (onCode P k event w) (w.fresh 1) := rfl

theorem papiRate_eq (k : RateKind) (event : Sexp) (expr : Prom σ) :
    papiRate P k event expr = papiRateStart P k event >>= fun _ => papiRateGo P k event expr := rfl

theorem not_bad_iff (k : RateKind) (event : Sexp) (w : World σ) :
    ¬ Bad (startStatus P k event w) ↔ onCode P k event w = papiOK ∧ StatusClean P k event w := by
  rw [startStatus_eq]
  by_cases hc : onCode P k event w = papiOK
  · by_cases hk : k = .utilization
    · subst hk
      simp [StatusClean, onStatus, hc, Bad, pbdOK, naInteger]
    · simp [StatusClean, onStatus, hc, hk, Bad]
  · simp [onStatus, hc, Bad, pbdError]

section
variable {k : RateKind} {event : Sexp} (hr : Reads k event) {w : World σ} (hn : Counts P 3 w.lib)
include hr hn

theorem evaluates_of_not_bad (hb : ¬ Bad (startStatus P k event w)) : Evaluates P k event w := by
  intro expr
  have hs : (papiRateStart P k event).run w = .ok () (afterStart P k event w) := by
    rw [papiRateStart_run P hr hn]
    rcases ifEq_bad (startStatus P k event w) with ⟨-, hi⟩ | ⟨hb', -⟩
    · rw [hi]
    · exact absurd hb' hb
  rw [papiRate_eq, bind_of_ok hs]

theorem stopsWith_of_bad (hb : Bad (startStatus P k event w)) : ∃ c, StopsWith P c k event w := by
  have hs : ∃ c, (papiRateStart P k event).run w = .error c (afterStart P k event w) := by
    rw [papiRateStart_run P hr hn]
    rcases ifEq_bad (startStatus P k event w) with ⟨hb', -⟩ | ⟨-, hi | ⟨c, hi⟩⟩
    · exact absurd hb hb'
    · exact ⟨_, by rw [hi]⟩
    · exact ⟨c, by rw [hi]⟩
  obtain ⟨c, hs⟩ := hs
  exact ⟨c, fun expr => by rw [papiRate_eq, bind_of_error hs]⟩

/-- A status that reads `-1` stops the function with the initialisation error. -/
theorem stopsWith_of_minus (hst : startStatus P k event w = -1) :
    StopsWith P (simpleError initText) k event w := by
  intro expr
  have hs : (papiRateStart P k event).run w =
      .error (simpleError initText) (afterStart P k event w) := by
    rw [papiRateStart_run P hr hn, hst]
    rfl
  rw [papiRate_eq, bind_of_error hs]

/-- A failed on call writes its status. -/
theorem stopsWith_of_ne (hc : onCode P k event w ≠ papiOK) :
    StopsWith P (simpleError initText) k event w := by
  refine stopsWith_of_minus P hr hn ?_
  rw [startStatus_eq]
  simp [onStatus, hc, pbdError]

end

/-- A function that stops evaluates nothing: two expressions with errors of their own would end in
these. -/
theorem StopsWith.not_evaluates {k : RateKind} {event : Sexp} {w : World σ} {c : RError}
    (h : StopsWith P c k event w) : ¬ Evaluates P k event w := by
  intro he
  have hend (c' : RError) : c = c' := by
    have hgo : (papiRateGo P k event (throw c' : RM σ (Val σ))).run (afterStart P k event w) =
        .error c' (afterStart P k event w) := rfl
    have := (h (throw c' : RM σ (Val σ))).symm.trans ((he _).trans hgo)
    cases this
    rfl
  have := (hend (simpleError "a")).symm.trans (hend (simpleError "b"))
  simp [simpleError] at this

theorem evaluates_iff {k : RateKind} {event : Sexp} (hr : Reads k event) {w : World σ}
    (hn : Counts P 3 w.lib) : Evaluates P k event w ↔ ¬ Bad (startStatus P k event w) := by
  refine ⟨fun he hb => ?_, evaluates_of_not_bad P hr hn⟩
  obtain ⟨c, hs⟩ := stopsWith_of_bad P hr hn hb
  exact hs.not_evaluates P he

/-! ## Runs that differ in fresh memory -/

/-- Two states that differ in R's fresh memory only. -/
def SameButFresh (w w' : World σ) : Prop := ∃ fresh, w' = { w with fresh := fresh }

theorem afterStart_fresh (k : RateKind) (event : Sexp) (w : World σ) (fresh : Nat → Int) :
    SameButFresh (afterStart P k event w) (afterStart P k event { w with fresh := fresh }) :=
  ⟨fun j => fresh (j + 1 + 1), rfl⟩

theorem SameButFresh.lib {w w' : World σ} (h : SameButFresh w w') : w'.lib = w.lib := by
  obtain ⟨fresh, rfl⟩ := h
  rfl

/-- The off functions write whatever they allocate. -/
theorem off_alike {k : RateKind} {event : Sexp} (hr : Reads k event) {w w' : World σ}
    (h : SameButFresh w w') :
    Alike SameButFresh ((k.off P event).run w) ((k.off P event).run w') := by
  obtain ⟨fresh, rfl⟩ := h
  have hset (r : Rate) (xlab ylab : String) : Alike SameButFresh ((setretOff P r xlab ylab).run w)
      ((setretOff P r xlab ylab).run { w with fresh := fresh }) := by
    by_cases hc : (P.rate r w.locals.out w.lib).1.1 = papiOK
    · simp only [setretOff, rPapiSetret, EStateM.run_bind, EStateM.run_get, call_run, hc, ne_eq,
        not_true_eq_false, if_false, protect_run, unprotect_run]
      exact ⟨rfl, _, rfl⟩
    · simp only [setretOff, rPapiSetret, EStateM.run_bind, EStateM.run_get, call_run, hc, ne_eq,
        not_false_eq_true, if_true, errorVec, allocInt_run, protect_run, EStateM.run_pure,
        unprotect_run]
      exact ⟨rfl, _, rfl⟩
  cases k with
  | flops => exact hset .flops "flpops" "mflops"
  | flips => exact hset .flips "flpins" "mflips"
  | epc =>
    by_cases hc : (P.rate (.epc (firstCode event)) w.locals.out w.lib).1.1 = papiOK
    · simp only [RateKind.off, papiEpcOff, EStateM.run_bind, integer0_run hr rfl,
        EStateM.run_get, call_run, hc, ne_eq, not_true_eq_false, if_false, protect_run,
        unprotect_run]
      exact ⟨rfl, _, rfl⟩
    · simp only [RateKind.off, papiEpcOff, EStateM.run_bind, integer0_run hr rfl,
        EStateM.run_get, call_run, hc, ne_eq, not_false_eq_true, if_true, errorVec, allocInt_run,
        protect_run, EStateM.run_pure, unprotect_run]
      exact ⟨rfl, _, rfl⟩
  | utilization =>
    by_cases hc : (P.rate .ipc w.locals.out w.lib).1.1 = papiOK
    · simp only [RateKind.off, papiUtilizationOff, EStateM.run_bind, EStateM.run_get, call_run, hc,
        ne_eq, not_true_eq_false, if_false, protect_run, unprotect_run]
      exact ⟨rfl, _, rfl⟩
    · simp only [RateKind.off, papiUtilizationOff, EStateM.run_bind, EStateM.run_get, call_run, hc,
        ne_eq, not_false_eq_true, if_true, errorVec, allocInt_run, protect_run, EStateM.run_pure,
        unprotect_run]
      exact ⟨rfl, _, rfl⟩

theorem papiRateFinish_alike {k : RateKind} {event : Sexp} (hr : Reads k event) {w w' : World σ}
    (h : SameButFresh w w') :
    Alike SameButFresh ((papiRateFinish P k event).run w) ((papiRateFinish P k event).run w') := by
  refine (off_alike P hr h).bind fun ret w₁ w₁' h₁ => ?_
  split
  · exact ⟨rfl, h₁⟩
  · cases ret <;> exact ⟨rfl, h₁⟩

theorem papiRateGo_alike {k : RateKind} {event : Sexp} (hr : Reads k event) {expr : Prom σ}
    {w w' : World σ} (h : SameButFresh w w')
    (he : Alike SameButFresh ((reval expr).run w) ((reval expr).run w')) :
    Alike SameButFresh ((papiRateGo P k event expr).run w)
      ((papiRateGo P k event expr).run w') := by
  -- the function reads the state's library twice, before and after the expression
  let rest (s₀ : σ) : RM σ Measurement := do
    let s₁ := (← get).lib
    let ret ← papiRateFinish P k event
    record (.done (k.rate event) s₀ s₁ ret)
    return ret
  show Alike SameButFresh ((reval expr >>= fun _ => rest w.lib).run w)
    ((reval expr >>= fun _ => rest w'.lib).run w')
  rw [h.lib]
  refine he.bind fun _ w₁ w₁' h₁ => ?_
  let last (s₁ : σ) (ret : Measurement) : RM σ Measurement := do
    record (.done (k.rate event) w.lib s₁ ret)
    return ret
  show Alike SameButFresh ((papiRateFinish P k event >>= last w₁.lib).run w₁)
    ((papiRateFinish P k event >>= last w₁'.lib).run w₁')
  rw [h₁.lib]
  refine (papiRateFinish_alike P hr h₁).bind fun ret w₂ w₂' h₂ => ?_
  obtain ⟨fresh, rfl⟩ := h₂
  exact ⟨rfl, _, rfl⟩

/-- `papi.flops` and its siblings follow the library's code exactly if the status is clean, and if
it is not, they stop whatever the expression is; and two calls that differ in R's fresh memory only,
both clean, end alike if the expression does where it is evaluated. -/
theorem papiRate_transparent {k : RateKind} {event : Sexp} (hr : Reads k event) {w : World σ}
    (hn : Counts P 3 w.lib) :
    (FollowsCode P k event w ↔ StatusClean P k event w) ∧
    (¬ StatusClean P k event w → ∃ c, StopsWith P c k event w) ∧
    ∀ fresh, StatusClean P k event w → StatusClean P k event { w with fresh := fresh } →
      SameButFresh (afterStart P k event w) (afterStart P k event { w with fresh := fresh }) ∧
      ∀ expr, (onCode P k event w = papiOK →
          Alike SameButFresh ((reval expr).run (afterStart P k event w))
            ((reval expr).run (afterStart P k event { w with fresh := fresh }))) →
        Alike SameButFresh ((papiRate P k event expr).run w)
          ((papiRate P k event expr).run { w with fresh := fresh }) := by
  have hgo := evaluates_iff P hr hn
  rw [not_bad_iff] at hgo
  refine ⟨⟨fun h => ?_, fun h => ⟨fun hc => hgo.2 ⟨hc, h⟩, stopsWith_of_ne P hr hn⟩⟩,
    fun h => stopsWith_of_bad P hr hn ?_, fun fresh h h' => ⟨afterStart_fresh P k event w fresh,
      fun expr he => ?_⟩⟩
  · by_cases hc : onCode P k event w = papiOK
    · exact (hgo.1 (h.1 hc)).2
    · exact .inr (.inl hc)
  · by_contra hb
    exact h ((not_bad_iff P k event w).1 hb).2
  · have hn' : Counts P 3 ({ w with fresh := fresh } : World σ).lib := hn
    have hcode : onCode P k event { w with fresh := fresh } = onCode P k event w := rfl
    by_cases hc : onCode P k event w = papiOK
    · have hgo' := (evaluates_iff P hr hn').2 ((not_bad_iff P k event _).2 ⟨hcode.trans hc, h'⟩)
      rw [hgo.2 ⟨hc, h⟩ expr, hgo' expr]
      exact papiRateGo_alike P hr (afterStart_fresh P k event w fresh) (he hc)
    · rw [stopsWith_of_ne P hr hn hc expr, stopsWith_of_ne P hr hn' (hcode ▸ hc) expr]
      exact ⟨rfl, afterStart_fresh P k event w fresh⟩

/-- The small machine with other memory. -/
def filledWorld (content : Int) : World Hl.State := { smallWorld with fresh := fun _ => content }

/-- Five floating point operations. -/
def fiveOps : Prom Hl.State := Expr.prom smallHw (.work (flopsClock 5) (.value .null))

theorem papiRate_transparent_small :
    FollowsCode (Hl.papi smallHw) .flops .null smallWorld ∧
    ¬ FollowsCode (Hl.papi smallHw) .flops .null (filledWorld (-1)) ∧
    Alike SameButFresh ((papiFlops (Hl.papi smallHw) fiveOps).run smallWorld)
      ((papiFlops (Hl.papi smallHw) fiveOps).run (filledWorld 7)) := by
  have hr : Reads .flops .null := fun h => by cases h
  have hn : Counts (Hl.papi smallHw) 3 smallWorld.lib := ⟨by decide, by decide⟩
  have hn' : Counts (Hl.papi smallHw) 3 (filledWorld (-1)).lib := ⟨by decide, by decide⟩
  have hclean : StatusClean (Hl.papi smallHw) .flops .null smallWorld :=
    .inr (.inr ⟨by decide, by decide⟩)
  refine ⟨(papiRate_transparent _ hr hn).1.2 hclean, fun h => ?_, ?_⟩
  · rcases (papiRate_transparent _ hr hn').1.1 h with h | h | h
    · cases h
    · exact h (by decide)
    · exact h.1 rfl
  · obtain ⟨-, halike⟩ := (papiRate_transparent _ hr hn).2.2 (fun _ => 7) hclean
      (.inr (.inr ⟨by decide, by decide⟩))
    exact halike fiveOps fun _ => ⟨rfl, _, rfl⟩

/-- `PAPI_flops` succeeds, and `papi.flops` stops with the initialisation error, whatever its
expression is. -/
theorem filledWorld_stops : onCode (Hl.papi smallHw) .flops .null (filledWorld (-1)) = papiOK ∧
    StopsWith (Hl.papi smallHw) (simpleError initText) .flops .null (filledWorld (-1)) ∧
    ¬ FollowsCode (Hl.papi smallHw) .flops .null (filledWorld (-1)) := by
  have hs : StopsWith (Hl.papi smallHw) (simpleError initText) .flops .null (filledWorld (-1)) :=
    stopsWith_of_minus _ (fun h => by cases h) ⟨by decide, by decide⟩ (by decide)
  exact ⟨by decide, hs, fun h => hs.not_evaluates _ (h.1 (by decide))⟩

end PbdPapi.Proof
