import PbdPapi.Api.Wrappers

/-!
# The rate calls over any library

What the halves of a `papi.` rate function do, for an arbitrary library: the gate
(`papiCheckNcounters_pass`), the on call with the test of its status (`papiRateStart_run`), the off
call (`papiRateFinish_run`), and a whole call read backwards (`papiRate_ok`, `papiRate_error`).
-/

set_option autoImplicit false

namespace PbdPapi.Proof

open Exec C Api

variable {σ : Type}

/-! ## Frames -/

/-- A step that changes the library and R's bookkeeping only. -/
structure Side (w w' : World σ) : Prop where
  trace : w'.trace = w.trace
  avail : w'.avail = w.avail
  locals : w'.locals = w.locals

/-- A step that changes R's bookkeeping only. -/
structure Same (w w' : World σ) : Prop extends Side w w' where
  lib : w'.lib = w.lib

instance : IsPreorder (World σ) Side where
  refl _ := ⟨rfl, rfl, rfl⟩
  trans _ _ _ h₁ h₂ :=
    ⟨h₂.trace.trans h₁.trace, h₂.avail.trans h₁.avail, h₂.locals.trans h₁.locals⟩

instance : IsPreorder (World σ) Same where
  refl w := ⟨refl w, rfl⟩
  trans _ _ _ h₁ h₂ := ⟨IsTrans.trans _ _ _ h₁.toSide h₂.toSide, h₂.lib.trans h₁.lib⟩

/-- The availability gate reads the table only. -/
theorem availLookup_run (events : List String) (shorthand : Option String) (w : World σ) :
    (availLookup events shorthand).run w =
      match papiAvailLookup w.avail events shorthand with
      | .ok u => .ok u w
      | .error c => .error c w := by
  unfold availLookup
  rw [bind_of_ok (EStateM.run_get w), liftR_run]
  cases papiAvailLookup w.avail events shorthand <;> rfl

section
variable (P : Papi σ)

/-! ## The gate of the hardware counters -/

/-- The counters suffice for `n` events. -/
def Counts (n : Nat) (s : σ) : Prop := 0 < (P.numCounters s).1 ∧ (n : Int) ≤ (P.numCounters s).1

/-- The state after `papi.check.ncounters`: the library was asked, an integer of status was
allocated, protected and released. -/
def afterCheck (w : World σ) : World σ :=
  { w with
    lib := (P.numCounters w.lib).2
    fresh := fun k => w.fresh (k + 1)
    prot := w.prot ++ [.push] ++ [.pop 1] }

/-- The status of `papi_check_counters(n)`. -/
def checkStatus (n : Nat) (s : σ) : Int :=
  if (P.numCounters s).1 ≤ 0 then noCounters
  else if (P.numCounters s).1 < n then notEnoughCounters
  else (P.numCounters s).1

theorem papiCheckCounters_run (n : Nat) (w : World σ) :
    (papiCheckCounters P (.int [n])).run w =
      .ok (.int [checkStatus P n w.lib]) (afterCheck P w) := by
  by_cases h : (P.numCounters w.lib).1 ≤ 0
  · simp [papiCheckCounters, h, checkStatus, afterCheck]
  · simp [papiCheckCounters, Sexp.integer0, h, checkStatus, afterCheck]

/-- `papi.check.ncounters(n)` lets the call through exactly when the counters suffice. -/
theorem papiCheckNcounters_pass {n : Nat} {w : World σ} (hn : Counts P n w.lib) :
    (papiCheckNcounters P n).run w =
      .ok (.int [(P.numCounters w.lib).1]) (afterCheck P w) := by
  obtain ⟨h₀, h₁⟩ := hn
  have hs : checkStatus P n w.lib = (P.numCounters w.lib).1 := by
    rw [checkStatus, if_neg (by omega), if_neg (by omega)]
  have h₂ : (P.numCounters w.lib).1 ≠ -2 := by omega
  have h₃ : (P.numCounters w.lib).1 ≠ -1 := by omega
  simp [papiCheckNcounters, papiCheckCounters_run, hs, h₂, h₃]

theorem papiCheckNcounters_fail {n : Nat} {w : World σ} (hn : ¬ Counts P n w.lib) :
    ∃ c, (papiCheckNcounters P n).run w = .error c (afterCheck P w) := by
  have hs : checkStatus P n w.lib = -2 ∨ checkStatus P n w.lib = -1 := by
    by_cases h : (P.numCounters w.lib).1 ≤ 0
    · simp [checkStatus, h, noCounters]
    · have h' : (P.numCounters w.lib).1 < n := by
        by_contra h'
        exact hn ⟨by omega, by omega⟩
      simp [checkStatus, h, h', notEnoughCounters]
  rcases hs with hs | hs
  · exact ⟨_, by simp [papiCheckNcounters, papiCheckCounters_run, hs]; rfl⟩
  · exact ⟨_, by simp [papiCheckNcounters, papiCheckCounters_run, hs]; rfl⟩

end

/-! ## The on call -/

/-- The status that an on call returns, for the library's code and the content of the vector. -/
def onStatus (k : RateKind) (retval content : Int) : Int :=
  if retval ≠ papiOK then pbdError
  else if k = .utilization then pbdOK
  else content

/-- The argument is one that the on and off calls of `k` read a code from. -/
def Reads (k : RateKind) (event : Sexp) : Prop := k = .epc → ∃ c cs, event = .int (c :: cs)

theorem integer0_run {k : RateKind} {event : Sexp} (h : Reads k event) (hk : k = .epc)
    (w : World σ) : event.integer0.run w = .ok (firstCode event) w := by
  obtain ⟨c, cs, rfl⟩ := h hk
  rfl

section
variable (P : Papi σ)

/-- The state after the on call of `k`. -/
def afterOn (k : RateKind) (event : Sexp) (w : World σ) : World σ :=
  { w with
    lib := (P.rate (k.rate event) w.locals.out w.lib).2
    fresh := fun j => w.fresh (j + 1)
    prot := w.prot ++ [.push] ++ [.pop 1] }

theorem on_run {k : RateKind} {event : Sexp} (h : Reads k event) (w : World σ) :
    (k.on P event).run w =
      .ok (.int [onStatus k (P.rate (k.rate event) w.locals.out w.lib).1.1 (w.fresh 0)])
        (afterOn P k event w) := by
  cases k with
  | flops => simp [RateKind.on, papiFlopsOn, rateOn, RateKind.rate, onStatus, afterOn]
  | flips => simp [RateKind.on, papiFlipsOn, rateOn, RateKind.rate, onStatus, afterOn]
  | utilization => simp [RateKind.on, papiUtilizationOn, RateKind.rate, onStatus, afterOn]
  | epc => simp [RateKind.on, papiEpcOn, rateOn, RateKind.rate, onStatus, afterOn,
      integer0_run h rfl]

/-- The state after the first half of a `papi.` function whose gate passes. -/
def afterStart (k : RateKind) (event : Sexp) (w : World σ) : World σ :=
  let w₁ := afterCheck P w
  { afterOn P k event w₁ with trace := w.trace ++ [.on (k.rate event) w₁.lib] }

/-- The status that the first half of a `papi.` function tests. -/
def startStatus (k : RateKind) (event : Sexp) (w : World σ) : Int :=
  onStatus k (P.rate (k.rate event) w.locals.out (afterCheck P w).lib).1.1 (w.fresh 1)

/-- The first half of a `papi.` function: it goes on exactly when `status == -1` is false. -/
theorem papiRateStart_run {k : RateKind} {event : Sexp} (h : Reads k event) {w : World σ}
    (hn : Counts P 3 w.lib) :
    (papiRateStart P k event).run w =
      match ifEq (startStatus P k event w) (-1) with
      | .ok true => .error (simpleError initText) (afterStart P k event w)
      | .ok false => .ok () (afterStart P k event w)
      | .error c => .error c (afterStart P k event w) := by
  unfold papiRateStart
  rw [bind_of_ok (papiCheckNcounters_pass P hn)]
  simp only [EStateM.run_bind, EStateM.run_get, on_run P h, record_run]
  have hs : onStatus k (P.rate (k.rate event) (afterCheck P w).locals.out
      (afterCheck P w).lib).1.1 ((afterCheck P w).fresh 0) = startStatus P k event w := rfl
  rw [hs, liftR_run]
  cases ifEq (startStatus P k event w) (-1) with
  | error c => rfl
  | ok b => cases b <;> rfl

/-- A vector that holds no code is an R error before the library is called. -/
theorem papiRateStart_str {v : List String} {w : World σ} (hn : Counts P 3 w.lib) :
    ∃ c w₁, (papiRateStart P .epc (.str v)).run w = .error c w₁ ∧ Side w w₁ ∧
      w₁.lib = (P.numCounters w.lib).2 := by
  unfold papiRateStart
  rw [bind_of_ok (papiCheckNcounters_pass P hn)]
  simp only [EStateM.run_bind, EStateM.run_get, RateKind.on, papiEpcOn, rateOn, allocInt_run,
    protect_run, Sexp.integer0, integer_str]
  exact ⟨_, _, rfl, ⟨rfl, rfl, rfl⟩, rfl⟩

/-- The gate refuses. -/
theorem papiRateStart_fail (k : RateKind) (event : Sexp) {w : World σ}
    (hn : ¬ Counts P 3 w.lib) :
    ∃ c, (papiRateStart P k event).run w = .error c (afterCheck P w) := by
  obtain ⟨c, hr⟩ := papiCheckNcounters_fail P hn
  exact ⟨c, bind_of_error hr⟩

/-- An argument of `papi.epc` may also be a character vector. -/
def Arg (k : RateKind) (event : Sexp) : Prop := Reads k event ∨ k = .epc ∧ ∃ v, event = .str v

/-- The test of a status fails on `-1` and raises an error on `NA`. -/
def Bad (status : Int) : Prop := status = -1 ∨ status = naInteger

theorem ifEq_bad (x : Int) :
    (¬ Bad x ∧ ifEq x (-1) = .ok false) ∨ (Bad x ∧ (ifEq x (-1) = .ok true ∨
      ∃ c, ifEq x (-1) = .error c)) := by
  by_cases h : x = naInteger
  · exact .inr ⟨.inr h, .inr ⟨_, by simp [ifEq, h]; rfl⟩⟩
  · by_cases h' : x = -1
    · exact .inr ⟨.inl h', .inl (by simp [ifEq, h', naInteger])⟩
    · exact .inl ⟨by simp [Bad, h, h'], by simp [ifEq, h, h']⟩

theorem bad_of_ne {k : RateKind} {event : Sexp} {w : World σ}
    (h : (P.rate (k.rate event) w.locals.out (afterCheck P w).lib).1.1 ≠ papiOK) :
    Bad (startStatus P k event w) := by
  simp [startStatus, onStatus, h, Bad, pbdError]

/-- A first half that returns: the on call was made, and its status passed the test. -/
theorem papiRateStart_ok {k : RateKind} {event : Sexp} (ha : Arg k event) {w w₁ : World σ}
    (h : (papiRateStart P k event).run w = .ok () w₁) :
    Reads k event ∧ Counts P 3 w.lib ∧ w₁ = afterStart P k event w ∧
      ¬ Bad (startStatus P k event w) := by
  by_cases hn : Counts P 3 w.lib
  · rcases ha with hr | ⟨rfl, v, rfl⟩
    · rw [papiRateStart_run P hr hn] at h
      rcases ifEq_bad (startStatus P k event w) with ⟨hb, hi⟩ | ⟨-, hi | ⟨c, hi⟩⟩
      · rw [hi] at h
        cases h
        exact ⟨hr, hn, rfl, hb⟩
      · rw [hi] at h
        cases h
      · rw [hi] at h
        cases h
    · obtain ⟨c, w₂, h₂, -⟩ := papiRateStart_str P hn
      rw [h₂] at h
      cases h
  · obtain ⟨c, h₂⟩ := papiRateStart_fail P k event hn
    rw [h₂] at h
    cases h

/-- A first half that fails did so before the on call, or at the test of its status. -/
theorem papiRateStart_error {k : RateKind} {event : Sexp} (ha : Arg k event) {w w₁ : World σ}
    {c : RError} (h : (papiRateStart P k event).run w = .error c w₁) :
    (¬ (Reads k event ∧ Counts P 3 w.lib) ∧ Side w w₁ ∧ w₁.lib = (P.numCounters w.lib).2) ∨
    (Reads k event ∧ Counts P 3 w.lib ∧ w₁ = afterStart P k event w ∧
      Bad (startStatus P k event w)) := by
  by_cases hn : Counts P 3 w.lib
  · rcases ha with hr | ⟨rfl, v, rfl⟩
    · rw [papiRateStart_run P hr hn] at h
      rcases ifEq_bad (startStatus P k event w) with ⟨-, hi⟩ | ⟨hb, hi | ⟨c, hi⟩⟩
      · rw [hi] at h
        cases h
      · rw [hi] at h
        cases h
        exact .inr ⟨hr, hn, rfl, hb⟩
      · rw [hi] at h
        cases h
        exact .inr ⟨hr, hn, rfl, hb⟩
    · obtain ⟨c', w₂, h₂, hs, hl⟩ := papiRateStart_str P hn
      rw [h₂] at h
      cases h
      refine .inl ⟨fun hr => ?_, hs, hl⟩
      obtain ⟨c, cs, he⟩ := hr.1 rfl
      cases he
  · obtain ⟨c', h₂⟩ := papiRateStart_fail P k event hn
    rw [h₂] at h
    cases h
    exact .inl ⟨fun hr => hn hr.2, ⟨rfl, rfl, rfl⟩, rfl⟩

/-! ## The off call -/

/-- The array length of the stop call behind `k`. -/
def stopLen : RateKind → Nat
  | .flops | .flips => 3
  | .epc | .utilization => 1

/-- The library after the read and the stop of an off call. -/
def stopLib (k : RateKind) (event : Sexp) (w : World σ) : σ :=
  (P.stopCounters (stopLen k) (P.rate (k.rate event) w.locals.out w.lib).2).2

/-- The library after an off call: utilization also asks for two options. -/
def offLib (k : RateKind) (event : Sexp) (w : World σ) : σ :=
  if k = .utilization then
    (P.getOpt .maxCpus (P.getOpt .clockrate (stopLib P k event w)).2).2
  else stopLib P k event w

/-- The list that the off call of `k` builds from what the library wrote. -/
def rateValues (k : RateKind) (out : RateOut) (clockrate ncpus : Int) : Measurement :=
  match k with
  | .flops => [("real_time", out.rtime), ("proc_time", out.ptime), ("flpops", out.ins),
      ("mflops", out.rate)]
  | .flips => [("real_time", out.rtime), ("proc_time", out.ptime), ("flpins", out.ins),
      ("mflips", out.rate)]
  | .epc => [("real_time", out.rtime), ("proc_time", out.ptime), ("ref", out.ins),
      ("core", out.rate), ("evt", out.ref), ("epc", out.core)]
  | .utilization => [("real_time", out.rtime), ("proc_time", out.ptime), ("ins", out.ins),
      ("ipc", out.rate),
      ("utilization", (out.ins : Rat) / ((clockrate : Rat) * 1000000 * out.rtime) / ncpus)]

/-- The list that the second half of a `papi.` function returns in `w`. -/
def finishList (k : RateKind) (event : Sexp) (w : World σ) : Measurement :=
  rateValues k (P.rate (k.rate event) w.locals.out w.lib).1.2
    (P.getOpt .clockrate (stopLib P k event w)).1
    (P.getOpt .maxCpus (P.getOpt .clockrate (stopLib P k event w)).2).1

/-- The error of a failed stop. -/
def stopError : RError := simpleError "There was a problem recovering the counter information."

/-- What an off call returns: its list if the library's read succeeded. -/
def offResult (retval : Int) (v : Measurement) : Sexp :=
  if retval = papiOK then .list v else .int [pbdError]

/-- The off calls of flops and flips. -/
theorem setretOff_run (r : Rate) (xlab ylab : String) (w : World σ) :
    ∃ w₁, (setretOff P r xlab ylab).run w =
        .ok (offResult (P.rate r w.locals.out w.lib).1.1
          [("real_time", (P.rate r w.locals.out w.lib).1.2.rtime),
            ("proc_time", (P.rate r w.locals.out w.lib).1.2.ptime),
            (xlab, (P.rate r w.locals.out w.lib).1.2.ins),
            (ylab, (P.rate r w.locals.out w.lib).1.2.rate)]) w₁ ∧
      Side w w₁ ∧ w₁.lib = (P.stopCounters 3 (P.rate r w.locals.out w.lib).2).2 := by
  by_cases hr : (P.rate r w.locals.out w.lib).1.1 = papiOK
  · simp only [setretOff, rPapiSetret, EStateM.run_bind, EStateM.run_get, call_run, hr, ne_eq,
      not_true_eq_false, if_false, protect_run, unprotect_run, offResult, if_true]
    exact ⟨_, rfl, ⟨rfl, rfl, rfl⟩, rfl⟩
  · simp only [setretOff, rPapiSetret, EStateM.run_bind, EStateM.run_get, call_run, hr, ne_eq,
      not_false_eq_true, if_true, errorVec, allocInt_run, protect_run, EStateM.run_pure,
      unprotect_run, offResult, if_false]
    exact ⟨_, rfl, ⟨rfl, rfl, rfl⟩, rfl⟩

theorem off_run {k : RateKind} {event : Sexp} (h : Reads k event) (w : World σ) :
    ∃ w₁, (k.off P event).run w =
        .ok (offResult (P.rate (k.rate event) w.locals.out w.lib).1.1 (finishList P k event w)) w₁ ∧
      Side w w₁ ∧ w₁.lib = offLib P k event w := by
  cases k with
  | flops => exact setretOff_run P .flops "flpops" "mflops" w
  | flips => exact setretOff_run P .flips "flpins" "mflips" w
  | epc =>
    by_cases hr : (P.rate (.epc (firstCode event)) w.locals.out w.lib).1.1 = papiOK
    · simp only [RateKind.off, papiEpcOff, RateKind.rate, EStateM.run_bind, integer0_run h rfl,
        EStateM.run_get, call_run, hr, ne_eq, not_true_eq_false, if_false, protect_run,
        unprotect_run, offResult, if_true]
      exact ⟨_, rfl, ⟨rfl, rfl, rfl⟩, rfl⟩
    · simp only [RateKind.off, papiEpcOff, RateKind.rate, EStateM.run_bind, integer0_run h rfl,
        EStateM.run_get, call_run, hr, ne_eq, not_false_eq_true, if_true, errorVec, allocInt_run,
        protect_run, EStateM.run_pure, unprotect_run, offResult, if_false]
      exact ⟨_, rfl, ⟨rfl, rfl, rfl⟩, rfl⟩
  | utilization =>
    by_cases hr : (P.rate .ipc w.locals.out w.lib).1.1 = papiOK
    · simp only [RateKind.off, papiUtilizationOff, RateKind.rate, EStateM.run_bind,
        EStateM.run_get, call_run, hr, ne_eq, not_true_eq_false, if_false, protect_run,
        unprotect_run, offResult, if_true]
      exact ⟨_, rfl, ⟨rfl, rfl, rfl⟩, rfl⟩
    · simp only [RateKind.off, papiUtilizationOff, RateKind.rate, EStateM.run_bind,
        EStateM.run_get, call_run, hr, ne_eq, not_false_eq_true, if_true, errorVec, allocInt_run,
        protect_run, EStateM.run_pure, unprotect_run, offResult, if_false]
      exact ⟨_, rfl, ⟨rfl, rfl, rfl⟩, rfl⟩

/-- The second half of a `papi.` function returns exactly when the library's read succeeds. -/
theorem papiRateFinish_run {k : RateKind} {event : Sexp} (h : Reads k event) (w : World σ) :
    ∃ w₁, (papiRateFinish P k event).run w =
        (if (P.rate (k.rate event) w.locals.out w.lib).1.1 = papiOK then
          .ok (finishList P k event w) w₁
        else .error stopError w₁) ∧
      Side w w₁ ∧ w₁.lib = offLib P k event w := by
  obtain ⟨w₁, hr, hs, hl⟩ := off_run P h w
  refine ⟨w₁, ?_, hs, hl⟩
  unfold papiRateFinish
  rw [bind_of_ok hr, offResult]
  split <;> rfl

/-! ## A whole call -/

/-- A call that returns went through both halves, and entered the history. -/
theorem papiRate_ok {k : RateKind} {event : Sexp} {expr : Prom σ} {w w' : World σ}
    {v : Measurement} :
    (papiRate P k event expr).run w = .ok v w' ↔
      ∃ w₁ o w₂ w₃, (papiRateStart P k event).run w = .ok () w₁ ∧
        (reval expr).run w₁ = .ok o w₂ ∧ (papiRateFinish P k event).run w₂ = .ok v w₃ ∧
        w' = { w₃ with trace := w₃.trace ++ [.done (k.rate event) w₁.lib w₂.lib v] } := by
  unfold papiRate
  simp only [bind_ok]
  constructor
  · rintro ⟨⟨⟩, w₁, hs, _, _, hg, o, w₂, he, _, _, hg₂, ret, w₃, hf, _, w₄, hrec, hret⟩
    cases hg
    cases hg₂
    cases hrec
    cases hret
    exact ⟨_, o, _, w₃, hs, he, hf, rfl⟩
  · rintro ⟨w₁, o, w₂, w₃, hs, he, hf, rfl⟩
    exact ⟨(), w₁, hs, w₁, w₁, rfl, o, w₂, he, w₂, w₂, rfl, v, w₃, hf, (), _, rfl, rfl⟩

/-- A call that fails failed in its first half, in the expression, or in its second half. -/
theorem papiRate_error {k : RateKind} {event : Sexp} {expr : Prom σ} {w w' : World σ}
    {c : RError} :
    (papiRate P k event expr).run w = .error c w' ↔
      (papiRateStart P k event).run w = .error c w' ∨
      ∃ w₁, (papiRateStart P k event).run w = .ok () w₁ ∧
        ((reval expr).run w₁ = .error c w' ∨
          ∃ o w₂, (reval expr).run w₁ = .ok o w₂ ∧
            (papiRateFinish P k event).run w₂ = .error c w') := by
  unfold papiRate
  simp only [bind_error]
  constructor
  · rintro (hs | ⟨⟨⟩, w₁, hs, hg | ⟨_, _, hg, he | ⟨o, w₂, he, hg₂ | ⟨_, _, hg₂, hf | ⟨v, w₃, hf,
      hrec | ⟨_, w₄, hrec, hret⟩⟩⟩⟩⟩⟩)
    · exact .inl hs
    · cases hg
    · cases hg
      exact .inr ⟨_, hs, .inl he⟩
    · cases hg₂
    · cases hg
      cases hg₂
      exact .inr ⟨_, hs, .inr ⟨o, _, he, hf⟩⟩
    · cases hrec
    · cases hret
  · rintro (hs | ⟨w₁, hs, he | ⟨o, w₂, he, hf⟩⟩)
    · exact .inl hs
    · exact .inr ⟨(), w₁, hs, .inr ⟨w₁, w₁, rfl, .inl he⟩⟩
    · exact .inr ⟨(), w₁, hs, .inr ⟨w₁, w₁, rfl, .inr ⟨o, w₂, he, .inr ⟨w₂, w₂, rfl, .inl hf⟩⟩⟩⟩

/-! ## `system.` rate functions -/

/-- A reading of `expr` in a `system.` rate function: its gate, then its `papi.` function. -/
def rateReading (k : RateKind) (event : List String) (expr : Prom σ) : RM σ Measurement := do
  let ev ← k.gate P event
  papiRate P k ev expr

theorem rateRun_eq (k : RateKind) (event : List String) (expr : Option (Prom σ))
    (gcFirst : Bool) : rateRun P k event expr gcFirst =
      rateReading P k event (expr.getD nullProm) := by
  cases gcFirst <;> rfl

/-! ## `system.event` -/

/-- A reading of `expr` in `system.event`: what it returns before the burn-in is subtracted. -/
def eventReading (expr : Prom σ) (events : List String) : RM σ Measurement := do
  availLookup events none
  let _ ← papiStart P events
  let err ← tryIdentity (reval expr)
  let ret ← papiStop P events
  if err.inherits "simpleError" then throw (stopCond err) else asList ret

/-- The reading `ret`, corrected by the reading `b` of the burn-in run, if any. -/
def corrected (b : Option Measurement) (ret : Measurement) : Except RError Measurement :=
  match b with
  | some b => burnLoop (colon 1 ret.length) b ret
  | none => .ok ret

/-- `system.event`: a warm-up session, the burn-in run, a reading and its correction. -/
theorem systemEventFrom_eq (b : RM σ (Option Measurement)) (expr : Option (Prom σ))
    (events : List String) (gcFirst : Bool) :
    systemEventFrom P b expr events gcFirst = (do
      let _ ← papiStart P events
      let _ ← papiStop P events
      let b ← b
      let ret ← eventReading P (expr.getD nullProm) events
      liftR (corrected b ret)) := by
  have hgc (x : RM σ Measurement) : (gc >>= fun _ => x) = x := rfl
  unfold systemEventFrom eventReading
  refine bind_congr fun _ => bind_congr fun _ => bind_congr fun b => ?_
  simp only [hgc, ite_self, bind_assoc]
  refine bind_congr fun _ => bind_congr fun _ => bind_congr fun err => bind_congr fun ret => ?_
  split
  · rfl
  · apply bind_congr
    intro ret
    cases b <;> rfl

end

end PbdPapi.Proof
