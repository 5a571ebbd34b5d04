import PbdPapi.Proof.Session

/-!
# Isolation of rate measurements

A rate call that finds a session of its own kind reads that session's total instead of starting at
zero. In a history without such on calls (`Quiet`), every measurement reports what its event did
between its on and its off call (`Exact`), but for those of `papi.epc`, which has the reference
cycles under the name of the events: `runCalls_exact`, by the relation `Isolates`, which every
measuring call and every expression keeps.
-/

set_option autoImplicit false

namespace PbdPapi.Proof

open Exec C Api Hl

/-! ## Histories -/

/-- No on call was made while a session of its own kind was running. -/
def Quiet : Ev State → Prop
  | .on r s => s.info.running ≠ mode r
  | .done .. => True

/-- The name under which a rate function documents its event total. -/
def totalName : Rate → String
  | .flops => "flpops"
  | .flips => "flpins"
  | .ipc => "ins"
  | .epc _ => "evt"

/-- The event total in the result of a rate function. -/
def total (r : Rate) (v : Measurement) : Option Rat := v.lookup (totalName r)

/-- The occurrences of an event from `s₀` to `s₁`. -/
def occurred (event : Int) (s₀ s₁ : State) : Int :=
  (s₁.now.count event : Int) - s₀.now.count event

/-- A measurement reports what its event did between the on and the off call. -/
def Exact : Ev State → Prop
  | .on .. => True
  | .done r s₀ s₁ v => total r v = some (occurred (mainEvent r) s₀ s₁ : Rat)

/-- The reference cycles that `PAPI_epc` counts from `s₀` to `s₁`, none without the event. -/
def refCycles (H : Hw) (s₀ s₁ : State) : Int :=
  if H.hasRefCyc then occurred papiRefCyc s₀ s₁ else 0

/-- A measurement of `papi.epc` counted as many reference cycles as events. -/
def EvtAgrees (H : Hw) : Ev State → Prop
  | .done (.epc event) s₀ s₁ _ => refCycles H s₀ s₁ = occurred (mainEvent (.epc event)) s₀ s₁
  | _ => True

/-- A stopped session holds no events. -/
def Ready (s : State) : Prop := s.info.running = .stop → s.info.eventSet = []

/-- The history grows, and as long as it is quiet, a running session is left alone and what is
measured is exact, but for the names of `papi.epc`. -/
structure Isolates (H : Hw) (w w' : World State) : Prop where
  history : ∃ l, w'.trace = w.trace ++ l ∧ ((∀ e ∈ l, Quiet e) →
    (w.lib.info.running ≠ .stop → session w'.lib = session w.lib) ∧
    (Ready w.lib → ∀ e ∈ l, (Exact e ↔ EvtAgrees H e)))
  ready : Ready w.lib → Ready w'.lib

instance isolatesPreorder (H : Hw) : IsPreorder (World State) (Isolates H) where
  refl _ := ⟨⟨[], by simp, fun _ => ⟨fun _ => rfl, fun _ e he => by simp at he⟩⟩, id⟩
  trans w w₁ w₂ h₁ h₂ := by
    obtain ⟨l₁, ht₁, hl₁⟩ := h₁.history
    obtain ⟨l₂, ht₂, hl₂⟩ := h₂.history
    refine ⟨⟨l₁ ++ l₂, by rw [ht₂, ht₁, List.append_assoc], fun hq => ?_⟩,
      fun h => h₂.ready (h₁.ready h)⟩
    obtain ⟨hs₁, he₁⟩ := hl₁ fun e he => hq e (List.mem_append_left _ he)
    obtain ⟨hs₂, he₂⟩ := hl₂ fun e he => hq e (List.mem_append_right _ he)
    refine ⟨fun hr => ?_, fun hr e he => ?_⟩
    · have h := hs₁ hr
      rw [hs₂ (by rwa [running_of_session h]), h]
    · rcases List.mem_append.1 he with he | he
      · exact he₁ hr e he
      · exact he₂ (h₁.ready hr) e he

theorem ready_of_session {s s' : State} (h : session s' = session s) : Ready s → Ready s' := by
  have hi : s'.info = s.info := congrArg Prod.fst h
  unfold Ready
  rw [hi]
  exact id

/-- A step that leaves the session and the history alone. -/
theorem isolates_of_session {H : Hw} {w w' : World State} (ht : w'.trace = w.trace)
    (h : session w'.lib = session w.lib) : Isolates H w w' :=
  ⟨⟨[], by simp [ht], fun _ => ⟨fun _ => h, fun _ e he => by simp at he⟩⟩, ready_of_session h⟩

section
variable {H : Hw}

/-! ## Sessions of the event functions -/

theorem ready_cleanup (s : State) : Ready (cleanup s) := fun _ => rfl

theorem ready_stopCounters (n : Nat) {s : State} (h : Ready s) : Ready (stopCounters n s).2 := by
  by_cases h₀ : s.info.running = .stop
  · rwa [stopCounters_stop h₀]
  · by_cases h₁ : s.info.running = .start
    · by_cases hn : s.info.numEvts ≤ n
      · rw [stopCounters_start h₁ hn]
        exact ready_cleanup s
      · rwa [stopCounters_short h₁ (Nat.not_le.1 hn)]
    · rw [stopCounters_rate h₀ h₁]
      exact ready_cleanup s

theorem brackets_isolates : Brackets (Isolates H) (Isolates H) where
  side w w' hs hl := isolates_of_session hs.trace (congrArg session hl)
  cleanup w w' h₀ hs hl := by
    refine ⟨⟨[], by simp [hs.trace], fun _ => ⟨fun h => absurd h₀ h, fun _ e he => by simp at he⟩⟩,
      fun _ => ?_⟩
    rw [hl]
    exact ready_cleanup _
  session w w₁ w₂ w₃ codes h₀ hs hl hi hs₃ hl₃ := by
    obtain ⟨l, ht, hq⟩ := hi.history
    have hready : Ready w₁.lib := by
      intro h
      rw [hl] at h
      cases h
    refine ⟨⟨l, by rw [hs₃.trace, ht, hs.trace], fun hquiet => ⟨fun h => absurd h₀ h, fun _ => ?_⟩⟩,
      fun _ => ?_⟩
    · exact (hq hquiet).2 hready
    · rw [hl₃]
      exact ready_stopCounters _ (hi.ready hready)

/-! ## Sessions of the rate functions -/

theorem exact_on (r : Rate) (s : State) : Exact (.on r s) ↔ EvtAgrees H (.on r s) :=
  iff_of_true trivial trivial

/-- The first half of a rate function, up to the test of its status. -/
theorem afterStart_isolates (k : RateKind) (ev : Sexp) (w : World State) :
    Isolates H w (afterStart (Hl.papi H) k ev w) := by
  have hlib : (afterStart (Hl.papi H) k ev w).lib = (rate H (k.rate ev) w.locals.out w.lib).2 := rfl
  refine ⟨⟨[.on (k.rate ev) w.lib], rfl, fun hq => ⟨fun hr => ?_, fun _ e he => ?_⟩⟩, fun h => ?_⟩
  · have hquiet : w.lib.info.running ≠ mode (k.rate ev) := hq _ (List.mem_singleton.2 rfl)
    rw [hlib]
    rcases rate_cases H (k.rate ev) w.locals.out w.lib with ⟨-, -, -, hl⟩ | ⟨h₀, -⟩ | ⟨h₀, -⟩ |
      ⟨h₀, -⟩
    · rw [hl]
    · exact absurd h₀ hr
    · exact absurd h₀ hr
    · exact absurd h₀ hquiet
  · rw [List.mem_singleton.1 he]
    exact exact_on _ _
  · rw [hlib]
    rcases rate_cases H (k.rate ev) w.locals.out w.lib with ⟨-, -, -, hl⟩ | ⟨-, -, hl⟩ |
      ⟨-, -, hl⟩ | ⟨-, -, -, hl⟩
    · rwa [hl]
    · rw [hl]
      exact ready_cleanup _
    · rw [hl]
      exact fun h' => absurd h' (mode_ne_stop _)
    · exact fun h' => absurd (hl.symm.trans h') (mode_ne_stop _)

theorem ready_rate (r : Rate) (out : RateOut) {s : State} (h : Ready s) :
    Ready (rate H r out s).2 := by
  rcases rate_cases H r out s with ⟨-, -, -, hl⟩ | ⟨-, -, hl⟩ | ⟨-, -, hl⟩ | ⟨-, -, -, hl⟩
  · rwa [hl]
  · rw [hl]
    exact ready_cleanup _
  · rw [hl]
    exact fun h' => absurd h' (mode_ne_stop _)
  · exact fun h' => absurd (hl.symm.trans h') (mode_ne_stop _)

theorem ready_off (k : RateKind) (ev : Sexp) {w : World State} (h : Ready w.lib) :
    Ready (offLib (Hl.papi H) k ev w) := by
  rw [offLib_hl]
  exact ready_stopCounters _ (ready_rate _ _ h)

/-- What the list of a rate function has under the name of its total. -/
theorem total_rateValues (k : RateKind) (ev : Sexp) (out : RateOut) (clockrate ncpus : Int) :
    total (k.rate ev) (rateValues k out clockrate ncpus) =
      some (if k = .epc then out.ref else out.ins : Rat) := by
  cases k <;> rfl

/-- The counters of a session that a rate call started from an empty `EventSet`, read later. -/
theorem counters_started {r : Rate} {s s' : State} (he : s.info.eventSet = [])
    (h : session s' = session (rateStarted H r s)) :
    counters s' = (rateEvents H r).map fun e => occurred e s s' := by
  have hset : s'.info.eventSet = rateEvents H r := by
    rw [show s'.info = (rateStarted H r s).info from congrArg Prod.fst h]
    simp [rateStarted, he]
  have hb : s'.base = s.now := congrArg Prod.snd h
  unfold counters
  rw [hset, hb]
  rfl

/-- Its total is the difference of the clock. -/
theorem readTotal_started {r : Rate} {s s' : State} (he : s.info.eventSet = [])
    (h : session s' = session (rateStarted H r s)) :
    readTotal s' = occurred (mainEvent r) s s' := by
  have htot : s'.info.totalIns = 0 := by
    rw [show s'.info = (rateStarted H r s).info from congrArg Prod.fst h]
    rfl
  have hcount : (counters s').getD 0 0 = occurred (mainEvent r) s s' := by
    rw [counters_started he h]
    cases r with
    | epc event => cases hr : H.hasRefCyc <;> simp [rateEvents, hr]
    | _ => rfl
  rw [readTotal, htot, hcount, Int.zero_add]

/-- `PAPI_epc` also reads its reference cycles. -/
theorem epcCycles_started {event : Int} {s s' : State} (he : s.info.eventSet = [])
    (h : session s' = session (rateStarted H (.epc event) s)) :
    (epcCycles s').2 = refCycles H s s' := by
  have hrun : s'.info.running = .epc := by
    rw [running_of_session h]
    rfl
  unfold epcCycles refCycles
  rw [if_pos hrun, counters_started he h]
  cases hr : H.hasRefCyc <;> simp [rateEvents, hr]

/-- The off call of a session that its own on call started in `s`. -/
theorem total_finish {k : RateKind} {ev : Sexp} {s : State} {w : World State}
    (he : s.info.eventSet = []) (h : session w.lib = session (rateStarted H (k.rate ev) s)) :
    total (k.rate ev) (finishList (Hl.papi H) k ev w) =
      some (if k = .epc then refCycles H s w.lib
        else occurred (mainEvent (k.rate ev)) s w.lib : Rat) := by
  have hrun : w.lib.info.running = mode (k.rate ev) := by
    rw [running_of_session h]
    rfl
  have hins : (rate H (k.rate ev) w.locals.out w.lib).1.2.ins = readTotal w.lib := by
    rcases rate_cases H (k.rate ev) w.locals.out w.lib with ⟨-, h, -⟩ | ⟨h, -⟩ | ⟨h, -⟩ |
      ⟨-, -, h, -⟩
    · exact absurd hrun h
    · exact absurd (hrun.symm.trans h) (mode_ne_stop _)
    · exact absurd (hrun.symm.trans h) (mode_ne_stop _)
    · exact h
  unfold finishList
  rw [total_rateValues]
  by_cases hk : k = .epc
  · subst hk
    rw [if_pos rfl, if_pos rfl, ← epcCycles_started he h]
    rfl
  · rw [if_neg hk, if_neg hk, ← readTotal_started he h, ← hins]
    rfl

/-- A measurement whose session its own on call started is exact, unless it is one of `papi.epc`
whose reference cycles are not as many as its events. -/
theorem exact_finish {k : RateKind} {ev : Sexp} {s s₀ : State} {w : World State}
    (he : s.info.eventSet = []) (h : session w.lib = session (rateStarted H (k.rate ev) s))
    (hnow : s₀.now = s.now) :
    Exact (.done (k.rate ev) s₀ w.lib (finishList (Hl.papi H) k ev w)) ↔
      EvtAgrees H (.done (k.rate ev) s₀ w.lib (finishList (Hl.papi H) k ev w)) := by
  have hocc (e : Int) : occurred e s₀ w.lib = occurred e s w.lib := by
    unfold occurred
    rw [hnow]
  have href : refCycles H s₀ w.lib = refCycles H s w.lib := by
    unfold refCycles
    rw [hocc]
  show total (k.rate ev) (finishList (Hl.papi H) k ev w) = some _ ↔ _
  rw [total_finish he h, hocc, Option.some_inj]
  cases k with
  | epc =>
    rw [if_pos rfl, Rat.intCast_inj, ← href, ← hocc]
    exact Iff.rfl
  | _ => exact iff_of_true (if_neg (by decide)) trivial

/-- A successful start takes no time. -/
theorem afterStart_now {k : RateKind} {ev : Sexp} {w : World State}
    (h₀ : w.lib.info.running = .stop)
    (hc : (rate H (k.rate ev) w.locals.out w.lib).1.1 = papiOK) :
    (afterStart (Hl.papi H) k ev w).lib.now = w.lib.now := by
  show (rate H (k.rate ev) w.locals.out w.lib).2.now = _
  rcases rate_cases H (k.rate ev) w.locals.out w.lib with ⟨h, -⟩ | ⟨-, h, -⟩ | ⟨-, -, h⟩ | ⟨h, -⟩
  · exact absurd h₀ h
  · exact absurd hc h
  · rw [h]
    rfl
  · exact absurd (h.symm.trans h₀) (mode_ne_stop _)

/-- A rate measurement that reached its off call: `l` is what the off call adds to the history. -/
theorem off_isolates {k : RateKind} {ev : Sexp} {w w₂ w' : World State}
    (hc : (rate H (k.rate ev) w.locals.out w.lib).1.1 = papiOK)
    (h₂ : Isolates H (afterStart (Hl.papi H) k ev w) w₂) {l : List (Ev State)}
    (ht : w'.trace = w₂.trace ++ l) (hl : w'.lib = offLib (Hl.papi H) k ev w₂)
    (hex : Ready w.lib → w.lib.info.running = .stop →
      session w₂.lib = session (rateStarted H (k.rate ev) w.lib) →
      ∀ e ∈ l, (Exact e ↔ EvtAgrees H e)) :
    Isolates H w w' := by
  have h₁ := afterStart_isolates (H := H) k ev w
  obtain ⟨l₂, ht₂, hq₂⟩ := h₂.history
  refine ⟨⟨[.on (k.rate ev) w.lib] ++ (l₂ ++ l), ?_, fun hq => ?_⟩, fun h => ?_⟩
  · have htr : (afterStart (Hl.papi H) k ev w).trace = w.trace ++ [.on (k.rate ev) w.lib] := rfl
    rw [ht, ht₂, htr]
    simp
  · -- the on call was quiet and succeeded, so it started the session
    have hquiet : w.lib.info.running ≠ mode (k.rate ev) := hq (.on _ _) (by simp)
    have hstart : w.lib.info.running = .stop ∧
        (afterStart (Hl.papi H) k ev w).lib = rateStarted H (k.rate ev) w.lib := by
      rcases rate_cases H (k.rate ev) w.locals.out w.lib with ⟨-, -, h, -⟩ | ⟨-, h, -⟩ |
        ⟨h₀, -, hl⟩ | ⟨h₀, -⟩
      · exact absurd hc h
      · exact absurd hc h
      · exact ⟨h₀, hl⟩
      · exact absurd h₀ hquiet
    obtain ⟨h₀, hlib⟩ := hstart
    obtain ⟨hs₂, he₂⟩ := hq₂ fun e he => hq e (by simp [he])
    have hmode : (afterStart (Hl.papi H) k ev w).lib.info.running ≠ .stop := by
      rw [hlib]
      exact mode_ne_stop _
    refine ⟨fun h => absurd h₀ h, fun hr e he => ?_⟩
    rcases List.mem_append.1 he with he | he
    · rw [List.mem_singleton.1 he]
      exact exact_on _ _
    · rcases List.mem_append.1 he with he | he
      · exact he₂ (h₁.ready hr) e he
      · exact hex hr h₀ (by rw [hs₂ hmode, hlib]) e he
  · rw [hl]
    exact ready_off k ev (h₂.ready (h₁.ready h))

theorem papiRate_isolates {k : RateKind} {ev : Sexp} (ha : Arg k ev) {expr : Prom State}
    (he : Moves (Isolates H) (reval expr)) :
    Moves (Isolates H) (papiRate (Hl.papi H) k ev expr) := by
  intro w
  have hcode (hb : ¬ Bad (startStatus (Hl.papi H) k ev w)) :
      (rate H (k.rate ev) w.locals.out w.lib).1.1 = papiOK := by
    by_contra hc
    exact hb (bad_of_ne (Hl.papi H) hc)
  cases hrun : (papiRate (Hl.papi H) k ev expr).run w with
  | error c w' =>
    rcases (papiRate_error (Hl.papi H)).1 hrun with hs | ⟨w₁, hs, hx | ⟨o, w₂, hx, hf⟩⟩
    · rcases papiRateStart_error (Hl.papi H) ha hs with ⟨-, hside, hl⟩ | ⟨-, -, rfl, -⟩
      · exact isolates_of_session hside.trace (congrArg session hl)
      · exact afterStart_isolates k ev w
    · obtain ⟨-, -, rfl, -⟩ := papiRateStart_ok (Hl.papi H) ha hs
      exact IsTrans.trans _ _ _ (afterStart_isolates k ev w) (he.error hx)
    · obtain ⟨hr, -, rfl, hb⟩ := papiRateStart_ok (Hl.papi H) ha hs
      obtain ⟨w₃, hfin, hside, hl⟩ := papiRateFinish_run (Hl.papi H) hr w₂
      have hw : w' = w₃ := by
        rw [hfin] at hf
        split at hf <;> cases hf
        rfl
      subst hw
      rw [final_error]
      exact off_isolates (l := []) (hcode hb) (he.ok hx) (by rw [hside.trace, List.append_nil]) hl
        fun _ _ _ e he => by simp at he
  | ok v w' =>
    obtain ⟨w₁, o, w₂, w₃, hs, hx, hf, rfl⟩ := (papiRate_ok (Hl.papi H)).1 hrun
    obtain ⟨hr, -, rfl, hb⟩ := papiRateStart_ok (Hl.papi H) ha hs
    obtain ⟨w₄, hfin, hside, hl⟩ := papiRateFinish_run (Hl.papi H) hr w₂
    rw [hfin] at hf
    by_cases hc : ((Hl.papi H).rate (k.rate ev) w₂.locals.out w₂.lib).1.1 = papiOK
    · rw [if_pos hc] at hf
      cases hf
      rw [final_ok]
      refine off_isolates (hcode hb) (he.ok hx) (congrArg (· ++ _) hside.trace) hl
        fun hready h₀ hsess e hmem => ?_
      rw [List.mem_singleton.1 hmem]
      exact exact_finish (hready h₀) hsess (afterStart_now h₀ (hcode hb))
    · rw [if_neg hc] at hf
      cases hf

/-! ## Runs of calls -/

theorem measure_isolates {expr : Option (Prom State)}
    (he : Moves (Isolates H) (reval (expr.getD nullProm))) (f : Wrapper) (gcFirst burnin : Bool) :
    Moves (Isolates H) (measure (Hl.papi H) f expr gcFirst burnin) := by
  refine measure_moves _ (fun _ => .modify fun w => isolates_of_session rfl rfl)
    (systemEvent_moves brackets_isolates he) (fun k event gcFirst burnin => ?_) f gcFirst burnin
  exact (hlTables H).systemRate_moves
    (fun w w' hs => isolates_of_session hs.trace (congrArg session hs.lib))
    (fun ev ha => papiRate_isolates ha good_null.reval) (fun ev ha => papiRate_isolates ha he)
    event gcFirst burnin

theorem expr_isolates (e : Expr) : Good (Isolates H) (e.prom H) :=
  prom_good H (fun _ => .modify fun _ => isolates_of_session rfl rfl)
    (fun p hp => measure_isolates (show Moves (Isolates H) (reval ((some p).getD nullProm)) from
      hp.reval)) e

theorem call_isolates (c : ExprCall) (w : World State) : Isolates H w ((c.call H).after H w) :=
  measure_isolates (call_good H expr_isolates c).reval c.f c.gcFirst c.burnin w

theorem runCalls_isolates (cs : List ExprCall) (w : World State) :
    Isolates H w (runCalls H (cs.map (ExprCall.call H)) w) := by
  induction cs generalizing w with
  | nil => exact refl w
  | cons c cs ih => exact IsTrans.trans _ _ _ (call_isolates c w) (ih ((c.call H).after H w))

/-- In every history of measuring calls, failed and nested ones included, in which no rate session
is on when its on call is made, every total reported is what occurred between on and off, but for
one of `papi.epc` that counted other than as many reference cycles. For R's doubles the totals are
below `2 ^ 53`. -/
theorem runCalls_exact (cs : List ExprCall) {w : World State} (hr : Ready w.lib)
    (ht : w.trace = [])
    (hq : ∀ e ∈ (runCalls H (cs.map (ExprCall.call H)) w).trace, Quiet e) :
    ∀ e ∈ (runCalls H (cs.map (ExprCall.call H)) w).trace, (Exact e ↔ EvtAgrees H e) := by
  obtain ⟨l, hl, hex⟩ := (runCalls_isolates cs w).history
  rw [ht, List.nil_append] at hl
  rw [hl] at hq ⊢
  exact (hex hq).2 hr

end

instance decidableQuiet : DecidablePred Quiet
  | .on r s => inferInstanceAs (Decidable (s.info.running ≠ mode r))
  | .done .. => isTrue trivial

instance decidableExact : DecidablePred Exact
  | .on .. => isTrue trivial
  | .done r s₀ s₁ v => inferInstanceAs (Decidable (total r v =
      some (occurred (mainEvent r) s₀ s₁ : Rat)))

/-- The history of a sequence of calls on the small machine. -/
def smallHistory (cs : List ExprCall) : List (Ev State) :=
  (runCalls smallHw (cs.map (ExprCall.call smallHw)) smallWorld).trace

/-- `system.epc({work}, "PAPI_FP_OPS", burnin=FALSE)` -/
def epcCall : ExprCall :=
  ⟨.epc ["PAPI_FP_OPS"], some (.work (flopsClock 5) (.value .null)), false, false⟩

theorem runCalls_exact_working :
    (∀ e ∈ smallHistory [workingCall, nestedCall, workingCall], Exact e ↔ EvtAgrees smallHw e) ∧
      ∀ e ∈ smallHistory [workingCall, epcCall], Exact e ↔ EvtAgrees smallHw e :=
  ⟨runCalls_exact [workingCall, nestedCall, workingCall] (fun _ => rfl) rfl (by decide +kernel),
    runCalls_exact [workingCall, epcCall] (fun _ => rfl) rfl (by decide +kernel)⟩

/-- `system.flops({work; stop("e")}, burnin=FALSE)` -/
def leakingCall : ExprCall :=
  ⟨.flops, some (.work (flopsClock 3) (.raise (simpleError "e"))), false, false⟩

/-- `system.flops({work}, burnin=FALSE)` -/
def plainCall : ExprCall := ⟨.flops, some (.work (flopsClock 5) (.value .null)), false, false⟩

/-- After a failed call, the next one reports the operations of both: 8 instead of 5. And
`papi.epc` reports its reference cycles for the 5 operations. -/
theorem leakingCall_inexact : Ready smallWorld.lib ∧ smallWorld.trace = [] ∧
    (¬ ∀ e ∈ smallHistory [leakingCall, plainCall], Exact e) ∧
    ¬ ∀ e ∈ smallHistory [epcCall], Exact e :=
  ⟨fun _ => rfl, rfl, by decide +kernel, by decide +kernel⟩

end PbdPapi.Proof
