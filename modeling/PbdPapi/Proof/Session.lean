import PbdPapi.Proof.Errors
import PbdPapi.Proof.Trace

/-!
# Sessions are closed

Around an expression that may do anything to the library. The rate functions evaluate it between
the on and the off call without a handler, and close their session exactly when their on call is
not mistaken for a failed one, the expression raises no error while a session runs, and their off
call can stop what it leaves behind (`papiRate_stopped`). The event functions catch the errors, and
only the last of the three remains (`systemEvent_stopped`). `runCalls_stopped` puts this together
for every sequence of calls.
-/

set_option autoImplicit false

namespace PbdPapi.Proof

open Exec C Api Hl

/-- The counter session is stopped. -/
def Stopped (w : World State) : Prop := w.lib.info.running = .stop

/-- A session of `PAPI_start_counters` runs that has more events than an array of `n` values takes:
`PAPI_stop_counters` refuses such an array. -/
def Outgrown (n : Nat) (w : World State) : Prop :=
  w.lib.info.running = .start ∧ n < w.lib.info.numEvts

/-- The expression, evaluated in `w`, raises an error while a session runs. -/
def RaisesRunning (expr : Prom State) (w : World State) : Prop :=
  ∃ c w', (reval expr).run w = .error c w' ∧ ¬ Stopped w'

/-- The expression, evaluated in `w`, returns or raises an error in a session that `n` values do
not take. -/
def EndsOutgrown (n : Nat) (expr : Prom State) (w : World State) : Prop :=
  Outgrown n (final ((reval expr).run w))

section
variable {H : Hw}

theorem stopped_not_outgrown {w : World State} (h : Stopped w) (n : Nat) : ¬ Outgrown n w := by
  intro hout
  obtain ⟨hr, -⟩ := hout
  rw [show w.lib.info.running = .stop from h] at hr
  cases hr

/-- `PAPI_stop_counters` leaves no session running, unless its array is too short. -/
theorem stopCounters_stopped (n : Nat) (w : World State) :
    (stopCounters n w.lib).2.info.running = .stop ↔ ¬ Outgrown n w := by
  by_cases h₀ : w.lib.info.running = .stop
  · rw [stopCounters_stop h₀]
    exact iff_of_true h₀ (stopped_not_outgrown h₀ n)
  · by_cases h₁ : w.lib.info.running = .start
    · by_cases hn : w.lib.info.numEvts ≤ n
      · rw [stopCounters_start h₁ hn]
        exact iff_of_true rfl fun h => Nat.not_lt.2 hn h.2
      · rw [stopCounters_short h₁ (Nat.not_le.1 hn)]
        exact iff_of_false h₀ (not_not.2 ⟨h₁, Nat.not_le.1 hn⟩)
    · rw [stopCounters_rate h₀ h₁]
      exact iff_of_true rfl fun h => h₁ h.1

/-! ## When a rate call closes its session -/

theorem offLib_hl (k : RateKind) (ev : Sexp) (w : World State) :
    offLib (Hl.papi H) k ev w =
      (stopCounters (stopLen k) (rate H (k.rate ev) w.locals.out w.lib).2).2 := by
  cases k <;> rfl

/-- The read of an off call leaves a session of `PAPI_start_counters` alone and starts none. -/
theorem rate_outgrown (r : Rate) (n : Nat) (w : World State) :
    Outgrown n { w with lib := (rate H r w.locals.out w.lib).2 } ↔ Outgrown n w := by
  unfold Outgrown
  rcases rate_cases H r w.locals.out w.lib with ⟨-, -, -, h⟩ | ⟨hs, -, h⟩ | ⟨hs, -, h⟩ |
    ⟨hs, -, -, h⟩
  · simp only [h]
  · simp [h, hs, cleanup]
  · simp [h, hs, rateStarted]
  · simp [h, hs]

/-- The off call ends every session that its array takes. -/
theorem offLib_stopped (k : RateKind) (ev : Sexp) (w : World State) :
    (offLib (Hl.papi H) k ev w).info.running = .stop ↔ ¬ Outgrown (stopLen k) w := by
  rw [offLib_hl, ← rate_outgrown (H := H) (k.rate ev) (stopLen k) w]
  exact stopCounters_stopped (stopLen k) { w with lib := (rate H (k.rate ev) w.locals.out w.lib).2 }

theorem papiRateFinish_stopped {k : RateKind} {ev : Sexp} (hr : Reads k ev) (w : World State) :
    Stopped (final ((papiRateFinish (Hl.papi H) k ev).run w)) ↔ ¬ Outgrown (stopLen k) w := by
  obtain ⟨w₁, hrun, -, hl⟩ := papiRateFinish_run (Hl.papi H) hr w
  have hs : Stopped w₁ ↔ ¬ Outgrown (stopLen k) w := by
    unfold Stopped
    rw [hl]
    exact offLib_stopped k ev w
  rw [hrun]
  split <;> exact hs

variable (H)

/-- Nothing comes between the on and the off call of `papi.flops` and its siblings, called in `w`:
if the on call succeeds, the integer that holds its status (which flops, flips and epc leave
unwritten) is neither `-1` nor `NA`, and the expression, evaluated where the on call ended, neither
raises an error while a session runs nor ends in a session that the off call cannot stop. -/
def RateClean (k : RateKind) (ev : Sexp) (expr : Prom State) (w : World State) : Prop :=
  Reads k ev → Counts (Hl.papi H) 3 w.lib →
  (rate H (k.rate ev) w.locals.out w.lib).1.1 = papiOK →
    (k = .utilization ∨ ¬ Bad (w.fresh 1)) ∧
    ¬ RaisesRunning expr (afterStart (Hl.papi H) k ev w) ∧
    ¬ EndsOutgrown (stopLen k) expr (afterStart (Hl.papi H) k ev w)

variable {H}

theorem bad_iff {k : RateKind} {ev : Sexp} {w : World State}
    (hc : (rate H (k.rate ev) w.locals.out w.lib).1.1 = papiOK) :
    ¬ Bad (startStatus (Hl.papi H) k ev w) ↔ k = .utilization ∨ ¬ Bad (w.fresh 1) := by
  have hs : startStatus (Hl.papi H) k ev w = if k = .utilization then pbdOK else w.fresh 1 := by
    have hc' : ((Hl.papi H).rate (k.rate ev) w.locals.out
      (afterCheck (Hl.papi H) w).lib).1.1 = papiOK := hc
    simp [startStatus, onStatus, hc']
  rw [hs]
  by_cases hk : k = .utilization
  · simp [hk, Bad, pbdOK, naInteger]
  · simp [hk]

/-- An on call from a stopped session starts a session if it succeeds, and none if not. -/
theorem afterStart_running (k : RateKind) (ev : Sexp) {w : World State} (h : Stopped w) :
    ((rate H (k.rate ev) w.locals.out w.lib).1.1 = papiOK →
      (afterStart (Hl.papi H) k ev w).lib.info.running = mode (k.rate ev)) ∧
    ((rate H (k.rate ev) w.locals.out w.lib).1.1 ≠ papiOK →
      Stopped (afterStart (Hl.papi H) k ev w)) := by
  have hlib : (afterStart (Hl.papi H) k ev w).lib = (rate H (k.rate ev) w.locals.out w.lib).2 := rfl
  unfold Stopped
  rw [hlib]
  rcases rate_cases H (k.rate ev) w.locals.out w.lib with ⟨h₀, -⟩ | ⟨-, hc, hl⟩ | ⟨-, hc, hl⟩ |
    ⟨h₀, -⟩
  · exact absurd h h₀
  · rw [hl]
    exact ⟨fun hc' => absurd hc' hc, fun _ => rfl⟩
  · rw [hl]
    exact ⟨fun _ => rfl, fun hc' => absurd hc hc'⟩
  · exact absurd (h₀.symm.trans h) (mode_ne_stop _)

/-- A `papi.` rate function that fails in its first half: before the on call, or at the test of its
status. -/
theorem papiRateStart_stopped {k : RateKind} {ev : Sexp} (ha : Arg k ev) {expr : Prom State}
    {w w₁ : World State} {c : RError} (h : Stopped w)
    (hs : (papiRateStart (Hl.papi H) k ev).run w = .error c w₁) :
    Stopped w₁ ↔ RateClean H k ev expr w := by
  obtain ⟨hrun, hstop⟩ := afterStart_running (H := H) k ev h
  rcases papiRateStart_error (Hl.papi H) ha hs with ⟨hn, -, hl⟩ | ⟨hr, hn, rfl, hb⟩
  · refine iff_of_true ?_ fun hr hn' _ => absurd ⟨hr, hn'⟩ hn
    unfold Stopped
    rw [hl]
    exact h
  · by_cases hc : (rate H (k.rate ev) w.locals.out w.lib).1.1 = papiOK
    · refine iff_of_false (fun hst => ?_) fun hclean => ?_
      · exact mode_ne_stop _ ((hrun hc).symm.trans hst)
      · exact (bad_iff hc).2 (hclean hr hn hc).1 hb
    · exact iff_of_true (hstop hc) fun _ _ hc' => absurd hc' hc

/-- A `papi.` rate function called with the session stopped. -/
theorem papiRate_stopped {k : RateKind} {ev : Sexp} (ha : Arg k ev) {expr : Prom State}
    {w : World State} (h : Stopped w) :
    Stopped (final ((papiRate (Hl.papi H) k ev expr).run w)) ↔ RateClean H k ev expr w := by
  -- a call whose on call is accepted has the condition on its expression only
  have hclean {w₁ : World State} (hs : (papiRateStart (Hl.papi H) k ev).run w = .ok () w₁) :
      Reads k ev ∧ (RateClean H k ev expr w ↔
        ¬ RaisesRunning expr w₁ ∧ ¬ EndsOutgrown (stopLen k) expr w₁) := by
    obtain ⟨hr, hn, rfl, hb⟩ := papiRateStart_ok (Hl.papi H) ha hs
    have hc : (rate H (k.rate ev) w.locals.out w.lib).1.1 = papiOK := by
      by_contra hc
      exact hb (bad_of_ne (Hl.papi H) hc)
    exact ⟨hr, fun hclean => (hclean hr hn hc).2, fun he _ _ _ => ⟨(bad_iff hc).1 hb, he⟩⟩
  have hraises {w₁ w₂ : World State} {o : Obj} (hx : (reval expr).run w₁ = .ok o w₂) :
      ¬ RaisesRunning expr w₁ := by
    intro hraise
    obtain ⟨c, w', h', -⟩ := hraise
    rw [hx] at h'
    cases h'
  have hends {w₁ w₂ : World State} {o : Obj} (hx : (reval expr).run w₁ = .ok o w₂) :
      EndsOutgrown (stopLen k) expr w₁ ↔ Outgrown (stopLen k) w₂ := by
    unfold EndsOutgrown
    rw [hx, final_ok]
  cases hrun : (papiRate (Hl.papi H) k ev expr).run w with
  | ok v w' =>
    obtain ⟨w₁, o, w₂, w₃, hs, hx, hf, rfl⟩ := (papiRate_ok (Hl.papi H)).1 hrun
    obtain ⟨hr, hc⟩ := hclean hs
    have hfin := papiRateFinish_stopped (H := H) hr w₂
    rw [hf] at hfin
    rw [hc, hends hx]
    exact hfin.trans (and_iff_right (hraises hx)).symm
  | error c w' =>
    rw [final_error]
    rcases (papiRate_error (Hl.papi H)).1 hrun with hs | ⟨w₁, hs, hx | ⟨o, w₂, hx, hf⟩⟩
    · exact papiRateStart_stopped ha h hs
    · rw [(hclean hs).2]
      constructor
      · refine fun hst => ⟨?_, ?_⟩
        · intro hraise
          obtain ⟨c', w'', h', hrunning⟩ := hraise
          rw [hx] at h'
          cases h'
          exact hrunning hst
        · unfold EndsOutgrown
          rw [hx, final_error]
          exact stopped_not_outgrown hst _
      · intro he
        obtain ⟨hraise, -⟩ := he
        by_contra hst
        exact hraise ⟨c, w', hx, hst⟩
    · obtain ⟨hr, hc⟩ := hclean hs
      have hfin := papiRateFinish_stopped (H := H) hr w₂
      rw [hf] at hfin
      rw [hc, hends hx]
      exact hfin.trans (and_iff_right (hraises hx)).symm

/-- The empty expression leaves a session to the off call that it can stop. -/
theorem papiRate_null_ok {k : RateKind} {ev : Sexp} (ha : Arg k ev) {w w' : World State}
    {v : Measurement} (h : Stopped w)
    (hrun : (papiRate (Hl.papi H) k ev nullProm).run w = .ok v w') : Stopped w' := by
  obtain ⟨w₁, o, w₂, w₃, hs, hx, hf, rfl⟩ := (papiRate_ok (Hl.papi H)).1 hrun
  cases hx
  obtain ⟨hr, -, rfl, hb⟩ := papiRateStart_ok (Hl.papi H) ha hs
  have hc : (rate H (k.rate ev) w.locals.out w.lib).1.1 = papiOK := by
    by_contra hc
    exact hb (bad_of_ne (Hl.papi H) hc)
  have hmode := (afterStart_running (H := H) k ev h).1 hc
  have hfin := papiRateFinish_stopped (H := H) hr (afterStart (Hl.papi H) k ev w)
  rw [hf] at hfin
  exact hfin.2 fun hout => mode_ne_start _ (hmode.symm.trans hout.1)

/-- An expression that leaves the session alone must raise no error. -/
theorem rateClean_plain {k : RateKind} {ev : Sexp} {expr : Prom State} {w : World State}
    (h : Stopped w)
    (he : ∀ w, (final ((reval expr).run w)).lib.info.running = w.lib.info.running) :
    RateClean H k ev expr w ↔ (Reads k ev → Counts (Hl.papi H) 3 w.lib →
      (rate H (k.rate ev) w.locals.out w.lib).1.1 = papiOK →
        (k = .utilization ∨ ¬ Bad (w.fresh 1)) ∧
        ∃ o w', (reval expr).run (afterStart (Hl.papi H) k ev w) = .ok o w') := by
  refine forall_congr' fun _ => forall_congr' fun _ => forall_congr' fun hc =>
    and_congr_right fun _ => ?_
  have hmode := (afterStart_running (H := H) k ev h).1 hc
  have hend := (he (afterStart (Hl.papi H) k ev w)).trans hmode
  have hout : ¬ EndsOutgrown (stopLen k) expr (afterStart (Hl.papi H) k ev w) :=
    fun hout => mode_ne_start _ (hend.symm.trans hout.1)
  rw [and_iff_left hout]
  cases hx : (reval expr).run (afterStart (Hl.papi H) k ev w) with
  | ok o w' =>
    refine iff_of_true ?_ ⟨o, w', rfl⟩
    intro hraise
    obtain ⟨c, w'', h', -⟩ := hraise
    rw [hx] at h'
    cases h'
  | error c w' =>
    rw [hx, final_error] at hend
    refine iff_of_false (fun hraise => hraise ⟨c, w', hx, fun hst => ?_⟩) ?_
    · exact mode_ne_stop _ (hend.symm.trans hst)
    · intro hret
      obtain ⟨o, w'', h'⟩ := hret
      cases h'

/-! ## When an event function closes its session -/

theorem closes_of_stopped {s s' : State} (h : s.info.running = .stop)
    (h' : s'.info.running = .stop) : Closes s s' := ⟨fun h₀ => absurd h h₀, fun _ => h'⟩

/-- A session of `papi.start` and `papi.stop` around a step that leaves it alone is closed. -/
theorem brackets_closes : Brackets ClosesW ClosesW where
  side w w' _ hl := closes_of_session (congrArg session hl)
  cleanup w w' h₀ _ hl := closes_of_stopped h₀ (congrArg (·.info.running) hl)
  session w w₁ w₂ w₃ codes h₀ _ hl hk _ hl₃ := by
    have hr₁ : w₁.lib.info.running = .start := by rw [hl]; rfl
    have hsess : session w₂.lib = session w₁.lib := hk.running (by rw [hr₁]; simp)
    have hinfo : w₂.lib.info = w₁.lib.info := congrArg Prod.fst hsess
    have hr : w₂.lib.info.running = .start := by rw [hinfo, hr₁]
    have hn : w₂.lib.info.numEvts = codes.length := by rw [hinfo, hl]; rfl
    rw [stopCounters_start hr hn.le] at hl₃
    exact closes_of_stopped h₀ (congrArg (·.info.running) hl₃)

theorem brackets_avail : Brackets (InvImage Eq World.avail) (InvImage Eq World.avail) where
  side w w' hs _ := hs.avail.symm
  cleanup w w' _ hs _ := hs.avail.symm
  session w w₁ w₂ w₃ codes _ hs _ hk hs₃ _ := by
    have hk : w₁.avail = w₂.avail := hk
    show w.avail = w₃.avail
    rw [hs₃.avail, ← hk, hs.avail]

variable (H) in
/-- `system.event` up to the start of its last session. -/
def beforeSession (events : List String) (burnin : Bool) : RM State (Option Measurement) := do
  warmUp (Hl.papi H) events
  let b ← baseline (warmUp (Hl.papi H) events) (fun e => eventReading (Hl.papi H) e events) burnin
  availLookup events none
  return b

theorem opening_eq (events : List String) (burnin : Bool) :
    opening (Hl.papi H) events burnin = (do
      let b ← beforeSession H events burnin
      let _ ← papiStart (Hl.papi H) events
      return b) := by
  simp only [opening, beforeSession, bind_assoc, pure_bind]

section
variable {R : World State → World State → Prop} [IsPreorder _ R] (hR : Brackets R R)
include hR

theorem warmUp_moves (events : List String) : Moves R (warmUp (Hl.papi H) events) :=
  session_moves hR events (.pure ()) (fun w c h => by cases h) fun _ _ => .pure _

theorem baseline_moves (events : List String) (burnin : Bool) : Moves R
    (baseline (warmUp (Hl.papi H) events) (fun e => eventReading (Hl.papi H) e events) burnin) := by
  unfold baseline
  split
  · exact .map _ ((warmUp_moves hR events).bind fun _ =>
      eventReading_moves hR good_null.reval events)
  · exact .pure _

theorem beforeSession_moves (events : List String) (burnin : Bool) :
    Moves R (beforeSession H events burnin) :=
  (warmUp_moves hR events).bind fun _ => (baseline_moves hR events burnin).bind fun _ =>
    (availLookup_moves _ _).bind fun _ => .pure _

end

/-- `system.event` that reaches its expression has passed the gate and found a code for each
event. -/
theorem opening_ok {events : List String} {burnin : Bool} {w w' : World State}
    {b : Option Measurement} (hrun : (opening (Hl.papi H) events burnin).run w = .ok b w') :
    Passes w.avail events ∧ ∃ codes, (hlTables H).codes events = some codes := by
  rw [opening_eq] at hrun
  obtain ⟨b', w₁, hb, he⟩ := bind_ok.1 hrun
  constructor
  · obtain ⟨⟨⟩, w₂, hwarm, hb⟩ := bind_ok.1 hb
    obtain ⟨b₁, w₃, hbase, hb⟩ := bind_ok.1 hb
    obtain ⟨⟨⟩, w₄, hgate, -⟩ := bind_ok.1 hb
    have h₂ : w.avail = w₂.avail := (warmUp_moves brackets_avail events).ok hwarm
    have h₃ : w₂.avail = w₃.avail := (baseline_moves brackets_avail events burnin).ok hbase
    have hp : Passes w₃.avail events := by
      rw [availLookup_run] at hgate
      unfold Passes
      cases hl : papiAvailLookup w₃.avail events none with
      | ok u => rfl
      | error c =>
        rw [hl] at hgate
        cases hgate
    rwa [h₂, h₃]
  · obtain ⟨w₂, -, ⟨c', hr, -⟩ | ⟨-, c', hr, -⟩ | ⟨-, codes, hc, -, -⟩⟩ :=
      papiStart_cases H events w₁
    · rw [bind_of_error hr] at he
      cases he
    · rw [bind_of_error hr] at he
      cases he
    · exact ⟨codes, hc⟩

/-- `system.event` that fails before its expression leaves no session behind. -/
theorem opening_error {events : List String} {burnin : Bool} {w w' : World State} {c : RError}
    (h : Stopped w) (hrun : (opening (Hl.papi H) events burnin).run w = .error c w') :
    Stopped w' := by
  have hpre := beforeSession_moves (H := H) brackets_closes events burnin
  rw [opening_eq] at hrun
  rcases bind_error.1 hrun with he | ⟨b, w₁, hb, he⟩
  · exact (hpre.error he).stopped h
  · have h₁ : Stopped w₁ := (hpre.ok hb).stopped h
    obtain ⟨w₂, -, ⟨c', hr, hl⟩ | ⟨h₀, c', hr, hl⟩ | ⟨h₀, codes, -, hr, -⟩⟩ :=
      papiStart_cases H events w₁
    · rw [bind_of_error hr] at he
      cases he
      unfold Stopped
      rw [hl]
      exact h₁
    · rw [bind_of_error hr] at he
      cases he
      unfold Stopped
      rw [hl]
      rfl
    · rw [bind_of_ok hr] at he
      cases he

variable (H)

/-- The length of the array that `papi.stop` passes on: the number of different events. -/
def arrayLen (events : List String) : Nat :=
  (((hlTables H).codes events).getD []).eraseDups.length

/-- The condition on a call of `system.event` in `w`: the expression, if it is reached, does not end
in a session that is larger than the array of the call. -/
def EventClean (events : List String) (burnin : Bool) (expr : Prom State) (w : World State) :
    Prop :=
  ∀ b w₁, (opening (Hl.papi H) events burnin).run w = .ok b w₁ →
    ¬ EndsOutgrown (arrayLen H events) expr w₁

variable {H}

/-- `system.event` called with the session stopped. -/
theorem systemEvent_stopped (expr : Option (Prom State)) (events : List String)
    (gcFirst burnin : Bool) {w : World State} (h : Stopped w) :
    Stopped (final ((systemEvent (Hl.papi H) expr events gcFirst burnin).run w)) ↔
      EventClean H events burnin (expr.getD nullProm) w := by
  rw [systemEvent_opening]
  unfold EventClean
  cases ho : (opening (Hl.papi H) events burnin).run w with
  | error c w₁ =>
    rw [bind_of_error ho]
    refine iff_of_true (opening_error h ho) ?_
    intro b w₁ h'
    cases h'
  | ok b w₁ =>
    obtain ⟨-, codes, hc⟩ := opening_ok ho
    rw [bind_of_ok ho, bind_of_ok (tryIdentity_run _ w₁)]
    -- what follows the stop call does not touch the library
    have htail := Moves.final_bind (R := Same) (x := papiStop (Hl.papi H) events)
      (f := fun ret => (if (caughtObj (expr.getD nullProm) w₁).inherits "simpleError" then
          throw (stopCond (caughtObj (expr.getD nullProm) w₁)) else asList ret) >>= fun r =>
        liftR (corrected b r)) (fun ret => ?_) (final ((reval (expr.getD nullProm)).run w₁))
    · have hstop := (papiStop_moves H hc (final ((reval (expr.getD nullProm)).run w₁))).2
      have hiff : Stopped (final ((papiStop (Hl.papi H) events).run
          (final ((reval (expr.getD nullProm)).run w₁)))) ↔
          ¬ EndsOutgrown (arrayLen H events) (expr.getD nullProm) w₁ := by
        unfold Stopped EndsOutgrown arrayLen
        rw [hstop, hc]
        exact stopCounters_stopped _ _
      refine Iff.trans ?_ (hiff.trans ⟨fun hout b' w' h' => ?_, fun hout => hout b w₁ rfl⟩)
      · unfold Stopped
        rw [htail.lib]
      · cases h'
        exact hout
    · refine .bind ?_ fun r => liftR_moves _
      split
      · exact .throw _
      · cases ret <;> first | exact .pure _ | exact .throw _

/-- What follows a call of `system.event` in the other event functions touches no library. -/
theorem final_tail {α β : Type} {x : RM State α} {f : α → RM State β}
    (hf : ∀ a, Moves Same (f a)) (w : World State) :
    Stopped (final ((x >>= f).run w)) ↔ Stopped (final (x.run w)) := by
  unfold Stopped
  rw [(Moves.final_bind hf w).lib]

theorem final_map {α β : Type} (f : α → β) (x : RM State α) (w : World State) :
    final ((f <$> x).run w) = final (x.run w) := by
  rw [map_run]
  cases x.run w <;> rfl

/-- The gate in front of a call of `system.event` asks the table that `system.event` asks. -/
theorem gate_stopped {α : Type} {events : List String} (shorthand : Option String)
    {x : RM State α} {burnin : Bool} {expr : Prom State} {w : World State} (h : Stopped w)
    (hx : Stopped (final (x.run w)) ↔ EventClean H events burnin expr w) :
    Stopped (final ((availLookup events shorthand >>= fun _ => x).run w)) ↔
      EventClean H events burnin expr w := by
  have hrun := availLookup_run events shorthand w
  cases hl : papiAvailLookup w.avail events shorthand with
  | ok u =>
    rw [hl] at hrun
    rw [bind_of_ok hrun]
    exact hx
  | error c =>
    rw [hl] at hrun
    rw [bind_of_error hrun]
    refine iff_of_true h fun b w₁ ho => ?_
    have hp := (passes_iff shorthand).1 (opening_ok ho).1
    rw [hl] at hp
    cases hp

/-- Arguments that do not match stand for no events, which do not pass the gate. -/
theorem eventClean_nil (burnin : Bool) (expr : Prom State) (w : World State) :
    EventClean H [] burnin expr w := fun _ _ ho => absurd (opening_ok ho).1 not_passes_nil

theorem cacheTail_same (ratio : Bool) (name : String) (ret : Measurement) :
    Moves Same (cacheTail ratio name ret : RM State Ret) := by
  unfold cacheTail
  split
  · exact (liftR_moves _).bind fun _ => (liftR_moves _).bind fun _ => .pure _
  · exact .pure _

/-- The event functions called with the session stopped; the ratio of the accesses evaluates
nothing. -/
theorem measure_event_stopped {f : Wrapper} (hf : rateOf f = none) (expr : Option (Prom State))
    (gcFirst burnin : Bool) {w : World State} (h : Stopped w) :
    Stopped (final ((measure (Hl.papi H) f expr gcFirst burnin).run w)) ↔
      (¬ AccessRatio f →
        EventClean H (eventsOf f) (forwarded f burnin) (expr.getD nullProm) w) := by
  have hev (events : List String) (burnin : Bool) := systemEvent_stopped (H := H) expr events
    gcFirst burnin h
  cases f with
  | event events =>
    rw [imp_iff_right (show ¬ AccessRatio (.event events) from id), Api.measure, final_map]
    exact hev events burnin
  | ipcmCache type level =>
    rw [imp_iff_right (show ¬ AccessRatio (.ipcmCache type level) from id), Api.measure, final_map]
    exact hev (ipcmCacheOpts type level) burnin
  | cpuormem =>
    rw [imp_iff_right (show ¬ AccessRatio .cpuormem from id)]
    refine gate_stopped none h (Iff.trans (final_tail (fun ret => ?_) w)
      (hev ["PAPI_FP_INS", "PAPI_L2_TCA"] true))
    refine (liftR_moves _).bind fun _ => (liftR_moves _).bind fun _ => ?_
    split <;> exact .pure _
  | idle events =>
    rw [imp_iff_right (show ¬ AccessRatio (.idle events) from id), Api.measure, final_map]
    cases hm : matchArg events.toLower idleEvents with
    | error c =>
      simp only [systemIdle, hm, eventsOf]
      exact iff_of_true h (eventClean_nil _ _ _)
    | ok ev =>
      simp only [systemIdle, hm, liftR_ok_bind, eventsOf]
      exact gate_stopped _ h (hev (idleOpts ev) burnin)
  | cache type events =>
    cases hty : matchArg type.toLower cacheTypes with
    | error c =>
      simp only [Api.measure, systemCache, hty, eventsOf]
      exact iff_of_true h fun _ => eventClean_nil _ _ _
    | ok ty =>
      cases hm : matchArg events.toLower cacheEvents with
      | error c =>
        simp only [Api.measure, systemCache, hty, hm, liftR_ok_bind, eventsOf]
        exact iff_of_true h fun _ => eventClean_nil _ _ _
      | ok ev =>
        by_cases hr : AccessRatio (.cache type events)
        · refine iff_of_true ?_ fun hna => absurd hr hna
          obtain ⟨hty', ev', hev', hmatch⟩ := hr
          simp only [Api.measure, systemCache, hty', hev', liftR_ok_bind, hmatch, and_self, if_true]
          exact h
        · obtain ⟨name, heq⟩ := systemCache_eq (P := Hl.papi H) hty hm hr
          rw [imp_iff_right hr, Api.measure, heq]
          exact gate_stopped _ h (Iff.trans (final_tail (cacheTail_same _ name) w)
            (hev (eventsOf (.cache type events)) burnin))
  | _ => cases hf

/-! ## Runs of calls -/

variable (H)

/-- The condition on a rate function called in `w`, once its gate has passed. -/
def RunClean (k : RateKind) (event : List String) (expr : Prom State) (w : World State) : Prop :=
  ∀ ev w₁, (k.gate (Hl.papi H) event).run w = .ok ev w₁ → RateClean H k ev expr w₁

/-- The condition on a measuring call made in `w`: on an event function that of its call of
`system.event`, and on a rate function that of its burn-in run and of its measured run. -/
def Clean (c : Call) (w : World State) : Prop :=
  match rateOf c.f with
  | none => ¬ AccessRatio c.f →
      EventClean H (eventsOf c.f) (forwarded c.f c.burnin) (c.expr.getD nullProm) w
  | some (k, event) =>
    if c.burnin then
      RunClean H k event nullProm w ∧
        ∀ b w₁, (rateRun (Hl.papi H) k event none c.gcFirst).run w = .ok b w₁ →
          RunClean H k event (c.expr.getD nullProm) w₁
    else RunClean H k event (c.expr.getD nullProm) w

/-- Every call of a sequence meets its condition. -/
def CleanRun : List Call → World State → Prop
  | [], _ => True
  | c :: cs, w => Clean H c w ∧ CleanRun cs (c.after H w)

/-- The session is stopped again whenever a call of a sequence ends. -/
def StoppedRun : List Call → World State → Prop
  | [], _ => True
  | c :: cs, w => Stopped (c.after H w) ∧ StoppedRun cs (c.after H w)

variable {H}

theorem rateRun_stopped {k : RateKind} (event : List String) (expr : Option (Prom State))
    (gcFirst : Bool) {w : World State} (h : Stopped w) :
    Stopped (final ((rateRun (Hl.papi H) k event expr gcFirst).run w)) ↔
      RunClean H k event (expr.getD nullProm) w := by
  rw [rateRun_eq, rateReading]
  cases hg : (k.gate (Hl.papi H) event).run w with
  | error c w₁ =>
    rw [bind_of_error hg, (hlTables H).gate_error hg]
    refine iff_of_true h ?_
    intro ev w₁ h'
    rw [hg] at h'
    cases h'
  | ok ev w₁ =>
    obtain ⟨hs, ha⟩ := (hlTables H).gate_ok hg
    have h₁ : Stopped w₁ := by
      unfold Stopped
      rw [hs.lib]
      exact h
    rw [bind_of_ok hg, papiRate_stopped ha h₁]
    constructor
    · intro hclean ev' w' h'
      rw [hg] at h'
      cases h'
      exact hclean
    · exact fun hclean => hclean ev w₁ hg

/-- A burn-in run that returns leaves the session stopped for the measured run; one that fails is
the whole call. -/
theorem systemRate_stopped {k : RateKind} (event : List String) (expr : Option (Prom State))
    (gcFirst burnin : Bool) {w : World State} (h : Stopped w) :
    Stopped (final ((systemRate (Hl.papi H) k event expr gcFirst burnin).run w)) ↔
      if burnin then
        RunClean H k event nullProm w ∧
          ∀ b w₁, (rateRun (Hl.papi H) k event none gcFirst).run w = .ok b w₁ →
            RunClean H k event (expr.getD nullProm) w₁
      else RunClean H k event (expr.getD nullProm) w := by
  cases burnin with
  | false => exact rateRun_stopped event expr gcFirst h
  | true =>
    have hb := rateRun_stopped (H := H) (k := k) event none gcFirst h
    simp only [systemRate, if_true]
    cases hrun : (rateRun (Hl.papi H) k event none gcFirst).run w with
    | error e w₁ =>
      rw [hrun] at hb
      rw [bind_of_error hrun]
      exact hb.trans ⟨fun h' => ⟨h', fun b w' h'' => by cases h''⟩, And.left⟩
    | ok b w₁ =>
      have h₁ : Stopped w₁ := by
        rw [rateRun_eq, rateReading] at hrun
        obtain ⟨ev, w₂, hg, hrun⟩ := bind_ok.1 hrun
        obtain ⟨hs, ha⟩ := (hlTables H).gate_ok hg
        refine papiRate_null_ok ha ?_ hrun
        unfold Stopped
        rw [hs.lib]
        exact h
      rw [hrun] at hb
      have htail := final_tail (x := rateRun (Hl.papi H) k event expr gcFirst)
        (f := fun ret => liftR (burnLoop (k.idx ret.length) b ret)) (fun ret => liftR_moves _) w₁
      rw [bind_of_ok hrun, htail, rateRun_stopped event expr gcFirst h₁]
      constructor
      · refine fun h' => ⟨hb.1 h₁, fun b' w' h'' => ?_⟩
        cases h''
        exact h'
      · exact fun h' => h'.2 b w₁ rfl

/-- One call from a stopped session ends with the session stopped exactly if it is clean. -/
theorem call_stopped (c : Call) {w : World State} (h : Stopped w) :
    Stopped (c.after H w) ↔ Clean H c w := by
  unfold Call.after Call.run Clean
  cases hf : rateOf c.f with
  | none => exact measure_event_stopped hf c.expr c.gcFirst c.burnin h
  | some p =>
    obtain ⟨k, event⟩ := p
    rw [measure_rate _ hf, final_map]
    exact systemRate_stopped event c.expr c.gcFirst c.burnin h

/-- From a stopped session, the session is stopped again after each call of a sequence exactly if
every call is clean. -/
theorem runCalls_stopped (cs : List Call) {w : World State} (h : Stopped w) :
    StoppedRun H cs w ↔ CleanRun H cs w := by
  induction cs generalizing w with
  | nil => exact Iff.rfl
  | cons c cs ih =>
    unfold StoppedRun CleanRun
    rw [call_stopped c h]
    exact and_congr_right fun hc => ih ((call_stopped c h).2 hc)

end

/-! ## Sequences on the small machine -/

instance decidableStopped (w : World State) : Decidable (Stopped w) :=
  inferInstanceAs (Decidable (_ = _))

instance decidableStoppedRun : ∀ (cs : List Call) (w : World State),
    Decidable (StoppedRun smallHw cs w)
  | [], _ => isTrue trivial
  | c :: cs, w =>
    have := decidableStoppedRun cs (c.after smallHw w)
    inferInstanceAs (Decidable (_ ∧ _))

/-- `system.flops({work}, burnin=TRUE)` -/
def workingCall : ExprCall := ⟨.flops, some (.work (flopsClock 5) (.value .null)), true, true⟩

/-- `system.flops({tryCatch(system.event(stop("e"), "PAPI_TOT_INS", burnin=FALSE), error=identity);
work}, burnin=FALSE)`: the nested call is refused, and its error handled. -/
def nestedCall : ExprCall :=
  ⟨.flops, some (.measure (.event ["PAPI_TOT_INS"]) true false (.raise (simpleError "e")) fun _ =>
    .work (flopsClock 5) (.value .null)), true, false⟩

/-- `system.event(stop("e"), c("PAPI_FP_OPS", "PAPI_TOT_CYC"))` -/
def raisingCall : ExprCall :=
  ⟨.event ["PAPI_FP_OPS", "PAPI_TOT_CYC"], some (.raise (simpleError "e")), true, true⟩

/-- The three calls. -/
def smallCalls : List Call := [workingCall, nestedCall, raisingCall].map (ExprCall.call smallHw)

theorem runCalls_stopped_small :
    StoppedRun smallHw smallCalls smallWorld ∧ CleanRun smallHw smallCalls smallWorld := by
  have hs : StoppedRun smallHw smallCalls smallWorld := by decide +kernel
  exact ⟨hs, (runCalls_stopped smallCalls (by decide)).1 hs⟩

/-- `papi.stop("PAPI_FP_OPS"); papi.start(c("PAPI_FP_OPS", "PAPI_TOT_CYC"))` -/
def restart : Prom State := (do
  let _ ← papiStop (Hl.papi smallHw) ["PAPI_FP_OPS"]
  let _ ← papiStart (Hl.papi smallHw) ["PAPI_FP_OPS", "PAPI_TOT_CYC"]
  return .obj .null : RM State (Val State))

/-- `system.flops(stop("e"), burnin=FALSE)` -/
def failingCall : ExprCall := ⟨.flops, some (.raise (simpleError "e")), false, false⟩

/-- `system.event({papi.stop("PAPI_FP_OPS"); papi.start(c("PAPI_FP_OPS", "PAPI_TOT_CYC"))},
"PAPI_FP_OPS", burnin=FALSE)` -/
def restartingCall : Call := ⟨.event ["PAPI_FP_OPS"], some restart, true, false⟩

/-- A failing expression leaves its rate session running, and `system.event` does not end a session
that is larger than its own. -/
theorem failingCall_runs : Stopped smallWorld ∧
    ¬ StoppedRun smallHw [failingCall.call smallHw] smallWorld ∧
    ¬ StoppedRun smallHw [restartingCall] smallWorld :=
  ⟨by decide, by decide +kernel, by decide +kernel⟩

end PbdPapi.Proof
