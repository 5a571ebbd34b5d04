import PbdPapi.Proof.Tables
import PbdPapi.Papi.HighLevel

/-!
# Sessions of PAPI's high level interface

What each session call of `papi_hl.c` can do to the session (`startCounters_cases`,
`stopCounters_stop` and its siblings, `rate_cases`), and the relation between the library's states
that a closed session keeps: any running session is left alone, and a stopped one is stopped again
(`Closes`).
-/

set_option autoImplicit false

namespace PbdPapi.Proof

open Exec Hl

/-- The lookups of the high level interface. -/
def hlTables (H : Hw) : Tables (Hl.papi H) where
  ncounters := H.numCounters
  codeOf := H.codeOf
  infoOf := H.info
  num _ := rfl
  name n c s := by
    simp only [Hl.papi]
    cases H.codeOf n <;> rfl
  info c ev s := by
    simp only [Hl.papi]
    cases H.info c <;> rfl

/-! ## The session calls -/

theorem papiEinval_ne : papiEinval ≠ papiOK := by decide
theorem papiEnotrun_ne : papiEnotrun ≠ papiOK := by decide

section
variable {H : Hw}

theorem addEvents_ok {set es set' : List Int} (h : addEvents H set es = .ok set') :
    set' = set ++ es := by
  induction es generalizing set set' with
  | nil => cases h; simp
  | cons e es ih =>
    unfold addEvents at h
    split at h
    · split at h
      · rename_i set₁ h₁
        cases h
        rw [ih h₁]
        simp
      · cases h
    · cases h

theorem addEvents_error {set es : List Int} {n : Nat} {c : Int}
    (h : addEvents H set es = .error (n, c)) : c ≠ papiOK := by
  induction es generalizing set n with
  | nil => cases h
  | cons e es ih =>
    unfold addEvents at h
    split at h
    · split at h
      · cases h
      · rename_i n₁ c₁ h₁
        cases h
        exact ih h₁
    · cases h
      assumption

/-- The state after `PAPI_start_counters(events)` from a stopped session. -/
def started (events : List Int) (s : State) : State :=
  { s with
    info := { s.info with
      eventSet := s.info.eventSet ++ events
      running := .start
      numEvts := events.length }
    base := s.now }

theorem startCounters_cases (H : Hw) (events : List Int) (s : State) :
    ((startCounters H events s).1 ≠ papiOK ∧ (startCounters H events s).2 = s) ∨
    (s.info.running = .stop ∧ (startCounters H events s).1 ≠ papiOK ∧
      (startCounters H events s).2 = cleanup s) ∨
    (s.info.running = .stop ∧ startCounters H events s = (papiOK, started events s)) := by
  unfold startCounters
  split
  · exact .inl ⟨papiEinval_ne, rfl⟩
  · split
    · exact .inl ⟨papiEinval_ne, rfl⟩
    · rename_i hr
      have hs : s.info.running = .stop := by simpa using hr
      split
      · rename_i c h
        split
        · exact .inl ⟨addEvents_error h, rfl⟩
        · exact .inr (.inl ⟨hs, addEvents_error h, rfl⟩)
      · rename_i set h
        refine .inr (.inr ⟨hs, ?_⟩)
        rw [addEvents_ok h]
        rfl

theorem stopCounters_stop {s : State} (h : s.info.running = .stop) (n : Nat) :
    stopCounters n s = ((papiEnotrun, []), s) := by
  simp [stopCounters, h]

theorem stopCounters_start {s : State} (h : s.info.running = .start) {n : Nat}
    (hn : s.info.numEvts ≤ n) : stopCounters n s = ((papiOK, counters s), cleanup s) := by
  simp [stopCounters, h, Nat.not_lt.2 hn]

theorem stopCounters_short {s : State} (h : s.info.running = .start) {n : Nat}
    (hn : n < s.info.numEvts) : stopCounters n s = ((papiEinval, []), s) := by
  simp [stopCounters, h, hn]

theorem stopCounters_rate {s : State} (h : s.info.running ≠ .stop) (h' : s.info.running ≠ .start)
    (n : Nat) : stopCounters n s = ((papiOK, []), cleanup s) := by
  cases hr : s.info.running <;> simp_all [stopCounters]

@[simp] theorem mode_ne_stop (r : Rate) : mode r ≠ .stop := by cases r <;> simp [mode]
@[simp] theorem mode_ne_start (r : Rate) : mode r ≠ .start := by cases r <;> simp [mode]

/-- The state after a rate call started its session. -/
def rateStarted (H : Hw) (r : Rate) (s : State) : State :=
  { info := { s.info with
      eventSet := s.info.eventSet ++ rateEvents H r
      totalIns := 0
      initialRealTime := s.now.real
      lastRealTime := s.now.real
      initialProcTime := s.now.virt
      lastProcTime := s.now.virt
      running := mode r }
    base := s.now
    now := s.now }

/-- The total that a rate call reads. -/
def readTotal (s : State) : Int := s.info.totalIns + (counters s).getD 0 0

theorem rate_eq (H : Hw) (r : Rate) (out : RateOut) (s : State) :
    (rate H r out s).1.1 = (hlRateCalls H r out s).1.1 ∧
      (rate H r out s).1.2.ins = (hlRateCalls H r out s).1.2.ins ∧
      (rate H r out s).2 = (hlRateCalls H r out s).2 := by
  cases r <;> exact ⟨rfl, rfl, rfl⟩

/-- A rate call is refused, fails to start, starts, or reads. -/
theorem rate_cases (H : Hw) (r : Rate) (out : RateOut) (s : State) :
    (s.info.running ≠ .stop ∧ s.info.running ≠ mode r ∧
      (rate H r out s).1.1 ≠ papiOK ∧ (rate H r out s).2 = s) ∨
    (s.info.running = .stop ∧ (rate H r out s).1.1 ≠ papiOK ∧ (rate H r out s).2 = cleanup s) ∨
    (s.info.running = .stop ∧ (rate H r out s).1.1 = papiOK ∧
      (rate H r out s).2 = rateStarted H r s) ∨
    (s.info.running = mode r ∧ (rate H r out s).1.1 = papiOK ∧
      (rate H r out s).1.2.ins = readTotal s ∧ (rate H r out s).2.info.running = mode r) := by
  obtain ⟨hc, hi, hs⟩ := rate_eq H r out s
  rw [hc, hi, hs]
  unfold hlRateCalls
  split
  · rename_i h
    exact .inl ⟨h.1, h.2, papiEinval_ne, rfl⟩
  · rename_i h
    split
    · rename_i hr
      refine .inr ?_
      unfold rateStart
      split
      · rename_i n c he
        refine .inl ⟨hr, ?_, rfl⟩
        have := addEvents_error he
        by_cases hn : n = 0
        · simpa [hn] using this
        · simp [hn, papiOK]
      · rename_i set he
        refine .inr (.inl ⟨hr, rfl, ?_⟩)
        rw [addEvents_ok he]
        rfl
    · rename_i hr
      have hm : s.info.running = mode r := by
        by_contra hm
        exact h ⟨hr, hm⟩
      exact .inr (.inr (.inr ⟨hm, rfl, rfl, hm⟩))

/-! ## What the package does to a session -/

/-- The session: what the library holds about it, and the clock at its last `PAPI_start`. -/
def session (s : State) : Info × Clock := (s.info, s.base)

/-- A running session is left alone, and a stopped one is stopped again. -/
structure Closes (s s' : State) : Prop where
  running : s.info.running ≠ .stop → session s' = session s
  stopped : s.info.running = .stop → s'.info.running = .stop

theorem running_of_session {s s' : State} (h : session s' = session s) :
    s'.info.running = s.info.running := by
  have := congrArg (fun p => p.1.running) h
  exact this

instance : IsPreorder State Closes where
  refl _ := ⟨fun _ => rfl, id⟩
  trans _ _ _ h₁ h₂ := by
    refine ⟨fun h => ?_, fun h => h₂.stopped (h₁.stopped h)⟩
    have h' := h₁.running h
    rw [h₂.running (by rwa [running_of_session h']), h']

/-- `Closes` for the library of a world. -/
abbrev ClosesW : World State → World State → Prop := InvImage Closes World.lib

theorem closes_of_session {s s' : State} (h : session s' = session s) : Closes s s' :=
  ⟨fun _ => h, fun hs => by rw [running_of_session h, hs]⟩

end

end PbdPapi.Proof
