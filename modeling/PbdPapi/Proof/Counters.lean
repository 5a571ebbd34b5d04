import PbdPapi.Api.Program
import PbdPapi.Papi.Counters
import PbdPapi.Proof.HighLevel
import Mathlib.Tactic.Ring

/-!
# What a session counts

Runs of a program over `papi_hl.c`. As long as every `PAPI_start` succeeds, no call writes beyond
the array that it was given (`runActions_tidy`); the reads, the accumulations and the stop of a
session hand out every occurrence of its events once (`session_counts`); and a rate call reports
what has occurred since its session was started (`rate_totals`). After a `PAPI_start` that failed
its events stay in the `EventSet`, and the next session writes more values than the program has
asked for (`failed_start_overflows`).
-/

set_option autoImplicit false

namespace PbdPapi.Hl

open Proof Api

/-! ## The calls of the other modules -/

section
variable (H : Hw)

theorem startWith_ok (events : List Int) (s : State) :
    startWith H papiOK events s = startCounters H events s := by
  unfold startWith startCounters
  cases addEvents H s.info.eventSet events <;> rfl

theorem rateCallsWith_ok (r : Rate) (out : RateOut) {s : State}
    (h : s.info.running = mode r → s.info.eventSet.length ≤ rateLength r) :
    rateCallsWith H papiOK r out s = some (hlRateCalls H r out s) := by
  unfold rateCallsWith hlRateCalls
  split
  · rfl
  · next hmode =>
    split
    · unfold rateStart
      cases addEvents H s.info.eventSet (rateEvents H r) <;> rfl
    · next hstop =>
      have hr : s.info.running = mode r := by
        by_contra hne
        exact hmode ⟨hstop, hne⟩
      rw [if_pos (h hr)]
      rfl

end

@[simp] theorem length_counters (s : State) : (counters s).length = s.info.eventSet.length :=
  List.length_map _

theorem readSet_ok {values : List Int} {s : State}
    (h : s.info.eventSet.length ≤ values.length) :
    readSet values s = some (counters s ++ values.drop s.info.eventSet.length) := by
  rw [readSet, length_counters, if_pos h]

theorem accumSet_ok {values : List Int} {s : State}
    (h : s.info.eventSet.length ≤ values.length) :
    accumSet values s = some (List.zipWith (· + ·) (counters s) values ++
      values.drop s.info.eventSet.length, reset s) := by
  rw [accumSet, length_counters, if_pos h]

theorem stopInto_eq (values : List Int) {s : State} (hrun : s.info.running = .start)
    (h : s.info.eventSet.length ≤ values.length) :
    stopInto values s = some (((stopCounters values.length s).1.1,
      if s.info.numEvts ≤ values.length then counters s ++ values.drop s.info.eventSet.length
      else values), (stopCounters values.length s).2) := by
  unfold stopInto stopCounters
  rw [hrun]
  simp only
  by_cases hlen : values.length < s.info.numEvts
  · rw [if_pos hlen, if_pos hlen, if_neg (Nat.not_le.2 hlen)]
  · rw [if_neg hlen, if_neg hlen, if_pos (Nat.not_lt.1 hlen), readSet_ok h]
    rfl

/-! ## Arrays are long enough -/

/-- A session has as many events as the array of its calls has places. -/
structure Tidy (s : State) : Prop where
  stopped : s.info.running = .stop → s.info.eventSet = []
  started : s.info.running = .start → s.info.eventSet.length = s.info.numEvts
  rating : ∀ r, s.info.running = mode r → s.info.eventSet.length ≤ rateLength r

theorem tidy_cleanup (s : State) : Tidy (cleanup s) :=
  ⟨fun _ => rfl, fun _ => rfl, fun _ _ => Nat.zero_le _⟩

theorem Tidy.of_info {s s' : State} (h : Tidy s) (hinfo : s'.info = s.info) : Tidy s' := by
  obtain ⟨h₁, h₂, h₃⟩ := h
  exact ⟨by rwa [hinfo], by rwa [hinfo], by rwa [hinfo]⟩

theorem rateLength_mode {r r' : Rate} (h : mode r = mode r') : rateLength r = rateLength r' := by
  cases r <;> cases r' <;> first | rfl | cases h

theorem rateLength_le (r : Rate) : rateLength r ≤ 3 := by
  cases r <;> simp [rateLength]

theorem length_rateEvents (H : Hw) (r : Rate) : (rateEvents H r).length ≤ rateLength r := by
  cases r with
  | epc e =>
    rw [rateEvents]
    split <;> simp [rateLength]
  | _ => simp [rateEvents, rateLength]

theorem exists_mode {x : Running} (hstop : x ≠ .stop) (hstart : x ≠ .start) : ∃ r, x = mode r := by
  cases x with
  | stop => exact absurd rfl hstop
  | start => exact absurd rfl hstart
  | flip => exact ⟨.flips, rfl⟩
  | flop => exact ⟨.flops, rfl⟩
  | ipc => exact ⟨.ipc, rfl⟩
  | epc => exact ⟨.epc 0, rfl⟩

/-- What `PAPI_start` returns in a call that gets to it. -/
def Action.retval : Action → Int
  | .start _ retval | .rate _ _ retval => retval
  | _ => papiOK

section
variable {H : Hw} {s : State}

theorem tidy_startCounters (h : Tidy s) (events : List Int) :
    Tidy (startCounters H events s).2 := by
  rcases startCounters_cases H events s with ⟨-, heq⟩ | ⟨-, -, heq⟩ | ⟨hstop, heq⟩
  · rwa [heq]
  · rw [heq]
    exact tidy_cleanup s
  · rw [heq]
    refine ⟨fun hr => (by cases hr), fun _ => ?_, fun r hr => absurd hr.symm (mode_ne_start r)⟩
    simp [started, h.stopped hstop]

theorem tidy_rateCalls (h : Tidy s) (r : Rate) (out : RateOut) :
    Tidy (hlRateCalls H r out s).2 := by
  obtain ⟨-, -, hstate⟩ := rate_eq H r out s
  rw [← hstate]
  rcases rate_cases H r out s with ⟨-, -, -, heq⟩ | ⟨-, -, heq⟩ | ⟨hstop, -, heq⟩ | ⟨hr, -, -, hr'⟩
  · rwa [heq]
  · rw [heq]
    exact tidy_cleanup s
  · rw [heq]
    refine ⟨fun hr => absurd hr (mode_ne_stop r), fun hr => absurd hr (mode_ne_start r),
      fun r' hr' => ?_⟩
    have hmode : mode r = mode r' := hr'
    rw [← rateLength_mode hmode]
    simpa [rateStarted, h.stopped hstop] using length_rateEvents H r
  · have hset : (rate H r out s).2.info.eventSet = s.info.eventSet := by
      rw [hstate, hlRateCalls, if_neg (by simp [hr]), if_neg (by simp [hr])]
      rfl
    refine ⟨fun hs => absurd (hr'.symm.trans hs) (mode_ne_stop r),
      fun hs => absurd (hr'.symm.trans hs) (mode_ne_start r), fun r' hs => ?_⟩
    rw [hset]
    exact h.rating r' (hr.trans (hr'.symm.trans hs))

theorem hlReadCnts_refused {values : List Int}
    (h : s.info.running ≠ .start ∨ values.length < s.info.numEvts) (flag : Flag) :
    hlReadCnts values flag s = some ((papiEinval, values), s) := if_pos h

theorem hlReadCnts_read {values : List Int} (hrun : s.info.running = .start)
    (hnum : s.info.numEvts ≤ values.length) (hlen : s.info.eventSet.length ≤ values.length) :
    hlReadCnts values .read s =
      some ((papiOK, counters s ++ values.drop s.info.eventSet.length), reset s) := by
  unfold hlReadCnts
  rw [if_neg (by simp [hrun, hnum]), readSet_ok hlen]
  rfl

theorem hlReadCnts_accum {values : List Int} (hrun : s.info.running = .start)
    (hnum : s.info.numEvts ≤ values.length) (hlen : s.info.eventSet.length ≤ values.length) :
    hlReadCnts values .accum s = some ((papiOK, List.zipWith (· + ·) (counters s) values ++
      values.drop s.info.eventSet.length), reset s) := by
  unfold hlReadCnts
  rw [if_neg (by simp [hrun, hnum]), accumSet_ok hlen]
  rfl

theorem hlReadCnts_info (h : Tidy s) (values : List Int) (flag : Flag) :
    ∃ answer s', hlReadCnts values flag s = some (answer, s') ∧ s'.info = s.info := by
  by_cases hcond : s.info.running ≠ .start ∨ values.length < s.info.numEvts
  · exact ⟨_, _, hlReadCnts_refused hcond flag, rfl⟩
  · rw [not_or, Decidable.not_not, Nat.not_lt] at hcond
    have hlen : s.info.eventSet.length ≤ values.length := h.started hcond.1 ▸ hcond.2
    cases flag with
    | read => exact ⟨_, _, hlReadCnts_read hcond.1 hcond.2 hlen, rfl⟩
    | accum => exact ⟨_, _, hlReadCnts_accum hcond.1 hcond.2 hlen, rfl⟩

theorem stopInto_cases (h : Tidy s) (values : List Int) :
    ∃ answer s', stopInto values s = some (answer, s') ∧ (s' = s ∨ s' = cleanup s) := by
  unfold stopInto
  split
  · exact ⟨_, _, rfl, .inl rfl⟩
  · next hrun =>
    split
    · exact ⟨_, _, rfl, .inl rfl⟩
    · next hlen =>
      rw [readSet_ok (h.started hrun ▸ Nat.not_lt.1 hlen)]
      exact ⟨_, _, rfl, .inr rfl⟩
  · next hstop hstart =>
    obtain ⟨r, hr⟩ := exists_mode hstop hstart
    have hlen : s.info.eventSet.length ≤ [0, 0, 0].length :=
      Nat.le_trans (h.rating r hr) (rateLength_le r)
    rw [readSet_ok hlen]
    exact ⟨_, _, rfl, .inr rfl⟩

/-- A call whose `PAPI_start` succeeds stays within its array. -/
theorem Tidy.step (h : Tidy s) {c : Action} (hc : c.retval = papiOK) :
    ∃ s', c.step H s = some s' ∧ Tidy s' := by
  cases c with
  | work d => exact ⟨_, rfl, h.of_info rfl⟩
  | start events retval =>
    obtain rfl : retval = papiOK := hc
    refine ⟨_, rfl, ?_⟩
    rw [startWith_ok]
    exact tidy_startCounters h events
  | read values =>
    obtain ⟨_, s', heq, hinfo⟩ := hlReadCnts_info h values .read
    exact ⟨s', by rw [Action.step, readCounters, heq]; rfl, h.of_info hinfo⟩
  | accum values =>
    rw [Action.step, accumCounters]
    split
    · exact ⟨s, rfl, h⟩
    · obtain ⟨_, s', heq, hinfo⟩ := hlReadCnts_info h values .accum
      exact ⟨s', by rw [heq]; rfl, h.of_info hinfo⟩
  | stop values =>
    obtain ⟨_, s', heq, hs'⟩ := stopInto_cases h values
    refine ⟨s', by rw [Action.step, heq]; rfl, ?_⟩
    rcases hs' with rfl | rfl
    · exact h
    · exact tidy_cleanup s
  | rate r out retval =>
    obtain rfl : retval = papiOK := hc
    refine ⟨_, by rw [Action.step, rateCallsWith_ok H r out (h.rating r)]; rfl, ?_⟩
    exact tidy_rateCalls h r out

/-- As long as every `PAPI_start` succeeds, no call of a run writes beyond its array. -/
theorem runActions_tidy (h : Tidy s) {cs : List Action} (hcs : ∀ c ∈ cs, c.retval = papiOK) :
    ∃ s', runActions H cs s = some s' ∧ Tidy s' := by
  induction cs generalizing s with
  | nil => exact ⟨s, rfl, h⟩
  | cons c cs ih =>
    obtain ⟨hc, hcs⟩ := List.forall_mem_cons.1 hcs
    obtain ⟨s₁, hstep, h₁⟩ := h.step hc
    obtain ⟨s', hrun, h'⟩ := ih h₁ hcs
    exact ⟨s', by rw [runActions, List.foldlM_cons, hstep]; exact hrun, h'⟩

end

theorem smallWorld_tidy : Tidy smallWorld.lib := by
  refine ⟨fun _ => rfl, fun h => (by cases h), fun r h => ?_⟩
  cases r <;> cases h

theorem runActions_tidy_small :
    ∃ s', runActions smallHw [.start [papiFpOps, papiTotCyc] papiOK, .work (flopsClock 5),
        .read [0, 0], .rate .flops ⟨0, 0, 0, 0, 0, 0⟩ papiOK, .stop [0], .stop [0, 0]]
        smallWorld.lib = some s' ∧ Tidy s' :=
  runActions_tidy smallWorld_tidy (by simp [Action.retval])

/-! ## Counts are handed out once -/

/-- What occurs in a call: the library takes no time. -/
def Action.worked : Action → Clock
  | .work d => d
  | .start _ _ | .read _ | .accum _ | .stop _ | .rate _ _ _ => ⟨fun _ => 0, 0, 0⟩

def worked : List Action → Clock
  | [] => ⟨fun _ => 0, 0, 0⟩
  | c :: cs => c.worked.add (worked cs)

/-- What has occurred of an event since the counters were zero. -/
def pending (s : State) (e : Int) : Int := s.now.count e - s.base.count e

/-- What a call adds to what the program knows of the `k`th event: the value that it reads, or that
it adds to the one in the array. -/
def Action.hands (s : State) (k : Nat) : Action → Int
  | .read values =>
    match readCounters values s with
    | some ((code, values'), _) => if code = papiOK then values'.getD k 0 else 0
    | none => 0
  | .accum values =>
    match accumCounters values s with
    | some ((_, values'), _) => values'.getD k 0 - values.getD k 0
    | none => 0
  | .work _ | .start _ _ | .stop _ | .rate _ _ _ => 0

def handedOut (H : Hw) (k : Nat) : List Action → State → Int
  | [], _ => 0
  | c :: cs, s =>
    c.hands s k +
      match c.step H s with
      | some s' => handedOut H k cs s'
      | none => 0

/-- Not a stop that the session accepts. -/
def Action.Stays (n : Nat) (c : Action) : Prop := ∀ values, c = .stop values → values.length < n

section
variable {H : Hw} {s : State} {k : Nat} {e : Int}

theorem counters_getD (he : s.info.eventSet[k]? = some e) (values : List Int) :
    (counters s ++ values).getD k 0 = pending s e := by
  have hk := (List.getElem?_eq_some_iff.1 he).1
  rw [List.getD_eq_getElem?_getD, List.getElem?_append_left (by simpa using hk), counters,
    List.getElem?_map, he]
  rfl

theorem accum_getD (he : s.info.eventSet[k]? = some e) {values : List Int}
    (hlen : s.info.eventSet.length ≤ values.length) (rest : List Int) :
    (List.zipWith (· + ·) (counters s) values ++ rest).getD k 0 =
      pending s e + values.getD k 0 := by
  have hk := (List.getElem?_eq_some_iff.1 he).1
  have hk' : k < values.length := Nat.lt_of_lt_of_le hk hlen
  rw [List.getD_eq_getElem?_getD, List.getElem?_append_left (by simp [hk, hk']),
    List.getElem?_zipWith, counters, List.getElem?_map, he, List.getElem?_eq_getElem hk',
    List.getD_eq_getElem?_getD, List.getElem?_eq_getElem hk']
  rfl

theorem pending_reset (s : State) (e : Int) : pending (reset s) e = 0 := Int.sub_self _

theorem pending_work (s : State) (d : Clock) (e : Int) :
    pending { s with now := s.now.add d } e = pending s e + d.count e := by
  simp only [pending, Clock.add, Int.natCast_add]
  omega

/-- Every call but a stop leaves the session, and what it hands out is no longer pending. -/
theorem step_hands (h : Tidy s) (hrun : s.info.running = .start)
    (he : s.info.eventSet[k]? = some e) {c : Action} (hc : c.Stays s.info.numEvts) :
    ∃ s', c.step H s = some s' ∧ s'.info = s.info ∧
      c.hands s k + pending s' e = pending s e + c.worked.count e := by
  have hlen := h.started hrun
  have hstop : s.info.running ≠ .stop := by rw [hrun]; decide
  cases c with
  | work d => exact ⟨_, rfl, rfl, by rw [pending_work, Action.hands, Action.worked, Int.zero_add]⟩
  | start events retval =>
    refine ⟨s, ?_, rfl, by simp [Action.hands, Action.worked]⟩
    rw [Action.step, startWith, if_pos hstop]
    split <;> rfl
  | read values =>
    rw [Action.step, Action.hands, readCounters]
    by_cases hshort : values.length < s.info.numEvts
    · rw [hlReadCnts_refused (.inr hshort)]
      exact ⟨s, rfl, rfl, by simp [papiEinval_ne, Action.worked]⟩
    · rw [hlReadCnts_read hrun (by omega) (by omega)]
      refine ⟨reset s, rfl, rfl, ?_⟩
      simp only [if_true, counters_getD he, pending_reset, Action.worked]
      rfl
  | accum values =>
    rw [Action.step, Action.hands, accumCounters]
    split
    · exact ⟨s, rfl, rfl, by simp [Action.worked]⟩
    · by_cases hshort : values.length < s.info.numEvts
      · rw [hlReadCnts_refused (.inr hshort)]
        exact ⟨s, rfl, rfl, by simp [Action.worked]⟩
      · have hle : s.info.eventSet.length ≤ values.length := by omega
        rw [hlReadCnts_accum hrun (by omega) hle]
        refine ⟨reset s, rfl, rfl, ?_⟩
        simp only [accum_getD he hle, pending_reset, Action.worked]
        omega
  | stop values =>
    refine ⟨s, ?_, rfl, by simp [Action.hands, Action.worked]⟩
    unfold Action.step stopInto
    rw [hrun]
    simp only
    rw [if_pos (hc values rfl)]
    rfl
  | rate r out retval =>
    refine ⟨s, ?_, rfl, by simp [Action.hands, Action.worked]⟩
    have hmode : s.info.running ≠ mode r := by
      rw [hrun]
      exact (mode_ne_start r).symm
    rw [Action.step, rateCallsWith, if_pos ⟨hstop, hmode⟩]
    rfl

theorem run_hands (h : Tidy s) (hrun : s.info.running = .start)
    (he : s.info.eventSet[k]? = some e) {cs : List Action}
    (hcs : ∀ c ∈ cs, c.Stays s.info.numEvts) :
    ∃ s', runActions H cs s = some s' ∧ s'.info = s.info ∧
      handedOut H k cs s + pending s' e = pending s e + (worked cs).count e := by
  induction cs generalizing s with
  | nil => exact ⟨s, rfl, rfl, by simp [handedOut, worked]⟩
  | cons c cs ih =>
    obtain ⟨hc, hcs⟩ := List.forall_mem_cons.1 hcs
    obtain ⟨s₁, hstep, hinfo, hhands⟩ := step_hands (H := H) h hrun he hc
    obtain ⟨s', hrun', hinfo', hrest⟩ :=
      ih (h.of_info hinfo) (hinfo ▸ hrun) (hinfo ▸ he) (hinfo ▸ hcs)
    refine ⟨s', by rw [runActions, List.foldlM_cons, hstep]; exact hrun', hinfo'.trans hinfo, ?_⟩
    rw [handedOut, hstep]
    simp only [worked, Clock.add, Int.natCast_add]
    omega

end

/-! ## Totals of rate calls -/

/-- A rate session that was started at the time `c`, by the call `r`. -/
structure Rating (r : Rate) (c : Clock) (s : State) : Prop where
  running : s.info.running = mode r
  events : ∃ es, s.info.eventSet = mainEvent r :: es
  length : s.info.eventSet.length ≤ rateLength r
  total : readTotal s = s.now.count (mainEvent r) - c.count (mainEvent r)
  real : s.info.initialRealTime = c.real
  virt : s.info.initialProcTime = c.virt

section
variable {H : Hw} {r : Rate} {c₀ : Clock} {s : State}

theorem readTotal_eq (h : Rating r c₀ s) :
    readTotal s = s.info.totalIns + pending s (mainEvent r) := by
  obtain ⟨es, heq⟩ := h.events
  rw [readTotal, counters, heq]
  rfl

theorem hlRateCalls_read (r' : Rate) (out : RateOut) (hrun : s.info.running = mode r') :
    hlRateCalls H r' out s = rateRead r' out s := by
  rw [hlRateCalls, if_neg (by simp [hrun]), if_neg (by simp [hrun])]

theorem hlRateCalls_refused (r' : Rate) (out : RateOut) (hstop : s.info.running ≠ .stop)
    (hmode : s.info.running ≠ mode r') :
    hlRateCalls H r' out s = ((papiEinval, out), s) := by
  rw [hlRateCalls, if_pos ⟨hstop, hmode⟩]

theorem Rating.read (h : Rating r c₀ s) (r' : Rate) (out : RateOut) :
    Rating r c₀ (rateRead r' out s).2 := by
  obtain ⟨es, heq⟩ := h.events
  refine ⟨h.running, h.events, h.length, ?_, h.real, h.virt⟩
  have hzero : (counters (rateRead r' out s).2).getD 0 0 = 0 := by
    have hset : (rateRead r' out s).2.info.eventSet = mainEvent r :: es := heq
    rw [counters, hset]
    exact Int.sub_self _
  rw [readTotal, hzero, Int.add_zero]
  exact h.total

/-- A call that is no stop leaves a rate session, and its total goes on. -/
theorem Rating.step (h : Rating r c₀ s) {c : Action} (hc : c.retval = papiOK)
    (hstop : ∀ values, c ≠ .stop values) :
    ∃ s', c.step H s = some s' ∧ Rating r c₀ s' ∧ s'.now = s.now.add c.worked := by
  have hnow : s.now = s.now.add ⟨fun _ => 0, 0, 0⟩ := rfl
  have hne : s.info.running ≠ .stop := by rw [h.running]; exact mode_ne_stop r
  have hne' : s.info.running ≠ .start := by rw [h.running]; exact mode_ne_start r
  cases c with
  | work d =>
    refine ⟨_, rfl, ⟨h.running, h.events, h.length, ?_, h.real, h.virt⟩, rfl⟩
    obtain ⟨es, heq⟩ := h.events
    have htotal := h.total
    rw [readTotal_eq h] at htotal
    have hread : readTotal { s with now := s.now.add d } =
        s.info.totalIns + pending { s with now := s.now.add d } (mainEvent r) := by
      rw [readTotal, counters]
      simp only [heq]
      rfl
    rw [hread, pending_work]
    simp only [Clock.add, Int.natCast_add]
    omega
  | start events retval =>
    refine ⟨s, ?_, h, hnow⟩
    rw [Action.step, startWith, if_pos hne]
    split <;> rfl
  | read values =>
    refine ⟨s, ?_, h, hnow⟩
    rw [Action.step, readCounters, hlReadCnts_refused (.inl hne')]
    rfl
  | accum values =>
    refine ⟨s, ?_, h, hnow⟩
    rw [Action.step, accumCounters, hlReadCnts_refused (.inl hne')]
    split <;> rfl
  | stop values => exact absurd rfl (hstop values)
  | rate r' out retval =>
    obtain rfl : retval = papiOK := hc
    have hlen : s.info.running = mode r' → s.info.eventSet.length ≤ rateLength r' := fun hr => by
      rw [← rateLength_mode (h.running.symm.trans hr)]
      exact h.length
    rw [Action.step, rateCallsWith_ok H r' out hlen]
    by_cases hmode : s.info.running = mode r'
    · rw [hlRateCalls_read r' out hmode]
      exact ⟨_, rfl, h.read r' out, hnow⟩
    · rw [hlRateCalls_refused r' out hne hmode]
      exact ⟨s, rfl, h, hnow⟩

theorem add_assoc (a b c : Clock) : (a.add b).add c = a.add (b.add c) := by
  simp only [Clock.add, Nat.add_assoc]

theorem Rating.run (h : Rating r c₀ s) {cs : List Action} (hcs : ∀ c ∈ cs, c.retval = papiOK)
    (hstop : ∀ values, .stop values ∉ cs) :
    ∃ s', runActions H cs s = some s' ∧ Rating r c₀ s' ∧ s'.now = s.now.add (worked cs) := by
  induction cs generalizing s with
  | nil => exact ⟨s, rfl, h, rfl⟩
  | cons c cs ih =>
    obtain ⟨hc, hcs⟩ := List.forall_mem_cons.1 hcs
    obtain ⟨s₁, hstep, h₁, hnow₁⟩ := h.step (H := H) hc fun values heq =>
      hstop values (heq ▸ List.mem_cons_self)
    obtain ⟨s', hrun, h', hnow'⟩ := ih h₁ hcs fun values hmem =>
      hstop values (List.mem_cons_of_mem _ hmem)
    refine ⟨s', by rw [runActions, List.foldlM_cons, hstep]; exact hrun, h', ?_⟩
    rw [hnow', hnow₁, add_assoc]
    rfl

/-- After a `PAPI_start` that failed its events stay in the `EventSet`: the calls of the next
session accept an array for its own events, and write beyond it. -/
theorem failed_start_overflows (H : Hw) {retval : Int} (hfail : retval ≠ papiOK)
    {events events' : List Int} {s : State} (h : Tidy s) (hidle : s.info.running = .stop)
    (hadd : addEvents H [] events = .ok events) (hne : events ≠ [])
    (hadd' : addEvents H events events' = .ok (events ++ events')) (hne' : events' ≠ []) :
    ∃ s₁ s₂, startWith H retval events s = (retval, s₁) ∧
      startWith H papiOK events' s₁ = (papiOK, s₂) ∧
      ∀ values : List Int, events'.length ≤ values.length →
        values.length < events.length + events'.length →
          readCounters values s₂ = none ∧ accumCounters values s₂ = none ∧
            stopInto values s₂ = none := by
  have hstart : startWith H retval events s =
      (retval, { s with info := { s.info with eventSet := events } }) := by
    rw [startWith, if_neg (by simpa using hne), if_neg (by simp [hidle]), h.stopped hidle, hadd]
    simp only [if_neg hfail]
  have hstart' : startWith H papiOK events' { s with info := { s.info with eventSet := events } } =
      (papiOK, { s with
        info := { s.info with
          eventSet := events ++ events'
          running := .start
          numEvts := events'.length }
        base := s.now }) := by
    rw [startWith, if_neg (by simpa using hne'), if_neg (by simp [hidle])]
    simp only [hadd', if_true]
  refine ⟨_, _, hstart, hstart', fun values hle hlt => ?_⟩
  have hlong : ¬(events ++ events').length ≤ values.length := by
    rw [List.length_append]
    omega
  have hvalues : values.length ≠ 0 := by
    have := List.length_pos_iff.2 hne'
    omega
  refine ⟨?_, ?_, ?_⟩
  · rw [readCounters]
    unfold hlReadCnts
    rw [if_neg (by simp [hle])]
    simp only [readSet, length_counters, if_neg hlong, Option.map_none]
  · rw [accumCounters, if_neg hvalues]
    unfold hlReadCnts
    rw [if_neg (by simp [hle])]
    simp only [accumSet, length_counters, if_neg hlong, Option.map_none]
  · unfold stopInto
    simp only [readSet, length_counters, if_neg hlong, Option.map_none, if_neg (Nat.not_lt.2 hle)]

end

theorem failed_start_overflows_small :
    ∃ s₁ s₂, startWith smallHw papiEcnflct [papiFpOps] smallWorld.lib = (papiEcnflct, s₁) ∧
      startWith smallHw papiOK [papiTotCyc] s₁ = (papiOK, s₂) ∧ readCounters [0] s₂ = none := by
  have hadd : addEvents smallHw [] [papiFpOps] = .ok [papiFpOps] := rfl
  have hadd' : addEvents smallHw [papiFpOps] [papiTotCyc] = .ok ([papiFpOps] ++ [papiTotCyc]) := rfl
  obtain ⟨s₁, s₂, h₁, h₂, hwrite⟩ := failed_start_overflows smallHw
    (by decide : papiEcnflct ≠ papiOK) smallWorld_tidy rfl hadd (by decide) hadd' (by decide)
  exact ⟨s₁, s₂, h₁, h₂, (hwrite [0] (by decide) (by decide)).1⟩

end PbdPapi.Hl
