import PbdPapi.Proof.Programs
import Mathlib.Tactic.Linarith

/-!
# The burn-in correction

`burnLoop_ok`: what the burn-in loops compute from a list of readings and a baseline.
`measured`: the shape of a measurement with a burn-in run, which `system.event` and the rate
functions share. `measure_burnin`: for which calls of the measuring functions the counts are those
of the reading less the baseline (`burnin=TRUE`) or those of the reading (`burnin=FALSE`).
-/

set_option autoImplicit false

namespace PbdPapi.Proof

open Exec C Api

/-! ## The loop -/

/-- Positions counted from 0 as R's indices. -/
def pos (is : List Nat) : List Int := is.map fun i : Nat => (i : Int) + 1

/-- `ret` with the elements at `is` corrected by `b`. -/
def subtractAt (is : List Nat) (b ret : Measurement) : Measurement :=
  ret.mapIdx fun i p =>
    if i ∈ is then (p.1, max (p.2 - (b[i]?.map (·.2)).getD 0) 0) else p

theorem burnStep_eq (b ret : Measurement) (i : Nat) (v : Measurement) :
    burnStep b ret ((i : Int) + 1) = .ok v ↔
      ∃ x y, ret[i]? = some x ∧ b[i]? = some y ∧ v = ret.set i (x.1, max (x.2 - y.2) 0) := by
  have hset (a : String × Rat) : setElt ret ((i : Int) + 1) a = ret.set i a := by
    rw [setElt, add_sub_cancel_right, Int.toNat_natCast]
  unfold burnStep
  simp only [except_bind_ok, elt_ok, hset]
  constructor
  · rintro ⟨x, hx, y, hy, h⟩
    cases h
    exact ⟨x, y, hx, hy, rfl⟩
  · rintro ⟨x, y, hx, hy, rfl⟩
    exact ⟨x, hx, y, hy, rfl⟩

theorem subtractAt_cons {i : Nat} {is : List Nat} (hi : i ∉ is) {b ret : Measurement}
    {x y : String × Rat} (hx : ret[i]? = some x) (hy : b[i]? = some y) :
    subtractAt is b (ret.set i (x.1, max (x.2 - y.2) 0)) = subtractAt (i :: is) b ret := by
  obtain ⟨hlt, rfl⟩ := List.getElem?_eq_some_iff.1 hx
  refine List.ext_getElem (by simp [subtractAt]) ?_
  intro j h₁ h₂
  simp only [subtractAt, List.getElem_mapIdx, List.getElem_set, List.mem_cons]
  by_cases hj : i = j
  · subst hj
    simp [hi, hy]
  · simp [hj, Ne.symm hj]

/-- The loop over distinct positions succeeds exactly if both lists have them, and corrects them. -/
theorem burnLoop_ok {is : List Nat} (hn : is.Nodup) {b ret v : Measurement} :
    burnLoop (pos is) b ret = .ok v ↔
      (∀ i ∈ is, i < ret.length ∧ i < b.length) ∧ v = subtractAt is b ret := by
  induction is generalizing ret with
  | nil =>
    have : subtractAt [] b ret = ret := by
      refine List.ext_getElem (by simp [subtractAt]) fun j h₁ h₂ => by simp [subtractAt]
    simp [burnLoop, pos, pure, Except.pure, this, eq_comm]
  | cons i is ih =>
    obtain ⟨hi, hn⟩ := List.nodup_cons.1 hn
    have hloop : burnLoop (pos (i :: is)) b ret = .ok v ↔
        ∃ ret₁, burnStep b ret ((i : Int) + 1) = .ok ret₁ ∧ burnLoop (pos is) b ret₁ = .ok v := by
      unfold burnLoop pos
      rw [List.map_cons, List.foldlM_cons, except_bind_ok]
    rw [hloop]
    constructor
    · rintro ⟨ret₁, hs, hl⟩
      obtain ⟨x, y, hx, hy, rfl⟩ := (burnStep_eq b ret i ret₁).1 hs
      obtain ⟨hb, rfl⟩ := (ih hn).1 hl
      refine ⟨fun j hj => ?_, subtractAt_cons hi hx hy⟩
      rcases List.mem_cons.1 hj with rfl | hj
      · exact ⟨(List.getElem?_eq_some_iff.1 hx).1, (List.getElem?_eq_some_iff.1 hy).1⟩
      · simpa using hb j hj
    · rintro ⟨hb, rfl⟩
      obtain ⟨h₁, h₂⟩ := hb i List.mem_cons_self
      have hx := List.getElem?_eq_getElem h₁
      have hy := List.getElem?_eq_getElem h₂
      refine ⟨_, (burnStep_eq b ret i _).2 ⟨_, _, hx, hy, rfl⟩, (ih hn).2 ⟨fun j hj => ?_, ?_⟩⟩
      · simpa using hb j (List.mem_cons_of_mem i hj)
      · exact (subtractAt_cons hi hx hy).symm

theorem colon_one {n : Nat} (h : 1 ≤ n) : colon 1 n = pos (List.range n) := by
  have hn : ((n : Int) - 1 + 1).toNat = n := by omega
  rw [colon, if_pos (by omega), hn]
  exact List.map_congr_left fun i _ => Int.add_comm 1 i

/-- The values of a list. -/
def vals (v : Measurement) : List Rat := v.map (·.2)

/-- What a correction by the baseline `b` makes of the value `x` at position `i`. -/
def less (b : Option Measurement) (i : Nat) (x : Rat) : Rat :=
  match b with
  | some b => max (x - (vals b).getD i 0) 0
  | none => x

theorem vals_getD (b : Measurement) (i : Nat) :
    (vals b).getD i 0 = (b[i]?.map (·.2)).getD 0 := by
  simp [vals, List.getD_eq_getElem?_getD]

theorem vals_subtractAt (is : List Nat) (b ret : Measurement) (i : Nat) :
    (vals (subtractAt is b ret))[i]? =
      (vals ret)[i]?.map fun x => if i ∈ is then less (some b) i x else x := by
  simp only [vals, List.getElem?_map, subtractAt, List.getElem?_mapIdx, Option.map_map]
  refine congrArg (Option.map · ret[i]?) (funext fun p => ?_)
  simp only [Function.comp_apply, less, vals_getD]
  split <;> rfl

theorem names_subtractAt (is : List Nat) (b ret : Measurement) :
    (subtractAt is b ret).map (·.1) = ret.map (·.1) := by
  refine List.ext_getElem (by simp [subtractAt]) ?_
  intro i h₁ h₂
  simp only [subtractAt, List.getElem_map, List.getElem_mapIdx]
  split <;> rfl

/-! ## A measurement with a burn-in run -/

section
variable {σ : Type}

variable (warm : RM σ Unit) (read : Prom σ → RM σ Measurement)

/-- The burn-in run: a warm-up and a reading of the empty expression. -/
def baseline (burnin : Bool) : RM σ (Option Measurement) :=
  if burnin then some <$> (do warm; read nullProm) else pure none

/-- A warm-up, the burn-in run if there is one, a reading of the expression, its correction. -/
def measured (correct : Option Measurement → Measurement → Except RError Measurement)
    (expr : Prom σ) (burnin : Bool) : RM σ Measurement := do
  warm
  let b ← baseline warm read burnin
  let r ← read expr
  liftR (correct b r)

/-- A measurement from `w` to `w'` took the baseline `b` and then the reading `r`. -/
def Steps (expr : Prom σ) (burnin : Bool) (w w' : World σ) (b : Option Measurement)
    (r : Measurement) : Prop :=
  ∃ w₁ w₂, warm.run w = .ok () w₁ ∧ (baseline warm read burnin).run w₁ = .ok b w₂ ∧
    (read expr).run w₂ = .ok r w'

variable {warm read}

theorem baseline_false (w : World σ) : (baseline warm read false).run w = .ok none w := rfl

theorem baseline_ok {burnin : Bool} {w w' : World σ} {b : Option Measurement}
    (h : (baseline warm read burnin).run w = .ok b w') :
    b.isSome = burnin ∧ ∀ b₀ ∈ b, ∃ w₁, (read nullProm).run w₁ = .ok b₀ w' := by
  cases burnin with
  | false =>
    cases h
    exact ⟨rfl, fun b₀ hb => by cases hb⟩
  | true =>
    obtain ⟨b₀, hb, rfl⟩ := map_ok.1 h
    obtain ⟨_, w₁, -, hr⟩ := bind_ok.1 hb
    refine ⟨rfl, fun b₁ hb₁ => ?_⟩
    cases hb₁
    exact ⟨w₁, hr⟩

/-- A measurement determines its readings. -/
theorem Steps.unique {expr : Prom σ} {burnin : Bool} {w w' : World σ}
    {b b' : Option Measurement} {r r' : Measurement} (h : Steps warm read expr burnin w w' b r)
    (h' : Steps warm read expr burnin w w' b' r') : b' = b ∧ r' = r := by
  obtain ⟨w₁, w₂, hw, hb, hr⟩ := h
  obtain ⟨w₁', w₂', hw', hb', hr'⟩ := h'
  rw [hw] at hw'
  cases hw'
  rw [hb] at hb'
  cases hb'
  rw [hr] at hr'
  cases hr'
  exact ⟨rfl, rfl⟩

theorem measured_ok {correct : Option Measurement → Measurement → Except RError Measurement}
    {expr : Prom σ} {burnin : Bool} {w w' : World σ} {v : Measurement} :
    (measured warm read correct expr burnin).run w = .ok v w' ↔
      ∃ b r, Steps warm read expr burnin w w' b r ∧ correct b r = .ok v := by
  unfold measured
  simp only [bind_ok]
  constructor
  · rintro ⟨⟨⟩, w₁, hw, b, w₂, hb, r, w₃, hr, hc⟩
    rw [liftR_run] at hc
    cases hv : correct b r with
    | error c =>
      rw [hv] at hc
      cases hc
    | ok v₁ =>
      rw [hv] at hc
      cases hc
      exact ⟨b, r, ⟨w₁, w₂, hw, hb, hr⟩, hv⟩
  · rintro ⟨b, r, ⟨w₁, w₂, hw, hb, hr⟩, hc⟩
    exact ⟨(), w₁, hw, b, w₂, hb, r, w', hr, by rw [hc]; rfl⟩

variable (P : Papi σ)

/-- The warm-up of `system.event`. -/
def warmUp (events : List String) : RM σ Unit := do
  let _ ← papiStart P events
  let _ ← papiStop P events

theorem systemEvent_measured (expr : Option (Prom σ)) (events : List String)
    (gcFirst burnin : Bool) :
    systemEvent P expr events gcFirst burnin =
      measured (warmUp P events) (fun e => eventReading P e events) corrected
        (expr.getD nullProm) burnin := by
  have hnone : systemEventFrom P (pure none) none events gcFirst =
      (do warmUp P events; eventReading P nullProm events) := by
    have hret (x : RM σ Measurement) : (x >>= fun r => liftR (corrected none r)) = x := bind_pure x
    simp only [systemEventFrom_eq, warmUp, bind_assoc, pure_bind, hret, Option.getD_none]
  unfold systemEvent measured baseline
  rw [hnone, systemEventFrom_eq]
  simp only [warmUp, bind_assoc, pure_bind]

/-- The correction of a rate function. -/
def rateCorrected (k : RateKind) (b : Option Measurement) (r : Measurement) :
    Except RError Measurement :=
  match b with
  | some b => burnLoop (k.idx r.length) b r
  | none => .ok r

theorem systemRate_measured (k : RateKind) (event : List String) (expr : Option (Prom σ))
    (gcFirst burnin : Bool) :
    systemRate P k event expr gcFirst burnin =
      measured (pure ()) (rateReading P k event) (rateCorrected k) (expr.getD nullProm) burnin := by
  unfold systemRate measured baseline
  rw [rateRun_eq, rateRun_eq]
  cases burnin with
  | false => exact (bind_pure _).symm
  | true =>
    simp only [if_true, pure_bind, bind_map_left, Option.getD_none]
    rfl

/-! ## The law -/

/-- The events that a measuring function asks `system.event` for. -/
def eventsOf : Wrapper → List String
  | .event events => events
  | .cache type events =>
    match matchArg type.toLower cacheTypes, matchArg events.toLower cacheEvents with
    | .ok type, .ok events =>
      cacheOpts type events
        (if isMatch events ".ratio" || isMatch events ".all" then cacheLevel events else "")
    | _, _ => []
  | .idle events =>
    match matchArg events.toLower idleEvents with
    | .ok events => idleOpts events
    | .error _ => []
  | .cpuormem => ["PAPI_FP_INS", "PAPI_L2_TCA"]
  | .ipcmCache type level => ipcmCacheOpts type level
  | _ => []

/-- The warm-up of a measuring function. -/
def warmOf (f : Wrapper) : RM σ Unit :=
  match rateOf f with
  | some _ => pure ()
  | none => warmUp P (eventsOf f)

/-- A reading of `expr` in a measuring function: what it has before any correction. -/
def readingOf (f : Wrapper) (expr : Prom σ) : RM σ Measurement :=
  match rateOf f with
  | some (k, event) => rateReading P k event expr
  | none => eventReading P expr (eventsOf f)

/-- The position `i` of the result is an event count: every one of an events vector, and in the
lists of the rate functions those that are neither a time nor a rate. In the list of `epc` the
names and the values do not belong together, and each but the times is one or the other. -/
def IsCount (f : Wrapper) (i : Nat) : Prop :=
  match rateOf f with
  | some (.epc, _) => 2 ≤ i
  | some _ => i = 2
  | none => True

/-- The position `i` of the result is the real or the process time. -/
def IsTime (f : Wrapper) (i : Nat) : Prop := (rateOf f).isSome ∧ i < 2

/-- The result `v` of a measurement with the baseline `b` and the reading `r`. -/
structure Law (f : Wrapper) (b : Option Measurement) (r v : Measurement) : Prop where
  /-- The baseline is one of the same events in the same order. -/
  same : ∀ b₀ ∈ b, b₀.map (·.1) = r.map (·.1)
  length : v.length = r.length
  count : ∀ i x, IsCount f i → (vals r)[i]? = some x → (vals v)[i]? = some (less b i x)
  time : ∀ i, IsTime f i → (vals v)[i]? = (vals r)[i]?

/-- The law for the `burnin` of the call. -/
def BurninLaw (f : Wrapper) (burnin : Bool) (b : Option Measurement) (r v : Measurement) : Prop :=
  Law f (if burnin then b else none) r v

/-- Subtracting the baseline changes no count: of the two readings one is zero. -/
def Untouched (b : Option Measurement) (r : Measurement) : Prop :=
  ∀ b₀ ∈ b, ∀ (i : Nat) (x y : Rat), (vals r)[i]? = some x → (vals b₀)[i]? = some y →
    (x = 0 ∧ 0 ≤ y) ∨ (y = 0 ∧ 0 ≤ x)

/-- A cache call for counts, not for the ratio of two. -/
def NotRatio : Wrapper → Prop
  | .cache _ events => ∀ c, matchArg events.toLower cacheEvents = .ok c → isMatch c ".ratio" = false
  | _ => True

/-! ## Readings -/

variable {P} (T : Tables P)

include T in
/-- A reading of a rate function is the list of its off call. -/
theorem rateReading_ok {k : RateKind} {event : List String} {expr : Prom σ} {w w' : World σ}
    {r : Measurement} (h : (rateReading P k event expr).run w = .ok r w') :
    ∃ out s, r = rateValues k out (P.getOpt .clockrate s).1
      (P.getOpt .maxCpus (P.getOpt .clockrate s).2).1 := by
  obtain ⟨ev, w₁, hg, h₁⟩ := bind_ok.1 h
  obtain ⟨w₂, o, w₃, w₄, hs, -, hf, -⟩ := papiRate_ok P |>.1 h₁
  obtain ⟨hr, -⟩ := papiRateStart_ok P (T.gate_ok hg).2 hs
  obtain ⟨w₅, hrun, -⟩ := papiRateFinish_run P hr w₃
  rw [hrun] at hf
  split at hf
  · cases hf
    exact ⟨_, _, rfl⟩
  · cases hf

/-- A reading of events has one element for each distinct event, named with its description. -/
theorem eventReading_ok {events : List String} {expr : Prom σ} {w w' : World σ} {r : Measurement}
    (h : (eventReading P expr events).run w = .ok r w') :
    ∃ codes w₁, T.codes events = some codes ∧ T.stopList codes.eraseDups w₁ = some r := by
  unfold eventReading at h
  obtain ⟨_, w₁, -, h⟩ := bind_ok.1 h
  obtain ⟨_, w₂, -, h⟩ := bind_ok.1 h
  obtain ⟨err, w₃, -, h⟩ := bind_ok.1 h
  obtain ⟨ret, w₄, hs, h⟩ := bind_ok.1 h
  obtain ⟨codes, l, hc, hl, rfl⟩ := T.papiStop_ok hs
  split at h
  · cases h
  · cases h
    exact ⟨codes, w₃, hc, hl⟩

theorem rateValues_names (k : RateKind) (out out' : RateOut) (c c' n n' : Int) :
    (rateValues k out c n).map (·.1) = (rateValues k out' c' n').map (·.1) := by
  cases k <;> rfl

include T in
/-- Two readings of one measuring function have the same names in the same order. -/
theorem readingOf_same {f : Wrapper} {expr expr' : Prom σ} {w₁ w₁' w₂ w₂' : World σ}
    {b r : Measurement} (hb : (readingOf P f expr).run w₁ = .ok b w₁')
    (hr : (readingOf P f expr').run w₂ = .ok r w₂') : b.map (·.1) = r.map (·.1) := by
  unfold readingOf at hb hr
  cases hf : rateOf f with
  | some p =>
    rw [hf] at hb hr
    obtain ⟨out, s, rfl⟩ := rateReading_ok T hb
    obtain ⟨out', s', rfl⟩ := rateReading_ok T hr
    exact rateValues_names p.1 out out' _ _ _ _
  | none =>
    rw [hf] at hb hr
    obtain ⟨codes, w, hc, hl⟩ := eventReading_ok T hb
    obtain ⟨codes', w', hc', hl'⟩ := eventReading_ok T hr
    rw [T.stopList_names hl, T.stopList_names hl']
    rw [hc] at hc'
    cases hc'
    rfl

/-! ## The corrections obey the law -/

/-- `system.event` corrects every position. -/
theorem corrected_vals {b : Option Measurement} {r v : Measurement} (h : corrected b r = .ok v) :
    v.length = r.length ∧ ∀ i x, (vals r)[i]? = some x → (vals v)[i]? = some (less b i x) := by
  cases b with
  | none =>
    cases h
    exact ⟨rfl, fun i x hx => hx⟩
  | some b =>
    cases r with
    | nil =>
      have hc : corrected (some b) [] = .error (simpleError "subscript out of bounds") := rfl
      rw [hc] at h
      cases h
    | cons p r =>
      change burnLoop (colon 1 (p :: r).length) b (p :: r) = .ok v at h
      rw [colon_one (by simp), burnLoop_ok List.nodup_range] at h
      obtain ⟨-, rfl⟩ := h
      refine ⟨by simp [subtractAt], fun i x hx => ?_⟩
      have hi : i < (p :: r).length := by simpa [vals] using (List.getElem?_eq_some_iff.1 hx).1
      rw [vals_subtractAt, hx, Option.map_some, if_pos (List.mem_range.2 hi)]

/-- The correction of one list of events by another. -/
theorem corrected_map {α : Type} {l : List α} (hl : l ≠ []) (name : α → String) (x y : α → Rat) :
    corrected (some (l.map fun a => (name a, y a))) (l.map fun a => (name a, x a)) =
      .ok (l.map fun a => (name a, max (x a - y a) 0)) := by
  have hpos : 1 ≤ (l.map fun a => (name a, x a)).length := by
    rw [List.length_map]
    exact List.length_pos_iff.2 hl
  show burnLoop (colon 1 _) _ _ = _
  rw [colon_one hpos, burnLoop_ok List.nodup_range]
  refine ⟨fun i hi => by simpa using hi, ?_⟩
  refine List.ext_getElem (by simp [subtractAt]) ?_
  intro i h₁ h₂
  have hi : i < l.length := by simpa using h₁
  simp [subtractAt, hi]

theorem law_event {f : Wrapper} (hf : rateOf f = none) {b : Option Measurement}
    {r v : Measurement} (hs : ∀ b₀ ∈ b, b₀.map (·.1) = r.map (·.1))
    (h : corrected b r = .ok v) : Law f b r v where
  same := hs
  length := (corrected_vals h).1
  count i x _ hx := (corrected_vals h).2 i x hx
  time i hi := by simp [IsTime, hf] at hi

/-- The positions that the loop of a rate function corrects. -/
def burnPos : RateKind → List Nat
  | .epc => [2, 3, 4, 5]
  | _ => [2, 3]

theorem idx_rateValues (k : RateKind) (out : RateOut) (c n : Int) :
    k.idx (rateValues k out c n).length = pos (burnPos k) := by
  cases k <;> rfl

theorem nodup_burnPos (k : RateKind) : (burnPos k).Nodup := by cases k <;> decide

/-- A rate function corrects the positions of its loop and leaves the others alone. -/
theorem rateCorrected_ok {k : RateKind} {out : RateOut} {c n : Int} {b : Option Measurement}
    {v : Measurement} (h : rateCorrected k b (rateValues k out c n) = .ok v) :
    v.length = (rateValues k out c n).length ∧
      ∀ i, (vals v)[i]? = (vals (rateValues k out c n))[i]?.map fun x =>
        if i ∈ burnPos k then less b i x else x := by
  cases b with
  | none =>
    cases h
    exact ⟨rfl, fun i => by simp [less]⟩
  | some b =>
    change burnLoop (k.idx _) b _ = .ok v at h
    rw [idx_rateValues, burnLoop_ok (nodup_burnPos k)] at h
    obtain ⟨-, rfl⟩ := h
    exact ⟨by simp [subtractAt], vals_subtractAt _ _ _⟩

theorem isCount_mem {f : Wrapper} {k : RateKind} {event : List String}
    (hf : rateOf f = some (k, event)) {out : RateOut} {c n : Int} {i : Nat} (hi : IsCount f i)
    (hlt : i < (rateValues k out c n).length) : i ∈ burnPos k := by
  cases k with
  | epc =>
    simp only [IsCount, hf, rateValues, List.length_cons, List.length_nil] at hi hlt
    simp only [burnPos, List.mem_cons, List.not_mem_nil, or_false]
    omega
  | _ =>
    simp only [IsCount, hf] at hi
    simp [burnPos, hi]

theorem isTime_not_mem {k : RateKind} {i : Nat} (hi : i < 2) : i ∉ burnPos k := by
  cases k <;> simp only [burnPos, List.mem_cons, List.not_mem_nil, or_false] <;> omega

theorem law_rate {f : Wrapper} {k : RateKind} {event : List String}
    (hf : rateOf f = some (k, event)) {out : RateOut} {c n : Int} {b : Option Measurement}
    {v : Measurement} (hs : ∀ b₀ ∈ b, b₀.map (·.1) = (rateValues k out c n).map (·.1))
    (h : rateCorrected k b (rateValues k out c n) = .ok v) :
    Law f b (rateValues k out c n) v where
  same := hs
  length := (rateCorrected_ok h).1
  count i x hi hx := by
    have hlt : i < (rateValues k out c n).length := by
      simpa [vals] using (List.getElem?_eq_some_iff.1 hx).1
    rw [(rateCorrected_ok h).2, hx, Option.map_some, if_pos (isCount_mem hf hi hlt)]
  time i hi := by
    rw [(rateCorrected_ok h).2]
    simp [isTime_not_mem hi.2]

/-- The law is about the values of the result. -/
theorem Law.of_vals {f : Wrapper} {b : Option Measurement} {r v v' : Measurement}
    (h : Law f b r v) (hv : vals v' = vals v) : Law f b r v' where
  same := h.same
  length := by
    have := congrArg List.length hv
    simp only [vals, List.length_map] at this
    rw [this, h.length]
  count := by
    rw [hv]
    exact h.count
  time := by
    rw [hv]
    exact h.time

/-! ## The measuring functions -/

variable (P)

/-- The `burnin` that reaches `system.event`: that of the call, but for `system.cpuormem`, which
leaves it to the default. -/
def forwarded : Wrapper → Bool → Bool
  | .cpuormem, _ => true
  | _, burnin => burnin

theorem availLookup_bind_ok {α : Type} {events : List String} {shorthand : Option String}
    {x : RM σ α} {w w' : World σ} {a : α}
    (h : (availLookup events shorthand >>= fun _ => x).run w = .ok a w') : x.run w = .ok a w' := by
  obtain ⟨⟨⟩, w₁, hl, hx⟩ := bind_ok.1 h
  obtain ⟨rfl, -⟩ := Tables.availLookup_ok hl
  exact hx

theorem liftR_bind_ok {α β : Type} {x : Except RError α} {k : α → RM σ β} {w w' : World σ} {b : β}
    (h : (liftR x >>= k).run w = .ok b w') : ∃ a, x = .ok a ∧ (k a).run w = .ok b w' := by
  obtain ⟨a, w₁, hx, h⟩ := bind_ok.1 h
  rw [liftR_run] at hx
  cases x with
  | error c => cases hx
  | ok a' =>
    cases hx
    exact ⟨_, rfl, h⟩

/-- A function of events that returns does so with the values of its call of `system.event`. -/
theorem measure_event_ok {f : Wrapper} (hf : rateOf f = none) (hr : NotRatio f)
    {expr : Option (Prom σ)} {gcFirst burnin : Bool} {w w' : World σ} {ret : Ret}
    (h : (measure P f expr gcFirst burnin).run w = .ok ret w') :
    ∃ v, (systemEvent P expr (eventsOf f) gcFirst (forwarded f burnin)).run w = .ok v w' ∧
      vals ret.list = vals v := by
  cases f with
  | event events =>
    obtain ⟨v, hv, rfl⟩ := map_ok.1 h
    exact ⟨v, hv, rfl⟩
  | cache type events =>
    obtain ⟨ty, hty, h⟩ := liftR_bind_ok h
    obtain ⟨ev, hev, h⟩ := liftR_bind_ok h
    have hm : isMatch ev ".ratio" = false := hr ev hev
    simp only [hm, Bool.false_eq_true, and_false, if_false] at h
    have h := availLookup_bind_ok h
    obtain ⟨v, w₁, hv, h⟩ := bind_ok.1 h
    cases h
    refine ⟨v, ?_, by simp [Ret.list, vals]⟩
    simp only [eventsOf, hty, hev, hm, forwarded]
    exact hv
  | idle events =>
    obtain ⟨v, hv, rfl⟩ := map_ok.1 h
    obtain ⟨ev, hev, hv⟩ := liftR_bind_ok hv
    have hv := availLookup_bind_ok hv
    refine ⟨v, ?_, rfl⟩
    simp only [eventsOf, hev, forwarded]
    exact hv
  | cpuormem =>
    have h := availLookup_bind_ok h
    obtain ⟨v, w₁, hv, h⟩ := bind_ok.1 h
    obtain ⟨ins, -, h⟩ := liftR_bind_ok h
    obtain ⟨tca, -, h⟩ := liftR_bind_ok h
    split at h
    · cases h
      exact ⟨v, hv, rfl⟩
    · cases h
      exact ⟨v, hv, rfl⟩
  | ipcmCache type level =>
    obtain ⟨v, hv, rfl⟩ := map_ok.1 h
    exact ⟨v, hv, rfl⟩
  | _ => cases hf

variable {P}

include T in
/-- Every measuring function obeys the law for the `burnin` that it forwards. -/
theorem measure_law {f : Wrapper} (hr : NotRatio f) {expr : Option (Prom σ)}
    {gcFirst burnin : Bool} {w w' : World σ} {ret : Ret}
    (h : (measure P f expr gcFirst burnin).run w = .ok ret w') :
    ∃ b r, Steps (warmOf P f) (readingOf P f) (expr.getD nullProm) (forwarded f burnin) w w' b r ∧
      Law f b r ret.list := by
  cases hf : rateOf f with
  | none =>
    obtain ⟨v, hv, hvals⟩ := measure_event_ok P hf hr h
    rw [systemEvent_measured] at hv
    obtain ⟨b, r, hsteps, hc⟩ := measured_ok.1 hv
    have hread (e : Prom σ) : readingOf P f e = eventReading P e (eventsOf f) := by
      simp only [readingOf, hf]
    have hsteps : Steps (warmOf P f) (readingOf P f) (expr.getD nullProm) (forwarded f burnin)
        w w' b r := by
      simpa only [warmOf, hf, funext hread] using hsteps
    obtain ⟨w₁, w₂, -, hb, hrun⟩ := id hsteps
    refine ⟨b, r, hsteps, (law_event hf (fun b₀ hb₀ => ?_) hc).of_vals hvals⟩
    obtain ⟨w₃, hb₃⟩ := (baseline_ok hb).2 b₀ hb₀
    exact readingOf_same T hb₃ hrun
  | some p =>
    obtain ⟨k, event⟩ := p
    have hfw : forwarded f burnin = burnin := by cases f <;> first | rfl | cases hf
    rw [measure_rate P hf] at h
    obtain ⟨v, hv, rfl⟩ := map_ok.1 h
    rw [systemRate_measured] at hv
    obtain ⟨b, r, hsteps, hc⟩ := measured_ok.1 hv
    have hread (e : Prom σ) : readingOf P f e = rateReading P k event e := by
      simp only [readingOf, hf]
    have hsteps : Steps (warmOf P f) (readingOf P f) (expr.getD nullProm) (forwarded f burnin)
        w w' b r := by
      simpa only [warmOf, hf, funext hread, hfw] using hsteps
    obtain ⟨w₁, w₂, -, hb, hrun⟩ := id hsteps
    have hrun' := hrun
    rw [hread] at hrun'
    obtain ⟨out, s, rfl⟩ := rateReading_ok T hrun'
    refine ⟨b, _, hsteps, law_rate hf (fun b₀ hb₀ => ?_) hc⟩
    obtain ⟨w₃, hb₃⟩ := (baseline_ok hb).2 b₀ hb₀
    exact readingOf_same T hb₃ hrun

end

/-! ## A library with an overhead -/

/-- The events of the rate functions and of `system.cpuormem`. -/
def steadyEvents : List (String × Int) := smallEvents ++ [("PAPI_L2_TCA", papiPresetMask + 89)]

/-- What the rate calls of `steady` write: the second call, the off call of a burn-in run, writes
other values than the rest. -/
def steadyOut (n : Nat) : RateOut :=
  if n = 1 then ⟨1, 1, 0, 0, 1000000, 1⟩ else ⟨2, 2, 0, 0, 4000000, 2⟩

/-- A library whose sessions count five of every event, whatever runs in them. Its state is the
number of rate calls so far. -/
def steady : Papi Nat where
  isInitialized s := (1, s)
  libraryInit version s := (version, s)
  numCounters s := (4, s)
  eventNameToCode name code s :=
    ((match (steadyEvents.find? (·.1 == name)).map (·.2) with
      | some c => (papiOK, c)
      | none => (papiEnoevnt, code)), s)
  getEventInfo _ _ s := ((papiOK, ⟨1, "", ""⟩), s)
  enumEvent id _ s := ((papiEnoevnt, id), s)
  startCounters _ s := (papiOK, s)
  stopCounters n s := ((papiOK, List.replicate n 5), s)
  rate _ _ s := ((papiOK, steadyOut s), s + 1)
  getHardwareInfo s := (none, s)
  getOpt _ s := (1, s)

def steadyTables : Tables steady where
  ncounters := 4
  codeOf name := (steadyEvents.find? (·.1 == name)).map (·.2)
  infoOf _ := some ⟨1, "", ""⟩
  num _ := rfl
  name _ _ _ := rfl
  info _ _ _ := rfl

/-- The world of `steady` with all its events available. -/
def steadyWorld : World Nat where
  lib := 0
  prot := []
  fresh _ := 0
  heap _ := 0
  locals := ⟨0, ⟨0, "", ""⟩, ⟨0, 0, 0, 0, 0, 0⟩⟩
  avail := steadyEvents.map fun e => ⟨e.1, true, e.1⟩
  warnings := []
  trace := []

theorem steady_stop (w : World Nat) :
    ∃ w₁, (papiStop steady (eventsOf .cpuormem)).run w = .ok (.list [("", 5), ("", 5)]) w₁ ∧
      w₁.avail = w.avail := by
  have hc : steadyTables.codes (eventsOf .cpuormem) =
      some [Hl.papiFpIns, papiPresetMask + 89] := rfl
  obtain ⟨w₁, hr, hs, -⟩ := steadyTables.papiStop_run hc w
  exact ⟨w₁, hr, hs.avail⟩

theorem steady_start (w : World Nat) :
    ∃ w₁, (papiStart steady (eventsOf .cpuormem)).run w = .ok (.int [0]) w₁ ∧
      w₁.avail = w.avail := by
  have hc : steadyTables.codes (eventsOf .cpuormem) =
      some [Hl.papiFpIns, papiPresetMask + 89] := rfl
  obtain ⟨w₁, hr, hs, -⟩ := steadyTables.papiStart_run hc ⟨by decide, by decide⟩ w
  exact ⟨w₁, hr, hs.avail⟩

theorem steady_warm (w : World Nat) :
    ∃ w₁, (warmUp steady (eventsOf .cpuormem)).run w = .ok () w₁ ∧ w₁.avail = w.avail := by
  obtain ⟨w₁, h₁, ha₁⟩ := steady_start w
  obtain ⟨w₂, h₂, ha₂⟩ := steady_stop w₁
  refine ⟨w₂, ?_, ha₂.trans ha₁⟩
  unfold warmUp
  rw [bind_of_ok h₁, bind_of_ok h₂]
  rfl

theorem steady_avail {w : World Nat} (h : w.avail = steadyWorld.avail) :
    (availLookup (eventsOf .cpuormem) none).run w = .ok () w := by
  have hl : papiAvailLookup steadyWorld.avail (eventsOf .cpuormem) none = .ok () := rfl
  rw [availLookup_run, h, hl]

theorem steady_reading {w : World Nat} (h : w.avail = steadyWorld.avail) :
    ∃ w₁, (readingOf steady .cpuormem nullProm).run w = .ok [("", 5), ("", 5)] w₁ ∧
      w₁.avail = steadyWorld.avail := by
  obtain ⟨w₁, h₁, ha₁⟩ := steady_start w
  obtain ⟨w₂, h₂, ha₂⟩ := steady_stop w₁
  have hn : (tryIdentity (reval nullProm)).run w₁ = .ok Obj.null w₁ := rfl
  refine ⟨w₂, ?_, ha₂.trans (ha₁.trans h)⟩
  unfold readingOf eventReading
  simp only [rateOf]
  rw [bind_of_ok (steady_avail h), bind_of_ok h₁, bind_of_ok hn, bind_of_ok h₂]
  rfl

/-- Every reading of `steady` is of fives. -/
theorem steady_reading_eq {expr : Prom Nat} {w w' : World Nat} {r : Measurement}
    (h : (readingOf steady .cpuormem expr).run w = .ok r w') : r = [("", 5), ("", 5)] := by
  obtain ⟨codes, w₁, hc, hl⟩ := eventReading_ok steadyTables h
  have hc' : steadyTables.codes (eventsOf .cpuormem) =
      some [Hl.papiFpIns, papiPresetMask + 89] := rfl
  rw [hc'] at hc
  cases hc
  have hl' : steadyTables.stopList [Hl.papiFpIns, papiPresetMask + 89].eraseDups w₁ =
      some [("", 5), ("", 5)] := rfl
  rw [hl'] at hl
  cases hl
  rfl

/-- `system.cpuormem(NULL, burnin=FALSE)` subtracts a baseline. -/
theorem steady_cpuormem : ∃ w',
    (measure steady .cpuormem (some nullProm) true false).run steadyWorld =
      .ok (.program [("", 0), ("", 0)] "compute bound") w' := by
  obtain ⟨w₁, h₁, ha₁⟩ := steady_warm steadyWorld
  obtain ⟨w₂, h₂, ha₂⟩ := steady_warm w₁
  obtain ⟨w₃, h₃, ha₃⟩ := steady_reading (ha₂.trans ha₁)
  obtain ⟨w₄, h₄, -⟩ := steady_reading ha₃
  have hb : (baseline (warmUp steady (eventsOf .cpuormem))
      (fun e => eventReading steady e (eventsOf .cpuormem)) true).run w₁ =
      .ok (some [("", 5), ("", 5)]) w₃ :=
    map_ok.2 ⟨_, bind_ok.2 ⟨(), w₂, h₂, h₃⟩, rfl⟩
  have hcorr : corrected (some [("", 5), ("", 5)]) [("", 5), ("", 5)] =
      .ok [("", 0), ("", 0)] := by decide +kernel
  have hev : (systemEvent steady (some nullProm) (eventsOf .cpuormem) true true).run steadyWorld =
      .ok [("", 0), ("", 0)] w₄ := by
    rw [systemEvent_measured]
    exact measured_ok.2 ⟨_, _, ⟨w₁, w₃, h₁, hb, h₄⟩, hcorr⟩
  exact ⟨w₄, (bind_of_ok (steady_avail rfl)).trans ((bind_of_ok hev).trans rfl)⟩

/-! ## The result -/

theorem max_sub_eq (x y : Rat) :
    max (x - y) 0 = x ↔ (x = 0 ∧ 0 ≤ y) ∨ (y = 0 ∧ 0 ≤ x) := by
  rcases le_total (x - y) 0 with h | h
  · rw [max_eq_right h]
    constructor
    · rintro rfl
      exact .inl ⟨rfl, by linarith⟩
    · rintro (⟨rfl, -⟩ | ⟨rfl, hx⟩)
      · rfl
      · linarith
  · rw [max_eq_left h, sub_eq_self]
    constructor
    · rintro rfl
      exact .inr ⟨rfl, by linarith⟩
    · rintro (⟨rfl, hy⟩ | ⟨rfl, -⟩)
      · linarith
      · rfl

/-- A baseline that was subtracted is one that should not have been, unless it changed nothing. -/
theorem law_none_iff {f : Wrapper} (hf : rateOf f = none) {b r v : Measurement}
    (h : Law f (some b) r v) : Law f none r v ↔ Untouched (some b) r := by
  have hlen : (vals b).length = (vals r).length := by
    simpa [vals] using congrArg List.length (h.same b rfl)
  have hcount (i : Nat) : IsCount f i := by simp [IsCount, hf]
  constructor
  · rintro hn b₀ hb i x y hx hy
    cases hb
    have h₁ := h.count i x (hcount i) hx
    have h₂ := hn.count i x (hcount i) hx
    rw [h₁] at h₂
    simp only [less, List.getD_eq_getElem?_getD, hy, Option.getD_some, Option.some.injEq] at h₂
    exact (max_sub_eq x y).1 h₂
  · intro hu
    refine ⟨fun b₀ hb => (by cases hb), h.length, fun i x hi hx => ?_, h.time⟩
    have hlt : i < (vals b).length := by
      rw [hlen]
      exact (List.getElem?_eq_some_iff.1 hx).1
    have hy := List.getElem?_eq_getElem hlt
    rw [h.count i x hi hx]
    simp only [less, List.getD_eq_getElem?_getD, hy, Option.getD_some, Option.some.injEq]
    exact (max_sub_eq _ _).2 (hu b rfl i x _ hx hy)

/-- A measurement that returns obeys the law for its `burnin` exactly if it is not one of
`system.cpuormem` with `burnin=FALSE`, or if it is one whose baseline does not matter. `Steps`
determines the readings `b` and `r` that it took; for R's doubles their counts are below
`2 ^ 53`. -/
theorem measure_burnin {σ : Type} {P : Papi σ} (T : Tables P) {f : Wrapper} (hr : NotRatio f)
    {expr : Option (Prom σ)} {gcFirst burnin : Bool} {w w' : World σ} {ret : Ret}
    (h : (measure P f expr gcFirst burnin).run w = .ok ret w') :
    ∃ b r, Steps (warmOf P f) (readingOf P f) (expr.getD nullProm) (forwarded f burnin) w w' b r ∧
      (BurninLaw f burnin b r ret.list ↔
        ¬ (f = .cpuormem ∧ burnin = false) ∨ Untouched b r) := by
  obtain ⟨b, r, hsteps, hlaw⟩ := measure_law T hr h
  refine ⟨b, r, hsteps, ?_⟩
  obtain ⟨w₁, w₂, -, hb, -⟩ := hsteps
  have hsome := (baseline_ok hb).1
  by_cases hc : f = .cpuormem ∧ burnin = false
  · obtain ⟨rfl, rfl⟩ := hc
    obtain ⟨b, rfl⟩ := Option.isSome_iff_exists.1 hsome
    have := law_none_iff rfl hlaw
    simpa [BurninLaw] using this
  · refine iff_of_true ?_ (.inl hc)
    cases burnin with
    | true => exact hlaw
    | false =>
      have hfw : forwarded f false = false := by
        cases f with
        | cpuormem => exact absurd ⟨rfl, rfl⟩ hc
        | _ => rfl
      rw [hfw] at hsome
      obtain rfl := Option.not_isSome_iff_eq_none.1 (by rw [hsome]; decide)
      exact hlaw

theorem measure_burnin_cpuormem : ∃ ret w',
    (measure steady .cpuormem (some nullProm) true false).run steadyWorld = .ok ret w' ∧
    ∃ b r, Steps (warmOf steady .cpuormem) (readingOf steady .cpuormem) nullProm true steadyWorld
        w' b r ∧
      (BurninLaw .cpuormem false b r ret.list ↔
        ¬ (Wrapper.cpuormem = .cpuormem ∧ false = false) ∨ Untouched b r) := by
  obtain ⟨w', h⟩ := steady_cpuormem
  have hiff := measure_burnin steadyTables (f := .cpuormem) trivial h
  exact ⟨_, w', h, hiff⟩

/-- Two events counted five times each, and reported as zero with `burnin=FALSE`. -/
theorem steadyWorld_subtracted : ∃ ret w' b r,
    (measure steady .cpuormem (some nullProm) true false).run steadyWorld = .ok ret w' ∧
      Steps (warmOf steady .cpuormem) (readingOf steady .cpuormem) nullProm true steadyWorld
        w' b r ∧
      r = [("", 5), ("", 5)] ∧ ret.list = [("", 0), ("", 0)] ∧
      ¬ BurninLaw .cpuormem false b r ret.list := by
  obtain ⟨w', h⟩ := steady_cpuormem
  obtain ⟨b, r, hsteps, -⟩ := measure_law steadyTables (f := .cpuormem) trivial h
  obtain ⟨w₁, w₂, -, -, hread⟩ := id hsteps
  obtain rfl := steady_reading_eq hread
  refine ⟨_, w', b, _, h, hsteps, rfl, rfl, fun hlaw => ?_⟩
  have h₀ := hlaw.count 0 5 trivial rfl
  revert h₀
  simp only [Bool.false_eq_true, if_false, less]
  decide +kernel

end PbdPapi.Proof
