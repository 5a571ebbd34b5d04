import PbdPapi.Proof.Rates
import Mathlib.Algebra.Order.Field.Basic

/-!
# Cache ratios

`system.cache` divides two event counts that were corrected one by one. `systemCache_ratio`: for
which readings and baselines the quotient is a ratio, a number from 0 to 1.
-/

set_option autoImplicit false

namespace PbdPapi.Proof

open Exec C Api

/-! ## The law -/

/-- The count of the specific event of a ratio. -/
def specific (v : Measurement) : Rat := (vals v).getD 0 0

/-- The count of the accesses. -/
def accesses (v : Measurement) : Rat := (vals v).getD 1 0

/-- A reading of the two events of a ratio: the specific event is one kind of access. -/
structure CacheCounts (v : Measurement) : Prop where
  length : v.length = 2
  nonneg : 0 ≤ specific v
  le : specific v ≤ accesses v

/-- The result is a quotient from 0 to 1. -/
def IsRatio (ret : Ret) : Prop :=
  ∃ name num den, ret = .ratio name num den ∧ den ≠ 0 ∧ 0 ≤ num / den ∧ num / den ≤ 1

/-- The condition on a reading and its baseline: there were accesses beyond those of the baseline,
and of the specific event no more than that. -/
def Proportionate (b : Option Measurement) (r : Measurement) : Prop :=
  match b with
  | none => accesses r ≠ 0
  | some b => accesses b < accesses r ∧ specific r - specific b ≤ accesses r - accesses b

/-! ## Arithmetic -/

/-- A quotient of two corrected counts. -/
theorem corrected_quotient (x y : Rat) :
    (max y 0 ≠ 0 ∧ 0 ≤ max x 0 / max y 0 ∧ max x 0 / max y 0 ≤ 1) ↔ 0 < y ∧ x ≤ y := by
  by_cases hy : 0 < y
  · rw [max_eq_left hy.le, div_le_one hy, max_le_iff]
    have hq : 0 ≤ max x 0 / y := div_nonneg (le_max_right x 0) hy.le
    exact ⟨fun h => ⟨hy, h.2.2.1⟩, fun h => ⟨hy.ne', hq, h.2, hy.le⟩⟩
  · have h₀ : max y 0 = 0 := max_eq_right (not_lt.1 hy)
    exact iff_of_false (fun h => h.1 h₀) fun h => hy h.1

/-- A quotient of two counts. -/
theorem reading_quotient {x y : Rat} (hx : 0 ≤ x) (hxy : x ≤ y) :
    (y ≠ 0 ∧ 0 ≤ x / y ∧ x / y ≤ 1) ↔ y ≠ 0 := by
  refine ⟨And.left, fun hy => ?_⟩
  have hpos : 0 < y := lt_of_le_of_ne (hx.trans hxy) (Ne.symm hy)
  exact ⟨hy, div_nonneg hx hpos.le, (div_le_one hpos).2 hxy⟩

/-! ## A call of `system.cache` -/

/-- A call for the ratio of the accesses to themselves, which is known without a measurement. -/
def AccessRatio : Wrapper → Prop
  | .cache type events => matchArg type.toLower cacheTypes = .ok "access" ∧
      ∃ ev, matchArg events.toLower cacheEvents = .ok ev ∧ isMatch ev ".ratio" = true
  | _ => False

section
variable {σ : Type} {P : Papi σ}

theorem liftR_ok_bind {α β : Type} (a : α) (f : α → RM σ β) :
    (liftR (.ok a) : RM σ α) >>= f = f a := rfl

/-- `system.cache` after its call of `system.event`. -/
def cacheTail (ratio : Bool) (name : String) (ret : Measurement) : RM σ Ret :=
  if ratio then do
    let num ← liftR (elt ret 1)
    let den ← liftR (elt ret 2)
    return .ratio name num.2 den.2
  else return .counts (ret.map fun p => (String.ofList (gsubLevel p.1.toList), p.2))

/-- A call whose arguments match, and which is not one for the ratio of the accesses. -/
theorem systemCache_eq {type events ty ev : String}
    (hty : matchArg type.toLower cacheTypes = .ok ty)
    (hev : matchArg events.toLower cacheEvents = .ok ev)
    (hr : ¬ AccessRatio (.cache type events)) :
    ∃ name, ∀ (expr : Option (Prom σ)) (gcFirst burnin : Bool),
      systemCache P expr type events gcFirst burnin = (do
        availLookup (eventsOf (.cache type events)) (some events)
        let ret ← systemEvent P (some (expr.getD nullProm)) (eventsOf (.cache type events))
          gcFirst burnin
        cacheTail (isMatch ev ".ratio") name ret) := by
  have hna : ¬ (ty = "access" ∧ isMatch ev ".ratio" = true) := by
    rintro ⟨rfl, hm⟩
    exact hr ⟨hty, ev, hev, hm⟩
  unfold systemCache
  simp only [hty, hev, liftR_ok_bind, hna, if_false, eventsOf]
  exact ⟨_, fun _ _ _ => rfl⟩

/-- A call for a ratio that returns divides the two counts of its call of `system.event`. -/
theorem systemCache_ratio_ok {type events ty ev : String}
    (hty : matchArg type.toLower cacheTypes = .ok ty) (hna : ty ≠ "access")
    (hev : matchArg events.toLower cacheEvents = .ok ev) (hr : isMatch ev ".ratio" = true)
    {expr : Option (Prom σ)} {gcFirst burnin : Bool} {w w' : World σ} {ret : Ret}
    (h : (systemCache P expr type events gcFirst burnin).run w = .ok ret w') :
    ∃ v name, (systemEvent P expr (eventsOf (.cache type events)) gcFirst burnin).run w =
        .ok v w' ∧ ret = .ratio name (specific v) (accesses v) := by
  have hnacc : ¬ AccessRatio (.cache type events) := by
    rintro ⟨hacc, -⟩
    rw [hty] at hacc
    cases hacc
    exact hna rfl
  obtain ⟨name, heq⟩ := systemCache_eq (P := P) hty hev hnacc
  rw [heq] at h
  have h := availLookup_bind_ok h
  obtain ⟨v, w₁, hv, h⟩ := bind_ok.1 h
  rw [hr, cacheTail, if_pos rfl] at h
  obtain ⟨num, hnum, h⟩ := liftR_bind_ok h
  obtain ⟨den, hden, h⟩ := liftR_bind_ok h
  cases h
  have hnum : v[0]? = some num := elt_ok.1 hnum
  have hden : v[1]? = some den := elt_ok.1 hden
  have hspec : specific v = num.2 := by
    simp only [specific, vals_getD, hnum, Option.map_some, Option.getD_some]
  have hacc : accesses v = den.2 := by
    simp only [accesses, vals_getD, hden, Option.map_some, Option.getD_some]
  exact ⟨v, name, hv, by rw [hspec, hacc]⟩

/-- The counts of a corrected list. -/
theorem corrected_counts {b : Option Measurement} {r v : Measurement} (h : corrected b r = .ok v)
    (hr : r.length = 2) :
    specific v = less b 0 (specific r) ∧ accesses v = less b 1 (accesses r) := by
  have hget {i : Nat} (hi : i < 2) : (vals v).getD i 0 = less b i ((vals r).getD i 0) := by
    have hlt : i < (vals r).length := by simpa [vals, hr] using hi
    have hx : (vals r)[i]? = some ((vals r).getD i 0) := by
      rw [List.getD_eq_getElem?_getD, List.getElem?_eq_getElem hlt, Option.getD_some]
    rw [List.getD_eq_getElem?_getD, (corrected_vals h).2 i _ hx, Option.getD_some]
  exact ⟨hget (by decide), hget (by decide)⟩

/-! ## The result -/

/-- A call of `system.cache` for a ratio other than that of accesses, which took the baseline `b`
(none with `burnin=FALSE`) and the reading `r`: its result is a ratio exactly if the two are
proportionate. -/
theorem systemCache_ratio {type events ty ev : String}
    (hty : matchArg type.toLower cacheTypes = .ok ty) (hna : ty ≠ "access")
    (hev : matchArg events.toLower cacheEvents = .ok ev) (hratio : isMatch ev ".ratio" = true)
    {expr : Option (Prom σ)} {gcFirst burnin : Bool} {w w' : World σ} {ret : Ret}
    (h : (systemCache P expr type events gcFirst burnin).run w = .ok ret w')
    {b : Option Measurement} {r : Measurement}
    (hs : Steps (warmOf P (.cache type events)) (readingOf P (.cache type events))
      (expr.getD nullProm) burnin w w' b r)
    (hb : ∀ b₀ ∈ b, CacheCounts b₀) (hr : CacheCounts r) :
    IsRatio ret ↔ Proportionate b r := by
  obtain ⟨v, name, hv, rfl⟩ := systemCache_ratio_ok hty hna hev hratio h
  rw [systemEvent_measured] at hv
  obtain ⟨b', r', hs', hc⟩ := measured_ok.1 hv
  obtain ⟨rfl, rfl⟩ := Steps.unique hs hs'
  obtain ⟨hnum, hden⟩ := corrected_counts hc hr.length
  have hret : IsRatio (.ratio name (specific v) (accesses v)) ↔
      accesses v ≠ 0 ∧ 0 ≤ specific v / accesses v ∧ specific v / accesses v ≤ 1 := by
    constructor
    · rintro ⟨_, _, _, heq, hq⟩
      cases heq
      exact hq
    · intro hq
      exact ⟨name, _, _, rfl, hq⟩
  rw [hret, hnum, hden]
  cases b' with
  | none => exact reading_quotient hr.nonneg hr.le
  | some b =>
    have hquot := corrected_quotient (specific r' - specific b) (accesses r' - accesses b)
    rw [sub_pos] at hquot
    exact hquot

end

/-! ## Five misses in two accesses -/

/-- A library of the two events of the miss ratio of the L1 cache. Its state is the number of
sessions and evaluations of `touch` so far; up to four of them it counts one miss in ten accesses,
and from then on six in twelve. -/
def l1Library : Papi Nat where
  isInitialized s := (1, s)
  libraryInit version s := (version, s)
  numCounters s := (4, s)
  eventNameToCode name code s :=
    (if name = "PAPI_L1_TCM" then (papiOK, 1)
      else if name = "PAPI_L1_TCA" then (papiOK, 2)
      else (papiEnoevnt, code), s)
  getEventInfo _ _ s := ((papiOK, ⟨1, "", ""⟩), s)
  enumEvent id _ s := ((papiEnoevnt, id), s)
  startCounters _ s := (papiOK, s + 1)
  stopCounters _ s := ((papiOK, if s ≤ 4 then [1, 10] else [6, 12]), s)
  rate _ out s := ((papiEnoevnt, out), s)
  getHardwareInfo s := (none, s)
  getOpt _ s := (1, s)

/-- The world of `l1Library` before its first session. -/
def l1World : World Nat where
  lib := 0
  prot := []
  fresh _ := 0
  heap _ := 0
  locals := ⟨0, ⟨0, "", ""⟩, ⟨0, 0, 0, 0, 0, 0⟩⟩
  avail := [⟨"PAPI_L1_TCM", true, ""⟩, ⟨"PAPI_L1_TCA", true, ""⟩]
  warnings := []
  trace := []

/-- An expression that misses the cache. -/
def touch : Prom Nat := (do
  modify fun w => { w with lib := w.lib + 1 }
  return .obj .null : RM Nat (Val Nat))

theorem l1_type : matchArg "miss".toLower cacheTypes = .ok "miss" := by decide +kernel

theorem l1_events : matchArg "l1.ratio".toLower cacheEvents = .ok "l1.ratio" := by decide +kernel

theorem l1_steps : ∃ w',
    (systemCache l1Library (some touch) "miss" "l1.ratio" true true).run l1World =
      .ok (.ratio "L1 cache miss ratio" 5 2) w' ∧
    Steps (warmOf l1Library (.cache "miss" "l1.ratio"))
      (readingOf l1Library (.cache "miss" "l1.ratio")) touch true l1World w'
      (some [("", 1), ("", 10)]) [("", 6), ("", 12)] := by
  obtain ⟨w', h⟩ : ∃ w',
      (systemCache l1Library (some touch) "miss" "l1.ratio" true true).run l1World =
        .ok (.ratio "L1 cache miss ratio" 5 2) w' := exists_of_returns (by decide +kernel)
  obtain ⟨v, name, hv, -⟩ := systemCache_ratio_ok l1_type (by decide) l1_events rfl h
  rw [systemEvent_measured] at hv
  obtain ⟨b, r, hs, -⟩ := measured_ok.1 hv
  obtain ⟨w₁, w₂, hw, hb, hr⟩ := id hs
  obtain ⟨-, rfl⟩ := eq_of_returns (a := ()) hw (by decide +kernel)
  obtain ⟨rfl, rfl⟩ := eq_of_returns (a := some [("", 1), ("", 10)]) hb (by decide +kernel)
  obtain ⟨rfl, -⟩ := eq_of_returns (a := [("", 6), ("", 12)]) hr (by decide +kernel)
  exact ⟨w', h, hs⟩

theorem l1_baseline : CacheCounts [("", 1), ("", 10)] :=
  ⟨rfl, by decide +kernel, by decide +kernel⟩

theorem l1_reading : CacheCounts [("", 6), ("", 12)] :=
  ⟨rfl, by decide +kernel, by decide +kernel⟩

theorem systemCache_ratio_l1 : ∃ ret w',
    (systemCache l1Library (some touch) "miss" "l1.ratio" true true).run l1World = .ok ret w' ∧
    (IsRatio ret ↔ Proportionate (some [("", 1), ("", 10)]) [("", 6), ("", 12)]) := by
  obtain ⟨w', h, hs⟩ := l1_steps
  have hiff := systemCache_ratio l1_type (by decide) l1_events rfl h hs
    (fun b₀ hb => by cases hb; exact l1_baseline) l1_reading
  exact ⟨_, w', h, hiff⟩

/-- One miss in ten accesses for the empty expression and six in twelve for the measured one: the
miss ratio is five misses in two accesses. -/
theorem l1World_disproportionate : ∃ ret w' b r,
    (systemCache l1Library (some touch) "miss" "l1.ratio" true true).run l1World = .ok ret w' ∧
    Steps (warmOf l1Library (.cache "miss" "l1.ratio"))
      (readingOf l1Library (.cache "miss" "l1.ratio")) touch true l1World w' (some b) r ∧
    CacheCounts b ∧ CacheCounts r ∧ ret = .ratio "L1 cache miss ratio" 5 2 ∧ ¬ IsRatio ret := by
  obtain ⟨w', h, hs⟩ := l1_steps
  refine ⟨_, w', _, _, h, hs, l1_baseline, l1_reading, rfl, ?_⟩
  rintro ⟨name, num, den, heq, -, -, hle⟩
  cases heq
  revert hle
  decide +kernel

end PbdPapi.Proof
