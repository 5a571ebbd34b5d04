import PbdPapi.Proof.Burnin
import Mathlib.Tactic.Ring

/-!
# The documented rates

The relations that the documentation of `system.flops`, `system.flips` and `system.utilization`
states between the fields of their lists. A single reading has them; `systemRate_documented`: which
pairs of readings keep them when the counts and the rates are corrected by a baseline.
-/

set_option autoImplicit false

namespace PbdPapi.Proof

open Exec C Api

/-! ## Fields -/

/-- `v$name` -/
def field (v : Measurement) (name : String) : Rat := (v.lookup name).getD 0

/-- The names of the count and of the rate in the lists of a rate function. -/
def countName : RateKind → String
  | .flops => "flpops"
  | .flips => "flpins"
  | .epc => "ref"
  | .utilization => "ins"

def rateName : RateKind → String
  | .flops => "mflops"
  | .flips => "mflips"
  | .epc => "core"
  | .utilization => "ipc"

/-- The documented relation, for a clock rate in MHz. None is documented for `papi.epc`. -/
def Documented (k : RateKind) (clockrate ncpus : Int) (v : Measurement) : Prop :=
  match k with
  | .flops | .flips =>
    field v (rateName k) * field v "proc_time" * 10 ^ 6 = field v (countName k)
  | .utilization =>
    field v "utilization" =
      field v (countName k) / ((clockrate : Rat) * 10 ^ 6 * field v "real_time" * ncpus)
  | .epc => True

/-- A reading with positive times that the library computed consistently. -/
structure Consistent (k : RateKind) (r : Measurement) : Prop where
  real : 0 < field r "real_time"
  proc : 0 < field r "proc_time"
  rate : k = .flops ∨ k = .flips →
    field r (rateName k) * field r "proc_time" * 10 ^ 6 = field r (countName k)

/-- The condition on a reading and its baseline. -/
def Agree (k : RateKind) (b r : Measurement) : Prop :=
  match k with
  | .flops | .flips =>
    field b (countName k) = 0 ∨ field r "proc_time" = field b "proc_time" ∨
      (field r (countName k) ≤ field b (countName k) ∧
        field r (rateName k) ≤ field b (rateName k))
  | .utilization =>
    (field r (countName k) = 0 ∧ 0 ≤ field b (countName k)) ∨
      (field b (countName k) = 0 ∧ 0 ≤ field r (countName k))
  | .epc => True

/-! ## Arithmetic -/

/-- Two clamped numbers are equal if the numbers are, or if both clamp. -/
theorem max_zero_eq_max_zero (p q : Rat) : max p 0 = max q 0 ↔ p = q ∨ (p ≤ 0 ∧ q ≤ 0) := by
  rcases le_total p 0 with hp | hp <;> rcases le_total q 0 with hq | hq
  · rw [max_eq_right hp, max_eq_right hq]
    exact iff_of_true rfl (.inr ⟨hp, hq⟩)
  · rw [max_eq_right hp, max_eq_left hq]
    constructor
    · rintro rfl
      exact .inr ⟨hp, le_refl 0⟩
    · rintro (rfl | ⟨-, h⟩) <;> linarith
  · rw [max_eq_left hp, max_eq_right hq]
    constructor
    · rintro rfl
      exact .inr ⟨le_refl 0, hq⟩
    · rintro (rfl | ⟨h, -⟩) <;> linarith
  · rw [max_eq_left hp, max_eq_left hq]
    constructor
    · exact .inl
    · rintro (h | ⟨h, h'⟩) <;> linarith

/-- Two corrections of one number agree if they subtract the same, or both clamp. -/
theorem max_sub_eq_max_sub (a x y : Rat) :
    max (a - x) 0 = max (a - y) 0 ↔ x = y ∨ (a ≤ x ∧ a ≤ y) := by
  rw [max_zero_eq_max_zero, sub_right_inj, sub_nonpos, sub_nonpos]

/-- The corrected rate `max (q - p) 0` over the time `t` of the reading gives the corrected count
`max (n - m) 0` exactly if nothing was counted in the baseline, or both took the same time, or both
corrections clamp. -/
theorem corrected_rate_iff {q n t p m s : Rat} (ht : 0 < t) (hs : 0 < s)
    (hr : q * t * 10 ^ 6 = n) (hb : p * s * 10 ^ 6 = m) :
    max (q - p) 0 * t * 10 ^ 6 = max (n - m) 0 ↔ m = 0 ∨ t = s ∨ (n ≤ m ∧ q ≤ p) := by
  have hleft : max (q - p) 0 * t * 10 ^ 6 = max (n - p * t * 10 ^ 6) 0 := by
    rw [max_mul_of_nonneg _ _ ht.le, max_mul_of_nonneg _ _ (by norm_num), ← hr]
    congr 1 <;> ring
  have hle : n ≤ p * t * 10 ^ 6 ↔ q ≤ p := by
    rw [← hr, mul_le_mul_iff_of_pos_right (by norm_num), mul_le_mul_iff_of_pos_right ht]
  have heq : p * t * 10 ^ 6 = m ↔ m = 0 ∨ t = s := by
    subst hb
    constructor
    · intro h
      have h' : p * (t - s) = 0 := by linarith
      rcases mul_eq_zero.1 h' with h₀ | h₀
      · exact .inl (by rw [h₀]; ring)
      · exact .inr (by linarith)
    · rintro (h | rfl)
      · have hp : p = 0 := by
          rcases mul_eq_zero.1 h with h | h
          · exact (mul_eq_zero.1 h).resolve_right hs.ne'
          · norm_num at h
        rw [hp]
        ring
      · rfl
  rw [hleft, max_sub_eq_max_sub, heq, hle, or_assoc, and_comm]

/-! ## A single reading -/

/-- `papi_utilization_off` computes the documented quotient. -/
theorem documented_utilization (out : RateOut) (clockrate ncpus : Int) :
    Documented .utilization clockrate ncpus
      (rateValues .utilization out clockrate ncpus) := by
  show (out.ins : Rat) / ((clockrate : Rat) * 1000000 * out.rtime) / ncpus =
    out.ins / ((clockrate : Rat) * 10 ^ 6 * out.rtime * ncpus)
  rw [div_div]
  norm_num

theorem documented_reading {k : RateKind} {out : RateOut} {clockrate ncpus : Int}
    (h : Consistent k (rateValues k out clockrate ncpus)) :
    Documented k clockrate ncpus (rateValues k out clockrate ncpus) := by
  cases k with
  | flops => exact h.rate (.inl rfl)
  | flips => exact h.rate (.inr rfl)
  | epc => trivial
  | utilization => exact documented_utilization out clockrate ncpus

/-! ## A corrected reading -/

/-- The fields of a corrected list of flops or flips. -/
theorem field_corrected {k : RateKind} (hk : k = .flops ∨ k = .flips) (outb out : RateOut)
    (cb nb c n : Int) :
    let b := rateValues k outb cb nb
    let r := rateValues k out c n
    let v := subtractAt (burnPos k) b r
    field v (countName k) = max (field r (countName k) - field b (countName k)) 0 ∧
      field v (rateName k) = max (field r (rateName k) - field b (rateName k)) 0 := by
  rcases hk with rfl | rfl <;> exact ⟨rfl, rfl⟩

theorem documented_corrected {k : RateKind} {outb out : RateOut} {cb nb c n : Int}
    (hc : c ≠ 0) (hn : n ≠ 0) (hb : Consistent k (rateValues k outb cb nb))
    (hr : Consistent k (rateValues k out c n)) :
    Documented k c n (subtractAt (burnPos k) (rateValues k outb cb nb) (rateValues k out c n)) ↔
      Agree k (rateValues k outb cb nb) (rateValues k out c n) := by
  have hrate (hk : k = .flops ∨ k = .flips) := by
    obtain ⟨h₁, h₂⟩ := field_corrected hk outb out cb nb c n
    have := corrected_rate_iff hr.proc hb.proc (hr.rate hk) (hb.rate hk)
    rwa [← h₁, ← h₂] at this
  cases k with
  | flops => exact hrate (.inl rfl)
  | flips => exact hrate (.inr rfl)
  | epc => exact Iff.rfl
  | utilization =>
    have hD : (c : Rat) * 10 ^ 6 * out.rtime * n ≠ 0 := by
      have hreal : (0 : Rat) < out.rtime := hr.real
      have hc' : (c : Rat) ≠ 0 := by exact_mod_cast hc
      have hn' : (n : Rat) ≠ 0 := by exact_mod_cast hn
      exact mul_ne_zero (mul_ne_zero (mul_ne_zero hc' (by norm_num)) hreal.ne') hn'
    have hraw : (out.ins : Rat) / ((c : Rat) * 1000000 * out.rtime) / n =
        out.ins / ((c : Rat) * 10 ^ 6 * out.rtime * n) := by
      rw [div_div]
      norm_num
    show (out.ins : Rat) / ((c : Rat) * 1000000 * out.rtime) / n =
      max ((out.ins : Rat) - outb.ins) 0 / ((c : Rat) * 10 ^ 6 * out.rtime * n) ↔ _
    rw [hraw, div_left_inj' hD, eq_comm]
    exact max_sub_eq _ _

/-! ## The result -/

section
variable {σ : Type} {P : Papi σ} (T : Tables P)

include T in
/-- A `system.` rate function over a library with a fixed clock rate and number of CPUs, which took
the baseline `b` (none with `burnin=FALSE`) and the reading `r`, both consistent: its list has the
documented relation exactly if the two agree. -/
theorem systemRate_documented {clockrate ncpus : Int}
    (hclk : ∀ s, (P.getOpt .clockrate s).1 = clockrate)
    (hcpu : ∀ s, (P.getOpt .maxCpus s).1 = ncpus) (hc : clockrate ≠ 0) (hn : ncpus ≠ 0)
    {k : RateKind} {event : List String} {expr : Option (Prom σ)} {gcFirst burnin : Bool}
    {w w' : World σ} {v : Measurement}
    (h : (systemRate P k event expr gcFirst burnin).run w = .ok v w') {b : Option Measurement}
    {r : Measurement}
    (hs : Steps (pure ()) (rateReading P k event) (expr.getD nullProm) burnin w w' b r)
    (hr : Consistent k r) (hb : ∀ b₀ ∈ b, Consistent k b₀) :
    Documented k clockrate ncpus v ↔ ∀ b₀ ∈ b, Agree k b₀ r := by
  rw [systemRate_measured] at h
  obtain ⟨b', r', hs', hcorr⟩ := measured_ok.1 h
  obtain ⟨rfl, rfl⟩ := hs.unique hs'
  obtain ⟨w₁, w₂, -, hbase, hread⟩ := hs
  obtain ⟨out, s, rfl⟩ := rateReading_ok T hread
  simp only [hclk, hcpu] at hr hcorr ⊢
  cases b' with
  | none =>
    cases hcorr
    exact iff_of_true (documented_reading hr) fun b₀ hb₀ => by cases hb₀
  | some b =>
    obtain ⟨w₃, hread₀⟩ := (baseline_ok hbase).2 b rfl
    obtain ⟨outb, s', rfl⟩ := rateReading_ok T hread₀
    change burnLoop (k.idx _) _ _ = .ok v at hcorr
    rw [idx_rateValues, burnLoop_ok (nodup_burnPos k)] at hcorr
    obtain ⟨-, rfl⟩ := hcorr
    rw [documented_corrected hc hn (hb _ rfl) hr]
    simp

end

/-! ## Two readings that do not agree -/

/-- The baseline and the reading that `system.flops` takes of `steady`. -/
def steadyReading (n : Nat) : Measurement := rateValues .flops (steadyOut n) 1 1

theorem consistent_steady (n : Nat) : Consistent .flops (steadyReading n) := by
  by_cases h : n = 1
  · subst h
    exact ⟨by decide +kernel, by decide +kernel, fun _ => by decide +kernel⟩
  · have hout : steadyReading n = rateValues .flops ⟨2, 2, 0, 0, 4000000, 2⟩ 1 1 := by
      rw [steadyReading, steadyOut, if_neg h]
    rw [hout]
    exact ⟨by decide +kernel, by decide +kernel, fun _ => by decide +kernel⟩

theorem steady_flops : ∃ w',
    (systemRate steady .flops [] (some nullProm) true true).run steadyWorld =
      .ok [("real_time", 2), ("proc_time", 2), ("flpops", 3000000), ("mflops", 1)] w' ∧
    Steps (pure ()) (rateReading steady .flops []) nullProm true steadyWorld w'
      (some (steadyReading 1)) (steadyReading 3) := by
  obtain ⟨w₁, w₂, h₁, h₂⟩ : ∃ w₁ w₂,
      (rateReading steady .flops [] nullProm).run steadyWorld = .ok (steadyReading 1) w₁ ∧
      (rateReading steady .flops [] nullProm).run w₁ = .ok (steadyReading 3) w₂ :=
    ⟨_, _, rfl, rfl⟩
  have hb : (baseline (pure ()) (rateReading steady .flops []) true).run steadyWorld =
      .ok (some (steadyReading 1)) w₁ := map_ok.2 ⟨_, h₁, rfl⟩
  have hs : Steps (pure ()) (rateReading steady .flops []) nullProm true steadyWorld w₂
      (some (steadyReading 1)) (steadyReading 3) := ⟨steadyWorld, w₁, rfl, hb, h₂⟩
  refine ⟨w₂, ?_, hs⟩
  rw [systemRate_measured]
  exact measured_ok.2 ⟨_, _, hs, by decide +kernel⟩

theorem systemRate_documented_steady : ∃ v w',
    (systemRate steady .flops [] (some nullProm) true true).run steadyWorld = .ok v w' ∧
      (Documented .flops 1 1 v ↔
        ∀ b₀ ∈ some (steadyReading 1), Agree .flops b₀ (steadyReading 3)) := by
  obtain ⟨w', h, hs⟩ := steady_flops
  have hiff := systemRate_documented steadyTables (fun _ => rfl) (fun _ => rfl) (by decide)
    (by decide) h hs (consistent_steady 3) (fun b₀ hb₀ => by cases hb₀; exact consistent_steady 1)
  exact ⟨_, w', h, hiff⟩

/-- One million operations in one second, then four million in two: three million are reported at
one million per second over two seconds. -/
theorem steadyWorld_undocumented : ∃ v w',
    (systemRate steady .flops [] (some nullProm) true true).run steadyWorld = .ok v w' ∧
      Steps (pure ()) (rateReading steady .flops []) nullProm true steadyWorld w'
        (some (steadyReading 1)) (steadyReading 3) ∧
      Consistent .flops (steadyReading 1) ∧ Consistent .flops (steadyReading 3) ∧
      ¬ Documented .flops 1 1 v := by
  obtain ⟨w', h, hs⟩ := steady_flops
  refine ⟨_, w', h, hs, consistent_steady 1, consistent_steady 3, ?_⟩
  unfold Documented
  decide +kernel

end PbdPapi.Proof
