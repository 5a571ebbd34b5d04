import PbdPapi.Proof.Rates

/-!
# The names in the lists of the rate functions

`quantities` says which of the library's quantities bears which documented name. Three of the four
off functions of the C code put every value under its own name; `papi_epc_off` fills its list in one
order and names it in another. `systemRate_fields`: for which values written by the library the
result of a rate function names them rightly all the same.
-/

set_option autoImplicit false

namespace PbdPapi.Proof

open Exec C Api

/-! ## The law -/

/-- The library's quantities under their names. -/
def quantities (k : RateKind) (out : RateOut) : Measurement :=
  match k with
  | .flops => [("real_time", out.rtime), ("proc_time", out.ptime), ("flpops", out.ins),
      ("mflops", out.rate)]
  | .flips => [("real_time", out.rtime), ("proc_time", out.ptime), ("flpins", out.ins),
      ("mflips", out.rate)]
  | .epc => [("real_time", out.rtime), ("proc_time", out.ptime), ("ref", out.ref),
      ("core", out.core), ("evt", out.ins), ("epc", out.rate)]
  | .utilization => [("real_time", out.rtime), ("proc_time", out.ptime), ("ins", out.ins),
      ("ipc", out.rate)]

/-- The name of the event count. -/
def eventName : RateKind → String
  | .flops => "flpops"
  | .flips => "flpins"
  | .epc => "evt"
  | .utilization => "ins"

/-- The list `v` has the quantities of `out` under their names; with a baseline `outb` it has the
corrected event count under its name. -/
def Named (k : RateKind) (outb : Option RateOut) (out : RateOut) (v : Measurement) : Prop :=
  match outb with
  | none => ∀ p ∈ quantities k out, v.lookup p.1 = some p.2
  | some outb => v.lookup (eventName k) = some (max ((out.ins : Rat) - outb.ins) 0)

/-- Values for which the names of `papi_epc_off` make no difference: the two that stand for each
other are equal, or are so once corrected. -/
def Coincide (outb : Option RateOut) (out : RateOut) : Prop :=
  match outb with
  | none => out.ref = out.ins ∧ (out.core : Rat) = out.rate
  | some outb => out.ref - outb.ref = out.ins - outb.ins ∨
      (out.ref ≤ outb.ref ∧ out.ins ≤ outb.ins)

/-! ## What the library wrote -/

section
variable {σ : Type} (P : Papi σ)

/-- In a reading of `expr` from `w` the off call had the library write `out`. -/
def OffRead (k : RateKind) (event : List String) (expr : Prom σ) (w : World σ) (out : RateOut) :
    Prop :=
  ∃ ev w₁ w₂ o w₃, (k.gate P event).run w = .ok ev w₁ ∧
    (papiRateStart P k ev).run w₁ = .ok () w₂ ∧ (reval expr).run w₂ = .ok o w₃ ∧
    out = (P.rate (k.rate ev) w₃.locals.out w₃.lib).1.2

/-- In a measurement of `expr` from `w` the off calls had the library write `outb`, in the burn-in
run if there is one, and `out`. -/
def OffReads (k : RateKind) (event : List String) (expr : Prom σ) (burnin : Bool) (w : World σ)
    (outb : Option RateOut) (out : RateOut) : Prop :=
  match burnin with
  | false => outb = none ∧ OffRead P k event expr w out
  | true => ∃ out₀ b w₁, outb = some out₀ ∧ OffRead P k event nullProm w out₀ ∧
      (rateReading P k event nullProm).run w = .ok b w₁ ∧ OffRead P k event expr w₁ out

variable {P}

theorem OffRead.unique {k : RateKind} {event : List String} {expr : Prom σ} {w : World σ}
    {out out' : RateOut} (h : OffRead P k event expr w out)
    (h' : OffRead P k event expr w out') : out' = out := by
  obtain ⟨ev, w₁, w₂, o, w₃, hg, hs, he, rfl⟩ := h
  obtain ⟨ev', w₁', w₂', o', w₃', hg', hs', he', rfl⟩ := h'
  rw [hg] at hg'
  cases hg'
  rw [hs] at hs'
  cases hs'
  rw [he] at he'
  cases he'
  rfl

/-- A measurement determines what the library wrote. -/
theorem OffReads.unique {k : RateKind} {event : List String} {expr : Prom σ} {burnin : Bool}
    {w : World σ} {outb outb' : Option RateOut} {out out' : RateOut}
    (h : OffReads P k event expr burnin w outb out)
    (h' : OffReads P k event expr burnin w outb' out') : outb' = outb ∧ out' = out := by
  cases burnin with
  | false =>
    obtain ⟨rfl, h⟩ := h
    obtain ⟨rfl, h'⟩ := h'
    exact ⟨rfl, h.unique h'⟩
  | true =>
    obtain ⟨out₀, b, w₁, rfl, h₀, hr, h⟩ := h
    obtain ⟨out₀', b', w₁', rfl, h₀', hr', h'⟩ := h'
    rw [hr] at hr'
    cases hr'
    exact ⟨congrArg some (h₀.unique h₀'), h.unique h'⟩

variable (T : Tables P)

include T in
/-- A reading is the list that the off call builds from what the library wrote. -/
theorem rateReading_offRead {k : RateKind} {event : List String} {expr : Prom σ}
    {w w' : World σ} {r : Measurement} (h : (rateReading P k event expr).run w = .ok r w') :
    ∃ out c n, OffRead P k event expr w out ∧ r = rateValues k out c n := by
  obtain ⟨ev, w₁, hg, h₁⟩ := bind_ok.1 h
  obtain ⟨w₂, o, w₃, w₄, hs, he, hf, -⟩ := papiRate_ok P |>.1 h₁
  obtain ⟨hr, -⟩ := papiRateStart_ok P (T.gate_ok hg).2 hs
  obtain ⟨w₅, hrun, -⟩ := papiRateFinish_run P hr w₃
  rw [hrun] at hf
  split at hf
  · cases hf
    exact ⟨_, _, _, ⟨ev, w₁, w₂, o, w₃, hg, hs, he, rfl⟩, rfl⟩
  · cases hf

include T in
/-- The result of a rate function: the list of its reading, corrected by that of the burn-in run. -/
theorem systemRate_list {k : RateKind} {event : List String} {expr : Option (Prom σ)}
    {gcFirst burnin : Bool} {w w' : World σ} {v : Measurement}
    (h : (systemRate P k event expr gcFirst burnin).run w = .ok v w') :
    ∃ outb out c n, OffReads P k event (expr.getD nullProm) burnin w outb out ∧
      match outb with
      | none => v = rateValues k out c n
      | some outb => ∃ c' n',
          v = subtractAt (burnPos k) (rateValues k outb c' n') (rateValues k out c n) := by
  rw [systemRate_measured] at h
  obtain ⟨b, r, ⟨w₁, w₂, hw, hb, hr⟩, hc⟩ := measured_ok.1 h
  cases hw
  obtain ⟨out, c, n, ho, rfl⟩ := rateReading_offRead T hr
  cases burnin with
  | false =>
    cases hb
    cases hc
    exact ⟨none, out, c, n, ⟨rfl, ho⟩, rfl⟩
  | true =>
    obtain ⟨b, hread, rfl⟩ := map_ok.1 hb
    change (rateReading P k event nullProm).run w = .ok b w₂ at hread
    obtain ⟨outb, c', n', hob, rfl⟩ := rateReading_offRead T hread
    change burnLoop (k.idx _) _ _ = .ok v at hc
    rw [idx_rateValues, burnLoop_ok (nodup_burnPos k)] at hc
    exact ⟨some outb, out, c, n, ⟨outb, _, w₂, rfl, hob, hread, ho⟩, c', n', hc.2⟩

end

/-! ## The lists -/

/-- Without a correction only the list of epc can misname a value. -/
theorem named_rateValues (k : RateKind) (out : RateOut) (c n : Int) :
    Named k none out (rateValues k out c n) ↔ k ≠ .epc ∨ Coincide none out := by
  cases k with
  | epc =>
    have hlook : Named .epc none out (rateValues .epc out c n) ↔
        some (out.ins : Rat) = some (out.ref : Rat) ∧ some out.rate = some (out.core : Rat) ∧
          some (out.ref : Rat) = some (out.ins : Rat) ∧ some (out.core : Rat) = some out.rate := by
      simp only [Named, quantities, List.forall_mem_cons, List.not_mem_nil, false_implies,
        implies_true, and_true]
      exact ⟨fun h => h.2.2, fun h => ⟨rfl, rfl, h⟩⟩
    rw [hlook]
    simp only [Option.some.injEq, Int.cast_inj, Coincide]
    constructor
    · rintro ⟨-, -, hevt, hepc⟩
      exact .inr ⟨hevt, hepc⟩
    · rintro (hk | ⟨hevt, hepc⟩)
      · exact absurd rfl hk
      · exact ⟨hevt.symm, hepc.symm, hevt, hepc⟩
  | _ =>
    refine iff_of_true ?_ (.inl (by decide))
    simp only [Named, quantities, List.forall_mem_cons, List.not_mem_nil, false_implies,
      implies_true, and_true]
    exact ⟨rfl, rfl, rfl, rfl⟩

/-- With a correction, likewise. -/
theorem named_subtractAt (k : RateKind) (outb out : RateOut) (c' n' c n : Int) :
    Named k (some outb) out
      (subtractAt (burnPos k) (rateValues k outb c' n') (rateValues k out c n)) ↔
        k ≠ .epc ∨ Coincide (some outb) out := by
  cases k with
  | epc =>
    have hlook : Named .epc (some outb) out
        (subtractAt (burnPos .epc) (rateValues .epc outb c' n') (rateValues .epc out c n)) ↔
        some (max ((out.ref : Rat) - outb.ref) 0) = some (max ((out.ins : Rat) - outb.ins) 0) :=
      Iff.rfl
    have hne : ¬ RateKind.epc ≠ .epc := fun hk => hk rfl
    rw [hlook, Option.some.injEq, max_zero_eq_max_zero, sub_nonpos, sub_nonpos]
    simp only [hne, false_or, Coincide]
    norm_cast
  | _ => exact iff_of_true rfl (.inl (by decide))

/-! ## The result -/

/-- A rate function over any library, whose off calls wrote `outb` (none with `burnin=FALSE`) and
`out`: its list names the values rightly exactly if it is not `system.epc`, or if the values that
`papi_epc_off` puts in each other's place coincide. For R's doubles the counts are below `2 ^ 53`,
and the times and rates rounded. -/
theorem systemRate_fields {σ : Type} {P : Papi σ} (T : Tables P) {k : RateKind}
    {event : List String} {expr : Option (Prom σ)} {gcFirst burnin : Bool} {w w' : World σ}
    {v : Measurement} (h : (systemRate P k event expr gcFirst burnin).run w = .ok v w')
    {outb : Option RateOut} {out : RateOut}
    (hs : OffReads P k event (expr.getD nullProm) burnin w outb out) :
    Named k outb out v ↔ k ≠ .epc ∨ Coincide outb out := by
  obtain ⟨outb', out', c, n, hs', hv⟩ := systemRate_list T h
  obtain ⟨rfl, rfl⟩ := hs.unique hs'
  cases outb' with
  | none =>
    rw [hv]
    exact named_rateValues k out' c n
  | some outb =>
    obtain ⟨c', n', rfl⟩ := hv
    exact named_subtractAt k outb out' c' n' c n

/-! ## A million events -/

/-- `system.epc` over `steady`, whose off call counts a million events and no cycles. -/
theorem steady_epc : ∃ w',
    (systemRate steady .epc ["PAPI_TOT_INS"] (some nullProm) true false).run steadyWorld =
      .ok [("real_time", 1), ("proc_time", 1), ("ref", 1000000), ("core", 1), ("evt", 0),
        ("epc", 0)] w' ∧
    OffReads steady .epc ["PAPI_TOT_INS"] nullProm false steadyWorld none (steadyOut 1) := by
  have hoff : OffRead steady .epc ["PAPI_TOT_INS"] nullProm steadyWorld (steadyOut 1) :=
    ⟨_, _, _, _, _, rfl, rfl, rfl, rfl⟩
  exact ⟨_, rfl, rfl, hoff⟩

theorem systemRate_fields_steady : ∃ v w',
    (systemRate steady .epc ["PAPI_TOT_INS"] (some nullProm) true false).run steadyWorld =
      .ok v w' ∧
    (Named .epc none (steadyOut 1) v ↔
      RateKind.epc ≠ .epc ∨ Coincide none (steadyOut 1)) := by
  obtain ⟨w', h, hs⟩ := steady_epc
  have hiff := systemRate_fields steadyTables h hs
  exact ⟨_, w', h, hiff⟩

/-- The library counts a million events in no reference cycles; `system.epc` returns a million
reference cycles and no events. -/
theorem steadyWorld_misnamed : ∃ v w',
    (systemRate steady .epc ["PAPI_TOT_INS"] (some nullProm) true false).run steadyWorld =
      .ok v w' ∧
    OffReads steady .epc ["PAPI_TOT_INS"] nullProm false steadyWorld none (steadyOut 1) ∧
    (steadyOut 1).ins = 1000000 ∧ v.lookup "evt" = some 0 ∧ v.lookup "ref" = some 1000000 ∧
    ¬ Named .epc none (steadyOut 1) v := by
  obtain ⟨w', h, hs⟩ := steady_epc
  refine ⟨_, w', h, hs, rfl, rfl, rfl, fun hn => ?_⟩
  have hevt := hn ("evt", 1000000) (by decide +kernel)
  revert hevt
  decide +kernel

end PbdPapi.Proof
