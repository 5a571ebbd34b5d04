import PbdPapi.Proof.HighLevel
import PbdPapi.Api.Program

/-!
# Frame conditions of whole programs

A relation between worlds that the two cores of the measuring functions keep, `systemEvent` and
`systemRate`, is kept by every measuring function (`measure_moves`), and so by every expression
with measuring calls nested in it to any depth (`prom_good`). Over PAPI's high level interface the
first of the two comes down to a session around the expression (`systemEvent_moves`).
-/

set_option autoImplicit false

namespace PbdPapi.Proof

open Exec C Api

section
variable {σ : Type} {R : World σ → World σ → Prop} [IsPreorder (World σ) R]

/-! ## R-level steps -/

theorem liftR_moves {α : Type} (x : Except RError α) : Moves R (liftR x : RM σ α) := by
  cases x with
  | ok a => exact .pure a
  | error c => exact .throw c

theorem availLookup_moves (events : List String) (shorthand : Option String) :
    Moves R (availLookup events shorthand : RM σ Unit) :=
  .bind .get fun _ => liftR_moves _

/-! ## Promises -/

/-- A promise whose evaluation goes along `R`, as does that of a language object it gives. -/
structure Good (R : World σ → World σ → Prop) (p : Prom σ) : Prop where
  force : Moves R p
  code : ∀ w code w', p.run w = .ok (.lang code) w' → Moves R code

theorem good_null : Good R (nullProm : Prom σ) where
  force := .pure _
  code w code w' h := by cases h

theorem Good.reval {p : Prom σ} (h : Good R p) : Moves R (reval p) := by
  intro w
  unfold PbdPapi.reval
  cases hp : EStateM.run p w with
  | error c w₁ =>
    rw [bind_of_error hp]
    exact h.force.error hp
  | ok v w₁ =>
    rw [bind_of_ok hp]
    cases v with
    | obj o => exact h.force.ok hp
    | lang code => exact IsTrans.trans _ _ _ (h.force.ok hp) (h.code w code w₁ hp w₁)

theorem tryIdentity_moves {x : RM σ Obj} (h : Moves R x) : Moves R (tryIdentity x) := by
  refine .bind h.caught ?_
  intro r
  cases r with
  | ok o => exact .pure o
  | error c => exact .pure _

/-! ## The measuring functions -/

variable (P : Papi σ)

/-- `system.event` uses its argument or, if that is missing, `NULL`. -/
theorem systemEvent_getD (expr : Option (Prom σ)) :
    systemEvent P (some (expr.getD nullProm)) = systemEvent P expr := rfl

theorem systemCache_moves {expr : Option (Prom σ)} (hw : ∀ msg, Moves R (warning msg : RM σ Unit))
    (he : ∀ events gcFirst burnin, Moves R (systemEvent P expr events gcFirst burnin))
    (type events : String) (gcFirst burnin : Bool) :
    Moves R (systemCache P expr type events gcFirst burnin) := by
  refine .bind (liftR_moves _) fun type => .bind (liftR_moves _) fun events => ?_
  dsimp only
  split
  · exact .bind (hw _) fun _ => .pure _
  · refine .bind (availLookup_moves _ _) ?_
    intro _
    rw [systemEvent_getD]
    refine .bind (he _ _ _) ?_
    intro ret
    split
    · exact .bind (liftR_moves _) fun _ => .bind (liftR_moves _) fun _ => .pure _
    · exact .pure _

theorem systemIdle_moves {expr : Option (Prom σ)}
    (he : ∀ events gcFirst burnin, Moves R (systemEvent P expr events gcFirst burnin))
    (events : String) (gcFirst burnin : Bool) :
    Moves R (systemIdle P expr events gcFirst burnin) := by
  refine .bind (liftR_moves _) fun events => .bind (availLookup_moves _ _) fun _ => ?_
  rw [systemEvent_getD]
  exact he _ _ _

theorem systemCpuormem_moves {expr : Option (Prom σ)}
    (he : ∀ events gcFirst burnin, Moves R (systemEvent P expr events gcFirst burnin))
    (gcFirst burnin : Bool) : Moves R (systemCpuormem P expr gcFirst burnin) := by
  refine .bind (availLookup_moves _ _) ?_
  intro _
  rw [systemEvent_getD]
  refine .bind (he _ _ _) fun ret => .bind (liftR_moves _) fun ins =>
    .bind (liftR_moves _) fun tca => ?_
  split <;> exact .pure _

/-- The rate function behind a measuring function, with its event, if it is one. -/
def rateOf : Wrapper → Option (RateKind × List String)
  | .flops => some (.flops, [])
  | .flips => some (.flips, [])
  | .epc event => some (.epc, event)
  | .utilization => some (.utilization, [])
  | _ => none

theorem measure_rate {f : Wrapper} {k : RateKind} {event : List String}
    (h : rateOf f = some (k, event)) (expr : Option (Prom σ)) (gcFirst burnin : Bool) :
    measure P f expr gcFirst burnin = .counts <$> systemRate P k event expr gcFirst burnin := by
  cases f <;> cases h <;> rfl

/-- The other measuring functions go along a relation that `system.event` goes along. -/
theorem measure_event_moves {f : Wrapper} (hf : rateOf f = none) {expr : Option (Prom σ)}
    (hw : ∀ msg, Moves R (warning msg : RM σ Unit))
    (he : ∀ events gcFirst burnin, Moves R (systemEvent P expr events gcFirst burnin))
    (gcFirst burnin : Bool) : Moves R (measure P f expr gcFirst burnin) := by
  cases f with
  | event events => exact (he events gcFirst burnin).map _
  | cache type events => exact systemCache_moves P hw he type events gcFirst burnin
  | idle events => exact (systemIdle_moves P he events gcFirst burnin).map _
  | cpuormem => exact systemCpuormem_moves P he gcFirst burnin
  | ipcmCache type level => exact (he _ gcFirst burnin).map _
  | _ => cases hf

/-- Every measuring function goes along a relation that the two cores go along. -/
theorem measure_moves {expr : Option (Prom σ)} (hw : ∀ msg, Moves R (warning msg : RM σ Unit))
    (he : ∀ events gcFirst burnin, Moves R (systemEvent P expr events gcFirst burnin))
    (hr : ∀ k event gcFirst burnin, Moves R (systemRate P k event expr gcFirst burnin))
    (f : Wrapper) (gcFirst burnin : Bool) : Moves R (measure P f expr gcFirst burnin) := by
  cases hf : rateOf f with
  | none => exact measure_event_moves P hf hw he gcFirst burnin
  | some p =>
    rw [measure_rate P hf]
    exact (hr p.1 p.2 gcFirst burnin).map _

end

/-! ## Expressions -/

section
variable {R : World Hl.State → World Hl.State → Prop} [IsPreorder (World Hl.State) R] (H : Hl.Hw)

/-- Every expression goes along a relation that work and measuring calls go along. -/
theorem prom_good (ht : ∀ d, Moves R (tick d))
    (hm : ∀ p, Good R p → ∀ f gcFirst burnin,
      Moves R (measure (Hl.papi H) f (some p) gcFirst burnin))
    (e : Expr) : Good R (e.prom H) := by
  induction e with
  | value o => exact ⟨.pure _, fun w code w' h => by cases h⟩
  | quote e ih =>
    refine ⟨.pure _, fun w code w' h => ?_⟩
    cases h
    refine .bind ih.force ?_
    intro v
    cases v <;> exact .pure _
  | raise c => exact ⟨.throw c, fun w code w' h => by cases h⟩
  | work d e ih =>
    refine ⟨.bind (ht d) fun _ => ih.force, fun w code w' h => ?_⟩
    obtain ⟨_, w₁, -, h₁⟩ := bind_ok.1 h
    exact ih.code w₁ code w' h₁
  | measure f gcFirst burnin arg k iharg ihk =>
    refine ⟨.bind (hm _ iharg f gcFirst burnin).caught fun r => (ihk r).force,
      fun w code w' h => ?_⟩
    obtain ⟨r, w₁, -, h₁⟩ := bind_ok.1 h
    exact (ihk r).code w₁ code w' h₁

/-- The argument of a call is an expression, or `NULL` if it is missing. -/
theorem call_good (hp : ∀ e : Expr, Good R (e.prom H)) (c : ExprCall) :
    Good R ((c.call H).expr.getD nullProm) := by
  unfold ExprCall.call
  cases c.expr with
  | none => exact good_null
  | some e => exact hp e

end

/-! ## `system.event` over PAPI's high level interface -/

section
variable (H : Hl.Hw)

/-- `papi.start` is refused, fails and cleans up, or starts the session of its events. -/
theorem papiStart_cases (events : List String) (w : World Hl.State) :
    ∃ w₁, Side w w₁ ∧
      ((∃ c, (papiStart (Hl.papi H) events).run w = .error c w₁ ∧ w₁.lib = w.lib) ∨
      (w.lib.info.running = .stop ∧
        ∃ c, (papiStart (Hl.papi H) events).run w = .error c w₁ ∧ w₁.lib = Hl.cleanup w.lib) ∨
      (w.lib.info.running = .stop ∧
        ∃ codes, (hlTables H).codes events = some codes ∧
          (papiStart (Hl.papi H) events).run w = .ok (.int [0]) w₁ ∧
          w₁.lib = started codes.eraseDups w.lib)) := by
  by_cases hc : (hlTables H).codes events = none ∨ ¬ (hlTables H).Enough events.length
  · obtain ⟨c, w₁, hr, hs⟩ := (hlTables H).papiStart_refused hc w
    exact ⟨w₁, hs.toSide, .inl ⟨c, hr, hs.lib⟩⟩
  · rw [not_or, not_not] at hc
    obtain ⟨codes, hcodes⟩ := Option.ne_none_iff_exists'.1 hc.1
    obtain ⟨w₁, hr, hside, -, hl⟩ := (hlTables H).papiStart_run hcodes hc.2 w
    refine ⟨w₁, hside, ?_⟩
    rcases startCounters_cases H codes.eraseDups w.lib with ⟨hne, hs⟩ | ⟨h₀, hne, hs⟩ | ⟨h₀, hs⟩
    · exact .inl ⟨_, hr.trans (if_neg hne), hl.trans hs⟩
    · exact .inr (.inl ⟨h₀, _, hr.trans (if_neg hne), hl.trans hs⟩)
    · refine .inr (.inr ⟨h₀, codes, hcodes, hr.trans (if_pos ?_), hl.trans ?_⟩)
      · exact congrArg Prod.fst hs
      · exact congrArg Prod.snd hs

/-- `papi.stop` of the events of the session that runs ends the session, whether it returns or
not. -/
theorem papiStop_moves {events : List String} {codes : List Int}
    (hc : (hlTables H).codes events = some codes) (w : World Hl.State) :
    Side w (final ((papiStop (Hl.papi H) events).run w)) ∧
      (final ((papiStop (Hl.papi H) events).run w)).lib =
        (Hl.stopCounters codes.eraseDups.length w.lib).2 := by
  obtain ⟨w₁, hr, hside, hl⟩ := (hlTables H).papiStop_run hc w
  rw [hr]
  cases (hlTables H).stopList codes.eraseDups w <;> exact ⟨hside, hl⟩

variable {R S : World Hl.State → World Hl.State → Prop} [IsPreorder _ R]

/-- Steps outside of a session that `R` has to allow, and the session of `papi.start` and
`papi.stop` around a step along `S`. -/
structure Brackets (R S : World Hl.State → World Hl.State → Prop) : Prop where
  side : ∀ w w', Side w w' → w'.lib = w.lib → R w w'
  cleanup : ∀ w w', w.lib.info.running = .stop → Side w w' → w'.lib = Hl.cleanup w.lib → R w w'
  session : ∀ w w₁ w₂ w₃ codes, w.lib.info.running = .stop → Side w w₁ →
    w₁.lib = started codes w.lib → S w₁ w₂ → Side w₂ w₃ →
    w₃.lib = (Hl.stopCounters codes.length w₂.lib).2 → R w w₃

variable {H}

/-- A session of `papi.start` and `papi.stop` around a computation. -/
theorem session_moves (hR : Brackets R S) (events : List String) {α β : Type}
    {body : RM Hl.State α} {k : α → Sexp → RM Hl.State β} (hbody : Moves S body)
    (herr : ∀ w c, body.run w ≠ .error c (final (body.run w)))
    (hk : ∀ a r, Moves R (k a r)) :
    Moves R (do
      let _ ← papiStart (Hl.papi H) events
      let a ← body
      let r ← papiStop (Hl.papi H) events
      k a r) := by
  intro w
  obtain ⟨w₁, hside, ⟨c, hr, hl⟩ | ⟨h₀, c, hr, hl⟩ | ⟨h₀, codes, hc, hr, hl⟩⟩ :=
    papiStart_cases H events w
  · rw [bind_of_error hr]
    exact hR.side w w₁ hside hl
  · rw [bind_of_error hr]
    exact hR.cleanup w w₁ h₀ hside hl
  · rw [bind_of_ok hr]
    cases hb : body.run w₁ with
    | error c w₂ =>
      exact absurd (by rw [hb]; rfl) (herr w₁ c)
    | ok a w₂ =>
      rw [bind_of_ok hb]
      obtain ⟨hside₃, hl₃⟩ := papiStop_moves H hc w₂
      have hsess := hR.session w w₁ w₂ _ codes.eraseDups h₀ hside hl (hbody.ok hb) hside₃ hl₃
      cases hs : (papiStop (Hl.papi H) events).run w₂ with
      | error c w₃ =>
        rw [bind_of_error hs]
        rwa [hs] at hsess
      | ok r w₃ =>
        rw [bind_of_ok hs]
        rw [hs] at hsess
        exact IsTrans.trans _ _ _ hsess (hk a r w₃)

/-- A reading of an expression that goes along `S`. -/
theorem eventReading_moves [IsPreorder _ S] (hR : Brackets R S) {expr : Prom Hl.State}
    (he : Moves S (reval expr)) (events : List String) :
    Moves R (eventReading (Hl.papi H) expr events) := by
  refine .bind (availLookup_moves _ _) ?_
  intro _
  refine session_moves hR events (tryIdentity_moves he) (fun w c => tryIdentity_not_error _)
    fun err ret => ?_
  split
  · exact .throw _
  · cases ret <;> first | exact .pure _ | exact .throw _

/-- `system.event` goes along `R` if its burn-in run does and its expression goes along `S`. -/
theorem systemEventFrom_moves [IsPreorder _ S] (hR : Brackets R S)
    {b : RM Hl.State (Option Measurement)} (hb : Moves R b) {expr : Option (Prom Hl.State)}
    (he : Moves S (reval (expr.getD nullProm))) (events : List String) (gcFirst : Bool) :
    Moves R (systemEventFrom (Hl.papi H) b expr events gcFirst) := by
  have hk (_ : Unit) (_ : Sexp) : Moves R (do
      let b ← b
      let ret ← eventReading (Hl.papi H) (expr.getD nullProm) events
      liftR (corrected b ret)) :=
    .bind hb fun b => .bind (eventReading_moves hR he events) fun ret => liftR_moves _
  rw [systemEventFrom_eq]
  exact session_moves hR events (.pure ()) (fun w c h => by cases h) hk

/-- `system.event` with its burn-in run. -/
theorem systemEvent_moves [IsPreorder _ S] (hR : Brackets R S) {expr : Option (Prom Hl.State)}
    (he : Moves S (reval (expr.getD nullProm))) (events : List String) (gcFirst burnin : Bool) :
    Moves R (systemEvent (Hl.papi H) expr events gcFirst burnin) := by
  refine systemEventFrom_moves hR ?_ he events gcFirst
  split
  · exact .map _ (systemEventFrom_moves hR (.pure _) good_null.reval events gcFirst)
  · exact .pure _

end

end PbdPapi.Proof
