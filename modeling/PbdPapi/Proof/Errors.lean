import PbdPapi.Proof.Burnin

/-!
# Errors of measured expressions

`system.event` catches every error of its expression, stops the counters, and raises the error
again if what it caught inherits from `"simpleError"`; what the expression returned is put to the
same test. `systemEvent_transparent`: for which outcomes of the expression this raises what the
expression raised, and nothing else.
-/

set_option autoImplicit false

namespace PbdPapi.Proof

open Exec C Api

section
variable {σ : Type} (P : Papi σ)

/-! ## Around the expression -/

/-- `system.event` up to its expression; the result is the baseline. -/
def opening (events : List String) (burnin : Bool) : RM σ (Option Measurement) := do
  warmUp P events
  let b ← baseline (warmUp P events) (fun e => eventReading P e events) burnin
  availLookup events none
  let _ ← papiStart P events
  return b

theorem systemEvent_opening (expr : Option (Prom σ)) (events : List String)
    (gcFirst burnin : Bool) :
    systemEvent P expr events gcFirst burnin = (do
      let b ← opening P events burnin
      let err ← tryIdentity (reval (expr.getD nullProm))
      let ret ← papiStop P events
      (if err.inherits "simpleError" then throw (stopCond err) else asList ret) >>= fun r =>
        liftR (corrected b r)) := by
  rw [systemEvent_measured]
  simp only [measured, opening, eventReading, bind_assoc, pure_bind]

/-- The library calls around the expression succeed: `system.event` called in `w` evaluates its
expression in `w₁`, and stops the counters in the state that this leaves, with the values `v` after
the correction. -/
structure Around (expr : Prom σ) (events : List String) (burnin : Bool) (w w₁ w₂ : World σ)
    (v : Measurement) : Prop where
  run : ∃ b r, (opening P events burnin).run w = .ok b w₁ ∧
    (papiStop P events).run (final ((reval expr).run w₁)) = .ok (.list r) w₂ ∧
    corrected b r = .ok v

/-! ## The outcome of the expression -/

/-- What `tryCatch(eval(expr), error=identity)` gives in `w`. -/
def caughtObj (expr : Prom σ) (w : World σ) : Obj :=
  match (reval expr).run w with
  | .ok o _ => o
  | .error c _ => c.obj

theorem tryIdentity_run (expr : Prom σ) (w : World σ) :
    (tryIdentity (reval expr)).run w = .ok (caughtObj expr w) (final ((reval expr).run w)) := by
  unfold caughtObj
  cases h : (reval expr).run w with
  | ok o w₁ => exact tryIdentity_ok.2 (.inl h)
  | error c w₁ => exact tryIdentity_ok.2 (.inr ⟨c, rfl, h⟩)

/-- Whatever was caught decides between the error and the measurement. -/
theorem systemEvent_around (expr : Option (Prom σ)) {events : List String} {burnin : Bool}
    {w w₁ w₂ : World σ} {v : Measurement}
    (h : Around P (expr.getD nullProm) events burnin w w₁ w₂ v) (gcFirst : Bool) :
    (systemEvent P expr events gcFirst burnin).run w =
      if (caughtObj (expr.getD nullProm) w₁).inherits "simpleError" then
        .error (stopCond (caughtObj (expr.getD nullProm) w₁)) w₂
      else .ok v w₂ := by
  obtain ⟨b, r, ho, hs, hc⟩ := h.run
  rw [systemEvent_opening, bind_of_ok ho, bind_of_ok (tryIdentity_run _ _), bind_of_ok hs]
  split
  · exact bind_of_error rfl
  · have hl : (liftR (corrected b r)).run w₂ = .ok v w₂ := by rw [hc, liftR_ok]
    exact (bind_of_ok rfl).trans hl

/-- The expression, evaluated in `w`, raises `c`. -/
def Raises (expr : Prom σ) (w : World σ) (c : RError) : Prop :=
  ∃ w', EStateM.run expr w = .error c w'

/-- `system.event` raises the errors of its expression, which is evaluated in `w₁`, and no
others. -/
def Transparent (expr : Option (Prom σ)) (events : List String) (gcFirst burnin : Bool)
    (w w₁ : World σ) : Prop :=
  ∀ c, (∃ w', (systemEvent P expr events gcFirst burnin).run w = .error c w') ↔
    Raises (expr.getD nullProm) w₁ c

/-- The condition: an error that the expression raises inherits from `"simpleError"`, and a value
does not; `eval` evaluates a language object that the expression returns, and then what this
returns or raises does not. -/
def Told (expr : Prom σ) (w : World σ) : Prop :=
  match EStateM.run expr w with
  | .error c _ => c.obj.inherits "simpleError" = true
  | .ok (.obj o) _ => o.inherits "simpleError" = false
  | .ok (.lang code) w' =>
    match code.run w' with
    | .ok o _ => o.inherits "simpleError" = false
    | .error c _ => c.obj.inherits "simpleError" = false

/-! ## The result -/

theorem caughtObj_error {expr : Prom σ} {w w' : World σ} {c : RError}
    (h : EStateM.run expr w = .error c w') : caughtObj expr w = c.obj := by
  have hr : (reval expr).run w = .error c w' := bind_of_error h
  simp only [caughtObj, hr]

theorem caughtObj_obj {expr : Prom σ} {w w' : World σ} {o : Obj}
    (h : EStateM.run expr w = .ok (.obj o) w') : caughtObj expr w = o := by
  have hr : (reval expr).run w = .ok o w' := bind_of_ok h
  simp only [caughtObj, hr]

theorem caughtObj_lang {expr : Prom σ} {w w' : World σ} {code : RM σ Obj}
    (h : EStateM.run expr w = .ok (.lang code) w') :
    caughtObj expr w = match code.run w' with
      | .ok o _ => o
      | .error c _ => c.obj := by
  have hr : (reval expr).run w = code.run w' := bind_of_ok h
  simp only [caughtObj, hr]

/-- For an expression that raises `c`. -/
theorem transparent_raises {x : EStateM.Result RError (World σ) Measurement} {expr : Prom σ}
    {w₁ w₂ w' : World σ} {v : Measurement} {c : RError}
    (he : EStateM.run expr w₁ = .error c w')
    (hx : x = if c.obj.inherits "simpleError" then .error (stopCond c.obj) w₂ else .ok v w₂) :
    (∀ c', (∃ w', x = .error c' w') ↔ Raises expr w₁ c') ↔
      c.obj.inherits "simpleError" = true := by
  have hc (c' : RError) : Raises expr w₁ c' ↔ c' = c := by
    simp [Raises, he, eq_comm]
  cases hi : c.obj.inherits "simpleError" with
  | true =>
    rw [hi, if_pos rfl, stopCond_obj] at hx
    refine iff_of_true (fun c' => ?_) rfl
    rw [hc, hx]
    simp [eq_comm]
  | false =>
    rw [hi, if_neg (by decide)] at hx
    refine iff_of_false (fun h => ?_) (by decide)
    obtain ⟨w', hw⟩ := (h c).2 ((hc c).2 rfl)
    rw [hx] at hw
    cases hw

/-- For an expression that raises nothing; `o` is the object that the class test sees. -/
theorem transparent_returns {x : EStateM.Result RError (World σ) Measurement} {expr : Prom σ}
    {w₁ w₂ w' : World σ} {v : Measurement} {a : Val σ} {o : Obj}
    (he : EStateM.run expr w₁ = .ok a w')
    (hx : x = if o.inherits "simpleError" then .error (stopCond o) w₂ else .ok v w₂) :
    (∀ c', (∃ w', x = .error c' w') ↔ Raises expr w₁ c') ↔ o.inherits "simpleError" = false := by
  have hc (c' : RError) : ¬ Raises expr w₁ c' := by simp [Raises, he]
  cases hi : o.inherits "simpleError" with
  | true =>
    rw [hi, if_pos rfl] at hx
    exact iff_of_false (fun h => hc _ ((h _).1 ⟨w₂, hx⟩)) (by decide)
  | false =>
    rw [hi, if_neg (by decide)] at hx
    refine iff_of_true (fun c' => iff_of_false ?_ (hc c')) rfl
    rintro ⟨w', hw⟩
    rw [hx] at hw
    cases hw

/-- `system.event` is transparent exactly if the class of what it caught tells an error that its
expression raised from everything else. -/
theorem systemEvent_transparent (expr : Option (Prom σ)) {events : List String}
    {gcFirst burnin : Bool} {w w₁ w₂ : World σ} {v : Measurement}
    (h : Around P (expr.getD nullProm) events burnin w w₁ w₂ v) :
    Transparent P expr events gcFirst burnin w w₁ ↔ Told (expr.getD nullProm) w₁ := by
  have hx := systemEvent_around P expr h gcFirst
  unfold Transparent Told
  cases he : EStateM.run (expr.getD nullProm) w₁ with
  | error c w' =>
    rw [caughtObj_error he] at hx
    exact transparent_raises he hx
  | ok a w' =>
    refine (transparent_returns he hx).trans ?_
    cases a with
    | obj o => rw [caughtObj_obj he]
    | lang code =>
      rw [caughtObj_lang he]
      dsimp only
      cases code.run w' <;> exact Iff.rfl

end

/-! ## An error of another class -/

/-- The condition that `library()` signals for a package that is not installed. -/
def packageNotFound : RError :=
  ⟨⟨["packageNotFoundError", "error", "condition"], "there is no package called 'p'"⟩,
    by decide, by decide⟩

/-- `library(p)` -/
def libraryProm : Prom Nat := (throw packageNotFound : RM Nat (Val Nat))

theorem steady_around : ∃ w₁ w₂,
    Around steady libraryProm (eventsOf .cpuormem) false steadyWorld w₁ w₂
      [("", 5), ("", 5)] := by
  obtain ⟨w₁, hw, ha⟩ := steady_warm steadyWorld
  obtain ⟨w₂, hs, -⟩ := steady_start w₁
  obtain ⟨w₃, hp, -⟩ := steady_stop w₂
  refine ⟨w₂, w₃, ⟨none, _, ?_, hp, rfl⟩⟩
  unfold opening
  rw [bind_of_ok hw, bind_of_ok (baseline_false w₁), bind_of_ok (steady_avail ha), bind_of_ok hs]
  rfl

theorem systemEvent_transparent_steady : ∃ w₁,
    Transparent steady (some libraryProm) (eventsOf .cpuormem) true false steadyWorld w₁ ↔
      Told libraryProm w₁ := by
  obtain ⟨w₁, w₂, h⟩ := steady_around
  exact ⟨w₁, systemEvent_transparent steady (some libraryProm) h⟩

/-- `system.event(library(p), events, burnin=FALSE)` reports a measurement. -/
theorem libraryProm_swallowed : ∃ w₁ w₂,
    Around steady libraryProm (eventsOf .cpuormem) false steadyWorld w₁ w₂ [("", 5), ("", 5)] ∧
      Raises libraryProm w₁ packageNotFound ∧
      (systemEvent steady (some libraryProm) (eventsOf .cpuormem) true false).run steadyWorld =
        .ok [("", 5), ("", 5)] w₂ ∧
      ¬ Transparent steady (some libraryProm) (eventsOf .cpuormem) true false steadyWorld w₁ := by
  obtain ⟨w₁, w₂, h⟩ := steady_around
  have hr : Raises libraryProm w₁ packageNotFound := ⟨w₁, rfl⟩
  have hx := systemEvent_around steady (some libraryProm) h true
  have hc : caughtObj libraryProm w₁ = packageNotFound.obj := caughtObj_error rfl
  rw [Option.getD_some, hc, if_neg (by decide)] at hx
  refine ⟨w₁, w₂, h, hr, hx, fun ht => ?_⟩
  obtain ⟨w', hw⟩ := (ht packageNotFound).2 hr
  rw [hx] at hw
  cases hw

end PbdPapi.Proof
