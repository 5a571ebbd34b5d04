import Mathlib.Order.Defs.Unbundled

/-!
# Stateful computations that may fail

`EStateM ε σ α`: a computation on the state `σ` that returns an `α` or fails with an `ε`, keeping
the state it had reached. Three ways to reason about one:

* inversion (`bind_ok`, `bind_error`, `caught_ok`): what the parts of a computation did, read off
  its result;
* `Moves R x`: every run of `x`, returning or failing, goes from its first to its last state along
  the preorder `R`. Sequencing, branching and handlers keep it, so a frame condition of a long
  computation follows from those of its primitive steps;
* `Alike R`: two runs that return the same value or fail with the same failure, in states related
  by `R`.
-/

set_option autoImplicit false

namespace Exec

variable {ε σ α β : Type}

/-- The state in which a run ends. -/
def final : EStateM.Result ε σ α → σ
  | .ok _ s => s
  | .error _ s => s

@[simp] theorem final_ok (a : α) (s : σ) : final (.ok a s : EStateM.Result ε σ α) = s := rfl
@[simp] theorem final_error (e : ε) (s : σ) :
    final (.error e s : EStateM.Result ε σ α) = s := rfl

/-! ## Inversion -/

theorem bind_ok {x : EStateM ε σ α} {f : α → EStateM ε σ β} {s s' : σ} {b : β} :
    (x >>= f).run s = .ok b s' ↔ ∃ a s₁, x.run s = .ok a s₁ ∧ (f a).run s₁ = .ok b s' := by
  rw [EStateM.run_bind]
  cases x.run s with
  | ok a s₁ => simp [and_assoc]
  | error e s₁ => simp

theorem bind_error {x : EStateM ε σ α} {f : α → EStateM ε σ β} {s s' : σ} {e : ε} :
    (x >>= f).run s = .error e s' ↔
      x.run s = .error e s' ∨ ∃ a s₁, x.run s = .ok a s₁ ∧ (f a).run s₁ = .error e s' := by
  rw [EStateM.run_bind]
  cases x.run s with
  | ok a s₁ => simp [and_assoc]
  | error e' s₁ => simp

theorem bind_of_ok {x : EStateM ε σ α} {f : α → EStateM ε σ β} {s s₁ : σ} {a : α}
    (h : x.run s = .ok a s₁) : (x >>= f).run s = (f a).run s₁ := by
  rw [EStateM.run_bind, h]

theorem bind_of_error {x : EStateM ε σ α} {f : α → EStateM ε σ β} {s s₁ : σ} {e : ε}
    (h : x.run s = .error e s₁) : (x >>= f).run s = .error e s₁ := by
  rw [EStateM.run_bind, h]

@[simp] theorem map_run (f : α → β) (x : EStateM ε σ α) (s : σ) :
    (f <$> x).run s = match x.run s with
      | .ok a s' => .ok (f a) s'
      | .error e s' => .error e s' := rfl

theorem map_ok {f : α → β} {x : EStateM ε σ α} {s s' : σ} {b : β} :
    (f <$> x).run s = .ok b s' ↔ ∃ a, x.run s = .ok a s' ∧ f a = b := by
  rw [map_run]
  cases x.run s with
  | ok a s₁ =>
    constructor
    · intro h
      cases h
      exact ⟨a, rfl, rfl⟩
    · rintro ⟨_, h, rfl⟩
      cases h
      rfl
  | error e s₁ => simp

theorem except_bind_ok {x : Except ε α} {f : α → Except ε β} {b : β} :
    x >>= f = .ok b ↔ ∃ a, x = .ok a ∧ f a = .ok b := by
  cases x with
  | ok a =>
    constructor
    · intro h
      exact ⟨a, rfl, h⟩
    · rintro ⟨_, h, hb⟩
      cases h
      exact hb
  | error e =>
    constructor
    · intro h
      cases h
    · rintro ⟨_, h, -⟩
      cases h

/-! ## Evaluation -/

/-- The run of `x` from `s` returns `a`. -/
def returns [DecidableEq α] (x : EStateM ε σ α) (s : σ) (a : α) : Bool :=
  match x.run s with
  | .ok a' _ => decide (a' = a)
  | .error _ _ => false

theorem exists_of_returns [DecidableEq α] {x : EStateM ε σ α} {s : σ} {a : α}
    (h : returns x s a = true) : ∃ s', x.run s = .ok a s' := by
  unfold returns at h
  cases hx : x.run s with
  | ok a' s' =>
    rw [hx] at h
    exact ⟨s', by rw [of_decide_eq_true h]⟩
  | error e s' =>
    rw [hx] at h
    cases h

/-- A run that returned is known from its evaluation. -/
theorem eq_of_returns [DecidableEq α] {x : EStateM ε σ α} {s s' : σ} {a a' : α}
    (hx : x.run s = .ok a' s') (h : returns x s a = true) : a' = a ∧ s' = final (x.run s) := by
  obtain ⟨s₁, hx'⟩ := exists_of_returns h
  rw [hx] at hx'
  cases hx'
  rw [hx]
  exact ⟨rfl, rfl⟩

/-! ## Handlers -/

/-- Run `x`; a failure becomes a value. -/
def caught (x : EStateM ε σ α) : EStateM ε σ (Except ε α) := fun s =>
  match x.run s with
  | .ok a s' => .ok (.ok a) s'
  | .error e s' => .ok (.error e) s'

theorem caught_run (x : EStateM ε σ α) (s : σ) :
    (caught x).run s = match x.run s with
      | .ok a s' => .ok (.ok a) s'
      | .error e s' => .ok (.error e) s' := rfl

theorem caught_ok {x : EStateM ε σ α} {s s' : σ} {r : Except ε α} :
    (caught x).run s = .ok r s' ↔
      (∃ a, r = .ok a ∧ x.run s = .ok a s') ∨ ∃ e, r = .error e ∧ x.run s = .error e s' := by
  rw [caught_run]
  cases x.run s with
  | ok a s₁ => simp [and_left_comm, eq_comm]
  | error e s₁ => simp [and_left_comm, eq_comm]

/-- A caught computation does not fail. -/
theorem caught_not_error (x : EStateM ε σ α) {s s' : σ} {e : ε} :
    (caught x).run s ≠ .error e s' := by
  rw [caught_run]
  cases x.run s <;> simp

/-! ## Frame conditions -/

/-- Every run of `x` goes from its first to its last state along `R`. -/
def Moves (R : σ → σ → Prop) (x : EStateM ε σ α) : Prop := ∀ s, R s (final (x.run s))

namespace Moves

variable {R : σ → σ → Prop}

theorem ok {x : EStateM ε σ α} (h : Moves R x) {s s' : σ} {a : α} (hx : x.run s = .ok a s') :
    R s s' := by
  have := h s
  rwa [hx] at this

theorem error {x : EStateM ε σ α} (h : Moves R x) {s s' : σ} {e : ε}
    (hx : x.run s = .error e s') : R s s' := by
  have := h s
  rwa [hx] at this

theorem pure [Std.Refl R] (a : α) : Moves R (pure a : EStateM ε σ α) := fun s => refl (r := R) s

theorem throw [Std.Refl R] (e : ε) : Moves R (throw e : EStateM ε σ α) := fun s => refl (r := R) s

theorem bind [IsTrans σ R] {x : EStateM ε σ α} {f : α → EStateM ε σ β} (hx : Moves R x)
    (hf : ∀ a, Moves R (f a)) : Moves R (x >>= f) := by
  intro s
  cases h : x.run s with
  | ok a s₁ =>
    rw [bind_of_ok h]
    exact IsTrans.trans _ _ _ (hx.ok h) (hf a s₁)
  | error e s₁ =>
    rw [bind_of_error h]
    exact hx.error h

/-- What follows `x` goes on from where `x` ended. -/
theorem final_bind [Std.Refl R] {x : EStateM ε σ α} {f : α → EStateM ε σ β}
    (hf : ∀ a, Moves R (f a)) (s : σ) : R (final (x.run s)) (final ((x >>= f).run s)) := by
  cases h : x.run s with
  | ok a s₁ =>
    rw [bind_of_ok h]
    exact hf a s₁
  | error e s₁ =>
    rw [bind_of_error h]
    exact refl (r := R) s₁

theorem map [IsPreorder σ R] {x : EStateM ε σ α} (f : α → β) (hx : Moves R x) :
    Moves R (f <$> x) := by
  rw [map_eq_pure_bind]
  exact hx.bind fun a => .pure _

theorem caught {x : EStateM ε σ α} (hx : Moves R x) : Moves R (caught x) := by
  intro s
  have := hx s
  rw [caught_run]
  cases h : x.run s <;> simpa [h] using this

theorem get [Std.Refl R] : Moves R (get : EStateM ε σ σ) := fun s => refl (r := R) s

theorem modifyGet {f : σ → α × σ} (h : ∀ s, R s (f s).2) :
    Moves R (modifyGet f : EStateM ε σ α) := h

theorem modify {f : σ → σ} (h : ∀ s, R s (f s)) : Moves R (modify f : EStateM ε σ PUnit) := h

theorem mono {R' : σ → σ → Prop} {x : EStateM ε σ α} (h : Moves R x)
    (hR : ∀ s s', R s s' → R' s s') : Moves R' x := fun s => hR _ _ (h s)

end Moves

/-! ## Two runs -/

/-- Two runs end alike: with the same value or the same failure, in states related by `R`. -/
def Alike (R : σ → σ → Prop) : EStateM.Result ε σ α → EStateM.Result ε σ α → Prop
  | .ok a s, .ok a' s' => a = a' ∧ R s s'
  | .error e s, .error e' s' => e = e' ∧ R s s'
  | _, _ => False

/-- Two runs that end alike go on alike, if what follows does so from related states. -/
theorem Alike.bind {R : σ → σ → Prop} {x : EStateM ε σ α} {f : α → EStateM ε σ β} {s s' : σ}
    (hx : Alike R (x.run s) (x.run s'))
    (hf : ∀ a s₁ s₁', R s₁ s₁' → Alike R ((f a).run s₁) ((f a).run s₁')) :
    Alike R ((x >>= f).run s) ((x >>= f).run s') := by
  cases h : x.run s with
  | ok a s₁ =>
    cases h' : x.run s' with
    | ok a' s₁' =>
      rw [h, h'] at hx
      obtain ⟨rfl, hR⟩ := hx
      rw [bind_of_ok h, bind_of_ok h']
      exact hf a s₁ s₁' hR
    | error e' s₁' =>
      rw [h, h'] at hx
      exact hx.elim
  | error e s₁ =>
    cases h' : x.run s' with
    | ok a' s₁' =>
      rw [h, h'] at hx
      exact hx.elim
    | error e' s₁' =>
      rw [h, h'] at hx
      rw [bind_of_error h, bind_of_error h']
      exact hx

/-- A preorder on a part of the state. -/
instance partPreorder {γ : Type} (R : γ → γ → Prop) [IsPreorder γ R] (f : σ → γ) :
    IsPreorder σ (InvImage R f) where
  refl s := refl (r := R) (f s)
  trans _ _ _ := IsTrans.trans (r := R) _ _ _

end Exec
