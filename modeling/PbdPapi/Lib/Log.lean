import PbdPapi.Lib.Exec

/-!
# Computations that keep a log

`Logging σ τ`: a log of entries in the state, some of which report a success and some of which are
marked. `Emits` is the rule of such computations: where every entry reports a success a run returns,
and adds known marked entries to the log. `Ends` is the same of a computation that may fail for
reasons other than an entry.
-/

set_option autoImplicit false

namespace Exec

/-- A log in the state. -/
structure Logging (σ τ : Type) where
  log : σ → List τ
  /-- The entry reports a success. -/
  good : τ → Prop
  /-- The entry is one of those to count. -/
  mark : τ → Bool

namespace Logging

variable {ε σ τ α β : Type} (L : Logging σ τ)

/-- The log was extended. -/
def Grows (s s' : σ) : Prop := L.log s <+: L.log s'

instance : IsPreorder σ L.Grows where
  refl s := List.prefix_refl (L.log s)
  trans _ _ _ h₁ h₂ := h₁.trans h₂

/-- Every entry reports a success. -/
def Clean (s : σ) : Prop := ∀ e ∈ L.log s, L.good e

/-- The marked entries. -/
def marks (s : σ) : List τ := (L.log s).filter L.mark

variable {L}

theorem Clean.of_grows {s s' : σ} (h : L.Clean s') (hg : L.Grows s s') : L.Clean s :=
  fun e he => h e (hg.subset he)

theorem grows_of_eq {s s' : σ} (h : L.log s' = L.log s) : L.Grows s s' :=
  ⟨[], by rw [List.append_nil, h]⟩

theorem grows_of_append {s s' : σ} {l : List τ} (h : L.log s' = L.log s ++ l) : L.Grows s s' := by
  rw [Grows, h]
  exact List.prefix_append _ _

theorem marks_of_eq {s s' : σ} (h : L.log s' = L.log s) : L.marks s' = L.marks s := by
  rw [marks, h, marks]

theorem marks_of_append {s s' : σ} {e : τ} (h : L.log s' = L.log s ++ [e]) :
    L.marks s' = L.marks s ++ if L.mark e then [e] else [] := by
  rw [marks, h, List.filter_append, marks]
  cases hm : L.mark e <;> simp [hm]

variable (L)

/-- Where `I` holds at first and the log is clean at last, a run of `x` returns a value with `p`,
has `J` at last and has added the marked entries `ms`. -/
structure Emits (I J : σ → Prop) (x : EStateM ε σ α) (ms : List τ) (p : α → Prop) : Prop where
  grows : Moves L.Grows x
  run : ∀ s, I s → L.Clean (final (x.run s)) →
    ∃ a s', x.run s = .ok a s' ∧ p a ∧ J s' ∧ L.marks s' = L.marks s ++ ms

/-- Where `I` holds at first and the log is clean at last, a run of `x` has added the marked entries
`ms`, whether it returns or fails. -/
structure Ends (I : σ → Prop) (x : EStateM ε σ α) (ms : List τ) : Prop where
  grows : Moves L.Grows x
  run : ∀ s, I s → L.Clean (final (x.run s)) →
    L.marks (final (x.run s)) = L.marks s ++ ms

variable {L} {I J K : σ → Prop} {ms ms' : List τ}

namespace Emits

theorem pure {p : α → Prop} {a : α} (ha : p a) : L.Emits I I (pure a : EStateM ε σ α) [] p where
  grows := .pure a
  run s hI _ := ⟨a, s, rfl, ha, hI, (List.append_nil _).symm⟩

/-- A step that leaves the log alone. -/
theorem quiet {x : EStateM ε σ α} {p : α → Prop} (h : ∀ s, I s →
    ∃ a s', x.run s = .ok a s' ∧ p a ∧ J s') (hl : Moves (fun s s' => L.log s' = L.log s) x) :
    L.Emits I J x [] p where
  grows := hl.mono fun _ _ => grows_of_eq
  run s hI _ := by
    obtain ⟨a, s', hx, ha, hJ⟩ := h s hI
    refine ⟨a, s', hx, ha, hJ, ?_⟩
    rw [List.append_nil]
    exact marks_of_eq (hl.ok hx)

theorem mono {x : EStateM ε σ α} {p q : α → Prop} (h : L.Emits I J x ms p)
    (hp : ∀ a, p a → q a) : L.Emits I J x ms q where
  grows := h.grows
  run s hI hc := by
    obtain ⟨a, s', hx, ha, hrest⟩ := h.run s hI hc
    exact ⟨a, s', hx, hp a ha, hrest⟩

theorem bind {x : EStateM ε σ α} {f : α → EStateM ε σ β} {p : α → Prop} {q : β → Prop}
    (hx : L.Emits I J x ms p) (hf : ∀ a, p a → L.Emits J K (f a) ms' q)
    (hg : ∀ a, ¬ p a → Moves L.Grows (f a)) : L.Emits I K (x >>= f) (ms ++ ms') q := by
  have hgrow (a : α) : Moves L.Grows (f a) := by
    by_cases ha : p a
    · exact (hf a ha).grows
    · exact hg a ha
  refine ⟨hx.grows.bind hgrow, fun s hI hc => ?_⟩
  obtain ⟨a, s₁, h, ha, hJ, hm⟩ := hx.run s hI (hc.of_grows (Moves.final_bind hgrow s))
  rw [bind_of_ok h] at hc ⊢
  obtain ⟨b, s₂, hf', hb, hK, hm'⟩ := (hf a ha).run s₁ hJ hc
  exact ⟨b, s₂, hf', hb, hK, by rw [hm', hm, List.append_assoc]⟩

/-- Sequencing where the value does not matter. -/
theorem seq {x : EStateM ε σ α} {f : α → EStateM ε σ β} {p : α → Prop} {q : β → Prop}
    (hx : L.Emits I J x ms p) (hf : ∀ a, L.Emits J K (f a) ms' q) :
    L.Emits I K (x >>= f) (ms ++ ms') q :=
  hx.bind (fun a _ => hf a) fun a _ => (hf a).grows

theorem ite {c : Prop} [Decidable c] {x y : EStateM ε σ α} {p : α → Prop}
    (hx : c → L.Emits I J x ms p) (hy : ¬ c → L.Emits I J y ms p) :
    L.Emits I J (if c then x else y) ms p := by
  split
  · exact hx ‹_›
  · exact hy ‹_›

theorem map {x : EStateM ε σ α} {p : α → Prop} {q : β → Prop} (hx : L.Emits I J x ms p)
    {f : α → β} (hq : ∀ a, p a → q (f a)) : L.Emits I J (f <$> x) ms q where
  grows := hx.grows.map f
  run s hI hc := by
    rw [map_run] at hc ⊢
    have hc₁ : L.Clean (final (x.run s)) := by
      cases h : x.run s <;> rw [h] at hc <;> exact hc
    obtain ⟨a, s', h, ha, hrest⟩ := hx.run s hI hc₁
    rw [h]
    exact ⟨f a, s', rfl, hq a ha, hrest⟩

theorem ends {x : EStateM ε σ α} {p : α → Prop} (hx : L.Emits I J x ms p) : L.Ends I x ms where
  grows := hx.grows
  run s hI hc := by
    obtain ⟨a, s', h, -, -, hm⟩ := hx.run s hI hc
    rw [h]
    exact hm

/-- A computation that may fail after one that does not. -/
theorem bindEnds {x : EStateM ε σ α} {f : α → EStateM ε σ β} {p : α → Prop}
    (hx : L.Emits I J x ms p) (hf : ∀ a, L.Ends J (f a) ms') : L.Ends I (x >>= f) (ms ++ ms') where
  grows := hx.grows.bind fun a => (hf a).grows
  run s hI hc := by
    have hg (a : α) : Moves L.Grows (f a) := (hf a).grows
    obtain ⟨a, s₁, h, -, hJ, hm⟩ := hx.run s hI (hc.of_grows (Moves.final_bind hg s))
    rw [bind_of_ok h] at hc ⊢
    rw [(hf a).run s₁ hJ hc, hm, List.append_assoc]

end Emits

namespace Ends

/-- A step that leaves the log alone. -/
theorem quiet {x : EStateM ε σ α} (hl : Moves (fun s s' => L.log s' = L.log s) x) :
    L.Ends I x [] where
  grows := hl.mono fun _ _ => grows_of_eq
  run s _ _ := by
    rw [List.append_nil]
    exact marks_of_eq (hl s)

/-- What follows a computation leaves the log alone. -/
theorem bindQuiet {x : EStateM ε σ α} {f : α → EStateM ε σ β} (hx : L.Ends I x ms)
    (hf : ∀ a, Moves (fun s s' => L.log s' = L.log s) (f a)) : L.Ends I (x >>= f) ms where
  grows := hx.grows.bind fun a => (hf a).mono fun _ _ => grows_of_eq
  run s hI hc := by
    have : Std.Refl (fun s s' => L.log s' = L.log s) := ⟨fun _ => rfl⟩
    have hl : L.log (final ((x >>= f).run s)) = L.log (final (x.run s)) :=
      Moves.final_bind hf s
    rw [marks_of_eq hl]
    exact hx.run s hI (hc.of_grows (grows_of_eq hl))

theorem map {x : EStateM ε σ α} (hx : L.Ends I x ms) (f : α → β) : L.Ends I (f <$> x) ms := by
  rw [map_eq_pure_bind]
  exact hx.bindQuiet fun _ _ => rfl

/-- A caught computation does not fail. -/
theorem caught {x : EStateM ε σ α} (hx : L.Ends I x ms) :
    L.Emits I (fun _ => True) (Exec.caught x) ms fun _ => True where
  grows := hx.grows.caught
  run s hI hc := by
    rw [caught_run] at hc ⊢
    have hm := hx.run s hI
    cases h : x.run s with
    | ok a s' =>
      rw [h] at hc hm
      exact ⟨_, s', rfl, trivial, trivial, hm hc⟩
    | error e s' =>
      rw [h] at hc hm
      exact ⟨_, s', rfl, trivial, trivial, hm hc⟩

end Ends

end Logging

end Exec
