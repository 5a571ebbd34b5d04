import PbdPapi.Lib.Exec
import Mathlib.Data.List.ProdSigma

/-!
# Loops that write what they compute

A loop whose passes each compute a value, with effects, and write it under a key: it is the
computations in turn (`List.mapM`) and then the writes in turn (`foldlM_run`), and where the keys
are distinct and fit the table each key has its own value in the end (`Writes.run`).
-/

set_option autoImplicit false

namespace Loop

open Exec

/-! ## Computing, then writing -/

section
variable {ε σ κ α γ : Type}

/-- A pure step in a computation. -/
def lift (x : Except ε γ) : EStateM ε σ γ :=
  match x with
  | .ok a => pure a
  | .error e => throw e

theorem lift_ok {x : Except ε γ} {s s' : σ} {a : γ} :
    (lift x).run s = .ok a s' ↔ x = .ok a ∧ s' = s := by
  cases x with
  | ok a' =>
    constructor
    · intro h
      cases h
      exact ⟨rfl, rfl⟩
    · rintro ⟨h, rfl⟩
      cases h
      rfl
  | error e =>
    constructor
    · intro h
      cases h
    · rintro ⟨h, -⟩
      cases h

/-- A loop of loops is one loop over the pairs. -/
theorem foldlM_nested {m : Type → Type} [Monad m] [LawfulMonad m] {β : Type} (is : List κ)
    (js : List β) (f : γ → κ × β → m γ) (s : γ) :
    is.foldlM (fun s i => js.foldlM (fun s j => f s (i, j)) s) s =
      (is ×ˢ js).foldlM f s := by
  induction is generalizing s with
  | nil => rfl
  | cons i is ih =>
    rw [List.foldlM_cons, List.product_cons, List.foldlM_append, List.foldlM_map]
    exact bind_congr fun s' => ih s'

/-- Each computation of a run in turn ran. -/
theorem mapM_mem {ks : List κ} {compute : κ → EStateM ε σ α} {f : κ → α} {s s' : σ}
    (h : (ks.mapM compute).run s = .ok (ks.map f) s') {k : κ} (hk : k ∈ ks) :
    ∃ s₁ s₂, (compute k).run s₁ = .ok (f k) s₂ := by
  induction ks generalizing s with
  | nil => cases hk
  | cons k' ks ih =>
    rw [List.mapM_cons] at h
    obtain ⟨a, s₁, ha, h⟩ := bind_ok.1 h
    obtain ⟨as, s₂, has, h⟩ := bind_ok.1 h
    cases h
    rcases List.mem_cons.1 hk with rfl | hk
    · exact ⟨s, s₁, ha⟩
    · exact ih has hk

/-- Once its computations have run, with the result `f k` for the key `k`, what is left of a loop is
its writes. -/
theorem foldlM_run {ks : List κ} {compute : κ → EStateM ε σ α} {f : κ → α}
    {write : γ → κ → α → Except ε γ} {t t' : γ} {s s' : σ}
    (hc : (ks.mapM compute).run s = .ok (ks.map f) s')
    (hw : ks.foldlM (fun t k => write t k (f k)) t = .ok t') :
    (ks.foldlM (fun t k => do
      let a ← compute k
      lift (write t k a)) t).run s = .ok t' s' := by
  induction ks generalizing t s with
  | nil =>
    cases hc
    cases hw
    rfl
  | cons k ks ih =>
    rw [List.mapM_cons] at hc
    obtain ⟨a, s₁, ha, hc⟩ := bind_ok.1 hc
    obtain ⟨as, s₂, has, hc⟩ := bind_ok.1 hc
    cases hc
    rw [List.foldlM_cons] at hw
    obtain ⟨t₁, hwrite, hrest⟩ := except_bind_ok.1 hw
    have hpass : (do
        let a ← compute k
        lift (write t k a) : EStateM ε σ γ).run s = .ok t₁ s₁ :=
      bind_ok.2 ⟨f k, s₁, ha, lift_ok.2 ⟨hwrite, rfl⟩⟩
    rw [List.foldlM_cons, bind_of_ok hpass]
    exact ih has hrest

end

/-! ## Distinct keys -/

/-- `write` puts `val x k a` under the key `k` of a table of shape `x`, and touches no other key. -/
structure Writes {ε κ α γ χ ω : Type} (write : γ → κ → α → Except ε γ) (get : γ → κ → Option ω)
    (shape : γ → χ) (val : χ → κ → α → ω) : Prop where
  keeps : ∀ {t k a t'}, write t k a = .ok t' → shape t' = shape t
  self : ∀ {t k a t'}, write t k a = .ok t' → get t' k = some (val (shape t) k a)
  other : ∀ {t k a t' k'}, write t k a = .ok t' → k' ≠ k → get t' k' = get t k'

namespace Writes

variable {ε κ α γ χ ω : Type} {write : γ → κ → α → Except ε γ} {get : γ → κ → Option ω}
  {shape : γ → χ} {val : χ → κ → α → ω}

/-- Writes that fit every table of the first one's shape return; under distinct keys each of them
then has what was written under it, and the others have what they had. -/
theorem fold (h : Writes write get shape val) {ks : List κ} (hn : ks.Nodup) {f : κ → α} {t : γ}
    (hfit : ∀ k ∈ ks, ∀ u, shape u = shape t → ∃ u', write u k (f k) = .ok u') :
    ∃ t', ks.foldlM (fun t k => write t k (f k)) t = .ok t' ∧ shape t' = shape t ∧
      (∀ k ∈ ks, get t' k = some (val (shape t) k (f k))) ∧ ∀ k ∉ ks, get t' k = get t k := by
  induction ks generalizing t with
  | nil => exact ⟨t, rfl, rfl, fun k hk => (List.not_mem_nil hk).elim, fun k _ => rfl⟩
  | cons k ks ih =>
    rw [List.nodup_cons] at hn
    obtain ⟨t₁, hw⟩ := hfit k List.mem_cons_self t rfl
    have hshape₁ : shape t₁ = shape t := h.keeps hw
    obtain ⟨t', hf, hshape, hin, hout⟩ := ih (t := t₁) hn.2 fun k' hk' u hu =>
      hfit k' (List.mem_cons_of_mem k hk') u (hu.trans hshape₁)
    refine ⟨t', ?_, hshape.trans hshape₁, fun k' hk' => ?_, fun k' hk' => ?_⟩
    · rw [List.foldlM_cons]
      exact except_bind_ok.2 ⟨t₁, hw, hf⟩
    · rcases List.mem_cons.1 hk' with rfl | hk'
      · rw [hout _ hn.1, h.self hw]
      · rw [hin k' hk', hshape₁]
    · rw [List.mem_cons, not_or] at hk'
      rw [hout k' hk'.2, h.other hw hk'.1]

/-- A loop over distinct keys whose computations have run. -/
theorem run (h : Writes write get shape val) {σ : Type} {ks : List κ} (hn : ks.Nodup)
    {compute : κ → EStateM ε σ α} {f : κ → α} {t : γ} {s s' : σ}
    (hc : (ks.mapM compute).run s = .ok (ks.map f) s')
    (hfit : ∀ k ∈ ks, ∀ u, shape u = shape t → ∃ u', write u k (f k) = .ok u') :
    ∃ t', (ks.foldlM (fun t k => do
      let a ← compute k
      lift (write t k a)) t).run s = .ok t' s' ∧ shape t' = shape t ∧
      ∀ k ∈ ks, get t' k = some (val (shape t) k (f k)) := by
  obtain ⟨t', hf, hshape, hin, -⟩ := h.fold hn hfit
  exact ⟨t', foldlM_run hc hf, hshape, hin⟩

end Writes

end Loop
