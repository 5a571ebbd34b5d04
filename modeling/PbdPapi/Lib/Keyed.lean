import Mathlib.Data.List.Induction

/-!
# Tables by key

A table of entries `ε`, one for each of some distinct keys `κ`, possibly with other entries behind
it: `l.map g ++ tail`. Searching it for a key, or changing the first entry that a search finds, is
looking up or changing `g` at that key. `extend` adds the keys of a list that are not there yet.
-/

set_option autoImplicit false

namespace Keyed

variable {κ ε : Type}

/-- Change the first entry with a property. -/
def modifyFirst (p : ε → Bool) (f : ε → ε) : List ε → List ε
  | [] => []
  | x :: l => if p x then f x :: l else x :: modifyFirst p f l

section
variable (p : ε → Bool) {g : κ → ε} {l : List κ} {k : κ}

theorem find?_map_append (hk : k ∈ l) (hp : ∀ x ∈ l, p (g x) ↔ x = k) (tail : List ε) :
    (l.map g ++ tail).find? p = some (g k) := by
  induction l with
  | nil => cases hk
  | cons x l ih =>
    obtain ⟨hx, hl⟩ := List.forall_mem_cons.1 hp
    by_cases h : x = k
    · subst h
      rw [List.map_cons, List.cons_append, List.find?_cons_of_pos (hx.2 rfl)]
    · rw [List.map_cons, List.cons_append, List.find?_cons_of_neg (by simpa using mt hx.1 h)]
      exact ih ((List.mem_cons.1 hk).resolve_left (Ne.symm h)) hl

theorem find?_map (hk : k ∈ l) (hp : ∀ x ∈ l, p (g x) ↔ x = k) :
    (l.map g).find? p = some (g k) := by
  simpa using find?_map_append p hk hp []

theorem modifyFirst_map_append (f : ε → ε) (g' : κ → ε) (hnd : l.Nodup) (hk : k ∈ l)
    (hp : ∀ x ∈ l, p (g x) ↔ x = k) (hg : g' k = f (g k))
    (hg' : ∀ x ∈ l, x ≠ k → g' x = g x) (tail : List ε) :
    modifyFirst p f (l.map g ++ tail) = l.map g' ++ tail := by
  induction l with
  | nil => cases hk
  | cons x l ih =>
    obtain ⟨hx, hl⟩ := List.forall_mem_cons.1 hp
    obtain ⟨hxl, hnd⟩ := List.nodup_cons.1 hnd
    obtain ⟨hgx, hgl⟩ := List.forall_mem_cons.1 hg'
    rw [List.map_cons, List.cons_append, modifyFirst]
    by_cases h : x = k
    · subst h
      have : l.map g' = l.map g :=
        List.map_congr_left fun y hy => hgl y hy fun heq => hxl (heq ▸ hy)
      rw [if_pos (hx.2 rfl), List.map_cons, List.cons_append, hg, this]
    · rw [if_neg (by simpa using mt hx.1 h), List.map_cons, List.cons_append, hgx h,
        ih hnd ((List.mem_cons.1 hk).resolve_left (Ne.symm h)) hl hgl]

theorem modifyFirst_map (f : ε → ε) (g' : κ → ε) (hnd : l.Nodup) (hk : k ∈ l)
    (hp : ∀ x ∈ l, p (g x) ↔ x = k) (hg : g' k = f (g k))
    (hg' : ∀ x ∈ l, x ≠ k → g' x = g x) :
    modifyFirst p f (l.map g) = l.map g' := by
  simpa using modifyFirst_map_append p f g' hnd hk hp hg hg' []

end

/-- A property that is lost at one key. -/
theorem countP_eq_add_one (q q' : κ → Bool) {l : List κ} {k : κ} (hnd : l.Nodup) (hk : k ∈ l)
    (hq : q k = true) (hq' : q' k = false) (h : ∀ x ∈ l, x ≠ k → q x = q' x) :
    l.countP q = l.countP q' + 1 := by
  induction l with
  | nil => cases hk
  | cons x l ih =>
    obtain ⟨hxl, hnd⟩ := List.nodup_cons.1 hnd
    obtain ⟨hx, hl⟩ := List.forall_mem_cons.1 h
    by_cases heq : x = k
    · subst heq
      have : l.countP q = l.countP q' := List.countP_congr fun y hy => by
        rw [hl y hy fun heq => hxl (heq ▸ hy)]
      rw [List.countP_cons_of_pos hq, List.countP_cons_of_neg (by simp [hq']), this]
    · have ih := ih hnd ((List.mem_cons.1 hk).resolve_left (Ne.symm heq)) hl
      rw [List.countP_cons, List.countP_cons, ih, hx heq]
      omega

section
variable [DecidableEq κ]

/-- Entries that are changed by their positions. -/
theorem mapIdx_map {ε' : Type} {l : List κ} (hnd : l.Nodup) (g : κ → ε) (f : Nat → ε → ε') :
    (l.map g).mapIdx f = l.map fun k => f (l.idxOf k) (g k) := by
  refine List.ext_getElem (by simp) fun i h₁ h₂ => ?_
  have hi : i < l.length := by simpa using h₁
  simp [hnd.idxOf_getElem i hi]

/-! ## New keys -/

def extend (ks cs : List κ) : List κ := cs.foldl (fun ks c => if c ∈ ks then ks else ks ++ [c]) ks

@[simp] theorem extend_nil (ks : List κ) : extend ks [] = ks := rfl

theorem extend_append (ks cs cs' : List κ) : extend ks (cs ++ cs') = extend (extend ks cs) cs' :=
  List.foldl_append ..

theorem extend_singleton (ks : List κ) (c : κ) :
    extend ks [c] = if c ∈ ks then ks else ks ++ [c] := rfl

theorem mem_extend {ks cs : List κ} {c : κ} : c ∈ extend ks cs ↔ c ∈ ks ∨ c ∈ cs := by
  induction cs using List.reverseRecOn with
  | nil => simp
  | append_singleton cs c' ih =>
    rw [extend_append, extend_singleton]
    split
    · next h =>
      rw [ih, List.mem_append, List.mem_singleton]
      constructor
      · tauto
      · rintro (hc | hc | rfl)
        · exact .inl hc
        · exact .inr hc
        · exact ih.1 h
    · rw [List.mem_append, ih, List.mem_append, or_assoc]

theorem nodup_extend {ks : List κ} (h : ks.Nodup) (cs : List κ) : (extend ks cs).Nodup := by
  induction cs using List.reverseRecOn with
  | nil => exact h
  | append_singleton cs c ih =>
    rw [extend_append, extend_singleton]
    split
    · exact ih
    · next hc => exact List.nodup_append.2 ⟨ih, List.pairwise_singleton _ c, by
        rintro a ha b hb rfl
        exact hc (List.mem_singleton.1 hb ▸ ha)⟩

theorem exists_extend (ks cs : List κ) : ∃ new, extend ks cs = ks ++ new := by
  induction cs using List.reverseRecOn with
  | nil => exact ⟨[], by simp⟩
  | append_singleton cs c ih =>
    obtain ⟨new, h⟩ := ih
    rw [extend_append, extend_singleton, h]
    split
    · exact ⟨new, rfl⟩
    · exact ⟨new ++ [c], List.append_assoc ..⟩

end

end Keyed
