import Mathlib.Data.List.Nodup

/-!
# Removing repetitions

`List.eraseDups` keeps the first occurrence of every element: the result has no repetition, the
same elements, and commutes with injective maps.
-/

set_option autoImplicit false

namespace List

theorem length_filter_lt {α : Type} (p : α → Bool) (a : α) (l : List α) :
    (l.filter p).length < (a :: l).length := Nat.lt_succ_of_le (length_filter_le p l)

variable {α β : Type} [DecidableEq α] [DecidableEq β]

theorem nodup_eraseDups : ∀ l : List α, l.eraseDups.Nodup
  | [] => nodup_nil
  | a :: l => by
    rw [eraseDups_cons, nodup_cons]
    exact ⟨by simp [mem_eraseDups], nodup_eraseDups _⟩
termination_by l => l.length
decreasing_by exact length_filter_lt _ _ _

theorem eraseDups_of_nodup : ∀ {l : List α}, l.Nodup → l.eraseDups = l
  | [], _ => rfl
  | a :: l, h => by
    obtain ⟨ha, hl⟩ := nodup_cons.1 h
    have hf : l.filter (fun b => !b == a) = l :=
      filter_eq_self.2 fun b hb => by simpa using fun he : b = a => ha (he ▸ hb)
    rw [eraseDups_cons, hf, eraseDups_of_nodup hl]

theorem eraseDups_sublist : ∀ l : List α, l.eraseDups.Sublist l
  | [] => by simp
  | a :: l => by
    rw [eraseDups_cons]
    exact ((eraseDups_sublist _).trans filter_sublist).cons_cons a
termination_by l => l.length
decreasing_by exact length_filter_lt _ _ _

theorem eraseDups_eq_self_of_length {l : List α} (h : l.eraseDups.length = l.length) :
    l.eraseDups = l := (eraseDups_sublist l).eq_of_length h

@[simp] theorem eraseDups_idem (l : List α) : l.eraseDups.eraseDups = l.eraseDups :=
  eraseDups_of_nodup (nodup_eraseDups l)

@[simp] theorem eraseDups_eq_nil {l : List α} : l.eraseDups = [] ↔ l = [] := by
  cases l with
  | nil => simp
  | cons a l => simp [eraseDups_cons]

/-- An injective map commutes with removing repetitions. -/
theorem eraseDups_map {f : α → β} : ∀ {l : List α}, (∀ a ∈ l, ∀ b ∈ l, f a = f b → a = b) →
    (l.map f).eraseDups = l.eraseDups.map f
  | [], _ => rfl
  | a :: l, h => by
    have hf : (l.map f).filter (fun b => !b == f a) = (l.filter fun b => !b == a).map f := by
      rw [filter_map]
      congr 1
      apply filter_congr
      intro b hb
      have : f b = f a ↔ b = a :=
        ⟨h b (mem_cons_of_mem _ hb) a mem_cons_self, fun he => he ▸ rfl⟩
      simp [this]
    rw [map_cons, eraseDups_cons, eraseDups_cons, map_cons, hf, eraseDups_map]
    intro x hx y hy
    exact h x (mem_cons_of_mem _ (mem_filter.1 hx).1) y (mem_cons_of_mem _ (mem_filter.1 hy).1)
termination_by l => l.length
decreasing_by exact length_filter_lt _ _ _

end List
