import Mathlib.Data.List.Infix

/-!
# Stack discipline

A log of stack operations (one push, or `n` pops at once) and the depth it leads to. `run d l` is
the depth after `l` from depth `d`, `none` if a pop goes below the bottom; it is compositional
(`run_append`), so a routine is checked piece by piece. `balanced_iff`: a log runs from the bottom
to the bottom exactly when it pushes as much as it pops and no prefix pops more than it pushed.
-/

set_option autoImplicit false

namespace Stack

inductive Op where
  | push
  | pop (n : Nat)
deriving DecidableEq, Repr

/-- The number of pushes of a log. -/
def pushes : List Op → Nat
  | [] => 0
  | .push :: l => pushes l + 1
  | .pop _ :: l => pushes l

/-- The number of slots a log pops. -/
def pops : List Op → Nat
  | [] => 0
  | .push :: l => pops l
  | .pop n :: l => pops l + n

/-- As many pushes as pops, and never below the depth at the start. -/
def Balanced (l : List Op) : Prop := pushes l = pops l ∧ ∀ p, p <+: l → pops p ≤ pushes p

/-- The depth after a log. -/
def run : Nat → List Op → Option Nat
  | d, [] => some d
  | d, .push :: l => run (d + 1) l
  | d, .pop n :: l => if n ≤ d then run (d - n) l else none

@[simp] theorem run_nil (d : Nat) : run d [] = some d := rfl
@[simp] theorem run_push (d : Nat) (l : List Op) : run d (.push :: l) = run (d + 1) l := rfl

theorem run_pop {d n : Nat} (h : n ≤ d) (l : List Op) : run d (.pop n :: l) = run (d - n) l := by
  simp [run, h]

theorem run_pop_lt {d n : Nat} (h : d < n) (l : List Op) : run d (.pop n :: l) = none := by
  simp [run]; omega

theorem run_append (d : Nat) (l l' : List Op) :
    run d (l ++ l') = (run d l).bind fun d' => run d' l' := by
  induction l generalizing d with
  | nil => rfl
  | cons o l ih =>
    cases o with
    | push => simpa using ih (d + 1)
    | pop n =>
      by_cases h : n ≤ d
      · simpa [run, h] using ih (d - n)
      · simp [run, h]

theorem run_replicate_push (d k : Nat) (l : List Op) :
    run d (List.replicate k .push ++ l) = run (d + k) l := by
  induction k generalizing d with
  | zero => rfl
  | succ k ih => simpa [List.replicate_succ, Nat.add_right_comm, Nat.add_assoc] using ih (d + 1)

/-- `run` read as counts: the depth reached, and no prefix below the bottom. -/
theorem run_eq_some {d d' : Nat} {l : List Op} :
    run d l = some d' ↔
      d + pushes l = d' + pops l ∧ ∀ p, p <+: l → pops p ≤ d + pushes p := by
  induction l generalizing d with
  | nil => simp [pushes, pops, eq_comm]
  | cons o l ih =>
    have hp : (∀ p, p <+: o :: l → pops p ≤ d + pushes p) ↔
        ∀ p, p <+: l → pops (o :: p) ≤ d + pushes (o :: p) := by
      constructor
      · exact fun h p hp => h (o :: p) (List.cons_prefix_cons.2 ⟨rfl, hp⟩)
      · intro h p hp
        rcases List.prefix_cons_iff.1 hp with rfl | ⟨q, rfl, hq⟩
        · simp [pops]
        · exact h q hq
    rw [hp]
    cases o with
    | push =>
      simp only [run_push, ih, pushes, pops]
      refine and_congr (by omega) (forall₂_congr fun p _ => by omega)
    | pop n =>
      by_cases hn : n ≤ d
      · rw [run_pop hn, ih]
        simp only [pushes, pops]
        refine and_congr (by omega) (forall₂_congr fun p _ => by omega)
      · rw [run_pop_lt (by omega)]
        simp only [pushes, pops, reduceCtorEq, false_iff, not_and]
        intro _ h
        have := h [] (List.nil_prefix)
        simp only [pushes, pops] at this
        omega

theorem balanced_iff {l : List Op} : Balanced l ↔ run 0 l = some 0 := by
  simp [run_eq_some, Balanced]

end Stack
