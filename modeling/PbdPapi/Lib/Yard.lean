import PbdPapi.Lib.Rpn

/-!
# Shunting yard

Formulas in infix notation and their way to postfix code over a stack of operators. An operator
that comes in takes those off the stack that bind stronger, and leaves those that bind as strong:
operators of one priority associate to the right.

`Infix` is a formula with its parentheses and one way to group its operators; many have the same
tokens. `Grouped` picks the one that the priorities mean, `group` finds it (`grouped_group`,
`tokens_group`), and the yard writes its code (`run_tokens`). Whether that is the value of another
grouping is a matter of the operators: `eval_group` says where the grouping to the left has it.
-/

set_option autoImplicit false

namespace Yard

open Rpn

variable {κ ο α : Type}

inductive Token (κ ο : Type) where
  | operand (k : κ)
  | op (o : ο)
  | lparen
  | rparen
deriving DecidableEq, Repr

inductive Infix (κ ο : Type) where
  | atom (k : κ)
  | paren (e : Infix κ ο)
  | bin (l : Infix κ ο) (o : ο) (r : Infix κ ο)
deriving DecidableEq, Repr

namespace Infix

def tokens : Infix κ ο → List (Token κ ο)
  | atom k => [.operand k]
  | paren e => .lparen :: (e.tokens ++ [.rparen])
  | bin l o r => l.tokens ++ .op o :: r.tokens

/-- The formula without its parentheses. -/
def tree : Infix κ ο → Ast κ ο
  | atom k => .leaf k
  | paren e => e.tree
  | bin l o r => .node l.tree o r.tree

/-- The operator at the top, if there is one that is not in parentheses. -/
def root? : Infix κ ο → Option ο
  | bin _ o _ => some o
  | _ => none

/-- The operators that are not in parentheses. -/
def ops : Infix κ ο → List ο
  | bin l o r => l.ops ++ o :: r.ops
  | _ => []

end Infix

/-! ## The yard -/

/-- The operators on the stack, with `none` for an open parenthesis, and the code so far. -/
structure State (κ ο : Type) where
  stack : List (Option ο)
  out : List (Item κ ο)
deriving DecidableEq, Repr

section
variable (prio : ο → Nat)

/-- The operators on top of the stack that bind stronger than `p`, and what is below. -/
def above (p : Nat) : List (Option ο) → List ο × List (Option ο)
  | some o :: s => if p < prio o then ((above p s).map (o :: ·) id) else ([], some o :: s)
  | s => ([], s)

/-- The operators down to the open parenthesis, and what is below it. -/
def inside : List (Option ο) → Option (List ο × List (Option ο))
  | [] => none
  | none :: s => some ([], s)
  | some o :: s => (inside s).map fun q => (o :: q.1, q.2)

def shift (s : State κ ο) : Token κ ο → Option (State κ ο)
  | .operand k => some { s with out := s.out ++ [.push k] }
  | .op o =>
    let q := above prio (prio o) s.stack
    some { stack := some o :: q.2, out := s.out ++ q.1.map .apply }
  | .lparen => some { s with stack := none :: s.stack }
  | .rparen => (inside s.stack).map fun q => { stack := q.2, out := s.out ++ q.1.map .apply }

def run : State κ ο → List (Token κ ο) → Option (State κ ο)
  | s, [] => some s
  | s, t :: ts => (shift prio s t).bind fun s' => run s' ts

end

section
variable {prio : ο → Nat}

theorem run_append (s : State κ ο) (ts ts' : List (Token κ ο)) :
    run prio s (ts ++ ts') = (run prio s ts).bind fun s' => run prio s' ts' := by
  induction ts generalizing s with
  | nil => rfl
  | cons t ts ih =>
    rw [List.cons_append, run, run, Option.bind_assoc]
    exact congrArg _ (funext ih)

/-- The top of the stack stays when an operator of priority `p` comes in. -/
def Stays (prio : ο → Nat) (p : Nat) (s : List (Option ο)) : Prop :=
  ∀ o, s.head? = some (some o) → prio o ≤ p

theorem above_stays {p : Nat} {s : List (Option ο)} (h : Stays prio p s) :
    above prio p s = ([], s) := by
  match s, h with
  | [], _ => rfl
  | none :: s, _ => rfl
  | some o :: s, h =>
    have : ¬ p < prio o := Nat.not_lt.2 (h o rfl)
    rw [above, if_neg this]

theorem above_append {p : Nat} {os : List ο} {s : List (Option ο)} (hos : ∀ o ∈ os, p < prio o)
    (hs : Stays prio p s) : above prio p (os.map some ++ s) = (os, s) := by
  induction os with
  | nil => exact above_stays hs
  | cons o os ih =>
    rw [List.map_cons, List.cons_append, above, if_pos (hos o List.mem_cons_self),
      ih fun o' ho' => hos o' (List.mem_cons_of_mem _ ho')]
    rfl

theorem above_spec {p : Nat} {s r : List (Option ο)} {os : List ο} (h : above prio p s = (os, r)) :
    s = os.map some ++ r ∧ (∀ o ∈ os, p < prio o) ∧ Stays prio p r := by
  induction s generalizing os with
  | nil =>
    cases h
    exact ⟨rfl, by simp, by rintro o ho; cases ho⟩
  | cons a s ih =>
    cases a with
    | none =>
      cases h
      exact ⟨rfl, by simp, by rintro o ho; cases ho⟩
    | some o =>
      rw [above] at h
      split at h
      · next hlt =>
        cases h
        obtain ⟨h₁, h₂, h₃⟩ := ih rfl
        exact ⟨congrArg (some o :: ·) h₁, List.forall_mem_cons.2 ⟨hlt, h₂⟩, h₃⟩
      · next hle =>
        cases h
        refine ⟨rfl, by simp, ?_⟩
        rintro o' ho'
        cases ho'
        exact Nat.not_lt.1 hle

theorem inside_spec {s r : List (Option ο)} {os : List ο} (h : inside s = some (os, r)) :
    s = os.map some ++ none :: r := by
  induction s generalizing os with
  | nil => cases h
  | cons a s ih =>
    cases a with
    | none =>
      cases h
      rfl
    | some o =>
      obtain ⟨q, hq, heq⟩ := Option.map_eq_some_iff.1 h
      cases heq
      exact congrArg (some o :: ·) (ih hq)

theorem inside_append (os : List ο) (s : List (Option ο)) :
    inside (os.map some ++ none :: s) = some (os, s) := by
  induction os with
  | nil => rfl
  | cons o os ih => rw [List.map_cons, List.cons_append, inside, ih]; rfl

/-! ## Grouping -/

/-- Each operator binds weaker than what is grouped to its left, and not stronger than what is
grouped to its right. -/
def Grouped (prio : ο → Nat) : Infix κ ο → Prop
  | .atom _ => True
  | .paren e => Grouped prio e
  | .bin l o r => Grouped prio l ∧ Grouped prio r ∧ (∀ o' ∈ l.root?, prio o < prio o') ∧
      ∀ o' ∈ r.root?, prio o ≤ prio o'

theorem Grouped.le_ops {p : Nat} {e : Infix κ ο} (h : Grouped prio e)
    (hp : ∀ o ∈ e.root?, p ≤ prio o) {o : ο} (ho : o ∈ e.ops) : p ≤ prio o := by
  induction e generalizing p with
  | atom k => cases ho
  | paren e _ => cases ho
  | bin l o' r ihl ihr =>
    obtain ⟨hl, hr, hlt, hle⟩ := h
    have hroot : p ≤ prio o' := hp o' rfl
    simp only [Infix.ops, List.mem_append, List.mem_cons] at ho
    rcases ho with ho | rfl | ho
    · exact ihl hl (fun q hq => Nat.le_trans hroot (Nat.le_of_lt (hlt q hq))) ho
    · exact hroot
    · exact ihr hr (fun q hq => Nat.le_trans hroot (hle q hq)) ho

theorem Grouped.lt_ops {l r : Infix κ ο} {o : ο} (h : Grouped prio (.bin l o r)) {o' : ο}
    (ho' : o' ∈ l.ops) : prio o < prio o' :=
  Grouped.le_ops h.1 (fun q hq => h.2.2.1 q hq) ho'

/-- What a grouped formula leaves on the stack and writes, where its operators leave the stack
below alone. -/
theorem Grouped.run {e : Infix κ ο} (h : Grouped prio e) {s : List (Option ο)}
    (hs : ∀ o ∈ e.ops, Stays prio (prio o) s) :
    ∃ (os : List ο) (c : List (Item κ ο)), (∀ o ∈ os, o ∈ e.ops) ∧
      c ++ os.map .apply = e.tree.code ∧
      ∀ out, Yard.run prio ⟨s, out⟩ e.tokens = some ⟨os.map some ++ s, out ++ c⟩ := by
  induction e generalizing s with
  | atom k => exact ⟨[], [.push k], by simp, rfl, fun out => rfl⟩
  | paren e ih =>
    obtain ⟨os, c, -, hc, hrun⟩ := ih h (s := none :: s) fun o _ o' ho' => by cases ho'
    refine ⟨[], e.tree.code, by simp, by simp [Infix.tree], fun out => ?_⟩
    rw [Infix.tokens, Yard.run, shift, Option.bind_some, run_append, hrun, Option.bind_some,
      Yard.run, shift, inside_append, ← hc]
    simp [Yard.run]
  | bin l o r ihl ihr =>
    obtain ⟨hl, hr, -, hle⟩ := id h
    have hle' : ∀ o' ∈ r.ops, prio o ≤ prio o' := fun o' => Grouped.le_ops hr hle
    obtain ⟨osl, cl, hosl, hcl, hrunl⟩ := ihl hl (s := s) fun o' ho' =>
      hs o' (List.mem_append_left _ ho')
    obtain ⟨osr, cr, hosr, hcr, hrunr⟩ := ihr hr (s := some o :: s) fun o' ho' q hq => by
      cases hq
      exact hle' o' ho'
    refine ⟨osr ++ [o], l.tree.code ++ cr, fun q hq => ?_, ?_, fun out => ?_⟩
    · rcases List.mem_append.1 hq with hq | hq
      · exact List.mem_append_right _ (List.mem_cons_of_mem _ (hosr q hq))
      · rw [List.mem_singleton.1 hq]
        exact List.mem_append_right _ List.mem_cons_self
    · simp only [Infix.tree, Ast.code, List.map_append, ← hcr, List.append_assoc,
        List.map_cons, List.map_nil]
    · -- the operators that the left side left all bind stronger
      have hpop : above prio (prio o) (osl.map some ++ s) = (osl, s) :=
        above_append (fun q hq => Grouped.lt_ops h (hosl q hq))
          (hs o (List.mem_append_right _ List.mem_cons_self))
      rw [Infix.tokens, run_append, hrunl, Option.bind_some, Yard.run, shift, hpop,
        Option.bind_some, hrunr, ← hcl]
      simp

/-- The yard writes the code of a grouped formula, but for the operators that it leaves on the
stack. -/
theorem Grouped.run_tokens {e : Infix κ ο} (h : Grouped prio e) :
    ∃ (os : List ο) (out : List (Item κ ο)),
      Yard.run prio ⟨[], []⟩ e.tokens = some ⟨os.map some, out⟩ ∧
        out ++ os.map .apply = e.tree.code := by
  obtain ⟨os, c, -, hc, hrun⟩ := h.run (s := []) fun o _ o' ho' => by cases ho'
  refine ⟨os, c, ?_, hc⟩
  rw [hrun, List.append_nil, List.nil_append]

end

/-! ## The grouping of a formula -/

namespace Infix

section
variable (prio : ο → Nat)

/-- `p` is at most the priority of the root. -/
def weaker (p : Nat) (e : Infix κ ο) : Bool := e.root?.all fun o => p ≤ prio o

/-- Two grouped formulas with an operator between them, grouped: the first of the weakest operators
goes to the top. -/
def join (l : Infix κ ο) (o : ο) (r : Infix κ ο) : Infix κ ο :=
  match l, r with
  | bin l₁ o₁ l₂, r =>
    if prio o₁ ≤ prio o ∧ weaker prio (prio o₁) r then bin l₁ o₁ (join l₂ o r)
    else
      match r with
      | bin r₁ o₂ r₂ =>
        if prio o₂ < prio o then bin (join (bin l₁ o₁ l₂) o r₁) o₂ r₂
        else bin (bin l₁ o₁ l₂) o (bin r₁ o₂ r₂)
      | r => bin (bin l₁ o₁ l₂) o r
  | l, bin r₁ o₂ r₂ =>
    if prio o₂ < prio o then bin (join l o r₁) o₂ r₂ else bin l o (bin r₁ o₂ r₂)
  | l, r => bin l o r
termination_by sizeOf l + sizeOf r
decreasing_by
  all_goals
    simp only [bin.sizeOf_spec]
    omega

def group : Infix κ ο → Infix κ ο
  | atom k => atom k
  | paren e => paren e.group
  | bin l o r => join prio l.group o r.group

end

section
variable {prio : ο → Nat}

theorem root_mem_ops {e : Infix κ ο} {o : ο} (h : o ∈ e.root?) : o ∈ e.ops := by
  cases e with
  | atom k => cases h
  | paren e => cases h
  | bin l o' r =>
    cases h
    exact List.mem_append_right _ List.mem_cons_self

theorem weaker_iff {p : Nat} {e : Infix κ ο} :
    weaker prio p e = true ↔ ∀ o ∈ e.root?, p ≤ prio o := by
  rw [weaker]
  cases e.root? <;> simp

theorem tokens_join (l : Infix κ ο) (o : ο) (r : Infix κ ο) :
    (join prio l o r).tokens = l.tokens ++ .op o :: r.tokens := by
  fun_induction join prio l o r <;> simp_all [tokens]

theorem tokens_group (e : Infix κ ο) : (e.group prio).tokens = e.tokens := by
  induction e with
  | atom k => rfl
  | paren e ih => rw [group, tokens, ih, tokens]
  | bin l o r ihl ihr => rw [group, tokens_join, ihl, ihr, tokens]

theorem mem_ops_join {l : Infix κ ο} {o : ο} {r : Infix κ ο} {o' : ο} :
    o' ∈ (join prio l o r).ops ↔ o' ∈ l.ops ∨ o' = o ∨ o' ∈ r.ops := by
  fun_induction join prio l o r <;> simp_all [ops, or_assoc]

theorem mem_ops_group {e : Infix κ ο} {o : ο} : o ∈ (e.group prio).ops ↔ o ∈ e.ops := by
  induction e with
  | atom k => rfl
  | paren e _ => rfl
  | bin l o' r ihl ihr =>
    rw [group, mem_ops_join, ihl, ihr, ops, List.mem_append, List.mem_cons]

theorem root_join {l : Infix κ ο} {o : ο} {r : Infix κ ο} {o' : ο}
    (h : o' ∈ (join prio l o r).root?) : o' ∈ l.root? ∨ o' = o ∨ o' ∈ r.root? := by
  fun_induction join prio l o r <;> simp_all [root?]

theorem root_eq_none {e : Infix κ ο} (h : ∀ l o r, e = bin l o r → False) : e.root? = none := by
  cases e with
  | atom k => rfl
  | paren e => rfl
  | bin l o r => exact (h l o r rfl).elim

theorem grouped_join {l : Infix κ ο} {o : ο} {r : Infix κ ο} (hl : Grouped prio l)
    (hr : Grouped prio r) : Grouped prio (join prio l o r) := by
  fun_induction join prio l o r with
  | case1 l₁ o₁ l₂ r h ih =>
    obtain ⟨h₁, h₂, hlt, hle⟩ := hl
    refine ⟨h₁, ih h₂ hr, hlt, fun o' ho' => ?_⟩
    rcases root_join ho' with ho' | rfl | ho'
    · exact hle o' ho'
    · exact h.1
    · exact weaker_iff.1 h.2 o' ho'
  | case2 l₁ o₁ l₂ r₁ o₂ r₂ hlt hn ih =>
    have hroot : prio o₂ < prio o₁ := by
      by_contra hge
      refine hn ⟨by omega, weaker_iff.2 fun o' ho' => ?_⟩
      cases ho'
      omega
    refine ⟨ih hl hr.1, hr.2.1, fun o' ho' => ?_, hr.2.2.2⟩
    rcases root_join ho' with ho' | rfl | ho'
    · cases ho'
      exact hroot
    · exact hlt
    · exact hr.2.2.1 o' ho'
  | case3 l₁ o₁ l₂ r₁ o₂ r₂ hge hn =>
    refine ⟨hl, hr, fun o' ho' => ?_, fun o' ho' => ?_⟩
    · cases ho'
      by_contra hle
      refine hn ⟨by omega, weaker_iff.2 fun o' ho' => ?_⟩
      cases ho'
      omega
    · cases ho'
      omega
  | case4 l₁ o₁ l₂ r hn hr₀ =>
    have hroot := root_eq_none hr₀
    refine ⟨hl, hr, fun o' ho' => ?_, by simp [hroot]⟩
    cases ho'
    by_contra hle
    exact hn ⟨by omega, weaker_iff.2 (by simp [hroot])⟩
  | case5 l r₁ o₂ r₂ hl₀ hlt ih =>
    refine ⟨ih hl hr.1, hr.2.1, fun o' ho' => ?_, hr.2.2.2⟩
    rcases root_join ho' with ho' | rfl | ho'
    · rw [root_eq_none hl₀] at ho'
      cases ho'
    · exact hlt
    · exact hr.2.2.1 o' ho'
  | case6 l r₁ o₂ r₂ hl₀ hge =>
    refine ⟨hl, hr, by simp [root_eq_none hl₀], fun o' ho' => ?_⟩
    cases ho'
    omega
  | case7 l r hl₀ hr₀ =>
    exact ⟨hl, hr, by simp [root_eq_none hl₀], by simp [root_eq_none hr₀]⟩

theorem grouped_group (e : Infix κ ο) : Grouped prio (e.group prio) := by
  induction e with
  | atom k => trivial
  | paren e ih => exact ih
  | bin l o r ihl ihr => exact grouped_join ihl ihr

/-- The yard writes the code of the formula as its priorities group it. -/
theorem run_tokens (prio : ο → Nat) (e : Infix κ ο) :
    ∃ (os : List ο) (out : List (Item κ ο)), run prio ⟨[], []⟩ e.tokens = some ⟨os.map some, out⟩ ∧
        out ++ os.map .apply = (e.group prio).tree.code := by
  have h : (e.group prio).tokens = e.tokens := tokens_group e
  rw [← h]
  exact (grouped_group e).run_tokens

end

/-! ## Grouping to the left -/

/-- Each operator binds not stronger than what is grouped to its left, and weaker than what is
grouped to its right. -/
def LeftGrouped (prio : ο → Nat) : Infix κ ο → Prop
  | .atom _ => True
  | .paren e => LeftGrouped prio e
  | .bin l o r => LeftGrouped prio l ∧ LeftGrouped prio r ∧ (∀ o' ∈ l.ops, prio o ≤ prio o') ∧
      ∀ o' ∈ r.ops, prio o < prio o'

/-- Each operator but the last of a chain of one priority moves its parentheses. -/
def Chained (prio : ο → Nat) (law : ο → ο → Prop) : Infix κ ο → Prop
  | .atom _ => True
  | .paren e => Chained prio law e
  | .bin l o r => Chained prio law l ∧ Chained prio law r ∧
      ∀ o' ∈ l.ops, prio o' = prio o → law o' o

section
variable {prio : ο → Nat} {val : κ → Option α} {op : ο → α → α → α}

theorem eval_join {law : ο → ο → Prop}
    (hlaw : ∀ o o', law o o' → ∀ x y z, op o' (op o x y) z = op o x (op o' y z))
    {l : Infix κ ο} {o : ο} {r : Infix κ ο} (hl : ∀ o' ∈ l.ops, prio o ≤ prio o')
    (hr : ∀ o' ∈ r.ops, prio o < prio o') (hc : ∀ o' ∈ l.ops, prio o' = prio o → law o' o) :
    (join prio l o r).tree.eval val op = (bin l o r).tree.eval val op := by
  fun_induction join prio l o r with
  | case1 l₁ o₁ l₂ r h ih =>
    have hmem : ∀ o' ∈ l₂.ops, o' ∈ (bin l₁ o₁ l₂).ops := fun o' ho' =>
      List.mem_append_right _ (List.mem_cons_of_mem _ ho')
    have ho₁ : o₁ ∈ (bin l₁ o₁ l₂).ops := root_mem_ops rfl
    have heq := hlaw o₁ _ (hc o₁ ho₁ (Nat.le_antisymm h.1 (hl o₁ ho₁)))
    have ih := ih (fun o' ho' => hl o' (hmem o' ho')) hr fun o' ho' => hc o' (hmem o' ho')
    simp only [tree, Ast.eval] at ih ⊢
    rw [ih]
    cases l₁.tree.eval val op <;> cases l₂.tree.eval val op <;>
      cases r.tree.eval val op <;> simp [heq]
  | case2 l₁ o₁ l₂ r₁ o₂ r₂ hlt _ _ =>
    exact absurd (hr o₂ (root_mem_ops rfl)) (Nat.lt_asymm hlt)
  | case5 l r₁ o₂ r₂ _ hlt _ =>
    exact absurd (hr o₂ (root_mem_ops rfl)) (Nat.lt_asymm hlt)
  | _ => rfl

/-- The grouping of the priorities has the value of the grouping to the left, if the operators of
each chain allow it. -/
theorem eval_group {law : ο → ο → Prop}
    (hlaw : ∀ o o', law o o' → ∀ x y z, op o' (op o x y) z = op o x (op o' y z))
    {e : Infix κ ο} (he : LeftGrouped prio e) (hc : Chained prio law e) :
    (e.group prio).tree.eval val op = e.tree.eval val op := by
  induction e with
  | atom k => rfl
  | paren e ih => exact ih he hc
  | bin l o r ihl ihr =>
    obtain ⟨hl, hr, hle, hlt⟩ := he
    obtain ⟨hcl, hcr, hchain⟩ := hc
    rw [group, eval_join hlaw (fun o' ho' => hle o' (mem_ops_group.1 ho'))
      (fun o' ho' => hlt o' (mem_ops_group.1 ho')) fun o' ho' => hchain o' (mem_ops_group.1 ho')]
    simp only [tree, Ast.eval, ihl hl hcl, ihr hr hcr]

end

end Infix

end Yard
