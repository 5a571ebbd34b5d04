import Mathlib.Data.List.Induction

/-!
# Postfix code

Operands `κ` and binary operators `ο`: a tree of them, its postfix code, and a machine with a stack
of `cap` cells. An operand may have no value, so values are `Option`s.

`exec_nil`: what the machine accepts from the empty stack is the codes of some trees in a row
(`codes`), each of which fits behind those before it, and the stack holds their values; the trees
are unique (`codes_injective`). Replacing operands by trees is replacing items by codes
(`codes_bind`), and evaluates as it should (`eval_bind`).
-/

set_option autoImplicit false

namespace Rpn

variable {κ κ' κ'' ο α : Type}

inductive Item (κ ο : Type) where
  | push (k : κ)
  | apply (o : ο)
deriving DecidableEq, Repr

inductive Ast (κ ο : Type) where
  | leaf (k : κ)
  | node (l : Ast κ ο) (o : ο) (r : Ast κ ο)
deriving DecidableEq, Repr

namespace Ast

def code : Ast κ ο → List (Item κ ο)
  | leaf k => [.push k]
  | node l o r => l.code ++ r.code ++ [.apply o]

/-- The cells that the code of a tree takes. -/
def depth : Ast κ ο → Nat
  | leaf _ => 1
  | node l _ r => max l.depth (r.depth + 1)

def eval (val : κ → Option α) (op : ο → α → α → α) : Ast κ ο → Option α
  | leaf k => val k
  | node l o r => do
    let a ← l.eval val op
    let b ← r.eval val op
    return op o a b

/-- Trees in the place of the operands. -/
def bind (f : κ → Ast κ' ο) : Ast κ ο → Ast κ' ο
  | leaf k => f k
  | node l o r => node (l.bind f) o (r.bind f)

def map (f : κ → κ') (t : Ast κ ο) : Ast κ' ο := t.bind fun k => leaf (f k)

def operands : Ast κ ο → List κ
  | leaf k => [k]
  | node l _ r => l.operands ++ r.operands

theorem depth_pos (t : Ast κ ο) : 0 < t.depth := by
  cases t with
  | leaf k => exact Nat.one_pos
  | node l o r => exact Nat.lt_of_lt_of_le (Nat.succ_pos _) (Nat.le_max_right ..)

/-! ## Replacing operands -/

theorem eval_bind (val : κ' → Option α) (op : ο → α → α → α) (f : κ → Ast κ' ο)
    (t : Ast κ ο) : (t.bind f).eval val op = t.eval (fun k => (f k).eval val op) op := by
  induction t with
  | leaf k => rfl
  | node l o r ihl ihr => simp only [bind, eval, ihl, ihr]

theorem eval_map (val : κ' → Option α) (op : ο → α → α → α) (f : κ → κ') (t : Ast κ ο) :
    (t.map f).eval val op = t.eval (fun k => val (f k)) op := eval_bind val op _ t

theorem eval_congr {val val' : κ → Option α} {op : ο → α → α → α} {t : Ast κ ο}
    (h : ∀ k ∈ t.operands, val k = val' k) : t.eval val op = t.eval val' op := by
  induction t with
  | leaf k => exact h k List.mem_cons_self
  | node l o r ihl ihr =>
    rw [eval, eval, ihl fun k hk => h k (List.mem_append_left _ hk),
      ihr fun k hk => h k (List.mem_append_right _ hk)]

theorem bind_leaf (t : Ast κ ο) : t.bind leaf = t := by
  induction t with
  | leaf k => rfl
  | node l o r ihl ihr => rw [bind, ihl, ihr]

theorem bind_bind (f : κ → Ast κ' ο) (g : κ' → Ast κ'' ο) (t : Ast κ ο) :
    (t.bind f).bind g = t.bind fun k => (f k).bind g := by
  induction t with
  | leaf k => rfl
  | node l o r ihl ihr => rw [bind, bind, bind, ihl, ihr]

theorem bind_congr {f g : κ → Ast κ' ο} {t : Ast κ ο} (h : ∀ k ∈ t.operands, f k = g k) :
    t.bind f = t.bind g := by
  induction t with
  | leaf k => exact h k List.mem_cons_self
  | node l o r ihl ihr =>
    rw [bind, bind, ihl fun k hk => h k (List.mem_append_left _ hk),
      ihr fun k hk => h k (List.mem_append_right _ hk)]

theorem operands_bind (f : κ → Ast κ' ο) (t : Ast κ ο) :
    (t.bind f).operands = t.operands.flatMap fun k => (f k).operands := by
  induction t with
  | leaf k => simp [bind, operands]
  | node l o r ihl ihr => simp [bind, operands, ihl, ihr]

theorem operands_map (f : κ → κ') (t : Ast κ ο) : (t.map f).operands = t.operands.map f := by
  rw [map, operands_bind, List.map_eq_flatMap]
  rfl

end Ast

/-! ## Rows of trees -/

/-- The codes of trees in a row; the last one comes first, as its value is the top of the stack. -/
def codes : List (Ast κ ο) → List (Item κ ο)
  | [] => []
  | t :: ts => codes ts ++ t.code

/-- Each tree fits behind the values of those before it. -/
def Fits (cap : Nat) : List (Ast κ ο) → Prop
  | [] => True
  | t :: ts => t.depth + ts.length ≤ cap ∧ Fits cap ts

instance Fits.instDecidable (cap : Nat) : (ts : List (Ast κ ο)) → Decidable (Fits cap ts)
  | [] => .isTrue trivial
  | _ :: ts => @instDecidableAnd _ _ _ (Fits.instDecidable cap ts)

/-- An item with codes in the place of its operand. -/
def Item.expand (f : κ → List (Item κ' ο)) : Item κ ο → List (Item κ' ο)
  | .push k => f k
  | .apply o => [.apply o]

theorem code_bind (f : κ → Ast κ' ο) (t : Ast κ ο) :
    (t.bind f).code = t.code.flatMap (Item.expand fun k => (f k).code) := by
  induction t with
  | leaf k => simp [Ast.bind, Ast.code, Item.expand]
  | node l o r ihl ihr => simp [Ast.bind, Ast.code, Item.expand, ihl, ihr]

theorem codes_bind (f : κ → Ast κ' ο) (ts : List (Ast κ ο)) :
    codes (ts.map (Ast.bind f)) = (codes ts).flatMap (Item.expand fun k => (f k).code) := by
  induction ts with
  | nil => rfl
  | cons t ts ih => rw [List.map_cons, codes, codes, List.flatMap_append, ih, code_bind]

/-! ## The machine -/

section
variable (val : κ → Option α) (op : ο → α → α → α) (cap : Nat)

/-- One item on the stack, the top of which is the head. -/
def step : Item κ ο → List α → Option (List α)
  | .push k, st => if st.length < cap then (val k).map (· :: st) else none
  | .apply o, b :: a :: st => some (op o a b :: st)
  | .apply _, _ => none

def exec : List (Item κ ο) → List α → Option (List α)
  | [], st => some st
  | i :: c, st => (step val op cap i st).bind (exec c)

end

section
variable {val : κ → Option α} {op : ο → α → α → α} {cap : Nat}

theorem exec_append (c c' : List (Item κ ο)) (st : List α) :
    exec val op cap (c ++ c') st = (exec val op cap c st).bind (exec val op cap c') := by
  induction c generalizing st with
  | nil => rfl
  | cons i c ih =>
    rw [List.cons_append, exec, exec, Option.bind_assoc]
    exact congrArg _ (funext ih)

/-- The code of a tree pushes the tree's value. -/
theorem exec_code {t : Ast κ ο} {st : List α} (h : t.depth + st.length ≤ cap) :
    exec val op cap t.code st = (t.eval val op).map (· :: st) := by
  induction t generalizing st with
  | leaf k =>
    have hlt : st.length < cap := by simp only [Ast.depth] at h; omega
    simp only [Ast.code, exec, step, if_pos hlt, Ast.eval]
    cases val k <;> rfl
  | node l o r ihl ihr =>
    simp only [Ast.depth] at h
    rw [Ast.code, exec_append, exec_append, ihl (by omega), Ast.eval]
    cases l.eval val op with
    | none => rfl
    | some a =>
      rw [Option.map_some, Option.bind_some, ihr (by rw [List.length_cons]; omega)]
      cases r.eval val op <;> rfl

theorem mapM_cons_eq_some {β : Type} {f : α → Option β} {a : α} {l : List α} {l' : List β} :
    (a :: l).mapM f = some l' ↔ ∃ b bs, f a = some b ∧ l.mapM f = some bs ∧ l' = b :: bs := by
  rw [List.mapM_cons]
  cases f a with
  | none => simp
  | some b =>
    cases l.mapM f with
    | none => simp
    | some bs => simp [eq_comm]

theorem length_mapM {β : Type} {f : α → Option β} {l : List α} {l' : List β}
    (h : l.mapM f = some l') : l'.length = l.length := by
  induction l generalizing l' with
  | nil =>
    cases h
    rfl
  | cons a l ih =>
    obtain ⟨b, bs, -, hbs, rfl⟩ := mapM_cons_eq_some.1 h
    rw [List.length_cons, List.length_cons, ih hbs]

theorem exec_codes {ts : List (Ast κ ο)} (h : Fits cap ts) :
    exec val op cap (codes ts) [] = ts.mapM (Ast.eval val op) := by
  induction ts with
  | nil => rfl
  | cons t ts ih =>
    rw [codes, exec_append, ih h.2, List.mapM_cons]
    cases hts : ts.mapM (Ast.eval val op) with
    | none => cases t.eval val op <;> rfl
    | some st =>
      rw [Option.bind_some, exec_code (by rw [length_mapM hts]; exact h.1)]
      cases t.eval val op <;> rfl

/-- What runs from the empty stack is the codes of trees in a row, which fit and have values. -/
theorem exec_nil {c : List (Item κ ο)} {st : List α} :
    exec val op cap c [] = some st ↔
      ∃ ts, c = codes ts ∧ Fits cap ts ∧ ts.mapM (Ast.eval val op) = some st := by
  constructor
  · intro h
    induction c using List.reverseRecOn generalizing st with
    | nil =>
      cases h
      exact ⟨[], rfl, trivial, rfl⟩
    | append_singleton c i ih =>
      rw [exec_append, Option.bind_eq_some_iff] at h
      obtain ⟨st₀, h₀, hi⟩ := h
      obtain ⟨ts, rfl, hfit, hts⟩ := ih h₀
      have hlen := length_mapM hts
      simp only [exec, Option.bind_fun_some] at hi
      cases i with
      | push k =>
        rw [step] at hi
        split at hi
        · next hlt =>
          obtain ⟨a, ha, rfl⟩ := Option.map_eq_some_iff.1 hi
          refine ⟨.leaf k :: ts, rfl, ⟨?_, hfit⟩, mapM_cons_eq_some.2 ⟨a, st₀, ha, hts, rfl⟩⟩
          rw [Ast.depth]
          omega
        · cases hi
      | apply o =>
        -- the operator joins the last two trees
        match ts, st₀, hi with
        | [], _, hi =>
          cases hts
          cases hi
        | [r], _, hi =>
          obtain ⟨b, bs, -, hbs, rfl⟩ := mapM_cons_eq_some.1 hts
          cases hbs
          cases hi
        | r :: l :: ts, _, hi =>
          obtain ⟨b, bs, hb, hbs, rfl⟩ := mapM_cons_eq_some.1 hts
          obtain ⟨a, st', ha, hst', rfl⟩ := mapM_cons_eq_some.1 hbs
          cases hi
          refine ⟨.node l o r :: ts, by simp [codes, Ast.code], ⟨?_, hfit.2.2⟩,
            mapM_cons_eq_some.2 ⟨_, st', by simp [Ast.eval, ha, hb], hst', rfl⟩⟩
          have hr := hfit.1
          have hl := hfit.2.1
          rw [List.length_cons] at hr
          rw [Ast.depth]
          omega
  · rintro ⟨ts, rfl, hfit, hts⟩
    rw [exec_codes hfit, hts]

end

/-! ## Reading code back -/

/-- The trees of a code, by running it on trees. -/
def parse (c : List (Item κ ο)) : Option (List (Ast κ ο)) :=
  exec (fun k => some (.leaf k)) (fun o l r => .node l o r) c.length c []

theorem eval_self (t : Ast κ ο) :
    t.eval (fun k => some (.leaf k)) (fun o l r => .node l o r) = some t := by
  induction t with
  | leaf k => rfl
  | node l o r ihl ihr => rw [Ast.eval, ihl, ihr]; rfl

theorem mapM_eval_self (ts : List (Ast κ ο)) :
    ts.mapM (Ast.eval (fun k => some (.leaf k)) fun o l r => .node l o r) = some ts := by
  induction ts with
  | nil => rfl
  | cons t ts ih => exact mapM_cons_eq_some.2 ⟨t, ts, eval_self t, ih, rfl⟩

theorem fits_of_le {cap cap' : Nat} (h : cap ≤ cap') {ts : List (Ast κ ο)} (hf : Fits cap ts) :
    Fits cap' ts := by
  induction ts with
  | nil => trivial
  | cons t ts ih => exact ⟨Nat.le_trans hf.1 h, ih hf.2⟩

theorem depth_le_code (t : Ast κ ο) : t.depth ≤ t.code.length := by
  induction t with
  | leaf k => exact Nat.le_refl 1
  | node l o r ihl ihr =>
    simp only [Ast.depth, Ast.code, List.length_append, List.length_singleton]
    omega

theorem length_le_codes (ts : List (Ast κ ο)) : ts.length ≤ (codes ts).length := by
  induction ts with
  | nil => exact Nat.le_refl 0
  | cons t ts ih =>
    have := t.depth_pos
    have := depth_le_code t
    rw [codes, List.length_append, List.length_cons]
    omega

theorem fits_codes (ts : List (Ast κ ο)) : Fits (codes ts).length ts := by
  induction ts with
  | nil => trivial
  | cons t ts ih =>
    have ht := depth_le_code t
    have hts := length_le_codes ts
    rw [codes, List.length_append]
    exact ⟨by omega, fits_of_le (Nat.le_add_right ..) ih⟩

theorem parse_codes (ts : List (Ast κ ο)) : parse (codes ts) = some ts := by
  rw [parse, exec_codes (fits_codes ts), mapM_eval_self]

theorem codes_injective {ts ts' : List (Ast κ ο)} (h : codes ts = codes ts') : ts = ts' :=
  Option.some.inj ((parse_codes ts).symm.trans (h ▸ parse_codes ts'))

theorem code_injective {t t' : Ast κ ο} (h : t.code = t'.code) : t = t' := by
  have : codes [t] = codes [t'] := by simpa [codes] using h
  exact List.head_eq_of_cons_eq (codes_injective this)

end Rpn
