import PbdPapi.Proof.Infix

/-!
# Computing formulas

`_papi_hwi_postfix_calc` on a formula: the words of the text are the items of its code, `%` and `^`
are skipped (`executed`), and what is left runs on a stack of `PAPI_EVENTS_IN_DERIVED_EVENT` cells
(`calcLoop_render`). With `infixToPostfix_formula` this is the value of the formula as it was
written (`formula_value`).
-/

set_option autoImplicit false

namespace PbdPapi.Derived

open Rpn Yard Exec

/-- What the machine does for an operator; the last two are not reached. -/
def Double.op {D : Type} (F : Double D) : Operator → D → D → D
  | .add => F.add
  | .sub => F.sub
  | .mul => F.mul
  | .div => F.div
  | .mod => fun a _ => a
  | .pow => fun a _ => a

def Operator.arithmetic : Operator → Bool
  | mod | pow => false
  | _ => true

/-- The items that are not skipped. -/
def executed (c : List (Item Ref Operator)) : List (Item Ref Operator) :=
  c.filter fun
    | .push _ => true
    | .apply o => o.arithmetic

section
variable {D : Type} (F : Double D) (cpuMaxMhz : Int) (evi : EventInfo) (hwCounter : List Int)

/-- The value of an operand, if the arrays and the type `int` have it. -/
def value : Ref → Option D
  | .counter k =>
    if k < 2 ^ 31 then
      F.ofInt <$> (cell evi.pos k >>= cell hwCounter).toOption
    else none
  | .mhz => some (F.mul (F.ofInt cpuMaxMhz) (F.ofInt 1000000))
  | .const n => if n < 2 ^ 31 then some (F.ofInt n) else none

end

/-! ## Words -/

theorem operandLoop_append {s : Text} (hs : '|' ∉ s) (q : Text) (i : Nat) :
    operandLoop i (s ++ '|' :: q) = if i + s.length < 16 then .ok (s, q) else .error .write := by
  induction s generalizing i with
  | nil =>
    rw [List.nil_append, operandLoop]
    by_cases h : i < 16
    · rw [if_neg (by omega), if_pos rfl, if_pos (show i + ([] : Text).length < 16 from h)]
    · rw [if_pos (by omega), if_neg (show ¬ i + ([] : Text).length < 16 from h)]
  | cons c s ih =>
    rw [List.mem_cons, not_or] at hs
    rw [List.cons_append, operandLoop, ih hs.2, if_neg (Ne.symm hs.1), List.length_cons]
    by_cases h : i + (s.length + 1) < 16
    · rw [if_neg (by omega), if_pos (by omega), if_pos h]
      rfl
    · rw [if_neg h, if_neg (show ¬ i + 1 + s.length < 16 by omega)]
      split <;> rfl

theorem readOperand_append {s : Text} (hs : s ≠ []) (hbar : '|' ∉ s) (q : Text) :
    readOperand (s ++ '|' :: q) = if s.length < 16 then .ok (s, q) else .error .write := by
  cases s with
  | nil => exact absurd rfl hs
  | cons c s =>
    rw [List.mem_cons, not_or] at hbar
    rw [List.cons_append, readOperand, operandLoop_append hbar.2, List.length_cons, Nat.add_comm 1]
    split <;> rfl

theorem isDigit_of_mem {n : Nat} {c : Char} (h : c ∈ Nat.toDigits 10 n) : c.isDigit :=
  Nat.isDigit_of_mem_toDigits (by decide) (by decide) h

theorem not_mem_digits {c : Char} (hc : c.isDigit = false) (n : Nat) : c ∉ Nat.toDigits 10 n := by
  intro h
  rw [isDigit_of_mem h] at hc
  cases hc

theorem leading_digits (n : Nat) : leading (Nat.toDigits 10 n) = n := by
  rw [leading, List.takeWhile_eq_self_iff.2 fun c hc => isDigit_of_mem hc]
  exact Nat.ofDigitChars_ten_toDigits

theorem isspace_digit {c : Char} (h : c.isDigit) : isspace c = false := by
  simp only [Char.isDigit, Bool.and_eq_true, decide_eq_true_eq, ge_iff_le,
    UInt32.le_iff_toNat_le] at h
  have h₁ : c ≠ ' ' := by
    rintro rfl
    exact absurd h.1 (by decide)
  have h₂ : ¬ c ≤ '\r' := by
    intro hle
    have : c.val.toNat ≤ 13 := hle
    have : 48 ≤ c.val.toNat := h.1
    omega
  simp [isspace, h₁, h₂]

theorem atoi_digits (n : Nat) : atoi (Nat.toDigits 10 n) = int n := by
  have hdrop : (Nat.toDigits 10 n).dropWhile isspace = Nat.toDigits 10 n := by
    cases h : Nat.toDigits 10 n with
    | nil => rfl
    | cons c s =>
      have hc : c ∈ Nat.toDigits 10 n := h ▸ List.mem_cons_self
      rw [List.dropWhile_cons_of_neg (by simp [isspace_digit (isDigit_of_mem hc)])]
  unfold atoi
  rw [hdrop]
  split
  · next s heq => exact absurd (heq ▸ List.mem_cons_self) (not_mem_digits (c := '-') rfl n)
  · next s heq => exact absurd (heq ▸ List.mem_cons_self) (not_mem_digits (c := '+') rfl n)
  · rw [leading_digits]

theorem length_digits {n : Nat} (h : n < 2 ^ 31) : (Nat.toDigits 10 n).length < 16 := by
  have : (Nat.toDigits 10 n).length ≤ 10 := by
    rw [Nat.length_toDigits_le_iff (by decide) (by decide)]
    omega
  omega

/-- Reading a number, and going on with it: it fails for one that is no `int`. -/
theorem readDigits {α : Type} (n : Nat) (q : Text) (f : Int → Text → Except Fault α) :
    (do let (operand, point) ← readOperand (Nat.toDigits 10 n ++ '|' :: q)
        let k ← atoi operand
        f k point).toOption = if n < 2 ^ 31 then (f n q).toOption else none := by
  rw [readOperand_append Nat.toDigits_ne_nil (not_mem_digits rfl n)]
  by_cases h : n < 2 ^ 31
  · rw [if_pos (length_digits h), if_pos h]
    change (atoi (Nat.toDigits 10 n) >>= _).toOption = _
    rw [atoi_digits, int, if_pos (by omega)]
    rfl
  · rw [if_neg h]
    split
    · change (atoi (Nat.toDigits 10 n) >>= _).toOption = _
      rw [atoi_digits, int, if_neg (by omega)]
      rfl
    · rfl

/-! ## Items -/

section
variable {D : Type} (F : Double D) (cpuMaxMhz : Int) (evi : EventInfo) (hwCounter : List Int)

theorem pushValue_bind {α : Type} (x : D) (st : List D) (f : List D → Except Fault α) :
    (pushValue x st >>= f).toOption =
      if st.length < eventsInDerivedEvent then (f (x :: st)).toOption else none := by
  unfold pushValue
  split <;> rfl

/-- What the function does for an item on its stack. -/
def itemStep (i : Item Ref Operator) (st : List D) : Option (List D) :=
  match i with
  | .apply .mod | .apply .pow => some st
  | i => Rpn.step (value F cpuMaxMhz evi hwCounter) F.op eventsInDerivedEvent i st

theorem calcOp_eq (op : D → D → D) (q : Text) (st : List D) :
    (calcOp op ('|' :: q) st).toOption = (applyTop op st).toOption.map (q, ·) := by
  unfold calcOp
  cases applyTop op st <;> rfl

theorem applyTop_eq (val : Ref → Option D) (o : Operator) (st : List D) :
    (applyTop (F.op o) st).toOption = Rpn.step val F.op eventsInDerivedEvent (.apply o) st := by
  match st with
  | [] => rfl
  | [_] => rfl
  | _ :: _ :: _ => rfl

/-- The pass for the word of an item. -/
theorem calcStep_item (i : Item Ref Operator) (q : Text) (st : List D) :
    ∃ c s, word Ref.word i = c :: s ∧ c ≠ '\x00' ∧
      (calcStep F cpuMaxMhz evi hwCounter c (s ++ '|' :: q) st).toOption =
        (itemStep F cpuMaxMhz evi hwCounter i st).map (q, ·) := by
  cases i with
  | push r =>
    cases r with
    | counter k =>
      refine ⟨'N', Nat.toDigits 10 k, rfl, by decide, ?_⟩
      rw [calcStep, if_neg (by decide), if_pos rfl]
      refine (readDigits k q fun n point => do
        let x ← cell hwCounter (← cell evi.pos n)
        let stack ← pushValue (F.ofInt x) st
        return (point, stack)).trans ?_
      simp only [itemStep, Rpn.step, value]
      by_cases hk : k < 2 ^ 31
      · rw [if_pos hk, if_pos hk]
        cases hp : cell evi.pos k with
        | error f => split <;> rfl
        | ok p =>
          change (cell hwCounter p >>= _).toOption = Option.map _ (if _ then
            Option.map _ (F.ofInt <$> (cell hwCounter p).toOption) else none)
          cases cell hwCounter p with
          | error f => split <;> rfl
          | ok x =>
            change (pushValue (F.ofInt x) st >>= _).toOption = _
            rw [pushValue_bind]
            split <;> rfl
      · rw [if_neg hk, if_neg hk]
        simp
    | mhz =>
      refine ⟨'#', [], rfl, by decide, ?_⟩
      rw [calcStep, if_neg (by decide), if_neg (by decide), if_pos rfl, pushValue_bind]
      simp only [itemStep, Rpn.step, value]
      split <;> rfl
    | const n =>
      obtain ⟨c, s, hcs⟩ := List.exists_cons_of_ne_nil (Nat.toDigits_ne_nil (n := n) (b := 10))
      have hd : c.isDigit = true := isDigit_of_mem (n := n) (hcs ▸ List.mem_cons_self)
      have hne : ∀ d : Char, d.isDigit = false → c ≠ d := by
        rintro d hd' rfl
        rw [hd] at hd'
        cases hd'
      refine ⟨c, s, hcs, hne _ rfl, ?_⟩
      rw [calcStep, if_neg (hne _ rfl), if_neg (hne _ rfl), if_neg (hne _ rfl), if_pos hd,
        ← List.cons_append, ← hcs]
      refine (readDigits n q fun k point => do
        let stack ← pushValue (F.ofInt k) st
        return (point, stack)).trans ?_
      simp only [itemStep, Rpn.step, value]
      by_cases hn : n < 2 ^ 31
      · rw [if_pos hn, if_pos hn, pushValue_bind]
        split <;> rfl
      · rw [if_neg hn, if_neg hn]
        simp
  | apply o =>
    refine ⟨o.char, [], rfl, by cases o <;> decide, ?_⟩
    cases o with
    | add => exact (calcOp_eq F.add q st).trans (congrArg _ (applyTop_eq F _ .add st))
    | sub => exact (calcOp_eq F.sub q st).trans (congrArg _ (applyTop_eq F _ .sub st))
    | mul => exact (calcOp_eq F.mul q st).trans (congrArg _ (applyTop_eq F _ .mul st))
    | div => exact (calcOp_eq F.div q st).trans (congrArg _ (applyTop_eq F _ .div st))
    | mod | pow => rfl

theorem exec_executed_cons (i : Item Ref Operator) (c : List (Item Ref Operator)) (st : List D) :
    exec (value F cpuMaxMhz evi hwCounter) F.op eventsInDerivedEvent (executed (i :: c)) st =
      (itemStep F cpuMaxMhz evi hwCounter i st).bind
        (exec (value F cpuMaxMhz evi hwCounter) F.op eventsInDerivedEvent (executed c)) := by
  cases i with
  | push r => rfl
  | apply o => cases o <;> rfl

/-- The loop of the function runs the code of the formula. -/
theorem calcLoop_render (c : List (Item Ref Operator)) (st : List D) :
    (calcLoop F cpuMaxMhz evi hwCounter (render Ref.word c ++ ['\x00']) st).toOption =
      exec (value F cpuMaxMhz evi hwCounter) F.op eventsInDerivedEvent (executed c) st := by
  induction c generalizing st with
  | nil =>
    rw [calcLoop.eq_def]
    rfl
  | cons i c ih =>
    obtain ⟨a, s, hw, ha, hstep⟩ :=
      calcStep_item F cpuMaxMhz evi hwCounter i (render Ref.word c ++ ['\x00']) st
    have hr : render Ref.word (i :: c) ++ ['\x00'] =
        a :: (s ++ '|' :: (render Ref.word c ++ ['\x00'])) := by
      simp [render, barred, hw]
    rw [hr, calcLoop.eq_def, exec_executed_cons]
    simp only [if_neg ha]
    split
    · next f herr =>
      rw [herr] at hstep
      cases hi : itemStep F cpuMaxMhz evi hwCounter i st with
      | none => rfl
      | some st' =>
        rw [hi] at hstep
        cases hstep
    · next q st' hok =>
      rw [hok] at hstep
      cases hi : itemStep F cpuMaxMhz evi hwCounter i st with
      | none =>
        rw [hi] at hstep
        cases hstep
      | some st'' =>
        rw [hi] at hstep
        cases hstep
        exact ih st'

/-! ## The result -/

/-- What the function returns for what it leaves on the stack. -/
def result (st : List D) : Int := F.toLongLong (st.getLast?.getD (F.ofInt 0))

theorem calc_ok {c : List (Item Ref Operator)} {x : Int} :
    papiHwiPostfixCalc F cpuMaxMhz { evi with ops := some (render Ref.word c) } hwCounter = .ok x ↔
      ∃ st, exec (value F cpuMaxMhz evi hwCounter) F.op eventsInDerivedEvent (executed c) [] =
        some st ∧ x = result F st := by
  have h := calcLoop_render F cpuMaxMhz { evi with ops := some (render Ref.word c) } hwCounter c []
  have hval : value F cpuMaxMhz { evi with ops := some (render Ref.word c) } hwCounter =
    value F cpuMaxMhz evi hwCounter := rfl
  rw [hval] at h
  rw [← h]
  change (calcLoop F cpuMaxMhz _ hwCounter _ [] >>= fun st => Except.ok (result F st)) = .ok x ↔ _
  cases calcLoop F cpuMaxMhz { evi with ops := some (render Ref.word c) } hwCounter
      (render Ref.word c ++ ['\x00']) [] with
  | error f =>
    refine iff_of_false (fun heq => by cases heq) ?_
    rintro ⟨st, hst, -⟩
    cases hst
  | ok st =>
    constructor
    · intro heq
      cases heq
      exact ⟨st, rfl, rfl⟩
    · rintro ⟨st', hst, rfl⟩
      cases hst
      rfl

theorem apply_mem_code {κ : Type} {e : Infix κ Operator} {o : Operator} :
    .apply o ∈ e.tree.code ↔ .op o ∈ e.tokens := by
  induction e with
  | atom k => simp [Infix.tree, Ast.code, Infix.tokens]
  | paren e ih => simp [Infix.tree, Infix.tokens, ih]
  | bin l o' r ihl ihr =>
    simp only [Infix.tree, Ast.code, Infix.tokens, List.mem_append, List.mem_cons, ihl, ihr,
      List.not_mem_nil, or_false, Item.apply.injEq, Token.op.injEq]
    tauto

theorem executed_append (c d : List (Item Ref Operator)) :
    executed (c ++ d) = executed c ++ executed d := List.filter_append ..

theorem executed_eq_self {c : List (Item Ref Operator)}
    (h : ∀ o, .apply o ∈ c → o.arithmetic = true) : executed c = c := by
  rw [executed, List.filter_eq_self]
  intro i hi
  cases i with
  | push k => rfl
  | apply o => exact h o hi

/-- Only operators that the machine has. -/
def Arithmetic (e : Infix Ref Operator) : Prop := ∀ o, .op o ∈ e.tokens → o.arithmetic = true

theorem executed_code {e : Infix Ref Operator} (h : Arithmetic e) :
    executed e.tree.code = e.tree.code := executed_eq_self fun o ho => h o (apply_mem_code.1 ho)

theorem Arithmetic.group {e : Infix Ref Operator} (h : Arithmetic e) :
    Arithmetic (e.group Operator.prio) := by
  intro o ho
  rw [Infix.tokens_group] at ho
  exact h o ho

/-- The formula as the functions compute it: converted, and then evaluated. -/
def evaluate (e : Infix Ref Operator) : Except Fault Int := do
  let ops ← infixToPostfix (text Ref.word e)
  papiHwiPostfixCalc F cpuMaxMhz { evi with ops := some ops } hwCounter

theorem evaluate_eq {e : Infix Ref Operator} (hlen : (text Ref.word e).length < hugeStrLen) :
    evaluate F cpuMaxMhz evi hwCounter e = papiHwiPostfixCalc F cpuMaxMhz
      { evi with ops := some (render Ref.word (e.group Operator.prio).tree.code) } hwCounter := by
  rw [evaluate, infixToPostfix_formula e hlen]
  rfl

theorem exec_tree {t : Ast Ref Operator} {st : List D} :
    exec (value F cpuMaxMhz evi hwCounter) F.op eventsInDerivedEvent t.code [] = some st ↔
      t.depth ≤ eventsInDerivedEvent ∧ ∃ v,
        t.eval (value F cpuMaxMhz evi hwCounter) F.op = some v ∧ st = [v] := by
  rw [exec_nil]
  constructor
  · rintro ⟨ts, hcode, hfit, hts⟩
    obtain rfl : [t] = ts := codes_injective (by rw [← hcode]; simp [codes])
    obtain ⟨v, vs, hv, hvs, rfl⟩ := mapM_cons_eq_some.1 hts
    cases hvs
    exact ⟨hfit.1, v, hv, rfl⟩
  · rintro ⟨hdepth, v, hv, rfl⟩
    exact ⟨[t], by simp [codes], ⟨hdepth, trivial⟩, mapM_cons_eq_some.2 ⟨v, [], hv, rfl, rfl⟩⟩

theorem evaluate_ok {e : Infix Ref Operator} (hlen : (text Ref.word e).length < hugeStrLen)
    (he : Arithmetic e) {x : Int} :
    evaluate F cpuMaxMhz evi hwCounter e = .ok x ↔
      (e.group Operator.prio).tree.depth ≤ eventsInDerivedEvent ∧
        ∃ v, (e.group Operator.prio).tree.eval (value F cpuMaxMhz evi hwCounter) F.op = some v ∧
          x = F.toLongLong v := by
  rw [evaluate_eq F cpuMaxMhz evi hwCounter hlen, calc_ok, executed_code he.group]
  constructor
  · rintro ⟨st, hst, rfl⟩
    obtain ⟨hdepth, v, hv, rfl⟩ := (exec_tree F cpuMaxMhz evi hwCounter).1 hst
    exact ⟨hdepth, v, hv, rfl⟩
  · rintro ⟨hdepth, v, hv, rfl⟩
    exact ⟨[v], (exec_tree F cpuMaxMhz evi hwCounter).2 ⟨hdepth, v, hv, rfl⟩, rfl⟩

/-- Exact arithmetic. -/
def ratDouble : Double Rat where
  ofInt n := n
  add := (· + ·)
  sub := (· - ·)
  mul := (· * ·)
  div := (· / ·)
  toLongLong x := x.num.tdiv x.den

/-- Three counters, without parentheses. -/
def chain (o₁ o₂ : Operator) : Infix Ref Operator :=
  .bin (pair o₁) o₂ (.atom (.counter 2))

def threeCounters : EventInfo := ⟨(-2147483648), [0, 1, 2], none, .derivedPostfix⟩

theorem group_pair (o : Operator) : (pair o).group Operator.prio = pair o := by
  simp [pair, Infix.group, Infix.join]

theorem group_chain_sub : (chain .sub .sub).group Operator.prio =
    .bin (.atom (.counter 0)) .sub (.bin (.atom (.counter 1)) .sub (.atom (.counter 2))) := by
  simp [chain, pair, Infix.group, Infix.join, Infix.weaker, Infix.root?]

/-- What the machine accepts is the codes of trees in a row, and its result is the value of the
first one. -/
theorem calc_ok_iff (c : List (Item Ref Operator)) (x : Int) :
    papiHwiPostfixCalc F cpuMaxMhz { evi with ops := some (render Ref.word c) } hwCounter = .ok x ↔
      ∃ ts st, executed c = codes ts ∧ Fits eventsInDerivedEvent ts ∧
        ts.mapM (Ast.eval (value F cpuMaxMhz evi hwCounter) F.op) = some st ∧ x = result F st := by
  rw [calc_ok]
  constructor
  · rintro ⟨st, hst, rfl⟩
    obtain ⟨ts, hcode, hfit, hts⟩ := exec_nil.1 hst
    exact ⟨ts, st, hcode, hfit, hts, rfl⟩
  · rintro ⟨ts, st, hcode, hfit, hts, rfl⟩
    exact ⟨st, exec_nil.2 ⟨ts, hcode, hfit, hts⟩, rfl⟩

end

/-! ## Reading to the left -/

/-- The laws of exact arithmetic that move parentheses. -/
structure Double.Exact {D : Type} (F : Double D) : Prop where
  add_add : ∀ x y z, F.add (F.add x y) z = F.add x (F.add y z)
  add_sub : ∀ x y z, F.sub (F.add x y) z = F.add x (F.sub y z)
  mul_mul : ∀ x y z, F.mul (F.mul x y) z = F.mul x (F.mul y z)
  mul_div : ∀ x y z, F.div (F.mul x y) z = F.mul x (F.div y z)

/-- An operator that may be grouped to the right with the one behind it. -/
def Movable : Operator → Operator → Prop
  | .add, .add | .add, .sub | .mul, .mul | .mul, .div => True
  | _, _ => False

theorem Double.Exact.law {D : Type} {F : Double D} (h : F.Exact) {o o' : Operator}
    (ho : Movable o o') (x y z : D) : F.op o' (F.op o x y) z = F.op o x (F.op o' y z) := by
  cases o <;> cases o' <;> first
    | exact h.add_add x y z
    | exact h.add_sub x y z
    | exact h.mul_mul x y z
    | exact h.mul_div x y z
    | cases ho

theorem ratDouble_exact : ratDouble.Exact where
  add_add := Rat.add_assoc
  add_sub x y z := by
    change x + y - z = x + (y - z)
    rw [Rat.sub_eq_add_neg, Rat.sub_eq_add_neg, Rat.add_assoc]
  mul_mul := Rat.mul_assoc
  mul_div x y z := by
    change x * y / z = x * (y / z)
    rw [Rat.div_def, Rat.div_def, Rat.mul_assoc]

end PbdPapi.Derived
