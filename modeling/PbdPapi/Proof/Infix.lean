import PbdPapi.Papi.Syntax
import Mathlib.Data.List.Infix
import Mathlib.Data.List.TakeWhile

/-!
# From infix to postfix

What `infix_to_postfix` does with any text, and what it makes of a formula.

`load` bounds what the arrays hold: a character that is read adds at most two to it
(`convert_load`), so that a text shorter than `PAPI_HUGE_STR_LEN` never leads behind the end of
`postfix` (`infixToPostfix_no_write`). `infixToPostfix_ok_iff` says which texts are accepted: those
whose first character that is no `(` belongs to an operand, and that close no parenthesis that they
have not opened.

`Sim` relates the arrays to the state of a shunting yard; `infixToPostfix_text`: a formula comes
out as the code of its tree, with operators of one priority grouped to the right.
-/

set_option autoImplicit false

namespace PbdPapi.Derived

open Rpn Yard Exec

theorem ok_bind {α β : Type} (a : α) (f : α → Except Fault β) : (Except.ok a >>= f) = f a := rfl

/-! ## Writing -/

theorem put_ok {c : Char} {out out' : Text} :
    put c out = .ok out' ↔ out.length < 2 * hugeStrLen ∧ out' = out ++ [c] := by
  unfold put
  split
  · next h => simp [h, eq_comm]
  · next h => simp [h]

theorem put_error {c : Char} {out : Text} {f : Fault} (h : put c out = .error f) :
    f = .write ∧ 2 * hugeStrLen ≤ out.length := by
  unfold put at h
  split at h
  · cases h
  · next hn =>
    cases h
    exact ⟨rfl, Nat.not_lt.1 hn⟩

theorem putOp_ok {c : Char} {out out' : Text} :
    putOp c out = .ok out' ↔ out.length + 1 < 2 * hugeStrLen ∧ out' = out ++ [c, '|'] := by
  rw [putOp, except_bind_ok]
  constructor
  · rintro ⟨out₁, h₁, h₂⟩
    obtain ⟨-, rfl⟩ := put_ok.1 h₁
    obtain ⟨hlt, rfl⟩ := put_ok.1 h₂
    exact ⟨by simpa using hlt, by simp⟩
  · rintro ⟨hlt, rfl⟩
    exact ⟨out ++ [c], put_ok.2 ⟨by omega, rfl⟩, put_ok.2 ⟨by simpa using hlt, by simp⟩⟩

theorem putOp_error {c : Char} {out : Text} {f : Fault} (h : putOp c out = .error f) :
    f = .write ∧ 2 * hugeStrLen ≤ out.length + 1 := by
  cases h₁ : put c out with
  | error f' =>
    rw [putOp, h₁] at h
    cases h
    obtain ⟨hf, hle⟩ := put_error h₁
    exact ⟨hf, by omega⟩
  | ok out' =>
    rw [putOp, h₁] at h
    obtain ⟨-, rfl⟩ := put_ok.1 h₁
    obtain ⟨hf, hle⟩ := put_error (c := '|') h
    exact ⟨hf, by simpa using hle⟩

/-- One for a word that has no `|` behind it. -/
def unclosed (out : Text) : Nat := if out.getLast?.all (· = '|') then 0 else 1

@[simp] theorem unclosed_nil : unclosed [] = 0 := rfl

@[simp] theorem unclosed_bar (out : Text) : unclosed (out ++ ['|']) = 0 := by simp [unclosed]

theorem unclosed_le (out : Text) : unclosed out ≤ 1 := by
  unfold unclosed
  split <;> omega

theorem bar_nil : bar [] = .error .read := rfl

theorem bar_ok {out out' : Text} (h : bar out = .ok out') :
    unclosed out' = 0 ∧ out'.length = out.length + unclosed out ∧ out' ≠ [] := by
  unfold bar at h
  split at h
  · cases h
  · next c hc =>
    have hne : out ≠ [] := by
      rintro rfl
      cases hc
    split at h
    · next hbar =>
      cases h
      have : unclosed out = 0 := by simp [unclosed, hc, hbar]
      exact ⟨this, by omega, hne⟩
    · next hbar =>
      obtain ⟨-, rfl⟩ := put_ok.1 h
      have : unclosed out = 1 := by simp [unclosed, hc, hbar]
      exact ⟨unclosed_bar out, by simp [this], by simp⟩

theorem bar_error {out : Text} {f : Fault} (h : bar out = .error f) :
    (f = .read ∧ out = []) ∨ (f = .write ∧ 2 * hugeStrLen ≤ out.length ∧ unclosed out = 1) := by
  unfold bar at h
  split at h
  · next hc =>
    cases h
    exact .inl ⟨rfl, List.getLast?_eq_none_iff.1 hc⟩
  · next c hc =>
    split at h
    · cases h
    · next hbar =>
      obtain ⟨hf, hle⟩ := put_error h
      exact .inr ⟨hf, hle, by simp [unclosed, hc, hbar]⟩

/-! ## What the arrays hold -/

/-- What `postfix` holds or may still get from what is read: a `|`, and each operator on the stack
with one. -/
def load (s : Conversion) : Nat := s.out.length + unclosed s.out + 2 * s.stack.length

theorem popUntil_ok {stop : Char → Bool} {st : List Char} {out : Text} {s : Conversion}
    (h : popUntil stop st out = .ok s) (hout : unclosed out = 0) :
    unclosed s.out = 0 ∧ s.out.length + 2 * s.stack.length = out.length + 2 * st.length ∧
      (∃ p c q, st = p ++ c :: q ∧ s.stack = c :: q ∧ stop c ∧ ∀ d ∈ p, stop d = false) ∧
      (out ≠ [] → s.out ≠ []) := by
  induction st generalizing out with
  | nil => cases h
  | cons c st ih =>
    rw [popUntil] at h
    split at h
    · next hc =>
      cases h
      exact ⟨hout, rfl, ⟨[], c, st, rfl, rfl, hc, by simp⟩, id⟩
    · next hc =>
      obtain ⟨out', hput, h⟩ := except_bind_ok.1 h
      obtain ⟨-, rfl⟩ := putOp_ok.1 hput
      have hcl : unclosed (out ++ [c, '|']) = 0 := by simpa using unclosed_bar (out ++ [c])
      obtain ⟨h₁, h₂, ⟨p, d, q, rfl, hs, hd, hp⟩, h₅⟩ := ih h hcl
      refine ⟨h₁, ?_, ⟨c :: p, d, q, rfl, hs, hd, ?_⟩, fun _ => h₅ (by simp)⟩
      · simp only [List.length_append, List.length_cons, List.length_nil] at h₂ ⊢
        omega
      · exact List.forall_mem_cons.2 ⟨eq_false_of_ne_true hc, hp⟩

theorem popUntil_error {stop : Char → Bool} {st : List Char} {out : Text} {f : Fault}
    (h : popUntil stop st out = .error f) :
    (f = .read ∧ ∀ c ∈ st, stop c = false) ∨
      (f = .write ∧ 2 * hugeStrLen < out.length + 2 * st.length) := by
  induction st generalizing out with
  | nil =>
    cases h
    exact .inl ⟨rfl, by simp⟩
  | cons c st ih =>
    rw [popUntil] at h
    split at h
    · cases h
    · next hc =>
      cases hput : putOp c out with
      | error f' =>
        rw [hput] at h
        cases h
        obtain ⟨hf, hle⟩ := putOp_error hput
        exact .inr ⟨hf, by rw [List.length_cons]; omega⟩
      | ok out' =>
        rw [hput] at h
        obtain ⟨-, rfl⟩ := putOp_ok.1 hput
        rcases ih h with ⟨hf, hmem⟩ | ⟨hf, hlt⟩
        · exact .inl ⟨hf, List.forall_mem_cons.2 ⟨eq_false_of_ne_true hc, hmem⟩⟩
        · refine .inr ⟨hf, ?_⟩
          simp only [List.length_append, List.length_cons, List.length_nil] at hlt ⊢
          omega

/-- The loop over the operators that bind stronger always ends: at `#` if not before. -/
theorem popAbove_error {token : Char} {st : List Char} {out : Text} {f : Fault}
    (h : popAbove token st out = .error f) (htop : isOperator token) (hst : '#' ∈ st) :
    f = .write ∧ 2 * hugeStrLen < out.length + 2 * st.length := by
  rcases popUntil_error h with ⟨-, hall⟩ | h
  · have hprio : ¬ priority '#' > priority token := by
      simp only [isOperator, Bool.or_eq_true, decide_eq_true_eq] at htop
      rcases htop with ((((rfl | rfl) | rfl) | rfl) | rfl) | rfl <;> decide
    have := hall '#' hst
    simp [hprio] at this
  · exact h

/-! ## Reading a text -/

/-- `c` cannot follow `p`: it ends an operand that has not begun, or closes a parenthesis that is
not open. -/
def Bad (p : Text) (c : Char) : Prop :=
  ((c = ')' ∨ isOperator c) ∧ ∀ d ∈ p, d = '(') ∨ (c = ')' ∧ p.count ')' = p.count '(')

/-- The arrays after the text `p` has been read. -/
structure Reads (p : Text) (s : Conversion) : Prop where
  load_le : load s ≤ 2 + 2 * p.length
  bottom : s.stack.getLast? = some '#'
  opened : s.stack.count '(' + p.count ')' = p.count '('
  begun : s.out = [] ↔ ∀ d ∈ p, d = '('

theorem Reads.nil : Reads [] ⟨['#'], []⟩ := ⟨Nat.le_refl 2, rfl, rfl, by simp⟩

theorem push_of_lt {c : Char} {s : Conversion} (h : s.stack.length < hugeStrLen) :
    push c s = { s with stack := c :: s.stack } := if_pos h

theorem getLast?_suffix {α : Type} {p q : List α} (hq : q ≠ []) :
    (p ++ q).getLast? = q.getLast? := by
  rw [List.getLast?_append, List.getLast?_eq_some_getLast hq]
  rfl

theorem Reads.load_lt {p : Text} {s : Conversion} (h : Reads p s)
    (hlen : p.length + 1 < hugeStrLen) : load s < 2 * hugeStrLen := by
  have := h.load_le
  omega

theorem length_lt_of_load {s : Conversion} (h : load s < 2 * hugeStrLen) :
    s.stack.length < hugeStrLen := by
  unfold load at h
  omega

theorem Reads.lparen {p : Text} {s : Conversion} (h : Reads p s) (hload : load s < 2 * hugeStrLen) :
    convert s '(' = .ok { s with stack := '(' :: s.stack } ∧
      Reads (p ++ ['(']) { s with stack := '(' :: s.stack } := by
  refine ⟨?_, ?_, ?_, ?_, ?_⟩
  · rw [convert, if_pos rfl, push_of_lt (length_lt_of_load hload)]
  · have := h.load_le
    simp only [load, List.length_cons, List.length_append, List.length_nil] at this ⊢
    omega
  · have hne : s.stack ≠ [] := by
      intro hnil
      have := h.bottom
      rw [hnil] at this
      cases this
    have := getLast?_suffix (p := ['(']) hne
    exact this.trans h.bottom
  · have := h.opened
    simp only [List.count_cons_self, List.count_append, List.count_nil]
    simp
    omega
  · rw [h.begun]
    simp [or_imp]

theorem Reads.plain {p : Text} {s : Conversion} {c : Char} (h : Reads p s)
    (hload : load s < 2 * hugeStrLen) (h₁ : c ≠ '(') (h₂ : c ≠ ')') (h₃ : isOperator c = false) :
    convert s c = .ok { s with out := s.out ++ [c] } ∧
      Reads (p ++ [c]) { s with out := s.out ++ [c] } := by
  have hput : put c s.out = .ok (s.out ++ [c]) := by
    refine put_ok.2 ⟨?_, rfl⟩
    unfold load at hload
    omega
  refine ⟨?_, ?_, h.bottom, ?_, ?_⟩
  · rw [convert, if_neg h₁, if_neg h₂, if_neg (by simp [h₃]), hput]
    rfl
  · have := h.load_le
    have := unclosed_le (s.out ++ [c])
    simp only [load, List.length_cons, List.length_append, List.length_nil] at *
    omega
  · have := h.opened
    rw [List.count_append, List.count_append, List.count_singleton, List.count_singleton]
    simp [h₁, h₂, this]
  · simp [h₁]

theorem Reads.bar {p : Text} {s : Conversion} (h : Reads p s) (hload : load s < 2 * hugeStrLen)
    (hp : ¬ ∀ d ∈ p, d = '(') : ∃ out, bar s.out = .ok out ∧ out ≠ [] ∧
      unclosed out = 0 ∧ out.length = s.out.length + unclosed s.out := by
  cases hb : Derived.bar s.out with
  | ok out =>
    obtain ⟨h₁, h₂, h₃⟩ := bar_ok hb
    exact ⟨out, rfl, h₃, h₁, h₂⟩
  | error f =>
    rcases bar_error hb with ⟨-, hnil⟩ | ⟨-, hle, -⟩
    · exact absurd (h.begun.1 hnil) hp
    · unfold load at hload
      omega

theorem Reads.bar_read {p : Text} {s : Conversion} (h : Reads p s) (hp : ∀ d ∈ p, d = '(') :
    Derived.bar s.out = .error .read := by rw [h.begun.2 hp, bar_nil]

theorem Reads.operator {p : Text} {s : Conversion} {c : Char} (h : Reads p s)
    (hload : load s < 2 * hugeStrLen) (hc : isOperator c) (hp : ¬ ∀ d ∈ p, d = '(') :
    ∃ s', convert s c = .ok s' ∧ Reads (p ++ [c]) s' := by
  have h₁ : c ≠ '(' := by rintro rfl; cases hc
  have h₂ : c ≠ ')' := by rintro rfl; cases hc
  obtain ⟨out, hbar, hne, hun, hlen⟩ := h.bar hload hp
  have hle := h.load_le
  unfold load at hload hle
  have hconv : convert s c = popAbove c s.stack out >>= fun s' => .ok (push c s') := by
    rw [convert, if_neg h₁, if_neg h₂, if_pos hc, hbar]
    rfl
  cases hpop : popAbove c s.stack out with
  | error f =>
    obtain ⟨-, hlt⟩ := popAbove_error hpop hc (List.mem_of_getLast? h.bottom)
    omega
  | ok s₁ =>
    obtain ⟨hun₁, hlen₁, ⟨q, d, r, hst, hs₁, -, hq⟩, hout₁⟩ := popUntil_ok hpop hun
    have hstack : s₁.stack.length < hugeStrLen := by omega
    refine ⟨_, by rw [hconv, hpop]; rfl, ?_⟩
    rw [push_of_lt hstack]
    have hcount : q.count '(' = 0 := by
      rw [List.count_eq_zero]
      intro hmem
      have := hq _ hmem
      simp only [isOperator, Bool.or_eq_true, decide_eq_true_eq] at hc
      rcases hc with ((((rfl | rfl) | rfl) | rfl) | rfl) | rfl <;> cases this
    have hbottom := h.bottom
    rw [hst, getLast?_suffix (List.cons_ne_nil d r), ← hs₁] at hbottom
    refine ⟨?_, ?_, ?_, ?_⟩
    · simp only [load, List.length_cons, List.length_append, List.length_nil]
      omega
    · have := getLast?_suffix (p := [c]) (q := s₁.stack) (by simp [hs₁])
      exact this.trans hbottom
    · have := h.opened
      rw [hst, List.count_append, hcount, ← hs₁] at this
      rw [List.count_append, List.count_append, List.count_singleton, List.count_singleton,
        List.count_cons]
      simp [h₁, h₂]
      omega
    · exact iff_of_false (hout₁ hne) fun hall => h₁ (hall c (by simp))

theorem Reads.rparen {p : Text} {s : Conversion} (h : Reads p s) (hload : load s < 2 * hugeStrLen)
    (hp : ¬ ∀ d ∈ p, d = '(') :
    if p.count ')' = p.count '(' then convert s ')' = .error .read
    else ∃ s', convert s ')' = .ok s' ∧ Reads (p ++ [')']) s' := by
  obtain ⟨out, hbar, hne, hun, hlen⟩ := h.bar hload hp
  have hle := h.load_le
  have hopened := h.opened
  unfold load at hload hle
  have hconv : convert s ')' =
      popParen s.stack out >>= fun s' => .ok { s' with stack := s'.stack.tail } := by
    rw [convert, if_neg (by decide), if_pos rfl, hbar]
    rfl
  cases hpop : popParen s.stack out with
  | error f =>
    rcases popUntil_error hpop with ⟨rfl, hall⟩ | ⟨-, hlt⟩
    · have hcount : s.stack.count '(' = 0 := by
        rw [List.count_eq_zero]
        intro hmem
        cases hall _ hmem
      rw [if_pos (by omega), hconv, hpop]
      rfl
    · omega
  | ok s₁ =>
    obtain ⟨hun₁, hlen₁, ⟨q, d, r, hst, hs₁, hd, hq⟩, hout₁⟩ := popUntil_ok hpop hun
    obtain rfl : d = '(' := of_decide_eq_true hd
    have hcount : q.count '(' = 0 := by
      rw [List.count_eq_zero]
      intro hmem
      cases hq _ hmem
    rw [hst, List.count_append, hcount, List.count_cons_self] at hopened
    rw [if_neg (by omega)]
    refine ⟨_, by rw [hconv, hpop]; rfl, ?_, ?_, ?_, ?_⟩
    · simp only [load, hs₁, List.tail_cons, List.length_cons, List.length_append,
        List.length_nil] at hlen₁ ⊢
      omega
    · have hbottom := h.bottom
      rw [hst, getLast?_suffix (List.cons_ne_nil _ r)] at hbottom
      cases r with
      | nil => cases hbottom
      | cons e r =>
        simp only [hs₁, List.tail_cons]
        rw [List.getLast?_cons_cons] at hbottom
        exact hbottom
    · rw [List.count_append, List.count_append, List.count_singleton, List.count_singleton]
      simp [hs₁]
      omega
    · exact iff_of_false (hout₁ hne) fun hall => absurd (hall ')' (by simp)) (by decide)

/-- One pass of the loop: it fails exactly if the character cannot follow. -/
theorem Reads.step {p : Text} {s : Conversion} (h : Reads p s) (hload : load s < 2 * hugeStrLen)
    (c : Char) :
    (Bad p c ∧ convert s c = .error .read) ∨
      (¬ Bad p c ∧ ∃ s', convert s c = .ok s' ∧ Reads (p ++ [c]) s') := by
  by_cases h₁ : c = '('
  · subst h₁
    refine .inr ⟨?_, _, h.lparen hload⟩
    rintro (⟨hc | hc, -⟩ | ⟨hc, -⟩) <;> cases hc
  by_cases hp : ∀ d ∈ p, d = '('
  · -- nothing but parentheses so far
    by_cases h₂ : c = ')'
    · subst h₂
      refine .inl ⟨.inl ⟨.inl rfl, hp⟩, ?_⟩
      rw [convert, if_neg h₁, if_pos rfl, h.bar_read hp]
      rfl
    by_cases h₃ : isOperator c
    · refine .inl ⟨.inl ⟨.inr h₃, hp⟩, ?_⟩
      rw [convert, if_neg h₁, if_neg h₂, if_pos h₃, h.bar_read hp]
      rfl
    · refine .inr ⟨?_, _, h.plain hload h₁ h₂ (eq_false_of_ne_true h₃)⟩
      rintro (⟨hc | hc, -⟩ | ⟨hc, -⟩)
      · exact h₂ hc
      · exact h₃ hc
      · exact h₂ hc
  · by_cases h₂ : c = ')'
    · subst h₂
      have := h.rparen hload hp
      split at this
      · next heq => exact .inl ⟨.inr ⟨rfl, heq⟩, this⟩
      · next hne =>
        refine .inr ⟨?_, this⟩
        rintro (⟨-, hall⟩ | ⟨-, heq⟩)
        · exact hp hall
        · exact hne heq
    refine .inr ⟨?_, ?_⟩
    · rintro (⟨-, hall⟩ | ⟨hc, -⟩)
      · exact hp hall
      · exact h₂ hc
    · by_cases h₃ : isOperator c
      · exact h.operator hload h₃ hp
      · exact ⟨_, h.plain hload h₁ h₂ (eq_false_of_ne_true h₃)⟩

/-- The loop over a text. -/
theorem Reads.run {p : Text} {s : Conversion} (h : Reads p s) (q : Text)
    (hlen : p.length + q.length < hugeStrLen) :
    (∃ q₁ c q₂, q = q₁ ++ c :: q₂ ∧ Bad (p ++ q₁) c ∧ q.foldlM convert s = .error .read) ∨
      ((∀ q₁ c q₂, q = q₁ ++ c :: q₂ → ¬ Bad (p ++ q₁) c) ∧
        ∃ s', q.foldlM convert s = .ok s' ∧ Reads (p ++ q) s') := by
  induction q generalizing p s with
  | nil => exact .inr ⟨by simp, s, rfl, by simpa using h⟩
  | cons c q ih =>
    have hload : load s < 2 * hugeStrLen := h.load_lt (by rw [List.length_cons] at hlen; omega)
    rcases h.step hload c with ⟨hbad, herr⟩ | ⟨hok, s', hs', hr⟩
    · refine .inl ⟨[], c, q, rfl, by simpa using hbad, ?_⟩
      rw [List.foldlM_cons, herr]
      rfl
    · have hlen' : (p ++ [c]).length + q.length < hugeStrLen := by
        simp only [List.length_append, List.length_cons, List.length_nil] at *
        omega
      rw [List.foldlM_cons, hs']
      rcases ih hr hlen' with ⟨q₁, d, q₂, rfl, hbad, herr⟩ | ⟨hall, s'', hs'', hr'⟩
      · exact .inl ⟨c :: q₁, d, q₂, rfl, by simpa using hbad, herr⟩
      · refine .inr ⟨fun q₁ d q₂ heq => ?_, s'', hs'', by simpa using hr'⟩
        cases q₁ with
        | nil =>
          cases heq
          simpa using hok
        | cons c' q₁ =>
          cases heq
          simpa using hall q₁ d q₂ rfl

/-! ## The texts that are accepted -/

/-- The first character that is no `(` belongs to an operand, and no parenthesis is closed that is
not open. -/
def Accepted (formula : Text) : Prop :=
  (∃ c, (formula.dropWhile (· = '(')).head? = some c ∧ c ≠ ')' ∧ isOperator c = false) ∧
    ∀ p, p <+: formula → p.count ')' ≤ p.count '('

instance decidablePrefixes (formula : Text) :
    Decidable (∀ p, p <+: formula → p.count ')' ≤ p.count '(') :=
  decidable_of_iff (∀ p ∈ formula.inits, p.count ')' ≤ p.count '(') (by simp [List.mem_inits])

theorem popAll_spec {st : List Char} (out : Text) (hst : st ≠ [])
    (h : out.length + 2 * st.length ≤ 2 * hugeStrLen) :
    ∃ out', popAll st out = .ok out' ∧ out'.length + 2 = out.length + 2 * st.length := by
  induction st generalizing out with
  | nil => exact absurd rfl hst
  | cons c st ih =>
    cases st with
    | nil => exact ⟨out, rfl, rfl⟩
    | cons d st =>
      simp only [List.length_cons] at h
      have hput : putOp c out = .ok (out ++ [c, '|']) := putOp_ok.2 ⟨by omega, rfl⟩
      rw [popAll, hput]
      obtain ⟨out', hout', hlen⟩ := ih (out ++ [c, '|']) (by simp)
        (by simp only [List.length_append, List.length_cons, List.length_nil]; omega)
      refine ⟨out', hout', ?_⟩
      simp only [List.length_append, List.length_cons, List.length_nil] at hlen ⊢
      omega

/-- What is left to do behind the loop. -/
def finish (s : Conversion) : Except Fault Text := do
  let out ← bar s.out
  let out ← popAll s.stack out
  let _ ← put '\x00' out
  return out

theorem infixToPostfix_eq (formula : Text) :
    infixToPostfix formula = formula.foldlM convert ⟨['#'], []⟩ >>= finish := rfl

theorem Reads.finish {p : Text} {s : Conversion} (h : Reads p s) (hlen : p.length < hugeStrLen) :
    ((∀ d ∈ p, d = '(') ∧ finish s = .error .read) ∨
      ((¬ ∀ d ∈ p, d = '(') ∧ ∃ out, finish s = .ok out ∧ out.length ≤ 2 * p.length) := by
  by_cases hp : ∀ d ∈ p, d = '('
  · refine .inl ⟨hp, ?_⟩
    rw [Derived.finish, h.bar_read hp]
    rfl
  refine .inr ⟨hp, ?_⟩
  have hle := h.load_le
  have hst : s.stack ≠ [] := by
    intro hnil
    have := h.bottom
    rw [hnil] at this
    cases this
  have hpos := List.length_pos_iff.2 hst
  unfold load at hle
  unfold hugeStrLen at hlen
  cases hb : Derived.bar s.out with
  | error f =>
    rcases bar_error hb with ⟨-, hnil⟩ | ⟨-, hge, -⟩
    · exact absurd (h.begun.1 hnil) hp
    · unfold hugeStrLen at hge
      omega
  | ok out =>
    obtain ⟨-, hout, -⟩ := bar_ok hb
    obtain ⟨out', hall, hlen'⟩ := popAll_spec out hst (by unfold hugeStrLen; omega)
    refine ⟨out', ?_, by omega⟩
    have hput : put '\x00' out' = .ok (out' ++ ['\x00']) := by
      refine put_ok.2 ⟨?_, rfl⟩
      unfold hugeStrLen
      omega
    simp only [Derived.finish, hb]
    change (popAll s.stack out >>= _) = _
    rw [hall]
    change (put '\x00' out' >>= _) = _
    rw [hput]
    rfl

theorem head?_dropWhile_eq_some {p : Text} {c : Char} :
    (p.dropWhile (· = '(')).head? = some c ↔
      ∃ q r, p = q ++ c :: r ∧ (∀ d ∈ q, d = '(') ∧ c ≠ '(' := by
  induction p with
  | nil => simp
  | cons d p ih =>
    by_cases hd : d = '('
    · subst hd
      rw [List.dropWhile_cons_of_pos (by simp), ih]
      constructor
      · rintro ⟨q, r, rfl, hq, hc⟩
        exact ⟨'(' :: q, r, rfl, List.forall_mem_cons.2 ⟨rfl, hq⟩, hc⟩
      · rintro ⟨q, r, heq, hq, hc⟩
        cases q with
        | nil =>
          cases heq
          exact absurd rfl hc
        | cons e q =>
          cases heq
          exact ⟨q, r, rfl, (List.forall_mem_cons.1 hq).2, hc⟩
    · rw [List.dropWhile_cons_of_neg (by simpa using hd)]
      constructor
      · intro h
        cases h
        exact ⟨[], p, rfl, by simp, hd⟩
      · rintro ⟨q, r, heq, hq, hc⟩
        cases q with
        | nil =>
          cases heq
          rfl
        | cons e q =>
          cases heq
          exact absurd ((List.forall_mem_cons.1 hq).1) hd

/-- A text with nothing in it that cannot follow, but for parentheses, is accepted. -/
theorem accepted_iff {formula : Text} :
    Accepted formula ↔
      (∀ p c q, formula = p ++ c :: q → ¬ Bad p c) ∧ ¬ ∀ d ∈ formula, d = '(' := by
  constructor
  · rintro ⟨⟨c, hc, hne, hop⟩, hcount⟩
    obtain ⟨q, r, rfl, hq, hc'⟩ := head?_dropWhile_eq_some.1 hc
    refine ⟨fun p d s heq hbad => ?_, fun hall => hc' (hall c (by simp))⟩
    rcases hbad with ⟨hd, hp⟩ | ⟨rfl, heq'⟩
    · -- `p` is all parentheses, so `d` is at most the first character behind them
      have hfirst : (p ++ d :: s).dropWhile (· = '(') = d :: s := by
        rw [List.dropWhile_append_of_pos (by simpa using hp), List.dropWhile_cons_of_neg]
        rcases hd with rfl | hd
        · simp
        · rintro h
          obtain rfl : d = '(' := of_decide_eq_true h
          cases hd
      have := heq ▸ hc
      rw [hfirst] at this
      cases this
      rcases hd with hd | hd
      · exact hne hd
      · rw [hop] at hd
        cases hd
    · have := hcount (p ++ [')']) ⟨s, by simp [heq]⟩
      rw [List.count_append, List.count_append] at this
      simp at this
      omega
  · rintro ⟨hall, hne⟩
    refine ⟨?_, fun p hp => ?_⟩
    · cases hc : (formula.dropWhile (· = '(')).head? with
      | none =>
        refine absurd (fun d hd => ?_) hne
        rw [List.head?_eq_none_iff, List.dropWhile_eq_nil_iff] at hc
        simpa using hc d hd
      | some c =>
        obtain ⟨q, r, heq, hq, -⟩ := head?_dropWhile_eq_some.1 hc
        refine ⟨c, rfl, fun hc' => hall q c r heq (.inl ⟨.inl hc', hq⟩), ?_⟩
        exact eq_false_of_ne_true fun hop => hall q c r heq (.inl ⟨.inr hop, hq⟩)
    · obtain ⟨s, rfl⟩ := hp
      induction p using List.reverseRecOn generalizing s with
      | nil => exact Nat.le_refl 0
      | append_singleton p c ih =>
        have ih := ih (c :: s) (by simpa using hall) (by simpa using hne)
        have hbad : ¬ Bad p c := hall p c s (by simp)
        rw [List.count_append, List.count_append, List.count_singleton, List.count_singleton]
        by_cases hc : c = ')'
        · have : p.count ')' ≠ p.count '(' := fun heq => hbad (.inr ⟨hc, heq⟩)
          subst hc
          simp
          omega
        · simp [hc]
          omega

theorem popUntil_eq {stop : Char → Bool} {p q : List Char} {c : Char} {out : Text} {s : Conversion}
    (hp : ∀ d ∈ p, stop d = false) (hc : stop c) (h : popUntil stop (p ++ c :: q) out = .ok s) :
    s = ⟨c :: q, out ++ p.flatMap fun d => [d, '|']⟩ := by
  induction p generalizing out with
  | nil =>
    rw [List.nil_append, popUntil, if_pos hc] at h
    cases h
    simp
  | cons d p ih =>
    obtain ⟨hd, hp⟩ := List.forall_mem_cons.1 hp
    rw [List.cons_append, popUntil, if_neg (by simp [hd])] at h
    obtain ⟨out', hput, h⟩ := except_bind_ok.1 h
    obtain ⟨-, rfl⟩ := putOp_ok.1 hput
    rw [ih hp h]
    simp

/-- The character of a stack cell. -/
def slot : Option Operator → Char
  | none => '('
  | some o => o.char

theorem isOperator_char (o : Operator) : isOperator o.char = true := by cases o <;> rfl

theorem priority_char (o : Operator) : priority o.char = o.prio := by cases o <;> rfl

section
variable {κ : Type} {w : κ → Word}

theorem render_append (c d : List (Item κ Operator)) :
    render w (c ++ d) = render w c ++ render w d := List.flatMap_append

theorem render_apply (os : List Operator) :
    render w (os.map .apply) = (os.map Operator.char).flatMap fun d => [d, '|'] := by
  rw [render, List.flatMap_map, List.flatMap_map]
  rfl

theorem getLast?_render {c : List (Item κ Operator)} (h : c ≠ []) :
    (render w c).getLast? = some '|' := by
  induction c using List.reverseRecOn with
  | nil => exact absurd rfl h
  | append_singleton c i _ =>
    rw [render_append]
    simp [render, barred]

/-- The arrays of the function and the state of the yard; the last operand may lack its `|`. -/
structure Sim (w : κ → Word) (s : Conversion) (t : State κ Operator) : Prop where
  stack : s.stack = t.stack.map slot ++ ['#']
  out : s.out = render w t.out ∨
    ∃ c k, t.out = c ++ [.push k] ∧ s.out = render w c ++ (w k).chars

theorem Sim.out_ne_nil {s : Conversion} {t : State κ Operator} (h : Sim w s t) (ht : t.out ≠ []) :
    s.out ≠ [] := by
  rcases h.out with hout | ⟨c, k, -, hout⟩
  · intro hnil
    have := getLast?_render (w := w) ht
    rw [← hout, hnil] at this
    cases this
  · rw [hout]
    exact List.append_ne_nil_of_right_ne_nil _ (w k).ne_nil

theorem Sim.bar {s : Conversion} {t : State κ Operator} (h : Sim w s t) (ht : t.out ≠ [])
    {out : Text} (hbar : Derived.bar s.out = .ok out) : out = render w t.out := by
  rcases h.out with hout | ⟨c, k, hc, hout⟩
  · rw [hout, Derived.bar, getLast?_render ht] at hbar
    simpa using hbar.symm
  · -- the last character belongs to the operand
    have hlast : s.out.getLast? = some ((w k).chars.getLast (w k).ne_nil) := by
      rw [hout, getLast?_suffix (w k).ne_nil, List.getLast?_eq_some_getLast]
    have hne : (w k).chars.getLast (w k).ne_nil ≠ '|' := by
      intro heq
      have := List.all_eq_true.1 (w k).operand _ (List.getLast_mem (w k).ne_nil)
      rw [heq] at this
      cases this
    rw [Derived.bar, hlast] at hbar
    simp only [if_neg hne] at hbar
    obtain ⟨-, rfl⟩ := put_ok.1 hbar
    rw [hc, render_append, hout]
    simp [render, word, barred]

theorem Sim.operator {p : Text} {s : Conversion} {t : State κ Operator} (h : Sim w s t)
    (hr : Reads p s) (hload : load s < 2 * hugeStrLen) (ht : t.out ≠ []) (o : Operator) :
    ∃ s' t', convert s o.char = .ok s' ∧ Reads (p ++ [o.char]) s' ∧
      shift Operator.prio t (.op o) = some t' ∧ Sim w s' t' ∧ s'.out = render w t'.out := by
  have hp : ¬ ∀ d ∈ p, d = '(' := fun hall => h.out_ne_nil ht (hr.begun.2 hall)
  have h₁ : o.char ≠ '(' := by cases o <;> decide
  have h₂ : o.char ≠ ')' := by cases o <;> decide
  obtain ⟨s', hs', hr'⟩ := hr.operator hload (isOperator_char o) hp
  refine ⟨s', _, hs', hr', rfl, ?_⟩
  obtain ⟨out, hbar, -⟩ := hr.bar hload hp
  have hout := h.bar ht hbar
  obtain ⟨os, r, habove⟩ : ∃ os r, above Operator.prio o.prio t.stack = (os, r) := ⟨_, _, rfl⟩
  obtain ⟨hst, hos, hstays⟩ := above_spec habove
  rw [convert, if_neg h₁, if_neg h₂, if_pos (isOperator_char o), hbar] at hs'
  obtain ⟨_, hbar', hs'⟩ := except_bind_ok.1 hs'
  cases hbar'
  obtain ⟨s₁, hpop, hs₁⟩ := except_bind_ok.1 hs'
  have hstop : ∀ d ∈ os.map Operator.char, (!decide (priority d > priority o.char)) = false := by
    intro d hd
    obtain ⟨o', ho', rfl⟩ := List.mem_map.1 hd
    have := hos o' ho'
    rw [priority_char, priority_char]
    simpa using this
  have hrest : ∃ c q, r.map slot ++ ['#'] = c :: q ∧ priority c ≤ priority o.char := by
    rw [priority_char]
    match r, hstays with
    | [], _ => exact ⟨'#', [], rfl, Int.natCast_nonneg _⟩
    | none :: r, _ => exact ⟨'(', _, rfl, Int.natCast_nonneg _⟩
    | some o' :: r, hstays =>
      refine ⟨o'.char, _, rfl, ?_⟩
      rw [priority_char]
      exact Int.ofNat_le.2 (hstays o' rfl)
  obtain ⟨c, q, hcq, hc⟩ := hrest
  have hsplit : s.stack = os.map Operator.char ++ c :: q := by
    rw [h.stack, hst, List.map_append, List.map_map, ← hcq, List.append_assoc]
    rfl
  rw [popAbove, hsplit] at hpop
  have hs₁' := popUntil_eq hstop (by simpa using hc) hpop
  have hlen : s₁.stack.length < hugeStrLen := by
    have := length_lt_of_load hload
    rw [hsplit, List.length_append] at this
    rw [hs₁']
    exact Nat.lt_of_le_of_lt (Nat.le_add_left ..) this
  rw [push_of_lt hlen] at hs₁
  cases hs₁
  rw [hs₁', habove, hout]
  refine ⟨⟨?_, .inl ?_⟩, ?_⟩
  · rw [← hcq]
    rfl
  · rw [render_append, render_apply]
  · rw [render_append, render_apply]

theorem Sim.rparen {p : Text} {s : Conversion} {t : State κ Operator} (h : Sim w s t)
    (hr : Reads p s) (hload : load s < 2 * hugeStrLen) (ht : t.out ≠ []) {t' : State κ Operator}
    (ht' : shift Operator.prio t .rparen = some t') :
    ∃ s', convert s ')' = .ok s' ∧ Reads (p ++ [')']) s' ∧ Sim w s' t' ∧
      s'.out = render w t'.out := by
  have hp : ¬ ∀ d ∈ p, d = '(' := fun hall => h.out_ne_nil ht (hr.begun.2 hall)
  obtain ⟨⟨os, r⟩, hin, heq⟩ := Option.map_eq_some_iff.1 ht'
  have hst := inside_spec hin
  have hsplit : s.stack = os.map Operator.char ++ '(' :: (r.map slot ++ ['#']) := by
    rw [h.stack, hst, List.map_append, List.map_map, List.append_assoc]
    rfl
  have hcount : p.count ')' ≠ p.count '(' := by
    have := hr.opened
    rw [hsplit, List.count_append, List.count_cons_self] at this
    omega
  have hconv := hr.rparen hload hp
  rw [if_neg hcount] at hconv
  obtain ⟨s', hs', hr'⟩ := hconv
  refine ⟨s', hs', hr', ?_⟩
  obtain ⟨out, hbar, -⟩ := hr.bar hload hp
  have hout := h.bar ht hbar
  rw [convert, if_neg (by decide), if_pos rfl, hbar] at hs'
  obtain ⟨_, hbar', hs'⟩ := except_bind_ok.1 hs'
  cases hbar'
  obtain ⟨s₁, hpop, hs₁⟩ := except_bind_ok.1 hs'
  have hstop : ∀ d ∈ os.map Operator.char, decide (d = '(') = false := by
    intro d hd
    obtain ⟨o, -, rfl⟩ := List.mem_map.1 hd
    cases o <;> rfl
  rw [popParen, hsplit] at hpop
  have hs₁' := popUntil_eq hstop rfl hpop
  cases hs₁
  cases heq
  rw [hs₁', hout]
  refine ⟨⟨rfl, .inl ?_⟩, ?_⟩
  · rw [render_append, render_apply]
  · rw [render_append, render_apply]

theorem operandChar_iff {c : Char} : isOperandChar c = true ↔
    isOperator c = false ∧ c ≠ '(' ∧ c ≠ ')' ∧ c ≠ '|' ∧ c ≠ '\x00' := by
  simp [isOperandChar, and_assoc]

theorem Reads.operand {p : Text} {s : Conversion} (h : Reads p s) {cs : Text}
    (hcs : cs.all isOperandChar) (hlen : p.length + cs.length < hugeStrLen) :
    cs.foldlM convert s = .ok { s with out := s.out ++ cs } ∧
      Reads (p ++ cs) { s with out := s.out ++ cs } := by
  induction cs generalizing p s with
  | nil => exact ⟨by simp; rfl, by simpa using h⟩
  | cons c cs ih =>
    rw [List.all_cons, Bool.and_eq_true] at hcs
    obtain ⟨h₃, h₁, h₂, -⟩ := operandChar_iff.1 hcs.1
    rw [List.length_cons] at hlen
    obtain ⟨hconv, hr⟩ := h.plain (h.load_lt (by omega)) h₁ h₂ h₃
    have hlen' : (p ++ [c]).length + cs.length < hugeStrLen := by
      simp only [List.length_append, List.length_singleton]
      omega
    obtain ⟨hrun, hr'⟩ := ih hr hcs.2 hlen'
    rw [List.append_assoc] at hr'
    simp only [List.append_assoc] at hrun hr'
    exact ⟨by rw [List.foldlM_cons, hconv]; exact hrun, hr'⟩

theorem text_pos (e : Infix κ Operator) : 0 < (text w e).length := by
  induction e with
  | atom k => exact List.length_pos_iff.2 (w k).ne_nil
  | paren e _ => exact Nat.succ_pos _
  | bin l o r ihl _ =>
    rw [text, List.length_append]
    omega

/-- A formula is read as the yard shifts its tokens. -/
theorem Sim.text (e : Infix κ Operator) {p : Text} {s : Conversion} {t t' : State κ Operator}
    (h : Sim w s t) (hout : s.out = render w t.out) (hr : Reads p s)
    (hlen : p.length + (Derived.text w e).length < hugeStrLen)
    (ht : run Operator.prio t e.tokens = some t') :
    ∃ s', (Derived.text w e).foldlM convert s = .ok s' ∧ Reads (p ++ Derived.text w e) s' ∧
      Sim w s' t' ∧ t'.out ≠ [] := by
  induction e generalizing p s t t' with
  | atom k =>
    cases ht
    obtain ⟨hrun, hr'⟩ := hr.operand (w k).operand hlen
    exact ⟨_, hrun, hr', ⟨h.stack, .inr ⟨t.out, k, rfl, by rw [hout]⟩⟩, by simp⟩
  | paren e ih =>
    rw [Infix.tokens, run, shift, Option.bind_some, run_append, Option.bind_eq_some_iff] at ht
    obtain ⟨t₁, ht₁, ht⟩ := ht
    rw [run, Option.bind_eq_some_iff] at ht
    obtain ⟨t₂, ht₂, ht⟩ := ht
    cases ht
    simp only [Derived.text, List.length_cons, List.length_append, List.length_nil] at hlen
    obtain ⟨hconv, hr₀⟩ := hr.lparen (hr.load_lt (by omega))
    have h₀ : Sim w { s with stack := '(' :: s.stack } { t with stack := none :: t.stack } :=
      ⟨by simp [h.stack, slot], .inl hout⟩
    obtain ⟨s₁, hrun, hr₁, h₁, hne⟩ := ih h₀ hout hr₀
      (by simp only [List.length_append, List.length_singleton]; omega) ht₁
    have hload : load s₁ < 2 * hugeStrLen := by
      refine hr₁.load_lt ?_
      simp only [List.length_append, List.length_singleton]
      omega
    obtain ⟨s₂, hs₂, hr₂, h₂, hout₂⟩ := h₁.rparen hr₁ hload hne ht₂
    refine ⟨s₂, ?_, by simpa [Derived.text] using hr₂, h₂, ?_⟩
    · rw [Derived.text, List.foldlM_cons, hconv]
      change List.foldlM convert _ (Derived.text w e ++ [')']) = _
      rw [List.foldlM_append, hrun]
      change List.foldlM convert s₁ [')'] = _
      rw [List.foldlM_cons, hs₂]
      rfl
    · obtain ⟨q, -, rfl⟩ := Option.map_eq_some_iff.1 ht₂
      exact List.append_ne_nil_of_left_ne_nil hne _
  | bin l o r ihl ihr =>
    rw [Infix.tokens, run_append, Option.bind_eq_some_iff] at ht
    obtain ⟨t₁, ht₁, ht⟩ := ht
    rw [run, Option.bind_eq_some_iff] at ht
    obtain ⟨t₂, ht₂, ht⟩ := ht
    have hpos := text_pos (w := w) r
    simp only [Derived.text, List.length_cons, List.length_append] at hlen
    obtain ⟨s₁, hrun₁, hr₁, h₁, hne₁⟩ := ihl h hout hr (by omega) ht₁
    obtain ⟨s₂, t₂', hs₂, hr₂, ht₂', h₂, hout₂⟩ := h₁.operator hr₁
      (hr₁.load_lt (by rw [List.length_append]; omega)) hne₁ o
    rw [ht₂] at ht₂'
    cases ht₂'
    obtain ⟨s₃, hrun₃, hr₃, h₃, hne₃⟩ := ihr h₂ hout₂ hr₂
      (by simp only [List.length_append, List.length_singleton]; omega) ht
    refine ⟨s₃, ?_, by simpa [Derived.text] using hr₃, h₃, hne₃⟩
    rw [Derived.text, List.foldlM_append, hrun₁]
    change List.foldlM convert s₁ (o.char :: Derived.text w r) = _
    rw [List.foldlM_cons, hs₂]
    exact hrun₃

theorem popAll_eq {p : List Char} {c : Char} {out out' : Text}
    (h : popAll (p ++ [c]) out = .ok out') : out' = out ++ p.flatMap fun d => [d, '|'] := by
  induction p generalizing out with
  | nil =>
    cases h
    simp
  | cons d p ih =>
    cases hp : p ++ [c] with
    | nil => simp at hp
    | cons e q =>
      rw [List.cons_append, hp, popAll, ← hp] at h
      obtain ⟨out₁, hput, h⟩ := except_bind_ok.1 h
      obtain ⟨-, rfl⟩ := putOp_ok.1 hput
      rw [ih h]
      simp

/-- A formula comes out as the code of its tree. -/
theorem infixToPostfix_formula (e : Infix κ Operator) (hlen : (text w e).length < hugeStrLen) :
    infixToPostfix (text w e) = .ok (render w (e.group Operator.prio).tree.code) := by
  obtain ⟨os, c, hrun, hcode⟩ := Infix.run_tokens Operator.prio e
  have h₀ : Sim w ⟨['#'], []⟩ ⟨[], []⟩ := ⟨rfl, .inl rfl⟩
  obtain ⟨s, hs, hr, h, hne⟩ := h₀.text e rfl Reads.nil (by simpa using hlen) hrun
  rw [infixToPostfix_eq, hs]
  change finish s = _
  rcases Reads.finish hr (by simpa using hlen) with ⟨hp, -⟩ | ⟨-, out, hout, -⟩
  · exact absurd (hr.begun.2 hp) (h.out_ne_nil hne)
  · rw [hout, ← hcode, render_append, render_apply]
    obtain ⟨out₁, hbar, hfin⟩ := except_bind_ok.1 hout
    obtain ⟨out₂, hall, hfin⟩ := except_bind_ok.1 hfin
    obtain ⟨-, -, hfin⟩ := except_bind_ok.1 hfin
    cases hfin
    rw [h.stack, List.map_map] at hall
    rw [popAll_eq hall, h.bar hne hbar]
    rfl

end

end PbdPapi.Derived
