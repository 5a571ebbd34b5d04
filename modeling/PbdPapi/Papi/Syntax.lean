import PbdPapi.Papi.Formula
import PbdPapi.Lib.Yard

/-!
# What formulas say

The formulas of derived events as trees, over operands `κ` that are written as the words `w`: in
infix notation (`text`), and as postfix code (`render`) with a `|` behind each word.
-/

set_option autoImplicit false

namespace PbdPapi.Derived

open Rpn Yard

inductive Operator where
  | add
  | sub
  | mul
  | div
  | mod
  | pow
deriving DecidableEq, Repr

def Operator.char : Operator → Char
  | add => '+'
  | sub => '-'
  | mul => '*'
  | div => '/'
  | mod => '%'
  | pow => '^'

def Operator.prio (o : Operator) : Nat := (priority o.char).toNat

/-- A character that stands for nothing else in a formula. -/
def isOperandChar (c : Char) : Bool :=
  !isOperator c && c ≠ '(' && c ≠ ')' && c ≠ '|' && c ≠ '\x00'

/-- The text of an operand. -/
structure Word where
  chars : Text
  ne_nil : chars ≠ []
  operand : chars.all isOperandChar
deriving DecidableEq, Repr

section
variable {κ : Type} (w : κ → Word)

/-- The word of an item. -/
def word : Item κ Operator → Text
  | .push k => (w k).chars
  | .apply o => [o.char]

/-- A postfix code as a formula. -/
def render (c : List (Item κ Operator)) : Text := c.flatMap fun i => barred (word w i)

/-- A formula in infix notation. -/
def text : Infix κ Operator → Text
  | .atom k => (w k).chars
  | .paren e => '(' :: (text e ++ [')'])
  | .bin l o r => text l ++ o.char :: text r

end

/-- The operands that a formula can be computed with: a native event of the derived event, the
clock rate, a number. -/
inductive Ref where
  | counter (k : Nat)
  | mhz
  | const (n : Nat)
deriving DecidableEq, Repr

def Ref.chars : Ref → Text
  | counter k => sprintfN k
  | mhz => ['#']
  | const n => Nat.toDigits 10 n

theorem isOperandChar_digit {c : Char} (h : c.isDigit) : isOperandChar c = true := by
  have hne : ∀ d : Char, d.isDigit = false → c ≠ d := by
    rintro d hd rfl
    rw [h] at hd
    cases hd
  simp [isOperandChar, isOperator, hne '+' rfl, hne '-' rfl, hne '*' rfl, hne '/' rfl, hne '%' rfl,
    hne '^' rfl, hne '(' rfl, hne ')' rfl, hne '|' rfl, hne '\x00' rfl]

theorem all_toDigits (n : Nat) : (Nat.toDigits 10 n).all isOperandChar := by
  rw [List.all_eq_true]
  intro c hc
  exact isOperandChar_digit (Nat.isDigit_of_mem_toDigits (by decide) (by decide) hc)

def Ref.word : Ref → Word
  | counter k => ⟨sprintfN k, by simp [sprintfN], by simp [sprintfN, all_toDigits, isOperandChar,
      isOperator]⟩
  | mhz => ⟨['#'], by simp, rfl⟩
  | const n => ⟨Nat.toDigits 10 n, Nat.toDigits_ne_nil, all_toDigits n⟩

/-- `N0 o N1` -/
def pair (o : Operator) : Infix Ref Operator := .bin (.atom (.counter 0)) o (.atom (.counter 1))

end PbdPapi.Derived
