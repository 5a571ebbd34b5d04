import PbdPapi.Lib.Exec
import Mathlib.Algebra.Group.Nat.Defs

/-!
# C strings

A block of memory is the list of its bytes, and a pointer into a block is what is left of the block
from there on, so that adding to a pointer is `List.drop`. What C leaves undefined is a `Fault`: an
access outside of its block, or a signed counter that overflows. The blocks of one call do not
overlap.

Each operation has one lemma that says what it does where it does not fault: `scan_stop`,
`memcpy_ok`, `strcpy_ok`. `text` is what a block holds as a C string.
-/

set_option autoImplicit false

namespace CMem

open Exec

/-- Undefined behaviour. -/
inductive Fault where
  /-- A read behind the end of a block. -/
  | read
  /-- A write behind the end of a block. -/
  | write
  /-- A counter of type `int` that overflows. -/
  | overflow
deriving DecidableEq, Repr

abbrev Bytes := List UInt8

/-- The text of a C string, without its terminator. -/
structure CStr where
  chars : List UInt8
  nonzero : 0 ∉ chars
deriving DecidableEq, Repr

/-- The block of a string: its text and its terminator. -/
def CStr.block (s : CStr) : Bytes := s.chars ++ [0]

/-- The text before the first zero of a block. -/
def text : Bytes → Option (List UInt8)
  | [] => none
  | c :: b => if c = 0 then some [] else (text b).map (c :: ·)

/-- `i + 1` for an `int` that is not negative. -/
def succInt (i : Nat) : Except Fault Nat := if i + 1 < 2 ^ 31 then .ok (i + 1) else .error .overflow

/-- `for(;p[i] && p[i]!=stop;i++);` from `i` on, with the pointer `p + i`. -/
def scan (stop : UInt8) : Nat → Bytes → Except Fault Nat
  | _, [] => .error .read
  | i, c :: p =>
    if c ≠ 0 ∧ c ≠ stop then do
      let i ← succInt i
      scan stop i p
    else .ok i

/-- `memcpy(dst, src, n)` -/
def memcpy : Bytes → Bytes → Nat → Except Fault Bytes
  | dst, _, 0 => .ok dst
  | _, [], _ + 1 => .error .read
  | [], _ :: _, _ + 1 => .error .write
  | _ :: dst, c :: src, n + 1 => do
    let dst ← memcpy dst src n
    return c :: dst

/-- `strcpy(dst, src)` -/
def strcpy : Bytes → Bytes → Except Fault Bytes
  | _, [] => .error .read
  | [], _ :: _ => .error .write
  | _ :: dst, c :: src =>
    if c = 0 then .ok (0 :: dst)
    else do
      let dst ← strcpy dst src
      return c :: dst

/-! ## Text -/

theorem text_append {s : List UInt8} (hs : 0 ∉ s) (b : Bytes) :
    text (s ++ b) = (text b).map (s ++ ·) := by
  induction s with
  | nil => simp
  | cons c s ih =>
    rw [List.mem_cons, not_or] at hs
    rw [List.cons_append, text, if_neg (Ne.symm hs.1), ih hs.2, Option.map_map]
    rfl

/-- A text in front of a block is the block's, exactly if a zero stands behind it. -/
theorem text_append_eq_some {s : List UInt8} (hs : 0 ∉ s) {b : Bytes} :
    text (s ++ b) = some s ↔ b[0]? = some 0 := by
  rw [text_append hs]
  cases b with
  | nil => simp [text]
  | cons c b =>
    by_cases hc : c = 0
    · simp [text, hc]
    · cases text b <;> simp [text, *]

/-! ## Operations -/

theorem succInt_ok {i j : Nat} : succInt i = .ok j ↔ i + 1 < 2 ^ 31 ∧ j = i + 1 := by
  unfold succInt
  split
  · next h =>
    rw [Except.ok.injEq]
    exact ⟨fun heq => ⟨h, heq.symm⟩, fun heq => heq.2.symm⟩
  · next h => exact iff_of_false (fun heq => by cases heq) fun heq => h heq.1

/-- A scan stops behind a text that has neither a zero nor its character, if the counter gets so
far. -/
theorem scan_stop {stop : UInt8} {s : List UInt8} (h₀ : 0 ∉ s) (hs : stop ∉ s) {c : UInt8}
    (hc : c = 0 ∨ c = stop) (p : Bytes) {i j : Nat} (hi : i < 2 ^ 31) :
    scan stop i (s ++ c :: p) = .ok j ↔ i + s.length < 2 ^ 31 ∧ j = i + s.length := by
  induction s generalizing i with
  | nil =>
    have hstop : ¬ (c ≠ 0 ∧ c ≠ stop) := by
      rintro ⟨h₁, h₂⟩
      exact hc.elim h₁ h₂
    rw [List.nil_append, scan, if_neg hstop, List.length_nil, Nat.add_zero, Except.ok.injEq]
    exact ⟨fun h => ⟨hi, h.symm⟩, fun h => h.2.symm⟩
  | cons d s ih =>
    rw [List.mem_cons, not_or] at h₀ hs
    rw [List.cons_append, scan, if_pos ⟨Ne.symm h₀.1, Ne.symm hs.1⟩, except_bind_ok,
      List.length_cons]
    constructor
    · rintro ⟨k, hk, h⟩
      obtain ⟨hlt, rfl⟩ := succInt_ok.1 hk
      have := (ih h₀.2 hs.2 hlt).1 h
      omega
    · rintro ⟨hlt, rfl⟩
      have hlt₁ : i + 1 < 2 ^ 31 := by omega
      exact ⟨i + 1, succInt_ok.2 ⟨hlt₁, rfl⟩, (ih h₀.2 hs.2 hlt₁).2 (by omega)⟩

theorem memcpy_ok {dst src : Bytes} {n : Nat} (hd : n ≤ dst.length) (hs : n ≤ src.length) :
    memcpy dst src n = .ok (src.take n ++ dst.drop n) := by
  induction n generalizing dst src with
  | zero =>
    rw [memcpy]
    rfl
  | succ n ih =>
    cases src with
    | nil => cases hs
    | cons c src =>
      cases dst with
      | nil => cases hd
      | cons d dst =>
        rw [memcpy, ih (Nat.le_of_succ_le_succ hd) (Nat.le_of_succ_le_succ hs)]
        rfl

theorem strcpy_ok {s : List UInt8} (h₀ : 0 ∉ s) {dst : Bytes} (hd : s.length < dst.length)
    (p : Bytes) : strcpy dst (s ++ 0 :: p) = .ok (s ++ 0 :: dst.drop (s.length + 1)) := by
  induction s generalizing dst with
  | nil =>
    cases dst with
    | nil => cases hd
    | cons d dst => rfl
  | cons c s ih =>
    rw [List.mem_cons, not_or] at h₀
    cases dst with
    | nil => cases hd
    | cons d dst =>
      rw [List.cons_append, strcpy, if_neg (Ne.symm h₀.1), ih h₀.2 (Nat.lt_of_succ_lt_succ hd)]
      rfl

/-- There is nothing to read behind the end of a block. -/
theorem strcpy_end (dst : Bytes) : strcpy dst [] = .error .read := by
  cases dst <;> rfl

end CMem
