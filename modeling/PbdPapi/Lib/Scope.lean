import Mathlib.Data.List.Basic

/-!
# Lexical scope

A scope is a list of frames, the innermost first, and a frame binds names to values. A name may be
used in three ways: read, called, where values that are no functions are passed over, or written,
which is always the business of the innermost frame. `resolve_new_iff`: when a use finds in a new
frame over some scope the binding that it finds in another scope.
-/

set_option autoImplicit false

namespace Lexical

/-- How a name is used. -/
inductive Mode where
  | read
  | call
  | write
deriving DecidableEq, Repr

structure Use (N : Type) where
  mode : Mode
  name : N
deriving DecidableEq, Repr

/-- A frame, with an identity of its own. -/
structure Frame (N V : Type) where
  id : Nat
  binds : List (N × V)
deriving DecidableEq, Repr

/-- The frames that a lookup goes through, in order. -/
abbrev Scope (N V : Type) := List (Frame N V)

section
variable {N V : Type} [DecidableEq N] (isFun : V → Bool)

/-- The value that the frame has for a use. -/
def Frame.get (f : Frame N V) (u : Use N) : Option V :=
  (f.binds.find? fun b => b.1 = u.name ∧ (u.mode = .call → isFun b.2)).map (·.2)

/-- A lookup ends at this frame. -/
def Frame.answers (f : Frame N V) (u : Use N) : Bool :=
  u.mode = .write || (f.get isFun u).isSome

/-- The frame whose binding a use finds. -/
def resolve (s : Scope N V) (u : Use N) : Option Nat :=
  (s.find? fun f => f.answers isFun u).map (·.id)

/-- The value that a use finds. -/
def valueAt (s : Scope N V) (u : Use N) : Option V :=
  (s.find? fun f => f.answers isFun u).bind fun f => f.get isFun u

/-- An identity that no frame of the scope has. -/
def freshId (s : Scope N V) : Nat := (s.map (·.id)).foldr max 0 + 1

omit [DecidableEq N] in
theorem id_lt_freshId {s : Scope N V} {f : Frame N V} (h : f ∈ s) : f.id < freshId s := by
  unfold freshId
  induction s with
  | nil => cases h
  | cons g s ih =>
    simp only [List.map_cons, List.foldr_cons]
    rcases List.mem_cons.1 h with rfl | h
    · omega
    · have := ih h
      omega

variable {isFun}

theorem resolve_cons_of_answers {f : Frame N V} {u : Use N} (h : f.answers isFun u = true)
    (s : Scope N V) : resolve isFun (f :: s) u = some f.id := by
  simp [resolve, h]

theorem resolve_cons_of_not {f : Frame N V} {u : Use N} (h : f.answers isFun u = false)
    (s : Scope N V) : resolve isFun (f :: s) u = resolve isFun s u := by
  simp [resolve, h]

theorem valueAt_cons_of_not {f : Frame N V} {u : Use N} (h : f.answers isFun u = false)
    (s : Scope N V) : valueAt isFun (f :: s) u = valueAt isFun s u := by
  simp [valueAt, h]

/-- A read finds what its frame has under the name, else what the frames around it give. -/
theorem valueAt_cons_read (f : Frame N V) (s : Scope N V) (x : N) :
    valueAt isFun (f :: s) ⟨.read, x⟩ =
      (f.get isFun ⟨.read, x⟩).or (valueAt isFun s ⟨.read, x⟩) := by
  cases h : f.get isFun ⟨.read, x⟩ with
  | none =>
    have hans : f.answers isFun ⟨.read, x⟩ = false := by simp [Frame.answers, h]
    rw [valueAt_cons_of_not hans, Option.none_or]
  | some v =>
    have hans : f.answers isFun ⟨.read, x⟩ = true := by simp [Frame.answers, h]
    simp [valueAt, hans, h]

/-- A frame answers the reads of its names. -/
theorem answers_read {f : Frame N V} {x : N} :
    f.answers isFun ⟨.read, x⟩ = false ↔ x ∉ f.binds.map (·.1) := by
  have hnames : (∀ a v, (a, v) ∈ f.binds → ¬ a = x) ↔ ∀ v, (x, v) ∉ f.binds :=
    ⟨fun h v hv => h x v hv rfl, fun h a v hv heq => h v (heq ▸ hv)⟩
  simpa [Frame.answers, Frame.get] using hnames

/-- A frame answers the calls of its functions. -/
theorem answers_call {f : Frame N V} {x : N} :
    f.answers isFun ⟨.call, x⟩ = false ↔ ∀ b ∈ f.binds, b.1 = x → isFun b.2 = false := by
  simp [Frame.answers, Frame.get]

/-- A use finds a frame of the scope. -/
theorem resolve_mem {s : Scope N V} {u : Use N} {k : Nat} (h : resolve isFun s u = some k) :
    ∃ f ∈ s, f.id = k := by
  obtain ⟨f, hf, rfl⟩ := Option.map_eq_some_iff.1 h
  exact ⟨f, List.mem_of_find?_eq_some hf, rfl⟩

/-- A use finds, in a frame that is new to `s` over the scope `outer`, the binding that it finds in
`s`, exactly if the new frame has none for it and `outer` gives that binding. -/
theorem resolve_new_iff {f : Frame N V} {s : Scope N V} (hf : ∀ g ∈ s, g.id ≠ f.id)
    (outer : Scope N V) (u : Use N) :
    resolve isFun (f :: outer) u = resolve isFun s u ↔
      f.answers isFun u = false ∧ resolve isFun outer u = resolve isFun s u := by
  cases h : f.answers isFun u with
  | true =>
    rw [resolve_cons_of_answers h]
    refine iff_of_false (fun heq => ?_) fun hc => by cases hc.1
    obtain ⟨g, hg, hid⟩ := resolve_mem heq.symm
    exact hf g hg hid
  | false =>
    rw [resolve_cons_of_not h]
    exact ⟨fun heq => ⟨rfl, heq⟩, And.right⟩

end

end Lexical
