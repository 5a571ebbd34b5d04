import PbdPapi.Papi.Preset
import PbdPapi.Proof.Compose
import Mathlib.Data.List.Forall2

/-!
# Derived events from derived events

What the loop over the terms of a definition makes of its formula. A term is a native event, or a
known event with a formula over native events of its own (`Term`); `placeTerm` is the formula that
stands, after some terms, for the operand of each term. `addTerms_meaning`: the event that is built
computes the formula as it was written, with the value of each term in its place.

The token that a formula replaces is counted in terms, not in native events, so the terms before an
event with a formula must be of one native event each (`Composable.aligned`).
-/

set_option autoImplicit false

namespace PbdPapi.Derived

open Rpn Exec

/-! ## Terms -/

/-- What a name stands for. -/
inductive Term where
  | native (code : Int)
  | event (u : Ast Ref Operator) (codes : List Int)

def Term.tree : Term → Ast Ref Operator
  | native _ => .leaf (.counter 0)
  | event u _ => u

def Term.codes : Term → List Int
  | native code => [code]
  | event _ codes => codes

/-- An event that computes `u` from native events, each of which it uses once. -/
structure Computes (p : Preset) (u : Ast Ref Operator) (codes : List Int) : Prop where
  ops : p.postfixOps = some (render Ref.word u.code)
  code : p.code = codes
  ne_nil : codes ≠ []
  indices : indices u.code = codes.length
  below : ∀ k, .counter k ∈ u.operands → k < codes.length

section
variable (N : Natives) (T : Tables)

/-- A name is looked up among the preset events, the user defined events and the native events, in
this order. -/
def Means (name : String) : Term → Prop
  | .native code => findEvent name T.presets = none ∧ findEvent name T.userDefined = none ∧
      N.nameToCode name = some code ∧ code ≠ 0 ∧ N.componentIndex code = 0
  | .event u codes => ∃ p, Computes p u codes ∧ (findEvent name T.presets = some p ∨
      findEvent name T.presets = none ∧ findEvent name T.userDefined = some p)

end

/-! ## Native events -/

theorem addCode_ok {code : Int} {name : String} {results : Preset}
    (h : results.count < maxInfoTerms) : addCode code name results =
      .ok { results with code := results.code ++ [code], name := results.name ++ [name] } :=
  if_pos h

/-- Native events that are not there yet are put behind the others. -/
theorem copyCodes_fresh (target : String) {codes : List (Int × Option String)} (results : Preset)
    (hnd : (results.code ++ codes.map (·.1)).Nodup)
    (hlen : results.count + codes.length ≤ maxInfoTerms) :
    ∃ names, copyCodes target codes 0 results =
      .ok { results with code := results.code ++ codes.map (·.1), name := names } := by
  induction codes generalizing results with
  | nil => exact ⟨results.name, by simp [copyCodes]⟩
  | cons c codes ih =>
    obtain ⟨code, name⟩ := c
    have hnone : results.code.findIdx? (· = code) = none := by
      rw [List.findIdx?_eq_none_iff]
      intro x hx
      have := (List.nodup_append.1 hnd).2.2 x hx code (by simp)
      simpa using this
    rw [List.length_cons] at hlen
    simp only [copyCodes, hnone, if_true]
    rw [addCode_ok (by omega), ok_bind]
    obtain ⟨names, h⟩ := ih { results with
        code := results.code ++ [code], name := results.name ++ [name.getD target] }
      (by simpa using hnd) (by
        simp only [Preset.count, List.length_append, List.length_singleton] at hlen ⊢
        omega)
    exact ⟨names, by rw [h]; simp⟩

theorem codes_fst (p : Preset) : p.codes.map (·.1) = p.code := by
  rw [Preset.codes, List.map_map]
  exact List.zipIdx_map_fst 0 p.code

/-! ## The place of a term -/

/-- The number of native events of some terms. -/
def size (ts : List Term) : Nat := (ts.flatMap Term.codes).length

/-- The formula for the operand of a term, behind the terms `done`: that of the term, or the native
event that the operand has moved to. -/
def placeTerm (done : List Term) (j : Nat) : Ast Ref Operator :=
  match done[j]? with
  | some t => t.tree.map (Ref.reindex (· + size (done.take j)))
  | none => .leaf (.counter (size done + (j - done.length)))

def placeRef (done : List Term) : Ref → Ast Ref Operator
  | .counter j => placeTerm done j
  | r => .leaf r

theorem size_append (ts ts' : List Term) : size (ts ++ ts') = size ts + size ts' := by
  simp [size]

theorem size_singleton (t : Term) : size [t] = t.codes.length := by simp [size]

theorem placeTerm_lt {done : List Term} {j : Nat} (h : j < done.length) (t : Term) :
    placeTerm (done ++ [t]) j = placeTerm done j := by
  rw [placeTerm, placeTerm, List.getElem?_append_left h, List.getElem?_eq_getElem h,
    List.take_append_of_le_length (Nat.le_of_lt h)]

theorem placeTerm_eq (done : List Term) (t : Term) :
    placeTerm (done ++ [t]) done.length = t.tree.map (Ref.reindex (· + size done)) := by
  simp [placeTerm]

theorem placeTerm_gt {done : List Term} {j : Nat} (h : done.length < j) (t : Term) :
    placeTerm (done ++ [t]) j =
      .leaf (.counter (size done + t.codes.length + (j - done.length - 1))) := by
  have : (done ++ [t])[j]? = none := List.getElem?_eq_none (by simp; omega)
  rw [placeTerm, this, size_append, size_singleton, List.length_append, List.length_singleton,
    Nat.sub_sub]

theorem placeTerm_of_le {done : List Term} {j : Nat} (h : done.length ≤ j) :
    placeTerm done j = .leaf (.counter (size done + (j - done.length))) := by
  rw [placeTerm, List.getElem?_eq_none h]

theorem placeRef_nil : placeRef [] = .leaf := by
  funext r
  cases r with
  | counter j => simp [placeRef, placeTerm, size]
  | mhz => rfl
  | const n => rfl

/-- A native event takes the place that its operand has. -/
theorem placeRef_native (done : List Term) (code : Int) :
    placeRef (done ++ [.native code]) = placeRef done := by
  funext r
  cases r with
  | counter j =>
    rw [placeRef, placeRef]
    rcases Nat.lt_trichotomy j done.length with h | h | h
    · exact placeTerm_lt h _
    · subst h
      rw [placeTerm_eq, placeTerm_of_le (Nat.le_refl _)]
      simp [Term.tree, Ast.map, Ast.bind, Ref.reindex]
    · rw [placeTerm_gt h, placeTerm_of_le (Nat.le_of_lt h)]
      simp only [Term.codes, List.length_singleton]
      congr 2
      omega
  | mhz => rfl
  | const n => rfl

/-- The operands of terms that have one native event each are in front of the next place. -/
theorem placeTerm_operands {done : List Term} {j k : Nat} (hj : j < done.length)
    (hbelow : ∀ t ∈ done, ∀ k, .counter k ∈ t.tree.operands → k < t.codes.length)
    (hk : .counter k ∈ (placeTerm done j).operands) : k < size done := by
  rw [placeTerm, List.getElem?_eq_getElem hj] at hk
  simp only [Ast.operands_map] at hk
  obtain ⟨r, hr, heq⟩ := List.mem_map.1 hk
  cases r with
  | counter i =>
    cases heq
    have hi := hbelow _ (List.getElem_mem hj) i hr
    have hsize : size done = size (done.take j) + size (done.drop j) := by
      rw [← size_append, List.take_append_drop]
    rw [List.drop_eq_getElem_cons hj, ← List.singleton_append, size_append, size_singleton] at hsize
    change i + size (done.take j) < size done
    omega
  | mhz => cases heq
  | const n => cases heq

theorem bind_substitute_below {t u : Ast Ref Operator} {i start : Nat}
    (h : ∀ k, .counter k ∈ t.operands → k < i) : t.bind (substitute u i start) = t := by
  refine (Ast.bind_congr fun r hr => ?_).trans (Ast.bind_leaf t)
  cases r with
  | counter k =>
    have hk := h k hr
    rw [substitute, if_neg (by omega), originalIndex, if_neg (by omega)]
  | mhz => rfl
  | const n => rfl

/-- Merging the formula of a term puts it in the term's place, if the terms before it have one
native event each. -/
theorem placeRef_event {done : List Term} {u : Ast Ref Operator} {codes : List Int}
    (hsize : size done = done.length) (hu : indices u.code = codes.length) (hne : codes ≠ [])
    (hbelow : ∀ t ∈ done, ∀ k, .counter k ∈ t.tree.operands → k < t.codes.length) (r : Ref) :
    (placeRef done r).bind (substitute u done.length done.length) =
      placeRef (done ++ [.event u codes]) r := by
  have hpos : 0 < codes.length := List.length_pos_iff.2 hne
  cases r with
  | counter j =>
    rw [placeRef, placeRef]
    rcases Nat.lt_trichotomy j done.length with h | h | h
    · rw [placeTerm_lt h]
      exact bind_substitute_below fun k hk => hsize ▸ placeTerm_operands h hbelow hk
    · subst h
      rw [placeTerm_of_le (Nat.le_refl _), placeTerm_eq, Ast.bind, hsize, Nat.sub_self,
        Nat.add_zero, substitute, if_pos rfl]
      rfl
    · rw [placeTerm_of_le (Nat.le_of_lt h), placeTerm_gt h, Ast.bind, hsize, substitute,
        if_neg (by omega), originalIndex, if_pos (by omega), hu]
      simp only [Term.codes]
      congr 2
      omega
  | mhz => rfl
  | const n => rfl

/-! ## The length of a merged formula -/

theorem length_render_leaf {k : Nat} (hk : k < 10) :
    (render Ref.word [.push (.counter k)]).length = 3 := by
  have : render Ref.word [.push (.counter k)] = barred (sprintfN k) := by
    simp [render, word, Ref.word]
  rw [this, barred, List.length_append, length_sprintfN hk]
  rfl

/-- Each operand that is replaced makes room for the formula that replaces it. -/
theorem length_substitute {t u : Ast Ref Operator} (i start : Nat)
    (hu : ∀ k, .counter k ∈ u.operands → k + start < 10)
    (ht : ∀ k, .counter k ∈ t.operands → k < 10 ∧ originalIndex i (indices u.code) k < 10) :
    (render Ref.word (t.bind (substitute u i start)).code).length +
        3 * t.operands.count (.counter i) =
      (render Ref.word t.code).length +
        t.operands.count (.counter i) * (render Ref.word u.code).length := by
  induction t with
  | leaf r =>
    cases r with
    | counter k =>
      obtain ⟨hk, hk'⟩ := ht k List.mem_cons_self
      simp only [Ast.bind, Ast.operands, Ast.code, substitute]
      by_cases h : k = i
      · subst h
        have hlen : (render Ref.word (u.map (Ref.reindex (· + start))).code).length =
            (render Ref.word u.code).length := by
          rw [code_reindex]
          refine length_render_reindex (fun k hk => ?_) fun k hk => hu k (push_mem_code.1 hk)
          exact Nat.lt_of_le_of_lt (Nat.le_add_right ..) (hu k (push_mem_code.1 hk))
        rw [if_pos rfl, hlen, length_render_leaf hk]
        simp
        omega
      · rw [if_neg h, Ast.code, length_render_leaf hk, length_render_leaf hk']
        simp [h]
    | mhz => simp [Ast.bind, Ast.operands, Ast.code, substitute]
    | const n => simp [Ast.bind, Ast.operands, Ast.code, substitute]
  | node l o r ihl ihr =>
    have ihl := ihl fun k hk => ht k (List.mem_append_left _ hk)
    have ihr := ihr fun k hk => ht k (List.mem_append_right _ hk)
    simp only [Ast.bind, Ast.operands, Ast.code, render_append, List.length_append,
      List.count_append, Nat.add_mul] at ihl ihr ⊢
    omega

theorem size_eq_length {ts : List Term} (h : ∀ t ∈ ts, t.codes.length = 1) :
    size ts = ts.length := by
  induction ts with
  | nil => rfl
  | cons t ts ih =>
    obtain ⟨ht, hts⟩ := List.forall_mem_cons.1 h
    rw [← List.singleton_append, size_append, size_singleton, ht, ih hts, List.length_append]
    rfl

/-- The native events of the formula behind some terms: those of the terms, and the operands that
are left. -/
theorem placed_operands {F : Ast Ref Operator} {done : List Term}
    (hsize : size done = done.length)
    (hbelow : ∀ t ∈ done, ∀ k, .counter k ∈ t.tree.operands → k < t.codes.length) {k : Nat}
    (hk : .counter k ∈ (F.bind (placeRef done)).operands) :
    k < done.length ∨ .counter k ∈ F.operands := by
  rw [Ast.operands_bind] at hk
  obtain ⟨r, hr, hk⟩ := List.mem_flatMap.1 hk
  cases r with
  | counter j =>
    by_cases hj : j < done.length
    · exact .inl (hsize ▸ placeTerm_operands hj hbelow hk)
    · rw [placeRef, placeTerm_of_le (Nat.not_lt.1 hj), Ast.operands, List.mem_singleton] at hk
      cases hk
      rw [hsize, Nat.add_sub_cancel' (Nat.not_lt.1 hj)]
      exact .inr hr
  | mhz => cases List.mem_singleton.1 hk
  | const n => cases List.mem_singleton.1 hk

theorem placed_count {F : Ast Ref Operator} {done : List Term} (hsize : size done = done.length)
    (hbelow : ∀ t ∈ done, ∀ k, .counter k ∈ t.tree.operands → k < t.codes.length) :
    (F.bind (placeRef done)).operands.count (.counter done.length) =
      F.operands.count (.counter done.length) := by
  induction F with
  | leaf r =>
    cases r with
    | counter j =>
      by_cases hj : j < done.length
      · have hne : Ref.counter j ≠ .counter done.length := by
          intro heq
          cases heq
          exact Nat.lt_irrefl _ hj
        rw [Ast.bind, Ast.operands, List.count_singleton, if_neg (by simpa using hne),
          List.count_eq_zero]
        intro hmem
        have := placeTerm_operands hj hbelow hmem
        omega
      · rw [Ast.bind, placeRef, placeTerm_of_le (Nat.not_lt.1 hj), hsize,
          Nat.add_sub_cancel' (Nat.not_lt.1 hj)]
    | mhz => rfl
    | const n => rfl
  | node l o r ihl ihr => rw [Ast.bind, Ast.operands, Ast.operands, List.count_append,
      List.count_append, ihl, ihr]

/-! ## The loop over the terms -/

/-- The terms of a definition with the formula `F` can be put together. -/
structure Composable (F : Ast Ref Operator) (ts : List Term) : Prop where
  operands : ∀ j, .counter j ∈ F.operands → j < ts.length
  size_le : size ts ≤ eventsInDerivedEvent
  fresh : (ts.flatMap Term.codes).Nodup
  /-- Each term before an event with a formula has one native event. -/
  aligned : ∀ p u codes q, ts = p ++ .event u codes :: q → ∀ t ∈ p, t.codes.length = 1
  /-- The formula of an event is not inserted so often that it outgrows the buffer. -/
  room : ∀ (j : Nat) u codes, ts[j]? = some (.event u codes) →
    F.operands.count (.counter j) * (render Ref.word u.code).length <
      (render Ref.word u.code).length + 3 * F.operands.count (.counter j) + 40

/-- The event of the name `symbol` after the terms `done`. -/
structure Built (symbol : Option String) (F : Ast Ref Operator) (done : List Term)
    (results : Preset) : Prop where
  ops : results.postfixOps = some (render Ref.word (F.bind (placeRef done)).code)
  code : results.code = done.flatMap Term.codes
  type : results.derivedInt = .derivedPostfix
  symbol : results.symbol = symbol

theorem Built.count {symbol : Option String} {F : Ast Ref Operator} {done : List Term}
    {results : Preset} (h : Built symbol F done results) : results.count = size done := by
  rw [Preset.count, h.code, size]

section
variable {N : Natives} {T : Tables}

theorem isEvent_native {name : String} {code : Int} (h : Means N T name (.native code))
    (type : DerivedType) {results : Preset} (hlt : results.count < maxInfoTerms) (i : Nat) :
    isEvent N T name type results i = .ok (some
      { results with code := results.code ++ [code], name := results.name ++ [name] }) := by
  obtain ⟨h₁, h₂, h₃, h₄, h₅⟩ := h
  rw [isEvent, checkDerivedEvents, h₁, ok_bind]
  simp only
  rw [checkDerivedEvents, h₂, ok_bind]
  simp only
  rw [checkNativeEvents, h₃]
  simp only [h₄, h₅, if_false, ne_eq, not_true_eq_false, addCode_ok hlt]
  rfl

theorem isEvent_event {name : String} {u : Ast Ref Operator} {codes : List Int}
    (h : Means N T name (.event u codes)) (type : DerivedType) (results : Preset) (i : Nat) :
    ∃ p, Computes p u codes ∧
      isEvent N T name type results i = some <$> useEvent name type results p i := by
  obtain ⟨p, hp, hfind⟩ := h
  refine ⟨p, hp, ?_⟩
  rcases hfind with hfind | ⟨hnone, hfind⟩
  · rw [isEvent, checkDerivedEvents, hfind]
    simp only
    cases useEvent name type results p i <;> rfl
  · rw [isEvent, checkDerivedEvents, hnone, ok_bind]
    simp only
    rw [checkDerivedEvents, hfind]
    simp only
    cases useEvent name type results p i <;> rfl

theorem Built.native {symbol : Option String} {F : Ast Ref Operator} {done : List Term}
    {results : Preset} {code : Int} (h : Built symbol F done results) (names : List String) :
    Built symbol F (done ++ [.native code])
      { results with code := results.code ++ [code], name := names } :=
  ⟨by rw [placeRef_native]; exact h.ops, by simp [h.code, Term.codes], h.type, h.symbol⟩

/-- The formula of an event is merged into the place of its term. -/
theorem Built.event {symbol : Option String} {F : Ast Ref Operator} {done rest : List Term}
    {results : Preset} {u : Ast Ref Operator} {codes : List Int} (h : Built symbol F done results)
    (hc : Composable F (done ++ .event u codes :: rest))
    (hbelow : ∀ t ∈ done, ∀ k, .counter k ∈ t.tree.operands → k < t.codes.length)
    (hrest : rest.length ≤ size rest) {p : Preset} (hp : Computes p u codes) (name : String) :
    ∃ results', useEvent name .derivedPostfix results p done.length = .ok results' ∧
      Built symbol F (done ++ [.event u codes]) results' := by
  have hsize : size done = done.length := size_eq_length (hc.aligned done u codes rest rfl)
  have hpos : 0 < codes.length := List.length_pos_iff.2 hp.ne_nil
  have hle := hc.size_le
  rw [size_append, ← List.singleton_append, size_append, size_singleton, hsize] at hle
  simp only [Term.codes, eventsInDerivedEvent] at hle
  have hshift : ∀ k, .counter k ∈ (F.bind (placeRef done)).operands →
      k < 10 ∧ originalIndex done.length (indices u.code) k < 10 := by
    intro k hk
    have hk' : k < done.length + 1 + rest.length := by
      rcases placed_operands hsize hbelow hk with hk | hk
      · omega
      · have := hc.operands k hk
        simp only [List.length_append, List.length_cons] at this
        omega
    rw [hp.indices, originalIndex]
    split <;> omega
  have hlen := length_substitute done.length done.length (fun k hk => by
    have := hp.below k hk
    omega) hshift
  rw [placed_count hsize hbelow] at hlen
  have hroom := hc.room done.length u codes (by simp)
  have hmerge := opsStringMerge_code done.length done.length (by rw [hp.indices]; omega)
    (fun k hk => by
      have := hp.below k hk
      omega) hshift (by omega)
  have hnd : (results.code ++ p.codes.map (·.1)).Nodup := by
    have := hc.fresh
    rw [List.flatMap_append, List.flatMap_cons, ← List.append_assoc] at this
    rw [codes_fst, h.code, hp.code]
    exact (List.nodup_append.1 this).1
  have hcount : results.count + p.codes.length ≤ maxInfoTerms := by
    have : p.codes.length = codes.length := by
      rw [← List.length_map (f := (·.1)), codes_fst, hp.code]
    rw [h.count, this, hsize]
    unfold maxInfoTerms
    omega
  let ops := render Ref.word ((F.bind (placeRef done)).bind
    (substitute u done.length done.length)).code
  obtain ⟨names, hcopy⟩ := copyCodes_fresh name { results with postfixOps := some ops } hnd hcount
  refine ⟨{ results with
    postfixOps := some ops, code := results.code ++ p.codes.map (·.1), name := names }, ?_, ?_, ?_,
    h.type, h.symbol⟩
  · have hadd : addFormula .derivedPostfix results p done.length =
        .ok { results with postfixOps := some ops } := by
      rw [addFormula, h.ops, hp.ops, h.count, hsize, hmerge]
      rfl
    rw [useEvent, hadd]
    exact hcopy
  · simp only [ops]
    rw [Ast.bind_bind]
    exact congrArg (fun f => some (render Ref.word (F.bind f).code))
      (funext (placeRef_event hsize hp.indices hp.ne_nil hbelow))
  · simp [h.code, codes_fst, hp.code, Term.codes]

theorem Means.codes_ne_nil {name : String} {t : Term} (h : Means N T name t) : t.codes ≠ [] := by
  cases t with
  | native code => exact List.cons_ne_nil _ _
  | event u codes =>
    obtain ⟨p, hp, -⟩ := h
    exact hp.ne_nil

theorem Means.below {name : String} {t : Term} (h : Means N T name t) :
    ∀ k, .counter k ∈ t.tree.operands → k < t.codes.length := by
  cases t with
  | native code =>
    intro k hk
    cases List.mem_singleton.1 hk
    exact Nat.one_pos
  | event u codes =>
    obtain ⟨p, hp, -⟩ := h
    exact hp.below

theorem length_le_size {ts : List Term} (h : ∀ t ∈ ts, t.codes ≠ []) : ts.length ≤ size ts := by
  induction ts with
  | nil => exact Nat.zero_le _
  | cons t ts ih =>
    obtain ⟨ht, hts⟩ := List.forall_mem_cons.1 h
    have hpos := List.length_pos_iff.2 ht
    have := ih hts
    rw [← List.singleton_append, size_append, size_singleton, List.length_append,
      List.length_singleton]
    omega

theorem exists_name {R : String → Term → Prop} {names : List String} {ts : List Term}
    (h : List.Forall₂ R names ts) {t : Term} (ht : t ∈ ts) : ∃ name, R name t := by
  induction h with
  | nil => cases ht
  | cons h _ ih =>
    rcases List.mem_cons.1 ht with rfl | ht
    · exact ⟨_, h⟩
    · exact ih ht

/-- One pass of the loop. -/
theorem Built.step {symbol : Option String} {F : Ast Ref Operator} {done rest : List Term}
    {results : Preset} (h : Built symbol F done results) {t : Term} {name : String}
    (ht : Means N T name t)
    (hc : Composable F (done ++ t :: rest))
    (hbelow : ∀ t ∈ done, ∀ k, .counter k ∈ t.tree.operands → k < t.codes.length)
    (hrest : rest.length ≤ size rest) :
    ∃ results', isEvent N T name .derivedPostfix results done.length = .ok (some results') ∧
      Built symbol F (done ++ [t]) results' := by
  cases t with
  | native code =>
    have hlt : results.count < maxInfoTerms := by
      have hle := hc.size_le
      rw [size_append, ← List.singleton_append, size_append, size_singleton] at hle
      rw [h.count]
      simp only [Term.codes, List.length_singleton, eventsInDerivedEvent] at hle
      unfold maxInfoTerms
      omega
    exact ⟨_, isEvent_native ht _ hlt _, h.native _⟩
  | event u codes =>
    obtain ⟨p, hp, heq⟩ := isEvent_event ht .derivedPostfix results done.length
    obtain ⟨results', huse, hbuilt⟩ := h.event hc hbelow hrest hp name
    exact ⟨results', by rw [heq, huse]; rfl, hbuilt⟩

/-- A name stands for a term as long as the event of the name `symbol` is built. -/
def MeansFor (N : Natives) (T : Preset → Tables) (symbol : Option String) (name : String)
    (t : Term) : Prop :=
  ∀ results, results.symbol = symbol → Means N (T results) name t

theorem addTerms_built {T : Preset → Tables} {symbol : Option String} {F : Ast Ref Operator}
    {done rest : List Term} {names : List String} {results : Preset}
    (h : Built symbol F done results) (hmeans : List.Forall₂ (MeansFor N T symbol) names rest)
    (hc : Composable F (done ++ rest))
    (hbelow : ∀ t ∈ done, ∀ k, .counter k ∈ t.tree.operands → k < t.codes.length) :
    ∃ results', addTerms N T names done.length results =
        .ok (results', (done ++ rest).length, false) ∧
      Built symbol F (done ++ rest) results' := by
  induction hmeans generalizing done results with
  | nil =>
    rw [List.append_nil]
    exact ⟨results, rfl, h⟩
  | @cons name t names rest ht hmeans ih =>
    have hrest : rest.length ≤ size rest := length_le_size fun t ht => by
      obtain ⟨_, ht⟩ := exists_name hmeans ht
      exact (ht results h.symbol).codes_ne_nil
    have ht := ht results h.symbol
    obtain ⟨results', hstep, h'⟩ := h.step ht hc hbelow hrest
    have hdone : done ++ t :: rest = (done ++ [t]) ++ rest := by simp
    rw [addTerms, h.type, hstep, ok_bind]
    simp only
    by_cases hlt : results'.count < eventsInDerivedEvent
    · rw [if_pos hlt, hdone]
      have hlen : done.length + 1 = (done ++ [t]).length := by simp
      rw [hlen]
      refine ih h' (hdone ▸ hc) fun t' ht' => ?_
      rcases List.mem_append.1 ht' with ht' | ht'
      · exact hbelow t' ht'
      · exact List.mem_singleton.1 ht' ▸ ht.below
    · -- the event is full, so that this is the last term
      have hle := hc.size_le
      rw [hdone, size_append, ← h'.count] at hle
      have : rest = [] := List.length_eq_zero_iff.1 (by omega)
      subst this
      rw [if_neg hlt]
      rw [List.length_append]
      exact ⟨results', rfl, h'⟩

end

/-! ## What an event computes -/

/-- The values of operands, where the native events of `codes` have the values `x`. -/
def reading {D : Type} (x : Int → Option D) (val : Ref → Option D) (codes : List Int) :
    Ref → Option D
  | .counter k => codes[k]?.bind x
  | r => val r

theorem getElem?_flatMap_take {ts : List Term} {j k : Nat} (hj : j < ts.length)
    (hk : k < ts[j].codes.length) :
    (ts.flatMap Term.codes)[k + size (ts.take j)]? = ts[j].codes[k]? := by
  have hsplit : ts.flatMap Term.codes = (ts.take j).flatMap Term.codes ++
      (ts[j].codes ++ (ts.drop (j + 1)).flatMap Term.codes) := by
    rw [← List.flatMap_cons, ← List.drop_eq_getElem_cons hj, ← List.flatMap_append,
      List.take_append_drop]
  rw [hsplit, size, List.getElem?_append_right (Nat.le_add_left ..), Nat.add_sub_cancel,
    List.getElem?_append_left hk]

/-- With the terms in their places, the formula has the value that it has over the values of the
terms. -/
theorem eval_placed {F : Ast Ref Operator} {ts : List Term}
    (hoperands : ∀ j, .counter j ∈ F.operands → j < ts.length)
    (hbelow : ∀ t ∈ ts, ∀ k, .counter k ∈ t.tree.operands → k < t.codes.length) {D : Type}
    (x : Int → Option D) (val : Ref → Option D) (op : Operator → D → D → D) :
    (F.bind (placeRef ts)).eval (reading x val (ts.flatMap Term.codes)) op = F.eval (fun
      | .counter j => ts[j]?.bind fun t => t.tree.eval (reading x val t.codes) op
      | r => val r) op := by
  rw [Ast.eval_bind]
  refine Ast.eval_congr fun r hr => ?_
  cases r with
  | counter j =>
    have hj := hoperands j hr
    simp only [placeRef, placeTerm, List.getElem?_eq_getElem hj, Option.bind_some]
    rw [Ast.eval_map]
    refine Ast.eval_congr fun r hr => ?_
    cases r with
    | counter k =>
      exact congrArg (·.bind x) (getElem?_flatMap_take hj (hbelow _ (List.getElem_mem hj) k hr))
    | mhz => rfl
    | const n => rfl
  | mhz => rfl
  | const n => rfl

def smallNatives : Natives where
  nameToCode name := (["A", "B", "C", "D"].idxOf? name).map fun i => 1073741824 + (i : Int)
  componentIndex _ := 0

/-- `C` and the event `FILLS` -/
def smallTerms : List Term :=
  [.native 1073741826, .event (pair .add).tree [1073741824, 1073741825]]

theorem fills_computes : Computes fills (pair .add).tree [1073741824, 1073741825] where
  ops := by decide
  code := rfl
  ne_nil := by decide
  indices := by decide
  below := by
    intro k hk
    rcases List.mem_pair.1 hk with h | h <;> cases h <;> decide

theorem smallTerms_composable (o : Operator) : Composable (pair o).tree smallTerms where
  operands := by
    intro j hj
    rcases List.mem_pair.1 hj with h | h <;> cases h <;> decide
  size_le := by decide
  fresh := by decide
  aligned := by
    rintro p u codes q hsplit t ht
    rcases p with _ | ⟨a, _ | ⟨b, p⟩⟩
    · cases ht
    · cases hsplit
      obtain rfl := List.mem_singleton.1 ht
      rfl
    · have := congrArg List.length hsplit
      simp [smallTerms] at this
  room := by
    rintro (_ | _ | j) u codes hj
    · cases hj
    · cases hj
      cases o <;> decide
    · cases hj

/-- A definition with the formula `N0-N1`, before its terms are added. -/
def restEvent : Preset := ⟨some "REST", .derivedPostfix, some "N0|N1|-|".toList, [], []⟩

theorem addFormula_code {type : DerivedType} {results event results' : Preset} {i : Nat}
    (h : addFormula type results event i = .ok results') : results'.code = results.code := by
  have happend : ∀ addition, opsStringAppend results event addition = .ok results' →
      results'.code = results.code := by
    intro addition h
    obtain ⟨formula, -, h⟩ := except_bind_ok.1 h
    obtain ⟨out, -, h⟩ := except_bind_ok.1 h
    cases out with
    | none =>
      cases h
      rfl
    | some formula =>
      simp only at h
      split at h
      · obtain ⟨formula, -, h⟩ := except_bind_ok.1 h
        cases h
        rfl
      · cases h
        rfl
  unfold addFormula at h
  split at h
  · obtain ⟨ops, -, h⟩ := except_bind_ok.1 h
    cases h
    rfl
  · exact happend _ h
  · exact happend _ h
  · cases h
    rfl

/-- Behind a native event that is known no other is added. -/
theorem copyCodes_found {target : String} {codes : List (Int × Option String)} {found : Nat}
    {results results' : Preset} (hfound : found ≠ 0)
    (h : copyCodes target codes found results = .ok results') : results'.code = results.code := by
  induction codes generalizing found results with
  | nil =>
    cases h
    rfl
  | cons c codes ih =>
    obtain ⟨code, name⟩ := c
    rw [copyCodes] at h
    split at h
    · obtain ⟨ops, -, h⟩ := except_bind_ok.1 h
      have := ih (Nat.succ_ne_zero found) h
      exact this
    · rw [if_neg hfound] at h
      exact ih hfound h

theorem copyCodes_code {target : String} {codes : List (Int × Option String)} {known : List Int}
    {results results' : Preset} (hnd : (codes.map (·.1)).Nodup)
    (hknown : ∀ c ∈ codes.map (·.1), c ∈ results.code ↔ c ∈ known)
    (h : copyCodes target codes 0 results = .ok results') :
    results'.code = results.code ++ (codes.map (·.1)).takeWhile (· ∉ known) := by
  induction codes generalizing results with
  | nil =>
    cases h
    simp
  | cons c codes ih =>
    obtain ⟨code, name⟩ := c
    obtain ⟨hcode, hnd⟩ := List.nodup_cons.1 hnd
    obtain ⟨hhead, hknown⟩ := List.forall_mem_cons.1 hknown
    rw [copyCodes] at h
    split at h
    · next i hi =>
      obtain ⟨ops, -, h⟩ := except_bind_ok.1 h
      have hmem : code ∈ results.code := by
        obtain ⟨hlt, heq, -⟩ := List.findIdx?_eq_some_iff_getElem.1 hi
        exact of_decide_eq_true heq ▸ List.getElem_mem hlt
      have hsame := copyCodes_found (Nat.succ_ne_zero 0) h
      rw [hsame]
      simp [hhead.1 hmem]
    · next hnone =>
      have hmem : code ∉ results.code := by
        intro hmem
        simpa using List.findIdx?_eq_none_iff.1 hnone code hmem
      rw [if_pos rfl] at h
      obtain ⟨added, hadd, h⟩ := except_bind_ok.1 h
      rw [addCode] at hadd
      split at hadd
      · cases hadd
        rw [ih hnd (fun c hc => ?_) h, List.map_cons,
          List.takeWhile_cons_of_pos (by simpa using fun h => hmem (hhead.2 h)), List.append_assoc]
        · rfl
        · have hne : c ≠ code := fun heq => hcode (heq ▸ hc)
          simp only [List.mem_append, List.mem_singleton, hne, or_false]
          exact hknown c hc
      · cases hadd

/-- Of the native events of an event that is used, those from the first known one on are not added:
the event has all of them exactly if no new one is behind a known one. -/
theorem useEvent_codes {target : String} {type : DerivedType} {results event results' : Preset}
    {i : Nat} (hnd : event.code.Nodup) (h : useEvent target type results event i = .ok results') :
    results'.code = results.code ++ event.code.takeWhile (· ∉ results.code) ∧
    ((∀ c ∈ event.code, c ∈ results'.code) ↔
      ∀ c ∈ event.code.dropWhile (· ∉ results.code), c ∈ results.code) := by
  obtain ⟨added, hadd, h⟩ := except_bind_ok.1 h
  have hcode := copyCodes_code (by rwa [codes_fst]) (fun _ _ => Iff.rfl) h
  rw [codes_fst, addFormula_code hadd] at hcode
  refine ⟨hcode, ?_⟩
  rw [hcode]
  constructor
  · intro hall c hc
    rcases List.mem_append.1 (hall c ((List.dropWhile_sublist _).mem hc)) with hmem | hmem
    · exact hmem
    · have hsplit := List.takeWhile_append_dropWhile (p := (· ∉ results.code)) (l := event.code)
      rw [← hsplit] at hnd
      exact absurd rfl ((List.nodup_append.1 hnd).2.2 c hmem c hc)
  · intro hall c hc
    rw [← List.takeWhile_append_dropWhile (p := (· ∉ results.code)) (l := event.code)] at hc
    rcases List.mem_append.1 hc with hmem | hmem
    · exact List.mem_append_right _ hmem
    · exact List.mem_append_left _ (hall c hmem)

/-- Behind the native event `A`, the native event `B` of `FILLS` is not added: the operand `N1` is
left without one. -/
theorem useEvent_codes_lost :
    ∃ results', useEvent "FILLS" .derivedPostfix
        { restEvent with code := [1073741824], name := ["A"] } fills 1 = .ok results' ∧
      results'.postfixOps = some "N0|N0|N1|+|-|".toList ∧ results'.code = [1073741824] := by
  have hnodup : fills.code.Nodup := by decide
  have huse : useEvent "FILLS" .derivedPostfix
      { restEvent with code := [1073741824], name := ["A"] } fills 1 =
        .ok ⟨some "REST", .derivedPostfix, some "N0|N0|N1|+|-|".toList, [1073741824], ["A"]⟩ := by
    decide
  exact ⟨_, huse, rfl, (useEvent_codes hnodup huse).1⟩

end PbdPapi.Derived
