import PbdPapi.Proof.Names
import PbdPapi.Proof.Reading

/-!
# From the definition of an event to its value

A line that defines an event by a formula, and what is read for this event later on: the line is
split into its fields (`fields_line`), the formula is converted and the terms are put into it
(`loadLine_infix`), and in every event set that holds the event its value is that of the formula
over the native events of the terms (`definition_value`).
-/

set_option autoImplicit false

namespace PbdPapi.Derived

open Rpn Yard Exec Keyed

/-! ## Fields -/

/-- A text that a line can hold between two commas. -/
structure IsField (t : Text) : Prop where
  ne_nil : t ≠ []
  comma : ',' ∉ t
  trimmed : trimString t = t

theorem fields_line {fs : List Text} (hne : fs ≠ []) (h : ∀ t ∈ fs, IsField t) :
    fields ([','].intercalate fs) = fs := by
  rw [fields, List.splitOn_intercalate ',' (fun t ht => (h t ht).comma) hne,
    List.filter_eq_self.2 fun t ht => decide_eq_true (h t ht).ne_nil]
  exact (List.map_congr_left fun t ht => (h t ht).trimmed).trans (List.map_id fs)

/-- Without blanks and commas, a text is a field. -/
theorem isField_of_mem {t : Text} (hne : t ≠ []) (h : ∀ c ∈ t, c ≠ ',' ∧ isblank c = false) :
    IsField t := by
  refine ⟨hne, fun hc => (h _ hc).1 rfl, ?_⟩
  obtain ⟨c, t, rfl⟩ := List.exists_cons_of_ne_nil hne
  have hc := (h c List.mem_cons_self).2
  rw [trimString, List.dropWhile_cons_of_neg (by simp [hc]), List.rdropWhile_eq_self_iff]
  intro hne hlast
  rw [(h _ (List.getLast_mem hne)).2] at hlast
  cases hlast

theorem not_blank_digit {c : Char} (h : c.isDigit) : c ≠ ',' ∧ isblank c = false := by
  constructor
  · rintro rfl
    cases h
  · have h₁ : c ≠ ' ' := by
      rintro rfl
      cases h
    have h₂ : c ≠ '\t' := by
      rintro rfl
      cases h
    simp [isblank, h₁, h₂]

theorem not_blank_word (r : Ref) : ∀ c ∈ r.word.chars, c ≠ ',' ∧ isblank c = false := by
  intro c hc
  cases r with
  | counter k =>
    rcases List.mem_cons.1 hc with rfl | hc
    · decide
    · exact not_blank_digit (isDigit_of_mem hc)
  | mhz =>
    cases List.mem_singleton.1 hc
    decide
  | const n => exact not_blank_digit (isDigit_of_mem hc)

theorem not_blank_text (e : Infix Ref Operator) :
    ∀ c ∈ text Ref.word e, c ≠ ',' ∧ isblank c = false := by
  induction e with
  | atom k => exact not_blank_word k
  | paren e ih =>
    intro c hc
    rw [text, List.mem_cons, List.mem_append, List.mem_singleton] at hc
    rcases hc with rfl | hc | rfl
    · decide
    · exact ih c hc
    · decide
  | bin l o r ihl ihr =>
    intro c hc
    rw [text, List.mem_append, List.mem_cons] at hc
    rcases hc with hc | rfl | hc
    · exact ihl c hc
    · cases o <;> decide
    · exact ihr c hc

theorem isField_text (e : Infix Ref Operator) : IsField (text Ref.word e) :=
  isField_of_mem (List.length_pos_iff.1 (text_pos e)) (not_blank_text e)

/-! ## The definition -/

section
variable {N : Natives} {T : Preset → Tables}

/-- The terms of a definition with the formula `F`, behind which no other term comes. -/
theorem readTerms_built (results : Preset) {F : Ast Ref Operator} {terms rest : List Text}
    {ts : List Term} (hops : results.postfixOps = some (render Ref.word F.code))
    (htype : results.derivedInt = .derivedPostfix) (hterms : ∀ t ∈ terms, isTerm t = true)
    (hrest : rest.takeWhile isTerm = []) (hne : terms ≠ [])
    (hmeans : List.Forall₂ (MeansFor N T results.symbol) (terms.map String.ofList) ts)
    (hc : Composable F ts) : ∃ event, readTerms N T results (terms ++ rest) = .ok (event, true) ∧
      Built results.symbol F ts event := by
  have h₀ : Built results.symbol F [] { results with code := [], name := [] } :=
    ⟨by rw [placeRef_nil, Ast.bind_leaf]; exact hops, rfl, htype, rfl⟩
  obtain ⟨event, hadd, h⟩ := addTerms_built h₀ hmeans hc (by simp)
  have htake : (terms ++ rest).takeWhile isTerm = terms := by
    rw [List.takeWhile_append_of_pos hterms, hrest, List.append_nil]
  have hlen : ts.length ≠ 0 := by
    rw [← hmeans.length_eq, List.length_map]
    exact fun h => hne (List.length_eq_zero_iff.1 h)
  refine ⟨event, ?_, h⟩
  rw [List.nil_append, List.length_nil] at hadd
  rw [readTerms, htake, hadd, ok_bind]
  simp only
  rw [if_neg]
  · simp [hlen]
  · rintro ⟨-, hle⟩
    rw [h.count, List.nil_append] at hle
    have := hc.size_le
    unfold maxInfoTerms at hle
    unfold eventsInDerivedEvent at this
    omega

theorem readDefinition_infix {results : Preset} {e : Infix Ref Operator} {terms rest : List Text}
    {ts : List Term} (hlen : (text Ref.word e).length < hugeStrLen)
    (hterms : ∀ t ∈ terms, isTerm t = true) (hrest : rest.takeWhile isTerm = []) (hne : terms ≠ [])
    (hmeans : List.Forall₂ (MeansFor N T results.symbol) (terms.map String.ofList) ts)
    (hc : Composable (e.group Operator.prio).tree ts) :
    ∃ event, readDefinition N T results
        ("DERIVED_INFIX".toList :: text Ref.word e :: (terms ++ rest)) = .ok (event, true) ∧
      Built results.symbol (e.group Operator.prio).tree ts event := by
  have htype : papiHwiDerivedType "DERIVED_INFIX".toList = some .derivedInfix := by decide
  have hops : readOps .derivedInfix (text Ref.word e) =
      .ok (render Ref.word (e.group Operator.prio).tree.code) := infixToPostfix_formula e hlen
  obtain ⟨event, hread, h⟩ := readTerms_built { results with
      derivedInt := .derivedPostfix
      postfixOps := some (render Ref.word (e.group Operator.prio).tree.code) }
    rfl rfl hterms hrest hne hmeans hc
  refine ⟨event, ?_, h⟩
  rw [readDefinition, htype]
  simp only
  rw [if_pos (.inr trivial), if_neg (isField_text e).ne_nil, hops, ok_bind]
  exact hread

end

section
variable {X : Target} {s : Loading} {name : Text} {e : Infix Ref Operator}
  {terms rest : List Text} {ts : List Term} {i : Nat}

/-- The line that defines the event `name` by a formula over terms, with what may follow them. -/
def infixLine (name : Text) (e : Infix Ref Operator) (terms rest : List Text) : Text :=
  [','].intercalate ("EVENT".toList :: name :: "DERIVED_INFIX".toList :: text Ref.word e ::
    (terms ++ rest))

/-- The line finds the entry `i` of the name `symbol`, and its terms make an event of the
formula. -/
structure Defines (X : Target) (s : Loading) (i : Nat) (symbol : String) (name : Text)
    (e : Infix Ref Operator) (terms rest : List Text) (ts : List Term) : Prop where
  fields : ∀ t ∈ name :: (terms ++ rest), IsField t
  index : findEventIndex (String.ofList name) s.results = some i
  called : s.results[i]?.map (·.symbol.getD (String.ofList name)) = some symbol
  length : (text Ref.word e).length < hugeStrLen
  ne_nil : terms ≠ []
  areTerms : ∀ t ∈ terms, isTerm t = true
  stop : rest.takeWhile isTerm = []
  means : List.Forall₂
    (MeansFor X.natives (fun r => X.tables (s.results.set i r) s.eventCount) (some symbol))
    (terms.map String.ofList) ts
  composable : Composable (e.group Operator.prio).tree ts

theorem defineEvent_infix {symbol : String} (h : Defines X s i symbol name e terms rest ts) :
    ∃ event,
      defineEvent X s (name :: "DERIVED_INFIX".toList :: text Ref.word e :: (terms ++ rest)) =
        .ok { s with results := s.results.set i event, eventCount := s.eventCount + 1 } ∧
      Built (some symbol) (e.group Operator.prio).tree ts event := by
  obtain ⟨entry, hentry, hsymbol⟩ := Option.map_eq_some_iff.1 h.called
  have hnamed : (entry.named (String.ofList name)).symbol = some symbol := congrArg some hsymbol
  have hmeans := h.means
  rw [← hnamed] at hmeans
  obtain ⟨event, hread, hbuilt⟩ :=
    readDefinition_infix h.length h.areTerms h.stop h.ne_nil hmeans h.composable
  refine ⟨event, ?_, hnamed ▸ hbuilt⟩
  rw [defineEvent, if_neg (h.fields name List.mem_cons_self).ne_nil, h.index]
  simp only
  rw [cell_natCast hentry, ok_bind, hread, ok_bind]
  rfl

theorem fields_infixLine (hfields : ∀ t ∈ name :: (terms ++ rest), IsField t) :
    fields (infixLine name e terms rest) =
      "EVENT".toList :: name :: "DERIVED_INFIX".toList :: text Ref.word e :: (terms ++ rest) := by
  refine fields_line (List.cons_ne_nil _ _) fun t ht => ?_
  rcases List.mem_cons.1 ht with rfl | ht
  · exact isField_of_mem (by decide) (by simp [isblank])
  rcases List.mem_cons.1 ht with rfl | ht
  · exact hfields _ List.mem_cons_self
  rcases List.mem_cons.1 ht with rfl | ht
  · exact isField_of_mem (by decide) (by simp [isblank])
  rcases List.mem_cons.1 ht with rfl | ht
  · exact isField_text e
  · exact hfields t (List.mem_cons_of_mem _ ht)

theorem loadLine_infix {symbol : String} (hget : s.getEvents = true)
    (h : Defines X s i symbol name e terms rest ts) :
    ∃ event, loadLine X s (infixLine name e terms rest) = .ok { s with
        results := s.results.set i event
        eventCount := s.eventCount + 1
        foundEvents := true } ∧
      Built (some symbol) (e.group Operator.prio).tree ts event := by
  have hfields := fields_infixLine (e := e) h.fields
  have hevent : isEventLine (infixLine name e terms rest) = true := by
    rw [isEventLine, Bool.or_eq_true]
    exact .inr (startsWith_iff.2 ⟨_, _, hfields, by decide⟩)
  have h' : Defines X { s with foundEvents := true } i symbol name e terms rest ts :=
    ⟨h.fields, h.index, h.called, h.length, h.ne_nil, h.areTerms, h.stop, h.means, h.composable⟩
  obtain ⟨event, hdef, hbuilt⟩ := defineEvent_infix h'
  refine ⟨event, ?_, hbuilt⟩
  rw [loadLine_event X s hevent, if_pos hget, hfields]
  exact hdef

end

/-! ## Its value -/

/-- The operators of the formula are those that are computed. -/
def Computed (t : Ast Ref Operator) : Prop := ∀ o, .apply o ∈ t.code → o.arithmetic = true

theorem computed_node {l r : Ast Ref Operator} {o : Operator} :
    Computed (.node l o r) ↔ Computed l ∧ Computed r ∧ o.arithmetic = true := by
  simp only [Computed, Ast.code, List.mem_append, List.mem_singleton, Item.apply.injEq]
  constructor
  · exact fun h => ⟨fun o' ho' => h o' (.inl (.inl ho')), fun o' ho' => h o' (.inl (.inr ho')),
      h o (.inr rfl)⟩
  · rintro ⟨hl, hr, ho⟩ o' ((ho' | ho') | rfl)
    · exact hl o' ho'
    · exact hr o' ho'
    · exact ho

theorem computed_leaf (r : Ref) : Computed (.leaf r) := by
  intro o ho
  cases List.mem_singleton.1 ho

theorem Computed.bind {t : Ast Ref Operator} {f : Ref → Ast Ref Operator} (ht : Computed t)
    (hf : ∀ r, Computed (f r)) : Computed (t.bind f) := by
  induction t with
  | leaf r => exact hf r
  | node l o r ihl ihr =>
    obtain ⟨hl, hr, ho⟩ := computed_node.1 ht
    exact computed_node.2 ⟨ihl hl, ihr hr, ho⟩

theorem Computed.map {t : Ast Ref Operator} (f : Ref → Ref) (ht : Computed t) :
    Computed (t.map f) := by
  induction t with
  | leaf r => exact computed_leaf _
  | node l o r ihl ihr =>
    obtain ⟨hl, hr, ho⟩ := computed_node.1 ht
    exact computed_node.2 ⟨ihl hl, ihr hr, ho⟩

theorem computed_placeRef {ts : List Term} (h : ∀ t ∈ ts, Computed t.tree) (r : Ref) :
    Computed (placeRef ts r) := by
  cases r with
  | counter j =>
    simp only [placeRef, placeTerm]
    cases hj : ts[j]? with
    | none => exact computed_leaf _
    | some t => exact (h t (List.mem_of_getElem? hj)).map _
  | mhz => exact computed_leaf _
  | const n => exact computed_leaf _

section
variable {D : Type} (F : Double D) (cpuMaxMhz : Int)

/-- The value of an operand that is no native event. -/
def constant : Ref → Option D
  | .counter _ => none
  | .mhz => some (F.mul (F.ofInt cpuMaxMhz) (F.ofInt 1000000))
  | .const n => if n < 2 ^ 31 then some (F.ofInt n) else none

/-- The value of an operand of the definition, where native events have the values `x`. -/
def termValue (x : Int → Int) (ts : List Term) : Ref → Option D
  | .counter j => ts[j]?.bind fun t =>
    t.tree.eval (reading (fun c => some (F.ofInt (x c))) (constant F cpuMaxMhz) t.codes) F.op
  | r => constant F cpuMaxMhz r

/-- The positions of an event whose native events are counted on their own. -/
def ownPositions (n : Nat) : List Int :=
  (List.range n).map Int.ofNat ++ List.replicate (eventsInDerivedEvent - n) papiNull

theorem value_own (x : Int → Int) {codes : List Int} (evi : EventInfo)
    (hpos : evi.pos = ownPositions codes.length) (hlen : codes.length ≤ eventsInDerivedEvent)
    (r : Ref) : value F cpuMaxMhz evi (codes.map x) r =
      reading (fun c => some (F.ofInt (x c))) (constant F cpuMaxMhz) codes r := by
  cases r with
  | counter k =>
    rw [value, hpos, reading, ownPositions]
    unfold eventsInDerivedEvent at hlen
    by_cases hk : k < codes.length
    · have hcell : cell ((List.range codes.length).map Int.ofNat ++
          List.replicate (eventsInDerivedEvent - codes.length) papiNull) (k : Int) =
            .ok (k : Int) := cell_natCast (by
        rw [List.getElem?_append_left (by simpa using hk)]
        simp [hk])
      have hcounter : cell (codes.map x) (k : Int) = .ok (x codes[k]) := cell_natCast (by
        rw [List.getElem?_map, List.getElem?_eq_getElem hk]
        rfl)
      rw [if_pos (by omega), hcell, ok_bind, hcounter, List.getElem?_eq_getElem hk]
      rfl
    · have hnone : (cell ((List.range codes.length).map Int.ofNat ++
          List.replicate (eventsInDerivedEvent - codes.length) papiNull) (k : Int) >>=
            cell (codes.map x)).toOption = none := by
        rw [cell, if_neg (by omega), Int.toNat_natCast,
          List.getElem?_append_right (by simpa using hk), List.getElem?_replicate]
        split
        · next p hp =>
          split at hp
          · cases hp
            rfl
          · cases hp
        · rfl
      rw [hnone, List.getElem?_eq_none (Nat.not_lt.1 hk)]
      split <;> rfl
  | mhz => rfl
  | const n => rfl

/-- An event that was built from a formula has the value of the formula, as long as the formula
fits the stack. -/
theorem Built.computes {symbol : Option String} {G : Ast Ref Operator} {ts : List Term}
    {L : Library} {c : Int} (h : Built symbol G ts (eventOf L c)) (hc : Composable G ts)
    (hbelow : ∀ t ∈ ts, ∀ k, .counter k ∈ t.tree.operands → k < t.codes.length)
    (hG : Computed G) (hts : ∀ t ∈ ts, Computed t.tree) (x : Int → Int) (v : Int) :
    eventValue F cpuMaxMhz L x c = .ok v ↔
      (G.bind (placeRef ts)).depth ≤ eventsInDerivedEvent ∧
        ∃ d, G.eval (termValue F cpuMaxMhz x ts) F.op = some d ∧ v = F.toLongLong d := by
  have hlen : (nativeCodes L c).length ≤ eventsInDerivedEvent := by
    rw [nativeCodes, h.code]
    exact hc.size_le
  let evi : EventInfo :=
    ⟨c, ownPositions (nativeCodes L c).length, (eventOf L c).postfixOps, .derivedPostfix⟩
  have hvalue : eventValue F cpuMaxMhz L x c = papiHwiPostfixCalc F cpuMaxMhz
      { evi with ops := some (render Ref.word (G.bind (placeRef ts)).code) }
      ((nativeCodes L c).map x) := by
    rw [eventValue, h.type, if_neg (by decide), h.ops, List.length_map]
    rfl
  have hexec : executed (G.bind (placeRef ts)).code = (G.bind (placeRef ts)).code :=
    executed_eq_self (hG.bind (computed_placeRef hts))
  have heval : (G.bind (placeRef ts)).eval (value F cpuMaxMhz evi ((nativeCodes L c).map x)) F.op =
      G.eval (termValue F cpuMaxMhz x ts) F.op := by
    have hval : value F cpuMaxMhz evi ((nativeCodes L c).map x) =
        reading (fun c => some (F.ofInt (x c))) (constant F cpuMaxMhz) (nativeCodes L c) :=
      funext (value_own F cpuMaxMhz x evi rfl hlen)
    rw [hval, nativeCodes, h.code, eval_placed hc.operands hbelow]
    refine Ast.eval_congr fun r _ => ?_
    cases r <;> rfl
  rw [hvalue, calc_ok, hexec]
  constructor
  · rintro ⟨st, hst, rfl⟩
    obtain ⟨hdepth, d, hd, rfl⟩ := (exec_tree F cpuMaxMhz evi _).1 hst
    exact ⟨hdepth, d, heval ▸ hd, rfl⟩
  · rintro ⟨hdepth, d, hd, rfl⟩
    exact ⟨[d], (exec_tree F cpuMaxMhz evi _).2 ⟨hdepth, d, heval ▸ hd, rfl⟩, rfl⟩

end

theorem except_mapM_getElem? {α β : Type} {f : α → Except Fault β} {l : List α} {l' : List β}
    (h : l.mapM f = .ok l') {i : Nat} {a : α} (ha : l[i]? = some a) :
    ∃ b, f a = .ok b ∧ l'[i]? = some b := by
  induction l generalizing l' i with
  | nil => cases ha
  | cons a' l ih =>
    rw [List.mapM_cons] at h
    obtain ⟨b, hb, h⟩ := except_bind_ok.1 h
    obtain ⟨bs, hbs, h⟩ := except_bind_ok.1 h
    cases h
    cases i with
    | zero =>
      cases ha
      exact ⟨b, hb, rfl⟩
    | succ i => exact ih hbs ha

/-- The user defined events for the PMU `snb`, beside the preset event `FILLS`. -/
def fillsTarget : Target := userTarget smallNatives "snb".toList 3 [fills]

def noneLoaded : Loading := ⟨List.replicate 3 freePreset, 0, true, false⟩

def restLoaded : Preset :=
  ⟨some "REST", .derivedPostfix, some "N0|N1|N2|+|-|".toList,
    [1073741826, 1073741824, 1073741825], ["C", "A", "B"]⟩

/-- The library after the load. -/
def restLibrary : Library where
  tables := ⟨[fills], [restLoaded]⟩
  nativeEvents := (List.range 4).map fun i => ⟨0, i⟩
  numComponents := 1
  numMpxCntrs _ := 4
  ntvCodeToName _ _ := papiOK

theorem smallDefines : Defines fillsTarget noneLoaded 0 "REST" "REST".toList (pair .sub)
    ["C".toList, "FILLS".toList] ["NOTE".toList] smallTerms where
  fields t ht := by
    simp only [List.cons_append, List.nil_append, List.mem_cons, List.not_mem_nil, or_false] at ht
    rcases ht with rfl | rfl | rfl | rfl <;> exact isField_of_mem (by decide) (by simp [isblank])
  index := rfl
  called := rfl
  length := by decide
  ne_nil := by decide
  areTerms := by decide
  stop := by decide
  means := by
    refine .cons (fun results h => ⟨rfl, rfl, by decide, by decide, rfl⟩)
      (.cons (fun results _ => ⟨fills, fills_computes, .inl rfl⟩) .nil)
  composable := by
    rw [group_pair]
    exact smallTerms_composable .sub

theorem restLibrary_sound : restLibrary.Sound where
  presets := by decide
  userDefined p hp := by
    obtain rfl := List.mem_singleton.1 hp
    refine ⟨by decide, by decide, fun c hc => ⟨?_, fun c' hc' _ => ?_⟩⟩
    · revert c
      decide
    · have hindex : nativeIndex c' < 4 := by
        have hcode := hc'.native
        unfold papiHwiEventcodeToNative at hcode
        split at hcode
        · exact absurd hcode (by decide)
        split at hcode
        · exact absurd hcode (by decide)
        · next heq => exact (List.getElem?_eq_some_iff.1 heq).1
      have hcodes : c' ∈ [(1073741824 : Int), 1073741825, 1073741826, 1073741827] := by
        obtain ⟨hle, hlt⟩ := hc'.range
        simp only [nativeIndex] at hindex
        simp only [List.mem_cons, List.not_mem_nil, or_false]
        omega
      have hown : ∀ c' ∈ [(1073741824 : Int), 1073741825, 1073741826, 1073741827],
          ∀ c ∈ restLoaded.code, papiHwiEventcodeToNative restLibrary c' =
            papiHwiEventcodeToNative restLibrary c → c' = c := by decide
      exact hown c' hcodes c hc

def restSet : EventSetInfo where
  cmpIdx := 0
  numberOfEvents := 1
  eventInfoArray := [
    ⟨-1073741824, [0, 1, 2, -1, -1, -1, -1, -1], some "N0|N1|N2|+|-|".toList, .derivedPostfix⟩,
    freeEventInfo, freeEventInfo, freeEventInfo]
  nativeCount := 3
  nativeInfoArray := [⟨2, 1073741826, 0, 1⟩, ⟨0, 1073741824, 1, 1⟩, ⟨1, 1073741825, 2, 1⟩,
    freeNativeInfo]
  ctlState := [1073741826, 1073741824, 1073741825]

theorem restSet_run : Run restLibrary [-1073741824] restSet :=
  .add .create (fun _ => Int.le_refl 0) (by decide)
    (rfl : papiHwiAddEvent restLibrary (fun _ => 0) _ _ = _)

theorem restSet_read : papiHwiRead ratDouble 0 [10, 2, 3] restSet [0] = .ok [5] := by
  have hcalc : papiHwiPostfixCalc ratDouble 0
      ⟨-1073741824, [0, 1, 2, -1, -1, -1, -1, -1], some "N0|N1|N2|+|-|".toList, .derivedPostfix⟩
      [10, 2, 3] = .ok 5 := by
    let c : List (Item Ref Operator) := [.push (.counter 0), .push (.counter 1),
      .push (.counter 2), .apply .add, .apply .sub]
    exact (calc_ok ratDouble 0 ⟨-1073741824, [0, 1, 2, -1, -1, -1, -1, -1], none, .derivedPostfix⟩
      [10, 2, 3] (c := c)).2 ⟨[5], by decide +kernel, rfl⟩
  rw [papiHwiRead, restSet]
  simp only [readEvents, readEvent, cell, handleDerived, hcalc]
  rfl

end PbdPapi.Derived
