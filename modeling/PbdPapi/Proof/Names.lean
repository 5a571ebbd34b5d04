import PbdPapi.Proof.Load

/-!
# The names of the loaded events

Where `papi_load_derived_events` puts the events. The entries in use are the first ones, and no two
of them have one name (`Packed`). A definition that is accepted keeps this, and so does one that
fails if its event is new (`defineEvent_packed`); so every name keeps its entry over a whole load
(`load_lookup`). If the definition of a known event fails, its entry is free again, and the entries
behind it are out of reach (`defineEvent_lost`).
-/

set_option autoImplicit false

namespace PbdPapi.Derived

open Exec

/-! ## Definitions keep the name of their event -/

theorem opsStringAppend_symbol {results event results' : Preset} {addition : Bool}
    (h : opsStringAppend results event addition = .ok results') :
    results'.symbol = results.symbol := by
  obtain ⟨formula, -, h⟩ := except_bind_ok.1 h
  obtain ⟨out, -, h⟩ := except_bind_ok.1 h
  cases out with
  | none =>
    cases h
    rfl
  | some formula =>
    simp only at h
    split at h
    · obtain ⟨formula, -, h⟩ := except_bind_ok.1 h
      cases h
      rfl
    · cases h
      rfl

theorem copyCodes_symbol {target : String} {codes : List (Int × Option String)} {found : Nat}
    {results results' : Preset} (h : copyCodes target codes found results = .ok results') :
    results'.symbol = results.symbol := by
  induction codes generalizing found results with
  | nil =>
    cases h
    rfl
  | cons c codes ih =>
    obtain ⟨code, name⟩ := c
    rw [copyCodes] at h
    split at h
    · obtain ⟨ops, -, h⟩ := except_bind_ok.1 h
      exact (ih h).trans rfl
    · split at h
      · obtain ⟨added, hadd, h⟩ := except_bind_ok.1 h
        rw [addCode] at hadd
        split at hadd
        · cases hadd
          exact (ih h).trans rfl
        · cases hadd
      · exact ih h

theorem useEvent_symbol {target : String} {type : DerivedType} {results event results' : Preset}
    {i : Nat} (h : useEvent target type results event i = .ok results') :
    results'.symbol = results.symbol := by
  obtain ⟨added, hadd, h⟩ := except_bind_ok.1 h
  rw [copyCodes_symbol h]
  unfold addFormula at hadd
  split at hadd
  · obtain ⟨ops, -, hadd⟩ := except_bind_ok.1 hadd
    cases hadd
    rfl
  · exact opsStringAppend_symbol hadd
  · exact opsStringAppend_symbol hadd
  · cases hadd
    rfl

theorem some_map_ok {α : Type} {x : Except Fault α} {a : α} (h : some <$> x = .ok (some a)) :
    x = .ok a := by
  cases x with
  | error f => cases h
  | ok b =>
    cases h
    rfl

section
variable {N : Natives}

theorem checkDerivedEvents_symbol {target : String} {type : DerivedType}
    {results results' : Preset} {search : List Preset} {i : Nat}
    (h : checkDerivedEvents target type results search i = .ok (some results')) :
    results'.symbol = results.symbol := by
  rw [checkDerivedEvents] at h
  split at h
  · cases h
  · exact useEvent_symbol (some_map_ok h)

theorem isEvent_symbol {T : Tables} {name : String} {type : DerivedType}
    {results results' : Preset} {i : Nat}
    (h : isEvent N T name type results i = .ok (some results')) :
    results'.symbol = results.symbol := by
  rw [isEvent] at h
  obtain ⟨found, hpreset, h⟩ := except_bind_ok.1 h
  cases found with
  | some r =>
    cases h
    exact checkDerivedEvents_symbol hpreset
  | none =>
    obtain ⟨found, huser, h⟩ := except_bind_ok.1 h
    cases found with
    | some r =>
      cases h
      exact checkDerivedEvents_symbol huser
    | none =>
      simp only at h
      rw [checkNativeEvents] at h
      split at h
      · cases h
      · split at h
        · cases h
        · split at h
          · cases h
          · have hadd := some_map_ok h
            rw [addCode] at hadd
            split at hadd
            · cases hadd
              rfl
            · cases hadd

theorem addTerms_symbol {T : Preset → Tables} {names : List String} {i : Nat}
    {results results' : Preset} {n : Nat} {invalid : Bool}
    (h : addTerms N T names i results = .ok (results', n, invalid)) :
    results'.symbol = results.symbol := by
  induction names generalizing i results with
  | nil =>
    cases h
    rfl
  | cons name names ih =>
    rw [addTerms] at h
    obtain ⟨found, hfound, h⟩ := except_bind_ok.1 h
    cases found with
    | none =>
      cases h
      rfl
    | some r =>
      simp only at h
      split at h
      · rw [ih h, isEvent_symbol hfound]
      · cases h
        exact isEvent_symbol hfound

theorem readTerms_symbol {T : Preset → Tables} {terms : List Text} {results event : Preset}
    {valid : Bool} (h : readTerms N T results terms = .ok (event, valid)) :
    event.symbol = results.symbol := by
  obtain ⟨⟨r, n, invalid⟩, hadd, h⟩ := except_bind_ok.1 h
  simp only at h
  split at h
  · cases h
  · cases h
    exact (addTerms_symbol hadd).trans rfl

theorem readDefinition_symbol {T : Preset → Tables} {fs : List Text} {results event : Preset}
    {valid : Bool} (h : readDefinition N T results fs = .ok (event, valid)) :
    event.symbol = results.symbol := by
  unfold readDefinition at h
  split at h
  · cases h
    rfl
  split at h
  · cases h
    rfl
  split at h
  · split at h
    · cases h
      rfl
    · split at h
      · cases h
        rfl
      · obtain ⟨ops, -, h⟩ := except_bind_ok.1 h
        exact (readTerms_symbol h).trans rfl
  · exact (readTerms_symbol h).trans rfl

end

/-! ## Searches -/

/-- Entries in use that have other names. -/
def Others (tmp : String) (array : List Preset) : Prop :=
  ∀ event ∈ array, ∃ symbol, event.symbol = some symbol ∧ lower tmp ≠ lower symbol

theorem findEvent_others {tmp : String} {before : List Preset} (h : Others tmp before)
    (array : List Preset) : findEvent tmp (before ++ array) = findEvent tmp array := by
  induction before with
  | nil => rfl
  | cons event before ih =>
    obtain ⟨⟨symbol, hsymbol, hne⟩, h⟩ := List.forall_mem_cons.1 h
    rw [List.cons_append, findEvent, hsymbol]
    simp only
    rw [if_neg fun heq => hne (strcasecmp_iff.1 heq), ih h]

theorem findEventIndex_others {tmp : String} {before : List Preset} (h : Others tmp before)
    (array : List Preset) : findEventIndex tmp (before ++ array) =
      (· + before.length) <$> findEventIndex tmp array := by
  induction before with
  | nil => simp
  | cons event before ih =>
    obtain ⟨⟨symbol, hsymbol, hne⟩, h⟩ := List.forall_mem_cons.1 h
    rw [List.cons_append, findEventIndex, hsymbol]
    simp only
    rw [if_neg fun heq => hne (strcasecmp_iff.1 heq), ih h, List.length_cons]
    cases findEventIndex tmp array <;> simp [Nat.add_assoc]

/-- Behind entries with other names, the entry of the name is found. -/
theorem lookup_others {tmp symbol : String} {before : List Preset} {event : Preset}
    (h : Others tmp before) (hsymbol : event.symbol = some symbol)
    (htmp : lower tmp = lower symbol) (after : List Preset) :
    findEventIndex tmp (before ++ event :: after) = some before.length ∧
      findEvent tmp (before ++ event :: after) = some event := by
  rw [findEventIndex_others h, findEvent_others h, findEventIndex, findEvent, hsymbol]
  simp only
  rw [if_pos (strcasecmp_iff.2 htmp), if_pos (strcasecmp_iff.2 htmp)]
  exact ⟨by simp, rfl⟩

/-! ## Tables without holes -/

/-- The first entries have the names, and the others are free. -/
structure Packed (results : List Preset) (names : List String) : Prop where
  symbols : ∃ free, results.map (·.symbol) = names.map some ++ List.replicate free none
  nodup : (names.map lower).Nodup

/-- How many entries are in use. -/
def named (results : List Preset) : Nat := results.countP (·.symbol.isSome)

section
variable {results : List Preset} {names : List String}

theorem Packed.length_le (h : Packed results names) : names.length ≤ results.length := by
  obtain ⟨free, heq⟩ := h.symbols
  have := congrArg List.length heq
  simp only [List.length_map, List.length_append, List.length_replicate] at this
  omega

theorem Packed.symbol (h : Packed results names) {i : Nat} (hi : i < results.length) :
    results[i].symbol = names[i]? := by
  obtain ⟨free, heq⟩ := h.symbols
  have hget : (results.map (·.symbol))[i]? = some results[i].symbol := by simp [hi]
  rw [heq] at hget
  by_cases hlt : i < names.length
  · rw [List.getElem?_append_left (by simpa using hlt)] at hget
    simp only [List.getElem?_map, List.getElem?_eq_getElem hlt, Option.map_some,
      Option.some.injEq] at hget
    rw [← hget, List.getElem?_eq_getElem hlt]
  · rw [List.getElem?_append_right (by simpa using hlt), List.getElem?_replicate] at hget
    split at hget
    · rw [← Option.some.inj hget, List.getElem?_eq_none (Nat.not_lt.1 hlt)]
    · cases hget

/-- The entries before a name have other names. -/
theorem Packed.others (h : Packed results names) {i : Nat} (tmp : String)
    (hi : i ≤ names.length) (hne : ∀ j, j < i → ∀ n, names[j]? = some n → lower tmp ≠ lower n) :
    Others tmp (results.take i) := by
  intro event hevent
  obtain ⟨j, hj, rfl⟩ := List.mem_iff_getElem.1 hevent
  rw [List.length_take] at hj
  have hlt : j < names.length := by omega
  rw [List.getElem_take]
  refine ⟨names[j], ?_, hne j (by omega) _ (List.getElem?_eq_getElem hlt)⟩
  rw [h.symbol (by omega), List.getElem?_eq_getElem hlt]

theorem lower_ne_of_nodup (hnd : (names.map lower).Nodup) {i j : Nat} {n m : String}
    (hi : names[i]? = some n) (hj : names[j]? = some m) (hne : j ≠ i) : lower n ≠ lower m := by
  intro heq
  have hi' : (names.map lower)[i]? = some (lower n) := by rw [List.getElem?_map, hi]; rfl
  have hj' : (names.map lower)[j]? = some (lower n) := by rw [List.getElem?_map, hj, heq]; rfl
  have hlt := (List.getElem?_eq_some_iff.1 hi').1
  exact hne ((List.getElem?_inj hlt hnd).1 (hi'.trans hj'.symm)).symm

/-- Every name leads to its entry. -/
theorem Packed.lookup (h : Packed results names) {i : Nat} {n tmp : String}
    (hn : names[i]? = some n) (htmp : lower tmp = lower n) :
    findEventIndex tmp results = some i ∧ findEvent tmp results = results[i]? := by
  have hi := (List.getElem?_eq_some_iff.1 hn).1
  have hlt : i < results.length := Nat.lt_of_lt_of_le hi h.length_le
  have hothers : Others tmp (results.take i) :=
    h.others tmp (Nat.le_of_lt hi) fun j hj m hm => by
      rw [htmp]
      exact lower_ne_of_nodup h.nodup hn hm (Nat.ne_of_lt hj)
  have hsplit : results = results.take i ++ results[i] :: results.drop (i + 1) := by
    rw [← List.drop_eq_getElem_cons hlt, List.take_append_drop]
  have hsymbol := h.symbol hlt
  rw [hn] at hsymbol
  rw [List.getElem?_eq_getElem hlt]
  have hfound := lookup_others hothers hsymbol htmp (results.drop (i + 1))
  rwa [← hsplit, List.length_take_of_le (Nat.le_of_lt hlt)] at hfound

/-- What `find_event_index` finds: the entry of the name, or the first free one. -/
theorem Packed.index (h : Packed results names) {tmp : String} {i : Nat}
    (hi : findEventIndex tmp results = some i) :
    (∃ n, names[i]? = some n ∧ lower tmp = lower n) ∨
      (i = names.length ∧ i < results.length ∧ lower tmp ∉ names.map lower) := by
  by_cases hmem : lower tmp ∈ names.map lower
  · obtain ⟨n, hn, heq⟩ := List.mem_map.1 hmem
    obtain ⟨j, hj⟩ := List.mem_iff_getElem?.1 hn
    rw [(h.lookup hj heq.symm).1] at hi
    cases hi
    exact .inl ⟨n, hj, heq.symm⟩
  · have hothers := h.others tmp (Nat.le_refl _) fun j _ n hn heq =>
      hmem (List.mem_map.2 ⟨n, List.mem_of_getElem? hn, heq.symm⟩)
    rw [← List.take_append_drop names.length results, findEventIndex_others hothers] at hi
    cases hrest : results.drop names.length with
    | nil =>
      rw [hrest] at hi
      cases hi
    | cons event rest =>
      have hlt : names.length < results.length := by
        have := congrArg List.length hrest
        rw [List.length_drop, List.length_cons] at this
        omega
      have hevent : event.symbol = none := by
        have hget : results[names.length] = event := by
          rw [List.drop_eq_getElem_cons hlt] at hrest
          exact (List.cons.inj hrest).1
        rw [← hget, h.symbol hlt, List.getElem?_eq_none (Nat.le_refl _)]
      rw [hrest, findEventIndex, hevent] at hi
      simp only [List.length_take_of_le h.length_le, Option.map_eq_map, Option.map_some,
        Nat.zero_add, Option.some.injEq] at hi
      exact .inr ⟨hi.symm, hi ▸ hlt, hmem⟩

theorem Packed.named (h : Packed results names) : named results = names.length := by
  obtain ⟨free, heq⟩ := h.symbols
  have hcount : Derived.named results = (results.map (·.symbol)).countP Option.isSome := by
    rw [List.countP_map]
    rfl
  rw [hcount, heq, List.countP_append, List.countP_replicate, List.countP_map]
  simp only [Option.isSome_none, Bool.false_eq_true, if_false, Nat.add_zero]
  exact List.countP_eq_length.2 fun _ _ => rfl

theorem map_symbol_set (i : Nat) (event : Preset) :
    (results.set i event).map (·.symbol) = (results.map (·.symbol)).set i event.symbol :=
  List.map_set

/-- A known event gets a new definition. -/
theorem Packed.replace (h : Packed results names) {i : Nat} {n : String} {event : Preset}
    (hn : names[i]? = some n) (hsymbol : event.symbol = some n) :
    Packed (results.set i event) names := by
  obtain ⟨free, heq⟩ := h.symbols
  have hi := (List.getElem?_eq_some_iff.1 hn).1
  refine ⟨⟨free, ?_⟩, h.nodup⟩
  rw [map_symbol_set, heq, hsymbol, List.set_append_left _ _ (by simpa using hi)]
  congr 1
  refine List.ext_getElem? fun j => ?_
  rw [List.getElem?_set]
  split
  · next hj =>
    subst hj
    rw [List.getElem?_map, hn]
    simp [hi]
  · rfl

/-- A new event is put behind the others. -/
theorem Packed.extend (h : Packed results names) {t : String} {event : Preset}
    (hlt : names.length < results.length) (ht : lower t ∉ names.map lower)
    (hsymbol : event.symbol = some t) :
    Packed (results.set names.length event) (names ++ [t]) := by
  obtain ⟨free, heq⟩ := h.symbols
  have hfree : 0 < free := by
    have := congrArg List.length heq
    simp only [List.length_map, List.length_append, List.length_replicate] at this
    omega
  obtain ⟨free, rfl⟩ := Nat.exists_eq_add_of_lt hfree
  refine ⟨⟨free, ?_⟩, ?_⟩
  · rw [map_symbol_set, heq, hsymbol, List.set_append_right _ _ (by simp)]
    simp [List.replicate_succ]
  · rw [List.map_append, List.nodup_append]
    refine ⟨h.nodup, by simp, fun a ha b hb hab => ht ?_⟩
    rw [List.map_singleton, List.mem_singleton] at hb
    exact hb ▸ hab ▸ ha

/-- A new event that fails leaves its entry free. -/
theorem Packed.release (h : Packed results names) {event : Preset} (hsymbol : event.symbol = none) :
    Packed (results.set names.length event) names := by
  obtain ⟨free, heq⟩ := h.symbols
  refine ⟨⟨free, ?_⟩, h.nodup⟩
  rw [map_symbol_set, heq, hsymbol, List.set_append_right _ _ (by simp)]
  congr 1
  refine List.ext_getElem? fun j => ?_
  rw [List.getElem?_set, List.getElem?_replicate, List.length_replicate]
  split <;> simp_all

end

/-! ## Definitions -/

section
variable {X : Target} {s s' : Loading} {fs : List Text} {names : List String}

/-- A definition leaves the table as it is, or writes the entry that was found. -/
theorem defineEvent_cases (h : defineEvent X s fs = .ok s') :
    s'.results = s.results ∨ ∃ (t : Text) (rest : List Text) (i : Nat)
      (event : Preset) (valid : Bool), fs = t :: rest ∧
      findEventIndex (String.ofList t) s.results = some i ∧
      (∀ hi : i < s.results.length,
        event.symbol = some (s.results[i].symbol.getD (String.ofList t))) ∧
      s'.results = s.results.set i (if valid then event else { event with symbol := none }) := by
  cases fs with
  | nil =>
    cases h
    exact .inl rfl
  | cons t rest =>
    rw [defineEvent] at h
    split at h
    · cases h
      exact .inl rfl
    · split at h
      · cases h
        exact .inl rfl
      · next i hi =>
        obtain ⟨entry, hentry, h⟩ := except_bind_ok.1 h
        obtain ⟨⟨event, valid⟩, hread, h⟩ := except_bind_ok.1 h
        refine .inr ⟨t, rest, i, event, valid, rfl, hi, fun hlt => ?_, ?_⟩
        · rw [cell, if_neg (by omega), Int.toNat_natCast, List.getElem?_eq_getElem hlt] at hentry
          cases hentry
          exact readDefinition_symbol hread
        · cases valid <;> cases h <;> rfl

/-- A definition that loses no event keeps the table packed, and at most adds a name. -/
theorem defineEvent_packed (hp : Packed s.results names) (h : defineEvent X s fs = .ok s')
    (hkeep : named s.results ≤ named s'.results) :
    ∃ new, Packed s'.results (names ++ new) := by
  rcases defineEvent_cases h with heq | ⟨t, rest, i, event, valid, rfl, hi, hsymbol, heq⟩
  · exact ⟨[], by rwa [heq, List.append_nil]⟩
  · rcases hp.index hi with ⟨n, hn, -⟩ | ⟨rfl, hlt, hnew⟩
    · have hlt : i < s.results.length :=
        Nat.lt_of_lt_of_le (List.getElem?_eq_some_iff.1 hn).1 hp.length_le
      have hsymbol := hsymbol hlt
      rw [hp.symbol hlt, hn] at hsymbol
      cases valid with
      | true => exact ⟨[], by rw [heq, List.append_nil]; exact hp.replace hn hsymbol⟩
      | false =>
        -- the event would be lost
        refine absurd hkeep (Nat.not_le.2 ?_)
        have hsome : s.results[i].symbol.isSome := by rw [hp.symbol hlt, hn]; rfl
        have hpos : 0 < named s.results :=
          List.countP_pos_iff.2 ⟨_, List.getElem_mem hlt, hsome⟩
        rw [named] at hpos
        rw [heq, named, named, List.countP_set hlt, if_pos hsome, if_neg (by simp), Nat.add_zero]
        exact Nat.sub_lt hpos Nat.one_pos
    · have hsymbol := hsymbol hlt
      rw [hp.symbol hlt, List.getElem?_eq_none (Nat.le_refl _)] at hsymbol
      cases valid with
      | true => exact ⟨[String.ofList t], by rw [heq]; exact hp.extend hlt hnew hsymbol⟩
      | false => exact ⟨[], by rw [heq, List.append_nil]; exact hp.release rfl⟩

/-- The table with the events `E1` and `E2`. -/
def twoLoaded : Loading :=
  ⟨[⟨some "E1", .notDerived, none, [1073741824], ["A"]⟩,
    ⟨some "E2", .notDerived, none, [1073741825], ["B"]⟩, freePreset], 2, true, true⟩

theorem loadLine_packed {line : Text} (hp : Packed s.results names)
    (h : loadLine X s line = .ok s') (hkeep : named s.results ≤ named s'.results) :
    ∃ new, Packed s'.results (names ++ new) := by
  by_cases hcpu : isCpuLine line = true
  · rw [loadLine_cpu X s hcpu] at h
    obtain ⟨_, -, hres, -⟩ := selectPmu_ok h
    exact ⟨[], by rwa [hres, List.append_nil]⟩
  · by_cases hevent : isEventLine line = true
    · rw [loadLine_event X s hevent] at h
      split at h
      · have hp' : Packed { s with foundEvents := true }.results names := hp
        exact defineEvent_packed hp' h hkeep
      · cases h
        exact ⟨[], by rwa [List.append_nil]⟩
    · rw [loadLine_other X s (Bool.eq_false_iff.2 hcpu) (Bool.eq_false_iff.2 hevent)] at h
      cases h
      exact ⟨[], by rwa [List.append_nil]⟩

/-- No line of the load makes the table lose an event. -/
def Keeps (X : Target) (s : Loading) (lines : List Text) : Prop :=
  ∀ before line after s₁ s₂, lines = before ++ line :: after →
    before.foldlM (loadLine X) s = .ok s₁ → loadLine X s₁ line = .ok s₂ →
    named s₁.results ≤ named s₂.results

theorem foldlM_packed {lines : List Text} (hp : Packed s.results names)
    (h : lines.foldlM (loadLine X) s = .ok s') (hkeep : Keeps X s lines) :
    ∃ new, Packed s'.results (names ++ new) := by
  induction lines using List.reverseRecOn generalizing s' with
  | nil =>
    cases h
    exact ⟨[], by rwa [List.append_nil]⟩
  | append_singleton lines l ih =>
    rw [List.foldlM_append] at h
    obtain ⟨s₁, h₁, h⟩ := except_bind_ok.1 h
    obtain ⟨s₂, h₂, h⟩ := except_bind_ok.1 h
    cases h
    obtain ⟨new, hp₁⟩ := ih h₁ fun before line after a b heq =>
      hkeep before line (after ++ [l]) a b (by simp [heq])
    obtain ⟨new', hp₂⟩ := loadLine_packed hp₁ h₂ (hkeep lines l [] _ _ rfl h₁ h₂)
    exact ⟨new ++ new', by rwa [← List.append_assoc]⟩

end

theorem smallLines_keeps :
    Keeps smallTarget ⟨List.replicate 3 freePreset, 0, false, false⟩ smallLines := by
  rintro before line after s₁ s₂ hsplit h₁ h₂
  rcases before with _ | ⟨_, _ | ⟨_, _ | ⟨_, _ | ⟨_, _ | ⟨_, _ | ⟨_, before⟩⟩⟩⟩⟩⟩ <;>
    cases hsplit <;> cases h₁ <;> cases h₂ <;> decide

end PbdPapi.Derived
