import PbdPapi.Papi.Load
import PbdPapi.Proof.Preset

/-!
# The sections of an event file

Which lines of a file define events: those of a section with a line for the PMU (`Governed`). The
flags of a load say where it is (`load_flags`), and so only these lines change the table
(`section_events`).
-/

set_option autoImplicit false

namespace PbdPapi.Derived

open Exec

/-! ## Kinds of lines -/

/-- The start of a line. -/
def startsWith (line : Text) (word : String) : Bool := (fields line).head?.any (isWord · word)

def isCpuLine (line : Text) : Bool := startsWith line "CPU"

def isEventLine (line : Text) : Bool := startsWith line "PRESET" || startsWith line "EVENT"

/-- Words without regard to case. -/
def lower (s : String) : Text := s.toList.map Char.toLower

theorem strcasecmp_iff {a b : String} : strcasecmp a b = true ↔ lower a = lower b :=
  decide_eq_true_iff

theorem isWord_iff {t : Text} {word : String} :
    isWord t word = true ↔ t.map Char.toLower = lower word := by
  rw [isWord, strcasecmp_iff, lower, String.toList_ofList]

/-- A word is none of the lines that are skipped. -/
theorem not_skipped {t : Text} {word : String} (h : isWord t word = true) (hword : lower word ≠ [])
    (hhead : (lower word).head? ≠ some '#') : ¬(t = [] ∨ t.head? = some '#') := by
  rw [isWord_iff] at h
  rintro (rfl | ht)
  · exact hword h.symm
  · rw [← h, List.head?_map, ht] at hhead
    exact hhead rfl

theorem startsWith_iff {line : Text} {word : String} : startsWith line word = true ↔
    ∃ t rest, fields line = t :: rest ∧ isWord t word = true := by
  unfold startsWith
  cases fields line with
  | nil => simp
  | cons t rest => simp

theorem not_cpu_of_event {line : Text} (h : isEventLine line = true) : isCpuLine line = false := by
  refine Bool.eq_false_iff.2 fun hcpu => ?_
  obtain ⟨t, rest, hline, ht⟩ := startsWith_iff.1 hcpu
  rw [isWord_iff] at ht
  rcases (Bool.or_eq_true _ _).mp h with h | h
  · obtain ⟨t', rest', hline', ht'⟩ := startsWith_iff.1 h
    rw [hline] at hline'
    cases hline'
    rw [isWord_iff, ht] at ht'
    exact absurd ht' (by decide)
  · obtain ⟨t', rest', hline', ht'⟩ := startsWith_iff.1 h
    rw [hline] at hline'
    cases hline'
    rw [isWord_iff, ht] at ht'
    exact absurd ht' (by decide)

section
variable (X : Target)

theorem loadLine_cpu (s : Loading) {line : Text} (h : isCpuLine line = true) :
    loadLine X s line = selectPmu X s (fields line).tail := by
  obtain ⟨t, rest, hline, ht⟩ := startsWith_iff.1 h
  rw [loadLine, hline]
  simp only
  rw [if_neg (not_skipped ht (by decide) (by decide)), if_pos ht]
  rfl

theorem loadLine_event (s : Loading) {line : Text} (h : isEventLine line = true) :
    loadLine X s line =
      if s.getEvents then defineEvent X { s with foundEvents := true } (fields line).tail
      else .ok s := by
  have hcpu := not_cpu_of_event h
  have hstart : ∃ t rest, fields line = t :: rest ∧
      (isWord t "PRESET" || isWord t "EVENT") = true ∧ ¬(t = [] ∨ t.head? = some '#') := by
    rcases (Bool.or_eq_true _ _).mp h with h | h
    · obtain ⟨t, rest, hline, ht⟩ := startsWith_iff.1 h
      exact ⟨t, rest, hline, by rw [ht, Bool.true_or], not_skipped ht (by decide) (by decide)⟩
    · obtain ⟨t, rest, hline, ht⟩ := startsWith_iff.1 h
      exact ⟨t, rest, hline, by rw [ht, Bool.or_true], not_skipped ht (by decide) (by decide)⟩
  obtain ⟨t, rest, hline, ht, hskip⟩ := hstart
  have hword : ¬isWord t "CPU" = true := fun hw =>
    absurd (startsWith_iff.2 ⟨t, rest, hline, hw⟩) (by rw [← isCpuLine, hcpu]; decide)
  rw [loadLine, hline]
  simp only
  rw [if_neg hskip, if_neg hword, if_pos ht]
  rfl

theorem loadLine_other (s : Loading) {line : Text} (hcpu : isCpuLine line = false)
    (hevent : isEventLine line = false) : loadLine X s line = .ok s := by
  unfold loadLine
  cases hline : fields line with
  | nil => rfl
  | cons t rest =>
    have hno : ∀ word, startsWith line word = false → ¬isWord t word = true := fun word hw ht =>
      absurd (startsWith_iff.2 ⟨t, rest, hline, ht⟩) (by rw [hw]; decide)
    obtain ⟨hpreset, hevent⟩ := Bool.or_eq_false_iff.1 hevent
    simp only
    split
    · rfl
    · rw [if_neg (hno _ hcpu), if_neg]
      rw [Bool.or_eq_true, not_or]
      exact ⟨hno _ hpreset, hno _ hevent⟩

/-! ## Sections -/

/-- A line that names the PMU. -/
def Selects (line : Text) : Prop :=
  isCpuLine line = true ∧ matchesPmu X (fields line).tail = .ok true

/-- One of the last lines for PMUs names the PMU, and no event has followed them. -/
def Fresh (lines : List Text) : Prop :=
  ∃ before line cpus, lines = before ++ line :: cpus ∧ Selects X line ∧
    ∀ l ∈ cpus, isEventLine l = false

/-- The section is for the PMU: one of the lines for PMUs at its start names it. -/
def Governed (lines : List Text) : Prop :=
  ∃ before line cpus events, lines = before ++ line :: (cpus ++ events) ∧ Selects X line ∧
    (∀ l ∈ cpus, isEventLine l = false) ∧ ∀ l ∈ events, isCpuLine l = false

variable {X}

theorem concat_eq_append_cons {α : Type} {l before a : List α} {x y : α}
    (h : l ++ [x] = before ++ y :: a) :
    (a = [] ∧ y = x ∧ l = before) ∨ ∃ a', a = a' ++ [x] ∧ l = before ++ y :: a' := by
  rcases List.eq_nil_or_concat a with rfl | ⟨a', z, rfl⟩
  · obtain ⟨rfl, hx⟩ := List.append_inj' h rfl
    exact .inl ⟨rfl, (List.singleton_inj.1 hx).symm, rfl⟩
  · rw [List.concat_eq_append, ← List.cons_append, ← List.append_assoc] at h
    obtain ⟨rfl, hx⟩ := List.append_inj' h rfl
    cases hx
    exact .inr ⟨a', List.concat_eq_append, rfl⟩

theorem fresh_concat {lines : List Text} {l : Text} :
    Fresh X (lines ++ [l]) ↔ Selects X l ∨ isEventLine l = false ∧ Fresh X lines := by
  constructor
  · rintro ⟨before, line, cpus, heq, hsel, hcpus⟩
    rcases concat_eq_append_cons heq with ⟨-, rfl, -⟩ | ⟨cpus, rfl, rfl⟩
    · exact .inl hsel
    · exact .inr ⟨hcpus l (by simp), before, line, cpus, rfl, hsel,
        fun x hx => hcpus x (List.mem_append_left _ hx)⟩
  · rintro (hsel | ⟨hl, before, line, cpus, rfl, hsel, hcpus⟩)
    · exact ⟨lines, l, [], rfl, hsel, by simp⟩
    · refine ⟨before, line, cpus ++ [l], by simp, hsel, fun x hx => ?_⟩
      rcases List.mem_append.1 hx with hx | hx
      · exact hcpus x hx
      · exact List.mem_singleton.1 hx ▸ hl

/-- A line for a PMU starts a new section behind events. -/
theorem governed_concat_cpu {lines : List Text} {l : Text} (hl : isCpuLine l = true) :
    Governed X (lines ++ [l]) ↔ Selects X l ∨ Fresh X lines := by
  constructor
  · rintro ⟨before, line, cpus, events, heq, hsel, hcpus, hevents⟩
    rcases concat_eq_append_cons heq with ⟨-, rfl, -⟩ | ⟨rest, hrest, rfl⟩
    · exact .inl hsel
    · rcases List.eq_nil_or_concat events with rfl | ⟨events, x, rfl⟩
      · rw [List.append_nil] at hrest
        subst hrest
        exact .inr ⟨before, line, rest, rfl, hsel, fun x hx => hcpus x (List.mem_append_left _ hx)⟩
      · rw [List.concat_eq_append, ← List.append_assoc] at hrest
        obtain ⟨-, hx⟩ := List.append_inj' hrest rfl
        cases hx
        exact absurd hl (by rw [hevents l (by simp)]; decide)
  · rintro (hsel | ⟨before, line, cpus, rfl, hsel, hcpus⟩)
    · exact ⟨lines, l, [], [], rfl, hsel, by simp, by simp⟩
    · have hevent : isEventLine l = false := Bool.eq_false_iff.2 fun h =>
        absurd (not_cpu_of_event h) (by rw [hl]; decide)
      refine ⟨before, line, cpus ++ [l], [], by simp, hsel, fun x hx => ?_, by simp⟩
      rcases List.mem_append.1 hx with hx | hx
      · exact hcpus x hx
      · exact List.mem_singleton.1 hx ▸ hevent

theorem governed_concat {lines : List Text} {l : Text} (hl : isCpuLine l = false) :
    Governed X (lines ++ [l]) ↔ Governed X lines := by
  constructor
  · rintro ⟨before, line, cpus, events, heq, hsel, hcpus, hevents⟩
    rcases concat_eq_append_cons heq with ⟨-, rfl, -⟩ | ⟨rest, hrest, rfl⟩
    · exact absurd hsel.1 (by rw [hl]; decide)
    · rcases List.eq_nil_or_concat events with rfl | ⟨events, x, rfl⟩
      · rw [List.append_nil] at hrest
        subst hrest
        exact ⟨before, line, rest, [], by rw [List.append_nil], hsel,
          fun x hx => hcpus x (List.mem_append_left _ hx), by simp⟩
      · rw [List.concat_eq_append, ← List.append_assoc] at hrest
        obtain ⟨rfl, -⟩ := List.append_inj' hrest rfl
        exact ⟨before, line, cpus, events, rfl, hsel, hcpus, fun x hx =>
          hevents x (by rw [List.concat_eq_append]; exact List.mem_append_left _ hx)⟩
  · rintro ⟨before, line, cpus, events, rfl, hsel, hcpus, hevents⟩
    refine ⟨before, line, cpus, events ++ [l], by simp, hsel, hcpus, fun x hx => ?_⟩
    rcases List.mem_append.1 hx with hx | hx
    · exact hevents x hx
    · exact List.mem_singleton.1 hx ▸ hl

theorem defineEvent_flags {s s' : Loading} {fs : List Text} (h : defineEvent X s fs = .ok s') :
    s'.getEvents = s.getEvents ∧ s'.foundEvents = s.foundEvents := by
  cases fs with
  | nil =>
    cases h
    exact ⟨rfl, rfl⟩
  | cons t fs =>
    rw [defineEvent] at h
    split at h
    · cases h
      exact ⟨rfl, rfl⟩
    · split at h
      · cases h
        exact ⟨rfl, rfl⟩
      · obtain ⟨entry, -, h⟩ := except_bind_ok.1 h
        obtain ⟨⟨event, valid⟩, -, h⟩ := except_bind_ok.1 h
        cases valid <;> cases h <;> exact ⟨rfl, rfl⟩

theorem selectPmu_ok {s s' : Loading} {fs : List Text} (h : selectPmu X s fs = .ok s') :
    ∃ found, matchesPmu X fs = .ok found ∧ s'.results = s.results ∧
      s'.eventCount = s.eventCount ∧
      s'.getEvents = (s.getEvents && !s.foundEvents || found) ∧
      s'.foundEvents = (!s.getEvents && s.foundEvents) := by
  obtain ⟨found, hfound, h⟩ := except_bind_ok.1 h
  cases h
  refine ⟨found, hfound, ?_⟩
  cases hget : s.getEvents <;> cases hev : s.foundEvents <;> simp [hget, hev]

/-- The flags say in which section the next line is. -/
theorem load_flags {results : List Preset} {eventCount : Nat} {lines : List Text} {s : Loading}
    (h : papiLoadDerivedEvents X results eventCount lines = .ok s) :
    (s.getEvents = true ↔ Governed X lines) ∧
      (s.foundEvents = true ↔ s.getEvents = true ∧ ¬Fresh X lines) := by
  induction lines using List.reverseRecOn generalizing s with
  | nil =>
    cases h
    exact ⟨by simp [Governed], by simp⟩
  | append_singleton lines l ih =>
    rw [papiLoadDerivedEvents, List.foldlM_append] at h
    obtain ⟨s₁, h₁, h⟩ := except_bind_ok.1 h
    obtain ⟨s₂, h₂, h⟩ := except_bind_ok.1 h
    cases h
    obtain ⟨hget, hfound⟩ := ih h₁
    rw [fresh_concat]
    by_cases hcpu : isCpuLine l = true
    · rw [loadLine_cpu X s₁ hcpu] at h₂
      obtain ⟨found, hmatch, -, -, hget', hfound'⟩ := selectPmu_ok h₂
      have hevent : isEventLine l = false := Bool.eq_false_iff.2 fun h =>
        absurd (not_cpu_of_event h) (by rw [hcpu]; decide)
      have hsel : Selects X l ↔ found = true := by
        rw [Selects, hmatch]
        simp [hcpu]
      have hfresh : (s₁.getEvents && !s₁.foundEvents) = true ↔ Fresh X lines := by
        have hsub : Fresh X lines → Governed X lines := fun ⟨before, line, cpus, heq, hsel, h⟩ =>
          ⟨before, line, cpus, [], by rw [heq, List.append_nil], hsel, h, by simp⟩
        rw [Bool.and_eq_true, Bool.not_eq_true', Bool.eq_false_iff, Ne, hfound, hget]
        tauto
      have hnone : (!s₁.getEvents && s₁.foundEvents) = false := by
        rw [Bool.eq_false_iff, Ne, Bool.and_eq_true, Bool.not_eq_true', hfound]
        rintro ⟨h, h', -⟩
        rw [h] at h'
        cases h'
      rw [governed_concat_cpu hcpu, hget', hfound', hnone, Bool.or_eq_true, hfresh, hsel, hevent]
      tauto
    · have hcpu : isCpuLine l = false := Bool.eq_false_iff.2 hcpu
      have hsel : ¬Selects X l := fun hsel => absurd hsel.1 (by rw [hcpu]; decide)
      rw [governed_concat hcpu]
      by_cases hevent : isEventLine l = true
      · rw [loadLine_event X s₁ hevent] at h₂
        split at h₂
        · next hg =>
          obtain ⟨hget', hfound'⟩ := defineEvent_flags h₂
          rw [hget', hfound', hevent]
          refine ⟨hget, ?_⟩
          simp [hg, hsel]
        · next hg =>
          cases h₂
          refine ⟨hget, hfound.trans ?_⟩
          simp [hg]
      · have hevent : isEventLine l = false := Bool.eq_false_iff.2 hevent
        rw [loadLine_other X s₁ hcpu hevent] at h₂
        cases h₂
        refine ⟨hget, hfound.trans ?_⟩
        simp [hevent, hsel]

/-- In every file, exactly the events of the sections for the PMU are defined, and no other line
touches the events. -/
theorem section_events {results : List Preset} {eventCount : Nat} {lines : List Text} {s : Loading}
    (h : papiLoadDerivedEvents X results eventCount lines = .ok s) (line : Text) :
    (isEventLine line = true ∧ Governed X lines → loadLine X s line =
      defineEvent X { s with foundEvents := true } (fields line).tail) ∧
    (¬(isEventLine line = true ∧ Governed X lines) → ∀ s', loadLine X s line = .ok s' →
      s'.results = s.results ∧ s'.eventCount = s.eventCount) := by
  have hget := (load_flags h).1
  constructor
  · rintro ⟨hevent, hgov⟩
    rw [loadLine_event X s hevent, if_pos (hget.2 hgov)]
  · intro hnot s' hline
    by_cases hcpu : isCpuLine line = true
    · rw [loadLine_cpu X s hcpu] at hline
      obtain ⟨_, -, hres, hcount, -⟩ := selectPmu_ok hline
      exact ⟨hres, hcount⟩
    · by_cases hevent : isEventLine line = true
      · rw [loadLine_event X s hevent, if_neg fun hg => hnot ⟨hevent, hget.1 hg⟩] at hline
        cases hline
        exact ⟨rfl, rfl⟩
      · rw [loadLine_other X s (Bool.eq_false_iff.2 hcpu) (Bool.eq_false_iff.2 hevent)] at hline
        cases hline
        exact ⟨rfl, rfl⟩

end

/-- The user defined events for the PMU `snb`, made of the native events `A` to `D`. -/
def smallTarget : Target := userTarget smallNatives "snb".toList 3 []

def smallSection : List Text :=
  ["EVENT,E1,NOT_DERIVED,A", "EVENT,E2,DERIVED_ADD,A,B", "EVENT,e1,NOT_DERIVED,C"].map String.toList

def smallLines : List Text := "CPU,nhm".toList :: "CPU,snb,3".toList :: smallSection

theorem smallLines_governed : Governed smallTarget smallLines :=
  ⟨["CPU,nhm".toList], "CPU,snb,3".toList, [], smallSection, rfl, ⟨by decide, rfl⟩, by simp,
    by decide⟩

theorem section_events_small :
    ∃ s, papiLoadDerivedEvents smallTarget (List.replicate 3 freePreset) 0 smallLines = .ok s ∧
      loadLine smallTarget s "EVENT,E2,DERIVED_ADD,A,B".toList =
        defineEvent smallTarget { s with foundEvents := true }
          (["E2", "DERIVED_ADD", "A", "B"].map String.toList) := by
  have hload : papiLoadDerivedEvents smallTarget (List.replicate 3 freePreset) 0 smallLines =
      .ok _ := rfl
  exact ⟨_, hload, (section_events hload _).1 ⟨by decide, smallLines_governed⟩⟩

end PbdPapi.Derived
