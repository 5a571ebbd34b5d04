import PbdPapi.Proof.Calls
import Mathlib.Data.List.Nodup

/-!
# The availability table

`counterAvail_rows`: the flags that `counter.avail` reads out of a table by position are those of
the requested rows. `availLookup_exact`: what the gate `papi.avail.lookup` answers, for every table
and every events vector.
-/

set_option autoImplicit false

namespace PbdPapi.Proof

open Exec C Api

/-! ## Positions -/

theorem mem_which {x : List Bool} {k : Nat} : k ∈ which x ↔ x[k]? = some true := by
  simp only [which, List.mem_filter, List.mem_range, List.getD_eq_getElem?_getD]
  constructor
  · intro h
    obtain ⟨hk, h⟩ := h
    rw [List.getElem?_eq_getElem hk] at h ⊢
    exact congrArg some h
  · intro h
    exact ⟨(List.getElem?_eq_some_iff.1 h).1, by rw [h]; rfl⟩

theorem length_which (x : List Bool) : (which x).length = x.countP id := by
  have hx : x = (List.range x.length).map fun k => x.getD k false := by
    refine List.ext_getElem (by simp) ?_
    intro i h₁ h₂
    simp [h₁]
  conv_rhs => rw [hx, List.countP_map]
  exact (List.countP_eq_length_filter ..).symm

/-- A name occurs at one position of a table without repetitions. -/
theorem which_beq {xs : List String} (hn : xs.Nodup) {i : Nat} (hi : i < xs.length) :
    which (xs.map (· == xs[i])) = [i] := by
  have hp : ∀ k ∈ List.range xs.length, (xs.map (· == xs[i])).getD k false = (k == i) := by
    intro k hk
    have hk := List.mem_range.1 hk
    simp only [List.getD_eq_getElem?_getD, List.getElem?_map, List.getElem?_eq_getElem hk,
      Option.map_some, Option.getD_some]
    rw [Bool.eq_iff_iff, beq_iff_eq, beq_iff_eq]
    exact hn.getElem_inj_iff
  have hcount : (List.range xs.length).count i = 1 :=
    List.count_eq_one_of_mem List.nodup_range (List.mem_range.2 hi)
  rw [which, List.length_map, List.filter_congr hp, List.filter_beq, hcount]
  rfl

/-- Dropping the positions where `p` holds keeps the elements where it does not. -/
theorem dropAt_which {α : Type} (p : α → Bool) (x : List α) :
    dropAt x (which (x.map p)) = x.filter fun a => !p a := by
  have hp : ∀ q ∈ x.zipIdx, decide (q.2 ∉ which (x.map p)) = !p q.1 := by
    intro q hq
    have hget : x[q.2]? = some q.1 := List.mem_zipIdx_iff_getElem?.1 hq
    have hmem : q.2 ∈ which (x.map p) ↔ p q.1 = true := by
      rw [mem_which, List.getElem?_map, hget]
      simp
    cases hpq : p q.1 <;> simp [hmem, hpq]
  rw [dropAt, List.filter_congr hp]
  conv_rhs => rw [← List.zipIdx_map_fst 0 x, List.filter_map]
  rfl

/-! ## The flags of requested rows -/

/-- A vector of names that are all in a table is that of some of its rows. -/
theorem exists_rows {avail : List AvailRow} {events : List String}
    (h : ∀ e ∈ events, ∃ r ∈ avail, r.event = e) :
    ∃ rows : List AvailRow, (∀ r ∈ rows, r ∈ avail) ∧ rows.map (·.event) = events := by
  induction events with
  | nil => exact ⟨[], by simp, rfl⟩
  | cons e events ih =>
    rw [List.forall_mem_cons] at h
    obtain ⟨r, hr, rfl⟩ := h.1
    obtain ⟨rows, hrows, rfl⟩ := ih h.2
    exact ⟨r :: rows, List.forall_mem_cons.2 ⟨hr, hrows⟩, rfl⟩

/-- The position of a row, and the flag there. -/
theorem which_row {avail : List AvailRow} (hn : (avail.map (·.event)).Nodup) {r : AvailRow}
    (hr : r ∈ avail) : ∃ i, which ((avail.map (·.event)).map (· == r.event)) = [i] ∧
      (avail.map (·.avail)).getD i false = r.avail := by
  obtain ⟨i, hi, rfl⟩ := List.getElem_of_mem hr
  refine ⟨i, ?_, by simp [hi]⟩
  have hw := which_beq hn (i := i) (by simpa using hi)
  rwa [List.getElem_map] at hw

/-- Over a table without repetitions `counter.avail` gives the flags of the requested rows. -/
theorem counterAvail_rows {avail : List AvailRow} (hn : (avail.map (·.event)).Nodup)
    {rows : List AvailRow} (hrows : ∀ r ∈ rows, r ∈ avail) (hne : rows ≠ []) :
    counterAvail avail (rows.map (·.event)) = .ok (rows.map (·.avail)) := by
  have hall : ∀ e ∈ rows.map (·.event), e ∈ avail.map (·.event) := by
    intro e he
    obtain ⟨r, hr, rfl⟩ := List.mem_map.1 he
    exact List.mem_map_of_mem (hrows r hr)
  have hpos : ∀ rows : List AvailRow, (∀ r ∈ rows, r ∈ avail) →
      ∃ pos : List Nat, ((rows.map (·.event)).map fun e =>
          which ((avail.map (·.event)).map (· == e))) = pos.map ([·]) ∧
        pos.map (fun i => (avail.map (·.avail)).getD i false) = rows.map (·.avail) := by
    intro rows
    induction rows with
    | nil => exact fun _ => ⟨[], rfl, rfl⟩
    | cons r rows ih =>
      intro h
      obtain ⟨i, hw, hf⟩ := which_row hn (h r List.mem_cons_self)
      obtain ⟨pos, hp, hfs⟩ := ih fun r' hr' => h r' (List.mem_cons_of_mem r hr')
      refine ⟨i :: pos, ?_, ?_⟩
      · rw [List.map_cons, List.map_cons, List.map_cons, hw, hp]
      · rw [List.map_cons, List.map_cons, hf, hfs]
  obtain ⟨pos, hp, hf⟩ := hpos rows hrows
  have hflat : (pos.map ([·])).flatten = pos := by
    rw [← List.flatMap_def]
    exact List.flatMap_singleton' pos
  unfold counterAvail
  rw [if_neg (not_not.2 hall)]
  dsimp only
  rw [hp, hflat, hf]
  cases pos with
  | nil =>
    rw [List.map_nil] at hf
    exact absurd (List.map_eq_nil_iff.1 hf.symm) hne
  | cons i pos => simp

theorem counterAvail_unknown {avail : List AvailRow} {events : List String}
    (h : ∃ e ∈ events, e ∉ avail.map (·.event)) : ∃ c, counterAvail avail events = .error c := by
  have hall : ¬ ∀ e ∈ events, e ∈ avail.map (·.event) := by
    obtain ⟨e, he, hne⟩ := h
    exact fun hall => hne (hall e he)
  exact ⟨_, if_pos hall⟩

/-! ## The gate -/

/-- The event is in the table. -/
def Known (avail : List AvailRow) (e : String) : Prop := ∃ r ∈ avail, r.event = e

/-- The event is in the table and flagged available. -/
def Supported (avail : List AvailRow) (e : String) : Prop :=
  ∃ r ∈ avail, r.event = e ∧ r.avail = true

instance (avail : List AvailRow) (e : String) : Decidable (Supported avail e) :=
  inferInstanceAs (Decidable (∃ r ∈ avail, r.event = e ∧ r.avail = true))

theorem known_iff {avail : List AvailRow} {e : String} :
    Known avail e ↔ e ∈ avail.map (·.event) := by
  simp [Known]

theorem papiAvailLookup_unknown {avail : List AvailRow} {events : List String}
    (h : ∃ e ∈ events, ¬ Known avail e) (shorthand : Option String) :
    papiAvailLookup avail events shorthand = .error (simpleError
      "Unknown hardware events; please report this bug to the pbdPAPI developers.") := by
  obtain ⟨c, hc⟩ : ∃ c, counterAvail avail events = .error c := by
    obtain ⟨e, he, hk⟩ := h
    exact counterAvail_unknown ⟨e, he, mt known_iff.2 hk⟩
  simp only [papiAvailLookup, hc]

/-- In a table without repetitions a row says whether its event is available. -/
theorem supported_row {avail : List AvailRow} (hn : (avail.map (·.event)).Nodup) {r : AvailRow}
    (hr : r ∈ avail) : Supported avail r.event ↔ r.avail = true := by
  constructor
  · intro h
    obtain ⟨r', hr', he, ha⟩ := h
    obtain rfl := List.inj_on_of_nodup_map hn hr' hr he
    exact ha
  · exact fun ha => ⟨r, hr, rfl, ha⟩

/-- The answer to a vector of known events: those that are not available. -/
theorem papiAvailLookup_known {avail : List AvailRow} (hn : (avail.map (·.event)).Nodup)
    {events : List String} (hne : events ≠ []) (hk : ∀ e ∈ events, Known avail e)
    (shorthand : Option String) :
    papiAvailLookup avail events shorthand =
      if ∀ e ∈ events, Supported avail e then .ok ()
      else
        let fail := events.filter fun e => ¬ Supported avail e
        .error (simpleError (unsupportedText (if fail.length = 1 then " event " else " events ")
          (if fail.length = 1 then " is " else " are ") (", ".intercalate fail) shorthand)) := by
  obtain ⟨rows, hrows, rfl⟩ := exists_rows hk
  have hne' : rows ≠ [] := by
    rintro rfl
    exact hne rfl
  have hcheck := counterAvail_rows hn hrows hne'
  have hsup : rows.map (·.avail) =
      (rows.map (·.event)).map fun e => decide (Supported avail e) := by
    rw [List.map_map]
    apply List.map_congr_left
    intro r hr
    simp [supported_row hn (hrows r hr)]
  have hfilter : ((rows.map (·.event)).filter fun e => !decide (Supported avail e)) =
      (rows.map (·.event)).filter fun e => decide (¬ Supported avail e) :=
    List.filter_congr fun e _ => by simp
  rw [hsup] at hcheck
  generalize rows.map (·.event) = events at hcheck hfilter hne ⊢
  have hall : (events.map fun e => decide (Supported avail e)).all id = true ↔
      ∀ e ∈ events, Supported avail e := by simp
  simp only [papiAvailLookup, hcheck]
  by_cases h : ∀ e ∈ events, Supported avail e
  · rw [if_pos (hall.2 h), if_pos h]
  · rw [if_neg (mt hall.1 h), if_neg h]
    -- the positions of the available events leave the unavailable ones, however many
    have hdrop := dropAt_which (fun e => decide (Supported avail e)) events
    rw [hfilter] at hdrop
    have hfail : (if (which (events.map fun e => decide (Supported avail e))).length = 0 then
        events else dropAt events (which (events.map fun e => decide (Supported avail e)))) =
          events.filter fun e => decide (¬ Supported avail e) := by
      split
      · rename_i h₀
        rw [List.length_eq_zero_iff] at h₀
        rw [← hdrop, h₀]
        simp [dropAt]
      · exact hdrop
    have hlen : (events.length : Int) -
        (which (events.map fun e => decide (Supported avail e))).length =
          (events.filter fun e => decide (¬ Supported avail e)).length := by
      have h₁ := List.length_eq_countP_add_countP (fun e => decide (Supported avail e))
        (l := events)
      rw [length_which, List.countP_map, ← List.countP_eq_length_filter]
      simp only [Function.id_comp, decide_not, Bool.decide_eq_true] at h₁ ⊢
      omega
    rw [hfail, hlen]
    generalize events.filter (fun e => decide (¬ Supported avail e)) = fail
    have hone : (fail.length : Int) = 1 ↔ fail.length = 1 := by omega
    simp only [hone, pasteCollapse]

/-! ## The result -/

/-- The gate `papi.avail.lookup` over a table without repetitions: it is silent exactly if every
requested event is in the table and available, an unknown event is one error, and otherwise the
error lists the unavailable ones of the requested events in their order. -/
theorem availLookup_exact {σ : Type} {w : World σ} (hn : (w.avail.map (·.event)).Nodup)
    {events : List String} (hne : events ≠ []) (shorthand : Option String) :
    ((availLookup events shorthand).run w = .ok () w ↔ ∀ e ∈ events, Supported w.avail e) ∧
    ((∃ e ∈ events, ¬ Known w.avail e) →
      (availLookup events shorthand).run w = .error (simpleError
        "Unknown hardware events; please report this bug to the pbdPAPI developers.") w) ∧
    ((∀ e ∈ events, Known w.avail e) → (∃ e ∈ events, ¬ Supported w.avail e) →
      let fail := events.filter fun e => ¬ Supported w.avail e
      let event := if fail.length = 1 then " event " else " events "
      let tobe := if fail.length = 1 then " is " else " are "
      (availLookup events shorthand).run w = .error (simpleError
        (match shorthand with
          | none => "Your platform does not support the hardware" ++ event ++ "\x7b" ++
              ", ".intercalate fail ++ "\x7d.\n\nSee ?papi.avail for more information."
          | some shorthand => "Your platform does not support the hardware" ++ event ++ "\x7b" ++
              ", ".intercalate fail ++ "\x7d which" ++ tobe ++ "needed for events=\"" ++
              shorthand ++ "\".\n\nSee ?papi.avail for more information.")) w) := by
  rw [availLookup_run]
  by_cases hk : ∀ e ∈ events, Known w.avail e
  · have hnot : ¬ ∃ e ∈ events, ¬ Known w.avail e := by simpa using hk
    rw [papiAvailLookup_known hn hne hk]
    by_cases hs : ∀ e ∈ events, Supported w.avail e
    · have hnot' : ¬ ∃ e ∈ events, ¬ Supported w.avail e := by simpa using hs
      rw [if_pos hs]
      exact ⟨iff_of_true rfl hs, fun h => absurd h hnot, fun _ h => absurd h hnot'⟩
    · rw [if_neg hs]
      refine ⟨iff_of_false ?_ hs, fun h => absurd h hnot, fun _ _ => by cases shorthand <;> rfl⟩
      intro h
      cases h
  · have hex : ∃ e ∈ events, ¬ Known w.avail e := by simpa using hk
    rw [papiAvailLookup_unknown hex]
    refine ⟨iff_of_false ?_ ?_, fun _ => rfl, fun h => absurd h hk⟩
    · intro h
      cases h
    · intro hs
      obtain ⟨e, he, hne'⟩ := hex
      obtain ⟨r, hr, rfl, -⟩ := hs e he
      exact hne' ⟨r, hr, rfl⟩

/-! ## A mixed table -/

/-- A world whose table has one available and one unavailable event. -/
def mixedWorld : World Unit where
  lib := ()
  prot := []
  fresh _ := 0
  heap _ := 0
  locals := ⟨0, ⟨0, "", ""⟩, ⟨0, 0, 0, 0, 0, 0⟩⟩
  avail := [⟨"PAPI_TOT_INS", true, "Instructions completed"⟩,
    ⟨"PAPI_FP_OPS", false, "Floating point operations"⟩]
  warnings := []
  trace := []

theorem availLookup_exact_mixed :
    (availLookup ["PAPI_FP_OPS", "PAPI_TOT_INS"] none).run mixedWorld =
      .error (simpleError ("Your platform does not support the hardware event " ++
        "\x7bPAPI_FP_OPS\x7d.\n\nSee ?papi.avail for more information.")) mixedWorld ∧
    (availLookup ["PAPI_FP_OPS", "PAPI_TOT_INS", "PAPI_FP_OPS"] (some "flops.rate")).run
        mixedWorld =
      .error (simpleError ("Your platform does not support the hardware events " ++
        "\x7bPAPI_FP_OPS, PAPI_FP_OPS\x7d which are needed for events=\"flops.rate\"." ++
        "\n\nSee ?papi.avail for more information.")) mixedWorld := by
  have hk : ∀ e ∈ ["PAPI_FP_OPS", "PAPI_TOT_INS", "PAPI_FP_OPS"], Known mixedWorld.avail e := by
    simp [Known, mixedWorld]
  have hd : (mixedWorld.avail.map (·.event)).Nodup := by decide
  exact ⟨(availLookup_exact hd (by decide) none).2.2 (fun e he => hk e (List.mem_append_left _ he))
      (by decide),
    (availLookup_exact hd (by decide) (some "flops.rate")).2.2 hk (by decide)⟩

end PbdPapi.Proof
