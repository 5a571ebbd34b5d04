import PbdPapi.Proof.HighLevel
import PbdPapi.Api.Program

/-!
# Unknown event names

A failed translation of event names is a character vector, and goes on as the code vector of
`papi.start` and `papi.stop`. The on function takes `INTEGER` of it before it calls the library, the
off function afterwards, with the length of the vector. `unknown_atomic`: for which sessions both
calls are errors that leave the session alone.
-/

set_option autoImplicit false

namespace PbdPapi.Proof

open Exec C Api Hl

section
variable (H : Hw)

/-- The library does not recognise every name. -/
def HasUnknown (events : List String) : Prop := ∃ name ∈ events, H.codeOf name = none

/-- In `w` the call is an error, and leaves the library as it was. -/
def Refuses {α : Type} (x : RM State α) (w : World State) : Prop :=
  ∃ c w', x.run w = .error c w' ∧ w'.lib = w.lib

/-- The condition: no session runs, or one of `papi.start` with more than one event. -/
def Spared (s : State) : Prop :=
  s.info.running = .stop ∨ s.info.running = .start ∧ 1 < s.info.numEvts

variable {H}

theorem codes_unknown {events : List String} (h : HasUnknown H events) :
    (hlTables H).codes events = none := by
  obtain ⟨name, hmem, hnone⟩ := h
  cases hc : (hlTables H).codes events with
  | none => rfl
  | some codes =>
    have heq : events.map H.codeOf = codes.map some := (hlTables H).codes_eq_some.1 hc
    have hin : H.codeOf name ∈ codes.map some := by
      rw [← heq]
      exact List.mem_map_of_mem hmem
    rw [hnone] at hin
    simp at hin

/-! ## The one stop call -/

theorem cleanup_ne {s : State} (h : s.info.running ≠ .stop) : cleanup s ≠ s := by
  intro heq
  apply h
  rw [← heq]
  rfl

/-- A stop into an array of one element leaves the spared sessions alone and ends the others. -/
theorem stopCounters_one (s : State) : (stopCounters 1 s).2 = s ↔ Spared s := by
  by_cases hstop : s.info.running = .stop
  · rw [stopCounters_stop hstop]
    exact iff_of_true rfl (.inl hstop)
  by_cases hstart : s.info.running = .start
  · by_cases hn : s.info.numEvts ≤ 1
    · rw [stopCounters_start hstart hn]
      refine iff_of_false (cleanup_ne hstop) ?_
      rintro (h | ⟨-, h⟩)
      · exact hstop h
      · omega
    · rw [stopCounters_short hstart (by omega)]
      exact iff_of_true rfl (.inr ⟨hstart, by omega⟩)
  · rw [stopCounters_rate hstop hstart]
    refine iff_of_false (cleanup_ne hstop) ?_
    rintro (h | ⟨h, -⟩)
    · exact hstop h
    · exact hstart h

/-! ## The result -/

theorem papiStart_refuses {events : List String} (h : HasUnknown H events) (w : World State) :
    Refuses (papiStart (Hl.papi H) events) w := by
  obtain ⟨c, w', hr, hs⟩ := (hlTables H).papiStart_refused (.inl (codes_unknown h)) w
  exact ⟨c, w', hr, hs.lib⟩

/-- `papi.stop` is always an error; the library has seen one stop call. -/
theorem papiStop_refuses {events : List String} (h : HasUnknown H events) (w : World State) :
    Refuses (papiStop (Hl.papi H) events) w ↔ (stopCounters 1 w.lib).2 = w.lib := by
  obtain ⟨c, w', hr, -, hl⟩ := (hlTables H).papiStop_unknown (codes_unknown h) w
  constructor
  · rintro ⟨c', w₁, hr', hl'⟩
    rw [hr] at hr'
    cases hr'
    exact hl.symm.trans hl'
  · intro heq
    exact ⟨c, w', hr, hl.trans heq⟩

/-- With an unknown name both calls are errors that leave the library as it was, exactly if there
is no session for `papi.stop` to end. -/
theorem unknown_atomic {events : List String} (h : HasUnknown H events) (w : World State) :
    (Refuses (papiStart (Hl.papi H) events) w ∧ Refuses (papiStop (Hl.papi H) events) w) ↔
      Spared w.lib := by
  have hstart := papiStart_refuses h w
  rw [papiStop_refuses h w, stopCounters_one]
  exact ⟨And.right, fun hs => ⟨hstart, hs⟩⟩

end

/-! ## A session of one event -/

/-- The world after `papi.start("PAPI_FP_OPS")` and five operations. -/
def singleWorld : World State :=
  let w := final ((papiStart (Hl.papi smallHw) ["PAPI_FP_OPS"]).run smallWorld)
  { w with lib := { w.lib with now := w.lib.now.add (flopsClock 5) } }

theorem singleWorld_unknown : HasUnknown smallHw ["PAPI_FP_OPS", "PAPI_NONE"] :=
  ⟨"PAPI_NONE", by simp, by decide⟩

theorem unknown_atomic_single :
    (Refuses (papiStart (Hl.papi smallHw) ["PAPI_FP_OPS", "PAPI_NONE"]) singleWorld ∧
      Refuses (papiStop (Hl.papi smallHw) ["PAPI_FP_OPS", "PAPI_NONE"]) singleWorld) ↔
    Spared singleWorld.lib :=
  unknown_atomic singleWorld_unknown singleWorld

/-- A misspelt name ends the session of another event, and its five operations are lost: the
`papi.stop` that follows is an error. -/
theorem singleWorld_lost :
    HasUnknown smallHw ["PAPI_FP_OPS", "PAPI_NONE"] ∧
    singleWorld.lib.info.running = .start ∧
    ¬ Refuses (papiStop (Hl.papi smallHw) ["PAPI_FP_OPS", "PAPI_NONE"]) singleWorld ∧
    ∃ c w, (papiStop (Hl.papi smallHw) ["PAPI_FP_OPS"]).run
      (final ((papiStop (Hl.papi smallHw) ["PAPI_FP_OPS", "PAPI_NONE"]).run singleWorld)) =
        .error c w := by
  have hrun : singleWorld.lib.info.running = .start := rfl
  refine ⟨singleWorld_unknown, hrun, fun h => ?_, ?_⟩
  · have heq := (papiStop_refuses singleWorld_unknown singleWorld).1 h
    rw [stopCounters_start hrun (by decide)] at heq
    exact cleanup_ne (by rw [hrun]; decide) heq
  · exact ⟨_, _, rfl⟩

end PbdPapi.Proof
