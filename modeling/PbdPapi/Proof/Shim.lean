import PbdPapi.Ipcm.Shim
import PbdPapi.Proof.HighLevel

/-!
# The shim and PAPI's session protocol

The reference machine (`refStart`, `refStop`) is what `papi_hl.c` does with a session of
`PAPI_start_counters` (`startCounters_ref`, `stopCounters_ref`). The shim has no state for it: it
accepts every call. `conforms_iff`: it agrees with the reference and stays inside its block exactly
on the sequences in which starts and stops alternate with equal counts.
-/

set_option autoImplicit false

namespace PbdPapi.Proof

open Exec

/-! ## The reference machine -/

/-- The number of events of the session, if one runs. -/
abbrev Ref := Option Nat

/-- A start with `num` events: whether it succeeds, and the session after it. -/
def refStart (r : Ref) (num : Int) : Bool × Ref :=
  if 0 < num ∧ r = none then (true, some num.toNat) else (false, r)

/-- A stop into an array of length `num`. -/
def refStop (r : Ref) (num : Int) : Bool × Ref :=
  match r with
  | some n => if (n : Int) ≤ num then (true, none) else (false, some n)
  | none => (false, none)

/-- The session of the high level interface. -/
def refOf (s : Hl.State) : Ref :=
  if s.info.running = .start then some s.info.numEvts else none

section
variable {H : Hl.Hw}

theorem addEvents_all (hadd : ∀ set e, H.addEvent set e = papiOK) (set es : List Int) :
    Hl.addEvents H set es = .ok (set ++ es) := by
  induction es generalizing set with
  | nil => simp [Hl.addEvents]
  | cons e es ih => simp [Hl.addEvents, hadd, ih]

/-- On hardware that takes every event, `PAPI_start_counters` is the reference start. -/
theorem startCounters_ref (hadd : ∀ set e, H.addEvent set e = papiOK) (events : List Int)
    {s : Hl.State} (hs : s.info.running = .stop ∨ s.info.running = .start) :
    ((Hl.startCounters H events s).1 = papiOK ↔ (refStart (refOf s) events.length).1 = true) ∧
      refOf (Hl.startCounters H events s).2 = (refStart (refOf s) events.length).2 := by
  rcases List.eq_nil_or_concat events with rfl | ⟨es, e, rfl⟩
  · simp [Hl.startCounters, refStart, papiEinval, papiOK]
  · rcases hs with hs | hs
    · have hpos : (0 : Int) < (es.length : Int) + 1 := by omega
      simp [Hl.startCounters, hs, addEvents_all hadd, refStart, refOf, hpos]
    · simp [Hl.startCounters, hs, refStart, refOf, papiEinval, papiOK]

/-- `PAPI_stop_counters` is the reference stop. -/
theorem stopCounters_ref (n : Nat) {s : Hl.State}
    (hs : s.info.running = .stop ∨ s.info.running = .start) :
    ((Hl.stopCounters n s).1.1 = papiOK ↔ (refStop (refOf s) n).1 = true) ∧
      refOf (Hl.stopCounters n s).2 = (refStop (refOf s) n).2 := by
  rcases hs with hs | hs
  · rw [stopCounters_stop hs]
    simp [refOf, hs, refStop, papiEnotrun, papiOK]
  · by_cases hn : s.info.numEvts ≤ n
    · rw [stopCounters_start hs hn]
      simp [refOf, hs, refStop, hn, Hl.cleanup]
    · rw [stopCounters_short hs (Nat.not_le.1 hn)]
      simp [refOf, hs, refStop, hn, papiEinval, papiOK]

end

/-! ## Loops of the shim -/

open Ipcm

theorem loop_eq (m : Mem) (num : Int) (f : Nat → Cell → Cell) :
    m.loop num f =
      { val := m.val.map fun b => { b with
          cell := fun i => if i < num.toNat then f i (b.cell i) else b.cell i }
        log := m.log ++ (List.range num.toNat).map m.access } := by
  unfold Mem.loop
  generalize num.toNat = n
  induction n with
  | zero =>
    cases hv : m.val <;> simp [← hv]
  | succ n ih =>
    rw [List.range_succ, List.foldl_append, ih]
    cases hv : m.val with
    | none => simp [Mem.modify, Mem.access, hv]
    | some b =>
      simp only [List.foldl_cons, List.foldl_nil, Mem.modify, Mem.access, hv, Option.map_some,
        List.map_append, List.map_cons, List.map_nil, List.append_assoc, Mem.mk.injEq,
        Option.some.injEq, Block.mk.injEq, true_and, and_true]
      funext i
      by_cases hi : i = n
      · simp [hi]
      · have : i < n + 1 ↔ i < n := by omega
        simp [hi, this]

theorem loop_log (m : Mem) (num : Int) (f : Nat → Cell → Cell) :
    (m.loop num f).log = m.log ++ (List.range num.toNat).map m.access := by
  rw [loop_eq]

theorem loop_access (m : Mem) (num : Int) (f : Nat → Cell → Cell) :
    (m.loop num f).access = m.access := by
  rw [loop_eq]
  funext i
  cases hv : m.val <;> simp [Mem.access, hv]

theorem mallocLen_int32 (num : Int32) :
    (mallocLen num.toInt : Int) = num.toInt ∨ num.toInt < 0 := by
  have h := num.toInt_lt
  by_cases h₀ : num.toInt < 0
  · exact .inr h₀
  · refine .inl ?_
    unfold mallocLen
    rw [Int.emod_eq_of_lt (by omega) (by omega)]
    omega

/-! ## Runs of calls -/

section
variable {M : Pcm}

/-- A call of the session protocol, with the caller's array and count. -/
inductive SessionCall where
  | start (codes : Nat → Int) (num : Int32)
  | stop (num : Int32)

/-- The reference machine on a call. -/
def refStep (r : Ref) : SessionCall → Bool × Ref
  | .start _ num => refStart r num.toInt
  | .stop num => refStop r num.toInt

/-- The shim on a call. -/
def shimStep (s : State M) : SessionCall → Int × State M
  | .start codes num => startCounters codes num.toInt s
  | .stop num => ((stopCounters num.toInt s).1.1, (stopCounters num.toInt s).2)

/-- In each call of a run, every access lies inside the block, and the call is accepted exactly if
the reference accepts it. -/
def Conforms : List SessionCall → State M → Ref → Prop
  | [], _, _ => True
  | c :: cs, s, r =>
    (∀ a ∈ (shimStep s c).2.mem.log.drop s.mem.log.length, a.InBounds) ∧
      ((shimStep s c).1 = papiOK ↔ (refStep r c).1 = true) ∧
      Conforms cs (shimStep s c).2 (refStep r c).2

/-- Starts of a positive count and stops of the same count alternate; `r` is the session before. -/
def Alternates : Ref → List SessionCall → Prop
  | _, [] => True
  | none, .start _ num :: cs => 0 < num.toInt ∧ Alternates (some num.toInt.toNat) cs
  | some n, .stop num :: cs => num.toInt = n ∧ Alternates none cs
  | _, _ :: _ => False

/-- The block holds as many cells as the session has events. -/
def Linked (s : State M) (r : Ref) : Prop := s.mem.val.map (·.size) = r

theorem startCounters_log (codes : Nat → Int) (num : Int) (s : State M) :
    (startCounters codes num s).2.mem.log.drop s.mem.log.length =
      (List.range num.toNat).map fun i => ⟨some (mallocLen num), i⟩ := by
  simp [startCounters, ipcmGetEvents, loop_eq, Mem.access]

theorem startCounters_linked {num : Int32} (h : 0 < num.toInt) (codes : Nat → Int) (s : State M) :
    Linked (startCounters codes num.toInt s).2 (some num.toInt.toNat) := by
  have : mallocLen num.toInt = num.toInt.toNat := by
    have := mallocLen_int32 num
    omega
  simp [Linked, startCounters, ipcmGetEvents, loop_eq, this]

theorem stopCounters_log (num : Int) (s : State M) :
    (stopCounters num s).2.mem.log.drop s.mem.log.length =
      (List.range num.toNat).map s.mem.access ++ (List.range num.toNat).map s.mem.access := by
  simp only [stopCounters, ipcmEndEvents, Mem.readVals, loop_log, loop_access, List.append_assoc,
    List.drop_left]

theorem stopCounters_linked (num : Int) (s : State M) : Linked (stopCounters num s).2 none := rfl

/-- A start writes inside the block it takes. -/
theorem startCounters_inBounds (codes : Nat → Int) {num : Int32} (h : 0 < num.toInt)
    (s : State M) : ∀ a ∈ (startCounters codes num.toInt s).2.mem.log.drop s.mem.log.length,
      a.InBounds := by
  intro a ha
  rw [startCounters_log] at ha
  obtain ⟨i, hi, rfl⟩ := List.mem_map.1 ha
  have hlen := mallocLen_int32 num
  have hi' := List.mem_range.1 hi
  exact ⟨_, rfl, show i < mallocLen num.toInt by omega⟩

/-- A stop stays inside the block of its session exactly if it asks for no more than that has. -/
theorem stopCounters_inBounds {s : State M} {n : Nat} (h : Linked s (some n)) (num : Int) :
    (∀ a ∈ (stopCounters num s).2.mem.log.drop s.mem.log.length, a.InBounds) ↔ num.toNat ≤ n := by
  have hacc : s.mem.access = fun i => ⟨some n, i⟩ := by
    funext i
    rw [Mem.access, show s.mem.val.map (·.size) = some n from h]
  rw [stopCounters_log, hacc]
  constructor
  · intro hb
    by_contra hn
    obtain ⟨m, hm, hlt⟩ := hb ⟨some n, n⟩
      (List.mem_append_left _ (List.mem_map.2 ⟨n, List.mem_range.2 (by omega), rfl⟩))
    cases hm
    exact absurd hlt (Nat.lt_irrefl n)
  · intro hle a ha
    rcases List.mem_append.1 ha with ha | ha <;>
      obtain ⟨i, hi, rfl⟩ := List.mem_map.1 ha <;>
      exact ⟨n, rfl, Nat.lt_of_lt_of_le (List.mem_range.1 hi) hle⟩

/-- The shim accepts every call. -/
theorem shimStep_ok (s : State M) (c : SessionCall) : (shimStep s c).1 = papiOK := by
  cases c <;> rfl

/-- The shim conforms exactly on the alternating sequences. -/
theorem conforms_iff (cs : List SessionCall) {s : State M} {r : Ref} (h : Linked s r) :
    Conforms cs s r ↔ Alternates r cs := by
  induction cs generalizing s r with
  | nil => simp [Conforms, Alternates]
  | cons c cs ih =>
    have hret := shimStep_ok s c
    cases c with
    | start codes num =>
      cases r with
      | none =>
        by_cases hnum : 0 < num.toInt
        · have href : refStep none (.start codes num) = (true, some num.toInt.toNat) := by
            simp [refStep, refStart, hnum]
          have hb := startCounters_inBounds codes hnum s
          have hcs := ih (startCounters_linked hnum codes s)
          simp only [Conforms, Alternates, hret, href, hnum, true_and]
          exact ⟨fun hc => hcs.1 hc.2, fun ha => ⟨hb, hcs.2 ha⟩⟩
        · have href : (refStep none (.start codes num)).1 = false := by
            simp [refStep, refStart, hnum]
          simp [Conforms, Alternates, hret, href, hnum]
      | some n =>
        have href : (refStep (some n) (.start codes num)).1 = false := by
          simp [refStep, refStart]
        simp [Conforms, Alternates, hret, href]
    | stop num =>
      cases r with
      | none => simp [Conforms, Alternates, hret, refStep, refStop]
      | some n =>
        by_cases hle : (n : Int) ≤ num.toInt
        · have href : refStep (some n) (.stop num) = (true, none) := by
            simp [refStep, refStop, hle]
          have heq : num.toInt.toNat ≤ n ↔ num.toInt = n := by omega
          have hb := (stopCounters_inBounds h num.toInt).trans heq
          have hcs := ih (stopCounters_linked num.toInt s)
          simp only [Conforms, Alternates, hret, href, true_and]
          exact and_congr hb hcs
        · have href : (refStep (some n) (.stop num)).1 = false := by
            simp [refStep, refStop, hle]
          have hne : num.toInt ≠ n := by omega
          simp [Conforms, Alternates, hret, href, hne]

/-- From its initial state, with any memory, the shim conforms to the reference machine exactly on
the alternating sequences. -/
theorem atRest_conforms (cs : List SessionCall) (junk : Nat → Cell) (a b : M.Snap) :
    Conforms cs (atRest junk a b) none ↔ Alternates none cs := conforms_iff cs rfl

end

/-- A second start inside a session, and a stop of more events than were started. -/
theorem atRest_not_conforms :
    ¬ Conforms (M := smallPcm) [.start (fun _ => 0) 1, .start (fun _ => 1) 1]
      (atRest (fun _ => ⟨0, 0⟩) (0 : Nat) (0 : Nat)) none ∧
    ¬ Conforms (M := smallPcm) [.start (fun _ => 0) 1, .stop 2]
      (atRest (fun _ => ⟨0, 0⟩) (0 : Nat) (0 : Nat)) none := by
  refine ⟨fun h => ?_, fun h => ?_⟩
  · exact absurd (h.2.2.2.1.1 rfl) (by decide)
  · have hstop : ∀ a ∈ [(⟨some 1, 0⟩ : Access), ⟨some 1, 1⟩, ⟨some 1, 0⟩, ⟨some 1, 1⟩],
        a.InBounds := h.2.2.1
    obtain ⟨n, hn, hlt⟩ := hstop ⟨some 1, 1⟩ (by simp)
    cases hn
    exact absurd hlt (Nat.lt_irrefl 1)

end PbdPapi.Proof
