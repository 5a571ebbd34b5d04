import PbdPapi.Ipcm.Init

/-!
# The stream buffers around `ipcm_init`

`ipcm_init` puts two buffers of its own into `std::cout` and `std::cerr`, and puts the old ones back
on its way to `return 1` only. `runAttempts_streams`: after which sequences of attempts the process
has its own buffers.
-/

set_option autoImplicit false

namespace PbdPapi.Proof

open Ipcm

/-- The attempt ends in `return 1`: the counters were programmed, at once or after a reset. -/
def Succeeds (o : Outcome) : Prop :=
  o.status = .success ∨ o.status = .pmuBusy ∧ o.secondstatus = .success

instance (o : Outcome) : Decidable (Succeeds o) :=
  inferInstanceAs (Decidable (o.status = .success ∨ o.status = .pmuBusy ∧ _))

/-- The streams write to the buffers `out` and `err` that outlive every call. -/
def Intact (out err : Nat) (s : Process) : Prop :=
  s.cout = .installed out ∧ s.cerr = .installed err

/-- A stream writes to a local of a call that has returned. -/
def Dangling (s : Process) : Prop :=
  (∃ call < s.calls, s.cout = .nullStream1 call) ∧ ∃ call < s.calls, s.cerr = .nullStream2 call

/-! ## One attempt -/

/-- A successful attempt publishes what PCM answers and puts the old buffers back. -/
theorem ipcmInit_succeeds {o : Outcome} (h : Succeeds o) (s : Process) :
    ∃ s₁ : Process, ipcmInit o s = (1, (s₁.publish o).rdbuf s.cout s.cerr) := by
  rcases h with h | ⟨h, h₂⟩
  · simp only [ipcmInit, h]
    exact ⟨_, rfl⟩
  · simp only [ipcmInit, h, h₂, ne_eq, not_true_eq_false, if_false]
    exact ⟨_, rfl⟩

theorem ipcmInit_ok {o : Outcome} (h : Succeeds o) (s : Process) :
    (ipcmInit o s).2.cout = s.cout ∧ (ipcmInit o s).2.cerr = s.cerr := by
  obtain ⟨s₁, hrun⟩ := ipcmInit_succeeds h s
  rw [hrun]
  exact ⟨rfl, rfl⟩

theorem ipcmInit_fail {o : Outcome} (h : ¬ Succeeds o) (s : Process) :
    (ipcmInit o s).2.cout = .nullStream1 s.calls ∧
      (ipcmInit o s).2.cerr = .nullStream2 s.calls := by
  cases hs : o.status with
  | success => exact absurd (.inl hs) h
  | msrAccessDenied =>
    simp only [ipcmInit, hs]
    exact ⟨rfl, rfl⟩
  | pmuBusy =>
    have h₂ : o.secondstatus ≠ .success := fun h₂ => h (.inr ⟨hs, h₂⟩)
    simp only [ipcmInit, hs, h₂, ne_eq, not_false_eq_true, if_true]
    exact ⟨rfl, rfl⟩
  | unknownError =>
    simp only [ipcmInit, hs]
    exact ⟨rfl, rfl⟩

theorem ipcmInit_calls (o : Outcome) (s : Process) : (ipcmInit o s).2.calls = s.calls + 1 := by
  unfold ipcmInit
  cases o.status with
  | pmuBusy =>
    dsimp only
    split <;> rfl
  | _ => rfl

/-- An attempt leaves the streams to `ipcm_init`. -/
theorem after_streams (a : Attempt) (s : Process) :
    (a.after s).cout = (ipcmInit a.outcome s).2.cout ∧
      (a.after s).cerr = (ipcmInit a.outcome s).2.cerr ∧
      (a.after s).calls = (ipcmInit a.outcome s).2.calls := by
  cases a with
  | init o => exact ⟨rfl, rfl, rfl⟩
  | libraryInit o =>
    simp only [Attempt.after, Ipcm.libraryInit, Attempt.outcome]
    split <;> exact ⟨rfl, rfl, rfl⟩

theorem after_intact {out err : Nat} {a : Attempt} (ha : Succeeds a.outcome) {s : Process}
    (h : Intact out err s) : Intact out err (a.after s) := by
  obtain ⟨h₁, h₂, -⟩ := after_streams a s
  obtain ⟨h₃, h₄⟩ := ipcmInit_ok ha s
  exact ⟨(h₁.trans h₃).trans h.1, (h₂.trans h₄).trans h.2⟩

theorem after_dangling_of_fail {a : Attempt} (ha : ¬ Succeeds a.outcome) (s : Process) :
    Dangling (a.after s) := by
  obtain ⟨h₁, h₂, hc⟩ := after_streams a s
  obtain ⟨h₃, h₄⟩ := ipcmInit_fail ha s
  have hlt : s.calls < (a.after s).calls := by
    rw [hc, ipcmInit_calls]
    omega
  exact ⟨⟨s.calls, hlt, h₁.trans h₃⟩, ⟨s.calls, hlt, h₂.trans h₄⟩⟩

/-- Buffers that are lost stay lost: an attempt puts back what it found. -/
theorem after_dangling {a : Attempt} {s : Process} (h : Dangling s) : Dangling (a.after s) := by
  by_cases ha : Succeeds a.outcome
  · obtain ⟨h₁, h₂, hc⟩ := after_streams a s
    obtain ⟨h₃, h₄⟩ := ipcmInit_ok ha s
    obtain ⟨⟨i, hi, hout⟩, ⟨j, hj, herr⟩⟩ := h
    have hlt : s.calls < (a.after s).calls := by
      rw [hc, ipcmInit_calls]
      omega
    exact ⟨⟨i, by omega, (h₁.trans h₃).trans hout⟩, ⟨j, by omega, (h₂.trans h₄).trans herr⟩⟩
  · exact after_dangling_of_fail ha s

theorem not_dangling {out err : Nat} {s : Process} (h : Intact out err s) : ¬ Dangling s := by
  rintro ⟨⟨call, -, hcall⟩, -⟩
  rw [h.1] at hcall
  cases hcall

/-! ## Runs -/

theorem runAttempts_dangling {as : List Attempt} {s : Process} (h : Dangling s) :
    Dangling (runAttempts as s) := by
  induction as generalizing s with
  | nil => exact h
  | cons a as ih => exact ih (after_dangling h)

theorem runAttempts_intact {out err : Nat} {as : List Attempt} {s : Process}
    (h : Intact out err s) : Intact out err (runAttempts as s) ↔
      ∀ a ∈ as, Succeeds a.outcome := by
  induction as generalizing s with
  | nil => exact iff_of_true h (by simp)
  | cons a as ih =>
    rw [List.forall_mem_cons]
    show Intact out err (runAttempts as (a.after s)) ↔ _
    by_cases ha : Succeeds a.outcome
    · rw [ih (after_intact ha h)]
      exact ⟨fun hs => ⟨ha, hs⟩, And.right⟩
    · have hlost : Dangling (runAttempts as (a.after s)) :=
        runAttempts_dangling (after_dangling_of_fail ha s)
      exact iff_of_false (fun hi => not_dangling hi hlost) fun hs => ha hs.1

/-- After each attempt of a sequence the streams have the buffers that were installed before the
first one, and none of a call that has returned, exactly if every attempt succeeds. -/
theorem runAttempts_streams (out err : Nat) (as : List Attempt) :
    (∀ pre, pre <+: as → Intact out err (runAttempts pre (booted out err)) ∧
      ¬ Dangling (runAttempts pre (booted out err))) ↔ ∀ a ∈ as, Succeeds a.outcome := by
  have hboot : Intact out err (booted out err) := ⟨rfl, rfl⟩
  constructor
  · intro h
    exact (runAttempts_intact hboot).1 (h as (List.prefix_refl as)).1
  · intro h pre hpre
    have hi := (runAttempts_intact hboot).2 fun a ha => h a (hpre.subset ha)
    exact ⟨hi, not_dangling hi⟩

/-- A process without access to the counters: one attempt, and both streams write to buffers that
are gone. -/
theorem runAttempts_denied :
    let s := runAttempts [.libraryInit ⟨.msrAccessDenied, .success, 0, 0, 0⟩] (booted 0 1)
    s.cout = .nullStream1 0 ∧ s.cerr = .nullStream2 0 ∧ Dangling s ∧ ¬ Intact 0 1 s := by
  refine ⟨rfl, rfl, ⟨⟨0, by decide, rfl⟩, ⟨0, by decide, rfl⟩⟩, fun h => ?_⟩
  cases h.1

end PbdPapi.Proof
