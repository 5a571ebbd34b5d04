import PbdPapi.Proof.Ratio
import PbdPapi.R.Logged

/-!
# The trace of a measurement

Which starts, stops and evaluations a measurement built on `system.event` makes when every library
call succeeds. `measure_trace`: some pairs of a start and a stop, and then, if the call is one that
measures at all, a start, the one evaluation of the expression, and a stop.
-/

set_option autoImplicit false

namespace PbdPapi.Proof

open Exec C Api

/-! ## Entries of the primitives -/

section
variable {σ : Type}

/-- A condition on the availability table only. -/
def OnAvail (I : World (σ × List LogEntry) → Prop) : Prop :=
  ∀ w w', w'.avail = w.avail → I w → I w'

variable {I : World (σ × List LogEntry) → Prop} (hI : OnAvail I)

/-- R's own bookkeeping makes no entry. -/
theorem modifyGet_emits {α : Type} {f : World (σ × List LogEntry) → α × World (σ × List LogEntry)}
    (hI : OnAvail I) (hl : ∀ w, (f w).2.lib = w.lib) (ha : ∀ w, (f w).2.avail = w.avail) :
    (callLog σ).Emits I I (modifyGet f : RM _ α) [] fun _ => True :=
  .quiet (fun w hw => ⟨(f w).1, (f w).2, rfl, trivial, hI _ _ (ha w) hw⟩)
    fun w => congrArg Prod.snd (hl w)

theorem get_emits : (callLog σ).Emits I I (get : RM _ _) [] fun _ => True :=
  .quiet (fun w hw => ⟨w, w, rfl, trivial, hw⟩) fun _ => rfl

include hI

theorem protect_emits : (callLog σ).Emits I I protect [] fun _ => True :=
  modifyGet_emits hI (fun _ => rfl) fun _ => rfl

theorem unprotect_emits (k : Nat) : (callLog σ).Emits I I (unprotect k) [] fun _ => True :=
  modifyGet_emits hI (fun _ => rfl) fun _ => rfl

theorem allocInt_emits : (callLog σ).Emits I I allocInt [] fun _ => True :=
  modifyGet_emits hI (fun _ => rfl) fun _ => rfl

theorem allocInts_emits (k : Nat) : (callLog σ).Emits I I (allocInts k) [] fun _ => True :=
  modifyGet_emits hI (fun _ => rfl) fun _ => rfl

theorem malloc_emits (k : Nat) : (callLog σ).Emits I I (malloc k) [] fun _ => True :=
  modifyGet_emits hI (fun _ => rfl) fun _ => rfl

theorem warning_emits (msg : String) : (callLog σ).Emits I I (warning msg) [] fun _ => True :=
  modifyGet_emits hI (fun _ => rfl) fun _ => rfl

/-- A library call makes its entry, and where that is a success its result says so. -/
theorem call_emits {α : Type} (f : σ → α × σ) (ok : α → Bool) {c : Bool → LogEntry}
    (hc : ∀ b, (c b).ok = b) :
    (callLog σ).Emits I I (call (noted f fun r => c (ok r)))
      (if (c true).isStep then [c true] else []) fun r => ok r = true where
  grows := .modifyGet fun _ => Logging.grows_of_append rfl
  run w hw hclean := by
    have hgood : (c (ok (f w.lib.1).1)).ok = true :=
      hclean _ (List.mem_append_right _ (List.mem_singleton.2 rfl))
    have hok : ok (f w.lib.1).1 = true := (hc _).symm.trans hgood
    have hlog : (noted f (fun r => c (ok r)) w.lib).2.2 = w.lib.2 ++ [c true] := by
      simp only [noted, hok]
    exact ⟨_, _, rfl, hok, hI w _ rfl hw, Logging.marks_of_append hlog⟩

theorem query_emits {α : Type} (f : σ → α × σ) (ok : α → Bool) :
    (callLog σ).Emits I I (call (noted f fun r => .query (ok r))) [] fun r => ok r = true :=
  call_emits hI f ok fun _ => rfl

theorem start_emits (P : Papi σ) (n : Nat) (events : List Int) :
    (callLog σ).Emits I I (call ((logged P n).startCounters events)) [.start true]
      fun r => decide (r = papiOK) = true :=
  call_emits hI (P.startCounters events) (fun r => decide (r = papiOK)) fun _ => rfl

theorem stop_emits (P : Papi σ) (n len : Nat) :
    (callLog σ).Emits I I (call ((logged P n).stopCounters len)) [.stop true]
      fun r => decide (r.1 = papiOK) = true :=
  call_emits hI (P.stopCounters len) (fun r => decide (r.1 = papiOK)) fun _ => rfl

theorem rPapiError_emits (retval : Int) :
    (callLog σ).Emits I I (rPapiError retval) [] fun r => retval = papiOK → r = .int [0] :=
  .ite (fun _ => (allocInt_emits hI).seq fun _ => (protect_emits hI).seq fun _ =>
      (unprotect_emits hI 1).seq fun _ => .pure fun _ => rfl)
    fun hne => (protect_emits hI).seq fun _ => (unprotect_emits hI 1).seq fun _ =>
      .pure fun h => absurd h hne

/-! ## `papi.start` and `papi.stop` -/

variable (P : Papi σ)

theorem papiCheckNcounters_emits (n : Nat) :
    (callLog σ).Emits I I (papiCheckNcounters (logged P n) n) [] fun _ => True := by
  have hgrow (w : World (σ × List LogEntry)) :
      (callLog σ).Grows w (afterCheck (logged P n) w) := Logging.grows_of_append rfl
  constructor
  · intro w
    by_cases hn : Counts (logged P n) n w.lib
    · rw [papiCheckNcounters_pass (logged P n) hn]
      exact hgrow w
    · obtain ⟨c, hr⟩ := papiCheckNcounters_fail (logged P n) hn
      rw [hr]
      exact hgrow w
  · intro w hw hc
    by_cases hn : Counts (logged P n) n w.lib
    · refine ⟨_, _, papiCheckNcounters_pass (logged P n) hn, trivial, hI w _ rfl hw, ?_⟩
      exact Logging.marks_of_append (L := callLog σ) (e := .query _) rfl
    · obtain ⟨c, hr⟩ := papiCheckNcounters_fail (logged P n) hn
      rw [hr] at hc
      have hok := hc (.query (decide (0 < (P.numCounters w.lib.1).1 ∧
        (n : Int) ≤ (P.numCounters w.lib.1).1))) (List.mem_append_right _ (by simp))
      exact absurd (of_decide_eq_true hok) hn

theorem namesToCodes_emits (n : Nat) (names : List String) (id : Int) :
    (callLog σ).Emits I I (namesToCodes (logged P n) names id) []
      fun r => ∃ codes, r = some codes := by
  induction names generalizing id with
  | nil => exact .pure ⟨[], rfl⟩
  | cons name names ih =>
    refine (query_emits hI (P.eventNameToCode name id) fun r => decide (r.1 = papiOK)).bind
      (fun r hr => ?_) fun r hr => ?_
    · obtain ⟨ret, code⟩ := r
      obtain rfl : ret = papiOK := of_decide_eq_true hr
      simp only [ne_eq, not_true_eq_false, if_false]
      exact (ih code).bind (fun c hc => .pure (by obtain ⟨codes, rfl⟩ := hc; exact ⟨_, rfl⟩))
        fun c _ => .pure _
    · obtain ⟨ret, code⟩ := r
      have hne : ret ≠ papiOK := fun h => hr (decide_eq_true h)
      simp only [hne, ne_eq, not_false_eq_true, if_true]
      exact .pure none

theorem papiEventCounterInit_emits (n : Nat) (which : List String) :
    (callLog σ).Emits I I (papiEventCounterInit (logged P n) which) []
      fun r => ∃ codes, r = .int codes := by
  refine (allocInts_emits hI _).seq fun _ => (protect_emits hI).seq fun _ => get_emits.seq fun w =>
    (namesToCodes_emits hI P n which _).bind (fun c hc => ?_) fun c hc => ?_
  · obtain ⟨codes, rfl⟩ := hc
    exact (unprotect_emits hI 1).seq fun _ => .pure ⟨codes, rfl⟩
  · cases c with
    | none => exact ((unprotect_emits hI 1).seq fun _ => rPapiError_emits hI papiEnoevnt).grows
    | some codes => exact absurd ⟨codes, rfl⟩ hc

/-- `papi.event.init` and its light sibling, which gives no warning. -/
theorem dedup_emits {n : Nat} {which : List String} {f : Sexp → RM (σ × List LogEntry) Sexp}
    (hf : ∀ r, (callLog σ).Emits I I (f r) [] fun r' => r' = unique r ∨ r' = r) :
    (callLog σ).Emits I I (papiEventCounterInit (logged P n) which >>= f) []
      fun r => ∃ codes, r = .int codes := by
  refine (papiEventCounterInit_emits hI P n which).bind (fun r hr => ?_) fun r _ => (hf r).grows
  obtain ⟨codes, rfl⟩ := hr
  refine (hf _).mono ?_
  intro r' hr'
  rcases hr' with rfl | rfl
  · exact ⟨_, rfl⟩
  · exact ⟨_, rfl⟩

theorem papiEventInit_emits (n : Nat) (which : List String) :
    (callLog σ).Emits I I (papiEventInit (logged P n) which) []
      fun r => ∃ codes, r = .int codes :=
  dedup_emits hI P fun _ => .ite
    (fun _ => (warning_emits hI _).seq fun _ => .pure (Or.inl rfl)) fun _ => .pure (Or.inr rfl)

theorem papiEventInitLight_emits (n : Nat) (which : List String) :
    (callLog σ).Emits I I (papiEventInitLight (logged P n) which) []
      fun r => ∃ codes, r = .int codes :=
  dedup_emits hI P fun _ => .ite (fun _ => .pure (Or.inl rfl)) fun _ => .pure (Or.inr rfl)

omit hI in
/-- `INTEGER(x)` makes no entry. -/
theorem integer_quiet (x : Sexp) :
    Moves (fun w w' => (callLog σ).log w' = (callLog σ).log w) (x.integer : RM _ _) := by
  intro w
  cases x <;> rfl

omit hI in
theorem integer_emits (codes : List Int) :
    (callLog σ).Emits I I (Sexp.int codes).integer [] fun _ => True :=
  .quiet (fun w hw => ⟨codes, w, rfl, trivial, hw⟩) (integer_quiet (.int codes))

theorem papiEventCounterOn_emits (n : Nat) (codes : List Int) :
    (callLog σ).Emits I I (papiEventCounterOn (logged P n) (.int codes)) [.start true]
      fun r => r = .int [0] :=
  (integer_emits codes).seq fun v => (start_emits hI P n v).bind
    (fun r hr => (rPapiError_emits hI r).mono fun _ h => h (of_decide_eq_true hr))
    fun r _ => (rPapiError_emits hI r).grows

theorem papiEventCounterOn_grows (n : Nat) (which : Sexp) :
    Moves (callLog σ).Grows (papiEventCounterOn (logged P n) which) :=
  ((integer_quiet which).mono fun _ _ => Logging.grows_of_eq).bind fun v =>
    (start_emits hI P n v).grows.bind fun r => (rPapiError_emits hI r).grows

/-- `papi.start` is one start. -/
theorem papiStart_emits (events : List String) :
    (callLog σ).Emits I I (papiStart (logged P events.length) events) [.start true]
      fun _ => True := by
  refine (papiCheckNcounters_emits hI P events.length).seq fun _ =>
    (papiEventInit_emits hI P _ events).bind (fun which hw => ?_) fun which _ => ?_
  · obtain ⟨codes, rfl⟩ := hw
    refine (papiEventCounterOn_emits hI P _ codes).bind (fun ret hret => ?_) fun ret _ => ?_
    · rw [hret]
      exact .pure trivial
    · cases ret <;> first | exact Moves.pure _ | exact Moves.throw _
  · refine (papiEventCounterOn_grows hI P _ which).bind ?_
    intro ret
    cases ret <;> first | exact Moves.pure _ | exact Moves.throw _

theorem setListVars_emits (n : Nat) (l : List (Int × Int)) (ev : EventInfo) :
    (callLog σ).Emits I I (setListVars (logged P n) l ev) [] fun r => ∃ vars, r = some vars := by
  induction l generalizing ev with
  | nil => exact .pure ⟨[], rfl⟩
  | cons p l ih =>
    obtain ⟨code, value⟩ := p
    refine (query_emits hI (P.getEventInfo code ev) fun r => decide (r.1 = papiOK)).bind
      (fun r hr => ?_) fun r hr => ?_
    · obtain ⟨ret, ev'⟩ := r
      obtain rfl : ret = papiOK := of_decide_eq_true hr
      simp only [ne_eq, not_true_eq_false, if_false]
      refine (protect_emits hI).seq fun _ => (ih ev').bind (fun vars hv => ?_) fun vars _ => .pure _
      obtain ⟨vars, rfl⟩ := hv
      exact .pure ⟨_, rfl⟩
    · obtain ⟨ret, ev'⟩ := r
      have hne : ret ≠ papiOK := fun h => hr (decide_eq_true h)
      simp only [hne, ne_eq, not_false_eq_true, if_true]
      exact ((allocInt_emits hI).seq fun _ => (protect_emits hI).seq fun _ =>
        .pure (p := fun _ => True) trivial).grows

theorem errorVec_emits : (callLog σ).Emits I I errorVec [] fun _ => True :=
  (allocInt_emits hI).seq fun _ => (protect_emits hI).seq fun _ => .pure trivial

omit hI in
theorem loopCodes_quiet (which : Sexp) :
    Moves (fun w w' => (callLog σ).log w' = (callLog σ).log w) (loopCodes which : RM _ _) := by
  unfold loopCodes
  split
  · exact fun _ => rfl
  · exact integer_quiet which

omit hI in
theorem loopCodes_emits (codes : List Int) :
    (callLog σ).Emits I I (loopCodes (.int codes)) [] fun _ => True :=
  .quiet (fun w hw => ⟨codes, w, Tables.loopCodes_int codes w, trivial, hw⟩)
    (loopCodes_quiet (.int codes))

/-- The rest of `papi_event_counter_off` after its stop call. -/
theorem offTail_emits (n : Nat) (l : List (Int × Int)) (ev : EventInfo) (num : Nat) :
    (callLog σ).Emits I I (do
      match ← setListVars (logged P n) l ev with
      | none =>
        unprotect 2
        return .int [pbdError]
      | some vars =>
        unprotect (num + 2)
        return .list vars) [] fun r => ∃ vars, r = Sexp.list vars := by
  refine (setListVars_emits hI P n l ev).bind (fun vars hv => ?_) fun vars hv => ?_
  · obtain ⟨vars, rfl⟩ := hv
    exact (unprotect_emits hI _).seq fun _ => .pure ⟨vars, rfl⟩
  · cases vars with
    | none => exact (unprotect_emits hI 2).grows.bind fun _ => .pure _
    | some vars => exact absurd ⟨vars, rfl⟩ hv

theorem papiEventCounterOff_emits (n : Nat) (codes : List Int) :
    (callLog σ).Emits I I (papiEventCounterOff (logged P n) (.int codes)) [.stop true]
      fun r => ∃ vars, r = .list vars := by
  refine (malloc_emits hI _).seq fun values => (stop_emits hI P n _).bind (fun r hr => ?_)
    fun r hr => ?_
  · obtain ⟨retval, written⟩ := r
    obtain rfl : retval = papiOK := of_decide_eq_true hr
    simp only [ne_eq, not_true_eq_false, if_false]
    exact (protect_emits hI).seq fun _ => (protect_emits hI).seq fun _ =>
      (loopCodes_emits codes).seq fun v => get_emits.seq fun w => offTail_emits hI P n _ _ _
  · obtain ⟨retval, written⟩ := r
    have hne : retval ≠ papiOK := fun h => hr (decide_eq_true h)
    simp only [hne, ne_eq, not_false_eq_true, if_true]
    exact (errorVec_emits hI).grows.bind fun ret =>
      (unprotect_emits hI 1).grows.bind fun _ => .pure _

theorem papiEventCounterOff_grows (n : Nat) (which : Sexp) :
    Moves (callLog σ).Grows (papiEventCounterOff (logged P n) which) := by
  refine (malloc_emits hI _).grows.bind fun values => (stop_emits hI P n _).grows.bind fun r => ?_
  obtain ⟨retval, written⟩ := r
  by_cases h : retval ≠ papiOK
  · simp only [h, ne_eq, not_false_eq_true, if_true]
    exact (errorVec_emits hI).grows.bind fun ret =>
      (unprotect_emits hI 1).grows.bind fun _ => .pure _
  · simp only [h, if_false]
    exact (protect_emits hI).grows.bind fun _ => (protect_emits hI).grows.bind fun _ =>
      ((loopCodes_quiet which).mono fun _ _ => Logging.grows_of_eq).bind fun v =>
        Moves.get.bind fun w => (offTail_emits hI P n _ _ _).grows

/-- `papi.stop` is one stop. -/
theorem papiStop_emits (n : Nat) (events : List String) :
    (callLog σ).Emits I I (papiStop (logged P n) events) [.stop true]
      fun r => ∃ vars, r = .list vars := by
  have htail (ret : Sexp) : Moves (callLog σ).Grows (if ret = .int [-1] then
      stop "There was a problem recovering the counter information."
      else pure ret : RM _ Sexp) := by
    split
    · exact .throw _
    · exact .pure _
  refine (papiEventInitLight_emits hI P n events).bind (fun which hw => ?_) fun which _ =>
    (papiEventCounterOff_grows hI P n which).bind htail
  obtain ⟨codes, rfl⟩ := hw
  refine (papiEventCounterOff_emits hI P n codes).bind (fun ret hret => ?_) fun ret _ => htail ret
  obtain ⟨vars, rfl⟩ := hret
  exact .pure ⟨vars, rfl⟩

/-- The warm-up of `system.event` is a start and a stop. -/
theorem warmUp_emits (events : List String) :
    (callLog σ).Emits I I (warmUp (logged P events.length) events) [.start true, .stop true]
      fun _ => True :=
  (papiStart_emits hI P events).seq fun _ => (papiStop_emits hI P _ events).seq fun _ =>
    .pure trivial

end

/-! ## A reading -/

section
variable {σ : Type}

/-- The step of a log that is left alone. -/
abbrev Silent (σ : Type) (w w' : World (σ × List LogEntry)) : Prop :=
  (callLog σ).log w' = (callLog σ).log w

instance : IsPreorder (World (σ × List LogEntry)) (Silent σ) where
  refl _ := rfl
  trans _ _ _ h₁ h₂ := h₂.trans h₁

/-- The world has the availability table `A`. -/
def Table (A : List AvailRow) (w : World (σ × List LogEntry)) : Prop := w.avail = A

theorem onAvail_table (A : List AvailRow) : OnAvail (Table (σ := σ) A) :=
  fun _ _ h hw => h.trans hw

theorem onAvail_true : OnAvail fun _ : World (σ × List LogEntry) => True := fun _ _ _ _ => trivial

/-- The availability gate lets the events through. -/
def Passes (A : List AvailRow) (events : List String) : Prop :=
  papiAvailLookup A events none = .ok ()

instance (A : List AvailRow) (events : List String) : Decidable (Passes A events) :=
  inferInstanceAs (Decidable (_ = _))

variable {A : List AvailRow} {events : List String}

/-- The gate's answer does not depend on the shorthand, its message does. -/
theorem passes_iff (shorthand : Option String) :
    Passes A events ↔ papiAvailLookup A events shorthand = .ok () := by
  unfold Passes papiAvailLookup
  cases counterAvail A events with
  | error c => simp
  | ok avail =>
    dsimp only
    split <;> simp

theorem availLookup_emits (h : Passes A events) (shorthand : Option String) :
    (callLog σ).Emits (Table A) (Table A) (availLookup events shorthand) [] fun _ => True := by
  refine .quiet (fun w hw => ⟨(), w, ?_, trivial, hw⟩) (availLookup_moves _ _)
  have hw : w.avail = A := hw
  rw [availLookup_run, hw, (passes_iff shorthand).1 h]

/-- What stands behind a gate that refuses is not run. -/
theorem availLookup_refuses {α : Type} (h : ¬ Passes A events) (shorthand : Option String)
    {f : Unit → RM (σ × List LogEntry) α} (hf : ∀ u, Moves (callLog σ).Grows (f u)) :
    (callLog σ).Ends (Table A) (availLookup events shorthand >>= f) [] := by
  refine ⟨(availLookup_moves _ _).bind hf, fun w hw _ => ?_⟩
  have hw : w.avail = A := hw
  have hrun : ∃ c, (availLookup events shorthand).run w = .error c w := by
    rw [availLookup_run, hw]
    rw [passes_iff shorthand] at h
    cases hl : papiAvailLookup A events shorthand with
    | error c => exact ⟨c, rfl⟩
    | ok u => exact absurd hl h
  obtain ⟨c, hrun⟩ := hrun
  rw [bind_of_error hrun, final_error, List.append_nil]

theorem tryIdentity_emits {I : World (σ × List LogEntry) → Prop} {x : RM (σ × List LogEntry) Obj}
    {ms : List LogEntry} (h : (callLog σ).Ends I x ms) :
    (callLog σ).Emits I (fun _ => True) (tryIdentity x) ms fun _ => True := by
  refine (List.append_nil ms) ▸ h.caught.seq ?_
  intro r
  cases r <;> exact .pure trivial

/-- The expression's value is not a language object. -/
def NotLang (e : Prom σ) : Prop := ∀ w v w', e.run w = .ok v w' → ∃ o, v = .obj o

/-- A watched expression makes one entry, whether it returns or fails. -/
theorem observed_ends {e : Prom σ} (he : NotLang e) (I : World (σ × List LogEntry) → Prop) :
    (callLog σ).Ends I (reval (observed e)) [.eval] := by
  have hlog (w : World (σ × List LogEntry)) :
      (callLog σ).log (final ((reval (observed e)).run w)) = (callLog σ).log w ++ [.eval] := by
    have hwatch := observe_run (σ := σ) e w
    cases h : e.run w.bare with
    | ok v w' =>
      obtain ⟨o, rfl⟩ := he _ _ _ h
      rw [h] at hwatch
      have hobs : (observed e).run w = .ok (.obj o) ((w.note .eval).resume w') :=
        map_ok.2 ⟨.obj o, hwatch, rfl⟩
      unfold reval
      rw [bind_of_ok hobs]
      rfl
    | error c w' =>
      rw [h] at hwatch
      have hobs : (observed e).run w = .error c ((w.note .eval).resume w') := by
        unfold observed
        rw [map_run, hwatch]
      unfold reval
      rw [bind_of_error hobs]
      rfl
  exact ⟨fun w => Logging.grows_of_append (hlog w), fun w _ _ => Logging.marks_of_append (hlog w)⟩

variable (P : Papi σ)

/-- The tail of a reading makes no entry. -/
theorem readingTail_silent (err : Obj) (ret : Sexp) :
    Moves (Silent σ) (if err.inherits "simpleError" then throw (stopCond err) else asList ret) := by
  split
  · exact .throw _
  · cases ret <;> first | exact .pure _ | exact .throw _

/-- A reading of the empty expression. -/
theorem eventReading_null_emits (h : Passes A events) :
    (callLog σ).Emits (Table A) (Table A)
      (eventReading (logged P events.length) nullProm events) [.start true, .stop true]
      fun _ => True := by
  have hnull : (callLog σ).Emits (Table A) (Table A) (tryIdentity (reval nullProm)) []
      fun o => o = Obj.null :=
    .quiet (fun w hw => ⟨_, w, rfl, rfl, hw⟩) (tryIdentity_moves good_null.reval)
  refine (availLookup_emits h none).seq fun _ => (papiStart_emits (onAvail_table A) P events).seq
    fun _ => hnull.bind (fun err herr => ?_) fun err _ => ?_
  · subst herr
    refine (papiStop_emits (onAvail_table A) P _ events).bind (fun ret hret => ?_) fun ret _ =>
      (readingTail_silent _ ret).mono fun _ _ => Logging.grows_of_eq
    obtain ⟨vars, rfl⟩ := hret
    exact .pure trivial
  · exact (papiStop_emits (onAvail_table A) P _ events).grows.bind fun ret =>
      (readingTail_silent err ret).mono fun _ _ => Logging.grows_of_eq

/-- A reading of a watched expression: the one evaluation stands between the start and the stop. -/
theorem eventReading_ends (h : Passes A events) {e : Prom σ} (he : NotLang e) :
    (callLog σ).Ends (Table A) (eventReading (logged P events.length) (observed e) events)
      [.start true, .eval, .stop true] :=
  (availLookup_emits h none).bindEnds fun _ =>
    (papiStart_emits (onAvail_table A) P events).bindEnds fun _ =>
      (tryIdentity_emits (observed_ends he _)).bindEnds fun err =>
        (papiStop_emits onAvail_true P _ events).ends.bindQuiet (readingTail_silent err)

section
variable {e : Prom (σ × List LogEntry)} (he : Moves (callLog σ).Grows (reval e))
include he

/-- What stands behind the gate of a reading. -/
theorem readingRest_grows (events : List String) : Moves (callLog σ).Grows (do
    let _ ← papiStart (logged P events.length) events
    let err ← tryIdentity (reval e)
    let ret ← papiStop (logged P events.length) events
    if err.inherits "simpleError" then throw (stopCond err) else asList ret) :=
  (papiStart_emits onAvail_true P events).grows.bind fun _ => (tryIdentity_moves he).bind fun err =>
    (papiStop_emits onAvail_true P _ events).grows.bind fun ret =>
      (readingTail_silent err ret).mono fun _ _ => Logging.grows_of_eq

theorem eventReading_grows (events : List String) :
    Moves (callLog σ).Grows (eventReading (logged P events.length) e events) :=
  (availLookup_moves _ _).bind fun _ => readingRest_grows P he events

/-- A reading behind a gate that refuses, and what would follow it. -/
theorem eventReading_refused (h : ¬ Passes A events) {α : Type}
    {k : Measurement → RM (σ × List LogEntry) α} (hk : ∀ r, Moves (callLog σ).Grows (k r)) :
    (callLog σ).Ends (Table A) (eventReading (logged P events.length) e events >>= k) [] := by
  unfold eventReading
  rw [bind_assoc]
  exact availLookup_refuses h none fun _ => (readingRest_grows P he events).bind hk

end

/-! ## `system.event` -/

/-- `k` pairs of a start and a stop. -/
def pairs (k : Nat) : List LogEntry := (List.replicate k [.start true, .stop true]).flatten

/-- A measurement: a start, the evaluation, a stop. -/
def measuring : List LogEntry := [.start true, .eval, .stop true]

theorem baseline_emits (h : Passes A events) (burnin : Bool) :
    (callLog σ).Emits (Table A) (Table A) (baseline (warmUp (logged P events.length) events)
        (fun e => eventReading (logged P events.length) e events) burnin)
      (pairs (if burnin then 2 else 0)) fun _ => True := by
  cases burnin with
  | false => exact .pure trivial
  | true =>
    exact ((warmUp_emits (onAvail_table A) P events).seq fun _ =>
      eventReading_null_emits P h).map fun _ _ => trivial

section
variable {e : Prom (σ × List LogEntry)} (he : Moves (callLog σ).Grows (reval e))
include he

theorem systemEvent_grows (events : List String) (gcFirst burnin : Bool) :
    Moves (callLog σ).Grows
      (systemEvent (logged P events.length) (some e) events gcFirst burnin) := by
  have hwarm := (warmUp_emits onAvail_true P events).grows
  rw [systemEvent_measured]
  refine hwarm.bind fun _ => .bind ?_ fun b => (eventReading_grows P he events).bind fun r =>
    liftR_moves _
  cases burnin with
  | false => exact .pure _
  | true => exact (hwarm.bind fun _ => eventReading_grows P good_null.reval events).map _

/-- A measurement that the gate refuses: it comes to the gate after a warm-up, or after that of its
burn-in run. -/
theorem systemEvent_refused (h : ¬ Passes A events) (gcFirst burnin : Bool) :
    (callLog σ).Ends (Table A)
      (systemEvent (logged P events.length) (some e) events gcFirst burnin)
      (pairs (if burnin then 2 else 1)) := by
  have hwarm := warmUp_emits (onAvail_table A) P events
  rw [systemEvent_measured]
  cases burnin with
  | false =>
    exact hwarm.bindEnds fun _ => eventReading_refused P he h fun r => liftR_moves _
  | true =>
    have hnull : Moves (callLog σ).Grows (reval nullProm) := good_null.reval
    unfold measured baseline
    simp only [if_true, bind_map_left, bind_assoc]
    exact hwarm.bindEnds fun _ => hwarm.bindEnds fun _ => eventReading_refused P hnull h
      fun b => (eventReading_grows P he events).bind fun r => liftR_moves _

end

/-- A measurement that the gate lets through. -/
theorem systemEvent_ends (h : Passes A events) {e : Prom σ} (he : NotLang e)
    (gcFirst burnin : Bool) :
    (callLog σ).Ends (Table A)
      (systemEvent (logged P events.length) (some (observed e)) events gcFirst burnin)
      (pairs (if burnin then 3 else 1) ++ measuring) := by
  rw [systemEvent_measured]
  have hends := (warmUp_emits (onAvail_table A) P events).bindEnds fun _ =>
    (baseline_emits P h burnin).bindEnds fun b =>
      (eventReading_ends P h he).bindQuiet fun r => liftR_moves (corrected b r)
  cases burnin <;> exact hends

/-! ## The measuring functions -/

/-- The call is one that measures: its events pass the gate, and it is not one for the ratio of the
accesses. Arguments that do not match stand for no events, which do not pass. -/
def Admitted (f : Wrapper) (A : List AvailRow) : Prop := Passes A (eventsOf f) ∧ ¬ AccessRatio f

theorem not_passes_nil : ¬ Passes A [] := by
  unfold Passes
  simp [papiAvailLookup, counterAvail]

theorem cacheTail_silent (ratio : Bool) (name : String) (ret : Measurement) :
    Moves (Silent σ) (cacheTail ratio name ret) := by
  unfold cacheTail
  split
  · exact (liftR_moves _).bind fun _ => (liftR_moves _).bind fun _ => .pure _
  · exact .pure _

theorem cpuormemTail_silent (ret : Measurement) : Moves (Silent σ) (do
    let ins ← liftR (elt ret 1)
    let tca ← liftR (elt ret 2)
    if tca.2 ≤ ins.2 then return Ret.program ret "compute bound"
    else return Ret.program ret "memory bound") := by
  refine (liftR_moves _).bind fun _ => (liftR_moves _).bind fun _ => ?_
  split <;> exact .pure _

theorem measure_admitted {f : Wrapper} (hf : rateOf f = none) (h : Admitted f A) {e : Prom σ}
    (he : NotLang e) (gcFirst burnin : Bool) :
    (callLog σ).Ends (Table A)
      (measure (logged P (eventsOf f).length) f (some (observed e)) gcFirst burnin)
      (pairs (if forwarded f burnin then 3 else 1) ++ measuring) := by
  obtain ⟨hp, hr⟩ := h
  cases f with
  | event events => exact (systemEvent_ends P hp he gcFirst burnin).map _
  | ipcmCache type level => exact (systemEvent_ends P hp he gcFirst burnin).map _
  | cpuormem =>
    exact (availLookup_emits hp none).bindEnds fun _ =>
      (systemEvent_ends P hp he gcFirst true).bindQuiet cpuormemTail_silent
  | idle events =>
    cases hev : matchArg events.toLower idleEvents with
    | error c =>
      simp only [eventsOf, hev] at hp
      exact absurd hp not_passes_nil
    | ok ev =>
      simp only [Api.measure, systemIdle, hev, liftR_ok_bind]
      simp only [eventsOf, hev] at hp ⊢
      exact .map ((availLookup_emits hp _).bindEnds fun _ =>
        systemEvent_ends P hp he gcFirst burnin) _
  | cache type events =>
    cases hty : matchArg type.toLower cacheTypes with
    | error c =>
      simp only [eventsOf, hty] at hp
      exact absurd hp not_passes_nil
    | ok ty =>
      cases hev : matchArg events.toLower cacheEvents with
      | error c =>
        simp only [eventsOf, hty, hev] at hp
        exact absurd hp not_passes_nil
      | ok ev =>
        obtain ⟨name, heq⟩ := systemCache_eq (P := logged P (eventsOf (.cache type events)).length)
          hty hev hr
        rw [Api.measure, heq]
        exact (availLookup_emits hp _).bindEnds fun _ =>
          (systemEvent_ends P hp he gcFirst burnin).bindQuiet (cacheTail_silent _ name)
  | _ => cases hf

theorem measure_refused {f : Wrapper} (hf : rateOf f = none) (h : ¬ Admitted f A) {e : Prom σ}
    (he : NotLang e) (gcFirst burnin : Bool) :
    ∃ k, (callLog σ).Ends (Table A)
      (measure (logged P (eventsOf f).length) f (some (observed e)) gcFirst burnin) (pairs k) := by
  have hg := (observed_ends he (Table A)).grows
  cases f with
  | event events =>
    have hp : ¬ Passes A events := fun hp => h ⟨hp, id⟩
    exact ⟨_, (systemEvent_refused P hg hp gcFirst burnin).map _⟩
  | ipcmCache type level =>
    have hp : ¬ Passes A (ipcmCacheOpts type level) := fun hp => h ⟨hp, id⟩
    exact ⟨_, (systemEvent_refused P hg hp gcFirst burnin).map _⟩
  | cpuormem =>
    have hp : ¬ Passes A (eventsOf .cpuormem) := fun hp => h ⟨hp, id⟩
    exact ⟨0, availLookup_refuses hp none fun _ => (systemEvent_grows P hg _ gcFirst true).bind
      fun ret => (cpuormemTail_silent ret).mono fun _ _ => Logging.grows_of_eq⟩
  | idle events =>
    have hp : ¬ Passes A (eventsOf (.idle events)) := fun hp => h ⟨hp, id⟩
    refine ⟨0, ?_⟩
    cases hev : matchArg events.toLower idleEvents with
    | error c =>
      simp only [Api.measure, systemIdle, hev]
      exact .quiet fun _ => rfl
    | ok ev =>
      simp only [Api.measure, systemIdle, hev, liftR_ok_bind]
      simp only [eventsOf, hev] at hp ⊢
      exact .map (availLookup_refuses hp _ fun _ => systemEvent_grows P hg _ gcFirst burnin) _
  | cache type events =>
    refine ⟨0, ?_⟩
    cases hty : matchArg type.toLower cacheTypes with
    | error c =>
      simp only [Api.measure, systemCache, hty]
      exact .quiet fun _ => rfl
    | ok ty =>
      cases hev : matchArg events.toLower cacheEvents with
      | error c =>
        simp only [Api.measure, systemCache, hty, hev]
        exact .quiet fun _ => rfl
      | ok ev =>
        by_cases hr : AccessRatio (.cache type events)
        · obtain ⟨hty', ev', hev', hm⟩ := hr
          simp only [Api.measure, systemCache, hty', hev', liftR_ok_bind, hm, and_self, if_true]
          exact .quiet fun _ => rfl
        · have hp : ¬ Passes A (eventsOf (.cache type events)) := fun hp => h ⟨hp, hr⟩
          obtain ⟨name, heq⟩ := systemCache_eq
            (P := logged P (eventsOf (.cache type events)).length) hty hev hr
          rw [Api.measure, heq]
          exact availLookup_refuses hp _ fun _ => (systemEvent_grows P hg _ gcFirst burnin).bind
            fun ret => (cacheTail_silent _ name ret).mono fun _ _ => Logging.grows_of_eq
  | _ => cases hf

/-! ## The result -/

/-- The world after a watched call from `w`. -/
def watched (f : Wrapper) (e : Prom σ) (gcFirst burnin : Bool) (w : World σ) :
    World (σ × List LogEntry) :=
  final ((measure (logged P (eventsOf f).length) f (some (observed e)) gcFirst burnin).run w.begun)

/-- A call of a function built on `system.event` in which every library call succeeds: if it is one
that measures, the counters are started and stopped in turn, and the expression is evaluated once,
between the last start and the last stop; if not, they are started and stopped in turn, and the
expression is not evaluated. -/
theorem measure_trace {f : Wrapper} (hf : rateOf f = none) {e : Prom σ} (he : NotLang e)
    (gcFirst burnin : Bool) (w : World σ)
    (hclean : (callLog σ).Clean (watched P f e gcFirst burnin w)) :
    (Admitted f w.avail → (callLog σ).marks (watched P f e gcFirst burnin w) =
      pairs (if forwarded f burnin then 3 else 1) ++ measuring) ∧
    (¬ Admitted f w.avail → ∃ k,
      (callLog σ).marks (watched P f e gcFirst burnin w) = pairs k) := by
  have htable : Table w.avail w.begun := rfl
  constructor
  · intro h
    exact (measure_admitted P hf h he gcFirst burnin).run w.begun htable hclean
  · intro h
    obtain ⟨k, hends⟩ := measure_refused P hf h he gcFirst burnin
    exact ⟨k, hends.run w.begun htable hclean⟩

end

/-! ## Two calls for a ratio -/

theorem notLang_touch : NotLang touch := by
  intro w v w' h
  cases h
  exact ⟨_, rfl⟩

theorem measure_trace_l1 :
    (callLog Nat).marks (watched l1Library (.cache "miss" "l1.ratio") touch true true l1World) =
      pairs 3 ++ measuring := by
  have hclean : (callLog Nat).Clean
      (watched l1Library (.cache "miss" "l1.ratio") touch true true l1World) := by
    show ∀ entry ∈ (watched l1Library _ _ _ _ _).lib.2, entry.ok = true
    decide +kernel
  have hp : Passes l1World.avail (eventsOf (.cache "miss" "l1.ratio")) := by decide +kernel
  have hr : ¬ AccessRatio (.cache "miss" "l1.ratio") := by
    rintro ⟨h, -⟩
    revert h
    decide +kernel
  exact (measure_trace l1Library rfl notLang_touch true true l1World hclean).1 ⟨hp, hr⟩

/-- The ratio of the accesses is returned without a measurement: no start, no evaluation, no
stop. -/
theorem accessRatio_unmeasured :
    (callLog Nat).Clean
      (watched l1Library (.cache "access" "l1.ratio") touch true true l1World) ∧
    (callLog Nat).marks
      (watched l1Library (.cache "access" "l1.ratio") touch true true l1World) = [] ∧
    ∃ w', (measure (logged l1Library 2) (.cache "access" "l1.ratio") (some (observed touch))
      true true).run l1World.begun = .ok (.counts [("L1 cache access ratio", 1)]) w' := by
  refine ⟨?_, ?_, exists_of_returns (by decide +kernel)⟩
  · show ∀ entry ∈ (watched l1Library _ _ _ _ _).lib.2, entry.ok = true
    decide +kernel
  · unfold Logging.marks
    decide +kernel

end PbdPapi.Proof
