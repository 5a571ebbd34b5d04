import PbdPapi.Proof.Isolation

/-!
# The labels of `papi.stop`

`papi.stop(B)` names the values of the session with the descriptions of its own argument, position
by position. `papiStop_labels`: for each kind of session and each vector `B`, when every stop gives
each event of the session once, under its own description.
-/

set_option autoImplicit false

namespace PbdPapi.Proof

open Exec C Api Hl

section
variable (H : Hw)

/-! ## Kinds of sessions -/

/-- How a session came about. -/
inductive Origin where
  | stopped
  /-- `papi.start(A)`, then work. -/
  | started (events : List String)
  /-- A rate call, then anything that leaves its session running. -/
  | rate (r : Rate)

/-- A world with a session of a kind. What happens after `papi.start` can change R's state and the
clock; a start of the library finds no events left in its `EventSet` (`runCalls_isolates`). -/
def InSession (w : World State) : Origin → Prop
  | .stopped => Stopped w
  | .started events => ∃ w₀ w₁ ret d, Ready w₀.lib ∧
      (papiStart (Hl.papi H) events).run w₀ = .ok ret w₁ ∧
      w.lib = { w₁.lib with now := w₁.lib.now.add d }
  | .rate r => w.lib.info.running = mode r

/-- The distinct events of a vector, in the order of their first occurrence. -/
def distinct (events : List String) : List Int :=
  (((hlTables H).codes events).getD []).eraseDups

/-- The description of an event. -/
def desc (code : Int) : String := ((H.info code).map (·.longDescr)).getD ""

/-- An event of the running session under its own description. -/
def labelled (w : World State) (code : Int) : String × Rat :=
  (desc H code, (((w.lib.now.count code : Int) - w.lib.base.count code : Int) : Rat))

/-- `papi.stop(B)` in `w` is an error, or the session was started by `papi.start(A)` and the list
has exactly one element for each distinct event of `A`, its value under its own description. -/
def StopOk (origin : Origin) (events : List String) (w : World State) : Prop :=
  ∀ ret w', (papiStop (Hl.papi H) events).run w = .ok ret w' →
    ∃ A l, origin = .started A ∧ ret = .list l ∧ l.Perm ((distinct H A).map (labelled H w))

/-- The condition: no session, or one of `papi.start(A)` with more events than `B`, or with the
same descriptions in the same order. -/
def Agrees (events : List String) : Origin → Prop
  | .stopped => True
  | .started A => (distinct H events).length < (distinct H A).length ∨
      (distinct H events).map (desc H) = (distinct H A).map (desc H)
  | .rate _ => False

variable {H}

/-! ## What a stop returns -/

theorem info_of_codes {events : List String} {codes : List Int}
    (h : (hlTables H).codes events = some codes) {code : Int} (hc : code ∈ codes) :
    (H.info code).isSome := by
  have hm : some code ∈ events.map H.codeOf := by
    have := (hlTables H).codes_eq_some.1 h
    change events.map H.codeOf = _ at this
    rw [this]
    exact List.mem_map_of_mem hc
  obtain ⟨name, -, hname⟩ := List.mem_map.1 hm
  exact H.info_codeOf name code hname

/-- The list is the descriptions of the codes paired with the values. -/
theorem vars_eq {codes values : List Int} (h : ∀ c ∈ codes, (H.info c).isSome) :
    (hlTables H).vars (codes.zip values) =
      some ((codes.map (desc H)).zip (values.map fun v : Int => (v : Rat))) :=
  (hlTables H).vars_zip values h

theorem papiStop_hl {events : List String} {codes : List Int}
    (hc : (hlTables H).codes events = some codes) (w : World State) :
    ∃ w₁, (papiStop (Hl.papi H) events).run w =
      if (stopCounters codes.eraseDups.length w.lib).1.1 = papiOK then
        .ok (.list ((codes.eraseDups.map (desc H)).zip
          ((Tables.stopValues codes.eraseDups.length w
            (stopCounters codes.eraseDups.length w.lib).1.2).map fun v : Int => (v : Rat)))) w₁
      else .error stopError w₁ := by
  obtain ⟨w₁, hr, -, -⟩ := (hlTables H).papiStop_run hc w
  refine ⟨w₁, ?_⟩
  rw [hr]
  have hinfo : ∀ c ∈ codes.eraseDups, (H.info c).isSome := fun c hmem =>
    info_of_codes hc (List.mem_eraseDups.1 hmem)
  by_cases h : (stopCounters codes.eraseDups.length w.lib).1.1 = papiOK
  · have h' : ((Hl.papi H).stopCounters codes.eraseDups.length w.lib).1.1 = papiOK := h
    rw [if_pos h]
    unfold Tables.stopList
    rw [if_pos h', vars_eq hinfo]
    rfl
  · have h' : ¬ ((Hl.papi H).stopCounters codes.eraseDups.length w.lib).1.1 = papiOK := h
    rw [if_neg h]
    unfold Tables.stopList
    rw [if_neg h']

theorem stopValues_length (n : Nat) (w : World State) {written : List Int}
    (h : written.length ≤ n) : (Tables.stopValues n w written).length = n := by
  simp only [Tables.stopValues, overwrite, List.length_append, List.length_drop, List.length_map,
    List.length_range]
  omega

/-! ## Sessions of `papi.start` -/

theorem inSession_start {A : List String} {w : World State} (h : InSession H w (.started A)) :
    w.lib.info.running = .start ∧ w.lib.info.numEvts = (distinct H A).length ∧
      w.lib.info.eventSet = distinct H A := by
  obtain ⟨w₀, w₁, ret, d, hready, hrun, hl⟩ := h
  obtain ⟨w₂, -, ⟨c, hr, -⟩ | ⟨-, c, hr, -⟩ | ⟨h₀, codes, hc, hr, hl₂⟩⟩ := papiStart_cases H A w₀
  · rw [hr] at hrun
    cases hrun
  · rw [hr] at hrun
    cases hrun
  · rw [hr] at hrun
    cases hrun
    have hd : distinct H A = codes.eraseDups := by simp [distinct, hc]
    rw [hl, hl₂, hd]
    exact ⟨rfl, rfl, by simp [started, hready h₀]⟩

/-- After the same start, any work may have been done. -/
theorem inSession_work {A : List String} {w : World State} (h : InSession H w (.started A))
    (n : Int → Nat) : ∃ w', InSession H w' (.started A) ∧
      ∀ c, (w'.lib.now.count c : Int) - w'.lib.base.count c = n c := by
  obtain ⟨w₀, w₁, ret, d, hready, hrun, -⟩ := h
  refine ⟨{ w₁ with lib := { w₁.lib with now := w₁.lib.now.add ⟨n, 0, 0⟩ } },
    ⟨w₀, w₁, ret, ⟨n, 0, 0⟩, hready, hrun, rfl⟩, fun c => ?_⟩
  have hbase : w₁.lib.base = w₁.lib.now := by
    obtain ⟨w₂, -, ⟨c, hr, -⟩ | ⟨-, c, hr, -⟩ | ⟨-, codes, -, hr, hl₂⟩⟩ := papiStart_cases H A w₀
    · rw [hr] at hrun
      cases hrun
    · rw [hr] at hrun
      cases hrun
    · rw [hr] at hrun
      cases hrun
      rw [hl₂]
      rfl
  simp [Clock.add, hbase]

/-- A stop with at least as many events as the session has. -/
theorem papiStop_started {A B : List String} {codes : List Int}
    (hB : (hlTables H).codes B = some codes) {w : World State} (h : InSession H w (.started A))
    (hle : (distinct H A).length ≤ (distinct H B).length) :
    ∃ w', (papiStop (Hl.papi H) B).run w = .ok (.list (((distinct H B).map (desc H)).zip
      ((Tables.stopValues (distinct H B).length w ((distinct H A).map fun c =>
        (w.lib.now.count c : Int) - w.lib.base.count c)).map fun v : Int => (v : Rat)))) w' := by
  obtain ⟨hrun, hnum, hset⟩ := inSession_start h
  have hd : distinct H B = codes.eraseDups := by simp [distinct, hB]
  obtain ⟨w', hr⟩ := papiStop_hl hB w
  refine ⟨w', ?_⟩
  rw [hd] at hle ⊢
  rw [hr, stopCounters_start hrun (by rw [hnum]; exact hle), if_pos rfl]
  simp only [counters, hset]

/-! ## Labels -/

/-- Without a session every stop is an error. -/
theorem stopOk_stopped {B : List String} {codes : List Int}
    (hB : (hlTables H).codes B = some codes) {w : World State} (h : InSession H w .stopped) :
    StopOk H .stopped B w := by
  intro ret w₁ hret
  obtain ⟨w₂, hr⟩ := papiStop_hl hB w
  rw [hr, stopCounters_stop h, if_neg papiEnotrun_ne] at hret
  cases hret

/-- A stop of a rate session returns a list of what `malloc` left in the array. -/
theorem not_stopOk_rate {B : List String} {codes : List Int}
    (hB : (hlTables H).codes B = some codes) {w : World State} {r : Rate}
    (h : InSession H w (.rate r)) : ¬ StopOk H (.rate r) B w := by
  intro hok
  have hrun : w.lib.info.running = mode r := h
  have hne : w.lib.info.running ≠ .stop := by
    rw [hrun]
    exact mode_ne_stop r
  have hne' : w.lib.info.running ≠ .start := by
    rw [hrun]
    exact mode_ne_start r
  obtain ⟨w₂, hr⟩ := papiStop_hl hB w
  rw [stopCounters_rate hne hne', if_pos rfl] at hr
  obtain ⟨A, -, ho, -⟩ := hok _ _ hr
  cases ho

/-- A stop with fewer events than the session has is an error. -/
theorem stopOk_short {A B : List String} {codes : List Int}
    (hB : (hlTables H).codes B = some codes) {w : World State} (h : InSession H w (.started A))
    (hlt : (distinct H B).length < (distinct H A).length) : StopOk H (.started A) B w := by
  intro ret w₁ hret
  have hd : distinct H B = codes.eraseDups := by simp [distinct, hB]
  obtain ⟨hrun, hnum, -⟩ := inSession_start h
  obtain ⟨w₂, hr⟩ := papiStop_hl hB w
  rw [← hd, stopCounters_short hrun (by rw [hnum]; exact hlt), if_neg papiEinval_ne] at hr
  rw [hr] at hret
  cases hret

/-- A stop with the descriptions of the session in its order labels every value right. -/
theorem stopOk_same {A B : List String} {codes : List Int}
    (hB : (hlTables H).codes B = some codes) {w : World State} (h : InSession H w (.started A))
    (heq : (distinct H B).map (desc H) = (distinct H A).map (desc H)) :
    StopOk H (.started A) B w := by
  intro ret w₁ hret
  have hlen : (distinct H B).length = (distinct H A).length := by
    simpa using congrArg List.length heq
  obtain ⟨w₂, hr⟩ := papiStop_started hB h hlen.ge
  rw [hr] at hret
  cases hret
  have hfull := Tables.stopValues_full w ((distinct H A).map fun c =>
    (w.lib.now.count c : Int) - w.lib.base.count c)
  rw [List.length_map, ← hlen] at hfull
  refine ⟨A, _, rfl, rfl, List.Perm.of_eq ?_⟩
  rw [hfull, heq, List.map_map, List.zip_map']
  rfl

/-- If every stop labels the values right, the descriptions are those of the session, in its
order: work that tells the events of the session apart shows it. -/
theorem agrees_of_stopOk {A B : List String} {codes : List Int}
    (hB : (hlTables H).codes B = some codes) {w : World State} (hw : InSession H w (.started A))
    (hle : (distinct H A).length ≤ (distinct H B).length)
    (h : ∀ w, InSession H w (.started A) → StopOk H (.started A) B w) :
    (distinct H B).map (desc H) = (distinct H A).map (desc H) := by
  obtain ⟨w', hw', hn⟩ := inSession_work hw fun c => (distinct H A).idxOf c
  obtain ⟨w₂, hr⟩ := papiStop_started hB hw' hle
  obtain ⟨A', l, ho, hl, hperm⟩ := h w' hw' _ _ hr
  cases ho
  cases hl
  simp only [hn] at hperm
  have hlen : (distinct H B).length = (distinct H A).length := by
    have := hperm.length_eq
    rwa [List.length_zip, List.length_map, List.length_map, List.length_map,
      stopValues_length _ _ (by simpa using hle), Nat.min_self] at this
  have hfull := Tables.stopValues_full w'
    ((distinct H A).map fun c => ((distinct H A).idxOf c : Int))
  rw [List.length_map, ← hlen] at hfull
  rw [hfull] at hperm
  refine List.ext_getElem (by simpa using hlen) ?_
  intro i hi hi'
  rw [List.length_map] at hi hi'
  have hmem : (desc H (distinct H B)[i], (((distinct H A).idxOf (distinct H A)[i] : Int) : Rat))
      ∈ ((distinct H B).map (desc H)).zip
        (((distinct H A).map fun c => ((distinct H A).idxOf c : Int)).map
          fun v : Int => (v : Rat)) :=
    List.mem_iff_getElem.2 ⟨i, by simp [hi, hi'], by simp⟩
  obtain ⟨c, hc, hcl⟩ := List.mem_map.1 (hperm.mem_iff.1 hmem)
  simp only [labelled, hn, Prod.mk.injEq, Rat.intCast_inj, Int.natCast_inj] at hcl
  have hci : c = (distinct H A)[i] := by
    have h₁ := List.getElem_idxOf (List.idxOf_lt_length_iff.2 hc)
    have h₂ := List.getElem_idxOf (List.idxOf_lt_length_iff.2 (List.getElem_mem hi'))
    rw [← h₁, ← h₂]
    simp only [hcl.2]
  rw [List.getElem_map, List.getElem_map, ← hcl.1, hci]

/-- For every kind of session that occurs and every vector of recognised names: each stop labels
the values right exactly if the vector agrees with the session. A count that is to reach R's double
unchanged is below `2 ^ 53`. -/
theorem papiStop_labels {origin : Origin} {B : List String} {codes : List Int}
    (hB : (hlTables H).codes B = some codes) (hk : ∃ w, InSession H w origin) :
    (∀ w, InSession H w origin → StopOk H origin B w) ↔ Agrees H B origin := by
  obtain ⟨w, hw⟩ := hk
  cases origin with
  | stopped => exact iff_of_true (fun w hw => stopOk_stopped hB hw) trivial
  | rate r => exact iff_of_false (fun h => not_stopOk_rate hB hw (h w hw)) id
  | started A =>
    constructor
    · intro h
      by_cases hlt : (distinct H B).length < (distinct H A).length
      · exact .inl hlt
      · exact .inr (agrees_of_stopOk hB hw (Nat.not_lt.1 hlt) h)
    · rintro (hlt | heq) w hw
      · exact stopOk_short hB hw hlt
      · exact stopOk_same hB hw heq

end

/-! ## A permutation -/

/-- The world after `papi.start(c("PAPI_FP_OPS", "PAPI_TOT_CYC"))` and five operations. -/
def startedWorld : World State :=
  let w := final ((papiStart (Hl.papi smallHw) ["PAPI_FP_OPS", "PAPI_TOT_CYC"]).run smallWorld)
  { w with lib := { w.lib with now := w.lib.now.add (flopsClock 5) } }

theorem startedWorld_session :
    InSession smallHw startedWorld (.started ["PAPI_FP_OPS", "PAPI_TOT_CYC"]) :=
  ⟨smallWorld, _, .int [0], flopsClock 5, fun _ => rfl, rfl, rfl⟩

theorem papiStop_labels_swapped :
    (∀ w, InSession smallHw w (.started ["PAPI_FP_OPS", "PAPI_TOT_CYC"]) →
      StopOk smallHw (.started ["PAPI_FP_OPS", "PAPI_TOT_CYC"]) ["PAPI_TOT_CYC", "PAPI_FP_OPS"] w) ↔
    Agrees smallHw ["PAPI_TOT_CYC", "PAPI_FP_OPS"] (.started ["PAPI_FP_OPS", "PAPI_TOT_CYC"]) :=
  papiStop_labels (show (hlTables smallHw).codes ["PAPI_TOT_CYC", "PAPI_FP_OPS"] =
    some [papiTotCyc, papiFpOps] by decide) ⟨_, startedWorld_session⟩

/-- Stopping with the same events in another order swaps their counts. -/
theorem startedWorld_mislabelled :
    InSession smallHw startedWorld (.started ["PAPI_FP_OPS", "PAPI_TOT_CYC"]) ∧
    ¬ StopOk smallHw (.started ["PAPI_FP_OPS", "PAPI_TOT_CYC"]) ["PAPI_TOT_CYC", "PAPI_FP_OPS"]
      startedWorld := by
  refine ⟨startedWorld_session, fun h => ?_⟩
  have hB : (hlTables smallHw).codes ["PAPI_TOT_CYC", "PAPI_FP_OPS"] =
      some [papiTotCyc, papiFpOps] := by decide
  obtain ⟨w', hr⟩ := papiStop_started hB startedWorld_session (by decide)
  obtain ⟨A, l, ho, hl, hperm⟩ := h _ _ hr
  cases ho
  cases hl
  revert hperm
  decide +kernel

end PbdPapi.Proof
