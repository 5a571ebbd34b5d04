import PbdPapi.Proof.Burnin
import PbdPapi.Proof.Enum
import PbdPapi.Proof.Shim

/-!
# `system.event` over the Intel PCM shim

A value goes from an event's name to its code, through the shim's block to the difference function
of the code, and back to the description of the code. `IpcmEvent` is what each event stands for;
`session_shim`: a session of `papi.start` and `papi.stop` reports the distinct events in order,
each with its own difference; `systemEvent_shim`: so does `system.event`, less the baseline.
-/

set_option autoImplicit false

namespace PbdPapi.Proof

open Exec C Api Ipcm

/-! ## The events -/

/-- The events of the shim. -/
inductive IpcmEvent where
  | l2Tcm
  | l2Tch
  | insRet
  | cyc
  | l3TchNs
  | l3TchS
  | l3Tch
  | l3Tcm
deriving DecidableEq, Repr

namespace IpcmEvent

def name : IpcmEvent → String
  | l2Tcm => "IPCM_L2_TCM"
  | l2Tch => "IPCM_L2_TCH"
  | insRet => "IPCM_INS_RET"
  | cyc => "IPCM_CYC"
  | l3TchNs => "IPCM_L3_TCH_NS"
  | l3TchS => "IPCM_L3_TCH_S"
  | l3Tch => "IPCM_L3_TCH"
  | l3Tcm => "IPCM_L3_TCM"

/-- What the event counts. -/
def fn : IpcmEvent → EventFn
  | l2Tcm => .getL2CacheMisses
  | l2Tch => .getL2CacheHits
  | insRet => .getInstructionsRetired
  | cyc => .getCycles
  | l3TchNs => .getL3CacheHitsNoSnoop
  | l3TchS => .getL3CacheHitsSnoop
  | l3Tch => .getL3CacheHits
  | l3Tcm => .getL3CacheMisses

def desc : IpcmEvent → String
  | l2Tcm => "L2 cache misses"
  | l2Tch => "L2 cache hits"
  | insRet => "Instructions retired"
  | cyc => "Cycles used"
  | l3TchNs => "L3 cache hits without snooping on L2 cache"
  | l3TchS => "L3 cache hits with snooping on L2 cache"
  | l3Tch => "L3 cache hits"
  | l3Tcm => "L3 cache misses"

def code : IpcmEvent → Int
  | l2Tcm => ipcmL2Tcm
  | l2Tch => ipcmL2Tch
  | insRet => ipcmInsRet
  | cyc => ipcmCyc
  | l3TchNs => ipcmL3TchNs
  | l3TchS => ipcmL3TchS
  | l3Tch => ipcmL3Tch
  | l3Tcm => ipcmL3Tcm

theorem code_injective {e e' : IpcmEvent} (h : e.code = e'.code) : e = e' := by
  revert h
  cases e <;> cases e' <;> decide

/-- The tables of the shim agree on each event. -/
theorem eventfindIname_name (e : IpcmEvent) :
    eventfindIname e.name = some ⟨e.code, e.name, e.desc⟩ := by
  cases e <;> decide

theorem eventfindId_code (e : IpcmEvent) : eventfindId e.code = some ⟨e.code, e.name, e.desc⟩ := by
  cases e <;> decide

theorem eventList_code (e : IpcmEvent) : ∃ flag, eventList[e.code.toNat]? = some (e.fn, flag) := by
  cases e <;> exact ⟨_, rfl⟩

end IpcmEvent

section
variable (M : Pcm)

/-- The event is available on the machine. -/
def Available (e : IpcmEvent) : Prop := 0 < eventAvail M e.code

/-- The count of an event between the readings `t` and `t + 1`. -/
def count (t : Nat) (e : IpcmEvent) : Nat := M.diff e.fn (M.snaps t) (M.snaps (t + 1))

variable {M}

/-- What the shim stores for an available event is its difference. -/
theorem diffVal_code {e : IpcmEvent} (ha : Available M e)
    (hd : ∀ f a b, M.diff f a b < 2 ^ 53) (a b : M.Snap) :
    diffVal M a b e.code = M.diff e.fn a b := by
  obtain ⟨flag, hl⟩ := e.eventList_code
  have hne : eventAvail M e.code ≠ 0 := by
    unfold Available at ha
    omega
  unfold diffVal
  rw [if_pos hne, hl]
  exact toLongLong_eq ((hd e.fn a b).trans (by decide))

/-! ## The availability table -/

/-- The row of an event in the table that `papi.avail.internal` stores. -/
def shimRow (M : Pcm) (m : EventMap) : AvailRow :=
  ⟨m.iname, decide (0 < eventAvail M m.id), m.oname⟩

def shimTable (M : Pcm) : List AvailRow := eventmap.map (shimRow M)

/-- Loading the package over an initialised shim stores the table. -/
theorem papiAvailInternal_shim {w : World (State M)} (hi : w.lib.isInit ≠ 0) {fuel : Nat}
    (hf : 8 ≤ fuel) :
    ∃ w', (papiAvailInternal (Ipcm.papi M) fuel).run w = .ok true w' ∧
      w'.avail = shimTable M := by
  have hinit : ((Ipcm.papi M).isInitialized w.lib).1 ≠ 0 := hi
  obtain ⟨w₁, hr⟩ : ∃ w₁, (papiInitR (Ipcm.papi M)).run w = .ok () w₁ := by
    simp [papiInitR, papiInit, hinit]
  exact (shimBackend M).papiAvailInternal_table hf hr

/-- An available event is one that the table supports. -/
theorem supported_shim {e : IpcmEvent} (ha : Available M e) : Supported (shimTable M) e.name := by
  refine ⟨shimRow M ⟨e.code, e.name, e.desc⟩, ?_, rfl, decide_eq_true ha⟩
  exact List.mem_map_of_mem (List.mem_of_find?_eq_some e.eventfindIname_name)

/-- The gate lets available events through. -/
theorem availLookup_shim {events : List IpcmEvent} (hne : events ≠ [])
    (ha : ∀ e ∈ events, Available M e) {w : World (State M)} (hw : w.avail = shimTable M) :
    (availLookup (events.map (·.name)) none).run w = .ok () w := by
  have hn : ((shimTable M).map (·.event)).Nodup := (shimBackend M).distinct_table
  have hne' : events.map (·.name) ≠ [] := mt List.map_eq_nil_iff.1 hne
  have hsup : ∀ n ∈ events.map (·.name), Supported (shimTable M) n := by
    intro n hn
    obtain ⟨e, he, rfl⟩ := List.mem_map.1 hn
    exact supported_shim (ha e he)
  have hknown : ∀ n ∈ events.map (·.name), Known (shimTable M) n := by
    intro n hn
    obtain ⟨r, hr, he, -⟩ := hsup n hn
    exact ⟨r, hr, he⟩
  rw [availLookup_run, hw, papiAvailLookup_known hn hne' hknown, if_pos hsup]

/-! ## The block of a session -/

/-- The session of `codes`: the block holds the codes, and one reading was taken, as the `t`-th. -/
structure Session (codes : List Int) (t : Nat) (s : State M) : Prop where
  block : ∃ b, s.mem.val = some b ∧ ∀ i (h : i < codes.length), (b.cell i).code = codes[i]
  start : s.start = M.snaps t
  taken : s.taken = t + 1

theorem startCounters_session (codes : List Int) (s : State M) :
    Session codes s.taken ((Ipcm.papi M).startCounters codes s).2 where
  block := by
    show ∃ b, (Ipcm.startCounters (codes.getD · 0) codes.length s).2.mem.val = some b ∧ _
    simp only [Ipcm.startCounters, ipcmGetEvents, loop_eq, Option.map_some, Option.some.injEq,
      exists_eq_left', Int.toNat_natCast]
    intro i hi
    simp [hi]
  start := rfl
  taken := rfl

/-- A stop with the count of the session reads the difference of every code, in order. -/
theorem stopCounters_session {codes : List Int} {t : Nat} {s : State M} (h : Session codes t s) :
    ((Ipcm.papi M).stopCounters codes.length s).1 =
        (papiOK, codes.map (diffVal M (M.snaps t) (M.snaps (t + 1)))) ∧
      ((Ipcm.papi M).stopCounters codes.length s).2.taken = t + 2 := by
  obtain ⟨b, hb, hcode⟩ := h.block
  refine ⟨?_, ?_⟩
  · show (Ipcm.stopCounters codes.length s).1 = _
    simp only [Ipcm.stopCounters, ipcmEndEvents, Mem.readVals, loop_eq, hb, Option.map_some,
      Int.toNat_natCast, Mem.cell, h.start, h.taken, Prod.mk.injEq, true_and]
    refine List.ext_getElem (by simp) ?_
    intro i h₁ h₂
    have hi : i < codes.length := by simpa using h₁
    simp [hi, hcode i hi]
  · show s.taken + 1 = t + 2
    rw [h.taken]

/-! ## A session of the package -/

/-- The lookups of the shim. -/
def shimTables (M : Pcm) : Tables (Ipcm.papi M) where
  ncounters := ipcmNullEvent
  codeOf name := (eventfindIname name).map (·.id)
  infoOf code := (eventfindId code).map fun m => ⟨eventAvail M code, m.iname, m.oname⟩
  num _ := rfl
  name n c s := by
    simp only [Ipcm.papi]
    cases eventfindIname n <;> rfl
  info c ev s := by
    simp only [Ipcm.papi]
    cases eventfindId c <;> rfl

theorem codes_shim (events : List IpcmEvent) :
    (shimTables M).codes (events.map (·.name)) = some (events.map (·.code)) := by
  rw [(shimTables M).codes_eq_some, List.map_map, List.map_map]
  apply List.map_congr_left
  intro e _
  simp [shimTables, e.eventfindIname_name]

theorem desc_shim (e : IpcmEvent) : (shimTables M).desc e.code = e.desc := by
  simp [Tables.desc, shimTables, e.eventfindId_code]

theorem eraseDups_code (events : List IpcmEvent) :
    (events.map (·.code)).eraseDups = events.eraseDups.map (·.code) :=
  List.eraseDups_map fun _ _ _ _ => IpcmEvent.code_injective

/-- What a session of `events` from the `t`-th reading on reports. -/
def shimReading (M : Pcm) (events : List IpcmEvent) (t : Nat) : Measurement :=
  events.eraseDups.map fun e => (e.desc, (count M t e : Rat))

/-- The list of a stop that ends the session of `events`. -/
theorem stopList_shim {events : List IpcmEvent} (ha : ∀ e ∈ events, Available M e)
    (hd : ∀ f a b, M.diff f a b < 2 ^ 53) {t : Nat} {w : World (State M)}
    (h : Session (events.map (·.code)).eraseDups t w.lib) :
    (shimTables M).stopList (events.map (·.code)).eraseDups w =
      some (shimReading M events t) := by
  have hinfo : ∀ c ∈ (events.map (·.code)).eraseDups, ((shimTables M).infoOf c).isSome := by
    intro c hc
    obtain ⟨e, -, rfl⟩ := List.mem_map.1 (List.mem_eraseDups.1 hc)
    simp [shimTables, e.eventfindId_code]
  have hvalues : (events.map (·.code)).eraseDups.map (diffVal M (M.snaps t) (M.snaps (t + 1))) =
      events.eraseDups.map fun e => (count M t e : Int) := by
    rw [eraseDups_code, List.map_map]
    apply List.map_congr_left
    intro e he
    exact diffVal_code (ha e (List.mem_eraseDups.1 he)) hd _ _
  have hlen : (events.map (·.code)).eraseDups.length =
      (events.eraseDups.map fun e => (count M t e : Int)).length := by
    rw [eraseDups_code, List.length_map, List.length_map]
  unfold Tables.stopList
  rw [(stopCounters_session h).1, if_pos rfl, hvalues]
  dsimp only
  rw [hlen, Tables.stopValues_full, (shimTables M).vars_zip _ hinfo, eraseDups_code, List.map_map,
    List.map_map, shimReading, List.zip_map']
  refine congrArg some (List.map_congr_left fun e _ => ?_)
  simp [desc_shim]

/-- What `papi.start` accepts. -/
theorem enough_of_start {events : List String} {w w' : World (State M)} {ret : Sexp}
    (h : (papiStart (Ipcm.papi M) events).run w = .ok ret w') :
    (shimTables M).Enough events.length := by
  by_contra hn
  obtain ⟨c, w₁, hr, -⟩ := (shimTables M).papiStart_refused (.inr hn) w
  rw [hr] at h
  cases h

/-- The expression ends without a simple error, in its value or raised, and leaves the library and
the table alone. -/
def Undisturbing (expr : Prom (State M)) : Prop :=
  ∀ w, ∃ o w', (tryIdentity (reval expr)).run w = .ok o w' ∧ w'.lib = w.lib ∧
    w'.avail = w.avail ∧ o.inherits "simpleError" = false

theorem undisturbing_null : Undisturbing (nullProm : Prom (State M)) :=
  fun w => ⟨.null, w, rfl, rfl, rfl, by decide⟩

section
variable {events : List IpcmEvent} (hne : events ≠ []) (ha : ∀ e ∈ events, Available M e)
  (hd : ∀ f a b, M.diff f a b < 2 ^ 53) (hn : (shimTables M).Enough events.length)
include ha hd hn

/-- A session around a computation that leaves the library alone reports the counts between its
two readings. -/
theorem session_shim (w : World (State M)) :
    ∃ w₁, (papiStart (Ipcm.papi M) (events.map (·.name))).run w = .ok (.int [0]) w₁ ∧
      w₁.avail = w.avail ∧
      ∀ w₂, w₂.lib = w₁.lib →
        ∃ w₃, (papiStop (Ipcm.papi M) (events.map (·.name))).run w₂ =
            .ok (.list (shimReading M events w.lib.taken)) w₃ ∧
          w₃.lib.taken = w.lib.taken + 2 ∧ w₃.avail = w₂.avail := by
  have hn' : (shimTables M).Enough (events.map (·.name)).length := by rwa [List.length_map]
  obtain ⟨w₁, hr, hs, -, hl⟩ := (shimTables M).papiStart_run (codes_shim events) hn' w
  refine ⟨w₁, hr, hs.avail, fun w₂ hw₂ => ?_⟩
  have hsess : Session (events.map (·.code)).eraseDups w.lib.taken w₂.lib := by
    rw [hw₂, hl]
    exact startCounters_session _ _
  obtain ⟨w₃, hr₃, hs₃, hl₃⟩ := (shimTables M).papiStop_run (codes_shim events) w₂
  rw [stopList_shim ha hd hsess] at hr₃
  exact ⟨w₃, hr₃, hl₃ ▸ (stopCounters_session hsess).2, hs₃.avail⟩

theorem warmUp_shim (w : World (State M)) :
    ∃ w₁, (warmUp (Ipcm.papi M) (events.map (·.name))).run w = .ok () w₁ ∧
      w₁.lib.taken = w.lib.taken + 2 ∧ w₁.avail = w.avail := by
  obtain ⟨w₁, hr₁, ha₁, hstop⟩ := session_shim ha hd hn w
  obtain ⟨w₂, hr₂, ht₂, ha₂⟩ := hstop w₁ rfl
  refine ⟨w₂, ?_, ht₂, ha₂.trans ha₁⟩
  unfold warmUp
  rw [bind_of_ok hr₁, bind_of_ok hr₂]
  rfl

include hne

/-- A reading of an expression between the readings `t` and `t + 1` of PCM. -/
theorem eventReading_shim {expr : Prom (State M)} (he : Undisturbing expr)
    {w : World (State M)} (hw : w.avail = shimTable M) :
    ∃ w₁, (eventReading (Ipcm.papi M) expr (events.map (·.name))).run w =
        .ok (shimReading M events w.lib.taken) w₁ ∧
      w₁.lib.taken = w.lib.taken + 2 ∧ w₁.avail = shimTable M := by
  obtain ⟨w₁, hr₁, ha₁, hstop⟩ := session_shim ha hd hn w
  obtain ⟨o, w₂, hr₂, hl₂, ha₂, ho⟩ := he w₁
  obtain ⟨w₃, hr₃, ht₃, ha₃⟩ := hstop w₂ hl₂
  refine ⟨w₃, ?_, ht₃, ha₃.trans (ha₂.trans (ha₁.trans hw))⟩
  unfold eventReading
  rw [bind_of_ok (availLookup_shim hne ha hw), bind_of_ok hr₁, bind_of_ok hr₂, bind_of_ok hr₃]
  simp only [ho, Bool.false_eq_true, if_false]
  rfl

end

/-! ## The result -/

/-- `system.event` with its burn-in run returns one element for each distinct event, in the order
of first occurrence: under the event's description, what the event's function counts around the
expression less what it counts around the empty one. Of the eight readings of PCM that it takes,
the fifth and sixth stand around the empty expression, the last two around `expr`. -/
theorem systemEvent_shim {events : List IpcmEvent} (hne : events ≠ [])
    (ha : ∀ e ∈ events, Available M e) (hd : ∀ f a b, M.diff f a b < 2 ^ 53)
    {w : World (State M)} (hw : w.avail = shimTable M) {ret : Sexp} {w₀ : World (State M)}
    (hstart : (papiStart (Ipcm.papi M) (events.map (·.name))).run w = .ok ret w₀)
    {expr : Prom (State M)} (he : Undisturbing expr) (gcFirst : Bool) :
    ∃ w', (systemEvent (Ipcm.papi M) (some expr) (events.map (·.name)) gcFirst true).run w =
      .ok (events.eraseDups.map fun e => (e.desc,
        max ((count M (w.lib.taken + 6) e : Rat) - count M (w.lib.taken + 4) e) 0)) w' := by
  have hn : (shimTables M).Enough events.length := by
    have := enough_of_start hstart
    rwa [List.length_map] at this
  obtain ⟨w₁, hr₁, ht₁, ha₁⟩ := warmUp_shim ha hd hn w
  obtain ⟨w₂, hr₂, ht₂, ha₂⟩ := warmUp_shim ha hd hn w₁
  obtain ⟨w₃, hr₃, ht₃, ha₃⟩ :=
    eventReading_shim hne ha hd hn undisturbing_null (ha₂.trans (ha₁.trans hw))
  obtain ⟨w₄, hr₄, -, -⟩ := eventReading_shim hne ha hd hn he ha₃
  rw [ht₂, ht₁] at hr₃ ht₃
  rw [ht₃] at hr₄
  have hb : (baseline (warmUp (Ipcm.papi M) (events.map (·.name)))
      (fun e => eventReading (Ipcm.papi M) e (events.map (·.name))) true).run w₁ =
      .ok (some (shimReading M events (w.lib.taken + 4))) w₃ :=
    map_ok.2 ⟨_, bind_ok.2 ⟨(), w₂, hr₂, hr₃⟩, rfl⟩
  have hdistinct : events.eraseDups ≠ [] := by simpa using hne
  refine ⟨w₄, ?_⟩
  rw [systemEvent_measured]
  exact measured_ok.2 ⟨_, _, ⟨w₁, w₃, hr₁, hb, hr₄⟩, corrected_map hdistinct _ _ _⟩

end

/-- The shim of `smallPcm` before its first session. -/
def shimWorld : World (State smallPcm) where
  lib := atRest (fun _ => ⟨0, 0⟩) (smallPcm.snaps 0) (smallPcm.snaps 0)
  prot := []
  fresh _ := 0
  heap _ := 0
  locals := ⟨0, ⟨0, "", ""⟩, ⟨0, 0, 0, 0, 0, 0⟩⟩
  avail := shimTable smallPcm
  warnings := []
  trace := []

theorem systemEvent_shim_small :
    ∃ w', (systemEvent (Ipcm.papi smallPcm) (some nullProm)
      (([.l3Tcm, .cyc, .l3Tcm] : List IpcmEvent).map (·.name)) true true).run shimWorld =
        .ok [("L3 cache misses", 4), ("Cycles used", 4)] w' := by
  have ha : ∀ e ∈ ([.l3Tcm, .cyc, .l3Tcm] : List IpcmEvent), Available smallPcm e := by
    intro e _
    cases e <;> exact Int.one_pos
  have hd : ∀ f a b, smallPcm.diff f a b < 2 ^ 53 := fun _ (a b : Nat) =>
    (Nat.mod_lt (b - a) (by decide : 2 ^ 48 > 0)).trans (by decide)
  obtain ⟨w₁, hstart, -⟩ := session_shim ha hd ⟨by decide, by decide⟩ shimWorld
  obtain ⟨w', h⟩ := systemEvent_shim (by decide) ha hd rfl hstart undisturbing_null true
  refine ⟨w', h.trans (congrArg (EStateM.Result.ok · w') ?_)⟩
  decide +kernel

end PbdPapi.Proof
