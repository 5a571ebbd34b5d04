import PbdPapi.Papi.Interface

/-!
# The Intel PCM shim

`fake_papi.cpp` and the part of `cwrap.cpp` behind it: PAPI's calls over Intel PCM, after a
successful `ipcm_init`. The session is the global pointer `ipcm_val`, whose length is not stored.
PCM itself is the parameter `Pcm`: the readings of the hardware counters and the difference
functions. `malloc` succeeds.

Every access to an element of `ipcm_val` enters a log with the block it went to.
-/

set_option autoImplicit false

namespace PbdPapi.Ipcm

/-! ## Tables -/

/-- The difference functions of `cpucounters.h` that the shim uses. -/
inductive EventFn where
  | getL2CacheMisses
  | getL2CacheHits
  | getInstructionsRetired
  | getCycles
  | getL3CacheHitsNoSnoop
  | getL3CacheHitsSnoop
  | getL3CacheHits
  | getL3CacheMisses
deriving DecidableEq, Repr

/-- `event_list`: the function and the `atom` flag of each code. -/
def eventList : List (EventFn × Int) :=
  [(.getL2CacheMisses, 1), (.getL2CacheHits, 1), (.getInstructionsRetired, 1), (.getCycles, 1),
    (.getL3CacheHitsNoSnoop, 0), (.getL3CacheHitsSnoop, 0), (.getL3CacheHits, 0),
    (.getL3CacheMisses, 0)]

/-! `enum event_codes` -/

def ipcmStartEvent : Int := 0
def ipcmL2Tcm : Int := 0
def ipcmL2Tch : Int := 1
def ipcmInsRet : Int := 2
def ipcmCyc : Int := 3
def ipcmL3TchNs : Int := 4
def ipcmL3TchS : Int := 5
def ipcmL3Tch : Int := 6
def ipcmL3Tcm : Int := 7
def ipcmNullEvent : Int := 8

/-- `struct eventmap_s` -/
structure EventMap where
  id : Int
  iname : String
  oname : String
deriving DecidableEq, Repr

/-- `eventmap`, less its terminator. -/
def eventmap : List EventMap :=
  [⟨ipcmL2Tcm, "IPCM_L2_TCM", "L2 cache misses"⟩,
    ⟨ipcmL2Tch, "IPCM_L2_TCH", "L2 cache hits"⟩,
    ⟨ipcmInsRet, "IPCM_INS_RET", "Instructions retired"⟩,
    ⟨ipcmCyc, "IPCM_CYC", "Cycles used"⟩,
    ⟨ipcmL3TchNs, "IPCM_L3_TCH_NS", "L3 cache hits without snooping on L2 cache"⟩,
    ⟨ipcmL3TchS, "IPCM_L3_TCH_S", "L3 cache hits with snooping on L2 cache"⟩,
    ⟨ipcmL3Tch, "IPCM_L3_TCH", "L3 cache hits"⟩,
    ⟨ipcmL3Tcm, "IPCM_L3_TCM", "L3 cache misses"⟩]

def eventfindIname (iname : String) : Option EventMap := eventmap.find? (·.iname == iname)

def eventfindId (id : Int) : Option EventMap := eventmap.find? (·.id == id)

/-! ## Memory -/

/-- `ipcm_event_val_t` -/
structure Cell where
  code : Int
  val : Int
deriving DecidableEq, Repr

/-- A block of `size` cells; what lies at a position behind it is other memory. -/
structure Block where
  size : Nat
  cell : Nat → Cell

/-- An access to `ipcm_val[index]`, with the size of the block, `none` for a null pointer. -/
structure Access where
  size : Option Nat
  index : Nat
deriving DecidableEq, Repr

/-- The access lies inside the block. -/
def Access.InBounds (a : Access) : Prop := ∃ n, a.size = some n ∧ a.index < n

/-- The global `ipcm_val` and the accesses through it so far. -/
structure Mem where
  val : Option Block
  log : List Access

/-- `ipcm_val[i]` -/
def Mem.cell (m : Mem) (i : Nat) : Cell :=
  match m.val with
  | some b => b.cell i
  | none => ⟨0, 0⟩

def Mem.access (m : Mem) (i : Nat) : Access := ⟨m.val.map (·.size), i⟩

/-- Rewrite `ipcm_val[i]`. -/
def Mem.modify (m : Mem) (i : Nat) (f : Cell → Cell) : Mem where
  val := m.val.map fun b => { b with cell := fun j => if j = i then f (b.cell i) else b.cell j }
  log := m.log ++ [m.access i]

/-- `for(i=0;i<num;i++)` over a body that rewrites `ipcm_val[i]`. -/
def Mem.loop (m : Mem) (num : Int) (f : Nat → Cell → Cell) : Mem :=
  (List.range num.toNat).foldl (fun m i => m.modify i (f i)) m

/-- `for(i=0;i<num;i++) values[i]=ipcm_val[i].val` -/
def Mem.readVals (m : Mem) (num : Int) : List Int × Mem :=
  ((List.range num.toNat).map fun i => (m.cell i).val,
    { m with log := m.log ++ (List.range num.toNat).map m.access })

/-- The number of cells that `malloc(sizeof(*ipcm_val)*num)` provides: the size of a cell is 16,
and the product is one of `size_t`. The allocation is granted, whatever its size: for a negative
`num` that is almost the whole address space, where a real one fails and the call returns
`PAPI_ENOMEM`. -/
def mallocLen (num : Int) : Nat := ((16 * num) % 2 ^ 64).toNat / 16

/-- A `uint64` as a `long long`. -/
def toLongLong (v : Nat) : Int := (v : Int).bmod (2 ^ 64)

theorem toLongLong_eq {v : Nat} (h : v < 2 ^ 63) : toLongLong v = v :=
  Int.bmod_eq_of_le (by omega) (by omega)

/-! ## PCM -/

/-- `PCM::ATOM` -/
def atom : Int := 28

/-- Intel PCM after a successful `ipcm_init`. -/
structure Pcm where
  /-- `SystemCounterState` -/
  Snap : Type
  diff : EventFn → Snap → Snap → Nat
  /-- The n-th reading that `getAllCounterStates` gives. -/
  snaps : Nat → Snap
  cpuFamily : Int
  /-- `global_cpu_model`, `global_nominal_frequency`, `global_max_cpus` -/
  cpuModel : Int
  nominalFrequency : Int
  maxCpus : Int
  /-- Whether `ipcm_init` succeeds once more. -/
  reinit : Bool

structure State (M : Pcm) where
  mem : Mem
  /-- The content of the next block. -/
  junk : Nat → Cell
  /-- `global_state` -/
  start : M.Snap
  fin : M.Snap
  /-- The number of readings taken. -/
  taken : Nat
  /-- `global_is_init` -/
  isInit : Int

section
variable (M : Pcm)

/-- `ipcm_event_avail` -/
def eventAvail (code : Int) : Int :=
  if ipcmStartEvent ≤ code ∧ code < ipcmNullEvent then
    if M.cpuModel = atom then
      match eventList[code.toNat]? with
      | some e => e.2
      | none => 0
    else 1
  else 0

/-- What `set_diff_vals` stores for a code. -/
def diffVal (sstate1 sstate2 : M.Snap) (code : Int) : Int :=
  if eventAvail M code ≠ 0 then
    match eventList[code.toNat]? with
    | some e => toLongLong (M.diff e.1 sstate1 sstate2)
    | none => 0
  else -1

variable {M}

/-- `ipcm_get_events` -/
def ipcmGetEvents (s : State M) : State M :=
  { s with start := M.snaps s.taken, taken := s.taken + 1 }

/-- `ipcm_end_events`, with `set_diff_vals` -/
def ipcmEndEvents (num : Int) (s : State M) : State M :=
  let fin := M.snaps s.taken
  { s with
    fin := fin
    taken := s.taken + 1
    mem := s.mem.loop num fun _ c => { c with val := diffVal M s.start fin c.code } }

/-! ## PAPI's calls -/

/-- `PAPI_start_counters` -/
def startCounters (codes : Nat → Int) (num : Int) (s : State M) : Int × State M :=
  let block : Block := ⟨mallocLen num, s.junk⟩
  let mem : Mem := { s.mem with val := some block }
  let mem := mem.loop num fun i c => { c with code := codes i }
  (papiOK, ipcmGetEvents { s with mem := mem })

/-- `PAPI_stop_counters`: the return code and the values written. -/
def stopCounters (num : Int) (s : State M) : (Int × List Int) × State M :=
  let s := ipcmEndEvents num s
  let (values, mem) := s.mem.readVals num
  ((papiOK, values), { s with mem := { mem with val := none } })

/-- `PAPI_enum_event` -/
def enumEvent (id : Int) (modifier : EnumMod) : Int × Int :=
  match modifier with
  | .first => (papiOK, 0)
  | .events => if id + 1 < ipcmNullEvent then (papiOK, id + 1) else (papiEinval, id + 1)

variable (M)

/-- The library of the shim. -/
def papi : Papi (State M) where
  isInitialized s := (s.isInit, s)
  libraryInit _ s :=
    if M.reinit then (papiVerCurrent, { s with isInit := 1 })
    else (papiEsys, { s with isInit := 0 })
  numCounters s := (ipcmNullEvent, s)
  eventNameToCode name code s :=
    match eventfindIname name with
    | some e => ((papiOK, e.id), s)
    | none => ((papiEnoevnt, code), s)
  getEventInfo code ev s :=
    match eventfindId code with
    | some e => ((papiOK, ⟨eventAvail M code, e.iname, e.oname⟩), s)
    | none => ((papiEnoevnt, ev), s)
  enumEvent code modifier s := (enumEvent code modifier, s)
  startCounters codes s := startCounters (codes.getD · 0) codes.length s
  stopCounters n s := stopCounters n s
  -- `PAPI_flops`, `PAPI_flips`, `PAPI_ipc` and `PAPI_epc` are dummies
  rate _ out s := ((papiEnoevnt, out), s)
  getHardwareInfo s := (some ⟨M.cpuFamily, M.cpuModel, 0, 0, 0, 0, 0, 0, 0, 0, "", ""⟩, s)
  getOpt o s :=
    match o with
    | .clockrate => (M.nominalFrequency.bmod (2 ^ 32), s)
    | .maxCpus => (M.maxCpus, s)

variable {M}

/-- The shim before its first session: `ipcm_val` is a global, so a null pointer. -/
def atRest (junk : Nat → Cell) (start fin : M.Snap) : State M :=
  ⟨⟨none, []⟩, junk, start, fin, 0, 1⟩

end

/-- Counters of 48 bits that have counted `n ^ 2` of each event at the `n`-th reading. -/
def smallPcm : Pcm where
  Snap := Nat
  diff _ a b := (b - a) % 2 ^ 48
  snaps n := n ^ 2
  cpuFamily := 6
  cpuModel := 42
  nominalFrequency := 2000000000
  maxCpus := 4
  reinit := true

end PbdPapi.Ipcm
