import PbdPapi.R.Base

/-!
# The library interface

The calls of the PAPI library that the package makes, as a record of state transformers over an
arbitrary library state `σ`: `Papi σ`. The C code of the package is written against this record;
PAPI's own high level interface (`Papi/HighLevel.lean`) and the Intel PCM shim (`Ipcm/Shim.lean`)
are two instances, and results about every library quantify over it.

An argument passed by reference appears as its content before the call and after it, so that what
the library leaves unwritten is visible.
-/

set_option autoImplicit false

namespace PbdPapi

/-! ## Return codes (`papi.h`) -/

def papiOK : Int := 0
def papiEinval : Int := -1
def papiEnomem : Int := -2
def papiEsys : Int := -3
def papiEsbstr : Int := -4
def papiEclost : Int := -5
def papiEbug : Int := -6
def papiEnoevnt : Int := -7
def papiEcnflct : Int := -8
def papiEnotrun : Int := -9
def papiEisrun : Int := -10
def papiEnoevst : Int := -11
def papiEnotpreset : Int := -12
def papiEnocntr : Int := -13
def papiEmisc : Int := -14

/-- `PAPI_PRESET_MASK`, the `int` with bit 31 set. -/
def papiPresetMask : Int := -2147483648

/-- `PAPI_VER_CURRENT` of the bundled 5.4.3.0: the version word less its low half. -/
def papiVerCurrent : Int := 84148224

/-! ## Data passed by reference -/

/-- The fields of `PAPI_event_info_t` that the package reads. -/
structure EventInfo where
  count : Int
  symbol : String
  longDescr : String
deriving DecidableEq, Repr

/-- The modifiers of `PAPI_enum_event` that the package uses. -/
inductive EnumMod where
  | first
  | events
deriving DecidableEq, Repr

/-- The options of `PAPI_get_opt` that the package uses. -/
inductive Opt where
  | clockrate
  | maxCpus
deriving DecidableEq, Repr

/-- The rate calls: `PAPI_flops`, `PAPI_flips`, `PAPI_ipc`, and `PAPI_epc` with its event. -/
inductive Rate where
  | flops
  | flips
  | ipc
  | epc (event : Int)
deriving DecidableEq, Repr

/-- What a rate call writes; `ref` and `core` by `PAPI_epc` only. -/
structure RateOut where
  rtime : Rat
  ptime : Rat
  ref : Int
  core : Int
  ins : Int
  rate : Rat
deriving DecidableEq, Repr

/-- The fields of `PAPI_hw_info_t` that the package reads. -/
structure HwInfo where
  cpuidFamily : Int
  cpuidModel : Int
  ncpu : Int
  threads : Int
  cores : Int
  sockets : Int
  nnodes : Int
  totalcpus : Int
  vendor : Int
  model : Int
  vendorString : String
  modelString : String
deriving DecidableEq, Repr

/-! ## The calls -/

/-- The library as the package calls it. -/
structure Papi (σ : Type) where
  isInitialized : σ → Int × σ
  libraryInit : Int → σ → Int × σ
  numCounters : σ → Int × σ
  /-- The name, and `*code` before the call; the return code, and `*code` after it. -/
  eventNameToCode : String → Int → σ → (Int × Int) × σ
  getEventInfo : Int → EventInfo → σ → (Int × EventInfo) × σ
  enumEvent : Int → EnumMod → σ → (Int × Int) × σ
  startCounters : List Int → σ → Int × σ
  /-- The length of the array; the return code, and the values written at its start. -/
  stopCounters : Nat → σ → (Int × List Int) × σ
  rate : Rate → RateOut → σ → (Int × RateOut) × σ
  getHardwareInfo : σ → Option HwInfo × σ
  getOpt : Opt → σ → Int × σ

end PbdPapi
