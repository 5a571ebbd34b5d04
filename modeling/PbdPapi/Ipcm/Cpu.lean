import PbdPapi.Ipcm.Init
import PbdPapi.Lib.CString

/-!
# The processor as PCM describes it

`ipcm_cpu_strings` of `cwrap.cpp`, and the shim after `ipcm_init` has set its globals.
-/

set_option autoImplicit false

namespace PbdPapi.Ipcm

open CMem

/-- PCM with the globals of a process. -/
def Pcm.withGlobals (M : Pcm) (s : Process) : Pcm :=
  { M with
    cpuModel := s.globalCpuModel
    nominalFrequency := s.globalNominalFrequency
    maxCpus := s.globalMaxCpus }

/-- The buffers that `ipcm_cpu_strings` writes. -/
structure CpuStrings where
  vendor : Bytes
  model : Bytes
  codename : Bytes
deriving DecidableEq, Repr

/-- `' '` -/
def space : UInt8 := 32

/-- `ipcm_cpu_strings`, where `getCPUBrandString().c_str()` is `brand` and `getUArchCodename()` is
`codename`. -/
def ipcmCpuStrings (brand codename : CStr) (out : CpuStrings) : Except Fault CpuStrings := do
  let tmp := brand.block
  let i ← scan space 0 tmp
  let vendor ← memcpy out.vendor tmp i
  let tmp := tmp.drop (← succInt i)
  let model ← strcpy out.model tmp
  let codename ← strcpy out.codename codename.block
  return ⟨vendor, model, codename⟩

end PbdPapi.Ipcm
