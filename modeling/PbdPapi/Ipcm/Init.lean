import PbdPapi.Ipcm.Shim

/-!
# Initialising Intel PCM

`ipcm_init` of `cwrap.cpp`, built with `PCM_FORCE_SILENT`, and `PAPI_library_init` over it. The
state is that of the process: the stream buffers of `std::cout` and `std::cerr` and the globals that
an attempt sets. What PCM answers in an attempt is the parameter `Outcome`.
-/

set_option autoImplicit false

namespace PbdPapi.Ipcm

/-- `PCM::ErrorCode` -/
inductive ErrorCode where
  | success
  | msrAccessDenied
  | pmuBusy
  | unknownError
deriving DecidableEq, Repr

/-- A stream buffer: one that outlives every call, or a local of the `call`-th call of
`ipcm_init`. -/
inductive Buf where
  | installed (id : Nat)
  | nullStream1 (call : Nat)
  | nullStream2 (call : Nat)
deriving DecidableEq, Repr

/-- What PCM answers in an attempt. -/
structure Outcome where
  /-- `PCM::program()`, and once more after `PCM::resetPMU()`. -/
  status : ErrorCode
  secondstatus : ErrorCode
  /-- `PCM::getCPUModel()`, `PCM::getNominalFrequency()`, `PCM::getNumCores()` -/
  cpuModel : Nat
  nominalFrequency : Nat
  numCores : Nat
deriving DecidableEq, Repr

structure Process where
  cout : Buf
  cerr : Buf
  /-- The number of calls of `ipcm_init` so far. -/
  calls : Nat
  /-- The lines written, each with the buffer that it went to. -/
  written : List (Buf × String)
  globalCpuModel : Int
  globalNominalFrequency : Int
  globalMaxCpus : Int
  globalIsInit : Int
deriving DecidableEq, Repr

namespace Process

/-- `cerr << line << endl` -/
def putErr (s : Process) (line : String) : Process :=
  { s with written := s.written ++ [(s.cerr, line)] }

/-- `cout << line << endl` -/
def putOut (s : Process) (line : String) : Process :=
  { s with written := s.written ++ [(s.cout, line)] }

/-- `std::cout.rdbuf(out)` and `std::cerr.rdbuf(err)` -/
def rdbuf (s : Process) (out err : Buf) : Process := { s with cout := out, cerr := err }

/-- The globals after a successful attempt. A `uint32` becomes an `int`, the frequency a
`long long`. -/
def publish (s : Process) (o : Outcome) : Process :=
  { s with
    globalCpuModel := (o.cpuModel : Int).bmod (2 ^ 32)
    globalNominalFrequency := toLongLong o.nominalFrequency
    globalMaxCpus := (o.numCores : Int).bmod (2 ^ 32) }

end Process

/-- `ipcm_init` -/
def ipcmInit (o : Outcome) (s : Process) : Int × Process :=
  let oldout := s.cout
  let olderr := s.cerr
  let s := { s.rdbuf (.nullStream1 s.calls) (.nullStream2 s.calls) with calls := s.calls + 1 }
  match o.status with
  | .success => (1, (s.publish o).rdbuf oldout olderr)
  | .msrAccessDenied =>
    (0, s.putErr
      ("Access to Intel(r) Performance Counter Monitor has denied " ++
        "(no MSR or PCI CFG space access)."))
  | .pmuBusy =>
    let s := s.putErr
      ("Access to Intel(r) Performance Counter Monitor has denied (Performance Monitoring Unit " ++
        "is occupied by other application). Try to stop the application that uses PMU.")
    let s := s.putErr
      "Alternatively you can try to reset PMU configuration at your own risk. Try to reset? (y/n)"
    let s := s.putOut "PMU configuration has been reset. Try to rerun the program again."
    if o.secondstatus ≠ .success then (0, s) else (1, (s.publish o).rdbuf oldout olderr)
  | .unknownError =>
    (0, s.putErr "Access to Intel(r) Performance Counter Monitor has denied (Unknown error).")

/-- `PAPI_library_init` -/
def libraryInit (o : Outcome) (s : Process) : Int × Process :=
  let (r, s) := ipcmInit o s
  let s := { s with globalIsInit := r }
  if r ≠ 0 then (papiVerCurrent, s) else (papiEsys, s)

/-- An attempt: a call of one of the two, and what PCM answers. -/
inductive Attempt where
  | init (o : Outcome)
  | libraryInit (o : Outcome)
deriving DecidableEq, Repr

def Attempt.outcome : Attempt → Outcome
  | .init o => o
  | .libraryInit o => o

def Attempt.after : Attempt → Process → Process
  | .init o, s => (ipcmInit o s).2
  | .libraryInit o, s => (Ipcm.libraryInit o s).2

/-- The process after a sequence of attempts. -/
def runAttempts (as : List Attempt) (s : Process) : Process := as.foldl (fun s a => a.after s) s

/-- The process before the first attempt, with the buffers `out` and `err` installed. -/
def booted (out err : Nat) : Process := ⟨.installed out, .installed err, 0, [], 0, 0, 0, 0⟩

end PbdPapi.Ipcm
