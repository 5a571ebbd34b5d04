import PbdPapi.Proof.Protect
import PbdPapi.Proof.Status
import PbdPapi.Proof.Labels
import PbdPapi.Proof.Rates
import PbdPapi.Proof.Errors
import PbdPapi.Proof.IpcmEvent
import PbdPapi.Proof.Atomic
import PbdPapi.Proof.Enum
import PbdPapi.Proof.Streams
import PbdPapi.Proof.Fields
import PbdPapi.Proof.Ratio
import PbdPapi.Proof.Trace
import PbdPapi.Proof.Capture
import PbdPapi.Proof.Cpu
import PbdPapi.Proof.Export
import PbdPapi.Lib.Rpn
import PbdPapi.Lib.Yard
import PbdPapi.Lib.Keyed
import PbdPapi.Papi.Codes
import PbdPapi.Papi.Counters
import PbdPapi.Papi.Load
import PbdPapi.Papi.Syntax
import PbdPapi.Proof.Calc
import PbdPapi.Proof.Codes
import PbdPapi.Proof.Counters
import PbdPapi.Proof.Definition
