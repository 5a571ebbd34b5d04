import PbdPapi.Api.HwInfo
import PbdPapi.Ipcm.Cpu
import PbdPapi.Proof.Streams
import Mathlib.Data.List.TakeWhile
import Mathlib.Tactic.NormNum.GCD
import Mathlib.Tactic.Ring

/-!
# What is said of the processor

`hwInfo_clockrate`: when `hw.info` over the shim reports the frequency of PCM in MHz.
`ipcmCpuStrings_splits`: which brand strings `ipcm_cpu_strings` takes apart as it should, over which
buffers.
-/

set_option autoImplicit false

namespace PbdPapi.Proof

open Exec C Api CMem Ipcm

/-! ## The clock rate -/

/-- `hw.info` in `w` reports the clock rate `rate`. -/
def Reports {σ : Type} (P : Papi σ) (w : World σ) (rate : Int) : Prop :=
  ∃ v w', (hwInfo P).run w = .ok v w' ∧ v.lookup "clockrate" = some (.int [rate])

/-- What `hw.info` returns over the shim. -/
theorem hwInfo_shim (M : Pcm) (w : World (State M)) :
    ∃ w', (hwInfo (Ipcm.papi M)).run w = .ok [("vendor", .str [""]), ("model", .str [""]),
      ("codename", .str ["Unknown"]), ("clockrate", .int [M.nominalFrequency.bmod (2 ^ 32)]),
      ("ncpus", .int [M.maxCpus])] w' :=
  ⟨_, rfl⟩

/-- The clock rate of the shim is the low word of its frequency. -/
theorem reports_shim {M : Pcm} {w : World (State M)} {rate : Int} :
    Reports (Ipcm.papi M) w rate ↔ M.nominalFrequency.bmod (2 ^ 32) = rate := by
  obtain ⟨w₁, hrun⟩ := hwInfo_shim M w
  constructor
  · rintro ⟨v, w', hv, hrate⟩
    rw [hrun] at hv
    cases hv
    cases hrate
    rfl
  · rintro rfl
    exact ⟨_, w₁, hrun, rfl⟩

theorem succeeds_of_init {o : Outcome} {s : Process} (h : (ipcmInit o s).1 = 1) : Succeeds o := by
  cases hs : o.status with
  | success => exact .inl hs
  | pmuBusy =>
    refine .inr ⟨hs, ?_⟩
    by_contra h₂
    simp [ipcmInit, hs, h₂] at h
  | _ => simp [ipcmInit, hs] at h

/-- A successful attempt publishes the frequency that PCM answers. -/
theorem ipcmInit_frequency {o : Outcome} (h : Succeeds o) (s : Process) :
    (ipcmInit o s).2.globalNominalFrequency = toLongLong o.nominalFrequency := by
  obtain ⟨s₁, hrun⟩ := ipcmInit_succeeds h s
  rw [hrun, Process.rdbuf, Process.publish]

/-- No whole number of megahertz but 0 has the same low word as its number of hertz: the difference,
999999 times it, is no multiple of `2 ^ 32`. -/
theorem hertz_eq_megahertz {k : Nat} :
    ((10 ^ 6 * k : Nat) : Int).bmod (2 ^ 32) = k ↔ k = 0 := by
  constructor
  · intro h
    have hlt : k < 2 ^ 31 := by
      have hword := Int.bmod_lt (x := ((10 ^ 6 * k : Nat) : Int)) (Nat.two_pow_pos 32)
      rw [h] at hword
      clear h
      omega
    have hdiff : ((10 ^ 6 * k : Nat) : Int) - k = (999999 * k : Nat) := by
      push_cast
      ring
    have hdvd : ((2 ^ 32 : Nat) : Int) ∣ (10 ^ 6 * k : Nat) - k := by
      have hself := Int.dvd_self_sub_bmod (x := ((10 ^ 6 * k : Nat) : Int)) (m := 2 ^ 32)
      rwa [h] at hself
    rw [hdiff] at hdvd
    have hk : 2 ^ 32 ∣ k :=
      Nat.Coprime.dvd_of_dvd_mul_left (by norm_num) (Int.natCast_dvd_natCast.1 hdvd)
    exact Nat.eq_zero_of_dvd_of_lt hk (hlt.trans (by decide))
  · rintro rfl
    rfl

/-- After a successful `ipcm_init` over a PCM with the frequency `f`, `hw.info` reports `f` in MHz
exactly if `f` is 0. -/
theorem hwInfo_clockrate (M : Pcm) {o : Outcome} {s : Process} (hinit : (ipcmInit o s).1 = 1)
    (hmul : 10 ^ 6 ∣ o.nominalFrequency) (hlong : o.nominalFrequency < 2 ^ 63)
    (w : World (State (M.withGlobals (ipcmInit o s).2))) :
    Reports (Ipcm.papi (M.withGlobals (ipcmInit o s).2)) w (o.nominalFrequency / 10 ^ 6 : Nat) ↔
      o.nominalFrequency = 0 := by
  obtain ⟨k, hk⟩ := hmul
  have hmhz : o.nominalFrequency / 10 ^ 6 = k := by
    rw [hk, Nat.mul_div_cancel_left k (by decide)]
  have hglobal : (M.withGlobals (ipcmInit o s).2).nominalFrequency = (10 ^ 6 * k : Nat) := by
    rw [← hk]
    exact (ipcmInit_frequency (succeeds_of_init hinit) s).trans (toLongLong_eq hlong)
  rw [reports_shim, hglobal, hmhz, hertz_eq_megahertz, hk]
  omega

/-- An attempt over a PCM with the frequency `f`. -/
def attemptAt (f : Nat) : Outcome := ⟨.success, .success, 42, f, 4⟩

/-- The shim of `smallPcm` after an attempt, with the frequency `f`. -/
def pcmAt (f : Nat) : Pcm := smallPcm.withGlobals (ipcmInit (attemptAt f) (booted 0 1)).2

/-- The package over it. -/
def worldAt (f : Nat) : World (State (pcmAt f)) where
  lib := atRest (fun _ => ⟨0, 0⟩) ((pcmAt f).snaps 0) ((pcmAt f).snaps 0)
  prot := []
  fresh _ := 0
  heap _ := 0
  locals := ⟨0, ⟨0, "", ""⟩, ⟨0, 0, 0, 0, 0, 0⟩⟩
  avail := []
  warnings := []
  trace := []

theorem hwInfo_clockrate_one : ¬ Reports (Ipcm.papi (pcmAt 1000000)) (worldAt 1000000) 1 :=
  fun h => absurd ((hwInfo_clockrate smallPcm (o := attemptAt 1000000) rfl ⟨1, rfl⟩ (by decide)
    (worldAt 1000000)).1 h) (by decide)

/-- At 2 GHz the rate is reported in Hz, at 2.4 GHz it is negative. -/
theorem worldAt_hertz :
    Reports (Ipcm.papi (pcmAt 2000000000)) (worldAt 2000000000) 2000000000 ∧
      ¬ Reports (Ipcm.papi (pcmAt 2000000000)) (worldAt 2000000000) 2000 ∧
      Reports (Ipcm.papi (pcmAt 2400000000)) (worldAt 2400000000) (-1894967296) ∧
      ¬ Reports (Ipcm.papi (pcmAt 2400000000)) (worldAt 2400000000) 2400 := by
  simp only [reports_shim]
  decide

/-! ## `ipcm_cpu_strings` -/

/-- The text before the first space. -/
def vendorText (brand : CStr) : List UInt8 := brand.chars.takeWhile (· ≠ space)

/-- The text behind the first space. -/
def modelText (brand : CStr) : List UInt8 := (brand.chars.dropWhile (· ≠ space)).tail

/-- The buffers have room for the texts. -/
structure Roomy (brand codename : CStr) (out : CpuStrings) : Prop where
  vendor : (vendorText brand).length < out.vendor.length
  model : (modelText brand).length < out.model.length
  codename : codename.chars.length < out.codename.length

/-- `ipcm_cpu_strings` reads and writes inside of its blocks, and leaves the text before the first
space and the one behind it. -/
def Splits (brand codename : CStr) (out : CpuStrings) : Prop :=
  ∃ out', ipcmCpuStrings brand codename out = .ok out' ∧
    text out'.vendor = some (vendorText brand) ∧ text out'.model = some (modelText brand)

/-- The condition: there is a space, at an index below the last one of an `int`, and the buffer for
the vendor has a zero at that index. -/
def Terminated (brand : CStr) (out : CpuStrings) : Prop :=
  space ∈ brand.chars ∧ (vendorText brand).length + 1 < 2 ^ 31 ∧
    out.vendor[(vendorText brand).length]? = some 0

theorem space_notMem_vendorText (brand : CStr) : space ∉ vendorText brand := by
  intro h
  simpa using List.mem_takeWhile_imp h

theorem zero_notMem_vendorText (brand : CStr) : 0 ∉ vendorText brand := fun h =>
  brand.nonzero ((List.takeWhile_prefix _).subset h)

theorem zero_notMem_modelText (brand : CStr) : 0 ∉ modelText brand := fun h =>
  brand.nonzero ((List.dropWhile_suffix _).subset (List.mem_of_mem_tail h))

section
variable {brand codename : CStr} {out : CpuStrings}

theorem chars_eq (h : space ∈ brand.chars) :
    brand.chars = vendorText brand ++ space :: modelText brand := by
  obtain ⟨w, r, hb, hw⟩ := List.eq_append_cons_of_mem h
  have hword : ∀ c ∈ w, decide (c ≠ space) = true := fun c hc =>
    decide_eq_true fun heq => hw (heq ▸ hc)
  have hv : vendorText brand = w := by
    rw [vendorText, hb, List.takeWhile_append_of_pos hword]
    simp
  have hm : modelText brand = r := by
    rw [modelText, hb, List.dropWhile_append_of_pos hword]
    simp
  rw [hv, hm, hb]

/-- Without a space, the pointer behind the skipped character has nothing left to read. -/
theorem ipcmCpuStrings_unsplit (h : space ∉ brand.chars) (out out' : CpuStrings) :
    ipcmCpuStrings brand codename out ≠ .ok out' := by
  intro hrun
  obtain ⟨i, hi, hrun⟩ := except_bind_ok.1 hrun
  obtain ⟨vendor, -, hrun⟩ := except_bind_ok.1 hrun
  obtain ⟨j, hj, hrun⟩ := except_bind_ok.1 hrun
  obtain ⟨model, hmodel, -⟩ := except_bind_ok.1 hrun
  obtain ⟨-, rfl⟩ := (scan_stop brand.nonzero h (.inl rfl) [] (by decide)).1 hi
  obtain ⟨-, rfl⟩ := succInt_ok.1 hj
  have hend : brand.block.drop (0 + brand.chars.length + 1) = [] := by simp [CStr.block]
  rw [hend, strcpy_end] at hmodel
  cases hmodel

/-- What the function writes when there is a space. -/
theorem ipcmCpuStrings_split (h : space ∈ brand.chars) (hroom : Roomy brand codename out)
    {out' : CpuStrings} : ipcmCpuStrings brand codename out = .ok out' ↔
      (vendorText brand).length + 1 < 2 ^ 31 ∧ out' =
        ⟨vendorText brand ++ out.vendor.drop (vendorText brand).length,
          modelText brand ++ 0 :: out.model.drop ((modelText brand).length + 1),
          codename.chars ++ 0 :: out.codename.drop (codename.chars.length + 1)⟩ := by
  have hblock : brand.block = vendorText brand ++ space :: (modelText brand ++ [0]) := by
    rw [CStr.block, chars_eq h, List.append_assoc, List.cons_append]
  have hscan (i : Nat) : scan space 0 brand.block = .ok i ↔
      0 + (vendorText brand).length < 2 ^ 31 ∧ i = 0 + (vendorText brand).length := by
    rw [hblock]
    exact scan_stop (zero_notMem_vendorText brand) (space_notMem_vendorText brand) (.inr rfl) _
      (Nat.two_pow_pos 31)
  have hvendor : memcpy out.vendor brand.block (vendorText brand).length =
      .ok (vendorText brand ++ out.vendor.drop (vendorText brand).length) := by
    rw [memcpy_ok hroom.vendor.le (by simp [hblock]), hblock, List.take_left]
  have hmodel : strcpy out.model (brand.block.drop ((vendorText brand).length + 1)) =
      .ok (modelText brand ++ 0 :: out.model.drop ((modelText brand).length + 1)) := by
    rw [hblock, List.drop_length_add_append, List.drop_one, List.tail_cons]
    exact strcpy_ok (zero_notMem_modelText brand) hroom.model []
  have hcodename : strcpy out.codename codename.block = _ :=
    strcpy_ok codename.nonzero hroom.codename []
  rw [Nat.zero_add] at hscan
  constructor
  · intro hrun
    obtain ⟨i, hi, hrun⟩ := except_bind_ok.1 hrun
    obtain ⟨vendor, hv, hrun⟩ := except_bind_ok.1 hrun
    obtain ⟨j, hj, hrun⟩ := except_bind_ok.1 hrun
    obtain ⟨model, hm, hrun⟩ := except_bind_ok.1 hrun
    obtain ⟨name, hc, hrun⟩ := except_bind_ok.1 hrun
    obtain ⟨-, rfl⟩ := (hscan i).1 hi
    obtain ⟨hlt, rfl⟩ := succInt_ok.1 hj
    rw [hvendor] at hv
    rw [hmodel] at hm
    rw [hcodename] at hc
    cases hv
    cases hm
    cases hc
    cases hrun
    exact ⟨hlt, rfl⟩
  · rintro ⟨hlt, rfl⟩
    have hscanned := (hscan _).2 ⟨by omega, rfl⟩
    have hskipped : succInt (vendorText brand).length = .ok _ := succInt_ok.2 ⟨hlt, rfl⟩
    exact except_bind_ok.2 ⟨_, hscanned, except_bind_ok.2 ⟨_, hvendor, except_bind_ok.2
      ⟨_, hskipped, except_bind_ok.2 ⟨_, hmodel, except_bind_ok.2 ⟨_, hcodename, rfl⟩⟩⟩⟩⟩

/-- `ipcm_cpu_strings` takes a brand string apart, without a read behind its end, exactly if there
is a space in it and the buffer for the vendor happens to have a zero where the vendor ends. -/
theorem ipcmCpuStrings_splits (hroom : Roomy brand codename out) :
    Splits brand codename out ↔ Terminated brand out := by
  by_cases h : space ∈ brand.chars
  · have htext : text (vendorText brand ++ out.vendor.drop (vendorText brand).length) =
        some (vendorText brand) ↔ out.vendor[(vendorText brand).length]? = some 0 := by
      rw [text_append_eq_some (zero_notMem_vendorText brand), List.getElem?_drop, Nat.add_zero]
    constructor
    · rintro ⟨out', hrun, hv, -⟩
      obtain ⟨hlt, rfl⟩ := (ipcmCpuStrings_split h hroom).1 hrun
      exact ⟨h, hlt, htext.1 hv⟩
    · rintro ⟨-, hlt, hzero⟩
      have hm := (text_append_eq_some (zero_notMem_modelText brand)
        (b := 0 :: out.model.drop ((modelText brand).length + 1))).2 rfl
      exact ⟨_, (ipcmCpuStrings_split h hroom).2 ⟨hlt, rfl⟩, htext.2 hzero, hm⟩
  · refine iff_of_false ?_ fun hc => h hc.1
    rintro ⟨out', hrun, -⟩
    exact ipcmCpuStrings_unsplit h out out' hrun

end

/-- The bytes of a text in ASCII. -/
def ascii (s : String) : List UInt8 := s.toList.map fun c => c.toNat.toUInt8

def xeon : CStr := ⟨ascii "Intel Xeon", by decide⟩

def qemu : CStr := ⟨ascii "QEMU", by decide⟩

def haswell : CStr := ⟨ascii "Haswell", by decide⟩

/-- Buffers of 64 bytes, all of them `c`. -/
def filled (c : UInt8) : CpuStrings :=
  ⟨List.replicate 64 c, List.replicate 64 c, List.replicate 64 c⟩

theorem ipcmCpuStrings_splits_zeroed : Splits xeon haswell (filled 0) :=
  (ipcmCpuStrings_splits ⟨by decide, by decide, by decide⟩).2 ⟨by decide, by decide, by decide⟩

/-- The name of a vendor goes on with what the buffer had behind it, and without a space the copy of
the model reads behind the end of the string. -/
theorem filled_unsplit :
    (Roomy xeon haswell (filled 120) ∧ ¬ Splits xeon haswell (filled 120)) ∧
      Roomy qemu haswell (filled 0) ∧
      ipcmCpuStrings qemu haswell (filled 0) = .error .read ∧
      ¬ Splits qemu haswell (filled 0) := by
  have hroom : Roomy xeon haswell (filled 120) := ⟨by decide, by decide, by decide⟩
  refine ⟨⟨hroom, ?_⟩, ⟨by decide, by decide, by decide⟩, by decide, ?_⟩
  · rintro ⟨out', hrun, hv, -⟩
    obtain ⟨-, rfl⟩ := (ipcmCpuStrings_split (by decide) hroom).1 hrun
    revert hv
    decide
  · rintro ⟨out', hrun, -⟩
    exact ipcmCpuStrings_unsplit (by decide) _ _ hrun

end PbdPapi.Proof
