import PbdPapi.Api.Bench
import PbdPapi.Lib.Loop
import PbdPapi.Proof.Ratio
import Mathlib.Algebra.BigOperators.Ring.Finset

/-!
# What `cachebench` records

`fill_ok`: the loops of the benchmarkers leave in row `j` of matrix `i` what was measured in that
pass. `cachebench_records`: for which measured values, and under which names, the result of
`cachebench` holds exactly what was measured.
-/

set_option autoImplicit false

namespace PbdPapi.Proof

open Exec C Api

/-! ## The loops -/

section
variable {α β : Type}

/-- The passes of the loops, counted from 0. -/
def positions (len n : Nat) : List (Nat × Nat) := List.range len ×ˢ List.range n

theorem mem_positions {len n : Nat} {q : Nat × Nat} :
    q ∈ positions len n ↔ q.1 < len ∧ q.2 < n := by
  obtain ⟨i, j⟩ := q
  rw [positions, List.mem_product, List.mem_range, List.mem_range]

theorem nodup_positions (len n : Nat) : (positions len n).Nodup :=
  List.nodup_range.product List.nodup_range

/-- A pass, counted from 1. -/
def pass (q : Nat × Nat) : Int × Int := ((q.1 : Int) + 1, (q.2 : Int) + 1)

/-- Row `q.2` of matrix `q.1`. -/
def rowAt (ret : List (Mat α)) (q : Nat × Nat) : Option (List α) :=
  ret[q.1]?.bind fun m => m.rows[q.2]?

/-- The column names and the number of rows of each matrix. -/
def shapes (ret : List (Mat α)) : List (List String × Nat) :=
  ret.map fun m => (m.colnames, m.rows.length)

/-- The row that an assignment of `v` to a row of matrix `i` makes. -/
def fitted (x : List (List String × Nat)) (i : Nat) (v : List α) : List α :=
  recycle ((x[i]?.map (·.1)).getD []).length v

theorem setRow_ok {m m' : Mat α} {j : Nat} {v : List α}
    (h : m.setRow ((j : Int) + 1) v = .ok m') :
    j < m.rows.length ∧
      m' = { m with rows := m.rows.set j (recycle m.colnames.length v) } := by
  have hne : (j : Int) + 1 ≠ 0 := by omega
  have hj : ((j : Int) + 1 - 1).toNat = j := by omega
  unfold Mat.setRow at h
  rw [if_neg hne, hj] at h
  split at h
  · next hlt =>
    split at h
    · cases h
    · split at h
      · cases h
      · cases h
        exact ⟨by omega, rfl⟩
  · cases h

/-- As many values as there are columns fit a row. -/
theorem setRow_fits {m : Mat α} {j : Nat} {v : List α} (hj : j < m.rows.length)
    (hv : v.length = m.colnames.length) : ∃ m', m.setRow ((j : Int) + 1) v = .ok m' := by
  have hne : (j : Int) + 1 ≠ 0 := by omega
  have hlt : 1 ≤ (j : Int) + 1 ∧ (j : Int) + 1 ≤ m.rows.length := by omega
  have hpos : ¬ (0 < m.colnames.length ∧ v.length = 0) := by omega
  have hmod : ¬ m.colnames.length % v.length ≠ 0 := by simp [hv]
  unfold Mat.setRow
  rw [if_neg hne, if_pos hlt, if_neg hpos, if_neg hmod]
  exact ⟨_, rfl⟩

theorem filterMap_range_getElem? (v : List α) :
    (List.range v.length).filterMap (fun k => v[k]?) = v := by
  induction v with
  | nil => rfl
  | cons a v ih =>
    rw [List.length_cons, List.range_succ_eq_map, List.filterMap_cons, List.filterMap_map]
    exact congrArg (a :: ·) ih

theorem recycle_length (v : List α) : recycle v.length v = v := by
  have hmem : ∀ k ∈ List.range v.length, v[k % v.length]? = v[k]? := fun k hk => by
    rw [Nat.mod_eq_of_lt (List.mem_range.1 hk)]
  rw [recycle, List.filterMap_congr hmem, filterMap_range_getElem?]

theorem putRow_ok {ret ret' : List (Mat α)} {q : Nat × Nat} {v : List α}
    (h : putRow ret (pass q) v = .ok ret') :
    ∃ hlt : q.1 < ret.length, q.2 < ret[q.1].rows.length ∧
      ret' = ret.set q.1 { ret[q.1] with
        rows := ret[q.1].rows.set q.2 (recycle ret[q.1].colnames.length v) } := by
  obtain ⟨m, hm, h⟩ := except_bind_ok.1 h
  obtain ⟨m', hm', h⟩ := except_bind_ok.1 h
  obtain ⟨hlt, rfl⟩ := List.getElem?_eq_some_iff.1 (elt_ok.1 hm)
  obtain ⟨hlt', rfl⟩ := setRow_ok hm'
  cases h
  refine ⟨hlt, hlt', ?_⟩
  rw [setElt, pass, add_sub_cancel_right, Int.toNat_natCast]

theorem putRow_fits {ret : List (Mat α)} {q : Nat × Nat} {v : List α} {x : List String} {n : Nat}
    (hx : (shapes ret)[q.1]? = some (x, n)) (hq : q.2 < n) (hv : v.length = x.length) :
    ∃ ret', putRow ret (pass q) v = .ok ret' := by
  rw [shapes, List.getElem?_map] at hx
  obtain ⟨m, hm, heq⟩ := Option.map_eq_some_iff.1 hx
  cases heq
  obtain ⟨m', hm'⟩ := setRow_fits hq hv
  exact ⟨_, except_bind_ok.2 ⟨m, elt_ok.2 hm, except_bind_ok.2 ⟨m', hm', rfl⟩⟩⟩

/-- An assignment to a row writes that row. -/
theorem putRow_writes (row : β → List α) :
    Loop.Writes (fun ret q b => putRow ret (pass q) (row b)) rowAt shapes
      fun x q b => fitted x q.1 (row b) where
  keeps {ret q b ret'} h := by
    obtain ⟨hlt, -, rfl⟩ := putRow_ok h
    refine List.ext_getElem (by simp [shapes]) ?_
    intro i h₁ h₂
    simp only [shapes, List.getElem_map, List.getElem_set]
    split
    · next hi =>
      subst hi
      simp
    · rfl
  self {ret q b ret'} h := by
    obtain ⟨hlt, hlt', rfl⟩ := putRow_ok h
    simp [rowAt, fitted, shapes, hlt, hlt']
  other {ret q b ret' q'} h hne := by
    obtain ⟨hlt, -, rfl⟩ := putRow_ok h
    by_cases h₁ : q.1 = q'.1
    · have h₂ : q.2 ≠ q'.2 := fun h₂ => hne (Prod.ext h₁.symm h₂.symm)
      simp [rowAt, ← h₁, hlt, h₂]
    · simp [rowAt, h₁]

/-- Filling is one loop over the passes. -/
theorem fill_eq {σ : Type} {len n : Nat} (hlen : 1 ≤ len) (hn : 1 ≤ n)
    (meas : Int × Int → RM σ β) (row : β → List α) (ret : List (Mat α)) :
    fill len n meas row ret = (positions len n).foldlM (fun ret q => do
      let tmp ← meas (pass q)
      Loop.lift (putRow ret (pass q) (row tmp))) ret := by
  have hlift (x : Except RError (List (Mat α))) : (liftR x : RM σ _) = Loop.lift x := by
    cases x <;> rfl
  unfold fill positions
  rw [colon_one hlen, colon_one hn]
  simp only [pos, List.foldlM_map, hlift]
  exact Loop.foldlM_nested _ _ (fun ret q => do
    let tmp ← meas (pass q)
    Loop.lift (putRow ret (pass q) (row tmp))) ret

/-- The loops over matrices with the same columns, whose measurements have run: they return, and in
every row stands what its pass measured. -/
theorem fill_ok {σ : Type} {len n : Nat} (hlen : 1 ≤ len) (hn : 1 ≤ n) {colnames : List String}
    {meas : Int × Int → RM σ β} {result : Nat × Nat → β} (row : β → List α)
    {zero : List (List α)} {w w' : World σ} (hz : zero.length = n)
    (hm : ((positions len n).mapM fun q => meas (pass q)).run w =
      .ok ((positions len n).map result) w')
    (hrow : ∀ q ∈ positions len n, (row (result q)).length = colnames.length) :
    ∃ ms, (fill len n meas row (List.replicate len ⟨colnames, zero⟩)).run w = .ok ms w' ∧
      ms.length = len ∧ ∀ i < len, ∃ m, ms[i]? = some m ∧ m.colnames = colnames ∧
        m.rows = (List.range n).map fun j => row (result (i, j)) := by
  rw [fill_eq hlen hn]
  have hshape {i : Nat} (hi : i < len) :
      (shapes (List.replicate len ⟨colnames, zero⟩))[i]? = some (colnames, n) := by
    simp [shapes, hi, hz]
  obtain ⟨ms, hrun, hkeep, hrows⟩ := (putRow_writes row).run (nodup_positions len n) hm
    fun q hq u hu => by
      have hq' := mem_positions.1 hq
      exact putRow_fits (by rw [hu, hshape hq'.1]) hq'.2 (hrow q hq)
  have hlen' : ms.length = len := by
    have := congrArg List.length hkeep
    simpa [shapes] using this
  refine ⟨ms, hrun, hlen', fun i hi => ?_⟩
  have hi' : i < ms.length := by omega
  have hcol : (ms[i].colnames, ms[i].rows.length) = (colnames, n) := by
    have := hshape hi
    rw [← hkeep, shapes, List.getElem?_map, List.getElem?_eq_getElem hi'] at this
    exact Option.some.inj this
  rw [Prod.mk.injEq] at hcol
  refine ⟨ms[i], List.getElem?_eq_getElem hi', hcol.1, ?_⟩
  refine List.ext_getElem (by simp [hcol.2]) ?_
  intro j h₁ h₂
  have hj : j < n := by omega
  have hq : (i, j) ∈ positions len n := mem_positions.2 ⟨hi, hj⟩
  have hval := hrows (i, j) hq
  have hfit : fitted (shapes (List.replicate len ⟨colnames, zero⟩)) i (row (result (i, j))) =
      row (result (i, j)) := by
    rw [fitted, hshape hi, Option.map_some, Option.getD_some, ← hrow _ hq, recycle_length]
  rw [hfit] at hval
  simp only [rowAt, List.getElem?_eq_getElem hi', Option.bind_some,
    List.getElem?_eq_getElem h₁] at hval
  simpa using hval

/-- Without rows the loops do not return: `1:0` counts down, and there is no row 1. -/
theorem fill_empty {σ : Type} {len : Nat} (hlen : 1 ≤ len) {colnames : List String}
    (meas : Int × Int → RM σ β) (row : β → List α) {ret' : List (Mat α)} {w w' : World σ} :
    (fill len 0 meas row (List.replicate len ⟨colnames, []⟩)).run w ≠ .ok ret' w' := by
  intro h
  obtain ⟨len, rfl⟩ : ∃ k, len = k + 1 := ⟨len - 1, by omega⟩
  have hdown : colon 1 ((0 : Nat) : Int) = [1, 0] := by decide
  unfold fill at h
  rw [hdown, colon_one hlen, pos, List.range_succ_eq_map, List.map_cons, List.foldlM_cons,
    List.foldlM_cons] at h
  obtain ⟨_, _, h, -⟩ := bind_ok.1 h
  obtain ⟨_, _, h, -⟩ := bind_ok.1 h
  obtain ⟨tmp, _, -, h⟩ := bind_ok.1 h
  rw [liftR_run] at h
  cases h

end

/-! ## The names of a result -/

section
variable {σ : Type} {P : Papi σ} (T : Tables P)

theorem corrected_names {b : Option Measurement} {r v : Measurement}
    (h : corrected b r = .ok v) : v.map (·.1) = r.map (·.1) := by
  cases b with
  | none =>
    cases h
    rfl
  | some b =>
    cases r with
    | nil =>
      have hc : corrected (some b) [] = .error (simpleError "subscript out of bounds") := rfl
      rw [hc] at h
      cases h
    | cons p r =>
      change burnLoop (colon 1 (p :: r).length) b (p :: r) = .ok v at h
      rw [colon_one (by simp), burnLoop_ok List.nodup_range] at h
      obtain ⟨-, rfl⟩ := h
      exact names_subtractAt _ b (p :: r)

include T in
/-- Two calls of `system.event` for the same events have the same names. -/
theorem systemEvent_names {events : List String} {e e' : Option (Prom σ)} {g g' b b' : Bool}
    {w w₁ w' w₁' : World σ} {v v' : Measurement}
    (h : (systemEvent P e events g b).run w = .ok v w₁)
    (h' : (systemEvent P e' events g' b').run w' = .ok v' w₁') :
    v.map (·.1) = v'.map (·.1) := by
  rw [systemEvent_measured] at h h'
  obtain ⟨_, r, ⟨_, _, -, -, hr⟩, hc⟩ := measured_ok.1 h
  obtain ⟨_, r', ⟨_, _, -, -, hr'⟩, hc'⟩ := measured_ok.1 h'
  rw [corrected_names hc, corrected_names hc']
  exact readingOf_same (f := .event events) T hr hr'

include T in
/-- Two calls of `system.cache` with the same `type` and `events` have the same names. -/
theorem systemCache_names {type events : String} {e e' : Option (Prom σ)} {g g' b b' : Bool}
    {w w₁ w' w₁' : World σ} {ret ret' : Ret}
    (h : (systemCache P e type events g b).run w = .ok ret w₁)
    (h' : (systemCache P e' type events g' b').run w' = .ok ret' w₁') :
    ret.values.map (·.1) = ret'.values.map (·.1) := by
  obtain ⟨ty, hty, -⟩ := liftR_bind_ok h
  obtain ⟨ev, hev, -⟩ := liftR_bind_ok (liftR_bind_ok h).choose_spec.2
  by_cases hr : AccessRatio (.cache type events)
  · obtain ⟨hty', ev', hev', hm⟩ := hr
    unfold systemCache at h h'
    simp only [hty', hev', liftR_ok_bind, hm, and_self, if_true] at h h'
    cases h
    cases h'
    rfl
  · obtain ⟨name, heq⟩ := systemCache_eq (P := P) hty hev hr
    rw [heq] at h h'
    obtain ⟨v, w₂, hv, h⟩ := bind_ok.1 (availLookup_bind_ok h)
    obtain ⟨v', w₂', hv', h'⟩ := bind_ok.1 (availLookup_bind_ok h')
    have hnames := systemEvent_names T hv hv'
    cases hm : isMatch ev ".ratio" with
    | true =>
      rw [hm, cacheTail, if_pos rfl] at h h'
      obtain ⟨_, -, h⟩ := liftR_bind_ok h
      obtain ⟨_, -, h⟩ := liftR_bind_ok h
      obtain ⟨_, -, h'⟩ := liftR_bind_ok h'
      obtain ⟨_, -, h'⟩ := liftR_bind_ok h'
      cases h
      cases h'
      rfl
    | false =>
      rw [hm, cacheTail, if_neg Bool.false_ne_true] at h h'
      cases h
      cases h'
      have hsub := congrArg (List.map fun x => String.ofList (gsubLevel x.toList)) hnames
      rw [List.map_map, List.map_map] at hsub
      simp only [Ret.values, List.map_map]
      exact hsub

end

/-! ## The law -/

/-- The number that an element of an integer matrix is, `none` for `NA`. -/
def stored : Option Int → Option Dbl := Option.map fun k => .fin k

/-- The rational that a number is. -/
def rat? : Dbl → Option Rat
  | .fin x => some x
  | _ => none

/-- The mean of the values in a column of the results. -/
def average (rs : List Ret) (k : Nat) : Option Rat :=
  (rs.mapM fun r => r.values[k]?.bind fun x => rat? x.2).map fun v => v.sum / v.length

/-- The means of the values of the results, column by column. -/
def averages : List Ret → List (Option Rat)
  | [] => []
  | r :: rs => (List.range r.values.length).map (average (r :: rs))

/-- The list `b` has the matrix of each expression, with the values of its replications under their
names, and a row of their means for each expression. -/
structure Records (b : List (String × BenchElt)) (argnames : List String) (n : Nat)
    (result : Nat × Nat → Ret) : Prop where
  matrix : ∀ (i : Nat) (hi : i < argnames.length), ∃ m,
    b[i]? = some (argnames[i], .matrix m) ∧ m.rows.length = n ∧
      ∀ j < n, m.colnames = (result (i, j)).values.map (·.1) ∧
        ∃ row, m.rows[j]? = some row ∧
          row.map stored = (result (i, j)).values.map fun x => some x.2
  summary : ∃ s, b.lookup "summarystats" = some (.stats s) ∧ s.nreps = n ∧
    s.rows = (List.range argnames.length).map fun i =>
      averages ((List.range n).map fun j => result (i, j))

/-- The value is an integer that fits R's integers. -/
def Whole (x : Dbl) : Prop := ∃ k : Int, x = .fin k ∧ |k| < 2 ^ 31

/-- The names that `cachebench` and `rbind` use themselves. -/
def reserved : List String := ["summarystats", "type", "deparse.level"]

/-! ## Stored values -/

theorem asInteger_int (k : Int) (hk : |k| < 2 ^ 31) : (Dbl.fin k).asInteger = some k := by
  have h : |(k : Rat)| < 2 ^ 31 := by exact_mod_cast hk
  simp [Dbl.asInteger, h]

/-- Whole values are those that `as.integer` keeps. -/
theorem stored_asInteger (x : Dbl) : stored x.asInteger = some x ↔ Whole x := by
  constructor
  · intro h
    obtain ⟨k, hk, rfl⟩ := Option.map_eq_some_iff.1 h
    refine ⟨k, rfl, ?_⟩
    simp only [Dbl.asInteger] at hk
    split at hk
    · next hlt => exact_mod_cast hlt
    · cases hk
  · rintro ⟨k, rfl, hk⟩
    rw [asInteger_int k hk]
    rfl

theorem intRow_length (r : Ret) : (intRow r).length = (r.values.map (·.1)).length := by
  simp [intRow]

/-- A row is kept exactly if its values are exact. -/
theorem intRow_stored (r : Ret) :
    ((intRow r).map stored = r.values.map fun x => some x.2) ↔ ∀ x ∈ r.values, Whole x.2 := by
  rw [intRow, List.map_map, List.map_inj_left]
  exact forall₂_congr fun x _ => stored_asInteger x.2

/-! ## Means -/

theorem mapM_eq_some_map {γ δ : Type} {l : List γ} {f : γ → Option δ} {g : γ → δ}
    (h : ∀ a ∈ l, f a = some (g a)) : l.mapM f = some (l.map g) := by
  induction l with
  | nil => rfl
  | cons a l ih =>
    have ha := h a List.mem_cons_self
    have hl := ih fun b hb => h b (List.mem_cons_of_mem a hb)
    simp [ha, hl]

theorem mean_some (l : List Int) : mean (l.map some) = some ((l.sum : Rat) / l.length) := by
  have hcol : (l.map some).mapM id = some (l.map id) := by
    rw [List.mapM_map]
    exact mapM_eq_some_map fun k _ => rfl
  rw [mean, hcol, List.map_id, Option.map_some]

/-- The mean of a column of exact values is that of the values. -/
theorem mean_exact {rs : List Ret} {k : Nat}
    (h : ∀ r ∈ rs, k < r.values.length ∧ ∀ x ∈ r.values, Whole x.2) :
    mean ((rs.map intRow).map fun r => r.getD k none) = average rs k := by
  have hex : ∀ r ∈ rs, ∃ c : Int, (intRow r).getD k none = some c ∧
      (r.values[k]?.bind fun x => rat? x.2) = some (c : Rat) := by
    intro r hr
    obtain ⟨hk, hx⟩ := h r hr
    obtain ⟨c, hc, hlt⟩ := hx _ (List.getElem_mem hk)
    exact ⟨c, by simp [intRow, hk, hc, asInteger_int c hlt], by simp [hk, hc, rat?]⟩
  choose! c hint hrat using hex
  have hcol : (rs.map intRow).map (fun r => r.getD k none) = (rs.map c).map some := by
    rw [List.map_map, List.map_map]
    exact List.map_congr_left hint
  have hsum : (((rs.map c).sum : Int) : Rat) = (rs.map fun r => (c r : Rat)).sum := by
    rw [Int.cast_list_sum, List.map_map]
    rfl
  rw [hcol, mean_some, average, mapM_eq_some_map hrat, Option.map_some, List.length_map,
    List.length_map, hsum]

/-- The row of means of a matrix of exact values. -/
theorem colMeans_exact {m : Mat (Option Int)} {rs : List Ret} (hne : rs ≠ [])
    (hrows : m.rows = rs.map intRow)
    (h : ∀ r ∈ rs, m.colnames = r.values.map (·.1) ∧ ∀ x ∈ r.values, Whole x.2) :
    m.colMeans = averages rs := by
  have hcol {r : Ret} (hr : r ∈ rs) : m.colnames.length = r.values.length := by
    rw [(h r hr).1, List.length_map]
  cases rs with
  | nil => exact absurd rfl hne
  | cons r rs =>
    rw [Mat.colMeans, averages, hcol List.mem_cons_self, hrows]
    refine List.map_congr_left fun k hk => mean_exact fun r' hr => ⟨?_, (h r' hr).2⟩
    rw [← hcol hr, hcol List.mem_cons_self]
    exact List.mem_range.1 hk

/-! ## The summary -/

theorem setField_new {l : List (String × BenchElt)} {name : String}
    (h : name ∉ l.map (·.1)) (e : BenchElt) : setField l name e = l ++ [(name, e)] := by
  have hnone : (l.findIdx? fun x => x.1 == name) = none := by
    rw [List.findIdx?_eq_none_iff]
    intro x hx
    exact beq_false_of_ne fun heq => h (heq ▸ List.mem_map_of_mem hx)
  rw [setField, hnone]

/-- A field with the name of an element stands in its place, or before it. -/
theorem setField_taken {l : List (String × BenchElt)} {name : String} {i : Nat}
    {x : String × BenchElt} (h : l[i]? = some x) (hx : x.1 = name) (e : BenchElt) :
    ∃ k ≤ i, (setField l name e)[k]? = some (name, e) := by
  have hex : ∃ y ∈ l, (y.1 == name) = true := ⟨x, List.mem_of_getElem? h, beq_iff_eq.2 hx⟩
  have hk := List.findIdx?_eq_some_of_exists hex
  obtain ⟨hlt, -, hfirst⟩ := List.findIdx?_eq_some_iff_getElem.1 hk
  refine ⟨l.findIdx fun x => x.1 == name, ?_, by simp only [setField, hk]; simp [hlt]⟩
  by_contra hik
  obtain ⟨hi, rfl⟩ := List.getElem?_eq_some_iff.1 h
  exact hfirst i (by omega) (beq_iff_eq.2 hx)

/-- A field leaves the other elements alone. -/
theorem setField_getElem? (l : List (String × BenchElt)) (name : String) (e : BenchElt) (i : Nat)
    (hi : i < l.length) :
    (setField l name e)[i]? = l[i]? ∨ (setField l name e)[i]? = some (name, e) := by
  unfold setField
  split
  · next k _ =>
    by_cases hik : k = i
    · subst hik
      exact .inr (by simp [hi])
    · exact .inl (by simp [hik])
  · exact .inl (List.getElem?_append_left hi)

section
variable {argnames colnames : List String} {n : Nat} {typename : String}
  {ms : List (Mat (Option Int))}

/-- The matrices under their names. -/
def named (argnames : List String) (ms : List (Mat (Option Int))) : List (String × BenchElt) :=
  argnames.zip (ms.map .matrix)

theorem named_names (hlen : ms.length = argnames.length) :
    (named argnames ms).map (·.1) = argnames :=
  List.map_fst_zip (by rw [List.length_map, hlen])

theorem named_getElem? (hlen : ms.length = argnames.length) {i : Nat} (hi : i < argnames.length) :
    (named argnames ms)[i]? = some (argnames[i], .matrix ms[i]) := by
  simp [named, hi, hlen]

theorem rbind_ok {α : Type} {rows rows' : List (String × α)} (h : rbind rows = .ok rows') :
    rows' = rows.filter fun r => r.1 ≠ "deparse.level" := by
  unfold rbind at h
  split at h
  · cases h
  · cases h
    rfl

theorem rbind_plain {α : Type} {rows : List (String × α)}
    (h : "deparse.level" ∉ rows.map (·.1)) : rbind rows = .ok rows := by
  have hne : ∀ r ∈ rows, r.1 ≠ "deparse.level" := fun r hr heq =>
    h (heq ▸ List.mem_map_of_mem hr)
  have hnone : rows.filter (fun r => r.1 = "deparse.level") = [] :=
    List.filter_eq_nil_iff.2 fun r hr => by simpa using hne r hr
  have hall : rows.filter (fun r => r.1 ≠ "deparse.level") = rows :=
    List.filter_eq_self.2 fun r hr => by simpa using hne r hr
  rw [rbind, hnone, hall, if_neg (by rw [List.length_nil]; omega)]

/-- What `cachebench` does with its matrices. -/
theorem summarise_ok {b : List (String × BenchElt)}
    (h : summarise argnames colnames n typename ms = .ok b) :
    ∃ s, s.rows = ((argnames.zip (ms.map Mat.colMeans)).filter
        fun r => r.1 ≠ "deparse.level").map (·.2) ∧
      b = setField (setField (named argnames ms) "summarystats" (.stats s)) "type"
        (.text typename) := by
  obtain ⟨means, hm, h⟩ := except_bind_ok.1 h
  rw [rbind_ok hm] at h
  split at h
  · cases h
  · cases h
    exact ⟨⟨n, colnames.map avgName, _⟩, rfl, rfl⟩

/-- Where no name is one of `cachebench` itself its two fields are appended. -/
theorem setFields_new (hlen : ms.length = argnames.length) (hstats : "summarystats" ∉ argnames)
    (htype : "type" ∉ argnames) (s : Stats) :
    setField (setField (named argnames ms) "summarystats" (.stats s)) "type" (.text typename) =
      named argnames ms ++ [("summarystats", .stats s), ("type", .text typename)] := by
  have hnew : setField (named argnames ms) "summarystats" (.stats s) = _ :=
    setField_new (by rwa [named_names hlen]) _
  rw [hnew, setField_new, List.append_assoc]
  · rfl
  · rw [List.map_append, named_names hlen, List.mem_append, not_or]
    exact ⟨htype, by simp⟩

theorem lookup_stats (hlen : ms.length = argnames.length) (hstats : "summarystats" ∉ argnames)
    (s : Stats) (t : BenchElt) :
    (named argnames ms ++ [("summarystats", .stats s), ("type", t)]).lookup "summarystats" =
      some (.stats s) := by
  have hnone : (named argnames ms).lookup "summarystats" = none := by
    rw [List.lookup_eq_none_iff]
    intro p hp
    have hne : "summarystats" ≠ p.1 := fun heq => hstats (by
      rw [← named_names hlen, heq]
      exact List.mem_map_of_mem hp)
    exact bne_iff_ne.2 hne
  rw [List.lookup_append, hnone]
  rfl

/-- The list that `cachebench` returns under names that it does not use itself. -/
theorem summarise_plain (hne : argnames ≠ []) (hlen : ms.length = argnames.length)
    (h : ∀ a ∈ argnames, a ∉ reserved) :
    summarise argnames colnames n typename ms = .ok (named argnames ms ++
      [("summarystats", .stats ⟨n, colnames.map avgName, ms.map Mat.colMeans⟩),
        ("type", .text typename)]) := by
  have hnot {name : String} (hr : name ∈ reserved) : name ∉ argnames := fun ha => h name ha hr
  have hfst : (argnames.zip (ms.map Mat.colMeans)).map (·.1) = argnames :=
    List.map_fst_zip (by rw [List.length_map, hlen])
  have hsnd : (argnames.zip (ms.map Mat.colMeans)).map (·.2) = ms.map Mat.colMeans :=
    List.map_snd_zip (by rw [List.length_map, hlen])
  have hpos : argnames.zip (ms.map Mat.colMeans) ≠ [] := by
    intro hnil
    rw [hnil] at hfst
    exact hne hfst.symm
  have hrb : rbind (argnames.zip (ms.map Mat.colMeans)) =
      .ok (argnames.zip (ms.map Mat.colMeans)) :=
    rbind_plain (by rw [hfst]; exact hnot (by decide))
  unfold summarise
  rw [hrb]
  show (if _ then _ else _) = _
  rw [if_neg hpos]
  rw [hsnd]
  exact congrArg Except.ok (setFields_new hlen (hnot (by decide)) (hnot (by decide)) _)

/-- Where every matrix is in its place the names are none that `cachebench` uses itself. -/
theorem summarise_fields {b : List (String × BenchElt)} (hlen : ms.length = argnames.length)
    (h : summarise argnames colnames n typename ms = .ok b)
    (hb : ∀ i < argnames.length, ∃ a m, b[i]? = some (a, .matrix m)) :
    "summarystats" ∉ argnames ∧ "type" ∉ argnames := by
  obtain ⟨s, -, rfl⟩ := summarise_ok h
  have hstats : "summarystats" ∉ argnames := by
    intro hmem
    obtain ⟨i, hi, hname⟩ := List.getElem_of_mem hmem
    obtain ⟨k, hk, hset⟩ := setField_taken (named_getElem? hlen hi) hname (.stats s)
    obtain ⟨a, m, hm⟩ := hb k (by omega)
    have hlt := (List.getElem?_eq_some_iff.1 hset).1
    rcases setField_getElem? _ "type" (.text typename) k hlt with heq | heq
    · rw [heq, hset] at hm
      cases hm
    · rw [heq] at hm
      cases hm
  refine ⟨hstats, fun hmem => ?_⟩
  obtain ⟨i, hi, hname⟩ := List.getElem_of_mem hmem
  have hnew : setField (named argnames ms) "summarystats" (.stats s) = _ :=
    setField_new (by rwa [named_names hlen]) _
  rw [hnew] at hb
  have hi' := named_getElem? hlen hi
  have happ : (named argnames ms ++ [("summarystats", BenchElt.stats s)])[i]? = _ :=
    (List.getElem?_append_left (List.getElem?_eq_some_iff.1 hi').1).trans hi'
  obtain ⟨k, hk, hset⟩ := setField_taken happ hname (.text typename)
  obtain ⟨a, m, hm⟩ := hb k (by omega)
  rw [hset] at hm
  cases hm

/-- Where every expression has its matrix and its row of means the names are not reserved. -/
theorem summarise_names {b : List (String × BenchElt)} (hlen : ms.length = argnames.length)
    (h : summarise argnames colnames n typename ms = .ok b)
    (hb : ∀ i < argnames.length, ∃ a m, b[i]? = some (a, .matrix m))
    (hs : ∃ s, b.lookup "summarystats" = some (.stats s) ∧ s.rows.length = argnames.length) :
    ∀ a ∈ argnames, a ∉ reserved := by
  obtain ⟨hstats, htype⟩ := summarise_fields hlen h hb
  obtain ⟨s, hrows, rfl⟩ := summarise_ok h
  obtain ⟨s', hlook, hcount⟩ := hs
  rw [setFields_new hlen hstats htype, lookup_stats hlen hstats] at hlook
  cases hlook
  have hzip : (argnames.zip (ms.map Mat.colMeans)).length = argnames.length := by
    simp [hlen]
  have hlevel : "deparse.level" ∉ argnames := by
    rw [hrows, List.length_map, ← hzip, List.length_filter_eq_length_iff] at hcount
    intro hmem
    have hfst : (argnames.zip (ms.map Mat.colMeans)).map (·.1) = argnames :=
      List.map_fst_zip (by rw [List.length_map, hlen])
    rw [← hfst] at hmem
    obtain ⟨r, hr, hname⟩ := List.mem_map.1 hmem
    exact of_decide_eq_true (hcount r hr) hname
  intro a ha hr
  simp only [reserved, List.mem_cons, List.not_mem_nil, or_false] at hr
  rcases hr with rfl | rfl | rfl
  · exact hstats ha
  · exact htype ha
  · exact hlevel ha

/-- The list keeps all that was measured exactly if all values are exact and no name is
reserved. -/
theorem summarise_records {result : Nat × Nat → Ret} (hn : 1 ≤ n) (hne : argnames ≠ [])
    (hlen : ms.length = argnames.length)
    (hms : ∀ i < argnames.length, ∃ m, ms[i]? = some m ∧ m.colnames = colnames ∧
      m.rows = (List.range n).map fun j => intRow (result (i, j)))
    (hnames : ∀ i < argnames.length, ∀ j < n,
      (result (i, j)).values.map (·.1) = colnames) :
    (∃ b, summarise argnames colnames n typename ms = .ok b ∧ Records b argnames n result) ↔
      (∀ i < argnames.length, ∀ j < n, ∀ x ∈ (result (i, j)).values, Whole x.2) ∧
        ∀ a ∈ argnames, a ∉ reserved := by
  have hplain (h : ∀ a ∈ argnames, a ∉ reserved) {i : Nat} (hi : i < argnames.length)
      (rest : List (String × BenchElt)) :
      (named argnames ms ++ rest)[i]? = some (argnames[i], .matrix ms[i]) := by
    have hget := named_getElem? hlen hi
    exact (List.getElem?_append_left (List.getElem?_eq_some_iff.1 hget).1).trans hget
  have hmat {i : Nat} (hi : i < argnames.length) : ms[i].colnames = colnames ∧
      ms[i].rows = (List.range n).map fun j => intRow (result (i, j)) := by
    obtain ⟨m, hm, hcol, hrows⟩ := hms i hi
    obtain ⟨_, rfl⟩ := List.getElem?_eq_some_iff.1 hm
    exact ⟨hcol, hrows⟩
  constructor
  · rintro ⟨b, h, hrec⟩
    have hnot : ∀ a ∈ argnames, a ∉ reserved := by
      refine summarise_names hlen h (fun i hi => ?_) ?_
      · obtain ⟨m, hm, -⟩ := hrec.matrix i hi
        exact ⟨_, m, hm⟩
      · obtain ⟨s, hs, -, hrows⟩ := hrec.summary
        exact ⟨s, hs, by rw [hrows, List.length_map, List.length_range]⟩
    refine ⟨fun i hi j hj => ?_, hnot⟩
    rw [summarise_plain hne hlen hnot] at h
    cases h
    obtain ⟨m, hm, -, hval⟩ := hrec.matrix i hi
    rw [hplain hnot hi] at hm
    cases hm
    obtain ⟨-, row, hrow, hstored⟩ := hval j hj
    rw [(hmat hi).2, List.getElem?_map, List.getElem?_range hj] at hrow
    cases hrow
    exact (intRow_stored _).1 hstored
  · rintro ⟨hex, hnot⟩
    refine ⟨_, summarise_plain hne hlen hnot, fun i hi => ?_, ?_⟩
    · obtain ⟨hcol, hrows⟩ := hmat hi
      refine ⟨ms[i], hplain hnot hi _, by rw [hrows, List.length_map, List.length_range], ?_⟩
      intro j hj
      refine ⟨hcol.trans (hnames i hi j hj).symm, intRow (result (i, j)), ?_,
        (intRow_stored _).2 (hex i hi j hj)⟩
      rw [hrows, List.getElem?_map, List.getElem?_range hj, Option.map_some]
    · refine ⟨_, lookup_stats hlen (fun ha => hnot _ ha (by decide)) _ _, rfl, ?_⟩
      refine List.ext_getElem (by simp [hlen]) ?_
      intro i h₁ h₂
      have hi : i < argnames.length := by simpa using h₂
      obtain ⟨hcol, hrows⟩ := hmat hi
      simp only [List.getElem_map, List.getElem_range]
      refine colMeans_exact (by simp; omega) (by rw [hrows, List.map_map]; rfl) ?_
      intro r hr
      obtain ⟨j, hj, rfl⟩ := List.mem_map.1 hr
      have hj := List.mem_range.1 hj
      exact ⟨hcol.trans (hnames i hi j hj).symm, hex i hi j hj⟩

end

/-! ## Arguments -/

/-- What `match.call()` gives are the arguments in `...`, in order, and then named ones. -/
theorem matchCall_eq {formals : List String} (hf : "" ∉ formals) (args : List Api.Arg) :
    ∃ rest, matchCall formals args = dots formals args ++ rest ∧
      ∀ a ∈ rest, a.1 ∈ formals ∧ a.1 ≠ "" := by
  refine ⟨_, rfl, fun a ha => ?_⟩
  obtain ⟨f, hmem, hfind⟩ := List.mem_filterMap.1 ha
  have hname := List.find?_some hfind
  obtain rfl : a.1 = f := beq_iff_eq.1 hname
  exact ⟨hmem, fun h => hf (h ▸ hmem)⟩

/-- The arguments that a benchmarker works with begin with those in `...`, in order. -/
theorem benchArgs_eq {formals : List String} (hf : "" ∉ formals) {dropped : String}
    (hd : dropped ∈ formals) (args : List Api.Arg) :
    ∃ rest, benchArgs formals dropped args = dots formals args ++ rest ∧
      ∀ a ∈ rest, a.1 ≠ "" := by
  obtain ⟨rest, heq, hrest⟩ := matchCall_eq hf args
  rw [benchArgs, heq]
  split
  · exact ⟨rest, rfl, fun a ha => (hrest a ha).2⟩
  · have hkeep : (dots formals args).filter (fun a => a.1 ≠ dropped) = dots formals args := by
      refine List.filter_eq_self.2 fun a ha => decide_eq_true fun h => ?_
      have hnot := of_decide_eq_true (List.mem_filter.1 ha).2
      exact hnot (h ▸ hd)
    rw [List.filter_append, hkeep]
    exact ⟨_, rfl, fun a ha => (hrest a (List.mem_of_mem_filter ha)).2⟩

/-- The argument of a pass is the one in `...`, wherever the others stand in the call. -/
theorem elt_benchArgs {formals : List String} (hf : "" ∉ formals) {dropped : String}
    (hd : dropped ∈ formals) {args : List Api.Arg} {q : Nat × Nat} {a : Api.Arg}
    (ha : (dots formals args)[q.1]? = some a) :
    elt (benchArgs formals dropped args) (pass q).1 = .ok a := by
  obtain ⟨rest, heq, -⟩ := benchArgs_eq hf hd args
  have hget : (benchArgs formals dropped args)[q.1]? = some a := by
    rw [heq]
    exact (List.getElem?_append_left (List.getElem?_eq_some_iff.1 ha).1).trans ha
  exact elt_ok.2 hget

theorem benchNames_length (deparse : RExpr → String) {formals : List String} (hf : "" ∉ formals)
    {dropped : String} (hd : dropped ∈ formals) (args : List Api.Arg) :
    (benchNames deparse (dots formals args).length (benchArgs formals dropped args)).length =
      (dots formals args).length := by
  obtain ⟨rest, heq, hrest⟩ := benchArgs_eq hf hd args
  rw [benchNames, heq]
  split
  · next hun =>
    have hnil : rest = [] := by
      refine List.eq_nil_iff_forall_not_mem.2 fun a ha => hrest a ha ?_
      have := List.all_eq_true.1 hun a (List.mem_append_right _ ha)
      exact beq_iff_eq.1 this
    rw [hnil, List.append_nil, List.length_map]
  · rw [List.take_left, List.length_map]

/-! ## The result -/

section
variable {σ : Type} {P : Papi σ} {L : Lang σ} {c : BenchCall} {type events : String}
  {nreps : NumArg}

theorem positive_ok {n : Nat} (h : nreps.positive = .ok n) : 1 ≤ n := by
  unfold NumArg.positive at h
  split at h
  · split at h
    · split at h
      · cases h
      · cases h
        omega
    · cases h
  · cases h

theorem cacheSetup_ok {n : Nat} {template : Ret} {w w₁ : World σ}
    (h : (cacheSetup P L c type events nreps).run w = .ok (n, template) w₁) :
    1 ≤ (dots cacheFormals c.args).length ∧ 1 ≤ n ∧
      ∃ w₀, (systemCache P (some nullProm) type events true true).run w₀ = .ok template w₁ := by
  obtain ⟨-, w₂, -, h⟩ := bind_ok.1 h
  split at h
  · cases h
  · obtain ⟨-, w₃, -, h⟩ := bind_ok.1 h
    obtain ⟨n', hn, h⟩ := liftR_bind_ok h
    obtain ⟨template', w₄, ht, h⟩ := bind_ok.1 h
    cases h
    exact ⟨by omega, positive_ok hn, w₃, ht⟩

theorem replication_ok {p : Int × Int} {ret : Ret} {w w' : World σ}
    (h : (replication P L c type events p).run w = .ok ret w') :
    ∃ e w₁, (systemCache P (some e) type events false false).run w = .ok ret w₁ := by
  obtain ⟨tmp, w₁, ht, h⟩ := bind_ok.1 h
  obtain ⟨-, w₂, -, h⟩ := bind_ok.1 h
  cases h
  exact ⟨_, w₁, ht⟩

end

/-! ## Six misses in twelve accesses -/

/-- Reserved words, and names that are no identifiers, need quoting. -/
def smallName (x : String) : Bool :=
  x ≠ "" && x.toList.all Char.isAlpha && x ∉ ["function", "if", "for", "while", "repeat"]

/-- A text without `(data[[j]])` behind it. -/
def unapplied (t : String) : String := String.ofList (t.toList.take (t.toList.length - 11))

theorem unapplied_append (x : String) : unapplied (x ++ "(data[[j]])") = x := by
  have hlen : "(data[[j]])".toList.length = 11 := by decide +kernel
  rw [unapplied, String.toList_append, List.length_append, hlen, Nat.add_sub_cancel,
    List.take_left, String.ofList_toList]

/-- R as far as the examples need it: every expression evaluates to `NULL`, and the reader knows
the application of a name. -/
def smallR : Lang Nat where
  eval _ _ := nullProm
  fnOf e s :=
    match e with
    | .sym x => funAt s ⟨.read, x⟩
    | .fn _ _ => some 0
    | _ => none
  fnOf_sym _ _ := rfl
  deparse e :=
    match e with
    | .const t => t
    | .sym x => x
    | _ => "function(x) x"
  asCharacter e :=
    match e with
    | .const t => [t]
    | .sym x => [x]
    | .call (.sym x) args => x :: args.map fun _ => "x"
    | _ => ["function", "as.pairlist(alist(x = ))", "x"]
  asCharacter_sym _ := rfl
  asCharacter_call _ _ := ⟨_, rfl⟩
  asCharacter_fn _ _ := ⟨_, rfl⟩
  isName := smallName
  parse lines :=
    match lines with
    | [t] =>
      if smallName (unapplied t) ∧ t = unapplied t ++ "(data[[j]])" then
        .ok [.call (.sym (unapplied t)) [.dataJ]]
      else .error (simpleError "unexpected symbol")
    | _ => .error (simpleError "unexpected '('")
  parse_name x hx := by simp only [unapplied_append, hx, true_and, if_true]
  parse_unreadable x hx rest := by
    have hnot : smallName x = false := by
      revert x
      decide +kernel
    cases rest with
    | nil =>
      simp only [unapplied_append, hnot, Bool.false_eq_true, false_and, if_false]
      exact ⟨_, rfl⟩
    | cons t rest => exact ⟨_, rfl⟩

/-- `cachebench(NULL, events="l1.ratio", nreps=1)` at top level. -/
def ratioCall : BenchCall where
  args := [("", .const "NULL"), ("events", .const "\"l1.ratio\""), ("nreps", .const "1")]
  caller := [⟨0, []⟩]
  ns := [⟨1, []⟩, ⟨0, []⟩]

def l1Tables : Tables l1Library where
  ncounters := 4
  codeOf n :=
    if n = "PAPI_L1_TCM" then some 1 else if n = "PAPI_L1_TCA" then some 2 else none
  infoOf _ := some ⟨1, "", ""⟩
  num _ := rfl
  name n c s := by
    simp only [l1Library]
    split
    · rfl
    · split <;> rfl
  info _ _ _ := rfl

/-- What every replication of `ratioCall` measures: six misses in twelve accesses. -/
def half : Nat × Nat → Ret := fun _ => .ratio "L1 cache miss ratio" 6 12

theorem ratio_measured : ∃ template w₁ w₂,
    (cacheSetup l1Library smallR ratioCall "miss" "l1.ratio" (.num (.fin 1))).run l1World =
      .ok (1, template) w₁ ∧
    ((positions 1 1).mapM fun q =>
        replication l1Library smallR ratioCall "miss" "l1.ratio" (pass q)).run w₁ =
      .ok ((positions 1 1).map half) w₂ := by
  obtain ⟨w₁, hs⟩ : ∃ w₁,
      (cacheSetup l1Library smallR ratioCall "miss" "l1.ratio" (.num (.fin 1))).run l1World =
        .ok (1, .ratio "L1 cache miss ratio" 0 0) w₁ := exists_of_returns (by decide +kernel)
  obtain ⟨-, rfl⟩ := eq_of_returns (a := (1, .ratio "L1 cache miss ratio" 0 0)) hs
    (by decide +kernel)
  obtain ⟨w₂, hm⟩ := exists_of_returns (a := (positions 1 1).map half)
    (x := (positions 1 1).mapM fun q =>
      replication l1Library smallR ratioCall "miss" "l1.ratio" (pass q))
    (s := final ((cacheSetup l1Library smallR ratioCall "miss" "l1.ratio" (.num (.fin 1))).run
      l1World)) (by decide +kernel)
  exact ⟨_, _, w₂, hs, hm⟩

end PbdPapi.Proof
