import PbdPapi.Proof.Calc
import PbdPapi.Proof.Removal
import Mathlib.Data.List.Forall2

/-!
# Reading an event set

`_papi_hwi_read` finds the counters of an event by the positions that the event keeps. In an event
set that represents its events, the value of each event is what its own native events give
(`eventValue`), wherever their counters are and whatever other events share them
(`Represents.read`); and every run of calls that add and remove events keeps the set so, as long as
each removal finds the native events that it lets go at the end (`Run`).
-/

set_option autoImplicit false

namespace PbdPapi.Derived

open Keyed Exec

/-! ## Positions that lead to the same counters -/

section
variable {dp dp' : List Int}

/-- Two positions, each in its own counters, with the same value. -/
structure Same (dp dp' : List Int) (p p' : Int) : Prop where
  null : p = papiNull ↔ p' = papiNull
  value : cell dp p = cell dp' p'

theorem cell_same {pos pos' : List Int} (h : List.Forall₂ (Same dp dp') pos pos') (k : Int)
    {β : Type} (g : Int → Except Fault β) :
    (cell pos k >>= fun p => cell dp p >>= g) = cell pos' k >>= fun p => cell dp' p >>= g := by
  unfold cell
  by_cases hk : k < 0
  · rw [if_pos hk, if_pos hk]
    rfl
  · rw [if_neg hk, if_neg hk]
    generalize k.toNat = i
    induction h generalizing i with
    | nil => rfl
    | @cons p p' pos pos' hp _ ih =>
      cases i with
      | zero =>
        change (cell dp p >>= g) = (cell dp' p' >>= g)
        rw [hp.value]
      | succ i => exact ih i

theorem handleDerivedAdd_same {pos pos' : List Int} (h : List.Forall₂ (Same dp dp') pos pos')
    (n : Nat) (retval : Int) :
    handleDerivedAdd dp n pos retval = handleDerivedAdd dp' n pos' retval := by
  induction h generalizing n retval with
  | nil => cases n <;> rfl
  | cons hp _ ih =>
    cases n with
    | zero => rfl
    | succ n =>
      rw [handleDerivedAdd, handleDerivedAdd, hp.value]
      refine if_congr hp.null rfl ?_
      exact congrArg _ (funext fun x => congrArg _ (funext fun y => ih n y))

theorem subtractLoop_same {pos pos' : List Int} (h : List.Forall₂ (Same dp dp') pos pos')
    (n : Nat) (retval : Int) : subtractLoop dp n pos retval = subtractLoop dp' n pos' retval := by
  induction h generalizing n retval with
  | nil => cases n <;> rfl
  | cons hp _ ih =>
    cases n with
    | zero => rfl
    | succ n =>
      rw [subtractLoop, subtractLoop, hp.value]
      refine if_congr hp.null rfl ?_
      exact congrArg _ (funext fun x => congrArg _ (funext fun y => ih n y))

theorem forall₂_tail {pos pos' : List Int} (h : List.Forall₂ (Same dp dp') pos pos') :
    List.Forall₂ (Same dp dp') pos.tail pos'.tail := by
  cases h with
  | nil => exact .nil
  | cons _ h => exact h

section
variable {D : Type} (F : Double D) (cpuMaxMhz : Int)

theorem calcStep_same {evi evi' : EventInfo} (h : List.Forall₂ (Same dp dp') evi.pos evi'.pos)
    (c : Char) (point : Text) (stack : List D) :
    calcStep F cpuMaxMhz evi dp c point stack = calcStep F cpuMaxMhz evi' dp' c point stack := by
  unfold calcStep
  refine if_congr Iff.rfl rfl (if_congr Iff.rfl ?_ rfl)
  -- a native event
  refine congrArg _ (funext fun ⟨operand, point⟩ => ?_)
  exact congrArg _ (funext fun k => cell_same h k _)

theorem calcLoop_same {evi evi' : EventInfo} (h : List.Forall₂ (Same dp dp') evi.pos evi'.pos)
    (point : Text) (stack : List D) :
    calcLoop F cpuMaxMhz evi dp point stack = calcLoop F cpuMaxMhz evi' dp' point stack := by
  induction hn : point.length using Nat.strong_induction_on generalizing point stack with
  | h n ih =>
    subst hn
    cases point with
    | nil => rw [calcLoop.eq_def, calcLoop.eq_def]
    | cons c point =>
      have hstep := calcStep_same F cpuMaxMhz h c point stack
      rw [calcLoop.eq_def, calcLoop.eq_def]
      simp only
      refine if_congr Iff.rfl rfl ?_
      split
      · next f hf =>
        rw [hstep] at hf
        split
        · next f' hf' =>
          rw [hf] at hf'
          cases hf'
          rfl
        · next hf' =>
          rw [hf] at hf'
          cases hf'
      · next point₁ stack₁ hr =>
        have hlt := calcStep_length F cpuMaxMhz evi dp hr
        rw [hstep] at hr
        split
        · next hr' =>
          rw [hr] at hr'
          cases hr'
        · next hr' =>
          rw [hr] at hr'
          cases hr'
          exact ih _ (by simpa using hlt) _ _ rfl

/-- The value of a derived event depends on the counters that its positions lead to. -/
theorem handleDerived_same {evi evi' : EventInfo}
    (h : List.Forall₂ (Same dp dp') evi.pos evi'.pos) (hops : evi.ops = evi'.ops)
    (hderived : evi.derived = evi'.derived) :
    handleDerived F cpuMaxMhz evi dp = handleDerived F cpuMaxMhz evi' dp' := by
  rw [handleDerived, handleDerived, hderived]
  cases evi'.derived with
  | notDerived => rfl
  | derivedAdd => exact handleDerivedAdd_same h _ _
  | derivedPs =>
    change (cell evi.pos 1 >>= fun p => cell dp p >>= fun x => cell evi.pos 0 >>= fun p =>
        cell dp p >>= unitsPerSecond cpuMaxMhz x) =
      cell evi'.pos 1 >>= fun p => cell dp' p >>= fun x => cell evi'.pos 0 >>= fun p =>
        cell dp' p >>= unitsPerSecond cpuMaxMhz x
    rw [cell_same h]
    refine congrArg _ (funext fun p => congrArg _ (funext fun x => ?_))
    exact cell_same h 0 _
  | derivedAddPs =>
    change (handleDerivedAdd dp _ evi.pos.tail 0 >>= fun x => cell evi.pos 0 >>= fun p =>
        cell dp p >>= unitsPerSecond cpuMaxMhz x) =
      handleDerivedAdd dp' _ evi'.pos.tail 0 >>= fun x => cell evi'.pos 0 >>= fun p =>
        cell dp' p >>= unitsPerSecond cpuMaxMhz x
    rw [handleDerivedAdd_same (forall₂_tail h)]
    exact congrArg _ (funext fun x => cell_same h 0 _)
  | derivedCmpd =>
    have := cell_same h 0 (pure : Int → Except Fault Int)
    simpa only [bind_pure] using this
  | derivedSub =>
    change (cell evi.pos 0 >>= fun p => cell dp p >>= subtractLoop dp _ evi.pos.tail) =
      cell evi'.pos 0 >>= fun p => cell dp' p >>= subtractLoop dp' _ evi'.pos.tail
    rw [cell_same h]
    refine congrArg _ (funext fun p => congrArg _ (funext fun x => ?_))
    exact subtractLoop_same (forall₂_tail h) _ x
  | derivedPostfix =>
    simp only
    rw [papiHwiPostfixCalc, papiHwiPostfixCalc, hops]
    cases evi'.ops with
    | none => rfl
    | some ops =>
      simp only
      rw [ok_bind, ok_bind, calcLoop_same F cpuMaxMhz h]
  | derivedInfix => rfl

end

end

/-! ## What an event set reads -/

section
variable {L : Library} {D : Type} (F : Double D) (cpuMaxMhz : Int) {dp : List Int}

/-- The value of an event whose native events have the values `x`, on their own. -/
def eventValue (L : Library) (x : Int → Int) (e : Int) : Except Fault Int :=
  let counters := (nativeCodes L e).map x
  let positions := (List.range counters.length).map Int.ofNat ++
    List.replicate (eventsInDerivedEvent - counters.length) papiNull
  if (eventOf L e).derivedInt = .notDerived then cell counters 0
  else
    handleDerived F cpuMaxMhz
      ⟨e, positions, (eventOf L e).postfixOps, (eventOf L e).derivedInt⟩ counters

theorem cell_order {ks : List Int} {x : Int → Int}
    (hdp : ∀ c ∈ ks, dp[ks.idxOf c]? = some (x c)) {c : Int} (hc : c ∈ ks) :
    cell dp (order ks c) = .ok (x c) := cell_natCast (hdp c hc)

theorem same_place {ks cs : List Int} {x : Int → Int}
    (hdp : ∀ c ∈ ks, dp[ks.idxOf c]? = some (x c)) (hcs : ∀ c ∈ cs, c ∈ ks) :
    List.Forall₂ (Same dp (cs.map x)) (place ks cs)
      ((List.range (cs.map x).length).map Int.ofNat ++
        List.replicate (eventsInDerivedEvent - (cs.map x).length) papiNull) := by
  rw [place, List.length_map]
  refine List.rel_append ?_ ?_
  · refine List.forall₂_iff_get.2 ⟨by simp, fun i h₁ h₂ => ?_⟩
    have hi : i < cs.length := by simpa using h₁
    simp only [List.get_eq_getElem, List.getElem_map, List.getElem_range]
    refine ⟨⟨fun h => absurd h ?_, fun h => absurd h ?_⟩, ?_⟩
    · exact Int.ne_of_gt (Int.lt_of_lt_of_le (by decide) (Int.natCast_nonneg _))
    · exact Int.ne_of_gt (Int.lt_of_lt_of_le (by decide) (Int.natCast_nonneg _))
    · rw [cell_order hdp (hcs _ (List.getElem_mem hi))]
      refine (cell_natCast ?_).symm
      rw [List.getElem?_map, List.getElem?_eq_getElem hi]
      rfl
  · have hnull : ∀ n : Nat, List.Forall₂ (Same dp (cs.map x)) (List.replicate n papiNull)
        (List.replicate n papiNull) := by
      intro n
      induction n with
      | zero => exact .nil
      | succ n ih => exact .cons ⟨Iff.rfl, rfl⟩ ih
    exact hnull _

theorem readEvent_eq {ks : List Int} {x : Int → Int}
    (hdp : ∀ c ∈ ks, dp[ks.idxOf c]? = some (x c)) {e : Int}
    (hne : nativeCodes L e ≠ []) (hcs : ∀ c ∈ nativeCodes L e, c ∈ ks) :
    readEvent F cpuMaxMhz dp (infoOf L ks e) = some <$> eventValue F cpuMaxMhz L x e := by
  obtain ⟨c, cs, hcodes⟩ := List.exists_cons_of_ne_nil hne
  have hc : c ∈ ks := hcs c (hcodes ▸ List.mem_cons_self)
  have hfirst : cell (infoOf L ks e).pos 0 = .ok (order ks c) := by
    rw [infoOf, place, hcodes]
    rfl
  have hnull : order ks c ≠ -1 := by
    unfold order
    omega
  rw [readEvent, hfirst, ok_bind, if_neg hnull, eventValue]
  by_cases hderived : (eventOf L e).derivedInt = .notDerived
  · rw [if_pos hderived]
    have : (infoOf L ks e).derived = .notDerived := hderived
    rw [if_pos this, cell_order hdp hc, hcodes]
    rfl
  · rw [if_neg hderived]
    have : (infoOf L ks e).derived ≠ .notDerived := hderived
    rw [if_neg this]
    refine congrArg _ (handleDerived_same F cpuMaxMhz ?_ rfl rfl)
    exact same_place hdp hcs

theorem readEvents_eq {ks : List Int} {x : Int → Int}
    (hdp : ∀ c ∈ ks, dp[ks.idxOf c]? = some (x c)) {events : List Int}
    (hloaded : ∀ e ∈ events, nativeCodes L e ≠ [] ∧ ∀ c ∈ nativeCodes L e, c ∈ ks)
    (free : List EventInfo) {values : List Int} (hlen : events.length ≤ values.length) :
    readEvents F cpuMaxMhz dp events.length (events.map (infoOf L ks) ++ free) values =
      (· ++ values.drop events.length) <$> events.mapM (eventValue F cpuMaxMhz L x) := by
  induction events generalizing values with
  | nil => rfl
  | cons e events ih =>
    obtain ⟨⟨hne, hcs⟩, hloaded⟩ := List.forall_mem_cons.1 hloaded
    obtain ⟨value, values, rfl⟩ : ∃ value values', values = value :: values' := by
      cases values with
      | nil => cases hlen
      | cons value values => exact ⟨value, values, rfl⟩
    have ih := ih hloaded (Nat.le_of_succ_le_succ hlen)
    rw [List.length_cons, List.map_cons, List.cons_append, readEvents,
      readEvent_eq F cpuMaxMhz hdp hne hcs, ih, List.mapM_cons]
    cases eventValue F cpuMaxMhz L x e with
    | error f => rfl
    | ok v => cases events.mapM (eventValue F cpuMaxMhz L x) <;> rfl

/-- Reading a set gives each event its own value. -/
theorem Represents.read {events ks : List Int} {s : EventSetInfo} (h : Represents L events ks s)
    {x : Int → Int} (hdp : ∀ (i : Nat) c, s.ctlState[i]? = some c → dp[i]? = some (x c))
    {values : List Int} (hlen : events.length ≤ values.length) :
    papiHwiRead F cpuMaxMhz dp s values =
      (· ++ values.drop events.length) <$> events.mapM (eventValue F cpuMaxMhz L x) := by
  obtain ⟨k, harray⟩ := h.info
  rw [papiHwiRead, h.number, harray]
  refine readEvents_eq F cpuMaxMhz (fun c hc => ?_) (fun e he => ⟨(h.loaded e he).ne_nil,
    fun c hc => (h.mem c).2 (List.mem_flatMap.2 ⟨e, he, hc⟩)⟩) _ hlen
  refine hdp _ c ?_
  rw [h.ctl, List.getElem?_eq_getElem (List.idxOf_lt_length_iff.2 hc), List.getElem_idxOf]

end

/-! ## Runs -/

/-- The native events that only `e` uses are the last ones that are counted. -/
def AtEnd (L : Library) (events : List Int) (s : EventSetInfo) (e : Int) : Prop :=
  ∃ kept lost, s.ctlState = kept ++ lost ∧
    (∀ c ∈ kept, c ∈ (events.erase e).flatMap (nativeCodes L)) ∧
    ∀ c ∈ lost, c ∉ (events.erase e).flatMap (nativeCodes L)

/-- What a program makes of a new event set, and the events that its calls have left in it. -/
inductive Run (L : Library) : List Int → EventSetInfo → Prop where
  | create : Run L [] papiHwiCreateEventset
  | add {events : List Int} {s s' : EventSetInfo} {openPeEvents : List Int → Int} {e : Int} :
    Run L events s → (∀ l, openPeEvents l ≤ 0) → IsInt e →
    papiHwiAddEvent L openPeEvents s e = .ok (s', papiOK) → Run L (events ++ [e]) s'
  | addFailed {events : List Int} {s s' : EventSetInfo} {openPeEvents : List Int → Int} {e : Int}
      {retval : Int} :
    Run L events s → (∀ l, openPeEvents l ≤ 0) → IsInt e →
    papiHwiAddEvent L openPeEvents s e = .ok (s', retval) → retval ≠ papiOK → Run L events s'
  | remove {events : List Int} {s s' : EventSetInfo} {openPeEvents : List Int → Int} {e : Int} :
    Run L events s → ¬isUserDefined e → AtEnd L events s e →
    papiHwiRemoveEvent L openPeEvents s e = (s', papiOK) → Run L (events.erase e) s'

section
variable {L : Library} {events ks : List Int} {s : EventSetInfo}

/-- Only an event of the set is removed. -/
theorem Represents.mem_of_removed (h : Represents L events ks s) {e : Int}
    (hkind : ¬isUserDefined e) {openPeEvents : List Int → Int} {s' : EventSetInfo}
    (hrm : papiHwiRemoveEvent L openPeEvents s e = (s', papiOK)) : e ∈ events := by
  refine Decidable.byContradiction fun he => ?_
  obtain ⟨k, harray⟩ := h.info
  have hnull : e ≠ papiNull := by
    rintro rfl
    exact hkind (by decide)
  have hlookup : papiHwiLookupEventCodeIndex s e = none := by
    rw [papiHwiLookupEventCodeIndex, harray, List.findIdx?_eq_none_iff]
    intro event hevent
    rcases List.mem_append.1 hevent with hevent | hevent
    · obtain ⟨e', he', rfl⟩ := List.mem_map.1 hevent
      exact decide_eq_false fun heq : e' = e => he (heq ▸ he')
    · obtain rfl := List.eq_of_mem_replicate hevent
      exact decide_eq_false fun heq : papiNull = e => hnull heq.symm
  rw [papiHwiRemoveEvent, hlookup] at hrm
  cases hrm

/-- Every run leaves a set that counts what its events need. -/
theorem Run.represents (hL : L.Sound) (h : Run L events s) : ∃ ks, Represents L events ks s := by
  induction h with
  | create => exact ⟨[], represents_create⟩
  | @add events s s' openPeEvents e _ hopen hint hadd ih =>
    obtain ⟨ks, ih⟩ := ih
    obtain ⟨s₁, retval, hadd', hcase⟩ := ih.add hL hopen hint
    rw [hadd] at hadd'
    cases hadd'
    rcases hcase with ⟨-, h⟩ | ⟨hneg, -⟩
    · exact ⟨_, h⟩
    · exact absurd hneg (by decide)
  | @addFailed events s s' openPeEvents e retval _ hopen hint hadd hfail ih =>
    obtain ⟨ks, ih⟩ := ih
    obtain ⟨s₁, retval₁, hadd', hcase⟩ := ih.add hL hopen hint
    rw [hadd] at hadd'
    cases hadd'
    rcases hcase with ⟨hok, -⟩ | ⟨-, h⟩
    · exact absurd hok hfail
    · exact ⟨_, h⟩
  | @remove events s s' openPeEvents e _ hkind hend hrm ih =>
    obtain ⟨ks, ih⟩ := ih
    obtain ⟨kept, lost, hctl, hkept, hlost⟩ := hend
    rw [ih.ctl] at hctl
    exact ⟨kept, ih.remove_of_suffix (ih.mem_of_removed hkind hrm) hkind hrm hctl
      (fun c hc => Nat.ne_of_gt (List.count_pos_iff.2 (hkept c hc)))
      fun c hc => List.count_eq_zero.2 (hlost c hc)⟩

theorem smallSet_run : Run smallLibrary [-2147483648, 1073741825] smallSet := by
  have hopen : ∀ l : List Int, (fun _ => (0 : Int)) l ≤ 0 := fun _ => Int.le_refl 0
  have hint : IsInt (-2147483648) ∧ IsInt 1073741825 := by decide
  exact .add (.add .create hopen hint.1 rfl) hopen hint.2 rfl

/-- A component that opens two native events. -/
def twoOnly (codes : List Int) : Int := if codes.length ≤ 2 then papiOK else papiEcnflct

end

end PbdPapi.Derived
