import PbdPapi.Proof.EventSet
import Mathlib.Data.List.InsertIdx

/-!
# Removing events from an event set

`remove_native_events` takes an owner off each native event of the event, and fills the entries that
have lost their last one with others from behind; but `ni_papi_code` stays where it is, and no
position is mapped again. So the event set keeps counting the first native events of its array, as
many as are still owned: `remove_represents_iff` says when these are the right ones.
-/

set_option autoImplicit false

namespace PbdPapi.Derived

open Keyed Exec

/-! ## Filling the holes -/

theorem mem_of_findRev? {α : Type} {p : α → Bool} {l : List α} {x : α}
    (h : l.findRev? p = some x) : x ∈ l ∧ p x = true := by
  induction l with
  | nil => cases h
  | cons a l ih =>
    rw [List.findRev?] at h
    split at h
    · next b hb =>
      cases h
      exact ⟨List.mem_cons_of_mem _ (ih hb).1, (ih hb).2⟩
    · split at h
      · next hp =>
        cases h
        exact ⟨List.mem_cons_self, hp⟩
      · cases h

theorem lastOwned_eq_some {native : List NativeInfo} {i j : Nat} {n : NativeInfo}
    (h : lastOwned native i = some (j, n)) : native[j]? = some n ∧ i < j ∧ n.owners ≠ 0 := by
  obtain ⟨hmem, hp⟩ := mem_of_findRev? h
  obtain ⟨k, hk, heq⟩ := List.mem_mapIdx.1 hmem
  cases heq
  simp only [Bool.and_eq_true, decide_eq_true_iff] at hp
  exact ⟨List.getElem?_eq_getElem hk, hp.1.1, hp.2⟩

theorem set_codes {native : List NativeInfo} {i : Nat} {n n' : NativeInfo}
    (h : native[i]? = some n) (heq : n'.papiCode = n.papiCode) :
    (native.set i n').map (·.papiCode) = native.map (·.papiCode) := by
  obtain ⟨hlt, rfl⟩ := List.getElem?_eq_some_iff.1 h
  rw [List.map_set, heq]
  refine List.ext_getElem? fun k => ?_
  rw [List.getElem?_set]
  split
  · next h =>
    subst h
    rw [List.length_map, if_pos hlt, List.getElem?_map, List.getElem?_eq_getElem hlt]
    rfl
  · rfl

theorem compactAt_codes (native : List NativeInfo) (i : Nat) :
    (compactAt native i).map (·.papiCode) = native.map (·.papiCode) := by
  unfold compactAt
  split
  · rfl
  · next n hn =>
    split
    · rfl
    · split
      · split
        · next j m hj =>
          obtain ⟨hm, hlt, -⟩ := lastOwned_eq_some hj
          have hm' : (native.set i { n with
              event := m.event, position := m.position, owners := m.owners })[j]? = some m := by
            rw [List.getElem?_set_ne (Nat.ne_of_lt hlt), hm]
          refine (set_codes hm' ?_).trans (set_codes hn ?_)
          · rfl
          · rfl
        · exact set_codes hn rfl
      · rfl

theorem compact_codes (native : List NativeInfo) :
    (compact native).map (·.papiCode) = native.map (·.papiCode) := by
  unfold compact
  generalize List.range native.length = is
  induction is generalizing native with
  | nil => rfl
  | cons i is ih => rw [List.foldl_cons, ih, compactAt_codes]

/-- A pass changes nothing in front of the entries that have no owners, if these are the last. -/
theorem compactAt_append {kept lost : List NativeInfo} (hkept : ∀ n ∈ kept, n.owners ≠ 0)
    (hlost : ∀ n ∈ lost, n.owners = 0) (i : Nat) : ∃ lost', compactAt (kept ++ lost) i =
      kept ++ lost' ∧ lost'.length = lost.length ∧ ∀ n ∈ lost', n.owners = 0 := by
  have hnone : kept.length ≤ i → lastOwned (kept ++ lost) i = none := by
    intro hi
    cases h : lastOwned (kept ++ lost) i with
    | none => rfl
    | some jn =>
      obtain ⟨j, n⟩ := jn
      obtain ⟨hn, hlt, hown⟩ := lastOwned_eq_some h
      rw [List.getElem?_append_right (by omega)] at hn
      exact absurd (hlost n (List.mem_of_getElem? hn)) hown
  unfold compactAt
  split
  · exact ⟨lost, rfl, rfl, hlost⟩
  · next n hn =>
    split
    · exact ⟨lost, rfl, rfl, hlost⟩
    · split
      · next hzero =>
        have hi : kept.length ≤ i := by
          refine Nat.not_lt.1 fun hlt => ?_
          rw [List.getElem?_append_left hlt] at hn
          exact hkept n (List.mem_of_getElem? hn) hzero
        rw [hnone hi]
        simp only
        rw [List.set_append_right _ _ hi]
        refine ⟨_, rfl, List.length_set .., fun m hm => ?_⟩
        rcases List.mem_or_eq_of_mem_set hm with hm | rfl
        · exact hlost m hm
        · exact hzero
      · exact ⟨lost, rfl, rfl, hlost⟩

theorem compact_append (kept lost : List NativeInfo) (hkept : ∀ n ∈ kept, n.owners ≠ 0)
    (hlost : ∀ n ∈ lost, n.owners = 0) :
    ∃ lost', compact (kept ++ lost) = kept ++ lost' ∧ lost'.length = lost.length := by
  unfold compact
  generalize List.range (kept ++ lost).length = is
  induction is generalizing lost with
  | nil => exact ⟨lost, rfl, rfl⟩
  | cons i is ih =>
    obtain ⟨lost₁, heq, hlen, hlost₁⟩ := compactAt_append hkept hlost i
    obtain ⟨lost₂, heq₂, hlen₂⟩ := ih lost₁ hlost₁
    exact ⟨lost₂, by rw [List.foldl_cons, heq, heq₂], hlen₂.trans hlen⟩

/-! ## Taking owners off -/

section
variable {L : Library}

/-- The entry of a native event with `own c` owners, also if these are none. -/
def entry (L : Library) (own : Int → Nat) (pos : Int → Int) (c : Int) : NativeInfo :=
  ⟨papiHwiEventcodeToNative L c, c, pos c, own c⟩

theorem map_row {ks : List Int} {own : Int → Nat} {pos : Int → Int} (h : ∀ c ∈ ks, own c ≠ 0) :
    ks.map (row L own pos) = ks.map (entry L own pos) :=
  List.map_congr_left fun c hc => row_pos (h c hc)

theorem matchesNative_entry {own : Int → Nat} {pos : Int → Int} {c x : Int} :
    matchesNative L c (entry L own pos x) ↔ x = c := by
  rw [entry, matchesNative, Bool.and_eq_true, decide_eq_true_iff, decide_eq_true_iff]
  constructor
  · exact fun h => h.2.symm
  · rintro rfl
    exact ⟨rfl, rfl⟩

/-- The owners of `rest` are taken off; an entry that has no others loses its last one once. -/
theorem releaseNative_entry {base : Int → Nat} {pos : Int → Int} {ks rest : List Int} (n : Nat)
    (hnd : ks.Nodup) (hrest : ∀ c ∈ rest, c ∈ ks) :
    releaseNative L rest (ks.map (entry L (owned base rest) pos)) n =
      (ks.map (entry L base pos), n + ks.countP fun c => base c = 0 ∧ c ∈ rest) := by
  induction rest generalizing n with
  | nil => simp [releaseNative, owned_nil]
  | cons c rest ih =>
    obtain ⟨hc, hrest⟩ := List.forall_mem_cons.1 hrest
    have hp : ∀ x ∈ ks, matchesNative L c (entry L (owned base (c :: rest)) pos x) ↔ x = c :=
      fun x _ => matchesNative_entry
    have hmod := modifyFirst_map (matchesNative L c)
      (fun n : NativeInfo => { n with owners := n.owners - 1 }) (entry L (owned base rest) pos) hnd
      hc hp (by
        simp only [entry, owned_cons_self]
        rw [Int.natCast_succ, Int.add_sub_cancel])
      fun x _ hx => by rw [entry, entry, owned_cons_ne base rest hx]
    have howners : (entry L (owned base (c :: rest)) pos c).owners - 1 = 0 ↔
        base c = 0 ∧ c ∉ rest := by
      have : ((owned base rest c + 1 : Nat) : Int) - 1 = 0 ↔ base c = 0 ∧ rest.count c = 0 := by
        rw [owned]
        omega
      rw [entry, owned_cons_self, ← List.count_eq_zero]
      exact this
    rw [releaseNative, find?_map _ hc hp]
    simp only
    rw [hmod, ih _ hrest]
    congr 1
    by_cases h : base c = 0 ∧ c ∉ rest
    · have := countP_eq_add_one (fun x => base x = 0 ∧ x ∈ c :: rest)
        (fun x => base x = 0 ∧ x ∈ rest) hnd hc (by simp [h.1]) (by simp [h.2])
        fun x _ hx => by simp [hx]
      rw [if_pos (howners.2 h), this]
      omega
    · rw [if_neg (fun h' => h (howners.1 h'))]
      refine congrArg (n + ·) (List.countP_congr fun x _ => ?_)
      by_cases hx : x = c
      · subst hx
        simp only [List.mem_cons, true_or, and_true, decide_eq_true_iff]
        tauto
      · simp [hx]

/-! ## What is left -/

theorem updateControlState_codes (openPeEvents : List Int → Int) (s : EventSetInfo) :
    ((updateControlState openPeEvents s).1.nativeInfoArray.take s.nativeCount).map (·.papiCode) =
      (s.nativeInfoArray.take s.nativeCount).map (·.papiCode) := by
  have htake : ((s.nativeInfoArray.take s.nativeCount).mapIdx (fun (i : Nat) n =>
      ({ n with position := i } : NativeInfo)) ++ s.nativeInfoArray.drop s.nativeCount).take
        s.nativeCount = (s.nativeInfoArray.take s.nativeCount).mapIdx fun (i : Nat) n =>
          ({ n with position := i } : NativeInfo) := by
    by_cases hle : s.nativeCount ≤ s.nativeInfoArray.length
    · exact List.take_left' (by rw [List.length_mapIdx, List.length_take]; omega)
    · rw [List.drop_eq_nil_of_le (by omega), List.append_nil, List.take_of_length_le]
      rw [List.length_mapIdx, List.length_take]
      omega
  rw [updateControlState]
  simp only
  rw [htake]
  refine List.ext_getElem? fun i => ?_
  rw [List.getElem?_map, List.getElem?_mapIdx, List.getElem?_map]
  cases (s.nativeInfoArray.take s.nativeCount)[i]? <;> rfl

section
variable {events ks : List Int} {s : EventSetInfo} {e : Int}

theorem uses_erase (L : Library) (he : e ∈ events) :
    uses L events = owned (uses L (events.erase e)) (nativeCodes L e) := by
  funext c
  have hperm := ((List.perm_cons_erase he).flatMap_right (nativeCodes L)).count_eq c
  rw [uses, hperm, List.flatMap_cons, List.count_append, owned, uses, Nat.add_comm]

/-- How many native events only the event `e` uses. -/
def lastUses (L : Library) (events ks : List Int) (e : Int) : Nat :=
  ks.countP fun c => uses L (events.erase e) c = 0

theorem Represents.release (h : Represents L events ks s) (he : e ∈ events) :
    releaseNative L (nativeCodes L e) (s.nativeInfoArray.take s.nativeCount) 0 =
      (ks.map (entry L (uses L (events.erase e)) (order ks)), lastUses L events ks e) := by
  obtain ⟨tail, hs⟩ := h.native
  have hmem : ∀ c ∈ nativeCodes L e, c ∈ ks :=
    fun c hc => (h.mem c).2 (List.mem_flatMap.2 ⟨e, he, hc⟩)
  have hlast : (ks.countP fun c => uses L (events.erase e) c = 0 ∧ c ∈ nativeCodes L e) =
      lastUses L events ks e := List.countP_congr fun c hc => by
    have hne := (h.uses_ne_zero c).2 hc
    rw [uses_erase L he, owned] at hne
    simp only [decide_eq_true_iff]
    refine and_iff_left_of_imp fun hzero => List.count_pos_iff.1 ?_
    omega
  rw [hs, holding_take, map_row fun c hc => (h.uses_ne_zero c).2 hc, uses_erase L he,
    releaseNative_entry 0 h.nodup hmem, hlast, Nat.zero_add]

/-- The first native events stay, as many as are still used. -/
theorem Represents.codes_of_removed (h : Represents L events ks s) (he : e ∈ events)
    {openPeEvents : List Int → Int} {s' : EventSetInfo} {retval : Int}
    (hrm : removeNativeEvents L openPeEvents s (nativeCodes L e) = (s', retval)) :
    (s'.nativeInfoArray.take s'.nativeCount).map (·.papiCode) =
      ks.take (ks.length - lastUses L events ks e) := by
  obtain ⟨tail, hs⟩ := h.native
  have hcount : s.nativeCount = ks.length := by rw [hs]; rfl
  have hcodes : (compact (ks.map (entry L (uses L (events.erase e)) (order ks)))).map (·.papiCode) =
      ks := by
    rw [compact_codes, List.map_map]
    exact List.map_id ks
  have hlen : (compact (ks.map (entry L (uses L (events.erase e)) (order ks)))).length =
      ks.length := by
    have := congrArg List.length hcodes
    rwa [List.length_map] at this
  have htake : ((compact (ks.map (entry L (uses L (events.erase e)) (order ks))) ++
      s.nativeInfoArray.drop s.nativeCount).take (s.nativeCount - lastUses L events ks e)).map
        (·.papiCode) = ks.take (ks.length - lastUses L events ks e) := by
    rw [List.take_append_of_le_length (by omega), List.map_take, hcodes, hcount]
  rw [removeNativeEvents, h.release he] at hrm
  simp only at hrm
  split at hrm
  · cases hrm
    exact htake
  · have hs' := congrArg Prod.fst hrm
    simp only at hs'
    rw [← hs']
    exact (updateControlState_codes openPeEvents { s with
      nativeInfoArray := compact (ks.map (entry L (uses L (events.erase e)) (order ks))) ++
        s.nativeInfoArray.drop s.nativeCount
      nativeCount := s.nativeCount - lastUses L events ks e }).trans htake

/-- If the native events that are no longer used are the last ones, the others stay as they are. -/
theorem Represents.remove_suffix (h : Represents L events ks s) (he : e ∈ events)
    {kept lost : List Int} (hks : ks = kept ++ lost)
    (hkept : ∀ c ∈ kept, uses L (events.erase e) c ≠ 0)
    (hlost : ∀ c ∈ lost, uses L (events.erase e) c = 0) (openPeEvents : List Int → Int) :
    ∃ tail retval, removeNativeEvents L openPeEvents s (nativeCodes L e) =
        (holding L { s with ctlState := kept } kept (uses L (events.erase e)) (order kept) tail,
          retval) ∧
      kept.length + tail.length = s.nativeInfoArray.length := by
  obtain ⟨tail, hs⟩ := h.native
  have hcount : s.nativeCount = ks.length := by rw [hs]; rfl
  have hdrop : s.nativeInfoArray.drop s.nativeCount = tail := by rw [hs, holding_drop]
  have hlen : s.nativeInfoArray.length = ks.length + tail.length := by
    rw [hs, holding, List.length_append, List.length_map]
  have hnd : kept.Nodup := (List.nodup_append.1 (hks ▸ h.nodup)).1
  have hlast : lastUses L events ks e = lost.length := by
    rw [lastUses, hks, List.countP_append, List.countP_eq_zero.2 fun c hc => by
      simpa using hkept c hc, Nat.zero_add, List.countP_eq_length.2 fun c hc =>
      decide_eq_true (hlost c hc)]
  have horder : ∀ c ∈ kept, order ks c = order kept c := fun c hc => hks ▸ order_append lost hc
  have hmap : kept.map (entry L (uses L (events.erase e)) (order ks)) =
      kept.map (row L (uses L (events.erase e)) (order kept)) := by
    rw [map_row hkept]
    exact List.map_congr_left fun c hc => by rw [entry, entry, horder c hc]
  obtain ⟨lost', hcompact, hlen'⟩ := compact_append
    (kept.map (entry L (uses L (events.erase e)) (order ks)))
    (lost.map (entry L (uses L (events.erase e)) (order ks)))
    (fun n hn => by
      obtain ⟨c, hc, rfl⟩ := List.mem_map.1 hn
      exact Int.natCast_ne_zero.2 (hkept c hc))
    (fun n hn => by
      obtain ⟨c, hc, rfl⟩ := List.mem_map.1 hn
      exact Int.natCast_eq_zero.2 (hlost c hc))
  have hstate : ({ s with
      nativeInfoArray := compact (ks.map (entry L (uses L (events.erase e)) (order ks))) ++
        s.nativeInfoArray.drop s.nativeCount
      nativeCount := s.nativeCount - lastUses L events ks e } : EventSetInfo) =
      holding L s kept (uses L (events.erase e)) (order kept) (lost' ++ tail) := by
    have hcount' : s.nativeCount - lastUses L events ks e = kept.length := by
      rw [hcount, hlast, hks, List.length_append, Nat.add_sub_cancel]
    rw [hcount', hdrop, holding, ← hmap, ← List.append_assoc, ← hcompact, ← List.map_append, ← hks]
  rw [List.length_map] at hlen'
  have hlenks := congrArg List.length hks
  rw [List.length_append] at hlenks
  rw [removeNativeEvents, h.release he]
  simp only
  rw [hstate]
  by_cases hzero : lastUses L events ks e = 0
  · have hnil : lost = [] := List.length_eq_zero_iff.1 (hlast ▸ hzero)
    have hctl : s.ctlState = kept := by rw [h.ctl, hks, hnil, List.append_nil]
    refine ⟨lost' ++ tail, papiOK, ?_, ?_⟩
    · rw [if_pos hzero, holding_ctlState s _ _ hctl]
    · rw [List.length_append]
      omega
  · refine ⟨lost' ++ tail, if kept.length = 0 then papiOK else openPeEvents kept, ?_, ?_⟩
    · rw [if_neg hzero, updateControlState_holding _ _ _ openPeEvents hnd hkept]
    · rw [List.length_append]
      omega

theorem lookup_eq (ks : List Int) (he : e ∈ events) (free : List EventInfo) :
    (events.map (infoOf L ks) ++ free).findIdx? (·.eventCode = e) = some (events.idxOf e) := by
  induction events with
  | nil => cases he
  | cons e' events ih =>
    rw [List.map_cons, List.cons_append, List.findIdx?_cons]
    by_cases heq : e' = e
    · subst heq
      rw [List.idxOf_cons_self]
      exact if_pos (decide_eq_true rfl)
    · have hcode : decide ((infoOf L ks e').eventCode = e) = false := decide_eq_false heq
      rw [hcode, ih ((List.mem_cons.1 he).resolve_left (Ne.symm heq)), List.idxOf_cons_ne _ heq]
      rfl

theorem takeWhile_cells {p : Preset} (hle : p.code.length ≤ eventsInDerivedEvent)
    (h : ∀ c ∈ p.code, c ≠ papiNull) : p.cells.takeWhile (· ≠ papiNull) = p.code := by
  obtain ⟨rest, hrest⟩ := cells_eq hle
  rw [hrest, List.takeWhile_append_of_pos (by simpa using h), List.takeWhile_cons_of_neg (by simp),
    List.append_nil]

/-- Removing an event that is in the set, other than a user defined one. -/
theorem Represents.removeEvent_ok (h : Represents L events ks s) (he : e ∈ events)
    (hkind : ¬isUserDefined e) {openPeEvents : List Int → Int} {s' : EventSetInfo}
    (hrm : papiHwiRemoveEvent L openPeEvents s e = (s', papiOK)) :
    ∃ s₁, removeNativeEvents L openPeEvents s (nativeCodes L e) = (s₁, papiOK) ∧
      s' = removeInfo s₁ (events.idxOf e) := by
  have hloaded := h.loaded e he
  obtain ⟨k, harray⟩ := h.info
  have hlookup : papiHwiLookupEventCodeIndex s e = some (events.idxOf e) := by
    rw [papiHwiLookupEventCodeIndex, harray, lookup_eq ks he]
  have hdone : ∀ {x : EventSetInfo × Int}, (if x.2 ≠ papiOK then (x.1, x.2) else
      (removeInfo x.1 (events.idxOf e), papiOK)) = (s', papiOK) →
      ∃ s₁, x = (s₁, papiOK) ∧ s' = removeInfo s₁ (events.idxOf e) := by
    rintro ⟨s₁, retval⟩ hx
    by_cases hretval : retval = papiOK
    · subst hretval
      rw [if_neg (by simp)] at hx
      cases hx
      exact ⟨s₁, rfl, rfl⟩
    · rw [if_pos hretval] at hx
      cases hx
      exact absurd rfl hretval
  rw [papiHwiRemoveEvent, hlookup] at hrm
  simp only at hrm
  split at hrm
  · next hpreset =>
    have hevent := eventOf_preset (L := L) hpreset
    have hcode : (L.preset (presetIndex e)).code = nativeCodes L e := by rw [nativeCodes, hevent]
    split at hrm
    · cases hrm
    split at hrm
    · cases hrm
    rw [takeWhile_cells (by rw [hcode]; exact hloaded.length_le)
      (by rw [hcode]; exact fun c hc => (hloaded.counted c hc).ne_null), hcode] at hrm
    exact hdone hrm
  next hpreset =>
  split at hrm
  · next hnative =>
    have hcode : nativeCodes L e = [e] := by rw [nativeCodes, eventOf_native hpreset hnative]
    split at hrm
    · cases hrm
    rw [hcode]
    exact hdone hrm
  next hnative =>
  rcases hloaded.kind with hk | hk | hk
  · exact absurd hk hpreset
  · exact absurd hk hnative
  · exact absurd hk hkind

theorem removeInfo_array {s : EventSetInfo} {k : Nat} (e : Int)
    (harray : s.eventInfoArray = events.map (infoOf L ks) ++ List.replicate k freeEventInfo)
    (hnumber : s.numberOfEvents = events.length) :
    (removeInfo s (events.idxOf e)).eventInfoArray =
      (events.erase e).map (infoOf L ks) ++ List.replicate (k + 1) freeEventInfo := by
  rw [removeInfo, harray, hnumber, List.take_left' (List.length_map _),
    List.drop_left' (List.length_map _), List.eraseIdx_map,
    ← List.erase_eq_eraseIdx_of_idxOf rfl, List.replicate_succ]

/-- The native events that are still used are the first ones: the set is as it should be. -/
theorem Represents.remove_of_suffix (h : Represents L events ks s) (he : e ∈ events)
    (hkind : ¬isUserDefined e) {openPeEvents : List Int → Int} {s' : EventSetInfo}
    (hrm : papiHwiRemoveEvent L openPeEvents s e = (s', papiOK)) {kept lost : List Int}
    (hks : ks = kept ++ lost) (hkept : ∀ c ∈ kept, uses L (events.erase e) c ≠ 0)
    (hlost : ∀ c ∈ lost, uses L (events.erase e) c = 0) :
    Represents L (events.erase e) kept s' := by
  obtain ⟨s₁, hs₁, rfl⟩ := h.removeEvent_ok he hkind hrm
  obtain ⟨tail, retval, hremove, hlen⟩ := h.remove_suffix he hks hkept hlost openPeEvents
  rw [hremove] at hs₁
  cases hs₁
  obtain ⟨k, harray⟩ := h.info
  have hmem : ∀ c, c ∈ kept ↔ c ∈ (events.erase e).flatMap (nativeCodes L) := by
    intro c
    constructor
    · exact fun hc => List.count_pos_iff.1 (Nat.pos_of_ne_zero (hkept c hc))
    · intro hused
      obtain ⟨e', he', hc⟩ := List.mem_flatMap.1 hused
      have hcks := (h.mem c).2 (List.mem_flatMap.2 ⟨e', List.mem_of_mem_erase he', hc⟩)
      rw [hks] at hcks
      rcases List.mem_append.1 hcks with hc | hc
      · exact hc
      · exact absurd hused (List.count_eq_zero.1 (hlost c hc))
  refine ⟨(List.nodup_append.1 (hks ▸ h.nodup)).1, hmem, h.distinct.erase e,
    fun e' he' => h.loaded e' (List.mem_of_mem_erase he'),
    fun e' he' => h.component e' (List.mem_of_mem_erase he'), ?_, ⟨k + 1, ?_⟩, ⟨tail, rfl⟩, rfl, ?_,
    ?_⟩
  · rw [List.length_erase_of_mem he, ← h.number]
    rfl
  · have hinfo : (events.erase e).map (infoOf L ks) = (events.erase e).map (infoOf L kept) := by
      refine List.map_congr_left fun e' he' => ?_
      have hplace : place ks (nativeCodes L e') = place kept (nativeCodes L e') := by
        rw [place, place]
        congr 1
        refine List.map_congr_left fun c hc => ?_
        rw [hks]
        exact order_append lost ((hmem c).2 (List.mem_flatMap.2 ⟨e', he', hc⟩))
      rw [infoOf, infoOf, hplace]
    rw [← hinfo]
    exact removeInfo_array e harray h.number
  · intro hneg
    rw [h.unassigned hneg]
    rfl
  · intro hcmp
    refine Eq.trans ?_ (h.room hcmp)
    rw [← hlen]
    simp only [removeInfo, holding]
    rw [List.length_append, List.length_map]

end

end

/-- Four native events, and the difference of the first two. -/
def smallLibrary : Library where
  tables := ⟨[⟨some "PAPI_BR_PRC", .derivedSub, none, [1073741824, 1073741825], ["A", "B"]⟩], []⟩
  nativeEvents := (List.range 4).map fun i => ⟨0, i⟩
  numComponents := 1
  numMpxCntrs _ := 4
  ntvCodeToName _ _ := papiOK

/-- The set of `PAPI_BR_PRC` and `B`. -/
def smallSet : EventSetInfo where
  cmpIdx := 0
  numberOfEvents := 2
  eventInfoArray := [
    ⟨-2147483648, [0, 1, -1, -1, -1, -1, -1, -1], none, .derivedSub⟩,
    ⟨1073741825, [1, -1, -1, -1, -1, -1, -1, -1], none, .notDerived⟩,
    freeEventInfo, freeEventInfo]
  nativeCount := 2
  nativeInfoArray := [⟨0, 1073741824, 0, 1⟩, ⟨1, 1073741825, 1, 2⟩, freeNativeInfo, freeNativeInfo]
  ctlState := [1073741824, 1073741825]

theorem smallLibrary_sound : smallLibrary.Sound where
  presets := by decide
  userDefined p hp := by cases hp

theorem smallSet_represents : Represents smallLibrary [-2147483648, 1073741825]
    [1073741824, 1073741825] smallSet where
  nodup := by decide
  mem c := by
    have hcodes : [-2147483648, 1073741825].flatMap (nativeCodes smallLibrary) =
        [1073741824, 1073741825, 1073741825] := by decide
    rw [hcodes]
    simp
  distinct := by decide
  loaded e he := by
    have hkind : ¬isUserDefined e := by
      revert e
      decide
    refine ⟨?_, ?_, ?_, ?_, ?_, ?_, fun h => absurd h hkind⟩ <;> revert e <;> decide
  component := by decide
  number := rfl
  info := ⟨2, by decide⟩
  native := ⟨[freeNativeInfo, freeNativeInfo], by decide⟩
  ctl := rfl
  unassigned h := absurd h (by decide)
  room _ := rfl

end PbdPapi.Derived
