import PbdPapi.Proof.Owners

/-!
# Adding events to an event set

An event set represents a list of events and a list of native events (`Represents`): its arrays hold
what these two lists determine. Adding an event appends it, and those of its native events that are
new, or fails and changes nothing that counts (`Represents.add`).
-/

set_option autoImplicit false

namespace PbdPapi.Derived

open Keyed Exec

section
variable {L : Library}

/-! ## Positions -/

/-- The positions of native events, as an event keeps them. -/
def place (ks cs : List Int) : List Int :=
  cs.map (order ks) ++ List.replicate (eventsInDerivedEvent - cs.length) papiNull

/-- An event that can be added: it has native events, which the library knows. -/
structure Loaded (L : Library) (e : Int) : Prop where
  ne_null : e ≠ papiNull
  kind : isPreset e ∨ isNative e ∨ isUserDefined e
  ne_nil : nativeCodes L e ≠ []
  length_le : (nativeCodes L e).length ≤ eventsInDerivedEvent
  counted : ∀ c ∈ nativeCodes L e, Counted L c
  component : ∀ c ∈ nativeCodes L e, papiHwiComponentIndex L c = papiHwiComponentIndex L e
  own : isUserDefined e → ∀ c ∈ nativeCodes L e, ∀ c', Counted L c' →
    papiHwiComponentIndex L c' = papiHwiComponentIndex L c →
      papiHwiEventcodeToNative L c' = papiHwiEventcodeToNative L c → c' = c

theorem cells_eq {p : Preset} (h : p.code.length ≤ eventsInDerivedEvent) :
    ∃ rest, p.cells = p.code ++ papiNull :: rest := by
  have hlt : p.code.length < maxInfoTerms := Nat.lt_of_le_of_lt h (by decide)
  obtain ⟨k, hk⟩ := Nat.exists_eq_add_of_lt hlt
  refine ⟨(List.replicate maxInfoTerms 0).take k, ?_⟩
  rw [Preset.cells, List.take_append, List.take_of_length_le (Nat.le_of_lt hlt), hk,
    Nat.add_assoc, Nat.add_sub_cancel_left, List.take_succ_cons]

theorem mapSubevents_eq {native : List NativeInfo} {same : Int → NativeInfo → Bool}
    {f : Int → Int} {cs rest q r : List Int} (hcs : ∀ c ∈ cs, c ≠ papiNull)
    (hfind : ∀ c ∈ cs, ∃ n, native.find? (same c) = some n ∧ n.position = f c)
    (hq : q.length = cs.length) :
    mapSubevents native same (cs ++ papiNull :: rest) (q ++ r) = cs.map f ++ r := by
  induction cs generalizing q with
  | nil =>
    rw [List.length_eq_zero_iff.1 hq]
    cases r with
    | nil => rfl
    | cons x r => exact if_pos rfl
  | cons c cs ih =>
    obtain ⟨hc, hcs⟩ := List.forall_mem_cons.1 hcs
    obtain ⟨⟨n, hn, hpos⟩, hfind⟩ := List.forall_mem_cons.1 hfind
    obtain ⟨x, q, rfl⟩ := List.exists_cons_of_length_eq_add_one hq
    rw [List.cons_append, List.cons_append, mapSubevents, if_neg hc, hn,
      ih hcs hfind (by simpa using hq), List.map_cons, List.cons_append]
    simp only [hpos]

theorem Blank.shape {out : List Int} {n : Nat} (h : Blank out n) (hn : n ≤ eventsInDerivedEvent) :
    ∃ q, q.length = n ∧ out = q ++ List.replicate (eventsInDerivedEvent - n) papiNull := by
  have hlen := h.length
  refine ⟨out.take n, by rw [List.length_take]; omega, ?_⟩
  have hdrop : out.drop n = List.replicate (eventsInDerivedEvent - n) papiNull := by
    refine List.ext_getElem? fun j => ?_
    rw [List.getElem?_drop, List.getElem?_replicate]
    split
    · exact h.rest _ (Nat.le_add_right ..) (by omega)
    · exact List.getElem?_eq_none (by omega)
  rw [← hdrop, List.take_append_drop]

section
variable {s : EventSetInfo} {ks : List Int} {own : Int → Nat} {tail : List NativeInfo}

/-- An event gets the positions of its native events, whatever it had before. -/
theorem mapEvent_holding (hown : ∀ c ∈ ks, own c ≠ 0) (hks : ∀ c ∈ ks, Counted L c)
    {event : EventInfo} (hloaded : Loaded L event.eventCode)
    (hmem : ∀ c ∈ nativeCodes L event.eventCode, c ∈ ks)
    (hsame : ∀ c ∈ ks, papiHwiComponentIndex L c = papiHwiComponentIndex L event.eventCode)
    (hpos : Blank event.pos (nativeCodes L event.eventCode).length) :
    mapEvent L (holding L s ks own (order ks) tail) event =
      some { event with pos := place ks (nativeCodes L event.eventCode) } := by
  obtain ⟨q, hq, hshape⟩ := hpos.shape hloaded.length_le
  have hnull : ∀ c ∈ nativeCodes L event.eventCode, c ≠ papiNull :=
    fun c hc => (hloaded.counted c hc).ne_null
  unfold mapEvent
  rw [holding_take]
  simp only
  split
  · next hkind =>
    -- a preset event
    have hcode : (L.preset (presetIndex event.eventCode)).code = nativeCodes L event.eventCode := by
      rw [nativeCodes, eventOf, if_pos hkind]
    obtain ⟨rest, hcells⟩ := cells_eq (p := L.preset (presetIndex event.eventCode))
      (by rw [hcode]; exact hloaded.length_le)
    rw [hcells, hcode, hshape, mapSubevents_eq (f := order ks) hnull (fun c hc => ?_) hq]
    · rfl
    · refine ⟨_, find?_map _ (hmem c hc) fun x hx => ?_, ?_⟩
      · rw [decide_eq_true_iff]
        exact row_papiCode (hnull c hc) (hown c (hmem c hc))
      · rw [row_pos (hown c (hmem c hc))]
  · next hpreset =>
    split
    · next hkind =>
      -- a native event
      have hcode : nativeCodes L event.eventCode = [event.eventCode] := by
        rw [nativeCodes, eventOf, if_neg hpreset, if_pos hkind]
      rw [hcode] at hmem hq
      have hc := hmem _ List.mem_cons_self
      obtain ⟨x, rfl⟩ := List.length_eq_one_iff.1 hq
      rw [eventAlreadyInEventset_holding hown, if_pos hc, hcode, row_pos (hown _ hc), hshape, hcode]
      rfl
    · next hnative =>
      have hkind : isUserDefined event.eventCode := by
        rcases hloaded.kind with h | h | h
        · exact absurd h hpreset
        · exact absurd h hnative
        · exact h
      -- a user defined event
      have hcode : (L.userDefined (ueIndex event.eventCode)).code =
          nativeCodes L event.eventCode := by
        rw [nativeCodes, eventOf, if_neg hpreset, if_neg hnative, if_pos hkind]
      obtain ⟨rest, hcells⟩ := cells_eq (p := L.userDefined (ueIndex event.eventCode))
        (by rw [hcode]; exact hloaded.length_le)
      rw [if_pos hkind, hcells, hcode, hshape,
        mapSubevents_eq (f := order ks) hnull (fun c hc => ?_) hq]
      · rfl
      · refine ⟨_, find?_map _ (hmem c hc) fun x hx => ?_, ?_⟩
        · rw [row_pos (hown x hx), decide_eq_true_iff]
          constructor
          · have hcomponent := (hsame x hx).trans (hloaded.component c hc).symm
            exact fun h => hloaded.own hkind c hc x (hks x hx) hcomponent h.symm
          · rintro rfl
            rfl
        · rw [row_pos (hown c (hmem c hc))]

end

/-! ## Event sets -/

/-- The entry of an event. -/
def infoOf (L : Library) (ks : List Int) (e : Int) : EventInfo :=
  ⟨e, place ks (nativeCodes L e), (eventOf L e).postfixOps, (eventOf L e).derivedInt⟩

/-- How often events use a native event. -/
def uses (L : Library) (events : List Int) (c : Int) : Nat :=
  (events.flatMap (nativeCodes L)).count c

/-- The event set has the events `events`, in this order, and counts the native events `ks`. -/
structure Represents (L : Library) (events ks : List Int) (s : EventSetInfo) : Prop where
  nodup : ks.Nodup
  mem : ∀ c, c ∈ ks ↔ c ∈ events.flatMap (nativeCodes L)
  distinct : events.Nodup
  loaded : ∀ e ∈ events, Loaded L e
  component : ∀ e ∈ events, papiHwiComponentIndex L e = s.cmpIdx
  number : s.numberOfEvents = events.length
  info : ∃ k, s.eventInfoArray = events.map (infoOf L ks) ++ List.replicate k freeEventInfo
  native : ∃ tail, s = holding L s ks (uses L events) (order ks) tail
  ctl : s.ctlState = ks
  unassigned : s.cmpIdx < 0 → events = []
  room : 0 ≤ s.cmpIdx → s.nativeInfoArray.length = L.numMpxCntrs s.cmpIdx

theorem represents_create : Represents L [] [] papiHwiCreateEventset where
  nodup := List.nodup_nil
  mem c := by simp
  distinct := List.nodup_nil
  loaded := by simp
  component := by simp
  number := rfl
  info := ⟨0, rfl⟩
  native := ⟨[], rfl⟩
  ctl := rfl
  unassigned _ := rfl
  room h := absurd h (by decide)

theorem represents_assign (cidx : Int) : Represents L [] [] (papiHwiAssignEventset L cidx) where
  nodup := List.nodup_nil
  mem c := by simp
  distinct := List.nodup_nil
  loaded := by simp
  component := by simp
  number := rfl
  info := ⟨_, rfl⟩
  native := ⟨_, rfl⟩
  ctl := rfl
  unassigned _ := rfl
  room _ := List.length_replicate ..

section
variable {events ks : List Int} {s : EventSetInfo}

theorem Represents.uses_ne_zero (h : Represents L events ks s) (c : Int) :
    uses L events c ≠ 0 ↔ c ∈ ks := by
  rw [h.mem, uses, ← List.count_pos_iff]
  omega

theorem Represents.counted (h : Represents L events ks s) {c : Int} (hc : c ∈ ks) :
    Counted L c := by
  obtain ⟨e, he, hc⟩ := List.mem_flatMap.1 ((h.mem c).1 hc)
  exact (h.loaded e he).counted c hc

theorem Represents.component_eq (h : Represents L events ks s) {c : Int} (hc : c ∈ ks) :
    papiHwiComponentIndex L c = s.cmpIdx := by
  obtain ⟨e, he, hc⟩ := List.mem_flatMap.1 ((h.mem c).1 hc)
  exact ((h.loaded e he).component c hc).trans (h.component e he)

theorem getFree_eq (ks : List Int) {k : Nat} {e : Int} (hnull : ∀ e ∈ events, e ≠ papiNull) :
    getFreeEventCodeIndex e
        (events.map (infoOf L ks) ++ List.replicate k freeEventInfo) =
      if e ∈ events ∨ k = 0 ∨ e = papiNull then none else some events.length := by
  induction events with
  | nil =>
    cases k with
    | zero => rfl
    | succ k =>
      have hfree : freeEventInfo.eventCode = papiNull := rfl
      rw [List.map_nil, List.nil_append, List.replicate_succ, getFreeEventCodeIndex]
      by_cases he : e = papiNull
      · subst he
        rfl
      · rw [if_neg (by exact fun heq => he heq.symm),
          if_pos hfree, if_neg (by simpa using he)]
        rfl
  | cons e' events ih =>
    obtain ⟨he', hnull⟩ := List.forall_mem_cons.1 hnull
    rw [List.map_cons, List.cons_append, getFreeEventCodeIndex, ih hnull]
    by_cases heq : e' = e
    · subst heq
      rw [if_pos (by rfl), if_pos (.inl List.mem_cons_self)]
    · rw [if_neg (by exact heq), if_neg (by exact he')]
      have hmem : e ∈ e' :: events ↔ e ∈ events := by
        rw [List.mem_cons]
        exact or_iff_right fun h => heq h.symm
      simp only [hmem]
      split <;> rfl

theorem order_append {ks : List Int} (new : List Int) {c : Int} (hc : c ∈ ks) :
    order (ks ++ new) c = order ks c := by
  rw [order, order, List.idxOf_append_of_mem hc]

theorem mapEvents_eq (L : Library) {s : EventSetInfo} {f : EventInfo → EventInfo}
    {infos : List EventInfo} (free : List EventInfo)
    (hnull : ∀ event ∈ infos, event.eventCode ≠ papiNull)
    (h : ∀ event ∈ infos, mapEvent L s event = some (f event)) :
    mapEvents L s (infos ++ free) infos.length = .ok (infos.map f ++ free) := by
  induction infos with
  | nil => cases free <;> rfl
  | cons event infos ih =>
    obtain ⟨hevent, hnull⟩ := List.forall_mem_cons.1 hnull
    obtain ⟨hmap, h⟩ := List.forall_mem_cons.1 h
    rw [List.cons_append, List.length_cons, mapEvents, if_neg hevent, hmap]
    simp only
    rw [ih hnull h, ok_bind]
    rfl

theorem place_blank (ks cs : List Int) (h : cs.length ≤ eventsInDerivedEvent) :
    Blank (place ks cs) cs.length := by
  refine ⟨?_, fun j hj hlt => ?_⟩
  · rw [place, List.length_append, List.length_map, List.length_replicate]
    omega
  · rw [place, List.getElem?_append_right (by rwa [List.length_map]), List.length_map,
      List.getElem?_replicate, if_pos (by omega)]

theorem mapEventsToNative_holding {own : Int → Nat} (tail : List NativeInfo) {ks' : List Int}
    (hown : ∀ c ∈ ks', own c ≠ 0) (hks : ∀ c ∈ ks', Counted L c)
    (hcomponent : ∀ c ∈ ks', papiHwiComponentIndex L c = s.cmpIdx)
    (hloaded : ∀ e ∈ events, Loaded L e ∧ papiHwiComponentIndex L e = s.cmpIdx)
    (hmem : ∀ e ∈ events, ∀ c ∈ nativeCodes L e, c ∈ ks') {e : Int}
    (he : Loaded L e ∧ papiHwiComponentIndex L e = s.cmpIdx)
    (hemem : ∀ c ∈ nativeCodes L e, c ∈ ks') {out : List Int}
    (hout : Blank out (nativeCodes L e).length) {free : List EventInfo}
    (harray : s.eventInfoArray = events.map (infoOf L ks) ++
      ⟨e, out, (eventOf L e).postfixOps, (eventOf L e).derivedInt⟩ :: free)
    (hnumber : s.numberOfEvents = events.length + 1) :
    papiHwiMapEventsToNative L (holding L s ks' own (order ks') tail) =
      .ok (holding L { s with eventInfoArray := (events ++ [e]).map (infoOf L ks') ++ free } ks' own
        (order ks') tail) := by
  let infos := events.map (infoOf L ks) ++
    [⟨e, out, (eventOf L e).postfixOps, (eventOf L e).derivedInt⟩]
  have hinfos : ∀ event ∈ infos,
      (Loaded L event.eventCode ∧ papiHwiComponentIndex L event.eventCode = s.cmpIdx) ∧
      (∀ c ∈ nativeCodes L event.eventCode, c ∈ ks') ∧
      Blank event.pos (nativeCodes L event.eventCode).length := by
    intro event hevent
    rcases List.mem_append.1 hevent with hevent | hevent
    · obtain ⟨e', he', rfl⟩ := List.mem_map.1 hevent
      exact ⟨hloaded e' he', hmem e' he', place_blank _ _ (hloaded e' he').1.length_le⟩
    · cases List.mem_singleton.1 hevent
      exact ⟨he, hemem, hout⟩
  have hmap := mapEvents_eq L (s := holding L s ks' own (order ks') tail) free
    (fun event hevent => (hinfos event hevent).1.1.ne_null) fun event hevent => by
      obtain ⟨⟨hloaded', hcmp⟩, hmem', hblank⟩ := hinfos event hevent
      have hsame := fun c hc => (hcomponent c hc).trans hcmp.symm
      exact mapEvent_holding hown hks hloaded' hmem' hsame hblank
  have hlen : infos.length = events.length + 1 := by simp [infos]
  have harray' : s.eventInfoArray = infos ++ free := by
    rw [harray, List.append_assoc]
    rfl
  rw [hlen, ← hnumber, ← harray'] at hmap
  have hfinal : infos.map (fun event =>
      { event with pos := place ks' (nativeCodes L event.eventCode) }) =
        (events ++ [e]).map (infoOf L ks') := by
    rw [List.map_append, List.map_append, List.map_map]
    rfl
  rw [hfinal] at hmap
  rw [papiHwiMapEventsToNative]
  change (mapEvents L _ s.eventInfoArray s.numberOfEvents >>= _) = _
  rw [hmap]
  rfl

theorem uses_concat (L : Library) (events : List Int) (e : Int) :
    uses L (events ++ [e]) = owned (uses L events) (nativeCodes L e) := by
  funext c
  rw [uses, owned, uses, List.flatMap_append, List.count_append, List.flatMap_singleton]

/-- The event is appended with its native events, or nothing changes that counts. -/
theorem addEventAt_represents (h : Represents L events ks s) {openPeEvents : List Int → Int}
    (hopen : ∀ l, openPeEvents l ≤ 0) (hcmp : 0 ≤ s.cmpIdx) {e : Int} (he : e ∉ events)
    (hloaded : Loaded L e) (hcidx : papiHwiComponentIndex L e = s.cmpIdx) {cs : List Int}
    (hcs : nativeCodes L e = cs) {k : Nat} (harray :
      s.eventInfoArray = events.map (infoOf L ks) ++ List.replicate (k + 1) freeEventInfo)
    {fill : EventInfo → EventInfo} (hfill : ∀ out, fill { freeEventInfo with pos := out } =
      ⟨e, out, (eventOf L e).postfixOps, (eventOf L e).derivedInt⟩) :
    ∃ s' retval, addEventAt L openPeEvents s events.length cs fill = .ok (s', retval) ∧
      (retval = papiOK ∧ Represents L (events ++ [e]) (extend ks (nativeCodes L e)) s' ∨
        retval < 0 ∧ Represents L events ks s') := by
  subst hcs
  obtain ⟨tail, hs⟩ := h.native
  have hmax : ks.length + tail.length = L.numMpxCntrs s.cmpIdx := by
    have := h.room hcmp
    rw [hs] at this
    simpa [holding] using this
  have hcell : cell s.eventInfoArray (events.length : Int) = .ok freeEventInfo := cell_natCast (by
    rw [harray, List.getElem?_append_right (by rw [List.length_map]), List.length_map,
      Nat.sub_self]
    rfl)
  have hset : ∀ event, s.eventInfoArray.set events.length event =
      events.map (infoOf L ks) ++ event :: List.replicate k freeEventInfo := by
    intro event
    rw [harray, List.set_append_right _ _ (by rw [List.length_map]), List.length_map, Nat.sub_self,
      List.replicate_succ, List.set_cons_zero]
  have hfree : Blank freeEventInfo.pos 0 :=
    ⟨List.length_replicate .., fun j _ hlt => by
      rw [freeEventInfo, List.getElem?_replicate, if_pos hlt]⟩
  have hadd := addNativeEvents_holding s tail hopen h.nodup h.uses_ne_zero hloaded.counted hmax
    hfree hloaded.length_le h.ctl
  rw [← hs] at hadd
  rw [addEventAt, hcell, ok_bind]
  rcases hadd with ⟨tail', out, remap, hremap, hadd, htail, hout⟩ |
    ⟨tail', retval, hretval, hadd, htail⟩
  · have hks : ∀ c ∈ extend ks (nativeCodes L e), Counted L c := fun c hc =>
      (mem_extend.1 hc).elim h.counted (hloaded.counted c)
    have hcomponent : ∀ c ∈ extend ks (nativeCodes L e), papiHwiComponentIndex L c = s.cmpIdx :=
      fun c hc => (mem_extend.1 hc).elim h.component_eq
        fun hc => (hloaded.component c hc).trans hcidx
    have hown : ∀ c ∈ extend ks (nativeCodes L e),
        owned (uses L events) (nativeCodes L e) c ≠ 0 :=
      fun c => (owned_ne_zero h.uses_ne_zero).2
    have hold : ∀ e' ∈ events, ∀ c ∈ nativeCodes L e', c ∈ extend ks (nativeCodes L e) :=
      fun e' he' c hc => mem_extend.2 (.inl ((h.mem c).2 (List.mem_flatMap.2 ⟨e', he', hc⟩)))
    have hmap := mapEventsToNative_holding (s := { s with
        ctlState := extend ks (nativeCodes L e)
        eventInfoArray := s.eventInfoArray.set events.length
          ⟨e, out, (eventOf L e).postfixOps, (eventOf L e).derivedInt⟩
        numberOfEvents := s.numberOfEvents + 1 }) tail' hown hks hcomponent
      (fun e' he' => ⟨h.loaded e' he', h.component e' he'⟩) hold ⟨hloaded, hcidx⟩
      (fun c hc => mem_extend.2 (.inr hc)) hout (hset _) (by rw [← h.number])
    let s₁ : EventSetInfo := { s with
      ctlState := extend ks (nativeCodes L e)
      eventInfoArray := (events ++ [e]).map (infoOf L (extend ks (nativeCodes L e))) ++
        List.replicate k freeEventInfo
      numberOfEvents := s.numberOfEvents + 1 }
    refine ⟨holding L s₁ (extend ks (nativeCodes L e)) (owned (uses L events) (nativeCodes L e))
      (order (extend ks (nativeCodes L e))) tail', papiOK, ?_, .inl ⟨rfl, ?_⟩⟩
    · rw [hadd, ok_bind]
      simp only
      rw [if_neg (by omega), hfill]
      change (papiHwiMapEventsToNative L (holding L { s with
        ctlState := extend ks (nativeCodes L e)
        eventInfoArray := s.eventInfoArray.set events.length
          ⟨e, out, (eventOf L e).postfixOps, (eventOf L e).derivedInt⟩
        numberOfEvents := s.numberOfEvents + 1 } (extend ks (nativeCodes L e))
        (owned (uses L events) (nativeCodes L e)) (order (extend ks (nativeCodes L e))) tail') >>=
          _) = _
      rw [hmap]
      rfl
    · rw [← uses_concat]
      refine ⟨nodup_extend h.nodup _, fun c => ?_, ?_, ?_, ?_, ?_, ⟨k, rfl⟩, ⟨tail', rfl⟩, rfl,
        ?_, ?_⟩
      · rw [mem_extend, h.mem, List.flatMap_append, List.flatMap_singleton, List.mem_append]
      · exact List.nodup_append.2 ⟨h.distinct, List.pairwise_singleton _ _, fun a ha b hb heq =>
          he (List.mem_singleton.1 hb ▸ heq ▸ ha)⟩
      · intro e' he'
        rcases List.mem_append.1 he' with he' | he'
        · exact h.loaded e' he'
        · exact List.mem_singleton.1 he' ▸ hloaded
      · intro e' he'
        rcases List.mem_append.1 he' with he' | he'
        · exact h.component e' he'
        · exact List.mem_singleton.1 he' ▸ hcidx
      · rw [List.length_append, List.length_singleton, ← h.number]
        rfl
      · exact fun hneg => absurd hcmp (Int.not_le.2 hneg)
      · intro _
        simp only [holding]
        rw [List.length_append, List.length_map]
        exact htail
  · refine ⟨holding L s ks (uses L events) (order ks) tail', retval, ?_, .inr ⟨hretval, ?_⟩⟩
    · rw [hadd, ok_bind]
      simp only
      rw [if_pos hretval]
      have hsame : s.eventInfoArray.set events.length freeEventInfo = s.eventInfoArray := by
        rw [hset, harray, List.replicate_succ]
      change Except.ok ({ holding L s ks (uses L events) (order ks) tail' with
        eventInfoArray := s.eventInfoArray.set events.length freeEventInfo }, retval) = _
      rw [hsame]
      rfl
    · exact ⟨h.nodup, h.mem, h.distinct, h.loaded, h.component, h.number, h.info, ⟨tail', rfl⟩,
        h.ctl, h.unassigned, fun _ => by
          rw [holding, List.length_append, List.length_map]
          exact htail⟩

theorem Library.Sound.preset {i : Nat} (hL : L.Sound) :
    (L.preset i).code.length ≤ eventsInDerivedEvent ∧
      ∀ c ∈ (L.preset i).code, Counted L c ∧ papiHwiComponentIndex L c = 0 := by
  rw [Library.preset]
  cases h : L.tables.presets[i]? with
  | none => exact ⟨Nat.zero_le _, by simp [freePreset]⟩
  | some p => exact hL.presets p (List.mem_of_getElem? h)

theorem eventOf_preset {e : Int} (h : isPreset e) : eventOf L e = L.preset (presetIndex e) :=
  if_pos h

theorem eventOf_native {e : Int} (h₁ : ¬isPreset e) (h₂ : isNative e) :
    eventOf L e = ⟨none, .notDerived, none, [e], []⟩ := by
  rw [eventOf, if_neg h₁, if_pos h₂]

theorem eventOf_userDefined {e : Int} (h₁ : ¬isPreset e) (h₂ : ¬isNative e)
    (h₃ : isUserDefined e) : eventOf L e = L.userDefined (ueIndex e) := by
  rw [eventOf, if_neg h₁, if_neg h₂, if_pos h₃]

theorem not_isUserDefined_of_isPreset {e : Int} (h : isPreset e) : ¬isUserDefined e := by
  simp only [isPreset, isUserDefined, Bool.and_eq_true, Bool.not_eq_true'] at h ⊢
  simp [h.2]

theorem not_isUserDefined_of_isNative {e : Int} (h : isNative e) : ¬isUserDefined e := by
  simp only [isNative, isUserDefined, Bool.and_eq_true, Bool.not_eq_true'] at h ⊢
  simp [h.2]

/-- An event code has the type `int`. -/
def IsInt (e : Int) : Prop := -2 ^ 31 ≤ e ∧ e < 2 ^ 31

instance decidableIsInt (e : Int) : Decidable (IsInt e) := inferInstanceAs (Decidable (_ ∧ _))

theorem IsInt.native {e : Int} (h : IsInt e) (he : isNative e) : 2 ^ 30 ≤ e ∧ e < 2 ^ 31 := by
  simp only [isNative, nativeBit, presetBit, Bool.and_eq_true, Bool.not_eq_true',
    decide_eq_true_eq, decide_eq_false_iff_not] at he
  obtain ⟨h₁, h₂⟩ := h
  omega

theorem counted_of_query {e : Int} (hint : IsInt e) (hnative : isNative e)
    (h : papiHwiQueryNativeEvent L e = papiOK) : Counted L e := by
  unfold papiHwiQueryNativeEvent at h
  split at h
  · exact absurd h (by decide)
  · next hcmp =>
    split at h
    · next hneg => exact absurd h (Int.ne_of_lt hneg)
    · next hcode => exact ⟨hint.native hnative, Int.not_lt.1 hcmp, Int.not_lt.1 hcode⟩

/-- Adding an event to a set of a component: `_papi_hwi_add_event` behind its first check. -/
theorem addEventOf_represents (hL : L.Sound) (h : Represents L events ks s)
    {openPeEvents : List Int → Int} (hopen : ∀ l, openPeEvents l ≤ 0) (hcmp : 0 ≤ s.cmpIdx)
    {e : Int} (hint : IsInt e) (hcidx : papiHwiComponentIndex L e = s.cmpIdx) :
    ∃ s' retval, addEventOf L openPeEvents s e = .ok (s', retval) ∧
      (retval = papiOK ∧ Represents L (events ++ [e]) (extend ks (nativeCodes L e)) s' ∨
        retval < 0 ∧ Represents L events ks s') := by
  obtain ⟨k, harray⟩ := h.info
  have hfree := getFree_eq (L := L) ks (k := k) (e := e) fun e he => (h.loaded e he).ne_null
  rw [addEventOf, harray, hfree]
  by_cases hslot : e ∈ events ∨ k = 0 ∨ e = papiNull
  · rw [if_pos hslot]
    exact ⟨s, papiEcnflct, rfl, .inr ⟨by decide, h⟩⟩
  rw [if_neg hslot]
  obtain ⟨he, hk, hnull⟩ : e ∉ events ∧ k ≠ 0 ∧ e ≠ papiNull := by tauto
  obtain ⟨k, rfl⟩ := Nat.exists_eq_succ_of_ne_zero hk
  simp only
  by_cases hpreset : isPreset e
  · have hevent := eventOf_preset (L := L) hpreset
    rw [if_pos hpreset]
    split
    · exact ⟨s, papiEinval, rfl, .inr ⟨by decide, h⟩⟩
    split
    · exact ⟨s, papiEnoevnt, rfl, .inr ⟨by decide, h⟩⟩
    next hcount =>
    rw [← hevent]
    have hzero : papiHwiComponentIndex L e = 0 := if_pos hpreset
    refine addEventAt_represents h hopen hcmp he ⟨hnull, .inl hpreset, fun hnil => hcount ?_, ?_,
      ?_, ?_, fun hue => absurd hue (not_isUserDefined_of_isPreset hpreset)⟩ hcidx rfl harray
      fun out => rfl
    · rw [Preset.count, ← hevent, List.length_eq_zero_iff]
      exact hnil
    · rw [nativeCodes, hevent]
      exact hL.preset.1
    · rw [nativeCodes, hevent]
      exact fun c hc => (hL.preset.2 c hc).1
    · rw [nativeCodes, hevent, hzero]
      exact fun c hc => (hL.preset.2 c hc).2
  rw [if_neg hpreset]
  by_cases hnative : isNative e
  · have hevent := eventOf_native (L := L) hpreset hnative
    have hcodes : nativeCodes L e = [e] := by rw [nativeCodes, hevent]
    rw [if_pos hnative]
    split
    · exact ⟨s, papiEnoevnt, rfl, .inr ⟨by decide, h⟩⟩
    next hquery =>
    have hcounted := counted_of_query hint hnative (Decidable.not_not.1 hquery)
    refine addEventAt_represents h hopen hcmp he ⟨hnull, .inr (.inl hnative), ?_, ?_, ?_, ?_,
      fun hue => absurd hue (not_isUserDefined_of_isNative hnative)⟩ hcidx hcodes harray
      fun out => ?_
    · rw [hcodes]
      exact List.cons_ne_nil _ _
    · rw [hcodes]
      exact (by decide : 1 ≤ eventsInDerivedEvent)
    · rw [hcodes]
      exact fun c hc => List.mem_singleton.1 hc ▸ hcounted
    · rw [hcodes]
      exact fun c hc => List.mem_singleton.1 hc ▸ rfl
    · rw [hevent]
      rfl
  rw [if_neg hnative]
  by_cases hue : isUserDefined e
  · have hevent := eventOf_userDefined (L := L) hpreset hnative hue
    rw [if_pos hue]
    split
    · exact ⟨s, papiEinval, rfl, .inr ⟨by decide, h⟩⟩
    next hlt =>
    have hmem : L.userDefined (ueIndex e) ∈ L.tables.userDefined := by
      rw [Library.userDefined, List.getElem?_eq_getElem (Nat.not_le.1 hlt)]
      exact List.getElem_mem _
    obtain ⟨hne, hle, hcounted⟩ := hL.userDefined _ hmem
    rw [← hevent] at hne hle hcounted ⊢
    have hzero : papiHwiComponentIndex L e = 0 := by
      rw [papiHwiComponentIndex, if_neg hpreset, if_pos hue]
    refine addEventAt_represents h hopen hcmp he ⟨hnull, .inr (.inr hue), hne, hle,
      fun c hc => (hcounted c hc).1.1, ?_, fun _ c hc c' hc' hsame => ?_⟩ hcidx rfl harray
      fun out => rfl
    · rw [hzero]
      exact fun c hc => (hcounted c hc).1.2
    · exact (hcounted c hc).2 c' hc' (hsame.trans (hcounted c hc).1.2)
  · rw [if_neg hue]
    exact ⟨s, papiEbug, rfl, .inr ⟨by decide, h⟩⟩

/-- Adding an event appends it and its native events to an event set, or it fails and the event set
has the events and the native events that it had. -/
theorem Represents.add (hL : L.Sound) (h : Represents L events ks s)
    {openPeEvents : List Int → Int} (hopen : ∀ l, openPeEvents l ≤ 0) {e : Int} (hint : IsInt e) :
    ∃ s' retval, papiHwiAddEvent L openPeEvents s e = .ok (s', retval) ∧
      (retval = papiOK ∧ Represents L (events ++ [e]) (extend ks (nativeCodes L e)) s' ∨
        retval < 0 ∧ Represents L events ks s') := by
  unfold papiHwiAddEvent
  simp only
  split
  · exact ⟨s, papiEnocmp, rfl, .inr ⟨by decide, h⟩⟩
  next hcidx =>
  split
  · next hneg =>
    -- the first event
    obtain rfl := h.unassigned hneg
    have hnil : ks = [] := List.eq_nil_iff_forall_not_mem.2 fun c hc => by
      simpa using (h.mem c).1 hc
    subst hnil
    exact addEventOf_represents hL (represents_assign _) hopen (Int.not_lt.1 hcidx) hint rfl
  next hcmp =>
  split
  · exact ⟨s, papiEinval, rfl, .inr ⟨by decide, h⟩⟩
  next hsame =>
  exact addEventOf_represents hL h hopen (Int.not_lt.1 hcmp) hint (Decidable.not_not.1 hsame).symm

end

end

end PbdPapi.Derived
