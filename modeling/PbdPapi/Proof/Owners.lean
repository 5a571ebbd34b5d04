import PbdPapi.Papi.EventSet
import PbdPapi.Proof.Calc

/-!
# The native events of an event set

`add_native_events`: every native event of a new event has one owner more (`owned`), and those that
are new are put behind the others; or there is no room, or the component fails, and all of it is
taken back (`addNativeEvents_holding`).

The entries are rows of a table by native event (`row`, `holding`). While native events are added
or taken back, the owners of each are those that it had and the occurrences that are left.
-/

set_option autoImplicit false

namespace PbdPapi.Derived

open Keyed Exec

section
variable (L : Library)

/-- What an event is made of. -/
def eventOf (e : Int) : Preset :=
  if isPreset e then L.preset (presetIndex e)
  else if isNative e then ⟨none, .notDerived, none, [e], []⟩
  else if isUserDefined e then L.userDefined (ueIndex e)
  else freePreset

/-- The native events of an event. -/
def nativeCodes (e : Int) : List Int := (eventOf L e).code

/-- A native event that the library knows. -/
structure Counted (c : Int) : Prop where
  range : 2 ^ 30 ≤ c ∧ c < 2 ^ 31
  component : 0 ≤ papiHwiComponentIndex L c
  native : 0 ≤ papiHwiEventcodeToNative L c

instance decidableCounted (c : Int) : Decidable (Counted L c) :=
  decidable_of_iff ((2 ^ 30 ≤ c ∧ c < 2 ^ 31) ∧ 0 ≤ papiHwiComponentIndex L c ∧
    0 ≤ papiHwiEventcodeToNative L c) ⟨fun h => ⟨h.1, h.2.1, h.2.2⟩, fun h => ⟨h.1, h.2, h.3⟩⟩

/-- The derived events are made of native events of the first component, at most as many as there
are positions for. A user defined event is looked up by the component's code alone, so that no other
native event of the component may have it. -/
structure Library.Sound : Prop where
  presets : ∀ p ∈ L.tables.presets, p.code.length ≤ eventsInDerivedEvent ∧
    ∀ c ∈ p.code, Counted L c ∧ papiHwiComponentIndex L c = 0
  userDefined : ∀ p ∈ L.tables.userDefined, p.code ≠ [] ∧ p.code.length ≤ eventsInDerivedEvent ∧
    ∀ c ∈ p.code, (Counted L c ∧ papiHwiComponentIndex L c = 0) ∧
      ∀ c', Counted L c' → papiHwiComponentIndex L c' = 0 →
        papiHwiEventcodeToNative L c' = papiHwiEventcodeToNative L c → c' = c

/-- The entry of a native event with `own c` owners. -/
def row (own : Int → Nat) (pos : Int → Int) (c : Int) : NativeInfo :=
  if own c = 0 then freeNativeInfo else ⟨papiHwiEventcodeToNative L c, c, pos c, own c⟩

end

theorem Counted.ne_null {L : Library} {c : Int} (h : Counted L c) : c ≠ papiNull := by
  have := h.range.1
  unfold papiNull
  omega

theorem cell_natCast {α : Type} {a : List α} {i : Nat} {x : α} (h : a[i]? = some x) :
    cell a (i : Int) = .ok x := by
  rw [cell, if_neg (by omega), Int.toNat_natCast, h]

/-! ## Taking native events back -/

section
variable {L : Library}

theorem row_zero {own : Int → Nat} {pos : Int → Int} {c : Int} (h : own c = 0) :
    row L own pos c = freeNativeInfo := if_pos h

theorem row_pos {own : Int → Nat} {pos : Int → Int} {c : Int} (h : own c ≠ 0) :
    row L own pos c = ⟨papiHwiEventcodeToNative L c, c, pos c, own c⟩ := if_neg h

theorem row_congr {own own' : Int → Nat} {pos pos' : Int → Int} {c : Int} (h : own c = own' c)
    (hpos : pos c = pos' c) : row L own pos c = row L own' pos' c := by
  rw [row, row, h, hpos]

theorem row_papiCode {own : Int → Nat} {pos : Int → Int} {c x : Int} (hc : c ≠ papiNull)
    (hown : own c ≠ 0) : c = (row L own pos x).papiCode ↔ x = c := by
  unfold row
  split
  · next h =>
    constructor
    · exact fun heq => absurd heq hc
    · rintro rfl
      exact absurd h hown
  · exact eq_comm

/-- The owners of a native event, where those of `rest` are left to take off. -/
def owned (base : Int → Nat) (rest : List Int) (c : Int) : Nat := base c + rest.count c

theorem owned_cons_self (base : Int → Nat) (rest : List Int) (c : Int) :
    owned base (c :: rest) c = owned base rest c + 1 := by
  rw [owned, owned, List.count_cons_self, Nat.add_assoc]

theorem owned_cons_ne (base : Int → Nat) (rest : List Int) {c x : Int} (h : x ≠ c) :
    owned base (c :: rest) x = owned base rest x := by
  rw [owned, owned, List.count_cons_of_ne (Ne.symm h)]

theorem owned_nil (base : Int → Nat) : owned base [] = base := by
  funext c
  simp [owned]

theorem addNativeFailClean_rows {base : Int → Nat} {pos : Int → Int} {ks rest : List Int} {c : Int}
    {tail : List NativeInfo} {s : EventSetInfo} (hnd : ks.Nodup) (hc : c ∈ ks)
    (hcounted : Counted L c)
    (hs : s.nativeInfoArray = ks.map (row L (owned base (c :: rest)) pos) ++ tail)
    (hcount : s.nativeCount = ks.countP fun x => owned base (c :: rest) x ≠ 0) :
    addNativeFailClean L s c = some { s with
      nativeInfoArray := ks.map (row L (owned base rest) pos) ++ tail
      nativeCount := ks.countP fun x => owned base rest x ≠ 0 } := by
  have hown : owned base (c :: rest) c ≠ 0 := by
    rw [owned_cons_self]
    exact Nat.succ_ne_zero _
  have hp : ∀ x ∈ ks, decide (c = (row L (owned base (c :: rest)) pos x).papiCode) ↔ x = c :=
    fun x _ => by
      rw [decide_eq_true_iff]
      exact row_papiCode hcounted.ne_null hown
  have hfind := find?_map_append (c = ·.papiCode) hc hp tail
  have hne : ∀ x ∈ ks, x ≠ c →
      row L (owned base rest) pos x = row L (owned base (c :: rest)) pos x :=
    fun x _ hx => row_congr (owned_cons_ne base rest hx).symm rfl
  unfold addNativeFailClean
  rw [if_neg (Int.not_lt.2 hcounted.component), hs, hfind]
  simp only [row_pos hown]
  by_cases h : owned base rest c = 0
  · have hcount' := countP_eq_add_one (owned base (c :: rest) · ≠ 0) (owned base rest · ≠ 0) hnd hc
      (by simpa using hown) (by simpa using h) fun x _ hx => by rw [owned_cons_ne base rest hx]
    rw [if_pos (by rw [owned_cons_self, h]; rfl), hcount, hcount', Nat.add_sub_cancel,
      modifyFirst_map_append (c = ·.papiCode) (fun _ => freeNativeInfo)
        (row L (owned base rest) pos) hnd hc hp (row_zero h) hne]
  · have hcount' : ks.countP (fun x => owned base (c :: rest) x ≠ 0) =
        ks.countP fun x => owned base rest x ≠ 0 := List.countP_congr fun x _ => by
      by_cases hx : x = c
      · subst hx
        simp [h, hown]
      · rw [owned_cons_ne base rest hx]
    rw [if_neg (by rw [owned_cons_self]; omega),
      modifyFirst_map_append (c = ·.papiCode) (fun n => { n with owners := n.owners - 1 })
        (row L (owned base rest) pos) hnd hc hp ?_ hne, hcount, hcount']
    rw [row_pos h, row_pos hown, owned_cons_self, Int.natCast_succ, Int.add_sub_cancel]

/-- Taking back the native events of `rest`. -/
theorem failClean_rows {base : Int → Nat} {pos : Int → Int} {ks rest : List Int}
    {tail : List NativeInfo} {s : EventSetInfo} (out : List Int) (i : Nat) (hnd : ks.Nodup)
    (hrest : ∀ c ∈ rest, c ∈ ks ∧ Counted L c)
    (hs : s.nativeInfoArray = ks.map (row L (owned base rest) pos) ++ tail)
    (hcount : s.nativeCount = ks.countP fun x => owned base rest x ≠ 0)
    (hout : i + rest.length ≤ out.length) :
    ∃ out', failClean L rest i s out = .ok ({ s with
        nativeInfoArray := ks.map (row L base pos) ++ tail
        nativeCount := ks.countP fun x => base x ≠ 0 }, out') ∧
      out'.length = out.length ∧
      ∀ j, out'[j]? = if i ≤ j ∧ j < i + rest.length then some (-1) else out[j]? := by
  induction rest generalizing s i out with
  | nil =>
    rw [owned_nil] at hs hcount
    refine ⟨out, ?_, rfl, fun j => ?_⟩
    · rw [failClean, ← hs, ← hcount]
    · rw [if_neg]
      simp only [List.length_nil]
      omega
  | cons c rest ih =>
    obtain ⟨⟨hc, hcounted⟩, hrest⟩ := List.forall_mem_cons.1 hrest
    rw [List.length_cons] at hout
    rw [failClean, addNativeFailClean_rows hnd hc hcounted hs hcount]
    simp only
    rw [writeCell, if_pos (by omega), ok_bind]
    obtain ⟨out', h, hlen, hout'⟩ := ih (s := { s with
        nativeInfoArray := ks.map (row L (owned base rest) pos) ++ tail
        nativeCount := ks.countP fun x => owned base rest x ≠ 0 })
      (out.set i (-1)) (i + 1) hrest rfl rfl (by rw [List.length_set]; omega)
    refine ⟨out', h, by rw [hlen, List.length_set], fun j => ?_⟩
    rw [hout' j, List.getElem?_set, List.length_cons]
    by_cases hj : i = j
    · subst hj
      rw [if_neg (by omega), if_pos rfl, if_pos (by omega), if_pos (by omega)]
    · rw [if_neg hj]
      exact if_congr (by omega) rfl rfl

/-! ## Adding native events -/

/-- `out->pos`, with its first `n` positions written. -/
structure Blank (out : List Int) (n : Nat) : Prop where
  length : out.length = eventsInDerivedEvent
  rest : ∀ j, n ≤ j → j < eventsInDerivedEvent → out[j]? = some papiNull

theorem Blank.write {out : List Int} {n : Nat} (h : Blank out n) (x : Int) :
    Blank (out.set n x) (n + 1) :=
  ⟨by rw [List.length_set, h.length], fun j hj hlt => by
    rw [List.getElem?_set_ne (by omega)]
    exact h.rest j (by omega) hlt⟩

theorem Blank.mono {out : List Int} {n m : Nat} (h : Blank out n) (hle : n ≤ m) : Blank out m :=
  ⟨h.length, fun j hj => h.rest j (by omega)⟩

theorem matchesNative_row {own : Int → Nat} {pos : Int → Int} {c x : Int} (h : own x ≠ 0) :
    matchesNative L c (row L own pos x) ↔ x = c := by
  rw [row_pos h, matchesNative, Bool.and_eq_true, decide_eq_true_iff, decide_eq_true_iff]
  constructor
  · exact fun h => h.2.symm
  · rintro rfl
    exact ⟨rfl, rfl⟩

theorem owned_concat_self (base : Int → Nat) (done : List Int) (c : Int) :
    owned base (done ++ [c]) c = owned base done c + 1 := by
  rw [owned, owned, List.count_append, List.count_singleton_self, Nat.add_assoc]

theorem owned_concat_ne (base : Int → Nat) (done : List Int) {c x : Int} (h : x ≠ c) :
    owned base (done ++ [c]) x = owned base done x := by
  rw [owned, owned, List.count_append, List.count_singleton, if_neg (by simpa using Ne.symm h),
    Nat.add_zero]

theorem owned_ne_zero {base : Int → Nat} {codes done : List Int}
    (hbase : ∀ c, base c ≠ 0 ↔ c ∈ codes) {c : Int} :
    owned base done c ≠ 0 ↔ c ∈ extend codes done := by
  rw [mem_extend, ← hbase, owned, ← List.count_pos_iff]
  omega

theorem countP_owned {base : Int → Nat} {codes done : List Int}
    (hbase : ∀ c, base c ≠ 0 ↔ c ∈ codes) :
    (extend codes done).countP (fun x => owned base done x ≠ 0) = (extend codes done).length :=
  List.countP_eq_length.2 fun _ hx => decide_eq_true ((owned_ne_zero hbase).2 hx)

/-- Behind the native events that were there are free entries again. -/
theorem rows_extend (L : Library) {base : Int → Nat} {codes : List Int} (pos : Int → Int)
    (done : List Int) (hbase : ∀ c, base c ≠ 0 ↔ c ∈ codes) (hnd : codes.Nodup) :
    (∃ free, (extend codes done).map (row L base pos) = codes.map (row L base pos) ++ free) ∧
      (extend codes done).countP (fun x => base x ≠ 0) = codes.length := by
  obtain ⟨new, hnew⟩ := exists_extend codes done
  have hnd' := nodup_extend hnd done
  rw [hnew] at hnd' ⊢
  refine ⟨⟨_, List.map_append⟩, ?_⟩
  rw [List.countP_append, List.countP_eq_length.2 fun c hc => decide_eq_true ((hbase c).2 hc),
    List.countP_eq_zero.2, Nat.add_zero]
  intro c hc
  have : c ∉ codes := fun h => (List.nodup_append.1 hnd').2.2 c h c hc rfl
  simpa using mt (hbase c).1 this

/-- An event set with the native events `ks` in its array, and `tail` behind them. -/
def holding (L : Library) (s : EventSetInfo) (ks : List Int) (own : Int → Nat) (pos : Int → Int)
    (tail : List NativeInfo) : EventSetInfo :=
  { s with nativeInfoArray := ks.map (row L own pos) ++ tail, nativeCount := ks.length }

section
variable {s : EventSetInfo} {ks : List Int} {own : Int → Nat} {pos : Int → Int}
  {tail : List NativeInfo}

theorem holding_take : (holding L s ks own pos tail).nativeInfoArray.take
    (holding L s ks own pos tail).nativeCount = ks.map (row L own pos) :=
  List.take_left' (List.length_map _)

theorem holding_drop : (holding L s ks own pos tail).nativeInfoArray.drop
    (holding L s ks own pos tail).nativeCount = tail := List.drop_left' (List.length_map _)

theorem eventAlreadyInEventset_holding (hown : ∀ c ∈ ks, own c ≠ 0) (c : Int) :
    eventAlreadyInEventset L (holding L s ks own pos tail) c =
      if c ∈ ks then some (row L own pos c) else none := by
  have hp : ∀ x ∈ ks, matchesNative L c (row L own pos x) ↔ x = c :=
    fun x hx => matchesNative_row (hown x hx)
  rw [eventAlreadyInEventset, holding_take]
  split
  · next hc => exact find?_map _ hc hp
  · next hc =>
    rw [List.find?_eq_none]
    intro n hn
    obtain ⟨x, hx, rfl⟩ := List.mem_map.1 hn
    exact fun h => hc ((hp x hx).1 h ▸ hx)

end

section
variable {base : Int → Nat} {codes done cs : List Int} (s : EventSetInfo) (pos : Int → Int)
  (tail : List NativeInfo) {out : List Int} (added : Nat) {c : Int}

/-- A pass for a native event that is there: it has one owner more. -/
theorem addLoop_known (cs : List Int) (hnd : codes.Nodup) (hbase : ∀ c, base c ≠ 0 ↔ c ∈ codes)
    (hc : c ∈ extend codes done) (hout : done.length < out.length) : ∃ x,
    addLoop L done (c :: cs) (holding L s (extend codes done) (owned base done) pos tail) out
        added =
      addLoop L (done ++ [c]) cs (holding L s (extend codes (done ++ [c]))
        (owned base (done ++ [c])) pos tail) (out.set done.length x) added := by
  have hown : ∀ x ∈ extend codes done, owned base done x ≠ 0 := fun x => (owned_ne_zero hbase).2
  have hextend : extend codes (done ++ [c]) = extend codes done := by
    rw [extend_append, extend_singleton, if_pos hc]
  have hmod := modifyFirst_map (matchesNative L c)
    (fun n : NativeInfo => { n with owners := n.owners + 1 })
    (row L (owned base (done ++ [c])) pos) (nodup_extend hnd done) hc
    (fun x hx => matchesNative_row (hown x hx)) (by
      rw [row_pos (hown c hc), row_pos (by rw [owned_concat_self]; exact Nat.succ_ne_zero _),
        owned_concat_self, Int.natCast_succ])
    fun x _ hx => row_congr (owned_concat_ne base done hx) rfl
  refine ⟨(row L (owned base done) pos c).position, ?_⟩
  rw [addLoop, eventAlreadyInEventset_holding hown, if_pos hc]
  simp only
  rw [writeCell, if_pos hout, ok_bind, holding_take, holding_drop, hmod, hextend]
  rfl

/-- A pass for a native event that is new: it is put behind the others. -/
theorem addLoop_new (cs out : List Int) (hbase : ∀ c, base c ≠ 0 ↔ c ∈ codes)
    (hc : c ∉ extend codes done) (hroom : (extend codes done).length ≠ L.numMpxCntrs s.cmpIdx)
    (n : NativeInfo) :
    addLoop L done (c :: cs)
        (holding L s (extend codes done) (owned base done) pos (n :: tail)) out added =
      addLoop L (done ++ [c]) cs (holding L s (extend codes (done ++ [c]))
        (owned base (done ++ [c])) (fun x => if x = c then n.position else pos x) tail) out
        (added + 1) := by
  have hown : ∀ x ∈ extend codes done, owned base done x ≠ 0 := fun x => (owned_ne_zero hbase).2
  have hextend : extend codes (done ++ [c]) = extend codes done ++ [c] := by
    rw [extend_append, extend_singleton, if_neg hc]
  have hne : ∀ x ∈ extend codes done, x ≠ c := fun x hx heq => hc (heq ▸ hx)
  have hzero : owned base done c = 0 := by
    have := mt (owned_ne_zero hbase).1 hc
    omega
  have hcell : cell ((extend codes done).map (row L (owned base done) pos) ++ n :: tail)
      ((extend codes done).length : Int) = .ok n := cell_natCast (by
    rw [List.getElem?_append_right (by rw [List.length_map]), List.length_map, Nat.sub_self]
    rfl)
  have hset : ((extend codes done).map (row L (owned base done) pos) ++ n :: tail).set
        (extend codes done).length
        { n with event := papiHwiEventcodeToNative L c, papiCode := c, owners := 1 } =
      (extend codes (done ++ [c])).map (row L (owned base (done ++ [c]))
        fun x => if x = c then n.position else pos x) ++ tail := by
    have hmap : (extend codes done).map (row L (owned base done) pos) =
        (extend codes done).map (row L (owned base (done ++ [c]))
          fun x => if x = c then n.position else pos x) :=
      List.map_congr_left fun x hx => row_congr (owned_concat_ne base done (hne x hx)).symm
        (if_neg (hne x hx)).symm
    rw [List.set_append_right _ _ (by rw [List.length_map]), List.length_map, Nat.sub_self,
      List.set_cons_zero, hextend, List.map_append, hmap, List.append_assoc]
    congr 1
    rw [List.map_singleton, row_pos (by rw [owned_concat_self]; exact Nat.succ_ne_zero _),
      owned_concat_self, hzero, if_pos rfl]
    rfl
  rw [addLoop, eventAlreadyInEventset_holding hown, if_neg hc]
  have hroom' : (holding L s (extend codes done) (owned base done) pos (n :: tail)).nativeCount ≠
      L.numMpxCntrs (holding L s (extend codes done) (owned base done) pos (n :: tail)).cmpIdx :=
    hroom
  simp only
  rw [if_neg hroom']
  simp only [holding]
  rw [hcell, ok_bind, writeCell, if_pos (by
    rw [List.length_append, List.length_map, List.length_cons]; omega), ok_bind, hset]
  rw [hextend, List.length_append, List.length_singleton]

theorem blank_replicate {out : List Int} {n : Nat} (h : Blank out n) {out' : List Int}
    (hlen : out'.length = out.length)
    (hout' : ∀ j, out'[j]? = if 0 ≤ j ∧ j < 0 + n then some (-1) else out[j]?) :
    out' = List.replicate eventsInDerivedEvent papiNull := by
  refine List.ext_getElem? fun j => ?_
  rw [hout' j, List.getElem?_replicate]
  by_cases hlt : j < eventsInDerivedEvent
  · rw [if_pos hlt]
    split
    · rfl
    · exact h.rest j (by omega) hlt
  · have hnone : out'[j]? = none := List.getElem?_eq_none (by rw [hlen, h.length]; omega)
    rw [hout' j] at hnone
    rw [hnone, if_neg hlt]

/-- The native events `done` are taken back: those that are new leave free entries. -/
theorem failClean_holding (hnd : codes.Nodup) (hbase : ∀ c, base c ≠ 0 ↔ c ∈ codes)
    (hcounted : ∀ c ∈ done, Counted L c) (hout : Blank out done.length)
    (hdone : done.length ≤ eventsInDerivedEvent) : ∃ free,
    failClean L done 0 (holding L s (extend codes done) (owned base done) pos tail) out =
      .ok (holding L s codes base pos (free ++ tail),
        List.replicate eventsInDerivedEvent papiNull) ∧
      codes.length + free.length = (extend codes done).length := by
  have hmem : ∀ c ∈ done, c ∈ extend codes done ∧ Counted L c :=
    fun c hc => ⟨mem_extend.2 (.inr hc), hcounted c hc⟩
  obtain ⟨out', hclean, hlen, hout'⟩ := failClean_rows
    (s := holding L s (extend codes done) (owned base done) pos tail) out 0
    (nodup_extend hnd done) hmem rfl (countP_owned hbase).symm (by rw [hout.length]; omega)
  obtain ⟨⟨free, hfree⟩, hcount⟩ := rows_extend L pos done hbase hnd
  refine ⟨free, ?_, ?_⟩
  · rw [hclean, hcount, hfree, blank_replicate hout hlen hout', List.append_assoc]
    rfl
  · have := congrArg List.length hfree
    rw [List.length_append, List.length_map, List.length_map] at this
    exact this.symm

/-- What the loop of `add_native_events` does: all native events are owned once more, or there is no
room and none is. -/
theorem addLoop_holding (done : List Int) (out : List Int) (hnd : codes.Nodup)
    (hbase : ∀ c, base c ≠ 0 ↔ c ∈ codes) (hcounted : ∀ c ∈ done ++ cs, Counted L c)
    (hmax : (extend codes done).length + tail.length = L.numMpxCntrs s.cmpIdx)
    (hout : Blank out done.length) (hlen : done.length + cs.length ≤ eventsInDerivedEvent) :
    (∃ pos' tail' out' added',
      addLoop L done cs (holding L s (extend codes done) (owned base done) pos tail) out added =
        .ok (holding L s (extend codes (done ++ cs)) (owned base (done ++ cs)) pos' tail', out',
          some added') ∧
      added' + (extend codes done).length = added + (extend codes (done ++ cs)).length ∧
      (extend codes (done ++ cs)).length + tail'.length = L.numMpxCntrs s.cmpIdx ∧
      (∀ c ∈ codes, pos' c = pos c) ∧ Blank out' (done ++ cs).length) ∨
    ∃ pos' tail',
      addLoop L done cs (holding L s (extend codes done) (owned base done) pos tail) out added =
        .ok (holding L s codes base pos' tail', List.replicate eventsInDerivedEvent papiNull,
          none) ∧
      codes.length + tail'.length = L.numMpxCntrs s.cmpIdx ∧ ∀ c ∈ codes, pos' c = pos c := by
  induction cs generalizing done pos tail out added with
  | nil =>
    refine .inl ⟨pos, tail, out, added, ?_, ?_, ?_, fun _ _ => rfl, ?_⟩
    · rw [addLoop, List.append_nil]
    · rw [List.append_nil]
    · rwa [List.append_nil]
    · rwa [List.append_nil]
  | cons c cs ih =>
    have hdone : done ++ c :: cs = (done ++ [c]) ++ cs := by simp
    have hlength : (done ++ [c]).length = done.length + 1 := by simp
    rw [List.length_cons] at hlen
    rw [hdone] at hcounted ⊢
    by_cases hc : c ∈ extend codes done
    · have hextend : extend codes (done ++ [c]) = extend codes done := by
        rw [extend_append, extend_singleton, if_pos hc]
      obtain ⟨x, hx⟩ := addLoop_known s pos tail added cs hnd hbase hc
        (show done.length < out.length by rw [hout.length]; omega)
      have := ih pos tail added (done ++ [c]) (out.set done.length x) hcounted (by rwa [hextend])
        (by rw [hlength]; exact hout.write x) (by omega)
      rw [hextend] at this hx
      rwa [hx]
    · by_cases hroom : (extend codes done).length = L.numMpxCntrs s.cmpIdx
      · obtain ⟨free, hclean, hfree⟩ := failClean_holding s pos tail hnd hbase
          (fun c hc => hcounted c (by simp [hc])) hout (by omega)
        refine .inr ⟨pos, free ++ tail, ?_, ?_, fun _ _ => rfl⟩
        · have hown : ∀ x ∈ extend codes done, owned base done x ≠ 0 :=
            fun x => (owned_ne_zero hbase).2
          have hroom' : (holding L s (extend codes done) (owned base done) pos tail).nativeCount =
            L.numMpxCntrs (holding L s (extend codes done) (owned base done) pos tail).cmpIdx :=
              hroom
          rw [addLoop, eventAlreadyInEventset_holding hown, if_neg hc]
          simp only
          rw [if_pos hroom', hclean]
          rfl
        · rw [List.length_append]
          omega
      · obtain ⟨n, tail, rfl⟩ : ∃ n tail', tail = n :: tail' := by
          cases tail with
          | nil => exact absurd hmax hroom
          | cons n tail => exact ⟨n, tail, rfl⟩
        have hextend : extend codes (done ++ [c]) = extend codes done ++ [c] := by
          rw [extend_append, extend_singleton, if_neg hc]
        have hnew := addLoop_new s pos tail added cs out hbase hc hroom n
        have hlen' : (extend codes (done ++ [c])).length = (extend codes done).length + 1 := by
          rw [hextend, List.length_append, List.length_singleton]
        have hpos : ∀ x ∈ codes, (if x = c then n.position else pos x) = pos x :=
          fun x hx => if_neg fun heq : x = c => hc (mem_extend.2 (.inl (heq ▸ hx)))
        rw [hnew]
        rcases ih (fun x => if x = c then n.position else pos x) tail (added + 1) (done ++ [c]) out
          hcounted (by rw [hlen', ← hmax, List.length_cons]; omega)
          (by rw [hlength]; exact hout.mono (Nat.le_succ _)) (by omega) with
          ⟨pos', tail', out', added', h, hadded, htail, hpos', hout'⟩ |
          ⟨pos', tail', h, htail, hpos'⟩
        · exact .inl ⟨pos', tail', out', added', h, by omega, htail,
            fun x hx => (hpos' x hx).trans (hpos x hx), hout'⟩
        · exact .inr ⟨pos', tail', h, htail, fun x hx => (hpos' x hx).trans (hpos x hx)⟩

/-- The position of a native event. -/
def order (ks : List Int) (c : Int) : Int := ks.idxOf c

theorem holding_congr {ks : List Int} {own : Int → Nat} {pos' : Int → Int}
    (h : ∀ c ∈ ks, pos' c = pos c) :
    holding L s ks own pos' tail = holding L s ks own pos tail := by
  have : ks.map (row L own pos') = ks.map (row L own pos) :=
    List.map_congr_left fun c hc => row_congr rfl (h c hc)
  rw [holding, holding, this]

theorem updateControlState_holding (openPeEvents : List Int → Int) {ks : List Int}
    {own : Int → Nat} (hnd : ks.Nodup) (hown : ∀ c ∈ ks, own c ≠ 0) :
    updateControlState openPeEvents (holding L s ks own pos tail) =
      (holding L { s with ctlState := ks } ks own (order ks) tail,
        if ks.length = 0 then papiOK else openPeEvents ks) := by
  have hnumber : (ks.map (row L own pos)).mapIdx (fun (i : Nat) n =>
      ({ n with position := i } : NativeInfo)) = ks.map (row L own (order ks)) := by
    rw [mapIdx_map hnd]
    refine List.map_congr_left fun c hc => ?_
    rw [row_pos (hown c hc), row_pos (hown c hc)]
    rfl
  have hcodes : (ks.map (row L own (order ks))).map (·.papiCode) = ks := by
    rw [List.map_map]
    refine (List.map_congr_left fun c hc => ?_).trans (List.map_id ks)
    rw [Function.comp_apply, row_pos (hown c hc)]
    rfl
  unfold updateControlState
  simp only [holding_take, holding_drop, hnumber, hcodes]
  rfl

theorem holding_ctlState {ks : List Int} {own : Int → Nat} {l : List Int} (h : s.ctlState = l) :
    holding L { s with ctlState := l } ks own pos tail = holding L s ks own pos tail := by
  subst h
  rfl

/-- The native events of an event are added, or nothing changes. -/
theorem addNativeEvents_holding {openPeEvents : List Int → Int} (hopen : ∀ l, openPeEvents l ≤ 0)
    (hnd : codes.Nodup) (hbase : ∀ c, base c ≠ 0 ↔ c ∈ codes) (hcounted : ∀ c ∈ cs, Counted L c)
    (hmax : codes.length + tail.length = L.numMpxCntrs s.cmpIdx) (hout : Blank out 0)
    (hlen : cs.length ≤ eventsInDerivedEvent) (hctl : s.ctlState = codes) :
    (∃ tail' out' remap, 0 ≤ remap ∧
      addNativeEvents L openPeEvents (holding L s codes base (order codes) tail) cs out =
        .ok (holding L { s with ctlState := extend codes cs } (extend codes cs) (owned base cs)
          (order (extend codes cs)) tail', out', remap) ∧
      (extend codes cs).length + tail'.length = L.numMpxCntrs s.cmpIdx ∧
      Blank out' cs.length) ∨
    ∃ tail' retval, retval < 0 ∧
      addNativeEvents L openPeEvents (holding L s codes base (order codes) tail) cs out =
        .ok (holding L s codes base (order codes) tail',
          List.replicate eventsInDerivedEvent papiNull, retval) ∧
      codes.length + tail'.length = L.numMpxCntrs s.cmpIdx := by
  have hloop := addLoop_holding s (order codes) tail 0 [] out hnd hbase hcounted hmax hout
    (by simpa using hlen)
  rw [extend_nil, owned_nil] at hloop
  simp only [List.nil_append] at hloop
  have hnd' : (extend codes cs).Nodup := nodup_extend hnd cs
  have hown : ∀ c ∈ extend codes cs, owned base cs c ≠ 0 := fun c => (owned_ne_zero hbase).2
  rcases hloop with ⟨pos', tail', out', added, h, hadded, htail, hpos', hout'⟩ |
    ⟨pos', tail', h, htail, hpos'⟩
  · rw [addNativeEvents, h, ok_bind]
    simp only
    by_cases hzero : added = 0
    · -- all of them were there
      obtain ⟨new, hnew⟩ := exists_extend codes cs
      have hnil : new = [] := by
        rw [hnew, List.length_append] at hadded
        exact List.length_eq_zero_iff.1 (by omega)
      rw [hnil, List.append_nil] at hnew
      refine .inl ⟨tail', out', papiOK, Int.le_refl 0, ?_, htail, hout'⟩
      rw [if_pos hzero, hnew, holding_congr s (order codes) tail' hpos',
        holding_ctlState s _ _ hctl]
      rfl
    · -- the component is told
      have hks : (extend codes cs).length ≠ 0 := by
        intro hnil
        have : codes.length ≤ (extend codes cs).length := by
          obtain ⟨new, hnew⟩ := exists_extend codes cs
          rw [hnew, List.length_append]
          exact Nat.le_add_right ..
        omega
      rw [if_neg hzero, updateControlState_holding s pos' tail' openPeEvents hnd' hown]
      simp only
      rw [if_neg hks]
      by_cases hretval : openPeEvents (extend codes cs) = papiOK
      · refine .inl ⟨tail', out', 1, by decide, ?_, htail, hout'⟩
        rw [if_pos hretval]
        rfl
      · obtain ⟨free, hclean, hfree⟩ := failClean_holding
          { s with ctlState := extend codes cs } (order (extend codes cs)) tail' hnd hbase hcounted
          hout' hlen
        let retval2 := if codes.length = 0 then papiOK else openPeEvents codes
        have hneg : ∀ r : Int, r ≤ 0 → r ≠ papiOK → r < 0 := fun _ hle hne => lt_of_le_of_ne hle hne
        have hle : retval2 ≤ 0 := by
          simp only [retval2]
          split
          · exact Int.le_refl 0
          · exact hopen codes
        refine .inr ⟨free ++ tail', if retval2 ≠ papiOK then retval2 else
          openPeEvents (extend codes cs), ?_, ?_, ?_⟩
        · split
          · next h => exact hneg _ hle h
          · exact hneg _ (hopen _) hretval
        · rw [if_neg hretval, hclean, ok_bind]
          simp only
          rw [updateControlState_holding _ _ _ openPeEvents hnd fun c => (hbase c).2]
          simp only
          rw [holding_ctlState s _ _ hctl]
          rfl
        · rw [List.length_append]
          omega
  · refine .inr ⟨tail', papiEcount, by decide, ?_, htail⟩
    rw [addNativeEvents, h, ok_bind, holding_congr s (order codes) tail' hpos']
    rfl

end

end

end PbdPapi.Derived
