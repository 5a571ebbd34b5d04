import PbdPapi.Proof.Calc

/-!
# Putting formulas together

`update_ops_string`, `ops_string_append` and `ops_string_merge` on formulas, as functions on their
codes: every one of them is a loop over the tokens (`rewrite_render`) that replaces operands.

The indices of native events are taken to be single digits, as all of them are where the events of
two formulas number at most ten; the texts then keep their lengths.
-/

set_option autoImplicit false

namespace PbdPapi.Derived

open Rpn Exec

/-! ## Tokens -/

theorem bar_not_mem_word (i : Item Ref Operator) : '|' ∉ word Ref.word i := by
  cases i with
  | push r =>
    intro h
    have := List.all_eq_true.1 (Ref.word r).operand _ h
    cases this
  | apply o => cases o <;> decide

theorem word_ne_nil (i : Item Ref Operator) : word Ref.word i ≠ [] := by
  cases i with
  | push r => exact (Ref.word r).ne_nil
  | apply o => exact List.cons_ne_nil _ _

theorem strtok_cons {s : Text} (hs : s ≠ []) (hbar : '|' ∉ s) (t : Text) :
    strtok (barred s ++ t) = s :: strtok t := by
  have : barred s ++ t = s ++ '|' :: t := by simp [barred]
  rw [strtok, this, List.splitOn_append_cons_self_of_not_mem hbar, List.filter_cons_of_pos (by
    simpa using hs)]
  rfl

theorem strtok_render (c : List (Item Ref Operator)) :
    strtok (render Ref.word c) = c.map (word Ref.word) := by
  induction c with
  | nil => rfl
  | cons i c ih =>
    have : render Ref.word (i :: c) = barred (word Ref.word i) ++ render Ref.word c := rfl
    rw [this, strtok_cons (word_ne_nil i) (bar_not_mem_word i), ih, List.map_cons]

theorem strcat_ok {cap : Nat} {dst src : Text} (h : dst.length + src.length < cap) :
    strcat cap dst src = .ok (dst ++ src) := if_pos h

/-- A loop over the tokens of a formula, where each of them has its chunk and the array has room
for all. -/
theorem rewrite_render (cap : Nat) (chunk : Text → Except Fault Text)
    (g : Item Ref Operator → Text) {c : List (Item Ref Operator)}
    (hchunk : ∀ i ∈ c, chunk (word Ref.word i) = .ok (g i)) (hcap : (c.flatMap g).length < cap) :
    rewrite cap chunk (render Ref.word c) = .ok (c.flatMap g) := by
  have hloop : ∀ (c : List (Item Ref Operator)) (new : Text),
      (∀ i ∈ c, chunk (word Ref.word i) = .ok (g i)) →
      new.length + (c.flatMap g).length < cap →
      (c.map (word Ref.word)).foldlM (fun new token => chunk token >>= strcat cap new) new =
        .ok (new ++ c.flatMap g) := by
    intro c
    induction c with
    | nil =>
      intro new _ _
      simp
      rfl
    | cons i c ih =>
      intro new hc hlen
      rw [List.flatMap_cons, List.length_append] at hlen
      rw [List.map_cons, List.foldlM_cons, hc i List.mem_cons_self]
      change (strcat cap new (g i) >>= _) = _
      rw [strcat_ok (by omega)]
      have := ih (new ++ g i) (fun j hj => hc j (List.mem_cons_of_mem _ hj))
        (by rw [List.length_append]; omega)
      rw [List.flatMap_cons, ← List.append_assoc]
      exact this
  rw [rewrite, strtok_render]
  simpa using hloop c [] hchunk (by simpa using hcap)

theorem isIndex_word (i : Item Ref Operator) :
    isIndex (word Ref.word i) = match i with
      | .push (.counter _) => true
      | _ => false := by
  cases i with
  | push r =>
    cases r with
    | counter k =>
      obtain ⟨c, s, hcs⟩ := List.exists_cons_of_ne_nil (Nat.toDigits_ne_nil (n := k) (b := 10))
      have hd : c.isDigit = true := isDigit_of_mem (n := k) (hcs ▸ List.mem_cons_self)
      change isIndex ('N' :: Nat.toDigits 10 k) = true
      rw [hcs]
      exact hd
    | mhz => rfl
    | const n =>
      change isIndex (Nat.toDigits 10 n) = false
      unfold isIndex
      split
      · next heq => exact absurd (heq ▸ List.mem_cons_self) (not_mem_digits (c := 'N') rfl n)
      · rfl
  | apply o => cases o <;> rfl

theorem atoi_tail {k : Nat} (hk : k < 10) : atoi (sprintfN k).tail = .ok k := by
  change atoi (Nat.toDigits 10 k) = _
  rw [atoi_digits, int, if_pos (by omega)]

theorem length_sprintfN {k : Nat} (hk : k < 10) : (sprintfN k).length = 2 := by
  rw [sprintfN, Nat.toDigits_of_lt_base hk]
  rfl

theorem sprintfIn_ok {cap k : Nat} (hcap : 2 < cap) (hk : k < 10) :
    sprintfIn cap k = .ok (sprintfN k) := if_pos (by rw [length_sprintfN hk]; exact hcap)

/-! ## Indices -/

/-- All native events of a code have an index below `n`. -/
def Below (n : Nat) (c : List (Item Ref Operator)) : Prop := ∀ k, .push (.counter k) ∈ c → k < n

/-- An operand with another index. -/
def Ref.reindex (f : Nat → Nat) : Ref → Ref
  | counter k => counter (f k)
  | r => r

def Item.reindex (f : Nat → Nat) : Item Ref Operator → Item Ref Operator
  | .push r => .push (r.reindex f)
  | .apply o => .apply o

theorem Below.reindex {m n : Nat} {f : Nat → Nat} {c : List (Item Ref Operator)}
    (hc : Below n c) (hf : ∀ k < n, f k < m) : Below m (c.map (Item.reindex f)) := by
  intro k hk
  obtain ⟨i, hi, heq⟩ := List.mem_map.1 hk
  cases i with
  | push r =>
    cases r with
    | counter j =>
      cases heq
      exact hf j (hc j hi)
    | mhz => cases heq
    | const a => cases heq
  | apply o => cases heq

theorem Below.mono {m n : Nat} (h : n ≤ m) {c : List (Item Ref Operator)} (hc : Below n c) :
    Below m c := fun k hk => Nat.lt_of_lt_of_le (hc k hk) h

theorem length_word_reindex {f : Nat → Nat} {i : Item Ref Operator} {c : List (Item Ref Operator)}
    (hi : i ∈ c) (hc : Below 10 c) (hf : ∀ k, .push (.counter k) ∈ c → f k < 10) :
    (word Ref.word (Item.reindex f i)).length = (word Ref.word i).length := by
  cases i with
  | push r =>
    cases r with
    | counter k => exact (length_sprintfN (hf k hi)).trans (length_sprintfN (hc k hi)).symm
    | mhz => rfl
    | const n => rfl
  | apply o => rfl

theorem render_flatMap (f : Nat → Nat) (c : List (Item Ref Operator)) :
    render Ref.word (c.map (Item.reindex f)) =
      c.flatMap fun i => barred (word Ref.word (Item.reindex f i)) := by
  rw [render, List.flatMap_map]

theorem length_render_reindex {f : Nat → Nat} {c : List (Item Ref Operator)} (hc : Below 10 c)
    (hf : ∀ k, .push (.counter k) ∈ c → f k < 10) :
    (render Ref.word (c.map (Item.reindex f))).length = (render Ref.word c).length := by
  rw [render_flatMap, render, List.length_flatMap, List.length_flatMap]
  refine congrArg _ (List.map_congr_left fun i hi => ?_)
  rw [barred, barred, List.length_append, List.length_append, length_word_reindex hi hc hf]

/-- A loop that gives every native event another index. -/
theorem rewrite_reindex (cap : Nat) (token : Text → Except Fault Text) {f : Nat → Nat}
    {c : List (Item Ref Operator)} (hc : Below 10 c)
    (hf : ∀ k, .push (.counter k) ∈ c → f k < 10) (hcap : (render Ref.word c).length < cap)
    (hindex : ∀ k, .push (.counter k) ∈ c → token (sprintfN k) = .ok (sprintfN (f k)))
    (hother : ∀ s, isIndex s = false → token s = .ok s) :
    rewrite cap (fun t => barred <$> token t) (render Ref.word c) =
      .ok (render Ref.word (c.map (Item.reindex f))) := by
  rw [render_flatMap]
  refine rewrite_render _ _ _ (fun i hi => ?_) ?_
  · suffices h : token (word Ref.word i) = .ok (word Ref.word (Item.reindex f i)) by
      rw [h]
      rfl
    cases i with
    | push r =>
      cases r with
      | counter k => exact hindex k hi
      | mhz => exact hother _ (isIndex_word (.push .mhz))
      | const n => exact hother _ (isIndex_word (.push (.const n)))
    | apply o => exact hother _ (isIndex_word (.apply o))
  · rw [← render_flatMap, length_render_reindex hc hf]
    exact hcap

/-! ## One index for another -/

/-- What `update_ops_string` makes of an index. -/
def updateIndex (oldIndex newIndex k : Nat) : Nat :=
  if k = oldIndex then newIndex else if oldIndex < k then k - 1 else k

theorem updateOpsString_render {c : List (Item Ref Operator)} {oldIndex newIndex : Nat}
    (hc : Below 10 c) (hnew : newIndex < 10) :
    updateOpsString (some (render Ref.word c)) oldIndex newIndex =
      .ok (some (render Ref.word (c.map (Item.reindex (updateIndex oldIndex newIndex))))) := by
  have hf : ∀ k < 10, updateIndex oldIndex newIndex k < 10 := by
    intro k hk
    unfold updateIndex
    split
    · exact hnew
    · split <;> omega
  have hrw := rewrite_reindex ((render Ref.word c).length + 20) (updateToken oldIndex newIndex) hc
    (fun k hk => hf k (hc k hk)) (by omega) (fun k hk => ?_) fun s hs => ?_
  · rw [updateOpsString, hrw]
    rfl
  · have hk := hc k hk
    have hidx : isIndex (sprintfN k) = true := isIndex_word (.push (.counter k))
    rw [updateToken, if_pos hidx, atoi_tail hk]
    change (if (k : Int) = oldIndex then _ else if (k : Int) > oldIndex then _ else _) = _
    unfold updateIndex
    by_cases h₁ : k = oldIndex
    · rw [if_pos (by omega), if_pos h₁, sprintfIn_ok (by decide) hnew]
    · rw [if_neg (by omega), if_neg h₁]
      by_cases h₂ : oldIndex < k
      · rw [if_pos (by omega), if_pos h₂]
        exact sprintfIn_ok (by decide) (by omega)
      · rw [if_neg (by omega), if_neg h₂]
        rfl
  · rw [updateToken, if_neg (by simp [hs])]
    rfl

theorem Item.reindex_reindex (f g : Nat → Nat) (c : List (Item Ref Operator)) :
    (c.map (Item.reindex f)).map (Item.reindex g) = c.map (Item.reindex fun k => g (f k)) := by
  rw [List.map_map]
  refine List.map_congr_left fun i _ => ?_
  cases i with
  | push r => cases r <;> rfl
  | apply o => rfl

theorem Item.reindex_congr {n : Nat} {f g : Nat → Nat} {c : List (Item Ref Operator)}
    (hc : Below n c) (h : ∀ k < n, f k = g k) :
    c.map (Item.reindex f) = c.map (Item.reindex g) := by
  refine List.map_congr_left fun i hi => ?_
  cases i with
  | push r =>
    cases r with
    | counter k => exact congrArg (fun j => Item.push (Ref.counter j)) (h k (hc k hi))
    | mhz => rfl
    | const n => rfl
  | apply o => rfl

/-- What the passes below `n` of the loop in `ops_string_append` make of an index. -/
def renumberIndex (count : Nat) : Nat → Nat → Nat
  | 0, k => k
  | i + 1, k => renumberIndex count i (updateIndex i (count + i) k)

/-- An index that has been moved is moved back again by every pass that follows. -/
theorem renumberIndex_moved {count n k : Nat} (h : n ≤ k) : renumberIndex count n k = k - n := by
  induction n generalizing k with
  | zero => rfl
  | succ n ih =>
    rw [renumberIndex, updateIndex, if_neg (by omega), if_pos (by omega), ih (by omega)]
    omega

theorem renumberIndex_eq {count n k : Nat} (h : k < n) : renumberIndex count n k = count := by
  induction n with
  | zero => exact absurd h (Nat.not_lt_zero k)
  | succ n ih =>
    rw [renumberIndex, updateIndex]
    by_cases hk : k = n
    · rw [if_pos hk, renumberIndex_moved (Nat.le_add_left ..)]
      exact Nat.add_sub_cancel ..
    · rw [if_neg hk, if_neg (by omega)]
      exact ih (by omega)

theorem renumber_render {c : List (Item Ref Operator)} {count n : Nat} (hc : Below 10 c)
    (h : count + n ≤ 10) :
    renumber (some (render Ref.word c)) count n =
      .ok (some (render Ref.word (c.map (Item.reindex (renumberIndex count n))))) := by
  induction n generalizing c with
  | zero =>
    have : c.map (Item.reindex (renumberIndex count 0)) = c := by
      rw [Item.reindex_congr hc (fun k _ => rfl : ∀ k < 10, renumberIndex count 0 k = id k)]
      refine (List.map_congr_left fun i _ => ?_).trans (List.map_id c)
      cases i with
      | push r => cases r <;> rfl
      | apply o => rfl
    rw [this]
    rfl
  | succ n ih =>
    have hf : ∀ k < 10, updateIndex n (count + n) k < 10 := by
      intro k hk
      unfold updateIndex
      split
      · omega
      · split <;> omega
    rw [renumber, updateOpsString_render hc (by omega)]
    change renumber _ count n = _
    rw [ih (hc.reindex hf) (by omega), Item.reindex_reindex]
    rfl

/-! ## Adding and subtracting events -/

theorem code_reindex (f : Nat → Nat) (t : Ast Ref Operator) :
    (t.map (Ref.reindex f)).code = t.code.map (Item.reindex f) := by
  induction t with
  | leaf r => rfl
  | node l o r ihl ihr =>
    simp only [Ast.map] at ihl ihr
    simp [Ast.map, Ast.bind, Ast.code, ihl, ihr, Item.reindex]

theorem push_mem_code {κ : Type} {t : Ast κ Operator} {k : κ} :
    .push k ∈ t.code ↔ k ∈ t.operands := by
  induction t with
  | leaf j => simp [Ast.code, Ast.operands]
  | node l o r ihl ihr => simp [Ast.code, Ast.operands, ihl, ihr]

/-- The operator with which a second event is appended. -/
def appendOp (addition : Bool) : Operator := if addition then .add else .sub

theorem opsStringAppend_render {results dependsOn : Preset} {c d : List (Item Ref Operator)}
    (hres : results.postfixOps = some (render Ref.word c))
    (hdep : dependsOn.derivedInt = .derivedPostfix)
    (hops : dependsOn.postfixOps = some (render Ref.word d)) (hd : Below dependsOn.count d)
    (hcount : results.count + dependsOn.count ≤ 10)
    (hlen : (render Ref.word c).length + (render Ref.word d).length + 2 < minStrLen)
    (addition : Bool) :
    opsStringAppend results dependsOn addition = .ok { results with
      postfixOps := some (render Ref.word (c ++
        d.map (Item.reindex fun _ => results.count) ++ [.apply (appendOp addition)]))
      derivedInt := .derivedPostfix } := by
  have hd10 : Below 10 d := hd.mono (by omega)
  have hd' : d.map (Item.reindex (renumberIndex results.count dependsOn.count)) =
      d.map (Item.reindex fun _ => results.count) :=
    Item.reindex_congr hd fun k hk => renumberIndex_eq hk
  have hlend : (render Ref.word (d.map (Item.reindex fun _ => results.count))).length =
      (render Ref.word d).length := by
    refine length_render_reindex hd10 fun k hk => ?_
    have := hd k hk
    omega
  have hstrncat : ∀ a b : Text, a.length + b.length < minStrLen → strncat a b = .ok (a ++ b) := by
    intro a b hab
    rw [strncat, List.take_of_length_le (by omega), strcat_ok hab]
  unfold opsStringAppend
  rw [hres, Option.getD_some, hstrncat [] _ (by simp only [List.length_nil]; omega)]
  simp only [Option.isSome_some, List.nil_append]
  change (appendEvent true results dependsOn (render Ref.word c) >>= _) = _
  have happend : appendEvent true results dependsOn (render Ref.word c) =
      .ok (some (render Ref.word c ++
        render Ref.word (d.map (Item.reindex fun _ => results.count)))) := by
    unfold appendEvent
    rw [hdep, hops]
    simp only [if_true]
    rw [renumber_render hd10 hcount, hd']
    change some <$> strncat _ _ = _
    rw [Option.getD_some, hstrncat _ _ (by omega)]
    rfl
  rw [happend]
  change (strcat minStrLen _ (barred [if addition then '+' else '-']) >>= _) = _
  rw [strcat_ok (by
    simp only [List.length_append, barred, List.length_cons, List.length_nil]
    omega)]
  have : barred [if addition then '+' else '-'] =
      render Ref.word [.apply (appendOp addition)] := by cases addition <;> rfl
  rw [this, render_append, render_append]
  rfl

/-- Sums of two native events. -/
def fills : Preset :=
  ⟨some "FILLS", .derivedPostfix, some "N0|N1|+|".toList, [1073741824, 1073741825], ["A", "B"]⟩

def misses : Preset :=
  ⟨some "MISSES", .derivedPostfix, some "N0|N1|+|".toList, [1073741826, 1073741827], ["C", "D"]⟩

/-- The native events that a code uses, as often as it does. -/
def indices (c : List (Item Ref Operator)) : Nat :=
  c.countP fun | .push (.counter _) => true | _ => false

/-- What `ops_string_merge` makes of an index of the original formula before it inserts. -/
def originalIndex (replaces insertEvents k : Nat) : Nat :=
  if replaces < k then k + insertEvents - 1 else k

/-- What `ops_string_merge` puts for an operand of the original formula. -/
def mergeRef (d : List (Item Ref Operator)) (replaces startIndex : Nat) :
    Ref → List (Item Ref Operator)
  | .counter k =>
    if originalIndex replaces (indices d) k = replaces then d.map (Item.reindex (· + startIndex))
    else [.push (.counter (originalIndex replaces (indices d) k))]
  | r => [.push r]

theorem countP_strtok (d : List (Item Ref Operator)) :
    (strtok (render Ref.word d)).countP isIndex = indices d := by
  rw [strtok_render, List.countP_map, indices]
  refine List.countP_congr fun i _ => ?_
  rw [Function.comp_apply, isIndex_word]

theorem insertion_render {d : List (Item Ref Operator)} {startIndex : Nat} (hd : Below 10 d)
    (hstart : ∀ k, .push (.counter k) ∈ d → k + startIndex < 10) :
    rewrite ((render Ref.word d).length + 20)
        (fun token => barred <$> insertionToken ((render Ref.word d).length + 10) startIndex token)
        (render Ref.word d) =
      .ok (render Ref.word (d.map (Item.reindex (· + startIndex)))) := by
  refine rewrite_reindex _ _ hd hstart (by omega) (fun k hk => ?_) fun s hs => ?_
  · have hidx : isIndex (sprintfN k) = true := isIndex_word (.push (.counter k))
    have hlt := hstart k hk
    have hint : int ((k : Int) + startIndex) = .ok ((k + startIndex : Nat) : Int) := by
      rw [int, if_pos (by omega), Int.natCast_add]
    rw [insertionToken, if_pos hidx, atoi_tail (hd k hk), ok_bind, hint, ok_bind,
      Int.toNat_natCast]
    exact sprintfIn_ok (by omega) hlt
  · rw [insertionToken, if_neg (by simp [hs])]
    rfl

theorem original_render {c : List (Item Ref Operator)} {replaces n : Nat} (hc : Below 10 c)
    (hshift : ∀ k, .push (.counter k) ∈ c → originalIndex replaces n k < 10) :
    rewrite ((render Ref.word c).length + 20)
        (fun token => barred <$>
          originalToken ((render Ref.word c).length + 10) replaces n token)
        (render Ref.word c) =
      .ok (render Ref.word (c.map (Item.reindex (originalIndex replaces n)))) := by
  refine rewrite_reindex _ _ hc hshift (by omega) (fun k hk => ?_) fun s hs => ?_
  · have hidx : isIndex (sprintfN k) = true := isIndex_word (.push (.counter k))
    have hlt := hshift k hk
    have hk := hc k hk
    rw [originalToken, if_pos hidx, atoi_tail hk, ok_bind]
    unfold originalIndex at hlt ⊢
    by_cases h : replaces < k
    · rw [if_pos h] at hlt
      have hint : int ((k : Int) + ((n : Int) - 1)) = .ok ((k + n - 1 : Nat) : Int) := by
        rw [int, if_pos (by omega), show ((k + n - 1 : Nat) : Int) = k + (n - 1) by omega]
      rw [if_pos (by omega), if_pos h, hint, ok_bind, Int.toNat_natCast]
      exact sprintfIn_ok (by omega) hlt
    · rw [if_neg (by omega), if_neg h]
      rfl
  · rw [originalToken, if_neg (by simp [hs])]
    rfl

/-- What the last loop of `ops_string_merge` puts for an item. -/
def mergeItem (d : List (Item Ref Operator)) (replaces startIndex : Nat) :
    Item Ref Operator → List (Item Ref Operator)
  | .push (.counter k) =>
    if k = replaces then d.map (Item.reindex (· + startIndex)) else [.push (.counter k)]
  | i => [i]

theorem mergeChunk_word {d : List (Item Ref Operator)} {replaces startIndex : Nat}
    (i : Item Ref Operator) (hi : Below 10 [i]) :
    mergeChunk replaces (render Ref.word (d.map (Item.reindex (· + startIndex))))
        (word Ref.word i) =
      .ok (render Ref.word (mergeItem d replaces startIndex i)) := by
  have hsingle : render Ref.word [i] = barred (word Ref.word i) := by simp [render]
  cases i with
  | push r =>
    cases r with
    | counter k =>
      have hk := hi k List.mem_cons_self
      have hidx : isIndex (sprintfN k) = true := isIndex_word (.push (.counter k))
      change mergeChunk _ _ (sprintfN k) = _
      rw [mergeChunk, if_pos hidx, atoi_tail hk, ok_bind, mergeItem]
      by_cases h : k = replaces
      · rw [if_pos h, if_pos (by omega)]
        rfl
      · rw [if_neg h, if_neg (by omega), hsingle]
        rfl
    | mhz =>
      rw [mergeChunk, isIndex_word, if_neg (by simp), mergeItem, hsingle]
      · rfl
      · simp
    | const n =>
      rw [mergeChunk, isIndex_word, if_neg (by simp), mergeItem, hsingle]
      · rfl
      · simp
  | apply o =>
    rw [mergeChunk, isIndex_word, if_neg (by simp), mergeItem, hsingle]
    · rfl
    · simp

theorem mergeItem_reindex (c d : List (Item Ref Operator)) (replaces startIndex : Nat) :
    (c.map (Item.reindex (originalIndex replaces (indices d)))).flatMap
        (mergeItem d replaces startIndex) =
      c.flatMap (Item.expand (mergeRef d replaces startIndex)) := by
  rw [List.flatMap_map]
  refine List.flatMap_congr fun i _ => ?_
  cases i with
  | push r => cases r <;> rfl
  | apply o => rfl

theorem opsStringMerge_render {c d : List (Item Ref Operator)} {replaces startIndex : Nat}
    (hc : Below 10 c) (hd : Below 10 d)
    (hstart : ∀ k, .push (.counter k) ∈ d → k + startIndex < 10)
    (hshift : ∀ k, .push (.counter k) ∈ c → originalIndex replaces (indices d) k < 10)
    (hlen : (render Ref.word (c.flatMap (Item.expand (mergeRef d replaces startIndex)))).length <
      (render Ref.word c).length + (render Ref.word d).length + 40) :
    opsStringMerge (some (render Ref.word c)) (some (render Ref.word d)) replaces startIndex =
      .ok (some (render Ref.word (c.flatMap (Item.expand (mergeRef d replaces startIndex))))) := by
  have hbelow : Below 10 (c.map (Item.reindex (originalIndex replaces (indices d)))) := by
    intro k hk
    obtain ⟨i, hi, heq⟩ := List.mem_map.1 hk
    cases i with
    | push r =>
      cases r with
      | counter j =>
        cases heq
        exact hshift j hi
      | mhz => cases heq
      | const a => cases heq
    | apply o => cases heq
  have htext : (c.map (Item.reindex (originalIndex replaces (indices d)))).flatMap
        (fun i => render Ref.word (mergeItem d replaces startIndex i)) =
      render Ref.word (c.flatMap (Item.expand (mergeRef d replaces startIndex))) := by
    rw [← mergeItem_reindex, render, List.flatMap_assoc]
    rfl
  have hmerge := rewrite_render ((render Ref.word c).length + (render Ref.word d).length + 40)
    (mergeChunk replaces (render Ref.word (d.map (Item.reindex (· + startIndex)))))
    (fun i => render Ref.word (mergeItem d replaces startIndex i))
    (fun i hi => mergeChunk_word i fun k hk => hbelow k (List.mem_singleton.1 hk ▸ hi))
    (by rw [htext]; exact hlen)
  rw [htext] at hmerge
  unfold opsStringMerge
  simp only [countP_strtok]
  rw [insertion_render hd hstart, ok_bind, if_neg (by omega), original_render hc hshift, ok_bind,
    hmerge]
  rfl

/-! ## What a merged formula computes -/

/-- The formula `u` in the place of the native event `replaces` of another, moved by `startIndex`;
the native events behind it make room. -/
def substitute (u : Ast Ref Operator) (replaces startIndex : Nat) : Ref → Ast Ref Operator
  | .counter k =>
    if k = replaces then u.map (Ref.reindex (· + startIndex))
    else .leaf (.counter (originalIndex replaces (indices u.code) k))
  | r => .leaf r

theorem mergeRef_code {u : Ast Ref Operator} (hu : indices u.code ≠ 0)
    (replaces startIndex : Nat) (r : Ref) :
    mergeRef u.code replaces startIndex r = (substitute u replaces startIndex r).code := by
  cases r with
  | counter k =>
    have : originalIndex replaces (indices u.code) k = replaces ↔ k = replaces := by
      unfold originalIndex
      split <;> omega
    rw [mergeRef, substitute]
    by_cases h : k = replaces
    · rw [if_pos (this.2 h), if_pos h, code_reindex]
    · rw [if_neg (fun h' => h (this.1 h')), if_neg h]
      rfl
  | mhz => rfl
  | const n => rfl

theorem opsStringMerge_code {t u : Ast Ref Operator} (replaces startIndex : Nat)
    (hu : indices u.code ≠ 0)
    (hstart : ∀ k, .counter k ∈ u.operands → k + startIndex < 10)
    (hshift : ∀ k, .counter k ∈ t.operands →
      k < 10 ∧ originalIndex replaces (indices u.code) k < 10)
    (hlen : (render Ref.word (t.bind (substitute u replaces startIndex)).code).length <
      (render Ref.word t.code).length + (render Ref.word u.code).length + 40) :
    opsStringMerge (some (render Ref.word t.code)) (some (render Ref.word u.code)) replaces
        startIndex =
      .ok (some (render Ref.word (t.bind (substitute u replaces startIndex)).code)) := by
  have hcode : t.code.flatMap (Item.expand (mergeRef u.code replaces startIndex)) =
      (t.bind (substitute u replaces startIndex)).code := by
    rw [code_bind, show mergeRef u.code replaces startIndex =
      fun r => (substitute u replaces startIndex r).code from
        funext (mergeRef_code hu replaces startIndex)]
  rw [← hcode] at hlen ⊢
  refine opsStringMerge_render (fun k hk => (hshift k (push_mem_code.1 hk)).1) (fun k hk => ?_)
    (fun k hk => hstart k (push_mem_code.1 hk)) (fun k hk => (hshift k (push_mem_code.1 hk)).2) hlen
  exact Nat.lt_of_le_of_lt (Nat.le_add_right ..) (hstart k (push_mem_code.1 hk))

end PbdPapi.Derived
