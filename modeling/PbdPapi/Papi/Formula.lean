import PbdPapi.Lib.Exec
import Mathlib.Algebra.Group.Int.Defs
import Mathlib.Algebra.Group.Nat.Defs
import Mathlib.Data.List.Basic

/-!
# Formulas of derived events

The formulas by which PAPI computes a derived event from its native events: `infix_to_postfix` and
the functions that put formulas together (`papi_preset.c`), and `_papi_hwi_postfix_calc` with the
other rules of `handle_derived` (`papi_internal.c`).

A string is the list of its characters, and a pointer into one is what is left of it, its
terminator included. What C leaves undefined is a `Fault`. The arithmetic of `double` is the record
`Double`.
-/

set_option autoImplicit false

namespace PbdPapi.Derived

/-- Undefined behaviour. -/
inductive Fault where
  /-- A read outside of an array. -/
  | read
  /-- A write outside of an array. -/
  | write
  /-- A signed integer that overflows. -/
  | overflow
  /-- An integer division by zero. -/
  | divide
deriving DecidableEq, Repr

abbrev Text := List Char

/-- `PAPI_HUGE_STR_LEN`, `PAPI_MIN_STR_LEN`, `PAPI_EVENTS_IN_DERIVED_EVENT` -/
def hugeStrLen : Nat := 1024
def minStrLen : Nat := 64
def eventsInDerivedEvent : Nat := 8

/-- `PAPI_NULL` -/
def papiNull : Int := -1

/-- The commands that compute a derived event. -/
inductive DerivedType where
  | notDerived
  | derivedAdd
  | derivedPs
  | derivedAddPs
  | derivedCmpd
  | derivedSub
  | derivedPostfix
  | derivedInfix
deriving DecidableEq, Repr

/-- `a[i]` -/
def cell {α : Type} (a : List α) (i : Int) : Except Fault α :=
  if i < 0 then .error .read
  else
    match a[i.toNat]? with
    | some x => .ok x
    | none => .error .read

/-- A value of type `int`. -/
def int (n : Int) : Except Fault Int :=
  if -2 ^ 31 ≤ n ∧ n < 2 ^ 31 then .ok n else .error .overflow

/-- A value of type `long long`. -/
def longLong (n : Int) : Except Fault Int :=
  if -2 ^ 63 ≤ n ∧ n < 2 ^ 63 then .ok n else .error .overflow

/-- `isspace` -/
def isspace (c : Char) : Bool := c = ' ' || ('\t' ≤ c && c ≤ '\r')

/-- The digits at the start of a text, as a number. -/
def leading (s : Text) : Nat := Nat.ofDigitChars 10 (s.takeWhile Char.isDigit) 0

/-- `atoi` -/
def atoi (s : Text) : Except Fault Int :=
  match s.dropWhile isspace with
  | '-' :: s => int (-leading s)
  | '+' :: s => int (leading s)
  | s => int (leading s)

/-- `sprintf(.., "N%d", n)` -/
def sprintfN (n : Nat) : Text := 'N' :: Nat.toDigits 10 n

/-- `strcat` onto a string in an array of `cap` characters. -/
def strcat (cap : Nat) (dst src : Text) : Except Fault Text :=
  if dst.length + src.length < cap then .ok (dst ++ src) else .error .write

/-- `strtok_r(s, "|", ..)`, until it has no token left. -/
def strtok (s : Text) : List Text := (s.splitOn '|').filter (· ≠ [])

/-! ## From infix to postfix -/

/-- `priority` -/
def priority : Char → Int
  | '@' => -1
  | '(' => 0
  | '+' | '-' => 1
  | '*' | '/' | '%' => 2
  | _ => 0

/-- The stack, its top first, and the postfix text so far. -/
structure Conversion where
  stack : List Char
  out : Text
deriving DecidableEq, Repr

/-- `push`, the error code of which no caller looks at -/
def push (symbol : Char) (s : Conversion) : Conversion :=
  if s.stack.length < hugeStrLen then { s with stack := symbol :: s.stack } else s

/-- `postfix[postfixlen++] = c` -/
def put (c : Char) (out : Text) : Except Fault Text :=
  if out.length < 2 * hugeStrLen then .ok (out ++ [c]) else .error .write

/-- `if (postfix[postfixlen-1]!='|') postfix[postfixlen++] = '|'` -/
def bar (out : Text) : Except Fault Text :=
  match out.getLast? with
  | none => .error .read
  | some c => if c = '|' then .ok out else put '|' out

/-- The body of the loops that pop: `postfix[postfixlen++] = pop(); postfix[postfixlen++] = '|'` -/
def putOp (c : Char) (out : Text) : Except Fault Text := put c out >>= put '|'

/-- Pop down to a character at which the loop stops. -/
def popUntil (stop : Char → Bool) : List Char → Text → Except Fault Conversion
  | [], _ => .error .read
  | c :: stack, out =>
    if stop c then .ok ⟨c :: stack, out⟩ else putOp c out >>= popUntil stop stack

/-- `while ( stack[stacktop] != '(' )` -/
def popParen (stack : List Char) (out : Text) : Except Fault Conversion :=
  popUntil (· = '(') stack out

/-- `while ( priority(stack[stacktop]) > priority(token) )` -/
def popAbove (token : Char) (stack : List Char) (out : Text) : Except Fault Conversion :=
  popUntil (fun c => !(priority c > priority token)) stack out

/-- `while ( stacktop>0 )` -/
def popAll : List Char → Text → Except Fault Text
  | c :: d :: stack, out => putOp c out >>= popAll (d :: stack)
  | _, out => .ok out

/-- The operators of the `switch`. -/
def isOperator (c : Char) : Bool :=
  c = '+' || c = '-' || c = '*' || c = '/' || c = '%' || c = '^'

/-- One pass of the loop over the infix text. -/
def convert (s : Conversion) (token : Char) : Except Fault Conversion :=
  if token = '(' then .ok (push token s)
  else if token = ')' then do
    let out ← bar s.out
    let s ← popParen s.stack out
    return { s with stack := s.stack.tail }
  else if isOperator token then do
    let out ← bar s.out
    let s ← popAbove token s.stack out
    return push token s
  else do
    let out ← put token s.out
    return { s with out := out }

/-- `infix_to_postfix` -/
def infixToPostfix (formula : Text) : Except Fault Text := do
  let s ← formula.foldlM convert ⟨['#'], []⟩
  let out ← bar s.out
  let out ← popAll s.stack out
  let _ ← put '\x00' out
  return out

/-! ## Putting formulas together -/

/-- `(subtoken[0] == 'N') && (isdigit(subtoken[1]))` -/
def isIndex : Text → Bool
  | 'N' :: c :: _ => c.isDigit
  | _ => false

/-- The loops over the tokens of a formula, that append a chunk for each of them to an array of
`cap` characters. -/
def rewrite (cap : Nat) (chunk : Text → Except Fault Text) (formula : Text) : Except Fault Text :=
  (strtok formula).foldlM (fun new token => chunk token >>= strcat cap new) []

/-- A token behind which a `|` is put. -/
def barred (token : Text) : Text := token ++ ['|']

/-- `sprintf (work, "N%d", n)` into an array of `cap` characters. -/
def sprintfIn (cap : Nat) (n : Nat) : Except Fault Text :=
  if (sprintfN n).length < cap then .ok (sprintfN n) else .error .write

/-- The token that `update_ops_string` puts for a token. -/
def updateToken (oldIndex newIndex : Nat) (token : Text) : Except Fault Text :=
  if isIndex token then do
    let cur ← atoi token.tail
    if cur = oldIndex then sprintfIn 10 newIndex
    else if cur > oldIndex then sprintfIn 10 (cur.toNat - 1)
    else return token
  else return token

/-- `update_ops_string` -/
def updateOpsString (formula : Option Text) (oldIndex newIndex : Nat) :
    Except Fault (Option Text) :=
  match formula with
  | none => .ok none
  | some formula => do
    let new ← rewrite (formula.length + 20)
      (fun token => barred <$> updateToken oldIndex newIndex token) formula
    return some new

/-- The token of an inserted formula, moved by `start_index`. -/
def insertionToken (cap startIndex : Nat) (token : Text) : Except Fault Text :=
  if isIndex token then do
    let val ← atoi token.tail
    let val ← int (val + startIndex)
    sprintfIn cap val.toNat
  else return token

/-- The token of the original formula, moved by what the inserted one takes. -/
def originalToken (cap : Nat) (replaces : Int) (insertEvents : Nat) (token : Text) :
    Except Fault Text :=
  if isIndex token then do
    let val ← atoi token.tail
    if val > replaces then
      let val ← int (val + (insertEvents - 1))
      sprintfIn cap val.toNat
    else return token
  else return token

/-- What the last loop of `ops_string_merge` appends for a token. -/
def mergeChunk (replaces : Int) (insertion token : Text) : Except Fault Text :=
  if isIndex token then do
    let val ← atoi token.tail
    return if replaces = val then insertion else barred token
  else return barred token

/-- `ops_string_merge` -/
def opsStringMerge (original insertion : Option Text) (replaces : Int) (startIndex : Nat) :
    Except Fault (Option Text) :=
  match insertion with
  | none =>
    match original with
    | none => .error .read
    | some ('|' :: original) => .ok (some original)
    | some original => .ok (some original)
  | some insertion => do
    let insertEvents := (strtok insertion).countP isIndex
    let newInsertion ← rewrite (insertion.length + 20)
      (fun token => barred <$> insertionToken (insertion.length + 10) startIndex token) insertion
    match original with
    | none => return some newInsertion
    | some original =>
      if replaces < 0 then return some original
      else do
        let newOriginal ← rewrite (original.length + 20)
          (fun token => barred <$>
            originalToken (original.length + 10) replaces insertEvents token) original
        let newFormula ← rewrite (original.length + insertion.length + 40)
          (mergeChunk replaces newInsertion) newOriginal
        return some newFormula

/-- `strncat(newFormula, src, sizeof(newFormula)-1)` in `ops_string_append` -/
def strncat (dst src : Text) : Except Fault Text := strcat minStrLen dst (src.take (minStrLen - 1))

/-- The loop `for ( i=depends_on->count-1 ; i>=0 ; i--)` of `ops_string_append`. -/
def renumber (formula : Option Text) (resultsCount : Nat) : Nat → Except Fault (Option Text)
  | 0 => .ok formula
  | i + 1 => do
    let formula ← updateOpsString formula i (resultsCount + i)
    renumber formula resultsCount i

/-- The fields of `hwi_presets_t` that make an event: its type, its formula and its native
events. -/
structure Preset where
  symbol : Option String
  derivedInt : DerivedType
  postfixOps : Option Text
  code : List Int
  name : List String
deriving DecidableEq, Repr

/-- `count` -/
def Preset.count (p : Preset) : Nat := p.code.length

/-- The `switch` of `ops_string_append`: the formula so far with the event's own behind it, or
`none` where the function gives up. -/
def appendEvent (second : Bool) (results dependsOn : Preset) (formula : Text) :
    Except Fault (Option Text) :=
  match dependsOn.derivedInt with
  | .derivedPostfix =>
    match dependsOn.postfixOps with
    | none => .ok none
    | some ops => do
      let temp ←
        if second then renumber (some ops) results.count dependsOn.count else .ok (some ops)
      some <$> strncat formula (temp.getD [])
  | .derivedAdd =>
    some <$> strcat minStrLen formula
      (barred (sprintfN results.count) ++ barred (sprintfN (results.count + 1)) ++ barred ['+'])
  | .derivedSub =>
    some <$> strcat minStrLen formula
      (barred (sprintfN results.count) ++ barred (sprintfN (results.count + 1)) ++ barred ['-'])
  | .notDerived => some <$> strcat minStrLen formula (barred (sprintfN results.count))
  | _ => .ok none

/-- `ops_string_append`, for the sum if `addition` holds and the difference if not -/
def opsStringAppend (results dependsOn : Preset) (addition : Bool) : Except Fault Preset := do
  let second := results.postfixOps.isSome
  let formula ← strncat [] (results.postfixOps.getD [])
  match ← appendEvent second results dependsOn formula with
  | none => return results
  | some formula =>
    if second then do
      let formula ← strcat minStrLen formula (barred [if addition then '+' else '-'])
      return { results with postfixOps := some formula, derivedInt := .derivedPostfix }
    else return { results with postfixOps := some formula }

/-! ## Computing a derived event -/

/-- The arithmetic of `double`. -/
structure Double (D : Type) where
  ofInt : Int → D
  add : D → D → D
  sub : D → D → D
  mul : D → D → D
  div : D → D → D
  /-- `(long long) x` -/
  toLongLong : D → Int

/-- `EventInfo_t` -/
structure EventInfo where
  eventCode : Int
  pos : List Int
  ops : Option Text
  derived : DerivedType
deriving DecidableEq, Repr

/-- `handle_derived_add`, from `i` on, at most `PAPI_EVENTS_IN_DERIVED_EVENT` positions -/
def handleDerivedAdd (from' : List Int) : Nat → List Int → Int → Except Fault Int
  | 0, _, retval => .ok retval
  | _ + 1, [], _ => .error .read
  | n + 1, pos :: position, retval =>
    if pos = papiNull then .ok retval
    else do
      let x ← cell from' pos
      let retval ← longLong (retval + x)
      handleDerivedAdd from' n position retval

/-- The loop of `handle_derived_subtract`. -/
def subtractLoop (from' : List Int) : Nat → List Int → Int → Except Fault Int
  | 0, _, retval => .ok retval
  | _ + 1, [], _ => .error .read
  | n + 1, pos :: position, retval =>
    if pos = papiNull then .ok retval
    else do
      let x ← cell from' pos
      let retval ← longLong (retval - x)
      subtractLoop from' n position retval

/-- `handle_derived_subtract` -/
def handleDerivedSubtract (position from' : List Int) : Except Fault Int := do
  let x ← cell from' (← cell position 0)
  subtractLoop from' (eventsInDerivedEvent - 1) position.tail x

/-- `units_per_second` -/
def unitsPerSecond (cpuMaxMhz units cycles : Int) : Except Fault Int := do
  let x ← longLong (units * cpuMaxMhz)
  let x ← longLong (x * 1000000)
  if cycles = 0 then .error .divide else longLong (x.tdiv cycles)

/-- `handle_derived_ps` -/
def handleDerivedPs (cpuMaxMhz : Int) (position from' : List Int) : Except Fault Int := do
  unitsPerSecond cpuMaxMhz (← cell from' (← cell position 1)) (← cell from' (← cell position 0))

/-- `handle_derived_add_ps` -/
def handleDerivedAddPs (cpuMaxMhz : Int) (position from' : List Int) : Except Fault Int := do
  let tmp ← handleDerivedAdd from' eventsInDerivedEvent position.tail 0
  unitsPerSecond cpuMaxMhz tmp (← cell from' (← cell position 0))

/-- `while ( *point != '|' )`, then `point++` -/
def skipBar : Text → Except Fault Text
  | [] => .error .read
  | c :: point => if c = '|' then .ok point else skipBar point

/-- The characters up to the next `|`, written to `operand[i]` and on, and what is behind it; the
terminator of `operand` has to fit too. -/
def operandLoop : Nat → Text → Except Fault (Text × Text)
  | _, [] => .error .read
  | i, c :: point =>
    if 16 ≤ i then .error .write
    else if c = '|' then .ok ([], point)
    else do
      let (operand, point) ← operandLoop (i + 1) point
      return (c :: operand, point)

/-- The loop that reads an operand: its first character is taken in any case. -/
def readOperand : Text → Except Fault (Text × Text)
  | [] => .error .read
  | c :: point => do
    let (operand, point) ← operandLoop 1 point
    return (c :: operand, point)

section
variable {D : Type} (F : Double D) (cpuMaxMhz : Int) (evi : EventInfo) (hwCounter : List Int)

/-- `stack[top] = x; top++` -/
def pushValue (x : D) (stack : List D) : Except Fault (List D) :=
  if stack.length < eventsInDerivedEvent then .ok (x :: stack) else .error .write

/-- `stack[top - 2] = op(stack[top - 2], stack[top - 1]); top--` -/
def applyTop (op : D → D → D) : List D → Except Fault (List D)
  | b :: a :: stack => .ok (op a b :: stack)
  | _ => .error .read

/-- The branch of an operator. -/
def calcOp (op : D → D → D) (point : Text) (stack : List D) : Except Fault (Text × List D) := do
  let stack ← applyTop op stack
  let point ← skipBar point
  return (point, stack)

/-- One pass of the loop of `_papi_hwi_postfix_calc`: the character at `point`, and what is behind
it. -/
def calcStep (c : Char) (point : Text) (stack : List D) : Except Fault (Text × List D) :=
  if c = '|' then .ok (point, stack)
  else if c = 'N' then do
    let (operand, point) ← readOperand point
    let x ← cell hwCounter (← cell evi.pos (← atoi operand))
    let stack ← pushValue (F.ofInt x) stack
    return (point, stack)
  else if c = '#' then do
    let stack ← pushValue (F.mul (F.ofInt cpuMaxMhz) (F.ofInt 1000000)) stack
    let point ← skipBar point
    return (point, stack)
  else if c.isDigit then do
    let (operand, point) ← readOperand (c :: point)
    let stack ← pushValue (F.ofInt (← atoi operand)) stack
    return (point, stack)
  else if c = '+' then calcOp F.add point stack
  else if c = '-' then calcOp F.sub point stack
  else if c = '*' then calcOp F.mul point stack
  else if c = '/' then calcOp F.div point stack
  else do
    let point ← skipBar point
    return (point, stack)

end

/-! Each pass gets on. -/

theorem skipBar_length {p q : Text} (h : skipBar p = .ok q) : q.length < p.length := by
  induction p with
  | nil => cases h
  | cons c p ih =>
    rw [skipBar] at h
    split at h
    · cases h
      exact Nat.lt_succ_self _
    · exact Nat.lt_succ_of_lt (ih h)

theorem operandLoop_length {i : Nat} {p q w : Text} (h : operandLoop i p = .ok (w, q)) :
    q.length < p.length := by
  induction p generalizing i w with
  | nil => cases h
  | cons c p ih =>
    rw [operandLoop] at h
    split at h
    · cases h
    · split at h
      · cases h
        exact Nat.lt_succ_self _
      · obtain ⟨⟨w', q'⟩, h', hq⟩ := Exec.except_bind_ok.1 h
        cases hq
        exact Nat.lt_succ_of_lt (ih h')

theorem readOperand_length {p q w : Text} (h : readOperand p = .ok (w, q)) :
    q.length < p.length := by
  cases p with
  | nil => cases h
  | cons c p =>
    obtain ⟨⟨w', q'⟩, h', hq⟩ := Exec.except_bind_ok.1 h
    cases hq
    exact Nat.lt_succ_of_lt (operandLoop_length h')

theorem calcOp_length {D : Type} {op : D → D → D} {p q : Text} {st st' : List D}
    (h : calcOp op p st = .ok (q, st')) : q.length < p.length + 1 := by
  obtain ⟨st₁, -, h⟩ := Exec.except_bind_ok.1 h
  obtain ⟨r, hr, h⟩ := Exec.except_bind_ok.1 h
  cases h
  exact Nat.lt_succ_of_lt (skipBar_length hr)

section
variable {D : Type} (F : Double D) (cpuMaxMhz : Int) (evi : EventInfo) (hwCounter : List Int)

theorem calcStep_length {c : Char} {p q : Text} {st st' : List D}
    (h : calcStep F cpuMaxMhz evi hwCounter c p st = .ok (q, st')) : q.length < p.length + 1 := by
  unfold calcStep at h
  split at h
  · cases h
    exact Nat.lt_succ_self _
  split at h
  · -- a native event
    obtain ⟨⟨w, r⟩, hr, h⟩ := Exec.except_bind_ok.1 h
    obtain ⟨k, -, h⟩ := Exec.except_bind_ok.1 h
    obtain ⟨pos, -, h⟩ := Exec.except_bind_ok.1 h
    obtain ⟨x, -, h⟩ := Exec.except_bind_ok.1 h
    obtain ⟨st₁, -, h⟩ := Exec.except_bind_ok.1 h
    cases h
    exact Nat.lt_succ_of_lt (readOperand_length hr)
  split at h
  · -- the clock rate
    obtain ⟨st₁, -, h⟩ := Exec.except_bind_ok.1 h
    obtain ⟨r, hr, h⟩ := Exec.except_bind_ok.1 h
    cases h
    exact Nat.lt_succ_of_lt (skipBar_length hr)
  split at h
  · -- a number
    obtain ⟨⟨w, r⟩, hr, h⟩ := Exec.except_bind_ok.1 h
    obtain ⟨k, -, h⟩ := Exec.except_bind_ok.1 h
    obtain ⟨st₁, -, h⟩ := Exec.except_bind_ok.1 h
    cases h
    exact readOperand_length hr
  split at h
  · exact calcOp_length h
  split at h
  · exact calcOp_length h
  split at h
  · exact calcOp_length h
  split at h
  · exact calcOp_length h
  · obtain ⟨r, hr, h⟩ := Exec.except_bind_ok.1 h
    cases h
    exact Nat.lt_succ_of_lt (skipBar_length hr)

/-- The loop of `_papi_hwi_postfix_calc`. -/
def calcLoop (point : Text) (stack : List D) : Except Fault (List D) :=
  match point with
  | [] => .error .read
  | c :: point =>
    if c = '\x00' then .ok stack
    else
      match _h : calcStep F cpuMaxMhz evi hwCounter c point stack with
      | .error f => .error f
      | .ok (point, stack) => calcLoop point stack
termination_by point.length
decreasing_by exact calcStep_length F cpuMaxMhz evi hwCounter _h

/-- `_papi_hwi_postfix_calc`; `stack[0]` is zero as long as nothing is on the stack -/
def papiHwiPostfixCalc : Except Fault Int := do
  let ops ← match evi.ops with
    | none => .error .read
    | some ops => .ok ops
  let stack ← calcLoop F cpuMaxMhz evi hwCounter (ops ++ ['\x00']) []
  return F.toLongLong (stack.getLast?.getD (F.ofInt 0))

/-- `handle_derived` -/
def handleDerived : Except Fault Int :=
  match evi.derived with
  | .derivedAdd => handleDerivedAdd hwCounter eventsInDerivedEvent evi.pos 0
  | .derivedAddPs => handleDerivedAddPs cpuMaxMhz evi.pos hwCounter
  | .derivedSub => handleDerivedSubtract evi.pos hwCounter
  | .derivedPs => handleDerivedPs cpuMaxMhz evi.pos hwCounter
  | .derivedPostfix => papiHwiPostfixCalc F cpuMaxMhz evi hwCounter
  | .derivedCmpd => do cell hwCounter (← cell evi.pos 0)
  | _ => .ok 0

end

end PbdPapi.Derived
