import PbdPapi.Proof.Bench
import PbdPapi.Proof.Fields

/-!
# What the benchmarkers evaluate

`cachebench` evaluates the code of its arguments again, in a frame of its own over the package's
namespace, and `flopsbench` evaluates there what it reads from their text. `cachebench_captures`:
which uses of names find the caller's bindings all the same. `flopsbench_measures`: which arguments
and data `flopsbench` measures as it was asked to.
-/

set_option autoImplicit false

namespace PbdPapi.Proof

open Exec C Api Lexical

/-! ## The scope of a benchmarker -/

section
variable {c : BenchCall} {binds : List (String × RVal)}

/-- The frame of a benchmarker is none of the caller's. -/
theorem frame_new {g : RFrame} (hg : g ∈ c.caller) : g.id ≠ (c.frame binds).id :=
  (id_lt_freshId (List.mem_append_left c.ns hg)).ne

theorem cacheLocals_plain (named : Bool) (p : Int × Int) :
    ∀ b ∈ cacheLocals named p, b.2.isFun = false := by
  unfold cacheLocals
  cases named <;> split <;> simp [plain, RVal.isFun]

theorem flopsLocals_plain (named : Bool) (data : List Datum) (p : Int × Int) :
    ∀ b ∈ flopsLocals named data p, b.2.isFun = false := by
  unfold flopsLocals
  cases named <;> split <;> simp [plain, RVal.isFun]

/-- A use that is no write finds in the scope of a benchmarker the caller's binding exactly if it
reads no local, calls no function among the locals, and the namespace gives that binding. -/
theorem bindingAt_frame {u : Use String} (hu : u.mode ≠ .write) :
    bindingAt (c.frame binds :: c.ns) u = bindingAt c.caller u ↔
      ((u.mode = .read → u.name ∉ binds.map (·.1)) ∧
        (u.mode = .call → ∀ b ∈ binds, b.1 = u.name → b.2.isFun = false)) ∧
        bindingAt c.ns u = bindingAt c.caller u := by
  have hans : (c.frame binds).answers RVal.isFun u = false ↔
      (u.mode = .read → u.name ∉ binds.map (·.1)) ∧
        (u.mode = .call → ∀ b ∈ binds, b.1 = u.name → b.2.isFun = false) := by
    obtain ⟨mode, x⟩ := u
    cases mode with
    | read => exact answers_read.trans ⟨fun h => ⟨fun _ => h, nofun⟩, fun h => h.1 rfl⟩
    | call => exact answers_call.trans ⟨fun h => ⟨nofun, fun _ => h⟩, fun h => h.2 rfl⟩
    | write => exact absurd rfl hu
  have hnew : bindingAt (c.frame binds :: c.ns) u = bindingAt c.caller u ↔ _ :=
    resolve_new_iff (fun _ hg => frame_new hg) c.ns u
  rw [hnew, hans]
  rfl

/-- A call in the scope of a benchmarker finds what the namespace gives. -/
theorem funAt_frame (hb : ∀ b ∈ binds, b.2.isFun = false) (x : String) :
    funAt (c.frame binds :: c.ns) ⟨.call, x⟩ = funAt c.ns ⟨.call, x⟩ := by
  have hans : (c.frame binds).answers RVal.isFun ⟨.call, x⟩ = false :=
    answers_call.2 fun b hmem _ => hb b hmem
  rw [funAt, valueAt_cons_of_not hans, funAt]

end

/-! ## `cachebench` -/

section
variable {σ : Type} (P : Papi σ) (L : Lang σ) (c : BenchCall) (type events : String)

/-- A replication that measures `e`: `tmp <- system.cache(expr=e, ...)`, and the warnings of
`as.integer(tmp)`. -/
def replicationOf (e : Prom σ) : RM σ Ret := do
  let tmp ← systemCache P (some e) type events false false
  tmp.values.forM fun x => coercionWarning x.2.warns
  return tmp

/-- `cachebench` behind its setup: a replication for each pass, in order, and the summary. -/
def replications (n : Nat) (template : Ret) : RM σ (List (String × BenchElt)) := do
  let colnames := template.values.map (·.1)
  let len := (dots cacheFormals c.args).length
  let ret ← (positions len n).foldlM (fun ret q => do
      let tmp ← replication P L c type events (pass q)
      Loop.lift (putRow ret (pass q) (intRow tmp)))
    (List.replicate len ⟨colnames, List.replicate n (List.replicate colnames.length (some 0))⟩)
  liftR (summarise (benchNames L.deparse len (benchArgs cacheFormals "nreps" c.args)) colnames n
    ("Cache " ++ titlecase (pluralize type) ++ " with " ++ toString n ++ " Replications") ret)

/-- The names that the frame of `cachebench` has in a pass: its locals, and what has been assigned
there. -/
def cacheNames (q : Nat × Nat) : List String :=
  (c.left (pass q) ++ cacheLocals (!unnamed (matchCall cacheFormals c.args)) (pass q)).map (·.1)

/-- Pass `q` measures the evaluation of its argument in `...`, and each name that this reads or
calls from outside has there the binding that it has in the caller's scope. -/
def Captures (q : Nat × Nat) : Prop :=
  ∃ a, (dots cacheFormals c.args)[q.1]? = some a ∧
    replication P L c type events (pass q) =
      replicationOf P type events (L.eval a.2 (cacheScope c (pass q))) ∧
    ∀ u ∈ a.2.free, u.mode ≠ .write →
      bindingAt (cacheScope c (pass q)) u = bindingAt c.caller u

/-- The use reads no name that the frame of `cachebench` has, calls no function that has been
assigned there, and finds from the package's namespace what it finds in the caller's scope. -/
def Visible (q : Nat × Nat) (u : Use String) : Prop :=
  (u.mode = .read → u.name ∉ cacheNames c q) ∧
    (u.mode = .call → ∀ b ∈ c.left (pass q), b.1 = u.name → b.2.isFun = false) ∧
    bindingAt c.ns u = bindingAt c.caller u

variable {c}

/-- A pass measures the code of its argument in `...`. -/
theorem replication_dots {q : Nat × Nat} {a : Api.Arg}
    (ha : (dots cacheFormals c.args)[q.1]? = some a) :
    replication P L c type events (pass q) =
      replicationOf P type events (L.eval a.2 (cacheScope c (pass q))) := by
  have hcode : evalArg L (benchArgs cacheFormals "nreps" c.args) (pass q).1
      (cacheScope c (pass q)) = L.eval a.2 (cacheScope c (pass q)) := by
    rw [evalArg, elt_benchArgs (by decide) (by decide) ha]
  simp only [replication, replicationOf, hcode]

theorem bindingAt_cacheScope (q : Nat × Nat) {u : Use String} (hu : u.mode ≠ .write) :
    bindingAt (cacheScope c (pass q)) u = bindingAt c.caller u ↔ Visible c q u := by
  have hcall : (∀ b ∈ c.left (pass q) ++
        cacheLocals (!unnamed (matchCall cacheFormals c.args)) (pass q),
        b.1 = u.name → b.2.isFun = false) ↔
      ∀ b ∈ c.left (pass q), b.1 = u.name → b.2.isFun = false :=
    ⟨fun h b hb => h b (List.mem_append_left _ hb), fun h b hb => (List.mem_append.1 hb).elim (h b)
      fun hb _ => cacheLocals_plain _ _ b hb⟩
  unfold cacheScope Visible
  rw [bindingAt_frame hu, hcall, and_assoc]
  rfl

/-- `cachebench` runs its replications once its setup has returned. -/
theorem cachebench_run (nreps : NumArg) (w : World σ) :
    (cachebench P L c type events nreps).run w =
      match (cacheSetup P L c type events nreps).run w with
      | .ok (n, template) w₁ => (replications P L c type events n template).run w₁
      | .error e w₁ => .error e w₁ := by
  unfold cachebench
  cases hs : (cacheSetup P L c type events nreps).run w with
  | error e w₁ => rw [bind_of_error hs]
  | ok r w₁ =>
    obtain ⟨n, template⟩ := r
    obtain ⟨hlen, hn, -⟩ := cacheSetup_ok hs
    rw [bind_of_ok hs]
    simp only
    rw [fill_eq hlen hn]
    rfl

variable (c)

end

instance decidableVisible (c : BenchCall) (q : Nat × Nat) (u : Use String) :
    Decidable (Visible c q u) := inferInstanceAs (Decidable (_ ∧ _ ∧ _))

/-- `cachebench({z <- rnorm(10); sum(z)})` at top level; each replication leaves `z` behind. -/
def assigningCall : BenchCall where
  args := [("", .seq (.assign "z" (.call (.sym "rnorm") [.const "10"])) (.call (.sym "sum")
    [.sym "z"]))]
  caller := [⟨0, []⟩, ⟨2, [("rnorm", .fn 1), ("sum", .fn 2), ("<-", .fn 3), ("\x7b", .fn 4)]⟩]
  ns := [⟨1, []⟩, ⟨2, [("rnorm", .fn 1), ("sum", .fn 2), ("<-", .fn 3), ("\x7b", .fn 4)]⟩,
    ⟨0, []⟩]
  left p := if p = (1, 1) then [] else [("z", .other "z")]

example : ∀ q ∈ positions 1 3, ∀ a ∈ (dots cacheFormals assigningCall.args)[q.1]?,
    ∀ u ∈ a.2.free, u.mode ≠ .write → Visible assigningCall q u := by decide

/-- `i <- 5; cachebench(i)` at top level. -/
def localCall : BenchCall where
  args := [("", .sym "i")]
  caller := [⟨0, [("i", .int 5)]⟩]
  ns := [⟨1, []⟩, ⟨0, [("i", .int 5)]⟩]

section
variable {σ : Type} (P : Papi σ) (L : Lang σ) (c : BenchCall) (data : List Datum)

/-- The expression stands for `data[[j]]`. -/
def IsDatum (e : RExpr) : Prop := e = .dataJ ∨ e = .call (.sym "(") [.dataJ]

/-- Pass `q` measures one application, of the function that the argument `e` is in the caller's
scope, to its element of the data. -/
def Applies (q : Nat × Nat) (e : RExpr) : Prop :=
  ∃ g a id, applied L e = .ok [.call g [a]] ∧
    flopsPass P L c data (pass q) =
      systemFlops P (some (L.eval (.call g [a]) (flopsScope c data (pass q)))) true false ∧
    L.callee g (flopsScope c data (pass q)) = some id ∧ L.fnOf e c.caller = some id ∧
    IsDatum a ∧
    valueAt RVal.isFun (flopsScope c data (pass q)) ⟨.read, "data"⟩ = some (.data data) ∧
    valueAt RVal.isFun (flopsScope c data (pass q)) ⟨.read, "j"⟩ = some (.int (pass q).2)

/-- The text of the argument reads as one application of the function that it is in the caller's
scope. -/
def ReadsAs (q : Nat × Nat) (e : RExpr) : Prop :=
  ∃ g a id, L.parse ((L.asCharacter e).map (· ++ "(data[[j]])")) = .ok [.call g [a]] ∧
    IsDatum a ∧ L.callee g (flopsScope c data (pass q)) = some id ∧ L.fnOf e c.caller = some id

/-- The condition on an argument: a name is one of the same function in the package's namespace as
in the caller's scope. No anonymous function meets it, no qualified name, and no element of a list;
what else there is has to read as an application of the function that it is. -/
def Reaches (q : Nat × Nat) : RExpr → Prop
  | .sym x =>
    if L.isName x then
      ∃ id, funAt c.ns ⟨.call, x⟩ = some id ∧ funAt c.caller ⟨.read, x⟩ = some id
    else ReadsAs L c data q (.sym x)
  | .fn _ _ => False
  | .call (.sym x) args => x ∉ unreadable ∧ ReadsAs L c data q (.call (.sym x) args)
  | e => ReadsAs L c data q e

/-- The list `b` has a matrix for each function, with the result of the measurement of each element
of the data in its row, and the number of the element's entries. -/
def Tabulates (b : List (String × Mat (Option Rat))) (argnames : List String)
    (result : Nat × Nat → Measurement) : Prop :=
  b.length = argnames.length ∧ ∀ (i : Nat) (hi : i < argnames.length), ∃ m,
    b[i]? = some (argnames[i], m) ∧ m.rows.length = data.length ∧
      ∀ (j : Nat) (hj : j < data.length), m.colnames = (result (i, j)).map (·.1) ++ ["n"] ∧
        m.rows[j]? = some ((result (i, j)).map (fun x => some x.2) ++
          [some ((data[j].nrow * data[j].ncol : Nat) : Rat)])

/-- The condition on the data: there are some, and a product of their dimensions fits R's integers,
unless a length is a double. -/
def Fits : Prop :=
  data ≠ [] ∧ ((∃ d ∈ data, 2 ^ 31 ≤ d.nrow) ∨ ∀ d ∈ data, d.nrow * d.ncol < 2 ^ 31)

variable {L c data}

/-! ### What is read -/

theorem applied_unreadable {e : RExpr} {x : String} {rest : List String} (hx : x ∈ unreadable)
    (he : L.asCharacter e = x :: rest) (es : List RExpr) : applied L e ≠ .ok es := by
  obtain ⟨c, hc⟩ := L.parse_unreadable x hx (rest.map (· ++ "(data[[j]])"))
  rw [applied, he, List.map_cons, hc]
  exact fun h => by cases h

theorem applied_name {x : String} (hx : L.isName x = true) :
    applied L (.sym x) = .ok [.call (.sym x) [.dataJ]] := by
  rw [applied, L.asCharacter_sym]
  exact L.parse_name x hx

theorem reads_name {q : Nat × Nat} {x : String} (hx : L.isName x = true) :
    ReadsAs L c data q (.sym x) ↔
      ∃ id, funAt c.ns ⟨.call, x⟩ = some id ∧ funAt c.caller ⟨.read, x⟩ = some id := by
  have hread := applied_name hx
  have hns : L.callee (.sym x) (flopsScope c data (pass q)) = funAt c.ns ⟨.call, x⟩ :=
    funAt_frame (flopsLocals_plain _ data _) x
  constructor
  · intro h
    obtain ⟨g, a, id, happ, -, hg, he⟩ := h
    rw [applied] at hread
    rw [hread] at happ
    cases happ
    exact ⟨id, hns ▸ hg, L.fnOf_sym x _ ▸ he⟩
  · intro h
    obtain ⟨id, hg, he⟩ := h
    exact ⟨.sym x, .dataJ, id, hread, .inl rfl, hns.trans hg, (L.fnOf_sym x _).trans he⟩

/-- The condition says for which arguments the text reads as it should. -/
theorem reads_iff (q : Nat × Nat) (e : RExpr) : ReadsAs L c data q e ↔ Reaches L c data q e := by
  have hnot {x : String} {rest : List String} (hx : x ∈ unreadable)
      (he : L.asCharacter e = x :: rest) : ¬ ReadsAs L c data q e := by
    intro h
    obtain ⟨g, a, id, happ, -⟩ := h
    exact applied_unreadable hx he _ happ
  cases e with
  | sym x =>
    show _ ↔ if L.isName x then _ else _
    split
    · next hx => exact reads_name hx
    · rfl
  | fn formals body =>
    obtain ⟨rest, he⟩ := L.asCharacter_fn formals body
    exact iff_of_false (hnot (by decide) he) id
  | call f args =>
    cases f with
    | sym x =>
      obtain ⟨rest, he⟩ := L.asCharacter_call x args
      refine ⟨fun h => ⟨fun hx => hnot hx he h, h⟩, And.right⟩
    | _ => rfl
  | _ => rfl

/-! ### What is measured -/

theorem flopsScope_data (p : Int × Int) :
    valueAt RVal.isFun (flopsScope c data p) ⟨.read, "data"⟩ = some (.data data) := by
  simp [flopsScope, BenchCall.frame, flopsLocals, valueAt, Frame.answers, Frame.get]

theorem flopsScope_j (p : Int × Int) :
    valueAt RVal.isFun (flopsScope c data p) ⟨.read, "j"⟩ = some (.int p.2) := by
  unfold flopsScope
  cases unnamed (matchCall flopsFormals c.args) <;>
    simp [BenchCall.frame, flopsLocals, valueAt, Frame.answers, Frame.get, plain]

/-- A pass measures the evaluation of what it read. -/
theorem flopsPass_eq {q : Nat × Nat} {a : Api.Arg} {e : RExpr}
    (ha : (dots flopsFormals c.args)[q.1]? = some a) (he : applied L a.2 = .ok [e]) :
    flopsPass P L c data (pass q) =
      systemFlops P (some (L.eval e (flopsScope c data (pass q)))) true false := by
  unfold flopsPass
  rw [elt_benchArgs (by decide) (by decide) ha, liftR_ok_bind, he, liftR_ok_bind]
  rfl

theorem applies_iff {q : Nat × Nat} {a : Api.Arg}
    (ha : (dots flopsFormals c.args)[q.1]? = some a) :
    Applies P L c data q a.2 ↔ Reaches L c data q a.2 := by
  rw [← reads_iff]
  constructor
  · intro h
    obtain ⟨g, d, id, happ, -, hg, he, hd, -⟩ := h
    exact ⟨g, d, id, happ, hd, hg, he⟩
  · intro h
    obtain ⟨g, d, id, happ, hd, hg, he⟩ := h
    exact ⟨g, d, id, happ, flopsPass_eq P ha happ, hg, he, hd, flopsScope_data _, flopsScope_j _⟩

variable {P} (T : Tables P)

include T in
theorem systemFlops_names {e : Option (Prom σ)} {gcFirst burnin : Bool} {w w' : World σ}
    {v : Measurement} (h : (systemFlops P e gcFirst burnin).run w = .ok v w') :
    v.map (·.1) = ["real_time", "proc_time", "flpops", "mflops"] := by
  obtain ⟨outb, out, k, n, -, hv⟩ := systemRate_list T h
  cases outb with
  | none =>
    rw [hv]
    rfl
  | some outb =>
    obtain ⟨k', n', rfl⟩ := hv
    rw [names_subtractAt]
    rfl

theorem flopsPass_ok {p : Int × Int} {v : Measurement} {w w' : World σ}
    (h : (flopsPass P L c data p).run w = .ok v w') :
    ∃ e, (systemFlops P (some e) true false).run w = .ok v w' := by
  obtain ⟨a, -, h⟩ := liftR_bind_ok h
  obtain ⟨expr, -, h⟩ := liftR_bind_ok h
  exact ⟨_, h⟩

theorem flopsSetup_ok {colnames : List String} {w w₁ : World σ}
    (h : (flopsSetup P L c).run w = .ok colnames w₁) :
    1 ≤ (dots flopsFormals c.args).length ∧ ∃ template w₀,
      (systemFlops P (some nullProm) true true).run w₀ = .ok template w₁ ∧
        colnames = template.map (·.1) := by
  obtain ⟨-, w₂, -, h⟩ := bind_ok.1 h
  split at h
  · cases h
  · obtain ⟨template, w₃, ht, h⟩ := bind_ok.1 h
    split at h
    · cases h
    · cases h
      exact ⟨by omega, template, w₂, ht, rfl⟩

/-- Without data `flopsbench` does not return. -/
theorem flopsbench_empty {colnames : List String} {w w₁ w' : World σ}
    {b : List (String × Mat (Option Rat))}
    (hs : (flopsSetup P L c).run w = .ok colnames w₁) :
    (flopsbench P L c []).run w ≠ .ok b w' := by
  intro h
  unfold flopsbench at h
  rw [bind_of_ok hs] at h
  obtain ⟨ret, _, hfill, -⟩ := bind_ok.1 h
  exact fill_empty (flopsSetup_ok hs).1 _ _ hfill

/-! ### The numbers of entries -/

theorem entry_eq (d : Datum) :
    entry data d = some (d.nrow * d.ncol) ↔
      (∃ d ∈ data, 2 ^ 31 ≤ d.nrow) ∨ d.nrow * d.ncol < 2 ^ 31 := by
  have hany : (data.any fun d => 2 ^ 31 ≤ d.nrow) = true ↔ ∃ d ∈ data, 2 ^ 31 ≤ d.nrow := by
    simp only [List.any_eq_true, decide_eq_true_eq]
  rw [← hany, entry]
  split
  · next h => exact iff_of_true rfl h
  · next h => exact iff_of_false (fun heq => by cases heq) h

theorem fits_iff : Fits data ↔
    data ≠ [] ∧ ∀ d ∈ data, entry data d = some (d.nrow * d.ncol) := by
  simp only [entry_eq, Fits]
  refine and_congr_right fun _ => ⟨?_, fun h => ?_⟩
  · rintro (hlong | hall) d hd
    · exact .inl hlong
    · exact .inr (hall d hd)
  · by_cases hlong : ∃ d ∈ data, 2 ^ 31 ≤ d.nrow
    · exact .inl hlong
    · exact .inr fun d hd => (h d hd).resolve_left hlong

/-- A matrix of the loops with its last column. -/
theorem cbindN_rows {m : Mat Rat} {row : Nat → List Rat}
    (hm : m.rows = (List.range data.length).map row) {j : Nat} (hj : j < data.length) :
    (cbindN (data.map (entry data)) m).rows[j]? =
      some ((row j).map some ++ [(entry data data[j]).map fun k : Nat => (k : Rat)]) := by
  simp [cbindN, hm, hj]

/-- The list has the numbers of entries exactly if they fit. -/
theorem tabulates_iff {argnames colnames : List String} {ms : List (Mat Rat)}
    {result : Nat × Nat → Measurement} (hne : argnames ≠ []) (hdata : data ≠ [])
    (hlen : ms.length = argnames.length)
    (hms : ∀ i < argnames.length, ∃ m, ms[i]? = some m ∧ m.colnames = colnames ∧
      m.rows = (List.range data.length).map fun j => (result (i, j)).map (·.2))
    (hnames : ∀ i < argnames.length, ∀ j < data.length,
      (result (i, j)).map (·.1) = colnames) :
    Tabulates data (argnames.zip (ms.map (cbindN (data.map (entry data))))) argnames result ↔
      Fits data := by
  have hget {i : Nat} (hi : i < argnames.length) : ∃ m,
      (argnames.zip (ms.map (cbindN (data.map (entry data)))))[i]? = some (argnames[i], m) ∧
        m.rows.length = data.length ∧
        ∀ (j : Nat) (hj : j < data.length), m.colnames = (result (i, j)).map (·.1) ++ ["n"] ∧
          m.rows[j]? = some ((result (i, j)).map (fun x => some x.2) ++
            [(entry data data[j]).map fun k : Nat => (k : Rat)]) := by
    obtain ⟨m, hm, hcol, hrows⟩ := hms i hi
    refine ⟨cbindN (data.map (entry data)) m, ?_, by simp [cbindN, hrows], fun j hj => ?_⟩
    · obtain ⟨hlt, rfl⟩ := List.getElem?_eq_some_iff.1 hm
      simp [hi, hlt]
    · refine ⟨by rw [cbindN, hcol, hnames i hi j hj], ?_⟩
      rw [cbindN_rows hrows hj, List.map_map]
      rfl
  rw [fits_iff]
  constructor
  · intro h
    obtain ⟨-, htab⟩ := h
    refine ⟨hdata, fun d hd => ?_⟩
    obtain ⟨j, hj, rfl⟩ := List.getElem_of_mem hd
    have hi : 0 < argnames.length := List.length_pos_iff.2 hne
    obtain ⟨m, hm, -, hrows⟩ := htab 0 hi
    obtain ⟨m', hm', -, hrows'⟩ := hget hi
    rw [hm] at hm'
    cases hm'
    have hlast := (hrows j hj).2.symm.trans (hrows' j hj).2
    rw [Option.some.injEq, List.append_cancel_left_eq, List.singleton_inj] at hlast
    cases he : entry data data[j] with
    | none =>
      rw [he] at hlast
      cases hlast
    | some k =>
      rw [he, Option.map_some, Option.some.injEq, Nat.cast_inj] at hlast
      rw [hlast]
  · intro h
    obtain ⟨-, hent⟩ := h
    refine ⟨by simp [hlen], fun i hi => ?_⟩
    obtain ⟨m, hm, hcount, hrows⟩ := hget hi
    refine ⟨m, hm, hcount, fun j hj => ⟨(hrows j hj).1, ?_⟩⟩
    rw [(hrows j hj).2, hent _ (List.getElem_mem hj)]
    rfl

include T in
/-- With data it returns what it measured, and the numbers of entries if they fit. -/
theorem flopsbench_returns {colnames : List String} {w w₁ w₂ : World σ}
    (hs : (flopsSetup P L c).run w = .ok colnames w₁) (hdata : data ≠ [])
    {result : Nat × Nat → Measurement}
    (hm : ((positions (dots flopsFormals c.args).length data.length).mapM fun q =>
        flopsPass P L c data (pass q)).run w₁ =
      .ok ((positions (dots flopsFormals c.args).length data.length).map result) w₂) :
    ∃ b w', (flopsbench P L c data).run w = .ok b w' ∧
      (Tabulates data b (benchNames L.deparse (dots flopsFormals c.args).length
        (benchArgs flopsFormals "data" c.args)) result ↔ Fits data) := by
  obtain ⟨hlen, template, w₀, ht, rfl⟩ := flopsSetup_ok hs
  have hargs := benchNames_length L.deparse (by decide : "" ∉ flopsFormals)
    (by decide : "data" ∈ flopsFormals) c.args
  have hnames {q : Nat × Nat} (hq : q ∈ positions (dots flopsFormals c.args).length data.length) :
      (result q).map (·.1) = template.map (·.1) := by
    obtain ⟨s₁, s₂, hr⟩ := Loop.mapM_mem hm hq
    obtain ⟨e, hr⟩ := flopsPass_ok hr
    rw [systemFlops_names T hr, systemFlops_names T ht]
  have hzero : (List.replicate data.length [0, 0, 0, (0 : Rat)]).length = data.length :=
    List.length_replicate
  have hrow : ∀ q ∈ positions (dots flopsFormals c.args).length data.length,
      ((result q).map (·.2)).length = (template.map (·.1)).length := fun q hq => by
    rw [← hnames hq, List.length_map, List.length_map]
  obtain ⟨ms, hfill, hlen', hms⟩ :=
    fill_ok hlen (List.length_pos_iff.2 hdata) (fun v => v.map (·.2)) hzero hm hrow
  obtain ⟨w', hrun⟩ : ∃ w', (flopsbench P L c data).run w = .ok
      ((benchNames L.deparse (dots flopsFormals c.args).length
        (benchArgs flopsFormals "data" c.args)).zip
          (ms.map (cbindN (data.map (entry data))))) w' := by
    unfold flopsbench
    rw [bind_of_ok hs]
    simp only
    rw [bind_of_ok hfill]
    split
    · exact ⟨_, rfl⟩
    · exact ⟨_, rfl⟩
  refine ⟨_, w', hrun, ?_⟩
  generalize benchNames L.deparse (dots flopsFormals c.args).length
    (benchArgs flopsFormals "data" c.args) = argnames at hargs ⊢
  rw [← hargs] at hlen hlen' hms hnames
  refine tabulates_iff (List.ne_nil_of_length_pos hlen) hdata hlen' hms ?_
  intro i hi j hj
  exact hnames (mem_positions.2 ⟨hi, hj⟩)

include T in
/-- A call of `flopsbench` over any library, from where its template was measured, if applications
of the given functions can be measured: it applies every function to every element of the data, and
returns what was measured, exactly if the data fit and every argument reaches its function. -/
theorem flopsbench_measures {colnames : List String} {w w₁ : World σ}
    (hs : (flopsSetup P L c).run w = .ok colnames w₁)
    (hm : (∀ q ∈ positions (dots flopsFormals c.args).length data.length, ∀ a,
        (dots flopsFormals c.args)[q.1]? = some a → Applies P L c data q a.2) →
      ∃ (result : Nat × Nat → Measurement) (w₂ : World σ),
        ((positions (dots flopsFormals c.args).length data.length).mapM fun q =>
          flopsPass P L c data (pass q)).run w₁ =
        .ok ((positions (dots flopsFormals c.args).length data.length).map result) w₂) :
    ((∀ q ∈ positions (dots flopsFormals c.args).length data.length, ∀ a,
        (dots flopsFormals c.args)[q.1]? = some a → Applies P L c data q a.2) ∧
      ∃ (result : Nat × Nat → Measurement) (w₂ : World σ) (b : _) (w' : World σ),
        ((positions (dots flopsFormals c.args).length data.length).mapM fun q =>
          flopsPass P L c data (pass q)).run w₁ =
        .ok ((positions (dots flopsFormals c.args).length data.length).map result) w₂ ∧
        (flopsbench P L c data).run w = .ok b w' ∧
        Tabulates data b (benchNames L.deparse (dots flopsFormals c.args).length
          (benchArgs flopsFormals "data" c.args)) result) ↔
    Fits data ∧ ∀ q ∈ positions (dots flopsFormals c.args).length data.length, ∀ a,
      (dots flopsFormals c.args)[q.1]? = some a → Reaches L c data q a.2 := by
  have happ : (∀ q ∈ positions (dots flopsFormals c.args).length data.length, ∀ a,
      (dots flopsFormals c.args)[q.1]? = some a → Applies P L c data q a.2) ↔
      ∀ q ∈ positions (dots flopsFormals c.args).length data.length, ∀ a,
        (dots flopsFormals c.args)[q.1]? = some a → Reaches L c data q a.2 :=
    forall₄_congr fun q _ a ha => applies_iff P ha
  constructor
  · intro h
    obtain ⟨ha, result, w₂, b, w', hrun, hb, htab⟩ := h
    refine ⟨?_, happ.1 ha⟩
    by_cases hdata : data = []
    · subst hdata
      exact absurd hb (flopsbench_empty hs)
    · obtain ⟨b', w'', hb', hiff⟩ := flopsbench_returns T hs hdata hrun
      rw [hb] at hb'
      cases hb'
      exact hiff.1 htab
  · intro h
    obtain ⟨hfits, hreach⟩ := h
    obtain ⟨result, w₂, hrun⟩ := hm (happ.2 hreach)
    obtain ⟨b, w', hb, hiff⟩ := flopsbench_returns T hs hfits.1 hrun
    exact ⟨happ.2 hreach, result, w₂, b, w', hrun, hb, hiff.2 hfits⟩

end

/-! ### A name and an anonymous function -/

/-- `flopsbench(sqrt, data=list(1))` at top level. -/
def sqrtCall : BenchCall where
  args := [("", .sym "sqrt"), ("data", .call (.sym "list") [.const "1"])]
  caller := [⟨0, []⟩, ⟨2, [("sqrt", .fn 7)]⟩]
  ns := [⟨1, []⟩, ⟨2, [("sqrt", .fn 7)]⟩, ⟨0, []⟩]

/-- `flopsbench(function(x) x, data=list(1))` at top level. -/
def anonymousCall : BenchCall where
  args := [("", .fn ["x"] (.sym "x")), ("data", .call (.sym "list") [.const "1"])]
  caller := [⟨0, []⟩]
  ns := [⟨1, []⟩, ⟨0, []⟩]

/-- `list(1)` -/
def oneDatum : List Datum := [⟨"1", 1, 1⟩]

theorem sqrt_setup : ∃ w₁, (flopsSetup steady smallR sqrtCall).run steadyWorld =
    .ok ["real_time", "proc_time", "flpops", "mflops"] w₁ :=
  exists_of_returns (by decide +kernel)

theorem sqrt_measured {w₁ : World Nat} (hs : (flopsSetup steady smallR sqrtCall).run steadyWorld =
    .ok ["real_time", "proc_time", "flpops", "mflops"] w₁) :
    ∃ w₂, ((positions 1 1).mapM fun q =>
        flopsPass steady smallR sqrtCall oneDatum (pass q)).run w₁ =
      .ok ((positions 1 1).map fun _ => rateValues .flops (steadyOut 2) 0 0) w₂ := by
  obtain ⟨-, rfl⟩ := eq_of_returns (a := ["real_time", "proc_time", "flpops", "mflops"]) hs
    (by decide +kernel)
  exact exists_of_returns (by decide +kernel)

theorem flopsbench_measures_sqrt :
    ((∀ q ∈ positions 1 1, ∀ a, (dots flopsFormals sqrtCall.args)[q.1]? = some a →
        Applies steady smallR sqrtCall oneDatum q a.2) ∧
      ∃ (result : Nat × Nat → Measurement) (w₁ w₂ : World Nat) (b : _) (w' : World Nat),
        ((positions 1 1).mapM fun q => flopsPass steady smallR sqrtCall oneDatum (pass q)).run w₁ =
          .ok ((positions 1 1).map result) w₂ ∧
        (flopsbench steady smallR sqrtCall oneDatum).run steadyWorld = .ok b w' ∧
        Tabulates oneDatum b (benchNames smallR.deparse 1
          (benchArgs flopsFormals "data" sqrtCall.args)) result) := by
  obtain ⟨w₁, hs⟩ := sqrt_setup
  obtain ⟨w₂, hm⟩ := sqrt_measured hs
  have hfits : Fits oneDatum := ⟨List.cons_ne_nil _ _, .inr (by decide)⟩
  have hreach : ∀ q ∈ positions 1 1, ∀ a, (dots flopsFormals sqrtCall.args)[q.1]? = some a →
      Reaches smallR sqrtCall oneDatum q a.2 := by
    intro q hq a ha
    have hq₀ : q = (0, 0) := by
      have := mem_positions.1 hq
      exact Prod.ext (by omega) (by omega)
    subst hq₀
    cases ha
    exact ⟨7, rfl, rfl⟩
  obtain ⟨happ, result, w₂, b, w', hrun, hb, htab⟩ :=
    (flopsbench_measures steadyTables hs fun _ => ⟨_, w₂, hm⟩).2 ⟨hfits, hreach⟩
  exact ⟨happ, result, w₁, w₂, b, w', hrun, hb, htab⟩

/-- An anonymous function: its text does not read as an application, and `flopsbench` fails. -/
theorem anonymous_unmeasured :
    (∃ w₁, (flopsSetup steady smallR anonymousCall).run steadyWorld =
      .ok ["real_time", "proc_time", "flpops", "mflops"] w₁) ∧
    (dots flopsFormals anonymousCall.args)[0]? = some ("", .fn ["x"] (.sym "x")) ∧
    smallR.fnOf (.fn ["x"] (.sym "x")) anonymousCall.caller = some 0 ∧
    Fits oneDatum ∧
    ¬ Applies steady smallR anonymousCall oneDatum (0, 0) (.fn ["x"] (.sym "x")) ∧
    ∀ b w', (flopsbench steady smallR anonymousCall oneDatum).run steadyWorld ≠ .ok b w' := by
  have hdots : (dots flopsFormals anonymousCall.args)[0]? = some ("", .fn ["x"] (.sym "x")) := rfl
  refine ⟨exists_of_returns (by decide +kernel), hdots, rfl,
    ⟨List.cons_ne_nil _ _, .inr (by decide)⟩, ?_, ?_⟩
  · exact fun h => (applies_iff steady (q := (0, 0)) hdots).1 h
  · intro b w' h
    have herr : (match (flopsbench steady smallR anonymousCall oneDatum).run steadyWorld with
        | .ok _ _ => false
        | .error _ _ => true) = true := by decide +kernel
    rw [h] at herr
    cases herr

end PbdPapi.Proof
