import PbdPapi.Api.Export

/-!
# What `papiexport` exports

`papiexport_exports`: for which arguments and scopes `dump` is called for the names that the caller
gave, and writes the objects that they have there.
-/

set_option autoImplicit false

namespace PbdPapi.Proof

open Api Lexical

/-! ## The condition -/

section
variable (deparse : RExpr → String) (c : ExportCall) (names : List String)

/-- `papiexport` calls `dump` for these names, which writes the objects that they have in the
caller's scope. -/
def Exports : Prop :=
  ∃ d, papiexport deparse c = .ok d ∧ d.list = names ∧
    d.written.map (fun x => (x.1, some x.2)) = names.map fun x => (x, objectAt c.caller x)

/-- The condition on a name: it finds from the package's namespace what it finds in the caller's
scope. A name of a local of `papiexport` has in the caller's scope the object that the local is. -/
def SameObject (x : String) : Prop :=
  objectAt c.caller x =
    if x = "file" then some (c.file.getD .stdout).object
    else if x = "args" then some (.character names)
    else if x = "reject" then
      some (.numeric (if (fileArg c.args).isSome then [-1, -((names.length : Int) + 2)] else [-1]))
    else objectAt c.ns x

instance (x : String) : Decidable (SameObject c names x) :=
  inferInstanceAs (Decidable (objectAt c.caller x = _))

/-- The argument `file` is written as `NULL`. -/
def NullFile : Prop := (fileArg c.args).isSome ∧ isNullArg (fileArg c.args) = true

end

/-! ## Which names are recovered -/

/-- Dropping the first element and the positions of the last ones keeps what lies between. -/
theorem dropAt_middle {α : Type} (a : α) (x y : List α) {is : List Nat} (h₀ : 0 ∈ is)
    (hx : ∀ k < x.length, k + 1 ∉ is) (hy : ∀ k < y.length, k + (x.length + 1) ∈ is) :
    dropAt (a :: (x ++ y)) is = x := by
  have hkeep : (x.zipIdx 1).filter (fun p => p.2 ∉ is) = x.zipIdx 1 := by
    refine List.filter_eq_self.2 fun p hp => decide_eq_true ?_
    have hle := List.le_snd_of_mem_zipIdx hp
    have hlt := List.snd_lt_of_mem_zipIdx hp
    have hnot := hx (p.2 - 1) (by omega)
    rwa [Nat.sub_add_cancel hle] at hnot
  have hdrop : (y.zipIdx (x.length + 1)).filter (fun p => p.2 ∉ is) = [] := by
    refine List.filter_eq_nil_iff.2 fun p hp => ?_
    have hle := List.le_snd_of_mem_zipIdx hp
    have hlt := List.snd_lt_of_mem_zipIdx hp
    have hin := hy (p.2 - (x.length + 1)) (by omega)
    rw [Nat.sub_add_cancel hle] at hin
    simpa using hin
  rw [dropAt, List.zipIdx_cons, List.filter_cons_of_neg (by simpa using h₀), List.zipIdx_append,
    List.filter_append, Nat.zero_add, hkeep, Nat.add_comm, hdrop, List.append_nil]
  exact List.zipIdx_map_fst 1 x

section
variable {args : List Api.Arg} {names : List String}

/-- The arguments of a call that names its objects, in the order of `match.call()`. -/
theorem matchCall_export (h : dots exportFormals args = names.map fun x => ("", .sym x)) :
    matchCall exportFormals args =
      names.map (fun x => ("", .sym x)) ++ (fileArg args).toList.map fun e => ("file", e) := by
  rw [matchCall, h, fileArg, exportFormals]
  cases hfind : args.find? fun a => a.1 == "file" with
  | none => simp [hfind]
  | some a =>
    obtain ⟨name, e⟩ := a
    obtain rfl : name = "file" := by simpa using List.find?_some hfind
    simp [hfind]

/-- Elements without names are not looked at. -/
theorem dollar_untagged {x : List Api.Arg} (hx : ∀ a ∈ x, a.1 = "") (y : List Api.Arg) :
    dollar (x ++ y) "file" = dollar y "file" := by
  have hfind : x.find? (fun a => a.1 == "file") = none :=
    List.find?_eq_none.2 fun a ha => by simp [hx a ha]
  have hfilter : x.filter (fun a => "file".toList.isPrefixOf a.1.toList) = [] :=
    List.filter_eq_nil_iff.2 fun a ha => by simp [hx a ha]
  rw [dollar, List.find?_append, hfind, Option.none_or, List.filter_append, hfilter,
    List.nil_append, dollar]

theorem dollar_file (h : dots exportFormals args = names.map fun x => ("", .sym x)) (f : RExpr) :
    dollar (("", f) :: matchCall exportFormals args) "file" = fileArg args := by
  have hx : ∀ a ∈ ("", f) :: names.map fun x => ("", RExpr.sym x), a.1 = "" := by simp
  rw [matchCall_export h, ← List.cons_append, dollar_untagged hx]
  cases fileArg args <;> rfl

end

/-! ## What is written -/

/-- A call of `dump` for some names writes those that it finds. -/
theorem dump_ok {list : List String} (hne : list ≠ []) (file : Target) (s : ExportScope) :
    ∃ d, dump list file s = .ok d ∧ d.list = list ∧
      d.written = list.filterMap fun x => (objectAt s x).map (x, ·) := by
  unfold dump
  cases file with
  | path p =>
    dsimp only
    split
    · next h => exact ⟨_, rfl, rfl, h.symm⟩
    · exact ⟨_, rfl, rfl, rfl⟩
  | connection k =>
    dsimp only
    rw [if_neg hne]
    exact ⟨_, rfl, rfl, rfl⟩

/-- What `f` finds of a list is all of it with what `g` finds, exactly if they find the same. -/
theorem filterMap_eq_iff {α β : Type} {f g : α → Option β} {l : List α}
    (hg : ∀ x ∈ l, (g x).isSome) :
    (l.filterMap fun x => (f x).map (x, ·)).map (fun x => (x.1, some x.2)) =
      l.map (fun x => (x, g x)) ↔ ∀ x ∈ l, f x = g x := by
  induction l with
  | nil => simp
  | cons a l ih =>
    rw [List.forall_mem_cons] at hg
    rw [List.forall_mem_cons, ← ih hg.2]
    cases hf : f a with
    | none =>
      refine iff_of_false (fun h => ?_) fun h => ?_
      · have hlen := congrArg List.length h
        rw [List.filterMap_cons_none (by rw [hf]; rfl), List.length_map, List.length_map,
          List.length_cons] at hlen
        have hle := List.length_filterMap_le (fun x => (f x).map (x, ·)) l
        omega
      · rw [← h.1] at hg
        cases hg.1
    | some b => simp [hf]

section
variable {c : ExportCall} {names : List String}

/-- The scope in which `dump` looks up the names that `papiexport` gives it. -/
def exportScope (c : ExportCall) (names : List String) (reject : List Nat) : ExportScope :=
  ⟨freshId (c.caller ++ c.ns), exportLocals (c.file.getD .stdout) names reject⟩ :: c.ns

/-- The positions that `papiexport` rejects. -/
def rejected (c : ExportCall) (names : List String) : List Nat :=
  if (fileArg c.args).isSome then [1, names.length + 2] else [1]

theorem objectAt_exportScope (reject : List Nat) (x : String) :
    objectAt (exportScope c names reject) x =
      if x = "file" then some (c.file.getD .stdout).object
      else if x = "args" then some (.character names)
      else if x = "reject" then some (.numeric (reject.map fun k => -(k : Int)))
      else objectAt c.ns x := by
  rw [objectAt, exportScope, valueAt_cons_read]
  by_cases hfile : x = "file"
  · subst hfile
    rfl
  · by_cases hargs : x = "args"
    · subst hargs
      rfl
    · by_cases hreject : x = "reject"
      · subst hreject
        rfl
      · simp [Frame.get, exportLocals, hfile, hargs, hreject, Ne.symm, objectAt]

theorem rejected_numeric : (rejected c names).map (fun k => -(k : Int)) =
    if (fileArg c.args).isSome then [-1, -((names.length : Int) + 2)] else [-1] := by
  rw [rejected]
  split <;> rfl

/-- `papiexport` calls `dump` for the arguments that it does not reject. -/
theorem papiexport_kept (deparse : RExpr → String)
    (h : dots exportFormals c.args = names.map fun x => ("", .sym x)) {kept rest : List Api.Arg}
    (hm : matchCall exportFormals c.args = kept ++ rest) (reject : List Nat)
    (hr : reject = if !isNullArg (fileArg c.args) then [1, (kept ++ rest).length + 1] else [1])
    (h₀ : 0 ∈ reject.map (· - 1)) (hx : ∀ k < kept.length, k + 1 ∉ reject.map (· - 1))
    (hy : ∀ k < rest.length, k + (kept.length + 1) ∈ reject.map (· - 1)) :
    papiexport deparse c = dump (kept.map fun a => elementText deparse a.2)
      (c.file.getD .stdout)
      (exportScope c (kept.map fun a => elementText deparse a.2) reject) := by
  have hcall : ∀ x, dropAt (("", .sym "papiexport") :: (kept ++ rest)) (reject.map (· - 1)) = x →
      papiexport deparse c = dump (x.map fun a => elementText deparse a.2) (c.file.getD .stdout)
        (exportScope c (x.map fun a => elementText deparse a.2) reject) := by
    rintro _ rfl
    subst hr
    rw [papiexport, dollar_file h, hm]
    rfl
  exact hcall kept (dropAt_middle _ kept rest h₀ hx hy)

theorem texts_eq (deparse : RExpr → String) (names : List String) :
    (names.map fun x => (("", .sym x) : Api.Arg)).map (fun a => elementText deparse a.2) =
      names := by
  rw [List.map_map]
  exact List.map_id names

/-- A call that names its objects, with an argument `file` that is not written as `NULL`. -/
theorem papiexport_named (deparse : RExpr → String)
    (h : dots exportFormals c.args = names.map fun x => ("", .sym x)) (hf : ¬ NullFile c) :
    papiexport deparse c = dump names (c.file.getD .stdout)
      (exportScope c names (rejected c names)) := by
  have hm := matchCall_export h
  rw [rejected]
  cases hfile : fileArg c.args with
  | none =>
    rw [hfile] at hm
    have hcall := papiexport_kept deparse h hm [1] (by rw [hfile]; rfl) (by simp)
      (by simp) (by simp)
    rwa [texts_eq] at hcall
  | some e =>
    have hnull : isNullArg (some e) = false := by
      rw [NullFile, hfile] at hf
      simpa using hf
    rw [hfile] at hm
    have hcall := papiexport_kept deparse h hm [1, names.length + 2]
      (by rw [hfile, hnull]; simp) (by simp) (by simp; omega) (by simp)
    rwa [texts_eq] at hcall

/-- With `file=NULL` one name too many is recovered. -/
theorem papiexport_null (deparse : RExpr → String)
    (h : dots exportFormals c.args = names.map fun x => ("", .sym x)) (hf : NullFile c) :
    ∃ x s, papiexport deparse c = dump (names ++ [x]) (c.file.getD .stdout) s := by
  obtain ⟨e, hfile⟩ := Option.isSome_iff_exists.1 hf.1
  have hm := matchCall_export h
  rw [hfile, ← List.append_nil (_ ++ _)] at hm
  have hcall := papiexport_kept deparse h hm [1] (by rw [hf.2]; rfl) (by simp)
    (by simp) (by simp)
  rw [List.map_append, texts_eq] at hcall
  exact ⟨_, _, hcall⟩

/-! ## The result -/

/-- For a call that names its objects, all of them bound in the caller's scope, `dump` is called for
these names and writes these objects exactly if `file` is not written as `NULL` and each name finds
from the package's namespace the object that it finds in the caller's scope, or is that of a local
of `papiexport` and the local is that object. -/
theorem papiexport_exports (deparse : RExpr → String)
    (hdots : dots exportFormals c.args = names.map fun x => ("", .sym x)) (hne : names ≠ [])
    (hbound : ∀ x ∈ names, (objectAt c.caller x).isSome) :
    Exports deparse c names ↔ ¬ NullFile c ∧ ∀ x ∈ names, SameObject c names x := by
  by_cases hf : NullFile c
  · refine iff_of_false ?_ fun h => h.1 hf
    rintro ⟨d, hd, hlist, -⟩
    obtain ⟨x, s, hcall⟩ := papiexport_null deparse hdots hf
    have hsome : names ++ [x] ≠ [] := by simp
    obtain ⟨d', hd', hlist', -⟩ := dump_ok hsome (c.file.getD .stdout) s
    rw [hcall, hd'] at hd
    cases hd
    have hlen := congrArg List.length (hlist'.symm.trans hlist)
    simp at hlen
  · have hkept : ∀ x ∈ names, SameObject c names x ↔
        objectAt (exportScope c names (rejected c names)) x = objectAt c.caller x := by
      intro x _
      rw [objectAt_exportScope, rejected_numeric, SameObject, eq_comm]
    rw [and_iff_right hf, forall₂_congr hkept, ← filterMap_eq_iff hbound, Exports,
      papiexport_named deparse hdots hf]
    obtain ⟨d, hd, hlist, hwritten⟩ :=
      dump_ok hne (c.file.getD .stdout) (exportScope c names (rejected c names))
    constructor
    · rintro ⟨d', hd', -, h⟩
      rw [hd] at hd'
      cases hd'
      rwa [hwritten] at h
    · intro h
      exact ⟨d, hd, hlist, by rwa [hwritten]⟩

end

/-- The workspace, with two variables. -/
def workspaceFrame : Frame String Stored := ⟨0, [("x", .val (.int 1)), ("y", .val (.int 2))]⟩

/-- `papiexport(x, y)` at top level. -/
def topCall : ExportCall where
  args := [("", .sym "x"), ("", .sym "y")]
  file := none
  file_null _ := rfl
  caller := [workspaceFrame]
  ns := [⟨1, []⟩, workspaceFrame]

/-- `papiexport(z)` in a function with the local `z`. -/
def localExport : ExportCall where
  args := [("", .sym "z")]
  file := none
  file_null _ := rfl
  caller := [⟨2, [("z", .val (.int 3))]⟩, workspaceFrame]
  ns := [⟨1, []⟩, workspaceFrame]

/-- `papiexport(x, file=NULL)` at top level. -/
def nullExport : ExportCall where
  args := [("", .sym "x"), ("file", .const "NULL")]
  file := none
  file_null _ := rfl
  caller := [workspaceFrame]
  ns := [⟨1, []⟩, workspaceFrame]

/-- The text of a constant. -/
def constText : RExpr → String
  | .const t => t
  | _ => ""

theorem papiexport_exports_top : Exports constText topCall ["x", "y"] :=
  (papiexport_exports constText (c := topCall) rfl (by decide) (by decide)).2
    ⟨fun h => absurd h.1 (by decide), by decide⟩

/-- The object of a calling function is not found, and `NULL` is taken for a name. -/
theorem localExport_lost :
    papiexport constText localExport = .ok ⟨["z"], .stdout, [], ["z"]⟩ ∧
      ¬ Exports constText localExport ["z"] ∧
      papiexport constText nullExport =
        .ok ⟨["x", "NULL"], .stdout, [("x", .val (.int 1))], ["NULL"]⟩ ∧
      ¬ Exports constText nullExport ["x"] := by
  have hlocal : papiexport constText localExport = .ok ⟨["z"], .stdout, [], ["z"]⟩ := by rfl
  have hnull : papiexport constText nullExport =
      .ok ⟨["x", "NULL"], .stdout, [("x", .val (.int 1))], ["NULL"]⟩ := by rfl
  refine ⟨hlocal, ?_, hnull, ?_⟩
  · rintro ⟨d, hd, -, hwritten⟩
    rw [hlocal] at hd
    cases hd
    cases hwritten
  · rintro ⟨d, hd, hlist, -⟩
    rw [hnull] at hd
    cases hd
    cases hlist

end PbdPapi.Proof
