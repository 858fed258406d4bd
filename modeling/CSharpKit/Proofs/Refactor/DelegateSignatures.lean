import CSharpKit.Proofs.Outcome
import CSharpKit.Proofs.Semantics.Overloads
import CSharpKit.Proofs.Semantics.Reordering
import CSharpKit.Refactor.DelegateShape
import Mathlib.Data.Option.Basic

/-!
# Signatures of builtin delegates

The call of an `Action` or a `Func` takes the type parameters of its definition in their order.
Seen through a use of the definition they are the type arguments of the use, so the type, the
name and the written argument of each parameter stand at the same position.
-/

namespace CSharpKit.Semantics

open Syntax Workspace

/-! ## Instances -/

namespace SymbolTable

variable {s s' : SymbolTable} {d : TypeId}

theorem arguments_instanceType (s : SymbolTable) (d : TypeId) :
    (s.instanceType d).arguments =
      (s.type d).typeParams.zipIdx.map fun p => .param (.type d) p.2 p.1 := rfl

theorem length_arguments_instanceType (s : SymbolTable) (d : TypeId) :
    (s.instanceType d).arguments.length = (s.type d).arity := by
  rw [arguments_instanceType, List.length_map, List.length_zipIdx, TypeInfo.arity]

/-- The type parameters of a definition stand for the arguments of its use. -/
theorem map_substitute_instanceType {args : List Ty} (h : args.length = (s.type d).arity) :
    (s.instanceType d).arguments.map (Ty.substitute (.type d) args) = args := by
  refine List.ext_getElem ?_ fun i hi hargs => ?_
  · rw [List.length_map, length_arguments_instanceType, h]
  · simp [arguments_instanceType, Ty.substitute, hargs]

/-- The call of a delegate takes the first of its type parameters in their order, by the given
names. -/
structure TakesInOrder (s : SymbolTable) (d : TypeId) (names : List String) : Prop where
  kind_eq : (s.type d).kind = .delegateType
  params_eq : (s.invoke? d).map (fun m =>
      ((s.method m).params.map (·.name), (s.method m).params.map (·.ty))) =
    some (names, (s.instanceType d).arguments.take names.length)

instance (s : SymbolTable) (d : TypeId) (names : List String) : Decidable (s.TakesInOrder d names) :=
  decidable_of_iff ((s.type d).kind = .delegateType ∧ (s.invoke? d).map (fun m =>
      ((s.method m).params.map (·.name), (s.method m).params.map (·.ty))) =
        some (names, (s.instanceType d).arguments.take names.length))
    ⟨fun h => ⟨h.1, h.2⟩, fun h => ⟨h.1, h.2⟩⟩

namespace TakesInOrder

variable {names : List String} (h : s.TakesInOrder d names)
include h

theorem exists_call : ∃ m, s.invoke? d = some m ∧ (s.method m).params.map (·.name) = names ∧
    (s.method m).params.map (·.ty) = (s.instanceType d).arguments.take names.length := by
  obtain ⟨m, hm, hparams⟩ := Option.map_eq_some_iff.mp h.params_eq
  exact ⟨m, hm, (Prod.mk.inj hparams).1, (Prod.mk.inj hparams).2⟩

/-- A table that has more types and the same call has the same delegate. -/
theorem mono (hgrows : Grows s s') (hd : d.num < s.types.size)
    (hcall : ∀ m, s.invoke? d = some m → s'.invoke? d = some m ∧ s'.method m = s.method m) :
    s'.TakesInOrder d names := by
  have hkind := congrArg TypeInfo.kind (hgrows.type_eq hd)
  have htypeParams := congrArg TypeInfo.typeParams (hgrows.type_eq hd)
  obtain ⟨m, hm, hnames, htypes⟩ := h.exists_call
  obtain ⟨hinvoke, hmethod⟩ := hcall m hm
  refine ⟨hkind.trans h.kind_eq, ?_⟩
  rw [hinvoke, Option.map_some, hmethod, hnames, htypes, arguments_instanceType,
    arguments_instanceType]
  exact congrArg (fun typeParams : List String => some (names, (typeParams.zipIdx.map fun p =>
    Ty.param (.type d) p.2 p.1).take names.length)) htypeParams.symm

end TakesInOrder

end SymbolTable

/-! ## The delegates of the framework -/

namespace Framework

@[simp] theorem length_numbered (single several : String) (n : Nat) :
    (numbered single several n).length = n := by
  unfold numbered
  split
  · rfl
  · rfl
  · rw [List.length_map, List.length_range]

/-- How the parameters of the calls are named. A `Func` has no parameter for its last type
parameter, which it returns. -/
theorem takesInOrder_table : ∀ i < table.types.size,
    (table.fullName ⟨i⟩ = "System.Action" →
      table.TakesInOrder ⟨i⟩ (numbered "obj" "arg" (table.type ⟨i⟩).arity)) ∧
    (table.fullName ⟨i⟩ = "System.Func" →
      table.TakesInOrder ⟨i⟩ (numbered "arg" "arg" ((table.type ⟨i⟩).arity - 1))) := by
  decide +kernel

end Framework

variable {d : TypeId}

/-- A type of the framework keeps its full name in a project. -/
theorem fullName_framework (project : Project) (hd : d.num < Framework.table.types.size) :
    (SymbolTable.ofProject project).fullName d = Framework.table.fullName d := by
  have hrange : (Container.type d).InRange Framework.table := hd
  obtain ⟨way, hat⟩ := closed_framework.exists_way hrange
  rw [SymbolTable.fullName, SymbolTable.fullName,
    SymbolTable.qualifiers_of_at closed_framework hat,
    SymbolTable.qualifiers_of_at (closed_ofProject project)
      (hat.mono (grows_ofProject_of_framework project))]

/-- A delegate of the framework keeps its call in a project. -/
theorem invoke?_framework (project : Project) {m : MethodId}
    (h : Framework.table.invoke? d = some m) :
    (SymbolTable.ofProject project).invoke? d = some m ∧
      (SymbolTable.ofProject project).method m = Framework.table.method m := by
  obtain ⟨hm, howner, hkind⟩ := SymbolTable.mem_methodsOf.mp (List.mem_of_getLast? h)
  have hmethod := method_framework project hm
  have hlt := Nat.lt_of_lt_of_le hm (grows_ofProject_of_framework project).methods.size_le
  refine ⟨(callsApart_ofProject project).invoke?_eq_some.mpr ⟨hlt, ?_, ?_⟩, hmethod⟩
  · rw [hmethod, howner]
  · rw [hmethod, hkind]

theorem SymbolTable.TakesInOrder.ofProject {names : List String}
    (h : Framework.table.TakesInOrder d names) (hd : d.num < Framework.table.types.size)
    (project : Project) : (SymbolTable.ofProject project).TakesInOrder d names :=
  h.mono (grows_ofProject_of_framework project) hd fun _ hm => invoke?_framework project hm

end CSharpKit.Semantics

namespace CSharpKit.Refactor

open Syntax Workspace Semantics Model

/-! ## Parameters -/

/-- Parameters of the given types. The name of each is in a comment behind the argument that is
written for it, or else it is the declared one. -/
structure Signature (declared : List ParameterInfo) (written : List Cursor) (types : List Ty)
    (found : List DelegateParameter) : Prop where
  types_eq : found.map (·.ty) = types
  name_eq : ∀ (i : Nat) (p : DelegateParameter), found[i]? = some p → ∃ argument parameter,
    written[i]? = some argument ∧ declared[i]? = some parameter ∧
      p.name = (annotatedName? argument).getD parameter.name

namespace DelegateShape

/-- All parameters of a call are found. -/
theorem parametersOf?_length (invoke : MethodInfo) (ty : Ty) (written : List Cursor) :
    parametersOf? invoke ty written invoke.params.length = some (invoke.params.mapIdx fun i declared =>
      ⟨parameterName written i declared.name, Ty.throughReceiver ty declared.ty⟩) := by
  rw [parametersOf?, Outcome.mapM_eq_some_iff, List.forall₂_iff_get]
  refine ⟨by simp, fun i hi hi' => ?_⟩
  have hlt : i < invoke.params.length := by simpa using hi
  simp [hlt]

/-- The parameters of a call have the types that its use gives them. -/
theorem exists_signature (invoke : MethodInfo) (ty : Ty) {written : List Cursor}
    (h : invoke.params.length ≤ written.length) :
    ∃ found, parametersOf? invoke ty written invoke.params.length = some found ∧
      Signature invoke.params written
        (invoke.params.map fun p => Ty.throughReceiver ty p.ty) found := by
  refine ⟨_, parametersOf?_length invoke ty written, ?_, fun i p hp => ?_⟩
  · exact List.ext_getElem (by simp) fun i hi hi' => by simp
  · rw [List.getElem?_mapIdx] at hp
    obtain ⟨declared, hdeclared, rfl⟩ := Option.map_eq_some_iff.mp hp
    have hi : i < written.length := Nat.lt_of_lt_of_le (List.getElem?_eq_some_iff.mp hdeclared).1 h
    refine ⟨written[i], declared, List.getElem?_eq_getElem hi, hdeclared, ?_⟩
    simp [parameterName, hi]

section

variable {s : SymbolTable} {d : TypeId} {args : List Ty} {written : Cursor} {m : MethodId}
  {found : List DelegateParameter}

theorem ofType?_action (hkind : (s.type d).kind = .delegateType) (hm : s.invoke? d = some m)
    (hwritten : written.kind = .genericName) (hargs : args ≠ [])
    (hname : s.fullName d = "System.Action")
    (hfound : parametersOf? (s.method m) (.named d args) written.typeArguments args.length =
      some found) :
    ofType? s (.named d args) written = some (.action found) := by
  cases args with
  | nil => exact absurd rfl hargs
  | cons a as =>
      rw [List.length_cons] at hfound
      simp [ofType?, hkind, hm, hwritten, hname, hfound]

theorem ofType?_func {inputs : List Ty} {result : Ty} (hkind : (s.type d).kind = .delegateType)
    (hm : s.invoke? d = some m) (hwritten : written.kind = .genericName)
    (hargs : args = inputs ++ [result]) (hname : s.fullName d = "System.Func")
    (hfound : parametersOf? (s.method m) (.named d args) written.typeArguments inputs.length =
      some found) :
    ofType? s (.named d args) written = some (.func found result) := by
  cases args with
  | nil => simp at hargs
  | cons a as =>
      have hlength : inputs.length = as.length := by
        simpa using (congrArg List.length hargs).symm
      have hlast : (a :: as).getLastD a = result := by rw [hargs, List.getLastD_concat]
      rw [hlength] at hfound
      simp only [ofType?, hkind, hm, hwritten, hname, hlast]
      simp [hfound]

/-- What has a shape is written as a generic name and means a delegate of one of the two names. -/
theorem ofType?_eq_some {ty : Ty} {shape : DelegateShape} (h : ofType? s ty written = some shape) :
    written.kind = .genericName ∧ ∃ d, ty.definition? = some d ∧
      (s.type d).kind = .delegateType ∧
      (s.fullName d = "System.Action" ∨ s.fullName d = "System.Func") := by
  unfold ofType? at h
  split at h
  · next d a as =>
    obtain ⟨_, hguard, h⟩ := Option.bind_eq_some_iff.mp h
    obtain ⟨_, -, h⟩ := Option.bind_eq_some_iff.mp h
    have hcheck := (Option.guard_eq_some' _).mp hguard
    rw [Bool.and_eq_true] at hcheck
    refine ⟨beq_iff_eq.mp hcheck.1, d, rfl, beq_iff_eq.mp hcheck.2, ?_⟩
    dsimp only at h
    split at h
    · next hname => exact .inl hname
    · next hname => exact .inr hname
    · cases h
  · cases h

theorem ofType?_eq_none {ty : Ty} (h : written.kind ≠ .genericName ∨ ∀ d, ty.definition? = some d →
      s.fullName d ≠ "System.Action" ∧ s.fullName d ≠ "System.Func") :
    ofType? s ty written = none := by
  refine Option.eq_none_iff_forall_not_mem.mpr fun shape hshape => ?_
  obtain ⟨hkind, d, hd, -, hname⟩ := ofType?_eq_some hshape
  rcases h with hne | hne
  · exact hne hkind
  · exact hname.elim (hne d hd).1 (hne d hd).2

end

/-- A use of a delegate of the framework with all its type arguments, which is written as a generic
name with as many. -/
structure BuiltinUse (project : Project) (name : String) (d : TypeId) (args : List Ty)
    (written : Cursor) : Prop where
  lt_size : d.num < Framework.table.types.size
  fullName_eq : (SymbolTable.ofProject project).fullName d = name
  length_eq : args.length = ((SymbolTable.ofProject project).type d).arity
  ne_nil : args ≠ []
  kind_eq : written.kind = .genericName
  written_eq : written.typeArguments.length = args.length

namespace BuiltinUse

variable {project : Project} {name : String} {d : TypeId} {args : List Ty} {written : Cursor}
  (h : BuiltinUse project name d args written)
include h

/-- What the framework says of the delegates of a name holds of the one that is used. -/
theorem takesInOrder (names : Nat → List String) (htable : ∀ i < Framework.table.types.size,
      Framework.table.fullName ⟨i⟩ = name → Framework.table.TakesInOrder ⟨i⟩
        (names (Framework.table.type ⟨i⟩).arity)) :
    (SymbolTable.ofProject project).TakesInOrder d (names args.length) := by
  have hname : Framework.table.fullName d = name :=
    (fullName_framework project h.lt_size).symm.trans h.fullName_eq
  have harity : args.length = (Framework.table.type d).arity :=
    h.length_eq.trans ((grows_ofProject_of_framework project).fits_eq h.lt_size).2.2
  rw [harity]
  exact (htable d.num h.lt_size hname).ofProject h.lt_size project

/-- If the call takes the first type parameters, its parameters have the first type arguments. -/
theorem exists_signature {names : List String}
    (hcall : (SymbolTable.ofProject project).TakesInOrder d names)
    (hnames : names.length ≤ args.length) :
    ∃ m found, (SymbolTable.ofProject project).invoke? d = some m ∧
      ((SymbolTable.ofProject project).method m).params.map (·.name) = names ∧
      parametersOf? ((SymbolTable.ofProject project).method m) (.named d args) written.typeArguments
        names.length = some found ∧
      Signature ((SymbolTable.ofProject project).method m).params written.typeArguments
        (args.take names.length) found := by
  obtain ⟨m, hm, hparams, htypes⟩ := hcall.exists_call
  have hlength : ((SymbolTable.ofProject project).method m).params.length = names.length := by
    rw [← hparams, List.length_map]
  have hthrough : Ty.throughReceiver (.named d args) = Ty.substitute (.type d) args := by
    cases args with
    | nil => exact absurd rfl h.ne_nil
    | cons a as => rfl
  have hargs : ((SymbolTable.ofProject project).method m).params.map
      (fun p => Ty.throughReceiver (.named d args) p.ty) = args.take names.length := by
    calc ((SymbolTable.ofProject project).method m).params.map
          (fun p => Ty.throughReceiver (.named d args) p.ty)
        = (((SymbolTable.ofProject project).method m).params.map (·.ty)).map
            (Ty.substitute (.type d) args) := by
          rw [hthrough, List.map_map]
          rfl
      _ = args.take names.length := by
          rw [htypes, List.map_take, SymbolTable.map_substitute_instanceType h.length_eq]
  have hwritten : ((SymbolTable.ofProject project).method m).params.length ≤
      written.typeArguments.length := by
    rw [hlength, h.written_eq]
    exact hnames
  obtain ⟨found, hfound, hsignature⟩ := DelegateShape.exists_signature
    ((SymbolTable.ofProject project).method m) (.named d args) hwritten
  rw [hlength] at hfound
  rw [hargs] at hsignature
  exact ⟨m, found, hm, hparams, hfound, hsignature⟩

end BuiltinUse

/-- A use of a builtin `Action` has a parameter for each type argument. A use of a builtin `Func`
has one for each but the last, which it returns. A type of another name has no shape, and neither
has one that is not written as a generic name. -/
theorem ofType?_builtin (project : Project) (written : Cursor) :
    (∀ d args, BuiltinUse project "System.Action" d args written →
      ∃ m found, (SymbolTable.ofProject project).invoke? d = some m ∧
        ((SymbolTable.ofProject project).method m).params.map (·.name) =
          Framework.numbered "obj" "arg" args.length ∧
        ofType? (.ofProject project) (.named d args) written = some (.action found) ∧
        Signature ((SymbolTable.ofProject project).method m).params written.typeArguments args
          found) ∧
    (∀ d args, BuiltinUse project "System.Func" d args written →
      ∃ m inputs result found, (SymbolTable.ofProject project).invoke? d = some m ∧
        ((SymbolTable.ofProject project).method m).params.map (·.name) =
          Framework.numbered "arg" "arg" inputs.length ∧
        args = inputs ++ [result] ∧
        ofType? (.ofProject project) (.named d args) written = some (.func found result) ∧
        Signature ((SymbolTable.ofProject project).method m).params written.typeArguments inputs
          found) ∧
    ∀ ty, (written.kind ≠ .genericName ∨ ∀ d, ty.definition? = some d →
        (SymbolTable.ofProject project).fullName d ≠ "System.Action" ∧
        (SymbolTable.ofProject project).fullName d ≠ "System.Func") →
      ofType? (.ofProject project) ty written = none := by
  refine ⟨fun d args h => ?_, fun d args h => ?_, fun ty h => ofType?_eq_none h⟩
  · have hcall := h.takesInOrder (Framework.numbered "obj" "arg") fun i hi =>
      (Framework.takesInOrder_table i hi).1
    obtain ⟨m, found, hm, hnames, hfound, hsignature⟩ := h.exists_signature hcall (by simp)
    rw [Framework.length_numbered] at hfound hsignature
    rw [List.take_length] at hsignature
    exact ⟨m, found, hm, hnames,
      ofType?_action hcall.kind_eq hm h.kind_eq h.ne_nil h.fullName_eq hfound, hsignature⟩
  · obtain ⟨inputs, result, rfl⟩ : ∃ inputs result, args = inputs ++ [result] :=
      ⟨args.dropLast, args.getLast h.ne_nil, (List.dropLast_append_getLast h.ne_nil).symm⟩
    have hcall := h.takesInOrder (fun arity => Framework.numbered "arg" "arg" (arity - 1))
      fun i hi => (Framework.takesInOrder_table i hi).2
    rw [List.length_append, List.length_singleton, Nat.add_sub_cancel] at hcall
    obtain ⟨m, found, hm, hnames, hfound, hsignature⟩ := h.exists_signature hcall (by simp)
    rw [Framework.length_numbered] at hfound hsignature
    rw [List.take_left] at hsignature
    exact ⟨m, inputs, result, found, hm, hnames, rfl,
      ofType?_func hcall.kind_eq hm h.kind_eq rfl h.fullName_eq hfound, hsignature⟩

/-- A project with one document, in which some of the type arguments of the delegates have comments
behind them. -/
def annotatedProject : Project :=
  Project.empty.append (Document.read 0 "annotated.cs"
    "using System; class C \x7b void M(Action<int /*count*/, string> a, Func<int[], bool /*all*/, char /*c*/> f, System.Action<int> q, Predicate<int> p) \x7b \x7d \x7d" 0)
    rfl

/-- The types `Action<int, string>`, `Func<int[], bool, char>`, `System.Action<int>` and
`Predicate<int>`, as they are written. -/
theorem names_annotatedProject :
    (∃ c ∈ nodesIn annotatedProject .genericName,
      (ofFirst annotatedProject).resolveType c = .named ⟨20⟩ [.plain ⟨9⟩, .plain ⟨1⟩] ∧
      c.typeArguments.map annotatedName? = [some "count", none] ∧
      ofType? (ofFirst annotatedProject).table (.named ⟨20⟩ [.plain ⟨9⟩, .plain ⟨1⟩]) c =
        some (.action [⟨"count", .plain ⟨9⟩⟩, ⟨"arg2", .plain ⟨1⟩⟩])) ∧
    (∃ c ∈ nodesIn annotatedProject .genericName,
      (ofFirst annotatedProject).resolveType c =
        .named ⟨37⟩ [.array (.plain ⟨9⟩) 1, .plain ⟨2⟩, .plain ⟨5⟩] ∧
      c.typeArguments.map annotatedName? = [none, some "all", some "c"] ∧
      ofType? (ofFirst annotatedProject).table
          (.named ⟨37⟩ [.array (.plain ⟨9⟩) 1, .plain ⟨2⟩, .plain ⟨5⟩]) c =
        some (.func [⟨"arg1", .array (.plain ⟨9⟩) 1⟩, ⟨"all", .plain ⟨2⟩⟩] (.plain ⟨5⟩))) ∧
    (∃ c ∈ nodesIn annotatedProject .qualifiedName,
      (ofFirst annotatedProject).resolveType c = .named ⟨19⟩ [.plain ⟨9⟩]) ∧
    (∃ c ∈ nodesIn annotatedProject .genericName,
      (ofFirst annotatedProject).resolveType c = .named ⟨52⟩ [.plain ⟨9⟩]) ∧
    (ofFirst annotatedProject).table.fullName ⟨20⟩ = "System.Action" ∧
    (ofFirst annotatedProject).table.fullName ⟨37⟩ = "System.Func" ∧
    (ofFirst annotatedProject).table.fullName ⟨52⟩ = "System.Predicate" ∧
    ((ofFirst annotatedProject).table.type ⟨20⟩).arity = 2 ∧
    ((ofFirst annotatedProject).table.type ⟨37⟩).arity = 3 ∧
    37 < Framework.table.types.size := by
  rw [← Project.quick_eq annotatedProject]
  decide +kernel

theorem ofType?_builtin_annotated :
    (∃ c ∈ nodesIn annotatedProject .genericName, ∃ m,
      (ofFirst annotatedProject).resolveType c = .named ⟨20⟩ [.plain ⟨9⟩, .plain ⟨1⟩] ∧
      (ofFirst annotatedProject).table.invoke? ⟨20⟩ = some m ∧
      Signature ((ofFirst annotatedProject).table.method m).params c.typeArguments
        [.plain ⟨9⟩, .plain ⟨1⟩] [⟨"count", .plain ⟨9⟩⟩, ⟨"arg2", .plain ⟨1⟩⟩]) ∧
    (∃ c ∈ nodesIn annotatedProject .genericName, ∃ m,
      (ofFirst annotatedProject).resolveType c =
        .named ⟨37⟩ [.array (.plain ⟨9⟩) 1, .plain ⟨2⟩, .plain ⟨5⟩] ∧
      (ofFirst annotatedProject).table.invoke? ⟨37⟩ = some m ∧
      Signature ((ofFirst annotatedProject).table.method m).params c.typeArguments
        [.array (.plain ⟨9⟩) 1, .plain ⟨2⟩] [⟨"arg1", .array (.plain ⟨9⟩) 1⟩, ⟨"all", .plain ⟨2⟩⟩]) ∧
    (∃ c ∈ nodesIn annotatedProject .qualifiedName,
      (ofFirst annotatedProject).resolveType c = .named ⟨19⟩ [.plain ⟨9⟩] ∧
      ofType? (ofFirst annotatedProject).table (.named ⟨19⟩ [.plain ⟨9⟩]) c = none) ∧
    ∃ c ∈ nodesIn annotatedProject .genericName,
      (ofFirst annotatedProject).resolveType c = .named ⟨52⟩ [.plain ⟨9⟩] ∧
      ofType? (ofFirst annotatedProject).table (.named ⟨52⟩ [.plain ⟨9⟩]) c = none := by
  obtain ⟨⟨a, ha, haty, haname, hashape⟩, ⟨f, hf, hfty, hfname, hfshape⟩, ⟨q, hq, hqty⟩,
    ⟨p, hp, hpty⟩, haction, hfunc, hpredicate, haarity, hfarity, hlt⟩ := names_annotatedProject
  obtain ⟨-, -, -, hakind⟩ := exists_doc_of_mem_nodesIn ha
  obtain ⟨-, -, -, hfkind⟩ := exists_doc_of_mem_nodesIn hf
  obtain ⟨-, -, -, hqkind⟩ := exists_doc_of_mem_nodesIn hq
  refine ⟨⟨a, ha, ?_⟩, ⟨f, hf, ?_⟩, ⟨q, hq, hqty, ?_⟩, ⟨p, hp, hpty, ?_⟩⟩
  · obtain ⟨m, found, hm, -, hfound, hsignature⟩ := (ofType?_builtin annotatedProject a).1 ⟨20⟩
      [.plain ⟨9⟩, .plain ⟨1⟩] {
        lt_size := Nat.lt_trans (by decide) hlt
        fullName_eq := haction
        length_eq := haarity.symm
        ne_nil := List.cons_ne_nil _ _
        kind_eq := hakind
        written_eq := by simpa using congrArg List.length haname }
    obtain rfl := DelegateShape.action.inj (Option.some.inj (hfound.symm.trans hashape))
    exact ⟨m, haty, hm, hsignature⟩
  · obtain ⟨m, inputs, result, found, hm, -, hargs, hfound, hsignature⟩ :=
      (ofType?_builtin annotatedProject f).2.1 ⟨37⟩
        [.array (.plain ⟨9⟩) 1, .plain ⟨2⟩, .plain ⟨5⟩] {
          lt_size := hlt
          fullName_eq := hfunc
          length_eq := hfarity.symm
          ne_nil := List.cons_ne_nil _ _
          kind_eq := hfkind
          written_eq := by simpa using congrArg List.length hfname }
    obtain ⟨rfl, rfl⟩ := DelegateShape.func.inj (Option.some.inj (hfound.symm.trans hfshape))
    obtain rfl : inputs = [.array (.plain ⟨9⟩) 1, .plain ⟨2⟩] := by
      simpa using (congrArg List.dropLast hargs).symm
    exact ⟨m, hfty, hm, hsignature⟩
  · exact (ofType?_builtin annotatedProject q).2.2 _ (.inl (by rw [hqkind]; decide))
  · refine (ofType?_builtin annotatedProject p).2.2 _ (.inr fun d hd => ?_)
    obtain rfl := Option.some.inj hd
    rw [show (SymbolTable.ofProject annotatedProject).fullName ⟨52⟩ = "System.Predicate" from
      hpredicate]
    decide

end DelegateShape

end CSharpKit.Refactor
