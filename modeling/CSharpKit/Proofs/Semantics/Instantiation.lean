import CSharpKit.Proofs.Semantics.PassedArguments
import CSharpKit.Proofs.Semantics.Questions

/-!
# Instantiated return types

The type of a call is the return type of its method with the parameters of the receiver's
definition and those of the method replaced. They are replaced one after the other: first by
the arguments of the receiver, then by those of the method. That is the same as replacing all
at once, unless an argument of the receiver mentions a parameter of the method itself. This
happens where a generic method calls itself on a receiver built from its own parameters.
-/

namespace CSharpKit.Semantics

open Syntax Cursor Workspace

namespace Ty

mutual

/-- The type parameters that occur in a type, each by its owner and its place there. -/
def params : Ty → List (ParamOwner × Nat)
  | .named _ as => paramsAll as
  | .param o i _ => [(o, i)]
  | .array e _ => params e
  | .nullable t => params t
  | .void | .null | .error _ => []

def paramsAll : List Ty → List (ParamOwner × Nat)
  | [] => []
  | t :: ts => params t ++ paramsAll ts

end

mutual

/-- The type with the parameters of all owners replaced at once. What takes the place of a
parameter is not looked at again, and a parameter without an argument stays. -/
def instantiate (arguments : ParamOwner → List Ty) : Ty → Ty
  | .named d as => .named d (instantiateAll arguments as)
  | .param o i n => ((arguments o)[i]?).getD (.param o i n)
  | .array e r => .array (instantiate arguments e) r
  | .nullable t => .nullable (instantiate arguments t)
  | .void => .void
  | .null => .null
  | .error s => .error s

def instantiateAll (arguments : ParamOwner → List Ty) : List Ty → List Ty
  | [] => []
  | t :: ts => instantiate arguments t :: instantiateAll arguments ts

end

/-- The arguments that a receiver gives for the parameters of a definition. -/
def argumentsFor (receiver? : Option Ty) (definition : TypeId) : List Ty :=
  match receiver? with
  | some (.named d as) => if definition = d then as else []
  | _ => []

/-- The arguments for the parameters of type definitions and of one method. -/
def supplied (ofType : TypeId → List Ty) (method : MethodId) (ofMethod : List Ty) :
    ParamOwner → List Ty
  | .type d => ofType d
  | .method k => if k = method then ofMethod else []

/-! ## One replacement -/

section

variable {values : ParamOwner → List Ty}

mutual

theorem instantiate_eq_self (h : ∀ owner, values owner = []) : ∀ t : Ty, t.instantiate values = t
  | .named d as => by rw [instantiate, instantiateAll_eq_self h as]
  | .param o i n => by rw [instantiate, h o]; rfl
  | .array e r => by rw [instantiate, instantiate_eq_self h e]
  | .nullable t => by rw [instantiate, instantiate_eq_self h t]
  | .void | .null | .error _ => rfl

theorem instantiateAll_eq_self (h : ∀ owner, values owner = []) :
    ∀ ts : List Ty, instantiateAll values ts = ts
  | [] => rfl
  | t :: ts => by rw [instantiateAll, instantiate_eq_self h t, instantiateAll_eq_self h ts]

end

variable {owner : ParamOwner} {args : List Ty}

mutual

theorem substitute_eq_instantiate (h : ∀ other, values other = if other = owner then args else []) :
    ∀ t : Ty, t.substitute owner args = t.instantiate values
  | .named d as => by rw [substitute, instantiate, substituteAll_eq_instantiateAll h as]
  | .param o i n => by
      rw [substitute, instantiate, h o]
      split <;> rfl
  | .array e r => by rw [substitute, instantiate, substitute_eq_instantiate h e]
  | .nullable t => by rw [substitute, instantiate, substitute_eq_instantiate h t]
  | .void | .null | .error _ => rfl

theorem substituteAll_eq_instantiateAll
    (h : ∀ other, values other = if other = owner then args else []) :
    ∀ ts : List Ty, substituteAll owner args ts = instantiateAll values ts
  | [] => rfl
  | t :: ts => by
      rw [substituteAll, instantiateAll, substitute_eq_instantiate h t,
        substituteAll_eq_instantiateAll h ts]

end

end

/-- Without arguments nothing is replaced. -/
theorem substitute_nil (owner : ParamOwner) (t : Ty) : t.substitute owner [] = t := by
  have hnone (other : ParamOwner) : ([] : List Ty) = if other = owner then [] else [] :=
    (ite_self []).symm
  rw [substitute_eq_instantiate hnone]
  exact instantiate_eq_self (fun _ => rfl) t

/-- A member is seen through a receiver by one replacement. -/
theorem through?_eq_instantiate (receiver? : Option Ty) (method : MethodId) (t : Ty) :
    t.through? receiver? = t.instantiate (supplied (argumentsFor receiver?) method []) := by
  have hmethod (k : MethodId) :
      supplied (argumentsFor receiver?) method [] (.method k) = [] := ite_self []
  have hnone (h : ∀ d, argumentsFor receiver? d = []) :
      t.instantiate (supplied (argumentsFor receiver?) method []) = t := by
    apply instantiate_eq_self
    intro owner
    cases owner with
    | type d => exact h d
    | method k => exact hmethod k
  unfold through?
  split
  · next receiver =>
    unfold throughReceiver
    split
    · next d a as =>
      apply substitute_eq_instantiate
      intro owner
      cases owner with
      | type e => simp [supplied, argumentsFor]
      | method k => simp [hmethod]
    · next hplain =>
      refine (hnone fun d => ?_).symm
      unfold argumentsFor
      split
      · next d' as heq =>
        obtain rfl := Option.some.inj heq
        cases as with
        | nil => exact ite_self []
        | cons a as => exact absurd rfl (hplain d' a as)
      · rfl
  · exact (hnone fun _ => rfl).symm

/-! ## One after the other -/

section

variable {ofType : TypeId → List Ty} {method : MethodId} {args : List Ty}

/-- No argument that takes the place of a parameter in a list of such mentions a parameter that
is replaced after it. -/
def Uncaptured (ofType : TypeId → List Ty) (method : MethodId) (args : List Ty)
    (places : List (ParamOwner × Nat)) : Prop :=
  ∀ d i, (ParamOwner.type d, i) ∈ places → ∀ a, (ofType d)[i]? = some a →
    a.substitute (.method method) args = a

theorem uncaptured_append {places places' : List (ParamOwner × Nat)} :
    Uncaptured ofType method args (places ++ places') ↔
      Uncaptured ofType method args places ∧ Uncaptured ofType method args places' := by
  simp only [Uncaptured, List.mem_append]
  constructor
  · intro h
    exact ⟨fun d i hd => h d i (.inl hd), fun d i hd => h d i (.inr hd)⟩
  · rintro ⟨h, h'⟩ d i (hd | hd)
    · exact h d i hd
    · exact h' d i hd

mutual

/-- To replace first and then the parameters of a method is to replace all at once, if and only
if nothing is captured. -/
theorem substitute_instantiate_iff : ∀ t : Ty,
    (t.instantiate (supplied ofType method [])).substitute (.method method) args =
      t.instantiate (supplied ofType method args) ↔ Uncaptured ofType method args t.params
  | .named d as => by
      rw [instantiate, instantiate, substitute, params, named.injEq,
        ← substituteAll_instantiateAll_iff as]
      exact and_iff_right rfl
  | .param (.type d) i n => by
      simp only [instantiate, supplied, Uncaptured, params, List.mem_singleton, Prod.mk.injEq,
        ParamOwner.type.injEq]
      constructor
      · rintro h _ _ ⟨rfl, rfl⟩ a ha
        rwa [ha] at h
      · intro h
        cases ha : (ofType d)[i]? with
        | none => rfl
        | some a => exact h d i ⟨rfl, rfl⟩ a ha
  | .param (.method k) i n => by
      have hfree : Uncaptured ofType method args (params (.param (.method k) i n)) := by
        intro d j hd
        simp [params] at hd
      refine iff_of_true ?_ hfree
      by_cases hk : k = method
      · simp [instantiate, supplied, substitute, hk]
      · simp [instantiate, supplied, substitute, hk]
  | .array e r => by
      rw [instantiate, instantiate, substitute, params, array.injEq, ← substitute_instantiate_iff e]
      exact and_iff_left rfl
  | .nullable t => by
      rw [instantiate, instantiate, substitute, params, nullable.injEq,
        ← substitute_instantiate_iff t]
  | .void | .null | .error _ => iff_of_true rfl (fun _ _ hd => nomatch hd)

theorem substituteAll_instantiateAll_iff : ∀ ts : List Ty,
    substituteAll (.method method) args (instantiateAll (supplied ofType method []) ts) =
      instantiateAll (supplied ofType method args) ts ↔
        Uncaptured ofType method args (paramsAll ts)
  | [] => iff_of_true rfl (fun _ _ hd => nomatch hd)
  | t :: ts => by
      rw [instantiateAll, instantiateAll, substituteAll, paramsAll, List.cons.injEq,
        uncaptured_append, substitute_instantiate_iff t, substituteAll_instantiateAll_iff ts]

end

end

end Ty

/-! ## Type arguments of a call -/

namespace Fit

variable {s : SymbolTable} {form : CallForm} {args : CallArguments} {method : MethodId}

theorem isApplicable_of_choose? {candidates : List MethodId}
    (h : choose? s candidates form args = some method) :
    ∃ fit, IsApplicable s form args method fit := by
  obtain ⟨rank, hmem⟩ := mem_of_unique? (choose?_eq ▸ h)
  obtain ⟨candidate, -, hcandidate⟩ := List.mem_filterMap.mp hmem
  obtain ⟨rfl, fit, hfit, -⟩ := ranked?_eq_some_iff.mp hcandidate
  exact ⟨fit, hfit⟩

/-- The type arguments are those written, or those inferred from a row of arguments: the value
that an extension method is called on, and those of the call. -/
theorem typeArguments_of_find? {fit : Fit} (h : find? s method form args = some fit) :
    ∃ laid, fit.typeArguments = form.explicit?.getD (infer s method form.receiver? laid) ∧
      ∀ entry ∈ laid, (∃ ty, form.thisArgument? = some ty ∧ entry.2 = .typed ty) ∨
        entry.2 ∈ args.shapes := by
  have inForm {expanded : Bool} (h : inForm? s method form args expanded = some fit) :
      ∃ laid, fit.typeArguments = form.explicit?.getD (infer s method form.receiver? laid) ∧
        ∀ entry ∈ laid, (∃ ty, form.thisArgument? = some ty ∧ entry.2 = .typed ty) ∨
          entry.2 ∈ args.shapes := by
    obtain ⟨slots, -, h⟩ := Option.bind_eq_some_iff.mp h
    obtain ⟨weights, -, h⟩ := Option.bind_eq_some_iff.mp h
    obtain rfl := Option.some.inj h
    refine ⟨_, rfl, fun entry hentry => ?_⟩
    rcases List.mem_append.mp hentry with hown | hlaid
    · obtain ⟨ty, hty, rfl⟩ := List.mem_map.mp hown
      exact .inl ⟨ty, Option.mem_toList.mp hty, rfl⟩
    · exact .inr (List.of_mem_zip hlaid).2
  unfold find? at h
  split at h
  · next found hfound =>
    obtain rfl := Option.some.inj h
    exact inForm hfound
  · exact inForm h

theorem eq_of_inferred? {receiver? : Option Ty} {index : Nat} {slot : Slot} {shape : ArgumentShape}
    {ty : Ty} (h : inferred? s method receiver? index slot shape = some ty) : shape = .typed ty := by
  unfold inferred? at h
  split at h
  · obtain ⟨param, -, h⟩ := Option.bind_eq_some_iff.mp h
    split at h
    · split at h
      · rw [Option.some.inj h]
      · cases h
    · cases h
  · cases h

/-- A type argument is written, or the type of an argument, or unknown. -/
theorem mem_typeArguments {fit : Fit} (h : find? s method form args = some fit) {a : Ty}
    (ha : a ∈ fit.typeArguments) : (∃ written, form.explicit? = some written ∧ a ∈ written) ∨
      form.thisArgument? = some a ∨ .typed a ∈ args.shapes ∨ ∃ name, a = .error name := by
  obtain ⟨laid, htypes, hlaid⟩ := typeArguments_of_find? h
  rw [htypes] at ha
  cases hexplicit : form.explicit? with
  | some written =>
      rw [hexplicit, Option.getD_some] at ha
      exact .inl ⟨written, rfl, ha⟩
  | none =>
      rw [hexplicit, Option.getD_none] at ha
      obtain ⟨⟨name, index⟩, -, rfl⟩ := List.mem_map.mp ha
      dsimp only
      generalize hfound : laid.findSome? _ = found
      cases found with
      | none => exact .inr (.inr (.inr ⟨name, rfl⟩))
      | some ty =>
          obtain ⟨⟨slot, shape⟩, hmem, hinferred⟩ := List.exists_of_findSome?_eq_some hfound
          obtain rfl := eq_of_inferred? hinferred
          rcases hlaid _ hmem with ⟨own, hown, heq⟩ | hshape
          · obtain rfl := ArgumentShape.typed.inj heq
            exact .inr (.inl hown)
          · exact .inr (.inr (.inl hshape))

/-- A method that may be called has all its type arguments. -/
theorem IsApplicable.length_typeArguments {fit : Fit} (h : IsApplicable s form args method fit) :
    fit.typeArguments.length = (s.method method).typeParams.length := by
  obtain ⟨laid, htypes, -⟩ := typeArguments_of_find? h.2
  cases hexplicit : form.explicit? with
  | none => rw [htypes, hexplicit, Option.getD_none, infer, List.length_map, List.length_zipIdx]
  | some written => rw [htypes, hexplicit, Option.getD_some, h.1 written hexplicit]

end Fit

namespace Model

variable {m : Model} {call : Cursor} {method : MethodId}

/-- A call that means a method gives it all its type arguments: those it writes, if it writes any. -/
theorem typeArguments_of_invokedMethod? (h : m.invokedMethod? call = some method) :
    (m.typeArguments call method (m.receiverOf? call)).length =
        (m.table.method method).typeParams.length ∧
      ∀ written, m.explicitArguments? call = some written →
        m.typeArguments call method (m.receiverOf? call) = written := by
  unfold invokedMethod? invokedMethodWith? at h
  split at h
  · next candidates receiver? thisArgument? hsymbol =>
    obtain ⟨fit, hfit⟩ := Fit.isApplicable_of_choose? h
    have hreceiver : m.receiverOf? call = receiver? := by rw [receiverOf?, hsymbol]
    have hthis : thisArgumentWith? (m.queries call) call = thisArgument? := by
      rw [thisArgumentWith?, hsymbol]
    have htypes : m.typeArguments call method (m.receiverOf? call) = fit.typeArguments := by
      rw [typeArguments, typeArgumentsWith, hreceiver, hthis, hfit.2]
    obtain ⟨laid, hlaid, -⟩ := Fit.typeArguments_of_find? hfit.2
    rw [htypes]
    refine ⟨hfit.length_typeArguments, fun written hwritten => ?_⟩
    rw [hlaid, hwritten, Option.getD_some]
  · cases h

/-- A call has the return type of its method, first seen through the receiver and then with the
type arguments of the call. -/
theorem invocationTy?_of_invokedMethod? (hmeans : m.invokedMethod? call = some method) :
    m.invocationTy? (m.queries call) call =
      some (((m.table.method method).returnTy.through? (m.receiverOf? call)).substitute
        (.method method) (m.typeArguments call method (m.receiverOf? call))) := by
  have hlength := (typeArguments_of_invokedMethod? hmeans).1
  have hmeans' : m.invokedMethodWith? (m.queries call) call = some method := hmeans
  unfold invokedMethod? invokedMethodWith? at hmeans
  split at hmeans
  · next candidates receiver? thisArgument? hsymbol =>
    have hreceiver : m.receiverOf? call = receiver? := by rw [receiverOf?, hsymbol]
    obtain ⟨e, he, hsymbol⟩ := Option.bind_eq_some_iff.mp hsymbol
    rw [hreceiver] at hlength ⊢
    simp only [invocationTy?, he, hsymbol, hmeans', Option.bind_eq_bind, Option.bind_some]
    split
    · next hempty =>
      rw [List.isEmpty_iff] at hempty
      rw [hempty, List.length_nil, List.length_eq_zero_iff] at hlength
      rw [hlength, Ty.substitute_nil]
      rfl
    · rfl
  · cases hmeans

theorem typeOf?_of_invokedMethod? {doc : Document} (hcall : call ∈ doc.root.nodes)
    (hkind : call.kind = .invocationExpression) (hmeans : m.invokedMethod? call = some method) :
    m.typeOf? call = some (((m.table.method method).returnTy.through? (m.receiverOf? call)).substitute
      (.method method) (m.typeArguments call method (m.receiverOf? call))) := by
  have hplain : call.unparenthesized = call := unparenthesized_eq (by simp [hkind])
  rw [typeOf?_eq (isFile_tree doc) (below_of_mem_nodes hcall), typeOfWith, hplain, hkind]
  exact invocationTy?_of_invokedMethod? hmeans

/-- **A generic call replaces all parameters at once, unless one is captured.** Whatever the
symbols, a call in a document that means a method has as many type arguments as the method has
parameters, and they are those that are written, if any are. Its type is the return type of the
method with the parameters of the receiver's definition and those of the method replaced at
once, if and only if none of the receiver's arguments that the return type mentions changes when
the parameters of the method are replaced in it. -/
theorem typeOf?_instantiate (m : Model) (doc : Document) (call : Cursor) (method : MethodId)
    (hcall : call ∈ doc.root.nodes) (hkind : call.kind = .invocationExpression)
    (hmeans : m.invokedMethod? call = some method) :
    ∃ receiver? args, m.receiverOf? call = receiver? ∧
      m.typeArguments call method receiver? = args ∧
      args.length = (m.table.method method).typeParams.length ∧
      (∀ written, m.explicitArguments? call = some written → args = written) ∧
      (m.typeOf? call = some ((m.table.method method).returnTy.instantiate
          (Ty.supplied (Ty.argumentsFor receiver?) method args)) ↔
        ∀ d i, (ParamOwner.type d, i) ∈ (m.table.method method).returnTy.params →
          ∀ a, (Ty.argumentsFor receiver? d)[i]? = some a →
            a.substitute (.method method) args = a) := by
  obtain ⟨hlength, hwritten⟩ := typeArguments_of_invokedMethod? hmeans
  refine ⟨_, _, rfl, rfl, hlength, hwritten, ?_⟩
  rw [typeOf?_of_invokedMethod? hcall hkind hmeans, Option.some.injEq,
    Ty.through?_eq_instantiate _ method]
  exact Ty.substitute_instantiate_iff _

/-- A project with one document, whose generic method `M` of a generic class calls itself on a
class built from its own parameter. Another method calls it on a class built from `string`. -/
def captureProject : Project :=
  Project.empty.append (Document.read 0 "capture.cs"
    "class C<T> \x7b T M<U>() \x7b return new C<U>().M<int>(); \x7d void N() \x7b new C<string>().M<int>(); \x7d \x7d" 0) rfl

/-- What its two calls say: the method, the receiver, the type argument `int`, and the type. -/
theorem calls_captureProject : ∃ captured free, callsIn captureProject = [captured, free] ∧
    ((ofFirst captureProject).table.method ⟨49⟩).owner = ⟨60⟩ ∧
    ((ofFirst captureProject).table.method ⟨49⟩).returnTy = .param (.type ⟨60⟩) 0 "T" ∧
    (ofFirst captureProject).invokedMethod? captured = some ⟨49⟩ ∧
    (ofFirst captureProject).receiverOf? captured =
      some (.named ⟨60⟩ [.param (.method ⟨49⟩) 0 "U"]) ∧
    (ofFirst captureProject).explicitArguments? captured = some [.plain ⟨9⟩] ∧
    (ofFirst captureProject).typeOf? captured = some (.plain ⟨9⟩) ∧
    (ofFirst captureProject).invokedMethod? free = some ⟨49⟩ ∧
    (ofFirst captureProject).receiverOf? free = some (.named ⟨60⟩ [.plain ⟨1⟩]) ∧
    (ofFirst captureProject).explicitArguments? free = some [.plain ⟨9⟩] := by
  have hcalls : ((callsIn captureProject.quick).map fun call =>
        ((ofFirst captureProject.quick).invokedMethod? call,
          (ofFirst captureProject.quick).receiverOf? call,
          (ofFirst captureProject.quick).explicitArguments? call,
          (ofFirst captureProject.quick).typeOf? call)) =
      [(some ⟨49⟩, some (.named ⟨60⟩ [.param (.method ⟨49⟩) 0 "U"]), some [.plain ⟨9⟩],
          some (.plain ⟨9⟩)),
        (some ⟨49⟩, some (.named ⟨60⟩ [.plain ⟨1⟩]), some [.plain ⟨9⟩], some (.plain ⟨1⟩))] ∧
      ((ofFirst captureProject.quick).table.method ⟨49⟩).owner = ⟨60⟩ ∧
      ((ofFirst captureProject.quick).table.method ⟨49⟩).returnTy =
        .param (.type ⟨60⟩) 0 "T" := by
    decide +kernel
  rw [Project.quick_eq] at hcalls
  obtain ⟨hcalls, howner, hreturn⟩ := hcalls
  obtain ⟨captured, rest, hcaptured, hfirst, hrest⟩ := List.map_eq_cons_iff.mp hcalls
  obtain ⟨free, none, rfl, hsecond, hnone⟩ := List.map_eq_cons_iff.mp hrest
  obtain rfl := List.map_eq_nil_iff.mp hnone
  simp only [Prod.mk.injEq] at hfirst hsecond
  obtain ⟨hmeans, hreceiver, hwritten, htype⟩ := hfirst
  obtain ⟨hmeans', hreceiver', hwritten', -⟩ := hsecond
  exact ⟨captured, free, hcaptured, howner, hreturn, hmeans, hreceiver, hwritten, htype, hmeans',
    hreceiver', hwritten'⟩

/-- On a class built from `string` nothing is captured, and the call of `M` is a `string`. -/
theorem typeOf?_instantiate_free : ∃ doc ∈ captureProject.documents, ∃ call ∈ doc.root.nodes,
    call.kind = .invocationExpression ∧
    (ofFirst captureProject).invokedMethod? call = some ⟨49⟩ ∧
    (ofFirst captureProject).receiverOf? call = some (.named ⟨60⟩ [.plain ⟨1⟩]) ∧
    (ofFirst captureProject).typeArguments call ⟨49⟩ (some (.named ⟨60⟩ [.plain ⟨1⟩])) =
      [.plain ⟨9⟩] ∧
    (ofFirst captureProject).typeOf? call =
      some (((ofFirst captureProject).table.method ⟨49⟩).returnTy.instantiate
        (Ty.supplied (Ty.argumentsFor (some (.named ⟨60⟩ [.plain ⟨1⟩]))) ⟨49⟩ [.plain ⟨9⟩])) := by
  obtain ⟨captured, call, hcalls, -, -, -, -, -, -, hmeans, hreceiver, hwritten⟩ :=
    calls_captureProject
  have hmem : call ∈ callsIn captureProject := by simp [hcalls]
  obtain ⟨doc, hdoc, hcall, hkind⟩ := exists_doc_of_mem_callsIn hmem
  obtain ⟨receiver?, args, hreceiver', htypes, -, hargs, hiff⟩ :=
    typeOf?_instantiate _ doc call ⟨49⟩ hcall hkind hmeans
  obtain rfl : some (.named ⟨60⟩ [.plain ⟨1⟩]) = receiver? := hreceiver.symm.trans hreceiver'
  obtain rfl := hargs _ hwritten
  refine ⟨doc, hdoc, call, hcall, hkind, hmeans, hreceiver, htypes, hiff.mpr ?_⟩
  intro d i _ a ha
  have hmem : a ∈ if d = ⟨60⟩ then [Ty.plain ⟨1⟩] else [] := List.mem_of_getElem? ha
  split at hmem
  · obtain rfl := List.mem_singleton.mp hmem
    rfl
  · cases hmem

/-- On a class built from the parameter `U` of `M` the call of `M` is an `int`, but with all
parameters replaced at once its return type is `U`. -/
theorem typeOf?_captured : ∃ doc ∈ captureProject.documents, ∃ call ∈ doc.root.nodes,
    call.kind = .invocationExpression ∧
    (ofFirst captureProject).invokedMethod? call = some ⟨49⟩ ∧
    ((ofFirst captureProject).table.method ⟨49⟩).owner = ⟨60⟩ ∧
    (ofFirst captureProject).receiverOf? call =
      some (.named ⟨60⟩ [.param (.method ⟨49⟩) 0 "U"]) ∧
    (ofFirst captureProject).explicitArguments? call = some [.plain ⟨9⟩] ∧
    (ofFirst captureProject).typeOf? call = some (.plain ⟨9⟩) ∧
    ((ofFirst captureProject).table.method ⟨49⟩).returnTy.instantiate
        (Ty.supplied (Ty.argumentsFor (some (.named ⟨60⟩ [.param (.method ⟨49⟩) 0 "U"]))) ⟨49⟩
          [.plain ⟨9⟩]) =
      .param (.method ⟨49⟩) 0 "U" := by
  obtain ⟨call, free, hcalls, howner, hreturn, hmeans, hreceiver, hwritten, htype, -⟩ :=
    calls_captureProject
  have hmem : call ∈ callsIn captureProject := by simp [hcalls]
  obtain ⟨doc, hdoc, hcall, hkind⟩ := exists_doc_of_mem_callsIn hmem
  refine ⟨doc, hdoc, call, hcall, hkind, hmeans, howner, hreceiver, hwritten, htype, ?_⟩
  rw [hreturn]
  rfl

end Model

end CSharpKit.Semantics
