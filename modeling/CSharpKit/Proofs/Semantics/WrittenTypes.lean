import CSharpKit.Proofs.Semantics.Ranges
import CSharpKit.Proofs.Syntax.Writing
import CSharpKit.Semantics.Display

/-!
# What a written type means

The meaning of a written type is read off its tree alone: the place where the tree
stands counts only through the scope, and enough fuel is as good as more.
-/

namespace CSharpKit.Semantics

open Syntax Cursor Tree

/-- A meaning with type arguments, if there are any. -/
def NameMeaning.givenTo (arguments : List Ty) : NameMeaning → NameMeaning
  | .type (.named d as) => .type (.named d (if arguments.isEmpty then as else arguments))
  | meaning => meaning

theorem NameMeaning.givenTo_nil (meaning : NameMeaning) : meaning.givenTo [] = meaning := by
  unfold givenTo
  split <;> rfl

namespace Scope

variable {scope : Scope}

/-- What a name means in a scope, wherever its tree stands. -/
def NameMeans (scope : Scope) (t : Tree) (meaning : Option NameMeaning) : Prop :=
  ∀ (c : Cursor) (fuel : Nat), c.focus = t → 2 * t.depth < fuel → scope.nameWithin fuel c = meaning

/-- What a type means in a scope, wherever its tree stands. -/
def TypeMeans (scope : Scope) (t : Tree) (ty : Ty) : Prop :=
  ∀ (c : Cursor) (fuel : Nat), c.focus = t → 2 * t.depth + 1 < fuel → scope.typeWithin fuel c = ty

theorem TypeMeans.resolveType {t : Tree} {ty : Ty} (h : scope.TypeMeans t ty) {c : Cursor}
    (hc : c.focus = t) : scope.resolveType c = ty :=
  h c _ hc (by subst hc; rw [fuelFor]; omega)

/-- Whether a meaning is a type, and which one. -/
def typeOf (text : String) : Option NameMeaning → Ty
  | some (.type ty) => ty
  | _ => .error text

theorem NameMeans.typeMeans {t : Tree} {meaning : Option NameMeaning} (h : scope.NameMeans t meaning)
    (hkind : t.kind ∉ [Kind.predefinedType, .arrayType, .nullableType]) :
    scope.TypeMeans t (typeOf t.plainText meaning) := by
  intro c fuel hc hfuel
  obtain ⟨fuel, rfl⟩ : ∃ n, fuel = n + 1 := ⟨fuel - 1, by omega⟩
  have hname := h c fuel hc (by omega)
  have hck : c.kind = t.kind := congrArg Tree.kind hc
  simp only [List.mem_cons, List.not_mem_nil, or_false, not_or, ← hck] at hkind
  rw [typeWithin]
  split
  · next hk => exact absurd hk hkind.1
  · next hk => exact absurd hk hkind.2.1
  · next hk => exact absurd hk hkind.2.2
  · rw [hname, hc]
    cases meaning with
    | none => rfl
    | some meaning => cases meaning <;> rfl

/-! ## Type arguments -/

/-- Trees of types, and what they mean in a scope. -/
def TypesMean (scope : Scope) : Forest → List Ty → Prop :=
  List.Forall₂ fun t ty => t.isNode = true ∧ t.kind.isType = true ∧ scope.TypeMeans t ty

namespace TypesMean

variable {arguments : Forest} {tys : List Ty}

theorem isType (h : scope.TypesMean arguments tys) :
    ∀ a ∈ arguments, (a.isNode && a.kind.isType) = true := by
  induction h with
  | nil => nofun
  | cons hfirst _ ih =>
      refine List.forall_mem_cons.mpr ⟨?_, ih⟩
      rw [hfirst.1, hfirst.2.1]
      rfl

theorem isEmpty_eq (h : scope.TypesMean arguments tys) : tys.isEmpty = arguments.isEmpty := by
  cases h <;> rfl

/-- Trees of types are resolved one by one. -/
theorem map_eq (h : scope.TypesMean arguments tys) {cs : List Cursor} (hcs : cs.map focus = arguments)
    (fuel : Nat) (hfuel : ∀ a ∈ arguments, 2 * a.depth + 1 < fuel) :
    cs.map (scope.typeWithin fuel) = tys := by
  induction h generalizing cs with
  | nil =>
      obtain rfl := List.map_eq_nil_iff.mp hcs
      rfl
  | cons hfirst _ ih =>
      obtain ⟨c, cs, rfl, hc, hcs⟩ := List.map_eq_cons_iff.mp hcs
      obtain ⟨hfuelFirst, hfuelMore⟩ := List.forall_mem_cons.mp hfuel
      rw [List.map_cons, hfirst.2.2 c fuel hc hfuelFirst, ih hcs hfuelMore]

end TypesMean

theorem length_filter_commas {arguments : Forest} (h : ∀ a ∈ arguments, a.kind.isType = true)
    (hne : arguments ≠ []) :
    ((Build.commaSeparated arguments).filter fun t => t.kind == .comma).length + 1 =
      arguments.length := by
  let isComma (t : Tree) : Bool := t.kind == .comma
  have notComma {t : Tree} (ht : t.kind.isType = true) : ¬isComma t = true := by
    intro heq
    rw [beq_iff_eq.mp heq] at ht
    cases ht
  change ((Build.commaSeparated arguments).filter isComma).length + 1 = arguments.length
  induction arguments with
  | nil => exact absurd rfl hne
  | cons a arguments ih =>
      have ha := notComma (h a List.mem_cons_self)
      cases arguments with
      | nil => rw [Build.commaSeparated, List.filter_cons_of_neg ha]; rfl
      | cons b arguments =>
          have hmore := ih (fun c hc => h c (List.mem_cons_of_mem _ hc)) (List.cons_ne_nil _ _)
          simp only [Build.commaSeparated]
          rw [List.filter_cons_of_neg ha, List.filter_cons_of_pos rfl,
            List.filter_cons_of_neg (by decide), List.length_cons, hmore, List.length_cons]
          rfl

section

variable {c : Cursor} {name : String} {arguments : Forest} {tys : List Ty}

theorem name?_simpleName (hc : c.focus = (Build.simpleName name arguments).tree) :
    c.name? = some name := by
  rw [name?_eq_text, hc]
  have htext : (Tree.token .identifier name).text = name := text_identifierName name
  unfold Build.simpleName
  split <;> exact congrArg some htext

theorem name?_identifierName (hc : c.focus = (Build.identifierName name).tree) :
    c.name? = some name := by
  have hsimple : c.focus = (Build.simpleName name []).tree := hc
  exact name?_simpleName hsimple

/-- The list of type arguments behind a name. -/
theorem exists_typeArgumentList (hc : c.focus = (Build.simpleName name arguments).tree)
    (hne : arguments ≠ []) : ∃ list, c.typeArgumentList? = some list ∧
      list.focus = .node .typeArgumentList
        (.token .less "<" :: Build.commaSeparated arguments ++ [.token .greater ">"]) := by
  have hfound : c.typeArgumentList?.map focus = some (.node .typeArgumentList
      (.token .less "<" :: Build.commaSeparated arguments ++ [.token .greater ">"])) := by
    rw [typeArgumentList?, child?, map_focus_childOf?, hc, Build.simpleName,
      if_neg (by simpa using hne)]
    rfl
  exact Option.map_eq_some_iff.mp hfound

theorem typeArgumentList?_identifierName (hc : c.focus = (Build.identifierName name).tree) :
    c.typeArgumentList? = none := by
  have hfound : c.typeArgumentList?.map focus = none := by
    rw [typeArgumentList?, child?, map_focus_childOf?, hc]
    rfl
  exact Option.map_eq_none_iff.mp hfound

/-- The types that a list of type arguments writes. -/
theorem map_focus_types {list : Cursor} (hlist : list.focus = .node .typeArgumentList
    (.token .less "<" :: Build.commaSeparated arguments ++ [.token .greater ">"]))
    (h : ∀ a ∈ arguments, (a.isNode && a.kind.isType) = true) :
    list.types.map focus = arguments := by
  rw [types, map_focus_childrenOf, hlist, Tree.children, List.cons_append,
    List.filter_cons_of_neg (by decide), List.filter_append,
    filter_commaSeparated h (by decide) (by decide), List.filter_cons_of_neg (by decide),
    List.filter_nil, List.append_nil]

theorem typeArguments_simpleName (hc : c.focus = (Build.simpleName name arguments).tree)
    (h : ∀ a ∈ arguments, (a.isNode && a.kind.isType) = true) :
    c.typeArguments.length = arguments.length := by
  by_cases hne : arguments = []
  · subst hne
    rw [typeArguments, typeArgumentList?_identifierName hc]
    rfl
  · obtain ⟨list, hlist, hfocus⟩ := exists_typeArgumentList hc hne
    have htypes := congrArg List.length (map_focus_types hfocus h)
    rw [List.length_map] at htypes
    rw [typeArguments, hlist]
    exact htypes

theorem arity_simpleName (hc : c.focus = (Build.simpleName name arguments).tree)
    (h : ∀ a ∈ arguments, a.kind.isType = true) (hne : arguments ≠ []) :
    c.arity = arguments.length := by
  obtain ⟨list, hlist, hfocus⟩ := exists_typeArgumentList hc hne
  have hcommas : (list.elements.filter fun e => e.kind == .comma).length =
      ((Build.commaSeparated arguments).filter fun t => t.kind == .comma).length := by
    have hmap : (list.elements.filter fun e => e.kind == .comma).map focus =
        list.focus.children.filter fun t => t.kind == .comma := by
      rw [← map_focus_elements, List.filter_map]
      rfl
    rw [← List.length_map focus, hmap, hfocus, Tree.children, List.cons_append,
      List.filter_cons_of_neg (by decide), List.filter_append, List.filter_cons_of_neg (by decide),
      List.filter_nil, List.append_nil]
  rw [Cursor.arity, hlist, ← length_filter_commas h hne]
  exact congrArg (· + 1) hcommas

theorem depth_argument (name : String) {arguments : Forest} {a : Tree} (h : a ∈ arguments) :
    a.depth + 2 ≤ (Build.simpleName name arguments).tree.depth := by
  have hlist : a.depth < (Syntax.Tree.node .typeArgumentList
      (.token .less "<" :: Build.commaSeparated arguments ++ [.token .greater ">"])).depth := by
    refine depth_lt_of_mem ?_
    have hmem : a ∈ Build.commaSeparated arguments := by
      induction arguments with
      | nil => cases h
      | cons b arguments ih =>
          cases arguments with
          | nil => exact h
          | cons b' arguments =>
              rcases List.mem_cons.mp h with rfl | h
              · exact List.mem_cons_self
              · exact List.mem_cons_of_mem _ (List.mem_cons_of_mem _ (List.mem_cons_of_mem _ (ih h)))
    exact List.mem_append_left _ (List.mem_cons_of_mem _ hmem)
  rw [Build.simpleName, if_neg (by simpa using List.ne_nil_of_mem h)]
  refine Nat.lt_of_le_of_lt hlist (depth_lt_of_mem ?_)
  exact List.mem_cons_of_mem _ List.mem_cons_self

/-- Type arguments are given to what the name in front of them means. -/
theorem applied_simpleName (hc : c.focus = (Build.simpleName name arguments).tree)
    (h : scope.TypesMean arguments tys) (fuel : Nat)
    (hfuel : 2 * (Build.simpleName name arguments).tree.depth < fuel + 3) :
    applied (scope.typeWithin fuel) c.typeArgumentList? = NameMeaning.givenTo tys := by
  funext meaning
  by_cases hne : arguments = []
  · subst hne
    obtain rfl := List.forall₂_nil_left_iff.mp h
    rw [typeArgumentList?_identifierName hc, NameMeaning.givenTo_nil]
    unfold applied
    split <;> rfl
  · obtain ⟨list, hlist, hfocus⟩ := exists_typeArgumentList hc hne
    have htypes := h.map_eq (map_focus_types hfocus h.isType) fuel fun a ha => by
      have := depth_argument name ha
      omega
    have hempty : tys.isEmpty = false := by
      rw [h.isEmpty_eq]
      simpa using hne
    rw [hlist]
    cases meaning with
    | space ns => rfl
    | type ty => cases ty <;> simp [applied, NameMeaning.givenTo, htypes, hempty]

/-! ## Names -/

/-- A simple name means what is found for it in the scope. -/
theorem nameMeans_simpleName (h : scope.TypesMean arguments tys) :
    scope.NameMeans (Build.simpleName name arguments).tree
      ((scope.lookup name arguments.length).map (NameMeaning.givenTo tys)) := by
  intro c fuel hc hfuel
  obtain ⟨fuel, rfl⟩ : ∃ n, fuel = n + 1 := ⟨fuel - 1, by omega⟩
  have hname := name?_simpleName hc
  have happlied := applied_simpleName hc h fuel (by omega)
  have hkind : c.kind = (Build.simpleName name arguments).kind := congrArg Tree.kind hc
  rw [nameWithin, hname]
  by_cases hne : arguments = []
  · subst hne
    obtain rfl := List.forall₂_nil_left_iff.mp h
    have hid : NameMeaning.givenTo [] = id := funext NameMeaning.givenTo_nil
    rw [hkind, hid, Option.map_id]
    rfl
  · have harity := arity_simpleName hc (fun a ha => (Bool.and_eq_true_iff.mp (h.isType a ha)).2) hne
    rw [Build.simpleName, if_neg (by simpa using hne)] at hkind
    rw [hkind, happlied, harity]
    exact (Option.map_eq_bind ..).symm

/-- A name behind a dot means what is found for it in what the left side means. -/
theorem memberWith_simpleName (hc : c.focus = (Build.simpleName name arguments).tree)
    (h : scope.TypesMean arguments tys) (fuel : Nat)
    (hfuel : 2 * (Build.simpleName name arguments).tree.depth < fuel + 3) (left : NameMeaning) :
    scope.memberWith (scope.typeWithin fuel) left c =
      (scope.table.memberOf? left name arguments.length).map (NameMeaning.givenTo tys) := by
  rw [memberWith_eq, name?_simpleName hc, typeArguments_simpleName hc h.isType,
    applied_simpleName hc h fuel hfuel]
  rfl

theorem isNode_simpleName : (Build.simpleName name arguments).tree.isNode = true := rfl

theorem kind_simpleName : (Build.simpleName name arguments).kind.isSimpleName = true := by
  unfold Build.simpleName
  split <;> rfl

/-- A name behind a dot means what it means in what stands before the dot. -/
theorem nameMeans_member {left : Tree} {meaning : Option NameMeaning}
    (hnode : left.isNode = true) (htype : left.kind.isType = true) (hleft : scope.NameMeans left meaning)
    (h : scope.TypesMean arguments tys) :
    scope.NameMeans (Build.member left (Build.simpleName name arguments).tree)
      (meaning.bind fun m => (scope.table.memberOf? m name arguments.length).map
        (NameMeaning.givenTo tys)) := by
  intro c fuel hc hfuel
  obtain ⟨fuel, rfl⟩ : ∃ n, fuel = n + 1 := ⟨fuel - 1, by omega⟩
  have hchildren : c.focus.children =
      [left, .token .dot ".", (Build.simpleName name arguments).tree] := by
    rw [hc]
    rfl
  have hdepthLeft := depth_lt_of_mem (t := c.focus) (u := left) (by simp [hchildren])
  have hdepthRight := depth_lt_of_mem (t := c.focus) (u := (Build.simpleName name arguments).tree)
    (by simp [hchildren])
  rw [← hc] at hfuel
  have hkind : c.kind = .qualifiedName := congrArg Tree.kind hc
  obtain ⟨written, hwritten, hfocus⟩ : ∃ written, c.type? = some written ∧ written.focus = left := by
    refine Option.map_eq_some_iff.mp ?_
    rw [type?, map_focus_childOf?, hchildren, List.find?_cons_of_pos]
    rw [hnode, htype]
    rfl
  obtain ⟨last, hlast, hname⟩ : ∃ last, c.lastSegment? = some last ∧
      last.focus = (Build.simpleName name arguments).tree := by
    refine Option.map_eq_some_iff.mp ?_
    have hpos : ((Build.simpleName name arguments).tree.isNode &&
        (Build.simpleName name arguments).tree.kind.isSimpleName) = true := by
      rw [isNode_simpleName]
      exact kind_simpleName
    have hrow : [left, .token .dot ".", (Build.simpleName name arguments).tree] =
        [left, .token .dot "."] ++ [(Build.simpleName name arguments).tree] := rfl
    rw [lastSegment?, ← List.getLast?_map, map_focus_childrenOf, hchildren, hrow, List.filter_append,
      List.filter_cons_of_pos (p := fun t : Tree => t.isNode && t.kind.isSimpleName) hpos,
      List.filter_nil, List.getLast?_concat]
  have hmember := memberWith_simpleName hname h fuel (by omega)
  simp only [nameWithin, hkind, hwritten, hlast, Option.bind_eq_bind, Option.bind_some]
  rw [hleft written fuel hfocus (by omega)]
  exact congrArg meaning.bind (funext hmember)

/-- A name behind `global::` means what it means in the global namespace. -/
theorem nameMeans_fromGlobal (h : scope.TypesMean arguments tys) :
    scope.NameMeans (Build.fromGlobal (Build.simpleName name arguments).tree)
      ((scope.table.memberOf? (.space SymbolTable.global) name arguments.length).map
        (NameMeaning.givenTo tys)) := by
  intro c fuel hc hfuel
  obtain ⟨fuel, rfl⟩ : ∃ n, fuel = n + 1 := ⟨fuel - 1, by omega⟩
  have hchildren : c.focus.children = [(Build.identifierName "global").tree, .token .colonColon "::",
      (Build.simpleName name arguments).tree] := by
    rw [hc]
    rfl
  have hdepth := depth_lt_of_mem (t := c.focus) (u := (Build.simpleName name arguments).tree)
    (by simp [hchildren])
  rw [← hc] at hfuel
  have hkind : c.kind = .aliasQualifiedName := congrArg Tree.kind hc
  have hsimple : ((Build.identifierName "global").tree.isNode &&
      (Build.identifierName "global").tree.kind.isSimpleName) = true := rfl
  have hpos : ((Build.simpleName name arguments).tree.isNode &&
      (Build.simpleName name arguments).tree.kind.isSimpleName) = true := by
    rw [isNode_simpleName]
    exact kind_simpleName
  obtain ⟨spelled, hspelled, hglobal⟩ : ∃ spelled, c.child? .identifierName = some spelled ∧
      spelled.focus = (Build.identifierName "global").tree := by
    refine Option.map_eq_some_iff.mp ?_
    rw [child?, map_focus_childOf?, hchildren, List.find?_cons_of_pos]
    rfl
  obtain ⟨last, hlast, hname⟩ : ∃ last, c.aliasedName? = some last ∧
      last.focus = (Build.simpleName name arguments).tree := by
    refine Option.map_eq_some_iff.mp ?_
    rw [aliasedName?, ← List.getElem?_map, map_focus_childrenOf, hchildren,
      List.filter_cons_of_pos (p := fun t : Tree => t.isNode && t.kind.isSimpleName) hsimple,
      List.filter_cons_of_neg (by decide),
      List.filter_cons_of_pos (p := fun t : Tree => t.isNode && t.kind.isSimpleName) hpos]
    rfl
  have hmember := memberWith_simpleName hname h fuel (by omega)
  have hglobalName : spelled.name? = some "global" := name?_identifierName hglobal
  simp only [nameWithin, hkind, hspelled, hglobalName, hlast, Option.bind_eq_bind, Option.bind_some,
    beq_self_eq_true, ite_true]
  exact hmember _

end

/-! ## Types -/

/-- A keyword means the type that it names. -/
theorem typeMeans_predefinedType {k : Kind} (h : k.isPredefinedType = true ∨ k = .voidKw)
    (text : String) : scope.TypeMeans (Build.predefinedType k text).tree
      (if k == .voidKw then .void else match scope.table.keywordType? k with
        | some id => .plain id
        | none => .error text) := by
  intro c fuel hc hfuel
  obtain ⟨fuel, rfl⟩ : ∃ n, fuel = n + 1 := ⟨fuel - 1, by omega⟩
  have hkind : c.kind = .predefinedType := congrArg Tree.kind hc
  have htrivia : k.isTrivia = false := by
    rcases h with h | rfl
    · cases k <;> first | rfl | exact absurd h (by decide)
    · rfl
  obtain ⟨token, htoken, hfocus⟩ : ∃ token, c.leadToken? = some token ∧
      token.focus = .token k text := by
    refine Option.map_eq_some_iff.mp ?_
    have hplain : c.plainTokens.map focus =
        (c.focus.children.filter fun t => !t.isNode).filter fun t => !t.kind.isTrivia := by
      rw [plainTokens, ← map_focus_tokens, List.filter_map]
      rfl
    rw [leadToken?, ← List.head?_map, hplain, hc]
    simp [Build.predefinedType, Node.tree, Tree.children, Tree.isNode, Tree.kind, htrivia]
  have htokenKind : token.kind = k := congrArg Tree.kind hfocus
  have htext : token.text = text := (congrArg Tree.text hfocus).trans (text_predefinedType k text)
  rw [typeWithin, hkind]
  cases hvoid : k == .voidKw with
  | true => simp only [predefined, htoken, htokenKind, hvoid, if_true]
  | false =>
    cases hid : scope.table.keywordType? k <;>
      simp only [predefined, htoken, htokenKind, htext, hvoid, hid, Bool.false_eq_true, if_false]

theorem typeMeans_nullableType {t : Tree} {ty : Ty} (hnode : t.isNode = true)
    (htype : t.kind.isType = true) (h : scope.TypeMeans t ty) :
    scope.TypeMeans (Build.nullableType t) (.nullable ty) := by
  intro c fuel hc hfuel
  obtain ⟨fuel, rfl⟩ : ∃ n, fuel = n + 1 := ⟨fuel - 1, by omega⟩
  have hkind : c.kind = .nullableType := congrArg Tree.kind hc
  have hdepth : t.depth < (Build.nullableType t).depth := depth_lt_of_mem List.mem_cons_self
  obtain ⟨written, hwritten, hfocus⟩ : ∃ written, c.type? = some written ∧ written.focus = t := by
    refine Option.map_eq_some_iff.mp ?_
    rw [type?, map_focus_childOf?, hc, Build.nullableType, Tree.children, List.find?_cons_of_pos]
    rw [hnode, htype]
    rfl
  rw [typeWithin, hkind, hwritten]
  exact congrArg Ty.nullable (h written fuel hfocus (by omega))

/-- An element type with a row of brackets. -/
def arrayOf (element : Tree) (ranks : List Nat) : Tree :=
  .node .arrayType (element :: ranks.map Build.rankSpecifier)

/-- The number of commas in brackets tells the rank. -/
theorem rank_rankSpecifier {c : Cursor} {rank : Nat} (hc : c.focus = Build.rankSpecifier rank)
    (hrank : 0 < rank) : (c.elements.filter fun e => e.kind == .comma).length + 1 = rank := by
  have hmap : (c.elements.filter fun e => e.kind == .comma).map focus =
      c.focus.children.filter fun t => t.kind == .comma := by
    rw [← map_focus_elements, List.filter_map]
    rfl
  have hcommas : (List.replicate (rank - 1) (Tree.token .comma ",")).filter
      (fun t => t.kind == .comma) = List.replicate (rank - 1) (.token .comma ",") := by
    refine List.filter_eq_self.mpr fun t ht => ?_
    rw [List.eq_of_mem_replicate ht]
    rfl
  rw [← List.length_map focus, hmap, hc, Build.rankSpecifier, Tree.children,
    List.filter_cons_of_neg (by decide), List.filter_append, hcommas,
    List.filter_cons_of_neg (by decide), List.filter_nil, List.append_nil, List.length_replicate]
  omega

theorem foldl_rankSpecifiers {cs : List Cursor} {ranks : List Nat}
    (hcs : cs.map focus = ranks.map Build.rankSpecifier) (hranks : ∀ r ∈ ranks, 0 < r) (ty : Ty) :
    cs.foldl (fun element rank => .array element
      ((rank.elements.filter fun e => e.kind == .comma).length + 1)) ty = ranks.foldl Ty.array ty := by
  induction ranks generalizing cs ty with
  | nil =>
      obtain rfl := List.map_eq_nil_iff.mp hcs
      rfl
  | cons r ranks ih =>
      obtain ⟨c, cs, rfl, hc, hcs⟩ := List.map_eq_cons_iff.mp hcs
      obtain ⟨hr, hranks⟩ := List.forall_mem_cons.mp hranks
      rw [List.foldl_cons, List.foldl_cons, rank_rankSpecifier hc hr, ih hcs hranks]

/-- The brackets of an array stand in the order in which they are applied. -/
theorem typeMeans_arrayOf {t : Tree} {ty : Ty} {ranks : List Nat} (hnode : t.isNode = true)
    (htype : t.kind.isType = true) (h : scope.TypeMeans t ty) (hranks : ∀ r ∈ ranks, 0 < r) :
    scope.TypeMeans (arrayOf t ranks) (ranks.foldl Ty.array ty) := by
  intro c fuel hc hfuel
  obtain ⟨fuel, rfl⟩ : ∃ n, fuel = n + 1 := ⟨fuel - 1, by omega⟩
  have hkind : c.kind = .arrayType := congrArg Tree.kind hc
  have hdepth : t.depth < (arrayOf t ranks).depth := depth_lt_of_mem List.mem_cons_self
  obtain ⟨written, hwritten, hfocus⟩ : ∃ written, c.type? = some written ∧ written.focus = t := by
    refine Option.map_eq_some_iff.mp ?_
    rw [type?, map_focus_childOf?, hc, arrayOf, Tree.children, List.find?_cons_of_pos]
    rw [hnode, htype]
    rfl
  have hspecifiers : (c.childrenOfKind .arrayRankSpecifier).map focus =
      ranks.map Build.rankSpecifier := by
    have hnot : ¬(t.isNode && (t.kind == .arrayRankSpecifier)) = true := by
      intro heq
      rw [beq_iff_eq.mp (Bool.and_eq_true_iff.mp heq).2] at htype
      cases htype
    rw [childrenOfKind, map_focus_childrenOf, hc, arrayOf, Tree.children,
      List.filter_cons_of_neg (p := fun t : Tree => t.isNode && t.kind == .arrayRankSpecifier) hnot,
      List.filter_eq_self.mpr]
    simp [Build.rankSpecifier, Tree.isNode, Tree.kind]
  have helement := h written fuel hfocus (by omega)
  rw [typeWithin, hkind, hwritten]
  simp only [Option.map_some, Option.getD_some, helement]
  exact foldl_rankSpecifiers hspecifiers hranks ty

end Scope

end CSharpKit.Semantics
