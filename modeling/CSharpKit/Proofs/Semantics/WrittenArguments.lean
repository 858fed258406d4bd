import CSharpKit.Proofs.Semantics.Reordering
import CSharpKit.Proofs.Semantics.ResolutionEnds
import CSharpKit.Proofs.Semantics.Spelling

/-!
# The arguments of written types

A simple name with type arguments is looked up with the number of their slots, which the commas
tell, but is given the arguments that are written. Behind a dot the written arguments are
counted. Where no slot is left open the numbers are the same. Then all types that are read have
as many arguments as their definitions have type parameters, and a simple name is read as the
same type as a qualified one.
-/

namespace CSharpKit.Semantics

open Syntax Workspace Cursor Model

/-! ## Complete types -/

/-- A type is the first of its name and number of type parameters where it is declared. -/
def SymbolTable.Foremost (s : SymbolTable) (d : TypeId) : Prop :=
  s.typeIn? (s.type d).container (s.type d).name (s.type d).arity = some d

/-- Each named type in a type has an argument for each type parameter, and its name leads to it. -/
def Ty.Complete (s : SymbolTable) (ty : Ty) : Prop :=
  ∀ d as, .named d as ∈ ty.parts → as.length = (s.type d).arity ∧ s.Foremost d

namespace Ty

variable {s : SymbolTable} {d : TypeId} {as : List Ty} {ty : Ty}

theorem complete_named (hlength : as.length = (s.type d).arity) (hfirst : s.Foremost d)
    (has : ∀ a ∈ as, a.Complete s) : (Ty.named d as).Complete s := by
  intro d' as' h
  rcases List.mem_cons.mp h with heq | h
  · obtain ⟨rfl, rfl⟩ := Ty.named.inj heq
    exact ⟨hlength, hfirst⟩
  · obtain ⟨a, ha, hmem⟩ := mem_partsOfAll.mp h
    exact has a ha d' as' hmem

theorem complete_plain (harity : (s.type d).arity = 0) (hfirst : s.Foremost d) :
    (Ty.plain d).Complete s := complete_named harity.symm hfirst (List.forall_mem_nil _)

theorem Complete.array (h : ty.Complete s) (rank : Nat) : (Ty.array ty rank).Complete s := by
  intro d as hmem
  rcases List.mem_cons.mp hmem with heq | hmem
  · cases heq
  · exact h d as hmem

theorem Complete.nullable (h : ty.Complete s) : (Ty.nullable ty).Complete s := by
  intro d as hmem
  rcases List.mem_cons.mp hmem with heq | hmem
  · cases heq
  · exact h d as hmem

theorem complete_error (text : String) : (Ty.error text).Complete s := by
  intro d as h
  cases List.mem_singleton.mp h

theorem complete_void : Ty.void.Complete s := by
  intro d as h
  cases List.mem_singleton.mp h

theorem complete_param (owner : ParamOwner) (i : Nat) (name : String) :
    (Ty.param owner i name).Complete s := by
  intro d as h
  cases List.mem_singleton.mp h

end Ty

/-! ## Lookups -/

namespace SymbolTable

variable {s : SymbolTable} {name : String} {arity : Nat}

theorem foremost_of_typeIn? {container : Container} {d : TypeId}
    (h : s.typeIn? container name arity = some d) : s.Foremost d ∧ (s.type d).arity = arity := by
  obtain ⟨-, ⟨hcontainer, hname, harity⟩, -⟩ := typeIn?_eq_some.mp h
  exact ⟨by rw [Foremost, hcontainer, hname, harity, h], harity⟩

theorem foremost_of_nested? {owner d : TypeId} (h : s.nested? owner name arity = some d) :
    s.Foremost d ∧ (s.type d).arity = arity := by
  obtain ⟨t, -, ht⟩ := List.exists_of_findSome?_eq_some h
  exact foremost_of_typeIn? ht

end SymbolTable

/-- What a name with a number of type arguments may mean: a type that takes them, or what takes
none. -/
def NameMeaning.Takes (s : SymbolTable) (arity : Nat) (meaning : NameMeaning) : Prop :=
  (∃ d, meaning = .type (.plain d) ∧ s.Foremost d ∧ (s.type d).arity = arity) ∨
    arity = 0 ∧ meaning.Holds (Ty.Complete s)

section

variable {s : SymbolTable} {name : String} {arity : Nat} {meaning : NameMeaning}

theorem Level.find?_takes {level : Level} (hlevel : level.Holds s (Ty.Complete s))
    (h : level.find? s name arity = some meaning) : meaning.Takes s arity := by
  have holds {found? : Option NameMeaning} (hfound : ∀ found, found? = some found →
      found.Holds (Ty.Complete s)) (h : (if arity = 0 then found? else none) = some meaning) :
      meaning.Takes s arity := by
    split at h
    · next hzero => exact .inr ⟨hzero, hfound _ h⟩
    · cases h
  have plain {t? : Option TypeId} (ht : ∀ t, t? = some t → s.Foremost t ∧ (s.type t).arity = arity)
      (h : t?.map (fun t => NameMeaning.type (.plain t)) = some meaning) :
      meaning.Takes s arity := by
    obtain ⟨t, htype, rfl⟩ := Option.map_eq_some_iff.mp h
    obtain ⟨hfirst, harity⟩ := ht t htype
    exact .inl ⟨t, rfl, hfirst, harity⟩
  cases level with
  | method m => exact holds (fun _ hfound => typeParam?_holds hfound hlevel) h
  | type t =>
      simp only [Level.find?] at h
      split at h
      · next found hfound =>
        obtain rfl := Option.some.inj h
        exact holds (fun _ hfound => typeParam?_holds hfound hlevel) hfound
      · exact plain (fun _ ht => SymbolTable.foremost_of_nested? ht) h
  | space ns imports =>
      simp only [Level.find?] at h
      split at h
      · next t ht =>
        obtain rfl := Option.some.inj h
        obtain ⟨hfirst, harity⟩ := SymbolTable.foremost_of_typeIn? ht
        exact .inl ⟨t, rfl, hfirst, harity⟩
      · split at h
        · next child hchild =>
          obtain rfl := Option.some.inj h
          split at hchild
          · next hzero => exact .inr ⟨hzero, trivial⟩
          · cases hchild
        · unfold Imports.find? at h
          split at h
          · next found hfound =>
            split at hfound
            · next hzero =>
              exact .inr ⟨hzero, hlevel name meaning (h ▸ mem_of_lookup_eq_some hfound)⟩
            · cases hfound
          · refine plain (fun t ht => ?_) h
            obtain ⟨space, -, hspace⟩ := List.exists_of_findSome?_eq_some ht
            exact SymbolTable.foremost_of_typeIn? hspace

theorem Scope.lookup_takes {scope : Scope} (hscope : scope.Holds (Ty.Complete scope.table))
    (h : scope.lookup name arity = some meaning) : meaning.Takes scope.table arity := by
  obtain ⟨level, hlevel, hfound⟩ := List.exists_of_findSome?_eq_some h
  exact Level.find?_takes (hscope level hlevel) hfound

theorem SymbolTable.memberOf?_eq_some {left : NameMeaning}
    (h : s.memberOf? left name arity = some meaning) :
    (∃ d, meaning = .type (.plain d) ∧ s.Foremost d ∧ (s.type d).arity = arity) ∨
      arity = 0 ∧ ∃ ns, meaning = .space ns := by
  unfold memberOf? at h
  split at h
  · split at h
    · next t ht =>
      obtain rfl := Option.some.inj h
      obtain ⟨hfirst, harity⟩ := foremost_of_typeIn? ht
      exact .inl ⟨t, rfl, hfirst, harity⟩
    · split at h
      · next hzero =>
        obtain ⟨child, -, rfl⟩ := Option.map_eq_some_iff.mp h
        exact .inr ⟨hzero, child, rfl⟩
      · cases h
  · obtain ⟨nested, hnested, rfl⟩ := Option.map_eq_some_iff.mp h
    obtain ⟨d, -, hd⟩ := Option.bind_eq_some_iff.mp hnested
    obtain ⟨hfirst, harity⟩ := foremost_of_nested? hd
    exact .inl ⟨nested, rfl, hfirst, harity⟩

theorem SymbolTable.memberOf?_takes {left : NameMeaning}
    (h : s.memberOf? left name arity = some meaning) : meaning.Takes s arity := by
  rcases memberOf?_eq_some h with htype | ⟨hzero, ns, rfl⟩
  · exact .inl htype
  · exact .inr ⟨hzero, trivial⟩

theorem NameMeaning.Takes.holds (h : meaning.Takes s 0) : meaning.Holds (Ty.Complete s) := by
  rcases h with ⟨d, rfl, hfirst, harity⟩ | ⟨-, hholds⟩
  · exact Ty.complete_plain harity hfirst
  · exact hholds

end

/-! ## Names without open slots -/

namespace Scope

/-- The slots for type arguments in a list, which its commas tell apart. -/
def slots (list : Cursor) : Nat := (list.elements.filter fun e => e.kind == .comma).length + 1

/-- Each slot for a type argument in what a node writes is filled. -/
def Filled (c : Cursor) : Prop :=
  ∀ list ∈ c.nodes, list.kind = .typeArgumentList → list.types.length = slots list

instance (c : Cursor) : Decidable (Filled c) :=
  inferInstanceAs (Decidable (∀ list ∈ c.nodes, _ → _))

theorem Filled.below {c d : Cursor} (h : Filled c) (hd : Below c d) : Filled d := by
  intro list hlist
  exact h list ((hd.trans (below_of_mem_nodes hlist)).mem_nodes (List.mem_filter.mp hlist).2)

theorem Filled.of_mem_children {c d : Cursor} (h : Filled c) (hd : d ∈ c.children) : Filled d :=
  h.below (below_of_mem_children hd)

theorem Filled.of_mem_types {c list written : Cursor} (h : Filled c)
    (hlist : c.typeArgumentList? = some list) (hwritten : written ∈ list.types) : Filled written :=
  (h.of_mem_children (mem_children_of_child? hlist).1).of_mem_children
    (mem_children_of_mem_childrenOf hwritten).1

theorem Filled.length_types {c list : Cursor} (h : Filled c)
    (hlist : c.typeArgumentList? = some list) : list.types.length = slots list := by
  obtain ⟨hmem, hkind⟩ := mem_children_of_child? hlist
  exact h list ((below_of_mem_children hmem).mem_nodes (isNode_of_mem_children hmem)) hkind

/-- The commas tell how many type arguments there are. -/
theorem Filled.arity_eq {c : Cursor} (h : Filled c) : c.arity = c.typeArguments.length := by
  rw [Cursor.arity, Cursor.typeArguments]
  cases hlist : c.typeArgumentList? with
  | none => rfl
  | some list => exact (h.length_types hlist).symm

variable {scope : Scope}

theorem applied_complete {s : SymbolTable} {resolve : Cursor → Ty} {c : Cursor}
    {meaning : NameMeaning} (hfilled : Filled c)
    (hresolve : ∀ written, Filled written → (resolve written).Complete s)
    (h : meaning.Takes s c.typeArguments.length) :
    (applied resolve c.typeArgumentList? meaning).Holds (Ty.Complete s) := by
  cases hlist : c.typeArgumentList? with
  | none =>
      have hnone : c.typeArguments.length = 0 := by rw [Cursor.typeArguments, hlist]; rfl
      rw [hnone] at h
      have hholds := h.holds
      unfold applied
      split <;> exact hholds
  | some list =>
      have harguments : c.typeArguments = list.types := by rw [Cursor.typeArguments, hlist]; rfl
      rw [harguments] at h
      rcases h with ⟨d, rfl, hfirst, harity⟩ | ⟨hzero, -⟩
      · refine Ty.complete_named ?_ hfirst fun a ha => ?_
        · rw [List.length_map, harity]
        · obtain ⟨written, hwritten, rfl⟩ := List.mem_map.mp ha
          exact hresolve written (hfilled.of_mem_types hlist hwritten)
      · rw [hfilled.length_types hlist, slots] at hzero
        exact absurd hzero (Nat.succ_ne_zero _)

theorem memberWith_complete {resolve : Cursor → Ty} {left meaning : NameMeaning} {name : Cursor}
    (hfilled : Filled name)
    (hresolve : ∀ written, Filled written → (resolve written).Complete scope.table)
    (h : scope.memberWith resolve left name = some meaning) :
    meaning.Holds (Ty.Complete scope.table) := by
  rw [memberWith_eq] at h
  obtain ⟨text, -, h⟩ := Option.bind_eq_some_iff.mp h
  obtain ⟨found, hfound, rfl⟩ := Option.map_eq_some_iff.mp h
  exact applied_complete hfilled hresolve (SymbolTable.memberOf?_takes hfound)

/-- Keywords name types without type parameters. -/
def KeywordsComplete (s : SymbolTable) : Prop :=
  ∀ k d, s.keywordType? k = some d → (Ty.plain d).Complete s

theorem predefined_complete (hkeywords : KeywordsComplete scope.table) (c : Cursor) :
    (scope.predefined c).Complete scope.table := by
  unfold predefined
  split
  · exact Ty.complete_error _
  · split
    · exact Ty.complete_void
    · split
      · next d hd => exact hkeywords _ d hd
      · exact Ty.complete_error _

/-- Where no slot is open, types are complete on the way to what they mean. -/
theorem keeps_complete (hkeywords : KeywordsComplete scope.table)
    (hscope : scope.Holds (Ty.Complete scope.table)) :
    scope.Keeps Filled (Ty.Complete scope.table) where
  child hfilled hd := hfilled.of_mem_children hd
  error := Ty.complete_error
  predefined := predefined_complete hkeywords
  array h _ := h.array _
  nullable h := h.nullable
  simple h := (lookup_takes hscope h).holds
  generic hfilled hresolve h := by
    rw [hfilled.arity_eq] at h
    exact applied_complete hfilled hresolve (lookup_takes hscope h)
  member := memberWith_complete

/-- What is written without open slots is read as complete types. -/
theorem within_complete (hkeywords : KeywordsComplete scope.table)
    (hscope : scope.Holds (Ty.Complete scope.table)) (fuel : Nat) :
    (∀ c, Filled c → (scope.typeWithin fuel c).Complete scope.table) ∧
      ∀ c meaning, Filled c → scope.nameWithin fuel c = some meaning →
        meaning.Holds (Ty.Complete scope.table) :=
  (keeps_complete hkeywords hscope).within fuel

/-! ## Scopes in the sources -/

section

variable {s : SymbolTable}

theorem importsOf_complete {outer : Scope} (hkeywords : KeywordsComplete outer.table)
    (houter : outer.Holds (Ty.Complete outer.table)) {owner : Cursor}
    (howner : ∀ u ∈ owner.usings, Filled u) {name : String} {meaning : NameMeaning}
    (h : (name, some meaning) ∈ (importsOf outer owner).aliases) :
    meaning.Holds (Ty.Complete outer.table) := by
  obtain ⟨u, hu, halias⟩ := List.mem_filterMap.mp h
  obtain ⟨token, -, heq⟩ := Option.map_eq_some_iff.mp halias
  obtain ⟨target, htarget, hmeaning⟩ := Option.bind_eq_some_iff.mp (Prod.mk.inj heq).2
  have hfilled := (howner u hu).of_mem_children (mem_children_of_childOf? htarget).1
  exact (within_complete hkeywords houter _).2 target meaning hfilled hmeaning

theorem openSpaces_complete (hkeywords : KeywordsComplete s)
    {spaces : List (NamespaceId × Option Cursor)}
    (hspaces : ∀ space ∈ spaces, ∀ owner, space.2 = some owner → ∀ u ∈ owner.usings, Filled u)
    {level : Level} (h : level ∈ openSpaces s spaces) : level.Holds s (Ty.Complete s) := by
  induction spaces generalizing level with
  | nil => cases h
  | cons space outer ih =>
      obtain ⟨ns, owner?⟩ := space
      obtain ⟨howner, houter⟩ := List.forall_mem_cons.mp hspaces
      have hrest {level : Level} (h : level ∈ parentLevels s (outer.head?.map (·.1))
          s.namespaces.size ns ++ openSpaces s outer) : level.Holds s (Ty.Complete s) := by
        rcases List.mem_append.mp h with h | h
        · exact parentLevels_holds h
        · exact ih houter h
      rcases List.mem_cons.mp h with rfl | h
      · intro name meaning hmem
        cases owner? with
        | none => cases hmem
        | some owner =>
            refine @importsOf_complete ⟨s, _⟩ hkeywords ?_ owner (howner owner rfl) name meaning hmem
            intro level hlevel
            rcases List.mem_cons.mp hlevel with rfl | hlevel
            · intro name meaning hmem
              cases hmem
            · exact hrest hlevel
      · exact hrest h

/-- The levels around a node add complete types only, if no directive around it leaves a slot
open. -/
theorem at_complete (hkeywords : KeywordsComplete s) {document : DocumentId} {c : Cursor}
    (hdirectives : ∀ a ∈ c.ancestors, ∀ u ∈ a.usings, Filled u) :
    (at_ s document c).Holds (Ty.Complete s) := by
  intro level hlevel
  rcases List.mem_append.mp hlevel with hlevel | hlevel
  · obtain ⟨around, -, hdeclared⟩ := List.mem_filterMap.mp hlevel
    rcases declaredLevel?_eq_some hdeclared with ⟨m, -, rfl⟩ | ⟨t, -, rfl⟩
    · exact fun i n _ => Ty.complete_param _ i n
    · exact fun i n _ => Ty.complete_param _ i n
  · refine openSpaces_complete hkeywords (fun space hspace owner howner => ?_) hlevel
    apply hdirectives
    rcases List.mem_append.mp hspace with hspace | hspace
    · obtain ⟨around, haround, hdeclared⟩ := List.mem_filterMap.mp hspace
      unfold declaredSpace? at hdeclared
      split at hdeclared
      · split at hdeclared
        · obtain rfl := Option.some.inj hdeclared
          exact Option.some.inj howner ▸ haround
        · cases hdeclared
      · cases hdeclared
    · rw [List.mem_singleton.mp hspace] at howner
      exact List.mem_of_mem_filter (List.mem_of_getLast? howner)

end

end Scope

/-- The types of keywords are complete in the table of a project. -/
theorem keywordsComplete_ofProject (project : Project) :
    Scope.KeywordsComplete (.ofProject project) := by
  intro k d hd
  have hkeeps := keepsKeywords_ofProject project
  obtain ⟨hlt, hkeyword, -⟩ := keywordType?_eq_some.mp hd
  have hframework := hkeeps.keyword d (by rw [hkeyword]; exact Option.some_ne_none k)
  obtain ⟨hsame, harity⟩ := SymbolTable.KeepsKeywords.keyword_eq hkeeps.grows hframework
  obtain ⟨-, hzero, -⟩ := keywords_framework d.num hframework k (hsame.symm.trans hkeyword)
  refine Ty.complete_plain (harity.trans hzero) (SymbolTable.typeIn?_eq_some.mpr ?_)
  refine ⟨hlt, ⟨rfl, rfl, rfl⟩, fun u hu hfits => ?_⟩
  -- Types of the framework stand first in the table, and no two of them have the same name.
  have huframework := hu.trans hframework
  obtain ⟨hcontainer, hname, harity⟩ := hfits
  obtain ⟨hdcontainer, hdname, hdarity⟩ := hkeeps.grows.fits_eq hframework
  obtain ⟨hucontainer, huname, huarity⟩ := hkeeps.grows.fits_eq huframework
  rw [hdcontainer, hucontainer] at hcontainer
  rw [hdname, huname] at hname
  rw [hdarity, huarity] at harity
  exact hu.ne (framework_apart u.num huframework d.num hframework hcontainer hname harity)

/-! ## Qualified names -/

/-- The name behind the last dot or behind `::`. -/
def qualifiedSegment? (q : Cursor) : Option Cursor :=
  match q.kind with
  | .qualifiedName => q.lastSegment?
  | .aliasQualifiedName => q.aliasedName?
  | _ => none

/-- What stands before the last dot or before `::` means. -/
def Scope.qualifier? (scope : Scope) (q : Cursor) : Option NameMeaning :=
  match q.kind with
  | .qualifiedName => q.type?.bind scope.resolveName
  | .aliasQualifiedName =>
    ((q.child? .identifierName).bind Cursor.name?).bind fun spelled =>
      if spelled == "global" then some (.space SymbolTable.global) else scope.lookup spelled 0
  | _ => none

/-- A name stands for a container of declarations. -/
def NameMeaning.IsContainer : NameMeaning → Container → Prop
  | .space ns, container => container = .space ns
  | .type ty, container => ∃ o, ty.definition? = some o ∧ container = .type o

/-- A name without dots; only generic names have type arguments. -/
def IsSimple (c : Cursor) : Prop :=
  c.kind = .genericName ∨ c.kind = .identifierName ∧ c.typeArgumentList? = none

namespace Opening

open Resolution Procedure

variable {s : SymbolTable} {levels : List Opening} {c q name : Cursor} {left : NameMeaning}

theorem resolveName_qualified (hname : qualifiedSegment? q = some name) :
    (scope s levels).resolveName q =
      ((scope s levels).qualifier? q).bind fun left => (scope s levels).member left name := by
  have hrule := Resolution.run_rule (s := s) (.meaningOf levels q)
  simp only [Resolution.rule, nameRule, answer] at hrule
  unfold qualifiedSegment? at hname
  unfold Scope.qualifier?
  split at hname
  · next hkind =>
    simp only [hkind] at hrule ⊢
    rw [← hrule]
    simp [hname, answer, Option.bind_assoc]
  · next hkind =>
    simp only [hkind] at hrule ⊢
    rw [← hrule, run_whenSome]
    cases (q.child? .identifierName).bind Cursor.name? with
    | none => rfl
    | some spelled =>
        by_cases hglobal : spelled = "global"
        · simp [hglobal, hname, answer]
        · simp [hglobal, hname, answer]
  · cases hname

theorem resolveName_generic (hkind : c.kind = .genericName) :
    (scope s levels).resolveName c = c.name?.bind fun text =>
      ((scope s levels).lookup text c.arity).map
        (Scope.applied (scope s levels).resolveType c.typeArgumentList?) := by
  have hrule := Resolution.run_rule (s := s) (.meaningOf levels c)
  simp only [Resolution.rule, nameRule, answer, hkind] at hrule
  rw [← hrule, run_whenSome]
  refine Option.bind_congr fun text _ => ?_
  rw [run_bind, run_query, run_whenSome, Option.map_eq_bind]
  refine Option.bind_congr fun found _ => ?_
  rw [run_bind, run_appliedRule, run_pure]
  rfl

theorem resolveType_of_kind (hpredefined : c.kind ≠ .predefinedType) (harray : c.kind ≠ .arrayType)
    (hnullable : c.kind ≠ .nullableType) : (scope s levels).resolveType c =
      match (scope s levels).resolveName c with
      | some (.type ty) => ty
      | _ => .error c.focus.plainText := by
  have hrule := Resolution.run_rule (s := s) (.typeOf levels c)
  simp only [Resolution.rule, Resolution.typeRule, answer] at hrule
  rw [← hrule, run_bind, run_askName, answer]
  cases (scope s levels).resolveName c with
  | none => rfl
  | some meaning => cases meaning <;> rfl

/-- What is read as a named type, and is a name, means this type. -/
theorem resolveName_of_resolveType {d : TypeId} {as : List Ty} (hpredefined : c.kind ≠ .predefinedType)
    (harray : c.kind ≠ .arrayType) (hnullable : c.kind ≠ .nullableType)
    (h : (scope s levels).resolveType c = .named d as) :
    (scope s levels).resolveName c = some (.type (.named d as)) := by
  rw [resolveType_of_kind hpredefined harray hnullable] at h
  split at h
  · next hname => rw [hname, h]
  · cases h

end Opening

namespace Scope

/-- A type without arguments is given those that are written. -/
theorem applied_plain (resolve : Cursor → Ty) (name : Cursor) (d : TypeId) :
    applied resolve name.typeArgumentList? (.type (.plain d)) =
      .type (.named d (name.typeArguments.map resolve)) := by
  rw [Cursor.typeArguments]
  cases name.typeArgumentList? <;> rfl

/-- Meanings with arguments are those of named types. -/
theorem arguments_of_applied {resolve : Cursor → Ty} {list : Cursor} {meaning : NameMeaning}
    {d : TypeId} {as : List Ty} (h : applied resolve (some list) meaning = .type (.named d as)) :
    as = list.types.map resolve := by
  unfold applied at h
  split at h
  · exact (Ty.named.inj (NameMeaning.type.inj h)).2.symm
  · next hother => exact absurd h (hother d as)

variable {scope : Scope} {left : NameMeaning} {name : Cursor} {d : TypeId} {as : List Ty}

/-- A name behind a dot is read as a type with the arguments that it writes, one for each type
parameter. -/
theorem arguments_of_member (h : scope.member left name = some (.type (.named d as))) :
    as = name.typeArguments.map scope.resolveType ∧ as.length = (scope.table.type d).arity := by
  rw [member, memberWith_eq] at h
  obtain ⟨text, -, h⟩ := Option.bind_eq_some_iff.mp h
  obtain ⟨found, hfound, happlied⟩ := Option.map_eq_some_iff.mp h
  rcases SymbolTable.memberOf?_eq_some hfound with ⟨t, rfl, -, harity⟩ | ⟨-, ns, rfl⟩
  · rw [applied_plain] at happlied
    obtain ⟨rfl, rfl⟩ := Ty.named.inj (NameMeaning.type.inj happlied)
    exact ⟨rfl, by rw [List.length_map, harity]⟩
  · cases happlied

/-- Behind the container of a type its name means the type. -/
theorem member_of_foremost (hleft : left.IsContainer (scope.table.type d).container)
    (hname : name.name? = some (scope.table.type d).name) (hfirst : scope.table.Foremost d)
    (harity : name.typeArguments.length = (scope.table.type d).arity) :
    scope.member left name =
      some (.type (.named d (name.typeArguments.map scope.resolveType))) := by
  have hfound : scope.table.memberOf? left (scope.table.type d).name
      (scope.table.type d).arity = some (.type (.plain d)) := by
    cases left with
    | space ns =>
        have hcontainer : (scope.table.type d).container = .space ns := hleft
        rw [SymbolTable.Foremost, hcontainer] at hfirst
        rw [SymbolTable.memberOf?, hfirst]
    | type ty =>
        obtain ⟨o, ho, hcontainer⟩ := hleft
        obtain ⟨bases, hchain⟩ := scope.table.baseChain_eq_cons o
        rw [SymbolTable.Foremost, hcontainer] at hfirst
        rw [SymbolTable.memberOf?, ho, Option.bind_some, SymbolTable.nested?, hchain,
          List.findSome?_cons, hfirst]
        rfl
  rw [member, memberWith_eq, hname, Option.bind_some, harity, hfound, Option.map_some,
    applied_plain]

end Scope

theorem kind_of_qualifiedSegment? {q name : Cursor} (h : qualifiedSegment? q = some name) :
    q.kind ≠ .predefinedType ∧ q.kind ≠ .arrayType ∧ q.kind ≠ .nullableType := by
  unfold qualifiedSegment? at h
  split at h
  · next hkind => simp [hkind]
  · next hkind => simp [hkind]
  · cases h

namespace Opening

variable {s : SymbolTable} {levels : List Opening} {c q name : Cursor} {d : TypeId} {as : List Ty}

/-- A qualified name has the arguments of its last segment, one for each type parameter. -/
theorem arguments_of_qualified (hname : qualifiedSegment? q = some name)
    (h : (scope s levels).resolveType q = .named d as) :
    as = name.typeArguments.map (scope s levels).resolveType ∧ as.length = (s.type d).arity := by
  obtain ⟨hpredefined, harray, hnullable⟩ := kind_of_qualifiedSegment? hname
  have hmeaning := resolveName_of_resolveType hpredefined harray hnullable h
  rw [resolveName_qualified hname] at hmeaning
  obtain ⟨left, -, hmember⟩ := Option.bind_eq_some_iff.mp hmeaning
  exact Scope.arguments_of_member hmember

/-- A simple name that writes type arguments is read as a type with these. -/
theorem arguments_of_simple {list : Cursor} (hc : IsSimple c)
    (hlist : c.typeArgumentList? = some list)
    (h : (scope s levels).resolveType c = .named d as) :
    as = c.typeArguments.map (scope s levels).resolveType := by
  rcases hc with hkind | ⟨-, hnone⟩
  · have hmeaning := resolveName_of_resolveType (by simp [hkind]) (by simp [hkind])
      (by simp [hkind]) h
    rw [resolveName_generic hkind] at hmeaning
    obtain ⟨text, -, hmeaning⟩ := Option.bind_eq_some_iff.mp hmeaning
    obtain ⟨found, -, happlied⟩ := Option.map_eq_some_iff.mp hmeaning
    rw [hlist] at happlied
    rw [Cursor.typeArguments, hlist]
    exact Scope.arguments_of_applied happlied
  · rw [hnone] at hlist
    cases hlist

/-- Behind its container a complete type is read from its name and its arguments. -/
theorem resolveType_of_container {left : NameMeaning} (hcomplete : as.length = (s.type d).arity)
    (hfirst : s.Foremost d) (hleft : (scope s levels).qualifier? q = some left)
    (hcontainer : left.IsContainer (s.type d).container) (hname : qualifiedSegment? q = some name)
    (htext : name.name? = some (s.type d).name)
    (harguments : name.typeArguments.map (scope s levels).resolveType = as) :
    (scope s levels).resolveType q = .named d as := by
  have harity : name.typeArguments.length = (s.type d).arity := by
    rw [← hcomplete, ← harguments, List.length_map]
  obtain ⟨hpredefined, harray, hnullable⟩ := kind_of_qualifiedSegment? hname
  have hmember : (scope s levels).member left name = some (.type (.named d as)) :=
    harguments ▸ Scope.member_of_foremost hcontainer htext hfirst harity
  rw [resolveType_of_kind hpredefined harray hnullable, resolveName_qualified hname, hleft,
    Option.bind_some, hmember]

end Opening

/-! ## Types in a document -/

/-- **Types are given the arguments that they take.** Take a type that is written in a document of
a project, and let no list of type arguments in it or in a `using` directive of the document have
an open slot. Then each named type in what it is read as has as many arguments as its definition
has type parameters. What is read as a named type can be written as a qualified name: behind
anything that stands for the container of the definition, the name of the definition with the
same arguments is read as the same type. And any qualified name that stands for the definition
of a simple name, with the same arguments, is read as the same type. -/
theorem resolveType_complete (project : Project) (doc : Document) (m : Model)
    (hm : m = ⟨.ofProject project, doc.id⟩)
    (husings : ∀ u ∈ doc.root.nodes, u.kind = .usingDirective → Scope.Filled u)
    (c : Cursor) (hc : c ∈ doc.root.nodes) (hfilled : Scope.Filled c) :
    (∀ d as, .named d as ∈ (m.resolveType c).parts →
      as.length = (m.table.type d).typeParams.length) ∧
    (∀ d as, .named d as ∈ (m.resolveType c).parts → ∀ q left name,
      (m.scope q).qualifier? q = some left → left.IsContainer (m.table.type d).container →
      qualifiedSegment? q = some name → name.name? = some (m.table.type d).name →
      name.typeArguments.map (m.scope q).resolveType = as → m.resolveType q = .named d as) ∧
    ∀ d as as' q name, IsSimple c → m.resolveType c = .named d as →
      qualifiedSegment? q = some name → m.resolveType q = .named d as' →
      name.typeArguments.map (m.scope q).resolveType =
        c.typeArguments.map (m.scope c).resolveType → as' = as := by
  have hkeywords : Scope.KeywordsComplete m.table := hm ▸ keywordsComplete_ofProject project
  have hscope (q : Cursor) : m.scope q = Opening.scope m.table (Opening.at_ m.table m.document q) :=
    (Opening.scope_at m.document q).symm
  have hbelow := below_of_mem_nodes hc
  have hlevels : (m.scope c).Holds (Ty.Complete m.table) := by
    refine Scope.at_complete hkeywords fun a ha u hu => ?_
    obtain ⟨hmem, hkind⟩ := mem_children_of_mem_childrenOfKind hu
    have hdown := (hbelow.of_mem_ancestors rfl ha).1.trans (below_of_mem_children hmem)
    exact husings u (hdown.mem_nodes (isNode_of_mem_children hmem)) hkind
  have hcomplete : (m.resolveType c).Complete m.table :=
    (Scope.within_complete hkeywords hlevels _).1 c hfilled
  refine ⟨fun d as hmem => (hcomplete d as hmem).1, ?_, ?_⟩
  · intro d as hmem q left name hleft hcontainer hname htext harguments
    obtain ⟨hlength, hfirst⟩ := hcomplete d as hmem
    rw [hscope] at hleft harguments
    rw [resolveType, hscope]
    exact Opening.resolveType_of_container hlength hfirst hleft hcontainer hname htext harguments
  · intro d as as' q name hsimple hread hname hread' hsame
    have hlength := (hcomplete d as (by rw [hread]; exact List.mem_cons_self)).1
    rw [resolveType, hscope] at hread hread'
    rw [hscope, hscope] at hsame
    obtain ⟨harguments, hlength'⟩ := Opening.arguments_of_qualified hname hread'
    cases hlist : c.typeArgumentList? with
    | none =>
        have hnone : c.typeArguments = [] := by rw [Cursor.typeArguments, hlist]; rfl
        rw [hsame, hnone, List.map_nil] at harguments
        rw [harguments, List.length_nil] at hlength'
        rw [← hlength', List.length_eq_zero_iff] at hlength
        rw [harguments, hlength]
    | some list =>
        rw [harguments, hsame]
        exact (Opening.arguments_of_simple hsimple hlist hread).symm

/-- A project with one document, which writes a type by its simple name and by a qualified one. -/
def qualifiedProject : Project :=
  Project.empty.append (Document.read 0 "qualified.cs"
    "using System; class C \x7b Func<int[],string> f; System.Func<int[],string> g; \x7d" 0)
    rfl

/-- The arguments in both names. -/
def intsAndString : List Ty := [.array (.plain ⟨9⟩) 1, .plain ⟨1⟩]

/-- The simple name is read as a `Func` in `System`, and the other one names it behind `System`. -/
theorem names_qualifiedProject : ∃ doc ∈ qualifiedProject.documents, doc.id = 0 ∧
    (∀ u ∈ doc.root.nodes, u.kind = .usingDirective → Scope.Filled u) ∧
    ∃ c ∈ doc.root.nodes, c.kind = .genericName ∧ Scope.Filled c ∧
      (ofFirst qualifiedProject).resolveType c = .named ⟨36⟩ intsAndString ∧
      c.typeArguments.map ((ofFirst qualifiedProject).scope c).resolveType = intsAndString ∧
      ∃ q ∈ doc.root.nodes,
        ((ofFirst qualifiedProject).scope q).qualifier? q = some (.space ⟨1⟩) ∧
        ((ofFirst qualifiedProject).table.type ⟨36⟩).container = .space ⟨1⟩ ∧
        ∃ name ∈ qualifiedSegment? q,
          name.name? = some ((ofFirst qualifiedProject).table.type ⟨36⟩).name ∧
          name.typeArguments.map ((ofFirst qualifiedProject).scope q).resolveType =
            intsAndString := by
  rw [← Project.quick_eq qualifiedProject]
  decide +kernel

theorem resolveType_complete_func : ∃ doc ∈ qualifiedProject.documents,
    ∃ c ∈ doc.root.nodes, c.kind = .genericName ∧
      (ofFirst qualifiedProject).resolveType c = .named ⟨36⟩ intsAndString ∧
      2 = ((ofFirst qualifiedProject).table.type ⟨36⟩).typeParams.length ∧
      ∃ q ∈ doc.root.nodes, (qualifiedSegment? q).isSome = true ∧
        (ofFirst qualifiedProject).resolveType q = (ofFirst qualifiedProject).resolveType c ∧
        ∀ as, (ofFirst qualifiedProject).resolveType q = .named ⟨36⟩ as → as = intsAndString := by
  obtain ⟨doc, hdoc, hid, husings, c, hc, hkind, hfilled, hread, harguments, q, hq, hleft, hcontainer,
    name, hname, htext, hsame⟩ := names_qualifiedProject
  have hm : ofFirst qualifiedProject = ⟨.ofProject qualifiedProject, doc.id⟩ := by rw [hid]; rfl
  obtain ⟨hlength, hqualified, hsimple⟩ :=
    resolveType_complete qualifiedProject doc _ hm husings c hc hfilled
  have hpart : Ty.named ⟨36⟩ intsAndString ∈ ((ofFirst qualifiedProject).resolveType c).parts := by
    rw [hread]
    exact List.mem_cons_self
  refine ⟨doc, hdoc, c, hc, hkind, hread, hlength _ _ hpart, q, hq, Option.isSome_of_mem hname, ?_,
    fun as has => ?_⟩
  · rw [hread]
    exact hqualified _ _ hpart q _ name hleft hcontainer hname htext hsame
  · exact hsimple _ _ as q name (.inl hkind) hread hname has (hsame.trans harguments.symm)

/-- A project with one document, in which a slot for a type argument is left open. -/
def openProject : Project :=
  Project.empty.append (Document.read 0 "open.cs"
    "using System.Collections.Generic; class C \x7b Dictionary<,int> f; System.Collections.Generic.Dictionary<,int> g; \x7d" 0)
    rfl

/-- The simple name is read as a `Dictionary` whose keys are an `int` and whose values are missing,
and the qualified name as no type. -/
theorem resolveType_open : ∃ doc ∈ openProject.documents, doc.errors = [] ∧
    (∃ c ∈ doc.root.nodes, c.kind = .genericName ∧
      (ofFirst openProject).resolveType c = .named ⟨57⟩ [.plain ⟨9⟩]) ∧
    ((ofFirst openProject).table.type ⟨57⟩).typeParams = ["TKey", "TValue"] ∧
    ∃ q ∈ doc.root.nodes, q.kind = .qualifiedName ∧ (ofFirst openProject).resolveType q =
      .error "System.Collections.Generic.Dictionary<,int>" := by
  rw [← Project.quick_eq openProject]
  decide +kernel

end CSharpKit.Semantics
