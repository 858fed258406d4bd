import CSharpKit.Proofs.Semantics.Spelling
import CSharpKit.Proofs.Semantics.Outlines

/-!
# Meanings in tables with the same ways

Two tables number their entries differently. Where the levels of two scopes stand for
corresponding entries, a written type means corresponding types in them. For names
behind a type this is so as long as none of them is found in a base class.
-/

namespace CSharpKit

/-! ## Related values -/

section

variable {α β γ δ : Type} {R : α → β → Prop} {S : γ → δ → Prop}

theorem rel_optionMap {f : α → γ} {g : β → δ} {a : Option α} {b : Option β} (h : Option.Rel R a b)
    (hfg : ∀ a b, R a b → S (f a) (g b)) : Option.Rel S (a.map f) (b.map g) := by
  cases h with
  | none => exact .none
  | some h => exact .some (hfg _ _ h)

theorem rel_optionBind {f : α → Option γ} {g : β → Option δ} {a : Option α} {b : Option β}
    (h : Option.Rel R a b) (hfg : ∀ a b, R a b → Option.Rel S (f a) (g b)) :
    Option.Rel S (a.bind f) (b.bind g) := by
  cases h with
  | none => exact .none
  | some h => exact hfg _ _ h

theorem rel_findSome? {f : α → Option γ} {g : β → Option δ} {l : List α} {l' : List β}
    (h : List.Forall₂ R l l') (hfg : ∀ a b, R a b → Option.Rel S (f a) (g b)) :
    Option.Rel S (l.findSome? f) (l'.findSome? g) := by
  induction h with
  | nil => exact .none
  | @cons a b l l' hab _ ih =>
      rw [List.findSome?_cons, List.findSome?_cons]
      have hfirst := hfg a b hab
      generalize f a = x at hfirst
      generalize g b = y at hfirst
      cases hfirst with
      | none => exact ih
      | some hxy => exact .some hxy

theorem rel_lookup [BEq α] [LawfulBEq α] {l : List (α × γ)} {l' : List (α × δ)}
    (h : List.Forall₂ (fun a b => a.1 = b.1 ∧ S a.2 b.2) l l') (key : α) :
    Option.Rel S (l.lookup key) (l'.lookup key) := by
  induction h with
  | nil => exact .none
  | @cons a b l l' hab _ ih =>
      obtain ⟨k, x⟩ := a
      obtain ⟨k', y⟩ := b
      obtain ⟨rfl, hxy⟩ : k = k' ∧ S x y := hab
      rw [List.lookup_cons, List.lookup_cons]
      cases key == k with
      | true => exact .some hxy
      | false => exact ih

/-- What two steps make of the same elements. -/
theorem rel_filterMap_same {f : α → Option γ} {g : α → Option δ} {l : List α}
    (h : ∀ a ∈ l, Option.Rel S (f a) (g a)) : List.Forall₂ S (l.filterMap f) (l.filterMap g) := by
  induction l with
  | nil => exact .nil
  | cons a l ih =>
      obtain ⟨ha, hl⟩ := List.forall_mem_cons.mp h
      rw [List.filterMap_cons, List.filterMap_cons]
      generalize f a = x at ha
      generalize g a = y at ha
      cases ha with
      | none => exact ih hl
      | some hxy => exact .cons hxy (ih hl)

theorem rel_map_same {f : α → γ} {g : α → δ} {l : List α} (h : ∀ a ∈ l, S (f a) (g a)) :
    List.Forall₂ S (l.map f) (l.map g) := by
  rw [List.forall₂_map_left_iff, List.forall₂_map_right_iff]
  exact List.forall₂_same.mpr h

end

/-- All names at a node and below it are among some. -/
def Syntax.Cursor.NamesIn (names : List String) (c : Syntax.Cursor) : Prop :=
  ∀ d, Syntax.Cursor.Below c d → ∀ name, d.name? = some name → name ∈ names

theorem Syntax.Cursor.NamesIn.below {names : List String} {c d : Syntax.Cursor}
    (h : c.NamesIn names) (hd : Syntax.Cursor.Below c d) : d.NamesIn names :=
  fun e he => h e (hd.trans he)

namespace Semantics

open Syntax Workspace Cursor Declare

/-! ## Types -/

/-- Types that are alike but for their definitions, which a relation tells of. -/
inductive Ty.Twin (R : TypeId → TypeId → Prop) : Ty → Ty → Prop
  | named {d e : TypeId} {as bs : List Ty} (h : R d e) (hargs : List.Forall₂ (Ty.Twin R) as bs) :
      Ty.Twin R (.named d as) (.named e bs)
  | param {d e : TypeId} (h : R d e) (index : Nat) (name : String) :
      Ty.Twin R (.param (.type d) index name) (.param (.type e) index name)
  | array {a b : Ty} (h : Ty.Twin R a b) (rank : Nat) : Ty.Twin R (.array a rank) (.array b rank)
  | nullable {a b : Ty} (h : Ty.Twin R a b) : Ty.Twin R (.nullable a) (.nullable b)
  | void : Ty.Twin R .void .void
  | error (text : String) : Ty.Twin R (.error text) (.error text)

section

variable {q s : SymbolTable} {R R' : TypeId → TypeId → Prop}

theorem Ty.Twin.plain {d e : TypeId} (h : R d e) : (Ty.plain d).Twin R (.plain e) := .named h .nil

/-- Array types over alike types are alike, one for each of the same rank specifiers. -/
theorem Ty.Twin.arrays (ranks : List Cursor) {a b : Ty} (h : a.Twin R b) :
    Ty.Twin R
      (ranks.foldl (fun element rank =>
        .array element ((rank.elements.filter fun e => e.kind == .comma).length + 1)) a)
      (ranks.foldl (fun element rank =>
        .array element ((rank.elements.filter fun e => e.kind == .comma).length + 1)) b) := by
  induction ranks generalizing a b with
  | nil => exact h
  | cons rank ranks ih => exact ih (.array h _)

theorem Ty.Twin.definition? {a b : Ty} (h : a.Twin R b) :
    Option.Rel R a.definition? b.definition? := by
  cases h with
  | named h => exact .some h
  | param | array | nullable | void | error => exact .none

mutual

theorem Ty.Twin.imp (h : ∀ t u, R t u → R' t u) : ∀ {a b : Ty}, a.Twin R b → a.Twin R' b
  | .named _ _, .named _ _, .named hd hargs => .named (h _ _ hd) (Ty.Twin.impAll h hargs)
  | .param _ _ _, _, .param hd index name => .param (h _ _ hd) index name
  | .array _ _, _, .array ha rank => .array (ha.imp h) rank
  | .nullable _, _, .nullable ha => .nullable (ha.imp h)
  | .void, _, .void => .void
  | .error _, _, .error text => .error text

theorem Ty.Twin.impAll (h : ∀ t u, R t u → R' t u) :
    ∀ {as bs : List Ty}, List.Forall₂ (Ty.Twin R) as bs → List.Forall₂ (Ty.Twin R') as bs
  | [], _, .nil => .nil
  | _ :: _, _ :: _, .cons ha has => .cons (ha.imp h) (Ty.Twin.impAll h has)

end

namespace SymbolTable

mutual

/-- Types have the same label where their definitions have. -/
theorem typeLabel_of_twin (hR : ∀ t u, R t u → q.definitionLabel t = s.definitionLabel u) :
    ∀ {a b : Ty}, a.Twin R b → q.typeLabel a = s.typeLabel b
  | .named _ as, .named _ bs, .named h hargs => by
      have hempty : as.isEmpty = bs.isEmpty := by cases hargs <;> rfl
      rw [typeLabel, typeLabel, hR _ _ h, hempty, typeLabels_of_twin hR hargs]
  | .param _ _ _, _, .param h _ _ => by
      rw [typeLabel, typeLabel, ownerLabel, ownerLabel, hR _ _ h]
  | .array _ _, _, .array h _ => by rw [typeLabel, typeLabel, typeLabel_of_twin hR h]
  | .nullable _, _, .nullable h => by rw [typeLabel, typeLabel, typeLabel_of_twin hR h]
  | .void, _, .void => rfl
  | .error _, _, .error _ => rfl

theorem typeLabels_of_twin (hR : ∀ t u, R t u → q.definitionLabel t = s.definitionLabel u) :
    ∀ {as bs : List Ty}, List.Forall₂ (Ty.Twin R) as bs →
      typeLabel.typeLabels q as = typeLabel.typeLabels s bs
  | [], _, .nil => rfl
  | _ :: _, _ :: _, .cons h hs => by
      rw [typeLabel.typeLabels, typeLabel.typeLabels, typeLabel_of_twin hR h, typeLabels_of_twin hR hs]

end

/-! ## Tables that agree -/

/-- Types of two tables at the end of the same way. -/
def TwinType (q s : SymbolTable) (t u : TypeId) : Prop := Twin q s (.type t) (.type u)

/-- Namespaces of two tables at the end of the same way. -/
def TwinSpace (q s : SymbolTable) (a b : NamespaceId) : Prop := Twin q s (.space a) (.space b)

/-- No type of one of the names is found in a base class. -/
def Flat (s : SymbolTable) (names : List String) : Prop :=
  ∀ t, ∀ name ∈ names, ∀ arity, s.nested? t name arity = s.typeIn? (.type t) name arity

/-- Two tables with the same ways, where some names are found in the same places. -/
structure Agrees (q s : SymbolTable) (names : List String) : Prop where
  alike : q.Alike s
  closed : q.Closed ∧ s.Closed
  keyword (k : Kind) : Option.Rel (q.TwinType s) (q.keywordType? k) (s.keywordType? k)
  flat : q.Flat names ∧ s.Flat names

theorem TwinType.step_eq {t u : TypeId} (h : q.TwinType s t u) : (q.type t).step = (s.type u).step := by
  obtain ⟨way, ht, hu⟩ := h
  generalize hway : way = whole at hu
  cases ht
  cases hu
  exact (List.cons.inj hway).1

theorem TwinType.typeParams_eq {t u : TypeId} (h : q.TwinType s t u) :
    (q.type t).typeParams = (s.type u).typeParams := (Step.type.inj h.step_eq).2.2.1

theorem TwinType.kind_eq {t u : TypeId} (h : q.TwinType s t u) :
    (q.type t).kind = (s.type u).kind := (Step.type.inj h.step_eq).2.1

theorem Agrees.nested? {names : List String} (h : q.Agrees s names) {t u : TypeId}
    (htwin : q.TwinType s t u) {name : String} (hname : name ∈ names) (arity : Nat) :
    Option.Rel (q.TwinType s) (q.nested? t name arity) (s.nested? u name arity) := by
  rw [h.flat.1 t name hname arity, h.flat.2 u name hname arity]
  exact h.alike.typeIn? htwin name arity

end SymbolTable

end

/-! ## Levels -/

/-- What a name means in two tables. -/
inductive NameMeaning.Twin (q s : SymbolTable) : NameMeaning → NameMeaning → Prop
  | space {a b : NamespaceId} (h : q.TwinSpace s a b) : Twin q s (.space a) (.space b)
  | type {a b : Ty} (h : a.Twin (q.TwinType s) b) : Twin q s (.type a) (.type b)

/-- What directives bring in. -/
structure Imports.Twin (q s : SymbolTable) (a b : Imports) : Prop where
  aliases : List.Forall₂ (fun x y => x.1 = y.1 ∧ Option.Rel (NameMeaning.Twin q s) x.2 y.2)
    a.aliases b.aliases
  spaces : List.Forall₂ (q.TwinSpace s) a.spaces b.spaces

/-- Levels outside of methods. -/
inductive Level.Twin (q s : SymbolTable) : Level → Level → Prop
  | type {t u : TypeId} (h : q.TwinType s t u) : Twin q s (.type t) (.type u)
  | space {a b : NamespaceId} {i j : Imports} (h : q.TwinSpace s a b) (himports : i.Twin q s j) :
      Twin q s (.space a i) (.space b j)

section

variable {q s : SymbolTable} {names : List String} {name : String}

theorem Imports.Twin.empty (q s : SymbolTable) : Imports.Twin q s {} {} := ⟨.nil, .nil⟩

theorem NameMeaning.Twin.plain {t u : TypeId} (h : q.TwinType s t u) :
    NameMeaning.Twin q s (.type (.plain t)) (.type (.plain u)) := .type (.plain h)

theorem rel_typeParam? {t u : TypeId} (h : q.TwinType s t u) (name : String) :
    Option.Rel (NameMeaning.Twin q s) (typeParam? (.type t) (q.type t).typeParams name)
      (typeParam? (.type u) (s.type u).typeParams name) := by
  rw [typeParam?, typeParam?, h.typeParams_eq]
  cases (s.type u).typeParams.findIdx? (· == name) with
  | none => exact .none
  | some i => exact .some (.type (.param h i name))

theorem Imports.Twin.find? (h : q.Agrees s names) {a b : Imports} (htwin : a.Twin q s b)
    (name : String) (arity : Nat) :
    Option.Rel (NameMeaning.Twin q s) (a.find? q name arity) (b.find? s name arity) := by
  have hspaces : Option.Rel (NameMeaning.Twin q s)
      ((a.spaces.findSome? fun ns => q.typeIn? (.space ns) name arity).map fun t => .type (.plain t))
      ((b.spaces.findSome? fun ns => s.typeIn? (.space ns) name arity).map fun t => .type (.plain t)) :=
    rel_optionMap (rel_findSome? htwin.spaces fun _ _ hns => h.alike.typeIn? hns name arity)
      fun _ _ => .plain
  rw [Imports.find?, Imports.find?]
  by_cases harity : arity = 0
  · have halias := rel_lookup htwin.aliases name
    simp only [if_pos harity]
    generalize a.aliases.lookup name = x at halias
    generalize b.aliases.lookup name = y at halias
    cases halias with
    | none => exact hspaces
    | some hxy => exact hxy
  · simp only [if_neg harity]
    exact hspaces

theorem Level.Twin.find? (h : q.Agrees s names) {a b : Level} (htwin : a.Twin q s b)
    (hname : name ∈ names) (arity : Nat) :
    Option.Rel (NameMeaning.Twin q s) (a.find? q name arity) (b.find? s name arity) := by
  cases htwin with
  | @type t u htwin =>
      have hnested : Option.Rel (NameMeaning.Twin q s)
          ((q.nested? t name arity).map fun n => .type (.plain n))
          ((s.nested? u name arity).map fun n => .type (.plain n)) :=
        rel_optionMap (h.nested? htwin hname arity) fun _ _ => .plain
      have hparam := rel_typeParam? htwin name
      simp only [Level.find?]
      by_cases harity : arity = 0
      · simp only [if_pos harity]
        generalize typeParam? _ _ name = x at hparam
        generalize typeParam? _ _ name = y at hparam
        cases hparam with
        | none => exact hnested
        | some hxy => exact .some hxy
      · simp only [if_neg harity]
        exact hnested
  | @space a b i j htwin himports =>
      have htype := h.alike.typeIn? htwin name arity
      have hchild := h.alike.child? htwin name
      have hfound := himports.find? h name arity
      simp only [Level.find?]
      generalize q.typeIn? (.space a) name arity = x at htype
      generalize s.typeIn? (.space b) name arity = y at htype
      cases htype with
      | some hxy => exact .some (.plain hxy)
      | none =>
          by_cases harity : arity = 0
          · simp only [if_pos harity]
            generalize q.child? a name = x at hchild
            generalize s.child? b name = y at hchild
            cases hchild with
            | none => exact hfound
            | some hxy => exact .some (.space hxy)
          · simp only [if_neg harity]
            exact hfound

theorem SymbolTable.Agrees.memberOf? (h : q.Agrees s names) {a b : NameMeaning}
    (htwin : a.Twin q s b) (hname : name ∈ names) (arity : Nat) :
    Option.Rel (NameMeaning.Twin q s) (q.memberOf? a name arity) (s.memberOf? b name arity) := by
  cases htwin with
  | @space a b htwin =>
      have htype := h.alike.typeIn? htwin name arity
      have hchild := h.alike.child? htwin name
      simp only [SymbolTable.memberOf?]
      generalize q.typeIn? (.space a) name arity = x at htype
      generalize s.typeIn? (.space b) name arity = y at htype
      cases htype with
      | some hxy => exact .some (.plain hxy)
      | none =>
          by_cases harity : arity = 0
          · simp only [if_pos harity]
            exact rel_optionMap hchild fun _ _ => .space
          · simp only [if_neg harity]
            exact .none
  | type htwin =>
      exact rel_optionMap (rel_optionBind htwin.definition? fun _ _ hd => h.nested? hd hname arity)
        fun _ _ => .plain

end

/-! ## What is written -/

namespace Scope

variable {q s : SymbolTable} {names : List String}

/-- Levels of two tables that stand for the same. -/
def TwinLevels (q s : SymbolTable) (a b : List Level) : Prop := List.Forall₂ (Level.Twin q s) a b

theorem rel_lookup (h : q.Agrees s names) {a b : List Level} (hlevels : TwinLevels q s a b)
    {name : String} (hname : name ∈ names) (arity : Nat) :
    Option.Rel (NameMeaning.Twin q s) (lookup ⟨q, a⟩ name arity) (lookup ⟨s, b⟩ name arity) :=
  rel_findSome? hlevels fun _ _ hlevel => hlevel.find? h hname arity

theorem twin_predefined (h : q.Agrees s names) (a b : List Level) (c : Cursor) :
    (predefined ⟨q, a⟩ c).Twin (q.TwinType s) (predefined ⟨s, b⟩ c) := by
  unfold predefined
  cases c.leadToken? with
  | none => exact .error _
  | some token =>
      have hkeyword := h.keyword token.kind
      by_cases hvoid : (token.kind == .voidKw) = true
      · simp only [hvoid, if_true]
        exact .void
      · simp only [hvoid]
        generalize q.keywordType? token.kind = x at hkeyword
        generalize s.keywordType? token.kind = y at hkeyword
        cases hkeyword with
        | none => exact .error _
        | some hxy => exact .plain hxy

theorem twin_applied {resolve resolve' : Cursor → Ty} {arguments : Option Cursor}
    (hresolve : ∀ list, arguments = some list → ∀ c ∈ list.types,
      (resolve c).Twin (q.TwinType s) (resolve' c))
    {a b : NameMeaning} (htwin : a.Twin q s b) :
    (applied resolve arguments a).Twin q s (applied resolve' arguments b) := by
  cases htwin with
  | space h => exact .space h
  | type h =>
      cases h with
      | named h hargs =>
          cases arguments with
          | none => exact .type (.named h hargs)
          | some list => exact .type (.named h (rel_map_same (hresolve list rfl)))
      | param h index name => exact .type (.param h index name)
      | array h rank => exact .type (.array h rank)
      | nullable h => exact .type (.nullable h)
      | void => exact .type .void
      | error text => exact .type (.error text)

/-- The nodes of type arguments lie below the name that has them. -/
theorem below_of_mem_typeArguments {c list a : Cursor} (hlist : c.typeArgumentList? = some list)
    (ha : a ∈ list.types) : Below c a :=
  (below_of_mem_children (mem_children_of_child? hlist).1).trans
    (below_of_mem_children (mem_children_of_mem_childrenOf ha).1)

theorem rel_memberWith (h : q.Agrees s names) {a b : List Level} {resolve resolve' : Cursor → Ty}
    {left left' : NameMeaning} (hleft : left.Twin q s left') {name : Cursor}
    (hname : name.NamesIn names)
    (hresolve : ∀ c, c.NamesIn names → (resolve c).Twin (q.TwinType s) (resolve' c)) :
    Option.Rel (NameMeaning.Twin q s) (memberWith ⟨q, a⟩ resolve left name)
      (memberWith ⟨s, b⟩ resolve' left' name) := by
  rw [memberWith_eq, memberWith_eq]
  cases htext : name.name? with
  | none => exact .none
  | some text =>
      apply rel_optionMap (h.memberOf? hleft (hname name (.refl _) text htext) _)
      intro x y hxy
      exact twin_applied (fun list hlist c hc =>
        hresolve c (hname.below (below_of_mem_typeArguments hlist hc))) hxy

/-- `Name` in `alias::Name` means the same behind what means the same. -/
theorem rel_aliased (h : q.Agrees s names) {a b : List Level} {resolve resolve' : Cursor → Ty}
    {c : Cursor} (hc : c.NamesIn names)
    (hresolve : ∀ c, c.NamesIn names → (resolve c).Twin (q.TwinType s) (resolve' c))
    {left? left?' : Option NameMeaning} (hleft : Option.Rel (NameMeaning.Twin q s) left? left?') :
    Option.Rel (NameMeaning.Twin q s)
      (left?.bind fun left => c.aliasedName?.bind (memberWith ⟨q, a⟩ resolve left))
      (left?'.bind fun left => c.aliasedName?.bind (memberWith ⟨s, b⟩ resolve' left)) := by
  apply rel_optionBind hleft
  intro left left' hleft
  cases hsegment : c.aliasedName? with
  | none => exact .none
  | some segment =>
      have hmem := (mem_children_of_mem_childrenOf (List.mem_of_getElem? hsegment)).1
      exact rel_memberWith h hleft (hc.below (below_of_mem_children hmem)) hresolve

section

variable {a b : List Level} {fuel : Nat} {c : Cursor}

/-- Types mean the same one level further out. -/
theorem twin_typeWithin_succ (h : q.Agrees s names)
    (htype : ∀ c, c.NamesIn names →
      (typeWithin ⟨q, a⟩ fuel c).Twin (q.TwinType s) (typeWithin ⟨s, b⟩ fuel c))
    (hmeans : ∀ c, c.NamesIn names →
      Option.Rel (NameMeaning.Twin q s) (nameWithin ⟨q, a⟩ fuel c) (nameWithin ⟨s, b⟩ fuel c))
    (hc : c.NamesIn names) :
    (typeWithin ⟨q, a⟩ (fuel + 1) c).Twin (q.TwinType s) (typeWithin ⟨s, b⟩ (fuel + 1) c) := by
  have helement : Ty.Twin (q.TwinType s)
      ((c.type?.map (typeWithin ⟨q, a⟩ fuel)).getD (.error c.focus.plainText))
      ((c.type?.map (typeWithin ⟨s, b⟩ fuel)).getD (.error c.focus.plainText)) := by
    cases hwritten : c.type? with
    | none => exact .error _
    | some written => exact htype written (hc.below (below_of_childOf? hwritten))
  simp only [typeWithin]
  split
  · exact twin_predefined h a b c
  · exact helement.arrays _
  · exact .nullable helement
  · have hname := hmeans c hc
    generalize nameWithin ⟨q, a⟩ fuel c = x at hname
    generalize nameWithin ⟨s, b⟩ fuel c = y at hname
    cases hname with
    | none => exact .error _
    | some hxy =>
        cases hxy with
        | space => exact .error _
        | type hxy => exact hxy

/-- Names mean the same one level further out. -/
theorem rel_nameWithin_succ (h : q.Agrees s names) (hlevels : TwinLevels q s a b)
    (htype : ∀ c, c.NamesIn names →
      (typeWithin ⟨q, a⟩ fuel c).Twin (q.TwinType s) (typeWithin ⟨s, b⟩ fuel c))
    (hmeans : ∀ c, c.NamesIn names →
      Option.Rel (NameMeaning.Twin q s) (nameWithin ⟨q, a⟩ fuel c) (nameWithin ⟨s, b⟩ fuel c))
    (hc : c.NamesIn names) :
    Option.Rel (NameMeaning.Twin q s) (nameWithin ⟨q, a⟩ (fuel + 1) c)
      (nameWithin ⟨s, b⟩ (fuel + 1) c) := by
  have hself (name : String) (hname : c.name? = some name) : name ∈ names :=
    hc c (.refl _) name hname
  simp only [nameWithin]
  split
  · cases hname : c.name? with
    | none => exact .none
    | some name => exact rel_lookup h hlevels (hself name hname) 0
  · cases hname : c.name? with
    | none => exact .none
    | some name =>
        apply rel_optionBind (rel_lookup h hlevels (hself name hname) c.arity)
        intro x y hxy
        exact .some (twin_applied (fun list hlist d hd =>
          htype d (hc.below (below_of_mem_typeArguments hlist hd))) hxy)
  · cases hqualifier : c.type? with
    | none => exact .none
    | some qualifier =>
        apply rel_optionBind (hmeans qualifier (hc.below (below_of_childOf? hqualifier)))
        intro x y hxy
        cases hsegment : c.lastSegment? with
        | none => exact .none
        | some segment =>
            have hmem := (mem_children_of_mem_childrenOf (List.mem_of_getLast? hsegment)).1
            exact rel_memberWith h hxy (hc.below (below_of_mem_children hmem)) htype
  · cases houter : c.child? .identifierName with
    | none => exact .none
    | some outer =>
        cases hspelled : outer.name? with
        | none => simp [hspelled]
        | some spelled =>
            have hname : spelled ∈ names := hc outer (below_of_childOf? houter) spelled hspelled
            simp only [Option.bind_eq_bind, Option.bind_some, hspelled]
            by_cases hglobal : (spelled == "global") = true
            · rw [if_pos hglobal, if_pos hglobal]
              exact rel_aliased h hc htype (.some (.space ⟨[], .global, .global⟩))
            · rw [if_neg hglobal, if_neg hglobal]
              exact rel_aliased h hc htype (rel_lookup h hlevels hname 0)
  · exact .some (.type (twin_predefined h a b c))
  · exact .some (.type (htype c hc))
  · exact .some (.type (htype c hc))
  · exact .none

end

/-- What is written means the same in scopes that stand for the same. -/
theorem twin_within (h : q.Agrees s names) {a b : List Level} (hlevels : TwinLevels q s a b)
    (fuel : Nat) :
    (∀ c, c.NamesIn names →
      (typeWithin ⟨q, a⟩ fuel c).Twin (q.TwinType s) (typeWithin ⟨s, b⟩ fuel c)) ∧
    ∀ c, c.NamesIn names →
      Option.Rel (NameMeaning.Twin q s) (nameWithin ⟨q, a⟩ fuel c) (nameWithin ⟨s, b⟩ fuel c) := by
  induction fuel with
  | zero =>
      refine ⟨fun c _ => ?_, fun c _ => .none⟩
      rw [typeWithin, typeWithin]
      exact .error _
  | succ fuel ih =>
      exact ⟨fun c hc => twin_typeWithin_succ h ih.1 ih.2 hc,
        fun c hc => rel_nameWithin_succ h hlevels ih.1 ih.2 hc⟩

theorem twin_resolveType (h : q.Agrees s names) {a b : List Level} (hlevels : TwinLevels q s a b)
    {c : Cursor} (hc : c.NamesIn names) :
    (resolveType ⟨q, a⟩ c).Twin (q.TwinType s) (resolveType ⟨s, b⟩ c) :=
  (twin_within h hlevels _).1 c hc

theorem rel_resolveName (h : q.Agrees s names) {a b : List Level} (hlevels : TwinLevels q s a b)
    {c : Cursor} (hc : c.NamesIn names) :
    Option.Rel (NameMeaning.Twin q s) (resolveName ⟨q, a⟩ c) (resolveName ⟨s, b⟩ c) :=
  (twin_within h hlevels _).2 c hc

/-! ## Scopes in the sources -/

/-- The names in the directives of a file or namespace are among some. -/
def DirectivesIn (names : List String) (owner : Cursor) : Prop :=
  ∀ u ∈ owner.usings, ∀ written, u.type? = some written → written.NamesIn names

theorem twin_importsOf (h : q.Agrees s names) {a b : List Level} (hlevels : TwinLevels q s a b)
    {owner : Cursor} (howner : DirectivesIn names owner) :
    (importsOf ⟨q, a⟩ owner).Twin q s (importsOf ⟨s, b⟩ owner) := by
  have hresolve (u : Cursor) (hu : u ∈ owner.usings) : Option.Rel (NameMeaning.Twin q s)
      (u.type?.bind (resolveName ⟨q, a⟩)) (u.type?.bind (resolveName ⟨s, b⟩)) := by
    cases hwritten : u.type? with
    | none => exact .none
    | some written => exact rel_resolveName h hlevels (howner u hu written hwritten)
  constructor
  · apply rel_filterMap_same
    intro u hu
    cases u.usingAlias? with
    | none => exact .none
    | some name => exact .some ⟨rfl, hresolve u hu⟩
  · apply rel_filterMap_same
    intro u hu
    have hmeaning := hresolve u (List.mem_filter.mp hu).1
    generalize u.type?.bind (resolveName ⟨q, a⟩) = x at hmeaning
    generalize u.type?.bind (resolveName ⟨s, b⟩) = y at hmeaning
    cases hmeaning with
    | none => exact .none
    | some hxy =>
        cases hxy with
        | space hxy => exact .some hxy
        | type => exact .none

/-- The namespaces around corresponding ones correspond. -/
theorem twin_parentLevels (h : q.Agrees s names) {stop stop' : Option NamespaceId}
    (hstop : Option.Rel (q.TwinSpace s) stop stop') {fuel fuel' : Nat} {a b : NamespaceId}
    (ha : a.num < fuel) (hb : b.num < fuel') (htwin : q.TwinSpace s a b) :
    TwinLevels q s (parentLevels q stop fuel a) (parentLevels s stop' fuel' b) := by
  induction fuel generalizing fuel' a b with
  | zero => exact absurd ha (Nat.not_lt_zero _)
  | succ fuel ih =>
      cases fuel' with
      | zero => exact absurd hb (Nat.not_lt_zero _)
      | succ fuel' =>
          obtain ⟨way, hq, hs⟩ := htwin
          rw [parentLevels, parentLevels]
          cases hq with
          | global =>
              cases hs
              rw [h.closed.1.global_top, h.closed.2.global_top]
              exact .nil
          | @space way parent _ name hq hlt hspace =>
              cases hs with
              | @space _ parent' _ _ hs hlt' hspace' =>
                  have hparent : q.TwinSpace s parent parent' := ⟨way, hq, hs⟩
                  have hordered := h.closed.1.ordered hlt
                  have hordered' := h.closed.2.ordered hlt'
                  rw [hspace] at hordered
                  rw [hspace'] at hordered'
                  have hsame : some parent = stop ↔ some parent' = stop' := by
                    cases hstop with
                    | none => simp
                    | @some x y hxy =>
                        obtain ⟨other, hx, hy⟩ := hxy
                        constructor
                        · intro heq
                          obtain rfl := Option.some.inj heq
                          have hway := hq.unique h.closed.1.global_top hx
                          rw [← hway] at hy
                          rw [Container.space.inj (hs.injective h.alike.rooted.2 h.alike.apart.2 hy)]
                        · intro heq
                          obtain rfl := Option.some.inj heq
                          have hway := hs.unique h.closed.2.global_top hy
                          rw [← hway] at hx
                          rw [Container.space.inj (hq.injective h.alike.rooted.1 h.alike.apart.1 hx)]
                  rw [hspace, hspace']
                  simp only
                  by_cases hend : some parent = stop
                  · rw [if_pos hend, if_pos (hsame.mp hend)]
                    exact .nil
                  · rw [if_neg hend, if_neg (mt hsame.mpr hend)]
                    refine .cons (.space hparent (.empty q s)) (ih ?_ ?_ hparent)
                    · exact Nat.lt_of_lt_of_le hordered (Nat.lt_succ_iff.mp ha)
                    · exact Nat.lt_of_lt_of_le hordered' (Nat.lt_succ_iff.mp hb)

theorem twin_openSpaces (h : q.Agrees s names) {l l' : List (NamespaceId × Option Cursor)}
    (hl : List.Forall₂ (fun a b => q.TwinSpace s a.1 b.1 ∧ a.2 = b.2 ∧
      ∀ owner, a.2 = some owner → DirectivesIn names owner) l l') :
    TwinLevels q s (openSpaces q l) (openSpaces s l') := by
  induction hl with
  | nil => exact .nil
  | @cons a b l l' hab hl ih =>
      obtain ⟨ns, owner⟩ := a
      obtain ⟨ns', owner'⟩ := b
      obtain ⟨htwin, rfl, howner⟩ : q.TwinSpace s ns ns' ∧ owner = owner' ∧
        ∀ c, owner = some c → DirectivesIn names c := hab
      have hstop : Option.Rel (q.TwinSpace s) (l.head?.map (·.1)) (l'.head?.map (·.1)) := by
        cases hl with
        | nil => exact .none
        | cons hab => exact .some hab.1
      have hlt : ns.num < q.namespaces.size := by
        obtain ⟨way, hq, -⟩ := htwin
        exact hq.inRange h.closed.1.global_lt
      have hlt' : ns'.num < s.namespaces.size := by
        obtain ⟨way, -, hs⟩ := htwin
        exact hs.inRange h.closed.2.global_lt
      have hrest : TwinLevels q s
          (parentLevels q (l.head?.map (·.1)) q.namespaces.size ns ++ openSpaces q l)
          (parentLevels s (l'.head?.map (·.1)) s.namespaces.size ns' ++ openSpaces s l') :=
        List.rel_append (twin_parentLevels h hstop hlt hlt' htwin) ih
      rw [openSpaces, openSpaces]
      refine .cons (.space htwin ?_) hrest
      cases howner' : owner with
      | none => exact .empty q s
      | some c =>
          have hself : TwinLevels q s _ _ := .cons (.space htwin (.empty q s)) hrest
          exact twin_importsOf h hself (howner c howner')

/-- Records of two tables for the same node tell the same. -/
def TwinDecl (q s : SymbolTable) (decl decl' : Decl) : Prop :=
  ∃ mark, decl.Marked q mark ∧ decl'.Marked s mark

/-- The scopes at a node outside of methods stand for the same. -/
theorem twin_at (h : q.Agrees s names) {document document' : DocumentId} {c : Cursor}
    (hdecls : ∀ a ∈ c.ancestors, Option.Rel (TwinDecl q s) (q.decl? ⟨document, Pointer.of a⟩)
      (s.decl? ⟨document', Pointer.of a⟩))
    (houtside : ∀ a ∈ c.ancestors, ¬DeclaresMethod a)
    (hnames : ∀ a ∈ c.ancestors, DirectivesIn names a) :
    TwinLevels q s (at_ q document c).levels (at_ s document' c).levels := by
  refine List.rel_append (rel_filterMap_same fun a ha => ?_) (twin_openSpaces h ?_)
  · have hdecl := hdecls a ha
    have hkind := houtside a ha
    unfold declaredLevel?
    simp only
    split
    case h_1 hmethod => exact absurd (.inl hmethod) hkind
    case h_2 hconstructor => exact absurd (.inr hconstructor) hkind
    case h_3 | h_4 | h_5 | h_6 | h_7 =>
      generalize q.decl? ⟨document, Pointer.of a⟩ = x at hdecl
      generalize s.decl? ⟨document', Pointer.of a⟩ = y at hdecl
      cases hdecl with
      | none => exact .none
      | some hxy =>
          obtain ⟨mark, hx, hy⟩ := hxy
          cases hx with
          | type hx =>
              cases hy with
              | type hy => exact .some (.type ⟨_, hx, hy⟩)
          | space | method | field | property =>
              cases hy <;> exact .none
    case h_8 => exact .none
  · refine List.rel_append (rel_filterMap_same fun a ha => ?_) (.cons ⟨⟨[], .global, .global⟩, rfl, ?_⟩ .nil)
    · have hdecl := hdecls a ha
      unfold declaredSpace?
      split
      · generalize q.decl? ⟨document, Pointer.of a⟩ = x at hdecl
        generalize s.decl? ⟨document', Pointer.of a⟩ = y at hdecl
        cases hdecl with
        | none => exact .none
        | some hxy =>
            obtain ⟨mark, hx, hy⟩ := hxy
            cases hx with
            | space hx =>
                cases hy with
                | space hy =>
                    refine .some ⟨⟨_, hx, hy⟩, rfl, fun owner howner => ?_⟩
                    obtain rfl := Option.some.inj howner
                    exact hnames a ha
            | type | method | field | property =>
                cases hy <;> exact .none
      · exact .none
    · intro owner howner
      exact hnames owner (List.mem_filter.mp (List.mem_of_getLast? howner)).1

end Scope

end Semantics

end CSharpKit
