import CSharpKit.Proofs.Procedure
import CSharpKit.Proofs.Semantics.Ranges
import CSharpKit.Proofs.Syntax.Places

/-!
# The rules for written names as procedures

What a name means at a place is looked for from level to level, and where a level has `using`
directives their targets are resolved in the levels outside. Here directives are not resolved
before a lookup comes to them. Each rule is written as a procedure, with its questions in the
order in which they are asked. With given answers for them it finds what is found in a scope
whose directives are all resolved.
-/

namespace CSharpKit.Semantics

open Syntax Workspace Cursor Procedure

/-- One level of a scope, for a namespace with the node that holds its directives. -/
inductive Opening where
  | method (id : MethodId)
  | type (id : TypeId)
  | space (id : NamespaceId) (owner? : Option Cursor)

namespace Opening

/-- The levels around the directives of a namespace. It is open itself, without them. -/
def outside (ns : NamespaceId) (outer : List Opening) : List Opening := .space ns none :: outer

/-- The level with its directives resolved, in the levels outside it. -/
def level (s : SymbolTable) (outer : List Level) : Opening → Level
  | .method m => .method m
  | .type t => .type t
  | .space ns owner? =>
    .space ns ((owner?.map (Scope.importsOf ⟨s, .space ns {} :: outer⟩)).getD {})

/-- The levels with all directives resolved. -/
def opened (s : SymbolTable) : List Opening → List Level
  | [] => []
  | opening :: outer => opening.level s (opened s outer) :: opened s outer

def scope (s : SymbolTable) (openings : List Opening) : Scope := ⟨s, opened s openings⟩

end Opening

/-- A question on the way to what a name means. `imported` is about the directives that a node
holds, with the levels outside them. -/
inductive Resolution where
  | lookup (openings : List Opening) (name : String) (arity : Nat)
  | imported (outer : List Opening) (owner : Cursor) (name : String) (arity : Nat)
  | meaningOf (openings : List Opening) (c : Cursor)
  | typeOf (openings : List Opening) (c : Cursor)
  | memberOf (openings : List Opening) (left : NameMeaning) (name : Cursor)
  | extensionSpaces (openings : List Opening)

namespace Resolution

abbrev Answer : Resolution → Type
  | lookup .. | imported .. | meaningOf .. | memberOf .. => Option NameMeaning
  | typeOf .. => Ty
  | extensionSpaces .. => List NamespaceId

/-- The answers in the scope whose directives are all resolved. -/
def answer (s : SymbolTable) : (x : Resolution) → x.Answer
  | lookup openings name arity => (Opening.scope s openings).lookup name arity
  | imported outer owner name arity =>
    (Scope.importsOf (Opening.scope s outer) owner).find? s name arity
  | meaningOf openings c => (Opening.scope s openings).resolveName c
  | typeOf openings c => (Opening.scope s openings).resolveType c
  | memberOf openings left name => (Opening.scope s openings).member left name
  | extensionSpaces openings => (Opening.scope s openings).extensionSpaces

/-- The answers that take at most `fuel` steps down through written names. -/
def answersWithin (s : SymbolTable) (fuel : Nat) : (x : Resolution) → x.Answer
  | meaningOf openings c => (Opening.scope s openings).nameWithin fuel c
  | typeOf openings c => (Opening.scope s openings).typeWithin fuel c
  | memberOf openings left name =>
    (Opening.scope s openings).memberWith ((Opening.scope s openings).typeWithin fuel) left name
  | lookup openings name arity => answer s (lookup openings name arity)
  | imported outer owner name arity => answer s (imported outer owner name arity)
  | extensionSpaces openings => answer s (extensionSpaces openings)

/-- A rule with a result of a type `α`. -/
abbrev Rule := Procedure Resolution Answer

variable (s : SymbolTable)

def askName (openings : List Opening) (c : Cursor) : Rule (Option NameMeaning) :=
  query (Resolution.meaningOf openings c)

def askType (openings : List Opening) (c : Cursor) : Rule Ty := query (Resolution.typeOf openings c)

/-! ## Lookups -/

/-- What a name means at a level: what the level declares comes before its directives. -/
def levelRule (name : String) (arity : Nat) (outer : List Opening) :
    Opening → Rule (Option NameMeaning)
  | .method m => return Level.find? s name arity (.method m)
  | .type t => return Level.find? s name arity (.type t)
  | .space ns owner? =>
    match Level.find? s name arity (.space ns {}) with
    | some found => return some found
    | none => whenSome owner? fun owner =>
      query (Resolution.imported (Opening.outside ns outer) owner name arity)

def lookupRule (name : String) (arity : Nat) : List Opening → Rule (Option NameMeaning)
  | [] => return none
  | opening :: outer => do
    match ← levelRule s name arity outer opening with
    | some found => return some found
    | none => lookupRule name arity outer

/-- The directives of a node that introduce no name and open a namespace. -/
def openingUsings (owner : Cursor) : List Cursor :=
  owner.usings.filter fun u => u.usingAlias?.isNone && !u.isStaticUsing

/-- What the target of a directive means. -/
def targetRule (outer : List Opening) (directive : Cursor) : Rule (Option NameMeaning) :=
  whenSome directive.type? (askName outer)

/-- The namespace that a name stands for. -/
def space? : Option NameMeaning → Option NamespaceId
  | some (.space ns) => some ns
  | _ => none

def importedRule (outer : List Opening) (owner : Cursor) (name : String) (arity : Nat) :
    Rule (Option NameMeaning) :=
  match if arity = 0 then owner.usings.find? fun u => u.usingAlias?.any (name == ·.text) else none with
  | some directive => targetRule outer directive
  | none => firstSome (fun directive => do
      return ((space? (← targetRule outer directive)).bind fun ns =>
        s.typeIn? (.space ns) name arity).map fun t => .type (.plain t)) (openingUsings owner)

def extensionSpacesRule : List Opening → Rule (List NamespaceId)
  | [] => return []
  | .space ns owner? :: outer => do
    let targets ← each (targetRule (Opening.outside ns outer)) ((owner?.map openingUsings).getD [])
    return ns :: targets.filterMap space? ++ (← extensionSpacesRule outer)
  | _ :: outer => extensionSpacesRule outer

/-! ## Names and types -/

def appliedRule (openings : List Opening) (arguments : Option Cursor) :
    NameMeaning → Rule NameMeaning
  | .type (.named d as) =>
    match arguments with
    | some list => do return .type (.named d (← each (askType openings) list.types))
    | none => return .type (.named d as)
  | meaning => return meaning

def memberRule (openings : List Opening) (left : NameMeaning) (name : Cursor) :
    Rule (Option NameMeaning) :=
  whenSome (name.name?.bind fun text => s.memberOf? left text name.typeArguments.length) fun found =>
    do return some (← appliedRule openings name.typeArgumentList? found)

def nameRule (openings : List Opening) (c : Cursor) : Rule (Option NameMeaning) :=
  match c.kind with
  | .identifierName => whenSome c.name? fun name => query (Resolution.lookup openings name 0)
  | .genericName => whenSome c.name? fun name => do
    whenSome (← query (Resolution.lookup openings name c.arity)) fun found =>
      do return some (← appliedRule openings c.typeArgumentList? found)
  | .qualifiedName => whenSome c.type? fun qualifier => do
    whenSome (← askName openings qualifier) fun left =>
      whenSome c.lastSegment? fun name => query (Resolution.memberOf openings left name)
  | .aliasQualifiedName =>
    whenSome ((c.child? .identifierName).bind Cursor.name?) fun spelled => do
      let left? ← (if spelled == "global" then pure (some (.space SymbolTable.global))
        else query (Resolution.lookup openings spelled 0) : Rule _)
      whenSome left? fun left =>
        whenSome c.aliasedName? fun name => query (Resolution.memberOf openings left name)
  | .predefinedType => return some (.type ((Opening.scope s openings).predefined c))
  | .arrayType | .nullableType => do return some (.type (← askType openings c))
  | _ => return none

def elementRule (openings : List Opening) (c : Cursor) : Rule Ty :=
  match c.type? with
  | some written => askType openings written
  | none => return .error c.focus.plainText

def typeRule (openings : List Opening) (c : Cursor) : Rule Ty :=
  match c.kind with
  | .predefinedType => return (Opening.scope s openings).predefined c
  | .arrayType => do
    return (c.childrenOfKind .arrayRankSpecifier).foldl (fun element rank =>
      .array element ((rank.elements.filter fun e => e.kind == .comma).length + 1))
      (← elementRule openings c)
  | .nullableType => do return .nullable (← elementRule openings c)
  | _ => do
    match ← askName openings c with
    | some (.type ty) => return ty
    | _ => return .error c.focus.plainText

/-- The rule for a question. -/
def rule : (x : Resolution) → Rule x.Answer
  | lookup openings name arity => lookupRule s name arity openings
  | imported outer owner name arity => importedRule s outer owner name arity
  | meaningOf openings c => nameRule s openings c
  | typeOf openings c => typeRule s openings c
  | memberOf openings left name => memberRule s openings left name
  | extensionSpaces openings => do
    return (← extensionSpacesRule openings).foldl
      (fun found ns => if found.contains ns then found else found ++ [ns]) []

/-! ## Results -/

section

variable {s : SymbolTable} {a : (x : Resolution) → x.Answer} {fuel : Nat} {openings outer : List Opening}
  {c : Cursor}

@[simp] theorem run_askName : (askName openings c).run a = a (.meaningOf openings c) := rfl

@[simp] theorem run_askType : (askType openings c).run a = a (.typeOf openings c) := rfl

@[simp] theorem run_appliedRule (arguments : Option Cursor) (meaning : NameMeaning) :
    (appliedRule openings arguments meaning).run a =
      Scope.applied (fun c => a (.typeOf openings c)) arguments meaning := by
  cases meaning with
  | space ns => rfl
  | type ty =>
      cases ty with
      | named d as => cases arguments <;> simp [appliedRule, Scope.applied]
      | param | array | nullable | void | null | error => rfl

theorem run_memberRule (left : NameMeaning) (name : Cursor) :
    (memberRule s openings left name).run a =
      (Opening.scope s openings).memberWith (fun c => a (.typeOf openings c)) left name := by
  rw [memberRule, run_whenSome, Scope.memberWith_eq]
  cases name.name? with
  | none => rfl
  | some text =>
      simp only [Option.bind_some, run_bind, run_appliedRule, run_pure]
      rw [Option.map_eq_bind]
      rfl

@[simp] theorem run_elementRule : (elementRule openings c).run (answersWithin s fuel) =
    (c.type?.map ((Opening.scope s openings).typeWithin fuel)).getD (.error c.focus.plainText) := by
  unfold elementRule
  cases c.type? <;> rfl

theorem run_typeRule : (typeRule s openings c).run (answersWithin s fuel) =
    (Opening.scope s openings).typeWithin (fuel + 1) c := by
  rw [Scope.typeWithin, typeRule]
  generalize c.kind = kind
  split
  · rfl
  · simp
  · simp
  · rw [run_bind, run_askName, answersWithin]
    cases (Opening.scope s openings).nameWithin fuel c with
    | none => simp
    | some meaning => cases meaning <;> simp

theorem run_nameRule : (nameRule s openings c).run (answersWithin s fuel) =
    (Opening.scope s openings).nameWithin (fuel + 1) c := by
  rw [Scope.nameWithin, nameRule]
  generalize c.kind = kind
  split
  case h_1 => simp [answersWithin, answer]
  case h_2 => simp [answersWithin, answer]
  case h_3 => simp [answersWithin]
  case h_4 =>
    rw [run_whenSome, Option.bind_assoc]
    refine Option.bind_congr fun first _ => Option.bind_congr fun spelled _ => ?_
    by_cases hglobal : spelled == "global"
    · simp [hglobal, answersWithin]
    · simp [hglobal, answersWithin, answer]
  all_goals simp [answersWithin]

end

/-! ## What the rules ask -/

/-- The levels that a question is about. -/
def openings : Resolution → List Opening
  | lookup openings _ _ | imported openings _ _ _ | meaningOf openings _ | typeOf openings _ |
    memberOf openings _ _ | extensionSpaces openings => openings

/-- A type that is not itself a name. -/
def isCompound (c : Cursor) : Bool := c.kind == .arrayType || c.kind == .nullableType

/-- The steps that the answer to a question takes at most, as long as the levels stay the same. A
name is taken for a type in one step more, and a compound type for a name. -/
def steps : Resolution → Nat
  | lookup .. | extensionSpaces .. => 0
  | imported _ owner _ _ => 2 * owner.focus.depth
  | meaningOf _ c => 2 * c.focus.depth + if isCompound c then 2 else 1
  | typeOf _ c => 2 * c.focus.depth + if isCompound c then 1 else 2
  | memberOf _ _ name => 2 * name.focus.depth

/-- The steps to the targets of all directives of levels. -/
def directiveSteps : List Opening → Nat
  | [] => 0
  | .space _ (some owner) :: outer => 2 * owner.focus.depth + 1 + directiveSteps outer
  | _ :: outer => directiveSteps outer

theorem directiveSteps_le (opening : Opening) (outer : List Opening) :
    directiveSteps outer ≤ directiveSteps (opening :: outer) := by
  cases opening with
  | method m => exact Nat.le_refl _
  | type t => exact Nat.le_refl _
  | space ns owner? =>
      cases owner? with
      | none => exact Nat.le_refl _
      | some owner => exact Nat.le_add_left _ _

/-- The steps that the answer to a question takes at most. -/
def rank (x : Resolution) : Nat := directiveSteps x.openings + x.steps

/-- A question about the same levels that takes fewer steps than a bound. -/
structure Within (levels : List Opening) (bound : Nat) (x : Resolution) : Prop where
  openings_eq : x.openings = levels
  steps_lt : x.steps < bound

theorem steps_meaningOf_le (levels : List Opening) (c : Cursor) :
    (meaningOf levels c).steps ≤ 2 * c.focus.depth + 2 := by
  rw [steps]
  split <;> omega

theorem steps_typeOf_le (levels : List Opening) (c : Cursor) :
    (typeOf levels c).steps ≤ 2 * c.focus.depth + 2 := by
  rw [steps]
  split <;> omega

theorem lt_steps_meaningOf (levels : List Opening) (c : Cursor) :
    2 * c.focus.depth < (meaningOf levels c).steps := by
  rw [steps]
  split <;> omega

theorem lt_steps_typeOf (levels : List Opening) (c : Cursor) :
    2 * c.focus.depth < (typeOf levels c).steps := by
  rw [steps]
  split <;> omega

section

variable {s : SymbolTable} {levels outer : List Opening} {c name : Cursor} {P : Resolution → Prop}

theorem asksOnly_askName (h : P (.meaningOf levels c)) : (askName levels c).AsksOnly P :=
  asksOnly_query h

theorem asksOnly_askType (h : P (.typeOf levels c)) : (askType levels c).AsksOnly P :=
  asksOnly_query h

/-- A part of a name or type takes fewer steps. -/
theorem within_typeOf {e : Cursor} (he : e ∈ c.children) {bound : Nat}
    (hbound : 2 * c.focus.depth < bound) : Within levels bound (.typeOf levels e) := by
  have hdepth := depth_lt_of_mem_children he
  have hsteps := steps_typeOf_le levels e
  exact ⟨rfl, by omega⟩

theorem within_meaningOf {e : Cursor} (he : e ∈ c.children) {bound : Nat}
    (hbound : 2 * c.focus.depth < bound) : Within levels bound (.meaningOf levels e) := by
  have hdepth := depth_lt_of_mem_children he
  have hsteps := steps_meaningOf_le levels e
  exact ⟨rfl, by omega⟩

theorem asksOnly_appliedRule {bound : Nat} (hbound : 2 * c.focus.depth ≤ bound)
    (meaning : NameMeaning) :
    (appliedRule levels c.typeArgumentList? meaning).AsksOnly (Within levels bound) := by
  unfold appliedRule
  split
  · split
    · next list hlist =>
      refine (asksOnly_each fun written hwritten => ?_).bind fun _ => trivial
      have hdepth := depth_lt_of_mem_children (mem_children_of_child? hlist).1
      exact asksOnly_askType (within_typeOf (mem_children_of_mem_childrenOf hwritten).1 (by omega))
    · trivial
  · trivial

theorem asksOnly_memberRule (left : NameMeaning) :
    (memberRule s levels left name).AsksOnly (Within levels (memberOf levels left name).steps) :=
  asksOnly_whenSome fun found _ =>
    (asksOnly_appliedRule (Nat.le_refl _) found).bind fun _ => trivial

theorem asksOnly_nameRule :
    (nameRule s levels c).AsksOnly (Within levels (meaningOf levels c).steps) := by
  have hsteps := lt_steps_meaningOf levels c
  have hlookup (text : String) (arity : Nat) :
      Within levels (meaningOf levels c).steps (.lookup levels text arity) :=
    ⟨rfl, Nat.zero_lt_of_lt hsteps⟩
  have hmember (left : NameMeaning) {name : Cursor} (hname : name ∈ c.children) :
      Within levels (meaningOf levels c).steps (.memberOf levels left name) := by
    have hdepth := depth_lt_of_mem_children hname
    exact ⟨rfl, by simp only [steps] at hsteps ⊢; omega⟩
  unfold nameRule
  split
  · exact asksOnly_whenSome fun name _ => asksOnly_query (hlookup name 0)
  · apply asksOnly_whenSome
    intro name _
    refine (asksOnly_query (hlookup name _)).bind fun found => ?_
    apply asksOnly_whenSome
    intro meaning _
    exact (asksOnly_appliedRule (Nat.le_of_lt hsteps) meaning).bind fun _ => trivial
  · apply asksOnly_whenSome
    intro qualifier hqualifier
    have hmem := (mem_children_of_childOf? hqualifier).1
    refine (asksOnly_askName (within_meaningOf hmem hsteps)).bind fun left? => ?_
    apply asksOnly_whenSome
    intro left _
    apply asksOnly_whenSome
    intro name hname
    have hmem := (mem_children_of_mem_childrenOf (List.mem_of_getLast? hname)).1
    exact asksOnly_query (hmember left hmem)
  · apply asksOnly_whenSome
    intro spelled _
    refine AsksOnly.bind ?_ fun left? => ?_
    · split
      · trivial
      · exact asksOnly_query (hlookup spelled 0)
    · apply asksOnly_whenSome
      intro left _
      apply asksOnly_whenSome
      intro name hname
      have hmem := (mem_children_of_mem_childrenOf (List.mem_of_getElem? hname)).1
      exact asksOnly_query (hmember left hmem)
  · trivial
  · next hkind =>
    refine (asksOnly_askType ⟨rfl, ?_⟩).bind fun _ => trivial
    simp [steps, isCompound, hkind]
  · next hkind =>
    refine (asksOnly_askType ⟨rfl, ?_⟩).bind fun _ => trivial
    simp [steps, isCompound, hkind]
  · trivial

theorem asksOnly_typeRule :
    (typeRule s levels c).AsksOnly (Within levels (typeOf levels c).steps) := by
  have helement : (elementRule levels c).AsksOnly (Within levels (typeOf levels c).steps) := by
    unfold elementRule
    split
    · next written hwritten =>
      have hmem := (mem_children_of_childOf? hwritten).1
      exact asksOnly_askType (within_typeOf hmem (lt_steps_typeOf levels c))
    · trivial
  unfold typeRule
  split
  · trivial
  · exact helement.bind fun _ => trivial
  · exact helement.bind fun _ => trivial
  · next hpredefined harray hnullable =>
    refine (asksOnly_askName ⟨rfl, ?_⟩).bind fun found => by split <;> trivial
    have hplain : isCompound c = false := by
      rw [isCompound, Bool.or_eq_false_iff]
      exact ⟨beq_eq_false_iff_ne.mpr harray, beq_eq_false_iff_ne.mpr hnullable⟩
    simp [steps, hplain]

/-! ### Directives -/

/-- The target of a directive takes fewer steps than the directives of its node. -/
theorem asksOnly_targetRule {owner directive : Cursor} (hmem : directive ∈ owner.children) :
    (targetRule levels directive).AsksOnly (Within levels (2 * owner.focus.depth)) := by
  apply asksOnly_whenSome
  intro target htarget
  have hdepth := depth_lt_of_mem_children hmem
  exact asksOnly_askName (within_meaningOf (mem_children_of_childOf? htarget).1 (by omega))

theorem mem_children_of_mem_openingUsings {owner directive : Cursor}
    (h : directive ∈ openingUsings owner) : directive ∈ owner.children :=
  (mem_children_of_mem_childrenOfKind (List.mem_of_mem_filter h)).1

theorem asksOnly_importedRule {owner : Cursor} {text : String} {arity : Nat} :
    (importedRule s levels owner text arity).AsksOnly
      (Within levels (imported levels owner text arity).steps) := by
  unfold importedRule
  split
  · next directive hfound =>
    split at hfound
    · exact asksOnly_targetRule
        (mem_children_of_mem_childrenOfKind (List.mem_of_find?_eq_some hfound)).1
    · cases hfound
  · apply asksOnly_firstSome
    intro directive hdirective
    exact (asksOnly_targetRule (mem_children_of_mem_openingUsings hdirective)).bind fun _ => trivial

/-- A lookup comes to the directives of its levels. -/
theorem asksOnly_lookupRule {text : String} {arity : Nat} :
    (lookupRule s text arity levels).AsksOnly fun y => y.rank < directiveSteps levels := by
  induction levels with
  | nil => trivial
  | cons opening outer ih =>
      refine AsksOnly.bind ?_ fun found => ?_
      · unfold levelRule
        split
        · trivial
        · trivial
        · split
          · trivial
          · apply asksOnly_whenSome
            intro owner howner
            refine asksOnly_query ?_
            simp only [howner, rank, openings, Opening.outside, directiveSteps, steps]
            omega
      · split
        · trivial
        · exact ih.mono fun _ hy => Nat.lt_of_lt_of_le hy (directiveSteps_le opening outer)

theorem asksOnly_extensionSpacesRule :
    (extensionSpacesRule levels).AsksOnly fun y => y.rank < directiveSteps levels := by
  induction levels with
  | nil => trivial
  | cons opening outer ih =>
      have hrest := ih.mono fun _ hy => Nat.lt_of_lt_of_le hy (directiveSteps_le opening outer)
      cases opening with
      | method m => exact hrest
      | type t => exact hrest
      | space ns owner? =>
          refine AsksOnly.bind (asksOnly_each fun directive hdirective => ?_) fun targets => ?_
          · cases owner? with
            | none => cases hdirective
            | some owner =>
                refine (asksOnly_targetRule (mem_children_of_mem_openingUsings hdirective)).mono
                  fun y hy => ?_
                have hsteps := hy.steps_lt
                simp only [rank, hy.openings_eq, Opening.outside, directiveSteps]
                omega
          · exact hrest.bind fun _ => trivial

/-- **Each rule asks for what takes fewer steps.** A written name leads to its parts and to lookups,
and a lookup to the targets of directives, which are resolved in the levels outside them. -/
theorem asksOnly_rule (x : Resolution) : (rule s x).AsksOnly fun y => y.rank < x.rank := by
  have written {p : Rule x.Answer} (h : p.AsksOnly (Within x.openings x.steps)) :
      p.AsksOnly fun y => y.rank < x.rank := by
    refine h.mono fun y hy => ?_
    rw [rank, rank, hy.openings_eq]
    exact Nat.add_lt_add_left hy.steps_lt _
  cases x with
  | lookup levels text arity => exact asksOnly_lookupRule
  | imported outer owner text arity => exact written asksOnly_importedRule
  | meaningOf levels c => exact written asksOnly_nameRule
  | typeOf levels c => exact written asksOnly_typeRule
  | memberOf levels left name => exact written (asksOnly_memberRule left)
  | extensionSpaces levels => exact asksOnly_extensionSpacesRule.bind fun _ => trivial

end

end Resolution

end CSharpKit.Semantics
