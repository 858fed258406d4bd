import CSharpKit.Proofs.Semantics.Consistency
import CSharpKit.Proofs.Semantics.Overloads
import CSharpKit.Proofs.Semantics.ResolutionRules

/-!
# Resolution ends

A lookup that comes to the directives of a level goes on with their targets, in the levels outside
without these directives. So each directive is used up on the way, an alias never sees itself or
its neighbours, and between two directives a written name is only taken apart. The steps that are
left, in the names and in the directives of the levels, bound the number of nested calls. With
more calls nothing changes, and the answers are those in a scope whose directives are resolved
from the outside in.
-/

namespace CSharpKit.Semantics

open Syntax Workspace Cursor Procedure Model

namespace Level

/-- The directives of a level come after what it declares. -/
theorem find?_space (s : SymbolTable) (name : String) (arity : Nat) (ns : NamespaceId)
    (imports : Imports) : Level.find? s name arity (.space ns imports) =
      (Level.find? s name arity (.space ns {})).or (imports.find? s name arity) := by
  simp only [Level.find?]
  cases s.typeIn? (.space ns) name arity with
  | some t => rfl
  | none =>
      simp only
      split
      · rfl
      · simp [Imports.find?]

end Level

namespace Resolution

variable {s : SymbolTable}

/-! ## Written names -/

/-- **More fuel changes no answer.** As many steps as a question takes are enough for its answer. -/
theorem answersWithin_eq {x : Resolution} {fuel : Nat} (hfuel : x.steps < fuel) :
    answersWithin s fuel x = answer s x := by
  induction hn : x.steps using Nat.strongRecOn generalizing x fuel with
  | ind n ih =>
      subst hn
      have agree {levels : List Opening} {f f' : Nat} (hf : x.steps ≤ f) (hf' : x.steps ≤ f')
          (y : Resolution) (hy : Within levels x.steps y) :
          answersWithin s f y = answersWithin s f' y :=
        (ih _ hy.steps_lt (Nat.lt_of_lt_of_le hy.steps_lt hf) rfl).trans
          (ih _ hy.steps_lt (Nat.lt_of_lt_of_le hy.steps_lt hf') rfl).symm
      cases x with
      | lookup | imported | extensionSpaces => rfl
      | meaningOf levels c =>
          have hsteps := steps_meaningOf_le levels c
          obtain ⟨fuel, rfl⟩ : ∃ n, fuel = n + 1 := ⟨fuel - 1, by omega⟩
          calc (Opening.scope s levels).nameWithin (fuel + 1) c
              = (nameRule s levels c).run (answersWithin s fuel) := run_nameRule.symm
            _ = (nameRule s levels c).run (answersWithin s (2 * c.focus.depth + 2)) :=
                asksOnly_nameRule.run_congr (agree (Nat.le_of_lt_succ hfuel) hsteps)
            _ = (Opening.scope s levels).resolveName c := run_nameRule
      | typeOf levels c =>
          have hsteps := steps_typeOf_le levels c
          obtain ⟨fuel, rfl⟩ : ∃ n, fuel = n + 1 := ⟨fuel - 1, by omega⟩
          calc (Opening.scope s levels).typeWithin (fuel + 1) c
              = (typeRule s levels c).run (answersWithin s fuel) := run_typeRule.symm
            _ = (typeRule s levels c).run (answersWithin s (2 * c.focus.depth + 2)) :=
                asksOnly_typeRule.run_congr (agree (Nat.le_of_lt_succ hfuel) hsteps)
            _ = (Opening.scope s levels).resolveType c := run_typeRule
      | memberOf levels left name =>
          have hwithin : (memberRule s levels left name).run (answersWithin s fuel) =
              answersWithin s fuel (.memberOf levels left name) := by
            simp only [run_memberRule, answersWithin]
          have hanswer : (memberRule s levels left name).run (answer s) =
              answer s (.memberOf levels left name) := by
            simp only [run_memberRule, answer, Scope.member]
          rw [← hwithin, ← hanswer]
          exact (asksOnly_memberRule left).run_congr fun y hy =>
            ih _ hy.steps_lt (hy.steps_lt.trans hfuel) rfl

/-! ## Lookups -/

theorem run_targetRule {outer : List Opening} {directive : Cursor} :
    (targetRule outer directive).run (answer s) =
      directive.type?.bind (Opening.scope s outer).resolveName := run_whenSome _ _

/-- The directive that introduces a name is the first that writes it. -/
theorem lookup_aliases {outer : Scope} {owner : Cursor} {name : String} :
    (Scope.importsOf outer owner).aliases.lookup name =
      (owner.usings.find? fun u => u.usingAlias?.any (name == ·.text)).map fun u =>
        u.type?.bind outer.resolveName := by
  rw [Scope.importsOf]
  induction owner.usings with
  | nil => rfl
  | cons u usings ih =>
      simp only [List.filterMap_cons, List.find?_cons]
      cases u.usingAlias? with
      | none => exact ih
      | some token =>
          simp only [Option.map_some, List.lookup_cons, Option.any_some]
          cases name == token.text with
          | true => rfl
          | false => exact ih

theorem importsOf_spaces (outer : Scope) (owner : Cursor) :
    (Scope.importsOf outer owner).spaces =
      (openingUsings owner).filterMap fun u => space? (u.type?.bind outer.resolveName) := rfl

/-- The directives of a node are asked in turn for what they bring in. -/
theorem run_importedRule {outer : List Opening} {owner : Cursor} {name : String} {arity : Nat} :
    (importedRule s outer owner name arity).run (answer s) =
      answer s (.imported outer owner name arity) := by
  have halias : (if arity = 0 then
      (Scope.importsOf (Opening.scope s outer) owner).aliases.lookup name else none) =
      (if arity = 0 then owner.usings.find? fun u => u.usingAlias?.any (name == ·.text)
        else none).map fun u => u.type?.bind (Opening.scope s outer).resolveName := by
    split
    · exact lookup_aliases
    · rfl
  rw [importedRule, answer, Imports.find?, halias]
  cases if arity = 0 then owner.usings.find? fun u => u.usingAlias?.any (name == ·.text) else none with
  | some directive => exact run_targetRule
  | none =>
      rw [importsOf_spaces, ← List.head?_filterMap, List.filterMap_filterMap, List.head?_filterMap,
        List.map_findSome?]
      simp only [Option.map_none, run_firstSome, run_bind, run_targetRule, run_pure]
      rfl

theorem run_levelRule {outer : List Opening} {opening : Opening} {name : String} {arity : Nat} :
    (levelRule s name arity outer opening).run (answer s) =
      Level.find? s name arity (opening.level s (Opening.opened s outer)) := by
  cases opening with
  | method m => rfl
  | type t => rfl
  | space ns owner? =>
      rw [Opening.level, Level.find?_space, levelRule]
      cases Level.find? s name arity (.space ns {}) with
      | some found => rfl
      | none =>
          simp only [run_whenSome, run_query, Option.none_or]
          cases owner? with
          | none => simp [Imports.find?]
          | some owner => rfl

theorem run_lookupRule {levels : List Opening} {name : String} {arity : Nat} :
    (lookupRule s name arity levels).run (answer s) =
      (Opening.scope s levels).lookup name arity := by
  induction levels with
  | nil => rfl
  | cons opening outer ih =>
      rw [lookupRule, run_bind, run_levelRule, Scope.lookup, Opening.scope, Opening.opened,
        List.findSome?_cons]
      cases Level.find? s name arity (opening.level s (Opening.opened s outer)) with
      | some found => rfl
      | none => exact ih

theorem run_extensionSpacesRule {levels : List Opening} :
    (extensionSpacesRule levels).run (answer s) = (Opening.opened s levels).flatMap fun
      | .space ns imports => ns :: imports.spaces
      | _ => [] := by
  induction levels with
  | nil => rfl
  | cons opening outer ih =>
      rw [Opening.opened, List.flatMap_cons, ← ih]
      cases opening with
      | method m => rfl
      | type t => rfl
      | space ns owner? =>
          simp only [extensionSpacesRule, run_bind, run_each, run_targetRule, run_pure,
            List.filterMap_map, Opening.level]
          cases owner? with
          | none => rfl
          | some owner => rfl

/-- The rules give the answers that are found with all directives resolved. -/
theorem run_rule (x : Resolution) : (rule s x).run (answer s) = answer s x := by
  cases x with
  | lookup levels name arity => exact run_lookupRule
  | imported outer owner name arity => exact run_importedRule
  | meaningOf levels c =>
      have hsteps := steps_meaningOf_le levels c
      calc (nameRule s levels c).run (answer s)
          = (nameRule s levels c).run (answersWithin s (2 * c.focus.depth + 2)) :=
            asksOnly_nameRule.run_congr fun y hy =>
              (answersWithin_eq (Nat.lt_of_lt_of_le hy.steps_lt hsteps)).symm
        _ = answer s (.meaningOf levels c) := run_nameRule
  | typeOf levels c =>
      have hsteps := steps_typeOf_le levels c
      calc (typeRule s levels c).run (answer s)
          = (typeRule s levels c).run (answersWithin s (2 * c.focus.depth + 2)) :=
            asksOnly_typeRule.run_congr fun y hy =>
              (answersWithin_eq (Nat.lt_of_lt_of_le hy.steps_lt hsteps)).symm
        _ = answer s (.typeOf levels c) := run_typeRule
  | memberOf levels left name => simp only [rule, run_memberRule, answer, Scope.member]
  | extensionSpaces levels => simp only [rule, run_bind, run_extensionSpacesRule]; rfl

end Resolution

/-! ## Scopes in the sources -/

namespace Opening

/-- A level without its directives. -/
def bare : Level → Opening
  | .method m => .method m
  | .type t => .type t
  | .space ns _ => .space ns none

variable (s : SymbolTable)

/-- Namespaces, given from the inside out, each with the node that holds its directives. -/
def ofSpaces : List (NamespaceId × Option Cursor) → List Opening
  | [] => []
  | (ns, owner?) :: outer =>
    .space ns owner? ::
      ((Scope.parentLevels s (outer.head?.map (·.1)) s.namespaces.size ns).map bare ++
        ofSpaces outer)

/-- The levels around a node, the innermost first. -/
def at_ (document : DocumentId) (c : Cursor) : List Opening :=
  let around := c.ancestors
  let unit := (around.filter fun a => a.kind == .compilationUnit).getLast?
  let spaces := around.filterMap (Scope.declaredSpace? s document) ++ [(SymbolTable.global, unit)]
  (around.filterMap (Scope.declaredLevel? s document)).map bare ++ ofSpaces s spaces

variable {s}

/-- Levels that bring in nothing are as they are. -/
theorem opened_append {levels : List Level} {openings : List Opening}
    (h : ∀ level ∈ levels, ∀ outer, (bare level).level s outer = level) :
    opened s (levels.map bare ++ openings) = levels ++ opened s openings := by
  induction levels with
  | nil => rfl
  | cons level levels ih =>
      obtain ⟨hlevel, hlevels⟩ := List.forall_mem_cons.mp h
      rw [List.map_cons, List.cons_append, opened, hlevel, ih hlevels, List.cons_append]

theorem level_bare_of_mem_parentLevels {stop : Option NamespaceId} {fuel : Nat} {ns : NamespaceId}
    {level : Level} (h : level ∈ Scope.parentLevels s stop fuel ns) (outer : List Level) :
    (bare level).level s outer = level := by
  induction fuel generalizing ns with
  | zero => cases h
  | succ fuel ih =>
      rw [Scope.parentLevels] at h
      split at h
      · cases h
      · split at h
        · cases h
        · rcases List.mem_cons.mp h with rfl | h
          · rfl
          · exact ih h

theorem opened_ofSpaces (spaces : List (NamespaceId × Option Cursor)) :
    opened s (ofSpaces s spaces) = Scope.openSpaces s spaces := by
  induction spaces with
  | nil => rfl
  | cons space outer ih =>
      obtain ⟨ns, owner?⟩ := space
      rw [ofSpaces, opened, opened_append fun level hlevel => level_bare_of_mem_parentLevels hlevel,
        ih]
      rfl

/-- The scope at a node is that of the levels around it. -/
theorem scope_at (document : DocumentId) (c : Cursor) :
    scope s (at_ s document c) = Scope.at_ s document c := by
  have hlevels : ∀ level ∈ c.ancestors.filterMap (Scope.declaredLevel? s document),
      ∀ outer, (bare level).level s outer = level := by
    intro level hlevel outer
    obtain ⟨around, -, hdeclared⟩ := List.mem_filterMap.mp hlevel
    rcases Scope.declaredLevel?_eq_some hdeclared with ⟨m, -, rfl⟩ | ⟨t, -, rfl⟩
    · rfl
    · rfl
  rw [scope, at_, opened_append hlevels, opened_ofSpaces]
  rfl

end Opening

/-- The row of namespaces around one comes to its end. -/
theorem SymbolTable.Closed.parentLevels_eq {s : SymbolTable} (h : s.Closed)
    {stop : Option NamespaceId} {ns : NamespaceId} (hns : ns.num < s.namespaces.size) {fuel : Nat}
    (hfuel : ns.num < fuel) :
    Scope.parentLevels s stop fuel ns = Scope.parentLevels s stop s.namespaces.size ns := by
  have hagree (n : Nat) : ∀ fuel fuel' (ns : NamespaceId), ns.num < s.namespaces.size →
      ns.num < n → n ≤ fuel → n ≤ fuel' →
      Scope.parentLevels s stop fuel ns = Scope.parentLevels s stop fuel' ns := by
    induction n with
    | zero => exact fun _ _ _ _ hlt => absurd hlt (Nat.not_lt_zero _)
    | succ n ih =>
        intro fuel fuel' ns hns hlt hfuel hfuel'
        obtain ⟨fuel, rfl⟩ : ∃ k, fuel = k + 1 := ⟨fuel - 1, by omega⟩
        obtain ⟨fuel', rfl⟩ : ∃ k, fuel' = k + 1 := ⟨fuel' - 1, by omega⟩
        rw [Scope.parentLevels, Scope.parentLevels]
        have hordered := h.ordered hns
        cases hparent : (s.space ns).parent? with
        | none => rfl
        | some parent =>
            rw [NamespaceInfo.Ordered, hparent] at hordered
            simp only at hordered
            simp only [ih fuel fuel' parent (by omega) (by omega) (by omega) (by omega)]
  exact hagree (ns.num + 1) _ _ ns hns (Nat.lt_succ_self _) hfuel hns

namespace Resolution

/-- **Resolution ends.** Take any levels of a scope, with any `using` directives on them, and any
written name or type. No chain of questions on the way to its meaning goes on for ever or comes
back to a question of its own, whatever the answers are: also if aliases name themselves or each
other, if directives stand on several levels, or if an alias stands for a generic type. As many
nested calls as the rank of a question counts give its answer, and it is the one in the scope
whose directives are resolved level by level. The scope at each node of the sources is such a
scope, and the rows of namespaces in it are complete. -/
theorem resolution_ends (s : SymbolTable) :
    (∀ x, (rule s x).run (answer s) = answer s x) ∧
    (∀ x, Ends (rule s) x ∧ ¬Relation.TransGen (Calls (rule s)) x x ∧
      ∀ fuel, x.rank < fuel → answerWithin (rule s) fuel x = some (answer s x)) ∧
    (∀ document c, Opening.scope s (Opening.at_ s document c) = Scope.at_ s document c) ∧
    (s.Closed → ∀ stop ns, ns.num < s.namespaces.size → ∀ fuel, ns.num < fuel →
      Scope.parentLevels s stop fuel ns = Scope.parentLevels s stop s.namespaces.size ns) := by
  have hlower (x : Resolution) (_ : True) : (rule s x).AsksOnly fun y => True ∧ y.rank < x.rank :=
    (asksOnly_rule x).mono fun _ hy => ⟨trivial, hy⟩
  refine ⟨run_rule, fun x => ?_, Opening.scope_at, fun hclosed stop ns hns fuel hfuel =>
    hclosed.parentLevels_eq hns hfuel⟩
  have hends : Ends (rule s) x := ends_of_rank rank hlower trivial
  exact ⟨hends, hends.not_transGen, fun fuel hfuel =>
    answerWithin_eq_some rank hlower (fun x _ => run_rule x) trivial hfuel⟩

/-- A project with one document, in which aliases stand for themselves and for each other, on two
levels and with a generic type. -/
def aliasProject : Project :=
  Project.empty.append (Document.read 0 "alias.cs"
    "using A = A; using B = C; using C = B; using F = System.Func<A>; namespace N.M { using B = F; class X { A a; B b; C c; } }" 0)
    rfl

/-- What stands for itself is unknown. The inner `B` is a `Func<A>`. -/
theorem names_aliasProject :
    (∃ c ∈ nodesIn aliasProject .identifierName, c.name? = some "A" ∧
      (typeOf (Opening.at_ (ofFirst aliasProject).table 0 c) c).rank < 29 ∧
      (Scope.at_ (ofFirst aliasProject).table 0 c).resolveType c = .error "A") ∧
    (∃ c ∈ nodesIn aliasProject .identifierName, c.name? = some "B" ∧
      (typeOf (Opening.at_ (ofFirst aliasProject).table 0 c) c).rank < 29 ∧
      (Scope.at_ (ofFirst aliasProject).table 0 c).resolveType c = .named ⟨35⟩ [.error "A"]) ∧
    6 < (ofFirst aliasProject).table.namespaces.size := by
  rw [← Project.quick_eq aliasProject]
  decide +kernel

theorem resolution_ends_aliases :
    (∃ c ∈ nodesIn aliasProject .identifierName, ∃ levels, c.name? = some "A" ∧
      ¬Relation.TransGen (Calls (rule (ofFirst aliasProject).table)) (.typeOf levels c)
        (.typeOf levels c) ∧
      answerWithin (rule (ofFirst aliasProject).table) 29 (.typeOf levels c) =
        some (Ty.error "A")) ∧
    (∃ c ∈ nodesIn aliasProject .identifierName, ∃ levels, c.name? = some "B" ∧
      Ends (rule (ofFirst aliasProject).table) (.typeOf levels c) ∧
      answerWithin (rule (ofFirst aliasProject).table) 29 (.typeOf levels c) =
        some (Ty.named ⟨35⟩ [.error "A"])) ∧
    Scope.parentLevels (ofFirst aliasProject).table none 7 ⟨6⟩ =
      Scope.parentLevels (ofFirst aliasProject).table none
        (ofFirst aliasProject).table.namespaces.size ⟨6⟩ := by
  obtain ⟨⟨a, ha, haname, harank, haty⟩, ⟨b, hb, hbname, hbrank, hbty⟩, hsize⟩ := names_aliasProject
  obtain ⟨-, hends, hscope, hparents⟩ := resolution_ends (ofFirst aliasProject).table
  obtain ⟨-, hcycle, hanswer⟩ := hends (.typeOf (Opening.at_ (ofFirst aliasProject).table 0 a) a)
  obtain ⟨hend, -, hanswer'⟩ := hends (.typeOf (Opening.at_ (ofFirst aliasProject).table 0 b) b)
  refine ⟨⟨a, ha, _, haname, hcycle, ?_⟩, ⟨b, hb, _, hbname, hend, ?_⟩, ?_⟩
  · rw [hanswer 29 harank, answer, hscope, haty]
  · rw [hanswer' 29 hbrank, answer, hscope, hbty]
  · exact hparents (closed_ofProject aliasProject) none ⟨6⟩ hsize 7 (by decide)

end Resolution

end CSharpKit.Semantics
