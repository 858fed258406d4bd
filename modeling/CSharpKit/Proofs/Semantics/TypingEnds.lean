import CSharpKit.Proofs.Semantics.BaseChains
import CSharpKit.Proofs.Semantics.Overloads
import CSharpKit.Proofs.Semantics.Questions

/-!
# Typing ends

A use of a variable leads to its value, which may stand anywhere before the use, and which may use
other variables. A rule never asks for what the walk from the bottom up has yet to leave. So
all chains of questions about a document end, also in a document with parse errors, and one
number, which is found by counting the elements of the document, bounds their lengths. The other
loops on the way to a type end too: the row of base classes of a type stops at the first type that
it already has, and all parentheses are taken off an expression.
-/

namespace CSharpKit.Semantics

open Syntax Workspace Cursor Procedure Question

/-! ## Parentheses -/

/-- As many steps as the tree is deep take off all parentheses that have an expression in them. -/
theorem expression?_unparenthesized {c : Cursor}
    (h : c.unparenthesized.kind = .parenthesizedExpression) :
    c.unparenthesized.expression? = none := by
  have hunwrap (fuel : Nat) (c : Cursor) (hfuel : c.focus.depth ≤ fuel)
      (hkind : (unwrapParens fuel c).kind = .parenthesizedExpression) :
      (unwrapParens fuel c).expression? = none := by
    induction fuel generalizing c with
    | zero =>
        rw [unwrapParens]
        refine Option.eq_none_iff_forall_not_mem.mpr fun inner hinner => ?_
        have := depth_lt_of_mem_children (mem_children_of_childOf? hinner).1
        omega
    | succ fuel ih =>
        rw [unwrapParens] at hkind ⊢
        split at hkind
        · next hparens =>
          rw [if_pos hparens]
          cases hinner : c.expression? with
          | none => exact hinner
          | some inner =>
              rw [hinner] at hkind
              have := depth_lt_of_mem_children (mem_children_of_childOf? hinner).1
              exact ih inner (by omega) hkind
        · next hparens => exact absurd (beq_iff_eq.mpr hkind) hparens
  exact hunwrap _ _ (Nat.le_refl _) h

namespace Model

/-! ## Questions about a document -/

section

variable {m : Model} {text : String} {t : Tree} {x : Question}

/-- The answers about an element are the same from the top of its tree. -/
theorem answer_queries (hx : Below (.root t) x.place) :
    (m.queries (.root t)).answer x = Queries.answer ⟨m.typeOf?, m.symbolOf?⟩ x := by
  have hqueries : m.queries (.root t) = m.queries x.place := queries_eq hx (Below.refl _)
  rw [hqueries]
  cases x with
  | typeOf c => simp only [Queries.answer_typeOf, place, typeOf?]
  | symbolOf c => simp only [Queries.answer_symbolOf, place, symbolOf?]

/-- The answers about a file are those that the rules give from them. -/
theorem run_rule_queries (hfile : IsFile text t) (hx : Below (.root t) x.place) :
    (m.rule x).run (m.queries (.root t)).answer = (m.queries (.root t)).answer x := by
  have hqueries : m.queries (.root t) = m.queries x.place := queries_eq hx (Below.refl _)
  rw [answer_queries hx, run_rule, hqueries]
  cases x with
  | typeOf c => exact (typeOf?_eq hfile hx).symm
  | symbolOf c => exact (symbolOf?_eq hfile hx).symm

/-- What the rule for a question about a file may ask is about the file and ranks lower. -/
theorem asksOnly_rule_of_isFile (hfile : IsFile text t) (hx : Below (.root t) x.place) :
    (m.rule x).AsksOnly fun y => Below (.root t) y.place ∧ y.rank < x.rank :=
  (asksOnly_rule hx fun _ hd _ => hfile.width_pos_of_name hd).mono fun _ hy =>
    ⟨hy.below, hy.rank_lt⟩

theorem rank_lt_chainLength (hx : Below (.root t) x.place) : x.rank < chainLength x.place := by
  have hle := walkRank_le_length hx
  cases x with
  | typeOf c | symbolOf c =>
      simp only [place] at hle
      simp only [rank, place, chainLength]
      omega

end

/-- **Typing ends.** The types and symbols of expressions are found by rules that ask for those of
other expressions. In a document of a project, with parse errors or without, no chain of such
questions goes on for ever or comes back to a question of its own, whatever the answers are. As
many nested calls as `chainLength` counts give the answer to each question, so none is given up
for want of calls. The row of base classes of a type has no type twice and leaves no base class
out, and all parentheses with an expression in them are taken off. -/
theorem typing_ends (project : Project) (doc : Document) (m : Model)
    (hm : m = ⟨.ofProject project, doc.id⟩) :
    (∀ q x, (m.rule x).run q.answer = Queries.answer ⟨m.typeOfWith q, m.symbolOfWith q⟩ x) ∧
    (∀ x : Question, Below doc.root x.place →
      Ends m.rule x ∧ ¬Relation.TransGen (Calls m.rule) x x ∧
      ∀ fuel, chainLength x.place ≤ fuel →
        answerWithin m.rule fuel x = some (Queries.answer ⟨m.typeOf?, m.symbolOf?⟩ x)) ∧
    (∀ t ∈ m.table.typeIds, (m.table.baseChain t).Nodup ∧
      ∀ b ∈ m.table.baseChain t, ∀ c, m.table.classBase? b = some c → c ∈ m.table.baseChain t) ∧
    ∀ c : Cursor, c.unparenthesized.kind = .parenthesizedExpression →
      c.unparenthesized.expression? = none := by
  have hfile := isFile_tree doc
  refine ⟨fun _ => run_rule, fun x hx => ?_, fun t ht => ⟨?_, fun b hb c hc => ?_⟩,
    fun _ => expression?_unparenthesized⟩
  · have hends : Ends m.rule x :=
      ends_of_rank rank (fun _ hy => asksOnly_rule_of_isFile hfile hy) hx
    refine ⟨hends, hends.not_transGen, fun fuel hfuel => ?_⟩
    rw [← answer_queries hx]
    exact answerWithin_eq_some rank (fun _ hy => asksOnly_rule_of_isFile hfile hy)
      (fun _ hy => run_rule_queries hfile hy) hx ((rank_lt_chainLength hx).trans_le hfuel)
  · exact SymbolTable.nodup_baseChain t
  · subst hm
    exact (closed_ofProject project).mem_baseChain (SymbolTable.mem_typeIds.mp ht) hb hc

/-- A project with one document, in which variables stand in their own values, a loop runs over its
own variable and classes derive from each other. The loop in the middle lacks its end. -/
def circularProject : Project :=
  Project.empty.append (Document.read 0 "circular.cs"
    "class A : B \x7b void M(A[] p) \x7b var x = x; foreach (var y in y.z) foreach (var p in p) foreach (var p in p) \x7b var a = b; var b = a; var w = p; \x7d \x7d class B : A \x7b" 0)
    rfl

/-- The document has parse errors. The variable `x` is not known in its own value, and the loop at
the end runs over an `A`, the variable of the loop around it. Each class derives from the other. -/
theorem names_circularProject :
    (∃ doc ∈ circularProject.documents, doc.id = 0 ∧ doc.errors ≠ [] ∧
      (∃ e ∈ doc.root.nodes, e.name? = some "x" ∧ (ofFirst circularProject).typeOf? e = none) ∧
      ∃ e ∈ doc.root.nodes, e.name? = some "p" ∧
        (ofFirst circularProject).typeOf? e = some (.named ⟨60⟩ [])) ∧
    (ofFirst circularProject).table.baseChain ⟨60⟩ = [⟨60⟩, ⟨61⟩] ∧
    (ofFirst circularProject).table.classBase? ⟨61⟩ = some ⟨60⟩ := by
  rw [← Project.quick_eq circularProject]
  decide +kernel

theorem typing_ends_circular : ∃ doc ∈ circularProject.documents, doc.errors ≠ [] ∧
    (∃ e ∈ doc.root.nodes, e.name? = some "x" ∧
      ¬Relation.TransGen (Calls (ofFirst circularProject).rule) (.typeOf e) (.typeOf e) ∧
      answerWithin (ofFirst circularProject).rule (chainLength e) (.typeOf e) = some none) ∧
    (∃ e ∈ doc.root.nodes, e.name? = some "p" ∧ Ends (ofFirst circularProject).rule (.typeOf e) ∧
      answerWithin (ofFirst circularProject).rule (chainLength e) (.typeOf e) =
        some (some (.named ⟨60⟩ []))) ∧
    (ofFirst circularProject).table.baseChain ⟨60⟩ = [⟨60⟩, ⟨61⟩] ∧
    (ofFirst circularProject).table.classBase? ⟨61⟩ = some ⟨60⟩ := by
  obtain ⟨⟨doc, hdoc, hid, herrors, ⟨e, he, hx, hxty⟩, e', he', hp, hpty⟩, hbases⟩ :=
    names_circularProject
  have hm : ofFirst circularProject = ⟨.ofProject circularProject, doc.id⟩ := by rw [hid]; rfl
  obtain ⟨-, hends, -⟩ := typing_ends circularProject doc _ hm
  obtain ⟨-, hcycle, hanswer⟩ := hends (.typeOf e) (below_of_mem_nodes he)
  obtain ⟨hends', -, hanswer'⟩ := hends (.typeOf e') (below_of_mem_nodes he')
  refine ⟨doc, hdoc, herrors, ⟨e, he, hx, hcycle, ?_⟩, ⟨e', he', hp, hends', ?_⟩, hbases⟩
  · exact (hanswer _ (Nat.le_refl _)).trans (congrArg some hxty)
  · exact (hanswer' _ (Nat.le_refl _)).trans (congrArg some hpty)

end Model

end CSharpKit.Semantics
