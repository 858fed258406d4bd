import CSharpKit.Proofs.Semantics.TypingRules

/-!
# Chains of questions

What the rules for names and types ask is left before the expression at hand by a walk from the
bottom up. So no chain of questions comes back to where it was or is longer than twice the number
of elements of the tree, more questions do not change an answer, and the answers satisfy the rules
as equations.
-/

namespace CSharpKit.Semantics

open Syntax Cursor

/-- Two ways to answer that agree on the questions below a bound. An element is asked for its
symbol before it is asked for its type. -/
structure Queries.Agree (t : Tree) (q q' : Queries) (bound : Nat) : Prop where
  symbolOf : ∀ d, Below (.root t) d → 2 * d.walkRank < bound → q.symbolOf d = q'.symbolOf d
  typeOf : ∀ d, Below (.root t) d → 2 * d.walkRank + 1 < bound → q.typeOf d = q'.typeOf d

theorem Queries.Agree.mono {t : Tree} {q q' : Queries} {bound bound' : Nat}
    (h : Queries.Agree t q q' bound) (hle : bound' ≤ bound) : Queries.Agree t q q' bound' :=
  ⟨fun d hd hlt => h.symbolOf d hd (Nat.lt_of_lt_of_le hlt hle),
    fun d hd hlt => h.typeOf d hd (Nat.lt_of_lt_of_le hlt hle)⟩

theorem Queries.Agree.answer_eq {t : Tree} {q q' : Queries} {bound : Nat}
    (h : Queries.Agree t q q' bound) (x : Question) (hx : x.Before t bound) :
    q.answer x = q'.answer x := by
  cases x with
  | typeOf d => exact h.typeOf d hx.below hx.rank_lt
  | symbolOf d => exact h.symbolOf d hx.below hx.rank_lt

namespace Model

variable {m : Model} {t : Tree} {q q' : Queries} {bound : Nat} {c d : Cursor}

/-! ## Rules -/

section

variable (h : Queries.Agree t q q' bound) (hc : Below (.root t) c) (hbound : 2 * c.walkRank ≤ bound)
include h hc hbound

theorem callee_congr : c.expression?.bind q.symbolOf = c.expression?.bind q'.symbolOf := by
  rw [← run_calleeRule, ← run_calleeRule]
  exact (asksOnly_calleeRule hc hbound).run_congr h.answer_eq

theorem invokedMethodWith?_congr : m.invokedMethodWith? q c = m.invokedMethodWith? q' c := by
  rw [← run_invokedMethodRule, ← run_invokedMethodRule]
  exact (asksOnly_invokedMethodRule hc hbound).run_congr h.answer_eq

theorem typeArgumentsWith_congr (method : MethodId) (receiver? : Option Ty) :
    m.typeArgumentsWith q c method receiver? = m.typeArgumentsWith q' c method receiver? := by
  rw [← run_typeArgumentsRule, ← run_typeArgumentsRule]
  exact (asksOnly_typeArgumentsRule hc hbound method receiver?).run_congr h.answer_eq

theorem invocationTy?_congr : m.invocationTy? q c = m.invocationTy? q' c := by
  rw [← run_invocationRule, ← run_invocationRule]
  exact (asksOnly_invocationRule hc hbound).run_congr h.answer_eq

end

/-- The symbol of an expression depends on what the walk leaves before the expression. -/
theorem symbolOfWith_congr (h : Queries.Agree t q q' bound) (hc : Below (.root t) c)
    (hbound : 2 * c.walkRank ≤ bound)
    (hpos : ∀ d, Below (.root t) d → ∀ name, d.name? = some name → 0 < d.focus.width) :
    m.symbolOfWith q c = m.symbolOfWith q' c := by
  rw [← run_symbolRule, ← run_symbolRule]
  exact (asksOnly_symbolRule hc hbound hpos).run_congr h.answer_eq

/-- The type of an expression depends on its symbol, and on what the walk leaves before it. -/
theorem typeOfWith_congr (h : Queries.Agree t q q' bound) (hc : Below (.root t) c)
    (hbound : 2 * c.walkRank < bound) : m.typeOfWith q c = m.typeOfWith q' c := by
  rw [← run_typeRule, ← run_typeRule]
  exact (asksOnly_typeRule hc hbound).run_congr h.answer_eq

/-! ## Chains -/

/-- **More questions change no answer.** Chains of as many questions as the walk allows give all
answers below that bound. -/
theorem queriesWithin_agree
    (hpos : ∀ d, Below (.root t) d → ∀ name, d.name? = some name → 0 < d.focus.width) (bound : Nat) :
    ∀ fuel fuel', bound ≤ fuel → bound ≤ fuel' →
      Queries.Agree t (m.queriesWithin fuel) (m.queriesWithin fuel') bound := by
  induction bound with
  | zero =>
      intro fuel fuel' _ _
      exact ⟨fun _ _ hd => absurd hd (Nat.not_lt_zero _), fun _ _ hd => absurd hd (Nat.not_lt_zero _)⟩
  | succ bound ih =>
      intro fuel fuel' hfuel hfuel'
      cases fuel with
      | zero => omega
      | succ fuel =>
      cases fuel' with
      | zero => omega
      | succ fuel' =>
      have hagree := ih fuel fuel' (by omega) (by omega)
      constructor
      · intro d hd hlt
        exact symbolOfWith_congr hagree hd (by omega) hpos
      · intro d hd hlt
        exact typeOfWith_congr hagree hd (by omega)

/-- All elements of a tree are asked the same questions. -/
theorem queries_eq (hc : Below (.root t) c) (hd : Below (.root t) d) :
    m.queries d = m.queries c := by
  rw [queries, queries, chainLength, chainLength, top_of_below hc, top_of_below hd]

section

variable {text : String} (hfile : IsFile text t) (hc : Below (.root t) c)
include hfile hc

/-- One question less is enough for the answers at an element. -/
theorem queries_agree :
    Queries.Agree t (m.queriesWithin (2 * (Cursor.root c.top).preorder.length + 1)) (m.queries c)
      (2 * c.walkRank + 1) := by
  have hrank := walkRank_le_length hc
  apply queriesWithin_agree fun d hd _ => hfile.width_pos_of_name hd
  · omega
  · rw [chainLength]
    omega

/-- **The type of an expression is the one that its rule gives** from the types and symbols of
other expressions. -/
theorem typeOf?_eq : m.typeOf? c = m.typeOfWith (m.queries c) c :=
  typeOfWith_congr (queries_agree hfile hc) hc (Nat.lt_succ_self _)

/-- **The symbol of an expression is the one that its rule gives** from the types and symbols of
other expressions. -/
theorem symbolOf?_eq : m.symbolOf? c = m.symbolOfWith (m.queries c) c :=
  symbolOfWith_congr (queries_agree hfile hc) hc (Nat.le_succ _) fun _ hd _ =>
    hfile.width_pos_of_name hd

end

end Model

end CSharpKit.Semantics
