import CSharpKit.Proofs.Semantics.Binding
import CSharpKit.Proofs.Workspace.QuickReading
import Mathlib.Data.List.Nodup
import Mathlib.Data.Prod.Lex

/-!
# Overloads

Of the methods of one name a call means the one that fits it best, if no other fits as
well. They are looked at one after another, and only the best so far is kept, with a
mark if another one is as good. At the end this is the only greatest entry or none, so
it does not matter in which order the methods were declared.
-/

namespace CSharpKit.Semantics

open Syntax Cursor Workspace

/-! ## The greatest entry -/

namespace Fit

variable {ranked more : List (MethodId × Nat)} {lead : Lead} {method : MethodId}

/-- The entries that reach a rank. -/
def reaching (ranked : List (MethodId × Nat)) (rank : Nat) : List (MethodId × Nat) :=
  ranked.filter fun entry => rank ≤ entry.2

theorem mem_reaching {rank : Nat} {entry : MethodId × Nat} :
    entry ∈ reaching ranked rank ↔ entry ∈ ranked ∧ rank ≤ entry.2 := by
  rw [reaching, List.mem_filter, decide_eq_true_eq]

theorem reaching_eq_nil {rank : Nat} (h : ∀ entry ∈ ranked, entry.2 < rank) :
    reaching ranked rank = [] := by
  refine List.filter_eq_nil_iff.mpr ?_
  intro entry hentry
  simpa using h entry hentry

theorem reaching_append (rank : Nat) :
    reaching (ranked ++ more) rank = reaching ranked rank ++ reaching more rank :=
  List.filter_append ..

theorem reaching_singleton (entry : MethodId × Nat) {rank : Nat} (h : rank ≤ entry.2) :
    reaching [entry] rank = [entry] := by
  simp [reaching, h]

/-- What the best of some entries says of them: no other is better, and it is marked if
and only if it is not the only one of its rank. -/
structure IsLead (ranked : List (MethodId × Nat)) (lead : Lead) : Prop where
  le : ∀ entry ∈ ranked, entry.2 ≤ lead.rank
  alone : lead.isTied = false → reaching ranked lead.rank = [(lead.method, lead.rank)]
  tied : lead.isTied = true → 1 < (reaching ranked lead.rank).length

theorem IsLead.reaching_length_pos (h : IsLead ranked lead) :
    0 < (reaching ranked lead.rank).length := by
  cases htied : lead.isTied with
  | false => simp [h.alone htied]
  | true => exact Nat.lt_of_succ_lt (h.tied htied)

theorem isLead_first (entry : MethodId × Nat) : IsLead [entry] ⟨entry.1, entry.2, false⟩ where
  le := by simp
  alone _ := reaching_singleton entry le_rfl
  tied := by simp

/-- One more entry keeps what the best of them says. -/
theorem IsLead.next (h : IsLead ranked lead) (entry : MethodId × Nat) :
    ∃ lead', Lead.next (some lead) entry = some lead' ∧ IsLead (ranked ++ [entry]) lead' := by
  rcases Nat.lt_trichotomy entry.2 lead.rank with hlt | heq | hgt
  · have hsame : reaching (ranked ++ [entry]) lead.rank = reaching ranked lead.rank := by
      have hnone : reaching [entry] lead.rank = [] := reaching_eq_nil (by simpa using hlt)
      rw [reaching_append, hnone, List.append_nil]
    refine ⟨lead, by simp [Lead.next, hlt], ?_, ?_, ?_⟩
    · exact List.forall_mem_append.mpr ⟨h.le, by simp [hlt.le]⟩
    · rw [hsame]
      exact h.alone
    · rw [hsame]
      exact h.tied
  · refine ⟨{ lead with isTied := true }, by simp [Lead.next, heq], ?_, by simp, ?_⟩
    · exact List.forall_mem_append.mpr ⟨h.le, by simp [heq]⟩
    · intro
      rw [reaching_append, reaching_singleton entry heq.ge, List.length_append]
      exact Nat.add_lt_add_right h.reaching_length_pos 1
  · have hnone : reaching ranked entry.2 = [] :=
      reaching_eq_nil fun e he => Nat.lt_of_le_of_lt (h.le e he) hgt
    refine ⟨⟨entry.1, entry.2, false⟩, by simp [Lead.next, hgt.not_gt, hgt.ne'], ?_, ?_, by simp⟩
    · exact List.forall_mem_append.mpr ⟨fun e he => (h.le e he).trans hgt.le, by simp⟩
    · intro
      rw [reaching_append, hnone, reaching_singleton entry le_rfl, List.nil_append]

/-- The best of a row of entries, if there is any. -/
theorem isLead_foldl (ranked : List (MethodId × Nat)) :
    ranked = [] ∨ ∃ lead, ranked.foldl Lead.next none = some lead ∧ IsLead ranked lead := by
  induction ranked using List.reverseRecOn with
  | nil => exact .inl rfl
  | append_singleton ranked entry ih =>
      right
      rw [List.foldl_append]
      rcases ih with rfl | ⟨lead, hlead, h⟩
      · exact ⟨_, rfl, isLead_first entry⟩
      · rw [hlead]
        exact h.next entry

/-- What is left of a row of entries is the one that no other reaches. -/
theorem unique?_eq_some_iff :
    unique? ranked = some method ↔ ∃ rank, reaching ranked rank = [(method, rank)] := by
  rcases isLead_foldl ranked with rfl | ⟨lead, hlead, h⟩
  · simp [unique?, reaching]
  simp only [unique?, hlead, Option.map_eq_some_iff, Option.filter_eq_some_iff,
    Option.some.injEq, Bool.not_eq_true']
  constructor
  · rintro ⟨_, ⟨rfl, hfree⟩, rfl⟩
    exact ⟨lead.rank, h.alone hfree⟩
  · rintro ⟨rank, hrank⟩
    have hmem : (method, rank) ∈ ranked :=
      (mem_reaching.mp (hrank ▸ List.mem_singleton_self _)).1
    -- What reaches the best entry reaches this one too, so it is this one.
    have hsub : (reaching ranked lead.rank).Sublist [(method, rank)] := by
      rw [← hrank]
      refine List.monotone_filter_right ranked ?_
      intro entry hentry
      simp only [decide_eq_true_eq] at hentry ⊢
      exact (h.le _ hmem).trans hentry
    cases htied : lead.isTied with
    | true => exact absurd (h.tied htied) (Nat.not_lt.mpr hsub.length_le)
    | false =>
        rw [h.alone htied, List.singleton_sublist, List.mem_singleton] at hsub
        exact ⟨lead, ⟨rfl, htied⟩, congrArg Prod.fst hsub⟩

/-- If no method stands in two entries, the others are all below the one that is left. -/
theorem unique?_eq_some_iff_of_nodup (hnodup : (ranked.map Prod.fst).Nodup) :
    unique? ranked = some method ↔ ∃ rank, (method, rank) ∈ ranked ∧
      ∀ entry ∈ ranked, entry.1 ≠ method → entry.2 < rank := by
  rw [unique?_eq_some_iff]
  apply exists_congr
  intro rank
  constructor
  · intro h
    have hreach (entry : MethodId × Nat) :
        entry ∈ ranked ∧ rank ≤ entry.2 ↔ entry = (method, rank) := by
      rw [← mem_reaching, h, List.mem_singleton]
    refine ⟨((hreach _).mpr rfl).1, fun entry hentry hne => Nat.lt_of_not_le fun hle => ?_⟩
    obtain rfl := (hreach entry).mp ⟨hentry, hle⟩
    exact hne rfl
  · rintro ⟨hmem, hbelow⟩
    obtain ⟨front, back, rfl⟩ := List.append_of_mem hmem
    rw [List.map_append, List.map_cons, List.nodup_middle, List.nodup_cons,
      ← List.map_append] at hnodup
    have hothers : ∀ entry ∈ front ++ back, entry.2 < rank := by
      intro entry hentry
      refine hbelow entry ?_ fun heq => hnodup.1 (List.mem_map.mpr ⟨entry, hentry, heq⟩)
      simp only [List.mem_append, List.mem_cons] at hentry ⊢
      tauto
    obtain ⟨hfront, hback⟩ := List.forall_mem_append.mp hothers
    rw [List.append_cons, reaching_append, reaching_append, reaching_eq_nil hfront,
      reaching_singleton _ le_rfl, reaching_eq_nil hback]
    rfl

/-- The order of the entries does not matter. -/
theorem unique?_perm (h : ranked.Perm more) : unique? ranked = unique? more := by
  apply Option.ext
  intro method
  rw [unique?_eq_some_iff, unique?_eq_some_iff]
  apply exists_congr
  intro rank
  have hreaching : (reaching ranked rank).Perm (reaching more rank) := h.filter _
  constructor
  · intro heq
    rw [heq] at hreaching
    exact List.perm_singleton.mp hreaching.symm
  · intro heq
    rw [heq] at hreaching
    exact List.perm_singleton.mp hreaching

/-! ## Candidates -/

/-- How much speaks for a fit: its score counts first, and then its form. -/
def merit (fit : Fit) : Nat ×ₗ Bool := toLex (fit.score, fit.isNormal)

/-- Ranks are in the order of merits. -/
theorem rank_lt_rank_iff {fit other : Fit} : fit.rank < other.rank ↔ fit.merit < other.merit := by
  rw [merit, merit, Prod.Lex.toLex_lt_toLex, Bool.lt_iff, rank, rank]
  cases fit.isNormal <;> cases other.isNormal <;> simp <;> omega

section

variable {s : SymbolTable} {form : CallForm} {args : CallArguments} {candidates : List MethodId}

/-- A method may be called: it has as many type parameters as the call writes type arguments,
if it writes any, and its parameters take the arguments. -/
def IsApplicable (s : SymbolTable) (form : CallForm) (args : CallArguments) (method : MethodId)
    (fit : Fit) : Prop :=
  (∀ written ∈ form.explicit?, written.length = (s.method method).typeParams.length) ∧
    find? s method form args = some fit

/-- A candidate with its rank, if it may be called. -/
def ranked? (s : SymbolTable) (form : CallForm) (args : CallArguments) (candidate : MethodId) :
    Option (MethodId × Nat) :=
  if form.explicit?.any (·.length != (s.method candidate).typeParams.length) then none
  else (find? s candidate form args).map fun fit => (candidate, fit.rank)

theorem choose?_eq : choose? s candidates form args =
    unique? (candidates.filterMap (ranked? s form args)) := rfl

theorem ranked?_eq_some_iff {candidate : MethodId} {entry : MethodId × Nat} :
    ranked? s form args candidate = some entry ↔
      entry.1 = candidate ∧ ∃ fit, IsApplicable s form args candidate fit ∧ fit.rank = entry.2 := by
  obtain ⟨method, rank⟩ := entry
  unfold ranked? IsApplicable
  split
  · next hany =>
    obtain ⟨written, hwritten, hne⟩ := (Option.any_eq_true _ _).mp hany
    refine iff_of_false (by simp) ?_
    rintro ⟨-, fit, ⟨hall, -⟩, -⟩
    simp [hall written hwritten] at hne
  · next hany =>
    have hall : ∀ written ∈ form.explicit?,
        written.length = (s.method candidate).typeParams.length := by
      intro written hwritten
      by_contra hne
      exact hany ((Option.any_eq_true _ _).mpr ⟨written, hwritten, by simpa using hne⟩)
    simp only [Option.map_eq_some_iff, Prod.mk.injEq]
    constructor
    · rintro ⟨fit, hfit, rfl, rfl⟩
      exact ⟨rfl, fit, ⟨hall, hfit⟩, rfl⟩
    · rintro ⟨rfl, fit, ⟨-, hfit⟩, rfl⟩
      exact ⟨fit, hfit, rfl, rfl⟩

theorem nodup_entries (h : candidates.Nodup) :
    ((candidates.filterMap (ranked? s form args)).map Prod.fst).Nodup := by
  refine List.pairwise_map.mpr (List.pairwise_filterMap.mpr (h.imp ?_))
  intro candidate other hne entry hentry entry' hentry'
  rw [(ranked?_eq_some_iff.mp hentry).1, (ranked?_eq_some_iff.mp hentry').1]
  exact hne

/-- Of distinct candidates the one is chosen that fits the call better than any other. -/
theorem choose?_eq_some_iff (h : candidates.Nodup) :
    choose? s candidates form args = some method ↔
      method ∈ candidates ∧ ∃ fit, IsApplicable s form args method fit ∧
        ∀ other ∈ candidates, other ≠ method → ∀ fit', IsApplicable s form args other fit' →
          fit'.merit < fit.merit := by
  rw [choose?_eq, unique?_eq_some_iff_of_nodup (nodup_entries h)]
  simp only [List.mem_filterMap, ranked?_eq_some_iff]
  constructor
  · rintro ⟨rank, ⟨_, hmem, rfl, fit, hfit, rfl⟩, hbelow⟩
    refine ⟨hmem, fit, hfit, fun other hother hne fit' hfit' => rank_lt_rank_iff.mp ?_⟩
    exact hbelow (other, fit'.rank) ⟨other, hother, rfl, fit', hfit', rfl⟩ hne
  · rintro ⟨hmem, fit, hfit, hbelow⟩
    refine ⟨fit.rank, ⟨method, hmem, rfl, fit, hfit, rfl⟩, ?_⟩
    rintro ⟨other, rank⟩ ⟨_, hother, rfl, fit', hfit', rfl⟩ hne
    exact rank_lt_rank_iff.mpr (hbelow other hother hne fit' hfit')

theorem choose?_perm {order : List MethodId} (h : order.Perm candidates) :
    choose? s order form args = choose? s candidates form args :=
  unique?_perm (h.filterMap _)

end

end Fit

/-! ## Distinct candidates -/

/-- The methods that a symbol stands for, if any, are distinct. -/
def Symbol.Distinct : Symbol → Prop
  | .methods candidates _ _ => candidates.Nodup
  | _ => True

theorem NameMeaning.distinct (meaning : NameMeaning) : meaning.symbol.Distinct := by
  cases meaning <;> trivial

namespace SymbolTable

variable {s : SymbolTable}

theorem nodup_typesIn (container : Container) : (s.typesIn container).Nodup :=
  (List.nodup_range.map fun _ _ h => TypeId.mk.inj h).filter _

theorem nodup_methodsOf (kind : MethodKind) (owner : TypeId) : (s.methodsOf kind owner).Nodup :=
  (List.nodup_range.map fun _ _ h => MethodId.mk.inj h).filter _

end SymbolTable

namespace Model

variable {m : Model} {symbol : Symbol} {name : String}

theorem nodup_methodsNamed (owner : TypeId) (name : String) (arity : Nat) :
    (m.methodsNamed owner name arity).Nodup :=
  (SymbolTable.nodup_methodsOf _ _).filter _

theorem owner_of_mem_methodsNamed {owner : TypeId} {arity : Nat} {id : MethodId}
    (h : id ∈ m.methodsNamed owner name arity) : (m.table.method id).owner = owner := by
  have howner := (List.mem_filter.mp (List.mem_filter.mp h).1).2
  simp only [Bool.and_eq_true, beq_iff_eq] at howner
  exact howner.1

/-- Extension methods are distinct, since each of them is a method of one type. -/
theorem nodup_extensionsIn (ns : NamespaceId) (name : String) (arity : Nat) :
    (m.extensionsIn ns name arity).Nodup := by
  refine List.Nodup.filter _ (List.nodup_flatMap.mpr ⟨fun t _ => nodup_methodsNamed .., ?_⟩)
  refine (SymbolTable.nodup_typesIn _).imp fun hne id hid hid' => hne ?_
  exact (owner_of_mem_methodsNamed hid).symm.trans (owner_of_mem_methodsNamed hid')

theorem MemberOf.distinct {at_ : Cursor} {ty : Ty} {arguments : List Cursor}
    (h : m.MemberOf at_ ty name arguments symbol) : symbol.Distinct := by
  cases h with
  | own h =>
      cases h with
      | field | property | nested => trivial
      | methods => exact nodup_methodsNamed ..
  | extension ns => exact nodup_extensionsIn ..

/-- The methods that an expression stands for are distinct. -/
theorem symbolOf?_distinct {c : Cursor} (h : m.symbolOf? c = some symbol) : symbol.Distinct := by
  rcases (symbolOfWith_refers h).origin with ⟨meaning, rfl⟩ | ⟨_, -, hbound⟩ |
    ⟨_, _, _, _, _, -, -, hmember⟩
  · exact meaning.distinct
  · cases hbound <;> trivial
  · exact hmember.distinct

/-! ## Calls -/

/-- Questions about the parts of a node are the questions about the node. -/
theorem queries_of_mem_children {c d : Cursor} (h : d ∈ c.children) : m.queries d = m.queries c := by
  have htop : d.top = c.top := by
    obtain ⟨i, t, -, rfl⟩ := mem_elements_iff.mp (mem_elements_of_mem_children h)
    rfl
  rw [queries, queries, chainLength, chainLength, htop]

/-- What a call says beside its arguments. -/
def formOf (m : Model) (call : Cursor) (receiver? thisArgument? : Option Ty) : CallForm :=
  ⟨receiver?, thisArgument?, m.explicitArguments? call⟩

/-- **The only best overload.** Whatever the project, where the expression of a call stands
for methods, the call means one of them if and only if this one may be called and fits
better than every other that may be called: with a greater score, or with the same score and
in its normal form where the other is expanded. In any other case it means none. So the
order of the candidates does not matter. -/
theorem invokedMethod?_unique (m : Model) (call : Cursor) (candidates : List MethodId)
    (receiver? thisArgument? : Option Ty)
    (hcallee : call.expression?.bind m.symbolOf? =
      some (.methods candidates receiver? thisArgument?)) :
    (∀ method, m.invokedMethod? call = some method ↔
      method ∈ candidates ∧ ∃ fit,
        Fit.IsApplicable m.table (m.formOf call receiver? thisArgument?)
          (callArguments (m.queries call) call) method fit ∧
        ∀ other ∈ candidates, other ≠ method → ∀ fit',
          Fit.IsApplicable m.table (m.formOf call receiver? thisArgument?)
            (callArguments (m.queries call) call) other fit' →
          fit'.merit < fit.merit) ∧
    ∀ order, order.Perm candidates →
      Fit.choose? m.table order (m.formOf call receiver? thisArgument?)
        (callArguments (m.queries call) call) = m.invokedMethod? call := by
  obtain ⟨e, he, hsymbol⟩ := Option.bind_eq_some_iff.mp hcallee
  have hdistinct : candidates.Nodup := symbolOf?_distinct hsymbol
  have hqueries : m.queries e = m.queries call :=
    queries_of_mem_children (List.mem_of_find?_eq_some he)
  have hinvoked : m.invokedMethod? call =
      Fit.choose? m.table candidates (m.formOf call receiver? thisArgument?)
        (callArguments (m.queries call) call) := by
    rw [symbolOf?, hqueries] at hsymbol
    rw [invokedMethod?, invokedMethodWith?, he, Option.bind_some, hsymbol]
    rfl
  rw [hinvoked]
  exact ⟨fun method => Fit.choose?_eq_some_iff hdistinct, fun order => Fit.choose?_perm⟩

/-- The symbols of a project, seen from its first document. -/
def ofFirst (project : Project) : Model := ⟨.ofProject project, 0⟩

/-- The calls in the documents of a project. -/
def callsIn (project : Project) : List Cursor :=
  project.documents.flatMap fun doc =>
    doc.root.nodes.filter fun c => c.kind == .invocationExpression

/-- The nodes of a kind in the documents of a project. -/
def nodesIn (project : Project) (kind : Kind) : List Cursor :=
  project.documents.flatMap fun doc => doc.root.nodes.filter fun c => c.kind == kind

theorem exists_doc_of_mem_nodesIn {project : Project} {kind : Kind} {c : Cursor}
    (h : c ∈ nodesIn project kind) : ∃ doc ∈ project.documents, c ∈ doc.root.nodes ∧ c.kind = kind := by
  obtain ⟨doc, hdoc, hc⟩ := List.mem_flatMap.mp h
  obtain ⟨hc, hkind⟩ := List.mem_filter.mp hc
  exact ⟨doc, hdoc, hc, beq_iff_eq.mp hkind⟩

theorem exists_doc_of_mem_callsIn {project : Project} {call : Cursor} (h : call ∈ callsIn project) :
    ∃ doc ∈ project.documents, call ∈ doc.root.nodes ∧ call.kind = .invocationExpression :=
  exists_doc_of_mem_nodesIn h

/-- A project with one document, whose two methods `M` both take a `C`. -/
def overloadedProject : Project :=
  Project.empty.append (Document.read 0 "overloads.cs"
    "class C \x7b void M(object a) \x7b \x7d void M(C a) \x7b \x7d void N(C b) \x7b M(b); \x7d \x7d" 0) rfl

theorem invokedMethod?_unique_overloaded :
    ∃ m : Model, m = ofFirst overloadedProject ∧ ∃ call ∈ callsIn overloadedProject,
      ∃ general special receiver?,
        call.expression?.bind m.symbolOf? =
          some (.methods [general, special] receiver? none) ∧
        m.invokedMethod? call = some special ∧
        (∃ fit, Fit.IsApplicable m.table (m.formOf call receiver? none)
            (callArguments (m.queries call) call) special fit ∧
          ∀ other ∈ [general, special], other ≠ special → ∀ fit',
            Fit.IsApplicable m.table (m.formOf call receiver? none)
              (callArguments (m.queries call) call) other fit' → fit'.merit < fit.merit) ∧
        Fit.choose? m.table [special, general] (m.formOf call receiver? none)
          (callArguments (m.queries call) call) = some special := by
  have hcall : ((callsIn overloadedProject.quick).any fun call => decide <|
      call.expression?.bind (ofFirst overloadedProject.quick).symbolOf? =
        some (.methods [⟨49⟩, ⟨50⟩] (some (.plain ⟨60⟩)) none) ∧
      (ofFirst overloadedProject.quick).invokedMethod? call = some ⟨50⟩) = true := by
    decide +kernel
  rw [Project.quick_eq] at hcall
  obtain ⟨call, hmem, hcall⟩ := List.any_eq_true.mp hcall
  obtain ⟨hcallee, hmeans⟩ := of_decide_eq_true hcall
  obtain ⟨hiff, horder⟩ := invokedMethod?_unique _ _ _ _ _ hcallee
  refine ⟨_, rfl, call, hmem, ⟨49⟩, ⟨50⟩, _, hcallee, hmeans, ((hiff _).mp hmeans).2, ?_⟩
  rw [horder _ (.swap ..), hmeans]

end Model

end CSharpKit.Semantics
