import CSharpKit.Proofs.Semantics.Overloads
import CSharpKit.Proofs.Semantics.Questions
import CSharpKit.Proofs.Syntax.Parts

/-!
# Expressions that state their type

A cast, `as`, `default` and `new` write a type, and that is the type of the expression. It is
looked for as the first child that may be a type. The parser puts the operand of `as` before
the type, and the brackets behind `new T` apart from it: an operand that may be a type is
taken for the type, and an array is taken for one of its elements.
-/

namespace CSharpKit.Semantics

open Syntax Cursor Workspace

/-! ## Arrays -/

namespace Ty

/-- An array of a type for each rank. -/
def arrays (element : Ty) (ranks : List Nat) : Ty :=
  ranks.foldr (fun rank ty => .array ty rank) element

theorem sizeOf_arrays (element : Ty) (ranks : List Nat) :
    sizeOf element + ranks.length ≤ sizeOf (element.arrays ranks) := by
  induction ranks with
  | nil => exact Nat.le_refl _
  | cons rank ranks ih =>
      have hstep : sizeOf (element.arrays (rank :: ranks)) =
          1 + sizeOf (element.arrays ranks) + sizeOf rank := rfl
      rw [hstep, List.length_cons]
      omega

/-- No type is an array of itself. -/
theorem eq_arrays_iff {element : Ty} {ranks : List Nat} :
    element = element.arrays ranks ↔ ranks = [] := by
  constructor
  · intro h
    have hsize := sizeOf_arrays element ranks
    rw [← h] at hsize
    apply List.eq_nil_of_length_eq_zero
    omega
  · rintro rfl
    rfl

end Ty

/-! ## The forms -/

namespace Model

variable {m : Model} {doc : Document} {c : Cursor}

/-- The expressions whose type is written in them. -/
def StatesType (k : Kind) : Prop :=
  k = .castExpression ∨ k = .asExpression ∨ k = .defaultExpression ∨ k = .objectCreationExpression

/-- The type of such an expression is the first child that may be a type. -/
theorem typeOf?_of_statesType (hc : c ∈ doc.root.nodes) (hkind : StatesType c.kind) :
    m.typeOf? c = (c.children.find? fun d => d.kind.isType).map m.resolveType := by
  have hplain : c.unparenthesized = c := by
    apply unparenthesized_eq
    rcases hkind with h | h | h | h <;> simp [h]
  rw [typeOf?_eq (isFile_tree doc) (below_of_mem_nodes hc), typeOfWith, hplain]
  rcases hkind with h | h | h | h <;> rw [h] <;> rfl

theorem children_cast (hclean : doc.errors = []) (hc : c ∈ doc.root.nodes)
    (hkind : c.kind = .castExpression) : ∃ t e, c.children = [t, e] ∧ t.kind.isType = true ∧
      e.kind.isExpr = true := by
  have hform := form_parts hclean hc
  rw [hkind] at hform
  obtain ⟨_, _, hparts, hopen, hform⟩ := Layout.exists_of_andThen hform
  obtain ⟨_, _, rfl, htype, hform⟩ := Layout.exists_of_andThen hform
  obtain ⟨_, _, rfl, hclose, hexpr⟩ := Layout.exists_of_andThen hform
  obtain ⟨o, rfl, hopen, -⟩ := Layout.exists_of_token hopen
  obtain ⟨t, rfl, ht, htype⟩ := Layout.exists_of_node htype
  obtain ⟨k, rfl, hclose, -⟩ := Layout.exists_of_token hclose
  obtain ⟨e, rfl, he, hexpr⟩ := Layout.exists_of_node hexpr
  refine ⟨t, e, ?_, htype, hexpr⟩
  simp [children_eq_filter_parts, hparts, hopen, ht, hclose, he]

theorem children_as (hclean : doc.errors = []) (hc : c ∈ doc.root.nodes)
    (hkind : c.kind = .asExpression) : ∃ e t, c.children = [e, t] ∧ e.kind.isExpr = true ∧
      t.kind.isType = true := by
  have hform := form_parts hclean hc
  rw [hkind] at hform
  obtain ⟨_, _, hparts, hexpr, hform⟩ := Layout.exists_of_andThen hform
  obtain ⟨_, _, rfl, hword, htype⟩ := Layout.exists_of_andThen hform
  obtain ⟨e, rfl, he, hexpr⟩ := Layout.exists_of_node hexpr
  obtain ⟨k, rfl, hword, -⟩ := Layout.exists_of_token hword
  obtain ⟨t, rfl, ht, htype⟩ := Layout.exists_of_node htype
  refine ⟨e, t, ?_, hexpr, htype⟩
  simp [children_eq_filter_parts, hparts, he, hword, ht]

theorem children_default (hclean : doc.errors = []) (hc : c ∈ doc.root.nodes)
    (hkind : c.kind = .defaultExpression) :
    c.children = [] ∨ ∃ t, c.children = [t] ∧ t.kind.isType = true := by
  have hform := form_parts hclean hc
  rw [hkind] at hform
  obtain ⟨_, _, hparts, hword, hform⟩ := Layout.exists_of_andThen hform
  obtain ⟨k, rfl, hword, -⟩ := Layout.exists_of_token hword
  rcases Layout.eq_nil_or_of_opt hform with rfl | hform
  · exact .inl (by simp [children_eq_filter_parts, hparts, hword])
  · obtain ⟨_, _, rfl, hopen, hform⟩ := Layout.exists_of_andThen hform
    obtain ⟨_, _, rfl, htype, hclose⟩ := Layout.exists_of_andThen hform
    obtain ⟨o, rfl, hopen, -⟩ := Layout.exists_of_token hopen
    obtain ⟨t, rfl, ht, htype⟩ := Layout.exists_of_node htype
    obtain ⟨l, rfl, hclose, -⟩ := Layout.exists_of_token hclose
    refine .inr ⟨t, ?_, htype⟩
    simp [children_eq_filter_parts, hparts, hword, hopen, ht, hclose]

/-- Behind `new` stand a type, if one is written, then brackets, and then neither. -/
theorem children_creation (hclean : doc.errors = []) (hc : c ∈ doc.root.nodes)
    (hkind : c.kind = .objectCreationExpression) : ∃ written ranks more : List Cursor,
      c.children = written ++ (ranks ++ more) ∧
      (written = [] ∨ ∃ t, written = [t] ∧ t.kind.isType = true) ∧
      (∀ rank ∈ ranks, rank.kind = .arrayRankSpecifier) ∧
      ∀ d ∈ more, d.kind = .argumentList ∨ d.kind = .initializerExpression := by
  have hform := form_parts hclean hc
  rw [hkind] at hform
  obtain ⟨_, _, hparts, hword, hform⟩ := Layout.exists_of_andThen hform
  obtain ⟨written, _, rfl, hwritten, hform⟩ := Layout.exists_of_andThen hform
  obtain ⟨ranks, more, rfl, hranks, hmore⟩ := Layout.exists_of_andThen hform
  obtain ⟨k, rfl, hword, -⟩ := Layout.exists_of_token hword
  replace hranks := Layout.forall_of_many hranks
  replace hmore := Layout.forall_of_many hmore
  have hwritten : (written = [] ∨ ∃ t, written = [t] ∧ t.kind.isType = true) ∧
      ∀ t ∈ written, t.isNode = true := by
    rcases Layout.eq_nil_or_of_opt hwritten with rfl | hwritten
    · exact ⟨.inl rfl, List.forall_mem_nil _⟩
    · obtain ⟨t, rfl, ht, htype⟩ := Layout.exists_of_node hwritten
      exact ⟨.inr ⟨t, rfl, htype⟩, List.forall_mem_singleton.mpr ht⟩
  refine ⟨written, ranks, more, ?_, hwritten.1, fun rank hrank => eq_of_beq (hranks rank hrank).2,
    fun d hd => ?_⟩
  · rw [children_eq_filter_parts, hparts, List.singleton_append, List.filter_cons_of_neg (by simp [hword]),
      List.filter_eq_self]
    intro d hd
    rcases List.mem_append.mp hd with hd | hd
    · exact hwritten.2 d hd
    · rcases List.mem_append.mp hd with hd | hd
      · exact (hranks d hd).1
      · exact (hmore d hd).1
  · simpa using (hmore d hd).2

/-- **Expressions that state their type.** Let a document be read without a complaint. A cast
has the type that it writes. So has `as`, unless its operand may itself be read as a type: then
the operand gives the type. `default(T)` has the type that it writes, and `default` none. What
`new` creates has the type behind it, whatever follows; so it is the array type of the rank
specifiers that follow only if there are none. -/
theorem typeOf?_states (m : Model) (doc : Document) (c : Cursor) (hclean : doc.errors = [])
    (hc : c ∈ doc.root.nodes) :
    (c.kind = .castExpression → ∃ t e, c.children = [t, e] ∧ t.kind.isType = true ∧
      e.kind.isExpr = true ∧ m.typeOf? c = some (m.resolveType t)) ∧
    (c.kind = .asExpression → ∃ e t, c.children = [e, t] ∧ e.kind.isExpr = true ∧
      t.kind.isType = true ∧
      m.typeOf? c = some (m.resolveType (if e.kind.isType then e else t))) ∧
    (c.kind = .defaultExpression → c.children = [] ∧ m.typeOf? c = none ∨
      ∃ t, c.children = [t] ∧ t.kind.isType = true ∧ m.typeOf? c = some (m.resolveType t)) ∧
    (c.kind = .objectCreationExpression → ∃ written ranks more : List Cursor,
      c.children = written ++ (ranks ++ more) ∧
      (∀ rank ∈ ranks, rank.kind = .arrayRankSpecifier) ∧
      (∀ d ∈ more, d.kind = .argumentList ∨ d.kind = .initializerExpression) ∧
      (written = [] ∧ m.typeOf? c = none ∨ ∃ t, written = [t] ∧ t.kind.isType = true ∧
        m.typeOf? c = some (m.resolveType t) ∧
        ∀ rs : List Nat, rs.length = ranks.length →
          (m.typeOf? c = some ((m.resolveType t).arrays rs) ↔ ranks = []))) := by
  refine ⟨fun hkind => ?_, fun hkind => ?_, fun hkind => ?_, fun hkind => ?_⟩
  · obtain ⟨t, e, hchildren, ht, he⟩ := children_cast hclean hc hkind
    refine ⟨t, e, hchildren, ht, he, ?_⟩
    simp [typeOf?_of_statesType hc (.inl hkind), hchildren, ht]
  · obtain ⟨e, t, hchildren, he, ht⟩ := children_as hclean hc hkind
    refine ⟨e, t, hchildren, he, ht, ?_⟩
    rw [typeOf?_of_statesType hc (.inr (.inl hkind)), hchildren]
    by_cases hname : e.kind.isType = true
    · simp [hname]
    · simp [hname, ht]
  · rw [typeOf?_of_statesType hc (.inr (.inr (.inl hkind)))]
    rcases children_default hclean hc hkind with hchildren | ⟨t, hchildren, ht⟩
    · exact .inl ⟨hchildren, by rw [hchildren]; rfl⟩
    · exact .inr ⟨t, hchildren, ht, by simp [hchildren, ht]⟩
  · obtain ⟨written, ranks, more, hchildren, hwritten, hranks, hmore⟩ :=
      children_creation hclean hc hkind
    have htype : m.typeOf? c = (written.find? fun d => d.kind.isType).map m.resolveType := by
      have hbehind : (ranks ++ more).find? (fun d => d.kind.isType) = none := by
        rw [List.find?_eq_none]
        intro d hd
        rcases List.mem_append.mp hd with hd | hd
        · simp [hranks d hd, Kind.isType]
        · rcases hmore d hd with h | h <;> simp [h, Kind.isType]
      rw [typeOf?_of_statesType hc (.inr (.inr (.inr hkind))), hchildren, List.find?_append,
        hbehind, Option.or_none]
    refine ⟨written, ranks, more, hchildren, hranks, hmore, ?_⟩
    rcases hwritten with rfl | ⟨t, rfl, ht⟩
    · exact .inl ⟨rfl, htype⟩
    · replace htype : m.typeOf? c = some (m.resolveType t) := by simpa [ht] using htype
      refine .inr ⟨t, rfl, ht, htype, fun rs hrs => ?_⟩
      rw [htype, Option.some.injEq, Ty.eq_arrays_iff, ← List.length_eq_zero_iff, hrs,
        List.length_eq_zero_iff]

/-- A project with one document, in which a name is read with `as` and an array is created. -/
def statedProject : Project :=
  Project.empty.append (Document.read 0 "stated.cs"
    "class C \x7b object o; object p = o as string; object q = new int[3]; \x7d" 0) rfl

/-- Its `as` has the unknown type `o` in place of `string`, and its array is an `int`. -/
theorem nodes_statedProject : ∃ doc ∈ statedProject.documents, doc.errors = [] ∧
    (∃ c ∈ doc.root.nodes, c.kind = .asExpression ∧
      (ofFirst statedProject).typeOf? c = some (.error "o") ∧
      c.children.map (ofFirst statedProject).resolveType = [.error "o", .plain ⟨1⟩]) ∧
    ∃ c ∈ doc.root.nodes, c.kind = .objectCreationExpression ∧
      (ofFirst statedProject).typeOf? c = some (.plain ⟨9⟩) ∧
      c.children.map Cursor.kind = [.predefinedType, .arrayRankSpecifier] := by
  have hnodes : statedProject.quick.documents.map Document.errors = [[]] ∧
      ((nodesIn statedProject.quick .asExpression).map fun c =>
        ((ofFirst statedProject.quick).typeOf? c,
          c.children.map (ofFirst statedProject.quick).resolveType)) =
        [(some (.error "o"), [.error "o", .plain ⟨1⟩])] ∧
      ((nodesIn statedProject.quick .objectCreationExpression).map fun c =>
        ((ofFirst statedProject.quick).typeOf? c, c.children.map Cursor.kind)) =
        [(some (.plain ⟨9⟩), [.predefinedType, .arrayRankSpecifier])] := by
    decide +kernel
  rw [Project.quick_eq] at hnodes
  obtain ⟨hclean, has, hnew⟩ := hnodes
  obtain ⟨c, rest, has, hc, -⟩ := List.map_eq_cons_iff.mp has
  obtain ⟨d, rest', hnew, hd, -⟩ := List.map_eq_cons_iff.mp hnew
  obtain ⟨doc, hdoc, hmem, hkind⟩ :=
    exists_doc_of_mem_nodesIn (has ▸ List.mem_cons_self : c ∈ nodesIn statedProject .asExpression)
  obtain ⟨doc', hdoc', hmem', hkind'⟩ := exists_doc_of_mem_nodesIn
    (hnew ▸ List.mem_cons_self : d ∈ nodesIn statedProject .objectCreationExpression)
  obtain ⟨only, none, hdocs, hclean, hnone⟩ := List.map_eq_cons_iff.mp hclean
  obtain rfl := List.map_eq_nil_iff.mp hnone
  rw [hdocs, List.mem_singleton] at hdoc hdoc'
  subst hdoc hdoc'
  obtain ⟨htype, hchildren⟩ := Prod.mk.inj hc
  obtain ⟨htype', hchildren'⟩ := Prod.mk.inj hd
  exact ⟨doc', by simp [hdocs], hclean, ⟨c, hmem, hkind, htype, hchildren⟩,
    d, hmem', hkind', htype', hchildren'⟩

theorem typeOf?_states_operand : ∃ doc ∈ statedProject.documents, doc.errors = [] ∧
    ∃ c ∈ doc.root.nodes, c.kind = .asExpression ∧ ∃ e t, c.children = [e, t] ∧
      (ofFirst statedProject).typeOf? c =
        some ((ofFirst statedProject).resolveType (if e.kind.isType then e else t)) := by
  obtain ⟨doc, hdoc, hclean, ⟨c, hc, hkind, -⟩, -⟩ := nodes_statedProject
  obtain ⟨-, has, -⟩ := typeOf?_states (ofFirst statedProject) doc c hclean hc
  obtain ⟨e, t, hchildren, -, -, htype⟩ := has hkind
  exact ⟨doc, hdoc, hclean, c, hc, hkind, e, t, hchildren, htype⟩

/-- `o as string` is not a `string`, and `new int[3]` is not an array. -/
theorem typeOf?_unstated : ∃ doc ∈ statedProject.documents, doc.errors = [] ∧
    (∃ c ∈ doc.root.nodes, c.kind = .asExpression ∧ ∃ e t, c.children = [e, t] ∧
      (ofFirst statedProject).typeOf? c ≠ some ((ofFirst statedProject).resolveType t)) ∧
    ∃ c ∈ doc.root.nodes, c.kind = .objectCreationExpression ∧ ∃ t rank, c.children = [t, rank] ∧
      rank.kind = .arrayRankSpecifier ∧
      ∀ r, (ofFirst statedProject).typeOf? c ≠
        some (.array ((ofFirst statedProject).resolveType t) r) := by
  obtain ⟨doc, hdoc, hclean, ⟨c, hc, hkind, htype, hchildren⟩, d, hd, hkind', htype', hchildren'⟩ :=
    nodes_statedProject
  obtain ⟨e, rest, hc', -, hrest⟩ := List.map_eq_cons_iff.mp hchildren
  obtain ⟨t, none, rfl, ht, hnone⟩ := List.map_eq_cons_iff.mp hrest
  obtain rfl := List.map_eq_nil_iff.mp hnone
  obtain ⟨t', rest, hd', -, hrest⟩ := List.map_eq_cons_iff.mp hchildren'
  obtain ⟨rank, none, rfl, hrank, hnone⟩ := List.map_eq_cons_iff.mp hrest
  obtain rfl := List.map_eq_nil_iff.mp hnone
  refine ⟨doc, hdoc, hclean, ⟨c, hc, hkind, e, t, hc', ?_⟩, d, hd, hkind', t', rank, hd', hrank, ?_⟩
  · simp [htype, ht, Ty.plain]
  · simp [htype', Ty.plain]

end Model

end CSharpKit.Semantics
