import CSharpKit.Syntax.Tree

/-!
# Shapes of trees

What the parser guarantees of the trees it builds, whatever the source. A shape
says of each node, by its kind, what its children may be. Recovery leaves parts
out and puts stray tokens anywhere, so a shape says little about what has to be
there and more about what cannot be.
-/

namespace CSharpKit.Syntax

/-- Declarations that have a token of their own: a keyword or a name. -/
def Kind.hasOwnToken : Kind → Bool
  | .classDeclaration | .structDeclaration | .interfaceDeclaration | .enumDeclaration
  | .delegateDeclaration | .methodDeclaration | .constructorDeclaration => true
  | _ => false

namespace Tree

/-- Induction over a tree, with the hypothesis for all children of a node. -/
@[elab_as_elim]
theorem inductionOn {P : Tree → Prop} (t : Tree) (token : ∀ k s, P (.token k s))
    (node : ∀ k cs, (∀ c ∈ cs, P c) → P (.node k cs)) : P t := by
  refine @Tree.rec P (fun cs => ∀ c ∈ cs, P c) node token ?_ ?_ t
  · simp
  · intro c cs hc hcs
    simpa using ⟨hc, hcs⟩

mutual

/-- Every node has the property `N` and every token the property `T`. -/
def All (N : Kind → Forest → Prop) (T : Kind → String → Prop) : Tree → Prop
  | .node k cs => N k cs ∧ AllIn N T cs
  | .token k s => T k s

/-- Every tree in a row has all nodes and tokens as they should be. -/
def AllIn (N : Kind → Forest → Prop) (T : Kind → String → Prop) : Forest → Prop
  | [] => True
  | t :: ts => All N T t ∧ AllIn N T ts

end

section

variable {N N' : Kind → Forest → Prop} {T T' : Kind → String → Prop}

theorem allIn_iff {ts : Forest} : AllIn N T ts ↔ ∀ t ∈ ts, All N T t := by
  induction ts with
  | nil => simp [AllIn]
  | cons t ts ih => simp [AllIn, ih]

@[simp] theorem all_node {k : Kind} {cs : Forest} :
    All N T (.node k cs) ↔ N k cs ∧ ∀ c ∈ cs, All N T c := by
  rw [All, allIn_iff]

@[simp] theorem all_token {k : Kind} {s : String} : All N T (.token k s) ↔ T k s := by
  rw [All]

theorem All.imp (hN : ∀ k cs, (∀ c ∈ cs, All N T c) → N k cs → N' k cs)
    (hT : ∀ k s, T k s → T' k s) {t : Tree} (h : All N T t) : All N' T' t := by
  induction t using Tree.inductionOn with
  | token k s => exact all_token.mpr (hT k s (all_token.mp h))
  | node k cs ih =>
      obtain ⟨hk, hcs⟩ := all_node.mp h
      exact all_node.mpr ⟨hN k cs hcs hk, fun c hc => ih c hc (hcs c hc)⟩

theorem mem_forestLeaves {ts : Forest} {leaf : Kind × String} :
    leaf ∈ forestLeaves ts ↔ ∃ t ∈ ts, leaf ∈ t.leaves := by
  induction ts with
  | nil => simp [forestLeaves]
  | cons t ts ih => simp [forestLeaves, ih]

theorem All.leaves {t : Tree} (h : All N T t) : ∀ leaf ∈ t.leaves, T leaf.1 leaf.2 := by
  induction t using Tree.inductionOn with
  | token k s =>
      intro leaf hleaf
      obtain rfl : leaf = (k, s) := by simpa [Tree.leaves] using hleaf
      exact all_token.mp h
  | node k cs ih =>
      intro leaf hleaf
      obtain ⟨c, hc, hleaf⟩ := mem_forestLeaves.mp (by simpa [Tree.leaves] using hleaf)
      exact ih c hc ((all_node.mp h).2 c hc) leaf hleaf

end

/-! ## Types -/

/-- The nodes that occur in a written type. -/
def isTypePart (k : Kind) : Bool :=
  k.isType || k == .typeArgumentList || k == .arrayRankSpecifier

/-- The tokens that occur in a written type. -/
def isTypeToken (k : Kind) : Bool :=
  k.isTrivia || k.isPredefinedType ||
    [.voidKw, .identifier, .less, .comma, .greater, .dot, .colonColon, .question, .lBracket,
      .rBracket].contains k

/-- A written type, or a part of one. -/
def IsTypeSyntax : Tree → Prop :=
  All (fun k _ => isTypePart k = true) fun k _ => isTypeToken k = true

/-! ## Constructs -/

/-- A tree without parameters in it. -/
def NoParameters : Tree → Prop := All (fun k _ => k ≠ .parameter) fun _ _ => True

/-- Among trees in a row there is a token. -/
def HasToken (cs : Forest) : Prop := ∃ c ∈ cs, c.isToken = true

/-- A tree that is neither a name nor a type by itself. -/
def NoNameNoType (t : Tree) : Prop :=
  (t.isToken = true → t.kind ≠ .identifier) ∧ (t.isNode = true → t.kind.isType = false)

/-- A parameter that has a name has a type, and nothing but trivia stands between the two. -/
inductive NamedIsTyped (cs : Forest) : Prop
  | unnamed (hcs : ∀ c ∈ cs, c.isToken = true → c.kind ≠ .identifier)
  | named {front gap rest : Forest} {type name : Tree}
      (hcs : cs = front ++ type :: (gap ++ name :: rest)) (hfront : ∀ c ∈ front, NoNameNoType c)
      (htype : type.isNode = true ∧ type.kind.isType = true)
      (hgeneric : type.kind = .genericName → HasToken type.children)
      (hgap : ∀ c ∈ gap, c.isToken = true ∧ c.kind.isTrivia = true)
      (hname : name.isToken = true ∧ name.kind = .identifier)
      (hrest : ∀ c ∈ rest, c.isToken = true → c.kind ≠ .identifier)

theorem NamedIsTyped.exists_type {cs : Forest} (h : NamedIsTyped cs)
    (hname : ∃ c ∈ cs, c.isToken = true ∧ c.kind = .identifier) :
    ∃ c ∈ cs, c.isNode = true ∧ c.kind.isType = true := by
  cases h with
  | unnamed hcs =>
      obtain ⟨c, hc, htoken, hkind⟩ := hname
      exact absurd hkind (hcs c hc htoken)
  | @named front gap rest type _ hcs _ htype _ =>
      exact ⟨type, hcs ▸ List.mem_append_right _ List.mem_cons_self, htype⟩

/-- What a kind says of the children of a node. -/
def NodeShape (k : Kind) (cs : Forest) : Prop :=
  match k with
  -- The root is the only one of its kind.
  | .compilationUnit => False
  | .predefinedType | .identifierName | .genericName | .qualifiedName | .aliasQualifiedName
  | .arrayType | .nullableType => ∀ c ∈ cs, IsTypeSyntax c
  -- A parameter inside a parameter stands behind the `=` of its value.
  | .parameter => ∀ c ∈ cs, NoParameters c ∨ c.kind ≠ .parameter ∧ HasToken c.children
  | .classDeclaration | .structDeclaration | .interfaceDeclaration | .enumDeclaration
  | .delegateDeclaration => HasToken cs
  | .methodDeclaration | .constructorDeclaration =>
    HasToken cs ∧ ∀ list ∈ cs, list.kind = .parameterList →
      ∀ p ∈ list.children, p.kind = .parameter → NamedIsTyped p.children
  | .invocationExpression => ∃ c ∈ cs, c.kind = .argumentList ∧ HasToken c.children
  | _ => True

/-- Every node of a tree has the shape of its kind. -/
def WellShaped : Tree → Prop := All NodeShape fun _ _ => True

@[simp] theorem wellShaped_token (k : Kind) (s : String) : WellShaped (.token k s) := by
  simp [WellShaped]

theorem wellShaped_node {k : Kind} {cs : Forest} :
    WellShaped (.node k cs) ↔ NodeShape k cs ∧ ∀ c ∈ cs, WellShaped c := all_node

theorem nodeShape_of_isTypePart {k : Kind} {cs : Forest} (hk : isTypePart k = true)
    (hcs : ∀ c ∈ cs, IsTypeSyntax c) : NodeShape k cs := by
  unfold NodeShape
  split <;> first | exact hcs | trivial

/-- A written type has a shape. -/
theorem IsTypeSyntax.wellShaped {t : Tree} (h : IsTypeSyntax t) : WellShaped t :=
  All.imp (fun _ _ hcs hk => nodeShape_of_isTypePart hk hcs) (fun _ _ _ => trivial) h

theorem IsTypeSyntax.noParameters {t : Tree} (h : IsTypeSyntax t) : NoParameters t :=
  All.imp (fun k _ _ hk => by rintro rfl; simp [isTypePart, Kind.isType] at hk)
    (fun _ _ _ => trivial) h

end Tree

end CSharpKit.Syntax
