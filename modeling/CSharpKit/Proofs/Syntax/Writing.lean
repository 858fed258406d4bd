import CSharpKit.Proofs.Syntax.TypeTrees
import CSharpKit.Proofs.Syntax.Words
import CSharpKit.Syntax.Build

/-!
# Types as they are written

Trees of types that are put together from names, keywords and other such trees, with
no trivia but the blank behind a comma. The text of such a tree is read back as
the tree itself.
-/

namespace CSharpKit.Syntax

open Tree Token
open CSharpKit.Syntax.Parser (IsGap isGap_nil isGap_space terminal_token)

namespace Build

/-- `name<arguments>`, or the name alone. -/
def simpleName (name : String) (arguments : Forest) : Node :=
  if arguments.isEmpty then identifierName name else genericName name arguments

/-- `left.right` -/
def member (left right : Tree) : Tree := .node .qualifiedName [left, .token .dot ".", right]

/-- `global::name` -/
def fromGlobal (name : Tree) : Tree :=
  .node .aliasQualifiedName [identifierName "global", .token .colonColon "::", name]

def nullableType (element : Tree) : Tree := .node .nullableType [element, .token .question "?"]

/-- Brackets behind an element type. -/
def rankSpecifier (rank : Nat) : Tree :=
  .node .arrayRankSpecifier (.token .lBracket "[" ::
    (List.replicate (rank - 1) (.token .comma ",") ++ [.token .rBracket "]"]))

/-- One more pair of brackets; the brackets of an array stand in one row. -/
def arrayType (element : Tree) (rank : Nat) : Tree :=
  if element.kind = .arrayType then .node .arrayType (element.children ++ [rankSpecifier rank])
  else .node .arrayType [element, rankSpecifier rank]

end Build

/-! ## Leaves -/

/-- Kinds of tokens that a type of some kind ends with. -/
def closesType (kind k : Kind) : Bool :=
  match kind with
  | .nullableType => k == .question
  | .arrayType => k == .rBracket
  | _ => k == .greater || k == .identifier || k.isKeyword

/-- The leaves of the tree of a type may stand in a row. -/
structure Readable (t : Tree) : Prop where
  pieces : ∀ l ∈ t.leaves, IsPiece l.1 l.2
  chain : t.leaves.IsChain fun a b => follows a.1 b.1 = true
  opens : ∃ l more, t.leaves = l :: more ∧ (l.1 = .identifier ∨ l.1.isKeyword = true)
  closes : ∃ front l, t.leaves = front ++ [l] ∧ closesType t.kind l.1 = true

theorem Readable.legible {t : Tree} (h : Readable t) : Legible t.leaves :=
  legible_of_follows h.pieces h.chain

/-- A tree of a type whose leaves may stand in a row is read back from its text. -/
theorem parseType_text {node : Node} (ht : TypeTree node.tree) (h : Readable node.tree) :
    parseType node.tree.text = .ok node :=
  parseType_of_typeTree ht (map_leaf_contents (h.legible.separable.scans true) rfl)

/-- No mark joins the end of a type that goes on with it. -/
theorem follows_of_closes {kind k next : Kind} (h : closesType kind k = true)
    (hnext : next ∈ [Kind.comma, .greater, .lBracket] ∨
      (next = .question ∨ next = .dot) ∧ kind ≠ .nullableType) : follows k next = true := by
  have hword : k = .identifier ∨ k.isKeyword = true → next ∈ [Kind.comma, .greater, .lBracket,
      .question, .dot] → follows k next = true := by
    intro hk hmem
    rw [follows_word hk]
    have hmarks : ∀ next ∈ [Kind.comma, .greater, .lBracket, .question, .dot],
        (!(next == .identifier || next.isKeyword)) = true := by decide
    exact hmarks next hmem
  have hmem : next ∈ [Kind.comma, .greater, .lBracket, .question, .dot] := by
    rcases hnext with hnext | ⟨rfl | rfl, -⟩
    · simp only [List.mem_cons, List.not_mem_nil, or_false] at hnext ⊢
      tauto
    · decide
    · decide
  unfold closesType at h
  split at h
  · obtain rfl : k = .question := by simpa using h
    rcases hnext with hnext | ⟨-, hne⟩
    · revert hnext
      revert next
      decide
    · exact absurd rfl hne
  · obtain rfl : k = .rBracket := by simpa using h
    rfl
  · simp only [Bool.or_eq_true, beq_iff_eq] at h
    rcases h with (rfl | rfl) | hk
    · rfl
    · exact hword (.inl rfl) hmem
    · exact hword (.inr hk) hmem

theorem isWordKind_ne {k next : Kind} (hk : k ∈ [Kind.dot, .less, .whitespace, .colonColon])
    (hnext : next = .identifier ∨ next.isKeyword = true) : follows k next = true := by
  have hne : next ≠ .whitespace ∧ next ≠ .less := by
    constructor
    · rintro rfl
      exact absurd hnext (by decide)
    · rintro rfl
      exact absurd hnext (by decide)
  simp only [List.mem_cons, List.not_mem_nil, or_false] at hk
  rcases hk with rfl | rfl | rfl | rfl <;> simp [follows, hne]

namespace Readable

variable {t : Tree} {k : Kind} {text : String} {more : List (Kind × String)}

/-- A mark behind a type, and what stands behind that. -/
theorem chain_append (h : Readable t) (hk : k ∈ [Kind.comma, .greater, .lBracket] ∨
      (k = .question ∨ k = .dot) ∧ t.kind ≠ .nullableType)
    (hmore : ((k, text) :: more).IsChain fun a b => follows a.1 b.1 = true) :
    (t.leaves ++ (k, text) :: more).IsChain fun a b => follows a.1 b.1 = true := by
  obtain ⟨front, last, hleaves, hlast⟩ := h.closes
  refine List.isChain_append.mpr ⟨h.chain, hmore, fun l hl next hnext => ?_⟩
  rw [hleaves, List.getLast?_concat] at hl
  obtain rfl := Option.mem_some_iff.mp hl
  obtain rfl := Option.mem_some_iff.mp hnext
  exact follows_of_closes hlast hk

/-- A type behind a mark. -/
theorem chain_cons (hk : k ∈ [Kind.dot, .less, .whitespace, .colonColon]) (h : Readable t)
    (hmore : (t.leaves ++ more).IsChain fun a b => follows a.1 b.1 = true) :
    ((k, text) :: (t.leaves ++ more)).IsChain fun a b => follows a.1 b.1 = true := by
  obtain ⟨l, rest, hleaves, hl⟩ := h.opens
  rw [hleaves, List.cons_append] at hmore ⊢
  exact List.isChain_cons_cons.mpr ⟨isWordKind_ne hk hl, hmore⟩

end Readable

theorem readable_identifierName {name : String} (h : IsName name) :
    Readable (Build.identifierName name).tree where
  pieces := by
    intro l hl
    obtain rfl : l = (.identifier, name) := by simpa [Node.tree, Build.identifierName, leaves,
      forestLeaves] using hl
    exact .word h.isWord
  chain := List.IsChain.singleton _
  opens := ⟨(.identifier, name), [], rfl, .inl rfl⟩
  closes := ⟨[], (.identifier, name), rfl, rfl⟩

/-- Keywords that write a type. -/
def typeKeywords : List Kind := Kind.keywords.map (·.2) |>.filter fun k =>
  k.isPredefinedType || k == .voidKw

theorem mem_typeKeywords {k : Kind} (h : k.isPredefinedType = true ∨ k = .voidKw) :
    k ∈ typeKeywords := by
  rcases h with h | rfl
  · cases k <;> first | exact absurd h (by decide) | decide
  · decide

theorem isWord_keywordText {k : Kind} (h : k.isPredefinedType = true ∨ k = .voidKw) :
    IsWord k.keywordText k := by
  have hwords : (typeKeywords.all fun k => k.keywordText.toList.head?.any opensIdentifier &&
      k.keywordText.toList.tail.all continuesIdentifier &&
      (Kind.ofKeyword? k.keywordText).getD .identifier == k) = true := by decide +kernel
  simp only [List.all_eq_true, Bool.and_eq_true, beq_iff_eq] at hwords
  obtain ⟨⟨hhead, htail⟩, hkind⟩ := hwords k (mem_typeKeywords h)
  cases hchars : k.keywordText.toList with
  | nil => simp [hchars] at hhead
  | cons c cs =>
      rw [hchars] at hhead htail
      have htext : k.keywordText = String.ofList (c :: cs) := by rw [← hchars, String.ofList_toList]
      have hword := IsWord.plain htext hhead htail
      rwa [hkind] at hword

theorem readable_predefinedType {k : Kind} (h : k.isPredefinedType = true ∨ k = .voidKw) :
    Readable (Build.predefinedType k k.keywordText).tree := by
  have hword := isWord_keywordText h
  have hkind : closesType .predefinedType k = true := by
    rcases hword.kind_eq with hk | hk <;> simp [closesType, hk]
  refine ⟨?_, List.IsChain.singleton _, ⟨(k, k.keywordText), [], rfl, hword.kind_eq⟩,
    ⟨[], (k, k.keywordText), rfl, hkind⟩⟩
  intro l hl
  obtain rfl : l = (k, k.keywordText) := by simpa [Node.tree, Build.predefinedType, leaves,
    forestLeaves] using hl
  exact .word hword

theorem leaves_member (left right : Tree) :
    (Build.member left right).leaves = left.leaves ++ (.dot, ".") :: right.leaves := by
  simp [Build.member, leaves, forestLeaves]

theorem leaves_fromGlobal (name : Tree) : (Build.fromGlobal name).leaves =
    (.identifier, "global") :: (.colonColon, "::") :: name.leaves := by
  simp [Build.fromGlobal, Build.identifierName, Node.tree, leaves, forestLeaves]

theorem leaves_nullableType (t : Tree) :
    (Build.nullableType t).leaves = t.leaves ++ [(.question, "?")] := by
  simp [Build.nullableType, leaves, forestLeaves]

theorem readable_member {left right : Tree} (hleft : Readable left) (hright : Readable right)
    (hkind : left.kind ≠ .nullableType) (hclose : closesType right.kind = closesType .qualifiedName) :
    Readable (Build.member left right) := by
  have hleaves := leaves_member left right
  obtain ⟨first, more, hfirst, hopens⟩ := hleft.opens
  obtain ⟨front, last, hlast, hcloses⟩ := hright.closes
  refine ⟨?_, ?_, ⟨first, more ++ (.dot, ".") :: right.leaves, ?_, hopens⟩,
    ⟨left.leaves ++ (.dot, ".") :: front, last, ?_, hclose ▸ hcloses⟩⟩
  · rw [hleaves]
    simp only [List.forall_mem_append, List.forall_mem_cons]
    exact ⟨hleft.pieces, .mark (by decide), hright.pieces⟩
  · rw [hleaves]
    refine hleft.chain_append (.inr ⟨.inr rfl, hkind⟩) ?_
    have hmore := hright.chain
    rw [← List.append_nil right.leaves] at hmore ⊢
    exact Readable.chain_cons (by decide) hright hmore
  · rw [hleaves, hfirst, List.cons_append]
  · rw [hleaves, hlast, List.append_assoc, List.cons_append]

theorem readable_fromGlobal {name : Tree} (h : Readable name)
    (hclose : closesType name.kind = closesType .aliasQualifiedName) :
    Readable (Build.fromGlobal name) := by
  have hleaves := leaves_fromGlobal name
  obtain ⟨front, last, hlast, hcloses⟩ := h.closes
  refine ⟨?_, ?_, ⟨(.identifier, "global"), _, hleaves, .inl rfl⟩,
    ⟨(.identifier, "global") :: (.colonColon, "::") :: front, last, ?_, hclose ▸ hcloses⟩⟩
  · rw [hleaves]
    simp only [List.forall_mem_cons]
    exact ⟨.word (IsName.isWord (by decide +kernel)), .mark (by decide), h.pieces⟩
  · rw [hleaves]
    have hmore := h.chain
    rw [← List.append_nil name.leaves] at hmore ⊢
    exact List.isChain_cons_cons.mpr ⟨rfl, Readable.chain_cons (by decide) h hmore⟩
  · rw [hleaves, hlast]
    rfl

theorem readable_nullableType {t : Tree} (h : Readable t) (hkind : t.kind ≠ .nullableType) :
    Readable (Build.nullableType t) := by
  have hleaves := leaves_nullableType t
  obtain ⟨first, more, hfirst, hopens⟩ := h.opens
  refine ⟨?_, ?_, ⟨first, more ++ [(.question, "?")], ?_, hopens⟩,
    ⟨t.leaves, (.question, "?"), hleaves, rfl⟩⟩
  · rw [hleaves]
    simp only [List.forall_mem_append, List.forall_mem_singleton]
    exact ⟨h.pieces, .mark (by decide)⟩
  · rw [hleaves]
    exact h.chain_append (.inr ⟨.inl rfl, hkind⟩) (List.IsChain.singleton _)
  · rw [hleaves, hfirst, List.cons_append]

/-! ## Arrays -/

theorem leaves_rankSpecifier (rank : Nat) : (Build.rankSpecifier rank).leaves =
    (.lBracket, "[") :: (List.replicate (rank - 1) (.comma, ",") ++ [(.rBracket, "]")]) := by
  have hcommas : ∀ n, forestLeaves (List.replicate n (.token .comma ",")) =
      List.replicate n (.comma, ",") := by
    intro n
    induction n with
    | zero => rfl
    | succ n ih => rw [List.replicate_succ, forestLeaves, ih]; rfl
  simp [Build.rankSpecifier, leaves, forestLeaves, hcommas]

theorem chain_rankSpecifier (rank : Nat) :
    (Build.rankSpecifier rank).leaves.IsChain fun a b => follows a.1 b.1 = true := by
  rw [leaves_rankSpecifier]
  generalize rank - 1 = n
  have hcommas : ∀ k, k = .lBracket ∨ k = .comma → ∀ text,
      ((k, text) :: (List.replicate n (.comma, ",") ++ [(.rBracket, "]")])).IsChain
        fun a b => follows a.1 b.1 = true := by
    induction n with
    | zero => rintro k (rfl | rfl) text <;> exact List.isChain_pair.mpr rfl
    | succ n ih =>
        intro k hk text
        rw [List.replicate_succ, List.cons_append]
        refine List.isChain_cons_cons.mpr ⟨?_, ih .comma (.inr rfl) ","⟩
        rcases hk with rfl | rfl <;> rfl
  exact hcommas .lBracket (.inl rfl) "["

theorem leaves_arrayType (t : Tree) (rank : Nat) (h : t.isNode = true) :
    (Build.arrayType t rank).leaves = t.leaves ++ (Build.rankSpecifier rank).leaves := by
  unfold Build.arrayType
  split
  · cases t with
    | token => cases h
    | node k cs => simp [leaves, children, forestLeaves]
  · simp [leaves, forestLeaves]

theorem readable_arrayType {t : Tree} (h : Readable t) (hnode : t.isNode = true) (rank : Nat) :
    Readable (Build.arrayType t rank) := by
  have hleaves := leaves_arrayType t rank hnode
  have hrank := leaves_rankSpecifier rank
  have hkind : (Build.arrayType t rank).kind = .arrayType := by
    unfold Build.arrayType
    split <;> rfl
  obtain ⟨first, more, hfirst, hopens⟩ := h.opens
  refine ⟨?_, ?_, ⟨first, more ++ (Build.rankSpecifier rank).leaves, ?_, hopens⟩,
    ⟨t.leaves ++ (.lBracket, "[") :: List.replicate (rank - 1) (.comma, ","), (.rBracket, "]"), ?_,
      by rw [hkind]; rfl⟩⟩
  · rw [hleaves, hrank]
    simp only [List.forall_mem_append, List.forall_mem_cons]
    refine ⟨h.pieces, .mark (by decide), fun l hl => ?_, .mark (by decide), nofun⟩
    obtain rfl := List.eq_of_mem_replicate hl
    exact .mark (by decide)
  · have hchain := chain_rankSpecifier rank
    rw [hleaves]
    rw [hrank] at hchain ⊢
    exact h.chain_append (.inl (by decide)) hchain
  · rw [hleaves, hfirst, List.cons_append]
  · rw [hleaves, hrank]
    simp

/-! ## Names with type arguments -/

theorem filter_commaSeparated {p : Tree → Bool} {ts : Forest} (h : ∀ t ∈ ts, p t = true)
    (hcomma : p (.token .comma ",") = false) (hspace : p Build.space = false) :
    (Build.commaSeparated ts).filter p = ts := by
  induction ts with
  | nil => rfl
  | cons t ts ih =>
      have ht := h t List.mem_cons_self
      have hts := ih fun u hu => h u (List.mem_cons_of_mem _ hu)
      cases ts with
      | nil => simp [Build.commaSeparated, ht]
      | cons u us => simp [Build.commaSeparated, ht, hcomma, hspace, hts]

theorem leaves_genericName (name : String) (arguments : Forest) :
    (Build.genericName name arguments).tree.leaves = (.identifier, name) :: (.less, "<") ::
      (forestLeaves (Build.commaSeparated arguments) ++ [(.greater, ">")]) := by
  simp [Build.genericName, Node.tree, leaves, forestLeaves]

/-- Type arguments with commas between them, after what stands before the first one. -/
theorem chain_commaSeparated {arguments : Forest} (h : ∀ a ∈ arguments, Readable a)
    (hne : arguments ≠ []) {k : Kind} (hk : k ∈ [Kind.dot, .less, .whitespace, .colonColon])
    (text : String) : ((k, text) :: (forestLeaves (Build.commaSeparated arguments) ++
      [(.greater, ">")])).IsChain fun a b => follows a.1 b.1 = true := by
  induction arguments generalizing k text with
  | nil => exact absurd rfl hne
  | cons a arguments ih =>
      have ha := h a List.mem_cons_self
      cases arguments with
      | nil =>
          simp only [Build.commaSeparated, forestLeaves, List.append_nil]
          exact Readable.chain_cons hk ha (ha.chain_append (.inl (by decide)) (List.IsChain.singleton _))
      | cons b arguments =>
          have hmore := ih (fun c hc => h c (List.mem_cons_of_mem _ hc)) (List.cons_ne_nil _ _)
            (k := .whitespace) (by decide) " "
          simp only [Build.commaSeparated, Build.space, forestLeaves, leaves, List.append_assoc,
            List.cons_append, List.nil_append]
          exact Readable.chain_cons hk ha (ha.chain_append (.inl (by decide))
            (List.isChain_cons_cons.mpr ⟨rfl, hmore⟩))

theorem pieces_commaSeparated {arguments : Forest} (h : ∀ a ∈ arguments, Readable a) :
    ∀ l ∈ forestLeaves (Build.commaSeparated arguments), IsPiece l.1 l.2 := by
  induction arguments with
  | nil => nofun
  | cons a arguments ih =>
      have ha := (h a List.mem_cons_self).pieces
      cases arguments with
      | nil => simpa [Build.commaSeparated, forestLeaves] using ha
      | cons b arguments =>
          have hmore := ih fun c hc => h c (List.mem_cons_of_mem _ hc)
          simp only [Build.commaSeparated, Build.space, forestLeaves, leaves, List.forall_mem_append,
            List.forall_mem_cons, List.cons_append, List.nil_append]
          exact ⟨ha, .mark (by decide), .space, hmore⟩

theorem readable_simpleName {name : String} {arguments : Forest} (hname : IsName name)
    (h : ∀ a ∈ arguments, Readable a) : Readable (Build.simpleName name arguments).tree := by
  unfold Build.simpleName
  split
  · exact readable_identifierName hname
  · next hne =>
    have hleaves := leaves_genericName name arguments
    refine ⟨?_, ?_, ⟨(.identifier, name), _, hleaves, .inl rfl⟩,
      ⟨(.identifier, name) :: (.less, "<") :: forestLeaves (Build.commaSeparated arguments),
        (.greater, ">"), by rw [hleaves]; rfl, rfl⟩⟩
    · rw [hleaves]
      simp only [List.forall_mem_append, List.forall_mem_cons]
      exact ⟨.word hname.isWord, .mark (by decide), pieces_commaSeparated h, .mark (by decide), nofun⟩
    · rw [hleaves]
      refine List.isChain_cons_cons.mpr ⟨rfl, chain_commaSeparated h ?_ (by decide) "<"⟩
      simpa using hne

/-! ## Trees of types -/

/-- A name ends as other names do, whatever its form. -/
theorem NameTree.closesType_eq {t : Tree} (h : NameTree t) :
    closesType t.kind = closesType .qualifiedName := by
  cases h with
  | simple h => cases h <;> rfl
  | aliased | qualified => rfl

theorem typeTree_predefinedType {k : Kind} (h : k.isPredefinedType = true ∨ k = .voidKw)
    (text : String) : TypeTree (Build.predefinedType k text).tree := .keyword h

theorem slots_commaSeparated {arguments : Forest} (h : ∀ a ∈ arguments, TypeTree a) {g : Forest}
    (hg : IsGap g) (hne : arguments ≠ []) : Slots (g ++ Build.commaSeparated arguments) := by
  induction arguments generalizing g with
  | nil => exact absurd rfl hne
  | cons a arguments ih =>
      have ha := h a List.mem_cons_self
      cases arguments with
      | nil => exact .last hg ha
      | cons b arguments =>
          have hmore := ih (fun c hc => h c (List.mem_cons_of_mem _ hc)) isGap_space
            (List.cons_ne_nil _ _)
          exact .item hg ha (terminal_token .comma ",") hmore

theorem simpleTree_simpleName {name : String} {arguments : Forest}
    (h : ∀ a ∈ arguments, TypeTree a) : SimpleTree (Build.simpleName name arguments).tree := by
  unfold Build.simpleName
  split
  · exact .identifier
  · next hne =>
    have hslots := slots_commaSeparated h isGap_nil (by simpa using hne)
    exact .generic isGap_nil hslots (terminal_token .greater ">")

theorem nameTree_member {left right : Tree} (hleft : NameTree left) (hright : SimpleTree right) :
    NameTree (Build.member left right) :=
  .qualified hleft (terminal_token .dot ".") isGap_nil hright

theorem nameTree_fromGlobal {name : Tree} (h : SimpleTree name) :
    NameTree (Build.fromGlobal name) :=
  .aliased (terminal_token .colonColon "::") isGap_nil h

theorem typeTree_nullableType {t : Tree} (h : TypeTree t) : TypeTree (Build.nullableType t) :=
  .nullable h (terminal_token .question "?")

theorem ranks_rankSpecifier (rank : Nat) : Ranks [Build.rankSpecifier rank] := by
  have hcommas : ∀ n, Commas (List.replicate n (.token .comma ",")) := by
    intro n
    induction n with
    | zero => exact .nil
    | succ n ih => exact .cons (terminal_token .comma ",") ih
  exact .cons isGap_nil (hcommas _) (terminal_token .rBracket "]") .nil

theorem typeTree_arrayType {t : Tree} (h : TypeTree t) (rank : Nat) :
    TypeTree (Build.arrayType t rank) := by
  unfold Build.arrayType
  split
  · next hkind =>
    cases h with
    | keyword | nullable => cases hkind
    | name h => exact absurd (by rw [hkind]; decide) h.kind_not_mem
    | array ht hnot hranks hne =>
        exact .array ht hnot (hranks.append (ranks_rankSpecifier rank)) (by simp)
  · next hkind => exact .array h hkind (ranks_rankSpecifier rank) (List.cons_ne_nil _ _)

/-! ## Texts -/

theorem toList_text (t : Tree) : t.text.toList = t.leaves.flatMap fun l => l.2.toList := by
  rw [Tree.text, String.toList_join, List.flatMap_map]

theorem text_identifierName (name : String) : (Build.identifierName name).tree.text = name := by
  apply String.toList_injective
  simp [toList_text, Build.identifierName, Node.tree, leaves, forestLeaves]

theorem text_predefinedType (k : Kind) (text : String) :
    (Build.predefinedType k text).tree.text = text := by
  apply String.toList_injective
  simp [toList_text, Build.predefinedType, Node.tree, leaves, forestLeaves]

theorem text_member (left right : Tree) :
    (Build.member left right).text = left.text ++ "." ++ right.text := by
  apply String.toList_injective
  simp [toList_text, leaves_member]

theorem text_fromGlobal (name : Tree) : (Build.fromGlobal name).text = "global::" ++ name.text := by
  apply String.toList_injective
  simp [toList_text, leaves_fromGlobal]

theorem text_nullableType (t : Tree) : (Build.nullableType t).text = t.text ++ "?" := by
  apply String.toList_injective
  simp [toList_text, leaves_nullableType]

theorem text_arrayType {t : Tree} (h : t.isNode = true) (rank : Nat) : (Build.arrayType t rank).text =
    t.text ++ ("[" ++ String.ofList (List.replicate (rank - 1) ',') ++ "]") := by
  have hcommas : ∀ n, (List.replicate n (Kind.comma, ",")).flatMap (fun l => l.2.toList) =
      List.replicate n ',' := by
    intro n
    induction n with
    | zero => rfl
    | succ n ih => rw [List.replicate_succ, List.flatMap_cons, ih, List.replicate_succ]; rfl
  apply String.toList_injective
  simp [toList_text, leaves_arrayType t rank h, leaves_rankSpecifier, hcommas]

theorem intercalate_cons_cons (separator first second : String) (more : List String) :
    separator.intercalate (first :: second :: more) =
      separator.intercalate ((first ++ separator ++ second) :: more) := by
  apply String.toList_injective
  simp only [String.toList_intercalate, List.map_cons, String.toList_append]
  cases more with
  | nil => simp [List.intercalate_cons_cons]
  | cons third more => simp [List.intercalate_cons_cons]

theorem intercalate_append_cons (separator front first : String) (more : List String) :
    separator.intercalate ((front ++ first) :: more) = front ++ separator.intercalate (first :: more) := by
  apply String.toList_injective
  simp only [String.toList_intercalate, List.map_cons, String.toList_append]
  cases more with
  | nil => simp
  | cons second more => simp [List.intercalate_cons_cons]

theorem intercalate_concat (separator first : String) (more : List String) (last : String) :
    separator.intercalate (first :: (more ++ [last])) =
      separator.intercalate (first :: more) ++ separator ++ last := by
  induction more generalizing first with
  | nil => rfl
  | cons second more ih =>
      rw [List.cons_append, intercalate_cons_cons, ih, intercalate_cons_cons]

theorem toList_commaSeparated (arguments : Forest) :
    (forestLeaves (Build.commaSeparated arguments)).flatMap (fun l => l.2.toList) =
      (", ".intercalate (arguments.map Tree.text)).toList := by
  rw [String.toList_intercalate]
  induction arguments with
  | nil => rfl
  | cons a arguments ih =>
      cases arguments with
      | nil => simp [Build.commaSeparated, forestLeaves, toList_text]
      | cons b arguments =>
          simp only [Build.commaSeparated, Build.space, forestLeaves, leaves, List.flatMap_append,
            List.flatMap_cons, List.cons_append, List.nil_append, ih]
          simp [List.intercalate_cons_cons, toList_text]

theorem text_simpleName (name : String) (arguments : Forest) :
    (Build.simpleName name arguments).tree.text = if arguments.isEmpty then name
      else name ++ "<" ++ ", ".intercalate (arguments.map Tree.text) ++ ">" := by
  unfold Build.simpleName
  split
  · exact text_identifierName name
  · apply String.toList_injective
    simp [toList_text, leaves_genericName, toList_commaSeparated]

end CSharpKit.Syntax
