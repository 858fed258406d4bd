import CSharpKit.Proofs.Syntax.Lossless
import CSharpKit.Proofs.Syntax.Places
import CSharpKit.Syntax.Pointer

/-!
# Pointers lead back

A pointer is looked up by its span: the smallest element that covers the span,
and from there up to the first node of the right kind. So it finds the innermost
of the nodes that share a kind and a span. In the tree of a file a construct
that is pointed to is the only one: it has a token of its own beside what a
construct of the same kind inside it could hold.
-/

namespace CSharpKit.Syntax

open Tree Text

namespace Cursor

/-! ## Covering -/

theorem containsSpan_iff {s t : Span} :
    s.containsSpan t = true ↔ s.start ≤ t.start ∧ t.stop ≤ s.stop := by
  simp [Span.containsSpan]

theorem containsSpan_trans {s t u : Span} (hst : s.containsSpan t = true)
    (htu : t.containsSpan u = true) : s.containsSpan u = true := by
  rw [containsSpan_iff] at hst htu ⊢
  omega

theorem Below.containsSpan {c d : Cursor} (h : Below c d) : c.span.containsSpan d.span = true :=
  containsSpan_iff.mpr ⟨h.start_le, h.stop_le⟩

theorem childAt?_eq_some {c e : Cursor} {span : Span} (h : c.childAt? span = some e) :
    e ∈ c.elements ∧ e.span.containsSpan span = true := by
  rw [childAt?, Option.filter_eq_some_iff] at h
  obtain ⟨h, hspan⟩ := h
  refine ⟨?_, hspan⟩
  split at h
  · next found hfound =>
    obtain rfl : found = e := Option.some.inj h
    exact List.mem_of_find?_eq_some hfound
  · split at h
    · next found hfound =>
      obtain rfl : found = e := Option.some.inj h
      exact (List.takeWhile_sublist _).subset (List.mem_of_getLast? hfound)
    · exact List.mem_of_mem_head? h

/-- A child that contains a span is the one to look at: those before it end where
it starts. -/
theorem childAt?_of_containsSpan {c e : Cursor} {span : Span} (he : e ∈ c.elements)
    (hspan : e.span.containsSpan span = true) (hpos : 0 < span.length) :
    c.childAt? span = some e := by
  obtain ⟨hstart, hstop⟩ := containsSpan_iff.mp hspan
  replace hstart : e.start ≤ span.start := hstart
  replace hstop : span.stop ≤ e.stop := hstop
  have hlen : span.start < span.stop := by simp only [Span.stop]; omega
  let reaches (e : Cursor) : Bool := e.start < span.stop && span.start < e.stop
  have hreach : reaches e = true := by
    simp only [reaches, Bool.and_eq_true, decide_eq_true_eq]
    omega
  have hfind : c.elements.find? reaches = some e := by
    obtain ⟨i, hi, hget⟩ := List.mem_iff_getElem.mp he
    refine List.find?_eq_some_iff_getElem.mpr ⟨hreach, i, hi, hget, fun j hj => ?_⟩
    have hmem : c.elements[j] ∈ c.elements := List.getElem_mem _
    have hindex : ∀ (j : Nat) (hj : j < c.elements.length), c.elements[j].index = j := by
      intro j hj
      have := getElem?_elements c j
      rw [List.getElem?_eq_getElem hj] at this
      obtain ⟨t, -, ht⟩ := Option.map_eq_some_iff.mp this.symm
      rw [← ht]
      rfl
    have hsep := stop_le_start_of_index_lt hmem he
      (by rw [hindex, ← hget, hindex]; exact hj)
    simp only [reaches, Bool.not_eq_true', Bool.and_eq_false_iff, decide_eq_false_iff_not]
    omega
  simp only [childAt?, reaches] at hfind ⊢
  rw [hfind]
  simp [Option.filter, hspan]

/-- The descent to a span ends at an element that contains it. -/
theorem below_coverFrom {span : Span} (fuel : Nat) (c : Cursor) :
    Below c (coverFrom span fuel c) := by
  induction fuel generalizing c with
  | zero => exact Below.refl c
  | succ fuel ih =>
      rw [coverFrom]
      split
      · next e he => exact (below_of_mem_elements (childAt?_eq_some he).1).trans (ih e)
      · exact Below.refl c

theorem containsSpan_coverFrom {span : Span} (fuel : Nat) {c : Cursor}
    (h : c.span.containsSpan span = true) : (coverFrom span fuel c).span.containsSpan span = true := by
  induction fuel generalizing c with
  | zero => exact h
  | succ fuel ih =>
      rw [coverFrom]
      split
      · next e he => exact ih (childAt?_eq_some he).2
      · exact h

/-- The descent to a span passes the elements that contain it. -/
theorem below_coverFrom_of_containsSpan {c d : Cursor} {span : Span} (h : Below c d)
    (hspan : d.span.containsSpan span = true) (hpos : 0 < span.length) (fuel : Nat)
    (hfuel : c.focus.depth ≤ fuel) : Below d (coverFrom span fuel c) := by
  induction fuel generalizing c with
  | zero =>
      rcases h.cases_head with rfl | ⟨e, he, -⟩
      · exact below_coverFrom 0 c
      · have := depth_lt_of_mem (focus_mem_of_mem_elements he)
        omega
  | succ fuel ih =>
      rcases h.cases_head with rfl | ⟨e, he, hd⟩
      · exact below_coverFrom _ c
      · have hdepth := depth_lt_of_mem (focus_mem_of_mem_elements he)
        rw [coverFrom, childAt?_of_containsSpan he (containsSpan_trans hd.containsSpan hspan) hpos]
        exact ih hd (by omega)

theorem span_eq_of_containsSpan {c d : Cursor} (h : Below c d)
    (hspan : d.span.containsSpan c.span = true) : d.span = c.span := by
  obtain ⟨hstart, hstop⟩ := containsSpan_iff.mp hspan
  have hstart' := h.start_le
  have hstop' := h.stop_le
  replace hstart : d.start ≤ c.start := hstart
  replace hstop : c.stop ≤ d.stop := hstop
  rw [stop_eq, stop_eq] at hstop hstop'
  have hwidth : d.focus.width = c.focus.width := by omega
  have heq : d.start = c.start := by omega
  rw [span, span, heq, hwidth]

/-- An element with a text is covered by itself or by one below it of the same span. -/
theorem cover?_span {root c : Cursor} (h : Below root c) (hpos : 0 < c.focus.width) :
    ∃ d, root.cover? c.span = some d ∧ Below c d ∧ d.span = c.span := by
  have hroot := h.containsSpan
  refine ⟨coverFrom c.span root.focus.depth root, by rw [cover?, if_pos hroot], ?_⟩
  have hbelow := below_coverFrom_of_containsSpan h (Below.refl c).containsSpan hpos
    root.focus.depth (Nat.le_refl _)
  exact ⟨hbelow, span_eq_of_containsSpan hbelow (containsSpan_coverFrom _ hroot)⟩

/-! ## Climbing -/

/-- A node inside which no node of its kind takes all of its text. -/
def Outstanding (c : Cursor) : Prop :=
  ∀ d, Below c d → d.isNode = true → d.kind = c.kind → d.focus.width = c.focus.width → d = c

/-- Elements between two of the same span have it too. -/
theorem span_eq_of_between {c p d : Cursor} (hp : Below c p) (hd : Below p d)
    (h : d.span = c.span) : p.span = c.span :=
  span_eq_of_containsSpan hp (by rw [← h]; exact hd.containsSpan)

theorem climb_of_below {c d : Cursor} (h : Below c d) (hnode : d.isNode = true)
    (hspan : d.span = c.span) (hc : Outstanding c) : (Pointer.of c).climb d = some c := by
  have hfits : (Pointer.of c).fits c = true := by simp [Pointer.fits, Pointer.of]
  induction h with
  | refl => cases c <;> simp [Pointer.climb, hfits]
  | @tail p e hp he ih =>
      have hpspan : p.span = c.span := span_eq_of_between hp (below_of_mem_elements he) hspan
      have hpnode := isNode_of_mem_elements he
      by_cases hkind : e.kind = c.kind
      · have hwidth : e.focus.width = c.focus.width := congrArg Span.length hspan
        have heq : e = c := hc e (Below.element hp he) hnode hkind hwidth
        rw [heq]
        cases c <;> simp [Pointer.climb, hfits]
      · have hnot : (Pointer.of c).fits e = false := by simp [Pointer.fits, Pointer.of, hkind]
        obtain ⟨i, t, -, rfl⟩ := mem_elements_iff.mp he
        have hof : p.span = (Pointer.of c).span := hpspan
        rw [Pointer.climb, if_neg (by simp [hnot]), if_pos (beq_iff_eq.mpr hof)]
        exact ih hpnode hpspan

/-- The node that a lookup of a span starts to climb from lies below those with that span. -/
theorem cover?_node {root c : Cursor} (h : Below root c) (hnode : c.isNode = true)
    (hpos : 0 < c.focus.width) : ∃ d n, root.cover? c.span = some d ∧
      (if d.isNode then some d else d.parent?) = some n ∧ Below c n ∧ n.isNode = true ∧
        n.span = c.span := by
  obtain ⟨d, hcover, hd, hspan⟩ := cover?_span h hpos
  by_cases hdnode : d.isNode = true
  · exact ⟨d, d, hcover, by rw [if_pos hdnode], hd, hdnode, hspan⟩
  · rcases hd.cases_tail with rfl | ⟨p, hp, hdp⟩
    · exact absurd hnode hdnode
    · exact ⟨d, p, hcover, by rw [if_neg hdnode, parent?_of_mem_elements hdp], hp,
        isNode_of_mem_elements hdp, span_eq_of_between hp (below_of_mem_elements hdp) hspan⟩

/-- The pointer to a node that stands out leads back to it. -/
theorem resolve_pointer {root c : Cursor} (h : Below root c) (hnode : c.isNode = true)
    (hpos : 0 < c.focus.width) (hc : Outstanding c) :
    (Pointer.of c).resolve root = .ok (some c) := by
  obtain ⟨d, n, hcover, hn, hbelow, hnnode, hspan⟩ := cover?_node h hnode hpos
  have hcover' : root.cover? (Pointer.of c).span = some d := hcover
  rw [Pointer.resolve, hcover']
  simp only [hn, Option.bind_some, climb_of_below hbelow hnnode hspan hc]

/-- Nodes that stand out are told apart by their pointers. -/
theorem eq_of_pointer_eq {root c d : Cursor} (hc : Below root c) (hd : Below root d)
    (hcnode : c.isNode = true) (hdnode : d.isNode = true) (hcpos : 0 < c.focus.width)
    (hcout : Outstanding c) (hdout : Outstanding d) (h : Pointer.of c = Pointer.of d) : c = d := by
  have hwidth : c.focus.width = d.focus.width := congrArg (·.span.length) h
  have hcd := resolve_pointer hc hcnode hcpos hcout
  rw [h, resolve_pointer hd hdnode (hwidth ▸ hcpos) hdout] at hcd
  exact (Option.some.inj (Except.ok.inj hcd)).symm

end Cursor

/-! ## Constructs that stand out -/

/-- A tree without empty tokens. -/
def Tree.Solid : Tree → Prop := All (fun _ _ => True) fun _ s => s ≠ ""

theorem Tree.Solid.width_pos {t : Tree} (h : Solid t) (ht : t.isToken = true) : 0 < t.width := by
  cases t with
  | node k cs => simp [isToken, isNode] at ht
  | token k s =>
      have hs : s ≠ "" := all_token.mp h
      exact Nat.pos_of_ne_zero fun hzero => hs (String.utf8ByteSize_eq_zero_iff.mp hzero)

namespace Cursor

theorem Below.solid {c d : Cursor} (h : Below c d) (hc : Solid c.focus) : Solid d.focus := h.all hc

/-- A node with a token is not empty, and wider than each of its child nodes. -/
theorem width_lt_of_hasToken {c e : Cursor} (hsolid : Solid c.focus)
    (htoken : HasToken c.focus.children) (he : e ∈ c.elements) (hnode : e.isNode = true) :
    e.focus.width < c.focus.width := by
  obtain ⟨t, ht, htok⟩ := htoken
  obtain ⟨f, hf, rfl⟩ := exists_mem_elements ht
  have hpos : 0 < f.focus.width := ((below_of_mem_elements hf).solid hsolid).width_pos htok
  have hget := getElem?_of_mem_elements he
  have hgetf := getElem?_of_mem_elements hf
  rw [width_eq c.focus (isNode_of_mem_elements he)]
  rcases Nat.lt_trichotomy e.index f.index with hlt | heq | hlt
  · have := width_add_width_le hlt hget hgetf
    omega
  · obtain rfl := eq_of_index_eq he hf heq
    simp [isNode, isToken] at hnode htok
    simp [hnode] at htok
  · have := width_add_width_le hlt hgetf hget
    omega

theorem width_pos_of_mem_elements {c e : Cursor} (he : e ∈ c.elements) (hpos : 0 < e.focus.width) :
    0 < c.focus.width := Nat.lt_of_lt_of_le hpos (below_of_mem_elements he).width_le

theorem width_pos_of_hasToken {c : Cursor} (hsolid : Solid c.focus)
    (htoken : HasToken c.focus.children) : 0 < c.focus.width := by
  obtain ⟨t, ht, htok⟩ := htoken
  obtain ⟨f, hf, rfl⟩ := exists_mem_elements ht
  exact width_pos_of_mem_elements hf (((below_of_mem_elements hf).solid hsolid).width_pos htok)

/-- Below a node with a token all other nodes are narrower. -/
theorem Below.width_lt {c d : Cursor} (h : Below c d) (hsolid : Solid c.focus)
    (htoken : HasToken c.focus.children) (hd : d.isNode = true) (hne : d ≠ c) :
    d.focus.width < c.focus.width := by
  rcases h.cases_head with rfl | ⟨e, he, hed⟩
  · exact absurd rfl hne
  · have hnode := isNode_of_below hed hd
    exact Nat.lt_of_le_of_lt hed.width_le (width_lt_of_hasToken hsolid htoken he hnode)

/-- An invocation is wider than its callee by its arguments, and than its
arguments by their parentheses. -/
theorem outstanding_invocation {c : Cursor} (hsolid : Solid c.focus)
    (hkind : c.kind = .invocationExpression)
    (hshape : ∃ a ∈ c.focus.children, a.kind = .argumentList ∧ HasToken a.children) :
    Outstanding c := by
  obtain ⟨a, ha, hlist, htoken⟩ := hshape
  obtain ⟨f, hf, rfl⟩ := exists_mem_elements ha
  have hfsolid := (below_of_mem_elements hf).solid hsolid
  have hpos := width_pos_of_hasToken hfsolid htoken
  intro d hd hnode hdkind hwidth
  rcases hd.cases_head with rfl | ⟨e, he, hed⟩
  · rfl
  · have hle := hed.width_le
    have hget := getElem?_of_mem_elements he
    have hgetf := getElem?_of_mem_elements hf
    have hc := width_eq c.focus (isNode_of_mem_elements he)
    rcases Nat.lt_trichotomy e.index f.index with hlt | heq | hlt
    · have := width_add_width_le hlt hget hgetf
      omega
    · obtain rfl := eq_of_index_eq he hf heq
      have hne : d ≠ e := by
        rintro rfl
        rw [hkind] at hdkind
        exact absurd (hlist.symm.trans hdkind) (by decide)
      have := hed.width_lt hfsolid htoken hnode hne
      have := (below_of_mem_elements he).width_le
      omega
    · have := width_add_width_le hlt hgetf hget
      omega

theorem kind_ne_parameter {c : Cursor} (h : NoParameters c.focus) (hnode : c.isNode = true) :
    c.kind ≠ .parameter := by
  rw [Cursor.kind]
  cases hfocus : c.focus with
  | node k cs =>
      rw [hfocus] at h
      exact (all_node.mp h).1
  | token k s => simp [Cursor.isNode, hfocus, Tree.isNode] at hnode

/-- A parameter inside another stands behind a token of its value. -/
theorem outstanding_parameter {c : Cursor} (hsolid : Solid c.focus) (hkind : c.kind = .parameter)
    (hshape : ∀ a ∈ c.focus.children,
      NoParameters a ∨ a.kind ≠ .parameter ∧ HasToken a.children) : Outstanding c := by
  intro d hd hnode hdkind hwidth
  rcases hd.cases_head with rfl | ⟨e, he, hed⟩
  · rfl
  · rw [hkind] at hdkind
    rcases hshape _ (focus_mem_of_mem_elements he) with hnone | ⟨hne, htoken⟩
    · exact absurd hdkind (kind_ne_parameter (hed.all hnone) hnode)
    · have hlt := hed.width_lt ((below_of_mem_elements he).solid hsolid) htoken hnode (by
        rintro rfl
        exact hne hdkind)
      have := (below_of_mem_elements he).width_le
      omega

end Cursor

/-! ## Files -/

namespace Tree

mutual

theorem all_of_leaves {T : Kind → String → Prop} :
    ∀ t : Tree, (∀ leaf ∈ t.leaves, T leaf.1 leaf.2) → All (fun _ _ => True) T t
  | .token k s, h => by
      rw [all_token]
      exact h (k, s) (by simp [leaves])
  | .node k cs, h => by
      rw [all_node]
      exact ⟨trivial, allIn_of_leaves cs h⟩

theorem allIn_of_leaves {T : Kind → String → Prop} :
    ∀ ts : Forest, (∀ leaf ∈ forestLeaves ts, T leaf.1 leaf.2) →
      ∀ t ∈ ts, All (fun _ _ => True) T t
  | [], _ => by simp
  | t :: ts, h => by
      simp only [forestLeaves, List.mem_append] at h
      have ht := all_of_leaves t fun leaf hleaf => h leaf (.inl hleaf)
      have hts := allIn_of_leaves ts fun leaf hleaf => h leaf (.inr hleaf)
      simpa using ⟨ht, hts⟩

end

end Tree

/-- The tree of a file: its parts are well-shaped, and its tokens are those that
lexing gives. -/
structure IsFile (text : String) (t : Tree) : Prop where
  kind : t.kind = .compilationUnit
  parts : ∀ c ∈ t.children, WellShaped c
  leaves : t.leaves = (Token.contents text).map Token.leaf

theorem isFile_parse (text : String) : IsFile text (parse text).tree := by
  obtain ⟨cs, hcomplete, htree⟩ := parse_complete text
  rw [htree]
  exact ⟨rfl, fun c hc => (hcomplete.parts c hc).1, by rw [leaves, hcomplete.leaves]⟩

namespace IsFile

open Cursor

variable {text : String} {t : Tree} (h : IsFile text t) {c : Cursor} (hc : Below (.root t) c)
include h

theorem solid : Solid t := by
  obtain ⟨-, -, -, -, hcontents⟩ := Token.lex_eq_contents text
  refine all_of_leaves t fun leaf hleaf => ?_
  rw [h.leaves] at hleaf
  obtain ⟨token, htoken, rfl⟩ := List.mem_map.mp hleaf
  exact (hcontents token htoken).text_ne_empty

include hc

/-- Every node but the root is well-shaped. -/
theorem wellShaped (hk : c.kind ≠ .compilationUnit) : WellShaped c.focus := by
  rcases hc.cases_head with rfl | ⟨e, he, hec⟩
  · exact absurd h.kind hk
  · exact hec.all (h.parts _ (focus_mem_of_mem_elements he))

theorem nodeShape (hnode : c.isNode = true) (hk : c.kind ≠ .compilationUnit) :
    NodeShape c.kind c.focus.children := by
  have hshape := h.wellShaped hc hk
  rw [Cursor.kind]
  cases hfocus : c.focus with
  | node k cs =>
      rw [hfocus] at hshape
      exact (wellShaped_node.mp hshape).1
  | token k s => simp [Cursor.isNode, hfocus, Tree.isNode] at hnode

/-- A node that writes a type has nothing else in it. -/
theorem isTypeSyntax (hnode : c.isNode = true) (hk : c.kind.isType = true) :
    IsTypeSyntax c.focus := by
  have hshape := h.nodeShape hc hnode (by rintro heq; simp [heq, Kind.isType] at hk)
  have hchildren : ∀ e ∈ c.focus.children, IsTypeSyntax e := by
    cases hkind : c.kind <;> simp [hkind, Kind.isType] at hk <;> simpa [hkind, NodeShape] using hshape
  rw [Cursor.kind] at hk
  cases hfocus : c.focus with
  | node k cs =>
      rw [hfocus] at hk hchildren
      exact all_node.mpr ⟨by simp [isTypePart, show k.isType = true from hk], hchildren⟩
  | token k s => simp [Cursor.isNode, hfocus, Tree.isNode] at hnode

/-- A parameter of a method or a constructor that has a name has a type before it. -/
theorem namedIsTyped (hk : c.kind = .methodDeclaration ∨ c.kind = .constructorDeclaration)
    {list param : Cursor} (hlist : list ∈ c.elements) (hlistKind : list.kind = .parameterList)
    (hparam : param ∈ list.elements) (hparamKind : param.kind = .parameter) :
    NamedIsTyped param.focus.children := by
  have hshape := h.nodeShape hc (isNode_of_mem_elements hlist)
    (by rcases hk with hk | hk <;> simp [hk])
  have hall : ∀ list ∈ c.focus.children, list.kind = .parameterList →
      ∀ p ∈ list.children, p.kind = .parameter → NamedIsTyped p.children := by
    rcases hk with hk | hk
    · rw [hk] at hshape
      exact hshape.2
    · rw [hk] at hshape
      exact hshape.2
  exact hall _ (focus_mem_of_mem_elements hlist) hlistKind _ (focus_mem_of_mem_elements hparam)
    hparamKind

theorem hasToken_declaration (hnode : c.isNode = true) (hk : c.kind.hasOwnToken = true) :
    HasToken c.focus.children := by
  have hshape := h.nodeShape hc hnode (by rintro heq; simp [heq, Kind.hasOwnToken] at hk)
  cases hkind : c.kind <;> simp [hkind, Kind.hasOwnToken] at hk <;>
    simp [hkind, NodeShape] at hshape
  all_goals first | exact hshape | exact hshape.1

theorem width_pos_declaration (hnode : c.isNode = true) (hk : c.kind.hasOwnToken = true) :
    0 < c.focus.width :=
  width_pos_of_hasToken (hc.solid h.solid) (h.hasToken_declaration hc hnode hk)

/-- A call takes some text, and more of it than the calls inside it. -/
theorem outstanding_call (hnode : c.isNode = true) (hk : c.kind = .invocationExpression) :
    0 < c.focus.width ∧ Outstanding c := by
  have hsolid := hc.solid h.solid
  have hshape := h.nodeShape hc hnode (by simp [hk])
  rw [hk] at hshape
  obtain ⟨a, ha, hlist, htoken⟩ := hshape
  obtain ⟨f, hf, rfl⟩ := exists_mem_elements ha
  have hpos := width_pos_of_hasToken ((below_of_mem_elements hf).solid hsolid) htoken
  exact ⟨width_pos_of_mem_elements hf hpos,
    outstanding_invocation hsolid hk ⟨f.focus, ha, hlist, htoken⟩⟩

theorem resolve_invocation (hnode : c.isNode = true) (hk : c.kind = .invocationExpression) :
    (Pointer.of c).resolve (.root t) = .ok (some c) := by
  obtain ⟨hpos, hout⟩ := h.outstanding_call hc hnode hk
  exact resolve_pointer hc hnode hpos hout

theorem outstanding_parameter (hnode : c.isNode = true) (hk : c.kind = .parameter) :
    Outstanding c := by
  have hshape := h.nodeShape hc hnode (by simp [hk])
  rw [hk] at hshape
  exact Cursor.outstanding_parameter (hc.solid h.solid) hk hshape

/-- A node that has a name takes some text. -/
theorem width_pos_of_name {name : String} (hname : c.name? = some name) : 0 < c.focus.width := by
  obtain ⟨token, htoken, -⟩ := Option.map_eq_some_iff.mp hname
  obtain ⟨helement, hisToken⟩ := List.mem_filter.mp (List.mem_of_find?_eq_some htoken)
  have hpos := ((hc.element helement).solid h.solid).width_pos hisToken
  exact width_pos_of_mem_elements helement hpos

/-- The pointer to a parameter that has a name leads back to it. -/
theorem resolve_parameter (hnode : c.isNode = true) (hk : c.kind = .parameter) {name : String}
    (hname : c.name? = some name) : (Pointer.of c).resolve (.root t) = .ok (some c) :=
  resolve_pointer hc hnode (h.width_pos_of_name hc hname) (h.outstanding_parameter hc hnode hk)

end IsFile

end CSharpKit.Syntax
