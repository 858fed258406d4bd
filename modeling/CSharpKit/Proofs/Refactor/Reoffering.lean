import CSharpKit.Proofs.Refactor.DelegateSignatures
import CSharpKit.Proofs.Refactor.Rereading
import CSharpKit.Proofs.Syntax.Leaves

/-!
# No offer for its own result

An offer is made for a parameter whose type is a generic name. Once it is applied, the
name of the delegate stands there instead, so there should be nothing to offer any more.
But the new text is read again, and what comes out depends on all of it: the names are to
be read as tokens of their own, and no generic name may reach up to the second of them.
-/

namespace CSharpKit.Refactor

open Syntax Text Workspace Semantics Cursor Outcome Declare Token

/-! ## Selections in a token -/

/-- What is found for a selection in a token is the node that the token belongs to, or
one around it with the same span. -/
theorem exists_of_nodeAtSpan?_token {t : Tree} {e node : Cursor} {selection : Span}
    (he : Below (.root t) e) (htoken : e.isNode = false)
    (hinside : e.span.containsSpan selection = true) (hpos : 0 < selection.length)
    (h : nodeAtSpan? (.root t) selection = some node) :
    ∃ inner, e ∈ inner.elements ∧ Below node inner ∧ node.span = inner.span := by
  rw [nodeAtSpan?, cover?_token he htoken hinside hpos] at h
  simp only [Option.bind_eq_bind, Option.bind_some, htoken, Bool.false_eq_true, if_false] at h
  obtain ⟨inner, hinner, h⟩ := Option.bind_eq_some_iff.mp h
  obtain ⟨hbelow, hmem⟩ := he.of_parent? rfl hinner
  have hnode := List.mem_of_getLast? h
  have hspan : (node.span == inner.span) = true :=
    List.mem_takeWhile_imp (p := fun a : Cursor => a.span == inner.span) hnode
  refine ⟨inner, hmem, ?_, beq_iff_eq.mp hspan⟩
  exact (hbelow.of_mem_ancestors rfl ((List.takeWhile_sublist _).subset hnode)).2

/-- An offer for a selection in a token is one for the parameter that has the token as
a child. -/
theorem exists_offered_of_token {project : Project} {document : DocumentId} {doc : Document}
    {e : Cursor} {selection : Span} {offer : DelegateOffer}
    (hdoc : project.document? document = some doc) (he : Below doc.root e)
    (htoken : e.isNode = false) (hinside : e.span.containsSpan selection = true)
    (hpos : 0 < selection.length)
    (h : offerAt project document selection false = .ok (some offer)) :
    ∃ param method symbol shape, Offered project doc param method symbol shape ∧
      e ∈ param.elements := by
  obtain ⟨doc', param, method, symbol, shape, hoffered, hdoc', hfound, -⟩ := offerAt_eq_some h
  obtain rfl := Option.some.inj (hdoc.symm.trans hdoc')
  obtain ⟨inner, hmem, hbelow, hspan⟩ := exists_of_nodeAtSpan?_token he htoken hinside hpos hfound
  refine ⟨param, method, symbol, shape, hoffered, ?_⟩
  -- The parameter has a name of its own, so it is wider than the nodes in it.
  have hname := (Model.declaredParameter?_eq_some hoffered.symbol_eq.1).1
  obtain ⟨name, hname, -⟩ := Option.map_eq_some_iff.mp hname
  obtain ⟨hnameMem, hnameToken⟩ := List.mem_filter.mp (List.mem_of_find?_eq_some hname)
  have hhas : Tree.HasToken param.focus.children :=
    ⟨name.focus, focus_mem_of_mem_elements hnameMem, hnameToken⟩
  have hsolid := hoffered.below.solid (isFile_tree doc).solid
  by_cases hsame : inner = param
  · exact hsame ▸ hmem
  · have hlt := hbelow.width_lt hsolid hhas (isNode_of_mem_elements hmem) hsame
    have hwidth : param.focus.width = inner.focus.width := congrArg Span.length hspan
    omega

/-! ## What stands before a name -/

/-- Before a token that names a parameter its type stands, with nothing but trivia
between the two. -/
theorem exists_elements_of_namedIsTyped {c e : Cursor} (h : Tree.NamedIsTyped c.focus.children)
    (he : e ∈ c.elements) (htoken : e.isNode = false) (hkind : e.kind = .identifier) :
    ∃ front type gap rest, c.elements = front ++ type :: (gap ++ e :: rest) ∧
      c.type? = some type ∧
      (type.kind = .genericName → Tree.HasToken type.focus.children) ∧
      ∀ g ∈ gap, g.isNode = false ∧ g.kind.isTrivia = true := by
  have isToken {f : Cursor} : f.focus.isToken = true ↔ f.isNode = false := by
    rw [Tree.isToken, Cursor.isNode, Bool.not_eq_true']
  cases h with
  | unnamed hcs =>
      exact absurd hkind (hcs _ (focus_mem_of_mem_elements he) (isToken.mpr htoken))
  | @named front gap rest type name hcs hfront htype hgeneric hgap hname hrest =>
      rw [← map_focus_elements] at hcs
      obtain ⟨fs, ts, helements, rfl, hts⟩ := List.map_eq_append_iff.mp hcs
      obtain ⟨t, us, rfl, rfl, hus⟩ := List.map_eq_cons_iff.mp hts
      obtain ⟨gs, ns, rfl, rfl, hns⟩ := List.map_eq_append_iff.mp hus
      obtain ⟨n, rs, rfl, rfl, rfl⟩ := List.map_eq_cons_iff.mp hns
      have hgs : ∀ g ∈ gs, g.isNode = false ∧ g.kind.isTrivia = true := fun g hg =>
        (hgap _ (List.mem_map_of_mem hg)).imp_left isToken.mp
      obtain rfl : e = n := by
        rw [helements] at he
        rcases List.mem_append.mp he with hmem | hmem
        · exact absurd hkind ((hfront _ (List.mem_map_of_mem hmem)).1 (isToken.mpr htoken))
        rcases List.mem_cons.mp hmem with rfl | hmem
        · exact absurd htype.1 (by simpa [Cursor.isNode] using htoken)
        rcases List.mem_append.mp hmem with hmem | hmem
        · have htrivia := (hgs e hmem).2
          rw [hkind] at htrivia
          cases htrivia
        rcases List.mem_cons.mp hmem with rfl | hmem
        · rfl
        · exact absurd hkind (hrest _ (List.mem_map_of_mem hmem) (isToken.mpr htoken))
      refine ⟨fs, t, gs, rs, helements, ?_, hgeneric, hgs⟩
      rw [type?_eq_find?, helements, List.find?_eq_some_iff_append]
      refine ⟨?_, fs, _, rfl, fun f hf => ?_⟩
      · rw [Cursor.isNode, Cursor.kind, htype.1, htype.2]
        rfl
      · have hnot := (hfront _ (List.mem_map_of_mem hf)).2
        cases hnode : f.isNode with
        | false => rfl
        | true => exact congrArg (!·) (hnot hnode)

/-- Between a type and the name behind it only the type itself can reach over a token that
is no trivia. -/
theorem stop_le_of_elements {t : Tree} (hsolid : Tree.Solid t) {c e f type : Cursor}
    {front gap rest : List Cursor} (hc : Below (.root t) c)
    (helements : c.elements = front ++ type :: (gap ++ e :: rest))
    (hgap : ∀ g ∈ gap, g.isNode = false ∧ g.kind.isTrivia = true) (hf : Below (.root t) f)
    (htoken : f.isNode = false) (hkind : f.kind.isTrivia = false) (hstop : f.stop ≤ e.start) :
    f.stop ≤ type.stop := by
  have hwidth : f.start < f.stop := by
    have hpos := (hf.solid hsolid).width_pos (by rw [Tree.isToken, ← Cursor.isNode, htoken]; rfl)
    rw [stop_eq]
    omega
  have hrow := pairwise_elements c
  rw [helements, List.pairwise_append] at hrow
  obtain ⟨-, hbehind, hfront⟩ := hrow
  obtain ⟨htype, hbehind⟩ := List.pairwise_cons.mp hbehind
  obtain ⟨-, hrest, -⟩ := List.pairwise_append.mp hbehind
  have htypeMem : type ∈ c.elements := by simp [helements]
  have heMem : e ∈ c.elements := by simp [helements]
  have htypeBelow := below_of_mem_elements htypeMem
  have heBelow := below_of_mem_elements heMem
  have hwide : e.start ≤ e.stop := e.span.start_le_stop
  have htypeWide : type.start ≤ type.stop := type.span.start_le_stop
  rcases hf.apart hc with hfc | hcf | hleft | hright
  · obtain rfl : c = f := hfc.eq_of_token htoken
    rw [isNode_of_mem_elements htypeMem] at htoken
    cases htoken
  · rcases hcf.cases_head with rfl | ⟨x, hx, hxf⟩
    · rw [isNode_of_mem_elements htypeMem] at htoken
      cases htoken
    have hstart := hxf.start_le
    have hstopx := hxf.stop_le
    rw [helements] at hx
    rcases List.mem_append.mp hx with hx | hx
    · have := hfront x hx type List.mem_cons_self
      omega
    rcases List.mem_cons.mp hx with rfl | hx
    · exact hstopx
    rcases List.mem_append.mp hx with hx | hx
    · obtain ⟨hxtoken, htrivia⟩ := hgap x hx
      obtain rfl : f = x := hxf.eq_of_token hxtoken
      rw [hkind] at htrivia
      cases htrivia
    rcases List.mem_cons.mp hx with rfl | hx
    · omega
    · have := (List.pairwise_cons.mp hrest).1 x hx
      omega
  · have := htypeBelow.start_le
    omega
  · have := heBelow.stop_le
    omega

/-! ## Names that are read apart -/

/-- The name of a delegate and that of a parameter behind it are tokens of a text, and no
generic name of its tree ends between the two, as one would that is left open. -/
structure ReadApart (doc : Document) (type name : Token) : Prop where
  type_mem : type ∈ lex doc.text
  name_mem : name ∈ lex doc.text
  closed : ∀ c ∈ doc.root.nodes, c.kind = .genericName →
    ¬(type.span.stop ≤ c.stop ∧ c.stop ≤ name.span.start)

instance (doc : Document) (type name : Token) : Decidable (ReadApart doc type name) :=
  decidable_of_iff (type ∈ lex doc.text ∧ name ∈ lex doc.text ∧
      ∀ c ∈ doc.root.nodes, c.kind = .genericName →
        ¬(type.span.stop ≤ c.stop ∧ c.stop ≤ name.span.start))
    ⟨fun h => ⟨h.1, h.2.1, h.2.2⟩, fun h => ⟨h.type_mem, h.name_mem, h.closed⟩⟩

namespace Offered

variable {project : Project} {doc : Document} {param method : Cursor} {symbol : ParameterSymbol}
  {shape : DelegateShape} (h : Offered project doc param method symbol shape)
include h

/-- An offer is made for a type that is written as a generic name. -/
theorem exists_genericName : ∃ written, param.type? = some written ∧ written.kind = .genericName := by
  obtain ⟨written, hwritten, hshape⟩ := Option.bind_eq_some_iff.mp h.shape_eq
  obtain ⟨symbol', -, hshape⟩ := Option.bind_eq_some_iff.mp hshape
  obtain ⟨shape', hof, -⟩ := Option.bind_eq_some_iff.mp hshape
  exact ⟨written, hwritten, (DelegateShape.ofType?_eq_some hof).1⟩

/-- If the parameter has a name, a type stands before it. -/
theorem namedIsTyped : Tree.NamedIsTyped param.focus.children := by
  obtain ⟨list, hlist, hlistKind, hup, hkind⟩ := methodOf?_eq_some h.method_eq
  obtain ⟨hlistBelow, hparam⟩ := h.below.of_parent? rfl hlist
  obtain ⟨hmethodBelow, hmember⟩ := hlistBelow.of_parent? rfl hup
  exact (isFile_tree doc).namedIsTyped hmethodBelow (.inl hkind) hmember hlistKind hparam h.kind

end Offered

/-- At a name that is read apart from the name of a delegate before it nothing is offered. -/
theorem ReadApart.offerAt_eq_none {project : Project} {document : DocumentId} {doc : Document}
    {type name : Token} (h : ReadApart doc type name)
    (hdoc : project.document? document = some doc) (htype : type.kind = .identifier)
    (hname : name.kind = .identifier) (hstop : type.span.stop ≤ name.span.start)
    {selection : Span} (hpos : 0 < selection.length)
    (hinside : name.span.containsSpan selection = true) :
    offerAt project document selection false = .ok none := by
  have hfile := isFile_tree doc
  obtain ⟨e, he, hefocus, hespan⟩ := hfile.exists_leaf h.name_mem (by rw [hname]; decide)
  obtain ⟨f, hf, hffocus, hfspan⟩ := hfile.exists_leaf h.type_mem (by rw [htype]; decide)
  have hetoken : e.isNode = false := by rw [Cursor.isNode, hefocus]; rfl
  have hftoken : f.isNode = false := by rw [Cursor.isNode, hffocus]; rfl
  have hekind : e.kind = .identifier := by rw [Cursor.kind, hefocus]; exact hname
  have hfkind : f.kind = .identifier := by rw [Cursor.kind, hffocus]; exact htype
  cases hoffer : offerAt project document selection false with
  | error e => cases hoffer
  | ok found =>
      cases found with
      | none => rfl
      | some offer =>
          obtain ⟨param, method, symbol, shape, hoffered, hmem⟩ :=
            exists_offered_of_token hdoc he hetoken (hespan ▸ hinside) hpos hoffer
          obtain ⟨written, hwritten, hgeneric⟩ := hoffered.exists_genericName
          obtain ⟨front, before, gap, rest, helements, hbefore, -, hgap⟩ :=
            exists_elements_of_namedIsTyped hoffered.namedIsTyped hmem hetoken hekind
          obtain rfl : before = written := Option.some.inj (hbefore.symm.trans hwritten)
          have hwrittenMem : before ∈ param.elements := by simp [helements]
          have hwrittenBelow := hoffered.below.element hwrittenMem
          have hstart : e.start = name.span.start := congrArg Span.start hespan
          have hfstop : f.stop = type.span.stop := congrArg Span.stop hfspan
          have hreach : f.stop ≤ before.stop :=
            stop_le_of_elements hfile.solid hoffered.below helements hgap hf hftoken
              (by rw [hfkind]; rfl) (by omega)
          have hleft : before.stop ≤ e.start := by
            have hrow := pairwise_elements param
            rw [helements, List.pairwise_append] at hrow
            exact (List.pairwise_cons.mp hrow.2.1).1 e (by simp)
          have hnode : before ∈ doc.root.nodes :=
            hwrittenBelow.mem_nodes (isNode_of_mem_children (mem_children_of_childOf? hwritten).1)
          exact absurd ⟨by omega, by omega⟩ (h.closed before hnode hgeneric)

/-! ## The text around an element -/

theorem forestText_append (xs ys : Forest) :
    Tree.forestText (xs ++ ys) = Tree.forestText xs ++ Tree.forestText ys := by
  apply String.toList_injective
  simp

theorem forestText_cons (t : Tree) (ts : Forest) :
    Tree.forestText (t :: ts) = t.text ++ Tree.forestText ts := by
  apply String.toList_injective
  simp

/-- An element starts in the text behind what stands before it. -/
theorem exists_text_around {c d : Cursor} (h : Below c d) :
    ∃ before behind, c.text = before ++ d.text ++ behind ∧
      d.start = c.start + before.utf8ByteSize := by
  induction h with
  | refl => exact ⟨"", "", by simp, rfl⟩
  | @tail p e hp he ih =>
      obtain ⟨before, behind, htext, hstart⟩ := ih
      have hnode := isNode_of_mem_elements he
      obtain ⟨i, t, ht, rfl⟩ := mem_elements_iff.mp he
      obtain ⟨hi, hget⟩ := List.getElem?_eq_some_iff.mp ht
      have hchildren : p.text = Tree.forestText (p.focus.children.take i) ++ t.text ++
          Tree.forestText (p.focus.children.drop (i + 1)) := by
        rw [String.append_assoc, ← forestText_cons, ← forestText_append, ← hget,
          List.getElem_cons_drop, List.take_append_drop, Cursor.text]
        cases hfocus : p.focus with
        | node k cs => rfl
        | token k s => simp [Cursor.isNode, hfocus, Tree.isNode] at hnode
      refine ⟨before ++ Tree.forestText (p.focus.children.take i),
        Tree.forestText (p.focus.children.drop (i + 1)) ++ behind, ?_, ?_⟩
      · rw [htext, hchildren]
        simp only [String.append_assoc]
        rfl
      · show p.start + Tree.forestWidth (p.focus.children.take i) = _
        rw [hstart, String.utf8ByteSize_append, ← Tree.byteLength_forestText, byteLength_toList,
          Nat.add_assoc]

/-! ## Names that stay -/

/-- No edit of an offer touches the name of a parameter. -/
theorem OfferedEdit.apart_name {doc : Document} {p : PlacedEdit} (h : OfferedEdit doc p)
    {param name : Cursor} (hparam : Below doc.root param) (hkind : param.kind = .parameter)
    (hname : name ∈ param.elements) (htoken : name.isNode = false) :
    p.patch.span.stop ≤ name.start ∨ name.stop ≤ p.patch.span.start := by
  have hnameBelow := hparam.element hname
  cases h with
  | @declare e new hbelow _ he _ hpatch =>
      rw [hpatch]
      show e.start ≤ name.start ∨ name.stop ≤ e.start
      have hwide : e.start ≤ e.stop := e.span.start_le_stop
      rcases (hbelow.element he).apart hnameBelow with hdown | hup | hleft | hright
      · exact .inl hdown.start_le
      · obtain rfl := hup.eq_of_token htoken
        exact .inl (Nat.le_refl _)
      · exact .inl (hwide.trans hleft)
      · exact .inr hright
  | @retype other new hbelow _ hwritten _ _ hpatch =>
      rw [hpatch]
      show p.place.stop ≤ name.start ∨ name.stop ≤ p.place.start
      obtain ⟨hchild, htype⟩ := mem_children_of_childOf? hwritten
      have hplace := hbelow.trans (below_of_mem_children hchild)
      have hplaceNode := isNode_of_mem_children hchild
      rcases hplace.apart hnameBelow with hdown | hup | hleft | hright
      · rcases hdown.cases_tail with rfl | ⟨owner, howner, hmem⟩
        · rw [hplaceNode] at htoken
          cases htoken
        · -- A type has no parameter in it.
          obtain rfl : owner = param := Option.some.inj
            ((parent?_of_mem_elements hmem).symm.trans (parent?_of_mem_elements hname))
          have hnone := howner.all
            ((isFile_tree doc).isTypeSyntax hplace hplaceNode htype).noParameters
          exact absurd hkind (kind_ne_parameter hnone (isNode_of_mem_elements hname))
      · rw [hup.eq_of_token htoken, htoken] at hplaceNode
        cases hplaceNode
      · exact .inl hleft
      · exact .inr hright

/-- All patches of an offer: where the delegate is declared and used, and where its
parameter is passed on. -/
def offerPatches? (project : Project) (offer : DelegateOffer) :
    Option (List (DocumentId × Patch)) := do
  let m : Model := ⟨.ofProject project, offer.document⟩
  let doc ← project.document? offer.document
  let target ← OfferTarget.find? m doc.root offer.parameter
  let declaration ← (delegateDeclaration m target.shape offer.delegateName target.method).toOption
  let sites ← (findForwarders m.table project doc.id target.symbol false).toOption
  let others ← sites.mapM (forwarderPatch? project doc.id target.owner offer.delegateName)
  return declarationPatches doc target declaration offer.delegateName ++ others

/-- The name of the delegate and that of the parameter, where they stand once an offer is
applied. -/
def namesAfter? (project : Project) (offer : DelegateOffer) : Option (Token × Token) := do
  let param ← nodeAt? project ⟨offer.document, offer.parameter⟩
  let written ← param.type?
  let name ← param.nameToken?
  let patches := patchesOf (← offerPatches? project offer) offer.document
  return (⟨.identifier, offer.delegateName, Patch.moved patches written.start⟩,
    ⟨.identifier, name.text, Patch.moved patches name.start⟩)

namespace Aim

variable {project : Project} {doc : Document} {param : Cursor} {target : OfferTarget}
  {sites : List Origin} (h : Aim project doc param target sites)
include h

theorem offered : Offered project doc param target.method target.symbol target.shape := by
  obtain ⟨found, hfound, hfind⟩ := Option.bind_eq_some_iff.mp h.find?_eq
  obtain ⟨param', hparam, hfind⟩ := Option.bind_eq_some_iff.mp hfind
  obtain ⟨method, -, hfind⟩ := Option.bind_eq_some_iff.mp hfind
  obtain ⟨declaration, -, hfind⟩ := Option.bind_eq_some_iff.mp hfind
  obtain ⟨owner, -, hfind⟩ := Option.bind_eq_some_iff.mp hfind
  obtain ⟨written, -, hfind⟩ := Option.bind_eq_some_iff.mp hfind
  obtain ⟨⟨symbol, shape⟩, hshape, hfind⟩ := Option.bind_eq_some_iff.mp hfind
  obtain ⟨rfl, rfl⟩ : symbol = target.symbol ∧ shape = target.shape := by
    obtain rfl := Option.some.inj hfind
    exact ⟨rfl, rfl⟩
  obtain rfl : param' = param := by
    obtain rfl := Option.some.inj (Option.filter_eq_some_iff.mp hparam).1
    rw [h.resolve] at hfound
    exact (Option.some.inj hfound).symm
  exact ⟨h.doc_mem, h.below, h.isNode, h.kind, h.method_eq, hshape⟩

/-- The written type of an offer takes some text, and the name of its parameter stands
behind it. -/
theorem exists_name : ∃ name, param.nameToken? = some name ∧ name ∈ param.elements ∧
    name.isNode = false ∧ 0 < target.written.focus.width ∧ target.written.stop ≤ name.start := by
  obtain ⟨name, hname, -⟩ := Option.map_eq_some_iff.mp h.name_eq
  obtain ⟨hmem, htoken⟩ := List.mem_filter.mp (List.mem_of_find?_eq_some hname)
  have hkind : name.kind = .identifier := by simpa using List.find?_some hname
  replace htoken : name.isNode = false := by simpa using htoken
  obtain ⟨written, hwritten, hgeneric⟩ := h.offered.exists_genericName
  obtain rfl : target.written = written := Option.some.inj (h.written_eq.symm.trans hwritten)
  obtain ⟨front, type, gap, rest, helements, htype, hhas, -⟩ :=
    exists_elements_of_namedIsTyped h.offered.namedIsTyped hmem htoken hkind
  obtain rfl : type = target.written := Option.some.inj (htype.symm.trans hwritten)
  have hwrittenMem : target.written ∈ param.elements := by simp [helements]
  have hsolid := (h.below.element hwrittenMem).solid (isFile_tree doc).solid
  have hrow := pairwise_elements param
  rw [helements, List.pairwise_append] at hrow
  refine ⟨name, hname, hmem, htoken, width_pos_of_hasToken hsolid (hhas hgeneric), ?_⟩
  exact (List.pairwise_cons.mp hrow.2.1).1 name (by simp)

/-- The text of the document, with the written type and the name behind it in sight. -/
theorem exists_text_name {name : Cursor} (hname : name ∈ param.elements)
    (hstop : target.written.stop ≤ name.start) : ∃ before between behind : String,
      doc.text = before ++ between ++ name.text ++ behind ∧
      before.utf8ByteSize = target.written.start ∧
      (before ++ between).utf8ByteSize = name.start := by
  have hwritten := h.below.trans (below_of_childOf? h.written_eq)
  obtain ⟨before, behind, htext, hstart⟩ := exists_text_around hwritten
  obtain ⟨front, rest, htext', hstart'⟩ := exists_text_around (h.below.element hname)
  replace hstart : target.written.start = before.utf8ByteSize := hstart.trans (Nat.zero_add _)
  replace hstart' : name.start = front.utf8ByteSize := hstart'.trans (Nat.zero_add _)
  have hwide : target.written.start ≤ target.written.stop := target.written.span.start_le_stop
  have hchars : before.toList ++ (target.written.text.toList ++ behind.toList) =
      front.toList ++ (name.text.toList ++ rest.toList) := by
    simpa [String.append_assoc] using congrArg String.toList (htext.symm.trans htext')
  obtain ⟨between, hfront, -⟩ := exists_append_of_byteLength_le hchars
    (by rw [byteLength_toList, byteLength_toList]; omega)
  have hfront' : front = before ++ String.ofList between := by
    apply String.toList_injective
    simpa using hfront
  refine ⟨before, String.ofList between, rest, ?_, hstart.symm, ?_⟩
  · rw [← hfront', ← htext']
    exact (text_tree doc).symm
  · rw [← hfront', hstart']

variable {declaration : Node} {ps : List PlacedEdit}
  (hps : List.Forall₂ (IsForwarder project doc target) sites ps)
include hps

theorem offerPatches?_eq (hdeclaration : delegateDeclaration ⟨.ofProject project, doc.id⟩
      target.shape (delegateName target.symbol.name) target.method = .ok declaration) :
    offerPatches? project (.of doc target) =
      some ((placedEdits doc target declaration ps).map fun p => (p.edit.document, p.patch)) := by
  have hothers : sites.mapM (forwarderPatch? project doc.id target.owner
      (delegateName target.symbol.name)) = some (ps.map fun p => (p.edit.document, p.patch)) := by
    refine mapM_eq_some_iff.mpr (List.forall₂_map_right_iff.mpr (hps.imp ?_))
    rintro site p ⟨other, param', written, new, -, rfl, -, hpatch⟩
    exact hpatch
  simp only [offerPatches?, DelegateOffer.of, Project.document?_of_mem h.doc_mem, h.find?_eq,
    h.sites_eq, hdeclaration, hothers, Except.toOption, Option.bind_eq_bind, Option.bind_some]
  rfl

/-- The patches of an offer in its document leave the name of the parameter as it is. -/
theorem apart_name {name : Cursor} (hname : name ∈ param.elements) (htoken : name.isNode = false)
    {patch : Patch} (hpatch : patch ∈ patchesOf ((placedEdits doc target declaration ps).map
      fun p => (p.edit.document, p.patch)) doc.id) :
    patch.span.stop ≤ name.start ∨ name.stop ≤ patch.span.start := by
  rw [patchesOf_map_patch] at hpatch
  obtain ⟨p, hp, rfl⟩ := List.mem_map.mp hpatch
  exact (h.offeredEdit_of hps h.doc_mem p hp).apart_name h.below h.kind hname htoken

/-- The two names are found in the new text at their places. -/
theorem exists_namesAfter {next : Project}
    (hdeclaration : delegateDeclaration ⟨.ofProject project, doc.id⟩
      target.shape (delegateName target.symbol.name) target.method = .ok declaration)
    (hnext : applyEdits project ((placedEdits doc target declaration ps).map (·.edit)) false =
      .ok next) : ∃ type name new, namesAfter? project (.of doc target) = some (type, name) ∧
        next.document? doc.id = some new ∧ type.StandsIn new.text ∧ name.StandsIn new.text ∧
        type.kind = .identifier ∧ name.kind = .identifier ∧ type.span.stop ≤ name.span.start := by
  obtain ⟨name, hname, hmem, htoken, hwidth, hstop⟩ := h.exists_name
  obtain ⟨before, between, behind, htext, hbefore, hbetween⟩ := h.exists_text_name hmem hstop
  obtain ⟨-, hdocs⟩ := patched_of_planned (fun other hother => h.planned hps hother) hnext
  obtain ⟨new, hnew, hpatched⟩ := exists_left_of_mem hdocs.flip h.doc_mem
  have hnewDoc : next.document? doc.id = some new := hpatched.id_eq ▸ Project.document?_of_mem hnew
  let patches := patchesOf
    ((placedEdits doc target declaration ps).map fun p => (p.edit.document, p.patch)) doc.id
  have hwritten : ⟨target.written.span, delegateName target.symbol.name⟩ ∈ patches := by
    simp only [patches, patchesOf_map_patch]
    exact List.mem_map.mpr ⟨_, List.mem_filter.mpr
      ⟨List.mem_cons_of_mem _ List.mem_cons_self, beq_self_eq_true doc.id⟩, rfl⟩
  have hapart : ∀ patch ∈ patches, patch.span.stop ≤ (before ++ between).utf8ByteSize ∨
      (before ++ between).utf8ByteSize + name.text.utf8ByteSize ≤ patch.span.start := by
    intro patch hpatch
    have hlength : name.text.utf8ByteSize = name.focus.width := by
      rw [← Tree.byteLength_text, byteLength_toList]
      rfl
    rw [hbetween, hlength]
    exact h.apart_name hps hmem htoken hpatch
  obtain ⟨before', between', behind', hnewText, hstart, hstart'⟩ :=
    hpatched.turn.exists_put_keep hwritten hwidth htext hbefore (hbetween ▸ hstop) hapart
  rw [hbetween] at hstart'
  replace hstart : before'.utf8ByteSize = Patch.moved patches target.written.start := hstart
  replace hstart' : (before' ++ delegateName target.symbol.name ++ between').utf8ByteSize =
    Patch.moved patches name.start := hstart'
  refine ⟨⟨.identifier, delegateName target.symbol.name, Patch.moved patches target.written.start⟩,
    ⟨.identifier, name.text, Patch.moved patches name.start⟩, new, ?_, hnewDoc,
    ⟨before', between' ++ name.text ++ behind', ?_, hstart.symm⟩,
    ⟨before' ++ delegateName target.symbol.name ++ between', behind', hnewText, hstart'.symm⟩,
    rfl, rfl, ?_⟩
  · have hpatches := h.offerPatches?_eq hps hdeclaration
    simp only [DelegateOffer.of] at hpatches
    simp only [namesAfter?, DelegateOffer.of, h.typedAt.nodeAt?_eq, h.written_eq, hname, hpatches,
      Option.bind_eq_bind, Option.bind_some]
    rfl
  · rw [hnewText]
    simp only [String.append_assoc]
  · show Patch.moved patches target.written.start + (delegateName target.symbol.name).utf8ByteSize ≤
      Patch.moved patches name.start
    rw [← hstart, ← hstart', String.utf8ByteSize_append, String.utf8ByteSize_append]
    exact Nat.le_add_right _ _

end Aim

/-- **No offer for its own result.** Whatever the project, with parse errors or not, if an
offer that was computed on it is applied, then the new text of its document has the name of
the delegate where the type of the parameter stood, and behind it the name of the parameter.
If both are read as tokens of their own, and no generic name ends between them, then nothing
is offered for a selection in the name of the parameter. -/
theorem applyOffer_not_offered (project : Project) (document : DocumentId) (span : Span)
    (cancelled cancelledLater : Bool) (offer : DelegateOffer) (next : Project)
    (hoffer : offerAt project document span cancelled = .ok (some offer))
    (hnext : applyOffer project offer cancelledLater = .ok next) :
    ∃ type name new, namesAfter? project offer = some (type, name) ∧
      next.document? offer.document = some new ∧
      type.StandsIn new.text ∧ name.StandsIn new.text ∧
      (ReadApart new type name → ∀ selection : Span, 0 < selection.length →
        name.span.containsSpan selection = true →
          offerAt next offer.document selection false = .ok none) := by
  obtain ⟨doc, param, target, sites, haim, -, rfl⟩ := aim_of_offerAt hoffer
  obtain ⟨rfl, declaration, ps, hdeclaration, hps, -, hnext⟩ :=
    haim.exists_placed_of_applyOffer hnext
  obtain ⟨type, name, new, hnames, hnew, htype, hname, htypeKind, hnameKind, hstop⟩ :=
    haim.exists_namesAfter hps hdeclaration hnext
  refine ⟨type, name, new, hnames, hnew, htype, hname, ?_⟩
  intro hapart selection hpos hinside
  exact hapart.offerAt_eq_none hnew htypeKind hnameKind hstop hpos hinside

theorem applyOffer_not_offered_callback :
    ∃ offer next name, offerAt callbackProject 0 ⟨31, 13⟩ false = .ok (some offer) ∧
      applyOffer callbackProject offer false = .ok next ∧
      (namesAfter? callbackProject offer).map (·.2) = some name ∧ name.span = ⟨66, 1⟩ ∧
      offerAt next 0 ⟨66, 1⟩ false = .ok none := by
  obtain ⟨offer, next, hoffer, hnext, hcheck⟩ := exists_of_afterOffer? callbackProject 0 ⟨31, 13⟩
    (fun project offer next => offer.document == 0 && (namesAfter? project offer).any fun names =>
      names.2.span == ⟨66, 1⟩ && (next.document? offer.document).any fun new =>
        decide (ReadApart new names.1 names.2)) (by decide +kernel)
  simp only [Bool.and_eq_true, beq_iff_eq, Option.any_eq_true, decide_eq_true_eq] at hcheck
  obtain ⟨hdocument, names, hnames, hspan, new, hnew, hapart⟩ := hcheck
  obtain ⟨type, name, new', hnames', hnew', -, -, hnone⟩ :=
    applyOffer_not_offered _ _ _ _ _ _ _ hoffer hnext
  obtain rfl := Option.some.inj (hnames.symm.trans hnames')
  obtain rfl := Option.some.inj (hnew.symm.trans hnew')
  refine ⟨offer, next, name, hoffer, hnext, by rw [hnames, Option.map_some], hspan, ?_⟩
  rw [← hdocument]
  exact hnone hapart ⟨66, 1⟩ (by decide) (by rw [hspan]; rfl)

/-- A project with one document, which has errors. The parameter that its first method passes
on has no blank before its name, and `where` comes behind it. -/
def tangledProject : Project :=
  Project.empty.append (Document.read 0 "tangled.cs"
    ("using System; class C \x7b void N(Action<int>g where[\x7b M(, g\x7d " ++
      "void M(= a[x => \x7b ]] R n<[\x7d]>(Func<, Action<int> f)") 0) rfl

/-- The name of a parameter that is passed on may become part of its new type, and then the
text behind it is read as another tree. Here `where` becomes its name, and what follows is
skipped as attributes of a method `R`. In the list of this method stands the parameter of the
offer, with a `Func` before it that is left open and takes the new type in. -/
theorem applyOffer_offered_again :
    ∃ offer next again, offerAt tangledProject 0 ⟨108, 1⟩ false = .ok (some offer) ∧
      applyOffer tangledProject offer false = .ok next ∧
      (offer.delegateName :: offer.shape.parameters.map (·.name)).all (fun name =>
        (Token.lex name).map (·.kind) == [.identifier, .eof]) = true ∧
      (namesAfter? tangledProject offer).map (·.2) = some ⟨.identifier, "f", 121⟩ ∧
      next.documents.map (·.text) =
        ["using System; class C \x7b void N(Fg where[\x7b M(, g\x7d public delegate void F(int obj); " ++
          "void M(= a[x => \x7b ]] R n<[\x7d]>(Func<, F f)"] ∧
      offerAt next 0 ⟨121, 1⟩ false = .ok (some again) := by
  obtain ⟨offer, next, hoffer, hnext, hcheck⟩ := exists_of_afterOffer? tangledProject 0 ⟨108, 1⟩
    (fun project offer next =>
      (offer.delegateName :: offer.shape.parameters.map (·.name)).all (fun name =>
        (Token.lex name).map (·.kind) == [.identifier, .eof]) &&
      (namesAfter? project offer).map (·.2) == some ⟨.identifier, "f", 121⟩ &&
      next.documents.map (·.text) ==
        ["using System; class C \x7b void N(Fg where[\x7b M(, g\x7d public delegate void F(int obj); " ++
          "void M(= a[x => \x7b ]] R n<[\x7d]>(Func<, F f)"] &&
      (offerAt next 0 ⟨121, 1⟩ false).toOption.join.isSome) (by decide +kernel)
  simp only [Bool.and_eq_true, beq_iff_eq, Option.isSome_iff_exists, Option.join_eq_some_iff,
    toOption_eq_some_iff] at hcheck
  obtain ⟨⟨⟨hnames, hspan⟩, htexts⟩, again, hagain⟩ := hcheck
  exact ⟨offer, next, again, hoffer, hnext, hnames, hspan, htexts, hagain⟩

end CSharpKit.Refactor
