import CSharpKit.Proofs.Semantics.Ways

/-!
# What a document declares

What a document adds to a table is told by its tree alone: which nodes are recorded,
in which order, and the ways to the namespaces and types that they declare.
-/

namespace CSharpKit.Semantics

open Syntax Workspace Cursor Declare

/-- What the record of a node tells, without the numbers of a table. -/
inductive Mark where
  | space (way : List Step)
  | type (way : List Step)
  | member
  deriving DecidableEq

/-- The way to what is declared; that of a member is not told. -/
def Mark.way : Mark → List Step
  | .space way | .type way => way
  | .member => []

/-- A record of a table is one that a mark tells of. -/
inductive Decl.Marked (s : SymbolTable) : Decl → Mark → Prop
  | space {ns : NamespaceId} {way : List Step} (h : s.At way (.space ns)) :
      Marked s (.space ns) (.space way)
  | type {t : TypeId} {way : List Step} (h : s.At way (.type t)) : Marked s (.type t) (.type way)
  | method (m : MethodId) : Marked s (.method m) .member
  | field (f : FieldId) : Marked s (.field f) .member
  | property (p : PropertyId) : Marked s (.property p) .member

theorem Decl.Marked.mono {s s' : SymbolTable} {decl : Decl} {mark : Mark} (h : decl.Marked s mark)
    (hgrows : Grows s s') : decl.Marked s' mark := by
  cases h with
  | space h => exact .space (h.mono hgrows)
  | type h => exact .type (h.mono hgrows)
  | method m => exact .method m
  | field f => exact .field f
  | property p => exact .property p

/-! ## What is added -/

/-- A table is extended by records that marks tell of, and by what lies on the ways to
what these declare. -/
structure Enters (s s' : SymbolTable) (marks : List (Origin × Mark)) : Prop where
  rooted : s'.Rooted
  grows : Grows s s'
  old_or_new : ∀ way container, s'.At way container → s.At way container ∨
    ∃ mark ∈ marks, way <:+ mark.2.way
  records : ∃ new, s'.decls = new ++ s.decls ∧
    List.Forall₂ (fun record mark => record.1 = mark.1 ∧ Decl.Marked s' record.2 mark.2)
      new.reverse marks

theorem run_bind_snd {α β : Type} (step : TableM α) (more : α → TableM β) (s : SymbolTable) :
    ((step >>= more).run s).2 = ((more (step.run s).1).run (step.run s).2).2 := rfl

namespace Enters

variable {s s' s'' : SymbolTable} {marks marks' : List (Origin × Mark)}

theorem refl (h : s.Rooted) : Enters s s [] :=
  ⟨h, Grows.refl s, fun _ _ => .inl, [], rfl, .nil⟩

theorem trans (h : Enters s s' marks) (h' : Enters s' s'' marks') :
    Enters s s'' (marks ++ marks') where
  rooted := h'.rooted
  grows := h.grows.trans h'.grows
  old_or_new way container hat := by
    rcases h'.old_or_new way container hat with hat | ⟨mark, hmark, hway⟩
    · rcases h.old_or_new way container hat with hat | ⟨mark, hmark, hway⟩
      · exact .inl hat
      · exact .inr ⟨mark, List.mem_append_left _ hmark, hway⟩
    · exact .inr ⟨mark, List.mem_append_right _ hmark, hway⟩
  records := by
    obtain ⟨new, hnew, hmarked⟩ := h.records
    obtain ⟨new', hnew', hmarked'⟩ := h'.records
    refine ⟨new' ++ new, by rw [hnew', hnew, List.append_assoc], ?_⟩
    rw [List.reverse_append]
    exact List.rel_append (hmarked.imp fun _ _ hm => ⟨hm.1, hm.2.mono h'.grows⟩) hmarked'

/-- A loop whose turns all add to a table. -/
theorem forIn {l : List Cursor} {body : Cursor → PUnit → TableM (ForInStep PUnit)}
    {f : Cursor → List (Origin × Mark)} (hs : s.Rooted)
    (h : ∀ c ∈ l, ∀ s', s'.Rooted → Grows s s' → Enters s' ((body c ⟨⟩).run s').2 (f c) ∧
      ((body c ⟨⟩).run s').1 = .yield ⟨⟩) :
    Enters s ((ForIn.forIn l PUnit.unit body).run s).2 (l.flatMap f) := by
  suffices hloop : ∀ s', s'.Rooted → Grows s s' →
      Enters s' ((ForIn.forIn l PUnit.unit body).run s').2 (l.flatMap f) from
    hloop s hs (Grows.refl s)
  induction l with
  | nil => exact fun s' hs' _ => .refl hs'
  | cons c l ih =>
      intro s' hs' hgrows
      obtain ⟨hfirst, hyield⟩ := h c List.mem_cons_self s' hs' hgrows
      have hrest := ih (fun d hd => h d (List.mem_cons_of_mem _ hd)) _ hfirst.rooted
        (hgrows.trans hfirst.grows)
      have hrun : ((ForIn.forIn (c :: l) PUnit.unit body).run s').2 =
          ((ForIn.forIn l PUnit.unit body).run ((body c ⟨⟩).run s').2).2 := by
        rw [List.forIn_cons, run_bind_snd, hyield]
      rw [hrun, List.flatMap_cons]
      exact hfirst.trans hrest

end Enters

/-! ## Single entries -/

section

variable {s s' : SymbolTable} {way : List Step} {origin : Origin}

/-- A table with one more entry that has a way is rooted. -/
theorem SymbolTable.Rooted.grow (h : s.Rooted) (hgrows : Grows s s') {new : Container}
    (hnew : ∀ container : Container, container.InRange s' → container.InRange s ∨ container = new)
    {newWay : List Step} (hway : s'.At newWay new)
    (hapart : ∀ a b : NamespaceId, a.num < s'.namespaces.size → b.num < s'.namespaces.size →
      (s'.space a).parent? ≠ none → s'.space a = s'.space b → a = b) : s'.Rooted where
  global_lt := Nat.lt_of_lt_of_le h.global_lt hgrows.namespaces.size_le
  global_top := by
    have heq : s'.space SymbolTable.global = s.space SymbolTable.global :=
      hgrows.namespaces.getD_eq h.global_lt
    rw [heq, h.global_top]
  exists_way container hcontainer := by
    rcases hnew container hcontainer with hold | rfl
    · obtain ⟨way, hat⟩ := h.exists_way container hold
      exact ⟨way, hat.mono hgrows⟩
    · exact ⟨newWay, hway⟩
  apart := hapart

/-- Members do not change the ways of a table. -/
theorem SymbolTable.Rooted.congr (h : s.Rooted) (hheads : SameHeads s s') : s'.Rooted where
  global_lt := by
    rw [hheads.namespaces]
    exact h.global_lt
  global_top := by rw [hheads.space, h.global_top]
  exists_way container hcontainer := by
    have hold : container.InRange s := by
      cases container with
      | space ns => exact (congrArg (ns.num < ·.size) hheads.namespaces).mp hcontainer
      | type t => exact (congrArg (t.num < ·) hheads.size).mp hcontainer
    obtain ⟨way, hat⟩ := h.exists_way container hold
    exact ⟨way, hat.congr hheads⟩
  apart a b := by
    rw [hheads.namespaces, hheads.space, hheads.space]
    exact h.apart a b

/-- Something is entered that changes no way, and no record is made. -/
theorem enters_nothing (hs : s.Rooted) (hheads : SameHeads s s') (hgrows : Grows s s')
    (hdecls : s'.decls = s.decls) : Enters s s' [] :=
  ⟨hs.congr hheads, hgrows, fun _ _ hat => .inl (hat.congr hheads.symm), [], hdecls, .nil⟩

/-- A member is entered, and recorded. -/
theorem enters_member (hs : s.Rooted) (hheads : SameHeads s s') (hgrows : Grows s s') {decl : Decl}
    (hdecls : s'.decls = (origin, decl) :: s.decls) (hdecl : decl.Marked s' .member) :
    Enters s s' [(origin, .member)] :=
  ⟨hs.congr hheads, hgrows, fun _ _ hat => .inl (hat.congr hheads.symm), [(origin, decl)], hdecls,
    .cons ⟨rfl, hdecl⟩ .nil⟩

/-- A type is entered in its container, and recorded. -/
theorem enters_type (hs : s.Rooted) {info : TypeInfo} (hat : s.At way info.container) :
    Enters s ((s.addType info).1.record origin (.type (s.addType info).2))
      [(origin, .type (info.step :: way))] ∧
    ((s.addType info).1.record origin (.type (s.addType info).2)).At (info.step :: way)
      (.type (s.addType info).2) := by
  have hgrows : Grows s ((s.addType info).1.record origin (.type (s.addType info).2)) :=
    (Grows.addType s info).trans (Grows.record _ _ _)
  have hinfo : ((s.addType info).1.record origin (.type (s.addType info).2)).type
      (s.addType info).2 = info := by
    rw [type_of_push (s := s) rfl]
    exact if_pos rfl
  generalize hs' : (s.addType info).1.record origin (.type (s.addType info).2) = s' at hgrows hinfo
  have hsize : s'.types.size = s.types.size + 1 := by
    rw [← hs']
    exact Array.size_push ..
  have hnamespaces : s'.namespaces = s.namespaces := by
    rw [← hs']
    rfl
  have hspace (ns : NamespaceId) : s'.space ns = s.space ns := by
    rw [SymbolTable.space, SymbolTable.space, hnamespaces]
  have hway : s'.At (info.step :: way) (.type (s.addType info).2) := by
    rw [← hinfo] at hat ⊢
    exact .type (hat.mono hgrows) (by rw [hsize]; exact Nat.lt_succ_self _)
  have hnew : ∀ container : Container, container.InRange s' →
      container.InRange s ∨ container = .type (s.addType info).2 := by
    intro container hcontainer
    cases container with
    | space ns => exact .inl ((congrArg (ns.num < ·.size) hnamespaces).mp hcontainer)
    | type t =>
        have hlt : t.num < s.types.size + 1 := (congrArg (t.num < ·) hsize).mp hcontainer
        rcases Nat.lt_or_eq_of_le (Nat.lt_succ_iff.mp hlt) with hold | hnum
        · exact .inl hold
        · exact .inr (congrArg (Container.type ∘ TypeId.mk) hnum)
  refine ⟨⟨hs.grow hgrows hnew hway ?_, hgrows, fun way container hat => ?_, ?_⟩, hway⟩
  · intro a b
    rw [hnamespaces, hspace, hspace]
    exact hs.apart a b
  · rcases hs.old_or_new hgrows hnew hway hat with hold | rfl
    · exact .inl hold
    · exact .inr ⟨_, List.mem_singleton.mpr rfl, List.suffix_refl _⟩
  · refine ⟨[(origin, .type (s.addType info).2)], ?_, .cons ⟨rfl, .type hway⟩ .nil⟩
    rw [← hs']
    rfl

/-- The way to what a dotted name leads to. -/
def segmentWay (way : List Step) (path : String) : List Step :=
  (SymbolTable.segments path).foldl (fun way name => .space name :: way) way

/-- A namespace is found or entered in its parent. -/
theorem enters_ensureSpace (hs : s.Rooted) {parent : NamespaceId} (hat : s.At way (.space parent))
    (name : String) : (s.ensureSpace parent name).1.Rooted ∧
      (s.ensureSpace parent name).1.At (.space name :: way) (.space (s.ensureSpace parent name).2) ∧
      ∀ way' container, (s.ensureSpace parent name).1.At way' container →
        s.At way' container ∨ way' = .space name :: way := by
  have hgrows := Grows.ensureSpace s parent name
  unfold SymbolTable.ensureSpace at hgrows ⊢
  cases hchild : s.child? parent name with
  | some ns =>
      obtain ⟨hlt, hns⟩ := SymbolTable.child?_eq_some hchild
      exact ⟨hs, .space hat hlt hns, fun _ _ => .inl⟩
  | none =>
      rw [hchild] at hgrows
      simp only at hgrows ⊢
      generalize hs' : ({ s with namespaces := s.namespaces.push ⟨name, some parent⟩ } : SymbolTable) =
        s' at hgrows ⊢
      have hnamespaces : s'.namespaces = s.namespaces.push ⟨name, some parent⟩ := by rw [← hs']
      have htypes : s'.types = s.types := by rw [← hs']
      have hsize : s'.namespaces.size = s.namespaces.size + 1 := by
        rw [hnamespaces]
        exact Array.size_push ..
      have hspace (ns : NamespaceId) : s'.space ns =
          if ns.num = s.namespaces.size then ⟨name, some parent⟩ else s.space ns := by
        rw [SymbolTable.space, SymbolTable.space, hnamespaces, Array.getElem?_push]
        split <;> rfl
      have hway : s'.At (.space name :: way) (.space ⟨s.namespaces.size⟩) :=
        .space (hat.mono hgrows) (by rw [hsize]; exact Nat.lt_succ_self _) (by simp [hspace])
      have hnew : ∀ container : Container, container.InRange s' →
          container.InRange s ∨ container = .space ⟨s.namespaces.size⟩ := by
        intro container hcontainer
        cases container with
        | type t => exact .inl ((congrArg (t.num < ·.size) htypes).mp hcontainer)
        | space ns =>
            have hlt : ns.num < s.namespaces.size + 1 := (congrArg (ns.num < ·) hsize).mp hcontainer
            rcases Nat.lt_or_eq_of_le (Nat.lt_succ_iff.mp hlt) with hold | hnum
            · exact .inl hold
            · exact .inr (congrArg (Container.space ∘ NamespaceId.mk) hnum)
      have hfresh := SymbolTable.child?_eq_none hchild
      refine ⟨hs.grow hgrows hnew hway ?_, hway, fun way' container hat' =>
        hs.old_or_new hgrows hnew hway hat'⟩
      intro a b ha hb hparent heq
      rw [hsize] at ha hb
      rw [hspace a, hspace b] at heq
      rw [hspace a] at hparent
      split at heq
      · next hanew =>
        split at heq
        · next hbnew => exact congrArg NamespaceId.mk (hanew.trans hbnew.symm)
        · next hbold => exact absurd heq.symm (hfresh b (by omega))
      · next haold =>
        rw [if_neg haold] at hparent
        split at heq
        · next hbnew => exact absurd heq (hfresh a (by omega))
        · next hbold => exact hs.apart a b (by omega) (by omega) hparent heq

theorem suffix_segmentWay (way : List Step) (names : List String) :
    way <:+ names.foldl (fun way name => .space name :: way) way := by
  induction names generalizing way with
  | nil => exact List.suffix_refl way
  | cons name names ih => exact (List.suffix_cons _ way).trans (ih _)

/-- Namespaces are found or entered, each in the one before it. -/
theorem enters_ensurePath (hs : s.Rooted) {parent : NamespaceId} (hat : s.At way (.space parent))
    (path : String) : (s.ensurePath parent path).1.Rooted ∧
      (s.ensurePath parent path).1.At (segmentWay way path) (.space (s.ensurePath parent path).2) ∧
      ∀ way' container, (s.ensurePath parent path).1.At way' container →
        s.At way' container ∨ way' <:+ segmentWay way path := by
  rw [SymbolTable.ensurePath, segmentWay]
  generalize SymbolTable.segments path = names
  induction names generalizing s parent way with
  | nil => exact ⟨hs, hat, fun _ _ => .inl⟩
  | cons name names ih =>
      obtain ⟨hrooted, hfirst, hold⟩ := enters_ensureSpace hs hat name
      obtain ⟨hrooted', hlast, hold'⟩ := ih hrooted hfirst
      refine ⟨hrooted', hlast, fun way' container hat' => ?_⟩
      rcases hold' way' container hat' with hat' | hsuffix
      · rcases hold way' container hat' with hat' | rfl
        · exact .inl hat'
        · exact .inr (suffix_segmentWay _ names)
      · exact .inr hsuffix

/-- A namespace is found or entered, and recorded. -/
theorem enters_space (hs : s.Rooted) {parent : NamespaceId} (hat : s.At way (.space parent))
    (path : String) :
    Enters s ((s.ensurePath parent path).1.record origin (.space (s.ensurePath parent path).2))
      [(origin, .space (segmentWay way path))] ∧
    ((s.ensurePath parent path).1.record origin (.space (s.ensurePath parent path).2)).At
      (segmentWay way path) (.space (s.ensurePath parent path).2) := by
  obtain ⟨hrooted, hlast, hold⟩ := enters_ensurePath hs hat path
  have hgrows := Grows.ensurePath s parent path
  have hdecls := decls_ensurePath s parent path
  generalize s.ensurePath parent path = result at hrooted hlast hold hgrows hdecls ⊢
  have hheads : SameHeads result.1 (result.1.record origin (.space result.2)) := .of_eq rfl rfl
  refine ⟨⟨hrooted.congr hheads, hgrows.trans (Grows.record _ _ _), fun way' container hat' => ?_, ?_⟩,
    hlast.congr hheads⟩
  · rcases hold way' container (hat'.congr hheads.symm) with hold | hsuffix
    · exact .inl hold
    · exact .inr ⟨_, List.mem_singleton.mpr rfl, hsuffix⟩
  · exact ⟨[(origin, .space result.2)], congrArg (List.cons _) hdecls,
      .cons ⟨rfl, .space (hlast.congr hheads)⟩ .nil⟩

end

/-! ## Outlines -/

/-- The last step on the way to the type that a node declares. -/
def typeStep (c : Cursor) : Step :=
  .type (c.name?.getD "") (typeKind c.kind) (typeParamNames c) true

/-- The nodes with names among some, each with the mark of a member. -/
def memberMarks (nodes : List Cursor) : List (Pointer × Mark) :=
  (nodes.filter fun c => c.name?.isSome).map fun c => (Pointer.of c, .member)

/-- The records of a member and of what it contains, outside of types or in one.
`fuel` bounds the nesting. -/
def outlineMember : Nat → Bool → List Step → Cursor → List (Pointer × Mark)
  | 0, _, _, _ => []
  | fuel + 1, inType, way, c =>
    match c.kind, inType with
    | .namespaceDeclaration, false | .fileScopedNamespaceDeclaration, false =>
      (Pointer.of c, .space (segmentWay way (writtenPath c))) ::
        c.members.flatMap (outlineMember fuel false (segmentWay way (writtenPath c)))
    | .classDeclaration, _ | .structDeclaration, _ | .interfaceDeclaration, _ =>
      (Pointer.of c, .type (typeStep c :: way)) ::
        c.members.flatMap (outlineMember fuel true (typeStep c :: way))
    | .enumDeclaration, _ => (Pointer.of c, .type (typeStep c :: way)) :: memberMarks c.enumMembers
    | .delegateDeclaration, _ => [(Pointer.of c, .type (typeStep c :: way))]
    | .methodDeclaration, true | .constructorDeclaration, true => [(Pointer.of c, .member)]
    | .fieldDeclaration, true => memberMarks (fieldDeclarators c)
    | .propertyDeclaration, true => memberMarks [c]
    | _, _ => []

/-- The records of the file with a root, in their order. -/
def outline (root : Cursor) : List (Pointer × Mark) :=
  root.members.flatMap (outlineMember root.focus.depth false [])

/-- Marks of the nodes of a document. -/
def marksIn (document : DocumentId) (marks : List (Pointer × Mark)) : List (Origin × Mark) :=
  marks.map fun mark => (⟨document, mark.1⟩, mark.2)

theorem marksIn_flatMap {document : DocumentId} (l : List Cursor)
    (f : Cursor → List (Pointer × Mark)) :
    marksIn document (l.flatMap f) = l.flatMap fun c => marksIn document (f c) :=
  List.map_flatMap ..

/-- Whether members of types may be entered in a container. -/
def Container.isType : Container → Bool
  | .space _ => false
  | .type _ => true

section

variable {s : SymbolTable} {way : List Step} {document : DocumentId}

/-- A type declaration is entered in its container, and recorded. -/
theorem enters_enterType (hs : s.Rooted) {container : Container} (hat : s.At way container)
    (c : Cursor) : Enters s ((enterType ⟨document, Pointer.of c⟩ container c).run s).2
      [(⟨document, Pointer.of c⟩, .type (typeStep c :: way))] ∧
    ((enterType ⟨document, Pointer.of c⟩ container c).run s).2.At (typeStep c :: way)
      (.type ((enterType ⟨document, Pointer.of c⟩ container c).run s).1) := by
  obtain ⟨info, hinfo, hstep, hrun⟩ : ∃ info : TypeInfo, info.container = container ∧
      info.step = typeStep c ∧ (enterType ⟨document, Pointer.of c⟩ container c).run s =
        ((s.addType info).2, (s.addType info).1.record ⟨document, Pointer.of c⟩
          (.type (s.addType info).2)) := ⟨_, rfl, rfl, rfl⟩
  have hinfo : s.At way info.container := hinfo.symm ▸ hat
  rw [hrun, ← hstep]
  exact enters_type hs hinfo

theorem memberMarks_of_none {c : Cursor} (h : c.name? = none) : memberMarks [c] = [] := by
  simp [memberMarks, h]

theorem memberMarks_of_some {c : Cursor} {name : String} (h : c.name? = some name) :
    memberMarks [c] = [(Pointer.of c, .member)] := by
  simp [memberMarks, h]

/-- Nodes with names are entered as members, one by one. -/
theorem enters_enterNamed {nodes : List Cursor} {body : Cursor → PUnit → TableM (ForInStep PUnit)}
    (hs : s.Rooted) (hnone : ∀ c ∈ nodes, c.name? = none → ∀ s' : SymbolTable,
      (body c ⟨⟩).run s' = (.yield ⟨⟩, s'))
    (hsome : ∀ c ∈ nodes, ∀ name, c.name? = some name → ∀ s' : SymbolTable, s'.Rooted →
      Enters s' ((body c ⟨⟩).run s').2 [(⟨document, Pointer.of c⟩, .member)] ∧
        ((body c ⟨⟩).run s').1 = .yield ⟨⟩) :
    Enters s ((ForIn.forIn nodes PUnit.unit body).run s).2 (marksIn document (memberMarks nodes)) := by
  have hmarks : marksIn document (memberMarks nodes) =
      nodes.flatMap fun c => marksIn document (memberMarks [c]) := by
    clear hnone hsome
    induction nodes with
    | nil => rfl
    | cons c nodes ih =>
        rw [List.flatMap_cons, ← ih]
        cases hname : c.name? <;> simp [memberMarks, marksIn, hname]
  rw [hmarks]
  refine Enters.forIn hs fun c hc s' hs' _ => ?_
  cases hname : c.name? with
  | none =>
      rw [hnone c hc hname s', memberMarks_of_none hname]
      exact ⟨.refl hs', rfl⟩
  | some name =>
      rw [memberMarks_of_some hname]
      exact hsome c hc name hname s' hs'

/-- A field is entered for each node with a name. -/
theorem enters_enterEach (hs : s.Rooted) (nodes : List Cursor) (info : Cursor → String → ValueInfo) :
    Enters s ((do
      for member in nodes do
        if let some name := member.name? then
          let id ← TableM.addField (info member name)
          record ⟨document, Pointer.of member⟩ (.field id) : TableM Unit).run s).2
      (marksIn document (memberMarks nodes)) := by
  refine enters_enterNamed hs (fun member _ hname s' => ?_) fun member _ name hname s' hs' => ?_
  · simp only [hname]
    rfl
  · simp only [hname]
    exact ⟨enters_member hs' (.of_eq rfl rfl)
      ((Grows.addField s' _).trans (Grows.record _ _ _)) rfl (.field _), rfl⟩

theorem enters_enterEnumMembers (hs : s.Rooted) (owner : TypeId) (c : Cursor) :
    Enters s ((enterEnumMembers document owner c).run s).2
      (marksIn document (memberMarks c.enumMembers)) :=
  enters_enterEach hs c.enumMembers _

theorem enters_enterFields (hs : s.Rooted) (owner : TypeId) (c : Cursor) :
    Enters s ((enterFields document owner c).run s).2
      (marksIn document (memberMarks (fieldDeclarators c))) :=
  enters_enterEach hs (fieldDeclarators c) _

theorem enters_enterProperty (hs : s.Rooted) (owner : TypeId) (c : Cursor) :
    Enters s ((enterProperty ⟨document, Pointer.of c⟩ owner c).run s).2
      (marksIn document (memberMarks [c])) := by
  rw [enterProperty]
  cases hname : c.name? with
  | none =>
      rw [memberMarks_of_none hname]
      exact .refl hs
  | some name =>
      rw [memberMarks_of_some hname]
      exact enters_member hs (.of_eq rfl rfl)
        ((Grows.addProperty s _).trans (Grows.record _ _ _)) rfl (.property _)

theorem enters_enterInvoke (hs : s.Rooted) (origin : Origin) (owner : TypeId) :
    Enters s ((enterInvoke origin owner).run s).2 [] :=
  enters_nothing hs (.of_eq rfl rfl) (Grows.addMethod s _) rfl

theorem enters_enterMethod (hs : s.Rooted) (owner : TypeId) (c : Cursor) :
    Enters s ((enterMethod ⟨document, Pointer.of c⟩ owner c).run s).2
      (marksIn document [(Pointer.of c, .member)]) := by
  by_cases hconstructor : (c.kind == .constructorDeclaration) = true
  · simp only [enterMethod, hconstructor, if_true]
    exact enters_member hs (.of_eq rfl rfl)
      ((Grows.addMethod s _).trans (Grows.record _ _ _)) rfl (.method _)
  · simp only [enterMethod, hconstructor]
    exact enters_member hs (.of_eq rfl rfl)
      ((Grows.addMethod s _).trans (Grows.record _ _ _)) rfl (.method _)

/-- A namespace is found or entered, and recorded, before what it contains. -/
theorem run_enterSpace (parent : NamespaceId) (path : String) (origin : Origin)
    (more : NamespaceId → TableM Unit) : ((do
      let ns ← TableM.ensurePath parent path
      record origin (.space ns)
      more ns).run s).2 = ((more (s.ensurePath parent path).2).run
        ((s.ensurePath parent path).1.record origin (.space (s.ensurePath parent path).2))).2 := rfl

/-- Entering a member adds what its outline tells. -/
theorem enters_enterMember (fuel : Nat) (hs : s.Rooted) {container : Container}
    (hat : s.At way container) (c : Cursor) :
    Enters s ((enterMember document fuel container c).run s).2
      (marksIn document (outlineMember fuel container.isType way c)) := by
  induction fuel generalizing s container way c with
  | zero => exact .refl hs
  | succ fuel ih =>
      obtain ⟨hfirst, hinner⟩ : Enters s ((enterType ⟨document, Pointer.of c⟩ container c).run s).2
          [(⟨document, Pointer.of c⟩, .type (typeStep c :: way))] ∧ _ := enters_enterType hs hat c
      have declared : Enters s ((do
          let id ← enterType ⟨document, Pointer.of c⟩ container c
          for member in c.members do enterMember document fuel (.type id) member : TableM Unit).run s).2
            (marksIn document ((Pointer.of c, .type (typeStep c :: way)) ::
              c.members.flatMap (outlineMember fuel true (typeStep c :: way)))) := by
        rw [run_bind_snd, run_bind_snd, marksIn, List.map_cons, ← marksIn, marksIn_flatMap]
        exact hfirst.trans (Enters.forIn hfirst.rooted fun member _ s' hs' hgrows =>
          ⟨ih hs' (hinner.mono hgrows) member, rfl⟩)
      have spaced {parent : NamespaceId} (hat : s.At way (.space parent)) : Enters s ((do
          let ns ← TableM.ensurePath parent (writtenPath c)
          record ⟨document, Pointer.of c⟩ (.space ns)
          for member in c.members do enterMember document fuel (.space ns) member : TableM Unit).run s).2
            (marksIn document ((Pointer.of c, .space (segmentWay way (writtenPath c))) ::
              c.members.flatMap (outlineMember fuel false (segmentWay way (writtenPath c))))) := by
        obtain ⟨hspace, hinner⟩ : Enters s _ [((⟨document, Pointer.of c⟩ : Origin), _)] ∧ _ :=
          enters_space hs hat (writtenPath c)
        rw [run_enterSpace, run_bind_snd, marksIn, List.map_cons, ← marksIn, marksIn_flatMap]
        exact hspace.trans (Enters.forIn hspace.rooted fun member _ s' hs' hgrows =>
          ⟨ih hs' (hinner.mono hgrows) member, rfl⟩)
      unfold enterMember
      split
      case h_1 parent hkind | h_2 parent hkind =>
        simp only [outlineMember, hkind, Container.isType]
        exact spaced hat
      case h_3 hkind | h_4 hkind | h_5 hkind =>
        simp only [outlineMember, hkind]
        exact declared
      case h_6 hkind =>
        simp only [outlineMember, hkind]
        exact hfirst.trans (enters_enterEnumMembers hfirst.rooted _ c)
      case h_7 hkind =>
        simp only [outlineMember, hkind]
        exact hfirst.trans (enters_enterInvoke hfirst.rooted _ _)
      case h_8 owner hkind | h_9 owner hkind =>
        simp only [outlineMember, hkind, Container.isType]
        exact enters_enterMethod hs owner c
      case h_10 owner hkind =>
        simp only [outlineMember, hkind, Container.isType]
        exact enters_enterFields hs owner c
      case h_11 owner hkind =>
        simp only [outlineMember, hkind, Container.isType]
        exact enters_enterProperty hs owner c
      case h_12 =>
        rename_i container _ _ hclass hstruct hinterface henum hdelegate hspace hfile hmethod
          hconstructor hfield hproperty
        have hnone : outlineMember (fuel + 1) container.isType way c = [] := by
          unfold outlineMember
          cases container <;> split <;> simp_all [Container.isType]
        rw [hnone]
        exact .refl hs

/-- Entering a document adds what its outline tells. -/
theorem enters_enterDocument (hs : s.Rooted) (doc : Document) :
    Enters s ((enterDocument doc).run s).2 (marksIn doc.id (outline doc.root)) := by
  rw [outline, marksIn_flatMap, enterDocument, run_bind_snd]
  exact Enters.forIn hs fun member _ s' hs' hgrows =>
    ⟨enters_enterMember _ hs' .global member, rfl⟩

end

/-! ## Projects -/

theorem rooted_framework : Framework.table.Rooted where
  global_lt := closed_framework.global_lt
  global_top := closed_framework.global_top
  exists_way _ := closed_framework.exists_way
  apart := by
    have hapart : ∀ i < Framework.table.namespaces.size, ∀ j < Framework.table.namespaces.size,
        (Framework.table.space ⟨i⟩).parent? ≠ none →
          Framework.table.space ⟨i⟩ = Framework.table.space ⟨j⟩ → i = j := by decide +kernel
    exact fun a b ha hb hparent heq =>
      congrArg NamespaceId.mk (hapart a.num ha b.num hb hparent heq)

/-- The marks of all documents of a project, in the order of its records. -/
def projectMarks (project : Project) : List (Origin × Mark) :=
  project.documents.flatMap fun doc => marksIn doc.id (outline doc.root)

theorem enters_entered (project : Project) :
    Enters Framework.table (.entered project) (projectMarks project) := by
  rw [SymbolTable.entered, projectMarks]
  have hrooted := rooted_framework
  generalize Framework.table = s at hrooted
  induction project.documents generalizing s with
  | nil => exact .refl hrooted
  | cons doc docs ih =>
      have hfirst := enters_enterDocument hrooted doc
      exact hfirst.trans (ih _ hfirst.rooted)

end CSharpKit.Semantics
