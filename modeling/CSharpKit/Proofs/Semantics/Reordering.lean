import CSharpKit.Proofs.Semantics.Passes
import CSharpKit.Proofs.Semantics.TwinScopes
import CSharpKit.Proofs.Workspace.Documents

/-!
# Documents in another order

Two projects with the same documents in another order number their types differently.
The ways to the types are the same, and a node is recorded as the same in both.
-/

namespace CSharpKit.Semantics

open Syntax Workspace Cursor Declare Outcome

/-! ## The same documents -/

/-- Two projects of the same named texts, each in an order of its own. -/
structure Reordered (p p' : Project) : Prop where
  perm : (p.documents.map fun doc => (doc.name, doc.text)).Perm
    (p'.documents.map fun doc => (doc.name, doc.text))
  names : (p.documents.map (·.name)).Nodup

/-- Documents of two projects that have the same name. -/
structure TwinDocument (p p' : Project) (doc doc' : Document) : Prop where
  mem : doc ∈ p.documents ∧ doc' ∈ p'.documents
  name_eq : doc.name = doc'.name

theorem root_eq_of_text {doc doc' : Document} (h : doc.text = doc'.text) :
    doc.root = doc'.root := by
  rw [Document.root, Document.root, doc.parsed_eq, doc'.parsed_eq, h]

namespace Reordered

variable {p p' : Project} {doc doc' : Document}

theorem symm (h : Reordered p p') : Reordered p' p where
  perm := h.perm.symm
  names := by
    have hnames := h.perm.map Prod.fst
    simp only [List.map_map, Function.comp_def] at hnames
    exact hnames.nodup_iff.mp h.names

theorem exists_twin (h : Reordered p p') (hdoc : doc ∈ p.documents) :
    ∃ doc', TwinDocument p p' doc doc' := by
  obtain ⟨doc', hdoc', heq⟩ := List.mem_map.mp (h.perm.mem_iff.mp (List.mem_map_of_mem hdoc))
  exact ⟨doc', ⟨hdoc, hdoc'⟩, (Prod.mk.inj heq).1.symm⟩

theorem eq_of_name (h : Reordered p p') {other : Document} (hdoc : doc ∈ p.documents)
    (hother : other ∈ p.documents) (heq : doc.name = other.name) : doc = other :=
  List.inj_on_of_nodup_map h.names hdoc hother heq

theorem root_eq (h : Reordered p p') (htwin : TwinDocument p p' doc doc') : doc.root = doc'.root := by
  obtain ⟨found, hfound, heq⟩ :=
    List.mem_map.mp (h.perm.mem_iff.mp (List.mem_map_of_mem htwin.mem.1))
  obtain ⟨hname, htext⟩ := Prod.mk.inj heq
  obtain rfl := h.symm.eq_of_name hfound htwin.mem.2 (hname.trans htwin.name_eq)
  exact root_eq_of_text htext.symm

end Reordered

/-! ## The records of a document -/

theorem lookup_marksIn (document : DocumentId) (marks : List (Pointer × Mark)) (pointer : Pointer) :
    (marksIn document marks).lookup ⟨document, pointer⟩ = marks.lookup pointer := by
  induction marks with
  | nil => rfl
  | cons mark marks ih =>
      have hkey : (Origin.mk document pointer == ⟨document, mark.1⟩) = (pointer == mark.1) := by
        rw [Bool.eq_iff_iff, beq_iff_eq, beq_iff_eq, Origin.mk.injEq]
        exact and_iff_right rfl
      rw [marksIn, List.map_cons, List.lookup_cons, List.lookup_cons, hkey, ← ih, marksIn]

theorem lookup_marksIn_of_ne {document other : DocumentId} (h : document ≠ other)
    (marks : List (Pointer × Mark)) (pointer : Pointer) :
    (marksIn other marks).lookup ⟨document, pointer⟩ = none := by
  refine List.lookup_eq_none_iff.mpr fun entry hentry => bne_iff_ne.mpr fun heq => h ?_
  obtain ⟨mark, -, rfl⟩ := List.mem_map.mp hentry
  exact (Origin.mk.inj heq).1

/-- Of the marks of several documents those of its own count for a place. -/
theorem lookup_flatMap_marksIn {docs : List Document} (hids : (docs.map (·.id)).Nodup)
    (f : Document → List (Pointer × Mark)) {doc : Document} (hdoc : doc ∈ docs) (pointer : Pointer) :
    (docs.flatMap fun d => marksIn d.id (f d)).lookup ⟨doc.id, pointer⟩ = (f doc).lookup pointer := by
  induction docs with
  | nil => cases hdoc
  | cons first docs ih =>
      obtain ⟨hfirst, hids⟩ := List.nodup_cons.mp hids
      rw [List.flatMap_cons, List.lookup_append]
      rcases List.mem_cons.mp hdoc with rfl | hdoc
      · have hothers : (docs.flatMap fun d => marksIn d.id (f d)).lookup ⟨doc.id, pointer⟩ = none := by
          refine List.lookup_eq_none_iff.mpr fun entry hentry => bne_iff_ne.mpr fun heq => hfirst ?_
          obtain ⟨other, hother, hmem⟩ := List.mem_flatMap.mp hentry
          obtain ⟨mark, -, rfl⟩ := List.mem_map.mp hmem
          exact List.mem_map.mpr ⟨other, hother, (Origin.mk.inj heq).1.symm⟩
        rw [lookup_marksIn, hothers, Option.or_none]
      · have hne : doc.id ≠ first.id := fun heq => hfirst (List.mem_map.mpr ⟨doc, hdoc, heq⟩)
        rw [lookup_marksIn_of_ne hne, Option.none_or, ih hids hdoc]

theorem lookup_projectMarks {p : Project} {doc : Document} (hdoc : doc ∈ p.documents)
    (pointer : Pointer) : (projectMarks p).reverse.lookup ⟨doc.id, pointer⟩ =
      (outline doc.root).reverse.lookup pointer := by
  have hids : (p.documents.reverse.map (·.id)).Nodup := by
    rw [List.map_reverse, List.nodup_reverse]
    exact p.ids_sorted.imp Nat.ne_of_lt
  have hreverse : (projectMarks p).reverse =
      p.documents.reverse.flatMap fun doc => marksIn doc.id (outline doc.root).reverse := by
    rw [projectMarks, List.reverse_flatMap]
    simp only [Function.comp_def, marksIn, List.map_reverse]
  rw [hreverse]
  exact lookup_flatMap_marksIn hids _ (List.mem_reverse.mpr hdoc) pointer

theorem mem_projectMarks {p : Project} {origin : Origin} {mark : Mark} :
    (origin, mark) ∈ projectMarks p ↔
      ∃ doc ∈ p.documents, doc.id = origin.document ∧ (origin.pointer, mark) ∈ outline doc.root := by
  simp only [projectMarks, List.mem_flatMap, marksIn, List.mem_map, Prod.mk.injEq]
  constructor
  · rintro ⟨doc, hdoc, ⟨pointer, mark⟩, hmem, rfl, rfl⟩
    exact ⟨doc, hdoc, rfl, hmem⟩
  · rintro ⟨doc, hdoc, hid, hmem⟩
    exact ⟨doc, hdoc, _, hmem, by rw [hid], rfl⟩

/-- The records of a project are those that its marks tell of. -/
theorem marked_entered (p : Project) : List.Forall₂
    (fun record mark => record.1 = mark.1 ∧ Decl.Marked (.entered p) record.2 mark.2)
    (SymbolTable.entered p).decls.reverse (projectMarks p) := by
  obtain ⟨new, hnew, hmarked⟩ := (enters_entered p).records
  rw [hnew, decls_framework, List.append_nil]
  exact hmarked

theorem rel_decl?_mark (p : Project) (origin : Origin) :
    Option.Rel (Decl.Marked (.entered p)) ((SymbolTable.entered p).decl? origin)
      ((projectMarks p).reverse.lookup origin) := by
  have hmarked := List.forall₂_reverse_iff.mpr (marked_entered p)
  rw [List.reverse_reverse] at hmarked
  exact rel_lookup hmarked origin

/-- A node of a document is recorded as the same in both tables. -/
theorem Reordered.rel_decl? {p p' : Project} (h : Reordered p p') {doc doc' : Document}
    (htwin : TwinDocument p p' doc doc') (pointer : Pointer) :
    Option.Rel (Scope.TwinDecl (.entered p) (.entered p'))
      ((SymbolTable.entered p).decl? ⟨doc.id, pointer⟩)
      ((SymbolTable.entered p').decl? ⟨doc'.id, pointer⟩) := by
  have hleft := rel_decl?_mark p ⟨doc.id, pointer⟩
  have hright := rel_decl?_mark p' ⟨doc'.id, pointer⟩
  rw [lookup_projectMarks htwin.mem.1] at hleft
  rw [lookup_projectMarks htwin.mem.2, ← h.root_eq htwin] at hright
  generalize (SymbolTable.entered p).decl? ⟨doc.id, pointer⟩ = decl at hleft ⊢
  generalize (SymbolTable.entered p').decl? ⟨doc'.id, pointer⟩ = decl' at hright ⊢
  generalize (outline doc.root).reverse.lookup pointer = mark at hleft hright
  cases hleft with
  | none =>
      cases hright with
      | none => exact .none
  | some hdecl =>
      cases hright with
      | some hdecl' => exact .some ⟨_, hdecl, hdecl'⟩

/-! ## Types apart -/

/-- No two types of the sources share container, name and number of type parameters. -/
def SymbolTable.SourcesApart (s : SymbolTable) : Prop :=
  ∀ t ∈ s.typeIds, ∀ u ∈ s.typeIds, (s.type t).origin?.isSome = true →
    (s.type u).origin?.isSome = true → (s.type t).container = (s.type u).container →
    (s.type t).name = (s.type u).name → (s.type t).arity = (s.type u).arity → t = u

theorem framework_apart : ∀ i < Framework.table.types.size, ∀ j < Framework.table.types.size,
    (Framework.table.type ⟨i⟩).container = (Framework.table.type ⟨j⟩).container →
    (Framework.table.type ⟨i⟩).name = (Framework.table.type ⟨j⟩).name →
    (Framework.table.type ⟨i⟩).arity = (Framework.table.type ⟨j⟩).arity → i = j := by
  decide +kernel

theorem Grows.fits_eq {q s : SymbolTable} (h : Grows q s) {t : TypeId} (ht : t.num < q.types.size) :
    (s.type t).container = (q.type t).container ∧ (s.type t).name = (q.type t).name ∧
      (s.type t).arity = (q.type t).arity := by
  have hcontainer := congrArg TypeInfo.container (h.type_eq ht)
  have hname := congrArg TypeInfo.name (h.type_eq ht)
  have harity := congrArg TypeInfo.arity (h.type_eq ht)
  exact ⟨hcontainer, hname, harity⟩

/-- The types of a table from a place on come from the sources, and have no bases yet. -/
def TypesFrom (n : Nat) (s : SymbolTable) : Prop :=
  EachEntry (fun i info => n ≤ i → info.origin?.isSome = true ∧ info.bases = []) s.types

theorem TypesFrom.entry {n : Nat} {s s' : SymbolTable} {doc : Document} (h : TypesFrom n s)
    (hentry : Declare.Entry doc s s') : TypesFrom n s' := by
  cases hentry with
  | space => exact enterSpace_keeps (P := TypesFrom n) fun _ => h
  | type _ _ hinfo hbases =>
      exact EachEntry.push h fun _ => ⟨by rw [hinfo.origin?_eq]; rfl, hbases⟩
  | delegate _ _ hinfo hbases =>
      exact EachEntry.push h fun _ => ⟨by rw [hinfo.origin?_eq]; rfl, hbases⟩
  | method | field | property => exact h

theorem typesFrom_entered (p : Project) : TypesFrom Framework.table.types.size (.entered p) := by
  refine entered_keeps ?_ fun _ _ _ _ hentry h => h.entry hentry
  intro i info hinfo hle
  exact absurd (Array.getElem?_eq_some_iff.mp hinfo).1 (Nat.not_lt_of_le hle)

theorem typesFrom_type {p : Project} {t : TypeId}
    (ht : t.num < (SymbolTable.entered p).types.size) (hnew : Framework.table.types.size ≤ t.num) :
    ((SymbolTable.entered p).type t).origin?.isSome = true ∧
      ((SymbolTable.entered p).type t).bases = [] := by
  refine typesFrom_entered p t.num _ ?_ hnew
  rw [SymbolTable.type, Array.getElem?_eq_getElem ht]
  rfl

/-- A type comes from the sources if it is none of the framework. -/
theorem isSome_origin?_entered {p : Project} {t : TypeId}
    (ht : t.num < (SymbolTable.entered p).types.size) :
    ((SymbolTable.entered p).type t).origin?.isSome = true ↔
      Framework.table.types.size ≤ t.num := by
  constructor
  · intro h
    obtain ⟨origin, horigin⟩ := Option.isSome_iff_exists.mp h
    exact (grows_entered p).le_of_origin? horigin
  · exact fun hnew => (typesFrom_type ht hnew).1

theorem typesApart_entered {p : Project} (h : (SymbolTable.entered p).SourcesApart) :
    (SymbolTable.entered p).TypesApart where
  apart t u ht hu hcontainer hname harity hsource := by
    by_cases hnew : ((SymbolTable.entered p).type u).origin?.isSome = true
    · exact h t (SymbolTable.mem_typeIds.mpr ht) u (SymbolTable.mem_typeIds.mpr hu)
        (hsource.trans hnew) hnew hcontainer hname harity
    · have hold {v : TypeId} (hv : v.num < (SymbolTable.entered p).types.size)
          (hsource : ¬((SymbolTable.entered p).type v).origin?.isSome = true) :
          v.num < Framework.table.types.size :=
        Nat.lt_of_not_le fun hle => hsource ((isSome_origin?_entered hv).mpr hle)
      have ht := hold ht (by rwa [hsource])
      have hu := hold hu hnew
      obtain ⟨htcontainer, htname, htarity⟩ := (grows_entered p).fits_eq ht
      obtain ⟨hucontainer, huname, huarity⟩ := (grows_entered p).fits_eq hu
      rw [htcontainer, hucontainer] at hcontainer
      rw [htname, huname] at hname
      rw [htarity, huarity] at harity
      exact congrArg TypeId.mk (framework_apart t.num ht u.num hu hcontainer hname harity)
  first t u ht hu htold hunew := by
    have hle := (isSome_origin?_entered hu).mp hunew
    have hlt : ¬Framework.table.types.size ≤ t.num := fun hle => by
      rw [(isSome_origin?_entered ht).mpr hle] at htold
      cases htold
    omega

/-! ## Types that are the same -/

theorem exists_mark {p : Project} {origin : Origin} {decl : Decl}
    (h : (origin, decl) ∈ (SymbolTable.entered p).decls) :
    ∃ mark, (origin, mark) ∈ projectMarks p ∧ decl.Marked (.entered p) mark := by
  obtain ⟨⟨_, mark⟩, hmem, rfl, hmarked⟩ :=
    exists_left_of_mem (marked_entered p).flip (List.mem_reverse.mpr h)
  exact ⟨mark, hmem, hmarked⟩

theorem exists_marked {p : Project} {origin : Origin} {mark : Mark}
    (h : (origin, mark) ∈ projectMarks p) : ∃ decl : Decl, decl.Marked (.entered p) mark := by
  obtain ⟨⟨_, decl⟩, -, -, hmarked⟩ := exists_left_of_mem (marked_entered p) h
  exact ⟨decl, hmarked⟩

theorem decl?_entered {p : Project} {origin : Origin} {t : TypeId}
    (h : (origin, .type t) ∈ (SymbolTable.entered p).decls) :
    (SymbolTable.entered p).decl? origin = some (.type t) := by
  rw [← decls_based, ← decls_ofProject] at h
  have hfound := (finds_of_mem h fun _ => by rintro ⟨⟩).decl_eq
  rwa [SymbolTable.decl?, decls_ofProject, decls_based] at hfound

/-- A type of the sources is found where it is declared. -/
theorem exists_decl?_of_source {p : Project} {t : TypeId}
    (ht : t.num < (SymbolTable.entered p).types.size)
    (hsource : ((SymbolTable.entered p).type t).origin?.isSome = true) :
    ∃ doc ∈ p.documents, ∃ pointer,
      (SymbolTable.entered p).decl? ⟨doc.id, pointer⟩ = some (.type t) := by
  obtain ⟨origin, horigin⟩ := Option.isSome_iff_exists.mp hsource
  have hrecords : (SymbolTable.entered p).Records :=
    entered_keeps records_framework fun _ _ _ _ hentry h => h.entry hentry
  have hmem := hrecords.types t.num _ (by
    rw [SymbolTable.type, Array.getElem?_eq_getElem ht] at horigin
    exact Array.getElem?_eq_getElem ht) origin (by
      rw [SymbolTable.type, Array.getElem?_eq_getElem ht] at horigin
      exact horigin)
  obtain ⟨mark, hmark, -⟩ := exists_mark hmem
  obtain ⟨doc, hdoc, hid, -⟩ := mem_projectMarks.mp hmark
  exact ⟨doc, hdoc, origin.pointer, by rw [hid]; exact decl?_entered hmem⟩

theorem origin?_of_decl? {p : Project} {t : TypeId} {origin : Origin}
    (h : (SymbolTable.entered p).decl? origin = some (.type t)) :
    ((SymbolTable.entered p).type t).origin? = some origin :=
  (sourced_entered p _ _ (SymbolTable.mem_of_decl? h)).type_origin?

theorem SymbolTable.TwinType.container {q s : SymbolTable} {t u : TypeId} (h : q.TwinType s t u) :
    Twin q s (q.type t).container (s.type u).container := by
  obtain ⟨way, ht, hu⟩ := h
  generalize hway : way = whole at hu
  cases ht with
  | @type rest t ht hlt =>
      cases hu with
      | @type rest' u hu hlt' => exact ⟨rest, ht, (List.cons.inj hway).2 ▸ hu⟩

namespace Reordered

variable {p p' : Project} {doc doc' : Document}

/-- What a place declares as a type in one table it declares as a type in the other. -/
theorem exists_twinType (h : Reordered p p') (htwin : TwinDocument p p' doc doc')
    {pointer : Pointer} {t : TypeId}
    (ht : (SymbolTable.entered p).decl? ⟨doc.id, pointer⟩ = some (.type t)) :
    ∃ u, (SymbolTable.entered p').decl? ⟨doc'.id, pointer⟩ = some (.type u) ∧
      (SymbolTable.entered p).TwinType (.entered p') t u := by
  have hrel := h.rel_decl? htwin pointer
  rw [ht] at hrel
  generalize (SymbolTable.entered p').decl? ⟨doc'.id, pointer⟩ = decl' at hrel ⊢
  cases hrel with
  | some hdecl =>
      obtain ⟨mark, hleft, hright⟩ := hdecl
      cases hleft with
      | type hleft =>
          cases hright with
          | type hright => exact ⟨_, rfl, _, hleft, hright⟩

/-- Types that share a container, name and number of type parameters in one order do so
in the other. -/
theorem sourcesApart (h : Reordered p p') (hapart : (SymbolTable.entered p).SourcesApart) :
    (SymbolTable.entered p').SourcesApart := by
  intro t ht u hu htsource husource hcontainer hname harity
  obtain ⟨doc', hdoc', pointer, htfound⟩ :=
    exists_decl?_of_source (SymbolTable.mem_typeIds.mp ht) htsource
  obtain ⟨other', hother', pointer', hufound⟩ :=
    exists_decl?_of_source (SymbolTable.mem_typeIds.mp hu) husource
  obtain ⟨doc, hdoc⟩ := h.symm.exists_twin hdoc'
  obtain ⟨other, hother⟩ := h.symm.exists_twin hother'
  obtain ⟨v, hvfound, hv⟩ := h.symm.exists_twinType hdoc htfound
  obtain ⟨w, hwfound, hw⟩ := h.symm.exists_twinType hother hufound
  have hvw : v = w := by
    obtain ⟨way, hway, hvway⟩ := hv.container
    obtain ⟨way', hway', hwway⟩ := hw.container
    rw [hcontainer] at hway
    obtain rfl := hway.unique (enters_entered p').rooted.global_top hway'
    have hsame := hvway.injective (enters_entered p).rooted (typesApart_entered hapart) hwway
    obtain ⟨hvname, -, hvparams, hvsource⟩ := Step.type.inj hv.step_eq
    obtain ⟨hwname, -, hwparams, hwsource⟩ := Step.type.inj hw.step_eq
    refine hapart v ?_ w ?_ (hvsource ▸ htsource) (hwsource ▸ husource) hsame
      (hvname.symm.trans (hname.trans hwname))
      ((congrArg List.length hvparams).symm.trans (harity.trans (congrArg List.length hwparams)))
    · obtain ⟨_, -, hat⟩ := hv
      exact SymbolTable.mem_typeIds.mpr (hat.inRange (enters_entered p).rooted.global_lt)
    · obtain ⟨_, -, hat⟩ := hw
      exact SymbolTable.mem_typeIds.mpr (hat.inRange (enters_entered p).rooted.global_lt)
  obtain rfl := hvw
  -- The place of the one type in the first order is the place of both in the second.
  have horigin := Option.some.inj ((origin?_of_decl? hvfound).symm.trans (origin?_of_decl? hwfound))
  obtain ⟨hid, rfl⟩ := Origin.mk.inj horigin
  obtain rfl := Project.eq_of_id_eq hdoc.mem.2 hother.mem.2 hid
  obtain rfl := h.symm.eq_of_name hdoc' hother' (hdoc.name_eq.trans hother.name_eq.symm)
  exact Decl.type.inj (Option.some.inj (htfound.symm.trans hufound))

/-- Whatever way there is in one table, there is in the other. -/
theorem exists_at (h : Reordered p p') {way : List Step} {container : Container}
    (hat : (SymbolTable.entered p).At way container) :
    ∃ container', (SymbolTable.entered p').At way container' := by
  rcases (enters_entered p).old_or_new way container hat with hold | ⟨⟨origin, mark⟩, hmark, hway⟩
  · exact ⟨container, hold.mono (grows_entered p')⟩
  · obtain ⟨doc, hdoc, -, hmem⟩ := mem_projectMarks.mp hmark
    obtain ⟨doc', hdoc'⟩ := h.exists_twin hdoc
    rw [h.root_eq hdoc'] at hmem
    have hmark' : (⟨doc'.id, origin.pointer⟩, mark) ∈ projectMarks p' :=
      mem_projectMarks.mpr ⟨doc', hdoc'.mem.2, rfl, hmem⟩
    obtain ⟨decl, hdecl⟩ := exists_marked hmark'
    cases hdecl with
    | space hat' => exact hat'.exists_of_suffix hway
    | type hat' => exact hat'.exists_of_suffix hway
    | method | field | property => exact SymbolTable.At.global.exists_of_suffix hway

theorem alike (h : Reordered p p') (hapart : (SymbolTable.entered p).SourcesApart) :
    (SymbolTable.entered p).Alike (.entered p') where
  rooted := ⟨(enters_entered p).rooted, (enters_entered p').rooted⟩
  apart := ⟨typesApart_entered hapart, typesApart_entered (h.sourcesApart hapart)⟩
  ways _ := ⟨fun ⟨_, hat⟩ => h.exists_at hat, fun ⟨_, hat⟩ => h.symm.exists_at hat⟩

end Reordered

end CSharpKit.Semantics
