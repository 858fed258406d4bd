import CSharpKit.Proofs.Semantics.BaseChains
import CSharpKit.Proofs.Workspace.History
import CSharpKit.Proofs.Workspace.QuickReading

/-!
# Base types in any order of documents

Base types are resolved one declaration after the other, and each one sees those that
were resolved before it. What they are does not depend on the order of the documents
as long as no name that is looked up for them is found in a base class only.
-/

namespace CSharpKit.Semantics

open Syntax Workspace Cursor Declare Outcome

/-! ## Tables of the second pass -/

theorem SameHeads.of_grows {s s' : SymbolTable} (hgrows : Grows s s')
    (hnamespaces : s'.namespaces = s.namespaces) (hsize : s'.types.size = s.types.size) :
    SameHeads s s' where
  namespaces := hnamespaces
  size := hsize
  type t := by
    rcases Nat.lt_or_ge t.num s.types.size with hlt | hge
    · exact hgrows.type_eq hlt
    · rw [SymbolTable.type, SymbolTable.type, Array.getElem?_eq_none hge,
        Array.getElem?_eq_none (hsize ▸ hge)]

theorem SameHeads.fills {s s' : SymbolTable} (h : Fills s s') : SameHeads s s' := by
  have hgrows := h.grows
  cases h with
  | bases => exact .of_grows hgrows rfl (Array.size_modify ..)
  | none | signature | fieldTy | propertyTy => exact .of_grows hgrows rfl rfl

theorem SymbolTable.type_setBases_of_ne (s : SymbolTable) {t u : TypeId} (h : u ≠ t)
    (bases : List Ty) : (s.setBases t bases).type u = s.type u := by
  have hne : t.num ≠ u.num := fun heq => h (congrArg TypeId.mk heq).symm
  rw [SymbolTable.type, SymbolTable.setBases, Array.getElem?_modify, if_neg hne]
  rfl

theorem SymbolTable.bases_setBases (s : SymbolTable) {t : TypeId} (h : t.num < s.types.size)
    (bases : List Ty) : ((s.setBases t bases).type t).bases = bases := by
  rw [SymbolTable.type, SymbolTable.setBases, Array.getElem?_modify, if_pos rfl,
    Array.getElem?_eq_getElem h]
  rfl

/-- The table after some records have been visited by the second pass. -/
def SymbolTable.passed (p : Project) (records : List (Origin × Decl)) : SymbolTable :=
  records.foldl (fun s (origin, decl) => resolveBases p s origin decl) (.entered p)

theorem type_ofProject (p : Project) (t : TypeId) : (SymbolTable.ofProject p).type t =
    (SymbolTable.passed p (SymbolTable.entered p).decls.reverse).type t := by
  rw [SymbolTable.type, types_ofProject]
  rfl

theorem passed_concat (p : Project) (records : List (Origin × Decl)) (record : Origin × Decl) :
    SymbolTable.passed p (records ++ [record]) =
      resolveBases p (.passed p records) record.1 record.2 := by
  rw [SymbolTable.passed, List.foldl_concat]
  rfl

/-- What is so of every table of the second pass. -/
structure Passing (p : Project) (s : SymbolTable) : Prop where
  heads : SameHeads (.entered p) s
  decls : s.decls = (SymbolTable.entered p).decls
  closed : s.Closed
  framework : ∀ t : TypeId, t.num < Framework.table.types.size → s.type t = Framework.table.type t

theorem framework_lt_of_decls {p : Project} {origin : Origin} {t : TypeId}
    (h : (origin, .type t) ∈ (SymbolTable.entered p).decls) :
    t.num < (SymbolTable.entered p).types.size ∧ Framework.table.types.size ≤ t.num := by
  have hrecorded := sourced_entered p _ _ h
  refine ⟨?_, (grows_entered p).le_of_origin? hrecorded.type_origin?⟩
  cases hrecorded with
  | type _ _ _ _ hlt => exact hlt

theorem passing_entered (p : Project) : Passing p (.entered p) where
  heads := .refl _
  decls := rfl
  closed := entered_keeps closed_framework fun _ _ _ _ hentry h => h.entry hentry
  framework _ ht := (entered_keeps_framework p).1.getD_eq ht

theorem Passing.visit {p : Project} {s : SymbolTable} (h : Passing p s) {origin : Origin}
    {decl : Decl} (hmem : (origin, decl) ∈ (SymbolTable.entered p).decls) :
    Passing p (resolveBases p s origin decl) := by
  have hfills := fills_resolveBases p s origin decl
  refine ⟨h.heads.trans (.fills hfills), hfills.decls_eq.trans h.decls, h.closed.fills hfills,
    fun t ht => ?_⟩
  rcases resolveBases_cases p s origin decl with heq | ⟨u, c, rfl, -, -, heq⟩
  · rw [heq, h.framework t ht]
  · have hne : t ≠ u := by
      rintro rfl
      exact absurd ht (Nat.not_lt_of_le (framework_lt_of_decls hmem).2)
    rw [heq, s.type_setBases_of_ne hne, h.framework t ht]

theorem passing_passed {p : Project} {records : List (Origin × Decl)}
    (h : records ⊆ (SymbolTable.entered p).decls) : Passing p (.passed p records) := by
  induction records using List.reverseRecOn with
  | nil => exact passing_entered p
  | append_singleton records record ih =>
      rw [passed_concat]
      exact (ih fun r hr => h (List.mem_append_left _ hr)).visit
        (h (List.mem_append_right _ List.mem_cons_self))

theorem SameHeads.ofProject (p : Project) : SameHeads (.entered p) (.ofProject p) :=
  eachDecl_keeps (fun s origin decl h => h.trans (.fills (fills_resolveSignature p s origin decl)))
    (eachDecl_keeps (fun s origin decl h => h.trans (.fills (fills_resolveBases p s origin decl)))
      (.refl _))

theorem passing_ofProject (p : Project) : Passing p (.ofProject p) where
  heads := .ofProject p
  decls := (decls_ofProject p).trans (decls_based p)
  closed := closed_ofProject p
  framework t ht := by
    rw [type_ofProject]
    exact (passing_passed fun _ => List.mem_reverse.mp).framework t ht

/-! ## What a pass does to one type -/

/-- The types of some records. -/
def recordedTypes (records : List (Origin × Decl)) : List TypeId :=
  records.filterMap fun record =>
    match record.2 with
    | .type t => some t
    | _ => none

theorem mem_recordedTypes {records : List (Origin × Decl)} {t : TypeId} :
    t ∈ recordedTypes records ↔ ∃ origin, (origin, .type t) ∈ records := by
  rw [recordedTypes, List.mem_filterMap]
  constructor
  · rintro ⟨⟨origin, decl⟩, hmem, hdecl⟩
    cases decl with
    | type u =>
        obtain rfl := Option.some.inj hdecl
        exact ⟨origin, hmem⟩
    | space | method | field | property => cases hdecl
  · rintro ⟨origin, hmem⟩
    exact ⟨_, hmem, rfl⟩

theorem recordedTypes_append (before after : List (Origin × Decl)) :
    recordedTypes (before ++ after) = recordedTypes before ++ recordedTypes after :=
  List.filterMap_append

theorem recordedTypes_cons (origin : Origin) (t : TypeId) (after : List (Origin × Decl)) :
    recordedTypes ((origin, .type t) :: after) = t :: recordedTypes after := rfl

/-- Types are recorded when they are new. -/
theorem nodup_recordedTypes (p : Project) :
    (recordedTypes (SymbolTable.entered p).decls).Nodup := by
  suffices h : (recordedTypes (SymbolTable.entered p).decls).Nodup ∧
      ∀ t ∈ recordedTypes (SymbolTable.entered p).decls,
        t.num < (SymbolTable.entered p).types.size from h.1
  refine entered_keeps (P := fun s => (recordedTypes s.decls).Nodup ∧
    ∀ t ∈ recordedTypes s.decls, t.num < s.types.size) ?_ ?_
  · simp [decls_framework, recordedTypes]
  · rintro doc - s s' hentry ⟨hnodup, hlt⟩
    have hnew {types : Array TypeInfo} {info : TypeInfo} (htypes : types = s.types.push info) :
        (TypeId.mk s.types.size :: recordedTypes s.decls).Nodup ∧
          ∀ t ∈ TypeId.mk s.types.size :: recordedTypes s.decls, t.num < types.size := by
      rw [htypes, Array.size_push]
      refine ⟨List.nodup_cons.mpr ⟨fun hmem => Nat.lt_irrefl _ (hlt _ hmem), hnodup⟩,
        fun t ht => ?_⟩
      rcases List.mem_cons.mp ht with rfl | ht
      · exact Nat.lt_succ_self _
      · exact Nat.lt_succ_of_lt (hlt t ht)
    cases hentry with
    | space =>
        exact enterSpace_keeps (P := fun s => (recordedTypes s.decls).Nodup ∧
          ∀ t ∈ recordedTypes s.decls, t.num < s.types.size) fun _ => ⟨hnodup, hlt⟩
    | type => exact hnew rfl
    | delegate => exact hnew rfl
    | method | field | property => exact ⟨hnodup, hlt⟩

/-- The base types that a node writes, as they are read in a table. -/
def readBases (s : SymbolTable) (document : DocumentId) (c : Cursor) : List Ty :=
  ((c.baseList?.map Cursor.types).getD []).map (Scope.at_ s document c).resolveType

/-- The base types that a place declares, as they are read in a table. -/
def declaredBases (p : Project) (s : SymbolTable) (origin : Origin) : List Ty :=
  match (nodeAt? p origin).filter (·.kind.isTypeDeclaration) with
  | some c => readBases s origin.document c
  | none => []

theorem bases_visit {p : Project} {s : SymbolTable} {origin : Origin} {t : TypeId}
    (ht : t.num < s.types.size) (hbases : (s.type t).bases = []) :
    ((resolveBases p s origin (.type t)).type t).bases = declaredBases p s origin := by
  unfold resolveBases declaredBases
  cases hnode : nodeAt? p origin with
  | none => simpa [hnode] using hbases
  | some c =>
      by_cases hkind : c.kind.isTypeDeclaration = true
      · simp only [hkind, if_true, Option.filter_some]
        exact s.bases_setBases ht _
      · simp only [hkind, Option.filter_some]
        exact hbases

theorem type_passed_of_not_mem {p : Project} {before after : List (Origin × Decl)} {t : TypeId}
    (h : t ∉ recordedTypes after) :
    (SymbolTable.passed p (before ++ after)).type t = (SymbolTable.passed p before).type t := by
  induction after using List.reverseRecOn with
  | nil => rw [List.append_nil]
  | append_singleton after record ih =>
      have hrest : t ∉ recordedTypes after := by
        rw [recordedTypes_append] at h
        exact fun hmem => h (List.mem_append_left _ hmem)
      rw [← List.append_assoc, passed_concat, ← ih hrest]
      rcases resolveBases_cases p (.passed p (before ++ after)) record.1 record.2 with
        heq | ⟨u, c, hdecl, -, -, heq⟩
      · rw [heq]
      · have hne : t ≠ u := by
          rintro rfl
          exact h (mem_recordedTypes.mpr ⟨record.1, by simp [← hdecl]⟩)
        rw [heq, SymbolTable.type_setBases_of_ne _ hne]

section

variable {p : Project} {before after : List (Origin × Decl)}

theorem bases_passed_of_not_mem {t : TypeId}
    (ht : t ∉ recordedTypes before) (hlt : t.num < (SymbolTable.entered p).types.size)
    (hnew : Framework.table.types.size ≤ t.num) :
    ((SymbolTable.passed p before).type t).bases = [] := by
  have heq : (SymbolTable.passed p ([] ++ before)).type t = (SymbolTable.passed p []).type t :=
    type_passed_of_not_mem ht
  rw [List.nil_append] at heq
  rw [heq]
  exact (typesFrom_type hlt hnew).2

/-- A type has the bases that are read when it is visited, at the end and from then on. -/
theorem bases_passed {origin : Origin} {t : TypeId}
    (h : (SymbolTable.entered p).decls.reverse = before ++ (origin, .type t) :: after) :
    ((SymbolTable.ofProject p).type t).bases = declaredBases p (.passed p before) origin ∧
      ((SymbolTable.passed p (before ++ [(origin, .type t)])).type t).bases =
        declaredBases p (.passed p before) origin := by
  have hsub : before ++ (origin, .type t) :: after ⊆ (SymbolTable.entered p).decls :=
    h ▸ fun _ => List.mem_reverse.mp
  have hnodup := List.nodup_reverse.mpr (nodup_recordedTypes p)
  rw [recordedTypes, ← List.filterMap_reverse, h, ← recordedTypes, recordedTypes_append,
    recordedTypes_cons] at hnodup
  obtain ⟨-, hnodup, hdisjoint⟩ := List.nodup_append.mp hnodup
  have hbefore : t ∉ recordedTypes before := fun hmem =>
    hdisjoint t hmem t List.mem_cons_self rfl
  have hafter : t ∉ recordedTypes after := (List.nodup_cons.mp hnodup).1
  have hmem : (origin, .type t) ∈ (SymbolTable.entered p).decls := hsub (by simp)
  obtain ⟨hlt, hnew⟩ := framework_lt_of_decls hmem
  have hbeforeSub : before ⊆ (SymbolTable.entered p).decls :=
    fun _ hr => hsub (List.mem_append_left _ hr)
  have hvisited : ((SymbolTable.passed p (before ++ [(origin, .type t)])).type t).bases =
      declaredBases p (.passed p before) origin := by
    rw [passed_concat]
    exact bases_visit (by rw [(passing_passed hbeforeSub).heads.size]; exact hlt)
      (bases_passed_of_not_mem hbefore hlt hnew)
  refine ⟨?_, hvisited⟩
  rw [← hvisited, type_ofProject, h, List.append_cons, type_passed_of_not_mem hafter]

end

/-! ## Two passes side by side -/

theorem SymbolTable.TypesApart.congr {s s' : SymbolTable} (h : s.TypesApart)
    (hheads : SameHeads s s') : s'.TypesApart where
  apart t u := by
    simp only [hheads.size, hheads.container, hheads.name, hheads.arity, hheads.origin?]
    exact h.apart t u
  first t u := by
    simp only [hheads.size, hheads.origin?]
    exact h.first t u

theorem SameHeads.at_iff {s s' : SymbolTable} (h : SameHeads s s') {way : List Step}
    {container : Container} : s'.At way container ↔ s.At way container :=
  ⟨fun hat => hat.congr h.symm, fun hat => hat.congr h⟩

theorem SameHeads.twin_iff {q q' s s' : SymbolTable} (hq : SameHeads q q') (hs : SameHeads s s')
    {t u : TypeId} : q'.TwinType s' t u ↔ q.TwinType s t u := by
  simp only [SymbolTable.TwinType, SymbolTable.Twin, hq.at_iff, hs.at_iff]

theorem SymbolTable.Alike.congr {q q' s s' : SymbolTable} (h : q.Alike s) (hq : SameHeads q q')
    (hs : SameHeads s s') : q'.Alike s' where
  rooted := ⟨h.rooted.1.congr hq, h.rooted.2.congr hs⟩
  apart := ⟨h.apart.1.congr hq, h.apart.2.congr hs⟩
  ways way := by
    simp only [hq.at_iff, hs.at_iff]
    exact h.ways way

/-! ## Keywords and `object` -/

/-- A keyword names the same type in a table whose new types have no keywords. -/
theorem keywordType?_eq_of_same {f s : SymbolTable} (hsize : f.types.size ≤ s.types.size)
    (hsame : ∀ t : TypeId, t.num < f.types.size → s.type t = f.type t)
    (hknown : ∀ t : TypeId, (s.type t).keyword? ≠ none → t.num < f.types.size) (k : Kind) :
    s.keywordType? k = f.keywordType? k := by
  refine Option.ext fun d => ?_
  rw [keywordType?_eq_some, keywordType?_eq_some]
  constructor
  · rintro ⟨-, hd, hbefore⟩
    have hlt := hknown d (by rw [hd]; exact Option.some_ne_none k)
    rw [hsame d hlt] at hd
    refine ⟨hlt, hd, fun i hi => ?_⟩
    rw [← hsame ⟨i⟩ (Nat.lt_trans hi hlt)]
    exact hbefore i hi
  · rintro ⟨hlt, hd, hbefore⟩
    refine ⟨Nat.lt_of_lt_of_le hlt hsize, by rw [hsame d hlt]; exact hd, fun i hi => ?_⟩
    rw [hsame ⟨i⟩ (Nat.lt_trans hi hlt)]
    exact hbefore i hi

theorem Passing.keywordType?_eq {p : Project} {s : SymbolTable} (h : Passing p s) (k : Kind) :
    s.keywordType? k = Framework.table.keywordType? k := by
  refine keywordType?_eq_of_same ?_ h.framework (fun t ht => ?_) k
  · rw [h.heads.size]
    exact (grows_entered p).types.size_le
  · refine (keepsKeywords_ofProject p).keyword t ?_
    rw [(SameHeads.ofProject p).field_eq TypeInfo.keyword? (fun _ => rfl) t,
      ← h.heads.field_eq TypeInfo.keyword? (fun _ => rfl) t]
    exact ht

/-- The class `object` of the framework has no bases, and no type is declared in it. -/
theorem framework_object : ∀ i < Framework.table.types.size,
    (Framework.table.objectType? = some ⟨i⟩ → (Framework.table.type ⟨i⟩).bases = []) ∧
      Framework.table.objectType?.map Container.type ≠ some (Framework.table.type ⟨i⟩).container := by
  decide +kernel

/-- Types of the sources are declared in namespaces and in types of the sources. -/
theorem source_of_container {p : Project} {t outer : TypeId}
    (ht : t.num < (SymbolTable.entered p).types.size)
    (hnew : Framework.table.types.size ≤ t.num)
    (hcontainer : ((SymbolTable.entered p).type t).container = .type outer) :
    Framework.table.types.size ≤ outer.num := by
  obtain ⟨doc, -, pointer, hfound⟩ := exists_decl?_of_source ht (typesFrom_type ht hnew).1
  generalize (⟨doc.id, pointer⟩ : Origin) = origin at hfound
  cases sourced_entered p _ _ (SymbolTable.mem_of_decl? hfound) with
  | type _ hplaced _ hinfo =>
      rw [hinfo.container_eq] at hcontainer
      cases hplaced with
      | space => cases hcontainer
      | type _ _ _ hrecord =>
          obtain rfl := Container.type.inj hcontainer
          exact (framework_lt_of_decls hrecord).2

theorem Passing.objectBare {p : Project} {s : SymbolTable} (h : Passing p s) : s.ObjectBare := by
  have hobject {o : TypeId} (ho : s.objectType? = some o) :
      Framework.table.objectType? = some o ∧ o.num < Framework.table.types.size := by
    have heq : Framework.table.objectType? = some o := (h.keywordType?_eq .objectKw).symm.trans ho
    exact ⟨heq, SymbolTable.keywordType?_lt heq⟩
  constructor
  · intro o ho
    obtain ⟨heq, hlt⟩ := hobject ho
    have hbases := (framework_object o.num hlt).1 heq
    rw [← h.framework o hlt] at hbases
    cases hbase : s.classBase? o with
    | none => rfl
    | some b =>
        have hself := SymbolTable.classBase?_of_no_bases hbases hbase
        obtain rfl := Option.some.inj (ho.symm.trans hself)
        rw [SymbolTable.classBase?, hbases] at hbase
        simp [ho] at hbase
  · intro o ho name arity
    obtain ⟨heq, hlt⟩ := hobject ho
    refine SymbolTable.typeIn?_eq_none.mpr fun t ht hfits => ?_
    have hcontainer := hfits.1
    by_cases htold : t.num < Framework.table.types.size
    · rw [h.framework t htold] at hcontainer
      refine (framework_object t.num htold).2 ?_
      rw [heq, hcontainer]
      rfl
    · rw [h.heads.size] at ht
      rw [h.heads.container t] at hcontainer
      exact absurd hlt (Nat.not_lt_of_le
        (source_of_container ht (Nat.le_of_not_lt htold) hcontainer))

/-! ## Agreement -/

section

variable {p p' : Project} {q s : SymbolTable} {names : List String}

/-- A type of the framework is the same in all projects. -/
theorem twinType_framework (hq : Passing p q) (hs : Passing p' s) {t : TypeId}
    (ht : t.num < Framework.table.types.size) : q.TwinType s t t := by
  obtain ⟨way, hat⟩ := rooted_framework.exists_way (.type t) ht
  exact ⟨way, (hat.mono (grows_entered p)).congr hq.heads, (hat.mono (grows_entered p')).congr hs.heads⟩

theorem SymbolTable.TwinType.eq_of_heads (hheads : SameHeads q s) (halike : s.Alike s) {t u : TypeId}
    (h : q.TwinType s t u) : t = u := by
  obtain ⟨way, ht, hu⟩ := h
  exact Container.type.inj ((ht.congr hheads).injective halike.rooted.1 halike.apart.1 hu)

theorem SymbolTable.Alike.twin_self (h : s.Alike s) {t : TypeId} (ht : t.num < s.types.size) :
    s.TwinType s t t := by
  obtain ⟨way, hat⟩ := h.rooted.1.exists_way (.type t) ht
  exact ⟨way, hat, hat⟩

theorem SymbolTable.Follows.refl (halike : s.Alike s) (hclosed : s.Closed) : s.Follows s := by
  intro t u b htwin hb
  obtain rfl := htwin.eq_of_heads (.refl s) halike
  exact .inr ⟨b, hb, halike.twin_self (hclosed.classBase?_lt (htwin.inRange halike).1 hb)⟩

theorem Passing.agrees (h : Reordered p p') (hapart : (SymbolTable.entered p).SourcesApart)
    (hq : Passing p q) (hs : Passing p' s) (hown : s.OwnOnly names) (hfollows : q.Follows s) :
    q.Agrees s names where
  alike := (h.alike hapart).congr hq.heads hs.heads
  closed := ⟨hq.closed, hs.closed⟩
  keyword k := by
    rw [hq.keywordType?_eq, hs.keywordType?_eq]
    cases hk : Framework.table.keywordType? k with
    | none => exact .none
    | some t => exact .some (twinType_framework hq hs (SymbolTable.keywordType?_lt hk))
  flat := by
    have halike := (h.alike hapart).congr hq.heads hs.heads
    have hself : s.Alike s := ⟨⟨halike.rooted.2, halike.rooted.2⟩, ⟨halike.apart.2, halike.apart.2⟩,
      fun _ => Iff.rfl⟩
    exact ⟨hfollows.flat halike hs.closed hq.objectBare hown,
      (SymbolTable.Follows.refl hself hs.closed).flat hself hs.closed hs.objectBare hown⟩

end

/-! ## The names that are looked up -/

/-- The names that the base lists and the directives of a file write. -/
def baseNames (root : Cursor) : List String :=
  root.nodes.flatMap fun c =>
    ((c.baseList?.map Cursor.types).getD [] ++ c.usings.filterMap Cursor.type?).flatMap fun written =>
      written.nodes.filterMap Cursor.name?

theorem namesIn_baseNames {root c written : Cursor} (hc : Below root c) (hnode : c.isNode = true)
    (hwritten : written ∈ (c.baseList?.map Cursor.types).getD [] ++ c.usings.filterMap Cursor.type?) :
    written.NamesIn (baseNames root) := by
  intro d hd name hname
  obtain ⟨token, htoken, -⟩ := Option.map_eq_some_iff.mp hname
  have hdnode : d.isNode = true := 
    isNode_of_mem_elements (List.mem_filter.mp (List.mem_of_find?_eq_some htoken)).1
  exact List.mem_flatMap.mpr ⟨c, hc.mem_nodes hnode, List.mem_flatMap.mpr ⟨written, hwritten,
    List.mem_filterMap.mpr ⟨d, hd.mem_nodes hdnode, hname⟩⟩⟩

/-! ## Reading side by side -/

theorem Decl.Marked.congr {s s' : SymbolTable} {decl : Decl} {mark : Mark} (h : decl.Marked s mark)
    (hheads : SameHeads s s') : decl.Marked s' mark := by
  cases h with
  | space h => exact .space (h.congr hheads)
  | type h => exact .type (h.congr hheads)
  | method m => exact .method m
  | field f => exact .field f
  | property p => exact .property p

/-- Around a declaration that is recorded there is no method. -/
theorem Declare.Reached.not_declaresMethod {root c a : Cursor} {inType : Bool} (h : Reached root inType c)
    (hroot : root.parent? = none) (hkind : root.kind = .compilationUnit) (ha : a ∈ c.ancestors) :
    a = c ∨ ¬DeclaresMethod a := by
  have around {p c : Cursor} (hc : c ∈ p.members) : c.ancestors = c :: p.ancestors :=
    ancestors_of_mem_elements (mem_elements_of_mem_children (mem_children_of_mem_childrenOf hc).1)
  have plain {p : Cursor} (hp : p.kind.isNamespaceDeclaration = true ∨
      p.kind.isTypeDeclaration = true) : ¬DeclaresMethod p := by
    rintro (hmethod | hmethod) <;> rw [hmethod] at hp <;> simp [Kind.isNamespaceDeclaration,
      Kind.isTypeDeclaration] at hp
  induction h with
  | top hc =>
      rw [around hc] at ha
      rcases List.mem_cons.mp ha with rfl | ha
      · exact .inl rfl
      · cases root with
        | child => cases hroot
        | root t =>
            rw [List.mem_singleton.mp ha]
            refine .inr ?_
            rintro (hmethod | hmethod) <;> rw [hmethod] at hkind <;> cases hkind
  | space _ hspace hc ih =>
      rw [around hc] at ha
      rcases List.mem_cons.mp ha with rfl | ha
      · exact .inl rfl
      · rcases ih ha with rfl | hout
        · exact .inr (plain (.inl hspace))
        · exact .inr hout
  | type _ htype hc ih =>
      rw [around hc] at ha
      rcases List.mem_cons.mp ha with rfl | ha
      · exact .inl rfl
      · rcases ih ha with rfl | hout
        · exact .inr (plain (.inr htype))
        · exact .inr hout

section

variable {p p' : Project} {q s : SymbolTable} {names : List String} {doc doc' : Document}

/-- What a type declaration writes as its base types is read as the same. -/
theorem twin_readBases (h : Reordered p p') (hq : Passing p q) (hs : Passing p' s)
    (hagrees : q.Agrees s names) (htwin : TwinDocument p p' doc doc') {inType : Bool} {c : Cursor}
    (hc : Reached doc.root inType c) (hkind : c.kind.isTypeDeclaration = true)
    (hnames : baseNames doc.root ⊆ names) :
    List.Forall₂ (Ty.Twin (q.TwinType s)) (readBases q doc.id c) (readBases s doc'.id c) := by
  have hroot : doc.root.parent? = none := rfl
  have hnode {a : Cursor} (ha : a ∈ c.ancestors) : Below doc.root a ∧ a.isNode = true := by
    obtain ⟨hbelow, hup⟩ := hc.below_root.of_mem_ancestors hroot ha
    exact ⟨hbelow, isNode_of_below hup hc.isNode⟩
  have hlevels : Scope.TwinLevels q s (Scope.at_ q doc.id c).levels (Scope.at_ s doc'.id c).levels := by
    refine Scope.twin_at hagrees (fun a _ => ?_) (fun a ha => ?_) fun a ha u hu written hwritten => ?_
    · have hdecl := rel_optionMap (f := id) (g := id) (S := Scope.TwinDecl q s)
        (h.rel_decl? htwin (Pointer.of a)) fun _ _ ⟨mark, hleft, hright⟩ =>
          ⟨mark, hleft.congr hq.heads, hright.congr hs.heads⟩
      rw [Option.map_id_apply, Option.map_id_apply] at hdecl
      rw [SymbolTable.decl?, SymbolTable.decl?, hq.decls, hs.decls]
      exact hdecl
    · rcases hc.not_declaresMethod hroot (kind_root doc) ha with rfl | hout
      · rintro (hmethod | hmethod) <;> rw [hmethod] at hkind <;> cases hkind
      · exact hout
    · obtain ⟨hbelow, hanode⟩ := hnode ha
      have hmem := List.mem_append_right ((a.baseList?.map Cursor.types).getD [])
        (List.mem_filterMap.mpr ⟨u, hu, hwritten⟩)
      exact fun d hd name hname => hnames (namesIn_baseNames hbelow hanode hmem d hd name hname)
  refine rel_map_same fun written hwritten => Scope.twin_resolveType hagrees hlevels ?_
  have hmem := List.mem_append_left (c.usings.filterMap Cursor.type?) hwritten
  exact fun d hd name hname => hnames (namesIn_baseNames hc.below_root hc.isNode hmem d hd name hname)

/-- A type is recorded for a node that the first pass came to. -/
theorem exists_reached {origin : Origin} {t : TypeId}
    (h : (origin, .type t) ∈ (SymbolTable.entered p).decls) : ∃ doc ∈ p.documents, ∃ inType c,
      Reached doc.root inType c ∧ origin = ⟨doc.id, Pointer.of c⟩ ∧
        (Pointer.of c).resolve doc.root = .ok (some c) := by
  cases sourced_entered p _ _ h with
  | @type doc c' _ _ hdoc hplaced hkind =>
      obtain ⟨inType, hreached⟩ := hplaced.reached
      have hpos := (isFile_tree doc).width_pos_declaration hreached.below_root hreached.isNode
        (hasOwnToken_of_declaresType hkind)
      exact ⟨doc, hdoc, inType, c', hreached, rfl,
        resolve_tree doc hreached.below_root hreached.isNode hpos⟩

theorem twin_declaredBases (h : Reordered p p') (hq : Passing p q) (hs : Passing p' s)
    (hagrees : q.Agrees s names) (htwin : TwinDocument p p' doc doc') {pointer : Pointer} {t : TypeId}
    (ht : (⟨doc.id, pointer⟩, .type t) ∈ (SymbolTable.entered p).decls)
    (hnames : baseNames doc.root ⊆ names) :
    List.Forall₂ (Ty.Twin (q.TwinType s)) (declaredBases p q ⟨doc.id, pointer⟩)
      (declaredBases p' s ⟨doc'.id, pointer⟩) := by
  obtain ⟨found, hfound, inType, c, hc, horigin, hresolve⟩ := exists_reached ht
  obtain ⟨hid, rfl⟩ := Origin.mk.inj horigin
  obtain rfl := Project.eq_of_id_eq htwin.mem.1 hfound hid
  have hnode := nodeAt?_of_resolve htwin.mem.1 hresolve
  have hnode' := nodeAt?_of_resolve htwin.mem.2 (h.root_eq htwin ▸ hresolve)
  rw [declaredBases, declaredBases, hnode, hnode']
  by_cases hkind : c.kind.isTypeDeclaration = true
  · simp only [Option.filter_some, hkind, if_true]
    exact twin_readBases h hq hs hagrees htwin hc hkind hnames
  · simp only [Option.filter_some, hkind]
    exact .nil

end

/-! ## One order -/

mutual

theorem Ty.Twin.eq_of {R : TypeId → TypeId → Prop} (hR : ∀ t u, R t u → t = u) :
    ∀ {a b : Ty}, a.Twin R b → a = b
  | .named _ _, .named _ _, .named h hargs => by rw [hR _ _ h, Ty.Twin.eqs_of hR hargs]
  | .param _ _ _, _, .param h _ _ => by rw [hR _ _ h]
  | .array _ _, _, .array h _ => by rw [h.eq_of hR]
  | .nullable _, _, .nullable h => by rw [h.eq_of hR]
  | .void, _, .void => rfl
  | .error _, _, .error _ => rfl

theorem Ty.Twin.eqs_of {R : TypeId → TypeId → Prop} (hR : ∀ t u, R t u → t = u) :
    ∀ {as bs : List Ty}, List.Forall₂ (Ty.Twin R) as bs → as = bs
  | [], _, .nil => rfl
  | _ :: _, _ :: _, .cons h hs => by rw [h.eq_of hR, Ty.Twin.eqs_of hR hs]

end

theorem SymbolTable.classBase?_congr {q s : SymbolTable} (hheads : SameHeads q s)
    (hobject : q.objectType? = s.objectType?) {t : TypeId} (ht : q.type t = s.type t) :
    q.classBase? t = s.classBase? t := by
  have hkind (b : TypeId) : (s.type b).kind = (q.type b).kind :=
    hheads.field_eq TypeInfo.kind (fun _ => rfl) b
  simp only [classBase?, hobject, ht, hkind]

section

variable {p p' : Project} {names : List String}

theorem Reordered.refl (h : (p.documents.map (·.name)).Nodup) : Reordered p p := ⟨.refl _, h⟩

theorem disjoint_recordedTypes {before after : List (Origin × Decl)}
    (h : (SymbolTable.entered p).decls.reverse = before ++ after) {t : TypeId}
    (ht : t ∈ recordedTypes before) : t ∉ recordedTypes after := by
  have hnodup := List.nodup_reverse.mpr (nodup_recordedTypes p)
  rw [recordedTypes, ← List.filterMap_reverse, h, ← recordedTypes, recordedTypes_append] at hnodup
  exact fun hafter => (List.nodup_append.mp hnodup).2.2 t ht t hafter rfl

/-- A table of the second pass knows the base classes of those that were visited. -/
theorem follows_ofProject {before after : List (Origin × Decl)}
    (hapart : (SymbolTable.entered p).SourcesApart)
    (hnames : (p.documents.map (·.name)).Nodup)
    (h : (SymbolTable.entered p).decls.reverse = before ++ after) :
    (SymbolTable.passed p before).Follows (.ofProject p) := by
  have hsub {records : List (Origin × Decl)} (hrecords : records ⊆ before ++ after) :
      records ⊆ (SymbolTable.entered p).decls :=
    fun r hr => List.mem_reverse.mp (h ▸ hrecords hr)
  have hq := passing_passed (hsub (List.subset_append_left _ _))
  have hs := passing_ofProject p
  have hheads := hq.heads.symm.trans hs.heads
  have halike := ((Reordered.refl hnames).alike hapart).congr hs.heads hs.heads
  intro t u b htwin hb
  obtain rfl := htwin.eq_of_heads hheads halike
  by_cases hafter : t ∈ recordedTypes after
  · have hbefore : t ∉ recordedTypes before := fun hmem => disjoint_recordedTypes h hmem hafter
    obtain ⟨origin, hmem⟩ := mem_recordedTypes.mp hafter
    obtain ⟨hlt, hnew⟩ := framework_lt_of_decls (hsub (List.subset_append_right _ _) hmem)
    exact .inl (SymbolTable.classBase?_of_no_bases (bases_passed_of_not_mem hbefore hlt hnew) hb)
  · have htype : (SymbolTable.passed p (before ++ after)).type t =
        (SymbolTable.passed p before).type t := type_passed_of_not_mem hafter
    rw [← h, ← type_ofProject] at htype
    have hobject : (SymbolTable.passed p before).objectType? = (SymbolTable.ofProject p).objectType? :=
      (hq.keywordType?_eq .objectKw).trans (hs.keywordType?_eq .objectKw).symm
    rw [SymbolTable.classBase?_congr hheads hobject htype.symm] at hb
    have hlt := hs.closed.classBase?_lt (htwin.inRange
      (((Reordered.refl hnames).alike hapart).congr hq.heads hs.heads)).2 hb
    obtain ⟨way, hat⟩ := halike.rooted.1.exists_way (.type b) hlt
    exact .inr ⟨b, hb, way, hat.congr hheads.symm, hat⟩

/-- The base types of a type are what it writes, read when all base types are known. -/
theorem bases_ofProject (hapart : (SymbolTable.entered p).SourcesApart)
    (hdocs : (p.documents.map (·.name)).Nodup)
    (hnames : ∀ doc ∈ p.documents, baseNames doc.root ⊆ names)
    (hown : (SymbolTable.ofProject p).OwnOnly names) {doc : Document} (hdoc : doc ∈ p.documents)
    {pointer : Pointer} {t : TypeId}
    (h : (⟨doc.id, pointer⟩, .type t) ∈ (SymbolTable.entered p).decls) :
    ((SymbolTable.ofProject p).type t).bases = declaredBases p (.ofProject p) ⟨doc.id, pointer⟩ := by
  obtain ⟨before, after, hsplit⟩ := List.append_of_mem (List.mem_reverse.mpr h)
  have hq : Passing p (.passed p before) :=
    passing_passed fun r hr => List.mem_reverse.mp (hsplit ▸ List.mem_append_left _ hr)
  have hs := passing_ofProject p
  have hsame := Reordered.refl hdocs
  have hagrees := hq.agrees hsame hapart hs hown (follows_ofProject hapart hdocs hsplit)
  rw [(bases_passed hsplit).1]
  refine Ty.Twin.eqs_of (R := (SymbolTable.passed p before).TwinType (.ofProject p)) (fun t u htwin =>
    htwin.eq_of_heads (hq.heads.symm.trans hs.heads)
      ((hsame.alike hapart).congr hs.heads hs.heads)) ?_
  exact twin_declaredBases hsame hq hs hagrees ⟨⟨hdoc, hdoc⟩, rfl⟩ h (hnames doc hdoc)

end

/-! ## Another order -/

/-- No type of the framework has a base that is a class. -/
theorem framework_no_class : ∀ i < Framework.table.types.size,
    ∀ d ∈ (Framework.table.type ⟨i⟩).bases.filterMap Ty.definition?,
      d.num < Framework.table.types.size ∧ (Framework.table.type d).kind ≠ .classType := by
  decide +kernel

theorem forall₂_definition? {R : TypeId → TypeId → Prop} {as bs : List Ty}
    (h : List.Forall₂ (Ty.Twin R) as bs) :
    List.Forall₂ R (as.filterMap Ty.definition?) (bs.filterMap Ty.definition?) := by
  induction h with
  | nil => exact .nil
  | @cons a b as bs hab _ ih =>
      have hdefinition := hab.definition?
      rw [List.filterMap_cons, List.filterMap_cons]
      generalize a.definition? = x at hdefinition
      generalize b.definition? = y at hdefinition
      cases hdefinition with
      | none => exact ih
      | some hxy => exact .cons hxy ih

/-- Where base types are the same, the base class is, or there is none but `object`. -/
theorem SymbolTable.classBase?_of_twins {q s : SymbolTable} {t u b : TypeId}
    (hbases : List.Forall₂ (Ty.Twin (q.TwinType s)) (q.type t).bases (s.type u).bases)
    (hb : q.classBase? t = some b) :
    q.objectType? = some b ∨ ∃ c, s.classBase? u = some c ∧ q.TwinType s b c := by
  rcases find?_of_forall₂ (p := fun d => (q.type d).kind == .classType)
    (q := fun d => (s.type d).kind == .classType) (forall₂_definition? hbases)
      (fun d e hde => by rw [hde.kind_eq]) with ⟨hnone, -⟩ | ⟨d, e, hd, he, hde⟩
  · refine .inl (classBase?_of_no_class (fun d hd hkind => ?_) hb)
    exact List.find?_eq_none.mp hnone d hd (beq_iff_eq.mpr hkind)
  · simp only [classBase?, hd] at hb
    obtain rfl := Option.some.inj hb
    exact .inr ⟨e, by simp only [classBase?, he], hde⟩

section

variable {p p' : Project} {names : List String}

/-- The base types of the types that were visited in one order are those that the types
have in the end in the other one. -/
def Settled (p p' : Project) (records : List (Origin × Decl)) : Prop :=
  ∀ t u, (SymbolTable.entered p).TwinType (.entered p') t u → t ∈ recordedTypes records →
    List.Forall₂ (Ty.Twin ((SymbolTable.entered p).TwinType (.entered p')))
      ((SymbolTable.passed p records).type t).bases ((SymbolTable.ofProject p').type u).bases

theorem Settled.follows {records : List (Origin × Decl)} (h : Settled p p' records)
    (hreordered : Reordered p p') (hapart : (SymbolTable.entered p).SourcesApart)
    (hsub : records ⊆ (SymbolTable.entered p).decls) :
    (SymbolTable.passed p records).Follows (.ofProject p') := by
  have hq := passing_passed hsub
  have hs := passing_ofProject p'
  have halike := (hreordered.alike hapart).congr hq.heads hs.heads
  intro t u b htwin hb
  by_cases ht : t ∈ recordedTypes records
  · refine SymbolTable.classBase?_of_twins ?_ hb
    refine (h t u ((hq.heads.twin_iff hs.heads).mp htwin) ht).imp fun _ _ hab => ?_
    exact hab.imp fun _ _ hde => (hq.heads.twin_iff hs.heads).mpr hde
  · refine .inl ?_
    by_cases hnew : Framework.table.types.size ≤ t.num
    · have hlt := (htwin.inRange halike).1
      rw [hq.heads.size] at hlt
      exact SymbolTable.classBase?_of_no_bases (bases_passed_of_not_mem ht hlt hnew) hb
    · have hold := Nat.lt_of_not_le hnew
      refine SymbolTable.classBase?_of_no_class (fun d hd => ?_) hb
      rw [hq.framework t hold] at hd
      obtain ⟨hlt, hkind⟩ := framework_no_class t.num hold d hd
      rwa [hq.framework d hlt]

theorem settled_concat {before after : List (Origin × Decl)} {record : Origin × Decl}
    (h : Settled p p' before) (hreordered : Reordered p p')
    (hapart : (SymbolTable.entered p).SourcesApart)
    (hnames : ∀ doc ∈ p'.documents, baseNames doc.root ⊆ names)
    (hown : (SymbolTable.ofProject p').OwnOnly names)
    (hsplit : (SymbolTable.entered p).decls.reverse = before ++ record :: after) :
    Settled p p' (before ++ [record]) := by
  have hsub : before ++ record :: after ⊆ (SymbolTable.entered p).decls :=
    hsplit ▸ fun _ => List.mem_reverse.mp
  have hbeforeSub : before ⊆ (SymbolTable.entered p).decls :=
    fun _ hr => hsub (List.mem_append_left _ hr)
  intro t u htwin ht
  obtain ⟨origin, decl⟩ := record
  by_cases hvisited : decl = .type t
  · subst hvisited
    have hmem : (origin, .type t) ∈ (SymbolTable.entered p).decls := hsub (by simp)
    obtain ⟨doc, hdoc, _, c, _, rfl, _⟩ := exists_reached hmem
    obtain ⟨doc', hdoc'⟩ := hreordered.exists_twin hdoc
    obtain ⟨v, hv, htv⟩ := hreordered.exists_twinType hdoc' (decl?_entered hmem)
    have halike := hreordered.alike hapart
    obtain rfl : u = v := by
      obtain ⟨way, hat, hu⟩ := htwin
      obtain ⟨way', hat', hv'⟩ := htv
      obtain rfl := hat.unique halike.rooted.1.global_top hat'
      exact Container.type.inj (hu.injective halike.rooted.2 halike.apart.2 hv')
    have hq := passing_passed hbeforeSub
    have hs := passing_ofProject p'
    have hagrees := hq.agrees hreordered hapart hs hown (h.follows hreordered hapart hbeforeSub)
    rw [(bases_passed hsplit).2, bases_ofProject (hreordered.sourcesApart hapart)
      hreordered.symm.names hnames hown hdoc'.mem.2 (SymbolTable.mem_of_decl? hv)]
    refine (twin_declaredBases hreordered hq hs hagrees hdoc' hmem
      (hreordered.root_eq hdoc' ▸ hnames doc' hdoc'.mem.2)).imp fun _ _ hab => ?_
    exact hab.imp fun _ _ hde => (hq.heads.twin_iff hs.heads).mp hde
  · have hnone : t ∉ recordedTypes [(origin, decl)] := fun hmem => by
      obtain ⟨other, hother⟩ := mem_recordedTypes.mp hmem
      exact hvisited (Prod.mk.inj (List.mem_singleton.mp hother)).2.symm
    rw [recordedTypes_append] at ht
    rw [type_passed_of_not_mem hnone]
    exact h t u htwin ((List.mem_append.mp ht).resolve_right hnone)

theorem settled {before after : List (Origin × Decl)} (hreordered : Reordered p p')
    (hapart : (SymbolTable.entered p).SourcesApart)
    (hnames : ∀ doc ∈ p'.documents, baseNames doc.root ⊆ names)
    (hown : (SymbolTable.ofProject p').OwnOnly names)
    (hsplit : (SymbolTable.entered p).decls.reverse = before ++ after) : Settled p p' before := by
  induction before using List.reverseRecOn generalizing after with
  | nil =>
      intro t u _ ht
      cases ht
  | append_singleton before record ih =>
      rw [List.append_assoc, List.singleton_append] at hsplit
      exact settled_concat (ih hsplit) hreordered hapart hnames hown hsplit

end

theorem reordered_ofSources {sources sources' : List (String × String)}
    (hperm : sources.Perm sources') {p p' : Project} (hp : Project.ofSources sources = .ok p)
    (hp' : Project.ofSources sources' = .ok p') : Reordered p p' where
  perm := by
    have hread {sources : List (String × String)} {p : Project}
        (hp : Project.ofSources sources = .ok p) :
        (p.documents.map fun doc => (doc.name, doc.text)) = sources := by
      rw [Project.documents_ofSources hp, Project.readFrom, List.map_map]
      exact List.zipIdx_map_fst 0 sources
    rwa [hread hp, hread hp']
  names := Project.nodup_ofSources hp

theorem SymbolTable.SourcesApart.congr {s s' : SymbolTable} (h : s.SourcesApart)
    (hheads : SameHeads s s') : s'.SourcesApart := by
  intro t ht u hu
  rw [mem_typeIds, hheads.size] at ht hu
  simp only [hheads.container, hheads.name, hheads.arity, hheads.origin?]
  exact h t (mem_typeIds.mpr ht) u (mem_typeIds.mpr hu)

/-- **Base types do not depend on the order of documents** where no name that is looked
up for them is found in a base class only. Then in every order of the same sources a
place that declares a type declares one with the same full name, and its base types have
the same names and type arguments. -/
theorem bases_reordered {sources sources' : List (String × String)} (hperm : sources.Perm sources')
    {p p' : Project} (hp : Project.ofSources sources = .ok p)
    (hp' : Project.ofSources sources' = .ok p')
    (hapart : (SymbolTable.ofProject p).SourcesApart)
    (hown : (SymbolTable.ofProject p).OwnOnly (p.documents.flatMap fun doc => baseNames doc.root))
    {doc doc' : Document} (hdoc : doc ∈ p.documents) (hdoc' : doc' ∈ p'.documents)
    (hname : doc.name = doc'.name) {pointer : Pointer} {t : TypeId}
    (ht : (SymbolTable.ofProject p).decl? ⟨doc.id, pointer⟩ = some (.type t)) :
    ∃ u, (SymbolTable.ofProject p').decl? ⟨doc'.id, pointer⟩ = some (.type u) ∧
      (SymbolTable.ofProject p').definitionLabel u = (SymbolTable.ofProject p).definitionLabel t ∧
      ((SymbolTable.ofProject p').type u).bases.map (SymbolTable.ofProject p').typeLabel =
        ((SymbolTable.ofProject p).type t).bases.map (SymbolTable.ofProject p).typeLabel := by
  have hreordered := reordered_ofSources hperm hp hp'
  have hentered := hapart.congr (SameHeads.ofProject p).symm
  have hs := passing_ofProject p
  have hs' := passing_ofProject p'
  rw [SymbolTable.decl?, hs.decls] at ht
  obtain ⟨u, hu, htwin⟩ := hreordered.exists_twinType ⟨⟨hdoc, hdoc'⟩, hname⟩ ht
  have hlabel (a b : TypeId) (hab : (SymbolTable.entered p').TwinType (.entered p) a b) :
      (SymbolTable.ofProject p').definitionLabel a = (SymbolTable.ofProject p).definitionLabel b :=
    SymbolTable.definitionLabel_of_twin hs'.closed hs.closed ((hs'.heads.twin_iff hs.heads).mpr hab)
  rw [SymbolTable.decl?, hs'.decls]
  refine ⟨u, hu, hlabel u t htwin.symm, ?_⟩
  have hnames : ∀ doc ∈ p.documents,
      baseNames doc.root ⊆ p.documents.flatMap fun doc => baseNames doc.root :=
    fun doc hdoc name hmem => List.mem_flatMap.mpr ⟨doc, hdoc, hmem⟩
  have hbases := settled hreordered.symm (hreordered.sourcesApart hentered) hnames hown
    (List.append_nil _).symm u t htwin.symm
      (mem_recordedTypes.mpr ⟨_, List.mem_reverse.mpr (SymbolTable.mem_of_decl? hu)⟩)
  rw [type_ofProject p', ← List.forall₂_eq_eq_eq, List.forall₂_map_left_iff,
    List.forall₂_map_right_iff]
  exact hbases.imp fun _ _ hab => SymbolTable.typeLabel_of_twin hlabel hab

/-- A project of named texts, the empty one if a name is used twice. -/
def projectFrom (sources : List (String × String)) : Project :=
  (Project.ofSources sources).toOption.getD .empty

instance (s : SymbolTable) : Decidable s.SourcesApart :=
  inferInstanceAs (Decidable (∀ t ∈ s.typeIds, ∀ u ∈ s.typeIds, _))

instance (s : SymbolTable) (names : List String) : Decidable (s.OwnOnly names) :=
  inferInstanceAs (Decidable (∀ t ∈ s.typeIds, ∀ b ∈ s.baseChain t, ∀ n ∈ s.typeIds, _))

/-- The labels of the base types that a place of a project declares. -/
def baseLabels (p : Project) (origin : Origin) : Option (List String) :=
  match (SymbolTable.ofProject p).decl? origin with
  | some (.type t) => some (((SymbolTable.ofProject p).type t).bases.map (SymbolTable.ofProject p).typeLabel)
  | _ => none

/-- A class whose base is nested in a class of a later document. -/
def nestedSources : List (String × String) :=
  [("a.cs", "class A : B.N { }"), ("b.cs", "class B { public class N { } }")]

theorem bases_reordered_nested : ∃ t u,
    (SymbolTable.ofProject (projectFrom nestedSources)).decl?
      ⟨0, ⟨.classDeclaration, ⟨0, 17⟩⟩⟩ = some (.type t) ∧
    (SymbolTable.ofProject (projectFrom nestedSources.reverse)).decl?
      ⟨1, ⟨.classDeclaration, ⟨0, 17⟩⟩⟩ = some (.type u) ∧
    ((SymbolTable.ofProject (projectFrom nestedSources.reverse)).type u).bases.map
        (SymbolTable.ofProject (projectFrom nestedSources.reverse)).typeLabel =
      ((SymbolTable.ofProject (projectFrom nestedSources)).type t).bases.map
        (SymbolTable.ofProject (projectFrom nestedSources)).typeLabel := by
  have hp : Project.ofSources nestedSources = .ok (projectFrom nestedSources) := rfl
  have hp' : Project.ofSources nestedSources.reverse = .ok (projectFrom nestedSources.reverse) := rfl
  have hcheck : (SymbolTable.ofProject (projectFrom nestedSources).quick).decl?
      ⟨0, ⟨.classDeclaration, ⟨0, 17⟩⟩⟩ = some (.type ⟨Framework.table.types.size⟩) ∧
      (SymbolTable.ofProject (projectFrom nestedSources).quick).SourcesApart ∧
      (SymbolTable.ofProject (projectFrom nestedSources).quick).OwnOnly
        ((projectFrom nestedSources).quick.documents.flatMap fun doc => baseNames doc.root) := by
    decide +kernel
  rw [Project.quick_eq] at hcheck
  obtain ⟨ht, hapart, hown⟩ := hcheck
  have hdoc : Document.read 0 "a.cs" "class A : B.N { }" 0 ∈ (projectFrom nestedSources).documents := by
    rw [Project.documents_ofSources hp]
    simp [Project.readFrom, nestedSources]
  have hdoc' : Document.read 1 "a.cs" "class A : B.N { }" 0 ∈
      (projectFrom nestedSources.reverse).documents := by
    rw [Project.documents_ofSources hp']
    simp [Project.readFrom, nestedSources]
  obtain ⟨u, hu, -, hbases⟩ :=
    bases_reordered (List.reverse_perm nestedSources).symm hp hp' hapart hown hdoc hdoc' rfl ht
  exact ⟨_, u, ht, hu, hbases⟩

/-- The base of the first class is nested in the base class of another one, which is not
resolved yet. -/
def inheritedSources : List (String × String) :=
  [("e.cs", "class E : D.N { }"), ("d.cs", "class D : B { }"), ("b.cs", "class B { public class N { } }")]

theorem bases_reordered_inherited :
    ¬∀ (sources sources' : List (String × String)) (p p' : Project), sources.Perm sources' →
      Project.ofSources sources = .ok p → Project.ofSources sources' = .ok p' →
      (∀ doc ∈ p.documents, doc.errors = []) → (SymbolTable.ofProject p).SourcesApart →
      ∀ doc ∈ p.documents, ∀ doc' ∈ p'.documents, doc.name = doc'.name → ∀ pointer,
        baseLabels p ⟨doc.id, pointer⟩ = baseLabels p' ⟨doc'.id, pointer⟩ := by
  intro h
  have hp : Project.ofSources inheritedSources = .ok (projectFrom inheritedSources) := rfl
  have hp' : Project.ofSources inheritedSources.reverse =
      .ok (projectFrom inheritedSources.reverse) := rfl
  have hcheck : (∀ doc ∈ (projectFrom inheritedSources).quick.documents, doc.errors = []) ∧
      (SymbolTable.ofProject (projectFrom inheritedSources).quick).SourcesApart ∧
      baseLabels (projectFrom inheritedSources).quick ⟨0, ⟨.classDeclaration, ⟨0, 17⟩⟩⟩ =
        some ["error(D.N)"] := by decide +kernel
  have hlast : baseLabels (projectFrom inheritedSources.reverse).quick
      ⟨2, ⟨.classDeclaration, ⟨0, 17⟩⟩⟩ = some ["B.N`0"] := by decide +kernel
  rw [Project.quick_eq] at hcheck hlast
  obtain ⟨herrors, hapart, hfirst⟩ := hcheck
  have hsame := h _ _ _ _ (List.reverse_perm inheritedSources).symm hp hp' herrors hapart
    (Document.read 0 "e.cs" "class E : D.N { }" 0)
    (by rw [Project.documents_ofSources hp]; simp [Project.readFrom, inheritedSources])
    (Document.read 2 "e.cs" "class E : D.N { }" 0)
    (by rw [Project.documents_ofSources hp']; simp [Project.readFrom, inheritedSources]) rfl
    ⟨.classDeclaration, ⟨0, 17⟩⟩
  have hcontra := hfirst.symm.trans (hsame.trans hlast)
  simp at hcontra

end CSharpKit.Semantics
