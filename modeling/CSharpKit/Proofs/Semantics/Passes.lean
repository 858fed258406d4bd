import CSharpKit.Proofs.Semantics.Consistency

/-!
# What the passes leave alone

The first pass adds entries and changes none. The later passes come to what is
recorded of the sources, and each visit fills in one entry. Nothing of the framework
is recorded, so its methods are those of every project, and no other methods belong
to its types.
-/

namespace CSharpKit.Semantics

open Syntax Workspace Cursor Declare

variable {project : Project} {s s' : SymbolTable}

/-! ## The first pass -/

/-- An entry of a document leaves the types and methods before it as they are. -/
theorem Declare.Entry.keeps {doc : Document} (h : Entry doc s s') :
    Grown id s.types s'.types ∧ Grown id s.methods s'.methods := by
  cases h with
  | space =>
      exact enterSpace_keeps (P := fun s' => Grown id s.types s'.types ∧
        Grown id s.methods s'.methods) fun _ => ⟨.refl _ _, .refl _ _⟩
  | type => exact ⟨.push _ _ _, .refl _ _⟩
  | delegate => exact ⟨.push _ _ _, .push _ _ _⟩
  | method => exact ⟨.refl _ _, .push _ _ _⟩
  | field | property => exact ⟨.refl _ _, .refl _ _⟩

theorem entered_keeps_framework (project : Project) :
    Grown id Framework.table.types (SymbolTable.entered project).types ∧
      Grown id Framework.table.methods (SymbolTable.entered project).methods := by
  refine entered_keeps (P := fun s => Grown id Framework.table.types s.types ∧
    Grown id Framework.table.methods s.methods) ⟨.refl _ _, .refl _ _⟩ ?_
  rintro doc - s s' hentry ⟨htypes, hmethods⟩
  exact ⟨htypes.trans hentry.keeps.1, hmethods.trans hentry.keeps.2⟩

theorem sourced_entered (project : Project) : Sourced project (.entered project) :=
  entered_keeps (sourced_framework project) fun _ hdoc _ _ hentry hs => hs.entry hdoc hentry

theorem grows_entered (project : Project) : Grows Framework.table (.entered project) :=
  entered_keeps (.refl _) fun _ _ _ _ hentry h => h.trans hentry.grows

/-! ## The later passes -/

namespace Declare

/-- What every visit of a record keeps, the whole pass keeps. -/
theorem eachDecl_keeps_of_mem {P : SymbolTable → Prop}
    {visit : SymbolTable → Origin → Decl → SymbolTable}
    (hvisit : ∀ origin decl, (origin, decl) ∈ s.decls → ∀ s', P s' → P (visit s' origin decl))
    (hs : P s) : P (eachDecl visit s) := by
  rw [eachDecl]
  have hmem : ∀ entry ∈ s.decls.reverse, entry ∈ s.decls := fun _ => List.mem_reverse.mp
  generalize s.decls.reverse = decls at hmem
  generalize hfirst : s = first at hs
  clear hfirst
  induction decls generalizing first with
  | nil => exact hs
  | cons entry decls ih =>
      obtain ⟨hentry, hrest⟩ := List.forall_mem_cons.mp hmem
      exact ih hrest _ (hvisit entry.1 entry.2 hentry first hs)

/-- A visit of the second pass fills in the bases of a type declaration, or does
nothing. -/
theorem resolveBases_cases (project : Project) (s : SymbolTable) (origin : Origin) (decl : Decl) :
    resolveBases project s origin decl = s ∨ ∃ t c, decl = .type t ∧
      nodeAt? project origin = some c ∧ c.kind.isTypeDeclaration = true ∧
      resolveBases project s origin decl = s.setBases t (((c.baseList?.map Cursor.types).getD []).map
        (Scope.at_ s origin.document c).resolveType) := by
  unfold resolveBases
  split
  · next t c hc =>
    split
    · next hkind => exact .inr ⟨t, c, rfl, hc, hkind, rfl⟩
    · exact .inl rfl
  · exact .inl rfl

/-- A visit of the third pass leaves all types as they are, and all methods but one of
the sources: the declared method, or the call of the declared delegate. -/
theorem resolveSignature_keeps (project : Project) (s : SymbolTable) (origin : Origin) (decl : Decl) :
    (resolveSignature project s origin decl).types = s.types ∧
      ∀ m, (resolveSignature project s origin decl).method m = s.method m ∨ decl = .method m ∨
        ∃ t, decl = .type t ∧ s.invoke? t = some m := by
  have hset (id : MethodId) (params : List ParameterInfo) (returnTy : Ty) (m : MethodId) :
      (s.setSignature id params returnTy).method m = s.method m ∨ m = id := by
    by_cases hm : id.num = m.num
    · exact .inr (congrArg MethodId.mk hm.symm)
    · refine .inl ?_
      rw [SymbolTable.method, SymbolTable.setSignature, Array.getElem?_modify, if_neg hm]
      rfl
  unfold resolveSignature
  split
  · exact ⟨rfl, fun m => .inl rfl⟩
  · dsimp only
    split
    · next t _ =>
      split
      · next invoke hinvoke =>
        refine ⟨rfl, fun m => (hset invoke _ _ m).imp_right fun hm => .inr ⟨t, rfl, ?_⟩⟩
        rw [hinvoke, hm]
      · exact ⟨rfl, fun m => .inl rfl⟩
    · next id _ =>
      exact ⟨rfl, fun m => (hset id _ _ m).imp_right fun hm => .inl (congrArg Decl.method hm.symm)⟩
    · next id _ =>
      exact ⟨rfl, fun m => (hset id _ _ m).imp_right fun hm => .inl (congrArg Decl.method hm.symm)⟩
    all_goals first | exact ⟨rfl, fun m => .inl rfl⟩ | (split <;> exact ⟨rfl, fun m => .inl rfl⟩)

end Declare

/-- The table of a project before any signature is resolved. -/
def SymbolTable.based (project : Project) : SymbolTable :=
  eachDecl (resolveBases project) (.entered project)

theorem decls_based (project : Project) :
    (SymbolTable.based project).decls = (SymbolTable.entered project).decls :=
  eachDecl_keeps (P := fun s => s.decls = (SymbolTable.entered project).decls)
    (fun s origin decl hs => (fills_resolveBases project s origin decl).decls_eq.trans hs) rfl

theorem methods_based (project : Project) :
    (SymbolTable.based project).methods = (SymbolTable.entered project).methods := by
  refine eachDecl_keeps (P := fun s => s.methods = (SymbolTable.entered project).methods) ?_ rfl
  intro s origin decl hs
  rcases resolveBases_cases project s origin decl with heq | ⟨t, c, -, -, -, heq⟩ <;> rw [heq, ← hs]
  rfl

theorem grows_based (project : Project) : Grows (.entered project) (.based project) :=
  eachDecl_keeps (P := Grows (.entered project))
    (fun s origin decl h => h.trans (fills_resolveBases project s origin decl).grows) (.refl _)

theorem sourced_based (project : Project) : Sourced project (.based project) := by
  intro origin decl hmem
  rw [decls_based] at hmem
  exact (sourced_entered project origin decl hmem).mono (grows_based project)

theorem decls_ofProject (project : Project) :
    (SymbolTable.ofProject project).decls = (SymbolTable.based project).decls :=
  eachDecl_keeps (P := fun s => s.decls = (SymbolTable.based project).decls)
    (fun s origin decl hs => (fills_resolveSignature project s origin decl).decls_eq.trans hs) rfl

theorem types_ofProject (project : Project) :
    (SymbolTable.ofProject project).types = (SymbolTable.based project).types :=
  eachDecl_keeps (P := fun s => s.types = (SymbolTable.based project).types)
    (fun s origin decl hs => (resolveSignature_keeps project s origin decl).1.trans hs) rfl

theorem grows_ofProject_of_framework (project : Project) :
    Grows Framework.table (.ofProject project) :=
  ofProject_keeps (.refl _) (fun _ _ _ _ hentry h => h.trans hentry.grows)
    fun _ _ hfills h => h.trans hfills.grows

/-! ## The framework in a project -/

/-- Nothing of the framework comes from the sources. -/
theorem origin?_framework :
    (∀ t : TypeId, t.num < Framework.table.types.size → (Framework.table.type t).origin? = none) ∧
      ∀ m : MethodId, m.num < Framework.table.methods.size →
        (Framework.table.method m).origin? = none := by
  have hall : (∀ i < Framework.table.types.size, (Framework.table.type ⟨i⟩).origin? = none) ∧
      ∀ i < Framework.table.methods.size, (Framework.table.method ⟨i⟩).origin? = none := by
    decide +kernel
  exact ⟨fun t ht => hall.1 t.num ht, fun m hm => hall.2 m.num hm⟩

theorem Grows.origin?_eq {q s : SymbolTable} (h : Grows q s) {t : TypeId}
    (ht : t.num < q.types.size) : (s.type t).origin? = (q.type t).origin? := by
  have hhead := congrArg TypeInfo.origin? (h.type_eq ht)
  exact hhead

/-- What comes from the sources is no type of the framework. -/
theorem Grows.le_of_origin? (hgrows : Grows Framework.table s) {t : TypeId} {origin : Origin}
    (horigin : (s.type t).origin? = some origin) : Framework.table.types.size ≤ t.num := by
  rcases Nat.lt_or_ge t.num Framework.table.types.size with hlt | hge
  · rw [hgrows.origin?_eq hlt, origin?_framework.1 t hlt] at horigin
    cases horigin
  · exact hge

theorem Recorded.type_origin? {origin : Origin} {t : TypeId}
    (h : Recorded project s origin (.type t)) : (s.type t).origin? = some origin := by
  cases h with
  | type _ _ _ hinfo => exact hinfo.origin?_eq

/-- A method of the framework is the same in every project. -/
theorem method_framework (project : Project) {m : MethodId}
    (hm : m.num < Framework.table.methods.size) :
    (SymbolTable.ofProject project).method m = Framework.table.method m := by
  have hentered : (SymbolTable.based project).method m = Framework.table.method m := by
    rw [SymbolTable.method, methods_based]
    exact (entered_keeps_framework project).2.getD_eq hm
  have hgrows : Grows Framework.table (.based project) :=
    (grows_entered project).trans (grows_based project)
  suffices h : Grows (.based project) (.ofProject project) ∧
      (SymbolTable.ofProject project).method m = Framework.table.method m from h.2
  refine eachDecl_keeps_of_mem (P := fun s => Grows (.based project) s ∧
    s.method m = Framework.table.method m) ?_ ⟨.refl _, hentered⟩
  rintro origin decl hmem s ⟨hs, hmethod⟩
  refine ⟨hs.trans (fills_resolveSignature project s origin decl).grows, ?_⟩
  have hrecorded := (sourced_based project origin decl hmem).mono hs
  -- A visit is to a declaration of the sources, and the framework has none.
  rcases (resolveSignature_keeps project s origin decl).2 m with heq | rfl | ⟨t, rfl, hinvoke⟩
  · rw [heq, hmethod]
  · cases hrecorded with
    | method _ _ _ hinfo =>
        have hnone := origin?_framework.2 m hm
        rw [← hmethod, hinfo.origin?_eq] at hnone
        cases hnone
  · have howner := (SymbolTable.mem_methodsOf.mp (List.mem_of_getLast? hinvoke)).2.1
    have hlt := closed_framework.method_inRange hm
    have hge := (hgrows.trans hs).le_of_origin? hrecorded.type_origin?
    rw [hmethod] at howner
    rw [← howner] at hge
    exact absurd hlt.owner (Nat.not_lt_of_le hge)

/-- The methods of a table from a place on come from the sources. -/
def MethodsFrom (n : Nat) (s : SymbolTable) : Prop :=
  EachEntry (fun i info => n ≤ i → info.origin?.isSome = true) s.methods

theorem MethodsFrom.entry {n : Nat} {doc : Document} (h : MethodsFrom n s)
    (hentry : Declare.Entry doc s s') : MethodsFrom n s' := by
  cases hentry with
  | space => exact enterSpace_keeps (P := MethodsFrom n) fun _ => h
  | type | field | property => exact h
  | delegate => exact EachEntry.push h fun _ => rfl
  | method _ _ hinfo => exact EachEntry.push h fun _ => by rw [hinfo.origin?_eq]; rfl

theorem MethodsFrom.fills {n : Nat} (h : MethodsFrom n s) (hfills : Declare.Fills s s') :
    MethodsFrom n s' := by
  cases hfills with
  | signature => exact EachEntry.modify h fun _ _ hx => hx
  | none | bases | fieldTy | propertyTy => exact h

theorem methodsFrom_ofProject (project : Project) :
    MethodsFrom Framework.table.methods.size (.ofProject project) := by
  refine ofProject_keeps ?_ (fun _ _ _ _ hentry h => h.entry hentry) fun _ _ hfills h => h.fills hfills
  intro i info hinfo hle
  exact absurd (Array.getElem?_eq_some_iff.mp hinfo).1 (Nat.not_lt_of_le hle)

/-- A method of the sources belongs to a type of the sources. -/
theorem le_owner_of_le (project : Project) {m : MethodId}
    (hm : m.num < (SymbolTable.ofProject project).methods.size)
    (hnew : Framework.table.methods.size ≤ m.num)
    (hkind : ((SymbolTable.ofProject project).method m).kind ≠ .invoke) :
    Framework.table.types.size ≤ ((SymbolTable.ofProject project).method m).owner.num := by
  have hget : (SymbolTable.ofProject project).methods[m.num]? =
      some ((SymbolTable.ofProject project).method m) := by
    rw [SymbolTable.method, Array.getElem?_eq_getElem hm]
    rfl
  obtain ⟨origin, horigin⟩ :=
    Option.isSome_iff_exists.mp (methodsFrom_ofProject project m.num _ hget hnew)
  have hmem := (records_ofProject project).methods m.num _ hget origin horigin hkind
  have hsourced := sourced_ofProject project
  have hgrows := grows_ofProject_of_framework project
  generalize SymbolTable.ofProject project = s at hmem hsourced hgrows
  cases hsourced _ _ hmem with
  | method _ hplaced _ hinfo =>
      cases hplaced with
      | type _ _ _ hrecord =>
          have hge := hgrows.le_of_origin? (hsourced _ _ hrecord).type_origin?
          rw [← hinfo.owner_eq] at hge
          exact hge

/-- A type of the framework has no other methods in a project. -/
theorem methodsOf_framework (project : Project) {kind : MethodKind} (hkind : kind ≠ .invoke)
    {owner : TypeId} (howner : owner.num < Framework.table.types.size) :
    (SymbolTable.ofProject project).methodsOf kind owner = Framework.table.methodsOf kind owner := by
  have hle := (grows_ofProject_of_framework project).methods.size_le
  have hsplit : List.range (SymbolTable.ofProject project).methods.size =
      List.range Framework.table.methods.size ++ (List.range
        ((SymbolTable.ofProject project).methods.size - Framework.table.methods.size)).map
          (Framework.table.methods.size + ·) := by
    rw [← List.range_add, Nat.add_sub_cancel' hle]
  rw [SymbolTable.methodsOf, SymbolTable.methodIds, hsplit, List.map_append, List.filter_append]
  have hnone : (((List.range ((SymbolTable.ofProject project).methods.size -
      Framework.table.methods.size)).map (Framework.table.methods.size + ·)).map MethodId.mk).filter
        (fun m => ((SymbolTable.ofProject project).method m).owner == owner &&
          ((SymbolTable.ofProject project).method m).kind == kind) = [] := by
    refine List.filter_eq_nil_iff.mpr fun m hm hfits => ?_
    simp only [List.mem_map, List.mem_range] at hm
    obtain ⟨_, ⟨i, hi, rfl⟩, rfl⟩ := hm
    simp only [Bool.and_eq_true, beq_iff_eq] at hfits
    have hge := le_owner_of_le project (m := ⟨Framework.table.methods.size + i⟩)
      (show Framework.table.methods.size + i < _ by omega) (Nat.le_add_right _ _)
      (by rw [hfits.2]; exact hkind)
    rw [hfits.1] at hge
    exact absurd howner (Nat.not_lt_of_le hge)
  rw [hnone, List.append_nil, SymbolTable.methodsOf, SymbolTable.methodIds]
  refine List.filter_congr fun m hm => ?_
  obtain ⟨i, hi, rfl⟩ := List.mem_map.mp hm
  rw [method_framework project (m := ⟨i⟩) (List.mem_range.mp hi)]

/-- No field or property belongs to a type. -/
def Valueless (t : TypeId) (s : SymbolTable) : Prop :=
  EachEntry (fun _ value => value.owner ≠ t) s.fields ∧
    EachEntry (fun _ value => value.owner ≠ t) s.properties

theorem Valueless.entry {t : TypeId} {doc : Document} (h : Valueless t s)
    (ht : t.num < Framework.table.types.size) (hgrows : Grows Framework.table s)
    (hsourced : Sourced project s) (hentry : Declare.Entry doc s s') : Valueless t s' := by
  have hne {origin : Origin} {owner : TypeId} (hmem : (origin, .type owner) ∈ s.decls) :
      owner ≠ t := by
    rintro rfl
    exact absurd ht (Nat.not_lt_of_le (hgrows.le_of_origin? (hsourced _ _ hmem).type_origin?))
  cases hentry with
  | space => exact enterSpace_keeps (P := Valueless t) fun _ => h
  | type | delegate | method => exact h
  | field _ _ _ howner hinfo =>
      obtain ⟨origin, hmem⟩ := howner
      exact ⟨EachEntry.push h.1 (by rw [hinfo.owner_eq]; exact hne hmem), h.2⟩
  | property hplaced _ hinfo =>
      cases hplaced with
      | type _ _ _ hrecord =>
          exact ⟨h.1, EachEntry.push h.2 (by rw [hinfo.owner_eq]; exact hne hrecord)⟩

/-- A type of the framework that has no values there has none in a project. -/
theorem valueless_ofProject (project : Project) {t : TypeId}
    (ht : t.num < Framework.table.types.size) (h : Valueless t Framework.table) :
    Valueless t (.ofProject project) := by
  suffices hall : Grows Framework.table (.ofProject project) ∧ Sourced project (.ofProject project) ∧
      Valueless t (.ofProject project) from hall.2.2
  refine ofProject_keeps (P := fun s => Grows Framework.table s ∧ Sourced project s ∧ Valueless t s)
    ⟨.refl _, sourced_framework project, h⟩ ?_ ?_
  · rintro doc hdoc s s' hentry ⟨hgrows, hsourced, hvalues⟩
    exact ⟨hgrows.trans hentry.grows, hsourced.entry hdoc hentry,
      hvalues.entry ht hgrows hsourced hentry⟩
  · rintro s s' hfills ⟨hgrows, hsourced, hvalues⟩
    refine ⟨hgrows.trans hfills.grows, fun origin decl hmem => ?_, ?_⟩
    · exact (hsourced _ _ (hfills.decls_eq ▸ hmem)).mono hfills.grows
    · cases hfills with
      | fieldTy => exact ⟨EachEntry.modify hvalues.1 fun _ _ hx => hx, hvalues.2⟩
      | propertyTy => exact ⟨hvalues.1, EachEntry.modify hvalues.2 fun _ _ hx => hx⟩
      | none | bases | signature => exact hvalues

theorem Valueless.fieldsOf_eq {t : TypeId} (h : Valueless t s) :
    s.fieldsOf t = [] ∧ s.propertiesOf t = [] := by
  have hget {values : Array ValueInfo} {i : Nat} (hi : i < values.size) :
      values[i]? = some ((values[i]?).getD default) := by
    rw [Array.getElem?_eq_getElem hi]
    rfl
  constructor
  · refine List.filter_eq_nil_iff.mpr fun f hf howner => ?_
    obtain ⟨i, hi, rfl⟩ := List.mem_map.mp hf
    exact h.1 i _ (hget (List.mem_range.mp hi)) (beq_iff_eq.mp howner)
  · refine List.filter_eq_nil_iff.mpr fun p hp howner => ?_
    obtain ⟨i, hi, rfl⟩ := List.mem_map.mp hp
    exact h.2 i _ (hget (List.mem_range.mp hi)) (beq_iff_eq.mp howner)

end CSharpKit.Semantics
