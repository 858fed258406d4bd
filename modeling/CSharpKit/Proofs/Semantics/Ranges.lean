import CSharpKit.Proofs.Semantics.Declarations

/-!
# Numbers in a table are in range

A table refers to its own entries only: what is looked up in it is one of them,
and so is everything that a written type can mean. A container or the parent of
a namespace stands before what it contains.
-/

namespace CSharpKit.Semantics

open Syntax Workspace Cursor Declare

/-! ## Types -/

mutual

/-- Whether all numbers in a type are those of entries. -/
def Ty.inRange (s : SymbolTable) : Ty → Bool
  | .named d as => decide (d.num < s.types.size) && allInRange s as
  | .param (.type t) _ _ => decide (t.num < s.types.size)
  | .param (.method m) _ _ => decide (m.num < s.methods.size)
  | .array e _ => inRange s e
  | .nullable t => inRange s t
  | .void | .null | .error _ => true

def Ty.allInRange (s : SymbolTable) : List Ty → Bool
  | [] => true
  | t :: ts => inRange s t && allInRange s ts

end

theorem Ty.allInRange_iff {s : SymbolTable} {ts : List Ty} :
    allInRange s ts = true ↔ ∀ t ∈ ts, t.inRange s = true := by
  induction ts with
  | nil => simp [allInRange]
  | cons t ts ih => simp [allInRange, ih]

@[simp] theorem Ty.inRange_named {s : SymbolTable} {d : TypeId} {as : List Ty} :
    (Ty.named d as).inRange s = true ↔ d.num < s.types.size ∧ ∀ a ∈ as, a.inRange s = true := by
  simp [inRange, allInRange_iff]

@[simp] theorem Ty.inRange_plain {s : SymbolTable} {d : TypeId} :
    (Ty.plain d).inRange s = true ↔ d.num < s.types.size := by
  simp [plain]

mutual

theorem Ty.inRange_mono {s s' : SymbolTable} (htypes : s.types.size ≤ s'.types.size)
    (hmethods : s.methods.size ≤ s'.methods.size) :
    ∀ t : Ty, t.inRange s = true → t.inRange s' = true
  | .named d as, h => by
      simp only [inRange, Bool.and_eq_true, decide_eq_true_eq] at h ⊢
      exact ⟨Nat.lt_of_lt_of_le h.1 htypes, allInRange_mono htypes hmethods as h.2⟩
  | .param (.type t) _ _, h => by
      simp only [inRange, decide_eq_true_eq] at h ⊢
      exact Nat.lt_of_lt_of_le h htypes
  | .param (.method m) _ _, h => by
      simp only [inRange, decide_eq_true_eq] at h ⊢
      exact Nat.lt_of_lt_of_le h hmethods
  | .array e _, h => by
      rw [inRange] at h ⊢
      exact inRange_mono htypes hmethods e h
  | .nullable t, h => by
      rw [inRange] at h ⊢
      exact inRange_mono htypes hmethods t h
  | .void, _ | .null, _ | .error _, _ => by simp [inRange]

theorem Ty.allInRange_mono {s s' : SymbolTable} (htypes : s.types.size ≤ s'.types.size)
    (hmethods : s.methods.size ≤ s'.methods.size) :
    ∀ ts : List Ty, allInRange s ts = true → allInRange s' ts = true
  | [], _ => rfl
  | t :: ts, h => by
      simp only [allInRange, Bool.and_eq_true] at h ⊢
      exact ⟨inRange_mono htypes hmethods t h.1, allInRange_mono htypes hmethods ts h.2⟩

end

/-! ## Lookups -/

section

variable {s : SymbolTable}

theorem SymbolTable.mem_typeIds {t : TypeId} : t ∈ s.typeIds ↔ t.num < s.types.size := by
  simp only [typeIds, List.mem_map, List.mem_range]
  exact ⟨by rintro ⟨i, hi, rfl⟩; exact hi, fun h => ⟨t.num, h, rfl⟩⟩

theorem SymbolTable.typeIn?_lt {container : Container} {name : String} {arity : Nat} {t : TypeId}
    (h : s.typeIn? container name arity = some t) : t.num < s.types.size :=
  mem_typeIds.mp (List.mem_of_find?_eq_some h)

/-- What a round of the loop for base classes keeps, the loop keeps. It comes to an end, or all
of its rounds have made the row longer. -/
theorem SymbolTable.extendChain_keeps (s : SymbolTable) {I : List TypeId → TypeId → Prop}
    (hround : ∀ row last base, I row last → s.classBase? last = some base → base ∉ row →
      I (row ++ [base]) base) (fuel : Nat) {row : List TypeId} {last : TypeId} (h : I row last) :
    ∃ last', I (s.extendChain fuel row last) last' ∧
      ((∀ base, s.classBase? last' = some base → base ∈ s.extendChain fuel row last) ∨
        (s.extendChain fuel row last).length = row.length + fuel) := by
  induction fuel generalizing row last with
  | zero => exact ⟨last, h, .inr rfl⟩
  | succ fuel ih =>
      rw [extendChain]
      split
      · next hnone => exact ⟨last, h, .inl fun base hbase => by simp [hnone] at hbase⟩
      · next base hbase =>
        split
        · next hmem =>
          refine ⟨last, h, .inl fun base' hbase' => ?_⟩
          obtain rfl := Option.some.inj (hbase.symm.trans hbase')
          exact List.contains_iff_mem.mp hmem
        · next hnew =>
          have hnew : base ∉ row := fun hmem => hnew (List.contains_iff_mem.mpr hmem)
          obtain ⟨last', hlast, hend⟩ := ih (hround row last base h hbase hnew)
          refine ⟨last', hlast, hend.imp_right fun hlength => ?_⟩
          rw [hlength, List.length_append, List.length_singleton]
          omega

/-- A row of base classes starts with the type itself. -/
theorem SymbolTable.baseChain_eq_cons (s : SymbolTable) (id : TypeId) :
    ∃ bases, s.baseChain id = id :: bases := by
  obtain ⟨-, ⟨bases, heq⟩, -⟩ := s.extendChain_keeps (I := fun row _ => [id] <+: row)
    (fun _ _ base hrow _ _ => hrow.trans (List.prefix_append _ [base])) s.types.size
    (List.prefix_refl [id] : (fun row _ => [id] <+: row) [id] id)
  exact ⟨bases, heq.symm⟩

theorem SymbolTable.nested?_lt {owner : TypeId} {name : String} {arity : Nat} {t : TypeId}
    (h : s.nested? owner name arity = some t) : t.num < s.types.size := by
  obtain ⟨_, -, hfound⟩ := List.exists_of_findSome?_eq_some h
  exact typeIn?_lt hfound

theorem SymbolTable.keywordType?_lt {keyword : Kind} {t : TypeId}
    (h : s.keywordType? keyword = some t) : t.num < s.types.size := by
  obtain ⟨i, hi, rfl⟩ := Option.map_eq_some_iff.mp h
  obtain ⟨hlt, -⟩ := Array.findIdx?_eq_some_iff_getElem.mp hi
  exact hlt

end

/-! ## Properties of what is written -/

/-- What holds of types when they are put together as written types are. -/
structure Formed (s : SymbolTable) (P : Ty → Prop) : Prop where
  error (text : String) : P (.error text)
  void : P .void
  plain {d : TypeId} (h : d.num < s.types.size) : P (.plain d)
  given {d : TypeId} {as bs : List Ty} (h : P (.named d as)) (hbs : ∀ b ∈ bs, P b) :
    P (.named d bs)
  array {element : Ty} {rank : Nat} (h : P element) (hrank : 0 < rank) : P (.array element rank)
  nullable {inner : Ty} (h : P inner) : P (.nullable inner)

/-- To be in range is such a property. -/
theorem formed_inRange (s : SymbolTable) : Formed s fun ty => ty.inRange s = true where
  error _ := rfl
  void := rfl
  plain h := Ty.inRange_plain.mpr h
  given h hbs := Ty.inRange_named.mpr ⟨(Ty.inRange_named.mp h).1, hbs⟩
  array h _ := by rwa [Ty.inRange]
  nullable h := by rwa [Ty.inRange]

/-- A property holds of what a name means. -/
def NameMeaning.Holds (P : Ty → Prop) : NameMeaning → Prop
  | .space _ => True
  | .type ty => P ty

/-- A property holds of what a level of a scope can add to it. -/
def Level.Holds (s : SymbolTable) (P : Ty → Prop) : Level → Prop
  | .method m => ∀ i n, (s.method m).typeParams[i]? = some n → P (.param (.method m) i n)
  | .type t => ∀ i n, (s.type t).typeParams[i]? = some n → P (.param (.type t) i n)
  | .space _ imports => ∀ name meaning, (name, some meaning) ∈ imports.aliases → meaning.Holds P

section

variable {s : SymbolTable} {P : Ty → Prop}

theorem typeParam?_holds {owner : ParamOwner} {names : List String} {name : String}
    {meaning : NameMeaning} (h : typeParam? owner names name = some meaning)
    (howner : ∀ i n, names[i]? = some n → P (.param owner i n)) : meaning.Holds P := by
  obtain ⟨i, hi, rfl⟩ := Option.map_eq_some_iff.mp h
  obtain ⟨hlt, hname, -⟩ := List.findIdx?_eq_some_iff_getElem.mp hi
  exact howner i name (List.getElem?_eq_some_iff.mpr ⟨hlt, beq_iff_eq.mp hname⟩)

theorem Imports.find?_holds (hP : Formed s P) {imports : Imports} {name : String} {arity : Nat}
    {meaning : NameMeaning}
    (himports : ∀ name meaning, (name, some meaning) ∈ imports.aliases → meaning.Holds P)
    (h : imports.find? s name arity = some meaning) : meaning.Holds P := by
  unfold Imports.find? at h
  split at h
  · next found hfound =>
    split at hfound
    · exact himports name meaning (h ▸ mem_of_lookup_eq_some hfound)
    · cases hfound
  · obtain ⟨t, ht, rfl⟩ := Option.map_eq_some_iff.mp h
    obtain ⟨ns, -, hns⟩ := List.exists_of_findSome?_eq_some ht
    exact hP.plain (SymbolTable.typeIn?_lt hns)

theorem Level.find?_holds (hP : Formed s P) {level : Level} {name : String} {arity : Nat}
    {meaning : NameMeaning} (hlevel : level.Holds s P)
    (h : level.find? s name arity = some meaning) : meaning.Holds P := by
  cases level with
  | method m =>
      simp only [Level.find?] at h
      split at h
      · exact typeParam?_holds h hlevel
      · cases h
  | type t =>
      simp only [Level.find?] at h
      split at h
      · next found hfound =>
        obtain rfl := Option.some.inj h
        split at hfound
        · exact typeParam?_holds hfound hlevel
        · cases hfound
      · obtain ⟨n, hn, rfl⟩ := Option.map_eq_some_iff.mp h
        exact hP.plain (SymbolTable.nested?_lt hn)
  | space ns imports =>
      simp only [Level.find?] at h
      split at h
      · next t ht =>
        obtain rfl := Option.some.inj h
        exact hP.plain (SymbolTable.typeIn?_lt ht)
      · split at h
        · obtain rfl := Option.some.inj h
          trivial
        · exact Imports.find?_holds hP hlevel h

end

/-- A recorded declaration is in range. -/
def Decl.InRange (s : SymbolTable) : Decl → Prop
  | .space id => id.num < s.namespaces.size
  | .type id => id.num < s.types.size
  | .method id => id.num < s.methods.size
  | .field id => id.num < s.fields.size
  | .property id => id.num < s.properties.size

/-! ## Scopes -/

/-- What a name behind a dot means in a table. -/
def SymbolTable.memberOf? (s : SymbolTable) (left : NameMeaning) (name : String) (arity : Nat) :
    Option NameMeaning :=
  match left with
  | .space ns =>
    match s.typeIn? (.space ns) name arity with
    | some t => some (.type (.plain t))
    | none => if arity = 0 then (s.child? ns name).map .space else none
  | .type ty =>
    (ty.definition?.bind fun d => s.nested? d name arity).map fun nested => .type (.plain nested)

theorem SymbolTable.memberOf?_holds {s : SymbolTable} {P : Ty → Prop} (hP : Formed s P)
    {left meaning : NameMeaning} {name : String} {arity : Nat}
    (h : s.memberOf? left name arity = some meaning) : meaning.Holds P := by
  unfold memberOf? at h
  split at h
  · split at h
    · next t ht =>
      obtain rfl := Option.some.inj h
      exact hP.plain (typeIn?_lt ht)
    · split at h
      · obtain ⟨child, -, rfl⟩ := Option.map_eq_some_iff.mp h
        trivial
      · cases h
  · obtain ⟨nested, hnested, rfl⟩ := Option.map_eq_some_iff.mp h
    obtain ⟨d, -, hd⟩ := Option.bind_eq_some_iff.mp hnested
    exact hP.plain (nested?_lt hd)

namespace Scope

theorem memberWith_eq (scope : Scope) (resolve : Cursor → Ty) (left : NameMeaning) (name : Cursor) :
    scope.memberWith resolve left name = name.name?.bind fun text =>
      (scope.table.memberOf? left text name.typeArguments.length).map
        (applied resolve name.typeArgumentList?) := by
  unfold memberWith SymbolTable.memberOf?
  cases name.name? with
  | none => rfl
  | some text =>
      cases left with
      | space ns =>
          simp only [Option.bind_eq_bind, Option.bind_some, Option.pure_def]
          cases scope.table.typeIn? (.space ns) text name.typeArguments.length with
          | some t => rfl
          | none =>
              by_cases harity : name.typeArguments.length = 0
              · simp [harity, Option.map_eq_bind, Function.comp_def]
              · simp [harity]
      | type ty => simp [Option.map_eq_bind, Function.comp_def]

/-- A property holds of what the levels of a scope can add to it. -/
def Holds (scope : Scope) (P : Ty → Prop) : Prop :=
  ∀ level ∈ scope.levels, level.Holds scope.table P

section

variable {scope : Scope} {P : Ty → Prop}

theorem lookup_holds (hP : Formed scope.table P) (hscope : scope.Holds P) {name : String}
    {arity : Nat} {meaning : NameMeaning} (h : scope.lookup name arity = some meaning) :
    meaning.Holds P := by
  obtain ⟨level, hlevel, hfound⟩ := List.exists_of_findSome?_eq_some h
  exact Level.find?_holds hP (hscope level hlevel) hfound

theorem predefined_holds (hP : Formed scope.table P) (c : Cursor) : P (scope.predefined c) := by
  unfold predefined
  split
  · exact hP.error _
  · split
    · exact hP.void
    · split
      · next id hid => exact hP.plain (SymbolTable.keywordType?_lt hid)
      · exact hP.error _

theorem applied_holds (hP : Formed scope.table P) {resolve : Cursor → Ty} {arguments : Option Cursor}
    {meaning : NameMeaning} (hresolve : ∀ c, P (resolve c)) (h : meaning.Holds P) :
    (applied resolve arguments meaning).Holds P := by
  unfold applied
  split
  · split
    · refine hP.given h fun a ha => ?_
      obtain ⟨c, -, rfl⟩ := List.mem_map.mp ha
      exact hresolve c
    · exact h
  · exact h

theorem memberWith_holds (hP : Formed scope.table P) {resolve : Cursor → Ty}
    {left meaning : NameMeaning} {name : Cursor} (hresolve : ∀ c, P (resolve c))
    (h : scope.memberWith resolve left name = some meaning) : meaning.Holds P := by
  rw [memberWith_eq] at h
  obtain ⟨text, -, h⟩ := Option.bind_eq_some_iff.mp h
  obtain ⟨found, hfound, rfl⟩ := Option.map_eq_some_iff.mp h
  exact applied_holds hP hresolve (SymbolTable.memberOf?_holds hP hfound)

/-- A property of types is kept on the way from what is written to what it means. `R` says of
which nodes; it is a property that goes on to their children, where the parts are written. -/
structure Keeps (scope : Scope) (R : Cursor → Prop) (P : Ty → Prop) : Prop where
  child {c d : Cursor} (hc : R c) (hd : d ∈ c.children) : R d
  error (text : String) : P (.error text)
  predefined (c : Cursor) : P (scope.predefined c)
  array {element : Ty} {rank : Nat} (h : P element) (hrank : 0 < rank) : P (.array element rank)
  nullable {inner : Ty} (h : P inner) : P (.nullable inner)
  simple {name : String} {meaning : NameMeaning} (h : scope.lookup name 0 = some meaning) :
    meaning.Holds P
  generic {resolve : Cursor → Ty} {c : Cursor} {name : String} {found : NameMeaning} (hc : R c)
    (hresolve : ∀ d, R d → P (resolve d)) (h : scope.lookup name c.arity = some found) :
    (applied resolve c.typeArgumentList? found).Holds P
  member {resolve : Cursor → Ty} {left meaning : NameMeaning} {c : Cursor} (hc : R c)
    (hresolve : ∀ d, R d → P (resolve d)) (h : scope.memberWith resolve left c = some meaning) :
    meaning.Holds P

namespace Keeps

variable {R : Cursor → Prop} {fuel : Nat} {c : Cursor}

theorem arrays (h : scope.Keeps R P) (ranks : List Cursor) {element : Ty} (helement : P element) :
    P (ranks.foldl (fun element rank =>
      .array element ((rank.elements.filter fun e => e.kind == .comma).length + 1)) element) := by
  induction ranks generalizing element with
  | nil => exact helement
  | cons rank ranks ih => exact ih (h.array helement (Nat.succ_pos _))

/-- A type one level further out, where the property is kept inside. -/
theorem typeWithin_succ (h : scope.Keeps R P) (htype : ∀ c, R c → P (scope.typeWithin fuel c))
    (hname : ∀ c meaning, R c → scope.nameWithin fuel c = some meaning → meaning.Holds P)
    (hc : R c) : P (scope.typeWithin (fuel + 1) c) := by
  have helement : P ((c.type?.map (scope.typeWithin fuel)).getD (.error c.focus.plainText)) := by
    cases hwritten : c.type? with
    | none => exact h.error _
    | some written => exact htype written (h.child hc (mem_children_of_childOf? hwritten).1)
  simp only [typeWithin]
  split
  · exact h.predefined c
  · exact h.arrays _ helement
  · exact h.nullable helement
  · split
    · next ty hty => exact hname c _ hc hty
    · exact h.error _

/-- A name one level further out. -/
theorem nameWithin_succ (h : scope.Keeps R P) (htype : ∀ c, R c → P (scope.typeWithin fuel c))
    {meaning : NameMeaning} (hc : R c) (hmeaning : scope.nameWithin (fuel + 1) c = some meaning) :
    meaning.Holds P := by
  simp only [nameWithin] at hmeaning
  split at hmeaning
  · obtain ⟨text, -, hfound⟩ := Option.bind_eq_some_iff.mp hmeaning
    exact h.simple hfound
  · obtain ⟨text, -, hmeaning⟩ := Option.bind_eq_some_iff.mp hmeaning
    obtain ⟨found, hfound, hmeaning⟩ := Option.bind_eq_some_iff.mp hmeaning
    obtain rfl := Option.some.inj hmeaning
    exact h.generic hc htype hfound
  · obtain ⟨qualifier, -, hmeaning⟩ := Option.bind_eq_some_iff.mp hmeaning
    obtain ⟨left, -, hmeaning⟩ := Option.bind_eq_some_iff.mp hmeaning
    obtain ⟨segment, hlast, hmeaning⟩ := Option.bind_eq_some_iff.mp hmeaning
    have hmem := (mem_children_of_mem_childrenOf (List.mem_of_getLast? hlast)).1
    exact h.member (h.child hc hmem) htype hmeaning
  · obtain ⟨outer, -, hmeaning⟩ := Option.bind_eq_some_iff.mp hmeaning
    obtain ⟨spelled, -, hmeaning⟩ := Option.bind_eq_some_iff.mp hmeaning
    have aliased {left? : Option NameMeaning} (hmeaning : (do
        let left ← left?
        scope.memberWith (scope.typeWithin fuel) left (← c.aliasedName?)) = some meaning) :
        meaning.Holds P := by
      obtain ⟨left, -, hmeaning⟩ := Option.bind_eq_some_iff.mp hmeaning
      obtain ⟨segment, hsecond, hmeaning⟩ := Option.bind_eq_some_iff.mp hmeaning
      have hmem := (mem_children_of_mem_childrenOf (List.mem_of_getElem? hsecond)).1
      exact h.member (h.child hc hmem) htype hmeaning
    split at hmeaning
    · exact aliased hmeaning
    · exact aliased hmeaning
  · obtain rfl := Option.some.inj hmeaning
    exact h.predefined c
  · obtain rfl := Option.some.inj hmeaning
    exact htype c hc
  · obtain rfl := Option.some.inj hmeaning
    exact htype c hc
  · cases hmeaning

/-- What is kept on each way holds of whatever is written. -/
theorem within (h : scope.Keeps R P) (fuel : Nat) :
    (∀ c, R c → P (scope.typeWithin fuel c)) ∧
      ∀ c meaning, R c → scope.nameWithin fuel c = some meaning → meaning.Holds P := by
  induction fuel with
  | zero =>
      refine ⟨fun c _ => ?_, fun c meaning _ hmeaning => by cases hmeaning⟩
      rw [typeWithin]
      exact h.error _
  | succ fuel ih =>
      exact ⟨fun c hc => h.typeWithin_succ ih.1 ih.2 hc,
        fun c meaning hc hmeaning => h.nameWithin_succ ih.1 hc hmeaning⟩

end Keeps

/-- Properties of types that are put together as written ones are kept at every node. -/
theorem keeps_of_formed (hP : Formed scope.table P) (hscope : scope.Holds P) :
    scope.Keeps (fun _ => True) P where
  child _ _ := trivial
  error := hP.error
  predefined := predefined_holds hP
  array := hP.array
  nullable := hP.nullable
  simple := lookup_holds hP hscope
  generic _ hresolve h := applied_holds hP (fun d => hresolve d trivial) (lookup_holds hP hscope h)
  member _ hresolve h := memberWith_holds hP (fun d => hresolve d trivial) h

/-- Whatever is written, the property holds of what it means. -/
theorem within_holds (hP : Formed scope.table P) (hscope : scope.Holds P) (fuel : Nat) :
    (∀ c, P (scope.typeWithin fuel c)) ∧
      ∀ c meaning, scope.nameWithin fuel c = some meaning → meaning.Holds P := by
  obtain ⟨htype, hname⟩ := (keeps_of_formed hP hscope).within fuel
  exact ⟨fun c => htype c trivial, fun c meaning => hname c meaning trivial⟩

end

section

variable {s : SymbolTable} {P : Ty → Prop}

theorem importsOf_holds (outer : Scope) (hP : Formed outer.table P) (houter : outer.Holds P)
    (owner : Cursor) (name : String) (meaning : NameMeaning)
    (h : (name, some meaning) ∈ (importsOf outer owner).aliases) : meaning.Holds P := by
  obtain ⟨u, -, hu⟩ := List.mem_filterMap.mp h
  obtain ⟨token, -, heq⟩ := Option.map_eq_some_iff.mp hu
  obtain ⟨written, -, hwritten⟩ := Option.bind_eq_some_iff.mp (Prod.mk.inj heq).2
  exact (within_holds hP houter _).2 _ _ hwritten

theorem parentLevels_holds {stop : Option NamespaceId} {fuel : Nat} {ns : NamespaceId}
    {level : Level} (h : level ∈ parentLevels s stop fuel ns) : level.Holds s P := by
  induction fuel generalizing ns with
  | zero => cases h
  | succ fuel ih =>
      rw [parentLevels] at h
      split at h
      · cases h
      · split at h
        · cases h
        · rcases List.mem_cons.mp h with rfl | h
          · intro name meaning hmem
            cases hmem
          · exact ih h

theorem openSpaces_holds (hP : Formed s P) {spaces : List (NamespaceId × Option Cursor)}
    {level : Level} (h : level ∈ openSpaces s spaces) : level.Holds s P := by
  induction spaces generalizing level with
  | nil => cases h
  | cons space outer ih =>
      obtain ⟨ns, owner⟩ := space
      have hrest {level : Level} (h : level ∈ parentLevels s (outer.head?.map (·.1))
          s.namespaces.size ns ++ openSpaces s outer) : level.Holds s P := by
        rcases List.mem_append.mp h with h | h
        · exact parentLevels_holds h
        · exact ih h
      rcases List.mem_cons.mp h with rfl | h
      · intro name meaning hmem
        cases owner with
        | none => cases hmem
        | some owner =>
            refine importsOf_holds ⟨s, _⟩ hP ?_ owner name meaning hmem
            intro level hlevel
            rcases List.mem_cons.mp hlevel with rfl | hlevel
            · intro name meaning hmem
              cases hmem
            · exact hrest hlevel
      · exact hrest h

/-- A level of a scope is opened by the record for a node. -/
theorem declaredLevel?_eq_some {document : DocumentId} {c : Cursor} {level : Level}
    (h : declaredLevel? s document c = some level) :
    (∃ m, s.decl? ⟨document, Pointer.of c⟩ = some (.method m) ∧ level = .method m) ∨
      ∃ t, s.decl? ⟨document, Pointer.of c⟩ = some (.type t) ∧ level = .type t := by
  unfold declaredLevel? at h
  simp only at h
  split at h
  case h_1 | h_2 =>
    split at h
    · next m hm => exact .inl ⟨m, hm, (Option.some.inj h).symm⟩
    · cases h
  case h_3 | h_4 | h_5 | h_6 | h_7 =>
    split at h
    · next t ht => exact .inr ⟨t, ht, (Option.some.inj h).symm⟩
    · cases h
  case h_8 => cases h

/-- A property holds of what a scope in the sources can add, if it holds of what is declared
around it. -/
theorem at_holds_of_declared (hP : Formed s P) {document : DocumentId} {c : Cursor}
    (h : ∀ a ∈ c.ancestors, ∀ level, declaredLevel? s document a = some level → level.Holds s P) :
    (at_ s document c).Holds P := by
  intro level hlevel
  rcases List.mem_append.mp hlevel with hlevel | hlevel
  · obtain ⟨around, haround, hdeclared⟩ := List.mem_filterMap.mp hlevel
    exact h around haround level hdeclared
  · exact openSpaces_holds hP hlevel

/-- A property holds of what a scope in the sources can add, if it holds of the type
parameters of what is declared there. -/
theorem at_holds (hP : Formed s P)
    (hmethods : ∀ origin m, (origin, .method m) ∈ s.decls → ∀ i n, P (.param (.method m) i n))
    (htypes : ∀ origin t, (origin, .type t) ∈ s.decls → ∀ i n, P (.param (.type t) i n))
    (document : DocumentId) (c : Cursor) : (at_ s document c).Holds P := by
  refine at_holds_of_declared hP fun a _ level hdeclared => ?_
  rcases declaredLevel?_eq_some hdeclared with ⟨m, hm, rfl⟩ | ⟨t, ht, rfl⟩
  · exact fun i n _ => hmethods _ m (SymbolTable.mem_of_decl? hm) i n
  · exact fun i n _ => htypes _ t (SymbolTable.mem_of_decl? ht) i n

/-- What is written in the sources refers to entries of the table, if its records do. -/
theorem resolveType_inRange (hdecls : ∀ origin decl, (origin, decl) ∈ s.decls → decl.InRange s)
    (document : DocumentId) (at_ c : Cursor) :
    ((Scope.at_ s document at_).resolveType c).inRange s = true := by
  have hscope := at_holds (formed_inRange s)
    (fun _ m hm _ _ => by simpa [Ty.inRange, Decl.InRange] using hdecls _ (.method m) hm)
    (fun _ t ht _ _ => by simpa [Ty.inRange, Decl.InRange] using hdecls _ (.type t) ht) document at_
  exact (within_holds (formed_inRange s) hscope _).1 c

end

end Scope

theorem Declare.Resolved.inRange {s : SymbolTable} {ty : Ty} (h : Resolved s ty)
    (hdecls : ∀ origin decl, (origin, decl) ∈ s.decls → decl.InRange s) : ty.inRange s = true := by
  cases h with
  | written document at_ c => exact Scope.resolveType_inRange hdecls document at_ c
  | void | missing => rfl

end CSharpKit.Semantics
