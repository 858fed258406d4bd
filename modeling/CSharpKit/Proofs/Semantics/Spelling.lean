import CSharpKit.Proofs.Semantics.WrittenTypes
import CSharpKit.Proofs.Workspace.QuickReading

/-!
# Spellings bind back

A type is written as it means the same at a place. The shortest spelling is tried
out before it is taken, so it is right whatever is hidden there. Where none is
right, the type is written from the global namespace without a trial: this is right
for definitions that the names of what contains them lead to.
-/

namespace CSharpKit.Semantics

open Syntax Token Cursor Tree

/-! ## Names -/

section

variable {scope : Scope} {name text : String} {arguments : Forest} {tys : List Ty} {left : Tree}
  {meaning : Option NameMeaning}

/-- Trees of types that may stand in a row, and what they mean in a scope. -/
structure Scope.WritesTypes (scope : Scope) (arguments : Forest) (tys : List Ty) : Prop where
  trees : ∀ a ∈ arguments, TypeTree a
  readable : ∀ a ∈ arguments, Readable a
  means : scope.TypesMean arguments tys

theorem Scope.WritesTypes.nil : scope.WritesTypes [] [] := ⟨nofun, nofun, .nil⟩

/-- A tree writes a name in a scope: it has a text and a meaning. -/
structure Scope.WritesName (scope : Scope) (t : Tree) (text : String) (meaning : Option NameMeaning) :
    Prop where
  tree : NameTree t
  readable : Readable t
  text_eq : t.text = text
  means : scope.NameMeans t meaning

namespace Scope.WritesName

theorem isType (h : scope.WritesName left text meaning) :
    left.isNode = true ∧ left.kind.isType = true := (TypeTree.name h.tree).isType

theorem text_segment (name : String) (arguments : Forest) :
    (Build.simpleName name arguments).tree.text = withArguments name (arguments.map Tree.text) := by
  rw [text_simpleName, withArguments, List.isEmpty_map]

theorem simple (hname : IsName name) (h : scope.WritesTypes arguments tys) :
    scope.WritesName (Build.simpleName name arguments).tree
      (withArguments name (arguments.map Tree.text))
      ((scope.lookup name arguments.length).map (NameMeaning.givenTo tys)) where
  tree := .simple (simpleTree_simpleName h.trees)
  readable := readable_simpleName hname h.readable
  text_eq := text_segment name arguments
  means := nameMeans_simpleName h.means

theorem fromGlobal (hname : IsName name) (h : scope.WritesTypes arguments tys) :
    scope.WritesName (Build.fromGlobal (Build.simpleName name arguments).tree)
      ("global::" ++ withArguments name (arguments.map Tree.text))
      ((scope.table.memberOf? (.space SymbolTable.global) name arguments.length).map
        (NameMeaning.givenTo tys)) where
  tree := nameTree_fromGlobal (simpleTree_simpleName h.trees)
  readable := readable_fromGlobal (readable_simpleName hname h.readable)
    (NameTree.simple (simpleTree_simpleName h.trees)).closesType_eq
  text_eq := by rw [text_fromGlobal, text_segment]
  means := nameMeans_fromGlobal h.means

theorem member (hleft : scope.WritesName left text meaning) (hname : IsName name)
    (h : scope.WritesTypes arguments tys) :
    scope.WritesName (Build.member left (Build.simpleName name arguments).tree)
      (text ++ "." ++ withArguments name (arguments.map Tree.text))
      (meaning.bind fun m => (scope.table.memberOf? m name arguments.length).map
        (NameMeaning.givenTo tys)) where
  tree := nameTree_member hleft.tree (simpleTree_simpleName h.trees)
  readable := readable_member hleft.readable (readable_simpleName hname h.readable)
    (fun heq => hleft.tree.kind_not_mem (by rw [heq]; decide))
    (NameTree.simple (simpleTree_simpleName h.trees)).closesType_eq
  text_eq := by rw [text_member, hleft.text_eq, text_segment]
  means := nameMeans_member hleft.isType.1 hleft.isType.2 hleft.means h.means

theorem member_plain (hleft : scope.WritesName left text meaning) (hname : IsName name) :
    scope.WritesName (Build.member left (Build.identifierName name).tree) (text ++ "." ++ name)
      (meaning.bind fun m => scope.table.memberOf? m name 0) := by
  have hid : NameMeaning.givenTo [] = id := funext NameMeaning.givenTo_nil
  have hmember := hleft.member hname WritesTypes.nil
  simp only [hid, Option.map_id, id_eq] at hmember
  exact hmember

/-- Names without type arguments behind dots. -/
theorem dotted (hleft : scope.WritesName left text meaning) {names : List String}
    (hnames : ∀ n ∈ names, IsName n) :
    ∃ t, scope.WritesName t (".".intercalate (text :: names))
      (meaning.bind fun m => names.foldlM (fun m n => scope.table.memberOf? m n 0) m) := by
  induction names generalizing left text meaning with
  | nil =>
      have hsame : (meaning.bind fun m => [].foldlM (fun m n => scope.table.memberOf? m n 0) m) =
          meaning := by cases meaning <;> rfl
      refine ⟨left, ?_⟩
      rw [hsame]
      exact hleft
  | cons n names ih =>
      obtain ⟨hn, hnames⟩ := List.forall_mem_cons.mp hnames
      obtain ⟨t, ht⟩ := ih (hleft.member_plain hn) hnames
      rw [← intercalate_cons_cons, Option.bind_assoc] at ht
      exact ⟨t, ht⟩

/-- A name behind some of its qualifiers. What it means depends on the scope. -/
theorem exists_candidate {names : List String} (hnames : ∀ n ∈ names, IsName n)
    (hname : IsName name) (h : scope.WritesTypes arguments tys) :
    ∃ t meaning, scope.WritesName t
      (".".intercalate (names ++ [withArguments name (arguments.map Tree.text)])) meaning := by
  cases names with
  | nil => exact ⟨_, _, simple hname h⟩
  | cons n names =>
      obtain ⟨hn, hnames⟩ := List.forall_mem_cons.mp hnames
      obtain ⟨left, hleft⟩ := (simple hn WritesTypes.nil).dotted hnames
      have hwhole := hleft.member hname h
      rw [← intercalate_concat] at hwhole
      exact ⟨_, _, hwhole⟩

/-- A name behind all of its qualifiers. What it means can be read off the table. -/
theorem exists_fromGlobal {names : List String} (hnames : ∀ n ∈ names, IsName n)
    (hname : IsName name) (h : scope.WritesTypes arguments tys) :
    ∃ t, scope.WritesName t
      ("global::" ++ ".".intercalate (names ++ [withArguments name (arguments.map Tree.text)]))
      (((names.foldlM (fun m n => scope.table.memberOf? m n 0) (.space SymbolTable.global)).bind
        fun m => scope.table.memberOf? m name arguments.length).map (NameMeaning.givenTo tys)) := by
  cases names with
  | nil => exact ⟨_, fromGlobal hname h⟩
  | cons n names =>
      obtain ⟨hn, hnames⟩ := List.forall_mem_cons.mp hnames
      have hnil : scope.WritesTypes [] [] := .nil
      have hfirst := fromGlobal hn hnil
      have hid : NameMeaning.givenTo [] = id := funext NameMeaning.givenTo_nil
      simp only [hid, Option.map_id, id_eq] at hfirst
      obtain ⟨left, hleft⟩ := hfirst.dotted hnames
      have hwhole := hleft.member hname h
      rw [← intercalate_concat] at hwhole
      rw [List.cons_append, ← intercalate_append_cons, List.foldlM_cons, Option.map_bind]
      exact ⟨_, hwhole⟩

end Scope.WritesName

end

/-! ## Types -/

mutual

/-- A type and all the types that it is made of. -/
def Ty.parts : Ty → List Ty
  | .named d as => .named d as :: partsOfAll as
  | .param owner i name => [.param owner i name]
  | .array element rank => .array element rank :: parts element
  | .nullable inner => .nullable inner :: parts inner
  | .void => [.void]
  | .null => [.null]
  | .error message => [.error message]

def Ty.partsOfAll : List Ty → List Ty
  | [] => []
  | t :: ts => parts t ++ partsOfAll ts

end

/-- Whether a type is known without those that stand for type parameters. -/
def Ty.isKnown : Ty → Bool
  | .param .. | .error _ => false
  | _ => true

/-- Whether a type can be written at all. -/
def Ty.isWritable : Ty → Bool
  | .null => false
  | .array _ rank => 0 < rank
  | _ => true

namespace SymbolTable

/-- The names of what contains a definition, and its own name, lead to it from the
global namespace. -/
structure Reachable (s : SymbolTable) (d : TypeId) : Prop where
  names : ∀ n ∈ s.qualifiers d ++ [(s.type d).name], IsName n
  leads : (((s.qualifiers d).foldlM (fun m n => s.memberOf? m n 0) (.space global)).bind
    fun m => s.memberOf? m (s.type d).name (s.type d).arity) = some (.type (.plain d))

/-- What a type has to be, apart from its parts, for its spelling to bind back: a
definition has all its arguments and a name that leads to it, and no type is made
nullable twice. -/
def Spellable (s : SymbolTable) : Ty → Prop
  | .named d as => as.length = (s.type d).arity ∧ ((s.type d).keyword? = none → s.Reachable d)
  | .nullable (.nullable _) => False
  | _ => True

instance (s : SymbolTable) (d : TypeId) : Decidable (s.Reachable d) :=
  decidable_of_iff ((∀ n ∈ s.qualifiers d ++ [(s.type d).name], IsName n) ∧
    (((s.qualifiers d).foldlM (fun m n => s.memberOf? m n 0) (.space global)).bind
      fun m => s.memberOf? m (s.type d).name (s.type d).arity) = some (.type (.plain d)))
    ⟨fun h => ⟨h.1, h.2⟩, fun h => ⟨h.names, h.leads⟩⟩

instance (s : SymbolTable) : (ty : Ty) → Decidable (s.Spellable ty)
  | .named d as => inferInstanceAs (Decidable (as.length = (s.type d).arity ∧
      ((s.type d).keyword? = none → s.Reachable d)))
  | .nullable (.nullable _) => inferInstanceAs (Decidable False)
  | .nullable (.named ..) | .nullable (.param ..) | .nullable (.array ..) | .nullable .void
  | .nullable .null | .nullable (.error _) | .param .. | .array .. | .void | .null | .error _ =>
    inferInstanceAs (Decidable True)

/-- A keyword names the type that has it, and this type has no type parameters. -/
def KeywordsNamed (s : SymbolTable) : Prop :=
  ∀ d k, (s.type d).keyword? = some k →
    s.keywordType? k = some d ∧ (s.type d).arity = 0 ∧ k.isPredefinedType = true

end SymbolTable

namespace Scope

variable {scope : Scope} {ty : Ty} {t : Tree}

/-- A tree writes a type as it is spelled in a scope. -/
structure Writes (scope : Scope) (ty : Ty) (t : Tree) : Prop where
  tree : TypeTree t
  readable : Readable t
  text_eq : t.text = scope.spelling ty
  means : scope.TypeMeans t ty
  nullable : t.kind = .nullableType → ∃ inner, ty = .nullable inner
  array : t.kind = .arrayType → ∃ element inner ranks, t = arrayOf element ranks ∧
    element.isNode = true ∧ element.kind.isType = true ∧ scope.TypeMeans element inner ∧
      (∀ r ∈ ranks, 0 < r) ∧ ty = ranks.foldl Ty.array inner

theorem exists_node (h : t.isNode = true) : ∃ node : Node, node.tree = t := by
  cases t with
  | node k cs => exact ⟨⟨k, cs⟩, rfl⟩
  | token => cases h

/-- What is written is read back, and means the type. -/
theorem Writes.exists_tree (h : scope.Writes ty t) : ∃ node : Node,
    parseType (scope.spelling ty) = .ok node ∧ node.kind.isType = true ∧
      scope.resolveType (.root node.tree) = ty := by
  obtain ⟨hnode, htype⟩ := h.tree.isType
  obtain ⟨node, rfl⟩ := exists_node hnode
  refine ⟨node, ?_, htype, h.means.resolveType rfl⟩
  rw [← h.text_eq]
  exact parseType_text h.tree h.readable

theorem WritesName.writes {text : String} {meaning : Option NameMeaning}
    (h : scope.WritesName t text meaning) (htext : text = scope.spelling ty)
    (hmeans : typeOf t.plainText meaning = ty) : scope.Writes ty t where
  tree := .name h.tree
  readable := h.readable
  text_eq := h.text_eq.trans htext
  means := hmeans ▸ h.means.typeMeans h.tree.kind_not_mem
  nullable hkind := absurd (by rw [hkind]; decide) h.tree.kind_not_mem
  array hkind := absurd (by rw [hkind]; decide) h.tree.kind_not_mem

/-- A candidate that was tried out means the type. -/
theorem WritesName.writes_of_bindsTo {text : String} {meaning : Option NameMeaning}
    (h : scope.WritesName t text meaning) (htext : text = scope.spelling ty)
    (hbinds : scope.bindsTo text ty = true) : scope.Writes ty t := by
  obtain ⟨node, rfl⟩ := exists_node h.isType.1
  have hparse : parseType text = .ok node := by
    rw [← h.text_eq]
    exact parseType_text (.name h.tree) h.readable
  have hmeans := (h.means.typeMeans h.tree.kind_not_mem).resolveType (c := .root node.tree) rfl
  refine h.writes htext (hmeans.symm.trans ?_)
  unfold bindsTo at hbinds
  rw [hparse] at hbinds
  simpa using (Bool.and_eq_true_iff.mp hbinds).2

theorem Writes.nullableType (h : scope.Writes ty t) (hne : t.kind ≠ .nullableType) :
    scope.Writes (.nullable ty) (Build.nullableType t) where
  tree := typeTree_nullableType h.tree
  readable := readable_nullableType h.readable hne
  text_eq := by
    rw [text_nullableType, h.text_eq]
    rfl
  means := typeMeans_nullableType h.tree.isType.1 h.tree.isType.2 h.means
  nullable _ := ⟨ty, rfl⟩
  array hkind := by cases hkind

theorem Writes.arrayType (h : scope.Writes ty t) {rank : Nat} (hrank : 0 < rank) :
    scope.Writes (.array ty rank) (Build.arrayType t rank) := by
  obtain ⟨hnode, htype⟩ := h.tree.isType
  have hkind : (Build.arrayType t rank).kind = .arrayType := by
    unfold Build.arrayType
    split <;> rfl
  obtain ⟨element, inner, ranks, heq, helement, hisType, hmeans, hranks, hty⟩ :
      ∃ element inner ranks, Build.arrayType t rank = arrayOf element ranks ∧
        element.isNode = true ∧ element.kind.isType = true ∧ scope.TypeMeans element inner ∧
          (∀ r ∈ ranks, 0 < r) ∧ Ty.array ty rank = ranks.foldl Ty.array inner := by
    by_cases harray : t.kind = .arrayType
    · obtain ⟨element, inner, ranks, rfl, helement, hisType, hmeans, hranks, rfl⟩ := h.array harray
      refine ⟨element, inner, ranks ++ [rank], ?_, helement, hisType, hmeans, ?_, ?_⟩
      · rw [Build.arrayType, if_pos harray, arrayOf, arrayOf, List.map_append]
        rfl
      · exact List.forall_mem_append.mpr ⟨hranks, List.forall_mem_singleton.mpr hrank⟩
      · rw [List.foldl_append]
        rfl
    · refine ⟨t, ty, [rank], ?_, hnode, htype, h.means, List.forall_mem_singleton.mpr hrank, rfl⟩
      rw [Build.arrayType, if_neg harray]
      rfl
  exact {
    tree := typeTree_arrayType h.tree rank
    readable := readable_arrayType h.readable hnode rank
    text_eq := by
      rw [text_arrayType hnode, h.text_eq]
      rfl
    means := by
      rw [heq, hty]
      exact typeMeans_arrayOf helement hisType hmeans hranks
    nullable := fun hnullable => by
      rw [hkind] at hnullable
      cases hnullable
    array := fun _ => ⟨element, inner, ranks, heq, helement, hisType, hmeans, hranks, hty⟩ }

theorem writes_keyword {k : Kind} (h : k.isPredefinedType = true ∨ k = .voidKw)
    (htext : k.keywordText = scope.spelling ty)
    (hmeans : (if k == .voidKw then .void else match scope.table.keywordType? k with
      | some id => .plain id
      | none => .error k.keywordText) = ty) :
    scope.Writes ty (Build.predefinedType k k.keywordText).tree where
  tree := typeTree_predefinedType h _
  readable := readable_predefinedType h
  text_eq := (text_predefinedType k _).trans htext
  means := hmeans ▸ typeMeans_predefinedType h _
  nullable hkind := by cases hkind
  array hkind := by cases hkind

/-- Trees that write types may stand as type arguments. -/
theorem writesTypes_of_forall₂ {tys : List Ty} {ts : Forest}
    (h : List.Forall₂ (fun ty t => scope.Writes ty t) tys ts) :
    scope.WritesTypes ts tys ∧ ts.length = tys.length ∧
      ts.map Tree.text = spellWith.spellAll scope.spellNamed tys := by
  induction h with
  | nil => exact ⟨.nil, rfl, rfl⟩
  | cons hfirst _ ih =>
      obtain ⟨hmore, hlength, htexts⟩ := ih
      refine ⟨⟨?_, ?_, ?_⟩, ?_, ?_⟩
      · exact List.forall_mem_cons.mpr ⟨hfirst.tree, hmore.trees⟩
      · exact List.forall_mem_cons.mpr ⟨hfirst.readable, hmore.readable⟩
      · exact .cons ⟨hfirst.tree.isType.1, hfirst.tree.isType.2, hfirst.means⟩ hmore.means
      · rw [List.length_cons, List.length_cons, hlength]
      · rw [List.map_cons, htexts, hfirst.text_eq]
        rfl

/-- A definition with arguments that are written is written itself. -/
theorem exists_writes_named {d : TypeId} {as : List Ty} {ts : Forest}
    (hkeywords : scope.table.KeywordsNamed) (hspellable : scope.table.Spellable (.named d as))
    (h : List.Forall₂ (fun ty t => scope.Writes ty t) as ts) : ∃ t, scope.Writes (.named d as) t := by
  obtain ⟨hcount, hreachable⟩ := hspellable
  obtain ⟨htypes, hlength, htexts⟩ := writesTypes_of_forall₂ h
  have hspelling : scope.spelling (.named d as) =
      scope.spellNamed d as (ts.map Tree.text) := by
    rw [htexts]
    rfl
  cases hkeyword : (scope.table.type d).keyword? with
  | some k =>
      obtain ⟨hfound, harity, hpredefined⟩ := hkeywords d k hkeyword
      obtain rfl : as = [] := List.length_eq_zero_iff.mp (hcount.trans harity)
      have hvoid : (k == .voidKw) = false := by
        cases k <;> first | rfl | exact absurd hpredefined (by decide)
      refine ⟨_, writes_keyword (k := k) (.inl hpredefined) ?_ ?_⟩
      · rw [hspelling, spellNamed, hkeyword]
      · rw [hvoid, hfound]
        rfl
  | none =>
      obtain ⟨hnames, hleads⟩ := hreachable hkeyword
      obtain ⟨hqualifiers, hname⟩ := List.forall_mem_append.mp hnames
      replace hname := hname _ List.mem_cons_self
      rw [spellNamed, hkeyword] at hspelling
      simp only at hspelling
      split at hspelling
      · next text hfound =>
        obtain ⟨n, -, rfl⟩ := List.mem_map.mp (List.mem_of_find?_eq_some hfound)
        obtain ⟨t, meaning, ht⟩ := WritesName.exists_candidate
          (fun n hn => hqualifiers n (List.mem_of_mem_drop hn)) hname htypes
        have hbinds := List.find?_some hfound
        exact ⟨t, ht.writes_of_bindsTo hspelling.symm hbinds⟩
      · obtain ⟨t, ht⟩ := WritesName.exists_fromGlobal hqualifiers hname htypes
        rw [hlength, hcount, hleads] at ht
        refine ⟨t, ht.writes hspelling.symm ?_⟩
        have hgiven : (if as.isEmpty then [] else as) = as := by cases as <;> rfl
        simp only [Option.map_some, typeOf, NameMeaning.givenTo, Ty.plain, hgiven]

mutual

/-- Every type whose parts can all be spelled is written in a scope by a tree. -/
theorem exists_writes (hkeywords : scope.table.KeywordsNamed) :
    ∀ ty : Ty, (∀ part ∈ ty.parts, part.isKnown = true ∧ part.isWritable = true ∧
      scope.table.Spellable part) → ∃ t, scope.Writes ty t
  | .named d as, h => by
      rw [Ty.parts] at h
      obtain ⟨hself, has⟩ := List.forall_mem_cons.mp h
      obtain ⟨ts, hts⟩ := exists_writesAll hkeywords as has
      exact exists_writes_named hkeywords hself.2.2 hts
  | .array element rank, h => by
      rw [Ty.parts] at h
      obtain ⟨hself, helement⟩ := List.forall_mem_cons.mp h
      obtain ⟨t, ht⟩ := exists_writes hkeywords element helement
      exact ⟨_, ht.arrayType (by simpa [Ty.isWritable] using hself.2.1)⟩
  | .nullable inner, h => by
      rw [Ty.parts] at h
      obtain ⟨hself, hinner⟩ := List.forall_mem_cons.mp h
      obtain ⟨t, ht⟩ := exists_writes hkeywords inner hinner
      refine ⟨_, ht.nullableType fun hkind => ?_⟩
      obtain ⟨deeper, rfl⟩ := ht.nullable hkind
      exact hself.2.2
  | .void, _ => ⟨_, writes_keyword (.inr rfl) rfl rfl⟩
  | .param _ _ _, h => absurd (h _ (List.mem_singleton.mpr rfl)).1 Bool.false_ne_true
  | .null, h => absurd (h _ (List.mem_singleton.mpr rfl)).2.1 Bool.false_ne_true
  | .error _, h => absurd (h _ (List.mem_singleton.mpr rfl)).1 Bool.false_ne_true

theorem exists_writesAll (hkeywords : scope.table.KeywordsNamed) :
    ∀ tys : List Ty, (∀ part ∈ Ty.partsOfAll tys, part.isKnown = true ∧ part.isWritable = true ∧
      scope.table.Spellable part) → ∃ ts, List.Forall₂ (fun ty t => scope.Writes ty t) tys ts
  | [], _ => ⟨[], .nil⟩
  | ty :: tys, h => by
      rw [Ty.partsOfAll] at h
      obtain ⟨hfirst, hmore⟩ := List.forall_mem_append.mp h
      obtain ⟨t, ht⟩ := exists_writes hkeywords ty hfirst
      obtain ⟨ts, hts⟩ := exists_writesAll hkeywords tys hmore
      exact ⟨t :: ts, .cons ht hts⟩

end

end Scope

/-! ## Tables of projects -/

theorem Ty.mem_partsOfAll {part : Ty} {tys : List Ty} :
    part ∈ partsOfAll tys ↔ ∃ ty ∈ tys, part ∈ ty.parts := by
  induction tys with
  | nil => simp [partsOfAll]
  | cons ty tys ih => simp [partsOfAll, ih]

/-- What is written can be written: it is never the type of `null`, and every array has
a rank. -/
theorem formed_isWritable (s : SymbolTable) :
    Formed s fun ty => ∀ part ∈ ty.parts, part.isWritable = true where
  error _ := List.forall_mem_singleton.mpr rfl
  void := List.forall_mem_singleton.mpr rfl
  plain _ := List.forall_mem_singleton.mpr rfl
  given _ hbs := by
    rw [Ty.parts]
    refine List.forall_mem_cons.mpr ⟨rfl, fun part hpart => ?_⟩
    obtain ⟨b, hb, hmem⟩ := Ty.mem_partsOfAll.mp hpart
    exact hbs b hb part hmem
  array h hrank := by
    rw [Ty.parts]
    exact List.forall_mem_cons.mpr ⟨by simpa [Ty.isWritable] using hrank, h⟩
  nullable h := by
    rw [Ty.parts]
    exact List.forall_mem_cons.mpr ⟨rfl, h⟩

theorem Model.isWritable_resolveType (m : Model) (c : Cursor) :
    ∀ part ∈ (m.resolveType c).parts, part.isWritable = true := by
  have hscope := Scope.at_holds (formed_isWritable m.table)
    (fun _ _ _ _ _ => List.forall_mem_singleton.mpr rfl)
    (fun _ _ _ _ _ => List.forall_mem_singleton.mpr rfl) m.document c
  exact (Scope.within_holds (formed_isWritable m.table) hscope _).1 c

/-- Keywords name types of the framework only. -/
structure SymbolTable.KeepsKeywords (s : SymbolTable) : Prop where
  grows : Grows Framework.table s
  keyword : ∀ d, (s.type d).keyword? ≠ none → d.num < Framework.table.types.size

namespace SymbolTable.KeepsKeywords

variable {s s' : SymbolTable}

theorem type_eq_default {d : TypeId} (h : s.types.size ≤ d.num) : s.type d = default := by
  rw [SymbolTable.type, Array.getElem?_eq_none h]
  rfl

theorem keyword_eq (hgrows : Grows s s') {d : TypeId} (hd : d.num < s.types.size) :
    (s'.type d).keyword? = (s.type d).keyword? ∧ (s'.type d).arity = (s.type d).arity := by
  have hkeyword := congrArg TypeInfo.keyword? (hgrows.type_eq hd)
  have harity := congrArg TypeInfo.arity (hgrows.type_eq hd)
  exact ⟨hkeyword, harity⟩

/-- New types have no keywords. -/
theorem of_grows (h : s.KeepsKeywords) (hgrows : Grows s s')
    (hnew : ∀ d, s.types.size ≤ d.num → (s'.type d).keyword? = none) : s'.KeepsKeywords where
  grows := h.grows.trans hgrows
  keyword d hd := by
    rcases Nat.lt_or_ge d.num s.types.size with hlt | hge
    · exact h.keyword d ((keyword_eq hgrows hlt).1 ▸ hd)
    · exact absurd (hnew d hge) hd

theorem of_size_eq (h : s.KeepsKeywords) (hgrows : Grows s s')
    (hsize : s'.types.size = s.types.size) : s'.KeepsKeywords :=
  h.of_grows hgrows fun d hd => by rw [type_eq_default (hsize ▸ hd)]; rfl

theorem of_push (h : s.KeepsKeywords) (hgrows : Grows s s') {info : TypeInfo}
    (hpush : s'.types = s.types.push info) (hinfo : info.keyword? = none) : s'.KeepsKeywords :=
  h.of_grows hgrows fun d hd => by
    rw [type_of_push hpush]
    split
    · exact hinfo
    · rw [type_eq_default hd]
      rfl

theorem entry (h : s.KeepsKeywords) {doc : Workspace.Document} (hentry : Declare.Entry doc s s') :
    s'.KeepsKeywords := by
  have hgrows := hentry.grows
  cases hentry with
  | space =>
      exact h.of_size_eq hgrows (Declare.enterSpace_keeps
        (P := fun s' => s'.types.size = s.types.size) fun _ => rfl)
  | type _ _ hinfo => exact h.of_push hgrows rfl hinfo.keyword?_eq
  | delegate _ _ hinfo => exact h.of_push hgrows rfl hinfo.keyword?_eq
  | method | field | property => exact h.of_size_eq hgrows rfl

theorem fills (h : s.KeepsKeywords) (hfills : Declare.Fills s s') : s'.KeepsKeywords := by
  have hgrows := hfills.grows
  refine h.of_size_eq hgrows ?_
  cases hfills with
  | bases id _ => exact Array.size_modify ..
  | none | signature | fieldTy | propertyTy => rfl

end SymbolTable.KeepsKeywords

/-- The keywords of the framework. -/
theorem keywords_framework : ∀ i < Framework.table.types.size,
    ∀ k ∈ (Framework.table.type ⟨i⟩).keyword?,
      Framework.table.keywordType? k = some ⟨i⟩ ∧ (Framework.table.type ⟨i⟩).arity = 0 ∧
        k.isPredefinedType = true := by
  decide +kernel

theorem keepsKeywords_ofProject (project : Workspace.Project) :
    (SymbolTable.ofProject project).KeepsKeywords :=
  Declare.ofProject_keeps
    { grows := Grows.refl _
      keyword := fun d hd => by
        by_contra hge
        rw [SymbolTable.KeepsKeywords.type_eq_default (Nat.le_of_not_lt hge)] at hd
        exact hd rfl }
    (fun _ _ _ _ hentry h => h.entry hentry) fun _ _ hfills h => h.fills hfills

theorem keywordType?_eq_some {s : SymbolTable} {k : Kind} {d : TypeId} :
    s.keywordType? k = some d ↔ d.num < s.types.size ∧ (s.type d).keyword? = some k ∧
      ∀ i < d.num, (s.type ⟨i⟩).keyword? ≠ some k := by
  have hat (i : Nat) (hi : i < s.types.size) : s.type ⟨i⟩ = s.types[i] := by
    simp [SymbolTable.type, hi]
  simp only [SymbolTable.keywordType?, Option.map_eq_some_iff, Array.findIdx?_eq_some_iff_getElem,
    beq_iff_eq]
  constructor
  · rintro ⟨i, ⟨hi, hk, hbefore⟩, rfl⟩
    refine ⟨hi, (hat i hi).symm ▸ hk, fun j hj => ?_⟩
    rw [hat j (Nat.lt_trans hj hi)]
    exact hbefore j hj
  · rintro ⟨hi, hk, hbefore⟩
    refine ⟨d.num, ⟨hi, hat d.num hi ▸ hk, fun j hj => ?_⟩, rfl⟩
    rw [← hat j (Nat.lt_trans hj hi)]
    exact hbefore j hj

/-- Every keyword of a table names one type. -/
theorem SymbolTable.KeepsKeywords.keywordsNamed {s : SymbolTable} (h : s.KeepsKeywords) :
    s.KeywordsNamed := by
  intro d k hk
  have hlt := h.keyword d (by rw [hk]; exact Option.some_ne_none k)
  have hsame (i : Nat) (hi : i < Framework.table.types.size) :
      (s.type ⟨i⟩).keyword? = (Framework.table.type ⟨i⟩).keyword? ∧
        (s.type ⟨i⟩).arity = (Framework.table.type ⟨i⟩).arity :=
    SymbolTable.KeepsKeywords.keyword_eq h.grows hi
  obtain ⟨hfound, harity, hpredefined⟩ :=
    keywords_framework d.num hlt k ((hsame d.num hlt).1.symm.trans hk)
  obtain ⟨-, -, hbefore⟩ := keywordType?_eq_some.mp hfound
  refine ⟨keywordType?_eq_some.mpr ⟨?_, hk, fun i hi => ?_⟩, (hsame d.num hlt).2.trans harity,
    hpredefined⟩
  · exact Nat.lt_of_lt_of_le hlt h.grows.types.size_le
  · rw [(hsame i (Nat.lt_trans hi hlt)).1]
    exact hbefore i hi

/-- **Spelling.** What a type is written as at any place of a project is read as a type
that means it there, if every definition in it has all its arguments and a name that
leads to it from the global namespace. -/
theorem resolveType_spelling {project : Workspace.Project} {document target : Workspace.DocumentId}
    {c place : Cursor} {ty : Ty}
    (hty : (Model.mk (.ofProject project) document).resolveType c = ty)
    (hknown : ∀ part ∈ ty.parts, part.isKnown = true)
    (hspellable : ∀ part ∈ ty.parts, (SymbolTable.ofProject project).Spellable part) :
    ∃ node : Node, parseType ((Model.mk (.ofProject project) target).spelling ty place) = .ok node ∧
      node.kind.isType = true ∧
      ((Model.mk (.ofProject project) target).scope place).resolveType (.root node.tree) = ty := by
  have hwritable := Model.isWritable_resolveType (Model.mk (.ofProject project) document) c
  rw [hty] at hwritable
  have hkeywords : ((Model.mk (.ofProject project) target).scope place).table.KeywordsNamed :=
    (keepsKeywords_ofProject project).keywordsNamed
  obtain ⟨t, ht⟩ : ∃ t, ((Model.mk (.ofProject project) target).scope place).Writes ty t :=
    Scope.exists_writes hkeywords ty
      fun part hpart => ⟨hknown part hpart, hwritable part hpart, hspellable part hpart⟩
  exact ht.exists_tree

/-- A project of one document. -/
def projectOf (text : String) : Workspace.Project :=
  Workspace.Project.empty.append (Workspace.Document.read 0 "sample.cs" text 0) rfl

/-- The first name with qualifiers in the first document, and what it means there. -/
def firstQualified? (project : Workspace.Project) : Option (Cursor × Ty) := do
  let doc ← project.document? 0
  guard doc.parsed.errors.isEmpty
  let c ← doc.root.nthOfKind? .qualifiedName 0
  return (c, (Model.mk (.ofProject project) 0).resolveType c)

theorem resolveType_of_firstQualified? {project : Workspace.Project} {c : Cursor} {ty : Ty}
    (h : firstQualified? project = some (c, ty)) :
    (Model.mk (.ofProject project) 0).resolveType c = ty := by
  obtain ⟨_, -, h⟩ := Option.bind_eq_some_iff.mp h
  obtain ⟨_, -, h⟩ := Option.bind_eq_some_iff.mp h
  obtain ⟨_, -, h⟩ := Option.bind_eq_some_iff.mp h
  obtain ⟨rfl, rfl⟩ := Prod.mk.inj (Option.some.inj h)
  rfl

/-- A project where a class hides another one of its name. -/
def hidingProject : Workspace.Project :=
  projectOf ("class A { public class B { } } " ++
    "class C { class A { } System.Collections.Generic.List<global::A.B[,]> f; }")

theorem resolveType_spelling_hidden : ∃ c ty, firstQualified? hidingProject = some (c, ty) ∧
    (∀ part ∈ ty.parts, part.isKnown = true) ∧
    (∀ part ∈ ty.parts, (SymbolTable.ofProject hidingProject).Spellable part) ∧
    (Model.mk (.ofProject hidingProject) 0).spelling ty c =
      "System.Collections.Generic.List<global::A.B[,]>" ∧
    ∃ node : Node, parseType ((Model.mk (.ofProject hidingProject) 0).spelling ty c) = .ok node ∧
      node.kind.isType = true ∧
      ((Model.mk (.ofProject hidingProject) 0).scope c).resolveType (.root node.tree) = ty := by
  have hcheck : (firstQualified? hidingProject.quick).any (fun (c, ty) =>
      ty.parts.all (fun part => part.isKnown &&
        decide ((SymbolTable.ofProject hidingProject.quick).Spellable part)) &&
      (Model.mk (.ofProject hidingProject.quick) 0).spelling ty c ==
        "System.Collections.Generic.List<global::A.B[,]>") = true := by
    decide +kernel
  rw [Workspace.Project.quick_eq] at hcheck
  obtain ⟨⟨c, ty⟩, hfound, hcheck⟩ := (Option.any_eq_true ..).mp hcheck
  simp only [Bool.and_eq_true, List.all_eq_true, decide_eq_true_eq, beq_iff_eq] at hcheck
  obtain ⟨hparts, htext⟩ := hcheck
  have hknown := fun part hpart => (hparts part hpart).1
  have hspellable := fun part hpart => (hparts part hpart).2
  exact ⟨c, ty, hfound, hknown, hspellable, htext,
    resolveType_spelling (resolveType_of_firstQualified? hfound) hknown hspellable⟩

/-- A project where a type argument is needed to name a type. -/
def insideGenericProject : Workspace.Project :=
  projectOf "class O<T> { public class I { } } class C { O<int>.I f; }"

/-- A spelling may mean nothing: the type arguments of the types around a type are left
out. -/
theorem spelling_unresolved : ∃ c d, firstQualified? insideGenericProject = some (c, .plain d) ∧
    (Model.mk (.ofProject insideGenericProject) 0).spelling (.plain d) c = "global::O.I" ∧
    ¬∃ node : Node, parseType ((Model.mk (.ofProject insideGenericProject) 0).spelling (.plain d) c) =
      .ok node ∧ node.kind.isType = true ∧
        ((Model.mk (.ofProject insideGenericProject) 0).scope c).resolveType (.root node.tree) =
          .plain d := by
  have hcheck : (firstQualified? insideGenericProject.quick).any (fun (c, ty) =>
      (ty.definition?.any fun d => ty == .plain d) &&
      (Model.mk (.ofProject insideGenericProject.quick) 0).spelling ty c == "global::O.I" &&
      (parseType "global::O.I").toOption.any (fun node =>
        ((Model.mk (.ofProject insideGenericProject.quick) 0).scope c).resolveType
          (.root node.tree) == .error "global::O.I")) = true := by
    decide +kernel
  rw [Workspace.Project.quick_eq] at hcheck
  simp only [Option.any_eq_true, Bool.and_eq_true, beq_iff_eq] at hcheck
  obtain ⟨⟨c, ty⟩, hfound, ⟨⟨d, -, rfl⟩, htext⟩, node, hnode, hresolved⟩ := hcheck
  refine ⟨c, d, hfound, htext, ?_⟩
  rintro ⟨other, hother, -, hmeans⟩
  rw [htext] at hother
  rw [hother] at hnode
  obtain rfl : other = node := Option.some.inj hnode
  rw [hresolved] at hmeans
  cases hmeans

end CSharpKit.Semantics
