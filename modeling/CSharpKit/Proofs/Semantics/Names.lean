import CSharpKit.Proofs.Semantics.Declarations
import CSharpKit.Proofs.Syntax.Words
import CSharpKit.Semantics.Symbol
import CSharpKit.Text.UpperCase

/-!
# Names hold no trivia

A name is made of characters that no blank, comment or directive opens with. This
holds of the tokens that names are written with, so of the names in a table, and
of what is spelled out of these.
-/

namespace CSharpKit

open Text

namespace Syntax.Token

/-! ## Characters -/

/-- A character that may open trivia has a code point that may. -/
theorem mem_triviaRanges_of_ofNat {n : Nat} (h : opensTrivia (Char.ofNat n) = true) :
    ∃ x ∈ triviaRanges, x.1 ≤ n ∧ n ≤ x.2 := by
  have hcontains := contains_triviaRanges h
  by_cases hvalid : n.isValidChar
  · have hnat : (Char.ofNat n).toNat = n := by
      rw [Char.ofNat, dif_pos hvalid]
      rfl
    rw [CharRanges.contains_iff, hnat] at hcontains
    exact hcontains
  · rw [Char.ofNat, dif_neg hvalid] at h
    exact absurd h (by decide)

/-- The upper case of a character opens no trivia if the character does not. -/
theorem not_opensTrivia_of_mem_upperCase {c d : Char} (hc : opensTrivia c = false)
    (hd : d ∈ upperCase c) : opensTrivia d = false := by
  have hexpansions : ∀ entry ∈ upperCaseExpansions, ∀ n ∈ entry.2,
      opensTrivia (Char.ofNat n) = false := by decide +kernel
  have hruns : ∀ run ∈ upperCaseRuns, ∀ x ∈ triviaRanges,
      run.apply run.last < x.1 ∨ x.2 < run.apply run.first := by decide +kernel
  unfold upperCase at hd
  split at hd
  · next expansion hlookup =>
    obtain ⟨n, hn, rfl⟩ := List.mem_map.mp hd
    exact hexpansions _ (mem_of_lookup_eq_some hlookup) n hn
  · split at hd
    · next run hfind =>
      obtain rfl := List.mem_singleton.mp hd
      have hrun := List.mem_of_find?_eq_some hfind
      have hinside := List.find?_some hfind
      simp only [CaseRun.contains, Bool.and_eq_true, decide_eq_true_eq] at hinside
      refine Bool.eq_false_iff.mpr fun hopens => ?_
      obtain ⟨x, hx, hlo, hhi⟩ := mem_triviaRanges_of_ofNat hopens
      have hapart := hruns run hrun x hx
      simp only [CaseRun.apply, Int.ofNat_eq_natCast] at hlo hhi hapart
      omega
    · obtain rfl := List.mem_singleton.mp hd
      exact hc

/-! ## Texts -/

theorem tight_empty : Tight "" := by decide

theorem Tight.append {a b : String} (ha : Tight a) (hb : Tight b) : Tight (a ++ b) := by
  intro c hc
  rw [String.toList_append] at hc
  rcases List.mem_append.mp hc with hc | hc
  · exact ha c hc
  · exact hb c hc

theorem mem_intercalate {sep : List Char} {parts : List (List Char)} {c : Char}
    (h : c ∈ sep.intercalate parts) : c ∈ sep ∨ ∃ part ∈ parts, c ∈ part := by
  induction parts with
  | nil => simp at h
  | cons part parts ih =>
      cases parts with
      | nil => exact .inr ⟨part, List.mem_cons_self, by simpa using h⟩
      | cons next parts =>
          rw [List.intercalate_cons_cons, List.append_assoc] at h
          rcases List.mem_append.mp h with h | h
          · exact .inr ⟨part, List.mem_cons_self, h⟩
          · rcases List.mem_append.mp h with h | h
            · exact .inl h
            · rcases ih h with h | ⟨found, hfound, h⟩
              · exact .inl h
              · exact .inr ⟨found, List.mem_cons_of_mem _ hfound, h⟩

theorem mem_intercalate_of_mem {sep part : List Char} {parts : List (List Char)} {c : Char}
    (hpart : part ∈ parts) (h : c ∈ part) : c ∈ sep.intercalate parts := by
  induction parts with
  | nil => cases hpart
  | cons first parts ih =>
      cases parts with
      | nil =>
          obtain rfl := List.mem_singleton.mp hpart
          simpa using h
      | cons next parts =>
          rw [List.intercalate_cons_cons]
          rcases List.mem_cons.mp hpart with rfl | hpart
          · exact List.mem_append_left _ (List.mem_append_left _ h)
          · exact List.mem_append_right _ (ih hpart)

theorem tight_intercalate {sep : String} {parts : List String} (hsep : Tight sep)
    (hparts : ∀ part ∈ parts, Tight part) : Tight (sep.intercalate parts) := by
  intro c hc
  rw [String.toList_intercalate] at hc
  rcases mem_intercalate hc with hc | ⟨cs, hcs, hc⟩
  · exact hsep c hc
  · obtain ⟨part, hpart, rfl⟩ := List.mem_map.mp hcs
    exact hparts part hpart c hc

/-! ## Tokens -/

/-- A token that a type is written with holds no trivia, unless it is trivia. -/
theorem IsScanned.tight {t : Token} (h : IsScanned t) (hkind : Tree.isTypeToken t.kind = true)
    (htrivia : t.kind.isTrivia = false) : Tight t.text := by
  have hoperators : ∀ entry ∈ operators, Tree.isTypeToken entry.2 = true →
      (entry.1.all fun c => !opensTrivia c) = true := by decide
  have hliterals : ∀ k ∈ [Kind.stringLiteral, .charLiteral, .intLiteral, .realLiteral, .error],
      Tree.isTypeToken k = false := by decide
  obtain ⟨c, rest, n, hscan, htext⟩ := h
  intro d hd
  rw [htext, String.toList_ofList] at hd
  generalize hk : t.kind = kind at hscan hkind htrivia
  cases hscan with
  | trivia htrue =>
      rw [htrivia] at htrue
      cases htrue
  | word _ hchars => exact not_opensTrivia_of_isWordChar (hchars d hd)
  | operator hmem => simpa using List.all_eq_true.mp (hoperators _ hmem hkind) d hd
  | literal hliteral =>
      rw [hliterals kind (List.contains_iff_mem.mp hliteral)] at hkind
      cases hkind

end Syntax.Token

open Syntax Workspace Cursor Token

namespace Syntax

/-- The leaves below an element are among its leaves. -/
theorem Cursor.Below.leaves_subset {c d : Cursor} (h : Below c d) :
    d.focus.leaves ⊆ c.focus.leaves := by
  induction h with
  | refl => exact List.Subset.refl _
  | @tail p e _ he ih =>
      refine List.Subset.trans (fun leaf hleaf => ?_) ih
      have hchild := focus_mem_of_mem_elements he
      cases hfocus : p.focus with
      | token k s => simp [hfocus, Tree.children] at hchild
      | node k cs =>
          rw [hfocus] at hchild
          exact Tree.mem_forestLeaves.mpr ⟨e.focus, hchild, hleaf⟩

namespace IsFile

variable {text : String} {t : Tree} (h : IsFile text t) {c : Cursor} (hc : Below (.root t) c)
include h hc

theorem tight_leaf {leaf : Kind × String} (hleaf : leaf ∈ c.focus.leaves)
    (hkind : Tree.isTypeToken leaf.1 = true) (htrivia : leaf.1.isTrivia = false) :
    Tight leaf.2 := by
  obtain ⟨-, -, -, -, hcontents⟩ := Token.lex_eq_contents text
  have hmem : leaf ∈ t.leaves := hc.leaves_subset hleaf
  rw [h.leaves] at hmem
  obtain ⟨token, htoken, rfl⟩ := List.mem_map.mp hmem
  exact (hcontents token htoken).tight hkind htrivia

theorem tight_name {name : String} (hname : c.name? = some name) : Tight name := by
  obtain ⟨token, htoken, rfl⟩ := Option.map_eq_some_iff.mp hname
  obtain ⟨helement, hisToken⟩ := List.mem_filter.mp (List.mem_of_find?_eq_some htoken)
  have hkind : token.kind = .identifier := by simpa using List.find?_some htoken
  have hbelow := hc.element helement
  cases hfocus : token.focus with
  | node k cs => simp [isNode, hfocus, Tree.isNode] at hisToken
  | token k s =>
      obtain rfl : k = .identifier := by simpa [Cursor.kind, hfocus, Tree.kind] using hkind
      have hleaf : (Kind.identifier, s) ∈ token.focus.leaves := by simp [hfocus, Tree.leaves]
      have htight := h.tight_leaf hbelow hleaf rfl rfl
      simpa [Cursor.text, hfocus, Tree.text, Tree.leaves] using htight

/-- The names that make up a written type hold no trivia. -/
theorem tight_plainText (hnode : c.isNode = true) (hkind : c.kind.isType = true) :
    Tight c.focus.plainText := by
  have htype := (h.isTypeSyntax hc hnode hkind).leaves
  intro d hd
  rw [Tree.plainText, String.toList_join, List.mem_flatMap] at hd
  obtain ⟨s, hs, hd⟩ := hd
  obtain ⟨leaf, hleaf, rfl⟩ := List.mem_map.mp hs
  obtain ⟨hleaf, htrivia⟩ := List.mem_filter.mp hleaf
  exact h.tight_leaf hc hleaf (htype leaf hleaf) (by simpa using htrivia) d hd

end IsFile

end Syntax

/-! ## Tables -/

namespace Semantics

open Declare

/-- No name of a type or a namespace holds trivia. -/
structure TightNames (s : SymbolTable) : Prop where
  types : ∀ id, Tight (s.type id).name
  spaces : ∀ id, Tight (s.space id).name

theorem tight_of_mem_segments {path segment : String} (hpath : Tight path)
    (h : segment ∈ SymbolTable.segments path) : Tight segment := by
  obtain ⟨cs, hcs, rfl⟩ := List.mem_map.mp h
  intro c hc
  rw [String.toList_ofList] at hc
  apply hpath c
  have hmem : c ∈ ['.'].intercalate (path.toList.splitOn '.') :=
    mem_intercalate_of_mem (List.mem_filter.mp hcs).1 hc
  rwa [List.intercalate_splitOn] at hmem

namespace TightNames

variable {s : SymbolTable}

theorem empty : TightNames .empty := by
  constructor
  · intro id
    simp only [SymbolTable.type, SymbolTable.empty, Array.getElem?_empty]
    decide
  · intro id
    simp only [SymbolTable.space, SymbolTable.empty]
    cases hinfo : (#[⟨"", none⟩] : Array NamespaceInfo)[id.num]? with
    | none => decide
    | some info =>
        obtain rfl : info = ⟨"", none⟩ := by simpa using Array.mem_of_getElem? hinfo
        decide

theorem record (h : TightNames s) (origin : Origin) (decl : Decl) :
    TightNames (s.record origin decl) := ⟨h.types, h.spaces⟩

theorem ensureSpace (h : TightNames s) (parent : NamespaceId) {name : String} (hname : Tight name) :
    TightNames (s.ensureSpace parent name).1 := by
  unfold SymbolTable.ensureSpace
  split
  · exact h
  · refine ⟨h.types, fun id => ?_⟩
    simp only [SymbolTable.space, Array.getElem?_push]
    split
    · exact hname
    · exact h.spaces id

theorem ensurePath (h : TightNames s) (parent : NamespaceId) {path : String} (hpath : Tight path) :
    TightNames (s.ensurePath parent path).1 := by
  have hsegments : ∀ segment ∈ SymbolTable.segments path, Tight segment :=
    fun segment => tight_of_mem_segments hpath
  rw [SymbolTable.ensurePath]
  generalize SymbolTable.segments path = segments at hsegments
  induction segments generalizing s parent with
  | nil => exact h
  | cons segment segments ih =>
      obtain ⟨hfirst, hrest⟩ := List.forall_mem_cons.mp hsegments
      exact ih (h.ensureSpace parent hfirst) _ hrest

theorem addType (h : TightNames s) {info : TypeInfo} (hname : Tight info.name) :
    TightNames (s.addType info).1 := by
  refine ⟨fun id => ?_, h.spaces⟩
  simp only [SymbolTable.type, SymbolTable.addType, Array.getElem?_push]
  split
  · exact hname
  · exact h.types id

theorem setBases (h : TightNames s) (id : TypeId) (bases : List Ty) :
    TightNames (s.setBases id bases) := by
  refine ⟨fun other => ?_, h.spaces⟩
  have htypes := h.types other
  simp only [SymbolTable.type, SymbolTable.setBases, Array.getElem?_modify] at htypes ⊢
  split
  · cases hinfo : s.types[other.num]? with
    | none => simpa [hinfo] using htypes
    | some info => simpa [hinfo] using htypes
  · exact htypes

theorem framework : TightNames Framework.table := by
  refine Framework.table_keeps TightNames.empty fun s s' hentry h => ?_
  cases hentry with
  | space parent hpath => exact h.ensurePath parent hpath
  | type hname => exact h.addType hname
  | method | field | property => exact ⟨h.types, h.spaces⟩
  | bases id bases => exact h.setBases id bases

theorem ofProject (project : Project) : TightNames (.ofProject project) := by
  refine ofProject_keeps framework (fun doc _ s s' hentry h => ?_) fun s s' hfills h => ?_
  · have tight {container : Container} {origin : Origin} {c : Cursor} {info : TypeInfo}
        (hplaced : Placed doc s container c) (hinfo : Describes origin container c info) :
        Tight info.name := by
      rw [hinfo.name_eq]
      cases hfound : c.name? with
      | none => exact tight_empty
      | some name => exact (isFile_tree doc).tight_name hplaced.below_root hfound
    cases hentry with
    | @space c parent hplaced hkind =>
        have hpath : Tight (writtenPath c) := by
          rw [writtenPath]
          cases htype : c.type? with
          | none => exact tight_empty
          | some written =>
              rw [Option.map_some, Option.getD_some]
              obtain ⟨hmem, hisType⟩ := mem_children_of_childOf? htype
              exact (isFile_tree doc).tight_plainText
                (hplaced.below_root.trans (below_of_mem_children hmem))
                (isNode_of_mem_children hmem) hisType
        exact (h.ensurePath parent hpath).record _ _
    | type hplaced hkind hinfo => exact (h.addType (tight hplaced hinfo)).record _ _
    | @delegate container c info hplaced hkind hinfo =>
        have htypes := (h.addType (tight hplaced hinfo)).record ⟨doc.id, Pointer.of c⟩
          (.type (s.addType info).2)
        exact ⟨htypes.types, htypes.spaces⟩
    | method | field | property => exact ⟨h.types, h.spaces⟩
  · cases hfills with
    | none => exact h
    | bases id => exact h.setBases id _
    | signature | fieldTy | propertyTy => exact ⟨h.types, h.spaces⟩

/-! ## Spellings -/

variable (h : TightNames s)
include h

theorem spacePath (id : NamespaceId) : ∀ name ∈ s.spacePath id, Tight name := by
  rw [SymbolTable.spacePath]
  generalize s.namespaces.size = fuel
  induction fuel generalizing id with
  | zero => simp [SymbolTable.spacePathWithin]
  | succ fuel ih =>
      intro name hname
      rw [SymbolTable.spacePathWithin] at hname
      split at hname
      · cases hname
      · rcases List.mem_append.mp hname with hname | hname
        · exact ih _ name hname
        · rw [List.mem_singleton.mp hname]
          exact h.spaces id

theorem qualifiers (id : TypeId) : ∀ name ∈ s.qualifiers id, Tight name := by
  intro name hname
  rcases List.mem_append.mp hname with hname | hname
  · exact h.spacePath _ name hname
  · obtain ⟨outer, -, rfl⟩ := List.mem_map.mp hname
    exact h.types outer

theorem dotted {names : List String} (hnames : ∀ name ∈ names, Tight name) (id : TypeId) :
    Tight (".".intercalate (names ++ [(s.type id).name])) := by
  refine tight_intercalate (by decide) fun name hname => ?_
  rcases List.mem_append.mp hname with hname | hname
  · exact hnames name hname
  · rw [List.mem_singleton.mp hname]
    exact h.types id

end TightNames

theorem tight_keywordText (k : Kind) : Tight k.keywordText := by
  have hkeywords : ∀ entry ∈ Kind.keywords, Tight entry.1 := by decide +kernel
  rw [Kind.keywordText]
  cases hfind : Kind.keywords.find? (·.2 == k) with
  | none => exact tight_empty
  | some entry => exact hkeywords entry (List.mem_of_find?_eq_some hfind)

/-- The spelling of a type without type arguments holds no trivia. -/
theorem TightNames.spelling {m : Model} (h : TightNames m.table) (id : TypeId) (c : Cursor) :
    Tight (m.spelling (.plain id) c) := by
  have hqualifiers := h.qualifiers id
  show Tight ((m.scope c).spellNamed id [] [])
  unfold Scope.spellNamed
  dsimp only
  split
  · exact tight_keywordText _
  · split
    · next text hfind =>
      obtain ⟨n, -, rfl⟩ := List.mem_map.mp (List.mem_of_find?_eq_some hfind)
      exact h.dotted (fun name hname => hqualifiers name (List.mem_of_mem_drop hname)) id
    · exact Tight.append (by decide) (h.dotted hqualifiers id)

end Semantics

end CSharpKit
