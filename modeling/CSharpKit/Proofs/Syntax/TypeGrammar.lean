import CSharpKit.Proofs.Syntax.CleanTypes

/-!
# The grammar of written types

`WrittenType` lists the words of token kinds that write a type, without reference to a
parser. The leaves of a tree of a type are such a word, and where such a word is ahead so
are the leaves of a tree. Since the reader of types makes these trees and no others, it
accepts the words of the grammar and no others.
-/

namespace CSharpKit.Syntax

open Tree CSharpKit.Syntax.Parser

/-! ## Words -/

/-- `Suffix ::= ? | [ ,* ]` -/
inductive WrittenSuffix : List Kind → Prop
  | nullable : WrittenSuffix [.question]
  | array (n : Nat) : WrittenSuffix (.lBracket :: (List.replicate n .comma ++ [.rBracket]))

mutual

/-- `Type ::= (keyword | void | Name) Suffix*` -/
inductive WrittenType : List Kind → Prop
  | keyword {k : Kind} (hk : k.isPredefinedType = true ∨ k = .voidKw) : WrittenType [k]
  | name {ks : List Kind} (h : WrittenName ks) : WrittenType ks
  | suffix {ks suffix : List Kind} (h : WrittenType ks) (hsuffix : WrittenSuffix suffix) :
      WrittenType (ks ++ suffix)

/-- `Name ::= (identifier ::)? Simple (. Simple)*` -/
inductive WrittenName : List Kind → Prop
  | simple {ks : List Kind} (h : WrittenSimple ks) : WrittenName ks
  | aliased {ks : List Kind} (h : WrittenSimple ks) : WrittenName (.identifier :: .colonColon :: ks)
  | qualified {left ks : List Kind} (hleft : WrittenName left) (h : WrittenSimple ks) :
      WrittenName (left ++ .dot :: ks)

/-- `Simple ::= identifier | identifier < Slot (, Slot)* >` -/
inductive WrittenSimple : List Kind → Prop
  | identifier : WrittenSimple [.identifier]
  | generic {ks : List Kind} (h : WrittenSlots ks) :
      WrittenSimple (.identifier :: .less :: (ks ++ [.greater]))

/-- `Slot (, Slot)*` -/
inductive WrittenSlots : List Kind → Prop
  | single {ks : List Kind} (h : WrittenSlot ks) : WrittenSlots ks
  | cons {ks more : List Kind} (h : WrittenSlot ks) (hmore : WrittenSlots more) :
      WrittenSlots (ks ++ .comma :: more)

/-- `Slot ::= empty | Type` -/
inductive WrittenSlot : List Kind → Prop
  | empty : WrittenSlot []
  | type {ks : List Kind} (h : WrittenType ks) : WrittenSlot ks

end

/-! ## Words of trees -/

theorem leafKinds_commas {cs : Forest} (h : Commas cs) :
    ∃ n, leafKinds cs = List.replicate n .comma := by
  induction h with
  | nil => exact ⟨0, rfl⟩
  | cons hc _ ih =>
      obtain ⟨n, hn⟩ := ih
      exact ⟨n + 1, by rw [leafKinds_append, leafKinds_terminal hc rfl, hn]; rfl⟩

/-- Brackets behind a type are suffixes. -/
theorem WrittenType.ranks {ks : List Kind} {f : Forest} (h : WrittenType ks) (hf : Ranks f) :
    WrittenType (ks ++ leafKinds f) := by
  induction hf generalizing ks with
  | nil => simpa using h
  | @cons g cs close f text hg hcs hclose _ ih =>
      obtain ⟨n, hn⟩ := leafKinds_commas hcs
      have hrank := ih (h.suffix (.array n))
      rw [leafKinds_append, leafKinds_gap hg, leafKinds_node, leafKinds_token rfl, leafKinds_append,
        hn, leafKinds_terminal hclose rfl]
      simpa using hrank

mutual

theorem TypeTree.written {t : Tree} (h : TypeTree t) : WrittenType (leafKinds [t]) :=
  match h with
  | @TypeTree.keyword k text hk => by
      have hplain : k.isTrivia = false := by
        refine (isPlain_of_opensType (k := k) ?_).1
        rcases hk with hk | hk <;> simp [opensType, hk]
      rw [leafKinds_node, leafKinds_token hplain]
      exact .keyword hk
  | .name ht => .name ht.written
  | .nullable (t := u) ht hq => by
      have hword := ht.written.suffix .nullable
      rw [leafKinds_node, ← List.singleton_append, leafKinds_append, leafKinds_terminal hq rfl]
      simpa using hword
  | @TypeTree.array u ranks ht _ hranks _ => by
      have hword := ht.written.ranks hranks
      rw [leafKinds_node, ← List.singleton_append, leafKinds_append]
      simpa using hword

theorem NameTree.written {t : Tree} (h : NameTree t) : WrittenName (leafKinds [t]) :=
  match h with
  | .simple ht => .simple ht.written
  | .aliased hcolons hg ht => by
      have hword := WrittenName.aliased ht.written
      rw [leafKinds_node, leafKinds_node, leafKinds_token rfl, leafKinds_append, leafKinds_append,
        leafKinds_terminal hcolons rfl, leafKinds_gap hg]
      simpa using hword
  | @NameTree.qualified left u dot g hleft hdot hg ht => by
      have hword := WrittenName.qualified hleft.written ht.written
      rw [leafKinds_node, ← List.singleton_append, leafKinds_append, leafKinds_append,
        leafKinds_append, leafKinds_terminal hdot rfl, leafKinds_gap hg]
      simpa using hword

theorem SimpleTree.written {t : Tree} (h : SimpleTree t) : WrittenSimple (leafKinds [t]) :=
  match h with
  | .identifier => .identifier
  | .generic hg hslots hclose => by
      have hword := WrittenSimple.generic hslots.written
      rw [leafKinds_node, leafKinds_token rfl, leafKinds_append, leafKinds_gap hg, leafKinds_node,
        leafKinds_token rfl, leafKinds_append, leafKinds_terminal hclose rfl]
      simpa using hword

theorem Slots.written {f : Forest} (h : Slots f) : WrittenSlots (leafKinds f) :=
  match h with
  | .nil => .single .empty
  | .comma hc hf => by
      rw [leafKinds_append, leafKinds_terminal hc rfl]
      exact .cons .empty hf.written
  | .last hg ht => by
      rw [leafKinds_append, leafKinds_gap hg]
      exact .single (.type ht.written)
  | .item (t := t) (c := c) (f := f) hg ht hc hf => by
      have hword := WrittenSlots.cons (.type ht.written) hf.written
      rw [leafKinds_append, leafKinds_gap hg, ← List.singleton_append, leafKinds_append,
        leafKinds_append, leafKinds_terminal hc rfl]
      simpa using hword

end

/-! ## Trees of words -/

namespace Lookahead

theorem kinds_significant (ts : List Token) : kinds (significant ts) = kinds ts := by
  induction ts with
  | nil => rfl
  | cons t ts ih =>
      by_cases ht : t.isTrivia = true
      · have htrivia : t.kind.isTrivia = true := ht
        simpa [significant, kinds, ht, htrivia] using ih
      · simp [significant, ht]

/-- A token of a word is ahead, behind trivia. -/
theorem exists_terminal_of_kinds {k : Kind} {ks : List Kind} {ts : List Token}
    (h : kinds ts = k :: ks) :
    ∃ c rest, Terminal k c ∧ Spells c ts rest ∧ kinds rest = ks := by
  rw [← kinds_significant] at h
  cases hts : significant ts with
  | nil => simp [hts, kinds] at h
  | cons t rest =>
      have htrivia : t.kind.isTrivia = false := not_isTrivia_of_significant hts
      simp only [hts, kinds, List.map_cons, htrivia, Bool.not_false, List.filter_cons_of_pos,
        List.cons.injEq] at h
      obtain ⟨c, hc, hspells⟩ := @exists_terminal ts k (by simp [hts, headKind?, h.1])
      exact ⟨c, rest, hc, by simpa [hts] using hspells, h.2⟩

theorem exists_commas_of_kinds {n : Nat} {ks : List Kind} {ts : List Token}
    (h : kinds ts = List.replicate n .comma ++ ks) :
    ∃ cs rest, Commas cs ∧ Spells cs ts rest ∧ kinds rest = ks := by
  induction n generalizing ts with
  | zero => exact ⟨[], ts, .nil, spells_nil.mpr rfl, h⟩
  | succ n ih =>
      obtain ⟨c, mid, hc, hcomma, hmid⟩ := exists_terminal_of_kinds h
      obtain ⟨cs, rest, hcs, hmore, hrest⟩ := ih hmid
      exact ⟨c ++ cs, rest, .cons hc hcs, spells_append.mpr ⟨mid, hcomma, hmore⟩, hrest⟩

/-- Where a word is ahead, so are the leaves of a tree of this form. -/
def Stands (P : Tree → Prop) (ks : List Kind) : Prop :=
  ∀ (ts : List Token) (more : List Kind), kinds ts = ks ++ more →
    ∃ g t rest, IsGap g ∧ P t ∧ Spells (g ++ [t]) ts rest ∧ kinds rest = more

theorem Stands.suffix {ks suffix : List Kind} (h : Stands TypeTree ks) (hsuffix : WrittenSuffix suffix) :
    Stands TypeTree (ks ++ suffix) := by
  intro ts more hts
  rw [List.append_assoc] at hts
  obtain ⟨g, t, mid, hg, ht, hspells, hmid⟩ := h ts _ hts
  obtain ⟨ts₁, hgap, htree⟩ := spells_append.mp hspells
  cases hsuffix with
  | nullable =>
      obtain ⟨q, rest, hq, hquestion, hrest⟩ := exists_terminal_of_kinds hmid
      refine ⟨g, _, rest, hg, .nullable ht hq, spells_append.mpr ⟨ts₁, hgap, ?_⟩, hrest⟩
      exact spells_node.mpr (spells_cons.mpr ⟨mid, htree, hquestion⟩)
  | array n =>
      rw [List.cons_append, List.append_assoc] at hmid
      obtain ⟨c, ts₂, ⟨g', text, hg', rfl⟩, hopen, hts₂⟩ := exists_terminal_of_kinds hmid
      obtain ⟨cs, ts₃, hcs, hcommas, hts₃⟩ := exists_commas_of_kinds hts₂
      obtain ⟨close, rest, hclose, hend, hrest⟩ := exists_terminal_of_kinds hts₃
      have hrank : Spells (g' ++ [.node .arrayRankSpecifier (.token .lBracket text :: (cs ++ close))])
          mid rest := by
        refine spells_opened.mpr (spells_append.mpr ⟨ts₂, hopen, ?_⟩)
        exact spells_append.mpr ⟨ts₃, hcommas, hend⟩
      obtain ⟨t', ht', htree'⟩ := exists_ranks ht (.cons hg' hcs hclose .nil) (by simp)
        (spells_cons.mpr ⟨mid, htree, hrank⟩)
      exact ⟨g, t', rest, hg, ht', spells_append.mpr ⟨ts₁, hgap, htree'⟩, hrest⟩

mutual

theorem stands_type {ks : List Kind} (h : WrittenType ks) : Stands TypeTree ks :=
  match h with
  | .keyword hk => by
      intro ts more hts
      obtain ⟨c, rest, ⟨g, text, hg, rfl⟩, hspells, hrest⟩ := exists_terminal_of_kinds hts
      exact ⟨g, .node .predefinedType [.token _ text], rest, hg, .keyword hk,
        spells_opened.mpr (by simpa using hspells), hrest⟩
  | .name h => by
      intro ts more hts
      obtain ⟨g, t, rest, hg, ht, hspells⟩ := stands_name h ts more hts
      exact ⟨g, t, rest, hg, .name ht, hspells⟩
  | .suffix h hsuffix => (stands_type h).suffix hsuffix

theorem stands_name {ks : List Kind} (h : WrittenName ks) : Stands NameTree ks :=
  match h with
  | .simple h => by
      intro ts more hts
      obtain ⟨g, t, rest, hg, ht, hspells⟩ := stands_simple h ts more hts
      exact ⟨g, t, rest, hg, .simple ht, hspells⟩
  | .aliased h => by
      intro ts more hts
      obtain ⟨c, ts₁, ⟨g, text, hg, rfl⟩, halias, hts₁⟩ := exists_terminal_of_kinds hts
      obtain ⟨colons, ts₂, hcolons, hpoints, hts₂⟩ := exists_terminal_of_kinds hts₁
      obtain ⟨g', t, rest, hg', ht, hspells, hrest⟩ := stands_simple h ts₂ more hts₂
      refine ⟨g, _, rest, hg, @NameTree.aliased text _ _ _ hcolons hg' ht, ?_, hrest⟩
      obtain ⟨ts₀, hgap, hident⟩ := spells_append.mp halias
      refine spells_append.mpr ⟨ts₀, hgap, spells_node.mpr (spells_cons.mpr ⟨ts₁, ?_, ?_⟩)⟩
      · exact spells_node.mpr hident
      · exact spells_append.mpr ⟨ts₂, hpoints, hspells⟩
  | .qualified hleft h => by
      intro ts more hts
      rw [List.append_assoc] at hts
      obtain ⟨g, left, ts₁, hg, hl, hname, hts₁⟩ := stands_name hleft ts _ hts
      obtain ⟨dot, ts₂, hdot, hpoint, hts₂⟩ := exists_terminal_of_kinds hts₁
      obtain ⟨g', t, rest, hg', ht, hspells, hrest⟩ := stands_simple h ts₂ more hts₂
      refine ⟨g, _, rest, hg, .qualified hl hdot hg' ht, ?_, hrest⟩
      obtain ⟨ts₀, hgap, htree⟩ := spells_append.mp hname
      refine spells_append.mpr ⟨ts₀, hgap, spells_node.mpr (spells_cons.mpr ⟨ts₁, htree, ?_⟩)⟩
      exact spells_append.mpr ⟨ts₂, hpoint, hspells⟩

theorem stands_simple {ks : List Kind} (h : WrittenSimple ks) : Stands SimpleTree ks :=
  match h with
  | .identifier => by
      intro ts more hts
      obtain ⟨c, rest, ⟨g, text, hg, rfl⟩, hspells, hrest⟩ := exists_terminal_of_kinds hts
      exact ⟨g, .node .identifierName [.token _ text], rest, hg, .identifier,
        spells_opened.mpr (by simpa using hspells), hrest⟩
  | .generic h => by
      intro ts more hts
      rw [List.cons_append, List.cons_append, List.append_assoc] at hts
      obtain ⟨c, ts₁, ⟨g, text, hg, rfl⟩, hident, hts₁⟩ := exists_terminal_of_kinds hts
      obtain ⟨c, ts₂, ⟨g', less, hg', rfl⟩, hopen, hts₂⟩ := exists_terminal_of_kinds hts₁
      obtain ⟨slots, ts₃, hslots, hinside, hts₃⟩ := stands_slots h hts₂
      obtain ⟨close, rest, hclose, hend, hrest⟩ := exists_terminal_of_kinds hts₃
      refine ⟨g, _, rest, hg, @SimpleTree.generic text less _ _ _ hg' hslots hclose, ?_, hrest⟩
      refine spells_opened.mpr (spells_append.mpr ⟨ts₁, hident, spells_opened.mpr ?_⟩)
      exact spells_append.mpr ⟨ts₂, hopen, spells_append.mpr ⟨ts₃, hinside, hend⟩⟩

theorem stands_slots {ks : List Kind} (h : WrittenSlots ks) {ts : List Token} {more : List Kind}
    (hts : kinds ts = ks ++ more) : ∃ f rest, Slots f ∧ Spells f ts rest ∧ kinds rest = more :=
  match h with
  | .single .empty => ⟨[], ts, .nil, spells_nil.mpr rfl, hts⟩
  | .single (.type h) => by
      obtain ⟨g, t, rest, hg, ht, hspells, hrest⟩ := stands_type h ts more hts
      exact ⟨_, rest, .last hg ht, hspells, hrest⟩
  | .cons .empty hmore => by
      obtain ⟨c, mid, hc, hcomma, hmid⟩ := exists_terminal_of_kinds hts
      obtain ⟨f, rest, hf, hspells, hrest⟩ := stands_slots hmore hmid
      exact ⟨c ++ f, rest, .comma hc hf, spells_append.mpr ⟨mid, hcomma, hspells⟩, hrest⟩
  | .cons (.type h) hmore => by
      rw [List.append_assoc] at hts
      obtain ⟨g, t, ts₁, hg, ht, htype, hts₁⟩ := stands_type h ts _ hts
      obtain ⟨c, ts₂, hc, hcomma, hts₂⟩ := exists_terminal_of_kinds hts₁
      obtain ⟨f, rest, hf, hspells, hrest⟩ := stands_slots hmore hts₂
      refine ⟨_, rest, .item hg ht hc hf, ?_, hrest⟩
      rw [← List.singleton_append, ← List.append_assoc]
      exact spells_append.mpr ⟨ts₁, htype, spells_append.mpr ⟨ts₂, hcomma, hspells⟩⟩

end

end Lookahead

/-! ## Texts -/

theorem findSome?_node?_of_gap {g : Forest} (hg : IsGap g) : g.findSome? Tree.node? = none := by
  refine List.findSome?_eq_none_iff.mpr fun t ht => ?_
  obtain ⟨k, text, rfl, -⟩ := hg t ht
  rfl

/-- A text with a word of the grammar is read as a type, whatever trivia stands in it. -/
theorem exists_parseType_of_written {text : String}
    (h : WrittenType (Lookahead.kinds (Token.contents text))) :
    ∃ node, parseType text = .ok node := by
  obtain ⟨last, hlex, hlast, -⟩ := Token.lex_eq_contents text
  have hkinds : Lookahead.kinds (openFile text).rest =
      Lookahead.kinds (Token.contents text) ++ [.eof] := by
    show Lookahead.kinds (Token.lex text) = _
    rw [hlex, Lookahead.kinds_append]
    simp [Lookahead.kinds, hlast, Kind.isTrivia]
  obtain ⟨g, t, rest, hg, ht, hspells, hrest⟩ := Lookahead.stands_type h _ _ hkinds
  have hend : Lookahead.kind rest = .eof := by
    obtain ⟨c, more, hc, hspells, -⟩ := Lookahead.exists_terminal_of_kinds hrest
    exact hc.kind rfl hspells
  obtain ⟨hnode, -⟩ := ht.isType
  cases t with
  | token => cases hnode
  | node k cs =>
      refine ⟨⟨k, cs⟩, parseFragment_of_run hend ?_ (Grammar.run_type ht (sound_openFile text) hg hspells
        (by rw [Grammar.EndsType, hend]; decide))⟩
      rw [List.findSome?_append, findSome?_node?_of_gap hg]
      rfl

/-- **The type parser accepts its grammar.** A text is read as a type if and only if the kinds
of its tokens, without trivia and the end, are a word of the grammar of types. -/
theorem parseType_ok_iff_written (text : String) :
    (∃ node, parseType text = .ok node) ↔ WrittenType (Lookahead.kinds (Token.contents text)) := by
  constructor
  · rintro ⟨node, h⟩
    obtain ⟨ht, rest, hleaves⟩ := typeTree_of_parseType h
    rw [Lookahead.kinds_eq_leafKinds hleaves, leafKinds_append, leafKinds_append,
      leafKinds_gap (Lookahead.isGap_triviaAhead _), leafKinds_gap (Lookahead.isGap_triviaAhead _),
      List.nil_append, List.append_nil]
    exact ht.written
  · exact exists_parseType_of_written

end CSharpKit.Syntax
