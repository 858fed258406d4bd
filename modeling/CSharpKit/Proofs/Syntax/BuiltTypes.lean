import CSharpKit.Proofs.Syntax.CleanTypes
import CSharpKit.Proofs.Syntax.Relexing
import CSharpKit.Proofs.Syntax.Writing

/-!
# Types in another place

A type that was read from a text, with comments and blanks inside it, may be put to another
place. Its leaves are found wherever a character follows that its last token ends before, so
such a type is read back from its own text, and with others as an argument of a generic name.
-/

namespace CSharpKit.Syntax

open Tree Token
open CSharpKit.Syntax.Parser

/-! ## The last token -/

/-- The last leaf of trees is a token of a kind. -/
def ClosesWith (k : Kind) (f : Forest) : Prop := ∃ front text, forestLeaves f = front ++ [(k, text)]

namespace ClosesWith

variable {k : Kind} {f : Forest}

theorem token (k : Kind) (text : String) : ClosesWith k [.token k text] := ⟨[], text, rfl⟩

theorem append (h : ClosesWith k f) (front : Forest) : ClosesWith k (front ++ f) := by
  obtain ⟨leaves, text, h⟩ := h
  exact ⟨forestLeaves front ++ leaves, text, by rw [forestLeaves_append, h, List.append_assoc]⟩

theorem cons (h : ClosesWith k f) (t : Tree) : ClosesWith k (t :: f) := h.append [t]

theorem node (h : ClosesWith k f) (kind : Kind) : ClosesWith k [.node kind f] := by
  obtain ⟨front, text, h⟩ := h
  exact ⟨front, text, by simp [forestLeaves, leaves, h]⟩

theorem terminal (h : Terminal k f) : ClosesWith k f := by
  obtain ⟨g, text, -, rfl⟩ := h
  exact (token k text).append g

end ClosesWith

theorem Ranks.closes {f : Forest} (h : Ranks f) (hne : f ≠ []) : ClosesWith .rBracket f := by
  induction h with
  | nil => exact absurd rfl hne
  | @cons g cs close f text _ _ hclose _ ih =>
      cases f with
      | nil => exact (((ClosesWith.terminal hclose).append cs).cons _ |>.node _).append g
      | cons t f => exact ((ih (List.cons_ne_nil t f)).cons _).append g

theorem isWordKind_of_opensType {k : Kind} (h : opensType k = true) :
    k = .identifier ∨ k.isKeyword = true := by
  simp only [opensType, Bool.or_eq_true, beq_iff_eq] at h
  rcases h with (rfl | hk) | rfl
  · exact .inl rfl
  · exact .inr (isKeyword_of_isPredefinedType hk)
  · exact .inr rfl

/-- The kinds of tokens that a name ends with. -/
def closesName (k : Kind) : Prop := k = .identifier ∨ k = .greater

theorem SimpleTree.closes {t : Tree} (h : SimpleTree t) : ∃ k, closesName k ∧ ClosesWith k [t] := by
  cases h with
  | @identifier text => exact ⟨_, .inl rfl, (ClosesWith.token _ text).node _⟩
  | @generic text less g slots close hg hslots hclose =>
      have hlist := ((ClosesWith.terminal hclose).append (.token .less less :: slots)).node .typeArgumentList
      exact ⟨_, .inr rfl, (hlist.append (.token .identifier text :: g)).node .genericName⟩

theorem NameTree.closes {t : Tree} (h : NameTree t) : ∃ k, closesName k ∧ ClosesWith k [t] := by
  cases h with
  | simple h => exact h.closes
  | aliased _ _ h =>
      exact h.closes.imp fun _ h => ⟨h.1, (((h.2.append _).append _).cons _).node _⟩
  | qualified _ _ _ h =>
      exact h.closes.imp fun _ h => ⟨h.1, (((h.2.append _).append _).cons _).node _⟩

/-- Behind a type a blank, a comma or a closing bracket stands apart. -/
theorem TypeTree.closes {t : Tree} (h : TypeTree t) : ∃ k, ClosesWith k [t] ∧ IsPieceKind k ∧
    ∀ d ∈ [' ', ',', '>'], endsBefore k d = true := by
  have hpieces : ∀ k ∈ [Kind.identifier, .greater, .question, .rBracket], IsPieceKind k ∧
      ([' ', ',', '>'].all (endsBefore k)) = true := by
    unfold IsPieceKind
    decide +kernel
  have hends : ∀ k ∈ [Kind.identifier, .greater, .question, .rBracket], IsPieceKind k ∧
      ∀ d ∈ [' ', ',', '>'], endsBefore k d = true :=
    fun k hk => (hpieces k hk).imp_right List.all_eq_true.mp
  cases h with
  | @keyword k text hk =>
      have hkeyword := isWordKind_of_opensType (k := k) (by rcases hk with hk | hk <;> simp [opensType, hk])
      refine ⟨k, (ClosesWith.token k text).node _, .inl hkeyword, fun d hd => ?_⟩
      rw [endsBefore_word hkeyword, ← endsBefore_word (.inl rfl)]
      exact (hends .identifier (by decide)).2 d hd
  | name h =>
      obtain ⟨k, hk, hcloses⟩ := h.closes
      exact ⟨k, hcloses, hends k (by rcases hk with rfl | rfl <;> decide)⟩
  | nullable _ hq => exact ⟨_, ((ClosesWith.terminal hq).cons _).node _, hends _ (by decide)⟩
  | array _ _ hranks hne => exact ⟨_, ((hranks.closes hne).cons _).node _, hends _ (by decide)⟩

/-! ## Rows that are found anywhere -/

/-- The tokens of a row are found in front of a text, at any place of a line. -/
def Found (ls : List (Kind × String)) (rest : List Char) : Prop :=
  ∀ lineStart, Scans lineStart ls rest

namespace Found

variable {ls ms : List (Kind × String)} {k : Kind} {text : String} {rest : List Char}

theorem nil (rest : List Char) : Found [] rest := fun _ => trivial

theorem cons (h : CutsOff k text (chars ls ++ rest)) (hmore : Found ls rest) :
    Found ((k, text) :: ls) rest := fun lineStart => ⟨h lineStart, hmore _⟩

theorem append (h : Found ls (chars ms ++ rest)) (hmore : Found ms rest) : Found (ls ++ ms) rest :=
  fun lineStart => scans_append.mpr ⟨h lineStart, hmore _⟩

/-- A row is read back from its text. -/
theorem map_leaf_contents (h : Found ls []) {text : String} (htext : text = String.join (ls.map (·.2))) :
    (contents text).map Token.leaf = ls := Token.map_leaf_contents (h true) htext

end Found

/-- Parentheses and the semicolon end before any character. -/
theorem cutsOff_delimiter {c : Char} {k : Kind}
    (h : (c, k) ∈ [('(', Kind.lParen), (')', .rParen), (';', .semicolon)]) (rest : List Char) :
    CutsOff k (String.ofList [c]) rest := by
  have halone : ∀ entry ∈ [('(', Kind.lParen), (')', .rParen), (';', .semicolon)],
      ([entry.1], entry.2) ∈ operators ∧ entry.2 ≠ .questionDot ∧ entry.1 ∈ ['(', ')', ';'] ∧
        ∀ longer ∈ operators, [entry.1] <+: longer.1 → longer.1 = [entry.1] := by decide
  have hmarks : (['(', ')', ';'].all fun c => c != '/' && c != '.') = true := by decide
  obtain ⟨hmem, hkind, hc, hlonger⟩ := halone _ h
  have hplain : c ≠ '/' ∧ c ≠ '.' := by simpa using List.all_eq_true.mp hmarks c hc
  intro lineStart
  refine ⟨c, [], rfl, ?_⟩
  rw [List.nil_append, scan_mark (List.mem_append_right ['<', '>', ',', '.', '?', '[', ']', ':', '*',
    '/', '%', '+', '-', '=', '!', '&', '^', '|'] hc) lineStart (fun heq => absurd heq hplain.1)
    fun heq => absurd heq hplain.2]
  exact scanOperator_of_mem hmem hkind fun entry hentry hprefix hne =>
    absurd (hlonger entry hentry hprefix) hne

/-! ## Types that were read -/

/-- The leaves of a tree begin with a word and are found in front of these characters. -/
structure Stands (closers : List Char) (t : Tree) : Prop where
  found : ∀ rest, (∀ d ∈ rest.head?, d ∈ closers) → Found t.leaves rest
  opens : ∃ k text more, t.leaves = (k, text) :: more ∧ IsWord text k

/-- Whatever was read as a type is made of tokens of types. -/
theorem isTypeToken_contents {text : String} {node : Node} (h : parseType text = .ok node) :
    ∀ l ∈ (contents text).map Token.leaf, isTypeToken l.1 = true := by
  obtain ⟨new, hext, ⟨-, hleaves, -⟩, hnew⟩ := (parseType_eq_ok h).and
    (Grammar.reads_type _ (sound_openFile text) trivial)
  intro l hl
  rw [← hleaves] at hl
  obtain ⟨t, ht, hl⟩ := mem_forestLeaves.mp hl
  have htype : IsTypeSyntax t := (hnew.append (OfTrivia.ahead _)) t ht
  exact htype.leaves l hl

theorem stands_of_parseType {text : String} {node : Node} (h : parseType text = .ok node) :
    TypeTree node.tree ∧ Stands [' ', ',', '>'] node.tree := by
  obtain ⟨ht, rest, hleaves⟩ := typeTree_of_parseType h
  have hkinds := isTypeToken_contents h
  obtain ⟨last, hlex, -⟩ := lex_eq_contents text
  have hscans := (scans_of_lexFrom true 0 text.toList _ hlex fun t htoken =>
    hkinds t.leaf (List.mem_map_of_mem htoken)).1
  rw [hleaves] at hscans hkinds
  simp only [forestLeaves_append, forestLeaves, List.append_nil, List.append_assoc,
    List.forall_mem_append] at hscans hkinds
  have hrow := (scans_append.mp (scans_append.mp hscans).2).1
  obtain ⟨k, hk, first, more, hfirst⟩ := ht.opens
  obtain ⟨last, ⟨front, text, hlast⟩, hpiece, hends⟩ := ht.closes
  have hword := isWordKind_of_opensType hk
  refine ⟨ht, fun rest hrest lineStart => hrow.moved hkinds.2.1 (.inr fun l hl => ?_) fun l hl => ?_,
    k, first, more, hfirst, ?_⟩
  · rw [hfirst] at hl
    obtain rfl := Option.some.inj hl
    exact .inl hword
  · simp only [forestLeaves, List.append_nil] at hlast
    rw [hlast, List.getLast?_concat] at hl
    obtain rfl := Option.some.inj hl
    exact ⟨hpiece, fun d hd => hends d (hrest d hd)⟩
  · rw [hfirst] at hrow
    obtain ⟨⟨c, cs, htext, hscan⟩, -⟩ := hrow
    obtain rfl : first = String.ofList (c :: cs) := htext
    exact (isWord_of_scan hword hscan).1

/-- What was read as a type is read back from its own text. -/
theorem parseType_of_stands {closers : List Char} {node : Node} (ht : TypeTree node.tree)
    (h : Stands closers node.tree) : parseType node.tree.text = .ok node :=
  parseType_of_typeTree ht ((h.found [] nofun).map_leaf_contents rfl)

/-! ## Rows with commas -/

namespace Stands

variable {closers : List Char} {t : Tree} {ts : Forest}

/-- No mark joins the first character of such a tree. -/
theorem endsBefore (h : Stands closers t) {rest : List Char} {d : Char}
    (hd : d ∈ (chars t.leaves ++ rest).head?) : endsBefore .whitespace d = true ∧
      ∀ mark ∈ marks, Token.endsBefore mark.2 d = true := by
  obtain ⟨k, text, more, hleaves, hword⟩ := h.opens
  rw [hleaves, chars_cons, List.append_assoc,
    List.head?_append_of_ne_nil _ (IsPiece.word hword).ne_empty] at hd
  exact hword.endsBefore hd

theorem head_commaSeparated (t : Tree) (ts : Forest) :
    ∃ more, forestLeaves (Build.commaSeparated (t :: ts)) = t.leaves ++ more := by
  cases ts with
  | nil => exact ⟨[], rfl⟩
  | cons u us => exact ⟨_, rfl⟩

/-- Trees with commas between them are found where a character follows that each of them
ends before. -/
theorem found_commaSeparated (h : ∀ t ∈ ts, Stands closers t) (hcomma : ',' ∈ closers)
    {close : Char} (hclose : close ∈ closers) (more : List Char) :
    Found (forestLeaves (Build.commaSeparated ts)) (close :: more) := by
  have hpiece : IsPiece .comma "," := .mark (by decide)
  induction ts with
  | nil => exact .nil _
  | cons t ts ih =>
      have ht := h t List.mem_cons_self
      cases ts with
      | nil =>
          simp only [Build.commaSeparated, forestLeaves, List.append_nil]
          exact ht.found _ fun d hd => Option.some.inj hd ▸ hclose
      | cons u us =>
          have hmore := ih fun v hv => h v (List.mem_cons_of_mem _ hv)
          have hu := h u (List.mem_cons_of_mem _ List.mem_cons_self)
          have hspace : CutsOff .whitespace " "
              (chars (forestLeaves (Build.commaSeparated (u :: us))) ++ close :: more) := by
            obtain ⟨leaves, hleaves⟩ := head_commaSeparated u us
            refine IsPiece.space.cutsOff fun d hd => ?_
            rw [hleaves, chars_append, List.append_assoc] at hd
            exact (hu.endsBefore hd).1
          simp only [Build.commaSeparated, Build.space, forestLeaves, leaves, List.cons_append,
            List.nil_append]
          refine .append (ht.found _ fun d hd => Option.some.inj hd ▸ hcomma) ?_
          exact .cons (hpiece.cutsOff fun d _ => rfl) (.cons hspace hmore)

end Stands

/-! ## Generic names -/

theorem typeTree_genericName (name : String) {arguments : Forest} (h : ∀ a ∈ arguments, TypeTree a) :
    TypeTree (Build.genericName name arguments).tree := by
  have hslots : Slots (Build.commaSeparated arguments) := by
    by_cases hne : arguments = []
    · rw [hne]
      exact .nil
    · exact slots_commaSeparated h isGap_nil hne
  exact .name (.simple (.generic isGap_nil hslots (terminal_token .greater ">")))

theorem found_genericName {name : String} (hname : IsName name) {arguments : Forest}
    (h : ∀ a ∈ arguments, Stands [' ', ',', '>'] a) :
    Found (Build.genericName name arguments).tree.leaves [] := by
  have hless : IsPiece .less "<" := .mark (by decide)
  have hgreater : IsPiece .greater ">" := .mark (by decide)
  rw [leaves_genericName]
  refine .cons ((IsPiece.word hname.isWord).cutsOff fun d hd => ?_) (.cons (hless.cutsOff fun d hd => ?_)
    (.append (Stands.found_commaSeparated h (by decide) (by decide) []) (.cons (hgreater.cutsOff nofun)
      (.nil []))))
  · obtain rfl : '<' = d := Option.some.inj hd
    decide +kernel
  · cases arguments with
    | nil =>
        obtain rfl : '>' = d := Option.some.inj hd
        decide
    | cons a arguments =>
        obtain ⟨leaves, hleaves⟩ := Stands.head_commaSeparated a arguments
        rw [hleaves, List.append_assoc, chars_append, List.append_assoc] at hd
        exact ((h a List.mem_cons_self).endsBefore hd).2 _ List.mem_cons_self

/-- A generic name is read back, whatever texts its type arguments were read from. -/
theorem parseType_genericName {name : String} (hname : IsName name) {arguments : List Node}
    (h : ∀ a ∈ arguments, ∃ text, parseType text = .ok a) :
    parseType (Build.genericName name (arguments.map Node.tree)).tree.text =
      .ok (Build.genericName name (arguments.map Node.tree)) := by
  have hstands : ∀ a ∈ arguments.map Node.tree, TypeTree a ∧ Stands [' ', ',', '>'] a := by
    rintro _ hmem
    obtain ⟨node, hnode, rfl⟩ := List.mem_map.mp hmem
    obtain ⟨text, hread⟩ := h node hnode
    exact stands_of_parseType hread
  exact parseType_of_typeTree (typeTree_genericName name fun a ha => (hstands a ha).1)
    ((found_genericName hname fun a ha => (hstands a ha).2).map_leaf_contents rfl)

end CSharpKit.Syntax
