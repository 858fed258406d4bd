import CSharpKit.Workspace.Project
import Mathlib.Data.List.Basic

/-!
# Reading by evaluation

What holds of one source text can be checked by reading it, and nearly all of that is to take
texts apart, to look characters up among the alphabetic ones and words among the keywords. Here
texts are lists of bytes, and characters of ASCII are told at once. The documents that are read
so are the same, so a project can be evaluated as its quick form.
-/

namespace CSharpKit

open Syntax Text

/-! ## Characters of ASCII -/

namespace Text

/-- Ranges that start too high do not count. -/
theorem CharRanges.contains_append_of_lt {front back : CharRanges} {bound : Nat} {c : Char}
    (hback : (back.all fun range => bound ≤ range.1) = true) (hc : c.toNat < bound) :
    CharRanges.contains (front ++ back) c = CharRanges.contains front c := by
  have hnone : CharRanges.contains back c = false := by
    rw [CharRanges.contains, List.any_eq_false]
    intro range hrange
    have hlow := List.all_eq_true.mp hback range hrange
    simp only [decide_eq_true_eq] at hlow
    simp only [Bool.and_eq_true, decide_eq_true_eq, not_and, Nat.not_le]
    intro hle
    omega
  rw [CharRanges.contains, List.any_append, ← CharRanges.contains, ← CharRanges.contains, hnone,
    Bool.or_false]

/-- A letter of ASCII. -/
def isLetter (c : Char) : Bool := CharRanges.contains [(0x41, 0x5A), (0x61, 0x7A)] c

theorem isAlphabetic_of_lt {c : Char} (hc : c.toNat < 128) : isAlphabetic c = isLetter c := by
  have hback : ((alphabeticRanges.drop 2).all fun range => 128 ≤ range.1) = true := by
    decide +kernel
  exact @CharRanges.contains_append_of_lt [(0x41, 0x5A), (0x61, 0x7A)] _ 128 c hback hc

theorem isNumeric_of_lt {c : Char} (hc : c.toNat < 128) :
    isNumeric c = CharRanges.contains [(0x30, 0x39)] c := by
  have hback : ((numericRanges.drop 1).all fun range => 128 ≤ range.1) = true := by decide +kernel
  exact @CharRanges.contains_append_of_lt [(0x30, 0x39)] _ 128 c hback hc

/-! ## Bytes of a text -/

def bytesOf (text : String) : List UInt8 := text.toByteArray.data.toList

theorem bytesOf_ofList (cs : List Char) :
    bytesOf (String.ofList cs) = cs.flatMap String.utf8EncodeChar := by
  rw [bytesOf, String.toByteArray_ofList, List.utf8Encode, List.toList_data_toByteArray]

theorem bytesOf_inj {a b : String} : bytesOf a = bytesOf b ↔ a = b := by
  rw [← String.toByteArray_inj, ByteArray.ext_iff, ← Array.toList_inj]
  rfl

theorem map_utf8EncodeChar {c : Char} (h : ∀ b ∈ String.utf8EncodeChar c, b.toNat < 128) :
    (String.utf8EncodeChar c).map (fun b => Char.ofNat b.toNat) = [c] := by
  unfold String.utf8EncodeChar at h ⊢
  dsimp only at h ⊢
  split
  · next hle =>
    have hsmall : c.toNat % 256 = c.toNat :=
      Nat.mod_eq_of_lt (Nat.lt_of_le_of_lt hle (by decide))
    simp [hsmall]
  · -- The first of several bytes is not below 192.
    next hlarge =>
    rw [if_neg hlarge] at h
    split at h
    · have := h _ List.mem_cons_self
      simp at this
      omega
    · split at h
      all_goals
        have := h _ List.mem_cons_self
        simp at this
        omega

/-- The characters of a text, each from its byte if they are all of ASCII. -/
def quickChars (text : String) : List Char :=
  if (bytesOf text).all (·.toNat < 128) then (bytesOf text).map fun b => Char.ofNat b.toNat
  else text.toList

theorem quickChars_eq (text : String) : quickChars text = text.toList := by
  unfold quickChars
  split
  · next h =>
    have hchars : ∀ cs : List Char, (∀ b ∈ cs.flatMap String.utf8EncodeChar, b.toNat < 128) →
        (cs.flatMap String.utf8EncodeChar).map (fun b => Char.ofNat b.toNat) = cs := by
      intro cs hsmall
      induction cs with
      | nil => rfl
      | cons c cs ih =>
          rw [List.flatMap_cons, List.forall_mem_append] at hsmall
          rw [List.flatMap_cons, List.map_append, map_utf8EncodeChar hsmall.1, ih hsmall.2,
            List.singleton_append]
    rw [List.all_eq_true, ← String.ofList_toList (s := text), bytesOf_ofList] at h
    rw [← String.ofList_toList (s := text), bytesOf_ofList,
      hchars _ fun b hb => of_decide_eq_true (h b hb), String.toList_ofList]
  · rfl

end Text

/-! ## Tokens -/

namespace Syntax

namespace Token

def quickOpens (c : Char) : Bool :=
  if c.toNat < 128 then c == '_' || isLetter c else opensIdentifier c

def quickContinues (c : Char) : Bool :=
  if c.toNat < 128 then c == '_' || (isLetter c || CharRanges.contains [(0x30, 0x39)] c)
  else continuesIdentifier c

theorem quickOpens_eq (c : Char) : quickOpens c = opensIdentifier c := by
  unfold quickOpens
  split
  · next hc => rw [opensIdentifier, isAlphabetic_of_lt hc]
  · rfl

theorem quickContinues_eq : quickContinues = continuesIdentifier := by
  funext c
  unfold quickContinues
  split
  · next hc => rw [continuesIdentifier, isAlphanumeric, isAlphabetic_of_lt hc, isNumeric_of_lt hc]
  · rfl

/-- The keywords as rows of bytes. -/
def keywordRows : List (List UInt8 × Kind) :=
  Kind.keywords.map fun entry => (bytesOf entry.1, entry.2)

theorem lookup_keywordRows (cs : List Char) :
    keywordRows.lookup (cs.flatMap String.utf8EncodeChar) =
      Kind.ofKeyword? (String.ofList cs) := by
  have hrows : ∀ entries : List (String × Kind),
      (entries.map fun entry => (bytesOf entry.1, entry.2)).lookup (bytesOf (String.ofList cs)) =
        entries.lookup (String.ofList cs) := by
    intro entries
    induction entries with
    | nil => rfl
    | cons entry entries ih =>
        have hsame : (bytesOf (String.ofList cs) == bytesOf entry.1) =
            (String.ofList cs == entry.1) := by
          rw [Bool.eq_iff_iff, beq_iff_eq, beq_iff_eq, bytesOf_inj]
        rw [List.map_cons, List.lookup_cons, List.lookup_cons, hsame, ih]
  rw [← bytesOf_ofList]
  exact hrows Kind.keywords

/-- What `scan` finds, with the words and the marks told apart first. -/
def quickScan (lineStart : Bool) (c : Char) (rest : List Char) : Extent :=
  if isBlank c || c.isDigit || ['#', '/', '@', '$', '.', '\x22', '\x27'].contains c then
    scan lineStart c rest
  else if quickOpens c then
    let n := runLength quickContinues rest
    ((keywordRows.lookup ((c :: rest.take n).flatMap String.utf8EncodeChar)).getD .identifier, n)
  else scanOperator (c :: rest)

theorem quickScan_eq (lineStart : Bool) (c : Char) (rest : List Char) :
    quickScan lineStart c rest = scan lineStart c rest := by
  unfold quickScan
  split
  · rfl
  · next hother =>
    simp only [Bool.or_eq_true, not_or, Bool.not_eq_true, List.contains_iff_mem, List.mem_cons,
      List.not_mem_nil, or_false] at hother
    obtain ⟨⟨hblank, hdigit⟩, hhash, hslash, hat, hdollar, hpoint, hquote, hapostrophe⟩ := hother
    rw [quickOpens_eq, quickContinues_eq]
    simp only [lookup_keywordRows]
    simp [scan, hblank, hdigit, hhash, hslash, hat, hdollar, hpoint, hquote, hapostrophe]

/-- The tokens of a text that starts at a position. -/
def quickLexFrom (lineStart : Bool) (start : Nat) : List Char → List Token
  | [] => [⟨.eof, "", start⟩]
  | c :: rest =>
    let (kind, n) := quickScan lineStart c rest
    let chars := c :: rest.take n
    let token : Token := ⟨kind, String.ofList chars, start⟩
    token :: quickLexFrom (lineStartAfter lineStart kind chars) token.span.stop (rest.drop n)
termination_by cs => cs.length
decreasing_by simp only [List.length_cons, List.length_drop]; omega

theorem quickLexFrom_eq (lineStart : Bool) (start : Nat) (cs : List Char) :
    quickLexFrom lineStart start cs = lexFrom lineStart start cs := by
  fun_induction lexFrom lineStart start cs with
  | case1 => rw [quickLexFrom]
  | case2 lineStart start c rest kind n hscan chars token ih =>
      rw [quickLexFrom, quickScan_eq, hscan]
      exact congrArg _ ih

end Token

/-! ## Documents -/

/-- The characters of a tree, from its tokens. -/
def Tree.quickChars (t : Tree) : List Char := t.leaves.flatMap fun leaf => Text.quickChars leaf.2

theorem Tree.quickChars_eq (t : Tree) : t.quickChars = t.text.toList := by
  simp only [quickChars, Text.quickChars_eq, Tree.text, String.toList_join, List.flatMap_map]

/-- The tree of a file, from its tokens as they are found quickly. -/
def quickParse (cs : List Char) : Parsed :=
  let tokens := Token.quickLexFrom true 0 cs
  let body := Grammar.within (nestingBound tokens) (.namespaceBody false)
  ((wholeFile body).run ⟨tokens, .empty, [], []⟩).2.parsed

theorem quickParse_eq {cs : List Char} {text : String} (h : cs = text.toList) :
    quickParse cs = parse text := by
  rw [quickParse, Token.quickLexFrom_eq, h]
  rfl

end Syntax

namespace Workspace

/-- A document that is read again, from its characters, when it is evaluated. -/
def Document.reread (doc : Document) (cs : List Char) (h : cs = doc.text.toList) : Document :=
  { doc with
    parsed := quickParse cs
    parsed_eq := quickParse_eq h }

theorem Document.reread_eq (doc : Document) (cs : List Char) (h : cs = doc.text.toList) :
    doc.reread cs h = doc := by
  obtain ⟨id, name, text, parsed, lines, version, rfl, rfl⟩ := doc
  simp only [Document.reread, quickParse_eq h]

def Document.quick (doc : Document) : Document :=
  doc.reread (quickChars doc.text) (quickChars_eq _)

theorem Document.quick_eq (doc : Document) : doc.quick = doc := doc.reread_eq _ _

/-- A document with the text of a tree. -/
def Document.quickWithTree (doc : Document) (t : Tree) : Document :=
  (doc.withText t.text).reread t.quickChars t.quickChars_eq

theorem Document.quickWithTree_eq (doc : Document) (t : Tree) :
    doc.quickWithTree t = doc.withText t.text := reread_eq _ _ _

theorem Document.map_quick (docs : List Document) : docs.map Document.quick = docs :=
  (List.map_congr_left fun doc _ => doc.quick_eq).trans (List.map_id docs)

/-- A project with its documents in their quick form. -/
def Project.quick (project : Project) : Project where
  documents := project.documents.map Document.quick
  nextId := project.nextId
  ids_sorted := by
    rw [Document.map_quick]
    exact project.ids_sorted
  ids_below := by
    rw [Document.map_quick]
    exact project.ids_below

theorem Project.quick_eq (project : Project) : project.quick = project := by
  obtain ⟨documents, nextId, hsorted, hbelow⟩ := project
  simp only [Project.quick, Document.map_quick]

end Workspace

end CSharpKit
