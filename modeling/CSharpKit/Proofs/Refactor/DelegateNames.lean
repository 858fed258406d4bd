import CSharpKit.Proofs.Syntax.Words
import CSharpKit.Refactor.DelegateShape

/-!
# Names of delegates

A delegate is called by the name of its parameter with the first letter in upper case. The
upper case of a letter opens with a letter that no keyword opens with, so what can go wrong is
behind it: some letters have no capital of their own and are spelled with combining marks,
which stand in no identifier.
-/

namespace CSharpKit

open Text

/-! ## Upper case of letters -/

namespace Text

/-- One range of a class holds the code points from `lo` to `hi`. -/
def CharRanges.covers (ranges : CharRanges) (lo hi : Nat) : Bool :=
  ranges.any fun x => x.1.ble lo && hi.ble x.2

/-- The combining marks in upper-case spellings. -/
def combiningMarks : List Nat := [0x300, 0x301, 0x308, 0x30A, 0x30C, 0x313, 0x331, 0x342]

/-- The letters whose upper case is spelled with combining marks. -/
def markedLetters : List Nat := [
    0x1F0, 0x390, 0x3B0, 0x1E96, 0x1E97, 0x1E98, 0x1E99, 0x1F50, 0x1F52, 0x1F54, 0x1F56, 0x1FB6,
    0x1FB7, 0x1FC6, 0x1FC7, 0x1FD2, 0x1FD3, 0x1FD6, 0x1FD7, 0x1FE2, 0x1FE3, 0x1FE4, 0x1FE6,
    0x1FE7, 0x1FF6, 0x1FF7]

/-- A small letter of ASCII. -/
def isSmall (c : Char) : Bool := 0x61 ≤ c.toNat && c.toNat ≤ 0x7A

/-- A letter that is no small letter of ASCII. -/
structure IsCapital (c : Char) : Prop where
  alphabetic : isAlphabetic c = true
  not_small : isSmall c = false

theorem IsCapital.ofNat {lo hi n : Nat} (hcovers : alphabeticRanges.covers lo hi = true)
    (hlower : hi < 0x61 ∨ 0x7A < lo) (hlo : lo ≤ n) (hhi : n ≤ hi) : IsCapital (Char.ofNat n) := by
  have hvalid : ∀ x ∈ alphabeticRanges, x.2 < 0xD800 ∨ 0xDFFF < x.1 ∧ x.2 < 0x110000 := by
    decide +kernel
  obtain ⟨x, hx, hwithin⟩ := List.any_eq_true.mp hcovers
  simp only [Bool.and_eq_true, Nat.ble_eq] at hwithin
  have hscalar : n.isValidChar := by
    have hrange := hvalid x hx
    unfold Nat.isValidChar
    omega
  have hnat : (Char.ofNat n).toNat = n := by
    rw [Char.ofNat, dif_pos hscalar]
    rfl
  refine ⟨CharRanges.contains_iff.mpr ⟨x, hx, by omega, by omega⟩, ?_⟩
  refine Bool.eq_false_iff.mpr fun hsmall => ?_
  simp only [isSmall, Bool.and_eq_true, decide_eq_true_eq] at hsmall
  omega

/-- What the first letter of a name becomes: itself, or a capital with marks behind some. -/
inductive Capitalised (c : Char) : List Char → Prop
  | same (h : c.toNat ∉ markedLetters) : Capitalised c [c]
  | capital {first : Char} {more : List Char} (hfirst : IsCapital first)
      (hmore : (∀ d ∈ more, Syntax.Token.continuesIdentifier d = true) ↔
        c.toNat ∉ markedLetters) : Capitalised c (first :: more)

/-- A spelling of several characters: a capital, and marks behind it for the marked letters
only. -/
def isSpelling (entry : Nat × List Nat) : Bool :=
  match entry.2 with
  | [] => false
  | first :: more =>
    alphabeticRanges.covers first first && (first < 0x61 || 0x7A < first) &&
      if markedLetters.contains entry.1 then more.any combiningMarks.contains
      else more.all fun n => alphabeticRanges.covers n n && (n < 0x61 || 0x7A < n)

theorem Capitalised.of_spelling {c : Char} {expansion : List Nat}
    (h : isSpelling (c.toNat, expansion) = true) : Capitalised c (expansion.map Char.ofNat) := by
  have hmarks : ∀ n ∈ combiningMarks,
      Syntax.Token.continuesIdentifier (Char.ofNat n) = false := by decide +kernel
  cases expansion with
  | nil => cases h
  | cons first more =>
      simp only [isSpelling, Bool.and_eq_true, Bool.or_eq_true, decide_eq_true_eq] at h
      obtain ⟨⟨hcovers, hlower⟩, hmore⟩ := h
      refine .capital (.ofNat hcovers hlower le_rfl le_rfl) ?_
      split at hmore
      · next hmarked =>
        obtain ⟨n, hn, hmark⟩ := List.any_eq_true.mp hmore
        refine iff_of_false (fun hall => ?_) (not_not.mpr (List.contains_iff_mem.mp hmarked))
        have hcontinues := hall _ (List.mem_map_of_mem hn)
        rw [hmarks n (List.contains_iff_mem.mp hmark)] at hcontinues
        cases hcontinues
      · next hmarked =>
        refine iff_of_true (fun d hd => ?_) fun hmem => hmarked (List.contains_iff_mem.mpr hmem)
        obtain ⟨n, hn, rfl⟩ := List.mem_map.mp hd
        have hplain := List.all_eq_true.mp hmore n hn
        simp only [Bool.and_eq_true, Bool.or_eq_true, decide_eq_true_eq] at hplain
        have hcapital := IsCapital.ofNat hplain.1 hplain.2 le_rfl le_rfl
        simp [Syntax.Token.continuesIdentifier, isAlphanumeric, hcapital.alphabetic]

theorem Capitalised.of_run {c : Char} {run : CaseRun} (hrun : run ∈ upperCaseRuns)
    (hc : run.contains c.toNat = true) (hmarked : c.toNat ∉ markedLetters) :
    Capitalised c [Char.ofNat (run.apply c.toNat)] := by
  -- One run alternates between letters and other code points.
  have hranges : ∀ run ∈ upperCaseRuns,
      (run.apply run.last < 0x61 ∨ 0x7A < run.apply run.first) ∧
        (alphabeticRanges.covers (run.apply run.first) (run.apply run.last) = true ∨
          ∀ i < run.last + 1 - run.first, run.contains (run.first + i) = true →
            alphabeticRanges.covers (run.apply (run.first + i)) (run.apply (run.first + i)) =
              true) := by
    decide +kernel
  obtain ⟨hlower, hcovers⟩ := hranges run hrun
  refine .capital ?_ (iff_of_true nofun hmarked)
  have hinside := hc
  simp only [CaseRun.contains, Bool.and_eq_true, decide_eq_true_eq] at hinside
  simp only [CaseRun.apply, Int.ofNat_eq_natCast] at hlower
  rcases hcovers with hcovers | heach
  · refine .ofNat hcovers ?_ ?_ ?_
    all_goals simp only [CaseRun.apply, Int.ofNat_eq_natCast]
    all_goals omega
  · have hnat : run.first + (c.toNat - run.first) = c.toNat := by omega
    have hcovers := heach (c.toNat - run.first) (by omega) (by rwa [hnat])
    rw [hnat] at hcovers
    refine .ofNat hcovers ?_ le_rfl le_rfl
    simp only [CaseRun.apply, Int.ofNat_eq_natCast]
    omega

theorem capitalised_upperCase (c : Char) : Capitalised c (upperCase c) := by
  have hspellings : ∀ entry ∈ upperCaseExpansions, isSpelling entry = true := by decide +kernel
  have hmarked : ∀ n ∈ markedLetters, upperCaseExpansions.lookup n ≠ none := by decide
  unfold upperCase
  split
  · next expansion hlookup =>
    exact .of_spelling (hspellings _ (mem_of_lookup_eq_some hlookup))
  · next hlookup =>
    have hplain : c.toNat ∉ markedLetters := fun hmem => hmarked _ hmem hlookup
    split
    · next run hfind =>
      have hinside := List.find?_some hfind
      exact .of_run (List.mem_of_find?_eq_some hfind) hinside hplain
    · exact .same hplain

end Text

/-! ## Identifiers -/

namespace Syntax.Token

/-- A word that is no keyword is read as one identifier. -/
theorem isName_iff_isWord {text : String} : IsName text ↔ IsWord text .identifier := by
  refine ⟨IsName.isWord, fun h => ?_⟩
  have hseparable : Separable [(Kind.identifier, text)] := ⟨(IsPiece.word h).cutsOff nofun, trivial⟩
  have hleaves := map_leaf_lexFrom (hseparable.scans true) 0
  rw [chars_cons, chars, List.flatMap_nil, List.append_nil, ← lex] at hleaves
  have hkinds := congrArg (List.map Prod.fst) hleaves
  rwa [List.map_map] at hkinds

/-- Every keyword opens with a small letter of ASCII. -/
theorem ofKeyword?_capital {c : Char} (hc : IsCapital c) (cs : List Char) :
    Kind.ofKeyword? (String.ofList (c :: cs)) = none := by
  have hkeywords : ∀ entry ∈ Kind.keywords, (entry.1.toList.head?.any isSmall) = true := by
    decide +kernel
  cases hlookup : Kind.ofKeyword? (String.ofList (c :: cs)) with
  | none => rfl
  | some kind =>
      have hsmall := hkeywords _ (mem_of_lookup_eq_some hlookup)
      simp [hc.not_small] at hsmall

/-- The letters behind the first one may follow in any identifier, if it is not verbatim. -/
theorem continues_of_isWord {c : Char} {cs : List Char} (hc : c ≠ '@')
    (h : IsWord (String.ofList (c :: cs)) .identifier) : ∀ d ∈ cs, continuesIdentifier d = true := by
  generalize hkind : Kind.identifier = kind at h
  cases h with
  | plain htext _ hcs =>
      obtain ⟨rfl, rfl⟩ := List.cons.inj (String.ofList_injective htext)
      exact hcs
  | verbatim htext =>
      obtain ⟨rfl, -⟩ := List.cons.inj (String.ofList_injective htext)
      exact absurd rfl hc

theorem isWord_capital {c : Char} (hc : IsCapital c) (cs : List Char) :
    IsWord (String.ofList (c :: cs)) .identifier ↔ ∀ d ∈ cs, continuesIdentifier d = true := by
  have hopens : opensIdentifier c = true := by simp [opensIdentifier, hc.alphabetic]
  constructor
  · exact continues_of_isWord (ne_of_opens hopens (by decide))
  · intro h
    have hword := IsWord.plain rfl hopens h
    rwa [ofKeyword?_capital hc, Option.getD_none] at hword

end Syntax.Token

/-! ## The name of a delegate -/

namespace Refactor

open Syntax Token

/-- The mark of a verbatim identifier has no capital. -/
theorem ne_verbatim_of_capital {c first : Char} {more : List Char}
    (hupper : upperCase c = first :: more) (hfirst : IsCapital first) : c ≠ '@' := by
  rintro rfl
  have hsame : upperCase '@' = ['@'] := by decide +kernel
  obtain rfl : '@' = first := (List.cons.inj (hsame.symm.trans hupper)).1
  have hnot : isAlphabetic '@' = false := by decide +kernel
  rw [hfirst.alphabetic] at hnot
  cases hnot

/-- The name of a delegate is read as one identifier, like the name that it is made of, except
for a name that opens with a letter whose upper case is spelled with combining marks. -/
theorem isName_delegateName {name : String} (h : IsName name) :
    IsName (delegateName name) ↔ ∀ c ∈ name.toList.head?, c.toNat ∉ markedLetters := by
  cases hchars : name.toList with
  | nil =>
      rw [String.toList_eq_nil_iff.mp hchars] at h
      exact absurd h (by decide +kernel)
  | cons c cs =>
      obtain rfl : name = String.ofList (c :: cs) := by rw [← hchars, String.ofList_toList]
      rw [delegateName, hchars]
      simp only [List.head?_cons, Option.mem_some_iff, forall_eq']
      have hword := h.isWord
      have hcapitalised := capitalised_upperCase c
      cases hupper : upperCase c with
      | nil =>
          rw [hupper] at hcapitalised
          cases hcapitalised
      | cons first more =>
          rw [hupper] at hcapitalised
          rw [List.cons_append]
          cases hcapitalised with
          | same hplain => exact iff_of_true h hplain
          | capital hfirst hmore =>
              have hcs := continues_of_isWord (ne_verbatim_of_capital hupper hfirst) hword
              rw [isName_iff_isWord, isWord_capital hfirst, ← hmore]
              simp only [List.mem_append]
              exact ⟨fun hall d hd => hall d (.inl hd), fun hall d hd => hd.elim (hall d) (hcs d)⟩

/-- The upper case of a letter may have several characters. -/
theorem isName_delegateName_sharp : IsName "ßx" ∧ IsName (delegateName "ßx") := by
  have hname : IsName "ßx" := by decide +kernel
  refine ⟨hname, (isName_delegateName hname).mpr fun c hc => ?_⟩
  obtain rfl : 'ß' = c := Option.some.inj hc
  decide

/-- The small letter j with a caron has no capital of its own. -/
theorem isName_delegateName_caron : IsName "ǰ" ∧ ¬IsName (delegateName "ǰ") := by decide +kernel

end Refactor

end CSharpKit
