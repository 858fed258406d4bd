import CSharpKit.Proofs.Syntax.Runs
import CSharpKit.Proofs.Syntax.Scanning

/-!
# Where scans end

A scan of the tokens ahead does not look behind a token that neither stands in a type nor
tells one from something else. So the tokens behind it do not matter: if two lists of
tokens are the same up to such a token, a scan does the same on both.
-/

namespace CSharpKit.Syntax.Lookahead

variable {f : Scan} {a b ts us rest : List Token} {k : Kind} {n m : Nat}

/-! ## Lists that are the same in front -/

/-- No scan goes on behind a token of this kind. -/
def boundsScan (k : Kind) : Bool :=
  !(k.isTrivia || k.isPredefinedType || [Kind.identifier, .question, .colon, .lBracket, .rBracket,
    .less, .greater, .comma, .rParen, .dot, .colonColon].contains k)

/-- The first token is one that no scan passes. -/
def Bounded (ts : List Token) : Prop := ∃ k, headKind? ts = some k ∧ boundsScan k = true

/-- The same tokens stand in front of `a` and of `b`, wherever they stand in a text. -/
def Alike (a b ts us : List Token) : Prop :=
  ∃ front front', ts = front ++ a ∧ us = front' ++ b ∧ front.map Token.leaf = front'.map Token.leaf

theorem Alike.refl (ts : List Token) : Alike a b (ts ++ a) (ts ++ b) := ⟨ts, ts, rfl, rfl, rfl⟩

/-- Either both lists have come to their end, or they begin with the same token. -/
theorem Alike.split (h : Alike a b ts us) : ts = a ∧ us = b ∨ ∃ t t' rest rest',
    ts = t :: rest ∧ us = t' :: rest' ∧ t.leaf = t'.leaf ∧ Alike a b rest rest' := by
  obtain ⟨front, front', rfl, rfl, hleaves⟩ := h
  cases front with
  | nil =>
      obtain rfl : front' = [] := List.map_eq_nil_iff.mp hleaves.symm
      exact .inl ⟨rfl, rfl⟩
  | cons t front =>
      obtain ⟨t', front', rfl, ht, hfront⟩ := List.map_eq_cons_iff.mp hleaves.symm
      exact .inr ⟨t, t', _, _, rfl, rfl, ht.symm, front, front', rfl, rfl, hfront.symm⟩

theorem Bounded.significant (h : Bounded a) : significant a = a := by
  obtain ⟨k, hk, hbound⟩ := h
  cases a with
  | nil => cases hk
  | cons t a =>
      obtain rfl := Option.some.inj hk
      have htrivia : t.isTrivia = false := by
        simp only [boundsScan, Bool.not_eq_true', Bool.or_eq_false_iff] at hbound
        exact hbound.1.1
      simp [Lookahead.significant, htrivia]

section

variable (ha : Bounded a) (hb : Bounded b)
include ha hb

theorem Alike.significant (h : Alike a b ts us) : Alike a b (significant ts) (significant us) := by
  obtain ⟨front, front', rfl, rfl, hleaves⟩ := h
  induction front generalizing front' with
  | nil =>
      obtain rfl : front' = [] := List.map_eq_nil_iff.mp hleaves.symm
      exact ⟨[], [], ha.significant, hb.significant, rfl⟩
  | cons t front ih =>
      obtain ⟨t', front', rfl, ht, hfront⟩ := List.map_eq_cons_iff.mp hleaves.symm
      have htrivia : t'.isTrivia = t.isTrivia := congrArg (fun l => l.1.isTrivia) ht
      by_cases hskip : t.isTrivia = true
      · simpa [Lookahead.significant, htrivia, hskip] using ih front' hfront.symm
      · refine ⟨t :: front, t' :: front', ?_, ?_, hleaves⟩ <;>
          simp [Lookahead.significant, htrivia, hskip]

omit ha hb in
theorem Alike.cases (h : Alike a b ts us) :
    ts = a ∧ us = b ∨ headKind? ts = headKind? us ∧ Alike a b ts.tail us.tail := by
  rcases h.split with hends | ⟨t, t', rest, rest', rfl, rfl, hleaf, hrest⟩
  · exact .inl hends
  · exact .inr ⟨congrArg (fun l => some (Prod.fst l)) hleaf, hrest⟩

/-- Tokens that scans look at are ahead of both lists or of none. -/
theorem Alike.headKind?_iff (h : Alike a b ts us) (hk : boundsScan k = false) :
    (headKind? ts = some k ↔ headKind? us = some k) ∧
      (headKind? ts = some k → Alike a b ts.tail us.tail) := by
  have hnot : ∀ {c : List Token}, Bounded c → headKind? c ≠ some k := by
    rintro c ⟨k', hk', hbound⟩ heq
    obtain rfl := Option.some.inj (hk'.symm.trans heq)
    rw [hk] at hbound
    cases hbound
  rcases h.cases with ⟨rfl, rfl⟩ | ⟨hhead, htail⟩
  · exact ⟨iff_of_false (hnot ha) (hnot hb), fun h => absurd h (hnot ha)⟩
  · exact ⟨by rw [hhead], fun _ => htail⟩

theorem Alike.startsWith (h : Alike a b ts us) (hk : boundsScan k = false) :
    startsWith k ts = startsWith k us ∧ (startsWith k ts = true → Alike a b ts.tail us.tail) := by
  obtain ⟨hiff, htail⟩ := Alike.headKind?_iff ha hb h hk
  exact ⟨Bool.eq_iff_iff.mpr (by simpa [Lookahead.startsWith] using hiff),
    fun hstarts => htail (eq_of_beq hstarts)⟩

theorem Alike.next (h : Alike a b ts.tail us.tail) : Alike a b (next ts) (next us) :=
  Alike.significant ha hb h

/-! ## Suffixes -/

theorem alike_skipCommas (n : Nat) (h : Alike a b ts us) :
    Alike a b (skipCommas n ts) (skipCommas n us) := by
  induction n generalizing ts us with
  | zero => exact h
  | succ n ih =>
      obtain ⟨hstarts, htail⟩ := Alike.startsWith ha hb h (k := .comma) rfl
      rw [skipCommas, skipCommas, ← hstarts]
      split
      case isTrue hcomma => exact ih (Alike.next ha hb (htail hcomma))
      case isFalse => exact h

omit hb in
theorem suffixEnd?_of_bounded (n : Nat) (h : significant ts = a) : suffixEnd? n ts = none := by
  obtain ⟨k, hk, hbound⟩ := ha
  rw [suffixEnd?, h]
  dsimp only
  split <;> first | rfl | (obtain rfl := Option.some.inj (hk.symm.trans ‹_›); cases hbound)

omit hb in
/-- A question mark in front of the end is no suffix. -/
theorem suffixEnd?_of_next_bounded (n : Nat) (hquestion : headKind? (significant ts) = some .question)
    (h : Lookahead.next (significant ts) = a) : suffixEnd? n ts = none := by
  obtain ⟨k, hk, hbound⟩ := ha
  rw [suffixEnd?, hquestion]
  dsimp only
  rw [h]
  split <;> first | rfl | (obtain rfl := Option.some.inj (hk.symm.trans ‹_›); cases hbound)

theorem alike_suffixEnd? (n : Nat) (h : Alike a b ts us) :
    Option.Rel (Alike a b) (suffixEnd? n ts) (suffixEnd? n us) := by
  have hhere := Alike.significant ha hb h
  rcases hhere.cases with ⟨hts, hus⟩ | ⟨hhead, htail⟩
  · rw [suffixEnd?_of_bounded ha n hts, suffixEnd?_of_bounded hb n hus]
    exact .none
  have hafter := Alike.next ha hb htail
  by_cases hquestion : headKind? (significant ts) = some .question
  · rcases hafter.cases with ⟨hts, hus⟩ | ⟨hsecond, hmore⟩
    · rw [suffixEnd?_of_next_bounded ha n hquestion hts,
        suffixEnd?_of_next_bounded hb n (hhead ▸ hquestion) hus]
      exact .none
    · have hcolon := (Alike.startsWith ha hb (k := .colon) (Alike.next ha hb hmore) rfl).1
      simp only [suffixEnd?, ← hhead, hquestion, ← hsecond, ← hcolon]
      split
      case h_1 =>
        split
        · exact .none
        · exact .some htail
      case h_6 => exact .none
      all_goals exact .some htail
  · obtain ⟨hclose, hbehind⟩ :=
      Alike.startsWith ha hb (k := .rBracket) (alike_skipCommas ha hb n hafter) rfl
    simp only [suffixEnd?, ← hhead]
    split
    case h_1 => exact absurd ‹_› hquestion
    case h_2 =>
      rw [← hclose]
      split
      case isTrue h => exact .some (hbehind h)
      case isFalse => exact .none
    case h_3 => exact .none

theorem alike_scanSuffixes (n : Nat) (h : Alike a b ts us) :
    Alike a b (scanSuffixes n ts) (scanSuffixes n us) := by
  induction n generalizing ts us with
  | zero => exact h
  | succ n ih =>
      have hend := alike_suffixEnd? ha hb n h
      rw [scanSuffixes_succ, scanSuffixes_succ]
      cases hts : suffixEnd? n ts <;> cases hus : suffixEnd? n us <;> rw [hts, hus] at hend <;>
        cases hend
      · exact h
      · next hend => exact ih hend

/-! ## Names and type arguments -/

omit ha hb in
/-- A scan does the same on lists that are the same in front, if they have less than `n` tokens. -/
def AlikeUpTo (a b : List Token) (n : Nat) (f : Scan) : Prop :=
  ∀ ts us, Alike a b ts us → ts.length < n → Option.Rel (Alike a b) (f ts) (f us)

/-- Behind a type in a slot of a type argument list. -/
def slotBehind? (rest : List Token) : Option (List Token × Bool) :=
  match headKind? (significant rest) with
  | some .greater => some ((significant rest).tail, false)
  | some .comma => some (next (significant rest), true)
  | _ => none

omit ha hb in
theorem slotEnd?_of_type (hcomma : headKind? ts ≠ some .comma)
    (hgreater : headKind? ts ≠ some .greater) : slotEnd? f ts = (f ts).bind slotBehind? := by
  rw [slotEnd?]
  split
  case h_1 h => exact absurd h hcomma
  case h_2 h => exact absurd h hgreater
  case h_3 => cases f ts <;> rfl

/-- The same tokens are left, and both lists of slots go on or both end. -/
def AlikeSlot (a b : List Token) (x y : List Token × Bool) : Prop := Alike a b x.1 y.1 ∧ x.2 = y.2

theorem alike_slotBehind? (h : Alike a b ts us) :
    Option.Rel (AlikeSlot a b) (slotBehind? ts) (slotBehind? us) := by
  have hhere := Alike.significant ha hb h
  obtain ⟨hgreater, hclosed⟩ := Alike.headKind?_iff ha hb (k := .greater) hhere rfl
  obtain ⟨hcomma, hmore⟩ := Alike.headKind?_iff ha hb (k := .comma) hhere rfl
  rw [slotBehind?, slotBehind?]
  split
  case h_1 h =>
    rw [hgreater.mp h]
    exact .some ⟨hclosed h, rfl⟩
  case h_2 h =>
    rw [hcomma.mp h]
    exact .some ⟨Alike.next ha hb (hmore h), rfl⟩
  case h_3 hnotGreater hnotComma =>
    split
    case h_1 h => exact absurd (hgreater.mpr h) hnotGreater
    case h_2 h => exact absurd (hcomma.mpr h) hnotComma
    case h_3 => exact .none

theorem alike_slotEnd? (hf : AlikeUpTo a b n f) (h : Alike a b ts us) (hn : ts.length < n) :
    Option.Rel (AlikeSlot a b) (slotEnd? f ts) (slotEnd? f us) := by
  obtain ⟨hgreater, hclosed⟩ := Alike.headKind?_iff ha hb (k := .greater) h rfl
  obtain ⟨hcomma, hmore⟩ := Alike.headKind?_iff ha hb (k := .comma) h rfl
  by_cases hatComma : headKind? ts = some .comma
  · simp only [slotEnd?, hatComma, hcomma.mp hatComma]
    exact .some ⟨Alike.next ha hb (hmore hatComma), rfl⟩
  by_cases hatGreater : headKind? ts = some .greater
  · simp only [slotEnd?, hatGreater, hgreater.mp hatGreater]
    exact .some ⟨hclosed hatGreater, rfl⟩
  have htype := hf ts us h hn
  rw [slotEnd?_of_type hatComma hatGreater,
    slotEnd?_of_type (hcomma.not.mp hatComma) (hgreater.not.mp hatGreater)]
  revert htype
  generalize f ts = end₁, f us = end₂
  rintro (hrest | -)
  · exact alike_slotBehind? ha hb hrest
  · exact .none

theorem alike_scanSlots (hforward : GoesForward f) (hf : AlikeUpTo a b n f) (count : Nat)
    (h : Alike a b ts us) (hn : ts.length < n) :
    Option.Rel (Alike a b) (scanSlots f count ts) (scanSlots f count us) := by
  induction count generalizing ts us with
  | zero => exact .none
  | succ count ih =>
      have hslot := alike_slotEnd? ha hb hf h hn
      have hbehind : ∀ rest more, slotEnd? f ts = some (rest, more) → rest.length < n :=
        fun rest more hend => Nat.lt_trans (slotEnd?_behind hforward hend).length_lt hn
      rw [scanSlots_succ, scanSlots_succ]
      revert hslot hbehind
      generalize slotEnd? f ts = end₁, slotEnd? f us = end₂
      rintro (hslot | -) hbehind
      · next x y =>
        obtain ⟨rest, more⟩ := x
        obtain ⟨rest', more'⟩ := y
        obtain ⟨hrest, rfl⟩ := hslot
        cases more with
        | true => exact ih hrest (hbehind _ _ rfl)
        | false => exact .some hrest
      · exact .none

theorem alike_scanTypeArguments (hforward : GoesForward f) (hf : AlikeUpTo a b n f)
    (h : Alike a b ts us) (hless : headKind? ts = some .less) (hn : ts.length ≤ n) :
    Option.Rel (Alike a b) (scanTypeArguments f ts) (scanTypeArguments f us) := by
  obtain ⟨hiff, htail⟩ := Alike.headKind?_iff ha hb (k := .less) h rfl
  have hlt := (next_behind hless).length_lt
  have hlt' := (next_behind (hiff.mp hless)).length_lt
  have hslots := alike_scanSlots ha hb hforward hf (ts.length + us.length)
    (Alike.next ha hb (htail hless)) (by omega)
  rwa [scanSlots_eq hforward (m := ts.length) (by omega) hlt,
    scanSlots_eq hforward (m := us.length) (by omega) hlt'] at hslots

theorem alike_scanSimpleName (hforward : GoesForward f) (hf : AlikeUpTo a b n f)
    (h : Alike a b ts.tail us.tail) (hn : ts.length ≤ n) :
    Alike a b (scanSimpleName f ts) (scanSimpleName f us) := by
  have hnext := Alike.next ha hb h
  have hlength := ((next_suffix ts).trans (List.tail_suffix ts)).length_le
  rw [scanSimpleName, scanSimpleName, ← (Alike.startsWith ha hb hnext (k := .less) rfl).1]
  split
  case isTrue hless =>
    have harguments := alike_scanTypeArguments ha hb hforward hf hnext (eq_of_beq hless) (by omega)
    revert harguments
    generalize scanTypeArguments f (next ts) = end₁, scanTypeArguments f (next us) = end₂
    rintro (hrest | -)
    · exact hrest
    · exact h
  case isFalse => exact h

theorem alike_scanSegments (hforward : GoesForward f) (hf : AlikeUpTo a b n f) (count : Nat)
    (h : Alike a b ts us) (hn : ts.length ≤ n) :
    Option.Rel (Alike a b) (scanSegments f count ts) (scanSegments f count us) := by
  induction count generalizing ts us with
  | zero => exact .some h
  | succ count ih =>
      have hhere := Alike.significant ha hb h
      obtain ⟨hdot, hdotTail⟩ := Alike.startsWith ha hb (k := .dot) hhere rfl
      obtain ⟨hcolons, hcolonsTail⟩ := Alike.startsWith ha hb (k := .colonColon) hhere rfl
      rw [scanSegments_succ, scanSegments_succ, ← hdot, ← hcolons]
      split
      case isTrue hsegment =>
        have hlt := (segment_behind hforward hsegment).length_lt
        have hname : Alike a b (next (significant ts)) (next (significant us)) := by
          refine Alike.next ha hb ?_
          rcases Bool.or_eq_true _ _ |>.mp hsegment with h | h
          · exact hdotTail h
          · exact hcolonsTail h
        have hlength := ((next_suffix (significant ts)).trans
          ((List.tail_suffix _).trans (Parser.significant_suffix ts))).length_le
        obtain ⟨hident, hidentTail⟩ := Alike.startsWith ha hb (k := .identifier) hname rfl
        rw [← hident]
        split
        case isTrue h =>
          exact ih (alike_scanSimpleName ha hb hforward hf (hidentTail h) (by omega)) (by omega)
        case isFalse => exact .none
      case isFalse => exact .some h

/-! ## Types -/

omit hb in
theorem scanTypeWith_of_bounded : scanTypeWith f a = none := by
  obtain ⟨k, hk, hbound⟩ := ha
  simp only [boundsScan, Bool.not_eq_true', Bool.or_eq_false_iff] at hbound
  have hname : k ≠ .identifier := by
    rintro rfl
    exact absurd hbound.2 (by decide)
  simp [scanTypeWith, hk, hbound.1.2, hname]

omit ha hb in
/-- The bounds on the suffixes of a type do not matter. -/
theorem alike_suffixesBehind (hends : ∀ n, Alike a b (scanSuffixes n ts) (scanSuffixes n us))
    (hn : ts.length ≤ n) (hm : us.length ≤ m) :
    Alike a b (scanSuffixes n ts) (scanSuffixes m us) := by
  have hend := hends (n + m)
  rwa [scanSuffixes_eq (m := n) (by omega) hn, scanSuffixes_eq (m := m) (by omega) hm] at hend

theorem alike_scanTypeWith (hforward : GoesForward f) (hf : AlikeUpTo a b n f)
    (h : Alike a b ts us) (hn : ts.length ≤ n) :
    Option.Rel (Alike a b) (scanTypeWith f ts) (scanTypeWith f us) := by
  rcases h.cases with ⟨rfl, rfl⟩ | ⟨hhead, htail⟩
  · rw [scanTypeWith_of_bounded ha, scanTypeWith_of_bounded hb]
    exact .none
  have hbehind : ∀ {x y : List Token}, Alike a b x y → x.length ≤ ts.length →
      y.length ≤ us.length → Alike a b (scanSuffixes ts.length x) (scanSuffixes us.length y) :=
    fun hxy => alike_suffixesBehind fun n => alike_scanSuffixes ha hb n hxy
  rw [scanTypeWith, scanTypeWith, ← hhead]
  split
  case h_1 => exact .none
  case h_2 k hk =>
    split
    case isTrue => exact .some (hbehind htail (by simp) (by simp))
    case isFalse =>
      split
      case isFalse => exact .none
      case isTrue =>
        have hname := alike_scanSimpleName ha hb hforward hf htail hn
        have hts := (scanSimpleName_suffix hforward ts).trans (List.tail_suffix ts)
        have hus := (scanSimpleName_suffix hforward us).trans (List.tail_suffix us)
        have hsegments := alike_scanSegments ha hb hforward hf (ts.length + us.length) hname
          (Nat.le_trans hts.length_le hn)
        rw [scanSegments_eq hforward (m := ts.length) (Nat.le_trans hts.length_le (by omega))
            hts.length_le,
          scanSegments_eq hforward (m := us.length) (Nat.le_trans hus.length_le (by omega))
            hus.length_le] at hsegments
        cases hx : scanSegments f ts.length (scanSimpleName f ts) <;>
          cases hy : scanSegments f us.length (scanSimpleName f us) <;>
          rw [hx, hy] at hsegments <;> cases hsegments
        · exact .none
        · next hrest =>
          exact .some (hbehind hrest ((scanSegments_suffix hforward hx).trans hts).length_le
            ((scanSegments_suffix hforward hy).trans hus).length_le)

/-- A scan for a type does the same on lists that are the same up to a token no scan passes. -/
theorem alike_scanType (h : Alike a b ts us) :
    Option.Rel (Alike a b) (scanType ts) (scanType us) := by
  induction hn : ts.length using Nat.strong_induction_on generalizing ts us with
  | h n ih =>
      rw [scanType_eq ts, scanType_eq us]
      refine alike_scanTypeWith ha hb goesForward_scanType (n := n) ?_ h (Nat.le_of_eq hn)
      exact fun us vs hus hlt => ih us.length hlt hus rfl

/-! ## Generic names -/

/-- Whether a generic name is ahead depends on the tokens up to the end, and on whether the
token there may follow one. -/
theorem alike_atGenericName (h : Alike a b ts us) (hname : kind ts = .identifier)
    (hends : (headKind? a).all followsGenericName = (headKind? b).all followsGenericName) :
    atGenericName ts = atGenericName us := by
  have hident : headKind? (significant ts) = some .identifier :=
    Parser.headKind?_of_kind hname (by decide)
  have hless : Alike a b (dropSignificant 1 ts) (dropSignificant 1 us) :=
    Alike.next ha hb ((Alike.headKind?_iff ha hb (Alike.significant ha hb h) rfl).2 hident)
  rw [atGenericName, atGenericName, ← (Alike.startsWith ha hb (k := .less) hless rfl).1]
  cases hstarts : startsWith .less (dropSignificant 1 ts) with
  | false => rfl
  | true =>
      have harguments := alike_scanTypeArguments ha hb goesForward_scanType
        (n := (dropSignificant 1 ts).length) (fun _ _ hxy _ => alike_scanType ha hb hxy) hless
        (eq_of_beq hstarts) (Nat.le_refl _)
      revert harguments
      generalize scanTypeArguments scanType (dropSignificant 1 ts) = end₁,
        scanTypeArguments scanType (dropSignificant 1 us) = end₂
      rintro (hrest | -)
      · rcases (Alike.significant ha hb hrest).cases with ⟨hts, hus⟩ | ⟨hhead, -⟩
        · simp [hts, hus, hends]
        · simp [hhead]
      · rfl

end

end CSharpKit.Syntax.Lookahead
