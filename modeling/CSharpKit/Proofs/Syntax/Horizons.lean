import CSharpKit.Proofs.Syntax.ScanBounds
import CSharpKit.Proofs.Syntax.ReadingRules

/-!
# Questions about the same tokens before two ends

The same tokens may stand before the end of a text and before a semicolon. The parser gets
the same answers to its questions about them, as long as it does not look behind the end. No
question is about the semicolon itself, except whether a declaration of variables follows,
and for that a semicolon among the tokens is enough.
-/

namespace CSharpKit.Syntax

theorem Token.tree_eq_of_leaf {t t' : Token} (h : t.leaf = t'.leaf) : t.tree = t'.tree :=
  congrArg (fun l : Kind × String => Tree.token l.1 l.2) h

namespace Lookahead

variable {a b ts us : List Token} {β : Type}

theorem Alike.length (h : Alike a b ts us) : ts.length + b.length = us.length + a.length := by
  obtain ⟨front, front', rfl, rfl, hleaves⟩ := h
  have hlength := congrArg List.length hleaves
  simp only [List.length_map] at hlength
  simp only [List.length_append]
  omega

/-- A declaration is ahead of both lists or of none, if its name may stand before both ends or
before none. -/
theorem alike_atTypedName {followers : List Kind} (ha : Bounded a) (hb : Bounded b)
    (hends : (headKind? a).any (followers.contains ·) = (headKind? b).any (followers.contains ·))
    (h : Alike a b ts us) : atTypedName followers ts = atTypedName followers us := by
  have htype := alike_scanType ha hb (Alike.significant ha hb h)
  rw [atTypedName, atTypedName]
  revert htype
  generalize scanType (significant ts) = end₁, scanType (significant us) = end₂
  rintro (hrest | -)
  · next rest rest' =>
    have hname := Alike.significant ha hb hrest
    obtain ⟨hstarts, htail⟩ := Alike.startsWith ha hb (k := .identifier) hname rfl
    dsimp only
    rw [← hstarts]
    cases hident : startsWith .identifier (significant rest) with
    | false => rfl
    | true =>
        rcases (Alike.next ha hb (htail hident)).cases with ⟨hts, hus⟩ | ⟨hhead, -⟩
        · rw [hts, hus, hends]
        · rw [hhead]
  · rfl

theorem shiftTail?_eq (ts : List Token) : shiftTail? ts =
    if headKind? (significant ts) = some .greater then
      (headKind? (significant ts).tail).filter fun k => k == .greater || k == .greaterEq
    else none := by
  rw [shiftTail?]
  rcases significant ts with - | ⟨t, - | ⟨t', rest⟩⟩
  · rfl
  · simp [headKind?]
  · by_cases ht : t.kind = .greater <;> simp [headKind?, ht, Option.filter]

/-- `a` is the end of a text, and `b` begins with a semicolon. Where parentheses are still open
before `b`, no arrow stands behind the one that closes the first of them. -/
structure Closes (a b : List Token) : Prop where
  ended : ∃ last, a = [last] ∧ last.kind = .eof
  semicolon : headKind? b = some .semicolon
  flat : ∀ depth,
    startsWith .arrow (significant (skipBalanced .lParen .rParen (depth + 1) b)) = false

namespace Closes

variable (hc : Closes a b)
include hc

theorem headKind?_left : headKind? a = some .eof := by
  obtain ⟨last, rfl, hlast⟩ := hc.ended
  exact congrArg some hlast

theorem bounded_left : Bounded a := ⟨.eof, hc.headKind?_left, rfl⟩

theorem bounded_right : Bounded b := ⟨.semicolon, hc.semicolon, rfl⟩

theorem ahead (h : Alike a b ts us) : Alike a b (significant ts) (significant us) :=
  Alike.significant hc.bounded_left hc.bounded_right h

/-! ## Kinds -/

/-- The first tokens are of one kind, or both lists have come to their end. -/
theorem sameHead (h : Alike a b ts us) : headKind? ts = headKind? us ∨
    headKind? ts = some .eof ∧ headKind? us = some .semicolon := by
  rcases h.cases with ⟨rfl, rfl⟩ | ⟨hhead, -⟩
  · exact .inr ⟨hc.headKind?_left, hc.semicolon⟩
  · exact .inl hhead

/-- What does not tell the two ends apart does not tell the first tokens apart. -/
theorem congr_headKind? {g : Option Kind → β} (hg : g (some .eof) = g (some .semicolon))
    (h : Alike a b ts us) : g (headKind? ts) = g (headKind? us) := by
  rcases hc.sameHead h with heq | ⟨hts, hus⟩
  · rw [heq]
  · rw [hts, hus, hg]

theorem congr_kind {g : Kind → β} (hg : g .eof = g .semicolon) (h : Alike a b ts us) :
    g (kind ts) = g (kind us) :=
  hc.congr_headKind? (g := fun k => g (k.getD .eof)) hg (hc.ahead h)

theorem kind_eq (h : Alike a b ts us) (hne : kind ts ≠ .eof) : kind us = kind ts := by
  rcases hc.sameHead (hc.ahead h) with heq | ⟨hts, -⟩
  · rw [kind, kind, heq]
  · exact absurd (Parser.kind_of_headKind? hts) hne

/-- Before the end the next tokens are the same. -/
theorem exists_next (h : Alike a b ts us) (hne : kind ts ≠ .eof) : ∃ t t' rest rest',
    significant ts = t :: rest ∧ significant us = t' :: rest' ∧ t.leaf = t'.leaf ∧
      Alike a b rest rest' := by
  rcases (hc.ahead h).split with ⟨hts, -⟩ | hsplit
  · refine absurd ?_ hne
    rw [kind, hts, hc.headKind?_left]
    rfl
  · exact hsplit

/-- The tokens from place `n` on, if the end does not come before. -/
theorem drop {n : Nat} (h : Alike a b ts us) (hne : ∀ m < n, kindAt? m ts ≠ some .eof) :
    Alike a b (dropSignificant n ts) (dropSignificant n us) := by
  induction n with
  | zero => exact hc.ahead h
  | succ n ih =>
      rcases (ih fun m hm => hne m (Nat.lt_succ_of_lt hm)).cases with ⟨hts, -⟩ | ⟨-, htail⟩
      · refine absurd ?_ (hne n (Nat.lt_succ_self n))
        rw [kindAt?, hts, hc.headKind?_left]
      · exact hc.ahead htail

theorem behind (h : Alike a b ts us) (hne : kind ts ≠ .eof) :
    Alike a b (dropSignificant 1 ts) (dropSignificant 1 us) := by
  refine hc.drop h fun m hm => ?_
  obtain rfl : m = 0 := by omega
  exact fun heof => hne (Parser.kind_of_headKind? heof)

theorem congr_kindAt?_one {g : Option Kind → β} (hg : g (some .eof) = g (some .semicolon))
    (h : Alike a b ts us) (hne : kind ts ≠ .eof) : g (kindAt? 1 ts) = g (kindAt? 1 us) :=
  hc.congr_headKind? hg (hc.behind h hne)

theorem congr_kindAt?_two {g : Option Kind → β} (hg : g (some .eof) = g (some .semicolon))
    (h : Alike a b ts us) (hne : kind ts ≠ .eof) (hne' : kindAt? 1 ts ≠ some .eof) :
    g (kindAt? 2 ts) = g (kindAt? 2 us) := by
  refine hc.congr_headKind? hg (hc.drop h fun m hm => ?_)
  have hcases : m = 0 ∨ m = 1 := by omega
  rcases hcases with rfl | rfl
  · exact fun heof => hne (Parser.kind_of_headKind? heof)
  · exact hne'

theorem atType_eq (h : Alike a b ts us) : atType ts = atType us :=
  hc.congr_kind (g := fun k => k == .identifier || k.isPredefinedType || k == .voidKw) rfl h

/-- The next token is the same word in both lists or in none. -/
theorem atWord_eq (word : String) (h : Alike a b ts us) : atWord word ts = atWord word us := by
  by_cases heof : kind ts = .eof
  · have hts : (kind ts == .identifier) = false := by rw [heof]; rfl
    have hus : (kind us == .identifier) = false :=
      (hc.congr_kind (g := (· == .identifier)) rfl h).symm.trans hts
    rw [atWord, atWord, hts, hus]
    rfl
  · obtain ⟨t, t', rest, rest', hts, hus, hleaf, -⟩ := hc.exists_next h heof
    have htext : text ts = text us := by
      rw [text, text, hts, hus]
      exact congrArg Prod.snd hleaf
    rw [atWord, atWord, htext, hc.kind_eq h heof]

/-- The same trivia stands before the next tokens. -/
theorem triviaAhead_eq (h : Alike a b ts us) : Parser.triviaAhead ts = Parser.triviaAhead us := by
  obtain ⟨front, front', rfl, rfl, hleaves⟩ := h
  have hends : ∀ {c}, Bounded c → Parser.triviaAhead c = [] := fun hb => by
    rw [← hb.significant, Parser.triviaAhead_significant]
  induction front generalizing front' with
  | nil =>
      obtain rfl : front' = [] := List.map_eq_nil_iff.mp hleaves.symm
      exact (hends hc.bounded_left).trans (hends hc.bounded_right).symm
  | cons t front ih =>
      obtain ⟨t', front', rfl, ht, hfront⟩ := List.map_eq_cons_iff.mp hleaves.symm
      have hmore := ih front' hfront.symm
      have htrivia : t'.isTrivia = t.isTrivia := congrArg (fun l => (Prod.fst l).isTrivia) ht
      simp only [Parser.triviaAhead, List.cons_append, List.takeWhile_cons, htrivia] at hmore ⊢
      split
      · rw [List.map_cons, List.map_cons, hmore, Token.tree_eq_of_leaf ht]
      · rfl

/-! ## Operators -/

theorem shiftTail?_eq (h : Alike a b ts us) : shiftTail? ts = shiftTail? us := by
  rw [Lookahead.shiftTail?_eq, Lookahead.shiftTail?_eq]
  rcases (hc.ahead h).cases with ⟨hts, hus⟩ | ⟨hhead, htail⟩
  · rw [hts, hus, hc.headKind?_left, hc.semicolon]
    rfl
  · rw [hhead]
    split
    · exact hc.congr_headKind?
        (g := fun k => k.filter fun k => k == .greater || k == .greaterEq) rfl htail
    · rfl

theorem binding?_eq (h : Alike a b ts us) : binding? ts = binding? us := by
  rw [binding?, binding?, hc.shiftTail?_eq h]
  split
  · rfl
  · rfl
  · exact hc.congr_kind (g := Binding.ofKind?) rfl h

/-! ## Declarations -/

theorem atOutDeclaration_eq (h : Alike a b ts us) :
    atOutDeclaration ts = atOutDeclaration us := by
  refine alike_atTypedName hc.bounded_left hc.bounded_right ?_ h
  rw [hc.headKind?_left, hc.semicolon]
  rfl

/-- A semicolon among the tokens may take the place of the ends. -/
theorem atLocalDeclaration_eq (h : Alike a b ts us) (hsemicolon : ∃ t ∈ ts, t.kind = .semicolon) :
    atLocalDeclaration ts = atLocalDeclaration us := by
  obtain ⟨front, front', rfl, rfl, hleaves⟩ := h
  obtain ⟨t, ht, hkind⟩ := hsemicolon
  have hfront : t ∈ front := by
    rcases List.mem_append.mp ht with ht | ht
    · exact ht
    · obtain ⟨last, rfl, hlast⟩ := hc.ended
      rw [List.mem_singleton.mp ht, hlast] at hkind
      cases hkind
  obtain ⟨x, y, rfl⟩ := List.append_of_mem hfront
  rw [List.map_append, List.map_cons] at hleaves
  obtain ⟨x', z, rfl, hx, hz⟩ := List.map_eq_append_iff.mp hleaves.symm
  obtain ⟨t', y', rfl, ht', hy⟩ := List.map_eq_cons_iff.mp hz
  have hts : headKind? (t :: (y ++ a)) = some .semicolon := congrArg some hkind
  have hus : headKind? (t' :: (y' ++ b)) = some .semicolon :=
    congrArg some ((congrArg Prod.fst ht').trans hkind)
  have hcut : Alike (t :: (y ++ a)) (t' :: (y' ++ b)) (x ++ t :: y ++ a) (x' ++ t' :: y' ++ b) :=
    ⟨x, x', by simp, by simp, hx.symm⟩
  refine alike_atTypedName ⟨.semicolon, hts, rfl⟩ ⟨.semicolon, hus, rfl⟩ ?_ hcut
  rw [hts, hus]

/-! ## Parentheses -/

/-- Whether an arrow stands behind the parenthesis that closes the first one that is open. -/
theorem arrow_skipBalanced_eq (depth : Nat) (h : Alike a b ts us) :
    startsWith .arrow (significant (skipBalanced .lParen .rParen (depth + 1) ts)) =
      startsWith .arrow (significant (skipBalanced .lParen .rParen (depth + 1) us)) := by
  have harrow : ∀ {xs ys}, Alike a b xs ys →
      startsWith .arrow (significant xs) = startsWith .arrow (significant ys) := fun hxy =>
    hc.congr_headKind? (g := (· == some .arrow)) rfl (hc.ahead hxy)
  have heof : ∀ (t : Token) ts, t.kind = .eof → startsWith .arrow (significant (t :: ts)) = false := by
    intro t ts ht
    simp [significant, Token.isTrivia, ht, Kind.isTrivia, startsWith, headKind?]
  obtain ⟨front, front', rfl, rfl, hleaves⟩ := h
  induction front generalizing front' depth with
  | nil =>
      obtain rfl : front' = [] := List.map_eq_nil_iff.mp hleaves.symm
      obtain ⟨last, rfl, hlast⟩ := hc.ended
      rw [List.nil_append, List.nil_append, hc.flat]
      simp only [skipBalanced, hlast]
      exact heof last [] hlast
  | cons t front ih =>
      obtain ⟨t', front', rfl, ht, hfront⟩ := List.map_eq_cons_iff.mp hleaves.symm
      have hkind : t'.kind = t.kind := congrArg Prod.fst ht
      have hrest : Alike a b (front ++ a) (front' ++ b) := ⟨front, front', rfl, rfl, hfront.symm⟩
      simp only [List.cons_append, skipBalanced, hkind]
      split
      · exact ih _ _ hfront.symm
      · split
        · split
          · exact harrow hrest
          · obtain ⟨depth, rfl⟩ := Nat.exists_eq_succ_of_ne_zero (n := depth) (by omega)
            exact ih _ _ hfront.symm
        · split
          case isTrue hlast =>
            rw [heof t _ (eq_of_beq hlast), heof t' _ (hkind.trans (eq_of_beq hlast))]
          case isFalse => exact ih _ _ hfront.symm

/-- A parenthesis opens a lambda in both lists or in none. -/
theorem atLambdaParen_eq {n : Nat} (h : Alike a b (dropSignificant n ts) (dropSignificant n us))
    (hparen : kindAt? n ts = some .lParen) : atLambdaParen n ts = atLambdaParen n us := by
  rw [atLambdaParen, atLambdaParen]
  rw [kindAt?] at hparen
  rcases h.split with ⟨hts, -⟩ | ⟨t, t', rest, rest', hts, hus, hleaf, hrest⟩
  · rw [hts, hc.headKind?_left] at hparen
    cases hparen
  · have hkind : t'.kind = t.kind := (congrArg Prod.fst hleaf).symm
    have ht : t.kind = .lParen := by
      rw [hts] at hparen
      exact Option.some.inj hparen
    rw [hts, hus, skipBalanced, skipBalanced, hkind, ht]
    exact hc.arrow_skipBalanced_eq 0 hrest

/-- A parenthesis opens a cast in both lists or in none. -/
theorem atCast_eq (h : Alike a b ts us) (hne : kind ts ≠ .eof) : atCast ts = atCast us := by
  have hinner := hc.behind h hne
  have htype := alike_scanType hc.bounded_left hc.bounded_right hinner
  have hkeyword : (headKind? (dropSignificant 1 ts)).any Kind.isPredefinedType =
      (headKind? (dropSignificant 1 us)).any Kind.isPredefinedType :=
    hc.congr_headKind? (g := Option.any Kind.isPredefinedType) rfl hinner
  have hinnerLength := hinner.length
  rw [atCast, atCast]
  dsimp only
  revert htype
  generalize scanType (dropSignificant 1 ts) = end₁, scanType (dropSignificant 1 us) = end₂
  rintro (hrest | -)
  · next rest rest' =>
    have hlength := hrest.length
    have hsame : (rest.length + 1 == (dropSignificant 1 ts).length) =
        (rest'.length + 1 == (dropSignificant 1 us).length) := by
      rw [Bool.eq_iff_iff, beq_iff_eq, beq_iff_eq]
      omega
    obtain ⟨hparen, htail⟩ := Alike.startsWith hc.bounded_left hc.bounded_right (k := .rParen)
      (hc.ahead hrest) rfl
    dsimp only
    rw [hkeyword, hsame, ← hparen]
    split
    case isTrue => rfl
    case isFalse hstarts =>
      have hbehind : Alike a b (next (significant rest)) (next (significant rest')) :=
        hc.ahead (htail (by simpa using hstarts))
      rcases hc.sameHead hbehind with hhead | ⟨hts, hus⟩
      · rw [hhead]
      · rw [hts, hus]
        dsimp only
        split <;> rfl
  · rfl

end Closes

end Lookahead

end CSharpKit.Syntax
