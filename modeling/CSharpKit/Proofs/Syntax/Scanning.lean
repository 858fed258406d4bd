import CSharpKit.Proofs.Syntax.Consumption

/-!
# Lookahead that ends

A scan of the tokens ahead goes forward with each step, so the bounds on its steps
and on the nesting of types are never what ends it.
-/

namespace CSharpKit.Syntax.Lookahead

variable {f g : Scan} {ts us rest : List Token}

/-! ## Going forward -/

/-- Tokens that are left when at least one was taken. -/
def Behind (rest ts : List Token) : Prop := ∃ t more, ts = t :: more ∧ rest <:+ more

namespace Behind

theorem suffix (h : Behind rest ts) : rest <:+ ts := by
  obtain ⟨t, more, rfl, hrest⟩ := h
  exact hrest.trans (List.suffix_cons t more)

theorem length_lt (h : Behind rest ts) : rest.length < ts.length := by
  obtain ⟨t, more, rfl, hrest⟩ := h
  exact Nat.lt_succ_of_le hrest.length_le

theorem mono (h : Behind us ts) (hrest : rest <:+ us) : Behind rest ts := by
  obtain ⟨t, more, rfl, hus⟩ := h
  exact ⟨t, more, rfl, hrest.trans hus⟩

theorem of_suffix (h : Behind rest us) (hus : us <:+ ts) : Behind rest ts := by
  obtain ⟨t, more, rfl, hrest⟩ := h
  obtain ⟨taken, rfl⟩ := hus
  cases taken with
  | nil => exact ⟨t, more, rfl, hrest⟩
  | cons t' taken =>
      exact ⟨t', taken ++ t :: more, rfl, hrest.trans ((List.suffix_cons t more).trans
        (List.suffix_append taken _))⟩

end Behind

theorem next_suffix (ts : List Token) : next ts <:+ ts.tail := Parser.significant_suffix _

theorem tail_behind {k : Kind} (h : headKind? ts = some k) : Behind ts.tail ts := by
  cases ts with
  | nil => cases h
  | cons t ts => exact ⟨t, ts, rfl, List.suffix_refl ts⟩

theorem next_behind {k : Kind} (h : headKind? ts = some k) : Behind (next ts) ts :=
  (tail_behind h).mono (next_suffix ts)

theorem tail_significant_behind {k : Kind} (h : headKind? (significant ts) = some k) :
    Behind (significant ts).tail ts := (tail_behind h).of_suffix (Parser.significant_suffix ts)

theorem next_significant_behind {k : Kind} (h : headKind? (significant ts) = some k) :
    Behind (next (significant ts)) ts := (next_behind h).of_suffix (Parser.significant_suffix ts)

/-! ## Suffixes of types -/

theorem skipCommas_suffix (n : Nat) (ts : List Token) : skipCommas n ts <:+ ts := by
  induction n generalizing ts with
  | zero => exact List.suffix_refl ts
  | succ n ih =>
      rw [skipCommas]
      split
      case isTrue hcomma => exact (ih _).trans (next_behind (eq_of_beq hcomma)).suffix
      case isFalse => exact List.suffix_refl ts

theorem skipCommas_eq {n m : Nat} (hn : ts.length ≤ n) (hm : ts.length ≤ m) :
    skipCommas n ts = skipCommas m ts := by
  induction n generalizing m ts with
  | zero =>
      obtain rfl := List.eq_nil_of_length_eq_zero (Nat.le_zero.mp hn)
      cases m <;> rfl
  | succ n ih =>
      cases m with
      | zero =>
          obtain rfl := List.eq_nil_of_length_eq_zero (Nat.le_zero.mp hm)
          rfl
      | succ m =>
          rw [skipCommas, skipCommas]
          split
          case isTrue hcomma =>
            have hlt := (next_behind (eq_of_beq hcomma)).length_lt
            exact ih (by omega) (by omega)
          case isFalse => rfl

/-- Behind the one suffix of a type that stands ahead. -/
def suffixEnd? (n : Nat) (ts : List Token) : Option (List Token) :=
  let here := significant ts
  match headKind? here with
  | some .question =>
    let after := next here
    match headKind? after with
    | some .identifier => if startsWith .colon (next after) then none else some here.tail
    | some .lBracket | some .greater | some .comma | some .rParen => some here.tail
    | _ => none
  | some .lBracket =>
    let close := skipCommas n (next here)
    if startsWith .rBracket close then some close.tail else none
  | _ => none

/-- A scan of suffixes goes on behind each of them. -/
theorem scanSuffixes_succ (n : Nat) (ts : List Token) :
    scanSuffixes (n + 1) ts = (suffixEnd? n ts).elim ts (scanSuffixes n) := by
  rw [scanSuffixes, suffixEnd?]
  dsimp only
  split
  case h_1 hquestion =>
    split
    case h_1 => split <;> simp_all
    all_goals simp_all
  case h_2 => split <;> simp_all
  case h_3 => simp_all

/-- A suffix is a question mark or a pair of brackets. -/
theorem suffixEnd?_cases {n : Nat} (h : suffixEnd? n ts = some rest) :
    headKind? (significant ts) = some .question ∧ rest = (significant ts).tail ∨
    headKind? (significant ts) = some .lBracket ∧
      startsWith .rBracket (skipCommas n (next (significant ts))) = true ∧
      rest = (skipCommas n (next (significant ts))).tail := by
  rw [suffixEnd?] at h
  dsimp only at h
  split at h
  case h_1 hquestion =>
    split at h
    case h_1 =>
      split at h
      · cases h
      · exact .inl ⟨hquestion, (Option.some.inj h).symm⟩
    case h_2 | h_3 | h_4 | h_5 => exact .inl ⟨hquestion, (Option.some.inj h).symm⟩
    case h_6 => cases h
  case h_2 hbracket =>
    split at h
    case isTrue hclose => exact .inr ⟨hbracket, hclose, (Option.some.inj h).symm⟩
    case isFalse => cases h
  case h_3 => cases h

theorem suffixEnd?_behind {n : Nat} (h : suffixEnd? n ts = some rest) : Behind rest ts := by
  rcases suffixEnd?_cases h with ⟨hquestion, rfl⟩ | ⟨hbracket, -, rfl⟩
  · exact tail_significant_behind hquestion
  · exact (next_significant_behind hbracket).mono
      ((List.tail_suffix _).trans (skipCommas_suffix _ _))

theorem suffixEnd?_eq {n m : Nat} (hn : ts.length ≤ n + 1) (hm : ts.length ≤ m + 1) :
    suffixEnd? n ts = suffixEnd? m ts := by
  have hhere := (Parser.significant_suffix ts).length_le
  have hnext := (next_suffix (significant ts)).length_le
  rw [List.length_tail] at hnext
  have hcommas : skipCommas n (next (significant ts)) = skipCommas m (next (significant ts)) :=
    skipCommas_eq (by omega) (by omega)
  simp only [suffixEnd?, hcommas]

theorem scanSuffixes_suffix (n : Nat) (ts : List Token) : scanSuffixes n ts <:+ ts := by
  induction n generalizing ts with
  | zero => exact List.suffix_refl ts
  | succ n ih =>
      rw [scanSuffixes_succ]
      cases h : suffixEnd? n ts with
      | none => exact List.suffix_refl ts
      | some us => exact (ih us).trans (suffixEnd?_behind h).suffix

theorem scanSuffixes_eq {n m : Nat} (hn : ts.length ≤ n) (hm : ts.length ≤ m) :
    scanSuffixes n ts = scanSuffixes m ts := by
  induction n generalizing m ts with
  | zero =>
      obtain rfl := List.eq_nil_of_length_eq_zero (Nat.le_zero.mp hn)
      cases m <;> rfl
  | succ n ih =>
      cases m with
      | zero =>
          obtain rfl := List.eq_nil_of_length_eq_zero (Nat.le_zero.mp hm)
          rfl
      | succ m =>
          rw [scanSuffixes_succ, scanSuffixes_succ, suffixEnd?_eq hn hm]
          cases h : suffixEnd? m ts with
          | none => rfl
          | some us =>
              have hlt := (suffixEnd?_behind h).length_lt
              exact ih (by omega) (by omega)

/-! ## Names and type arguments -/

/-- A scan that takes a token. -/
def GoesForward (f : Scan) : Prop := ∀ ts rest, f ts = some rest → Behind rest ts

/-- Two scans do the same on fewer than `n` tokens. -/
def SameBelow (n : Nat) (f g : Scan) : Prop := ∀ ts, ts.length < n → f ts = g ts

/-- Behind one slot of a type argument list, and whether another one may follow. -/
def slotEnd? (f : Scan) (ts : List Token) : Option (List Token × Bool) :=
  match headKind? ts with
  | some .comma => some (next ts, true)
  | some .greater => some (ts.tail, false)
  | _ =>
    match f ts with
    | none => none
    | some rest =>
      match headKind? (significant rest) with
      | some .greater => some ((significant rest).tail, false)
      | some .comma => some (next (significant rest), true)
      | _ => none

/-- A scan of slots goes on behind each comma. -/
theorem scanSlots_succ (f : Scan) (n : Nat) (ts : List Token) : scanSlots f (n + 1) ts =
    (slotEnd? f ts).bind fun (rest, more) => if more then scanSlots f n rest else some rest := by
  rw [scanSlots, slotEnd?]
  split
  case h_1 => simp_all
  case h_2 => simp_all
  case h_3 =>
    cases hscan : f ts with
    | none => simp_all
    | some rest =>
        dsimp only
        split <;> simp_all

theorem slotEnd?_behind (hf : GoesForward f) {more : Bool} (h : slotEnd? f ts = some (rest, more)) :
    Behind rest ts := by
  rw [slotEnd?] at h
  split at h
  case h_1 hcomma =>
    obtain ⟨rfl, -⟩ := Prod.mk.inj (Option.some.inj h)
    exact next_behind hcomma
  case h_2 hgreater =>
    obtain ⟨rfl, -⟩ := Prod.mk.inj (Option.some.inj h)
    exact tail_behind hgreater
  case h_3 =>
    split at h
    case h_1 => cases h
    case h_2 behind hscan =>
      split at h
      case h_1 hgreater =>
        obtain ⟨rfl, -⟩ := Prod.mk.inj (Option.some.inj h)
        exact (hf ts behind hscan).mono (tail_significant_behind hgreater).suffix
      case h_2 hcomma =>
        obtain ⟨rfl, -⟩ := Prod.mk.inj (Option.some.inj h)
        exact (hf ts behind hscan).mono (next_significant_behind hcomma).suffix
      case h_3 => cases h

theorem scanSlots_behind (hf : GoesForward f) {n : Nat} (h : scanSlots f n ts = some rest) :
    Behind rest ts := by
  induction n generalizing ts with
  | zero => cases h
  | succ n ih =>
      rw [scanSlots_succ] at h
      obtain ⟨⟨us, more⟩, hslot, hus⟩ := Option.bind_eq_some_iff.mp h
      have hbehind := slotEnd?_behind hf hslot
      cases more with
      | true => exact hbehind.mono (ih hus).suffix
      | false => exact Option.some.inj hus ▸ hbehind

theorem scanSlots_eq (hf : GoesForward f) {n m : Nat} (hn : ts.length < n) (hm : ts.length < m) :
    scanSlots f n ts = scanSlots f m ts := by
  induction n generalizing m ts with
  | zero => exact absurd hn (Nat.not_lt_zero _)
  | succ n ih =>
      obtain ⟨m, rfl⟩ := Nat.exists_eq_add_one_of_ne_zero (Nat.ne_zero_of_lt hm)
      rw [scanSlots_succ, scanSlots_succ]
      refine Option.bind_congr fun ⟨us, more⟩ hslot => ?_
      have hlt := (slotEnd?_behind hf hslot).length_lt
      cases more with
      | true => exact ih (by omega) (by omega)
      | false => rfl

theorem scanSlots_congr (hf : GoesForward f) (h : SameBelow (ts.length + 1) f g) (n : Nat) :
    scanSlots f n ts = scanSlots g n ts := by
  induction n generalizing ts with
  | zero => rfl
  | succ n ih =>
      have hslot : slotEnd? f ts = slotEnd? g ts := by
        rw [slotEnd?, slotEnd?, h ts (Nat.lt_succ_self _)]
      rw [scanSlots_succ, scanSlots_succ, ← hslot]
      refine Option.bind_congr fun ⟨us, more⟩ hend => ?_
      have hlt := (slotEnd?_behind hf hend).length_lt
      cases more with
      | true => exact ih fun us' hus' => h us' (by omega)
      | false => rfl

/-- Behind the last slot is the token that closes the list. -/
theorem greater_of_slotEnd? (hf : GoesForward f) (h : slotEnd? f ts = some (rest, false)) :
    ∃ t, t.kind = .greater ∧ t :: rest <:+ ts := by
  have hclose : ∀ {us : List Token}, us <:+ ts → headKind? us = some .greater → us.tail = rest →
      ∃ t, t.kind = .greater ∧ t :: rest <:+ ts := by
    rintro us hus hgreater rfl
    obtain ⟨t, more, rfl⟩ := List.exists_cons_of_ne_nil (l := us) (by rintro rfl; cases hgreater)
    exact ⟨t, Option.some.inj hgreater, hus⟩
  rw [slotEnd?] at h
  split at h
  case h_1 => cases (Prod.mk.inj (Option.some.inj h)).2
  case h_2 hgreater =>
    exact hclose (List.suffix_refl _) hgreater (Prod.mk.inj (Option.some.inj h)).1
  case h_3 =>
    split at h
    case h_1 => cases h
    case h_2 behind hscan =>
      split at h
      case h_1 hgreater =>
        have hsuffix := (Parser.significant_suffix behind).trans (hf ts behind hscan).suffix
        exact hclose hsuffix hgreater (Prod.mk.inj (Option.some.inj h)).1
      case h_2 => cases (Prod.mk.inj (Option.some.inj h)).2
      case h_3 => cases h

/-- A list of type arguments ends with the token that closes it. -/
theorem greater_of_scanSlots (hf : GoesForward f) {n : Nat} (h : scanSlots f n ts = some rest) :
    ∃ t, t.kind = .greater ∧ t :: rest <:+ ts := by
  induction n generalizing ts with
  | zero => cases h
  | succ n ih =>
      rw [scanSlots_succ] at h
      obtain ⟨⟨us, more⟩, hslot, hus⟩ := Option.bind_eq_some_iff.mp h
      cases more with
      | true =>
          obtain ⟨t, ht, hsuffix⟩ := ih hus
          exact ⟨t, ht, hsuffix.trans (slotEnd?_behind hf hslot).suffix⟩
      | false =>
          obtain rfl := Option.some.inj hus
          exact greater_of_slotEnd? hf hslot

theorem scanTypeArguments_suffix (hf : GoesForward f) (h : scanTypeArguments f ts = some rest) :
    rest <:+ ts.tail := (scanSlots_behind hf h).suffix.trans (next_suffix ts)

theorem scanTypeArguments_congr (hf : GoesForward f) (h : SameBelow ts.length f g) :
    scanTypeArguments f ts = scanTypeArguments g ts := by
  have hnext := (next_suffix ts).length_le
  cases ts with
  | nil => rfl
  | cons t ts => exact scanSlots_congr hf (fun us hus => h us (by simp at hnext ⊢; omega)) _

theorem scanSimpleName_suffix (hf : GoesForward f) (ts : List Token) :
    scanSimpleName f ts <:+ ts.tail := by
  rw [scanSimpleName]
  split
  · cases h : scanTypeArguments f (next ts) with
    | none => exact List.suffix_refl _
    | some rest =>
        exact ((scanTypeArguments_suffix hf h).trans (List.tail_suffix _)).trans (next_suffix ts)
  · exact List.suffix_refl _

theorem scanSimpleName_congr (hf : GoesForward f) (h : SameBelow ts.length f g) :
    scanSimpleName f ts = scanSimpleName g ts := by
  have hnext := ((next_suffix ts).trans (List.tail_suffix ts)).length_le
  rw [scanSimpleName, scanSimpleName, scanTypeArguments_congr hf fun us hus => h us (by omega)]

theorem scanSegments_succ (f : Scan) (n : Nat) (ts : List Token) : scanSegments f (n + 1) ts =
    if startsWith .dot (significant ts) || startsWith .colonColon (significant ts) then
      if startsWith .identifier (next (significant ts)) then
        scanSegments f n (scanSimpleName f (next (significant ts)))
      else none
    else some ts := rfl

theorem segment_behind (hf : GoesForward f)
    (h : (startsWith .dot (significant ts) || startsWith .colonColon (significant ts)) = true) :
    Behind (scanSimpleName f (next (significant ts))) ts := by
  have hname := (scanSimpleName_suffix hf (next (significant ts))).trans (List.tail_suffix _)
  rcases Bool.or_eq_true _ _ |>.mp h with h | h
  · exact (next_significant_behind (eq_of_beq h)).mono hname
  · exact (next_significant_behind (eq_of_beq h)).mono hname

theorem scanSegments_suffix (hf : GoesForward f) {n : Nat} (h : scanSegments f n ts = some rest) :
    rest <:+ ts := by
  induction n generalizing ts with
  | zero => exact (Option.some.inj h ▸ List.suffix_refl _)
  | succ n ih =>
      rw [scanSegments_succ] at h
      split at h
      case isTrue hsegment =>
        split at h
        · exact (ih h).trans (segment_behind hf hsegment).suffix
        · cases h
      case isFalse => exact (Option.some.inj h ▸ List.suffix_refl _)

theorem scanSegments_eq (hf : GoesForward f) {n m : Nat} (hn : ts.length ≤ n) (hm : ts.length ≤ m) :
    scanSegments f n ts = scanSegments f m ts := by
  induction n generalizing m ts with
  | zero =>
      obtain rfl := List.eq_nil_of_length_eq_zero (Nat.le_zero.mp hn)
      cases m <;> rfl
  | succ n ih =>
      cases m with
      | zero =>
          obtain rfl := List.eq_nil_of_length_eq_zero (Nat.le_zero.mp hm)
          rfl
      | succ m =>
          rw [scanSegments_succ, scanSegments_succ]
          split
          case isTrue hsegment =>
            have hlt := (segment_behind hf hsegment).length_lt
            split
            · exact ih (by omega) (by omega)
            · rfl
          case isFalse => rfl

theorem scanSegments_congr (hf : GoesForward f) (h : SameBelow ts.length f g) (n : Nat) :
    scanSegments f n ts = scanSegments g n ts := by
  induction n generalizing ts with
  | zero => rfl
  | succ n ih =>
      have hnext := (next_suffix (significant ts)).trans
        ((List.tail_suffix _).trans (Parser.significant_suffix ts)) |>.length_le
      rw [scanSegments_succ, scanSegments_succ]
      split
      case isTrue hsegment =>
        have hlt := (segment_behind hf hsegment).length_lt
        rw [← scanSimpleName_congr hf fun us hus => h us (by omega)]
        split
        · exact ih fun us hus => h us (by omega)
        · rfl
      case isFalse => rfl

/-! ## Types -/

theorem goesForward_scanTypeWith (hf : GoesForward f) : GoesForward (scanTypeWith f) := by
  intro ts rest h
  rw [scanTypeWith] at h
  split at h
  case h_1 => cases h
  case h_2 k hk =>
    split at h
    case isTrue =>
      obtain rfl := Option.some.inj h
      exact (tail_behind hk).mono (scanSuffixes_suffix _ _)
    case isFalse =>
      split at h
      · obtain ⟨us, hus, rfl⟩ := Option.map_eq_some_iff.mp h
        have hname := (scanSegments_suffix hf hus).trans (scanSimpleName_suffix hf ts)
        exact (tail_behind hk).mono ((scanSuffixes_suffix _ us).trans hname)
      · cases h

/-- Types inside a type have fewer tokens ahead. -/
theorem scanTypeWith_congr (hf : GoesForward f) (h : SameBelow ts.length f g) :
    scanTypeWith f ts = scanTypeWith g ts := by
  rw [scanTypeWith, scanTypeWith, ← scanSimpleName_congr hf h]
  split
  · rfl
  case h_2 k hk =>
    have hname := ((scanSimpleName_suffix hf ts).trans (List.tail_suffix ts)).length_le
    rw [scanSegments_congr hf fun us hus => h us (by omega)]

theorem goesForward_scanTypeWithin (depth : Nat) : GoesForward (scanTypeWithin depth) := by
  induction depth with
  | zero => exact nofun
  | succ depth ih => exact goesForward_scanTypeWith ih

theorem scanTypeWithin_eq {depth depth' : Nat} (h : ts.length < depth) (h' : ts.length < depth') :
    scanTypeWithin depth ts = scanTypeWithin depth' ts := by
  induction depth generalizing depth' ts with
  | zero => exact absurd h (Nat.not_lt_zero _)
  | succ depth ih =>
      obtain ⟨depth', rfl⟩ := Nat.exists_eq_add_one_of_ne_zero (Nat.ne_zero_of_lt h')
      refine scanTypeWith_congr (goesForward_scanTypeWithin depth) fun us hus => ?_
      exact ih (by omega) (by omega)

theorem goesForward_scanType : GoesForward scanType :=
  fun ts => goesForward_scanTypeWithin (ts.length + 1) ts

/-- A scan for a type scans the types inside it like itself. -/
theorem scanType_eq (ts : List Token) : scanType ts = scanTypeWith scanType ts := by
  refine scanTypeWith_congr (goesForward_scanTypeWithin _) fun us hus => ?_
  exact scanTypeWithin_eq hus (Nat.lt_succ_self _)

end CSharpKit.Syntax.Lookahead
