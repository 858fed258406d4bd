import CSharpKit.Proofs.Syntax.Scanning
import CSharpKit.Proofs.Syntax.TypeTrees

/-!
# Lookahead agrees with the reader of types

What a scan recognises as a type is the leaves of the tree of a type, and so the
reader of types takes just these tokens and has nothing to complain about. The one
difference between the two is `::`: the scan lets it stand between any two segments of a
name, and the reader takes it behind the first identifier only.
-/

namespace CSharpKit.Syntax

open Syntax.Tree CSharpKit.Syntax.Parser

/-! ## Kinds of tokens in a row -/

/-- The kinds of the leaves of trees, without trivia. -/
def leafKinds (f : Forest) : List Kind :=
  ((forestLeaves f).map Prod.fst).filter fun k => !k.isTrivia

@[simp] theorem leafKinds_append (f g : Forest) : leafKinds (f ++ g) = leafKinds f ++ leafKinds g := by
  simp [leafKinds, forestLeaves_append]

@[simp] theorem leafKinds_nil : leafKinds [] = [] := rfl

@[simp] theorem leafKinds_node (kind : Kind) (f more : Forest) :
    leafKinds (.node kind f :: more) = leafKinds f ++ leafKinds more := by
  simp [leafKinds, forestLeaves, leaves]

theorem leafKinds_token {k : Kind} (hk : k.isTrivia = false) (text : String) (more : Forest) :
    leafKinds (.token k text :: more) = k :: leafKinds more := by
  simp [leafKinds, forestLeaves, leaves, hk]

theorem leafKinds_gap {g : Forest} (h : IsGap g) : leafKinds g = [] := by
  induction g with
  | nil => rfl
  | cons t g ih =>
      obtain ⟨k, text, rfl, hk⟩ := h t List.mem_cons_self
      have hg := ih fun t ht => h t (List.mem_cons_of_mem _ ht)
      simpa [leafKinds, forestLeaves, leaves, hk] using hg

theorem leafKinds_terminal {k : Kind} {f : Forest} (h : Terminal k f) (hk : k.isTrivia = false) :
    leafKinds f = [k] := by
  obtain ⟨g, text, hg, rfl⟩ := h
  rw [leafKinds_append, leafKinds_gap hg, leafKinds_token hk]
  rfl

/-- A segment that ends with an identifier is no more than that. -/
theorem SimpleTree.leafKinds_cases {t : Tree} (h : SimpleTree t) :
    (∃ text, t = .node .identifierName [.token .identifier text]) ∧ leafKinds [t] = [.identifier] ∨
      ∃ front, leafKinds [t] = front ++ [.greater] := by
  cases h with
  | @identifier text => exact .inl ⟨⟨text, rfl⟩, rfl⟩
  | @generic text less g slots close hg hslots hclose =>
      refine .inr ⟨.identifier :: .less :: leafKinds slots, ?_⟩
      rw [leafKinds_node, leafKinds_token rfl, leafKinds_append, leafKinds_gap hg, leafKinds_node,
        leafKinds_token rfl, leafKinds_append, leafKinds_terminal hclose rfl]
      simp

/-- A name is one identifier, or it ends with `>`, or with an identifier that is not the
first one in it. -/
theorem NameTree.leafKinds_cases {t : Tree} (h : NameTree t) :
    (∃ text, t = .node .identifierName [.token .identifier text]) ∨
      ∃ front last, leafKinds [t] = front ++ [last] ∧ (last = .identifier →
        front.getLast? = some .dot ∨ front.getLast? = some .colonColon) := by
  have hsegment : ∀ {k : Kind} (front : Forest) {mark g : Forest} {u : Tree}, k.isTrivia = false →
      k = .dot ∨ k = .colonColon → Terminal k mark → IsGap g → SimpleTree u →
      leafKinds [t] = leafKinds (front ++ (mark ++ (g ++ [u]))) →
      ∃ front last, leafKinds [t] = front ++ [last] ∧ (last = .identifier →
        front.getLast? = some .dot ∨ front.getLast? = some .colonColon) := by
    intro k front mark g u hplain hk hmark hg hu ht
    simp only [leafKinds_append, leafKinds_terminal hmark hplain, leafKinds_gap hg,
      List.nil_append] at ht
    rcases hu.leafKinds_cases with ⟨-, hlast⟩ | ⟨inner, hlast⟩
    · refine ⟨leafKinds front ++ [k], .identifier, by simp [ht, hlast], fun _ => ?_⟩
      simpa using hk
    · exact ⟨leafKinds front ++ ([k] ++ inner), .greater, by simp [ht, hlast], nofun⟩
  cases h with
  | simple ht =>
      rcases ht.leafKinds_cases with ⟨hident, -⟩ | ⟨front, hlast⟩
      · exact .inl hident
      · exact .inr ⟨front, .greater, hlast, nofun⟩
  | @aliased text colons g u hcolons hg hu =>
      refine .inr (hsegment [.node .identifierName [.token .identifier text]] rfl (.inr rfl)
        hcolons hg hu ?_)
      simp
  | @qualified left u dot g hleft hdot hg hu =>
      refine .inr (hsegment [left] rfl (.inl rfl) hdot hg hu ?_)
      rw [leafKinds_node, List.singleton_append, leafKinds_nil, List.append_nil]

namespace Lookahead

variable {f : Scan} {t : Tree} {ts us rest whole last : List Token}

/-- The kinds of the tokens in a row, without trivia. -/
def kinds (ts : List Token) : List Kind := (ts.map Token.kind).filter fun k => !k.isTrivia

@[simp] theorem kinds_append (ts us : List Token) : kinds (ts ++ us) = kinds ts ++ kinds us := by
  simp [kinds]

theorem kinds_eq_leafKinds {trees : Forest} (h : ts.map Token.leaf = forestLeaves trees) :
    kinds ts = leafKinds trees := by
  rw [kinds, leafKinds, ← h, List.map_map]
  rfl

/-- Each `::` directly follows an identifier, and that is the first one of its name. -/
def AliasesLead (ks : List Kind) : Prop :=
  ∀ n < ks.length, ks[n]? = some .colonColon → (ks.take n).getLast? = some .identifier ∧
    (ks.take n).dropLast.getLast? ≠ some .dot ∧ (ks.take n).dropLast.getLast? ≠ some .colonColon

instance (ks : List Kind) : Decidable (AliasesLead ks) :=
  inferInstanceAs (Decidable (∀ n < ks.length, _))

/-- Each `::` among the tokens in front of the rest follows the first identifier of its name. -/
def Led (ts rest : List Token) : Prop := ∀ front, ts = front ++ rest → AliasesLead (kinds front)

/-! ## Tokens that were scanned are leaves -/

theorem isGap_triviaAhead (ts : List Token) : IsGap (triviaAhead ts) :=
  triviaAhead_all (fun k text hk => ⟨k, text, rfl, hk⟩) ts

theorem spells_triviaAhead (ts : List Token) : Spells (triviaAhead ts) ts (significant ts) :=
  ⟨ts.takeWhile Token.isTrivia, List.takeWhile_append_dropWhile.symm,
    (forestLeaves_map_tree _).symm⟩

/-- The token ahead, with the trivia before it. -/
theorem exists_terminal {k : Kind} (h : headKind? (significant ts) = some k) :
    ∃ c, Terminal k c ∧ Spells c ts (significant ts).tail := by
  cases hts : significant ts with
  | nil => simp [hts, headKind?] at h
  | cons token more =>
      have hkind : token.kind = k := by simpa [hts, headKind?] using h
      refine ⟨triviaAhead ts ++ [.token k token.text], ⟨_, token.text, isGap_triviaAhead ts, rfl⟩,
        spells_append.mpr ⟨significant ts, spells_triviaAhead ts, ?_⟩⟩
      rw [hts]
      exact spells_token.mpr ⟨token, rfl, by rw [Token.tree, hkind]⟩

/-- The same for a token that is no trivia. -/
theorem exists_token {k : Kind} (h : headKind? ts = some k) :
    ∃ text, Spells [.token k text] ts ts.tail := by
  cases ts with
  | nil => cases h
  | cons token more =>
      obtain rfl := Option.some.inj h
      exact ⟨token.text, spells_token.mpr ⟨token, rfl, rfl⟩⟩

theorem exists_commas (n : Nat) (ts : List Token) :
    ∃ cs mid, Commas cs ∧ Spells cs ts mid ∧ skipCommas n (significant ts) = significant mid := by
  induction n generalizing ts with
  | zero => exact ⟨[], ts, .nil, spells_nil.mpr rfl, rfl⟩
  | succ n ih =>
      rw [skipCommas]
      split
      case isTrue hcomma =>
        obtain ⟨c, hc, hspells⟩ := exists_terminal (eq_of_beq hcomma)
        obtain ⟨cs, mid, hcs, hmore, hskip⟩ := ih (significant ts).tail
        exact ⟨c ++ cs, mid, .cons hc hcs, spells_append.mpr ⟨_, hspells, hmore⟩, hskip⟩
      case isFalse => exact ⟨[], ts, .nil, spells_nil.mpr rfl, rfl⟩

/-- In front of `::` a name is no more than an identifier. -/
theorem Led.eq_identifier (h : Led whole last) (ht : NameTree t) (hts : Spells [t] ts us)
    (hkind : kind us = .colonColon) (hwhole : ts <:+ whole) (hlast : last <:+ (significant us).tail) :
    ∃ text, t = .node .identifierName [.token .identifier text] := by
  obtain ⟨before, rfl⟩ := hwhole
  obtain ⟨name, rfl, hname⟩ := hts
  obtain ⟨colons, hcolons, mark, hmark, hleaves⟩ :=
    exists_terminal (headKind?_of_kind hkind (by decide))
  obtain ⟨between, hbetween⟩ := hlast
  have hus : us = mark ++ (between ++ last) := hmark.trans (by rw [hbetween])
  have hkinds : kinds (before ++ (name ++ (mark ++ between))) =
      (kinds before ++ leafKinds [t]) ++ .colonColon :: kinds between := by
    rw [kinds_append, kinds_append, kinds_append, kinds_eq_leafKinds hname,
      kinds_eq_leafKinds hleaves, leafKinds_terminal hcolons rfl]
    simp
  have hled := h (before ++ (name ++ (mark ++ between))) (by simp [hus])
  rw [hkinds] at hled
  obtain ⟨hident, hdot, hcolon⟩ := hled (kinds before ++ leafKinds [t]).length (by simp) (by simp)
  rw [List.take_left] at hident hdot hcolon
  rcases ht.leafKinds_cases with hname | ⟨init, final, hfinal, hinner⟩
  · exact hname
  · rw [hfinal, ← List.append_assoc] at hident hdot hcolon
    rw [List.dropLast_concat] at hdot hcolon
    rcases hinner (by simpa using hident) with hget | hget
    · exact absurd (by simp [List.getLast?_append, hget]) hdot
    · exact absurd (by simp [List.getLast?_append, hget]) hcolon

/-! ## Suffixes -/

/-- Brackets behind a type make a type with it, also if it ends with brackets. -/
theorem exists_ranks {ranks : Forest} (ht : TypeTree t) (hranks : Ranks ranks) (hne : ranks ≠ [])
    (h : Spells (t :: ranks) ts rest) : ∃ t', TypeTree t' ∧ Spells [t'] ts rest := by
  by_cases hkind : t.kind = .arrayType
  · cases ht with
    | keyword | nullable => cases hkind
    | name ht => exact absurd (hkind ▸ ht.kind_not_mem) (by decide)
    | @array u inner hu hnot hinner =>
        refine ⟨_, .array hu hnot (hinner.append hranks) (by simp [hne]), ?_⟩
        obtain ⟨mid, htree, hmore⟩ := spells_cons.mp h
        obtain ⟨mid', hu', hinner'⟩ := spells_cons.mp (spells_node.mp htree)
        exact spells_node.mpr (spells_cons.mpr ⟨mid', hu', spells_append.mpr ⟨mid, hinner', hmore⟩⟩)
  · exact ⟨_, .array ht hkind hranks hne, spells_node.mpr h⟩

theorem exists_suffix {n : Nat} (ht : TypeTree t) (h : Spells [t] ts us)
    (hend : suffixEnd? n us = some rest) : ∃ t', TypeTree t' ∧ Spells [t'] ts rest := by
  rcases suffixEnd?_cases hend with ⟨hquestion, rfl⟩ | ⟨hbracket, hclose, rfl⟩
  · obtain ⟨q, hq, hspells⟩ := exists_terminal hquestion
    exact ⟨_, .nullable ht hq, spells_node.mpr (spells_cons.mpr ⟨us, h, hspells⟩)⟩
  · obtain ⟨c, ⟨g, text, hg, rfl⟩, hspells⟩ := exists_terminal hbracket
    obtain ⟨cs, mid, hcs, hcommas, hskip⟩ := exists_commas n (significant us).tail
    rw [next, hskip] at hclose ⊢
    obtain ⟨close, hterminal, hend⟩ := exists_terminal (eq_of_beq hclose)
    have hranks : Spells (g ++ [.node .arrayRankSpecifier (.token .lBracket text :: (cs ++ close))])
        us (significant mid).tail := by
      refine spells_opened.mpr (spells_append.mpr ⟨_, hspells, ?_⟩)
      exact spells_append.mpr ⟨mid, hcommas, hend⟩
    exact exists_ranks ht (.cons hg hcs hterminal .nil) (by simp) (spells_cons.mpr ⟨us, h, hranks⟩)

theorem exists_suffixes (n : Nat) (ht : TypeTree t) (h : Spells [t] ts us) :
    ∃ t', TypeTree t' ∧ Spells [t'] ts (scanSuffixes n us) := by
  induction n generalizing t us with
  | zero => exact ⟨t, ht, h⟩
  | succ n ih =>
      rw [scanSuffixes_succ]
      cases hend : suffixEnd? n us with
      | none => exact ⟨t, ht, h⟩
      | some rest =>
          obtain ⟨t', ht', h'⟩ := exists_suffix ht h hend
          exact ih ht' h'

/-! ## Type arguments and names -/

/-- What a scan takes of some tokens up to the last ones is always a type. -/
def Finds (f : Scan) (whole last : List Token) : Prop :=
  ∀ ts rest, f ts = some rest → ts <:+ whole → last <:+ rest → ∃ t, TypeTree t ∧ Spells [t] ts rest

section

variable (hf : GoesForward f) (hfinds : Finds f whole last)
include hf hfinds

theorem exists_slots {n : Nat} (h : scanSlots f n (significant us) = some rest)
    (hwhole : us <:+ whole) (hlast : last <:+ rest) : ∃ slots close, Slots slots ∧
      Terminal .greater close ∧ Spells (slots ++ close) us rest := by
  induction n generalizing us with
  | zero => cases h
  | succ n ih =>
      have htail : ∀ ts, ts <:+ whole → (significant ts).tail <:+ whole := fun ts hts =>
        ((List.tail_suffix _).trans (significant_suffix ts)).trans hts
      rw [scanSlots] at h
      split at h
      case h_1 hcomma =>
        obtain ⟨c, hc, hspells⟩ := exists_terminal hcomma
        obtain ⟨slots, close, hslots, hclose, hmore⟩ := ih h (htail us hwhole)
        refine ⟨c ++ slots, close, .comma hc hslots, hclose, ?_⟩
        rw [List.append_assoc]
        exact spells_append.mpr ⟨_, hspells, hmore⟩
      case h_2 hgreater =>
        obtain rfl := Option.some.inj h
        obtain ⟨close, hclose, hspells⟩ := exists_terminal hgreater
        exact ⟨[], close, .nil, hclose, hspells⟩
      case h_3 =>
        split at h
        case h_1 => cases h
        case h_2 behind hscan =>
          have hgap := spells_triviaAhead us
          have htype := hfinds _ _ hscan ((significant_suffix us).trans hwhole)
          have hbehind : behind <:+ whole :=
            ((hf _ _ hscan).suffix.trans (significant_suffix us)).trans hwhole
          dsimp only at h
          split at h
          case h_1 hgreater =>
            obtain rfl := Option.some.inj h
            obtain ⟨close, hclose, hend⟩ := exists_terminal hgreater
            obtain ⟨t, ht, hspells⟩ := htype (hlast.trans (tail_significant_behind hgreater).suffix)
            refine ⟨_, close, .last (isGap_triviaAhead us) ht, hclose, ?_⟩
            exact spells_append.mpr ⟨behind, spells_append.mpr ⟨_, hgap, hspells⟩, hend⟩
          case h_2 hcomma =>
            obtain ⟨c, hc, hsep⟩ := exists_terminal hcomma
            obtain ⟨slots, close, hslots, hclose, hmore⟩ := ih h (htail behind hbehind)
            obtain ⟨t, ht, hspells⟩ := htype (hlast.trans ((scanSlots_behind hf h).suffix.trans
              (next_significant_behind hcomma).suffix))
            refine ⟨_, close, .item (isGap_triviaAhead us) ht hc hslots, hclose, ?_⟩
            rw [List.append_assoc, List.cons_append, List.append_assoc]
            refine spells_append.mpr ⟨_, hgap, spells_cons.mpr ⟨behind, hspells, ?_⟩⟩
            exact spells_append.mpr ⟨_, hsep, hmore⟩
          case h_3 => cases h

/-- An identifier with type arguments. -/
theorem exists_generic (hident : headKind? ts = some .identifier)
    (hless : headKind? (next ts) = some .less)
    (h : scanTypeArguments f (next ts) = some rest) (hwhole : next ts <:+ whole)
    (hlast : last <:+ rest) : ∃ cs, SimpleTree (.node .genericName cs) ∧ Spells [.node .genericName cs] ts rest := by
  obtain ⟨text, hname⟩ := exists_token hident
  obtain ⟨c, ⟨g, less, hg, rfl⟩, hopen⟩ := exists_terminal hless
  obtain ⟨slots, close, hslots, hclose, hspells⟩ :=
    exists_slots hf hfinds h ((List.tail_suffix _).trans hwhole) hlast
  refine ⟨_, @SimpleTree.generic text less g slots close hg hslots hclose, ?_⟩
  refine spells_node.mpr (spells_cons.mpr ⟨_, hname, spells_opened.mpr ?_⟩)
  exact spells_append.mpr ⟨_, hopen, hspells⟩

theorem exists_simple (hident : headKind? ts = some .identifier) (hwhole : ts <:+ whole)
    (hlast : last <:+ scanSimpleName f ts) :
    ∃ t, SimpleTree t ∧ Spells [t] ts (scanSimpleName f ts) := by
  have hplain : ∃ t, SimpleTree t ∧ Spells [t] ts ts.tail := by
    obtain ⟨text, hname⟩ := exists_token hident
    exact ⟨_, .identifier, spells_node.mpr hname⟩
  rw [scanSimpleName] at hlast ⊢
  split
  case isTrue hless =>
    rw [if_pos hless] at hlast
    cases hscan : scanTypeArguments f (next ts) with
    | none => exact hplain
    | some rest =>
        rw [hscan] at hlast
        obtain ⟨cs, ht, hspells⟩ :=
          exists_generic hf hfinds hident (eq_of_beq hless) hscan
            (((next_suffix ts).trans (List.tail_suffix ts)).trans hwhole) hlast
        exact ⟨_, ht, hspells⟩
  case isFalse => exact hplain

theorem exists_segments (hled : Led whole last) {n : Nat} (ht : NameTree t) (hts : Spells [t] ts us)
    (h : scanSegments f n us = some rest) (hwhole : ts <:+ whole) (hlast : last <:+ rest) :
    ∃ t', NameTree t' ∧ Spells [t'] ts rest := by
  induction n generalizing t us with
  | zero => exact ⟨t, ht, Option.some.inj h ▸ hts⟩
  | succ n ih =>
      rw [scanSegments_succ] at h
      split at h
      case isFalse => exact ⟨t, ht, Option.some.inj h ▸ hts⟩
      case isTrue hmark =>
        split at h
        case isFalse => cases h
        case isTrue hident =>
          have hus : us <:+ whole := by
            obtain ⟨name, rfl, -⟩ := hts
            exact (List.suffix_append _ _).trans hwhole
          have hname : next (significant us) <:+ whole := (next_suffix _).trans
            ((List.tail_suffix _).trans ((significant_suffix us).trans hus))
          have hend : last <:+ scanSimpleName f (next (significant us)) :=
            hlast.trans (scanSegments_suffix hf h)
          obtain ⟨u, hu, hsegment⟩ := exists_simple hf hfinds (eq_of_beq hident) hname hend
          have hgap := isGap_triviaAhead (significant us).tail
          have hspells : ∀ {mark : Forest}, Spells mark us (significant us).tail →
              Spells (t :: (mark ++ (triviaAhead (significant us).tail ++ [u]))) ts
                (scanSimpleName f (next (significant us))) := fun hmark =>
            spells_cons.mpr ⟨us, hts, spells_append.mpr ⟨_, hmark, spells_append.mpr
              ⟨_, spells_triviaAhead _, hsegment⟩⟩⟩
          rcases Bool.or_eq_true _ _ |>.mp hmark with hdot | hcolons
          · obtain ⟨dot, hdot, hpoint⟩ := exists_terminal (eq_of_beq hdot)
            exact ih (.qualified ht hdot hgap hu) (spells_node.mpr (hspells hpoint)) h
          · have hkind := kind_of_headKind? (eq_of_beq hcolons)
            obtain ⟨colons, hcolons, hpoints⟩ := exists_terminal (eq_of_beq hcolons)
            obtain ⟨text, rfl⟩ := hled.eq_identifier ht hts hkind hwhole
              ((hend.trans (scanSimpleName_suffix hf _)).trans ((List.tail_suffix _).trans
                (next_suffix _)))
            exact ih (.aliased hcolons hgap hu) (spells_node.mpr (hspells hpoints)) h

/-- One level of nesting more. -/
theorem finds_scanTypeWith (hled : Led whole last) : Finds (scanTypeWith f) whole last := by
  intro ts rest h hwhole hlast
  rw [scanTypeWith] at h
  split at h
  case h_1 => cases h
  case h_2 k hk =>
    split at h
    case isTrue hpredefined =>
      obtain rfl := Option.some.inj h
      obtain ⟨text, hkeyword⟩ := exists_token hk
      exact exists_suffixes _ (.keyword (.inl hpredefined)) (spells_node.mpr hkeyword)
    case isFalse =>
      split at h
      case isFalse => cases h
      case isTrue hident =>
        obtain rfl : k = .identifier := eq_of_beq hident
        obtain ⟨us, hus, rfl⟩ := Option.map_eq_some_iff.mp h
        have hname : last <:+ us := hlast.trans (scanSuffixes_suffix _ _)
        obtain ⟨u, hu, hsegment⟩ :=
          exists_simple hf hfinds hk hwhole (hname.trans (scanSegments_suffix hf hus))
        obtain ⟨t, ht, hspells⟩ :=
          exists_segments hf hfinds hled (.simple hu) hsegment hus hwhole hname
        exact exists_suffixes _ (.name ht) hspells

end

theorem finds_scanTypeWithin (hled : Led whole last) (depth : Nat) :
    Finds (scanTypeWithin depth) whole last := by
  induction depth with
  | zero => exact nofun
  | succ depth ih => exact finds_scanTypeWith (goesForward_scanTypeWithin depth) ih hled

theorem finds_scanType (hled : Led whole last) : Finds scanType whole last :=
  fun ts => finds_scanTypeWithin hled (ts.length + 1) ts

end Lookahead

/-! ## Reading what was scanned -/

namespace Grammar

open Lookahead (scanType scanTypeArguments atGenericName dropSignificant Led finds_scanType)

variable {s : ParserState} {rest : List Token}

/-- Kinds of tokens behind which every caller of a scan looks for a type. -/
def typeFollowers : List Kind := [.identifier, .rParen, .comma, .greater]

theorem endsType_of_follower (h : Lookahead.kind rest ∈ typeFollowers) : EndsType rest := by
  have hfollowers : ∀ k ∈ typeFollowers, k ∉ [Kind.question, .lBracket, .dot, .less, .colonColon] := by
    decide
  exact hfollowers _ h

theorem ne_less_of_followsGenericName {k : Kind} (h : Lookahead.followsGenericName k = true) :
    k ≠ .less := by
  rintro rfl
  cases h

/-- The reader of types takes the tokens that a scan for a type recognised. -/
theorem run_type_of_scanType (hs : Sound s) (h : scanType s.rest = some rest)
    (hled : Led s.rest rest) (hrest : Lookahead.kind rest ∈ typeFollowers) :
    ∃ t, TypeTree t ∧ Spells [t] s.rest rest ∧ type.run s = ((), reading s [t] rest) := by
  obtain ⟨t, ht, hspells⟩ :=
    finds_scanType hled s.rest rest h (List.suffix_refl _) (List.suffix_refl _)
  exact ⟨t, ht, hspells, run_type ht hs isGap_nil hspells (endsType_of_follower hrest)⟩

theorem readsTypes_type (n : Nat) : ReadsTypes type n :=
  fun ht _ hs hg h hrest => run_type ht hs hg h hrest

/-- A name is read with the type arguments that lookahead recognised. -/
theorem run_simpleName_of_atGenericName (hname : Lookahead.kind s.rest = .identifier)
    (h : atGenericName s.rest = true) :
    ∃ rest, scanTypeArguments scanType (dropSignificant 1 s.rest) = some rest ∧
      (Led (dropSignificant 1 s.rest) rest → ∃ cs, SimpleTree (.node .genericName cs) ∧
        Spells (triviaAhead s.rest ++ [.node .genericName cs]) s.rest rest ∧
        (simpleName type true).run s =
          ((), reading s (triviaAhead s.rest ++ [.node .genericName cs]) rest)) := by
  rw [atGenericName, Bool.and_eq_true] at h
  obtain ⟨hless, hscan⟩ := h
  split at hscan
  case h_1 => cases hscan
  case h_2 rest hrest =>
    refine ⟨rest, hrest, fun hled => ?_⟩
    have hfollow : Lookahead.kind rest ≠ .less := by
      rw [Lookahead.kind]
      cases hhead : Lookahead.headKind? (Lookahead.significant rest) with
      | none => decide
      | some k => exact ne_less_of_followsGenericName (by simpa [hhead] using hscan)
    have hident : Lookahead.headKind? (Lookahead.significant s.rest) = some .identifier :=
      headKind?_of_kind hname (by decide)
    obtain ⟨cs, ht, hspells⟩ := Lookahead.exists_generic Lookahead.goesForward_scanType
      (finds_scanType hled) hident (eq_of_beq hless) hrest (List.suffix_refl _) (List.suffix_refl _)
    have hbehind : Spells (triviaAhead s.rest ++ [.node .genericName cs]) s.rest rest :=
      spells_append.mpr ⟨_, Lookahead.spells_triviaAhead s.rest, hspells⟩
    exact ⟨cs, ht, hbehind, run_simpleName (readsTypes_type _) (Lookahead.isGap_triviaAhead _) ht
      (Nat.le_succ _) hbehind fun hless => absurd hless hfollow⟩

/-- Lookahead for a type agrees with the reader of types: in front of what callers look for,
the reader takes just the scanned tokens, as the tree of a type, and has no complaint. It is
the same for a generic name in an expression. -/
theorem types_read_as_scanned {s : ParserState} (hs : Sound s) :
    (∀ rest, scanType s.rest = some rest → Led s.rest rest →
      Lookahead.kind rest ∈ typeFollowers → ∃ t, TypeTree t ∧ Spells [t] s.rest rest ∧
        type.run s = ((), reading s [t] rest)) ∧
    (Lookahead.kind s.rest = .identifier → atGenericName s.rest = true →
      ∃ rest, scanTypeArguments scanType (dropSignificant 1 s.rest) = some rest ∧
        (Led (dropSignificant 1 s.rest) rest → ∃ cs, SimpleTree (.node .genericName cs) ∧
          Spells (triviaAhead s.rest ++ [.node .genericName cs]) s.rest rest ∧
          (simpleName type true).run s =
            ((), reading s (triviaAhead s.rest ++ [.node .genericName cs]) rest))) := by
  constructor
  · intro rest h hled hrest
    exact run_type_of_scanType hs h hled hrest
  · intro hname h
    exact run_simpleName_of_atGenericName hname h

/-- The tokens of `A<B::C>)`, ahead of a parser that has read nothing. -/
def aliasedArgument : ParserState where
  rest := [⟨.identifier, "A", 0⟩, ⟨.less, "<", 1⟩, ⟨.identifier, "B", 2⟩, ⟨.colonColon, "::", 3⟩,
    ⟨.identifier, "C", 5⟩, ⟨.greater, ">", 6⟩, ⟨.rParen, ")", 7⟩]
  builder := .empty
  errors := []
  faults := []

theorem types_read_as_scanned_aliasedArgument :
    (∃ t, TypeTree t ∧ type.run aliasedArgument =
      ((), reading aliasedArgument [t] [⟨.rParen, ")", 7⟩])) ∧
    ∃ cs, (simpleName type true).run aliasedArgument =
      ((), reading aliasedArgument [.node .genericName cs] [⟨.rParen, ")", 7⟩]) := by
  have hled : ∀ ts, Lookahead.AliasesLead (Lookahead.kinds ts) →
      Led (ts ++ [⟨.rParen, ")", 7⟩]) [⟨.rParen, ")", 7⟩] := by
    intro ts hts front hfront
    rwa [← List.append_cancel_right hfront]
  obtain ⟨htype, hname⟩ := types_read_as_scanned (s := aliasedArgument) rfl
  obtain ⟨t, ht, -, hrun⟩ := htype [⟨.rParen, ")", 7⟩] rfl
    (hled (aliasedArgument.rest.take 6) (by decide)) (by decide)
  obtain ⟨rest, hscan, hgeneric⟩ := hname rfl rfl
  obtain rfl : rest = [⟨.rParen, ")", 7⟩] := (Option.some.inj hscan).symm
  obtain ⟨cs, -, -, hrun'⟩ := hgeneric (hled ((aliasedArgument.rest.take 6).drop 1) (by decide))
  exact ⟨⟨t, ht, hrun⟩, cs, hrun'⟩

end Grammar

end CSharpKit.Syntax
