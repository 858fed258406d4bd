import CSharpKit.Proofs.Syntax.Fragments
import CSharpKit.Proofs.Syntax.Runs

/-!
# Trees of types

`TypeTree` lists the trees of types that are written without a mistake, with trivia
before any token but the first. Where the leaves of such a tree are ahead, the reader of
types makes just this tree and has nothing to complain about, if what follows cannot
go on with the type.
-/

namespace CSharpKit.Syntax

open Tree CSharpKit.Syntax.Parser

/-! ## Trees -/

/-- Commas, each behind trivia. -/
inductive Commas : Forest → Prop
  | nil : Commas []
  | cons {c f : Forest} (hc : Terminal .comma c) (hf : Commas f) : Commas (c ++ f)

/-- Brackets with commas in them, each pair behind trivia. -/
inductive Ranks : Forest → Prop
  | nil : Ranks []
  | cons {g cs close f : Forest} {text : String} (hg : IsGap g) (hcs : Commas cs)
      (hclose : Terminal .rBracket close) (hf : Ranks f) :
      Ranks (g ++ .node .arrayRankSpecifier (.token .lBracket text :: (cs ++ close)) :: f)

mutual

/-- The tree of a type. -/
inductive TypeTree : Tree → Prop
  | keyword {k : Kind} {text : String} (hk : k.isPredefinedType = true ∨ k = .voidKw) :
      TypeTree (.node .predefinedType [.token k text])
  | name {t : Tree} (ht : NameTree t) : TypeTree t
  | nullable {t : Tree} {q : Forest} (ht : TypeTree t) (hq : Terminal .question q) :
      TypeTree (.node .nullableType (t :: q))
  | array {t : Tree} {ranks : Forest} (ht : TypeTree t) (hkind : t.kind ≠ .arrayType)
      (hranks : Ranks ranks) (hne : ranks ≠ []) : TypeTree (.node .arrayType (t :: ranks))

/-- The tree of a name with its qualifiers. -/
inductive NameTree : Tree → Prop
  | simple {t : Tree} (ht : SimpleTree t) : NameTree t
  | aliased {text : String} {colons g : Forest} {t : Tree} (hcolons : Terminal .colonColon colons)
      (hg : IsGap g) (ht : SimpleTree t) : NameTree (.node .aliasQualifiedName
        (.node .identifierName [.token .identifier text] :: (colons ++ (g ++ [t]))))
  | qualified {left t : Tree} {dot g : Forest} (hleft : NameTree left)
      (hdot : Terminal .dot dot) (hg : IsGap g) (ht : SimpleTree t) :
      NameTree (.node .qualifiedName (left :: (dot ++ (g ++ [t]))))

/-- The tree of one segment of a name. -/
inductive SimpleTree : Tree → Prop
  | identifier {text : String} : SimpleTree (.node .identifierName [.token .identifier text])
  | generic {text less : String} {g slots close : Forest} (hg : IsGap g) (hslots : Slots slots)
      (hclose : Terminal .greater close) : SimpleTree (.node .genericName
        (.token .identifier text ::
          (g ++ [.node .typeArgumentList (.token .less less :: (slots ++ close))])))

/-- The slots of type arguments, which may be empty. -/
inductive Slots : Forest → Prop
  | nil : Slots []
  | comma {c f : Forest} (hc : Terminal .comma c) (hf : Slots f) : Slots (c ++ f)
  | last {g : Forest} {t : Tree} (hg : IsGap g) (ht : TypeTree t) : Slots (g ++ [t])
  | item {g c f : Forest} {t : Tree} (hg : IsGap g) (ht : TypeTree t) (hc : Terminal .comma c)
      (hf : Slots f) : Slots (g ++ t :: (c ++ f))

end

theorem Ranks.append {f g : Forest} (hf : Ranks f) (hg : Ranks g) : Ranks (f ++ g) := by
  induction hf with
  | nil => exact hg
  | cons hgap hcs hclose _ ih =>
      rw [List.append_assoc, List.cons_append]
      exact .cons hgap hcs hclose ih

theorem NameTree.kind_not_mem {t : Tree} (h : NameTree t) :
    t.kind ∉ [Kind.predefinedType, .arrayType, .nullableType] := by
  cases h with
  | simple h => cases h <;> simp [Tree.kind]
  | aliased | qualified => simp [Tree.kind]

/-- The kinds of trees of types write types. -/
theorem TypeTree.isType {t : Tree} (h : TypeTree t) : t.isNode = true ∧ t.kind.isType = true := by
  cases h with
  | keyword | nullable | array => exact ⟨rfl, rfl⟩
  | name h =>
      cases h with
      | simple h => cases h <;> exact ⟨rfl, rfl⟩
      | aliased | qualified => exact ⟨rfl, rfl⟩

/-! ## The first token -/

/-- The first leaf of a tree is a token that is no trivia. -/
def Opens (k : Kind) (t : Tree) : Prop := ∃ text more, t.leaves = (k, text) :: more

theorem Opens.node {k kind : Kind} {t : Tree} (h : Opens k t) (more : Forest) :
    Opens k (.node kind (t :: more)) := by
  obtain ⟨text, leaves, h⟩ := h
  exact ⟨text, leaves ++ forestLeaves more, by simp [Tree.leaves, forestLeaves, h]⟩

theorem Opens.token (k : Kind) (text : String) : Opens k (.token k text) := ⟨text, [], rfl⟩

theorem SimpleTree.opens {t : Tree} (h : SimpleTree t) : Opens .identifier t := by
  cases h with
  | identifier => exact (Opens.token _ _).node _
  | generic => exact (Opens.token _ _).node _

theorem NameTree.opens {t : Tree} (h : NameTree t) : Opens .identifier t :=
  match h with
  | .simple ht => ht.opens
  | .aliased .. => ((Opens.token _ _).node _).node _
  | .qualified hleft .. => hleft.opens.node _

/-- Kinds of tokens that a type begins with. -/
def opensType (k : Kind) : Bool := k == .identifier || k.isPredefinedType || k == .voidKw

theorem TypeTree.opens {t : Tree} (h : TypeTree t) : ∃ k, opensType k = true ∧ Opens k t :=
  match h with
  | .keyword (k := k) hk => ⟨k, by rcases hk with hk | hk <;> simp [opensType, hk],
      (Opens.token _ _).node _⟩
  | .name ht => ⟨.identifier, rfl, ht.opens⟩
  | .nullable ht _ => ht.opens.imp fun _ h => ⟨h.1, h.2.node _⟩
  | .array ht .. => ht.opens.imp fun _ h => ⟨h.1, h.2.node _⟩

theorem isPlain_of_opensType {k : Kind} (h : opensType k = true) : IsPlain k := by
  constructor
  · cases k <;> first | rfl | exact absurd h (by decide)
  · rintro rfl
    exact absurd h (by decide)

section

variable {s s' : ParserState} {t : Tree} {g f : Forest} {ts rest : List Token} {k : Kind}

theorem Opens.exists_token (h : Opens k t) (hts : Spells [t] ts rest) :
    ∃ token more, ts = token :: more ∧ token.kind = k := by
  obtain ⟨text, leaves, hleaves⟩ := h
  obtain ⟨front, rfl, hfront⟩ := hts
  simp only [forestLeaves, hleaves, List.cons_append, List.map_eq_cons_iff] at hfront
  obtain ⟨token, more, rfl, htoken, -⟩ := hfront
  exact ⟨token, more ++ rest, rfl, congrArg Prod.fst htoken⟩

theorem Opens.leaves_ne_nil (h : Opens k t) : t.leaves ≠ [] := by
  obtain ⟨text, more, hleaves⟩ := h
  simp [hleaves]

theorem Opens.solid (h : Opens k t) (hk : k.isTrivia = false) (hts : Spells [t] ts rest) :
    Solid ts := by
  obtain ⟨token, more, rfl, rfl⟩ := h.exists_token hts
  exact ⟨token, more, rfl, hk⟩

theorem Opens.kind (h : Opens k t) (hk : k.isTrivia = false) (hts : Spells [t] ts rest) :
    Lookahead.kind ts = k := by
  obtain ⟨token, more, rfl, rfl⟩ := h.exists_token hts
  have htrivia : token.isTrivia = false := hk
  simp [Lookahead.kind, Lookahead.significant, Lookahead.headKind?, htrivia]

/-- The tokens are solid where a tree opens behind trivia. -/
theorem Opens.kind_of_gap (h : Opens k t) (hk : k.isTrivia = false) (hg : IsGap g)
    (hts : Spells (g ++ [t]) ts rest) : Lookahead.kind ts = k := by
  obtain ⟨mid, hgap, htree⟩ := spells_append.mp hts
  obtain ⟨-, hsignificant⟩ := triviaAhead_of_gap hg hgap (h.solid hk htree)
  rw [← kind_significant, hsignificant, h.kind hk htree]

end

/-! ## Ranks -/

/-- The token behind an opening bracket. -/
theorem Commas.kind_append {close f : Forest} {ts rest : List Token} (hf : Commas f) (hclose : Terminal .rBracket close)
    (h : Spells (f ++ close) ts rest) :
    Lookahead.kind ts = .rBracket ∨ Lookahead.kind ts = .comma := by
  cases hf with
  | nil => exact .inl (hclose.kind rfl h)
  | cons hc =>
      rw [List.append_assoc] at h
      obtain ⟨mid, hcomma, -⟩ := spells_append.mp h
      exact .inr (hc.kind rfl hcomma)

/-- Brackets begin with one. -/
theorem Ranks.kind {f : Forest} {ts rest : List Token} (hf : Ranks f) (hne : f ≠ [])
    (h : Spells f ts rest) : Lookahead.kind ts = .lBracket ∧ rest.length < ts.length := by
  cases hf with
  | nil => exact absurd rfl hne
  | @cons g cs close f text hg hcs hclose hf =>
      have hlength := h.length
      rw [← List.singleton_append, ← List.append_assoc] at h
      obtain ⟨mid, hrank, -⟩ := spells_append.mp h
      refine ⟨((Opens.token .lBracket text).node _).kind_of_gap rfl hg hrank, ?_⟩
      simp only [forestLeaves_append, forestLeaves, leaves, List.length_append,
        List.length_cons] at hlength
      omega

namespace Grammar

variable {s s' : ParserState} {t : Tree} {g f : Forest} {ts rest : List Token}

theorem loopEnds_commas (hf : Commas f) (h : Spells f s.rest rest)
    (hrest : Lookahead.kind rest ≠ .comma) :
    LoopEnds (eat .comma) s (reading s f rest) := by
  induction hf generalizing s with
  | nil =>
      obtain rfl := spells_nil.mp h
      exact LoopEnds.last (run_eat_of_not hrest)
  | @cons c f hc _ ih =>
      obtain ⟨mid, hcomma, hmore⟩ := spells_append.mp h
      have hlength := hcomma.length
      have hpos := List.length_pos_of_ne_nil hc.ne_nil
      refine LoopEnds.next (run_eat hc ⟨rfl, by decide⟩ hcomma) ?_ ?_
      · rw [rest_reading]
        omega
      · have hloop := ih (s := reading s c mid) hmore
        rwa [reading_reading] at hloop

theorem run_rankSpecifier {cs close : Forest} {text : String} (hg : IsGap g) (hcs : Commas cs)
    (hclose : Terminal .rBracket close)
    (h : Spells (g ++ [.node .arrayRankSpecifier (.token .lBracket text :: (cs ++ close))]) s.rest
      rest) : rankSpecifier.run s = ((), reading s
        (g ++ [.node .arrayRankSpecifier (.token .lBracket text :: (cs ++ close))]) rest) := by
  obtain ⟨mid, hgap, hnode⟩ := spells_append.mp h
  have hsolid : Solid mid := ((Opens.token .lBracket text).node _).solid rfl hnode
  obtain ⟨ts₁, hopen, hmore⟩ := spells_cons.mp (spells_node.mp hnode)
  obtain ⟨ts₂, hcommas, hend⟩ := spells_append.mp hmore
  have hne : Lookahead.kind ts₂ ≠ .comma := by
    rw [hclose.kind rfl hend]
    decide
  refine run_node hg hgap hsolid ?_
  rw [run_bind (run_bump (terminal_token _ text) ⟨rfl, by decide⟩ hopen),
    run_bind (loopEnds_commas hcs hcommas hne).run,
    run_require hclose ⟨rfl, by decide⟩ hend]
  simp

/-- A step of the loop over brackets. -/
theorem run_rankSpecifiers (hf : Ranks f) (h : Spells f s.rest rest)
    (hrest : Lookahead.kind rest ≠ .lBracket) :
    rankSpecifiers.run s = ((), reading s f rest) := by
  refine LoopEnds.run ?_
  have hstep : ∀ s : ParserState, (do
      if ← ask (Lookahead.kind · == .lBracket) then
        rankSpecifier
        return true
      else
        return false : Parser Bool).run s = (if (Lookahead.kind s.rest == .lBracket) = true
          then rankSpecifier >>= fun _ => pure true else pure false : Parser Bool).run s :=
    fun _ => rfl
  induction hf generalizing s with
  | nil =>
      obtain rfl := spells_nil.mp h
      refine LoopEnds.last ?_
      rw [hstep, if_neg (by simpa using hrest)]
      rfl
  | @cons g cs close f text hg hcs hclose _ ih =>
      rw [← List.singleton_append, ← List.append_assoc] at h
      obtain ⟨mid, hrank, hmore⟩ := spells_append.mp h
      have hkind : Lookahead.kind s.rest = .lBracket :=
        ((Opens.token .lBracket text).node _).kind_of_gap rfl hg hrank
      have hlength := hrank.length
      have hrun := run_rankSpecifier hg hcs hclose hrank
      refine LoopEnds.next (by rw [hstep, if_pos (by simp [hkind]), run_bind hrun]; rfl) ?_ ?_
      · rw [rest_reading]
        simp only [forestLeaves_append, forestLeaves, leaves, List.append_nil, List.length_append,
          List.length_cons] at hlength
        omega
      · have hloop := ih (s := reading s (g ++ [.node .arrayRankSpecifier
          (.token .lBracket text :: (cs ++ close))]) mid) hmore
        rwa [reading_reading, List.append_assoc, List.singleton_append] at hloop

/-! ## Suffixes -/

theorem run_typeSuffix_nullable {q : Forest} (hs : Sound s) (hq : Terminal .question q)
    (h : Spells q ts rest) : (typeSuffix s.builder.mark).run (reading s [t] ts) =
      (true, reading s [.node .nullableType (t :: q)] rest) := by
  have hkind : Lookahead.kind ts = .question := hq.kind rfl h
  have hbump := run_bump (s := opening (reading s [t] ts) .nullableType s.builder.mark) hq
    ⟨rfl, by decide⟩ h
  rw [reading_opening, reading_reading] at hbump
  have hnode := run_nodeFrom hs hbump
  rw [typeSuffix, peek, run_ask_bind, rest_reading, hkind]
  exact run_bind hnode

theorem run_typeSuffix_array (hs : Sound s) (hf : Ranks f) (hne : f ≠ []) (h : Spells f ts rest)
    (hrest : Lookahead.kind rest ≠ .lBracket) :
    (typeSuffix s.builder.mark).run (reading s [t] ts) =
      (true, reading s [.node .arrayType (t :: f)] rest) := by
  have hranks := run_rankSpecifiers (s := opening (reading s [t] ts) .arrayType s.builder.mark) hf h
    hrest
  rw [reading_opening, reading_reading] at hranks
  have hnode := run_nodeFrom hs hranks
  cases hf with
  | nil => exact absurd rfl hne
  | @cons g cs close f text hg hcs hclose hf =>
      rw [← List.singleton_append, ← List.append_assoc] at h
      obtain ⟨mid, hrank, -⟩ := spells_append.mp h
      have hkind : Lookahead.kind ts = .lBracket :=
        ((Opens.token .lBracket text).node _).kind_of_gap rfl hg hrank
      have hnext : (Lookahead.kindAt? 1 ts == some .rBracket ||
          Lookahead.kindAt? 1 ts == some .comma) = true := by
        obtain ⟨ts₁, hmore, hnext⟩ := kindAt?_one_of_node hg rfl hrank
        rw [hnext]
        rcases hcs.kind_append hclose hmore with hkind | hkind
        · simp [headKind?_of_kind hkind (by decide)]
        · simp [headKind?_of_kind hkind (by decide)]
      rw [typeSuffix, peek, run_ask_bind, rest_reading, hkind]
      show (if (Lookahead.kindAt? 1 ts == some .rBracket || Lookahead.kindAt? 1 ts == some .comma) =
          true then nodeFrom s.builder.mark .arrayType rankSpecifiers >>= fun _ => pure true
        else pure false : Parser Bool).run _ = _
      rw [if_pos hnext]
      exact run_bind hnode

theorem run_typeSuffix_none {m : Nat} (hquestion : Lookahead.kind s.rest ≠ .question)
    (hbracket : Lookahead.kind s.rest ≠ .lBracket) : (typeSuffix m).run s = (false, s) := by
  rw [typeSuffix, peek, run_ask_bind]
  split
  · exact absurd ‹_› hquestion
  · exact absurd ‹_› hbracket
  · rfl

/-! ## Names -/

/-- What can stand behind a type without going on with it. -/
def EndsType (ts : List Token) : Prop :=
  Lookahead.kind ts ∉ [Kind.question, .lBracket, .dot, .less, .colonColon]

/-- The last token of a type is an identifier, so that a `<` behind it would go on with it. -/
def EndsInName (t : Tree) : Prop := t.leaves.getLast?.map Prod.fst = some .identifier

instance (t : Tree) : Decidable (EndsInName t) := inferInstanceAs (Decidable (_ = _))

/-- What stands behind this type does not go on with it. -/
def Ends (t : Tree) (ts : List Token) : Prop :=
  Lookahead.kind ts ∉ [Kind.question, .lBracket, .dot, .colonColon] ∧
    (Lookahead.kind ts = .less → ¬EndsInName t)

theorem EndsType.ends (h : EndsType rest) : Ends t rest := by
  simp only [EndsType, List.mem_cons, List.not_mem_nil, or_false, not_or] at h
  refine ⟨?_, fun hless => absurd hless h.2.2.2.1⟩
  simp only [List.mem_cons, List.not_mem_nil, or_false, not_or]
  exact ⟨h.1, h.2.1, h.2.2.1, h.2.2.2.2⟩

/-- A node ends with its last child. -/
theorem endsInName_node (kind : Kind) (front : Forest) (hne : t.leaves ≠ []) :
    EndsInName (.node kind (front ++ [t])) ↔ EndsInName t := by
  simp [EndsInName, leaves, forestLeaves_append, forestLeaves, List.getLast?_append,
    List.getLast?_eq_some_getLast hne]

/-- A parser reads all trees of types with up to `n` tokens. -/
def ReadsTypes (inner : Parser Unit) (n : Nat) : Prop :=
  ∀ {t : Tree} {g : Forest} {s : ParserState} {rest : List Token}, TypeTree t →
    t.leaves.length ≤ n → Sound s → IsGap g → Spells (g ++ [t]) s.rest rest → EndsType rest →
    inner.run s = ((), reading s (g ++ [t]) rest)

/-- One slot of type arguments; `false` behind the last one. -/
def slot (inner : Parser Unit) : Parser Bool := do
  if ← isAtAny [.greater, .eof] then
    return false
  else if ← eat .comma then
    return true
  else
    inner
    eat .comma

/-- Behind the first token of a segment are its type arguments or what follows. -/
theorem kindAt?_one_of_simple {k : Kind} (ht : SimpleTree t) (h : Spells [t] ts rest)
    (hk : Lookahead.kindAt? 1 ts = some k) : k = .less ∨ Lookahead.kind rest = k := by
  cases ht with
  | identifier =>
      obtain ⟨mid, hmore, hnext⟩ := kindAt?_one_of_node isGap_nil rfl h
      obtain rfl := spells_nil.mp hmore
      exact .inr (kind_of_headKind? (hnext.symm.trans hk))
  | @generic text less g slots close hg hslots hclose =>
      obtain ⟨mid, hmore, hnext⟩ := kindAt?_one_of_node isGap_nil rfl h
      have hless := ((Opens.token .less less).node _).kind_of_gap rfl hg hmore
      exact .inl ((kind_of_headKind? (hnext.symm.trans hk)).symm.trans hless)

/-- One more segment of a name that starts at a mark; `false` behind the last one. -/
def segment (inner : Parser Unit) (start : Nat) : Parser Bool := do
  if ← ask atSegment then
    nodeFrom start .qualifiedName do
      bump
      simpleName inner true
    return true
  else
    return false

theorem name_eq (inner : Parser Unit) : name inner true = (mark >>= fun start =>
    nameHead inner start true >>= fun _ => loop (segment inner start)) := rfl

theorem run_leaf (kind : Kind) {k : Kind} {text : String} (hk : IsPlain k)
    (h : Spells [.node kind [.token k text]] s.rest rest) :
    (leaf kind).run s = ((), reading s [.node kind [.token k text]] rest) := by
  have hsolid : Solid s.rest := ((Opens.token k text).node _).solid hk.1 h
  have hbump := run_bump (s := opening s kind s.builder.mark) (terminal_token k text) hk
    (spells_node.mp h)
  exact run_node isGap_nil (spells_nil.mpr rfl) hsolid hbump

section

variable {inner : Parser Unit} {n : Nat} (hinner : ReadsTypes inner n)

theorem run_slot_of_comma {c : Forest} (hc : Terminal .comma c) (h : Spells c s.rest rest) :
    (slot inner).run s = (true, reading s c rest) := by
  rw [slot, isAtAny, run_ask_bind, hc.kind rfl h, if_neg (by decide),
    run_bind (run_eat hc ⟨rfl, by decide⟩ h)]
  rfl

include hinner

theorem run_slot_of_type (hs : Sound s) (hg : IsGap g) (ht : TypeTree t)
    (hn : t.leaves.length ≤ n) (h : Spells (g ++ [t]) s.rest ts) (hend : EndsType ts) :
    (slot inner).run s = (eat .comma).run (reading s (g ++ [t]) ts) := by
  obtain ⟨k, hk, hopens⟩ := ht.opens
  have hkind : Lookahead.kind s.rest = k :=
    hopens.kind_of_gap (isPlain_of_opensType hk).1 hg h
  have hkinds : ∀ k : Kind, opensType k = true → [Kind.greater, .eof].contains k = false ∧
      k ≠ .comma := by
    intro k hk
    cases k <;> first | exact absurd hk (by decide) | exact ⟨rfl, by decide⟩
  have hcomma : Lookahead.kind s.rest ≠ .comma := hkind ▸ (hkinds k hk).2
  rw [slot, isAtAny, run_ask_bind, hkind, if_neg (by rw [(hkinds k hk).1]; decide),
    run_bind (run_eat_of_not hcomma), if_neg (by decide), run_bind (hinner ht hn hs hg h hend)]

theorem loopEnds_slots {f : Forest} (hf : Slots f) {s : ParserState} (hs : Sound s)
    (hn : (forestLeaves f).length ≤ n) (h : Spells f s.rest rest)
    (hrest : Lookahead.kind rest = .greater) : LoopEnds (slot inner) s (reading s f rest) := by
  -- By the number of leaves, since slots have types in them and types have slots.
  induction hlength : (forestLeaves f).length using Nat.strong_induction_on generalizing f s with
  | h size ih =>
      subst hlength
      cases hf with
      | nil =>
          obtain rfl := spells_nil.mp h
          refine LoopEnds.last ?_
          rw [slot, isAtAny, run_ask_bind, hrest, if_pos (by decide)]
          rfl
      | @comma c f hc hf =>
          obtain ⟨mid, hcomma, hmore⟩ := spells_append.mp h
          have hlength := hcomma.length
          have hpos := List.length_pos_of_ne_nil hc.ne_nil
          rw [forestLeaves_append, List.length_append] at hn
          refine LoopEnds.next (run_slot_of_comma hc hcomma) (by rw [rest_reading]; omega) ?_
          have hless : (forestLeaves f).length < (forestLeaves (c ++ f)).length := by
            rw [forestLeaves_append, List.length_append]
            omega
          have hloop := ih _ hless hf (s := reading s c mid) (sound_reading hs) (by omega) hmore rfl
          rwa [reading_reading] at hloop
      | @last g t hg ht =>
          have hends : EndsType rest := by rw [EndsType, hrest]; decide
          rw [forestLeaves_append, List.length_append] at hn
          refine LoopEnds.last ?_
          rw [run_slot_of_type hinner hs hg ht (by simp [forestLeaves] at hn; omega) h hends]
          exact run_eat_of_not (by rw [rest_reading, hrest]; decide)
      | @item g c f t hg ht hc hf =>
          have hpos := List.length_pos_of_ne_nil hc.ne_nil
          have hless : (forestLeaves f).length < (forestLeaves (g ++ t :: (c ++ f))).length := by
            simp only [forestLeaves_append, forestLeaves, List.length_append]
            omega
          rw [← List.singleton_append, ← List.append_assoc] at h
          obtain ⟨ts₁, htype, hmore⟩ := spells_append.mp h
          obtain ⟨ts₂, hcomma, hmore⟩ := spells_append.mp hmore
          have hends : EndsType ts₁ := by rw [EndsType, hc.kind rfl hcomma]; decide
          have hlength := htype.length
          have hlength' := hcomma.length
          simp only [forestLeaves_append, forestLeaves, List.length_append] at hn
          have hrun := run_slot_of_type hinner hs hg ht (by omega) htype hends
          rw [run_eat hc ⟨rfl, by decide⟩ (s := reading s (g ++ [t]) ts₁) hcomma] at hrun
          refine LoopEnds.next hrun (by rw [rest_reading]; omega) ?_
          have hloop := ih _ hless hf (s := reading (reading s (g ++ [t]) ts₁) c ts₂)
            (sound_reading (sound_reading hs)) (by omega) hmore rfl
          simpa using hloop

theorem run_typeArgumentList {slots close : Forest} {less : String} (hg : IsGap g)
    (hslots : Slots slots) (hclose : Terminal .greater close)
    (hn : (forestLeaves slots).length ≤ n)
    (h : Spells (g ++ [.node .typeArgumentList (.token .less less :: (slots ++ close))]) s.rest
      rest) : (typeArgumentList inner).run s = ((), reading s
        (g ++ [.node .typeArgumentList (.token .less less :: (slots ++ close))]) rest) := by
  obtain ⟨mid, hgap, hnode⟩ := spells_append.mp h
  have hsolid : Solid mid := ((Opens.token .less less).node _).solid rfl hnode
  obtain ⟨ts₁, hopen, hmore⟩ := spells_cons.mp (spells_node.mp hnode)
  obtain ⟨ts₂, hinside, hend⟩ := spells_append.mp hmore
  refine run_node hg hgap hsolid ?_
  rw [run_bind (run_require (terminal_token _ less) ⟨rfl, by decide⟩ hopen _)]
  have hloop := loopEnds_slots hinner hslots (s := reading (opening (reading s g mid) .typeArgumentList
    (reading s g mid).builder.mark) [.token .less less] ts₁) (sound_reading (sound_opening (Extends.refl _) _)) hn
    hinside (hclose.kind rfl hend)
  refine (run_bind hloop.run).trans ?_
  rw [run_require hclose ⟨rfl, by decide⟩ hend]
  simp

theorem run_simpleName (hg : IsGap g) (ht : SimpleTree t)
    (hn : t.leaves.length ≤ n + 1) (h : Spells (g ++ [t]) s.rest rest)
    (hrest : Lookahead.kind rest = .less → ¬EndsInName t) :
    (simpleName inner true).run s = ((), reading s (g ++ [t]) rest) := by
  have hkind : Lookahead.kind s.rest = .identifier := ht.opens.kind_of_gap rfl hg h
  obtain ⟨mid, hgap, htree⟩ := spells_append.mp h
  have hsolid : Solid mid := ht.opens.solid rfl htree
  rw [simpleName]
  show (if (true && Lookahead.kind s.rest == .identifier && Lookahead.kindAt? 1 s.rest == some .less) =
      true then node .genericName (bump >>= fun _ => typeArgumentList inner)
    else node .identifierName (require .identifier "expected name") : Parser Unit).run s = _
  cases ht with
  | @identifier text =>
      obtain ⟨ts₁, hmore, hnext⟩ := kindAt?_one_of_node hg rfl h
      obtain rfl := spells_nil.mp hmore
      have hless : Lookahead.kindAt? 1 s.rest ≠ some .less :=
        fun hless => hrest (kind_of_headKind? (hnext.symm.trans hless)) rfl
      rw [if_neg (by simp [hless])]
      refine run_node hg hgap hsolid ?_
      rw [run_require (terminal_token _ text) ⟨rfl, by decide⟩ (spells_node.mp htree)]
      simp
  | @generic text less g' slots close hg' hslots hclose =>
      obtain ⟨ts₁, hmore, hnext⟩ := kindAt?_one_of_node hg rfl h
      have hless : Lookahead.kindAt? 1 s.rest = some .less := by
        rw [hnext, headKind?_of_kind (((Opens.token .less less).node _).kind_of_gap rfl hg' hmore)
          (by decide)]
      rw [if_pos (by simp [hkind, hless])]
      refine run_node hg hgap hsolid ?_
      obtain ⟨ts₂, hident, hlist⟩ := spells_cons.mp (spells_node.mp htree)
      rw [run_bind (run_bump (terminal_token _ text) ⟨rfl, by decide⟩ hident)]
      simp only [leaves, forestLeaves, forestLeaves_append, List.length_append, List.length_cons,
        List.append_nil] at hn
      rw [run_typeArgumentList hinner hg' hslots
        hclose (by omega) hlist]
      simp

theorem run_segment (left : Tree) {dot : Forest} (hs : Sound s) (hdot : Terminal .dot dot)
    (hg : IsGap g) (ht : SimpleTree t) (hn : t.leaves.length ≤ n + 1)
    (h : Spells (dot ++ (g ++ [t])) ts rest)
    (hrest : Lookahead.kind rest = .less → ¬EndsInName t) :
    (segment inner s.builder.mark).run (reading s [left] ts) =
      (true, reading s [.node .qualifiedName (left :: (dot ++ (g ++ [t])))] rest) := by
  obtain ⟨mid, hpoint, hmore⟩ := spells_append.mp h
  have hident : Lookahead.kind mid = .identifier := ht.opens.kind_of_gap rfl hg hmore
  have hat : atSegment ts = true := by
    rw [atSegment, hdot.kind rfl hpoint, hdot.kindAt?_one rfl hpoint,
      headKind?_of_kind hident (by decide)]
    rfl
  have hbody : (bump >>= fun _ => simpleName inner true).run
      (opening (reading s [left] ts) .qualifiedName s.builder.mark) = ((), opening (reading s
        ([left] ++ (dot ++ (g ++ [t]))) rest) .qualifiedName s.builder.mark) := by
    rw [run_bind (run_bump hdot ⟨rfl, by decide⟩ hpoint),
      run_simpleName hinner hg ht hn hmore hrest]
    simp
  rw [segment, run_ask_bind, rest_reading, hat]
  exact run_bind (run_nodeFrom hs hbody)

theorem run_nameHead_simple {m : Nat} (ht : SimpleTree t) (hn : t.leaves.length ≤ n + 1)
    (h : Spells [t] s.rest rest) (hless : Lookahead.kind rest = .less → ¬EndsInName t)
    (hcolons : Lookahead.kind rest ≠ .colonColon) :
    (nameHead inner m true).run s = ((), reading s [t] rest) := by
  have hnext : Lookahead.kindAt? 1 s.rest ≠ some .colonColon := by
    intro hnext
    rcases kindAt?_one_of_simple ht h hnext with hless | hcolon
    · cases hless
    · exact hcolons hcolon
  rw [nameHead, isAt, run_ask_bind, isAtNth, run_ask_bind, if_neg (by simp [hnext])]
  exact run_simpleName hinner isGap_nil ht hn h hless

theorem run_nameHead_aliased {text : String} {colons : Forest} (hs : Sound s)
    (hcolons : Terminal .colonColon colons) (hg : IsGap g) (ht : SimpleTree t)
    (hn : t.leaves.length ≤ n + 1)
    (h : Spells (.node .identifierName [.token .identifier text] :: (colons ++ (g ++ [t]))) s.rest
      rest) (hless : Lookahead.kind rest = .less → ¬EndsInName t) :
    (nameHead inner s.builder.mark true).run s = ((), reading s [.node .aliasQualifiedName
      (.node .identifierName [.token .identifier text] :: (colons ++ (g ++ [t])))] rest) := by
  obtain ⟨ts₁, halias, hmore⟩ := spells_cons.mp h
  obtain ⟨ts₂, hpoints, hsegment⟩ := spells_append.mp hmore
  have hopens : Opens .identifier (.node .identifierName [.token .identifier text]) :=
    (Opens.token .identifier text).node []
  have hkind : Lookahead.kind s.rest = .identifier := hopens.kind rfl halias
  have hnext : Lookahead.kindAt? 1 s.rest = some .colonColon := by
    obtain ⟨mid, hmid, hnext⟩ := kindAt?_one_of_node isGap_nil rfl halias
    obtain rfl := spells_nil.mp hmid
    rw [hnext, headKind?_of_kind (hcolons.kind rfl hpoints) (by decide)]
  have hleaf := run_leaf (s := opening s .aliasQualifiedName s.builder.mark) .identifierName
    ⟨rfl, by decide⟩ halias
  rw [reading_opening] at hleaf
  have hbody : (leaf .identifierName >>= fun _ => bump >>= fun _ => simpleName inner true).run
      (opening (reading s [] s.rest) .aliasQualifiedName s.builder.mark) = ((), opening (reading s
        ([] ++ (.node .identifierName [.token .identifier text] :: (colons ++ (g ++ [t])))) rest)
        .aliasQualifiedName s.builder.mark) := by
    rw [reading_nil, run_bind hleaf, run_bind (run_bump hcolons ⟨rfl, by decide⟩ hpoints),
      run_simpleName hinner hg ht hn hsegment hless]
    simp
  have hnode := run_nodeFrom hs hbody
  rw [reading_nil, List.nil_append] at hnode
  rw [nameHead, isAt, run_ask_bind, isAtNth, run_ask_bind, hkind, hnext, if_pos (by decide)]
  exact hnode

theorem run_name {t : Tree} (ht : NameTree t) {rest : List Token} (hs : Sound s)
    (hn : t.leaves.length ≤ n + 1) (h : Spells [t] s.rest rest)
    (hless : Lookahead.kind rest = .less → ¬EndsInName t)
    (hcolons : Lookahead.kind rest ≠ .colonColon)
    (hend : LoopEnds (segment inner s.builder.mark) (reading s [t] rest) s') :
    (name inner true).run s = ((), s') := by
  induction hsize : t.leaves.length using Nat.strong_induction_on generalizing t rest with
  | h size ih =>
      subst hsize
      have hmark : mark.run s = (s.builder.mark, s) := by
        have hsolid : Solid s.rest := ht.opens.solid rfl h
        exact run_mark_of_gap isGap_nil (spells_nil.mpr rfl) hsolid
      cases ht with
      | simple ht =>
          have hhead := run_nameHead_simple (m := s.builder.mark) hinner ht hn h hless hcolons
          rw [name_eq, run_bind hmark, run_bind hhead]
          exact hend.run
      | @aliased text colons g u hcolons hg ht =>
          have hle : u.leaves.length ≤ n + 1 := by
            simp only [leaves, forestLeaves, forestLeaves_append, List.length_append] at hn
            omega
          have hlast := endsInName_node .aliasQualifiedName
            (.node .identifierName [.token .identifier text] :: (colons ++ g)) ht.opens.leaves_ne_nil
          have hhead := run_nameHead_aliased hinner hs hcolons hg ht hle (spells_node.mp h)
            fun h hname => hless h (by simpa using hlast.mpr hname)
          rw [name_eq, run_bind hmark, run_bind hhead]
          exact hend.run
      | @qualified left u dot g hleft hdot hg ht =>
          obtain ⟨mid, hfirst, hmore⟩ := spells_cons.mp (spells_node.mp h)
          obtain ⟨ts₁, hpoint, -⟩ := spells_append.mp hmore
          have hkind : Lookahead.kind mid = .dot := hdot.kind rfl hpoint
          have hlength := hmore.length
          have hpos := List.length_pos_of_ne_nil hdot.ne_nil
          simp only [leaves, forestLeaves, forestLeaves_append, List.length_append] at hn hlength
          have hshorter : left.leaves.length <
              (Tree.node .qualifiedName (left :: (dot ++ (g ++ [u])))).leaves.length := by
            simp only [leaves, forestLeaves, forestLeaves_append, List.length_append]
            omega
          have hlast := endsInName_node .qualifiedName (left :: (dot ++ g))
            ht.opens.leaves_ne_nil
          have hstep := run_segment hinner left hs hdot hg ht (by omega) hmore
            fun h hname => hless h (by simpa using hlast.mpr hname)
          exact ih _ hshorter hleft (by omega) hfirst (by simp [hkind]) (by rw [hkind]; decide)
            (LoopEnds.next hstep (by simp only [rest_reading]; omega) hend) rfl

theorem run_typeWith_solid {t : Tree} (ht : TypeTree t) {rest : List Token} (hs : Sound s)
    (hn : t.leaves.length ≤ n + 1) (h : Spells [t] s.rest rest)
    (hrest : Lookahead.kind rest ∉ [Kind.dot, .colonColon])
    (hless : Lookahead.kind rest = .less → ¬EndsInName t)
    (harray : t.kind = .arrayType → Lookahead.kind rest ≠ .lBracket)
    (hend : LoopEnds (typeSuffix s.builder.mark) (reading s [t] rest) s') :
    (typeWith inner).run s = ((), s') := by
  induction hsize : t.leaves.length using Nat.strong_induction_on generalizing t rest with
  | h size ih =>
      subst hsize
      have hmark : mark.run s = (s.builder.mark, s) := by
        obtain ⟨k, hk, hopens⟩ := ht.opens
        have hsolid : Solid s.rest := hopens.solid (isPlain_of_opensType hk).1 h
        exact run_mark_of_gap isGap_nil (spells_nil.mpr rfl) hsolid
      cases ht with
      | @keyword k text hk =>
          have hopens : opensType k = true := by rcases hk with hk | hk <;> simp [opensType, hk]
          have hplain := isPlain_of_opensType hopens
          have hkind : Lookahead.kind s.rest = k := ((Opens.token k _).node _).kind hplain.1 h
          have hpredefined : (k.isPredefinedType || k == .voidKw) = true := by simpa using hk
          rw [typeWith, run_bind hmark, peek, run_ask_bind, hkind, if_pos hpredefined,
            run_bind (run_leaf _ hplain h)]
          exact hend.run
      | name ht =>
          have hkind : Lookahead.kind s.rest = .identifier := ht.opens.kind rfl h
          simp only [List.mem_cons, not_or] at hrest
          have hnot : atSegment rest = false := by simp [atSegment, hrest.1]
          have hsegment : (segment inner s.builder.mark).run (reading s [t] rest) =
              (false, reading s [t] rest) := by
            rw [segment, run_ask_bind, rest_reading, hnot]
            rfl
          have hname := run_name hinner ht hs hn h hless hrest.2.1 (LoopEnds.last hsegment)
          rw [typeWith, run_bind hmark, peek, run_ask_bind, hkind, if_neg (by decide),
            if_pos (by decide), run_bind hname]
          exact hend.run
      | @nullable u q ht hq =>
          obtain ⟨mid, hfirst, hmore⟩ := spells_cons.mp (spells_node.mp h)
          have hkind : Lookahead.kind mid = .question := hq.kind rfl hmore
          have hlength := hmore.length
          have hpos := List.length_pos_of_ne_nil hq.ne_nil
          have hshorter : u.leaves.length < (Tree.node .nullableType (u :: q)).leaves.length := by
            simp only [leaves, forestLeaves, List.length_append]
            omega
          simp only [leaves, forestLeaves, List.length_append] at hn
          exact ih _ hshorter ht (by omega) hfirst (by rw [hkind]; decide) (by simp [hkind])
            (fun _ => by rw [hkind]; decide) (LoopEnds.next (run_typeSuffix_nullable hs hq hmore)
              (by simp only [rest_reading]; omega) hend) rfl
      | @array u ranks ht hkind hranks hne =>
          obtain ⟨mid, hfirst, hmore⟩ := spells_cons.mp (spells_node.mp h)
          obtain ⟨hbracket, hpos⟩ := hranks.kind hne hmore
          have hlength := hmore.length
          have hshorter : u.leaves.length < (Tree.node .arrayType (u :: ranks)).leaves.length := by
            simp only [leaves, forestLeaves, List.length_append]
            omega
          simp only [leaves, forestLeaves, List.length_append] at hn
          exact ih _ hshorter ht (by omega) hfirst (by rw [hbracket]; decide) (by simp [hbracket])
            (fun harray => absurd harray hkind) (LoopEnds.next
              (run_typeSuffix_array hs hranks hne hmore (harray rfl))
              (by simp only [rest_reading]; omega) hend) rfl

/-- A reader with types inside up to `n` tokens reads types of one token more. -/
theorem run_typeWith (ht : TypeTree t) (hs : Sound s) (hn : t.leaves.length ≤ n + 1)
    (hg : IsGap g) (h : Spells (g ++ [t]) s.rest rest) (hrest : Ends t rest) :
    (typeWith inner).run s = ((), reading s (g ++ [t]) rest) := by
  obtain ⟨mid, hgap, htree⟩ := spells_append.mp h
  obtain ⟨k, hk, hopens⟩ := ht.opens
  have hsolid : Solid mid := hopens.solid (isPlain_of_opensType hk).1 htree
  have hflush : (typeWith inner).run s = (typeWith inner).run (reading s g mid) := by
    rw [typeWith, run_bind (run_mark_of_gap hg hgap hsolid),
      run_bind (run_mark_of_gap isGap_nil (s := reading s g mid) (spells_nil.mpr rfl) hsolid)]
    rfl
  obtain ⟨hkinds, hless⟩ := hrest
  simp only [List.mem_cons, not_or] at hkinds
  rw [hflush]
  refine run_typeWith_solid hinner ht (sound_reading hs) hn htree (by simp; tauto) hless
    (fun _ => hkinds.2.1) ?_
  rw [reading_reading]
  exact LoopEnds.last (run_typeSuffix_none hkinds.1 hkinds.2.1)

end

theorem readsTypes_typeWithin (n : Nat) : ReadsTypes (typeWithin n) n := by
  induction n with
  | zero =>
      intro t g s rest ht hn
      obtain ⟨k, -, text, more, hleaves⟩ := ht.opens
      rw [hleaves] at hn
      exact absurd hn (Nat.not_succ_le_zero _)
  | succ n ih => exact fun ht hn hs hg h hrest => run_typeWith ih ht hs hn hg h hrest.ends

/-- Where the leaves of the tree of a type are ahead, the reader of types makes it. -/
theorem run_type_of_ends (ht : TypeTree t) (hs : Sound s) (hg : IsGap g)
    (h : Spells (g ++ [t]) s.rest rest) (hrest : Ends t rest) :
    type.run s = ((), reading s (g ++ [t]) rest) := by
  have hlength := h.length
  rw [forestLeaves_append, List.length_append] at hlength
  simp only [forestLeaves, List.append_nil] at hlength
  have hget : (get : Parser ParserState).run s = (s, s) := rfl
  rw [type, run_bind hget]
  exact run_typeWith (readsTypes_typeWithin s.rest.length) ht hs (by omega) hg h hrest

theorem run_type (ht : TypeTree t) (hs : Sound s) (hg : IsGap g)
    (h : Spells (g ++ [t]) s.rest rest) (hrest : EndsType rest) :
    type.run s = ((), reading s (g ++ [t]) rest) := run_type_of_ends ht hs hg h hrest.ends

end Grammar

/-! ## Texts -/

/-- What was read of a text becomes the tree of the file, with the trivia behind it. -/
theorem parsed_of_run {text : String} (body : Grammar.Rules → Parser Unit) {new : Forest}
    {rest : List Token} (h : (body (Grammar.within (nestingBound (Token.lex text)))).run
      (openFile text) = ((), reading (openFile text) new rest)) :
    (runOn text body).parsed = ⟨.node .compilationUnit (new ++ triviaAhead rest), []⟩ := by
  have hopen : ((modify fun s => { s with builder := s.builder.startNode .compilationUnit } :
      Parser Unit)).run ⟨Token.lex text, .empty, [], []⟩ = ((), openFile text) := rfl
  have hfinish : finishNode.run (opening (reading ⟨Token.lex text, .empty, [], []⟩
      (new ++ triviaAhead rest) (Lookahead.significant rest)) .compilationUnit 0) = ((), reading
        ⟨Token.lex text, .empty, [], []⟩ [.node .compilationUnit (new ++ triviaAhead rest)]
        (Lookahead.significant rest)) := run_finishNode
  have hstate : (wholeFile (body (Grammar.within (nestingBound (Token.lex text))))).run
      ⟨Token.lex text, .empty, [], []⟩ = ((), reading
        ⟨Token.lex text, .empty, [], []⟩ [.node .compilationUnit (new ++ triviaAhead rest)]
        (Lookahead.significant rest)) := by
    rw [wholeFile, run_bind hopen, run_bind h, run_bind (run_flushTrivia _), reading_reading]
    exact hfinish
  rw [show runOn text body = _ from congrArg Prod.snd hstate]
  rfl

/-- A fragment that is read to the end of a text is the first node that was read. -/
theorem parseFragment_of_run {what : Grammar.Rules → Parser Unit} {text : String} {node : Node}
    {new : Forest} {rest : List Token} (hend : Lookahead.kind rest = .eof)
    (hnode : new.findSome? Tree.node? = some node)
    (h : (what (Grammar.within (nestingBound (Token.lex text)))).run (openFile text) =
      ((), reading (openFile text) new rest)) : parseFragment what text = .ok node := by
  have hbody : (what (Grammar.within (nestingBound (Token.lex text))) >>= fun _ =>
      fragmentEnd).run (openFile text) = ((), reading (openFile text) new rest) := by
    rw [run_bind h]
    exact Prod.ext rfl (fragmentEnd_of_eof hend)
  have hparsed := parsed_of_run (fun rules => what rules >>= fun _ => fragmentEnd) hbody
  have hfound : (new ++ triviaAhead rest).findSome? Tree.node? = some node := by
    rw [List.findSome?_append, hnode]
    rfl
  simp only [parseFragment]
  rw [show (runOn text fun rules => do
      what rules
      unless ← Parser.isAt .eof do
        Parser.complain "unexpected trailing input in fragment"
        Parser.skipTo []) = runOn text (fun rules => what rules >>= fun _ => fragmentEnd) from rfl,
    hparsed]
  simp [Tree.children, hfound]

/-- The token for the end of a text ends it. -/
theorem kind_of_eof {last : Token} (hlast : last.kind = .eof) : Lookahead.kind [last] = .eof := by
  simp [Lookahead.kind, Lookahead.significant, Lookahead.headKind?, Token.isTrivia, hlast,
    Kind.isTrivia]

/-- A text is read as the node whose leaves it has, if that is the tree of a type. -/
theorem parseType_of_typeTree {text : String} {node : Node} (ht : TypeTree node.tree)
    (h : (Token.contents text).map Token.leaf = node.tree.leaves) : parseType text = .ok node := by
  obtain ⟨last, hlex, hlast, -⟩ := Token.lex_eq_contents text
  have hspells : Spells ([] ++ [node.tree]) (openFile text).rest [last] :=
    ⟨Token.contents text, hlex, by rw [h]; simp [forestLeaves]⟩
  have hkind := kind_of_eof hlast
  exact parseFragment_of_run hkind rfl (Grammar.run_type ht (sound_openFile text) isGap_nil hspells
    (by rw [Grammar.EndsType, hkind]; decide))

end CSharpKit.Syntax
