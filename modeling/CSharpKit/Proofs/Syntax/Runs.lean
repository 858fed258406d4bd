import CSharpKit.Proofs.Syntax.TypeReading
import CSharpKit.Syntax.Build

/-!
# Where parsers end

`Extends` says what parsers may do; here it is said where one ends, exactly. A
state is known by the trees that were read and the tokens that are left, so each
rule is an equation between a run and such a state. Trees are ahead of a parser
when the next tokens are their leaves; then the rules need no tokens, only trees.

A loop is followed backwards: `LoopEnds` says where it ends from a state, and each
step in front of that carries it one state back.
-/

namespace CSharpKit.Syntax

open Tree CSharpKit.Syntax.Parser

namespace Parser

variable {α β : Type}

/-! ## States -/

/-- The state where trees were read and these tokens are left. -/
def reading (s : ParserState) (new : Forest) (rest : List Token) : ParserState :=
  { s with rest, builder := { s.builder with done := new.reverse ++ s.builder.done } }

variable {s s' s₁ s₂ : ParserState} {f g more : Forest} {ts rest mid : List Token} {k : Kind}

@[simp] theorem rest_reading : (reading s f rest).rest = rest := rfl

@[simp] theorem reading_nil : reading s [] s.rest = s := rfl

@[simp] theorem reading_reading :
    reading (reading s f mid) g rest = reading s (f ++ g) rest := by
  simp [reading]

@[simp] theorem reading_opening {kind : Kind} {first : Nat} :
    reading (opening s kind first) f rest = opening (reading s f rest) kind first := rfl

theorem mark_reading : (reading s f rest).builder.mark = s.builder.mark + f.length := by
  simp [reading, Builder.mark, Nat.add_comm]

theorem run_grownSince {t : Tree} : (grownSince s.builder.mark).run (reading s (t :: f) rest) =
    (true, reading s (t :: f) rest) := by
  have hlt : s.builder.mark < (reading s (t :: f) rest).builder.mark := by
    rw [mark_reading, List.length_cons]
    omega
  rw [grownSince]
  exact Prod.ext (decide_eq_true hlt) rfl

theorem admits_reading (h : Sound s) {n : Nat} (hlo : s.builder.mark ≤ n)
    (hhi : n ≤ (reading s f rest).builder.mark) : (reading s f rest).builder.admits n = true := by
  have hfirst : s.builder.opened.head?.all (fun o => decide (o.2 ≤ n)) = true := by
    simp only [Sound, Builder.admits, Bool.and_eq_true] at h
    cases hopened : s.builder.opened.head? with
    | none => rfl
    | some o =>
        rw [hopened] at h
        exact decide_eq_true (Nat.le_trans (of_decide_eq_true h.2) hlo)
  exact Bool.and_eq_true_iff.mpr ⟨decide_eq_true hhi, hfirst⟩

theorem sound_reading (h : Sound s) : Sound (reading s f rest) :=
  admits_reading h (mark_reading ▸ Nat.le_add_right ..) (Nat.le_refl _)

/-- A run goes on where its first part ends. -/
theorem run_bind {p : Parser α} {q : α → Parser β} {a : α} (h : p.run s = (a, s')) :
    (p >>= q).run s = (q a).run s' := by
  rw [StateT.run_bind, h]
  rfl

theorem run_ask_bind {question : List Token → α} {q : α → Parser β} :
    (ask question >>= q).run s = (q (question s.rest)).run s := rfl

/-! ## Trees ahead -/

/-- The tokens are the leaves of trees and then the rest. -/
def Spells (f : Forest) (ts rest : List Token) : Prop :=
  ∃ front, ts = front ++ rest ∧ front.map Token.leaf = forestLeaves f

@[simp] theorem spells_nil : Spells [] ts rest ↔ ts = rest := by
  constructor
  · rintro ⟨front, rfl, hleaves⟩
    obtain rfl : front = [] := by simpa [forestLeaves] using hleaves
    rfl
  · rintro rfl
    exact ⟨[], rfl, rfl⟩

theorem spells_append : Spells (f ++ g) ts rest ↔ ∃ mid, Spells f ts mid ∧ Spells g mid rest := by
  constructor
  · rintro ⟨front, rfl, hleaves⟩
    rw [forestLeaves_append, List.map_eq_append_iff] at hleaves
    obtain ⟨a, b, rfl, ha, hb⟩ := hleaves
    exact ⟨b ++ rest, ⟨a, List.append_assoc .., ha⟩, b, rfl, hb⟩
  · rintro ⟨mid, ⟨a, rfl, ha⟩, b, rfl, hb⟩
    exact ⟨a ++ b, (List.append_assoc ..).symm, by rw [List.map_append, ha, hb, forestLeaves_append]⟩

theorem spells_cons {t : Tree} :
    Spells (t :: f) ts rest ↔ ∃ mid, Spells [t] ts mid ∧ Spells f mid rest := by
  rw [← List.singleton_append, spells_append]

@[simp] theorem spells_node {kind : Kind} : Spells [.node kind f] ts rest ↔ Spells f ts rest := by
  simp [Spells, forestLeaves, leaves]

/-- A node behind trees spells the same as these with its children. -/
theorem spells_opened {kind : Kind} {t : Tree} :
    Spells (g ++ [.node kind (t :: f)]) ts rest ↔ Spells (g ++ [t] ++ f) ts rest := by
  simp [Spells, forestLeaves, leaves]

theorem spells_token {text : String} :
    Spells [.token k text] ts rest ↔ ∃ t : Token, ts = t :: rest ∧ t.tree = .token k text := by
  constructor
  · rintro ⟨front, rfl, hleaves⟩
    simp only [forestLeaves, leaves, List.append_nil, List.map_eq_singleton_iff] at hleaves
    obtain ⟨t, rfl, ht⟩ := hleaves
    obtain ⟨rfl, rfl⟩ := Prod.mk.inj ht
    exact ⟨t, rfl, rfl⟩
  · rintro ⟨t, rfl, ht⟩
    obtain ⟨rfl, rfl⟩ := Tree.token.inj ht
    exact ⟨[t], rfl, rfl⟩

theorem Spells.length (h : Spells f ts rest) :
    ts.length = (forestLeaves f).length + rest.length := by
  obtain ⟨front, rfl, hleaves⟩ := h
  rw [← hleaves, List.length_append, List.length_map]

theorem Spells.map_leaf (h : Spells f ts rest) :
    ts.map Token.leaf = forestLeaves f ++ rest.map Token.leaf := by
  obtain ⟨front, rfl, hleaves⟩ := h
  rw [List.map_append, hleaves]

theorem Spells.suffix (h : Spells f ts rest) : rest <:+ ts := by
  obtain ⟨front, rfl, -⟩ := h
  exact List.suffix_append front rest

/-! ## Trivia ahead -/

/-- Trees of trivia. -/
def IsGap (f : Forest) : Prop := ∀ t ∈ f, ∃ k text, t = .token k text ∧ k.isTrivia = true

theorem isGap_nil : IsGap [] := nofun

theorem isGap_space : IsGap [Build.space] := by
  intro t ht
  exact ⟨.whitespace, " ", List.mem_singleton.mp ht, rfl⟩

/-- Tokens that begin with one that is no trivia. -/
def Solid (ts : List Token) : Prop := ∃ t rest, ts = t :: rest ∧ t.isTrivia = false

theorem Solid.significant (h : Solid ts) : Lookahead.significant ts = ts := by
  obtain ⟨t, rest, rfl, ht⟩ := h
  simp [Lookahead.significant, ht]

theorem triviaAhead_of_gap (hg : IsGap g) (h : Spells g ts mid) (hmid : Solid mid) :
    triviaAhead ts = g ∧ Lookahead.significant ts = mid := by
  induction g generalizing ts with
  | nil =>
      obtain rfl := spells_nil.mp h
      refine ⟨?_, hmid.significant⟩
      obtain ⟨t, rest, rfl, ht⟩ := hmid
      simp [triviaAhead, ht]
  | cons t g ih =>
      obtain ⟨k, text, rfl, hk⟩ := hg t List.mem_cons_self
      obtain ⟨mid', hfirst, hmore⟩ := spells_cons.mp h
      obtain ⟨token, rfl, htree⟩ := spells_token.mp hfirst
      obtain ⟨hahead, hsignificant⟩ := ih (fun t ht => hg t (List.mem_cons_of_mem _ ht)) hmore
      have htrivia : token.isTrivia = true := by
        rw [Token.isTrivia, (Tree.token.inj htree).1]
        exact hk
      refine ⟨?_, ?_⟩
      · rw [← hahead, ← htree]
        simp [triviaAhead, htrivia]
      · rw [← hsignificant]
        simp [Lookahead.significant, htrivia]

theorem run_flushTrivia (s : ParserState) : flushTrivia.run s =
    ((), reading s (triviaAhead s.rest) (Lookahead.significant s.rest)) := by
  have hrun : flushTrivia.run s = ((), { s with
      builder := (splitTrivia s.builder s.rest).1, rest := (splitTrivia s.builder s.rest).2 }) := rfl
  rw [hrun, splitTrivia_eq]
  rfl

theorem run_flushTrivia_of_gap (hg : IsGap g) (h : Spells g s.rest mid) (hmid : Solid mid) :
    flushTrivia.run s = ((), reading s g mid) := by
  obtain ⟨hahead, hsignificant⟩ := triviaAhead_of_gap hg h hmid
  rw [run_flushTrivia, hahead, hsignificant]

theorem run_mark_of_gap (hg : IsGap g) (h : Spells g s.rest mid) (hmid : Solid mid) :
    mark.run s = ((reading s g mid).builder.mark, reading s g mid) := by
  rw [mark, run_bind (run_flushTrivia_of_gap hg h hmid)]
  rfl

/-! ## Single tokens -/

/-- A token of a kind behind trivia. -/
def Terminal (k : Kind) (f : Forest) : Prop := ∃ g text, IsGap g ∧ f = g ++ [.token k text]

theorem terminal_token (k : Kind) (text : String) : Terminal k [.token k text] :=
  ⟨[], text, isGap_nil, rfl⟩

/-- Kinds of tokens that a parser looks at. -/
def IsPlain (k : Kind) : Prop := k.isTrivia = false ∧ k ≠ .eof

theorem Terminal.significant (hf : Terminal k f) (hk : k.isTrivia = false) (h : Spells f ts rest) :
    ∃ t, Lookahead.significant ts = t :: rest ∧ t.kind = k ∧ f = triviaAhead ts ++ [t.tree] := by
  obtain ⟨g, text, hg, rfl⟩ := hf
  obtain ⟨mid, hgap, htoken⟩ := spells_append.mp h
  obtain ⟨t, rfl, htree⟩ := spells_token.mp htoken
  obtain ⟨hkind, -⟩ := Tree.token.inj htree
  have hsolid : Solid (t :: rest) := ⟨t, rest, rfl, by rw [Token.isTrivia, hkind]; exact hk⟩
  obtain ⟨hahead, hsignificant⟩ := triviaAhead_of_gap hg hgap hsolid
  exact ⟨t, hsignificant, hkind, by rw [hahead, htree]⟩

theorem Terminal.kind (hf : Terminal k f) (hk : k.isTrivia = false) (h : Spells f ts rest) :
    Lookahead.kind ts = k := by
  obtain ⟨t, hts, hkind, -⟩ := hf.significant hk h
  simp [Lookahead.kind, Lookahead.headKind?, hts, hkind]

/-- The kind of the token behind the next one. -/
theorem Terminal.kindAt?_one (hf : Terminal k f) (hk : k.isTrivia = false) (h : Spells f ts rest) :
    Lookahead.kindAt? 1 ts = Lookahead.headKind? (Lookahead.significant rest) := by
  obtain ⟨t, hts, -⟩ := hf.significant hk h
  simp [Lookahead.kindAt?, Lookahead.dropSignificant, Lookahead.next, hts]

theorem headKind?_of_kind {k : Kind} (h : Lookahead.kind ts = k) (hk : k ≠ .eof) :
    Lookahead.headKind? (Lookahead.significant ts) = some k := by
  obtain ⟨t, rest, hts, hkind⟩ := exists_next (h ▸ hk)
  rw [hts, ← h, ← hkind]
  rfl

theorem kind_of_headKind? {k : Kind} (h : Lookahead.headKind? (Lookahead.significant ts) = some k) :
    Lookahead.kind ts = k := by
  simp [Lookahead.kind, h]

/-- The token behind the first one of a node. -/
theorem kindAt?_one_of_node {kind : Kind} {text : String} (hg : IsGap g) (hk : k.isTrivia = false)
    (h : Spells (g ++ [.node kind (.token k text :: f)]) ts rest) :
    ∃ mid, Spells f mid rest ∧
      Lookahead.kindAt? 1 ts = Lookahead.headKind? (Lookahead.significant mid) := by
  obtain ⟨mid, hfirst, hmore⟩ := spells_append.mp (spells_opened.mp h)
  have hterminal : Terminal k (g ++ [.token k text]) := ⟨g, text, hg, rfl⟩
  exact ⟨mid, hmore, hterminal.kindAt?_one hk hfirst⟩

theorem Terminal.ne_nil (hf : Terminal k f) : forestLeaves f ≠ [] := by
  obtain ⟨g, text, -, rfl⟩ := hf
  simp [forestLeaves, leaves]

theorem run_bump (hf : Terminal k f) (hk : IsPlain k) (h : Spells f s.rest rest) :
    bump.run s = ((), reading s f rest) := by
  obtain ⟨t, hts, hkind, rfl⟩ := hf.significant hk.1 h
  have hne : t.kind ≠ .eof := hkind ▸ hk.2
  rw [bump, run_bind (run_flushTrivia s)]
  show ((if Lookahead.startsWith .eof (Lookahead.significant s.rest) = true then pure () else take :
    Parser Unit).run (reading s (triviaAhead s.rest) (Lookahead.significant s.rest))) = _
  rw [if_neg (by simp [Lookahead.startsWith, Lookahead.headKind?, hts, hne]), hts]
  simp only [reading, List.reverse_append, List.reverse_singleton]
  rfl

theorem run_require (hf : Terminal k f) (hk : IsPlain k) (h : Spells f s.rest rest)
    (message : String) : (require k message).run s = ((), reading s f rest) := by
  have hrun : (require k message).run s = ((if (Lookahead.kind s.rest == k) = true
      then bump >>= fun _ => pure true
      else complain message >>= fun _ => pure false : Parser Bool) >>= fun _ => pure ()).run s := rfl
  rw [hrun, if_pos (by simp [hf.kind hk.1 h]), bind_assoc, run_bind (run_bump hf hk h)]
  rfl

theorem run_eat (hf : Terminal k f) (hk : IsPlain k) (h : Spells f s.rest rest) :
    (eat k).run s = (true, reading s f rest) := by
  have hrun : (eat k).run s = (if (Lookahead.kind s.rest == k) = true
      then bump >>= fun _ => pure true else pure false : Parser Bool).run s := rfl
  rw [hrun, if_pos (by simp [hf.kind hk.1 h]), run_bind (run_bump hf hk h)]
  rfl

theorem run_eat_of_not (h : Lookahead.kind s.rest ≠ k) : (eat k).run s = (false, s) := by
  have hrun : (eat k).run s = (if (Lookahead.kind s.rest == k) = true
      then bump >>= fun _ => pure true else pure false : Parser Bool).run s := rfl
  rw [hrun, if_neg (by simpa using h)]
  rfl

/-! ## Nodes -/

theorem run_finishNode {kind : Kind} :
    finishNode.run (opening (reading s f rest) kind s.builder.mark) =
      ((), reading s [.node kind f] rest) := by
  have hclose : (opening (reading s f rest) kind s.builder.mark).builder.finishNode? =
      some ⟨.node kind f :: s.builder.done, s.builder.opened⟩ := by
    simp only [Builder.finishNode?, opening, reading, Builder.mark, List.length_append,
      List.length_reverse, Nat.le_add_left, if_true, Nat.add_sub_cancel]
    simp
  exact Prod.ext rfl (run_build hclose)

/-- A node takes what its body reads; the trivia before it stays outside. -/
theorem run_node {kind : Kind} {body : Parser Unit} (hg : IsGap g) (h : Spells g s.rest mid)
    (hmid : Solid mid)
    (hbody : body.run (opening (reading s g mid) kind (reading s g mid).builder.mark) =
      ((), opening (reading s (g ++ f) rest) kind (reading s g mid).builder.mark)) :
    (node kind body).run s = ((), reading s (g ++ [.node kind f]) rest) := by
  rw [node, run_bind (run_flushTrivia_of_gap hg h hmid)]
  have hopen : ((modify fun s => { s with builder := s.builder.startNode kind } :
      Parser Unit)).run (reading s g mid) =
      ((), opening (reading s g mid) kind (reading s g mid).builder.mark) := rfl
  have hshift : reading s (g ++ f) rest = reading (reading s g mid) f rest := reading_reading.symm
  rw [run_bind hopen, run_bind hbody, hshift, run_finishNode, reading_reading]

/-- A node that starts at a mark takes over all that was read since. -/
theorem run_nodeFrom {kind : Kind} {body : Parser Unit} (hs : Sound s)
    (hbody : body.run (opening (reading s f mid) kind s.builder.mark) =
      ((), opening (reading s (f ++ more) rest) kind s.builder.mark)) :
    (nodeFrom s.builder.mark kind body).run (reading s f mid) =
      ((), reading s [.node kind (f ++ more)] rest) := by
  have hopen : (build .misplacedStart (·.startNodeAt? s.builder.mark kind)).run (reading s f mid) =
      ((), opening (reading s f mid) kind s.builder.mark) := by
    refine Prod.ext rfl (run_build ?_)
    have hmark : s.builder.mark ≤ (reading s f mid).builder.mark :=
      mark_reading ▸ Nat.le_add_right ..
    rw [Builder.startNodeAt?, if_pos (admits_reading hs (Nat.le_refl _) hmark)]
  rw [nodeFrom, run_bind hopen, run_bind hbody, run_finishNode]

/-! ## Loops -/

variable {step : Parser Bool}

/-- From a state a loop ends in another one, and it takes at most a step a token,
and one. -/
def LoopEnds (step : Parser Bool) (s s' : ParserState) : Prop :=
  ∀ n, s.rest.length < n → (loopUpTo step n).run s = ((), s')

theorem LoopEnds.run (h : LoopEnds step s s') : (loop step).run s = ((), s') :=
  h (s.rest.length + 1) (Nat.lt_succ_self _)

theorem LoopEnds.last (h : step.run s = (false, s')) : LoopEnds step s s' := by
  intro n hn
  obtain ⟨n, rfl⟩ := Nat.exists_eq_succ_of_ne_zero (Nat.ne_of_gt (Nat.zero_lt_of_lt hn))
  rw [loopUpTo, run_bind h]
  rfl

theorem LoopEnds.next (h : step.run s = (true, s₁)) (hlt : s₁.rest.length < s.rest.length)
    (hrest : LoopEnds step s₁ s') : LoopEnds step s s' := by
  intro n hn
  obtain ⟨n, rfl⟩ := Nat.exists_eq_succ_of_ne_zero (Nat.ne_of_gt (Nat.zero_lt_of_lt hn))
  rw [loopUpTo, run_bind h]
  exact hrest n (by omega)

end Parser

end CSharpKit.Syntax
