import CSharpKit.Proofs.Syntax.Reading

/-!
# Tokens that are taken

What a parser does to the tokens ahead, whatever stands in the builder: it leaves an
end of them, and most parsers take one that is no trivia first.

`AgreeIf n C p q` compares two parsers where fewer than `n` tokens are pending. A
parser is recursive through other ones, so the comparison goes down: `Enters` says
of two parsers which take a token first that they agree one level above the parsers
behind that token.
-/

namespace CSharpKit.Syntax.Parser

open Lookahead

variable {α β : Type} {n : Nat} {C E : List Token → Prop}

/-! ## Pending tokens -/

/-- The number of tokens ahead that are no trivia. -/
def pending (ts : List Token) : Nat := ts.countP fun t => !t.isTrivia

theorem pending_mono {ts us : List Token} (h : ts <:+ us) : pending ts ≤ pending us :=
  h.sublist.countP_le

theorem pending_le_length (ts : List Token) : pending ts ≤ ts.length := List.countP_le_length

theorem significant_suffix (ts : List Token) : significant ts <:+ ts := List.dropWhile_suffix _

theorem not_isTrivia_of_significant {ts rest : List Token} {t : Token}
    (h : significant ts = t :: rest) : t.isTrivia = false := by
  have hne : List.dropWhile Token.isTrivia ts ≠ [] := by
    rw [significant] at h
    simp [h]
  have hhead := List.head_dropWhile_not Token.isTrivia hne
  simp only [significant] at h
  simpa [h] using hhead

theorem kind_eq_eof {ts : List Token} (h : pending ts = 0) : kind ts = .eof := by
  by_contra hne
  obtain ⟨t, rest, hrest, -⟩ := exists_next hne
  have hmem : t ∈ ts := (significant_suffix ts).mem (hrest ▸ List.mem_cons_self)
  have hall := List.countP_eq_zero.mp h t hmem
  simp [not_isTrivia_of_significant hrest] at hall

/-- Behind the next token fewer are pending. -/
theorem pending_lt {ts rest : List Token} {t : Token} (h : significant ts = t :: rest) :
    pending rest < pending ts := by
  have hcons : pending (t :: rest) = pending rest + 1 := by
    simp [pending, not_isTrivia_of_significant h]
  have hle : pending (t :: rest) ≤ pending ts := pending_mono (h ▸ significant_suffix ts)
  omega

/-- Where no fewer tokens are pending than before, the next token is the same. -/
theorem significant_eq {ts us : List Token} (h : ts <:+ us) (hpending : ¬pending ts < pending us) :
    significant ts = significant us := by
  obtain ⟨taken, rfl⟩ := h
  have hcount : pending (taken ++ ts) = pending taken + pending ts := List.countP_append
  have hzero : List.countP (fun t => !t.isTrivia) taken = 0 := by
    show pending taken = 0
    omega
  have htrivia : ∀ t ∈ taken, t.isTrivia = true := by
    intro t ht
    have hnot := List.countP_eq_zero.mp hzero t ht
    simpa using hnot
  rw [significant, significant, List.dropWhile_append_of_pos htrivia]

/-! ## Parsers that take tokens -/

/-- A parser leaves an end of the tokens ahead. -/
def Shrinks (p : Parser α) : Prop := ∀ s, (p.run s).2.rest <:+ s.rest

/-- A parser takes a token that is no trivia, if the tokens ahead are as `C` says. -/
def Takes (C : List Token → Prop) (p : Parser α) : Prop :=
  ∀ s, C s.rest → (p.run s).2.rest <:+ s.rest ∧ pending (p.run s).2.rest < pending s.rest

/-- The tokens that are left when the next one was taken, but never the end. -/
theorem rest_bump (s : ParserState) : (bump.run s).2.rest =
    if kind s.rest = .eof then significant s.rest else (significant s.rest).tail := by
  split
  case isTrue heof => rw [bump_at_eof heof, rest_flushTrivia]
  case isFalse heof =>
    obtain ⟨new, -, t, hrest, -⟩ := yields_bump heof
    rw [hrest, List.tail_cons]

theorem shrinks_bump : Shrinks bump := by
  intro s
  rw [rest_bump]
  split
  · exact significant_suffix _
  · exact (List.tail_suffix _).trans (significant_suffix _)

theorem takes_bump : Takes (fun ts => kind ts ≠ .eof) bump := by
  intro s hne
  refine ⟨shrinks_bump s, ?_⟩
  obtain ⟨t, rest, hrest, -⟩ := exists_next hne
  rw [rest_bump, if_neg hne, hrest, List.tail_cons]
  exact pending_lt hrest

theorem shrinks_take : Shrinks take := by
  intro s
  rw [take_run]
  split
  · exact List.suffix_refl _
  case h_2 t rest hrest =>
    rw [hrest]
    exact List.suffix_cons t rest

theorem shrinks_flushTrivia : Shrinks flushTrivia := by
  intro s
  rw [rest_flushTrivia]
  exact significant_suffix _

theorem run_get_bind (f : ParserState → Parser β) (s : ParserState) :
    (get >>= f).run s = (f s).run s := rfl

theorem rest_complain (message : String) (s : ParserState) :
    ((complain message).run s).2.rest = s.rest := by
  rw [complain_run]
  split <;> rfl

theorem rest_build (fault : Fault) (change : Builder → Option Builder) (s : ParserState) :
    ((build fault change).run s).2.rest = s.rest := by
  simp only [build, StateT.run_modify]
  cases change s.builder <;> rfl

/-- A parser that leaves an end of the tokens ahead leaves them as `E` says. -/
def Leaves (C E : List Token → Prop) (p : Parser α) : Prop :=
  ∀ s, C s.rest → (p.run s).2.rest <:+ s.rest ∧ E (p.run s).2.rest

namespace Leaves

theorem of_same {p : Parser α} (h : ∀ s, (p.run s).2.rest = s.rest) : Leaves C C p := by
  intro s hc
  rw [h]
  exact ⟨List.suffix_refl _, hc⟩

theorem complain (message : String) : Leaves C C (complain message) :=
  of_same (rest_complain message)

theorem build (fault : Fault) (change : Builder → Option Builder) : Leaves C C (build fault change) :=
  of_same (rest_build fault change)

theorem flushTrivia (hC : ∀ ts, C ts → C (significant ts)) : Leaves C C flushTrivia := by
  intro s hc
  rw [rest_flushTrivia]
  exact ⟨significant_suffix _, hC _ hc⟩

theorem mark (hC : ∀ ts, C ts → C (significant ts)) : Leaves C C mark := flushTrivia hC

end Leaves

namespace Takes

variable {p : Parser α} {f : α → Parser β}

theorem weaken (h : Takes E p) (hC : ∀ ts, C ts → E ts) : Takes C p :=
  fun s hc => h s (hC _ hc)

theorem bind (hp : Takes C p) (hf : ∀ a, Shrinks (f a)) : Takes C (p >>= f) := by
  intro s hc
  obtain ⟨hsuffix, hlt⟩ := hp s hc
  have hmore : ((p >>= f).run s).2.rest <:+ (p.run s).2.rest := hf _ _
  exact ⟨hmore.trans hsuffix, Nat.lt_of_le_of_lt (pending_mono hmore) hlt⟩

/-- A parser that takes a token behind one that leaves what it needs. -/
theorem seq (hp : Leaves C E p) (hf : ∀ a, Takes E (f a)) : Takes C (p >>= f) := by
  intro s hc
  obtain ⟨hsuffix, hc'⟩ := hp s hc
  obtain ⟨hmore, hlt⟩ := hf (p.run s).1 (p.run s).2 hc'
  exact ⟨hmore.trans hsuffix, Nat.lt_of_lt_of_le hlt (pending_mono hsuffix)⟩

/-- What follows a question knows the answer. -/
theorem ask_bind {question : List Token → α}
    (hf : ∀ a, Takes (fun ts => C ts ∧ question ts = a) (f a)) : Takes C (ask question >>= f) :=
  fun s hc => hf _ s ⟨hc, rfl⟩

theorem ite {c : Prop} [Decidable c] {q : Parser α} (hp : c → Takes C p) (hq : ¬c → Takes C q) :
    Takes C (if c then p else q) := by
  split
  · exact hp ‹_›
  · exact hq ‹_›

theorem nodeFrom {start : Nat} {kind : Kind} {body : Parser Unit} (hbody : Takes C body) :
    Takes C (nodeFrom start kind body) :=
  seq (Leaves.build _ _) fun _ => hbody.bind fun _ s => rest_build _ _ s ▸ List.suffix_refl _

theorem node {kind : Kind} {body : Parser Unit} (hC : ∀ ts, C ts → C (significant ts))
    (hbody : Takes C body) : Takes C (node kind body) :=
  seq (Leaves.flushTrivia hC) fun _ => seq (E := C) (Leaves.of_same fun _ => rfl) fun _ =>
    hbody.bind fun _ s => rest_build _ _ s ▸ List.suffix_refl _

theorem require {kind : Kind} (hkind : kind ≠ .eof) (message : String) :
    Takes (fun ts => Lookahead.kind ts = kind) (require kind message) := by
  refine bind (ask_bind fun a => ite (fun _ => bind (takes_bump.weaken ?_) fun _ s => ?_)
    fun ha => ?_) fun _ s => List.suffix_refl s.rest
  · rintro ts ⟨hts, -⟩
    exact hts ▸ hkind
  · exact List.suffix_refl s.rest
  · rintro s ⟨hts, hne⟩
    exact absurd (hne ▸ beq_iff_eq.mpr hts) ha

end Takes

/-- A required token that is missing leaves the tokens as they are. -/
theorem Leaves.require_of_not {kind : Kind} (message : String) :
    Leaves (fun ts => Lookahead.kind ts ≠ kind) (fun ts => Lookahead.kind ts ≠ kind)
      (require kind message) := by
  intro s hne
  have hexpect : (expect kind message).run s =
      ((Parser.complain message >>= fun _ => pure false : Parser Bool).run s) := by
    show (ite ((Lookahead.kind s.rest == kind) = true) _ _ : Parser Bool).run s = _
    rw [if_neg (by simpa using hne)]
  have hrest : ((require kind message).run s).2.rest = s.rest := by
    show ((expect kind message).run s).2.rest = s.rest
    rw [hexpect]
    exact rest_complain message s
  rw [hrest]
  exact ⟨List.suffix_refl _, hne⟩

/-! ## Parsers that agree -/

/-- Where fewer than `n` tokens are pending and the tokens ahead are as `C` says, two
parsers do the same, and they leave an end of these tokens. -/
def AgreeIf (n : Nat) (C : List Token → Prop) (p q : Parser α) : Prop :=
  ∀ s, C s.rest → pending s.rest < n → p.run s = q.run s ∧ (p.run s).2.rest <:+ s.rest

abbrev Agree (n : Nat) (p q : Parser α) : Prop := AgreeIf n (fun _ => True) p q

namespace AgreeIf

variable {p q : Parser α} {f g : α → Parser β}

theorem of_shrinks (h : Shrinks p) : AgreeIf n C p p := fun s _ _ => ⟨rfl, h s⟩

theorem shrinks (h : ∀ n, Agree n p p) : Shrinks p :=
  fun s => (h _ s trivial (Nat.lt_succ_self _)).2

theorem weaken (h : AgreeIf n E p q) (hC : ∀ ts, C ts → E ts) : AgreeIf n C p q :=
  fun s hc => h s (hC _ hc)

theorem under (h : Agree n p q) : AgreeIf n C p q := h.weaken fun _ _ => trivial

theorem mono {m : Nat} (h : AgreeIf n C p q) (hmn : m ≤ n) : AgreeIf m C p q :=
  fun s hc hm => h s hc (Nat.lt_of_lt_of_le hm hmn)

theorem pure (a : α) : AgreeIf n C (Pure.pure a : Parser α) (Pure.pure a) :=
  of_shrinks fun s => List.suffix_refl s.rest

theorem bind (hp : AgreeIf n C p q) (hf : ∀ a, Agree n (f a) (g a)) :
    AgreeIf n C (p >>= f) (q >>= g) := by
  intro s hc hn
  obtain ⟨heq, hsuffix⟩ := hp s hc hn
  have hlt := Nat.lt_of_le_of_lt (pending_mono hsuffix) hn
  obtain ⟨heq', hsuffix'⟩ := hf (p.run s).1 (p.run s).2 trivial hlt
  constructor
  · calc (p >>= f).run s = (f (p.run s).1).run (p.run s).2 := rfl
      _ = (g (p.run s).1).run (p.run s).2 := heq'
      _ = (q >>= g).run s := by rw [heq]; rfl
  · exact hsuffix'.trans hsuffix

/-- What follows a parser knows how it leaves the tokens ahead. -/
theorem seq (hp : Leaves C E p) (hf : ∀ a, AgreeIf n E (f a) (g a)) :
    AgreeIf n C (p >>= f) (p >>= g) := by
  intro s hc hn
  obtain ⟨hsuffix, hc'⟩ := hp s hc
  have hlt := Nat.lt_of_le_of_lt (pending_mono hsuffix) hn
  obtain ⟨heq, hmore⟩ := hf (p.run s).1 (p.run s).2 hc' hlt
  exact ⟨heq, hmore.trans hsuffix⟩

/-- Behind a token the parsers need to agree one level below only. -/
theorem behind (hp : Takes C p) (hf : ∀ a, Agree n (f a) (g a)) :
    AgreeIf (n + 1) C (p >>= f) (p >>= g) := by
  intro s hc hn
  obtain ⟨hsuffix, hlt⟩ := hp s hc
  obtain ⟨heq, hmore⟩ := hf (p.run s).1 (p.run s).2 trivial (by omega)
  exact ⟨heq, hmore.trans hsuffix⟩

theorem get_bind {f g : ParserState → Parser β} (hf : ∀ s, AgreeIf n C (f s) (g s)) :
    AgreeIf n C (get >>= f) (get >>= g) := fun s => hf s s

/-- What follows a question knows the answer. -/
theorem ask_bind {question : List Token → α}
    (hf : ∀ a, AgreeIf n (fun ts => C ts ∧ question ts = a) (f a) (g a)) :
    AgreeIf n C (ask question >>= f) (ask question >>= g) :=
  fun s hc => hf _ s ⟨hc, rfl⟩

theorem ite {c : Prop} [Decidable c] {p' q' : Parser α} (hp : c → AgreeIf n C p q)
    (hq : ¬c → AgreeIf n C p' q') : AgreeIf n C (if c then p else p') (if c then q else q') := by
  split
  · exact hp ‹_›
  · exact hq ‹_›

theorem finishNode : Agree n finishNode finishNode :=
  of_shrinks fun s => rest_build _ _ s ▸ List.suffix_refl _

theorem nodeFrom {start : Nat} {kind : Kind} {body body' : Parser Unit}
    (hbody : AgreeIf n C body body') : AgreeIf n C (nodeFrom start kind body)
      (nodeFrom start kind body') :=
  seq (Leaves.build _ _) fun _ => hbody.bind fun _ => finishNode

theorem node {kind : Kind} {body body' : Parser Unit} (hC : ∀ ts, C ts → C (significant ts))
    (hbody : AgreeIf n C body body') : AgreeIf n C (node kind body) (node kind body') :=
  seq (Leaves.flushTrivia hC) fun _ => seq (E := C) (Leaves.of_same fun _ => rfl) fun _ =>
    hbody.bind fun _ => finishNode

end AgreeIf

/-! ## Parsers that open with a token -/

/-- Where at most `n` tokens are pending and the tokens ahead are as `C` says, two
parsers do the same. They take a token first if the tokens ahead are as `D` says too. -/
def Enters (n : Nat) (C D : List Token → Prop) (p q : Parser α) : Prop :=
  ∀ s, C s.rest → pending s.rest < n + 1 → p.run s = q.run s ∧ (p.run s).2.rest <:+ s.rest ∧
    (D s.rest → pending (p.run s).2.rest < pending s.rest)

/-- Two parsers do the same and take a token first, if the tokens ahead are as `C` says. -/
abbrev EntersIf (n : Nat) (C : List Token → Prop) (p q : Parser α) : Prop :=
  Enters n C (fun _ => True) p q

namespace Enters

variable {D : List Token → Prop} {p q : Parser α} {f g : α → Parser β}

theorem ahead (h : Enters n C D p q) : AgreeIf (n + 1) C p q := fun s hc hn =>
  ⟨(h s hc hn).1, (h s hc hn).2.1⟩

theorem takes (h : ∀ n, Enters n C D p p) : Takes (fun ts => C ts ∧ D ts) p := fun s hc =>
  have hs := h _ s hc.1 (Nat.lt_succ_self _)
  ⟨hs.2.1, hs.2.2 hc.2⟩

theorem of_agree (h : AgreeIf (n + 1) C p q) (hD : ∀ ts, C ts → ¬D ts) : Enters n C D p q :=
  fun s hc hn => ⟨(h s hc hn).1, (h s hc hn).2, fun hd => absurd hd (hD _ hc)⟩

theorem cases (h : EntersIf n (fun ts => C ts ∧ D ts) p q)
    (h' : AgreeIf (n + 1) (fun ts => C ts ∧ ¬D ts) p q) : Enters n C D p q := by
  intro s hc hn
  by_cases hd : D s.rest
  · obtain ⟨heq, hsuffix, htakes⟩ := h s ⟨hc, hd⟩ hn
    exact ⟨heq, hsuffix, fun _ => htakes trivial⟩
  · obtain ⟨heq, hsuffix⟩ := h' s ⟨hc, hd⟩ hn
    exact ⟨heq, hsuffix, fun hd' => absurd hd' hd⟩

theorem of_takes (hp : Takes C p) : Enters n C D p p := fun s hc _ =>
  ⟨rfl, (hp s hc).1, fun _ => (hp s hc).2⟩

theorem of_shrinks (hp : Shrinks p) (htakes : Takes D p) : Enters n C D p p := fun s _ _ =>
  ⟨rfl, hp s, fun hd => (htakes s hd).2⟩

theorem weaken (h : Enters n E D p q) (hC : ∀ ts, C ts → E ts) : Enters n C D p q :=
  fun s hc => h s (hC _ hc)

theorem imp {F : List Token → Prop} (h : Enters n C F p q) (hD : ∀ ts, C ts → D ts → F ts) :
    Enters n C D p q := fun s hc hn =>
  ⟨(h s hc hn).1, (h s hc hn).2.1, fun hd => (h s hc hn).2.2 (hD _ hc hd)⟩

theorem entersIf (h : Enters n C D p q) : EntersIf n (fun ts => C ts ∧ D ts) p q :=
  fun s hc hn =>
    ⟨(h s hc.1 hn).1, (h s hc.1 hn).2.1, fun _ => (h s hc.1 hn).2.2 hc.2⟩

/-- A parser that takes a token in any case. -/
theorem always (h : EntersIf n E p q) (hC : ∀ ts, C ts → E ts) : Enters n C D p q :=
  (h.weaken hC).imp fun _ _ _ => trivial

/-- What follows may take more tokens. -/
theorem bind (hp : Enters n C D p q) (hf : ∀ a, Agree (n + 1) (f a) (g a)) :
    Enters n C D (p >>= f) (q >>= g) := by
  intro s hc hn
  obtain ⟨heq, hsuffix, htakes⟩ := hp s hc hn
  obtain ⟨heq', hmore⟩ := hf (p.run s).1 (p.run s).2 trivial
    (Nat.lt_of_le_of_lt (pending_mono hsuffix) hn)
  refine ⟨?_, hmore.trans hsuffix, fun hd => Nat.lt_of_le_of_lt (pending_mono hmore) (htakes hd)⟩
  calc (p >>= f).run s = (f (p.run s).1).run (p.run s).2 := rfl
    _ = (g (p.run s).1).run (p.run s).2 := heq'
    _ = (q >>= g).run s := by rw [heq]; rfl

/-- Behind a token the parsers need to agree one level below only. -/
theorem behind (hp : EntersIf n C p q) (hf : ∀ a, Agree n (f a) (g a)) :
    Enters n C D (p >>= f) (q >>= g) := by
  intro s hc hn
  obtain ⟨heq, hsuffix, htakes⟩ := hp s hc hn
  have hlt := htakes trivial
  obtain ⟨heq', hmore⟩ := hf (p.run s).1 (p.run s).2 trivial (by omega)
  refine ⟨?_, hmore.trans hsuffix, fun _ => Nat.lt_of_le_of_lt (pending_mono hmore) hlt⟩
  calc (p >>= f).run s = (f (p.run s).1).run (p.run s).2 := rfl
    _ = (g (p.run s).1).run (p.run s).2 := heq'
    _ = (q >>= g).run s := by rw [heq]; rfl

/-- A parser that takes a token behind one that leaves what it needs. -/
theorem seq {F : List Token → Prop} (hp : Leaves C E p) (hD : Leaves D F p)
    (hf : ∀ a, Enters n E F (f a) (g a)) : Enters n C D (p >>= f) (p >>= g) := by
  intro s hc hn
  obtain ⟨hsuffix, hc'⟩ := hp s hc
  have hle := pending_mono hsuffix
  obtain ⟨heq, hmore, htakes⟩ := hf (p.run s).1 (p.run s).2 hc' (Nat.lt_of_le_of_lt hle hn)
  exact ⟨heq, hmore.trans hsuffix, fun hd => Nat.lt_of_lt_of_le (htakes (hD s hd).2) hle⟩

/-- Where a parser takes no token, what follows sees the same next token. -/
theorem after (hp : Agree (n + 1) p p) (hD : ∀ ts, D ts ↔ D (significant ts))
    (hf : ∀ a, Enters n (fun _ => True) D (f a) (g a)) : Enters n C D (p >>= f) (p >>= g) := by
  intro s _ hn
  have hsuffix := (hp s trivial hn).2
  obtain ⟨heq, hmore, htakes⟩ := hf (p.run s).1 (p.run s).2 trivial
    (Nat.lt_of_le_of_lt (pending_mono hsuffix) hn)
  refine ⟨heq, hmore.trans hsuffix, fun hd => ?_⟩
  by_cases hlt : pending (p.run s).2.rest < pending s.rest
  · exact Nat.lt_of_le_of_lt (pending_mono hmore) hlt
  · have hd' : D (p.run s).2.rest := by
      rw [hD, significant_eq hsuffix hlt, ← hD]
      exact hd
    exact Nat.lt_of_lt_of_le (htakes hd') (pending_mono hsuffix)

/-- What follows a question knows the answer. -/
theorem ask_bind {question : List Token → α}
    (hf : ∀ a, Enters n (fun ts => C ts ∧ question ts = a) D (f a) (g a)) :
    Enters n C D (ask question >>= f) (ask question >>= g) := fun s hc => hf _ s ⟨hc, rfl⟩

theorem ite {c : Prop} [Decidable c] {p' q' : Parser α} (hp : c → Enters n C D p q)
    (hq : ¬c → Enters n C D p' q') : Enters n C D (if c then p else p') (if c then q else q') := by
  split
  · exact hp ‹_›
  · exact hq ‹_›

theorem mark_bind {f g : Nat → Parser β} (hC : ∀ ts, C ts → C (significant ts))
    (hD : ∀ ts, D ts → D (significant ts)) (hf : ∀ a, Enters n C D (f a) (g a)) :
    Enters n C D (mark >>= f) (mark >>= g) := seq (Leaves.mark hC) (Leaves.mark hD) hf

theorem complain_bind {message : String} {f g : Unit → Parser β}
    (hf : ∀ a, Enters n C D (f a) (g a)) :
    Enters n C D (complain message >>= f) (complain message >>= g) :=
  seq (Leaves.complain _) (Leaves.complain _) hf

theorem nodeFrom {start : Nat} {kind : Kind} {body body' : Parser Unit}
    (hbody : Enters n C D body body') :
    Enters n C D (nodeFrom start kind body) (nodeFrom start kind body') :=
  seq (Leaves.build _ _) (Leaves.build _ _) fun _ => hbody.bind fun _ => AgreeIf.finishNode

theorem node {kind : Kind} {body body' : Parser Unit} (hC : ∀ ts, C ts → C (significant ts))
    (hD : ∀ ts, D ts → D (significant ts)) (hbody : Enters n C D body body') :
    Enters n C D (node kind body) (node kind body') :=
  seq (Leaves.flushTrivia hC) (Leaves.flushTrivia hD) fun _ =>
    seq (E := C) (F := D) (Leaves.of_same fun _ => rfl) (Leaves.of_same fun _ => rfl) fun _ =>
      hbody.bind fun _ => AgreeIf.finishNode

end Enters

theorem enters_bump : EntersIf n (fun ts => kind ts ≠ .eof) bump bump := .of_takes takes_bump

theorem enters_require {kind : Kind} (hkind : kind ≠ .eof) (message : String) :
    EntersIf n (fun ts => Lookahead.kind ts = kind) (require kind message) (require kind message) :=
  .of_takes (Takes.require hkind message)

theorem EntersIf.node {kind : Kind} {body body' : Parser Unit}
    (hC : ∀ ts, C ts → C (significant ts)) (hbody : EntersIf n C body body') :
    EntersIf n C (node kind body) (node kind body') := Enters.node hC (fun _ _ => trivial) hbody

theorem takes_skip : Takes (fun ts => kind ts ≠ .eof) skip := by
  refine .ask_bind fun _ => .ite (fun heof => ?_) fun _ => takes_bump.weaken fun _ => And.left
  rintro s ⟨hne, rfl⟩
  exact absurd (eq_of_beq heof) hne

/-! ## Parsers that agree on any tokens -/

namespace Agree

variable {p q : Parser α} {f g : α → Parser β}

theorem ask (question : List Token → α) : AgreeIf n C (ask question) (ask question) :=
  .of_shrinks fun s => List.suffix_refl s.rest

theorem grownSince (start : Nat) : AgreeIf n C (grownSince start) (grownSince start) :=
  .of_shrinks fun s => List.suffix_refl s.rest

theorem bump : Agree n bump bump := .of_shrinks shrinks_bump

theorem complain (message : String) : Agree n (complain message) (complain message) :=
  .of_shrinks fun s => rest_complain message s ▸ List.suffix_refl _

theorem mark : Agree n mark mark := .of_shrinks shrinks_flushTrivia

theorem skip : Agree n skip skip := (ask _).bind fun _ => .ite (fun _ => .pure _) fun _ => bump

theorem eat (kind : Kind) : Agree n (eat kind) (eat kind) :=
  (ask _).bind fun _ => .ite (fun _ => bump.bind fun _ => .pure _) fun _ => .pure _

theorem expect (kind : Kind) (message : String) :
    Agree n (expect kind message) (expect kind message) :=
  (ask _).bind fun _ => .ite (fun _ => bump.bind fun _ => .pure _) fun _ =>
    (complain message).bind fun _ => .pure _

theorem require (kind : Kind) (message : String) :
    Agree n (require kind message) (require kind message) :=
  (expect kind message).bind fun _ => .pure _

theorem node {kind : Kind} {body body' : Parser Unit} (hbody : Agree n body body') :
    Agree n (node kind body) (node kind body') := AgreeIf.node (fun _ _ => trivial) hbody

/-- A part that may be left out. -/
theorem opt {c : Prop} [Decidable c] {p q : Parser Unit} {f g : Unit → Parser β} (hp : Agree n p q)
    (hf : ∀ u, Agree n (f u) (g u)) :
    Agree n (if c then p >>= f else f ()) (if c then q >>= g else g ()) :=
  .ite (fun _ => hp.bind hf) fun _ => hf ()

/-! ## Repetition -/

theorem loopUpTo {step step' : Parser Bool} (h : Agree n step step') (count : Nat) :
    Agree n (loopUpTo step count) (loopUpTo step' count) := by
  induction count with
  | zero => exact .pure _
  | succ count ih => exact h.bind fun _ => .ite (fun _ => ih) fun _ => .pure _

theorem loop {step step' : Parser Bool} (h : Agree n step step') :
    Agree n (loop step) (loop step') := .get_bind fun _ => loopUpTo h _

theorem untilAny {kinds : List Kind} {body body' : Parser Unit}
    (h : AgreeIf n (fun ts => kinds.contains (Lookahead.kind ts) = false) body body') :
    Agree n (untilAny kinds body) (untilAny kinds body') := by
  refine loop (.ask_bind fun a => .ite (fun _ => .pure _) fun ha => ?_)
  refine (h.weaken ?_).bind fun _ => .pure _
  rintro ts ⟨-, hts⟩
  exact hts.trans (Bool.eq_false_iff.mpr ha)

theorem whileAhead {question : List Token → Bool} {body body' : Parser Unit}
    (h : AgreeIf n (fun ts => question ts = true) body body') :
    Agree n (whileAhead question body) (whileAhead question body') := by
  refine loop (.ask_bind fun a => .ite (fun ha => ?_) fun _ => .pure _)
  refine (h.weaken ?_).bind fun _ => .pure _
  rintro ts ⟨-, hts⟩
  exact hts.trans ha

theorem separated {item item' : Parser Unit} (h : Agree n item item') :
    Agree n (separated item) (separated item') := loop (h.bind fun _ => eat .comma)

theorem separatedUntil {item item' : Parser Unit} (kinds : List Kind) (h : Agree n item item') :
    Agree n (separatedUntil kinds item) (separatedUntil kinds item') :=
  loop ((ask _).bind fun _ => .ite (fun _ => .pure _) fun _ => h.bind fun _ => eat .comma)

theorem skipTo (kinds : List Kind) : Agree n (skipTo kinds) (skipTo kinds) :=
  untilAny bump.under

end Agree

theorem shrinks_skip : Shrinks skip := AgreeIf.shrinks fun _ => Agree.skip

theorem enters_skip : Enters n C (fun ts => kind ts ≠ .eof) skip skip :=
  .of_shrinks shrinks_skip takes_skip

theorem run_eat_bind {kind : Kind} {f : Bool → Parser β} (s : ParserState) :
    (eat kind >>= f).run s = if Lookahead.kind s.rest == kind then
      (bump >>= fun _ => f true).run s else (f false).run s := by
  show (ite ((Lookahead.kind s.rest == kind) = true) _ _ >>= f : Parser β).run s = _
  split <;> rfl

/-- What follows a token that is read where it stands ahead. -/
theorem enters_eat_bind {D : List Token → Prop} {kind : Kind} (hkind : kind ≠ .eof)
    {f g : Bool → Parser β} (htaken : Agree n (f true) (g true))
    (hmissing : Enters n C D (f false) (g false)) :
    Enters n C D (eat kind >>= f) (eat kind >>= g) := by
  intro s hc hn
  rw [run_eat_bind, run_eat_bind]
  split
  case isTrue hat =>
    have hne : Lookahead.kind s.rest ≠ .eof := eq_of_beq hat ▸ hkind
    exact Enters.behind enters_bump (fun _ => htaken) s hne hn
  case isFalse => exact hmissing s hc hn

/-- A loop whose first step takes a token. -/
theorem enters_loop {step step' : Parser Bool} (hfirst : EntersIf n C step step')
    (hmore : Agree (n + 1) step step') : EntersIf n C (loop step) (loop step') := by
  refine fun s hc hn => ?_
  have hstep : EntersIf n C (loopUpTo step (s.rest.length + 1)) (loopUpTo step' (s.rest.length + 1)) :=
    hfirst.bind fun _ => .ite (fun _ => Agree.loopUpTo hmore _) fun _ => .pure _
  exact hstep s hc hn

theorem enters_whileAhead {question : List Token → Bool} {body body' : Parser Unit}
    (hbody : EntersIf n (fun ts => question ts = true) body body') :
    EntersIf n (fun ts => question ts = true) (whileAhead question body)
      (whileAhead question body') := by
  have hstep : ∀ {C D}, (∀ ts, C ts → D ts → question ts = true) →
      Enters n C D (ask question >>= fun more => if more then body >>= fun _ => pure true else pure false)
        (ask question >>= fun more => if more then body' >>= fun _ => pure true else pure false) := by
    intro C D hD
    refine .ask_bind fun a => .ite (fun ha => ?_) fun ha => .of_agree (.pure _) ?_
    · exact (hbody.bind fun _ => .pure _).always fun ts hts => hts.2.trans ha
    · rintro ts ⟨hc, rfl⟩ hd
      exact ha (hD ts hc hd)
  have hagree : Agree (n + 1) _ _ := (hstep (C := fun _ => True) (D := fun _ => False) nofun).ahead
  exact enters_loop (hstep fun _ hc _ => hc) hagree

/-! ## Steps of loops -/

/-- A step takes a token before it asks for another one. -/
def Progresses (step : Parser Bool) : Prop := ∀ s, (step.run s).1 = true →
  (step.run s).2.rest <:+ s.rest ∧ pending (step.run s).2.rest < pending s.rest

/-- Where at most `n` tokens are pending and the tokens ahead are as `C` says, two steps
of a loop do the same, and they take a token before they ask for another step. -/
def Steps (n : Nat) (C : List Token → Prop) (p q : Parser Bool) : Prop :=
  ∀ s, C s.rest → pending s.rest < n + 1 → p.run s = q.run s ∧ (p.run s).2.rest <:+ s.rest ∧
    ((p.run s).1 = true → pending (p.run s).2.rest < pending s.rest)

namespace Steps

variable {p q : Parser Bool}

theorem ahead (h : Steps n C p q) : AgreeIf (n + 1) C p q := fun s hc hn =>
  ⟨(h s hc hn).1, (h s hc hn).2.1⟩

theorem progresses (h : ∀ n, Steps n (fun _ => True) p p) : Progresses p := fun s hmore =>
  have hs := h _ s trivial (Nat.lt_succ_self _)
  ⟨hs.2.1, hs.2.2 hmore⟩

theorem weaken (h : Steps n E p q) (hC : ∀ ts, C ts → E ts) : Steps n C p q :=
  fun s hc => h s (hC _ hc)

theorem of_enters_bind {p q : Parser α} {f g : α → Parser Bool} (h : EntersIf n C p q)
    (hf : ∀ a, Agree (n + 1) (f a) (g a)) : Steps n C (p >>= f) (q >>= g) := by
  intro s hc hn
  obtain ⟨heq, hsuffix, htakes⟩ := h.bind hf s hc hn
  exact ⟨heq, hsuffix, fun _ => htakes trivial⟩

theorem of_enters {p q : Parser α} (h : EntersIf n C p q) (again : Bool) :
    Steps n C (p >>= fun _ => pure again) (q >>= fun _ => pure again) :=
  of_enters_bind h fun _ => .pure again

theorem stop : Steps n C (pure false) (pure false) :=
  fun s _ _ => ⟨rfl, List.suffix_refl s.rest, nofun⟩

theorem ask_bind {question : List Token → α} {f g : α → Parser Bool}
    (hf : ∀ a, Steps n (fun ts => C ts ∧ question ts = a) (f a) (g a)) :
    Steps n C (ask question >>= f) (ask question >>= g) := fun s hc => hf _ s ⟨hc, rfl⟩

theorem ite {c : Prop} [Decidable c] {p' q' : Parser Bool} (hp : c → Steps n C p q)
    (hq : ¬c → Steps n C p' q') : Steps n C (if c then p else p') (if c then q else q') := by
  split
  · exact hp ‹_›
  · exact hq ‹_›

/-- The part of a step that decides about the next one. -/
theorem behind {p q : Parser α} {f g : α → Parser Bool} (hp : AgreeIf (n + 1) C p q)
    (hf : ∀ a, Steps n (fun _ => True) (f a) (g a)) : Steps n C (p >>= f) (q >>= g) := by
  intro s hc hn
  have hagree := hp.bind (fun a => (hf a).ahead) s hc hn
  have hsuffix := (hp s hc hn).2
  have hstep := hf (p.run s).1 (p.run s).2 trivial (Nat.lt_of_le_of_lt (pending_mono hsuffix) hn)
  refine ⟨hagree.1, hagree.2, fun hmore => ?_⟩
  exact Nat.lt_of_lt_of_le (hstep.2.2 hmore) (pending_mono hsuffix)

theorem eat {kind : Kind} (hkind : kind ≠ .eof) : Steps n C (eat kind) (eat kind) := by
  refine ask_bind fun a => ite (fun ha => of_enters (enters_bump.weaken ?_) true) fun _ => stop
  rintro ts ⟨-, rfl⟩
  exact eq_of_beq ha ▸ hkind

/-- What a step does where a token that it may eat does not stand ahead. -/
theorem eat_bind {kind : Kind} (hkind : kind ≠ .eof) {f g : Bool → Parser Bool}
    (htaken : Agree n (f true) (g true)) (hmissing : Steps n C (f false) (g false)) :
    Steps n C (Parser.eat kind >>= f) (Parser.eat kind >>= g) := by
  intro s hc hn
  rw [run_eat_bind, run_eat_bind]
  split
  case isTrue hat =>
    have hne : Lookahead.kind s.rest ≠ .eof := eq_of_beq hat ▸ hkind
    obtain ⟨heq, hsuffix, htakes⟩ := Enters.behind (D := fun _ => True) enters_bump
      (fun _ => htaken) s hne hn
    exact ⟨heq, hsuffix, fun _ => htakes trivial⟩
  case isFalse => exact hmissing s hc hn

/-- The first step of a loop may see other tokens than the steps behind it. -/
theorem loop (hfirst : Steps n C p q) (hmore : Agree n p q) :
    AgreeIf (n + 1) C (loop p) (loop q) := by
  refine .get_bind fun s₀ s hc hn => ?_
  obtain ⟨heq, hsuffix, htakes⟩ := hfirst s hc hn
  have hunfold : ∀ step : Parser Bool, (loopUpTo step (s₀.rest.length + 1)).run s =
      (if (step.run s).1 then loopUpTo step s₀.rest.length else pure ()).run (step.run s).2 :=
    fun _ => rfl
  rw [hunfold, hunfold, ← heq]
  cases hagain : (p.run s).1 with
  | false => exact ⟨rfl, hsuffix⟩
  | true =>
      have hlt := htakes hagain
      obtain ⟨heq', hsuffix'⟩ := Agree.loopUpTo hmore s₀.rest.length (p.run s).2 trivial (by omega)
      exact ⟨heq', hsuffix'.trans hsuffix⟩

end Steps

end CSharpKit.Syntax.Parser
