import Mathlib.Logic.Relation

/-!
# Procedures that ask

A recursion is a rule for each question: a procedure that asks other questions on its way to
the answer. Written so, it shows which calls it makes, and whether it comes to an end is a
matter of proof. It does if each question has a rank and all that a rule asks, whatever it is
told, ranks lower. Then a number of nested calls above the rank is enough, and no chain of
calls comes back to where it was.
-/

namespace CSharpKit

/-- A procedure that may ask questions before it has a result. The answer to a question `x` is
an `A x`. -/
inductive Procedure (Q : Type) (A : Q → Type) (α : Type) where
  | done (a : α)
  | ask (x : Q) (next : A x → Procedure Q A α)

namespace Procedure

variable {Q : Type} {A : Q → Type} {α β : Type}

/-- The question alone. -/
def query (x : Q) : Procedure Q A (A x) := ask x done

def bind : Procedure Q A α → (α → Procedure Q A β) → Procedure Q A β
  | done a, f => f a
  | ask x next, f => ask x fun a => (next a).bind f

instance : Monad (Procedure Q A) where
  pure := done
  bind := bind

/-! ## Results -/

/-- The result, if each question has an answer. -/
def run (answer : (x : Q) → A x) : Procedure Q A α → α
  | done a => a
  | ask x next => (next (answer x)).run answer

/-- The result, if the questions that are asked have answers. -/
def run? (answer? : (x : Q) → Option (A x)) : Procedure Q A α → Option α
  | done a => some a
  | ask x next =>
    match answer? x with
    | some a => (next a).run? answer?
    | none => none

variable {answer answer' : (x : Q) → A x} {answer? : (x : Q) → Option (A x)}

@[simp] theorem run_pure (a : α) : (pure a : Procedure Q A α).run answer = a := rfl

@[simp] theorem run_query (x : Q) : (query x : Procedure Q A (A x)).run answer = answer x := rfl

@[simp] theorem run_bind (p : Procedure Q A α) (f : α → Procedure Q A β) :
    (p >>= f).run answer = (f (p.run answer)).run answer := by
  induction p with
  | done a => rfl
  | ask x next ih => exact ih (answer x)

/-! ## Questions -/

/-- All questions that may be asked have a property, whatever the answers are. -/
def AsksOnly (P : Q → Prop) : Procedure Q A α → Prop
  | done _ => True
  | ask x next => P x ∧ ∀ a, (next a).AsksOnly P

/-- A question may be asked after some answers to those before it. -/
inductive MayAsk (y : Q) : Procedure Q A α → Prop
  | now {next : A y → Procedure Q A α} : MayAsk y (ask y next)
  | later {x : Q} {next : A x → Procedure Q A α} (a : A x) (h : MayAsk y (next a)) :
      MayAsk y (ask x next)

variable {P : Q → Prop} {p : Procedure Q A α}

theorem asksOnly_iff : p.AsksOnly P ↔ ∀ x, p.MayAsk x → P x := by
  induction p with
  | done a => exact iff_of_true trivial nofun
  | ask x next ih =>
      constructor
      · rintro ⟨hx, hnext⟩ y hy
        cases hy with
        | now => exact hx
        | later a hy => exact (ih a).mp (hnext a) y hy
      · intro h
        exact ⟨h x .now, fun a => (ih a).mpr fun y hy => h y (.later a hy)⟩

theorem AsksOnly.mono {P' : Q → Prop} (h : p.AsksOnly P) (himp : ∀ x, P x → P' x) :
    p.AsksOnly P' :=
  asksOnly_iff.mpr fun x hx => himp x (asksOnly_iff.mp h x hx)

theorem asksOnly_query {x : Q} (h : P x) : (query x : Procedure Q A (A x)).AsksOnly P :=
  ⟨h, fun _ => trivial⟩

theorem AsksOnly.bind {f : α → Procedure Q A β} (h : p.AsksOnly P) (hf : ∀ a, (f a).AsksOnly P) :
    (p >>= f).AsksOnly P := by
  induction p with
  | done a => exact hf a
  | ask x next ih => exact ⟨h.1, fun a => ih a (h.2 a)⟩

/-- A result depends only on the answers to what may be asked. -/
theorem AsksOnly.run_congr (h : p.AsksOnly P) (heq : ∀ x, P x → answer x = answer' x) :
    p.run answer = p.run answer' := by
  induction p with
  | done a => rfl
  | ask x next ih =>
      rw [run, run, heq x h.1]
      exact ih _ (h.2 _)

/-- Where all questions that may be asked have their answers, there is the result. -/
theorem AsksOnly.run?_eq_some (h : p.AsksOnly P) (heq : ∀ x, P x → answer? x = some (answer x)) :
    p.run? answer? = some (p.run answer) := by
  induction p with
  | done a => rfl
  | ask x next ih =>
      rw [run?, run, heq x h.1]
      exact ih _ (h.2 _)

/-! ## Options and lists -/

/-- Goes on with what is there. -/
def whenSome (o : Option α) (f : α → Procedure Q A (Option β)) : Procedure Q A (Option β) :=
  match o with
  | some a => f a
  | none => pure none

@[simp] theorem run_whenSome (o : Option α) (f : α → Procedure Q A (Option β)) :
    (whenSome o f).run answer = o.bind fun a => (f a).run answer := by
  cases o <;> rfl

theorem asksOnly_whenSome {o : Option α} {f : α → Procedure Q A (Option β)}
    (h : ∀ a, o = some a → (f a).AsksOnly P) : (whenSome o f).AsksOnly P := by
  cases o with
  | none => trivial
  | some a => exact h a rfl

/-- The first result that is there. -/
def firstSome (f : α → Procedure Q A (Option β)) : List α → Procedure Q A (Option β)
  | [] => pure none
  | a :: l => do
    match ← f a with
    | some b => return some b
    | none => firstSome f l

@[simp] theorem run_firstSome (f : α → Procedure Q A (Option β)) (l : List α) :
    (firstSome f l).run answer = l.findSome? fun a => (f a).run answer := by
  induction l with
  | nil => rfl
  | cons a l ih =>
      rw [firstSome, run_bind, List.findSome?_cons]
      cases (f a).run answer with
      | none => exact ih
      | some b => rfl

theorem asksOnly_firstSome {f : α → Procedure Q A (Option β)} {l : List α}
    (h : ∀ a ∈ l, (f a).AsksOnly P) : (firstSome f l).AsksOnly P := by
  induction l with
  | nil => trivial
  | cons a l ih =>
      obtain ⟨ha, hl⟩ := List.forall_mem_cons.mp h
      refine ha.bind fun found => ?_
      cases found with
      | none => exact ih hl
      | some b => trivial

/-- The results of all. -/
def each (f : α → Procedure Q A β) : List α → Procedure Q A (List β)
  | [] => pure []
  | a :: l => do return (← f a) :: (← each f l)

@[simp] theorem run_each (f : α → Procedure Q A β) (l : List α) :
    (each f l).run answer = l.map fun a => (f a).run answer := by
  induction l with
  | nil => rfl
  | cons a l ih => rw [each, run_bind, run_bind, ih, List.map_cons, run_pure]

theorem asksOnly_each {f : α → Procedure Q A β} {l : List α} (h : ∀ a ∈ l, (f a).AsksOnly P) :
    (each f l).AsksOnly P := by
  induction l with
  | nil => trivial
  | cons a l ih =>
      obtain ⟨ha, hl⟩ := List.forall_mem_cons.mp h
      exact ha.bind fun b => (ih hl).bind fun bs => trivial

/-! ## Recursion -/

/-- The rule for one question may ask the other. -/
def Calls (rule : (x : Q) → Procedure Q A (A x)) (x y : Q) : Prop := (rule x).MayAsk y

/-- The answers that at most `fuel` nested calls give; with too few there is none. -/
def answerWithin (rule : (x : Q) → Procedure Q A (A x)) : Nat → (x : Q) → Option (A x)
  | 0, _ => none
  | fuel + 1, x => (rule x).run? (answerWithin rule fuel)

/-- No chain of calls from a question goes on for ever. -/
def Ends (rule : (x : Q) → Procedure Q A (A x)) (x : Q) : Prop :=
  Acc (fun y x => Calls rule x y) x

variable {rule : (x : Q) → Procedure Q A (A x)}

/-- A chain of calls that ends never comes back to a question. -/
theorem Ends.not_transGen {x : Q} (h : Ends rule x) : ¬Relation.TransGen (Calls rule) x x := by
  intro hback
  have hacc : Acc (Relation.TransGen fun y x => Calls rule x y) x := Acc.transGen h
  induction hacc with
  | intro x _ ih => exact ih x (Relation.transGen_swap.mpr hback) h hback

section

variable {D : Q → Prop} (rank : Q → Nat)
  (hrule : ∀ x, D x → (rule x).AsksOnly fun y => D y ∧ rank y < rank x)
include hrule

/-- Calls end where what a rule may ask ranks lower. -/
theorem ends_of_rank {x : Q} (hx : D x) : Ends rule x := by
  induction hr : rank x using Nat.strongRecOn generalizing x with
  | ind r ih =>
      refine ⟨x, fun y hy => ?_⟩
      obtain ⟨hdomain, hlt⟩ := asksOnly_iff.mp (hrule x hx) y hy
      exact ih _ (hr ▸ hlt) hdomain rfl

/-- **Enough calls.** If what a rule may ask ranks lower, then answers that fit the rules are found
by any number of nested calls above the rank. -/
theorem answerWithin_eq_some (hanswer : ∀ x, D x → (rule x).run answer = answer x) {fuel : Nat}
    {x : Q} (hx : D x) (hfuel : rank x < fuel) : answerWithin rule fuel x = some (answer x) := by
  induction fuel generalizing x with
  | zero => cases hfuel
  | succ fuel ih =>
      rw [answerWithin, ← hanswer x hx]
      refine (hrule x hx).run?_eq_some fun y hy => ih hy.1 ?_
      exact Nat.lt_of_lt_of_le hy.2 (Nat.le_of_lt_succ hfuel)

end

end Procedure

end CSharpKit
