import CSharpKit.Proofs.Semantics.Assignment
import CSharpKit.Proofs.Semantics.Overloads

/-!
# Arguments for parameters

A method that a call means fits it, so its parameters are laid out: each one has
an argument, or may do without. The value that an extension method is called on
counts as the argument for its first parameter.
-/

namespace CSharpKit.Semantics

open Syntax Cursor Outcome

/-! ## Slots -/

namespace Slot

variable {params : List ParameterInfo} {names : List (Option String)} {expanded : Bool}
  {bound : Nat} {slots : List Slot}

/-- A laid out call has one slot for each argument. A parameter is taken before, or
has a slot of its own, or may do without. -/
theorem assign?_covers (h : assign? params names expanded bound = some slots) :
    slots.length = names.length ∧ ∀ i p, params[i]? = some p →
      i < bound ∨ (∃ slot ∈ slots, slot.parameter = i ∧ slot.expanded = false) ∨
        p.hasDefault = true ∨ p.isParams = true := by
  have hlayout := isLayout_of_assign? h
  refine ⟨hlayout.length_eq, fun i p hp => ?_⟩
  rcases hlayout.covers i p hp with hlt | hdefault | ⟨-, hparams⟩ | ⟨slot, hslot, rfl⟩
  · exact .inl hlt
  · exact .inr (.inr (.inl hdefault))
  · exact .inr (.inr (.inr hparams))
  · cases hexpanded : slot.expanded with
    | false => exact .inr (.inl ⟨slot, hslot, rfl, hexpanded⟩)
    | true =>
        -- The slot is an element of the array, which is this parameter.
        obtain ⟨-, ⟨p', hp', hparams⟩, hlast⟩ := hlayout.array_of_expanded hslot hexpanded
        rw [hlast, hp'] at hp
        obtain rfl := Option.some.inj hp
        exact .inr (.inr (.inr hparams))

end Slot

/-! ## Fits -/

namespace Fit

variable {s : SymbolTable} {method : MethodId} {form : CallForm} {args : CallArguments}

theorem mem_of_unique? {ranked : List (MethodId × Nat)} (h : unique? ranked = some method) :
    ∃ rank, (method, rank) ∈ ranked := by
  obtain ⟨rank, hrank⟩ := unique?_eq_some_iff.mp h
  exact ⟨rank, (mem_reaching.mp (hrank ▸ List.mem_singleton_self _)).1⟩

/-- The method that is chosen fits the call. -/
theorem find?_of_choose? {candidates : List MethodId}
    (h : choose? s candidates form args = some method) :
    ∃ fit, find? s method form args = some fit := by
  obtain ⟨rank, hmem⟩ := mem_of_unique? h
  obtain ⟨candidate, -, hcandidate⟩ := List.mem_filterMap.mp hmem
  split at hcandidate
  · cases hcandidate
  · obtain ⟨fit, hfit, heq⟩ := Option.map_eq_some_iff.mp hcandidate
    obtain ⟨rfl, -⟩ := Prod.mk.inj heq
    exact ⟨fit, hfit⟩

/-- A method fits a call only if its parameters can be laid out in the form it is taken in. -/
theorem assign?_of_find? {fit : Fit} (h : find? s method form args = some fit) :
    ∃ slots, Slot.assign? (s.method method).params args.names (!fit.isNormal)
      (if form.thisArgument?.isSome then 1 else 0) = some slots := by
  have laid {expanded : Bool} (h : inForm? s method form args expanded = some fit) :
      ∃ slots, Slot.assign? (s.method method).params args.names (!fit.isNormal)
        (if form.thisArgument?.isSome then 1 else 0) = some slots := by
    obtain ⟨slots, hslots, h⟩ := Option.bind_eq_some_iff.mp h
    obtain ⟨weights, -, h⟩ := Option.bind_eq_some_iff.mp h
    obtain rfl := Option.some.inj h
    exact ⟨slots, by rwa [Bool.not_not]⟩
  unfold find? at h
  split at h
  · next found hfound =>
    obtain rfl := Option.some.inj h
    exact laid hfound
  · exact laid h

end Fit

/-! ## Calls -/

namespace Model

variable {m : Model}

/-- Where a method means a call, its parameters are laid out. -/
theorem slots?_of_invokedMethod? {call : Cursor} {method : MethodId}
    (h : m.invokedMethod? call = some method) :
    ∃ slots, m.slots? call method
        (if (thisArgumentWith? (m.queries call) call).isSome then 1 else 0) = some slots ∧
      ∃ expanded, Slot.assign? (m.table.method method).params
        (call.arguments.map Cursor.argumentName?) expanded
        (if (thisArgumentWith? (m.queries call) call).isSome then 1 else 0) = some slots := by
  unfold invokedMethod? invokedMethodWith? at h
  split at h
  · next candidates receiver? thisArgument? hsymbol =>
    have hthis : thisArgumentWith? (m.queries call) call = thisArgument? := by
      rw [thisArgumentWith?, hsymbol]
    obtain ⟨fit, hfit⟩ := Fit.find?_of_choose? h
    obtain ⟨slots, hslots⟩ := Fit.assign?_of_find? hfit
    replace hslots : Slot.assign? (m.table.method method).params
      (call.arguments.map Cursor.argumentName?) (!fit.isNormal)
        (if thisArgument?.isSome then 1 else 0) = some slots := hslots
    rw [hthis, slots?]
    split
    · next normal hnormal => exact ⟨normal, rfl, false, hnormal⟩
    · next hnormal =>
      cases hform : fit.isNormal with
      | true =>
          rw [hform, Bool.not_true, hnormal] at hslots
          cases hslots
      | false =>
          rw [hform, Bool.not_false] at hslots
          exact ⟨slots, hslots, true, hslots⟩
  · cases h

/-- An argument stands beside each slot. -/
theorem exists_argument {arguments : List Cursor} {slots : List Slot} {slot : Slot} {ordinal : Nat}
    (hlength : slots.length = arguments.length) (hslot : slot ∈ slots)
    (hparameter : slot.parameter = ordinal) (hexpanded : slot.expanded = false) :
    ∃ found, (arguments.zip slots).find? (fun (_, slot) =>
      slot.parameter == ordinal && !slot.expanded) = some found ∧ found.1 ∈ arguments := by
  obtain ⟨i, hi, rfl⟩ := List.mem_iff_getElem.mp hslot
  have hbeside : (arguments[i], slots[i]) ∈ arguments.zip slots :=
    List.mem_iff_getElem.mpr ⟨i, by simp; omega, by simp⟩
  have hsome : ((arguments.zip slots).find? fun (_, slot) =>
      slot.parameter == ordinal && !slot.expanded).isSome := by
    rw [List.find?_isSome]
    exact ⟨_, hbeside, by simp [hparameter, hexpanded]⟩
  obtain ⟨found, hfound⟩ := Option.isSome_iff_exists.mp hsome
  exact ⟨found, hfound, (List.of_mem_zip (List.mem_of_find?_eq_some hfound)).1⟩

/-- A call of an extension method on a value is written with a dot. -/
theorem reducedReceiver?_of_thisArgument {call : Cursor}
    (h : (thisArgumentWith? (m.queries call) call).isSome = true) :
    ∃ receiver, reducedReceiver? call = some receiver := by
  unfold thisArgumentWith? at h
  split at h
  · next candidates receiver? thisArgument? hsymbol =>
    obtain ⟨ty, rfl⟩ := Option.isSome_iff_exists.mp h
    obtain ⟨e, he, hsymbol⟩ := Option.bind_eq_some_iff.mp hsymbol
    exact reducedReceiver?_isSome he hsymbol
  · cases h

/-- A call that gives no expression for a parameter of the method it means: the
parameter may be left out, or an argument has no expression. -/
theorem optional_of_argumentFor? {call : Cursor} {method : MethodId} {ordinal : Nat}
    {p : ParameterInfo} (hmethod : m.invokedMethod? call = some method)
    (hp : (m.table.method method).params[ordinal]? = some p)
    (h : m.argumentFor? call method ordinal = none) :
    p.hasDefault = true ∨ p.isParams = true ∨ ∃ a ∈ call.arguments, a.expression? = none := by
  obtain ⟨slots, hslots, expanded, hassign⟩ := slots?_of_invokedMethod? hmethod
  obtain ⟨hlength, hcovers⟩ := Slot.assign?_covers hassign
  rw [List.length_map] at hlength
  -- Once the receiver is set aside, the argument in the slot has no expression.
  have laid {bound : Nat} (hslots : m.slots? call method bound = some slots)
      (hbound : ¬ ordinal < (if (thisArgumentWith? (m.queries call) call).isSome then 1 else 0))
      (h : (do
        let slots ← m.slots? call method bound
        let (argument, _) ← (call.arguments.zip slots).find? fun (_, slot) =>
          slot.parameter == ordinal && !slot.expanded
        argument.expression?) = none) :
      p.hasDefault = true ∨ p.isParams = true ∨ ∃ a ∈ call.arguments, a.expression? = none := by
    rcases hcovers ordinal p hp with hlt | ⟨slot, hslot, hparameter, hexpanded⟩ | hdefault | hparams
    · exact absurd hlt hbound
    · obtain ⟨found, hfound, hmem⟩ := exists_argument hlength hslot hparameter hexpanded
      rw [hslots] at h
      simp only [Option.bind_eq_bind, Option.bind_some, hfound] at h
      exact .inr (.inr ⟨found.1, hmem, h⟩)
    · exact .inl hdefault
    · exact .inr (.inl hparams)
  unfold argumentFor? at h
  cases hreduced : (thisArgumentWith? (m.queries call) call).isSome with
  | true =>
      obtain ⟨receiver, hreceiver⟩ := reducedReceiver?_of_thisArgument hreduced
      rw [hreduced] at hslots
      by_cases hzero : ordinal = 0
      · simp [hreduced, hreceiver, hzero, Option.filter] at h
      · have hother : (some receiver).filter (fun _ => ordinal == 0) = none := by
          simp [Option.filter, hzero]
        refine laid hslots (by simp [hreduced]; omega) ?_
        simp only [hreduced, if_true, hreceiver, Option.map_some, Option.bind_eq_bind,
          Option.bind_some, hother, Option.isSome_some] at h
        exact h
  | false =>
      rw [hreduced] at hslots
      refine laid hslots (by simp [hreduced]) ?_
      simp only [hreduced, Bool.false_eq_true, if_false, Option.bind_eq_bind, Option.bind_some,
        Option.filter_none, Option.isSome_none] at h
      exact h

/-- What a call gives for a parameter is the value that an extension method is called on, or
the expression of an argument whose slot lies at the parameter and is not marked. -/
theorem argumentFor?_cases {call e : Cursor} {method : MethodId} {ordinal : Nat}
    (h : m.argumentFor? call method ordinal = some e) :
    ((thisArgumentWith? (m.queries call) call).isSome = true ∧ ordinal = 0 ∧
      reducedReceiver? call = some e) ∨
    ∃ (slots : List Slot) (k : Nat) (argument : Cursor) (slot : Slot),
      m.slots? call method (if (thisArgumentWith? (m.queries call) call).isSome then 1 else 0) =
        some slots ∧
      call.arguments[k]? = some argument ∧ slots[k]? = some slot ∧ slot.parameter = ordinal ∧
      slot.expanded = false ∧ argument.expression? = some e := by
  have laid {bound : Nat} (h : (do
      let slots ← m.slots? call method bound
      let (argument, _) ← (call.arguments.zip slots).find? fun (_, slot) =>
        slot.parameter == ordinal && !slot.expanded
      argument.expression?) = some e) :
      ∃ (slots : List Slot) (k : Nat) (argument : Cursor) (slot : Slot),
      m.slots? call method bound = some slots ∧ call.arguments[k]? = some argument ∧
      slots[k]? = some slot ∧ slot.parameter = ordinal ∧ slot.expanded = false ∧
      argument.expression? = some e := by
    obtain ⟨slots, hslots, h⟩ := Option.bind_eq_some_iff.mp h
    obtain ⟨⟨argument, slot⟩, hfound, h⟩ := Option.bind_eq_some_iff.mp h
    obtain ⟨k, hk⟩ := List.mem_iff_getElem?.mp (List.mem_of_find?_eq_some hfound)
    obtain ⟨hargument, hslot⟩ := List.getElem?_zip_eq_some.mp hk
    have hplace := List.find?_some hfound
    simp only [Bool.and_eq_true, beq_iff_eq, Bool.not_eq_true'] at hplace
    exact ⟨slots, k, argument, slot, hslots, hargument, hslot, hplace.1, hplace.2, h⟩
  unfold argumentFor? at h
  dsimp only at h
  split at h
  · next hreduced =>
    obtain ⟨receiver?, hreceiver, h⟩ := Option.bind_eq_some_iff.mp h
    obtain ⟨receiver, hreduction, rfl⟩ := Option.map_eq_some_iff.mp hreceiver
    split at h
    · next found hfound =>
      obtain rfl : found = e := Option.some.inj h
      obtain ⟨hsame, hzero⟩ := Option.filter_eq_some_iff.mp hfound
      obtain rfl : receiver = found := Option.some.inj hsame
      exact .inl ⟨hreduced, beq_iff_eq.mp hzero, hreduction⟩
    · refine .inr ?_
      rw [if_pos hreduced]
      exact laid h
  · next hreduced =>
    refine .inr ?_
    rw [if_neg hreduced]
    exact laid h

/-- What a call gives for a parameter stands in the call. -/
theorem below_of_argumentFor? {call argument : Cursor} {method : MethodId} {ordinal : Nat}
    (h : m.argumentFor? call method ordinal = some argument) : Below call argument := by
  rcases argumentFor?_cases h with ⟨-, -, h⟩ | ⟨_, _, a, _, -, ha, -, -, -, h⟩
  · unfold reducedReceiver? at h
    obtain ⟨e, he, h⟩ := Option.bind_eq_some_iff.mp h
    dsimp only at h
    split at h
    · have hcallee := (below_of_childOf? he).trans (below_unparenthesized e)
      exact hcallee.trans (below_of_childOf? h)
    · cases h
  · replace ha : a ∈ call.arguments := List.mem_of_getElem? ha
    cases hlist : call.argumentList? with
    | none => simp [arguments, hlist] at ha
    | some list =>
        have ha : a ∈ list.childrenOfKind .argument := by
          simpa [arguments, hlist, listedArguments] using ha
        exact ((below_of_childOf? hlist).trans
          (below_of_mem_children (mem_children_of_mem_childrenOfKind ha).1)).trans
          (below_of_childOf? h)

end Model

end CSharpKit.Semantics
