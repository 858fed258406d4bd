import CSharpKit.Proofs.Semantics.Arguments

/-!
# Passed arguments

A call passes its arguments to the method it means in one of two forms: the normal one, or
the expanded one if a conversion or the number of arguments rules the normal one out. What
it gives for a parameter is looked up apart from that, by names and places alone. Both
forms send an argument to the same parameter, so what is found is passed to the parameter
asked for. But conversions are not looked at again, so it may be passed as an element.
-/

namespace CSharpKit.Semantics.Model

open Syntax Cursor Workspace Slot

variable {m : Model} {call : Cursor} {method : MethodId}

/-- How a method fits a call. -/
def fitOf? (m : Model) (call : Cursor) (method : MethodId) : Option Fit :=
  Fit.find? m.table method
    (m.formOf call (m.receiverOf? call) (thisArgumentWith? (m.queries call) call))
    (callArguments (m.queries call) call)

/-- The number of parameters that are taken before the arguments of a call. -/
def boundOf (m : Model) (call : Cursor) : Nat :=
  if (thisArgumentWith? (m.queries call) call).isSome then 1 else 0

/-- The slots of the arguments of a call in one of the forms of a method. -/
def slotsIn? (m : Model) (call : Cursor) (method : MethodId) (expanded : Bool) :
    Option (List Slot) :=
  assign? (m.table.method method).params (call.arguments.map Cursor.argumentName?) expanded
    (m.boundOf call)

/-- The method that a call means fits it, and its parameters are laid out in that form. -/
theorem fitOf?_of_invokedMethod? (h : m.invokedMethod? call = some method) :
    ∃ fit slots, m.fitOf? call method = some fit ∧
      m.slotsIn? call method (!fit.isNormal) = some slots := by
  unfold invokedMethod? invokedMethodWith? at h
  split at h
  · next candidates receiver? thisArgument? hsymbol =>
    obtain ⟨fit, hfit⟩ := Fit.find?_of_choose? h
    obtain ⟨slots, hslots⟩ := Fit.assign?_of_find? hfit
    have hreceiver : m.receiverOf? call = receiver? := by rw [receiverOf?, hsymbol]
    have hthis : thisArgumentWith? (m.queries call) call = thisArgument? := by
      rw [thisArgumentWith?, hsymbol]
    refine ⟨fit, slots, ?_, ?_⟩
    · rw [fitOf?, hreceiver, hthis]
      exact hfit
    · rw [slotsIn?, boundOf, hthis]
      exact hslots
  · cases h

/-- The slots that are found by names and places alone are those of the form that is asked for,
or this is the expanded form and they are those of the normal one. -/
theorem slots?_eq_or_normal {expanded : Bool} {found slots : List Slot}
    (hfound : m.slots? call method (m.boundOf call) = some found)
    (hslots : m.slotsIn? call method expanded = some slots) :
    found = slots ∨ expanded = true ∧ m.slotsIn? call method false = some found := by
  unfold slots? at hfound
  dsimp only at hfound
  split at hfound
  · next normal hnormal =>
    obtain rfl := Option.some.inj hfound
    replace hnormal : m.slotsIn? call method false = some normal := hnormal
    cases expanded with
    | false => exact .inl (Option.some.inj (hnormal.symm.trans hslots))
    | true => exact .inr ⟨rfl, hnormal⟩
  · next hnone =>
    cases expanded with
    | false => cases hnone.symm.trans hslots
    | true => exact .inl (Option.some.inj (hfound.symm.trans hslots))

/-- In each form that can be laid out, an argument goes to the parameter that is found by names
and places alone. It is an element although it was not found as one only if the normal form can
be laid out as well. -/
theorem exists_slot {expanded : Bool} {found slots : List Slot} {k : Nat} {slot : Slot}
    (hfound : m.slots? call method (m.boundOf call) = some found)
    (hslots : m.slotsIn? call method expanded = some slots) (hk : found[k]? = some slot) :
    ∃ slot', slots[k]? = some slot' ∧ slot'.parameter = slot.parameter ∧
      (slot'.expanded = true → slot.expanded = true ∨
        expanded = true ∧ (m.slotsIn? call method false).isSome = true) := by
  rcases slots?_eq_or_normal hfound hslots with rfl | ⟨rfl, hnormal⟩
  · exact ⟨slot, hk, rfl, .inl⟩
  · have hlayout := isLayout_of_assign? hnormal
    have hlayout' := isLayout_of_assign? hslots
    have hlt := (List.getElem?_eq_some_iff.mp hk).1
    rw [hlayout.length_eq, ← hlayout'.length_eq] at hlt
    have hk' := List.getElem?_eq_getElem hlt
    refine ⟨slots[k], hk', hlayout.parameter_eq hlayout' hk hk', ?_⟩
    intro
    exact .inr ⟨rfl, by rw [hnormal]; rfl⟩

/-- **What is found is passed.** Where a call means a method and gives an expression for one of
its parameters, then in the form in which the method fits the call this expression is passed
to this parameter: it is the value that an extension method is called on, or the expression of
an argument whose slot lies there. It is passed as it is, save for one case: the method fits
in its expanded form, though its normal form can be laid out too. -/
theorem argumentFor?_passed (m : Model) (call e : Cursor) (method : MethodId) (ordinal : Nat)
    (hmeans : m.invokedMethod? call = some method)
    (hgiven : m.argumentFor? call method ordinal = some e) :
    ∃ fit slots, m.fitOf? call method = some fit ∧
      m.slotsIn? call method (!fit.isNormal) = some slots ∧
      (m.boundOf call = 1 ∧ ordinal = 0 ∧ reducedReceiver? call = some e ∨
        ∃ (k : Nat) (argument : Cursor) (slot : Slot), call.arguments[k]? = some argument ∧
          argument.expression? = some e ∧ slots[k]? = some slot ∧ slot.parameter = ordinal ∧
          (slot.expanded = true →
            fit.isNormal = false ∧ (m.slotsIn? call method false).isSome = true)) := by
  obtain ⟨fit, slots, hfit, hslots⟩ := fitOf?_of_invokedMethod? hmeans
  refine ⟨fit, slots, hfit, hslots, ?_⟩
  rcases argumentFor?_cases hgiven with ⟨hreduced, hzero, hreceiver⟩ |
    ⟨found, k, argument, slot, hfound, hargument, hk, hparameter, hfree, he⟩
  · exact .inl ⟨if_pos hreduced, hzero, hreceiver⟩
  · obtain ⟨slot', hk', hsame, hexpanded⟩ := exists_slot hfound hslots hk
    refine .inr ⟨k, argument, slot', hargument, he, hk', hsame.trans hparameter, fun hslot => ?_⟩
    rcases hexpanded hslot with hmarked | hform
    · simp [hfree] at hmarked
    · simpa using hform

/-- A project with one document, whose method `M` takes single elements of an array. -/
def elementProject : Project :=
  Project.empty.append (Document.read 0 "element.cs"
    "class C \x7b void M(params int[] xs) \x7b \x7d void N() \x7b M(5); \x7d \x7d" 0) rfl

/-- Its only call fits `M` in the expanded form, where the argument is an element. The argument
is found for the parameter all the same. -/
theorem exists_call_elementProject : ∃ call ∈ callsIn elementProject, ∃ e fit,
    (ofFirst elementProject).invokedMethod? call = some ⟨49⟩ ∧
    (ofFirst elementProject).argumentFor? call ⟨49⟩ 0 = some e ∧ e.text = "5" ∧
    (ofFirst elementProject).fitOf? call ⟨49⟩ = some fit ∧ fit.isNormal = false ∧
    (ofFirst elementProject).slotsIn? call ⟨49⟩ true = some [⟨0, true⟩] := by
  have hcall : ((callsIn elementProject.quick).any fun call => decide <|
      (ofFirst elementProject.quick).invokedMethod? call = some ⟨49⟩ ∧
      ((ofFirst elementProject.quick).argumentFor? call ⟨49⟩ 0).any (·.text == "5") = true ∧
      ((ofFirst elementProject.quick).fitOf? call ⟨49⟩).any (!·.isNormal) = true ∧
      (ofFirst elementProject.quick).slotsIn? call ⟨49⟩ true = some [⟨0, true⟩]) = true := by
    decide +kernel
  rw [Project.quick_eq] at hcall
  obtain ⟨call, hmem, hcall⟩ := List.any_eq_true.mp hcall
  obtain ⟨hmeans, hgiven, hfit, hslots⟩ := of_decide_eq_true hcall
  obtain ⟨e, he, htext⟩ := (Option.any_eq_true _ _).mp hgiven
  obtain ⟨fit, hfit, hform⟩ := (Option.any_eq_true _ _).mp hfit
  exact ⟨call, hmem, e, fit, hmeans, he, beq_iff_eq.mp htext, hfit, by simpa using hform, hslots⟩

theorem argumentFor?_passed_element : ∃ call ∈ callsIn elementProject, ∃ e fit slots,
    (ofFirst elementProject).invokedMethod? call = some ⟨49⟩ ∧
    (ofFirst elementProject).argumentFor? call ⟨49⟩ 0 = some e ∧
    (ofFirst elementProject).fitOf? call ⟨49⟩ = some fit ∧
    (ofFirst elementProject).slotsIn? call ⟨49⟩ (!fit.isNormal) = some slots ∧
    ((ofFirst elementProject).boundOf call = 1 ∧ 0 = 0 ∧ reducedReceiver? call = some e ∨
      ∃ (k : Nat) (argument : Cursor) (slot : Slot), call.arguments[k]? = some argument ∧
        argument.expression? = some e ∧ slots[k]? = some slot ∧ slot.parameter = 0 ∧
        (slot.expanded = true →
          fit.isNormal = false ∧
            ((ofFirst elementProject).slotsIn? call ⟨49⟩ false).isSome = true)) := by
  obtain ⟨call, hmem, e, -, hmeans, hgiven, -⟩ := exists_call_elementProject
  obtain ⟨fit, slots, hpassed⟩ := argumentFor?_passed _ _ _ _ _ hmeans hgiven
  exact ⟨call, hmem, e, fit, slots, hmeans, hgiven, hpassed⟩

/-- An element of an array is found for the parameter of the array. -/
theorem argumentFor?_element : ∃ call ∈ callsIn elementProject, ∃ e fit slots,
    (ofFirst elementProject).invokedMethod? call = some ⟨49⟩ ∧
    (ofFirst elementProject).argumentFor? call ⟨49⟩ 0 = some e ∧ e.text = "5" ∧
    (ofFirst elementProject).fitOf? call ⟨49⟩ = some fit ∧
    (ofFirst elementProject).slotsIn? call ⟨49⟩ (!fit.isNormal) = some slots ∧
    slots = [⟨0, true⟩] := by
  obtain ⟨call, hmem, e, fit, hmeans, hgiven, htext, hfit, hform, hslots⟩ :=
    exists_call_elementProject
  exact ⟨call, hmem, e, fit, _, hmeans, hgiven, htext, hfit, by rw [hform]; exact hslots, rfl⟩

end CSharpKit.Semantics.Model
