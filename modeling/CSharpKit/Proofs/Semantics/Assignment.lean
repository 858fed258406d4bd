import CSharpKit.Proofs.Outcome
import CSharpKit.Semantics.Overload
import Mathlib.Data.Option.Basic

/-!
# Slots for arguments

An argument with a name goes to the parameter of that name. One without goes to the
parameter at its place, or, in the expanded form, into the array at the end. So two
arguments without names never share a parameter, and none of them goes to one that is
taken before. Whether a name is written twice, or names a parameter that has its
argument already, is not looked at.
-/

namespace CSharpKit.Semantics.Slot

open Outcome

variable {params : List ParameterInfo} {names : List (Option String)} {expanded : Bool}
  {bound place : Nat} {name? : Option String} {slot : Slot} {slots : List Slot}

/-! ## One argument -/

/-- The parameters end with an array. -/
def EndsWithArray (params : List ParameterInfo) : Prop :=
  ∃ p, params[params.length - 1]? = some p ∧ p.isParams = true

/-- Where an argument goes by its name or by its place. -/
inductive Takes (params : List ParameterInfo) (expanded : Bool) (place : Nat) :
    Option String → Slot → Prop
  | named {name : String} {i : Nat} (hi : params.findIdx? (·.name == name) = some i) :
      Takes params expanded place (some name) ⟨i, false⟩
  | element (harray : EndsWithArray params) (hexpanded : expanded = true)
      (hplace : params.length ≤ place + 1) :
      Takes params expanded place none ⟨params.length - 1, true⟩
  | own (hplace : place < params.length)
      (hbefore : expanded = true → place + 1 < params.length) :
      Takes params expanded place none ⟨place, false⟩

theorem arrayPlace?_eq_some {i : Nat} (h : arrayPlace? params = some i) :
    EndsWithArray params ∧ i = params.length - 1 := by
  obtain ⟨p, hp, rfl⟩ := Option.map_eq_some_iff.mp h
  obtain ⟨hlast, hparams⟩ := Option.filter_eq_some_iff.mp hp
  rw [List.getLast?_eq_getElem?] at hlast
  exact ⟨⟨p, hlast, hparams⟩, rfl⟩

theorem EndsWithArray.length_pos (h : EndsWithArray params) : 0 < params.length := by
  obtain ⟨p, hp, -⟩ := h
  have hlt := (List.getElem?_eq_some_iff.mp hp).1
  omega

theorem takes_of_find? (harray : expanded = true → (arrayPlace? params).isSome = true)
    (h : find? params (if expanded then arrayPlace? params else none) place name? = some slot) :
    Takes params expanded place name? slot := by
  unfold find? at h
  split at h
  · next name =>
    obtain ⟨i, hi, rfl⟩ := Option.map_eq_some_iff.mp h
    exact .named hi
  · split at h
    · next last hlast =>
      obtain rfl := Option.some.inj h
      obtain ⟨hlast, hle⟩ := Option.filter_eq_some_iff.mp hlast
      split at hlast
      · next hexpanded =>
        obtain ⟨hends, rfl⟩ := arrayPlace?_eq_some hlast
        simp only [decide_eq_true_eq] at hle
        exact .element hends hexpanded (by omega)
      · cases hlast
    · next hnone =>
      split at h
      · next hlt =>
        obtain rfl := Option.some.inj h
        refine .own hlt fun hexpanded => ?_
        obtain ⟨last, hlast⟩ := Option.isSome_iff_exists.mp (harray hexpanded)
        obtain ⟨-, rfl⟩ := arrayPlace?_eq_some hlast
        simp only [hexpanded, if_true, hlast, Option.filter_eq_none_iff, Option.some.injEq,
          decide_eq_true_eq, forall_eq'] at hnone
        omega
      · cases h

namespace Takes

/-- The two forms differ only in whether the argument is an element. -/
theorem parameter_eq {slot' : Slot} (h : Takes params false place name? slot)
    (h' : Takes params true place name? slot') : slot'.parameter = slot.parameter := by
  cases h with
  | named hi =>
      cases h' with
      | named hi' => exact Option.some.inj (hi'.symm.trans hi)
  | element _ hexpanded => cases hexpanded
  | own hplace =>
      cases h' with
      | element _ _ hplace' =>
          show params.length - 1 = place
          omega
      | own => rfl

variable (h : Takes params expanded place name? slot)
include h

theorem parameter_lt : slot.parameter < params.length := by
  cases h with
  | named hi => exact (List.findIdx?_eq_some_iff_getElem.mp hi).1
  | element harray =>
      have hpos := harray.length_pos
      show params.length - 1 < params.length
      omega
  | own hplace => exact hplace

/-- Only elements of the array at the end are marked. -/
theorem of_expanded (hslot : slot.expanded = true) :
    expanded = true ∧ EndsWithArray params ∧ slot.parameter = params.length - 1 := by
  cases h with
  | named => cases hslot
  | element harray hexpanded => exact ⟨hexpanded, harray, rfl⟩
  | own => cases hslot

/-- An argument that is no element of the array stands at its place, or is named. -/
theorem of_not_expanded (hslot : slot.expanded = false) : slot.parameter = place ∨
    ∃ p, name? = some p.name ∧ params[slot.parameter]? = some p := by
  cases h with
  | named hi =>
      obtain ⟨hlt, hname, -⟩ := List.findIdx?_eq_some_iff_getElem.mp hi
      exact .inr ⟨_, congrArg some (beq_iff_eq.mp hname).symm, List.getElem?_eq_getElem hlt⟩
  | element => cases hslot
  | own => exact .inl rfl

end Takes

/-! ## All arguments -/

/-- How the slots lie of a call that is laid out. -/
structure IsLayout (params : List ParameterInfo) (names : List (Option String)) (expanded : Bool)
    (bound : Nat) (slots : List Slot) : Prop where
  length_eq : slots.length = names.length
  takes : ∀ k slot, slots[k]? = some slot →
    ∃ name?, names[k]? = some name? ∧ Takes params expanded (k + bound) name? slot
  covers : ∀ i p, params[i]? = some p → i < bound ∨ p.hasDefault = true ∨
    (expanded = true ∧ p.isParams = true) ∨ ∃ slot ∈ slots, slot.parameter = i

theorem isLayout_of_assign? (h : assign? params names expanded bound = some slots) :
    IsLayout params names expanded bound slots := by
  obtain ⟨_, hguard, h⟩ := Option.bind_eq_some_iff.mp h
  obtain ⟨slots', hslots, h⟩ := Option.bind_eq_some_iff.mp h
  obtain ⟨_, hcovered, h⟩ := Option.bind_eq_some_iff.mp h
  obtain rfl := Option.some.inj h
  replace hguard := (Option.guard_eq_some' _).mp hguard
  replace hcovered := (Option.guard_eq_some' _).mp hcovered
  have hlaid := mapM_eq_some_iff.mp hslots
  have hlength : slots'.length = names.length := by simpa using hlaid.length_eq.symm
  refine ⟨hlength, fun k slot hslot => ?_, fun i p hp => ?_⟩
  · obtain ⟨hlt, rfl⟩ := List.getElem?_eq_some_iff.mp hslot
    have hk : k < names.length := hlength ▸ hlt
    refine ⟨names[k], List.getElem?_eq_getElem hk, takes_of_find? (fun hexpanded => ?_) ?_⟩
    · simp only [hexpanded, Bool.not_true, Bool.false_or, if_true, Bool.and_eq_true] at hguard
      exact hguard.1
    · simpa using hlaid.get (by simpa using hk) hlt
  · have hi := List.all_eq_true.mp hcovered (p, i) (List.mem_zipIdx_iff_getElem?.mpr hp)
    simp only [Bool.or_eq_true, decide_eq_true_eq, List.any_eq_true, Bool.and_eq_true,
      beq_iff_eq] at hi
    rcases hi with ((hi | hslot) | hdefault) | harray
    · exact .inl hi
    · exact .inr (.inr (.inr hslot))
    · exact .inr (.inl hdefault)
    · exact .inr (.inr (.inl harray))

/-- The argument at `k` is given by the name of the parameter at `i`. -/
def NamedAt (params : List ParameterInfo) (names : List (Option String)) (k i : Nat) : Prop :=
  ∃ p, names[k]? = some (some p.name) ∧ params[i]? = some p

namespace IsLayout

/-- Where both forms can be laid out, each argument goes to the same parameter. -/
theorem parameter_eq {slots' : List Slot} {slot' : Slot} {k : Nat}
    (h : IsLayout params names false bound slots) (h' : IsLayout params names true bound slots')
    (hk : slots[k]? = some slot) (hk' : slots'[k]? = some slot') :
    slot'.parameter = slot.parameter := by
  obtain ⟨name?, hname, htakes⟩ := h.takes k slot hk
  obtain ⟨_, hname', htakes'⟩ := h'.takes k slot' hk'
  obtain rfl := Option.some.inj (hname'.symm.trans hname)
  exact htakes.parameter_eq htakes'

variable (h : IsLayout params names expanded bound slots)
include h

theorem exists_takes (hslot : slot ∈ slots) :
    ∃ place name?, Takes params expanded place name? slot := by
  obtain ⟨k, hk⟩ := List.mem_iff_getElem?.mp hslot
  obtain ⟨name?, -, htakes⟩ := h.takes k slot hk
  exact ⟨_, _, htakes⟩

theorem parameter_lt (hslot : slot ∈ slots) : slot.parameter < params.length := by
  obtain ⟨place, name?, htakes⟩ := h.exists_takes hslot
  exact htakes.parameter_lt

/-- Only elements of the array at the end are marked. -/
theorem array_of_expanded (hslot : slot ∈ slots) (hmarked : slot.expanded = true) :
    expanded = true ∧ EndsWithArray params ∧ slot.parameter = params.length - 1 := by
  obtain ⟨place, name?, htakes⟩ := h.exists_takes hslot
  exact htakes.of_expanded hmarked

/-- A parameter that needs an argument has one. -/
theorem exists_of_required {i : Nat} {p : ParameterInfo} (hp : params[i]? = some p)
    (hbound : bound ≤ i) (hdefault : p.hasDefault = false)
    (harray : ¬(expanded = true ∧ p.isParams = true)) : ∃ slot ∈ slots, slot.parameter = i := by
  rcases h.covers i p hp with hlt | hsome | hsome | hslot
  · exact absurd hlt (Nat.not_lt.mpr hbound)
  · simp [hdefault] at hsome
  · exact absurd hsome harray
  · exact hslot

/-- An argument that is no element of the array stands at its place, or is named. -/
theorem place_or_named {k : Nat} (hk : slots[k]? = some slot) (hfree : slot.expanded = false) :
    slot.parameter = k + bound ∨ NamedAt params names k slot.parameter := by
  obtain ⟨name?, hname, htakes⟩ := h.takes k slot hk
  rcases htakes.of_not_expanded hfree with hplace | ⟨p, rfl, hp⟩
  · exact .inl hplace
  · exact .inr ⟨p, hname, hp⟩

/-- Of two arguments that share a parameter one is named, for else both would stand at the
same place. -/
theorem named_of_shared {j k : Nat} {a b : Slot} (hne : j ≠ k) (ha : slots[j]? = some a)
    (hb : slots[k]? = some b) (hfree : a.expanded = false) (hfree' : b.expanded = false)
    (hsame : a.parameter = b.parameter) :
    NamedAt params names j a.parameter ∨ NamedAt params names k b.parameter := by
  rcases h.place_or_named ha hfree with hplace | hnamed
  · rcases h.place_or_named hb hfree' with hplace' | hnamed
    · omega
    · exact .inr hnamed
  · exact .inl hnamed

/-- An argument at a parameter that is taken before is named, for its place is behind. -/
theorem named_of_taken {k : Nat} (hk : slots[k]? = some slot) (hfree : slot.expanded = false)
    (htaken : slot.parameter < bound) : NamedAt params names k slot.parameter := by
  rcases h.place_or_named hk hfree with hplace | hnamed
  · omega
  · exact hnamed

end IsLayout

/-- **Arguments are assigned to parameters.** If a call can be laid out then each argument has
a slot at one of the parameters, and each parameter has an argument that needs one: it is not
taken before, has no default and is no array in the expanded form. A slot that is marked is
the array at the end, in the expanded form. Two arguments that are not marked share a
parameter only if one of them names it, and an argument that is not marked goes to a parameter
that is taken before only if it names it. -/
theorem assign?_assigns (params : List ParameterInfo) (names : List (Option String))
    (expanded : Bool) (bound : Nat) (slots : List Slot)
    (h : assign? params names expanded bound = some slots) :
    slots.length = names.length ∧
      (∀ slot ∈ slots, slot.parameter < params.length) ∧
      (∀ i p, params[i]? = some p → bound ≤ i → p.hasDefault = false →
        ¬(expanded = true ∧ p.isParams = true) → ∃ slot ∈ slots, slot.parameter = i) ∧
      (∀ slot ∈ slots, slot.expanded = true →
        expanded = true ∧ EndsWithArray params ∧ slot.parameter = params.length - 1) ∧
      (∀ j k a b, j ≠ k → slots[j]? = some a → slots[k]? = some b →
        a.expanded = false → b.expanded = false → a.parameter = b.parameter →
          NamedAt params names j a.parameter ∨ NamedAt params names k b.parameter) ∧
      ∀ k slot, slots[k]? = some slot → slot.expanded = false → slot.parameter < bound →
        NamedAt params names k slot.parameter := by
  have hlayout := isLayout_of_assign? h
  refine ⟨hlayout.length_eq, ?_, ?_, ?_, ?_, ?_⟩
  · intro slot hslot
    exact hlayout.parameter_lt hslot
  · intro i p hp hbound hdefault harray
    exact hlayout.exists_of_required hp hbound hdefault harray
  · intro slot hslot hmarked
    exact hlayout.array_of_expanded hslot hmarked
  · intro j k a b hne ha hb hfree hfree' hsame
    exact hlayout.named_of_shared hne ha hb hfree hfree' hsame
  · intro k slot hk hfree htaken
    exact hlayout.named_of_taken hk hfree htaken

/-- A parameter without a type, for examples. -/
def untyped (name : String) : ParameterInfo := { name, ty := .error name }

theorem assign?_assigns_swapped :
    assign? [untyped "a", untyped "b"] [some "b", some "a"] false 0 =
        some [⟨1, false⟩, ⟨0, false⟩] ∧
      ∃ slot ∈ [Slot.mk 1 false, ⟨0, false⟩], slot.parameter = 1 := by
  have h : assign? [untyped "a", untyped "b"] [some "b", some "a"] false 0 =
      some [⟨1, false⟩, ⟨0, false⟩] := by decide
  obtain ⟨-, -, hcovers, -⟩ := assign?_assigns _ _ _ _ _ h
  exact ⟨h, hcovers 1 (untyped "b") rfl (Nat.zero_le 1) rfl (by simp)⟩

/-- A name that is written twice gives two arguments to one parameter, and the name of a
parameter that is taken before gives it a second one. -/
theorem assign?_repeats :
    assign? [untyped "a"] [some "a", some "a"] false 0 = some [⟨0, false⟩, ⟨0, false⟩] ∧
      assign? [untyped "a"] [some "a"] false 1 = some [⟨0, false⟩] := by
  decide

end CSharpKit.Semantics.Slot
