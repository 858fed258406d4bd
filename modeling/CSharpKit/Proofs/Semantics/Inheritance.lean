import CSharpKit.Proofs.Semantics.BaseChains
import CSharpKit.Proofs.Workspace.QuickReading
import Mathlib.Data.List.Chain

/-!
# Rows of base classes

Classes can be declared to derive from themselves or from each other. The row of base classes of
a type is made by a loop that asks for the base class of the last type until there is none or the
row has it already. `ChainRun` is that loop without a bound. In the table of a project it ends,
the bound on its rounds is never reached, and its row holds what can be reached through base
classes.
-/

namespace CSharpKit.Semantics

open Syntax Workspace

namespace SymbolTable

/-- The loop that makes a row of base classes, from a row and its last type to the row at the
end. -/
inductive ChainRun (s : SymbolTable) : List TypeId → TypeId → List TypeId → Prop
  | halt {row last} (h : ∀ base, s.classBase? last = some base → base ∈ row) :
      ChainRun s row last row
  | extend {row last base out} (h : s.classBase? last = some base) (hnew : base ∉ row)
      (rest : ChainRun s (row ++ [base]) base out) : ChainRun s row last out

/-- A row that starts with a type, in which each later type is the base class of the one before it
and no type is twice. It stops only where no base class is left that it does not have. -/
structure IsBaseRow (s : SymbolTable) (t : TypeId) (row : List TypeId) : Prop where
  first : row.head? = some t
  follows : row.IsChain fun a b => s.classBase? a = some b
  nodup : row.Nodup
  ends : ∀ last ∈ row.getLast?, ∀ base, s.classBase? last = some base → base ∈ row

variable {s : SymbolTable} {t last base : TypeId} {row out : List TypeId}

namespace ChainRun

/-- The loop has one end. -/
theorem deterministic (run : s.ChainRun row last out) :
    ∀ {out'}, s.ChainRun row last out' → out = out' := by
  induction run with
  | halt h =>
      intro out' run'
      cases run' with
      | halt => rfl
      | extend hbase hnew _ => exact absurd (h _ hbase) hnew
  | extend hbase hnew _ ih =>
      intro out' run'
      cases run' with
      | halt h => exact absurd (h _ hbase) hnew
      | extend hbase' _ rest =>
          obtain rfl := Option.some.inj (hbase.symm.trans hbase')
          exact ih rest

/-- One round puts the base class of the last type behind it. -/
theorem isChain_concat (hrow : row.IsChain fun a b => s.classBase? a = some b)
    (hlast : row.getLast? = some last) (hbase : s.classBase? last = some base) :
    (row ++ [base]).IsChain fun a b => s.classBase? a = some b := by
  refine hrow.append (List.isChain_singleton base) fun a ha b hb => ?_
  obtain rfl := Option.some.inj (hlast.symm.trans ha)
  obtain rfl := Option.some.inj hb
  exact hbase

/-- The types of a row follow one another through all rounds. -/
theorem isChain (run : s.ChainRun row last out)
    (hrow : row.IsChain fun a b => s.classBase? a = some b) (hlast : row.getLast? = some last) :
    out.IsChain fun a b => s.classBase? a = some b := by
  induction run with
  | halt => exact hrow
  | extend hbase _ _ ih => exact ih (isChain_concat hrow hlast hbase) List.getLast?_concat

/-- A run with a bound that leaves no base class out is a run to the end. -/
theorem of_extendChain (fuel : Nat) (hlast : last ∈ row)
    (hout : ∀ b ∈ s.extendChain fuel row last, ∀ c, s.classBase? b = some c →
      c ∈ s.extendChain fuel row last) : s.ChainRun row last (s.extendChain fuel row last) := by
  induction fuel generalizing row last with
  | zero => exact .halt (hout last hlast) -- no round is left, and none is missing
  | succ fuel ih =>
      cases hbase : s.classBase? last with
      | none =>
          have heq : s.extendChain (fuel + 1) row last = row := by simp [extendChain, hbase]
          rw [heq]
          exact .halt fun base h => by simp [hbase] at h
      | some base =>
          by_cases hmem : base ∈ row
          · have heq : s.extendChain (fuel + 1) row last = row := by
              simp [extendChain, hbase, hmem]
            rw [heq]
            exact .halt fun base' h => Option.some.inj (hbase.symm.trans h) ▸ hmem
          · have heq : s.extendChain (fuel + 1) row last =
                s.extendChain fuel (row ++ [base]) base := by simp [extendChain, hbase, hmem]
            rw [heq] at hout ⊢
            exact .extend hbase hmem (ih (by simp) hout)

end ChainRun

theorem mem_baseChain_self (s : SymbolTable) (t : TypeId) : t ∈ s.baseChain t := by
  obtain ⟨bases, h⟩ := s.baseChain_eq_cons t
  rw [h]
  exact List.mem_cons_self

namespace Closed

/-- The loop that starts with a type alone ends with its row of base classes. -/
theorem chainRun_baseChain (h : s.Closed) (ht : t.num < s.types.size) :
    s.ChainRun [t] t (s.baseChain t) :=
  .of_extendChain _ List.mem_cons_self fun _ hb _ => h.mem_baseChain ht hb

theorem isBaseRow_baseChain (h : s.Closed) (ht : t.num < s.types.size) :
    s.IsBaseRow t (s.baseChain t) where
  first := by
    obtain ⟨bases, heq⟩ := s.baseChain_eq_cons t
    rw [heq]
    rfl
  follows := (h.chainRun_baseChain ht).isChain (List.isChain_singleton t) rfl
  nodup := nodup_baseChain t
  ends _ hlast _ := h.mem_baseChain ht (List.mem_of_getLast? hlast)

/-- A row of base classes has no more types than there are. -/
theorem length_baseChain_le (h : s.Closed) (ht : t.num < s.types.size) :
    (s.baseChain t).length ≤ s.types.size :=
  length_le_of_nodup (baseChain_all ht fun _ _ => h.classBase?_lt) (nodup_baseChain t)

/-- A row of base classes holds what base classes lead to. -/
theorem mem_baseChain_iff (h : s.Closed) (ht : t.num < s.types.size) {b : TypeId} :
    b ∈ s.baseChain t ↔ Relation.ReflTransGen (fun a c => s.classBase? a = some c) t b := by
  constructor
  · exact baseChain_all .refl (fun _ _ hreach hbase => hreach.tail hbase) b
  · intro hreach
    induction hreach with
    | refl => exact s.mem_baseChain_self t
    | tail _ hbase ih => exact h.mem_baseChain ht ih hbase

end Closed

/-- **Inheritance.** In the table of a project, whatever its classes derive from, the loop that
makes the row of base classes of a type ends, and it ends with one row, that of `baseChain`. The row
starts with the type, each later type is the base class of the one before it, and no type is in it
twice. It stops only at a type that has no base class or one of the row. So a type is a subclass
of exactly those types that are reached from it through base classes. -/
theorem baseChain_ofProject (project : Project) {s : SymbolTable} (hs : s = ofProject project)
    {t : TypeId} (ht : t ∈ s.typeIds) :
    (∀ row, s.ChainRun [t] t row ↔ row = s.baseChain t) ∧ s.IsBaseRow t (s.baseChain t) ∧
    (s.baseChain t).length ≤ s.types.size ∧
    ∀ b, s.isSubclass t b = true ↔
      Relation.ReflTransGen (fun a c => s.classBase? a = some c) t b := by
  have hclosed : s.Closed := hs ▸ closed_ofProject project
  have ht : t.num < s.types.size := mem_typeIds.mp ht
  have hrun := hclosed.chainRun_baseChain ht
  refine ⟨fun row => ⟨fun run => run.deterministic hrun, ?_⟩, hclosed.isBaseRow_baseChain ht,
    hclosed.length_baseChain_le ht, fun b => ?_⟩
  · rintro rfl
    exact hrun
  · rw [isSubclass, List.contains_iff_mem, hclosed.mem_baseChain_iff ht]

/-- A project in which one class derives from itself, two from each other, and one from these. -/
def cyclicProject : Project :=
  Project.empty.append (Document.read 0 "cyclic.cs"
    "class A : A \x7b \x7d class B : C \x7b \x7d class C : B \x7b \x7d class D : C \x7b \x7d" 0) rfl

theorem chains_cyclicProject :
    ((ofProject cyclicProject).types.toList.drop 60).map TypeInfo.name = ["A", "B", "C", "D"] ∧
    ⟨60⟩ ∈ (ofProject cyclicProject).typeIds ∧ ⟨63⟩ ∈ (ofProject cyclicProject).typeIds ∧
    (ofProject cyclicProject).baseChain ⟨60⟩ = [⟨60⟩] ∧
    (ofProject cyclicProject).baseChain ⟨63⟩ = [⟨63⟩, ⟨62⟩, ⟨61⟩] := by
  rw [← Project.quick_eq cyclicProject]
  decide +kernel

/-- The row of `A` is `A` alone, and that of `D` stops at `B`. From `D` base classes lead to `B`,
but not to `A`. -/
theorem baseChain_ofProject_cyclic : ∃ s, s = ofProject cyclicProject ∧
    ⟨60⟩ ∈ s.typeIds ∧ s.ChainRun [⟨60⟩] ⟨60⟩ [⟨60⟩] ∧
    ⟨63⟩ ∈ s.typeIds ∧ s.ChainRun [⟨63⟩] ⟨63⟩ [⟨63⟩, ⟨62⟩, ⟨61⟩] ∧
    s.IsBaseRow ⟨63⟩ [⟨63⟩, ⟨62⟩, ⟨61⟩] ∧
    Relation.ReflTransGen (fun a c => s.classBase? a = some c) ⟨63⟩ ⟨61⟩ ∧
    ¬Relation.ReflTransGen (fun a c => s.classBase? a = some c) ⟨63⟩ ⟨60⟩ := by
  obtain ⟨-, hself, hleads, hselfRow, hrow⟩ := chains_cyclicProject
  obtain ⟨hselfRun, -⟩ := baseChain_ofProject cyclicProject rfl hself
  obtain ⟨hrun, hbases, -, hsubclass⟩ := baseChain_ofProject cyclicProject rfl hleads
  rw [hselfRow] at hselfRun
  rw [hrow] at hrun hbases
  simp only [isSubclass, hrow] at hsubclass
  exact ⟨_, rfl, hself, (hselfRun _).mpr rfl, hleads, (hrun _).mpr rfl, hbases,
    (hsubclass _).mp (by decide), fun h => absurd ((hsubclass _).mpr h) (by decide)⟩

end SymbolTable

end CSharpKit.Semantics
