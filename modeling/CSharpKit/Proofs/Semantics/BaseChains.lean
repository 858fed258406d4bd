import CSharpKit.Proofs.Semantics.ArrayFactory
import CSharpKit.Proofs.Semantics.Reordering
import Mathlib.Data.List.Perm.Subperm

/-!
# Base classes while they are resolved

A type is looked for in a type and in its base classes. While base types are still
being resolved the row of base classes ends early, with `object`. If nothing is found
in base classes only, this makes no difference to what a name means.
-/

namespace CSharpKit.Semantics

open Syntax Workspace Cursor Declare Outcome

namespace SymbolTable

variable {q s : SymbolTable} {names : List String}

/-! ## Rows of base classes -/

/-- What holds of a type and goes over to base classes holds of all of its row. -/
theorem baseChain_all {P : TypeId → Prop} {t : TypeId} (ht : P t)
    (hstep : ∀ b c, P b → s.classBase? b = some c → P c) : ∀ b ∈ s.baseChain t, P b := by
  obtain ⟨-, ⟨hall, -⟩, -⟩ := s.extendChain_keeps (I := fun row last => (∀ b ∈ row, P b) ∧ P last)
    (fun row last base h hbase _ => by
      have hnext := hstep last base h.2 hbase
      exact ⟨List.forall_mem_append.mpr ⟨h.1, List.forall_mem_singleton.mpr hnext⟩, hnext⟩)
    s.types.size ⟨List.forall_mem_singleton.mpr ht, ht⟩
  exact hall

theorem nodup_concat {row : List TypeId} {base : TypeId} (hrow : row.Nodup) (hnew : base ∉ row) :
    (row ++ [base]).Nodup :=
  List.nodup_append'.mpr ⟨hrow, List.nodup_singleton base, List.disjoint_singleton.mpr hnew⟩

/-- No type is twice in a row of base classes, even if declarations form a cycle. -/
theorem nodup_baseChain (t : TypeId) : (s.baseChain t).Nodup := by
  obtain ⟨-, hrow, -⟩ := s.extendChain_keeps (I := fun row _ => row.Nodup)
    (fun _ _ _ hrow _ => nodup_concat hrow) s.types.size (List.nodup_singleton t)
  exact hrow

theorem Closed.classBase?_lt (h : s.Closed) {t b : TypeId} (ht : t.num < s.types.size)
    (hb : s.classBase? t = some b) : b.num < s.types.size := by
  unfold classBase? at hb
  dsimp only at hb
  split at hb
  · next base hbase =>
    obtain rfl := Option.some.inj hb
    obtain ⟨ty, hty, hdefinition⟩ := List.mem_filterMap.mp (List.mem_of_find?_eq_some hbase)
    have hrange := (h.type_inRange ht).bases ty hty
    cases ty with
    | named d args =>
        obtain rfl : d = base := Option.some.inj hdefinition
        exact (Ty.inRange_named.mp hrange).1
    | param | array | nullable | void | null | error => cases hdefinition
  · split at hb
    · cases hb
    · exact keywordType?_lt (Option.filter_eq_some_iff.mp hb).1

/-- A row of types that is made of base classes: all of it but its last type have their base class
in it. -/
structure Linked (s : SymbolTable) (row : List TypeId) (last : TypeId) : Prop where
  range : ∀ b ∈ row, b.num < s.types.size
  nodup : row.Nodup
  last_mem : last ∈ row
  base_mem : ∀ b ∈ row, b ≠ last → ∀ c, s.classBase? b = some c → c ∈ row

theorem Linked.concat {row : List TypeId} {last base : TypeId} (h : s.Closed)
    (hrow : s.Linked row last) (hbase : s.classBase? last = some base) (hnew : base ∉ row) :
    s.Linked (row ++ [base]) base where
  range := List.forall_mem_append.mpr ⟨hrow.range, List.forall_mem_singleton.mpr
    (h.classBase?_lt (hrow.range last hrow.last_mem) hbase)⟩
  nodup := nodup_concat hrow.nodup hnew
  last_mem := List.mem_append_right _ List.mem_cons_self
  base_mem := by
    intro b hb hne c hc
    rcases List.mem_append.mp hb with hb | hb
    · refine List.mem_append.mpr ?_
      by_cases heq : b = last
      · obtain rfl := Option.some.inj (hbase.symm.trans (heq ▸ hc))
        exact .inr List.mem_cons_self
      · exact .inl (hrow.base_mem b hb heq c hc)
    · exact absurd (List.mem_singleton.mp hb) hne

/-- A row in which no type is twice has no more types than there are. -/
theorem length_le_of_nodup {row : List TypeId} (hrange : ∀ b ∈ row, b.num < s.types.size)
    (hnodup : row.Nodup) : row.length ≤ s.types.size := by
  have hle := (List.subperm_of_subset hnodup fun b hb => mem_typeIds.mpr (hrange b hb)).length_le
  rwa [typeIds, List.length_map, List.length_range] at hle

/-- A row of base classes ends only where no other base class is left. -/
theorem Closed.mem_baseChain (h : s.Closed) {t b c : TypeId} (ht : t.num < s.types.size)
    (hb : b ∈ s.baseChain t) (hc : s.classBase? b = some c) : c ∈ s.baseChain t := by
  have hstart : s.Linked [t] t :=
    ⟨List.forall_mem_singleton.mpr ht, List.nodup_singleton t, List.mem_singleton_self t,
      fun b hb hne => absurd (List.mem_singleton.mp hb) hne⟩
  obtain ⟨last, hrow, hend⟩ := s.extendChain_keeps (I := s.Linked)
    (fun _ _ _ hrow => hrow.concat h) s.types.size hstart
  rw [baseChain] at hb ⊢
  rcases hend with hend | hlength
  · by_cases heq : b = last
    · exact hend c (heq ▸ hc)
    · exact hrow.base_mem b hb heq c hc
  · -- The rounds cannot run out, since the row would have more types than there are.
    have hle := length_le_of_nodup hrow.range hrow.nodup
    rw [hlength, List.length_singleton] at hle
    omega

/-! ## Lookups in base classes -/

/-- No type of one of the names is found in a base class of a type only. -/
def OwnOnly (s : SymbolTable) (names : List String) : Prop :=
  ∀ t ∈ s.typeIds, ∀ b ∈ s.baseChain t, ∀ n ∈ s.typeIds, (s.type n).container = .type b →
    (s.type n).name ∈ names →
      (s.typeIn? (.type t) (s.type n).name (s.type n).arity).isSome = true

/-- The type of the keyword `object` has no base class, and no type is declared in it. -/
structure ObjectBare (s : SymbolTable) : Prop where
  top : ∀ o, s.objectType? = some o → s.classBase? o = none
  empty : ∀ o, s.objectType? = some o → ∀ name arity, s.typeIn? (.type o) name arity = none

/-- The base classes in one table are those in another one, as far as they are known. -/
def Follows (q s : SymbolTable) : Prop := ∀ t u b, q.TwinType s t u → q.classBase? t = some b →
  q.objectType? = some b ∨ ∃ c, s.classBase? u = some c ∧ q.TwinType s b c

theorem Alike.exists_twin (h : q.Alike s) {t : TypeId} (ht : t.num < q.types.size) :
    ∃ u, q.TwinType s t u := by
  obtain ⟨way, hat⟩ := h.rooted.1.exists_way (.type t) ht
  obtain ⟨other, hother⟩ := (h.ways way).mp ⟨_, hat⟩
  cases hat with
  | @type rest t hrest _ =>
      generalize hwhole : (q.type t).step :: rest = whole at hother
      cases hother with
      | global => cases hwhole
      | space => simp [TypeInfo.step] at hwhole
      | @type rest' u hrest' hlt =>
          exact ⟨u, _, .type hrest ht, hwhole ▸ .type hrest' hlt⟩

theorem TwinType.inRange {t u : TypeId} (h : q.TwinType s t u) (halike : q.Alike s) :
    t.num < q.types.size ∧ u.num < s.types.size := by
  obtain ⟨way, hq, hs⟩ := h
  exact ⟨hq.inRange halike.rooted.1.global_lt, hs.inRange halike.rooted.2.global_lt⟩

theorem classBase?_of_no_class {t b : TypeId}
    (h : ∀ d ∈ (s.type t).bases.filterMap Ty.definition?, (s.type d).kind ≠ .classType)
    (hb : s.classBase? t = some b) : s.objectType? = some b := by
  have hnone : ((s.type t).bases.filterMap Ty.definition?).find?
      (fun d => (s.type d).kind == .classType) = none :=
    List.find?_eq_none.mpr fun d hd hkind => h d hd (beq_iff_eq.mp hkind)
  simp only [classBase?, hnone] at hb
  split at hb
  · cases hb
  · exact (Option.filter_eq_some_iff.mp hb).1

theorem classBase?_of_no_bases {t b : TypeId} (h : (s.type t).bases = [])
    (hb : s.classBase? t = some b) : s.objectType? = some b :=
  classBase?_of_no_class (by rw [h]; exact List.forall_mem_nil _) hb

/-- What is found in no base class only is found in none while they are resolved. -/
theorem Follows.flat (h : q.Follows s) (halike : q.Alike s) (hclosed : s.Closed)
    (hobject : q.ObjectBare) (hown : s.OwnOnly names) : q.Flat names := by
  intro t name hname arity
  obtain ⟨bases, hchain⟩ := q.baseChain_eq_cons t
  rw [nested?, hchain, List.findSome?_cons]
  cases hfound : q.typeIn? (.type t) name arity with
  | some n => rfl
  | none =>
      refine List.findSome?_eq_none_iff.mpr fun b hb => ?_
      have hb : b ∈ q.baseChain t := hchain ▸ List.mem_cons_of_mem t hb
      by_cases ht : t.num < q.types.size
      · obtain ⟨u, hu⟩ := halike.exists_twin ht
        have hrow : q.objectType? = some b ∨ ∃ c ∈ s.baseChain u, q.TwinType s b c := by
          refine baseChain_all (P := fun b => q.objectType? = some b ∨
            ∃ c ∈ s.baseChain u, q.TwinType s b c) (.inr ⟨u, ?_, hu⟩) ?_ b hb
          · obtain ⟨others, heq⟩ := s.baseChain_eq_cons u
            exact heq ▸ List.mem_cons_self
          · rintro b b' (hobj | ⟨c, hc, hbc⟩) hbase
            · rw [hobject.top b hobj] at hbase
              cases hbase
            · rcases h b c b' hbc hbase with hobj | ⟨c', hbase', hbc'⟩
              · exact .inl hobj
              · exact .inr ⟨c', hclosed.mem_baseChain (hu.inRange halike).2 hc hbase', hbc'⟩
        rcases hrow with hobj | ⟨c, hc, hbc⟩
        · exact hobject.empty b hobj name arity
        · cases hn : q.typeIn? (.type b) name arity with
          | none => rfl
          | some n =>
              obtain ⟨n', hn', -⟩ := halike.exists_typeIn? hbc hn
              obtain ⟨hlt, ⟨hcontainer, rfl, rfl⟩, -⟩ := typeIn?_eq_some.mp hn'
              obtain ⟨found, hfound'⟩ := Option.isSome_iff_exists.mp
                (hown u (mem_typeIds.mpr (hu.inRange halike).2) c hc n' (mem_typeIds.mpr hlt)
                  hcontainer hname)
              obtain ⟨_, hcontra, -⟩ := halike.symm.exists_typeIn? hu.symm hfound'
              rw [hfound] at hcontra
              cases hcontra
      · have hrow : b = t ∨ q.objectType? = some b := by
          refine baseChain_all (P := fun b => b = t ∨ q.objectType? = some b) (.inl rfl) ?_ b hb
          rintro b b' (rfl | hobj) hbase
          · refine .inr (classBase?_of_no_bases ?_ hbase)
            rw [type, Array.getElem?_eq_none (Nat.le_of_not_lt ht)]
            rfl
          · rw [hobject.top b hobj] at hbase
            cases hbase
        rcases hrow with rfl | hobj
        · exact hfound
        · exact hobject.empty b hobj name arity

end SymbolTable

end CSharpKit.Semantics
