import CSharpKit.Proofs.Semantics.Consistency
import CSharpKit.Semantics.Display

/-!
# Ways from the global namespace

A namespace or a type is told by the names on the way to it from the global
namespace, whatever number a table gives to it. Two tables with the same ways find
corresponding entries for a name.
-/

namespace CSharpKit.Semantics

open Syntax Workspace Cursor Declare

/-- One step on the way to a namespace or a type. -/
inductive Step where
  | space (name : String)
  | type (name : String) (kind : TypeKind) (typeParams : List String) (isSource : Bool)
  deriving DecidableEq

def Step.name : Step → String
  | .space name | .type name .. => name

/-- The last step on the way to a type. -/
def TypeInfo.step (info : TypeInfo) : Step :=
  .type info.name info.kind info.typeParams info.origin?.isSome

/-- Two tables differ in no more than the members of their types and what their
declarations refer to. -/
structure SameHeads (s s' : SymbolTable) : Prop where
  namespaces : s'.namespaces = s.namespaces
  size : s'.types.size = s.types.size
  type : ∀ t, (s'.type t).head = (s.type t).head

namespace SameHeads

variable {s s' s'' : SymbolTable}

theorem refl (s : SymbolTable) : SameHeads s s := ⟨rfl, rfl, fun _ => rfl⟩

theorem symm (h : SameHeads s s') : SameHeads s' s :=
  ⟨h.namespaces.symm, h.size.symm, fun t => (h.type t).symm⟩

theorem trans (h : SameHeads s s') (h' : SameHeads s' s'') : SameHeads s s'' :=
  ⟨h'.namespaces.trans h.namespaces, h'.size.trans h.size, fun t => (h'.type t).trans (h.type t)⟩

theorem of_eq (hnamespaces : s'.namespaces = s.namespaces) (htypes : s'.types = s.types) :
    SameHeads s s' :=
  ⟨hnamespaces, by rw [htypes], fun t => by rw [SymbolTable.type, SymbolTable.type, htypes]⟩

/-- What a head tells of a type. -/
theorem field_eq {α : Type} (h : SameHeads s s') (f : TypeInfo → α)
    (hf : ∀ info, f info.head = f info) (t : TypeId) : f (s'.type t) = f (s.type t) := by
  rw [← hf (s'.type t), h.type t, hf]

theorem container (h : SameHeads s s') (t : TypeId) :
    (s'.type t).container = (s.type t).container := h.field_eq TypeInfo.container (fun _ => rfl) t

theorem name (h : SameHeads s s') (t : TypeId) : (s'.type t).name = (s.type t).name :=
  h.field_eq TypeInfo.name (fun _ => rfl) t

theorem arity (h : SameHeads s s') (t : TypeId) : (s'.type t).arity = (s.type t).arity :=
  h.field_eq TypeInfo.arity (fun _ => rfl) t

theorem origin? (h : SameHeads s s') (t : TypeId) : (s'.type t).origin? = (s.type t).origin? :=
  h.field_eq TypeInfo.origin? (fun _ => rfl) t

theorem space (h : SameHeads s s') (ns : NamespaceId) : s'.space ns = s.space ns := by
  rw [SymbolTable.space, SymbolTable.space, h.namespaces]

end SameHeads

namespace SymbolTable

/-- What stands at the end of a way, whose last step comes first. -/
inductive At (s : SymbolTable) : List Step → Container → Prop
  | global : s.At [] (.space global)
  | space {way : List Step} {parent ns : NamespaceId} {name : String} (h : s.At way (.space parent))
      (hlt : ns.num < s.namespaces.size) (hns : s.space ns = ⟨name, some parent⟩) :
      s.At (.space name :: way) (.space ns)
  | type {way : List Step} {t : TypeId} (h : s.At way (s.type t).container)
      (hlt : t.num < s.types.size) : s.At ((s.type t).step :: way) (.type t)

/-- There is a way to every entry, and no two namespaces of one parent share a name. -/
structure Rooted (s : SymbolTable) : Prop where
  global_lt : global.num < s.namespaces.size
  global_top : (s.space global).parent? = none
  exists_way : ∀ container : Container, container.InRange s → ∃ way, s.At way container
  apart : ∀ a b : NamespaceId, a.num < s.namespaces.size → b.num < s.namespaces.size →
    (s.space a).parent? ≠ none → s.space a = s.space b → a = b

section

variable {s s' : SymbolTable} {way way' : List Step} {container : Container}

/-- There is only one way. -/
theorem At.unique (htop : (s.space SymbolTable.global).parent? = none) (h : s.At way container)
    (h' : s.At way' container) : way = way' := by
  induction h generalizing way' with
  | global =>
      cases h' with
      | global => rfl
      | space h' hlt' hns' => simp [hns'] at htop
  | space h hlt hns ih =>
      cases h' with
      | global => simp [hns] at htop
      | space h' hlt' hns' =>
          obtain ⟨rfl, hparent⟩ := NamespaceInfo.mk.inj (hns.symm.trans hns')
          obtain rfl := Option.some.inj hparent
          rw [ih h']
  | type h hlt ih =>
      cases h' with
      | type h' hlt' => rw [ih h']

theorem At.inRange (hlt : SymbolTable.global.num < s.namespaces.size) (h : s.At way container) :
    container.InRange s := by
  cases h with
  | global => exact hlt
  | space _ hlt | type _ hlt => exact hlt

/-- Every entry on a way is at the end of what leads to it. -/
theorem At.exists_of_suffix (h : s.At way container) (hsuffix : way' <:+ way) :
    ∃ container', s.At way' container' := by
  induction h with
  | global =>
      obtain rfl := List.suffix_nil.mp hsuffix
      exact ⟨_, .global⟩
  | space h hlt hns ih =>
      rcases List.suffix_cons_iff.mp hsuffix with rfl | hsuffix
      · exact ⟨_, .space h hlt hns⟩
      · exact ih hsuffix
  | type h hlt ih =>
      rcases List.suffix_cons_iff.mp hsuffix with rfl | hsuffix
      · exact ⟨_, .type h hlt⟩
      · exact ih hsuffix

theorem At.congr (hheads : SameHeads s s') (h : s.At way container) : s'.At way container := by
  induction h with
  | global => exact .global
  | @space way parent ns name h hlt hns ih =>
      exact .space ih (by rw [hheads.namespaces]; exact hlt) (by rw [hheads.space]; exact hns)
  | @type way t h hlt ih =>
      have hcontainer := hheads.field_eq TypeInfo.container (fun _ => rfl) t
      rw [← hheads.field_eq TypeInfo.step (fun _ => rfl) t]
      exact .type (hcontainer.symm ▸ ih) (by rw [hheads.size]; exact hlt)

theorem At.mono (hgrows : Grows s s') (h : s.At way container) : s'.At way container := by
  induction h with
  | global => exact .global
  | @space way parent ns name h hlt hns ih =>
      refine .space ih (Nat.lt_of_lt_of_le hlt hgrows.namespaces.size_le) ?_
      have heq : s'.space ns = s.space ns := hgrows.namespaces.getD_eq hlt
      rw [heq, hns]
  | @type way t h hlt ih =>
      have hcontainer := congrArg TypeInfo.container (hgrows.type_eq hlt)
      have hstep := congrArg TypeInfo.step (hgrows.type_eq hlt)
      have htype : s'.At ((s'.type t).step :: way) (.type t) :=
        .type (hcontainer.symm ▸ ih) (Nat.lt_of_lt_of_le hlt hgrows.types.size_le)
      exact hstep ▸ htype

/-- A way that is new in a table leads to the only entry that is new. -/
theorem Rooted.old_or_new (h : s.Rooted) (hgrows : Grows s s')
    {new : Container} (hnew : ∀ container : Container, container.InRange s' →
      container.InRange s ∨ container = new) {newWay : List Step} (hway : s'.At newWay new)
    (hat : s'.At way container) : s.At way container ∨ way = newWay := by
  have htop : (s'.space SymbolTable.global).parent? = none := by
    have heq : s'.space SymbolTable.global = s.space SymbolTable.global := hgrows.namespaces.getD_eq h.global_lt
    rw [heq, h.global_top]
  have hlt := Nat.lt_of_lt_of_le h.global_lt hgrows.namespaces.size_le
  rcases hnew container (hat.inRange hlt) with hold | rfl
  · obtain ⟨oldWay, hold⟩ := h.exists_way container hold
    rw [hat.unique htop (hold.mono hgrows)]
    exact .inl hold
  · exact .inr (hat.unique htop hway)

end

/-! ## Lookups -/

/-- Whether a type is the one of a name and number of type parameters in a container. -/
def Fits (s : SymbolTable) (container : Container) (name : String) (arity : Nat) (t : TypeId) :
    Prop :=
  (s.type t).container = container ∧ (s.type t).name = name ∧ (s.type t).arity = arity

theorem fits_iff {s : SymbolTable} {container : Container} {name : String} {arity : Nat}
    {t : TypeId} : ((s.type t).container == container && (s.type t).name == name &&
      (s.type t).arity == arity) = true ↔ s.Fits container name arity t := by
  simp [Fits, and_assoc]

theorem typeIn?_eq_some {s : SymbolTable} {container : Container} {name : String} {arity : Nat}
    {t : TypeId} : s.typeIn? container name arity = some t ↔ t.num < s.types.size ∧
      s.Fits container name arity t ∧ ∀ u : TypeId, u.num < t.num → ¬s.Fits container name arity u := by
  rw [typeIn?, typeIds, List.find?_map, Option.map_eq_some_iff]
  simp only [List.find?_range_eq_some, List.mem_range, Function.comp_def, Bool.not_eq_true',
    Bool.eq_false_iff, ne_eq, fits_iff]
  constructor
  · rintro ⟨i, ⟨hfits, hlt, hfirst⟩, rfl⟩
    exact ⟨hlt, hfits, fun u hu => hfirst u.num hu⟩
  · rintro ⟨hlt, hfits, hfirst⟩
    exact ⟨t.num, ⟨hfits, hlt, fun i hi => hfirst ⟨i⟩ hi⟩, rfl⟩

theorem typeIn?_eq_none {s : SymbolTable} {container : Container} {name : String} {arity : Nat} :
    s.typeIn? container name arity = none ↔
      ∀ t : TypeId, t.num < s.types.size → ¬s.Fits container name arity t := by
  simp only [typeIn?, List.find?_eq_none, mem_typeIds, fits_iff]

/-- No two types, of the framework or of the sources, share container, name and number
of type parameters, and the framework comes first. -/
structure TypesApart (s : SymbolTable) : Prop where
  apart : ∀ t u : TypeId, t.num < s.types.size → u.num < s.types.size →
    (s.type t).container = (s.type u).container → (s.type t).name = (s.type u).name →
    (s.type t).arity = (s.type u).arity →
    (s.type t).origin?.isSome = (s.type u).origin?.isSome → t = u
  first : ∀ t u : TypeId, t.num < s.types.size → u.num < s.types.size →
    (s.type t).origin?.isSome = false → (s.type u).origin?.isSome = true → t.num < u.num

section

variable {q s : SymbolTable} {way : List Step} {container container' : Container}

/-- A way leads to one entry only. -/
theorem At.injective (hrooted : s.Rooted) (hapart : s.TypesApart) (h : s.At way container)
    (h' : s.At way container') : container = container' := by
  induction h generalizing container' with
  | global =>
      cases h'
      rfl
  | @space way parent ns name h hlt hns ih =>
      cases h' with
      | space h' hlt' hns' =>
          obtain rfl := Container.space.inj (ih h')
          rw [hrooted.apart ns _ hlt hlt' (by simp [hns]) (hns.trans hns'.symm)]
  | @type way t h hlt ih =>
      generalize hstep : (s.type t).step :: way = whole at h'
      cases h' with
      | global | space => simp [TypeInfo.step] at hstep
      | @type way' u h' hlt' =>
          obtain ⟨hsteps, rfl⟩ := List.cons.inj hstep
          obtain ⟨hname, -, hparams, hsource⟩ := Step.type.inj hsteps
          have harity : (s.type t).arity = (s.type u).arity := congrArg List.length hparams
          rw [hapart.apart t u hlt hlt' (ih h') hname harity hsource]

/-- A type of a table, and the type it is in a table with the same ways. -/
theorem At.exists_fits (hrooted : s.Rooted) (hapart : s.TypesApart) {t : TypeId}
    {other : Container} (hcontainer : s.At way container)
    (h : s.At ((q.type t).step :: way) other) : ∃ u : TypeId, other = .type u ∧
      u.num < s.types.size ∧ s.Fits container (q.type t).name (q.type t).arity u ∧
      (s.type u).origin?.isSome = (q.type t).origin?.isSome := by
  generalize hstep : (q.type t).step :: way = whole at h
  cases h with
  | global | space => simp [TypeInfo.step] at hstep
  | @type way' u h hlt =>
      obtain ⟨hsteps, rfl⟩ := List.cons.inj hstep
      obtain ⟨hname, -, hparams, hsource⟩ := Step.type.inj hsteps
      exact ⟨u, rfl, hlt, ⟨h.injective hrooted hapart hcontainer, hname.symm,
        (congrArg List.length hparams).symm⟩, hsource.symm⟩

end

/-- Two tables with the same ways, each of which leads to one entry. -/
structure Alike (q s : SymbolTable) : Prop where
  rooted : q.Rooted ∧ s.Rooted
  apart : q.TypesApart ∧ s.TypesApart
  ways : ∀ way, (∃ container, q.At way container) ↔ ∃ container, s.At way container

/-- Entries of two tables at the end of the same way. -/
def Twin (q s : SymbolTable) (container container' : Container) : Prop :=
  ∃ way, q.At way container ∧ s.At way container'

theorem Alike.symm {q s : SymbolTable} (h : q.Alike s) : s.Alike q :=
  ⟨h.rooted.symm, h.apart.symm, fun way => (h.ways way).symm⟩

theorem Twin.symm {q s : SymbolTable} {container container' : Container}
    (h : Twin q s container container') : Twin s q container' container := by
  obtain ⟨way, hq, hs⟩ := h
  exact ⟨way, hs, hq⟩

section

variable {q s : SymbolTable} {container container' : Container} {name : String} {arity : Nat}

theorem Alike.exists_typeIn? (h : q.Alike s) (htwin : Twin q s container container') {t : TypeId}
    (ht : q.typeIn? container name arity = some t) :
    ∃ u, s.typeIn? container' name arity = some u ∧ Twin q s (.type t) (.type u) := by
  obtain ⟨way, hq, hs⟩ := htwin
  obtain ⟨hlt, ⟨rfl, rfl, rfl⟩, hfirst⟩ := typeIn?_eq_some.mp ht
  have hatt := At.type hq hlt
  obtain ⟨other, hother⟩ := (h.ways _).mp ⟨_, hatt⟩
  obtain ⟨u, rfl, hult, hufits, husource⟩ := hs.exists_fits h.rooted.2 h.apart.2 hother
  obtain ⟨v, hv⟩ : ∃ v, s.typeIn? container' (q.type t).name (q.type t).arity = some v := by
    cases hv : s.typeIn? container' (q.type t).name (q.type t).arity with
    | some v => exact ⟨v, rfl⟩
    | none => exact absurd hufits (typeIn?_eq_none.mp hv u hult)
  obtain ⟨hvlt, hvfits, hvfirst⟩ := typeIn?_eq_some.mp hv
  -- Only a type of the framework can stand before a type of the sources that fits too.
  have hvsource : (s.type v).origin?.isSome = (q.type t).origin?.isSome := by
    cases hv : (s.type v).origin?.isSome <;> cases ht : (q.type t).origin?.isSome
    · rfl
    · obtain ⟨other, hother⟩ := (h.ways _).mpr ⟨_, At.type (hvfits.1.symm ▸ hs) hvlt⟩
      obtain ⟨w, -, hwlt, hwfits, hwsource⟩ := hq.exists_fits h.rooted.1 h.apart.1 hother
      rw [hvfits.2.1, hvfits.2.2] at hwfits
      exact absurd hwfits (hfirst w (h.apart.1.first w t hwlt hlt (hwsource.trans hv) ht))
    · exact absurd hufits (hvfirst u (h.apart.2.first u v hult hvlt (husource.trans ht) hv))
    · rfl
  have heq : v = u := h.apart.2.apart v u hvlt hult (hvfits.1.trans hufits.1.symm)
    (hvfits.2.1.trans hufits.2.1.symm) (hvfits.2.2.trans hufits.2.2.symm)
    (hvsource.trans husource.symm)
  exact ⟨v, hv, _, hatt, heq ▸ hother⟩

/-- A name finds corresponding types in corresponding containers. -/
theorem Alike.typeIn? (h : q.Alike s) (htwin : Twin q s container container') (name : String)
    (arity : Nat) : Option.Rel (fun t u => Twin q s (.type t) (.type u))
      (q.typeIn? container name arity) (s.typeIn? container' name arity) := by
  cases ht : q.typeIn? container name arity with
  | some t =>
      obtain ⟨u, hu, htu⟩ := h.exists_typeIn? htwin ht
      rw [hu]
      exact .some htu
  | none =>
      cases hu : s.typeIn? container' name arity with
      | none => exact .none
      | some u =>
          obtain ⟨t, ht', -⟩ := h.symm.exists_typeIn? htwin.symm hu
          rw [ht] at ht'
          cases ht'

theorem child?_eq_none {parent : NamespaceId} (h : s.child? parent name = none) (ns : NamespaceId) :
    ns.num < s.namespaces.size → s.space ns ≠ ⟨name, some parent⟩ := by
  intro hlt heq
  have hnone := Array.findIdx?_eq_none_iff.mp (Option.map_eq_none_iff.mp h) s.namespaces[ns.num]
    (Array.getElem_mem hlt)
  rw [space, Array.getElem?_eq_getElem hlt, Option.getD_some] at heq
  simp [heq] at hnone

theorem Alike.exists_child? (h : q.Alike s) {parent parent' child : NamespaceId}
    (htwin : Twin q s (.space parent) (.space parent')) (hchild : q.child? parent name = some child) :
    ∃ child', s.child? parent' name = some child' ∧ Twin q s (.space child) (.space child') := by
  obtain ⟨way, hq, hs⟩ := htwin
  obtain ⟨hlt, hinfo⟩ := child?_eq_some hchild
  have hat := At.space hq hlt hinfo
  obtain ⟨other, hother⟩ := (h.ways _).mp ⟨_, hat⟩
  obtain ⟨ns, hnslt, hns, rfl⟩ : ∃ ns : NamespaceId, ns.num < s.namespaces.size ∧
      s.space ns = ⟨name, some parent'⟩ ∧ other = .space ns := by
    cases hother with
    | space hother hlt hns =>
        obtain rfl := Container.space.inj (hother.injective h.rooted.2 h.apart.2 hs)
        exact ⟨_, hlt, hns, rfl⟩
  cases hfound : s.child? parent' name with
  | none => exact absurd hns (child?_eq_none hfound ns hnslt)
  | some child' =>
      obtain ⟨hlt', hinfo'⟩ := child?_eq_some hfound
      obtain rfl := h.rooted.2.apart ns child' hnslt hlt' (by simp [hns]) (hns.trans hinfo'.symm)
      exact ⟨ns, rfl, _, hat, hother⟩

/-- A name finds corresponding namespaces in corresponding namespaces. -/
theorem Alike.child? (h : q.Alike s) {parent parent' : NamespaceId}
    (htwin : Twin q s (.space parent) (.space parent')) (name : String) :
    Option.Rel (fun child child' => Twin q s (.space child) (.space child'))
      (q.child? parent name) (s.child? parent' name) := by
  cases hchild : q.child? parent name with
  | some child =>
      obtain ⟨child', hchild', htwins⟩ := h.exists_child? htwin hchild
      rw [hchild']
      exact .some htwins
  | none =>
      cases hchild' : s.child? parent' name with
      | none => exact .none
      | some child' =>
          obtain ⟨child, hfound, -⟩ := h.symm.exists_child? htwin.symm hchild'
          rw [hchild] at hfound
          cases hfound

end

/-! ## Names of what is at the end of a way -/

section

variable {q s : SymbolTable} {way : List Step}

theorem Closed.global_top (h : s.Closed) : (s.space global).parent? = none := by
  have hordered := h.ordered h.global_lt
  unfold NamespaceInfo.Ordered at hordered
  split at hordered
  · next hnone => exact hnone
  · exact absurd hordered (Nat.not_lt_zero _)

/-- The way out of an entry, taken back. -/
theorem Closed.exists_way (h : s.Closed) {container : Container} (hcontainer : container.InRange s) :
    ∃ way, s.At way container := by
  induction h.inside_global hcontainer using Relation.ReflTransGen.head_induction_on with
  | refl => exact ⟨[], .global⟩
  | head hstep _ ih =>
      cases hstep with
      | @space ns parent hparent =>
          have hordered := h.ordered hcontainer
          rw [NamespaceInfo.Ordered, hparent] at hordered
          obtain ⟨way, hat⟩ := ih (Nat.lt_trans hordered hcontainer)
          exact ⟨_, .space hat hcontainer (by rw [← hparent])⟩
      | type t =>
          have hlt : t.num < s.types.size := hcontainer
          have hprecedes := (h.type_inRange hlt).container
          have hinRange : (s.type t).container.InRange s := by
            cases hc : (s.type t).container with
            | space ns =>
                rw [hc] at hprecedes
                exact hprecedes
            | type outer =>
                rw [hc] at hprecedes
                exact Nat.lt_trans hprecedes hlt
          obtain ⟨way, hat⟩ := ih hinRange
          exact ⟨_, .type hat hlt⟩

theorem spacePathWithin_of_at (hclosed : s.Closed) {fuel : Nat} {ns : NamespaceId}
    (h : s.At way (.space ns)) (hfuel : ns.num < fuel) :
    s.spacePathWithin fuel ns = (way.map Step.name).reverse := by
  induction fuel generalizing ns way with
  | zero => exact absurd hfuel (Nat.not_lt_zero _)
  | succ fuel ih =>
      rw [spacePathWithin]
      cases h with
      | global =>
          rw [hclosed.global_top]
          rfl
      | @space way parent ns name h hlt hns =>
          have hordered := hclosed.ordered hlt
          rw [hns] at hordered ⊢
          have hparent : parent.num < ns.num := hordered
          simp only [List.map_cons, List.reverse_cons]
          rw [ih h (by omega)]
          rfl

theorem enclosingWithin_of_at (hclosed : s.Closed) {fuel : Nat} {t : TypeId}
    (h : s.At way (.type t)) (hfuel : t.num < fuel) : ∃ up spaces,
      s.At spaces (.space (s.enclosingWithin fuel t).2) ∧
      ((s.enclosingWithin fuel t).1.map fun u => (s.type u).name) = up.map Step.name ∧
      way = (s.type t).step :: (up ++ spaces) := by
  induction fuel generalizing t way with
  | zero => exact absurd hfuel (Nat.not_lt_zero _)
  | succ fuel ih =>
      rw [enclosingWithin]
      cases h with
      | @type way t h hlt =>
          have hcontainer := (hclosed.type_inRange hlt).container
          cases hc : (s.type t).container with
          | space ns => exact ⟨[], way, hc ▸ h, rfl, rfl⟩
          | type outer =>
              rw [hc] at h hcontainer
              have houter : outer.num < t.num := hcontainer
              obtain ⟨up, spaces, hspaces, hnames, rfl⟩ := ih h (by omega)
              refine ⟨(s.type outer).step :: up, spaces, hspaces, ?_, rfl⟩
              simp only [List.map_cons, hnames]
              rfl

/-- The names on the way to a type are those that it is written with. -/
theorem qualifiers_of_at (hclosed : s.Closed) {t : TypeId} (h : s.At way (.type t)) :
    s.qualifiers t ++ [(s.type t).name] = (way.map Step.name).reverse := by
  have hlt : t.num < s.types.size := h.inRange hclosed.global_lt
  obtain ⟨up, spaces, hspaces, hnames, rfl⟩ := enclosingWithin_of_at hclosed h hlt
  have hspace : s.spacePath (s.enclosing t).2 = (spaces.map Step.name).reverse :=
    spacePathWithin_of_at hclosed hspaces (hspaces.inRange hclosed.global_lt)
  have hqualifiers : s.qualifiers t = s.spacePath (s.enclosing t).2 ++
      ((s.enclosing t).1.map fun u => (s.type u).name).reverse := by
    rw [qualifiers, ← List.map_reverse]
  have hup : ((s.enclosing t).1.map fun u => (s.type u).name) = up.map Step.name := hnames
  rw [hqualifiers, hspace, hup, ← List.reverse_append, ← List.map_append, List.map_cons,
    List.reverse_cons]
  rfl

/-- Twins have the same label. -/
theorem definitionLabel_of_twin (hq : q.Closed) (hs : s.Closed) {t u : TypeId}
    (h : Twin q s (.type t) (.type u)) : q.definitionLabel t = s.definitionLabel u := by
  obtain ⟨way, ht, hu⟩ := h
  have harity : (q.type t).arity = (s.type u).arity := by
    generalize hway : way = whole at hu
    cases ht
    cases hu
    obtain ⟨-, -, hparams, -⟩ := Step.type.inj (List.cons.inj hway).1
    exact congrArg List.length hparams
  have hname := (qualifiers_of_at hq ht).trans (qualifiers_of_at hs hu).symm
  rw [definitionLabel, definitionLabel, fullName, fullName, hname, harity]

end

end SymbolTable

end CSharpKit.Semantics
