import CSharpKit.Text.Search
import CSharpKit.Text.Span
import Mathlib.Algebra.GroupWithZero.Nat
import Mathlib.Data.List.Perm.Basic

/-!
# Patches

A patch puts a text in the place of a stretch of another. All stretches are
positions in the text as it was, so patches that do not overlap can be put in at
once, and it does not matter in which order they are listed.
-/

namespace CSharpKit.Text

/-! ## Cutting at a position -/

@[simp] theorem byteLength_nil : byteLength [] = 0 := rfl

@[simp] theorem byteLength_cons (c : Char) (cs : List Char) :
    byteLength (c :: cs) = c.utf8Size + byteLength cs := rfl

@[simp] theorem byteLength_append (xs ys : List Char) :
    byteLength (xs ++ ys) = byteLength xs + byteLength ys := by
  induction xs with
  | nil => simp
  | cons c xs ih => simp [ih, Nat.add_assoc]

theorem byteLength_toList (text : String) : byteLength text.toList = text.utf8ByteSize := by
  have hofList : ∀ cs : List Char, byteLength cs = (String.ofList cs).utf8ByteSize := by
    intro cs
    induction cs with
    | nil => rfl
    | cons c cs ih => simp [ih, String.ofList_cons]
  simpa using hofList text.toList

theorem eq_nil_of_byteLength_eq_zero {cs : List Char} (h : byteLength cs = 0) : cs = [] := by
  cases cs with
  | nil => rfl
  | cons c cs =>
      have := c.utf8Size_pos
      simp only [byteLength_cons] at h
      omega

/-- Of two ways to cut a text, the shorter front is a part of the longer one. -/
theorem exists_append_of_byteLength_le {xs ys us vs : List Char} (h : xs ++ ys = us ++ vs)
    (hle : byteLength xs ≤ byteLength us) : ∃ more, us = xs ++ more ∧ ys = more ++ vs := by
  rcases List.append_eq_append_iff.mp h with ⟨more, rfl, rfl⟩ | ⟨more, rfl, rfl⟩
  · exact ⟨more, rfl, rfl⟩
  · obtain rfl : more = [] := by
      apply eq_nil_of_byteLength_eq_zero
      rw [byteLength_append] at hle
      omega
    exact ⟨[], by simp, by simp⟩

/-- A cut succeeds where a position lies between characters. -/
theorem splitAt?_eq_some_iff {pos : Nat} {cs before behind : List Char} :
    splitAt? pos cs = some (before, behind) ↔ cs = before ++ behind ∧ byteLength before = pos := by
  induction cs generalizing pos before with
  | nil =>
      cases pos with
      | zero =>
          constructor
          · intro h
            obtain ⟨rfl, rfl⟩ := Prod.mk.inj (Option.some.inj h)
            exact ⟨rfl, rfl⟩
          · rintro ⟨h, -⟩
            obtain ⟨rfl, rfl⟩ := List.append_eq_nil_iff.mp h.symm
            rfl
      | succ pos =>
          constructor
          · intro h
            cases h
          · rintro ⟨h, hlength⟩
            obtain ⟨rfl, rfl⟩ := List.append_eq_nil_iff.mp h.symm
            cases hlength
  | cons c rest ih =>
      cases pos with
      | zero =>
          constructor
          · intro h
            obtain ⟨rfl, rfl⟩ := Prod.mk.inj (Option.some.inj h)
            exact ⟨rfl, rfl⟩
          · rintro ⟨h, hlength⟩
            obtain rfl := eq_nil_of_byteLength_eq_zero hlength
            rw [splitAt?, h]
            rfl
      | succ pos =>
          rw [splitAt?]
          constructor
          · intro h
            split at h
            · next hfits =>
              obtain ⟨⟨before', behind'⟩, hcut, heq⟩ := Option.map_eq_some_iff.mp h
              obtain ⟨rfl, rfl⟩ := Prod.mk.inj heq
              obtain ⟨rfl, hlength⟩ := ih.mp hcut
              refine ⟨rfl, ?_⟩
              rw [byteLength_cons, hlength]
              omega
            · cases h
          · rintro ⟨h, hlength⟩
            cases before with
            | nil => cases hlength
            | cons d before =>
                obtain ⟨rfl, hrest⟩ := List.cons.inj h
                simp only [byteLength_cons] at hlength
                rw [if_pos (by omega), ih.mpr ⟨hrest, show byteLength before = _ by omega⟩]
                rfl

/-! ## Patches in a row -/

/-- A stretch of a text, and what is put in its place. -/
structure Patch where
  span : Span
  text : String
  deriving DecidableEq

namespace Patch

/-- The characters from a position on with patches put in from left to right;
`none` if a stretch starts before the last one ends, or is none of the text. -/
def splice? (pos : Nat) : List Patch → List Char → Option (List Char)
  | [], cs => some cs
  | patch :: patches, cs =>
    if patch.span.start < pos then none
    else do
      let (kept, behind) ← splitAt? (patch.span.start - pos) cs
      let (_, behind) ← splitAt? patch.span.length behind
      let rest ← splice? patch.span.stop patches behind
      return kept ++ patch.text.toList ++ rest

/-- Patches put into the text `old` all at once give the text `new`. -/
def Turn (patches : List Patch) (old new : String) : Prop :=
  ∃ ordered : List Patch, ordered.Perm patches ∧ splice? 0 ordered old.toList = some new.toList

/-- No two patches of a list overlap. -/
def Apart (patches : List Patch) : Prop :=
  patches.Pairwise fun a b => a.span.stop ≤ b.span.start ∨ b.span.stop ≤ a.span.start

theorem splice?_cons_eq_some_iff {pos : Nat} {patch : Patch} {patches : List Patch}
    {cs out : List Char} : splice? pos (patch :: patches) cs = some out ↔
      pos ≤ patch.span.start ∧ ∃ kept old behind rest, cs = kept ++ (old ++ behind) ∧
        byteLength kept = patch.span.start - pos ∧ byteLength old = patch.span.length ∧
        splice? patch.span.stop patches behind = some rest ∧
        out = kept ++ patch.text.toList ++ rest := by
  simp only [splice?, Option.ite_none_left_eq_some, Nat.not_lt, Option.bind_eq_bind,
    Option.bind_eq_some_iff, Option.pure_def, Option.some.injEq, Prod.exists, splitAt?_eq_some_iff]
  constructor
  · rintro ⟨hpos, kept, _, ⟨rfl, hkept⟩, old, behind, ⟨rfl, hold⟩, rest, hrest, rfl⟩
    exact ⟨hpos, kept, old, behind, rest, rfl, hkept, hold, hrest, rfl⟩
  · rintro ⟨hpos, kept, old, behind, rest, rfl, hkept, hold, hrest, rfl⟩
    exact ⟨hpos, kept, _, ⟨rfl, hkept⟩, old, behind, ⟨rfl, hold⟩, rest, hrest, rfl⟩

/-- Patches of what follows leave what stands before it as it is. -/
theorem splice?_append_left {pos : Nat} {patches : List Patch} {front cs out : List Char}
    (h : splice? (pos + byteLength front) patches cs = some out) :
    splice? pos patches (front ++ cs) = some (front ++ out) := by
  cases patches with
  | nil =>
      obtain rfl := Option.some.inj h
      rfl
  | cons patch patches =>
      obtain ⟨hpos, kept, old, behind, rest, rfl, hkept, hold, hrest, rfl⟩ :=
        (splice?_cons_eq_some_iff).mp h
      refine (splice?_cons_eq_some_iff).mpr
        ⟨by omega, front ++ kept, old, behind, rest, ?_, ?_, hold, hrest, ?_⟩
      · rw [List.append_assoc]
      · rw [byteLength_append, hkept]
        omega
      · simp only [List.append_assoc]

/-- Two stretches of text with their patches, one behind the other. -/
theorem splice?_append {pos : Nat} {patches more : List Patch} {xs ys us vs : List Char}
    (hxs : splice? pos patches xs = some us)
    (hys : splice? (pos + byteLength xs) more ys = some vs) :
    splice? pos (patches ++ more) (xs ++ ys) = some (us ++ vs) := by
  induction patches generalizing pos xs us with
  | nil =>
      obtain rfl := Option.some.inj hxs
      exact splice?_append_left hys
  | cons patch patches ih =>
      obtain ⟨hpos, kept, old, behind, rest, rfl, hkept, hold, hrest, rfl⟩ :=
        (splice?_cons_eq_some_iff).mp hxs
      have hstop : patch.span.stop + byteLength behind =
          pos + byteLength (kept ++ (old ++ behind)) := by
        simp only [byteLength_append, hkept, hold, Span.stop]
        omega
      have hmore := ih hrest (hstop ▸ hys)
      refine (splice?_cons_eq_some_iff).mpr
        ⟨hpos, kept, old, behind ++ ys, rest ++ vs, ?_, hkept, hold, hmore, ?_⟩
      · simp only [List.append_assoc]
      · simp only [List.append_assoc]

/-- A patch for a whole stretch. -/
theorem splice?_whole {pos : Nat} {cs : List Char} {text : String} {length : Nat}
    (h : byteLength cs = length) :
    splice? pos [⟨⟨pos, length⟩, text⟩] cs = some text.toList := by
  apply (splice?_cons_eq_some_iff).mpr
  refine ⟨Nat.le_refl _, [], cs, [], [], by simp, ?_, h, rfl, by simp⟩
  exact (Nat.sub_self _).symm

/-- Patches that can be put in stand in a row. -/
theorem pairwise_of_splice? {pos : Nat} {patches : List Patch} {cs out : List Char}
    (h : splice? pos patches cs = some out) :
    (∀ patch ∈ patches, pos ≤ patch.span.start) ∧
      patches.Pairwise fun a b => a.span.stop ≤ b.span.start := by
  induction patches generalizing pos cs out with
  | nil => simp
  | cons patch patches ih =>
      obtain ⟨hpos, -, -, behind, rest, -, -, -, hrest, -⟩ := (splice?_cons_eq_some_iff).mp h
      obtain ⟨hstart, hpairwise⟩ := ih hrest
      have hstop : patch.span.start ≤ patch.span.stop := patch.span.start_le_stop
      constructor
      · intro other hother
        rcases List.mem_cons.mp hother with rfl | hother
        · exact hpos
        · have := hstart other hother
          omega
      · exact List.pairwise_cons.mpr ⟨hstart, hpairwise⟩

/-- Patches that can be put in make up for the difference of the lengths. -/
theorem byteLength_splice? {pos : Nat} {patches : List Patch} {cs out : List Char}
    (h : splice? pos patches cs = some out) :
    byteLength out + (patches.map (·.span.length)).sum =
      byteLength cs + (patches.map (·.text.utf8ByteSize)).sum := by
  induction patches generalizing pos cs out with
  | nil =>
      obtain rfl := Option.some.inj h
      rfl
  | cons patch patches ih =>
      obtain ⟨-, kept, old, behind, rest, rfl, -, hold, hrest, rfl⟩ :=
        (splice?_cons_eq_some_iff).mp h
      have hmore := ih hrest
      simp only [byteLength_append, byteLength_toList, hold, List.map_cons, List.sum_cons]
      omega

/-- What stands before all patches is kept. -/
theorem splice?_keep {pos : Nat} {patches : List Patch} {front cs out : List Char}
    (h : splice? pos patches (front ++ cs) = some out)
    (hbehind : ∀ patch ∈ patches, pos + byteLength front ≤ patch.span.start) :
    ∃ rest, out = front ++ rest ∧ splice? (pos + byteLength front) patches cs = some rest := by
  cases patches with
  | nil =>
      obtain rfl := Option.some.inj h
      exact ⟨cs, rfl, rfl⟩
  | cons patch patches =>
      have hstart := hbehind patch List.mem_cons_self
      obtain ⟨hpos, kept, old, behind, rest, hcs, hkept, hold, hrest, rfl⟩ :=
        (splice?_cons_eq_some_iff).mp h
      obtain ⟨kept, rfl, rfl⟩ := exists_append_of_byteLength_le hcs (by omega)
      rw [byteLength_append] at hkept
      refine ⟨kept ++ patch.text.toList ++ rest, by simp only [List.append_assoc], ?_⟩
      exact (splice?_cons_eq_some_iff).mpr
        ⟨hstart, kept, old, behind, rest, rfl, by omega, hold, hrest, rfl⟩

/-- Where no patch reaches over a position, the text is patched on both sides of it. -/
theorem splice?_split {pos : Nat} {patches : List Patch} {xs ys out : List Char}
    (h : splice? pos patches (xs ++ ys) = some out)
    (hside : ∀ patch ∈ patches,
      patch.span.stop ≤ pos + byteLength xs ∨ pos + byteLength xs ≤ patch.span.start) :
    ∃ us vs, out = us ++ vs ∧
      splice? pos (patches.filter (·.span.stop ≤ pos + byteLength xs)) xs = some us ∧
      splice? (pos + byteLength xs)
        (patches.filter fun other => !decide (other.span.stop ≤ pos + byteLength xs)) ys =
          some vs := by
  induction patches generalizing pos xs out with
  | nil =>
      obtain rfl := Option.some.inj h
      exact ⟨xs, ys, rfl, rfl, rfl⟩
  | cons patch patches ih =>
      obtain ⟨hpos, kept, old, behind, rest, hcs, hkept, hold, hrest, rfl⟩ :=
        (splice?_cons_eq_some_iff).mp h
      have hstop : patch.span.stop = pos + byteLength (kept ++ old) := by
        rw [byteLength_append, hkept, hold, Span.stop]
        omega
      by_cases hleft : patch.span.stop ≤ pos + byteLength xs
      · -- The stretch of the first patch lies before the position.
        rw [← List.append_assoc] at hcs
        obtain ⟨more, rfl, rfl⟩ := exists_append_of_byteLength_le hcs.symm (by omega)
        have hposition :
            patch.span.stop + byteLength more = pos + byteLength (kept ++ old ++ more) := by
          rw [byteLength_append, hstop]
          omega
        rw [← hposition] at hside hleft ⊢
        obtain ⟨us, vs, rfl, hus, hvs⟩ :=
          ih hrest fun patch hpatch => hside patch (List.mem_cons_of_mem _ hpatch)
        refine ⟨kept ++ patch.text.toList ++ us, vs, by simp only [List.append_assoc], ?_, ?_⟩
        · rw [List.filter_cons_of_pos (by simp)]
          exact (splice?_cons_eq_some_iff).mpr ⟨hpos, kept, old, more, us,
            by simp only [List.append_assoc], hkept, hold, hus, rfl⟩
        · rwa [List.filter_cons_of_neg (by simp)]
      · -- All patches lie behind it.
        have hstart := (hside patch List.mem_cons_self).resolve_left hleft
        have hrow := pairwise_of_splice? h
        have hall : ∀ other ∈ patch :: patches, pos + byteLength xs ≤ other.span.start ∧
            ¬other.span.stop ≤ pos + byteLength xs := by
          intro other hother
          rcases List.mem_cons.mp hother with rfl | hother
          · exact ⟨hstart, hleft⟩
          · have hbehind := (List.pairwise_cons.mp hrow.2).1 other hother
            have := other.span.start_le_stop
            constructor <;> omega
        have hnone : (patch :: patches).filter (·.span.stop ≤ pos + byteLength xs) = [] := by
          refine List.filter_eq_nil_iff.mpr fun other hother => ?_
          simp only [decide_eq_true_eq]
          exact (hall other hother).2
        have hsame : ((patch :: patches).filter fun other =>
            !decide (other.span.stop ≤ pos + byteLength xs)) = patch :: patches := by
          refine List.filter_eq_self.mpr fun other hother => ?_
          simp only [Bool.not_eq_true', decide_eq_false_iff_not]
          exact (hall other hother).2
        obtain ⟨vs, hout, hvs⟩ := splice?_keep h fun other hother => (hall other hother).1
        exact ⟨xs, vs, hout, by rw [hnone]; rfl, by rw [hsame]; exact hvs⟩

/-- Behind what stands before its stretch a patch puts in its text. -/
theorem splice?_put {pos : Nat} {patches : List Patch} {xs ys out : List Char}
    (h : splice? pos patches (xs ++ ys) = some out) {patch : Patch} (hpatch : patch ∈ patches)
    (hstart : pos + byteLength xs = patch.span.start) (hlength : 0 < patch.span.length) :
    ∃ us rest, out = us ++ patch.text.toList ++ rest ∧
      splice? pos (patches.filter (·.span.stop ≤ patch.span.start)) xs = some us := by
  induction patches generalizing pos xs out with
  | nil => cases hpatch
  | cons first patches ih =>
      have hrow := (pairwise_of_splice? h).2
      obtain ⟨hpos, kept, old, behind, rest, hcs, hkept, hold, hrest, rfl⟩ :=
        (splice?_cons_eq_some_iff).mp h
      have hbehind := (List.pairwise_cons.mp hrow).1
      rcases List.mem_cons.mp hpatch with rfl | hpatch
      · obtain ⟨more, rfl, -⟩ := exists_append_of_byteLength_le hcs (by omega)
        obtain rfl : more = [] := by
          apply eq_nil_of_byteLength_eq_zero
          rw [byteLength_append] at hkept
          omega
        have hnone : (patch :: patches).filter (·.span.stop ≤ patch.span.start) = [] := by
          refine List.filter_eq_nil_iff.mpr fun other hother => ?_
          have hstop : patch.span.start < patch.span.stop := by
            rw [Span.stop]
            omega
          rcases List.mem_cons.mp hother with rfl | hother
          · simpa using hstop
          · have := hbehind other hother
            have := other.span.start_le_stop
            simp only [decide_eq_true_eq]
            omega
        exact ⟨xs, rest, by rw [List.append_nil], by rw [hnone]; rfl⟩
      · have hleft := hbehind patch hpatch
        have hstop : first.span.stop = pos + byteLength (kept ++ old) := by
          rw [byteLength_append, hkept, hold, Span.stop]
          omega
        rw [← List.append_assoc] at hcs
        obtain ⟨more, rfl, rfl⟩ := exists_append_of_byteLength_le hcs.symm (by omega)
        rw [byteLength_append] at hstart
        obtain ⟨us, rest, rfl, hus⟩ := ih hrest hpatch (by omega)
        refine ⟨kept ++ first.text.toList ++ us, rest, by simp only [List.append_assoc], ?_⟩
        rw [List.filter_cons_of_pos (by simpa using hleft)]
        exact (splice?_cons_eq_some_iff).mpr ⟨hpos, kept, old, more, us,
          by simp only [List.append_assoc], hkept, hold, hus, rfl⟩

/-! ## Positions in a patched text -/

/-- Where a position of a text is found once patches are put in: they push it on by what
they put before it, and draw it back by what they take away there. -/
def moved (patches : List Patch) (pos : Nat) : Nat :=
  let before := patches.filter (·.span.stop ≤ pos)
  pos + (before.map (·.text.utf8ByteSize)).sum - (before.map (·.span.length)).sum

theorem moved_perm {patches patches' : List Patch} (h : patches.Perm patches') (pos : Nat) :
    moved patches pos = moved patches' pos := by
  have hfilter := h.filter (·.span.stop ≤ pos)
  simp only [moved]
  rw [(hfilter.map (·.text.utf8ByteSize)).sum_nat, (hfilter.map (·.span.length)).sum_nat]

/-- What stands before a position has the length that the patches move the position to. -/
theorem byteLength_eq_moved {patches : List Patch} {xs us : List Char}
    (h : splice? 0 (patches.filter (·.span.stop ≤ byteLength xs)) xs = some us) :
    byteLength us = moved patches (byteLength xs) := by
  have hlength := byteLength_splice? h
  simp only [moved]
  omega

/-- What a patch puts in, and behind it a stretch that no patch touches, are found where
the starts of both stretches are moved to. -/
theorem Turn.exists_put_keep {patches : List Patch} {old new : String} (h : Turn patches old new)
    {patch : Patch} (hpatch : patch ∈ patches) (hlength : 0 < patch.span.length)
    {before between kept behind : String} (hold : old = before ++ between ++ kept ++ behind)
    (hstart : before.utf8ByteSize = patch.span.start)
    (hstop : patch.span.stop ≤ (before ++ between).utf8ByteSize)
    (hapart : ∀ other ∈ patches, other.span.stop ≤ (before ++ between).utf8ByteSize ∨
      (before ++ between).utf8ByteSize + kept.utf8ByteSize ≤ other.span.start) :
    ∃ before' between' behind' : String,
      new = before' ++ patch.text ++ between' ++ kept ++ behind' ∧
      before'.utf8ByteSize = moved patches patch.span.start ∧
      (before' ++ patch.text ++ between').utf8ByteSize =
        moved patches (before ++ between).utf8ByteSize := by
  obtain ⟨ordered, hperm, hsplice⟩ := h
  replace hpatch := hperm.mem_iff.mpr hpatch
  replace hapart : ∀ other ∈ ordered, other.span.stop ≤ (before ++ between).utf8ByteSize ∨
      (before ++ between).utf8ByteSize + kept.utf8ByteSize ≤ other.span.start :=
    fun other hother => hapart other (hperm.mem_iff.mp hother)
  -- The text is cut before the stretch that stays, and again where the patch starts.
  rw [hold, String.append_assoc, String.toList_append] at hsplice
  obtain ⟨us, vs, hnew, hus, hvs⟩ := splice?_split hsplice fun other hother => by
    rw [Nat.zero_add, byteLength_toList]
    exact (hapart other hother).imp_right fun hright => Nat.le_trans (Nat.le_add_right _ _) hright
  simp only [Nat.zero_add, byteLength_toList] at hus hvs
  rw [String.toList_append] at hvs
  obtain ⟨rest, rfl, -⟩ := splice?_keep hvs fun other hother => by
    obtain ⟨hmem, hnot⟩ := List.mem_filter.mp hother
    have hside := (hapart other hmem).resolve_left (by simpa using hnot)
    rwa [← byteLength_toList kept] at hside
  have hleft := List.mem_filter_of_mem (p := (·.span.stop ≤ (before ++ between).utf8ByteSize))
    hpatch (by simpa using hstop)
  have hlength' := @byteLength_eq_moved ordered _ _ (byteLength_toList _ ▸ hus)
  rw [String.toList_append] at hus
  obtain ⟨fs, more, rfl, hfs⟩ := splice?_put hus hleft
    (by rw [Nat.zero_add, byteLength_toList, hstart]) hlength
  have hsame : (ordered.filter (·.span.stop ≤ (before ++ between).utf8ByteSize)).filter
      (·.span.stop ≤ patch.span.start) =
        ordered.filter (·.span.stop ≤ byteLength before.toList) := by
    rw [List.filter_filter, byteLength_toList, hstart]
    refine List.filter_congr fun other _ => ?_
    have hle := Nat.le_trans patch.span.start_le_stop hstop
    rw [Bool.and_eq_left_iff_imp]
    simp only [decide_eq_true_eq]
    exact fun hother => Nat.le_trans hother hle
  rw [hsame] at hfs
  refine ⟨String.ofList fs, String.ofList more, String.ofList rest, ?_, ?_, ?_⟩
  · apply String.toList_injective
    rw [hnew]
    simp
  · rw [← byteLength_toList, String.toList_ofList, byteLength_eq_moved hfs, byteLength_toList,
      hstart, moved_perm hperm]
  · rw [← moved_perm hperm, ← byteLength_toList (before ++ between), ← hlength',
      ← byteLength_toList]
    simp

/-- Patches that turn a text into another do not overlap. -/
theorem Turn.apart {patches : List Patch} {old new : String} (h : Turn patches old new) :
    Apart patches := by
  obtain ⟨ordered, hperm, hsplice⟩ := h
  have hrow := (pairwise_of_splice? hsplice).2
  have hapart : Apart ordered := hrow.imp fun h => .inl h
  exact (hperm.pairwise_iff fun h => h.symm).mp hapart

end Patch

end CSharpKit.Text
