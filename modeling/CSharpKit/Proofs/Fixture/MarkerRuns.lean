import CSharpKit.Fixture.Markers
import CSharpKit.Proofs.Text.Patches
import Mathlib.Data.List.TakeWhile

/-!
# Texts cut at their markers

A text is cut at its markers into stretches that stay. The marks are exactly the dollar signs
with digits behind them, each with all its digits, so what stays holds none: the digits of
a marker end where another character stands, and that is what follows when the marker is gone.
-/

namespace CSharpKit.Fixture

open Number Text

/-! ## Markers in a text -/

/-- A marker as it is written: a dollar sign and digits. -/
def IsMarker (run : List Char) : Prop :=
  ∃ digits, run = '$' :: digits ∧ digits ≠ [] ∧ ∀ d ∈ digits, d.isDigit = true

/-- No digit stands first. -/
def DigitFree (cs : List Char) : Prop := ∀ d ∈ cs.head?, d.isDigit = false

/-- A marker stands between `before` and `behind`, with all its digits. -/
structure MarkedAt (cs before run behind : List Char) : Prop where
  whole : cs = before ++ (run ++ behind)
  marker : IsMarker run
  maximal : DigitFree behind

/-- No marker opens with `c` before `rest`. -/
def Plain (c : Char) (rest : List Char) : Prop := c = '$' → DigitFree rest

theorem takeWhile_isDigit {digits rest : List Char} (hdigits : ∀ d ∈ digits, d.isDigit = true)
    (hrest : DigitFree rest) : (digits ++ rest).takeWhile Char.isDigit = digits := by
  rw [List.takeWhile_append_of_pos hdigits]
  cases rest with
  | nil => simp
  | cons d rest => simp [hrest d rfl]

/-- The digits in front of a text, and what stands behind them. -/
theorem exists_digits (cs : List Char) :
    ∃ digits rest, cs = digits ++ rest ∧ (∀ d ∈ digits, d.isDigit = true) ∧ DigitFree rest := by
  refine ⟨cs.takeWhile Char.isDigit, cs.dropWhile Char.isDigit,
    List.takeWhile_append_dropWhile.symm, fun d hd => List.mem_takeWhile_imp hd, fun d hd => ?_⟩
  have hnot := List.head?_dropWhile_not Char.isDigit cs
  rwa [Option.mem_def.mp hd] at hnot

theorem markedAt_plain {c : Char} {rest before run behind : List Char} (hc : Plain c rest) :
    MarkedAt (c :: rest) before run behind ↔
      ∃ before', before = c :: before' ∧ MarkedAt rest before' run behind := by
  constructor
  · rintro ⟨hwhole, ⟨digits, rfl, hne, hdigits⟩, hmaximal⟩
    cases before with
    | nil =>
        obtain ⟨rfl, rfl⟩ := List.cons.inj hwhole
        obtain ⟨d, more, rfl⟩ := List.exists_cons_of_ne_nil hne
        have hnot := hc rfl d rfl
        rw [hdigits d List.mem_cons_self] at hnot
        cases hnot
    | cons d before =>
        obtain ⟨rfl, rfl⟩ := List.cons.inj hwhole
        exact ⟨before, rfl, rfl, ⟨digits, rfl, hne, hdigits⟩, hmaximal⟩
  · rintro ⟨before, rfl, rfl, hmarker, hmaximal⟩
    exact ⟨rfl, hmarker, hmaximal⟩

/-- The digits of a marker are all its own, and none of them is a dollar sign. -/
theorem markedAt_marker {first rest before run behind : List Char} (hfirst : IsMarker first)
    (hrest : DigitFree rest) :
    MarkedAt (first ++ rest) before run behind ↔
      (before = [] ∧ run = first ∧ behind = rest) ∨
        ∃ before', before = first ++ before' ∧ MarkedAt rest before' run behind := by
  obtain ⟨own, rfl, hown, hdigits⟩ := hfirst
  constructor
  · rintro ⟨hwhole, ⟨digits, rfl, hne, hmore⟩, hmaximal⟩
    cases before with
    | nil =>
        have htail : own ++ rest = digits ++ behind := (List.cons.inj hwhole).2
        obtain rfl : own = digits := by
          rw [← takeWhile_isDigit hdigits hrest, htail, takeWhile_isDigit hmore hmaximal]
        exact .inl ⟨rfl, rfl, (List.append_cancel_left htail).symm⟩
    | cons d before =>
        obtain ⟨rfl, htail⟩ := List.cons.inj hwhole
        rcases List.append_eq_append_iff.mp htail with ⟨more, rfl, rfl⟩ | ⟨more, rfl, hover⟩
        · exact .inr ⟨more, rfl, rfl, ⟨digits, rfl, hne, hmore⟩, hmaximal⟩
        · cases more with
          | nil =>
              refine .inr ⟨[], by simp, ?_, ⟨digits, rfl, hne, hmore⟩, hmaximal⟩
              exact hover.symm
          | cons d more =>
              obtain ⟨rfl, -⟩ := List.cons.inj hover
              exact absurd (hdigits '$' (by simp)) (by decide)
  · rintro (⟨rfl, rfl, rfl⟩ | ⟨before, rfl, rfl, hmarker, hmaximal⟩)
    · exact ⟨rfl, ⟨own, rfl, hown, hdigits⟩, hrest⟩
    · exact ⟨by simp, hmarker, hmaximal⟩

/-! ## Reading from the left -/

/-- A text is read as single characters and markers, each as long as it can be. -/
@[elab_as_elim]
theorem markers_induction {motive : List Char → Prop} (nil : motive [])
    (plain : ∀ c rest, Plain c rest → motive rest → motive (c :: rest))
    (marker : ∀ run rest, IsMarker run → DigitFree rest → motive rest → motive (run ++ rest))
    (cs : List Char) : motive cs := by
  induction hlength : cs.length using Nat.strongRecOn generalizing cs with
  | ind length ih =>
      subst hlength
      cases cs with
      | nil => exact nil
      | cons c rest =>
          obtain ⟨digits, behind, rfl, hdigits, hbehind⟩ := exists_digits rest
          by_cases hc : c = '$' ∧ digits ≠ []
          · obtain ⟨rfl, hne⟩ := hc
            have hshorter : behind.length < ('$' :: (digits ++ behind)).length := by
              rw [List.length_cons, List.length_append]
              omega
            exact marker ('$' :: digits) behind ⟨digits, rfl, hne, hdigits⟩ hbehind
              (ih _ hshorter behind rfl)
          · refine plain c _ (fun hdollar => ?_) (ih _ (Nat.lt_succ_self _) _ rfl)
            obtain rfl : digits = [] := by
              by_contra hne
              exact hc ⟨hdollar, hne⟩
            exact hbehind

theorem stripFrom_nil (pos : Nat) : stripFrom pos [] = ([], []) := by rw [stripFrom]

theorem stripFrom_plain {c : Char} {rest : List Char} (hc : Plain c rest) (pos : Nat) :
    stripFrom pos (c :: rest) =
      (c :: (stripFrom (pos + c.utf8Size) rest).1, (stripFrom (pos + c.utf8Size) rest).2) := by
  have hnone : (if c == '$' then rest.takeWhile Char.isDigit else []) = [] := by
    split
    · next hdollar =>
      exact takeWhile_isDigit (List.forall_mem_nil _) (hc (beq_iff_eq.mp hdollar))
    · rfl
  rw [stripFrom]
  simp only [hnone, List.isEmpty_nil, if_true]

theorem stripFrom_marker {run rest : List Char} (hrun : IsMarker run) (hrest : DigitFree rest)
    (pos : Nat) : stripFrom pos (run ++ rest) =
      ((stripFrom pos rest).1, (decimal run.tail, pos) :: (stripFrom pos rest).2) := by
  obtain ⟨digits, rfl, hne, hdigits⟩ := hrun
  have hnonempty : digits.isEmpty = false := by simpa using hne
  rw [List.cons_append, stripFrom]
  simp only [beq_self_eq_true, if_true, takeWhile_isDigit hdigits hrest, hnonempty,
    Bool.false_eq_true, if_false, List.drop_left, List.tail_cons]

/-! ## Cutting at the markers -/

/-- Markers, each with the stretch of text behind it. -/
abbrev MarkedPieces := List (List Char × List Char)

/-- The text with its markers. -/
def joined (pieces : MarkedPieces) : List Char := pieces.flatMap fun p => p.1 ++ p.2

/-- The text without its markers. -/
def unmarked (pieces : MarkedPieces) : List Char := pieces.flatMap Prod.snd

/-- The numbers of markers and their positions in the text without markers, where the first
one stands at `pos`. -/
def markersFrom (pos : Nat) : MarkedPieces → List (Nat × Nat)
  | [] => []
  | (run, text) :: pieces =>
    (decimal run.tail, pos) :: markersFrom (pos + byteLength text) pieces

/-- A text is cut at its markers: they are the markers of the pieces, at their places, and
there is no other one. -/
structure CutAtMarkers (cs first : List Char) (pieces : MarkedPieces) : Prop where
  whole : cs = first ++ joined pieces
  marked_iff : ∀ before run behind, MarkedAt cs before run behind ↔
    ∃ front text back, pieces = front ++ (run, text) :: back ∧
      before = first ++ joined front ∧ behind = text ++ joined back

namespace CutAtMarkers

variable {rest first : List Char} {pieces : MarkedPieces}

theorem nil : CutAtMarkers [] [] [] where
  whole := rfl
  marked_iff := by
    intro before run behind
    refine iff_of_false ?_ (by simp)
    rintro ⟨hwhole, ⟨digits, rfl, -⟩, -⟩
    simp at hwhole

theorem plain {c : Char} (h : CutAtMarkers rest first pieces) (hc : Plain c rest) :
    CutAtMarkers (c :: rest) (c :: first) pieces where
  whole := by rw [h.whole, List.cons_append]
  marked_iff := by
    intro before run behind
    rw [markedAt_plain hc]
    simp only [h.marked_iff]
    constructor
    · rintro ⟨_, rfl, front, text, back, rfl, rfl, rfl⟩
      exact ⟨front, text, back, rfl, rfl, rfl⟩
    · rintro ⟨front, text, back, rfl, rfl, rfl⟩
      exact ⟨_, rfl, front, text, back, rfl, rfl, rfl⟩

theorem marker {run : List Char} (h : CutAtMarkers rest first pieces) (hrun : IsMarker run)
    (hrest : DigitFree rest) : CutAtMarkers (run ++ rest) [] ((run, first) :: pieces) where
  whole := by rw [h.whole, joined, joined, List.flatMap_cons, List.append_assoc, List.nil_append]
  marked_iff := by
    intro before other behind
    rw [markedAt_marker hrun hrest]
    simp only [h.marked_iff]
    constructor
    · rintro (⟨rfl, rfl, rfl⟩ | ⟨_, rfl, front, text, back, rfl, rfl, rfl⟩)
      · exact ⟨[], first, pieces, rfl, rfl, h.whole⟩
      · exact ⟨(run, first) :: front, text, back, rfl, by simp [joined], rfl⟩
    · rintro ⟨front, text, back, hpieces, rfl, rfl⟩
      cases front with
      | nil =>
          obtain ⟨hpiece, rfl⟩ := List.cons.inj hpieces
          obtain ⟨rfl, rfl⟩ := Prod.mk.inj hpiece
          exact .inl ⟨rfl, rfl, h.whole.symm⟩
      | cons piece front =>
          obtain ⟨rfl, rfl⟩ := List.cons.inj hpieces
          exact .inr ⟨_, by simp [joined], front, text, back, rfl, rfl, rfl⟩

end CutAtMarkers

/-- A text is cut at its markers, and what is left is the text without them. -/
theorem exists_cutAtMarkers (cs : List Char) : ∃ first pieces, CutAtMarkers cs first pieces ∧
    ∀ pos, stripFrom pos cs =
      (first ++ unmarked pieces, markersFrom (pos + byteLength first) pieces) := by
  induction cs using markers_induction with
  | nil => exact ⟨[], [], .nil, stripFrom_nil⟩
  | plain c rest hc ih =>
      obtain ⟨first, pieces, hcut, hstrip⟩ := ih
      refine ⟨c :: first, pieces, hcut.plain hc, fun pos => ?_⟩
      rw [stripFrom_plain hc, hstrip, byteLength_cons, Nat.add_assoc, List.cons_append]
  | marker run rest hrun hrest ih =>
      obtain ⟨first, pieces, hcut, hstrip⟩ := ih
      refine ⟨[], (run, first) :: pieces, hcut.marker hrun hrest, fun pos => ?_⟩
      rw [stripFrom_marker hrun hrest, hstrip, unmarked, unmarked, List.flatMap_cons,
        List.nil_append, byteLength_nil, Nat.add_zero, markersFrom]

/-! ## No marker is left -/

/-- There is no marker in a text. -/
def Markerless (cs : List Char) : Prop := ∀ before run behind, ¬MarkedAt cs before run behind

/-- What is left opens with no digit if the text does not. -/
theorem digitFree_stripFrom (cs : List Char) (pos : Nat) (h : DigitFree cs) :
    DigitFree (stripFrom pos cs).1 := by
  induction cs using markers_induction with
  | nil => rwa [stripFrom_nil]
  | plain c rest hc _ =>
      rw [stripFrom_plain hc]
      exact h
  | marker run rest hrun hrest ih =>
      rw [stripFrom_marker hrun hrest]
      exact ih hrest

theorem markerless_stripFrom (cs : List Char) (pos : Nat) : Markerless (stripFrom pos cs).1 := by
  induction cs using markers_induction generalizing pos with
  | nil =>
      rw [stripFrom_nil]
      rintro before run behind ⟨hwhole, ⟨digits, rfl, -⟩, -⟩
      simp at hwhole
  | plain c rest hc ih =>
      rw [stripFrom_plain hc]
      intro before run behind h
      have hplain : Plain c (stripFrom (pos + c.utf8Size) rest).1 :=
        fun hdollar => digitFree_stripFrom _ _ (hc hdollar)
      obtain ⟨before', -, hrest⟩ := (markedAt_plain hplain).mp h
      exact ih _ _ _ _ hrest
  | marker run rest hrun hrest ih =>
      rw [stripFrom_marker hrun hrest]
      exact ih pos

theorem stripFrom_of_markerless {cs : List Char} (h : Markerless cs) (pos : Nat) :
    stripFrom pos cs = (cs, []) := by
  obtain ⟨first, pieces, hcut, hstrip⟩ := exists_cutAtMarkers cs
  cases pieces with
  | nil =>
      have hwhole : cs = first := by simpa [joined] using hcut.whole
      rw [hstrip, hwhole]
      simp [unmarked, markersFrom]
  | cons piece pieces =>
      exact absurd ((hcut.marked_iff _ _ _).mpr ⟨[], _, _, rfl, rfl, rfl⟩) (h _ _ _)

/-! ## Markers put back -/

/-- Each marker has its number and the length of what is left before it. -/
theorem mem_markersFrom {pos : Nat} {pieces : MarkedPieces} {marker : Nat × Nat} :
    marker ∈ markersFrom pos pieces ↔ ∃ front run text back,
      pieces = front ++ (run, text) :: back ∧
        marker = (decimal run.tail, pos + byteLength (unmarked front)) := by
  induction pieces generalizing pos with
  | nil => simp [markersFrom]
  | cons piece pieces ih =>
      obtain ⟨run, text⟩ := piece
      rw [markersFrom, List.mem_cons, ih]
      constructor
      · rintro (rfl | ⟨front, other, text', back, rfl, rfl⟩)
        · exact ⟨[], run, text, pieces, rfl, rfl⟩
        · refine ⟨(run, text) :: front, other, text', back, rfl, ?_⟩
          rw [unmarked, unmarked, List.flatMap_cons, byteLength_append, Nat.add_assoc]
      · rintro ⟨front, other, text', back, hpieces, rfl⟩
        cases front with
        | nil =>
            obtain ⟨rfl, rfl⟩ := Prod.mk.inj (List.cons.inj hpieces).1
            exact .inl rfl
        | cons piece front =>
            obtain ⟨rfl, rfl⟩ := List.cons.inj hpieces
            refine .inr ⟨front, other, text', back, rfl, ?_⟩
            rw [unmarked, unmarked, List.flatMap_cons, byteLength_append, Nat.add_assoc]

theorem pairwise_markersFrom (pos : Nat) (pieces : MarkedPieces) :
    ((markersFrom pos pieces).map Prod.snd).Pairwise (· ≤ ·) := by
  induction pieces generalizing pos with
  | nil => exact .nil
  | cons piece pieces ih =>
      refine List.pairwise_cons.mpr ⟨fun next hnext => ?_, ih _⟩
      obtain ⟨marker, hmarker, rfl⟩ := List.mem_map.mp hnext
      obtain ⟨front, run, text, back, -, rfl⟩ := mem_markersFrom.mp hmarker
      show pos ≤ pos + byteLength piece.2 + byteLength (unmarked front)
      rw [Nat.add_assoc]
      exact Nat.le_add_right _ _

/-- The markers of the pieces, to be put in at the positions that were found. -/
def insertions (pieces : MarkedPieces) (markers : List (Nat × Nat)) : List Patch :=
  List.zipWith (fun piece marker => ⟨⟨marker.2, 0⟩, String.ofList piece.1⟩) pieces markers

theorem splice?_insertions (pos : Nat) (pieces : MarkedPieces) :
    Patch.splice? pos (insertions pieces (markersFrom pos pieces)) (unmarked pieces) =
      some (joined pieces) := by
  induction pieces generalizing pos with
  | nil => rfl
  | cons piece pieces ih =>
      obtain ⟨run, text⟩ := piece
      have hbehind := Patch.splice?_append_left (ih (pos + byteLength text))
      refine Patch.splice?_cons_eq_some_iff.mpr ⟨Nat.le_refl pos, [], [], _, _, rfl,
        (Nat.sub_self pos).symm, rfl, hbehind, ?_⟩
      simp [joined]

/-! ## Texts -/

/-- The number of a marker is among those that are found. -/
theorem MarkedAt.decimal_mem {cs before run behind : List Char} (h : MarkedAt cs before run behind)
    (pos : Nat) : decimal run.tail ∈ (stripFrom pos cs).2.map Prod.fst := by
  obtain ⟨first, pieces, hcut, hstrip⟩ := exists_cutAtMarkers cs
  obtain ⟨front, text, back, hpieces, -, -⟩ := (hcut.marked_iff before run behind).mp h
  rw [hstrip]
  exact List.mem_map.mpr ⟨_, mem_markersFrom.mpr ⟨front, run, text, back, hpieces, rfl⟩, rfl⟩

/-- Where all numbers fit, the markers are stripped. -/
theorem stripMarkers_eq_ok {text : String} {out : List Char} {markers : List (Nat × Nat)}
    (hstrip : stripFrom 0 text.toList = (out, markers))
    (hfits : ∀ marker ∈ markers, marker.1 < markerLimit) :
    stripMarkers text = .ok (String.ofList out, markers) := by
  have hnone : (markers.any fun marker => decide (markerLimit ≤ marker.1)) = false := by
    simpa using hfits
  simp only [stripMarkers, hstrip, hnone, Bool.false_eq_true, if_false]

/-- **Stripping markers is exact.** A text is cut at its markers, which are all the dollar
signs with all the digits behind them. Where the numbers of all markers fit, stripping leaves
the stretches between them as they are, and finds for each marker in its turn the number and
where it stood. These positions never fall and lie between characters; put back there the
markers give the text again. No marker is left, so stripping again changes nothing. -/
theorem stripMarkers_cut (text : String) (hfits : ∀ before run behind,
    MarkedAt text.toList before run behind → decimal run.tail < markerLimit) :
    ∃ first pieces, CutAtMarkers text.toList first pieces ∧
      let out := String.ofList (first ++ unmarked pieces)
      let markers := markersFrom (byteLength first) pieces
      stripMarkers text = .ok (out, markers) ∧
      (markers.map Prod.snd).Pairwise (· ≤ ·) ∧
      (∀ marker ∈ markers, String.Pos.Raw.IsValid out ⟨marker.2⟩) ∧
      Patch.splice? 0 (insertions pieces markers) out.toList = some text.toList ∧
      stripMarkers out = .ok (out, []) := by
  obtain ⟨first, pieces, hcut, hstrip⟩ := exists_cutAtMarkers text.toList
  have hstrip' := hstrip 0
  rw [Nat.zero_add] at hstrip'
  refine ⟨first, pieces, hcut, stripMarkers_eq_ok hstrip' fun marker hmarker => ?_,
    pairwise_markersFrom _ _, fun marker hmarker => ?_, ?_, ?_⟩
  · obtain ⟨front, run, piece, back, hpieces, rfl⟩ := mem_markersFrom.mp hmarker
    exact hfits _ run _ ((hcut.marked_iff _ run _).mpr ⟨front, piece, back, hpieces, rfl, rfl⟩)
  · obtain ⟨front, run, piece, back, rfl, rfl⟩ := mem_markersFrom.mp hmarker
    refine String.Pos.Raw.isValid_iff_exists_append.mpr ⟨String.ofList (first ++ unmarked front),
      String.ofList (unmarked ((run, piece) :: back)), ?_, ?_⟩
    · simp [unmarked, String.append_assoc]
    · refine congrArg String.Pos.Raw.mk ?_
      rw [← byteLength_append, ← byteLength_toList, String.toList_ofList]
  · rw [String.toList_ofList, hcut.whole]
    refine Patch.splice?_append_left ?_
    rw [Nat.zero_add]
    exact splice?_insertions _ _
  · have hnone : Markerless (first ++ unmarked pieces) := by
      have hleft := markerless_stripFrom text.toList 0
      rwa [hstrip'] at hleft
    refine stripMarkers_eq_ok ?_ (List.forall_mem_nil _)
    rw [String.toList_ofList]
    exact stripFrom_of_markerless hnone 0

/-- A dollar sign before two markers in a row, with the position of both behind it. -/
theorem stripMarkers_cut_adjacent :
    (∀ before run behind, MarkedAt "β$$01$7x$".toList before run behind →
      decimal run.tail < markerLimit) ∧
    ∃ first pieces, CutAtMarkers "β$$01$7x$".toList first pieces ∧
      stripMarkers "β$$01$7x$" = .ok ("β$x$", [(1, 3), (7, 3)]) ∧
      Patch.splice? 0 (insertions pieces [(1, 3), (7, 3)]) "β$x$".toList =
        some "β$$01$7x$".toList ∧
      stripMarkers "β$x$" = .ok ("β$x$", []) := by
  have hnumbers : (stripFrom 0 "β$$01$7x$".toList).2.map Prod.fst = [1, 7] := by decide +kernel
  have hfits : ∀ before run behind, MarkedAt "β$$01$7x$".toList before run behind →
      decimal run.tail < markerLimit := by
    intro before run behind h
    have hall : ∀ n ∈ [1, 7], n < markerLimit := by decide
    exact hall _ (hnumbers ▸ h.decimal_mem 0)
  have hstrip : stripMarkers "β$$01$7x$" = .ok ("β$x$", [(1, 3), (7, 3)]) := by decide +kernel
  obtain ⟨first, pieces, hcut, hok, -, -, hback, hagain⟩ := stripMarkers_cut _ hfits
  obtain ⟨hout, hmarkers⟩ := Prod.mk.inj (Except.ok.inj (hok.symm.trans hstrip))
  rw [hout, hmarkers] at hback
  rw [hout] at hagain
  exact ⟨hfits, first, pieces, hcut, hstrip, hback, hagain⟩

end CSharpKit.Fixture
