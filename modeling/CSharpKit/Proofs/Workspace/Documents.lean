import CSharpKit.Proofs.Outcome
import CSharpKit.Workspace.Project
import Mathlib.Data.List.Basic

/-!
# Documents by their numbers

The numbers of a project are sorted, so a number names one document.
-/

namespace CSharpKit.Workspace.Project

open Outcome

variable {project : Project} {id : DocumentId} {doc other : Document}

theorem mem_of_document? (h : project.document? id = some doc) :
    doc ∈ project.documents ∧ doc.id = id :=
  ⟨List.mem_of_find?_eq_some h,
    beq_iff_eq.mp (List.find?_some (p := fun doc : Document => doc.id == id) h)⟩

theorem eq_of_id_eq (hdoc : doc ∈ project.documents) (hother : other ∈ project.documents)
    (h : doc.id = other.id) : doc = other := by
  have hsorted := List.pairwise_iff_getElem.mp (List.pairwise_map.mp project.ids_sorted)
  obtain ⟨i, hi, rfl⟩ := List.mem_iff_getElem.mp hdoc
  obtain ⟨j, hj, rfl⟩ := List.mem_iff_getElem.mp hother
  rcases Nat.lt_trichotomy i j with hij | rfl | hij
  · exact absurd h (Nat.ne_of_lt (hsorted i j hi hj hij))
  · rfl
  · exact absurd h.symm (Nat.ne_of_lt (hsorted j i hj hi hij))

theorem document?_of_mem (hdoc : doc ∈ project.documents) :
    project.document? doc.id = some doc := by
  have hsome : (project.document? doc.id).isSome := by
    rw [document?, List.find?_isSome]
    exact ⟨doc, hdoc, beq_self_eq_true _⟩
  obtain ⟨found, hfound⟩ := Option.isSome_iff_exists.mp hsome
  obtain ⟨hmem, hid⟩ := mem_of_document? hfound
  rw [hfound, eq_of_id_eq hmem hdoc hid]

/-- A known document with a new text, as a step of a change of several ones. -/
def changed (project : Project) (entry : DocumentId × String) : Except ProjectError Document :=
  match project.document? entry.1 with
  | some doc => .ok (doc.withText entry.2)
  | none => .error (.unknownDocument entry.1)

theorem withTexts_eq (project : Project) (texts : List (DocumentId × String)) :
    project.withTexts texts =
      texts.mapM project.changed >>= fun docs => pure (docs.foldl replace project) := rfl

theorem changed_eq_ok_iff {entry : DocumentId × String} {new : Document} :
    project.changed entry = .ok new ↔
      ∃ doc ∈ project.documents, doc.id = entry.1 ∧ new = doc.withText entry.2 := by
  unfold changed
  constructor
  · intro hnew
    split at hnew
    · next doc hdoc =>
      obtain ⟨hmem, hid⟩ := mem_of_document? hdoc
      exact ⟨doc, hmem, hid, (Except.ok.inj hnew).symm⟩
    · cases hnew
  · rintro ⟨doc, hdoc, hid, rfl⟩
    rw [← hid, document?_of_mem hdoc]

/-- Documents that are all known get their new texts. -/
theorem withTexts_ok {texts : List (DocumentId × String)}
    (h : ∀ entry ∈ texts, ∃ doc ∈ project.documents, doc.id = entry.1) :
    ∃ next, project.withTexts texts = .ok next := by
  have hone : ∀ entry ∈ texts, ∃ new, project.changed entry = .ok new := by
    intro entry hentry
    obtain ⟨doc, hdoc, hid⟩ := h entry hentry
    exact ⟨doc.withText entry.2, changed_eq_ok_iff.mpr ⟨doc, hdoc, hid, rfl⟩⟩
  obtain ⟨docs, hdocs⟩ := exists_mapM_ok hone
  rw [withTexts_eq]
  exact ⟨docs.foldl replace project, bind_eq_ok_iff.mpr ⟨docs, hdocs, rfl⟩⟩

theorem nextId_foldl_replace (docs : List Document) (project : Project) :
    (docs.foldl replace project).nextId = project.nextId := by
  induction docs generalizing project with
  | nil => rfl
  | cons doc docs ih => exact ih (project.replace doc)

/-- Of the documents that are put in place of one another the last one counts. -/
theorem documents_foldl_replace (docs : List Document) (project : Project) :
    (docs.foldl replace project).documents =
      project.documents.map fun old => (docs.reverse.find? (·.id == old.id)).getD old := by
  induction docs generalizing project with
  | nil => simp
  | cons doc docs ih =>
      rw [List.foldl_cons, ih, replace, List.map_map]
      apply List.map_congr_left
      intro old _
      have hid : (if old.id == doc.id then doc else old).id = old.id := by
        split
        · next h => exact (beq_iff_eq.mp h).symm
        · rfl
      simp only [Function.comp_apply, hid, List.reverse_cons, List.find?_append]
      cases docs.reverse.find? (·.id == old.id) with
      | some later => rfl
      | none => by_cases h : old.id = doc.id <;> simp [h, @eq_comm _ doc.id]

/-- New texts change the documents they are for, and no others. -/
theorem withTexts_eq_ok {texts : List (DocumentId × String)} {next : Project}
    (h : project.withTexts texts = .ok next) :
    next.nextId = project.nextId ∧ List.Forall₂ (fun old new =>
      (∀ entry ∈ texts, entry.1 ≠ old.id) ∧ new = old ∨
        ∃ text, (old.id, text) ∈ texts ∧ new = old.withText text)
      project.documents next.documents := by
  rw [withTexts_eq] at h
  obtain ⟨docs, hdocs, h⟩ := bind_eq_ok_iff.mp h
  obtain rfl := pure_eq_ok_iff.mp h
  have hmade := mapM_eq_ok_iff.mp hdocs
  refine ⟨nextId_foldl_replace docs project, ?_⟩
  rw [documents_foldl_replace, List.forall₂_map_right_iff, List.forall₂_same]
  intro old hold
  cases hfound : docs.reverse.find? (·.id == old.id) with
  | none =>
      refine .inl ⟨fun entry hmem heq => ?_, rfl⟩
      obtain ⟨new, hnew, hresult⟩ := exists_left_of_mem hmade.flip hmem
      obtain ⟨doc, -, hid, rfl⟩ := changed_eq_ok_iff.mp hresult
      have hnone := List.find?_eq_none.mp hfound _ (List.mem_reverse.mpr hnew)
      exact hnone (beq_iff_eq.mpr (hid.trans heq))
  | some new =>
      have hmem := List.mem_reverse.mp (List.mem_of_find?_eq_some hfound)
      have hsame : new.id = old.id :=
        beq_iff_eq.mp (List.find?_some (p := fun doc : Document => doc.id == old.id) hfound)
      obtain ⟨entry, hentryMem, hresult⟩ := exists_left_of_mem hmade hmem
      obtain ⟨doc, hdoc, hid, rfl⟩ := changed_eq_ok_iff.mp hresult
      obtain rfl := eq_of_id_eq hdoc hold hsame
      exact .inr ⟨entry.2, hid ▸ hentryMem, rfl⟩

end CSharpKit.Workspace.Project
