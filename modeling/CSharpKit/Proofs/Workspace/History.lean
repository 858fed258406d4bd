import CSharpKit.Proofs.Workspace.Documents

/-!
# Projects and what they went through

A project comes from the empty one, or from a list of sources, by changes that add a
document or give documents new texts. Each change is made as a whole or not at all,
and touches no document but those it names.
-/

namespace CSharpKit.Workspace

open Syntax Text Outcome

/-- A change of a project. One new tree is a list of one. -/
inductive Change where
  | add (name text : String)
  | setText (id : DocumentId) (text : String)
  | setRoots (roots : List (DocumentId × Tree))

namespace Change

/-- The project after a change, or why it is not made. -/
def run (p : Project) : Change → Except ProjectError Project
  | .add name text => Prod.fst <$> p.add name text
  | .setText id text => p.withText id text
  | .setRoots roots => p.withRoots roots

/-- The numbers of the documents that a change is about. -/
def named (p : Project) : Change → List DocumentId
  | .add _ _ => [p.nextId]
  | .setText id _ => [id]
  | .setRoots roots => roots.map (·.1)

/-- Whether a change can be made: a new name is not taken, and a number is known. -/
def Fits (p : Project) : Change → Prop
  | .add name _ => ∀ doc ∈ p.documents, doc.name ≠ name
  | .setText id _ => (p.document? id).isSome
  | .setRoots roots => ∀ entry ∈ roots, (p.document? entry.1).isSome

/-- The text that a change puts under a number, the last one of several. -/
def text? (p : Project) (id : DocumentId) : Change → Option String
  | .add _ text => if p.nextId = id then some text else none
  | .setText id' text => if id' = id then some text else none
  | .setRoots roots => (roots.reverse.lookup id).map Tree.text

end Change

/-- Projects that changes lead to. -/
inductive Reachable : Project → Prop
  | empty : Reachable .empty
  | read {sources : List (String × String)} {p : Project} (h : Project.ofSources sources = .ok p) :
      Reachable p
  | change {p next : Project} (hp : Reachable p) (c : Change) (h : c.run p = .ok next) :
      Reachable next

namespace Project

/-- What holds of a project at any time: the documents stand under their own numbers,
which are below the next one, no name is used twice, and tree, complaints and lines are
those of the text. -/
structure Sound (p : Project) : Prop where
  listed : ∀ doc ∈ p.documents, p.document? doc.id = some doc
  numbered : ∀ id doc, p.document? id = some doc → doc.id = id ∧ id < p.nextId
  named : (p.documents.map (·.name)).Nodup
  read : ∀ doc ∈ p.documents, doc.root = .root (parse doc.text).tree ∧
    doc.errors = (parse doc.text).errors ∧ doc.lines = Lines.ofText doc.text

variable {p next : Project} {id : DocumentId}

theorem Sound.of_nodup (h : (p.documents.map (·.name)).Nodup) : p.Sound where
  listed _ hdoc := document?_of_mem hdoc
  numbered id doc hdoc := by
    obtain ⟨hmem, rfl⟩ := mem_of_document? hdoc
    exact ⟨rfl, p.ids_below doc hmem⟩
  named := h
  read doc _ := by
    refine ⟨?_, ?_, doc.lines_eq⟩
    · rw [Document.root, doc.parsed_eq]
    · rw [Document.errors, doc.parsed_eq]

/-! ## New texts -/

theorem isSome_document?_iff : (p.document? id).isSome ↔ ∃ doc ∈ p.documents, doc.id = id := by
  constructor
  · intro h
    obtain ⟨doc, hdoc⟩ := Option.isSome_iff_exists.mp h
    exact ⟨doc, mem_of_document? hdoc⟩
  · rintro ⟨doc, hdoc, rfl⟩
    rw [document?_of_mem hdoc]
    rfl

theorem withTexts_ok_iff {texts : List (DocumentId × String)} :
    (∃ next, p.withTexts texts = .ok next) ↔ ∀ entry ∈ texts, (p.document? entry.1).isSome := by
  constructor
  · rintro ⟨next, h⟩ entry hentry
    obtain ⟨docs, hdocs, -⟩ := bind_eq_ok_iff.mp (withTexts_eq p texts ▸ h)
    obtain ⟨new, -, hnew⟩ := exists_left_of_mem (mapM_eq_ok_iff.mp hdocs).flip hentry
    obtain ⟨doc, hdoc, hid, -⟩ := changed_eq_ok_iff.mp hnew
    exact isSome_document?_iff.mpr ⟨doc, hdoc, hid⟩
  · exact fun h => withTexts_ok fun entry hentry => isSome_document?_iff.mp (h entry hentry)

/-- Of the documents made of a list of texts, the first one under a number has the first
text for it. -/
theorem find?_changed {texts : List (DocumentId × String)} {docs : List Document} {old : Document}
    (hold : old ∈ p.documents) (h : List.Forall₂ (fun entry new => p.changed entry = .ok new) texts docs) :
    docs.find? (·.id == old.id) = (texts.lookup old.id).map old.withText := by
  induction h with
  | nil => rfl
  | @cons entry new texts docs hnew _ ih =>
      obtain ⟨doc, hdoc, hid, rfl⟩ := changed_eq_ok_iff.mp hnew
      rw [List.find?_cons, List.lookup_cons]
      by_cases hsame : doc.id = old.id
      · obtain rfl := eq_of_id_eq hdoc hold hsame
        simp [Document.withText, Document.read, hid]
      · have hother : (old.id == entry.1) = false := by
          rw [← hid]
          exact beq_eq_false_iff_ne.mpr fun heq => hsame heq.symm
        have hnew : ((doc.withText entry.2).id == old.id) = false := beq_eq_false_iff_ne.mpr hsame
        simp only [hother, hnew]
        exact ih

theorem documents_withTexts {texts : List (DocumentId × String)}
    (h : p.withTexts texts = .ok next) :
    next.documents = p.documents.map fun old =>
      ((texts.reverse.lookup old.id).map old.withText).getD old := by
  obtain ⟨docs, hdocs, hnext⟩ := bind_eq_ok_iff.mp (withTexts_eq p texts ▸ h)
  obtain rfl := pure_eq_ok_iff.mp hnext
  rw [documents_foldl_replace]
  refine List.map_congr_left fun old hold => ?_
  rw [find?_changed hold (List.forall₂_reverse_iff.mpr (mapM_eq_ok_iff.mp hdocs))]

/-- Under each number stands what stood there, with the last text that is given for it. -/
theorem document?_withTexts {texts : List (DocumentId × String)}
    (h : p.withTexts texts = .ok next) (id : DocumentId) :
    next.document? id = (p.document? id).map fun old =>
      ((texts.reverse.lookup id).map old.withText).getD old := by
  have hid (old : Document) :
      (((texts.reverse.lookup old.id).map old.withText).getD old).id = old.id := by
    cases texts.reverse.lookup old.id with
    | none => rfl
    | some text => rfl
  rw [document?, documents_withTexts h, List.find?_map, document?]
  simp only [Function.comp_def, hid]
  refine Option.map_congr fun old hold => ?_
  rw [(mem_of_document? hold).2]

theorem names_withTexts {texts : List (DocumentId × String)} (h : p.withTexts texts = .ok next) :
    next.documents.map (·.name) = p.documents.map (·.name) := by
  rw [documents_withTexts h, List.map_map]
  refine List.map_congr_left fun old _ => ?_
  cases hlast : texts.reverse.lookup old.id with
  | none => simp [hlast]
  | some text => simp [hlast, Document.withText, Document.read]

theorem withText_eq (p : Project) (id : DocumentId) (text : String) :
    p.withText id text = p.withTexts [(id, text)] := by
  rw [withTexts_eq, withText, List.mapM_cons, changed]
  cases p.document? id with
  | none => rfl
  | some doc => rfl

/-! ## New documents -/

theorem add_eq_ok_iff {name text : String} :
    (∃ result, p.add name text = .ok result) ↔ ∀ doc ∈ p.documents, doc.name ≠ name := by
  have hname : (p.documentByName? name).isSome = true ↔ ∃ doc ∈ p.documents, doc.name = name := by
    simp [documentByName?, List.find?_isSome]
  rw [add]
  split
  · next htaken =>
    obtain ⟨doc, hdoc, heq⟩ := hname.mp htaken
    exact ⟨by rintro ⟨_, ⟨⟩⟩, fun h => absurd heq (h doc hdoc)⟩
  · next hfree =>
    exact ⟨fun _ doc hdoc heq => hfree (hname.mpr ⟨doc, hdoc, heq⟩), fun _ => ⟨_, rfl⟩⟩

theorem documents_add {name text : String} {new : DocumentId} (h : p.add name text = .ok (next, new)) :
    next.documents = p.documents ++ [Document.read p.nextId name text 0] ∧
      next.nextId = p.nextId + 1 ∧ new = p.nextId := by
  rw [add] at h
  split at h
  · cases h
  · cases h
    exact ⟨rfl, rfl, rfl⟩

theorem document?_add {name text : String} {new : DocumentId} (h : p.add name text = .ok (next, new))
    (id : DocumentId) : next.document? id = (p.document? id).or
      (if p.nextId = id then some (Document.read p.nextId name text 0) else none) := by
  rw [document?, (documents_add h).1, List.find?_append, document?]
  congr 1
  by_cases hid : p.nextId = id <;> simp [hid, Document.read]

theorem document?_nextId (p : Project) : p.document? p.nextId = none := by
  refine List.find?_eq_none.mpr fun doc hdoc heq => ?_
  exact absurd (beq_iff_eq.mp heq) (Nat.ne_of_lt (p.ids_below doc hdoc))

theorem nodup_add {name text : String} {new : DocumentId} (hp : (p.documents.map (·.name)).Nodup)
    (h : p.add name text = .ok (next, new)) : (next.documents.map (·.name)).Nodup := by
  have hfree := add_eq_ok_iff.mp ⟨_, h⟩
  rw [(documents_add h).1, List.map_append, List.nodup_append]
  refine ⟨hp, List.nodup_cons.mpr ⟨List.not_mem_nil, .nil⟩, fun a ha b hb => ?_⟩
  obtain ⟨doc, hdoc, rfl⟩ := List.mem_map.mp ha
  obtain rfl : b = name := List.mem_singleton.mp hb
  exact hfree doc hdoc

/-! ## Lists of sources -/

/-- The documents of a list of sources, numbered from a place on. -/
def readFrom (first : DocumentId) (sources : List (String × String)) : List Document :=
  sources.zipIdx first |>.map fun (source, id) => Document.read id source.1 source.2 0

theorem foldlM_add_eq_ok {sources : List (String × String)}
    (h : sources.foldlM (fun p (name, text) => do return (← p.add name text).1) p = .ok next) :
    next.documents = p.documents ++ readFrom p.nextId sources := by
  induction sources generalizing p with
  | nil =>
      obtain rfl : p = next := by simpa using h
      simp [readFrom]
  | cons source sources ih =>
      obtain ⟨name, text⟩ := source
      rw [List.foldlM_cons] at h
      obtain ⟨mid, hmid, h⟩ := bind_eq_ok_iff.mp h
      obtain ⟨⟨q, new⟩, hadd, hq⟩ := bind_eq_ok_iff.mp hmid
      obtain rfl := pure_eq_ok_iff.mp hq
      obtain ⟨hdocuments, hnext, -⟩ := documents_add hadd
      rw [ih h, hdocuments, hnext]
      simp [readFrom, List.zipIdx_cons]

theorem documents_ofSources {sources : List (String × String)} (h : ofSources sources = .ok p) :
    p.documents = readFrom 0 sources := by
  simpa [empty] using foldlM_add_eq_ok h

theorem nodup_ofSources {sources : List (String × String)} (h : ofSources sources = .ok p) :
    (p.documents.map (·.name)).Nodup := by
  have hempty : (empty.documents.map (·.name)).Nodup := List.nodup_nil
  refine foldlM_keeps (P := fun p : Project => (p.documents.map (·.name)).Nodup) ?_ hempty h
  rintro ⟨name, text⟩ - p q hp hstep
  obtain ⟨⟨q', new⟩, hadd, hq⟩ := bind_eq_ok_iff.mp hstep
  obtain rfl := pure_eq_ok_iff.mp hq
  exact nodup_add hp hadd

end Project

/-! ## Changes -/

namespace Change

variable {p next : Project}

theorem run_setRoots (p : Project) (roots : List (DocumentId × Tree)) :
    (setRoots roots).run p = p.withTexts (roots.map fun entry => (entry.1, entry.2.text)) := rfl

theorem ok_iff_fits (p : Project) (c : Change) : (∃ next, c.run p = .ok next) ↔ c.Fits p := by
  cases c with
  | add name text =>
      have hadd : (∃ result, p.add name text = .ok result) ↔ ∀ doc ∈ p.documents, doc.name ≠ name :=
        Project.add_eq_ok_iff
      rw [Fits, ← hadd]
      constructor
      · rintro ⟨next, h⟩
        obtain ⟨result, hresult, -⟩ := map_eq_ok_iff.mp h
        exact ⟨result, hresult⟩
      · rintro ⟨result, h⟩
        exact ⟨result.1, map_eq_ok_iff.mpr ⟨result, h, rfl⟩⟩
  | setText id text =>
      simp [run, Project.withText_eq, Project.withTexts_ok_iff, Fits]
  | setRoots roots =>
      rw [run_setRoots, Project.withTexts_ok_iff, List.forall_mem_map, Fits]

theorem nodup {c : Change} (hp : (p.documents.map (·.name)).Nodup) (h : c.run p = .ok next) :
    (next.documents.map (·.name)).Nodup := by
  cases c with
  | add name text =>
      obtain ⟨⟨q, new⟩, hadd, rfl⟩ := map_eq_ok_iff.mp h
      exact Project.nodup_add hp hadd
  | setText id text =>
      rw [run, Project.withText_eq] at h
      rwa [Project.names_withTexts h]
  | setRoots roots =>
      rw [run_setRoots] at h
      rwa [Project.names_withTexts h]

theorem lookup_map_text (roots : List (DocumentId × Tree)) (id : DocumentId) :
    (roots.map fun entry => (entry.1, entry.2.text)).lookup id = (roots.lookup id).map Tree.text := by
  induction roots with
  | nil => rfl
  | cons entry roots ih =>
      rw [List.map_cons, List.lookup_cons, List.lookup_cons, ih]
      cases id == entry.1 <;> rfl

/-- Documents that a change is not about stay what they are. -/
theorem document?_of_not_named {c : Change} {id : DocumentId} (h : c.run p = .ok next)
    (hid : id ∉ c.named p) : next.document? id = p.document? id := by
  cases c with
  | add name text =>
      obtain ⟨⟨q, new⟩, hadd, rfl⟩ := map_eq_ok_iff.mp h
      have hne : p.nextId ≠ id := fun heq => hid (List.mem_singleton.mpr heq.symm)
      rw [Project.document?_add hadd, if_neg hne, Option.or_none]
  | setText id' text =>
      have hne : (id == id') = false := beq_eq_false_iff_ne.mpr fun heq => hid (List.mem_singleton.mpr heq)
      rw [run, Project.withText_eq] at h
      rw [Project.document?_withTexts h, List.reverse_singleton, List.lookup_cons, hne]
      simp
  | setRoots roots =>
      have hnone : roots.reverse.lookup id = none := by
        refine List.lookup_eq_none_iff.mpr fun entry hentry => bne_iff_ne.mpr ?_
        rintro rfl
        exact hid (List.mem_map_of_mem (List.mem_reverse.mp hentry))
      rw [run_setRoots] at h
      rw [Project.document?_withTexts h, ← List.map_reverse, lookup_map_text, hnone]
      simp

/-- A document that a change is about has the last text given for it, under the name
that it had. -/
theorem exists_of_named {c : Change} {id : DocumentId} (h : c.run p = .ok next)
    (hid : id ∈ c.named p) : ∃ doc, next.document? id = some doc ∧ c.text? p id = some doc.text ∧
      ∀ old, p.document? id = some old → doc.name = old.name := by
  have hfits := (ok_iff_fits p c).mp ⟨next, h⟩
  cases c with
  | add name text =>
      obtain ⟨⟨q, new⟩, hadd, rfl⟩ := map_eq_ok_iff.mp h
      obtain rfl : id = p.nextId := List.mem_singleton.mp hid
      refine ⟨Document.read p.nextId name text 0, ?_, ?_, fun old hold => ?_⟩
      · rw [Project.document?_add hadd, Project.document?_nextId, if_pos rfl, Option.none_or]
      · rw [text?, if_pos rfl]
        rfl
      · rw [Project.document?_nextId] at hold
        cases hold
  | setText id' text =>
      obtain rfl : id = id' := List.mem_singleton.mp hid
      obtain ⟨old, hold⟩ := Option.isSome_iff_exists.mp hfits
      rw [run, Project.withText_eq] at h
      refine ⟨old.withText text, ?_, ?_, fun old' hold' => ?_⟩
      · rw [Project.document?_withTexts h, hold]
        simp
      · rw [text?, if_pos rfl]
        rfl
      · rw [← Option.some.inj (hold.symm.trans hold')]
        rfl
  | setRoots roots =>
      obtain ⟨entry, hentry, rfl⟩ := List.mem_map.mp hid
      obtain ⟨old, hold⟩ := Option.isSome_iff_exists.mp (hfits entry hentry)
      have hgiven : (roots.reverse.lookup entry.1).isSome := by
        rw [List.lookup_isSome_iff]
        exact ⟨entry, List.mem_reverse.mpr hentry, beq_self_eq_true _⟩
      obtain ⟨root, hroot⟩ := Option.isSome_iff_exists.mp hgiven
      rw [run_setRoots] at h
      refine ⟨old.withText root.text, ?_, ?_, fun old' hold' => ?_⟩
      · rw [Project.document?_withTexts h, hold, ← List.map_reverse, lookup_map_text, hroot]
        rfl
      · rw [text?, hroot]
        rfl
      · rw [← Option.some.inj (hold.symm.trans hold')]
        rfl

end Change

theorem Reachable.nodup {p : Project} (h : Reachable p) : (p.documents.map (·.name)).Nodup := by
  induction h with
  | empty => exact List.nodup_nil
  | read h => exact Project.nodup_ofSources h
  | change _ c h ih => exact c.nodup ih h

/-- Wherever changes led to, the project is sound, and the next change is made exactly if
it fits. If it is made, the documents it is not about are what they were, and each one it
is about has its name still and the last text that is given for it. Sources that are read
become the documents of a project in their order. -/
theorem reachable_sound {p : Project} (h : Reachable p) :
    p.Sound ∧
      (∀ c : Change, ((∃ next, c.run p = .ok next) ↔ c.Fits p) ∧
        ∀ next, c.run p = .ok next →
          (∀ id ∉ c.named p, next.document? id = p.document? id) ∧
          ∀ id ∈ c.named p, ∃ doc, next.document? id = some doc ∧ c.text? p id = some doc.text ∧
            ∀ old, p.document? id = some old → doc.name = old.name) ∧
      ∀ sources q, Project.ofSources sources = .ok q → q.documents = Project.readFrom 0 sources := by
  refine ⟨.of_nodup h.nodup, fun c => ⟨c.ok_iff_fits p, fun next hrun => ?_⟩, fun _ _ hread =>
    Project.documents_ofSources hread⟩
  exact ⟨fun _ hid => c.document?_of_not_named hrun hid, fun _ hid => c.exists_of_named hrun hid⟩

/-- Two documents, of which the second one gets a new text twice at once. -/
theorem reachable_sound_twice :
    ∃ p next, Project.ofSources [("a.cs", "class A { }"), ("b.cs", "")] = .ok p ∧
      (Change.setRoots [(1, .token .whitespace " "), (1, .token .semicolon ";")]).run p = .ok next ∧
      Reachable next ∧ next.Sound ∧ (next.document? 0).map (·.text) = some "class A { }" ∧
      (next.document? 1).map (·.text) = some ";" := by
  obtain ⟨p, hp⟩ : ∃ p, Project.ofSources [("a.cs", "class A { }"), ("b.cs", "")] = .ok p := ⟨_, rfl⟩
  have hdocuments := Project.documents_ofSources hp
  let c := Change.setRoots [(1, .token .whitespace " "), (1, .token .semicolon ";")]
  have hfits : c.Fits p := by
    simp [c, Change.Fits, Project.document?, hdocuments, Project.readFrom, Document.read]
  obtain ⟨next, hnext⟩ := (c.ok_iff_fits p).mpr hfits
  have hreach : Reachable next := (Reachable.read hp).change c hnext
  obtain ⟨hkept, hgiven⟩ := ((reachable_sound (.read hp)).2.1 c).2 next hnext
  have hnamed : c.named p = [1, 1] := rfl
  obtain ⟨doc, hdoc, htext, -⟩ := hgiven 1 (by simp [hnamed])
  refine ⟨p, next, hp, hnext, hreach, (reachable_sound hreach).1, ?_, ?_⟩
  · rw [hkept 0 (by simp [hnamed])]
    simp [Project.document?, hdocuments, Project.readFrom, Document.read]
  · rw [hdoc, Option.map_some, ← htext]
    rfl

end CSharpKit.Workspace
