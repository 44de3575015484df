import Listfile.Proofs.Items

/-!
What an edit can do. An edit that succeeds revises one statement of its target, which may have been
created for it: a section is opened if there is none for the file, one section is changed, and the
statement is marked. An edit that answers no changes nothing.
-/

namespace Listfile

def Policy.order (p : Policy) (g : Section) : Section :=
  if p.sorting then g.resort p.collation else g

theorem Policy.order_keeps (p : Policy) (g : Section) :
    (p.order g).name = g.name ∧ (p.order g).keyword = g.keyword := by
  unfold order
  split <;> exact ⟨rfl, rfl⟩

theorem Slot.modifySection_comp (f g : Section → Section) (n : Nat) (slots : List Slot) :
    Slot.modifySection g n (Slot.modifySection f n slots) =
      Slot.modifySection (g ∘ f) n slots := by
  induction slots generalizing n with
  | nil => rfl
  | cons slot rest ih =>
    cases slot with
    | plain a => simp [Slot.modifySection, ih]
    | grouped s =>
      cases n with
      | zero => rfl
      | succ n => simp [Slot.modifySection, ih]

namespace Sources

/-- Opens a section if a name is given, changes the section at a position, and marks the
statement. -/
def revise (opened : Option Text) (separator : Text) (n : Nat) (f : Section → Section)
    (s : Sources) : Sources :=
  let prepared := match opened with
    | some name => s.addSection name separator
    | none => s
  { prepared.modifySection n f with dirty := true }

theorem revise_command (opened : Option Text) (separator : Text) (n : Nat)
    (f : Section → Section) (s : Sources) :
    (s.revise opened separator n f).command = s.command := by
  cases opened <;> rfl

theorem revise_target (opened : Option Text) (separator : Text) (n : Nat)
    (f : Section → Section) (s : Sources) :
    (s.revise opened separator n f).target = s.target := by
  cases opened <;> rfl

theorem revise_dirty (opened : Option Text) (separator : Text) (n : Nat)
    (f : Section → Section) (s : Sources) : (s.revise opened separator n f).dirty = true := rfl

end Sources

namespace Document

/-- The document with a change of one statement of a target, after which it is marked and the
listeners are called. -/
def amend (d : Document) (target : Text) (n : Nat) (f : Sources → Sources) : Document :=
  { d.withTarget target ((d.sourcesOf target).modify n f) with dirty := true }.notify

theorem changeSection_cases (d : Document) (target : Text) (candidates : List Sources)
    (place : Address) (f : Section → Section) (events : List Event) :
    (d.changeSection target candidates place f events).result = .error .nullInValue ∨
    (d.changeSection target candidates place f events).result = .ok true ∧
      (d.changeSection target candidates place f events).state =
        { d.withTarget target (candidates.modify place.statement
            (Sources.revise none [] place.sectionIndex (d.policy.order ∘ f))) with
          dirty := true }.notify := by
  have hrevise : (fun s : Sources =>
        { s.modifySection place.sectionIndex
            (fun g : Section => if d.policy.sorting then g.resort d.policy.collation else g) with
          dirty := true }) ∘
      (fun s => s.modifySection place.sectionIndex f) =
      Sources.revise none [] place.sectionIndex (d.policy.order ∘ f) := by
    funext s
    simp only [Function.comp_apply, Sources.revise, Sources.modifySection,
      Slot.modifySection_comp]
    rfl
  unfold changeSection
  simp only
  split
  · exact Or.inl rfl
  · refine Or.inr ⟨rfl, ?_⟩
    simp only [List.modify_modify_eq, hrevise]

/-- A section is opened only where nothing fits: in the first statement, under its default name,
unless a statement is preferred. -/
theorem choose_fresh {candidates : List Sources} {file : Text} {wanted : Option Text} {n : Nat}
    {name : Text} {events : List Event}
    (h : Placement.choose candidates file wanted = .ok (.fresh n name, events)) :
    ∃ s, candidates[n]? = some s ∧ (s.preferred = true ∨ name = s.defaultSection) ∧
      s.findSection? name = none := by
  have namedIn_fresh : ∀ {k m : Nat} {s : Sources} {wish found : Text},
      Placement.namedIn k s wish = .fresh m found →
        m = k ∧ found = wish ∧ s.findSection? wish = none := by
    intro k m s wish found hn
    unfold Placement.namedIn at hn
    split at hn
    · cases hn
    · next hnone =>
      cases hn
      exact ⟨rfl, rfl, hnone⟩
  unfold Placement.choose at h
  split at h
  · cases h
  next first rest =>
  split at h
  · next k s hp =>
    simp only [Except.ok.injEq, Prod.mk.injEq] at h
    obtain ⟨rfl, rfl, hnone⟩ := namedIn_fresh h.1
    obtain ⟨hpref, hmem⟩ : s.preferred = true ∧ (n, s) ∈ (first :: rest).mapIdx Prod.mk :=
      ⟨by simpa using List.find?_some hp, List.mem_of_find?_eq_some hp⟩
    obtain ⟨i, hi, heq⟩ := List.mem_mapIdx.mp hmem
    simp only [Prod.mk.injEq] at heq
    obtain ⟨rfl, rfl⟩ := heq
    exact ⟨(first :: rest)[i], List.getElem?_eq_getElem hi, Or.inl hpref, hnone⟩
  · simp only [Except.ok.injEq] at h
    unfold Placement.chooseByScore at h
    simp only at h
    split at h
    · cases h
    split at h
    · cases h
    split at h
    · cases h
    · next k found hn =>
      cases h
      obtain ⟨rfl, rfl, hnone⟩ := namedIn_fresh hn
      exact ⟨first, rfl, Or.inr rfl, hnone⟩

/-- Adding a file to a target that has sources revises one of its statements. -/
theorem addTo_cases (d : Document) (target file : Text) (hint : Option Text)
    (events : List Event) :
    (∃ fault, (d.addTo target file hint events).result = .error fault) ∨
    (d.addTo target file hint events).result = .ok true ∧ ∃ n opened i,
      (∀ name, opened = some name → ∃ s, (d.sourcesOf target)[n]? = some s ∧
        (s.preferred = true ∨ name = s.defaultSection) ∧ s.findSection? name = none) ∧
      (d.addTo target file hint events).state =
        d.amend target n (Sources.revise opened d.policy.separator i
          (d.policy.order ∘ appendFile d.policy.separator file)) := by
  unfold addTo
  simp only
  split
  · exact Or.inl ⟨_, rfl⟩
  · next choice chosen hc =>
    rcases changeSection_cases d target
      (Placement.settle (d.sourcesOf target) choice d.policy.separator).1
      (Placement.settle (d.sourcesOf target) choice d.policy.separator).2
      (appendFile d.policy.separator file)
      (events ++ chosen ++ addedEvents
        (Placement.settle (d.sourcesOf target) choice d.policy.separator).1
        (Placement.settle (d.sourcesOf target) choice d.policy.separator).2 file target)
      with herr | ⟨hok, hstate⟩
    · exact Or.inl ⟨_, herr⟩
    · refine Or.inr ⟨hok, ?_⟩
      cases choice with
      | existing place =>
        refine ⟨place.statement, none, place.sectionIndex, by simp, ?_⟩
        rw [hstate]
        rfl
      | fresh n name =>
        refine ⟨n, some name, ((d.sourcesOf target)[n]?.map fun s => s.sections.length).getD 0,
          ?_, ?_⟩
        · rintro _ ⟨⟩
          exact choose_fresh hc
        · rw [hstate]
          simp only [Placement.settle, List.modify_modify_eq]
          rfl

theorem addFile_cases (d : Document) (target file : Text) (hint : Option Text) :
    (∃ fault, (d.addFile target file hint).result = .error fault) ∨
    ((d.addFile target file hint).result = .ok false ∧
      (d.addFile target file hint).state = d) ∨
    (d.addFile target file hint).result = .ok true ∧ d.loaded = true ∧ file ≠ [] ∧ ∃ d₁ n opened i,
      ((d.sourcesOf target ≠ [] ∧ d₁ = d) ∨
        (d.sourcesOf target = [] ∧ d.policy.creating = true ∧
          d₁ = { d with pending := d.pending ++ [d.newBlock target] })) ∧
      (∀ name, opened = some name → ∃ s, (d₁.sourcesOf target)[n]? = some s ∧
        (s.preferred = true ∨ name = s.defaultSection) ∧ s.findSection? name = none) ∧
      (d.addFile target file hint).state =
        d₁.amend target n (Sources.revise opened d.policy.separator i
          (d.policy.order ∘ appendFile d.policy.separator file)) := by
  unfold addFile
  split
  · exact Or.inr (Or.inl ⟨rfl, rfl⟩)
  next hloaded =>
  split
  · exact Or.inr (Or.inl ⟨rfl, rfl⟩)
  next hfile =>
  have loaded : d.loaded = true := by simpa using hloaded
  have named : file ≠ [] := by simpa using hfile
  split
  · next hsome =>
    rcases addTo_cases d target file hint [] with herr | ⟨hok, n, opened, i, hopened, hstate⟩
    · exact Or.inl herr
    · exact Or.inr (Or.inr ⟨hok, loaded, named, d, n, opened, i,
        Or.inl ⟨by simpa using hsome, rfl⟩, hopened, hstate⟩)
  next hnone =>
  split
  · next hcreating =>
    rcases addTo_cases { d with pending := d.pending ++ [d.newBlock target] } target file hint
      [.blockCreated Classify.targetSources target] with
      herr | ⟨hok, n, opened, i, hopened, hstate⟩
    · exact Or.inl herr
    · exact Or.inr (Or.inr ⟨hok, loaded, named, _, n, opened, i,
        Or.inr ⟨by simpa using hnone, hcreating, rfl⟩, hopened, hstate⟩)
  · exact Or.inr (Or.inl ⟨rfl, rfl⟩)

theorem changeFile_cases (d : Document) (target file : Text) (f : Nat → Section → Section) :
    (∃ fault, (d.changeFile target file f).result = .error fault) ∨
    ((d.changeFile target file f).result = .ok false ∧ (d.changeFile target file f).state = d) ∨
    (d.changeFile target file f).result = .ok true ∧ ∃ n i k,
      (d.changeFile target file f).state =
        d.amend target n (Sources.revise none [] i (d.policy.order ∘ f k)) := by
  unfold changeFile
  simp only
  split
  · exact Or.inr (Or.inl ⟨rfl, rfl⟩)
  split
  · exact Or.inr (Or.inl ⟨rfl, rfl⟩)
  · next place k _ =>
    rcases changeSection_cases d target (d.sourcesOf target) place (f k) [] with
      herr | ⟨hok, hstate⟩
    · exact Or.inl ⟨_, herr⟩
    · exact Or.inr (Or.inr ⟨hok, place.statement, place.sectionIndex, k, hstate⟩)

def renameAt (new : Text) (k : Nat) (s : Section) : Section :=
  { s with files := s.files.modify k (renameArgument new) }

def removeAt (k : Nat) (s : Section) : Section := { s with files := s.files.eraseIdx k }

theorem renameFile_cases (d : Document) (target old new : Text) :
    (∃ fault, (d.renameFile target old new).result = .error fault) ∨
    ((d.renameFile target old new).result = .ok false ∧
      (d.renameFile target old new).state = d) ∨
    (d.renameFile target old new).result = .ok true ∧ d.loaded = true ∧ new ≠ [] ∧ ∃ n i k,
      (d.renameFile target old new).state =
        d.amend target n (Sources.revise none [] i (d.policy.order ∘ renameAt new k)) := by
  unfold renameFile
  split
  · exact Or.inr (Or.inl ⟨rfl, rfl⟩)
  next hloaded =>
  split
  · exact Or.inr (Or.inl ⟨rfl, rfl⟩)
  next hnew =>
  rcases changeFile_cases d target old (renameAt new) with herr | hno | ⟨hok, n, i, k, hstate⟩
  · exact Or.inl herr
  · exact Or.inr (Or.inl hno)
  · exact Or.inr (Or.inr ⟨hok, by simpa using hloaded, by simpa using hnew, n, i, k, hstate⟩)

theorem removeFile_cases (d : Document) (target file : Text) :
    (∃ fault, (d.removeFile target file).result = .error fault) ∨
    ((d.removeFile target file).result = .ok false ∧ (d.removeFile target file).state = d) ∨
    (d.removeFile target file).result = .ok true ∧ d.loaded = true ∧ ∃ n i k,
      (d.removeFile target file).state =
        d.amend target n (Sources.revise none [] i (d.policy.order ∘ removeAt k)) := by
  unfold removeFile
  split
  · exact Or.inr (Or.inl ⟨rfl, rfl⟩)
  next hloaded =>
  rcases changeFile_cases d target file removeAt with herr | hno | ⟨hok, n, i, k, hstate⟩
  · exact Or.inl herr
  · exact Or.inr (Or.inl hno)
  · exact Or.inr (Or.inr ⟨hok, by simpa using hloaded, n, i, k, hstate⟩)

end Document

end Listfile
