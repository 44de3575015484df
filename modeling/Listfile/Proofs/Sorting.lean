import Listfile.Proofs.Comments
import Mathlib.Data.List.Lex
import Mathlib.Data.Prod.Lex

/-!
Sorting the files of a section. Files are ordered by a key, and those of the same key stay in the
order they had. Each takes its layout along, but for the layout of the first place, which stays
there unless a comment is involved. What is sorted once is sorted.
-/

namespace Listfile

def Argument.spelling (a : Argument) : Text × Bool × Option Text := (a.value, a.quoted, a.raw)

theorem Text.le_iff (s t : Text) : s.le t = true ↔ s.map Glyph.code ≤ t.map Glyph.code := by
  induction s generalizing t with
  | nil => simp [Text.le, ← not_lt]
  | cons g s ih =>
    cases t with
    | nil => simp [Text.le, ← not_lt]
    | cons h t =>
      simp only [Text.le, Bool.or_eq_true, Bool.and_eq_true, decide_eq_true_eq, beq_iff_eq, ih,
        List.map_cons, ← not_lt, List.cons_lt_cons_iff]
      rcases Nat.lt_trichotomy g.code h.code with hlt | heq | hlt
      · simp [hlt, hlt.not_gt, hlt.ne']
      · simp [heq]
      · simp [hlt, hlt.not_gt, hlt.ne']

namespace Section

variable {key : Text → Text}

/-- What a name is sorted by: names with a path separator come first, and then the codes of the
glyphs of its key decide. -/
def fileKey (key : Text → Text) (name : Text) : Bool ×ₗ List Nat :=
  toLex (!hasPathSeparator name, (key name).map Glyph.code)

theorem fileLe_iff (key : Text → Text) (a b : Argument) :
    fileLe key a b = true ↔ fileKey key a.value ≤ fileKey key b.value := by
  rw [fileKey, fileKey, Prod.Lex.toLex_le_toLex, ← Text.le_iff]
  unfold fileLe
  cases hasPathSeparator a.value <;> cases hasPathSeparator b.value <;> simp

/-- Numbered files in order: by their keys, and files of one key by their numbers. -/
def Precedes (key : Text → Text) (p q : Nat × Argument) : Prop :=
  fileKey key p.2.value < fileKey key q.2.value ∨
    fileKey key p.2.value = fileKey key q.2.value ∧ p.1 < q.1

theorem Precedes.key_le {p q : Nat × Argument} (h : Precedes key p q) :
    fileKey key p.2.value ≤ fileKey key q.2.value := by
  rcases h with h | ⟨h, -⟩
  · exact h.le
  · exact h.le

theorem precedes_of_le {p q : Nat × Argument} (le : fileKey key p.2.value ≤ fileKey key q.2.value)
    (number : p.1 < q.1) : Precedes key p q := by
  rcases le.lt_or_eq with h | h
  · exact Or.inl h
  · exact Or.inr ⟨h, number⟩

theorem not_precedes_symm {p q : Nat × Argument} (h : Precedes key p q) (k : Precedes key q p) :
    False := by
  rcases h with hlt | ⟨heq, hlt⟩
  · exact absurd k.key_le (not_le.mpr hlt)
  · rcases k with klt | ⟨-, klt⟩
    · exact absurd heq.le (not_le.mpr klt)
    · omega

theorem pairwise_insertFile {a : Nat × Argument} {l : List (Nat × Argument)}
    (sorted : l.Pairwise (Precedes key)) (number : ∀ q ∈ l, a.1 < q.1) :
    (insertFile key a l).Pairwise (Precedes key) := by
  induction l with
  | nil => simp [insertFile]
  | cons b rest ih =>
    obtain ⟨hb, hrest⟩ := List.pairwise_cons.mp sorted
    obtain ⟨hab, hnumber⟩ := List.forall_mem_cons.mp number
    rw [insertFile]
    split
    · next hle =>
      have le := (fileLe_iff key a.2 b.2).mp hle
      refine List.pairwise_cons.mpr ⟨?_, sorted⟩
      intro q hq
      rcases List.mem_cons.mp hq with rfl | hq
      · exact precedes_of_le le hab
      · exact precedes_of_le (le.trans (hb q hq).key_le) (hnumber q hq)
    · next hle =>
      have lt : fileKey key b.2.value < fileKey key a.2.value := by
        rwa [fileLe_iff, not_le] at hle
      refine List.pairwise_cons.mpr ⟨?_, ih hrest hnumber⟩
      intro q hq
      rcases mem_insertFile hq with rfl | hq
      · exact Or.inl lt
      · exact hb q hq

theorem pairwise_numbers (files : List Argument) :
    (files.mapIdx Prod.mk).Pairwise fun p q => p.1 < q.1 := by
  simp [List.pairwise_iff_getElem]

theorem pairwise_sortedFiles (key : Text → Text) (files : List Argument) :
    (sortedFiles key files).Pairwise (Precedes key) := by
  have sorted : ∀ l : List (Nat × Argument), l.Pairwise (fun p q => p.1 < q.1) →
      (l.foldr (insertFile key) []).Pairwise (Precedes key) := by
    intro l
    induction l with
    | nil => simp
    | cons a l ih =>
      intro h
      obtain ⟨ha, hl⟩ := List.pairwise_cons.mp h
      refine pairwise_insertFile (ih hl) ?_
      intro q hq
      exact ha q ((perm_foldr_insertFile key l).subset hq)
  exact sorted _ (pairwise_numbers files)

/-- Numbered files can be put in order in one way only. -/
theorem eq_sortedFiles {files : List Argument} {order : List (Nat × Argument)}
    (perm : order.Perm (files.mapIdx Prod.mk)) (ordered : order.Pairwise (Precedes key)) :
    order = sortedFiles key files := by
  refine (perm.trans (perm_numbered key files).symm).eq_of_pairwise ?_ ordered
    (pairwise_sortedFiles key files)
  intro p q _ _ hpq hqp
  exact (not_precedes_symm hpq hqp).elim

theorem sortedFiles_of_sorted {files : List Argument}
    (h : files.Pairwise fun a b => fileKey key a.value ≤ fileKey key b.value) :
    sortedFiles key files = files.mapIdx Prod.mk := by
  refine (eq_sortedFiles (.refl _) ?_).symm
  have keys : (files.mapIdx Prod.mk).Pairwise
      fun p q => fileKey key p.2.value ≤ fileKey key q.2.value := by
    rwa [← map_numbered files, List.pairwise_map] at h
  exact keys.imp₂ (fun _ _ => precedes_of_le) (pairwise_numbers files)

theorem sortFiles_of_sorted {files : List Argument}
    (h : files.Pairwise fun a b => fileKey key a.value ≤ fileKey key b.value) :
    sortFiles key files = files := by
  cases files with
  | nil => rfl
  | cons first rest =>
    rw [sortFiles, sortedFiles_of_sorted h, List.mapIdx_cons, restoreLayout]
    simp [List.mapIdx_eq_zipIdx_map, Function.comp_def]

theorem spellings_restoreLayout (oldFirst : Argument) (sorted : List (Nat × Argument)) :
    (restoreLayout oldFirst sorted).map Argument.spelling = sorted.map (·.2.spelling) := by
  fun_cases restoreLayout oldFirst sorted with
  | case1 => rfl
  | case2 first rest => simp
  | case3 n first rest _ => simp
  | case4 n first rest _ =>
    simp only [List.map_cons, List.map_map, Argument.spelling, List.cons.injEq, true_and]
    apply List.map_congr_left
    rintro ⟨m, a⟩ _
    simp only [Function.comp_apply]
    split <;> rfl

theorem spellings_sortFiles (key : Text → Text) (files : List Argument) :
    (sortFiles key files).map Argument.spelling = (sortedFiles key files).map (·.2.spelling) := by
  cases files with
  | nil => rfl
  | cons first rest => exact spellings_restoreLayout first _

theorem pairwise_sortFiles (key : Text → Text) (files : List Argument) :
    (sortFiles key files).Pairwise fun a b => fileKey key a.value ≤ fileKey key b.value := by
  have keys := (pairwise_sortedFiles key files).imp Precedes.key_le
  have spelled : ((sortFiles key files).map Argument.spelling).Pairwise
      fun a b => fileKey key a.1 ≤ fileKey key b.1 := by
    rw [spellings_sortFiles]
    exact List.pairwise_map.mpr keys
  rwa [List.pairwise_map] at spelled

theorem sortFiles_sortFiles (key : Text → Text) (files : List Argument) :
    sortFiles key (sortFiles key files) = sortFiles key files :=
  sortFiles_of_sorted (pairwise_sortFiles key files)

/-- How files and their layout are rearranged. The files come with the positions they had. -/
structure Rearranges (key : Text → Text) (files sorted : List Argument)
    (order : List (Nat × Argument)) : Prop where
  perm : order.Perm (files.mapIdx Prod.mk)
  ordered : order.Pairwise (Precedes key)
  spelled : sorted.map Argument.spelling = order.map (·.2.spelling)
  separators : (sorted.map (·.separator)).Perm (files.map (·.separator))
  /-- A file keeps its layout if a comment is in it, or if the file was not first and is not. -/
  kept : List.Forall₂ (fun p a => hasComment p.2.separator = true ∨
      p.1 ≠ 0 ∧ (∀ q, order.head? = some q → p.1 ≠ q.1) → a.separator = p.2.separator) order sorted
  /-- The first place keeps its layout unless a comment stands in the way. -/
  first : ∀ old new, files.head? = some old → order.head? = some new →
    hasComment old.separator = false → hasComment new.2.separator = false →
    sorted.head?.map (·.separator) = some old.separator

theorem eq_of_mem_sortedFiles {first a : Argument} {rest : List Argument}
    (h : (0, a) ∈ sortedFiles key (first :: rest)) : a = first := by
  obtain ⟨i, hi, heq⟩ := List.mem_mapIdx.mp ((perm_numbered key _).subset h)
  obtain ⟨rfl, rfl⟩ := Prod.mk.inj heq
  rfl

/-- Whatever its layout becomes, a file with a comment keeps it, and so does any file but two. -/
theorem kept_restoreLayout {oldFirst : Argument} {sorted : List (Nat × Argument)}
    (zero : ∀ a, (0, a) ∈ sorted → a = oldFirst) :
    List.Forall₂ (fun p a => hasComment p.2.separator = true ∨
        p.1 ≠ 0 ∧ (∀ q, sorted.head? = some q → p.1 ≠ q.1) → a.separator = p.2.separator)
      sorted (restoreLayout oldFirst sorted) := by
  have same : ∀ (l : List (Nat × Argument)) (P : Nat × Argument → Prop),
      List.Forall₂ (fun p a => P p → a.separator = p.2.separator) l (l.map (·.2)) := by
    intro l P
    exact List.forall₂_map_right_iff.mpr (List.forall₂_same.mpr fun p _ _ => rfl)
  fun_cases restoreLayout oldFirst sorted with
  | case1 => exact .nil
  | case2 first rest => exact same ((0, first) :: rest) _
  | case3 n first rest _ => exact same ((n + 1, first) :: rest) _
  | case4 n first rest uncommented =>
    simp only [Bool.or_eq_true, not_or, Bool.not_eq_true] at uncommented
    refine .cons ?_ (List.forall₂_map_right_iff.mpr (List.forall₂_same.mpr ?_))
    · rintro (comment | ⟨-, away⟩)
      · rw [uncommented.2] at comment
        cases comment
      · exact absurd rfl (away (n + 1, first) rfl)
    · rintro ⟨m, a⟩ ha hkept
      by_cases hm : m = 0
      · -- The file that was first: it takes part in the exchange only without a comment.
        subst hm
        obtain rfl := zero a (.tail _ ha)
        rcases hkept with comment | ⟨away, -⟩
        · rw [uncommented.1] at comment
          cases comment
        · exact absurd rfl away
      · simp [hm]

theorem head?_restoreLayout {oldFirst : Argument} {sorted : List (Nat × Argument)}
    (zero : ∀ a, (0, a) ∈ sorted → a = oldFirst) {new : Nat × Argument}
    (head : sorted.head? = some new) (hold : hasComment oldFirst.separator = false)
    (hnew : hasComment new.2.separator = false) :
    (restoreLayout oldFirst sorted).head?.map (·.separator) = some oldFirst.separator := by
  fun_cases restoreLayout oldFirst sorted with
  | case1 => cases head
  | case2 first rest => simp [zero first List.mem_cons_self]
  | case3 n first rest commented =>
    cases head
    simp [hold, hnew] at commented
  | case4 n first rest _ => rfl

theorem rearranges_sortFiles (key : Text → Text) (files : List Argument) :
    Rearranges key files (sortFiles key files) (sortedFiles key files) := by
  refine ⟨perm_numbered key files, pairwise_sortedFiles key files, spellings_sortFiles key files,
    separators_order { sorting := true, collation := key } { name := [], files := files }, ?_, ?_⟩
  · cases files with
    | nil => exact .nil
    | cons first rest => exact kept_restoreLayout fun a => eq_of_mem_sortedFiles
  · cases files with
    | nil => simp
    | cons first rest =>
      intro old new hold hnew
      cases hold
      exact head?_restoreLayout (fun a => eq_of_mem_sortedFiles) hnew

section Keyed

variable {l m : List (Text × Bool × Option Text)}

end Keyed

end Section

/-- Sorting a section rearranges its files and nothing else of it: they are ordered by their keys,
those of one key as before, with the layout of the first place put back. A section without null
characters is sorted whenever the policy says so, and sorting it again changes nothing. -/
theorem resort_rearranges (key : Text → Text) (s : Section)
    (comparable : ∀ a ∈ s.files, Glyph.char '\x00' ∉ a.value) :
    (∃ order, Section.Rearranges key s.files (s.resort key).files order) ∧
    s.resort key = { s with files := (s.resort key).files } ∧
    (s.resort key).resort key = s.resort key ∧
    ∀ (d : Document) (target separator : Text) (x : Site separator (d.sourcesOf target))
      (candidates : List Sources) (place : Address) (f : Section → Section) (events : List Event),
      x.At candidates place → d.policy.sorting = true → d.policy.collation = key →
        f x.group = s →
        (d.changeSection target candidates place f events).result = .ok true ∧
        (d.changeSection target candidates place f events).state =
          d.editAt target x fun _ => s.resort key := by
  refine ⟨⟨_, Section.rearranges_sortFiles key s.files⟩, rfl, ?_, ?_⟩
  · simp only [Section.resort, Section.sortFiles_sortFiles]
  · intro d target separator x candidates place f events hat sorting hkey hs
    have sortable : (f x.group).isUnsortable = false := by
      rw [hs]
      simpa [Section.isUnsortable] using comparable
    cases d.changeSection_changes target hat f events with
    | done _ answer state =>
      refine ⟨answer, state.trans ?_⟩
      simp [Document.editAt, Site.edited, Policy.order, sorting, hkey, hs]
    | stuck _ unsortable _ _ =>
      rw [sortable] at unsortable
      cases unsortable

/-- Two files of one name, the second with a comment, and a file in a subdirectory, which takes the
first place and its layout. -/
theorem resort_rearranges_repeated :
    let s : Section := { name := "PRIVATE", files := [⟨"b.c", true, " ", some "\"b.c\""⟩,
      ⟨"b.c", false, "\n# c\n", some "b.c"⟩, ⟨"a/z.c", false, "\n  ", some "a/z.c"⟩] }
    (∀ a ∈ s.files, Glyph.char '\x00' ∉ a.value) ∧
    (s.resort id).files = [⟨"a/z.c", false, " ", some "a/z.c"⟩,
      ⟨"b.c", true, "\n  ", some "\"b.c\""⟩, ⟨"b.c", false, "\n# c\n", some "b.c"⟩] ∧
    (∃ order, Section.Rearranges id s.files (s.resort id).files order) ∧
    (s.resort id).resort id = s.resort id := by
  intro s
  have comparable : ∀ a ∈ s.files, Glyph.char '\x00' ∉ a.value := by decide
  obtain ⟨rearranged, -, again, -⟩ := resort_rearranges id s comparable
  exact ⟨comparable, by decide, rearranged, again⟩

end Listfile
