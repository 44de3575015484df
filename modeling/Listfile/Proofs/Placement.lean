import Listfile.Proofs.Reshape
import Listfile.Proofs.Session
import Listfile.Proofs.Site
import Mathlib.Data.Int.ConditionallyCompleteOrder
import Mathlib.Order.Bounds.Basic
import Mathlib.Order.ConditionallyCompleteLattice.Basic
import Mathlib.Order.WithBot

/-!
Where a new file goes. The walk over the sections of a target ends at the first one of the greatest
score, among those of the wanted name if there are any. When no section has files, the walk ends
nowhere, and a name decides: the wanted one, or the default of the first statement. A name is looked
for statement by statement, and then from the end of the statement.
-/

namespace Listfile

/-- A score as a number: the length of the shared run, `-1` without files, and infinity for files in
the very directory. -/
def Score.value : Score → WithTop Int
  | noFiles => ((-1 : Int) : WithTop Int)
  | shared n => ((n : Int) : WithTop Int)
  | exact => ⊤

-- The scores are compared as integers before anything is simplified: a cast of `-1` may otherwise
-- be pushed inwards, where the order of the extended integers no longer decides it.
theorem Score.beats_iff (a b : Score) : a.beats b = true ↔ b.value < a.value := by
  cases a with
  | noFiles =>
    cases b with
    | noFiles => simp [beats]
    | shared n =>
      have : ¬ ((n : Int) < -1) := by omega
      simp only [beats, value, WithTop.coe_lt_coe, this, Bool.false_eq_true]
    | exact => simp only [beats, value, not_top_lt, Bool.false_eq_true]
  | shared m =>
    cases b with
    | noFiles =>
      have : (-1 : Int) < m := by omega
      simp only [beats, value, WithTop.coe_lt_coe, this]
    | shared n => simp only [beats, value, WithTop.coe_lt_coe, Int.ofNat_lt, decide_eq_true_eq]
    | exact => simp only [beats, value, not_top_lt, Bool.false_eq_true]
  | exact =>
    cases b with
    | noFiles => simp only [beats, value, WithTop.coe_lt_top]
    | shared n => simp only [beats, value, WithTop.coe_lt_top]
    | exact => simp [beats]

theorem Score.value_lt_exact {s : Score} (h : s ≠ exact) : s.value < exact.value := by
  cases s with
  | noFiles => exact WithTop.coe_lt_top _
  | shared n => exact WithTop.coe_lt_top _
  | exact => exact absurd rfl h

theorem Score.value_le_noFiles {s : Score} : s.value ≤ noFiles.value ↔ s = noFiles := by
  rw [← not_lt, ← beats_iff]
  cases s <;> simp [beats]

theorem Score.value_neg {s : Score} : s.value < ((0 : Int) : WithTop Int) ↔ s = noFiles := by
  cases s with
  | noFiles => simp only [value, WithTop.coe_lt_coe, Int.reduceNeg, Int.reduceLT]
  | shared n =>
    have : ¬ ((n : Int) < 0) := by omega
    simp only [value, WithTop.coe_lt_coe, this, reduceCtorEq]
  | exact => simp only [value, not_top_lt, reduceCtorEq]

def sharedLengths (directories : Set Text) (directory : Text) : Set Nat :=
  {n | ∃ other ∈ directories, ∃ run : Text, run <+: other ∧ run <+: directory ∧ run.length = n}

/-- What a score says about a set of directories. -/
inductive Score.Rates (directories : Set Text) (directory : Text) : Score → Prop where
  | noFiles : directories = ∅ → Rates directories directory noFiles
  | shared {n : Nat} : directory ∉ directories →
      IsGreatest (sharedLengths directories directory) n → Rates directories directory (shared n)
  | exact : directory ∈ directories → Rates directories directory exact

theorem Score.Rates.unique {directories : Set Text} {directory : Text} {a b : Score}
    (ha : Rates directories directory a) (hb : Rates directories directory b) : a = b := by
  have inhabited : ∀ {n}, IsGreatest (sharedLengths directories directory) n →
      directories ≠ ∅ := by
    rintro n ⟨⟨other, hother, -⟩, -⟩ rfl
    exact hother
  cases ha with
  | noFiles hnone =>
    cases hb with
    | noFiles => rfl
    | shared _ hmost => exact absurd hnone (inhabited hmost)
    | exact hmem => simp [hnone] at hmem
  | shared hmem hmost =>
    cases hb with
    | noFiles hnone => exact absurd hnone (inhabited hmost)
    | shared _ hmost' => rw [hmost.unique hmost']
    | exact hmem' => exact absurd hmem' hmem
  | exact hmem =>
    cases hb with
    | noFiles hnone => simp [hnone] at hmem
    | shared hmem' => exact absurd hmem hmem'
    | exact => rfl

theorem isGreatest_commonPrefixLength (s t : Text) :
    IsGreatest {n | ∃ run : Text, run <+: s ∧ run <+: t ∧ run.length = n}
      (commonPrefixLength s t) := by
  fun_induction commonPrefixLength s t with
  | case1 s h t ih =>
    obtain ⟨⟨run, hs, ht, hlen⟩, bound⟩ := ih
    constructor
    · exact ⟨h :: run, (List.prefix_cons_inj h).mpr hs, (List.prefix_cons_inj h).mpr ht,
        by simp [hlen]⟩
    · rintro n ⟨run, hs, ht, rfl⟩
      cases run with
      | nil => simp
      | cons x run =>
        have := bound ⟨run, (List.cons_prefix_cons.mp hs).2, (List.cons_prefix_cons.mp ht).2, rfl⟩
        simpa using this
  | case2 g s h t hne =>
    refine ⟨⟨[], List.nil_prefix, List.nil_prefix, rfl⟩, ?_⟩
    rintro n ⟨run, hs, ht, rfl⟩
    cases run with
    | nil => simp
    | cons x run =>
      exact absurd ((List.cons_prefix_cons.mp hs).1.symm.trans (List.cons_prefix_cons.mp ht).1) hne
  | case3 s t hnil =>
    refine ⟨⟨[], List.nil_prefix, List.nil_prefix, rfl⟩, ?_⟩
    rintro n ⟨run, hs, ht, rfl⟩
    cases run with
    | nil => simp
    | cons x run =>
      cases s with
      | nil => simp at hs
      | cons g s =>
        cases t with
        | nil => simp at ht
        | cons h t => exact (hnil g s h t rfl rfl).elim

theorem isGreatest_foldl_max (m : Nat) (l : List Nat) :
    IsGreatest {n | n = m ∨ n ∈ l} (l.foldl max m) := by
  induction l generalizing m with
  | nil => simp [IsGreatest, upperBounds]
  | cons k l ih =>
    obtain ⟨hmem, bound⟩ := ih (max m k)
    have hbase : max m k ≤ l.foldl max (max m k) := bound (Or.inl rfl)
    rw [List.foldl_cons]
    constructor
    · rcases hmem with heq | hmem
      · rcases Nat.le_total m k with hle | hle
        · exact Or.inr (by rw [heq, Nat.max_eq_right hle]; exact List.mem_cons_self)
        · exact Or.inl (by rw [heq, Nat.max_eq_left hle])
      · exact Or.inr (List.mem_cons_of_mem k hmem)
    · rintro n (rfl | hn)
      · omega
      · rcases List.mem_cons.mp hn with rfl | hn
        · omega
        · exact bound (Or.inr hn)

theorem Section.rates_score (g : Section) (directory : Text) :
    Score.Rates {p | p ∈ g.directories} directory (g.score directory) := by
  unfold Section.score
  split
  · next hnone =>
    have : g.directories = [] := by simpa using hnone
    exact .noFiles (by simp [this])
  · next hsome =>
    split
    · next hmem => exact .exact (by simpa using hmem)
    · next hmem =>
      refine .shared (by simpa using hmem) ?_
      obtain ⟨hfound, bound⟩ :=
        isGreatest_foldl_max 0 (g.directories.map (commonPrefixLength · directory))
      constructor
      · rcases hfound with hzero | hfound
        · -- Nothing is shared, and this much is so with any of the directories.
          obtain ⟨p, hp⟩ := List.exists_mem_of_ne_nil g.directories (by simpa using hsome)
          exact ⟨p, hp, [], List.nil_prefix, List.nil_prefix, hzero.symm⟩
        · obtain ⟨p, hp, hlen⟩ := List.mem_map.mp hfound
          obtain ⟨run, hrun⟩ := (isGreatest_commonPrefixLength p directory).1
          exact ⟨p, hp, run, hrun.1, hrun.2.1, hrun.2.2.trans hlen⟩
      · rintro n ⟨p, hp, hrun⟩
        exact Nat.le_trans ((isGreatest_commonPrefixLength p directory).2 hrun)
          (bound (Or.inr (List.mem_map_of_mem hp)))

/-- A score depends on the directories as a set, in whatever order they are gone through. -/
theorem Section.score_congr {g h : Section} (same : ∀ p, p ∈ g.directories ↔ p ∈ h.directories)
    (directory : Text) : g.score directory = h.score directory := by
  have hset : {p | p ∈ g.directories} = {p | p ∈ h.directories} := Set.ext same
  exact (hset ▸ g.rates_score directory).unique (h.rates_score directory)

theorem Section.score_eq_noFiles {g : Section} {directory : Text} :
    g.score directory = .noFiles ↔ g.directories = [] := by
  constructor
  · intro h
    have hrates := h ▸ g.rates_score directory
    cases hrates with
    | noFiles hnone =>
      simpa [Set.eq_empty_iff_forall_notMem, List.eq_nil_iff_forall_not_mem] using hnone
  · intro h
    simp [Section.score, h]

namespace Placement

/-- The first pair of a list whose section has the greatest score for a directory. -/
def FirstBest (directory : Text) (pairs : List (Address × Section)) (p : Address × Section) :
    Prop :=
  ∃ before after, pairs = before ++ p :: after ∧
    (∀ q ∈ before, (q.2.score directory).value < (p.2.score directory).value) ∧
    ∀ q ∈ after, (q.2.score directory).value ≤ (p.2.score directory).value

theorem FirstBest.mem {directory : Text} {pairs : List (Address × Section)}
    {p : Address × Section} (h : FirstBest directory pairs p) : p ∈ pairs := by
  obtain ⟨before, after, rfl, -⟩ := h
  simp

theorem FirstBest.cons {directory : Text} {pairs : List (Address × Section)}
    {p q : Address × Section} (h : FirstBest directory pairs p)
    (hq : (q.2.score directory).value < (p.2.score directory).value) :
    FirstBest directory (q :: pairs) p := by
  obtain ⟨before, after, rfl, hbefore, hafter⟩ := h
  exact ⟨q :: before, after, rfl, List.forall_mem_cons.mpr ⟨hq, hbefore⟩, hafter⟩

/-- The walk ends at the first best section, if that beats the best one before the walk. -/
theorem bestFrom_cases (directory : Text) (best : Option Address) {score : Score}
    (hscore : score ≠ .exact) (pairs : List (Address × Section)) :
    (bestFrom directory best score pairs = best ∧
      ∀ q ∈ pairs, (q.2.score directory).value ≤ score.value) ∨
    ∃ p, bestFrom directory best score pairs = some p.1 ∧
      score.value < (p.2.score directory).value ∧ FirstBest directory pairs p := by
  induction pairs generalizing best score with
  | nil => exact Or.inl ⟨rfl, by simp⟩
  | cons p rest ih =>
    rw [bestFrom]
    split
    · next hexact =>
      right
      refine ⟨p, rfl, ?_, [], rest, rfl, by simp, ?_⟩
      · rw [hexact]
        exact Score.value_lt_exact hscore
      · intro q _
        rw [hexact]
        exact le_top
    · next hexact =>
      split
      · next hbeats =>
        have hlt := (Score.beats_iff _ _).mp hbeats
        right
        rcases ih (some p.1) hexact with ⟨hend, hrest⟩ | ⟨q, hend, hbetter, hbest⟩
        · exact ⟨p, hend, hlt, [], rest, rfl, by simp, hrest⟩
        · exact ⟨q, hend, hlt.trans hbetter, hbest.cons hbetter⟩
      · next hbeats =>
        have hle : (p.2.score directory).value ≤ score.value := by
          rw [← not_lt, ← Score.beats_iff]
          exact hbeats
        rcases ih best hscore with ⟨hend, hrest⟩ | ⟨q, hend, hbetter, hbest⟩
        · exact Or.inl ⟨hend, List.forall_mem_cons.mpr ⟨hle, hrest⟩⟩
        · exact Or.inr ⟨q, hend, hbetter, hbest.cons (hle.trans_lt hbetter)⟩

theorem best?_cases (directory : Text) (pairs : List (Address × Section)) :
    (best? directory pairs = none ∧ ∀ q ∈ pairs, q.2.directories = []) ∨
    ∃ p, best? directory pairs = some p.1 ∧ p.2.directories ≠ [] ∧
      FirstBest directory pairs p := by
  have hstart : Score.noFiles ≠ .exact := by simp
  rcases bestFrom_cases directory none hstart pairs with ⟨hend, hall⟩ | ⟨p, hend, hlt, hbest⟩
  · exact Or.inl ⟨hend, fun q hq =>
      Section.score_eq_noFiles.mp (Score.value_le_noFiles.mp (hall q hq))⟩
  · refine Or.inr ⟨p, hend, fun hnone => ?_, hbest⟩
    rw [Section.score_eq_noFiles.mpr hnone] at hlt
    exact lt_irrefl _ hlt

end Placement

def Section.LastNamed (name : Text) (groups : List Section) (n : Nat) : Prop :=
  ∃ before g after, groups = before ++ g :: after ∧ before.length = n ∧ g.name = name.upper ∧
    ∀ h ∈ after, h.name ≠ name.upper

theorem Sources.findSection?_eq_some {s : Sources} {name : Text} {n : Nat}
    (h : s.findSection? name = some n) : Section.LastNamed name s.sections n := by
  -- What was found before the walk stays only if no section of the name follows.
  have walk : ∀ (groups : List Section) (passed : Nat) (found : Option Nat),
      findSection?.go name passed found groups = some n →
        (found = some n ∧ ∀ g ∈ groups, g.name ≠ name.upper) ∨
        ∃ k, Section.LastNamed name groups k ∧ n = passed + k := by
    intro groups
    induction groups with
    | nil => exact fun passed found hf => Or.inl ⟨hf, by simp⟩
    | cons g groups ih =>
      intro passed found hf
      rcases ih _ _ hf with ⟨hfound, hnone⟩ | ⟨k, ⟨before, g', after, rfl, hk, hname, hafter⟩, hn⟩
      · by_cases hname : g.name = name.upper
        · rw [if_pos hname] at hfound
          cases hfound
          exact Or.inr ⟨0, ⟨[], g, groups, rfl, rfl, hname, hnone⟩, rfl⟩
        · rw [if_neg hname] at hfound
          exact Or.inl ⟨hfound, List.forall_mem_cons.mpr ⟨hname, hnone⟩⟩
      · refine Or.inr ⟨k + 1, ⟨g :: before, g', after, rfl, ?_, hname, hafter⟩, ?_⟩
        · simp [hk]
        · omega
  rcases walk s.sections 0 none h with ⟨hnone, -⟩ | ⟨k, hlast, hn⟩
  · cases hnone
  · rw [Nat.zero_add] at hn
    exact hn ▸ hlast

namespace Placement

/-- The section of a name that candidates are searched for: the last one in the first statement that
has any. -/
structure FirstNamed (name : Text) (candidates : List Sources) (place : Address) : Prop where
  split : ∃ earlier s later, candidates = earlier ++ s :: later ∧
    earlier.length = place.statement ∧
    (∀ t ∈ earlier, ∀ g ∈ t.sections, g.name ≠ name.upper) ∧
    Section.LastNamed name s.sections place.sectionIndex

theorem firstNamed?_eq_some {name : Text} {candidates : List Sources} {place : Address}
    (h : firstNamed? name 0 candidates = some place) : FirstNamed name candidates place := by
  have walk : ∀ (candidates : List Sources) (passed : Nat),
      firstNamed? name passed candidates = some place →
        ∃ earlier s later, candidates = earlier ++ s :: later ∧
          passed + earlier.length = place.statement ∧
          (∀ t ∈ earlier, ∀ g ∈ t.sections, g.name ≠ name.upper) ∧
          Section.LastNamed name s.sections place.sectionIndex := by
    intro candidates
    induction candidates with
    | nil =>
      intro passed hf
      cases hf
    | cons s rest ih =>
      intro passed hf
      rw [firstNamed?] at hf
      split at hf
      · next n hn =>
        cases hf
        exact ⟨[], s, rest, rfl, rfl, by simp, Sources.findSection?_eq_some hn⟩
      · next hn =>
        obtain ⟨earlier, t, later, rfl, hlen, hnone, hlast⟩ := ih _ hf
        refine ⟨s :: earlier, t, later, rfl, ?_, ?_, hlast⟩
        · rw [List.length_cons]
          omega
        · exact List.forall_mem_cons.mpr ⟨Sources.findSection?_eq_none hn, hnone⟩
  obtain ⟨earlier, s, later, hsplit, hlen, hrest⟩ := walk candidates 0 h
  exact ⟨earlier, s, later, hsplit, by omega, hrest⟩

theorem firstNamed?_eq_none {name : Text} {candidates : List Sources} {passed : Nat}
    (h : firstNamed? name passed candidates = none) :
    ∀ s ∈ candidates, ∀ g ∈ s.sections, g.name ≠ name.upper := by
  induction candidates generalizing passed with
  | nil => simp
  | cons s rest ih =>
    rw [firstNamed?] at h
    split at h
    · cases h
    · next hn => exact List.forall_mem_cons.mpr ⟨Sources.findSection?_eq_none hn, ih h⟩

/-- The name that a choice is restricted to: the wanted one, if a section has it. -/
def restriction? (wanted : Option Text) (candidates : List Sources) : Option Text :=
  wanted.filter fun name =>
    name ≠ [] && (candidates.flatMap Sources.sections).any fun g => g.name = name.upper

def contenders (wanted : Option Text) (candidates : List Sources) : List (Address × Section) :=
  eligible (restriction? wanted candidates) candidates

/-- A choice and what it settles on: the statements after it and the address of the section. -/
def insertion (candidates : List Sources) (file : Text) (wanted : Option Text)
    (separator : Text) : Except Fault (List Sources × Address) :=
  (choose candidates file wanted).map fun c => settle candidates c.1 separator

theorem restriction?_eq (wanted : Option Text) (candidates : List Sources) :
    ((preference wanted).filter fun name => (firstNamed? name 0 candidates).isSome) =
      restriction? wanted candidates := by
  cases wanted with
  | none => rfl
  | some name =>
    have hfound : (firstNamed? name 0 candidates).isSome =
        (candidates.flatMap Sources.sections).any fun g => g.name = name.upper := by
      cases hnamed : firstNamed? name 0 candidates with
      | none =>
        have hnone := firstNamed?_eq_none hnamed
        symm
        simpa using hnone
      | some place =>
        obtain ⟨earlier, s, later, rfl, -, -, before, g, after, hsections, -, hname, -⟩ :=
          firstNamed?_eq_some hnamed
        symm
        simp [hsections, hname]
    by_cases hnil : name = []
    · simp [preference, restriction?, hnil, Option.filter_some]
    · simp [preference, restriction?, hnil, hfound, Option.filter_some]

theorem choose_of_unpreferred {first : Sources} {rest : List Sources}
    (unpreferred : ∀ s ∈ first :: rest, s.preferred = false) (file : Text) (wanted : Option Text) :
    choose (first :: rest) file wanted = .ok (chooseByScore first rest file wanted) := by
  have hnone : preferred? (first :: rest) = none := by
    rw [preferred?, List.find?_eq_none]
    rintro ⟨n, s⟩ hmem
    obtain ⟨i, hi, heq⟩ := List.mem_mapIdx.mp hmem
    cases heq
    simp [unpreferred _ (List.getElem_mem hi)]
  simp only [choose, hnone]

inductive Lands (first : Sources) (rest : List Sources) (file : Text) (wanted : Option Text)
    (separator : Text) : List Sources → Address → Prop where
  | best {p : Address × Section} (filed : p.2.directories ≠ [])
      (first_best : FirstBest (directoryOf file) (contenders wanted (first :: rest)) p) :
      Lands first rest file wanted separator (first :: rest) p.1
  | named {name : Text} {place : Address}
      (unfiled : ∀ q ∈ contenders wanted (first :: rest), q.2.directories = [])
      (restricted : restriction? wanted (first :: rest) = some name)
      (first_named : FirstNamed name (first :: rest) place) :
      Lands first rest file wanted separator (first :: rest) place
  | default {n : Nat} (unfiled : ∀ q ∈ contenders wanted (first :: rest), q.2.directories = [])
      (free : restriction? wanted (first :: rest) = none)
      (last : Section.LastNamed first.defaultSection first.sections n) :
      Lands first rest file wanted separator (first :: rest) ⟨0, n⟩
  | opened (unfiled : ∀ q ∈ contenders wanted (first :: rest), q.2.directories = [])
      (free : restriction? wanted (first :: rest) = none)
      (missing : ∀ g ∈ first.sections, g.name ≠ first.defaultSection.upper) :
      Lands first rest file wanted separator
        (first.addSection first.defaultSection separator :: rest) ⟨0, first.sections.length⟩

theorem exists_lands {first : Sources} {rest : List Sources}
    (unpreferred : ∀ s ∈ first :: rest, s.preferred = false) (file : Text) (wanted : Option Text)
    (separator : Text) :
    ∃ settled place, insertion (first :: rest) file wanted separator = .ok (settled, place) ∧
      Lands first rest file wanted separator settled place := by
  have hinsertion : insertion (first :: rest) file wanted separator =
      .ok (settle (first :: rest) (chooseByScore first rest file wanted).1 separator) := by
    rw [insertion, choose_of_unpreferred unpreferred]
    rfl
  rw [hinsertion]
  refine ⟨_, _, rfl, ?_⟩
  unfold chooseByScore
  simp only [restriction?_eq]
  rcases best?_cases (directoryOf file) (contenders wanted (first :: rest)) with
    ⟨hend, unfiled⟩ | ⟨p, hend, filed, hbest⟩
  · rw [contenders] at hend
    rw [hend]
    cases hrestricted : restriction? wanted (first :: rest) with
    | some name =>
      -- The restriction holds of a name that some section has, so the search succeeds.
      have hfound : (firstNamed? name 0 (first :: rest)).isSome = true := by
        rw [← restriction?_eq, Option.filter_eq_some_iff] at hrestricted
        exact hrestricted.2
      obtain ⟨place, hplace⟩ := Option.isSome_iff_exists.mp hfound
      simp only [Option.bind_some, hplace]
      exact .named unfiled hrestricted (firstNamed?_eq_some hplace)
    | none =>
      simp only [Option.bind_none, namedIn]
      cases hfind : first.findSection? first.defaultSection with
      | some n => exact .default unfiled hrestricted (Sources.findSection?_eq_some hfind)
      | none => exact .opened unfiled hrestricted (Sources.findSection?_eq_none hfind)
  · rw [contenders] at hend
    rw [hend]
    exact .best filed hbest

theorem FirstNamed.section? {name : Text} {candidates : List Sources} {place : Address}
    (h : FirstNamed name candidates place) :
    ∃ g, Placement.section? candidates place = some g ∧ g.name = name.upper := by
  obtain ⟨earlier, s, later, rfl, hstatement, -, before, g, after, hsections, hindex, hname, -⟩ := h
  refine ⟨g, ?_, hname⟩
  simp [Placement.section?, ← hstatement, ← hindex, hsections]

section Order

variable {earlier later : List Sources} {s : Sources} {before after : List Section} {g : Section}

theorem sections_before (hsections : s.sections = before ++ g :: after)
    {front back : List (Address × Section)} (hsplit : allSections (earlier ++ s :: later) =
      front ++ (⟨earlier.length, before.length⟩, g) :: back) :
    front.map (·.2) = earlier.flatMap Sources.sections ++ before := by
  obtain ⟨earlier', s', later', left, right, hcandidates, hslots, hstatement, hindex, hfront⟩ :=
    split_allSections hsplit
  obtain ⟨rfl, hrest⟩ := List.append_inj hcandidates hstatement.symm
  cases hrest
  have hparts : before ++ g :: after =
      left.filterMap Slot.section? ++ g :: right.filterMap Slot.section? := by
    rw [← hsections, Sources.sections, hslots]
    simp [Slot.section?]
  obtain ⟨rfl, -⟩ := List.append_inj hparts hindex.symm
  exact hfront

/-- A section is the first of its name among all sections exactly if it is the first among those
of the statements before its own and of its own. -/
theorem head?_eligible_iff (hsections : s.sections = before ++ g :: after) {name : Text}
    (hname : g.name = name.upper) :
    (eligible (some name) (earlier ++ s :: later)).head? =
        some (⟨earlier.length, before.length⟩, g) ↔
      ∀ h ∈ earlier.flatMap Sources.sections ++ before, h.name ≠ name.upper := by
  have hmem : (⟨earlier.length, before.length⟩, g) ∈ allSections (earlier ++ s :: later) :=
    mem_allSections.mpr ⟨s, by simp, by simp [hsections]⟩
  obtain ⟨front, back, hsplit⟩ := List.append_of_mem hmem
  have hfront := sections_before hsections hsplit
  have hlist : eligible (some name) (earlier ++ s :: later) =
      front.filter (fun p => p.2.name = name.upper) ++
        (⟨earlier.length, before.length⟩, g) ::
          back.filter (fun p => p.2.name = name.upper) := by
    rw [eligible, hsplit, List.filter_append, List.filter_cons, if_pos (by simpa using hname)]
  have hnames : (∀ h ∈ earlier.flatMap Sources.sections ++ before, h.name ≠ name.upper) ↔
      front.filter (fun p => p.2.name = name.upper) = [] := by
    rw [← hfront, List.filter_eq_nil_iff, List.forall_mem_map]
    simp
  rw [hnames, hlist]
  constructor
  · intro hhead
    cases hfiltered : front.filter (fun p => p.2.name = name.upper) with
    | nil => rfl
    | cons q more =>
      -- Then the address would stand twice in the list, with different lists before it.
      exfalso
      rw [hfiltered] at hhead
      cases hhead
      have hq : (⟨earlier.length, before.length⟩, g) ∈ front :=
        List.mem_of_mem_filter (hfiltered ▸ List.mem_cons_self)
      obtain ⟨front', back', rfl⟩ := List.append_of_mem hq
      have hagain := sections_before hsections (by simpa using hsplit)
      have hlength := congrArg List.length (hfront.trans hagain.symm)
      simp at hlength
  · intro hnil
    rw [hnil]
    rfl

end Order

end Placement

/-- A file goes to the first section of the greatest score among those that compete for it, if one
of these was read with files, and the score depends on its directories as a set. Else it goes to a
section of the name that the choice is restricted to, and without a restriction to the last section
of the default name in the first statement, which is opened at the end if there is none. -/
theorem insertion_first_best {first : Sources} {rest : List Sources}
    (unpreferred : ∀ s ∈ first :: rest, s.preferred = false) (file : Text) (wanted : Option Text)
    (separator : Text) :
    let candidates := first :: rest
    let directory := directoryOf file
    let pairs := Placement.contenders wanted candidates
    let outcome := Placement.insertion candidates file wanted separator
    (∀ g : Section, Score.Rates {p | p ∈ g.directories} directory (g.score directory)) ∧
    (∀ g h : Section, (∀ p, p ∈ g.directories ↔ p ∈ h.directories) →
      g.score directory = h.score directory) ∧
    ((∃ q ∈ pairs, q.2.directories ≠ []) →
      ∃ p, Placement.FirstBest directory pairs p ∧ outcome = .ok (candidates, p.1)) ∧
    ((∀ q ∈ pairs, q.2.directories = []) →
      (∀ name, Placement.restriction? wanted candidates = some name →
        ∃ place g, Placement.section? candidates place = some g ∧ g.name = name.upper ∧
          outcome = .ok (candidates, place)) ∧
      (Placement.restriction? wanted candidates = none →
        ((∃ g ∈ first.sections, g.name = first.defaultSection.upper) →
          ∃ n, Section.LastNamed first.defaultSection first.sections n ∧
            outcome = .ok (candidates, ⟨0, n⟩)) ∧
        ((∀ g ∈ first.sections, g.name ≠ first.defaultSection.upper) →
          outcome = .ok ({ first with slots := first.slots ++
            [.grouped (Section.opened first.defaultSection separator)] } :: rest,
              ⟨0, first.sections.length⟩)))) := by
  intro candidates directory pairs outcome
  refine ⟨fun g => g.rates_score _, fun g h same => Section.score_congr same _, ?_⟩
  obtain ⟨settled, place, heq, lands⟩ :=
    Placement.exists_lands unpreferred file wanted separator
  have houtcome : outcome = .ok (settled, place) := heq
  rw [houtcome]
  cases lands with
  | @best p filed hbest =>
    exact ⟨fun _ => ⟨p, hbest, rfl⟩, fun unfiled => absurd (unfiled p hbest.mem) filed⟩
  | named unfiled restricted hnamed =>
    obtain ⟨g, hg, hname⟩ := hnamed.section?
    refine ⟨fun ⟨q, hq, filed⟩ => absurd (unfiled q hq) filed, fun _ => ⟨fun name hrestricted => ?_,
      fun free => ?_⟩⟩
    · rw [restricted] at hrestricted
      cases hrestricted
      exact ⟨_, g, hg, hname, rfl⟩
    · rw [restricted] at free
      cases free
  | default unfiled free hlast =>
    refine ⟨fun ⟨q, hq, filed⟩ => absurd (unfiled q hq) filed, fun _ => ⟨fun name hrestricted => ?_,
      fun _ => ⟨fun _ => ⟨_, hlast, rfl⟩, fun missing => ?_⟩⟩⟩
    · rw [free] at hrestricted
      cases hrestricted
    · obtain ⟨before, g, after, hsections, -, hname, -⟩ := hlast
      exact absurd hname (missing g (by simp [hsections]))
  | opened unfiled free missing =>
    refine ⟨fun ⟨q, hq, filed⟩ => absurd (unfiled q hq) filed, fun _ => ⟨fun name hrestricted => ?_,
      fun _ => ⟨fun ⟨g, hg, hname⟩ => absurd hname (missing g hg), fun _ => rfl⟩⟩⟩
    rw [free] at hrestricted
    cases hrestricted

/-- The wanted name in small letters, and two sections that share as much of the directory: the
first of them takes the file. -/
theorem insertion_first_best_shared :
    let candidates := (Document.ofBuffer (.ofString
      "add_library(a x.c)\ntarget_sources(a PUBLIC s/p/a.h PRIVATE s/r/b.c PUBLIC s/q/a.h)")
      {}).state.sourcesOf "a"
    (∀ s ∈ candidates, s.preferred = false) ∧
    (Placement.contenders (some "public") candidates).length = 2 ∧
    ∃ p, Placement.FirstBest "s/r" (Placement.contenders (some "public") candidates) p ∧
      Placement.insertion candidates "s/r/a.h" (some "public") " " = .ok (candidates, p.1) := by
  intro candidates
  obtain ⟨unpreferred, hlength, filed, hne⟩ : (∀ s ∈ candidates, s.preferred = false) ∧
      (Placement.contenders (some "public") candidates).length = 2 ∧
      (∃ q ∈ Placement.contenders (some "public") candidates, q.2.directories ≠ []) ∧
      candidates ≠ [] := by
    decide +kernel
  refine ⟨unpreferred, hlength, ?_⟩
  obtain ⟨first, rest, hcandidates⟩ := List.exists_cons_of_ne_nil hne
  rw [hcandidates] at unpreferred filed ⊢
  exact (insertion_first_best unpreferred "s/r/a.h" (some "public") " ").2.2.1 filed

/-- When no section of the wanted name was read with files, the file goes to the last of them in the
first statement that has any. No statement before has one, but the same statement may: the section
is the first of its name exactly if it is the only one there. -/
theorem insertion_last_named {candidates : List Sources}
    (unpreferred : ∀ s ∈ candidates, s.preferred = false) (file separator : Text) {name : Text}
    (nonempty : name ≠ []) (present : ∃ s ∈ candidates, ∃ g ∈ s.sections, g.name = name.upper)
    (low : ∀ s ∈ candidates, ∀ g ∈ s.sections, g.name = name.upper →
      (g.score (directoryOf file)).value < ((0 : Int) : WithTop Int)) :
    ∃ earlier s later before g after, candidates = earlier ++ s :: later ∧
      s.sections = before ++ g :: after ∧ g.name = name.upper ∧
      Placement.insertion candidates file (some name) separator =
        .ok (candidates, ⟨earlier.length, before.length⟩) ∧
      (∀ t ∈ earlier, ∀ h ∈ t.sections, h.name ≠ name.upper) ∧
      (∀ h ∈ after, h.name ≠ name.upper) ∧
      ((Placement.eligible (some name) candidates).head? =
          some (⟨earlier.length, before.length⟩, g) ↔
        ∀ h ∈ before, h.name ≠ name.upper) := by
  have restricted : Placement.restriction? (some name) candidates = some name := by
    simpa [Placement.restriction?, Option.filter_some, nonempty] using present
  cases candidates with
  | nil => simp at present
  | cons first rest =>
    obtain ⟨settled, place, houtcome, lands⟩ :=
      Placement.exists_lands unpreferred file (some name) separator
    cases lands with
    | @best p filed hbest =>
      exfalso
      have hmem : p ∈ Placement.contenders (some name) (first :: rest) := hbest.mem
      rw [Placement.contenders, restricted, Placement.eligible, List.mem_filter] at hmem
      obtain ⟨s, hs, hg⟩ := Placement.mem_allSections.mp hmem.1
      have hlow := low s (List.mem_of_getElem? hs) p.2 (List.mem_of_getElem? hg)
        (by simpa using hmem.2)
      exact filed (Section.score_eq_noFiles.mp (Score.value_neg.mp hlow))
    | named _ hrestricted hnamed =>
      rw [restricted] at hrestricted
      cases hrestricted
      obtain ⟨earlier, s, later, hsplit, hstatement, hearlier, before, g, after, hsections, hindex,
        hname, hafter⟩ := hnamed
      obtain ⟨statement, sectionIndex⟩ := place
      cases hstatement
      cases hindex
      refine ⟨earlier, s, later, before, g, after, hsplit, hsections, hname, houtcome, hearlier,
        hafter, ?_⟩
      rw [hsplit, Placement.head?_eligible_iff hsections hname]
      constructor
      · intro hall h hh
        exact hall h (List.mem_append_right _ hh)
      · intro hbefore h hh
        rcases List.mem_append.mp hh with hh | hh
        · obtain ⟨t, ht, hmem⟩ := List.mem_flatMap.mp hh
          exact hearlier t ht h hmem
        · exact hbefore h hh
    | default _ free =>
      rw [restricted] at free
      cases free
    | opened _ free =>
      rw [restricted] at free
      cases free

theorem insertion_last_named_two_statements :
    let candidates := (Document.ofBuffer (.ofString
      "add_library(a)\ntarget_sources(a PRIVATE b.c PUBLIC)\ntarget_sources(a PUBLIC PUBLIC)")
      {}).state.sourcesOf "a"
    (∃ s ∈ candidates, ∃ g ∈ s.sections, g.name = Text.upper "PUBLIC") ∧
    ∃ earlier s later before g after, candidates = earlier ++ s :: later ∧
      s.sections = before ++ g :: after ∧ g.name = Text.upper "PUBLIC" ∧
      Placement.insertion candidates "x.h" (some "PUBLIC") " " =
        .ok (candidates, ⟨earlier.length, before.length⟩) ∧
      ∀ t ∈ earlier, ∀ h ∈ t.sections, h.name ≠ Text.upper "PUBLIC" := by
  intro candidates
  obtain ⟨unpreferred, present, empty⟩ : (∀ s ∈ candidates, s.preferred = false) ∧
      (∃ s ∈ candidates, ∃ g ∈ s.sections, g.name = Text.upper "PUBLIC") ∧
      ∀ s ∈ candidates, ∀ g ∈ s.sections, g.name = Text.upper "PUBLIC" →
        g.score (directoryOf "x.h") = .noFiles := by
    decide +kernel
  obtain ⟨earlier, s, later, before, g, after, hsplit, hsections, hname, houtcome, hearlier, -⟩ :=
    insertion_last_named unpreferred "x.h" " " (by decide) present
      fun s hs g hg hname => Score.value_neg.mpr (empty s hs g hg hname)
  exact ⟨present, earlier, s, later, before, g, after, hsplit, hsections, hname, houtcome, hearlier⟩

/-- Of two sections of the wanted name in one statement, both without files, the second takes the
file. -/
theorem insertion_passes_first_named :
    let candidates := (Document.ofBuffer (.ofString
      "target_sources(a PRIVATE b.c PUBLIC\n PUBLIC)") {}).state.sourcesOf "a"
    (∀ s ∈ candidates, s.preferred = false) ∧
    (∀ s ∈ candidates, ∀ g ∈ s.sections, g.name = "PUBLIC" →
      g.score (directoryOf "x.h") = .noFiles) ∧
    Placement.insertion candidates "x.h" (some "PUBLIC") " " = .ok (candidates, ⟨0, 2⟩) ∧
    (Placement.eligible (some "PUBLIC") candidates).map (·.1) = [⟨0, 1⟩, ⟨0, 2⟩] := by
  decide +kernel

end Listfile
