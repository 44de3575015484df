import Listfile.FileSystem
import Listfile.Proofs.Utf8

/-!
Walks through a file system. A walk along names can be cut at any of them, a walk that succeeds also
succeeds with more links to spare, and it goes the same way through another file system that differs
only at places where walks end. So a file that is created, moved or removed does not lead other
paths astray.
-/

namespace Listfile

namespace FileSystem

variable {fs : FileSystem} {p q : Path} {follow : Bool}

section Map

theorem lookup_of_ne_nil (fs : FileSystem) (h : p ≠ []) :
    fs.lookup p = (fs.entries.find? fun e => e.1 == p).map (·.2) := by
  cases p with
  | nil => exact absurd rfl h
  | cons name rest => rfl

@[simp] theorem lookup_nil (fs : FileSystem) : fs.lookup [] = some .directory := rfl

theorem lookup_erase_self (fs : FileSystem) (h : p ≠ []) : (fs.erase p).lookup p = none := by
  rw [lookup_of_ne_nil _ h, Option.map_eq_none_iff, List.find?_eq_none]
  intro e he
  simpa [erase] using (List.mem_filter.mp he).2

theorem lookup_erase_of_ne (fs : FileSystem) (h : q ≠ p) :
    (fs.erase p).lookup q = fs.lookup q := by
  by_cases hq : q = []
  · rw [hq]
    rfl
  rw [lookup_of_ne_nil _ hq, lookup_of_ne_nil _ hq, erase, List.find?_filter]
  congr 2
  funext e
  by_cases he : e.1 = q
  · simp [he, h]
  · simp [he]

theorem lookup_insert_self (fs : FileSystem) (h : p ≠ []) (e : Entry) :
    (fs.insert p e).lookup p = some e := by
  have hnone : (fs.erase p).entries.find? (fun e => e.1 == p) = none := by
    have := lookup_erase_self fs h
    rwa [lookup_of_ne_nil _ h, Option.map_eq_none_iff] at this
  rw [lookup_of_ne_nil _ h, insert, List.find?_append, hnone]
  simp

theorem lookup_insert_of_ne (fs : FileSystem) (h : q ≠ p) (e : Entry) :
    (fs.insert p e).lookup q = fs.lookup q := by
  have herased := lookup_erase_of_ne fs h
  by_cases hq : q = []
  · rw [hq]
    rfl
  rw [lookup_of_ne_nil _ hq] at herased
  rw [lookup_of_ne_nil _ hq, insert, List.find?_append, ← herased]
  simp [Ne.symm h]

@[simp] theorem lookup_setContent (fs : FileSystem) (node : Nat) (content : Bytes) (p : Path) :
    (fs.setContent node content).lookup p = fs.lookup p := by
  cases p <;> rfl

theorem content_setContent_self (fs : FileSystem) (node : Nat) (content : Bytes) :
    (fs.setContent node content).content node = content := by
  simp [FileSystem.content, setContent]

theorem content_setContent_of_ne (fs : FileSystem) {node other : Nat} (h : other ≠ node)
    (content : Bytes) : (fs.setContent node content).content other = fs.content other := by
  have hne : (other == node) = false := by simpa using h
  simp [FileSystem.content, setContent, List.lookup_cons, hne]

theorem aboveNode_le_foldr {entries : List (Path × Entry)} {e : Path × Entry} (h : e ∈ entries) :
    aboveNode e.2 ≤ entries.foldr (fun e n => max (aboveNode e.2) n) 0 := by
  induction entries with
  | nil => cases h
  | cons first rest ih =>
    rcases List.mem_cons.mp h with rfl | hrest
    · exact Nat.le_max_left _ _
    · exact Nat.le_trans (ih hrest) (Nat.le_max_right _ _)

theorem lookup_ne_unused (fs : FileSystem) (p : Path) : fs.lookup p ≠ some (.file fs.unused) := by
  intro h
  have hne : p ≠ [] := by
    rintro rfl
    cases h
  rw [lookup_of_ne_nil _ hne, Option.map_eq_some_iff] at h
  obtain ⟨e, hfound, he⟩ := h
  have := aboveNode_le_foldr (List.mem_of_find?_eq_some hfound)
  rw [he] at this
  exact absurd this (Nat.not_succ_le_self _)

end Map

section Walk

def hop (fs : FileSystem) (follow : Bool) :
    Nat → Path → Text → List FileName → Except Obstacle Path
  | 0, _, _, _ => .error .tooManyLinks
  | links + 1, here, target, rest =>
    if target.isEmpty then .error .missing
    else fs.walk follow links (Path.start here target) (Path.namesOf target ++ rest)

theorem walk_eq (fs : FileSystem) (follow : Bool) (links : Nat) (here : Path)
    (names : List FileName) :
    fs.walk follow links here names = fs.walkNames follow (fs.hop follow links) here names := by
  cases links <;> rfl

variable {links more : Nat} {here there : Path} {name : FileName} {names : List FileName}

theorem step_ok {link : Option Text} (h : fs.step here name = .ok (there, link)) :
    fs.lookup here = some .directory ∧
      (link = none ∧ (there = here ∨ there = here.dropLast) ∨
        there = here ++ [name] ∧ name.length ≤ nameLimit ∧
          ∀ target, link = some target ↔ fs.lookup there = some (.link target)) := by
  unfold step at h
  split at h
  · cases h
  · next hdirectory =>
    refine ⟨hdirectory, ?_⟩
    split at h
    · cases h
      exact Or.inl ⟨rfl, Or.inl rfl⟩
    split at h
    · cases h
      exact Or.inl ⟨rfl, Or.inr rfl⟩
    split at h
    · cases h
    next hshort =>
    right
    split at h
    · next hlink =>
      cases h
      exact ⟨rfl, Nat.not_lt.mp hshort, fun target => by simp [hlink]⟩
    · next hlink =>
      cases h
      exact ⟨rfl, Nat.not_lt.mp hshort, fun target => by simpa using hlink target⟩
  · cases h

theorem walk_nil (fs : FileSystem) (follow : Bool) (links : Nat) (here : Path) :
    fs.walk follow links here [] = .ok here := by
  rw [walk_eq]
  rfl

theorem walk_cons_of_error {obstacle : Obstacle} (h : fs.step here name = .error obstacle) :
    fs.walk follow links here (name :: names) = .error obstacle := by
  rw [walk_eq, walkNames, h]

theorem walk_cons_of_plain (h : fs.step here name = .ok (there, none)) :
    fs.walk follow links here (name :: names) = fs.walk follow links there names := by
  rw [walk_eq, walkNames, h, walk_eq]

theorem walk_cons_of_link {target : Text} (h : fs.step here name = .ok (there, some target))
    (followed : follow = true ∨ names ≠ []) :
    fs.walk follow links here (name :: names) = fs.hop follow links here target names := by
  rw [walk_eq, walkNames, h]
  rcases followed with rfl | hne
  · simp
  · simp [hne]

/-- A walk that is given more names, and ends without them in a place or at an obstacle, goes on
from that place, or ends there as well. -/
structure Continues (fs : FileSystem) (links : Nat)
    (walked : Bool → List FileName → Except Obstacle Path) : Prop where
  onward : ∀ place, walked true [] = .ok place → ∃ left ≤ links, ∀ follow more, more ≠ [] →
    walked follow more = fs.walk follow left place more
  failing : ∀ obstacle, walked true [] = .error obstacle → ∀ follow more, more ≠ [] →
    walked follow more = .error obstacle

theorem Continues.of_error {walked : Bool → List FileName → Except Obstacle Path}
    (obstacle : Obstacle) (h : ∀ follow more, walked follow more = .error obstacle) :
    Continues fs links walked := by
  refine ⟨fun place hplace => ?_, fun obstacle' hobstacle follow more _ => ?_⟩
  · rw [h] at hplace
    cases hplace
  · rw [h] at hobstacle ⊢
    exact hobstacle

theorem Continues.congr {walked walked' : Bool → List FileName → Except Obstacle Path}
    (h : Continues fs links walked') (whole : walked true [] = walked' true [])
    (more : ∀ follow more, more ≠ [] → walked follow more = walked' follow more) :
    Continues fs links walked := by
  refine ⟨fun place hplace => ?_, fun obstacle hobstacle follow names hnames => ?_⟩
  · obtain ⟨left, hleft, hmore⟩ := h.onward place (whole ▸ hplace)
    exact ⟨left, hleft, fun follow names hnames => (more follow names hnames).trans
      (hmore follow names hnames)⟩
  · exact (more follow names hnames).trans
      (h.failing obstacle (whole ▸ hobstacle) follow names hnames)

theorem continues_walkNames
    (hops : ∀ here target rest,
      Continues fs links fun follow more => fs.hop follow links here target (rest ++ more))
    (here : Path) (names : List FileName) :
    Continues fs links fun follow more => fs.walk follow links here (names ++ more) := by
  induction names generalizing here with
  | nil =>
    refine ⟨fun place hplace => ?_, fun obstacle hobstacle => ?_⟩
    · rw [List.nil_append, walk_nil] at hplace
      cases hplace
      exact ⟨links, Nat.le_refl _, fun _ _ _ => rfl⟩
    · rw [List.nil_append, walk_nil] at hobstacle
      cases hobstacle
  | cons name names ih =>
    cases hstep : fs.step here name with
    | error obstacle => exact .of_error obstacle fun _ _ => walk_cons_of_error hstep
    | ok found =>
      obtain ⟨there, link⟩ := found
      cases link with
      | none =>
        exact (ih there).congr (walk_cons_of_plain hstep) fun _ _ _ => walk_cons_of_plain hstep
      | some target =>
        refine (hops here target names).congr ?_ fun follow more hmore => ?_
        · exact walk_cons_of_link hstep (Or.inl rfl)
        · exact walk_cons_of_link hstep (Or.inr (List.append_ne_nil_of_right_ne_nil _ hmore))

theorem continues_walk (fs : FileSystem) (links : Nat) (here : Path) (names : List FileName) :
    Continues fs links fun follow more => fs.walk follow links here (names ++ more) := by
  induction links generalizing here names with
  | zero =>
    exact continues_walkNames (fun here target rest => .of_error .tooManyLinks fun _ _ => rfl)
      here names
  | succ links ih =>
    refine continues_walkNames (fun here target rest => ?_) here names
    by_cases hempty : target.isEmpty
    · refine .of_error .missing fun _ _ => ?_
      simp [hop, hempty]
    · have hrest := ih (Path.start here target) (Path.namesOf target ++ rest)
      refine ⟨fun place hplace => ?_, fun obstacle hobstacle follow more hmore => ?_⟩
      · simp only [hop, hempty, List.append_nil] at hplace
        obtain ⟨left, hleft, hgo⟩ := hrest.onward place (by simpa using hplace)
        refine ⟨left, Nat.le_succ_of_le hleft, fun follow more hmore => ?_⟩
        rw [← hgo follow more hmore]
        simp [hop, hempty]
      · simp only [hop, hempty, List.append_nil] at hobstacle
        have := hrest.failing obstacle (by simpa using hobstacle) follow more hmore
        rw [← this]
        simp [hop, hempty]

/-- The walks that succeed, one rule for each kind of name. -/
inductive Leads (fs : FileSystem) (follow : Bool) : Nat → Path → List FileName → Path → Prop
  | arrived (links : Nat) (here : Path) : Leads fs follow links here [] here
  | plain {links : Nat} {here there p : Path} {name : FileName} {rest : List FileName}
    (step : fs.step here name = .ok (there, none)) (onward : Leads fs follow links there rest p) :
    Leads fs follow links here (name :: rest) p
  | last {links : Nat} {here there : Path} {name : FileName} {target : Text}
    (step : fs.step here name = .ok (there, some target)) (kept : follow = false) :
    Leads fs follow links here [name] there
  | jump {links : Nat} {here there p : Path} {name : FileName} {rest : List FileName}
    {target : Text} (step : fs.step here name = .ok (there, some target))
    (followed : follow = true ∨ rest ≠ []) (proper : target ≠ [])
    (onward : Leads fs follow links (Path.start here target) (Path.namesOf target ++ rest) p) :
    Leads fs follow (links + 1) here (name :: rest) p

theorem leads_of_walkNames
    (hops : ∀ here target rest, fs.hop follow links here target rest = .ok p →
      ∃ left, links = left + 1 ∧ target ≠ [] ∧
        fs.Leads follow left (Path.start here target) (Path.namesOf target ++ rest) p)
    (h : fs.walkNames follow (fs.hop follow links) here names = .ok p) :
    fs.Leads follow links here names p := by
  induction names generalizing here with
  | nil =>
    cases h
    exact .arrived links _
  | cons name rest ih =>
    rw [walkNames] at h
    split at h
    · cases h
    · next hstep => exact .plain hstep (ih h)
    · next hstep =>
      split at h
      · next hlast =>
        simp only [Bool.and_eq_true, List.isEmpty_iff, Bool.not_eq_true'] at hlast
        cases h
        rw [hlast.1]
        exact .last hstep hlast.2
      · next hlast =>
        obtain ⟨left, rfl, hproper, honward⟩ := hops _ _ _ h
        refine .jump hstep ?_ hproper honward
        by_cases hrest : rest = []
        · simpa [hrest] using hlast
        · exact Or.inr hrest

theorem walk_eq_ok :
    fs.walk follow links here names = .ok p ↔ fs.Leads follow links here names p := by
  constructor
  · intro h
    induction links generalizing here names with
    | zero =>
      rw [walk_eq] at h
      exact leads_of_walkNames (fun _ _ _ hhop => by cases hhop) h
    | succ links ih =>
      rw [walk_eq] at h
      refine leads_of_walkNames (fun here target rest hhop => ?_) h
      rw [hop] at hhop
      split at hhop
      · cases hhop
      · next hproper => exact ⟨links, rfl, by simpa using hproper, ih hhop⟩
  · intro h
    induction h with
    | arrived links here => exact walk_nil fs follow links here
    | plain hstep _ ih => rw [walk_cons_of_plain hstep, ih]
    | last hstep hkept => simp [walk_eq, walkNames, hstep, hkept]
    | jump hstep hfollowed hproper _ ih =>
      rw [walk_cons_of_link hstep hfollowed, hop, if_neg (by simpa using hproper), ih]

namespace Leads

theorem directory (h : fs.Leads follow links here (name :: names) p) :
    fs.lookup here = some .directory := by
  cases h with
  | plain hstep _ => exact (step_ok hstep).1
  | last hstep _ => exact (step_ok hstep).1
  | jump hstep _ _ _ => exact (step_ok hstep).1

theorem mono (h : fs.Leads follow links here names p) (le : links ≤ more) :
    fs.Leads follow more here names p := by
  induction h generalizing more with
  | arrived links here => exact .arrived more here
  | plain hstep _ ih => exact .plain hstep (ih le)
  | last hstep hkept => exact .last hstep hkept
  | jump hstep hfollowed hproper _ ih =>
    obtain ⟨left, rfl⟩ := Nat.exists_eq_add_of_le le
    rw [Nat.add_right_comm]
    exact .jump hstep hfollowed hproper (ih (Nat.le_add_right _ _))

theorem unique (h : fs.Leads follow links here names p) (h' : fs.Leads follow more here names q) :
    p = q := by
  have hp := walk_eq_ok.mpr (h.mono (Nat.le_add_right links more))
  have hq := walk_eq_ok.mpr (h'.mono (Nat.le_add_left more links))
  rw [hp] at hq
  exact Except.ok.inj hq

/-- A walk cut in two. Whatever other names follow the first ones, they are walked from the same
directory. -/
theorem split {back : List FileName} (h : fs.Leads follow links here (names ++ back) p)
    (hback : back ≠ []) :
    ∃ place left, fs.lookup place = some .directory ∧ fs.Leads true links here names place ∧
      fs.Leads follow left place back p ∧
      ∀ follow' more q, more ≠ [] →
        (fs.Leads follow' links here (names ++ more) q ↔ fs.Leads follow' left place more q) := by
  obtain ⟨onward, failing⟩ := continues_walk fs links here names
  simp only [List.append_nil] at onward failing
  have hwalk := walk_eq_ok.mpr h
  cases hfront : fs.walk true links here names with
  | error obstacle =>
    rw [failing obstacle hfront follow back hback] at hwalk
    cases hwalk
  | ok place =>
    obtain ⟨left, -, hgo⟩ := onward place hfront
    rw [hgo follow back hback, walk_eq_ok] at hwalk
    obtain ⟨next, more, rfl⟩ := List.exists_cons_of_ne_nil hback
    refine ⟨place, left, hwalk.directory, walk_eq_ok.mp hfront, hwalk, ?_⟩
    intro follow' more' q hmore
    rw [← walk_eq_ok, hgo follow' more' hmore, walk_eq_ok]

theorem followed (h : fs.Leads false links here names p)
    (plain : ∀ target, fs.lookup p ≠ some (.link target)) : fs.Leads true links here names p := by
  induction h with
  | arrived links here => exact .arrived links here
  | plain hstep _ ih => exact .plain hstep (ih plain)
  | @last links here there name target hstep _ =>
    obtain ⟨-, ⟨hnone, -⟩ | ⟨-, -, hlink⟩⟩ := step_ok hstep
    · cases hnone
    · exact absurd ((hlink target).mp rfl) (plain target)
  | jump hstep _ hproper _ ih => exact .jump hstep (Or.inl rfl) hproper (ih plain)

theorem unfollowed (h : fs.Leads true links here names p) :
    ∃ place, fs.Leads false links here names place := by
  induction h with
  | arrived links here => exact ⟨here, .arrived links here⟩
  | plain hstep _ ih =>
    obtain ⟨place, hplace⟩ := ih
    exact ⟨place, .plain hstep hplace⟩
  | last _ hkept => cases hkept
  | @jump links here there p name rest target hstep _ hproper _ ih =>
    by_cases hrest : rest = []
    · rw [hrest]
      exact ⟨there, .last hstep rfl⟩
    · obtain ⟨place, hplace⟩ := ih
      exact ⟨place, .jump hstep (Or.inr hrest) hproper hplace⟩

theorem onward_of_plain (h : fs.Leads follow links here (name :: names) p)
    (step : fs.step here name = .ok (there, none)) : fs.Leads follow links there names p := by
  rwa [← walk_eq_ok, walk_cons_of_plain step, walk_eq_ok] at h

theorem onward_of_link {target : Text} (h : fs.Leads true links here (name :: names) p)
    (step : fs.step here name = .ok (there, some target)) :
    ∃ left, links = left + 1 ∧
      fs.Leads true left (Path.start here target) (Path.namesOf target ++ names) p := by
  rw [← walk_eq_ok, walk_cons_of_link step (Or.inl rfl)] at h
  cases links with
  | zero => cases h
  | succ left =>
    rw [hop] at h
    split at h
    · cases h
    · exact ⟨left, rfl, walk_eq_ok.mp h⟩

/-- What a link leads to that stands where a walk ends. -/
theorem behind_link (h : fs.Leads false links here names p) (h' : fs.Leads true links here names q)
    {target : Text} (link : fs.lookup p = some (.link target))
    (plain : ∀ target, fs.lookup q ≠ some (.link target)) :
    ∃ left, fs.Leads true left (Path.start p.dropLast target) (Path.namesOf target) q := by
  induction h with
  | arrived links here =>
    cases h'
    exact absurd link (plain target)
  | plain hstep _ ih => exact ih (h'.onward_of_plain hstep) link
  | @last links here there name target' hstep _ =>
    obtain ⟨left, -, honward⟩ := h'.onward_of_link hstep
    obtain ⟨-, ⟨hnone, -⟩ | ⟨rfl, -, hlink⟩⟩ := step_ok hstep
    · cases hnone
    rw [(hlink target').mp rfl] at link
    cases link
    rw [List.append_nil] at honward
    rw [List.dropLast_concat]
    exact ⟨left, honward⟩
  | jump hstep _ _ _ ih =>
    obtain ⟨left, hleft, honward⟩ := h'.onward_of_link hstep
    cases hleft
    exact ih honward link

end Leads

/-- Whatever links are followed from a place, they lead to no directory. -/
def Closed (fs : FileSystem) (p : Path) : Prop :=
  fs.lookup p ≠ some .directory ∧ ∀ target left place, fs.lookup p = some (.link target) →
    fs.Leads true left (Path.start p.dropLast target) (Path.namesOf target) place →
    fs.lookup place ≠ some .directory

/-- Two file systems that differ only at places where the walks of the first one end. -/
structure SameWays (before after : FileSystem) (follow : Bool) (differing : Path → Prop) :
    Prop where
  same : ∀ q, ¬ differing q → after.lookup q = before.lookup q
  closed : ∀ q, differing q → before.Closed q
  plain : follow = true → ∀ q target, differing q →
    before.lookup q ≠ some (.link target) ∧ after.lookup q ≠ some (.link target)

theorem step_of_lookup {before after : FileSystem} {link : Option Text}
    (h : before.step here name = .ok (there, link))
    (same : after.lookup here = before.lookup here) :
    (after.lookup there = before.lookup there → after.step here name = .ok (there, link)) ∧
    ∃ link', after.step here name = .ok (there, link') ∧
      ∀ target, link' = some target → after.lookup there = some (.link target) := by
  have hdirectory := (step_ok h).1
  simp only [step, same, hdirectory] at h ⊢
  by_cases hdot : name = Utf8.encode (Text.ofString ".")
  · rw [if_pos hdot] at h ⊢
    exact ⟨fun _ => h, none, by cases h; rfl, fun _ hnone => by cases hnone⟩
  by_cases hdots : name = Utf8.encode (Text.ofString "..")
  · rw [if_neg hdot, if_pos hdots] at h ⊢
    exact ⟨fun _ => h, none, by cases h; rfl, fun _ hnone => by cases hnone⟩
  by_cases hlong : nameLimit < name.length
  · rw [if_neg hdot, if_neg hdots, if_pos hlong] at h
    cases h
  rw [if_neg hdot, if_neg hdots, if_neg hlong] at h ⊢
  obtain rfl : there = here ++ [name] := by
    split at h
    · cases h
      rfl
    · cases h
      rfl
  constructor
  · intro hthere
    rw [hthere]
    exact h
  · split
    · next target hlink =>
      refine ⟨some target, rfl, fun target' heq => ?_⟩
      cases heq
      exact hlink
    · exact ⟨none, rfl, fun _ hnone => by cases hnone⟩

theorem Leads.congr {before after : FileSystem} {differing : Path → Prop}
    (alike : before.SameWays after follow differing) (h : before.Leads follow links here names p) :
    after.Leads follow links here names p := by
  -- A directory is none of the places that differ.
  have steady : ∀ {place : Path}, before.lookup place = some .directory →
      after.lookup place = before.lookup place := by
    intro place hdirectory
    exact alike.same place fun hdiffers => (alike.closed place hdiffers).1 hdirectory
  -- Where a walk ends at a place that differs, it ends there in both.
  have ends : ∀ {links : Nat} {here there : Path} {name : FileName} {link : Option Text},
      before.step here name = .ok (there, link) → differing there →
      after.Leads follow links here [name] there := by
    intro links here there name link hstep hdiffers
    obtain ⟨-, link', hstep', hlink⟩ := step_of_lookup hstep (steady (step_ok hstep).1)
    cases link' with
    | none => exact .plain hstep' (.arrived links there)
    | some target =>
      refine .last hstep' ?_
      cases hfollow : follow with
      | false => rfl
      | true => exact absurd (hlink target rfl) (alike.plain hfollow there target hdiffers).2
  induction h with
  | arrived links here => exact .arrived links here
  | @plain links here there p name rest hstep honward ih =>
    by_cases hdiffers : differing there
    · cases rest with
      | nil =>
        cases honward
        exact ends hstep hdiffers
      | cons next rest => exact absurd honward.directory (alike.closed there hdiffers).1
    · exact .plain ((step_of_lookup hstep (steady (step_ok hstep).1)).1
        (alike.same there hdiffers)) ih
  | @last links here there name target hstep hkept =>
    by_cases hdiffers : differing there
    · exact ends hstep hdiffers
    · exact .last ((step_of_lookup hstep (steady (step_ok hstep).1)).1
        (alike.same there hdiffers)) hkept
  | @jump links here there p name rest target hstep hfollowed hproper honward ih =>
    by_cases hdiffers : differing there
    · obtain ⟨-, ⟨hnone, -⟩ | ⟨rfl, -, hlink⟩⟩ := step_ok hstep
      · cases hnone
      have hpoints := (hlink target).mp rfl
      rcases hfollowed with hfollow | hrest
      · exact absurd hpoints (alike.plain hfollow _ target hdiffers).1
      · -- The link is on the way, so that it has to lead to a directory.
        obtain ⟨place, -, hdirectory, hfront, -, -⟩ := honward.split hrest
        have hclosed := (alike.closed _ hdiffers).2 target links place hpoints
        rw [List.dropLast_concat] at hclosed
        exact absurd hdirectory (hclosed hfront)
    · exact .jump ((step_of_lookup hstep (steady (step_ok hstep).1)).1
        (alike.same there hdiffers)) hfollowed hproper ih

end Walk

end FileSystem

end Listfile
