import Listfile.Proofs.Agreement
import Listfile.Proofs.Atomic
import Listfile.Proofs.Difference
import Listfile.Proofs.Mirroring

/-!
How an open document represents what it edits. A statement holds its target, other plain arguments
and after them its sections, named by keywords or anonymous as its command has it. The registry
lists each statement that lists sources once, under its target and for the statement it was made
from. All this holds of whatever was opened with settings, and whatever ends well keeps it.
-/

namespace Listfile

namespace Sources

/-- A statement with its target first, its sections last, and in between plain arguments. Sections
of a list of sources are opened by a keyword each; a target that is declared has one anonymous
section at most, behind everything else. -/
structure Formed (default : Text) (s : Sources) : Prop where
  slots : ∃ (first : Argument) (plains : List Argument), first.value = s.target ∧
    s.slots = .plain first :: plains.map .plain ++ s.sections.map .grouped
  keyed : s.command.name = Classify.targetSources → s.defaultSection = default ∧
    ∀ g ∈ s.sections, g.name ∈ sectionKeywords ∧
      ∃ a, g.keyword = some a ∧ a.quoted = false ∧ a.value.upper = g.name
  anonymous : s.command.name ≠ Classify.targetSources →
    s.command.name ∈ Classify.targetCommands ∧ s.defaultSection = [] ∧
    (s.sections = [] ∨ ∃ g, s.sections = [g] ∧ g.name = [] ∧ g.keyword = none ∧
      s.slots.getLast? = some (.grouped g))

/-- A statement in its parts, as reading and editing put them together. -/
structure Built (default : Text) (s : Sources) (first : Argument) (plains : List Argument)
    (groups : List Section) : Prop where
  slots : s.slots = (first :: plains).map .plain ++ groups.map .grouped
  target : first.value = s.target
  command : s.command.name = Classify.targetSources ∨ s.command.name ∈ Classify.targetCommands
  opens : ∀ g ∈ groups, Classify.Opens s.command.name g.name g.keyword
  single : s.command.name ≠ Classify.targetSources → groups.length ≤ 1
  default : s.defaultSection = if s.command.name = Classify.targetSources then default else []
  preferred : s.preferred = false

namespace Built

variable {default : Text} {s : Sources} {first : Argument} {plains : List Argument}
  {groups : List Section}

theorem formed (h : s.Built default first plains groups) : s.Formed default := by
  have hsections : s.sections = groups := sections_of_slots h.slots
  refine ⟨⟨first, plains, h.target, by rw [hsections, h.slots]; rfl⟩, ?_, ?_⟩
  · intro hc
    refine ⟨by rw [h.default, if_pos hc], ?_⟩
    intro g hg
    rw [hsections] at hg
    have hopens := h.opens g hg
    rw [Classify.Opens, if_pos hc] at hopens
    obtain ⟨a, ha, hname⟩ := hopens
    unfold sectionKeyword? at hname
    split at hname
    · cases hname
    next hquoted =>
    split at hname
    · next hkeyword =>
      rw [Option.some.injEq] at hname
      rw [hname] at hkeyword
      exact ⟨by simpa using hkeyword, a, ha, by simpa using hquoted, hname⟩
    · cases hname
  · intro hc
    refine ⟨h.command.resolve_left hc, by rw [h.default, if_neg hc], ?_⟩
    cases groups with
    | nil => exact Or.inl hsections
    | cons g more =>
      have hmore : more = [] := by
        have := h.single hc
        simpa using this
      have hopens := h.opens g List.mem_cons_self
      rw [Classify.Opens, if_neg hc] at hopens
      refine Or.inr ⟨g, by rw [hsections, hmore], hopens.2, hopens.1, ?_⟩
      rw [h.slots, hmore, List.map_singleton, List.getLast?_concat]

theorem marked (h : s.Built default first plains groups) (mark : Bool) :
    Built default { s with dirty := mark } first plains groups :=
  ⟨h.slots, h.target, h.command, h.opens, h.single, h.default, h.preferred⟩

theorem defaulting (h : s.Built default first plains groups) (name : Text) :
    Built name (if s.command.name = Classify.targetSources then { s with defaultSection := name }
      else s) first plains groups := by
  by_cases hc : s.command.name = Classify.targetSources
  · rw [if_pos hc]
    exact ⟨h.slots, h.target, h.command, h.opens, h.single, (if_pos hc).symm, h.preferred⟩
  · rw [if_neg hc]
    refine ⟨h.slots, h.target, h.command, h.opens, h.single, ?_, h.preferred⟩
    rw [h.default, if_neg hc, if_neg hc]

theorem regroup (h : s.Built default first plains groups) {groups' : List Section}
    {slots : List Slot} (hslots : slots = (first :: plains).map .plain ++ groups'.map .grouped)
    (opens : ∀ g ∈ groups', Classify.Opens s.command.name g.name g.keyword)
    (single : s.command.name ≠ Classify.targetSources → groups'.length ≤ 1) (mark : Bool) :
    Built default { s with slots := slots, dirty := mark } first plains groups' :=
  ⟨hslots, h.target, h.command, opens, single, h.default, h.preferred⟩

theorem opens_default (h : s.Built default first plains groups)
    (keyword : default ∈ sectionKeywords) (separator : Text) :
    Classify.Opens s.command.name (Section.opened s.defaultSection separator).name
      (Section.opened s.defaultSection separator).keyword := by
  rw [h.default, Classify.Opens]
  by_cases hc : s.command.name = Classify.targetSources
  · rw [if_pos hc, if_pos hc, Section.opened_of_keyword keyword]
    refine ⟨_, rfl, ?_⟩
    simp [sectionKeyword?, upper_keyword keyword, keyword]
  · rw [if_neg hc, if_neg hc]
    exact ⟨rfl, rfl⟩

theorem groups_eq_nil (h : s.Built default first plains groups)
    (hc : s.command.name ≠ Classify.targetSources)
    (missing : s.findSection? s.defaultSection = none) : groups = [] := by
  apply List.eq_nil_iff_forall_not_mem.mpr
  intro g hg
  have hopens := h.opens g hg
  rw [Classify.Opens, if_neg hc] at hopens
  rw [h.default, if_neg hc] at missing
  exact findSection?_eq_none missing g (by rw [sections_of_slots h.slots]; exact hg) hopens.2

/-- An edit leaves a statement built: the section it changes keeps its name and its keyword, and
one that it opens is the default one. -/
theorem replaced (h : s.Built default first plains groups) (keyword : default ∈ sectionKeywords)
    {separator : Text} {left right : List Slot} {g g' : Section}
    (room : s.Room separator left g right) (name : g'.name = g.name)
    (kept : g'.keyword = g.keyword) (mark : Bool) :
    ∃ groups', Built default { s with slots := left ++ .grouped g' :: right, dirty := mark }
      first plains groups' := by
  cases room with
  | standing hs =>
    have hmem : g ∈ groups := by
      rw [← sections_of_slots h.slots, sections, hs]
      simp [Slot.section?]
    have hslots : left ++ .grouped g' :: right = (first :: plains).map .plain ++
        (groups.modify (left.filterMap Slot.section?).length fun _ => g').map .grouped := by
      rw [← Slot.modifySection_eq, ← h.slots, hs, Slot.modifySection_split]
    have hopens : Classify.Opens s.command.name g'.name g'.keyword := by
      rw [name, kept]
      exact h.opens g hmem
    refine ⟨_, h.regroup hslots ?_ ?_ mark⟩
    · exact forall_mem_modify
        (P := fun k : Section => Classify.Opens s.command.name k.name k.keyword)
        (fun _ _ => hopens) h.opens _
    · intro hc
      rw [List.length_modify]
      exact h.single hc
  | @opened wanted hwanted missing =>
    obtain rfl : wanted = s.defaultSection := by
      rcases hwanted with hpreferred | hwanted
      · rw [h.preferred] at hpreferred
        cases hpreferred
      · exact hwanted
    have hslots : s.slots ++ [.grouped g'] = (first :: plains).map .plain ++
        (groups ++ [g']).map .grouped := by
      rw [h.slots, List.map_append, ← List.append_assoc, List.map_singleton]
    refine ⟨groups ++ [g'], h.regroup hslots ?_ ?_ mark⟩
    · intro k hk
      rcases List.mem_append.mp hk with hk | hk
      · exact h.opens k hk
      · rw [List.mem_singleton.mp hk, name, kept]
        exact h.opens_default keyword separator
    · intro hc
      rw [h.groups_eq_nil hc missing]
      simp

end Built

theorem exists_built {s : Statement} {line : Nat} {default : Text} {found : Sources}
    (keyword : default ∈ sectionKeywords)
    (h : (Sources.ofStatement? s line default).1 = some found) :
    ∃ first plains groups, found.Built default first plains groups := by
  have collected : ∀ (first : Argument) (plains : List Argument) (groups : List Section),
      (Slot.plain first :: (plains.map .plain ++ groups.map .grouped)).map Classify.collect =
        (first :: plains).map .plain ++ (groups.map Section.collectDirectories).map .grouped := by
    intro first plains groups
    simp [Classify.collect, Function.comp_def]
  obtain ⟨first, rest, -, -, ⟨hc, rfl⟩ | ⟨hc, hmem, -, rfl⟩⟩ := Sources.ofStatement?_cases h
  · obtain ⟨plains, groups, hslots, divided⟩ := Classify.exists_divided rest
    rw [Classify.slotsOf, if_pos rfl] at hslots
    refine ⟨first, plains, groups.map Section.collectDirectories, ?_, rfl, Or.inl hc, ?_,
      fun hn => absurd hc hn, ?_, rfl⟩
    · rw [hslots, collected]
    · intro g hg
      obtain ⟨k, hk, rfl⟩ := List.mem_map.mp hg
      rw [hc]
      exact divided.opens k hk
    · rw [if_pos hc, upper_keyword keyword]
  · obtain ⟨plains, groups, hslots, hgroups⟩ := Classify.exists_target false rest
    have hanonymous : groups.length ≤ 1 ∧ ∀ g ∈ groups, g.keyword = none ∧ g.name = [] := by
      rcases hgroups with ⟨rfl, -⟩ | ⟨-, files, rfl⟩
      · simp
      · simp
    refine ⟨first, plains, groups.map Section.collectDirectories, ?_, rfl, Or.inr hmem, ?_, ?_,
      by rw [if_neg hc], rfl⟩
    · rw [hslots, collected]
    · intro g hg
      obtain ⟨k, hk, rfl⟩ := List.mem_map.mp hg
      rw [Classify.Opens, if_neg hc]
      exact hanonymous.2 k hk
    · intro _
      rw [List.length_map]
      exact hanonymous.1

end Sources

/-- A statement of the file that is built, or one that lists no sources. -/
def Block.Built (default : Text) : Block → Prop
  | other s => ∀ line default', (Sources.ofStatement? s line default').1 = none
  | listing s => ∃ first plains groups, s.Built default first plains groups

theorem Block.Built.clean {default : Text} {b : Block} (h : b.Built default) :
    b.clean.Built default := by
  cases b with
  | other s => exact h
  | listing s =>
    obtain ⟨first, plains, groups, built⟩ := h
    exact ⟨first, plains, groups, built.marked false⟩

theorem Operation.reached?_keeps {d : Document} {op : Operation} {g g' : Section}
    (h : op.reached? d = some (g, g')) : g'.name = g.name ∧ g'.keyword = g.keyword := by
  have changed : ∀ {target file : Text} {f : Nat → Section → Section},
      (∀ n (k : Section), (f n k).name = k.name ∧ (f n k).keyword = k.keyword) →
      d.change? target file f = some (g, g') → g'.name = g.name ∧ g'.keyword = g.keyword := by
    intro target file f hf hchange
    obtain ⟨found, -, hfound⟩ := Option.bind_eq_some_iff.mp hchange
    obtain ⟨k, -, heq⟩ := Option.map_eq_some_iff.mp hfound
    cases heq
    exact hf found.2 g
  unfold Operation.reached? at h
  split at h
  · split at h
    · cases h
    · unfold Document.addition? at h
      split at h
      · cases h
      · obtain ⟨k, -, heq⟩ := Option.map_eq_some_iff.mp h
        cases heq
        exact ⟨rfl, rfl⟩
  · next target old new =>
    split at h
    · cases h
    · have kept : ∀ n (k : Section), (Document.renameAt new n k).name = k.name ∧
          (Document.renameAt new n k).keyword = k.keyword := fun _ _ => ⟨rfl, rfl⟩
      exact changed kept h
  · split at h
    · cases h
    · have kept : ∀ n (k : Section), (Document.removeAt n k).name = k.name ∧
          (Document.removeAt n k).keyword = k.keyword := fun _ _ => ⟨rfl, rfl⟩
      exact changed kept h
  · cases h

namespace Document

/-- What holds of a document whatever has been done with it. -/
structure Coherent (d : Document) : Prop where
  keyword : d.policy.defaultSection ∈ sectionKeywords
  items : ∀ b ∈ d.items, b.Built d.policy.defaultSection
  marked : d.dirty = true ↔ ∃ b ∈ d.items, b.isDirty = true

theorem coherent_reload {d : Document} (keyword : d.policy.defaultSection ∈ sectionKeywords) :
    d.reload.state.Coherent := by
  rcases reload_cases d with ⟨statements, -, -, hstate⟩ | ⟨-, hstate⟩
  · have hitems : d.reload.state.items = statements.map (blockOf d.policy.defaultSection) := by
      simp [hstate, items, Function.comp_def]
    refine ⟨by rwa [hstate], ?_, ?_⟩
    · rw [hitems, hstate]
      intro b hb
      obtain ⟨p, -, rfl⟩ := List.mem_map.mp hb
      unfold blockOf
      split
      · next s hs => exact Sources.exists_built keyword hs
      · next hs => exact fun _ _ => Sources.ofStatement?_none hs
    · rw [hitems, hstate]
      refine iff_of_false Bool.false_ne_true ?_
      rintro ⟨b, hb, hdirty⟩
      obtain ⟨p, -, rfl⟩ := List.mem_map.mp hb
      rw [isDirty_blockOf] at hdirty
      cases hdirty
  · rw [hstate]
    exact ⟨keyword, by simp [items], by simp [items]⟩

theorem built_newBlock (d : Document) (target : Text) :
    ∃ first plains groups,
      (d.newBlock target).Built d.policy.defaultSection first plains groups := by
  have hname : (d.newBlock target).command.name = Classify.targetSources := by
    simp only [newBlock, Command.named]
    decide
  refine ⟨⟨target, needsQuotation target, [], none⟩, [], [], rfl, rfl, Or.inl hname, by simp,
    by simp, ?_, rfl⟩
  rw [if_pos hname]
  rfl

namespace Coherent

variable {d : Document}

theorem prepared (h : d.Coherent) (target : Text) :
    ∀ b ∈ (d.prepared target).items, b.Built d.policy.defaultSection := by
  by_cases hnil : d.sourcesOf target = []
  · rw [prepared_of_nil hnil]
    intro b hb
    rw [items_withBlock] at hb
    rcases List.mem_append.mp hb with hb | hb
    · exact h.items b hb
    · rw [List.mem_singleton.mp hb]
      exact d.built_newBlock target
  · rw [prepared_of_ne hnil]
    exact h.items

theorem edit (h : d.Coherent) {op : Operation} {target : Text}
    (edit : op.target? = some target) {answer : Answer} (ended : (op.apply d).2 = .ok answer) :
    (op.apply d).1.Coherent := by
  obtain ⟨r, happly, outcome⟩ := Operation.exists_outcome edit d
  rw [happly] at ended ⊢
  cases outcome with
  | refused _ _ state => rwa [state]
  | stuck _ _ _ answer =>
    rw [answer] at ended
    cases ended
  | @done g g' there _ _ change =>
    obtain ⟨before, s, after, left, right, hitems, -, room, hitems'⟩ := change.statements
    have hpolicy : r.state.policy = d.policy := change.policy.trans (d.prepared_policy target)
    have hbuilt := h.prepared target
    rw [hitems, List.forall_mem_append, List.forall_mem_cons] at hbuilt
    obtain ⟨hbefore, ⟨first, plains, groups, built⟩, hafter⟩ := hbuilt
    obtain ⟨hname, hkeyword⟩ := Operation.reached?_keeps there
    obtain ⟨oname, okeyword⟩ := d.policy.order_keeps g'
    obtain ⟨groups', built'⟩ := built.replaced h.keyword room (oname.trans hname)
      (okeyword.trans hkeyword) (s.dirty || true)
    refine ⟨by rw [hpolicy]; exact h.keyword, ?_, ?_⟩
    · rw [hpolicy, hitems', List.forall_mem_append, List.forall_mem_cons]
      exact ⟨hbefore, ⟨first, plains, groups', built'⟩, hafter⟩
    · rw [change.dirty, hitems']
      refine iff_of_true (Bool.or_true _) ⟨_, List.mem_append_right _ List.mem_cons_self, ?_⟩
      exact Bool.or_true _

theorem setDefaultSection (h : d.Coherent) (name : Text) :
    (d.setDefaultSection name).state.Coherent := by
  unfold Document.setDefaultSection
  simp only
  split
  · next hkeyword =>
    let rename : Sources → Sources := fun s =>
      if s.command.name = Classify.targetSources then { s with defaultSection := name.upper } else s
    have changed : List.Forall₂ (fun s s' =>
        (Block.listing s).isDirty = (Block.listing s').isDirty ∧
        ((Block.listing s).Built d.policy.defaultSection → (Block.listing s').Built name.upper))
        d.sources (d.sources.map rename) := by
      refine List.forall₂_map_right_iff.mpr (List.forall₂_same.mpr fun s _ => ⟨?_, ?_⟩)
      · simp only [rename, Block.isDirty]
        split <;> rfl
      · rintro ⟨first, plains, groups, built⟩
        exact ⟨first, plains, groups, built.defaulting name.upper⟩
    have hitems : List.Forall₂ (fun b b' : Block => b.isDirty = b'.isDirty ∧
        (b.Built d.policy.defaultSection → b'.Built name.upper)) d.items
          (d.withSources (d.sources.map rename)).items := by
      rw [items_withSources changed.length_eq.symm]
      rw [sources_eq_items] at changed ⊢
      exact forall₂_refillItems (fun s => ⟨rfl, fun other => other⟩) changed
    have hdirty : d.items.map Block.isDirty =
        (d.withSources (d.sources.map rename)).items.map Block.isDirty :=
      map_eq_of_forall₂ (hitems.imp fun _ _ hb => hb.1)
    refine ⟨by simpa using hkeyword, ?_, ?_⟩
    · exact forall_of_forall₂ (hitems.imp fun _ _ hb => hb.2) h.items
    · have marks : ∀ bs : List Block,
          (∃ b ∈ bs, b.isDirty = true) ↔ true ∈ bs.map Block.isDirty := by simp
      rw [marks]
      refine h.marked.trans ?_
      rw [marks, hdirty]
      rfl
  · exact h

theorem write (h : d.Coherent) {bytes : Bytes} (ended : d.write.result = .ok bytes) :
    d.write.state.Coherent := by
  by_cases hloaded : d.loaded = true
  · cases hr : d.draft? with
    | none => simp [Document.write, hloaded, hr] at ended
    | some r =>
      have hitems : (d.settleDraft r).items = d.items.map Block.clean := by
        rw [← items_settleDraft (length_draft? hr)]
        simp [Document.items, settleDraft]
      rw [write_of_draft? hloaded hr]
      refine ⟨h.keyword, ?_, ?_⟩
      · rw [hitems]
        intro b hb
        obtain ⟨b', hb', rfl⟩ := List.mem_map.mp hb
        exact (h.items b' hb').clean
      · rw [hitems]
        refine iff_of_false Bool.false_ne_true ?_
        rintro ⟨b, hb, hdirty⟩
        obtain ⟨b', -, rfl⟩ := List.mem_map.mp hb
        rw [isDirty_clean] at hdirty
        cases hdirty
  · rwa [write_of_not_loaded hloaded]

theorem save (h : d.Coherent) {host : Host} {b : Bool} (ended : (d.save host).result = .ok b) :
    (d.save host).state.1.Coherent := by
  unfold Document.save at ended ⊢
  split at ended
  · next hloaded =>
    simp only [hloaded, if_true]
    cases hresult : d.write.result with
    | error fault => simp [hresult] at ended
    | ok bytes =>
      obtain ⟨keyword, items, marked⟩ := h.write hresult
      simp only
      exact ⟨keyword, items, marked⟩
  · next hloaded =>
    simp only [hloaded]
    exact h

theorem step (h : d.Coherent) {op : Operation} {answer : Answer}
    (ended : (op.apply d).2 = .ok answer) : (op.apply d).1.Coherent := by
  cases op with
  | add target file hint => exact h.edit rfl ended
  | rename target old new => exact h.edit rfl ended
  | remove target file => exact h.edit rfl ended
  | setSorting on => exact ⟨h.keyword, h.items, h.marked⟩
  | setCreating on => exact ⟨h.keyword, h.items, h.marked⟩
  | setDefaultSection name => exact h.setDefaultSection name
  | addListener => exact ⟨h.keyword, h.items, h.marked⟩
  | write =>
    obtain ⟨bytes, hbytes⟩ := exists_ok_of_map ended
    exact h.write hbytes
  | save host =>
    obtain ⟨b, hb⟩ := exists_ok_of_map ended
    exact h.save hb
  | reload => exact coherent_reload h.keyword

theorem run (h : d.Coherent) {ops : List Operation} {last : Document} {answers : List Answer}
    (ran : Operation.run d ops = .ok (last, answers)) : last.Coherent := by
  induction ops generalizing d answers with
  | nil =>
    cases ran
    exact h
  | cons op rest ih =>
    obtain ⟨answer, later, ended, hrest, -⟩ := Operation.run_cons ran
    exact ih (h.step ended) hrest

theorem mem_sources (d : Document) (s : Sources) : s ∈ d.sources ↔ Block.listing s ∈ d.items := by
  rw [sources_eq_items, List.mem_filterMap]
  constructor
  · rintro ⟨b, hb, hs⟩
    cases b with
    | other s' => cases hs
    | listing s' =>
      cases hs
      exact hb
  · exact fun hs => ⟨_, hs, rfl⟩

theorem formed (h : d.Coherent) : ∀ s ∈ d.sources, s.Formed d.policy.defaultSection := by
  intro s hs
  obtain ⟨first, plains, groups, built⟩ := h.items _ ((mem_sources d s).mp hs)
  exact built.formed

theorem marked_sources (h : d.Coherent) : d.dirty = true ↔ ∃ s ∈ d.sources, s.dirty = true := by
  refine h.marked.trans ⟨?_, ?_⟩
  · rintro ⟨b, hb, hdirty⟩
    cases b with
    | other s => cases hdirty
    | listing s => exact ⟨s, (mem_sources d s).mpr hb, hdirty⟩
  · rintro ⟨s, hs, hdirty⟩
    exact ⟨_, (mem_sources d s).mp hs, hdirty⟩

end Coherent

end Document

namespace Document

theorem pairwise_distinct (texts : List Text) :
    (distinct texts).Pairwise fun t u => texts.idxOf t < texts.idxOf u := by
  induction texts using List.reverseRecOn with
  | nil => exact .nil
  | append_singleton texts t ih =>
    have earlier : ∀ u ∈ distinct texts, (texts ++ [t]).idxOf u = texts.idxOf u :=
      fun u hu => List.idxOf_append_of_mem (mem_distinct.mp hu)
    have kept : (distinct texts).Pairwise fun u v =>
        (texts ++ [t]).idxOf u < (texts ++ [t]).idxOf v := by
      refine ih.imp_of_mem ?_
      intro u v hu hv h
      rwa [earlier u hu, earlier v hv]
    rw [Registry.distinct_concat]
    by_cases ht : t ∈ distinct texts
    · rwa [if_pos ht]
    · rw [if_neg ht, List.pairwise_append]
      refine ⟨kept, List.pairwise_singleton _ _, ?_⟩
      intro u hu v hv
      have hnew : t ∉ texts := fun h => ht (mem_distinct.mpr h)
      rw [List.mem_singleton.mp hv, earlier u hu, List.idxOf_append_of_notMem hnew]
      have := List.idxOf_lt_length_iff.mpr (mem_distinct.mp hu)
      omega

theorem nodup_distinct (texts : List Text) : (distinct texts).Nodup :=
  (pairwise_distinct texts).imp fun h heq => by
    rw [heq] at h
    exact Nat.lt_irrefl _ h

end Document

namespace Record

/-- A record whose two lists agree: its slots are the target, other plain arguments and the sections
that are listed, which are named by keywords or anonymous as the command has it. -/
structure Formed (default : Text) (command : Command) (x : Record) : Prop where
  sections : x.sections = x.slots.filterMap Handle.section?
  made : x.sections.Nodup ∧ ∀ id ∈ x.sections, id < x.store.length
  slots : ∃ (first : Argument) (plains : List Argument), first.value = x.target ∧
    x.slots = .plain first :: plains.map .plain ++ x.sections.map .grouped
  keyed : command.name = Classify.targetSources → x.defaultSection = default ∧
    ∀ id ∈ x.sections, (x.sectionAt id).name ∈ sectionKeywords ∧
      ∃ a, (x.sectionAt id).keyword = some a ∧ a.quoted = false ∧
        a.value.upper = (x.sectionAt id).name
  anonymous : command.name ≠ Classify.targetSources →
    command.name ∈ Classify.targetCommands ∧ x.defaultSection = [] ∧
    (x.sections = [] ∨ ∃ id, x.sections = [id] ∧ (x.sectionAt id).name = [] ∧
      (x.sectionAt id).keyword = none ∧ x.slots.getLast? = some (.grouped id))

variable {x : Record}

/-- Slots that show plain arguments and then sections are plain arguments and then sections. -/
theorem slots_eq_of_map {slots : List Handle} {plains : List Argument} {groups : List Section}
    (h : slots.map x.slotOf = plains.map .plain ++ groups.map .grouped) :
    slots = plains.map .plain ++ (slots.filterMap Handle.section?).map .grouped := by
  induction slots generalizing plains groups with
  | nil =>
    have hplains : plains = [] := by simpa using (List.append_eq_nil_iff.mp h.symm).1
    rw [hplains]
    rfl
  | cons handle slots ih =>
    cases plains with
    | nil =>
      cases groups with
      | nil => cases h
      | cons g groups =>
        obtain ⟨hhead, htail⟩ := List.cons.inj h
        cases handle with
        | plain a => cases hhead
        | grouped id =>
          have hrest : slots.map x.slotOf =
              ([] : List Argument).map .plain ++ groups.map .grouped := htail
          exact congrArg (Handle.grouped id :: ·) (ih hrest)
    | cons a plains =>
      obtain ⟨hhead, htail⟩ := List.cons.inj h
      cases handle with
      | grouped id => cases hhead
      | plain b =>
        cases hhead
        exact congrArg (Handle.plain a :: ·) (ih htail)

theorem Sound.formed (h : x.Sound) {default : Text} {command : Command}
    (shown : (x.view command).Formed default) : x.Formed default command := by
  have hsections := h.sections_view command
  obtain ⟨first, plains, hfirst, hslots⟩ := shown.slots
  have hparts : x.slots.map x.slotOf = (first :: plains).map .plain ++
      (x.sections.map x.sectionAt).map .grouped := by
    rw [← hsections]
    exact hslots
  have hslots' := slots_eq_of_map hparts
  rw [h.slots] at hslots'
  refine ⟨h.slots.symm, ⟨?_, ?_⟩, ⟨first, plains, hfirst, hslots'⟩, ?_, ?_⟩
  · rw [h.sections]
    exact List.nodup_range
  · intro id hid
    rw [h.sections] at hid
    exact List.mem_range.mp hid
  · intro hc
    obtain ⟨hdefault, hkeyed⟩ := shown.keyed hc
    refine ⟨hdefault, fun id hid => hkeyed _ ?_⟩
    rw [hsections]
    exact List.mem_map_of_mem hid
  · intro hc
    obtain ⟨hcommand, hdefault, hempty | ⟨g, hgroup, hname, hkeyword, -⟩⟩ := shown.anonymous hc
    · rw [hsections] at hempty
      exact ⟨hcommand, hdefault, Or.inl (List.map_eq_nil_iff.mp hempty)⟩
    · rw [hsections] at hgroup
      obtain ⟨id, hid, rfl⟩ := List.map_eq_singleton_iff.mp hgroup
      refine ⟨hcommand, hdefault, Or.inr ⟨id, hid, hname, hkeyword, ?_⟩⟩
      rw [hslots', hid, List.map_singleton, List.getLast?_concat]

end Record

namespace Registry

/-- How a registry represents a document that is being edited. -/
structure Represented (r : Registry) : Prop where
  keyword : r.policy.defaultSection ∈ sectionKeywords
  records : ∀ id < r.records.length,
    (r.recordAt id).Formed r.policy.defaultSection (r.commandAt id)
  /-- Under a target are its records, in the order of the sources. -/
  entries : ∀ target,
    r.candidates target = r.sources.filter fun id => (r.recordAt id).target = target
  /-- Every record is in the list of sources once and in one entry of the index once. -/
  once : r.sources.Nodup ∧ (∀ id, id ∈ r.sources ↔ id < r.records.length) ∧
    (r.index.flatMap (·.2)).Perm r.sources
  /-- The owner of a statement is the record that was made from it. -/
  owners : ∀ statement id, r.owner? statement = some id ↔
    id < r.records.length ∧ (r.recordAt id).statement = statement
  /-- Every statement is in the file or waits to be written, and not both. -/
  placed : (r.statements ++ r.created.map fun id => (r.recordAt id).statement).Nodup ∧
    ∀ statement < r.held.length, statement ∈ r.statements ∨
      ∃ id ∈ r.created, (r.recordAt id).statement = statement
  /-- No statement of the file that lists sources is passed over. -/
  others : ∀ statement ∈ r.statements, r.owner? statement = none → ∀ default,
    Record.ofStatement? statement (r.heldAt statement).item default = none
  targets : ∀ target, target ∈ r.targets ↔ ∃ id ∈ r.sources, (r.recordAt id).target = target
  order : r.targets.Pairwise fun t u =>
    (r.sources.map fun id => (r.recordAt id).target).idxOf t <
      (r.sources.map fun id => (r.recordAt id).target).idxOf u
  marked : r.dirty = true ↔ ∃ id ∈ r.sources, (r.recordAt id).dirty = true

theorem perm_grouped (targetOf : Nat → Text) {keys : List Text} (nodup : keys.Nodup)
    {ids : List Nat} (covered : ∀ id ∈ ids, targetOf id ∈ keys) :
    (keys.flatMap fun t => ids.filter fun id => targetOf id = t).Perm ids := by
  induction ids with
  | nil => simp
  | cons id ids ih =>
    rw [List.forall_mem_cons] at covered
    obtain ⟨before, after, rfl⟩ := List.append_of_mem covered.1
    have hrest := ih covered.2
    obtain ⟨-, hlast, hdisjoint⟩ := List.nodup_append.mp nodup
    have hbefore : ∀ t ∈ before, targetOf id ≠ t :=
      fun t ht heq => hdisjoint t ht _ List.mem_cons_self heq.symm
    have hafter : ∀ t ∈ after, targetOf id ≠ t := by
      rintro t ht rfl
      exact (List.nodup_cons.mp hlast).1 ht
    have passed : ∀ {ts : List Text}, (∀ t ∈ ts, targetOf id ≠ t) →
        (ts.flatMap fun t => (id :: ids).filter fun id => targetOf id = t) =
          ts.flatMap fun t => ids.filter fun id => targetOf id = t := by
      intro ts hts
      exact List.flatMap_congr fun t ht => by simp [hts t ht]
    rw [List.flatMap_append, List.flatMap_cons] at hrest ⊢
    rw [passed hbefore, passed hafter, List.filter_cons_of_pos (by simp), List.cons_append]
    exact List.perm_middle.trans (hrest.cons id)

namespace Sound

variable {r : Registry} (h : r.Sound)
include h

theorem index_eq : r.index =
    (Document.distinct (r.sources.map fun id => (r.recordAt id).target)).map fun t =>
      (t, r.sources.filter fun id => (r.recordAt id).target = t) :=
  h.index.trans (foldl_enter _ _)

theorem targets_eq :
    r.targets = Document.distinct (r.sources.map fun id => (r.recordAt id).target) := by
  rw [targets, h.index_eq, List.map_map]
  exact List.map_id _

theorem targets_document : r.document.targets = r.targets := by
  rw [Document.targets, h.sources_document, h.targets_eq, List.map_map]
  rfl

theorem sourceFiles_document (target : Text) :
    r.document.sourceFiles target = r.sourceFiles target := by
  rw [Document.sourceFiles, h.sourcesOf_document, sourceFiles, List.flatMap_map]
  refine List.flatMap_congr fun id hid => ?_
  rw [Sources.fileNames, Sources.fileNames, (h.sections_searched hid).1]

theorem perm_index : (r.index.flatMap (·.2)).Perm r.sources := by
  rw [h.index_eq, List.flatMap_map]
  exact perm_grouped _ (Document.nodup_distinct _) fun id hid =>
    Document.mem_distinct.mpr (List.mem_map_of_mem hid)

theorem represented (coherent : r.document.Coherent) : r.Represented := by
  have hitem : ∀ statement < r.held.length, r.itemAt statement ∈ r.document.items := by
    intro statement hs
    rw [h.items_document]
    exact List.mem_map_of_mem (List.mem_range.mpr hs)
  refine ⟨coherent.keyword, ?_, h.candidates_eq, ⟨h.nodup_sources, fun _ => h.mem_sources,
    h.perm_index⟩, fun _ _ => h.owner?_eq_some, ⟨?_, ?_⟩, ?_, ?_, ?_, ?_⟩
  · intro id hid
    refine (h.records _ (recordAt_mem hid)).formed (coherent.formed _ ?_)
    rw [h.sources_document]
    exact List.mem_map_of_mem (h.mem_sources.mpr hid)
  · rw [h.placed]
    exact List.nodup_range
  · intro statement hs
    have hmem := List.mem_range.mpr hs
    rw [← h.placed, List.mem_append, List.mem_map] at hmem
    exact hmem
  · intro statement hmem howner default
    have hother := coherent.items _ (hitem statement (h.lt_of_mem_statements hmem))
    have hnone : r.itemAt statement = .other (r.heldAt statement).item := by
      simp [itemAt, howner]
    rw [hnone] at hother
    have hview := (Record.ofStatement?_view statement (r.heldAt statement).item 0 default).1
    rw [hother 0 default] at hview
    exact Option.map_eq_none_iff.mp hview
  · intro target
    rw [h.targets_eq, Document.mem_distinct, List.mem_map]
  · rw [h.targets_eq]
    exact Document.pairwise_distinct _
  · refine coherent.marked_sources.trans ?_
    rw [h.sources_document]
    simp only [List.mem_map, exists_exists_and_eq_and]
    rfl

end Sound

end Registry

/-- A document that was opened with settings, from whatever file, has been kept by references all
along: after any run of operations that end well there is a registry that went through the same run,
shows the document and represents it. -/
theorem representation_kept {environment : List (Text × Text)} {data : List (Value × Value)}
    {settings : Settings} (configured : Settings.ofData environment data = .ok settings)
    (key : Text → Text) (buffer : Buffer) {ops : List Operation} {last : Document}
    {answers : List Answer}
    (ran : Operation.run (Document.ofBuffer buffer (settings.policy key)).state ops =
      .ok (last, answers)) :
    ∃ r, Registry.run (.ofBuffer buffer (settings.policy key)) ops = .ok (r, answers) ∧
      r.document = last ∧ last.targets = r.targets ∧
      (∀ target, last.sourceFiles target = r.sourceFiles target) ∧ r.Represented := by
  have opened : (Document.ofBuffer buffer (settings.policy key)).state.Coherent :=
    Document.coherent_reload (Settings.keyword_ofData configured)
  have hread := Registry.reload_follows { buffer := buffer, policy := settings.policy key }
  have hdocument : (Registry.ofBuffer buffer (settings.policy key)).document =
      (Document.ofBuffer buffer (settings.policy key)).state := hread.document
  have coherent := opened.run ran
  rw [← hdocument] at ran
  obtain ⟨r, hrun, rfl, hsound⟩ := hread.sound.exists_run ran
  exact ⟨r, hrun, rfl, hsound.targets_document, hsound.sourceFiles_document,
    hsound.represented coherent⟩

/-- A block is created under the section of the settings, a section is opened in a target that had
none, and a file is renamed after both have been written. -/
theorem representation_kept_created :
    let settings : Settings := { defaultSection := "PUBLIC" }
    let buffer := Buffer.ofString "target_sources(app private a.cpp)\nadd_library(lib STATIC)\n"
    let d := (Document.ofBuffer buffer (settings.policy Text.upper)).state
    let ops : List Operation := [.add "tool" "main.cpp" none, .setDefaultSection "interface",
      .add "lib" "b.cpp" none, .write, .rename "app" "a.cpp" "c.cpp"]
    Settings.ofData [] [(.text "default_section", .text "public")] = .ok settings ∧
    ∃ last answers r, Operation.run d ops = .ok (last, answers) ∧
      Registry.run (.ofBuffer buffer (settings.policy Text.upper)) ops = .ok (r, answers) ∧
      r.document = last ∧ r.Represented ∧
      r.targets = (["app", "lib", "tool"] : List Text) ∧ r.dirty = true := by
  intro settings buffer d ops
  have configured : Settings.ofData [] [(.text "default_section", .text "public")] =
      .ok settings := by decide +kernel
  have reached : (Operation.run d ops).toOption.map (fun p => (p.1.targets, p.1.dirty)) =
      some ((["app", "lib", "tool"] : List Text), true) := by decide +kernel
  obtain ⟨⟨last, answers⟩, ran, hlast⟩ := exists_ok_of_toOption reached
  obtain ⟨htargets, hdirty⟩ := Prod.mk.inj hlast
  obtain ⟨r, hrun, rfl, hsame, -, represented⟩ :=
    representation_kept configured Text.upper buffer ran
  exact ⟨configured, _, answers, r, ran, hrun, rfl, represented, hsame.symm.trans htargets, hdirty⟩

end Listfile
