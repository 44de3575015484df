import Listfile.Proofs.Atomic
import Listfile.Proofs.Interposed
import Listfile.Proofs.Reshape

/-!
Edits of different targets. An edit reads the policy and the statements of its target, and nothing
else of the document: it does to them what it would do if they stood alone. What it makes of them
takes their places, or follows after all statements if it was created. Two such exchanges for
different targets leave each other alone, so they commute unless both create a block.
-/

namespace Listfile

namespace Document

def alone (d : Document) (target : Text) : Document :=
  { buffer := d.buffer, policy := d.policy, loaded := d.loaded, pending := d.sourcesOf target }

/-- Puts statements in the places of those of a target, and after all others what is left of them.
The document is marked and the listeners are called. -/
def exchange (d : Document) (target : Text) (given : List Sources) : Document :=
  let changed := d.withTarget target given
  { changed with
    pending := changed.pending ++ given.drop (d.sourcesOf target).length, dirty := true }.notify

/-- An edit does to the statements of a target what it does to them alone. -/
structure Mirrors (d : Document) (target : Text) (r alone : Reply Document Bool) : Prop where
  result : r.result = alone.result
  refused : r.result = .ok false → r.state = d
  done : r.result = .ok true → r.state = d.exchange target alone.state.pending
  own : r.result = .ok true → ∀ s ∈ alone.state.pending, s.target = target

def restoreItems (target : Text) : List Block → List Sources → List Block
  | [], _ => []
  | .other s :: rest, given => .other s :: restoreItems target rest given
  | .listing s :: rest, given =>
    if s.target = target then
      match given with
      | g :: more => .listing g :: restoreItems target rest more
      | [] => .listing s :: restoreItems target rest []
    else .listing s :: restoreItems target rest given

theorem refillItems_restoreTarget (target : Text) (items : List Block) (given : List Sources) :
    refillItems items (restoreTarget target (items.filterMap Block.sources?) given) =
      restoreItems target items given := by
  induction items generalizing given with
  | nil => rfl
  | cons b rest ih =>
    cases b with
    | other s => simp [List.filterMap_cons, refillItems, restoreItems, ih]
    | listing s =>
      simp only [List.filterMap_cons, Block.sources?_listing, restoreTarget, restoreItems]
      by_cases ht : s.target = target
      · cases given with
        | nil => simp [ht, refillItems, ih]
        | cons g more => simp [ht, refillItems, ih]
      · simp [ht, refillItems, ih]

section Restore

variable {target other : Text}

theorem restoreItems_foreign_append {items : List Block}
    (h : ∀ s ∈ items.filterMap Block.sources?, s.target ≠ target) (more : List Block)
    (given : List Sources) :
    restoreItems target (items ++ more) given = items ++ restoreItems target more given := by
  induction items with
  | nil => rfl
  | cons b items ih =>
    cases b with
    | other s => simpa [restoreItems, List.filterMap_cons] using ih (by simpa using h)
    | listing s =>
      simp only [List.filterMap_cons, Block.sources?_listing, List.forall_mem_cons] at h
      simpa [restoreItems, h.1] using ih h.2

theorem restoreItems_append_foreign {items more : List Block} {given : List Sources}
    (h : ∀ s ∈ more.filterMap Block.sources?, s.target ≠ target) :
    restoreItems target (items ++ more) given = restoreItems target items given ++ more := by
  induction items generalizing given with
  | nil => simpa [restoreItems] using restoreItems_foreign_append h [] given
  | cons b items ih =>
    cases b with
    | other s => simp [restoreItems, ih]
    | listing s =>
      by_cases ht : s.target = target
      · cases given with
        | nil => simp [restoreItems, ht, ih]
        | cons g given => simp [restoreItems, ht, ih]
      · simp [restoreItems, ht, ih]

theorem restoreItems_comm (ne : target ≠ other) {items : List Block} {mine theirs : List Sources}
    (hmine : ∀ s ∈ mine, s.target = target) (htheirs : ∀ s ∈ theirs, s.target = other) :
    restoreItems other (restoreItems target items mine) theirs =
      restoreItems target (restoreItems other items theirs) mine := by
  induction items generalizing mine theirs with
  | nil => rfl
  | cons b rest ih =>
    cases b with
    | other s => simp only [restoreItems, ih hmine htheirs]
    | listing s =>
      by_cases ht : s.target = target
      · have hs : s.target ≠ other := by rwa [ht]
        cases mine with
        | nil => simp [restoreItems, ht, ne, ih hmine htheirs]
        | cons g mine =>
          rw [List.forall_mem_cons] at hmine
          simp [restoreItems, ht, ne, hmine.1, ih hmine.2 htheirs]
      by_cases ho : s.target = other
      · cases theirs with
        | nil => simp [restoreItems, ho, ne.symm, ih hmine htheirs]
        | cons g theirs =>
          rw [List.forall_mem_cons] at htheirs
          simp [restoreItems, ho, ne.symm, htheirs.1, ih hmine htheirs.2]
      · simp [restoreItems, ht, ho, ih hmine htheirs]

theorem restoreTarget_own {all given : List Sources} (h : ∀ s ∈ all, s.target = target)
    (hlen : given.length = all.length) : restoreTarget target all given = given := by
  induction all generalizing given with
  | nil => rw [List.eq_nil_of_length_eq_zero hlen]; rfl
  | cons s rest ih =>
    rw [List.forall_mem_cons] at h
    cases given with
    | nil => simp at hlen
    | cons g more => simp [restoreTarget, h.1, ih h.2 (by simpa using hlen)]

theorem restoreItems_again {items : List Block} {mine given : List Sources}
    (own : ∀ s ∈ mine, s.target = target) (hlen : mine.length = given.length) :
    restoreItems target (restoreItems target items mine) given =
      restoreItems target items given := by
  induction items generalizing mine given with
  | nil => rfl
  | cons b rest ih =>
    cases b with
    | other s => simp only [restoreItems, ih own hlen]
    | listing s =>
      by_cases ht : s.target = target
      · cases mine with
        | nil =>
          obtain rfl := List.eq_nil_of_length_eq_zero hlen.symm
          simp [restoreItems, ht, ih own hlen]
        | cons g mine =>
          rw [List.forall_mem_cons] at own
          cases given with
          | nil => simp at hlen
          | cons g' given =>
            simp [restoreItems, ht, own.1, ih own.2 (Nat.succ.inj hlen)]
      · simp [restoreItems, ht, ih own hlen]

theorem sources_restoreItems (ne : target ≠ other) {items : List Block} {given : List Sources}
    (own : ∀ s ∈ given, s.target = target) :
    ((restoreItems target items given).filterMap Block.sources?).filter
        (fun s => s.target = other) =
      (items.filterMap Block.sources?).filter fun s => s.target = other := by
  induction items generalizing given with
  | nil => rfl
  | cons b rest ih =>
    cases b with
    | other s => simpa [restoreItems, List.filterMap_cons] using ih own
    | listing s =>
      by_cases ht : s.target = target
      · cases given with
        | nil => simpa [restoreItems, ht, ne] using ih own
        | cons g given =>
          rw [List.forall_mem_cons] at own
          simpa [restoreItems, ht, own.1, ne] using ih own.2
      · by_cases ho : s.target = other
        · simpa [restoreItems, ht, ho, ne.symm] using ih own
        · simpa [restoreItems, ht, ho] using ih own

end Restore

section Exchange

variable (d : Document) (target : Text) (given : List Sources)

theorem items_withTarget_eq :
    (d.withTarget target given).items = restoreItems target d.items given := by
  rw [withTarget, items_withSources (length_restoreTarget _ _ _), sources_eq_items,
    refillItems_restoreTarget]

theorem items_exchange : (d.exchange target given).items =
    restoreItems target d.items given ++
      (given.drop (d.sourcesOf target).length).map Block.listing := by
  rw [← items_withTarget_eq]
  simp [exchange, notify, items]

theorem spans_exchange :
    (d.exchange target given).blocks.map (·.span) = d.blocks.map (·.span) :=
  spans_withSources d _

theorem length_pending_exchange : (d.exchange target given).pending.length =
    d.pending.length + (given.drop (d.sourcesOf target).length).length := by
  simp [exchange, notify, withTarget, withSources, refill_left, length_restoreTarget, sources]

variable {d target given}

theorem sourcesOf_exchange {other : Text} (ne : target ≠ other)
    (own : ∀ s ∈ given, s.target = target) :
    (d.exchange target given).sourcesOf other = d.sourcesOf other := by
  have missing : (given.drop (d.sourcesOf target).length).filter (fun s => s.target = other) =
      [] := by
    rw [List.filter_eq_nil_iff]
    intro s hs
    simp [own s (List.mem_of_mem_drop hs), ne]
  rw [sourcesOf, sources_eq_items, items_exchange, List.filterMap_append, List.filter_append,
    sources_restoreItems ne own, Block.sources?_listings, missing, List.append_nil, sourcesOf,
    sources_eq_items]

theorem alone_exchange {other : Text} (ne : target ≠ other)
    (own : ∀ s ∈ given, s.target = target) :
    (d.exchange target given).alone other = d.alone other := by
  simp only [alone, sourcesOf_exchange ne own]
  rfl

theorem ext_of_items {d d' : Document} (buffer : d.buffer = d'.buffer)
    (policy : d.policy = d'.policy) (listeners : d.listeners = d'.listeners)
    (loaded : d.loaded = d'.loaded) (dirty : d.dirty = d'.dirty)
    (spans : d.blocks.map (·.span) = d'.blocks.map (·.span)) (items : d.items = d'.items) :
    d = d' := by
  have hlen : (d.blocks.map (·.item)).length = (d'.blocks.map (·.item)).length := by
    simpa using congrArg List.length spans
  obtain ⟨hblocks, hpending⟩ := List.append_inj items hlen
  have hinj : Function.Injective Block.listing := fun _ _ h => Block.listing.inj h
  cases d
  cases d'
  simp only at *
  simp only [buffer, policy, listeners, loaded, dirty, blocks_ext spans hblocks,
    List.map_injective_iff.mpr hinj hpending]

/-- Exchanges for different targets commute if one of them creates nothing. -/
theorem exchange_comm {other : Text} (ne : target ≠ other) {theirs : List Sources}
    (own : ∀ s ∈ given, s.target = target) (htheirs : ∀ s ∈ theirs, s.target = other)
    (few : given.drop (d.sourcesOf target).length = [] ∨
      theirs.drop (d.sourcesOf other).length = []) :
    (d.exchange target given).exchange other theirs =
      (d.exchange other theirs).exchange target given := by
  have foreign : ∀ {t t' : Text} {l : List Sources} {n : Nat}, t ≠ t' →
      (∀ s ∈ l, s.target = t) →
      ∀ s ∈ ((l.drop n).map Block.listing).filterMap Block.sources?, s.target ≠ t' := by
    intro t t' l n hne hl s hs
    rw [Block.sources?_listings] at hs
    rwa [hl s (List.mem_of_mem_drop hs)]
  refine ext_of_items rfl rfl rfl rfl rfl ?_ ?_
  · simp only [spans_exchange]
  · simp only [items_exchange, sourcesOf_exchange ne own, sourcesOf_exchange ne.symm htheirs,
      restoreItems_append_foreign (foreign ne own),
      restoreItems_append_foreign (foreign ne.symm htheirs),
      restoreItems_comm ne own htheirs]
    rcases few with hnone | hnone <;> simp [hnone]

end Exchange

section Mirror

variable (d : Document) (target : Text)

theorem sourcesOf_alone : (d.alone target).sourcesOf target = d.sourcesOf target := by
  simp [sourcesOf, sources, alone]

theorem target_of_mem {s : Sources} (h : s ∈ d.sourcesOf target) : s.target = target := by
  simpa using (List.mem_filter.mp h).2

variable {d target}

theorem changeSection_result {d d' : Document} (policy : d.policy = d'.policy) (target : Text)
    (candidates : List Sources) (place : Address) (f : Section → Section) (events : List Event) :
    (d.changeSection target candidates place f events).result =
      (d'.changeSection target candidates place f events).result := by
  simp only [changeSection, policy]
  split <;> rfl

theorem changeSection_mirrors {candidates : List Sources}
    (own : ∀ s ∈ candidates, s.target = target)
    (hlen : candidates.length = (d.sourcesOf target).length) (place : Address)
    (f : Section → Section) (events : List Event) :
    d.Mirrors target (d.changeSection target candidates place f events)
        ((d.alone target).changeSection target candidates place f events) ∧
      ((d.changeSection target candidates place f events).result = .ok true →
        ((d.alone target).changeSection target candidates place f events).state.pending.length =
          candidates.length) := by
  have hresult : (d.changeSection target candidates place f events).result =
      ((d.alone target).changeSection target candidates place f events).result := by
    have policy : d.policy = (d.alone target).policy := rfl
    exact changeSection_result policy target candidates place f events
  have hfalse : (d.changeSection target candidates place f events).result ≠ .ok false := by
    rcases changeSection_cases d target candidates place f events with herr | ⟨hok, -⟩
    · simp [herr]
    · simp [hok]
  let done := candidates.modify place.statement
    (Sources.revise none [] place.sectionIndex (d.policy.order ∘ f))
  have hpending : (d.changeSection target candidates place f events).result = .ok true →
      ((d.alone target).changeSection target candidates place f events).state.pending = done := by
    intro hok
    rcases changeSection_cases (d.alone target) target candidates place f events with
      herr | ⟨-, hstate⟩
    · rw [hresult, herr] at hok
      cases hok
    · have hsources : (d.alone target).sources = d.sourcesOf target := by simp [sources, alone]
      rw [hstate]
      show (refill [] (restoreTarget target (d.alone target).sources done)).2 = done
      rw [hsources, restoreTarget_own (fun s hs => d.target_of_mem target hs)
        (by simpa [done] using hlen), refill]
  refine ⟨⟨hresult, fun h => absurd h hfalse, ?_, ?_⟩, ?_⟩
  · intro hok
    rcases changeSection_cases d target candidates place f events with herr | ⟨-, hstate⟩
    · rw [herr] at hok
      cases hok
    · have hleft : done.drop (d.sourcesOf target).length = [] := by simp [done, hlen]
      rw [hstate, hpending hok, exchange, hleft, List.append_nil]
  · intro hok
    rw [hpending hok]
    have kept : ∀ s : Sources, s.target = target →
        (s.revise none [] place.sectionIndex (d.policy.order ∘ f)).target = target :=
      fun s hs => (Sources.revise_target _ _ _ _ s).trans hs
    exact forall_mem_modify kept own _
  · intro hok
    rw [hpending hok, List.length_modify]

theorem settle_own {candidates : List Sources} (own : ∀ s ∈ candidates, s.target = target)
    (choice : Choice) (separator : Text) :
    (∀ s ∈ (Placement.settle candidates choice separator).1, s.target = target) ∧
      (Placement.settle candidates choice separator).1.length = candidates.length := by
  cases choice with
  | existing place => exact ⟨own, rfl⟩
  | fresh n name =>
    constructor
    · have kept : ∀ s : Sources, s.target = target →
          (s.addSection name separator).target = target := fun s hs => hs
      exact forall_mem_modify kept own n
    · simp [Placement.settle]

theorem addTo_mirrors (d : Document) (target file : Text) (hint : Option Text)
    (events : List Event) :
    d.Mirrors target (d.addTo target file hint events)
        ((d.alone target).addTo target file hint events) ∧
      ((d.addTo target file hint events).result = .ok true →
        ((d.alone target).addTo target file hint events).state.pending.length =
          (d.sourcesOf target).length) := by
  have hhint : (d.alone target).preferredSection? hint = d.preferredSection? hint := rfl
  have hpolicy : (d.alone target).policy = d.policy := rfl
  unfold addTo
  simp only [sourcesOf_alone, hhint, hpolicy]
  split
  · refine ⟨⟨rfl, ?_, ?_, ?_⟩, ?_⟩ <;> (intro h; cases h)
  · next choice chosen _ =>
    obtain ⟨own, hlen⟩ := settle_own (fun s hs => d.target_of_mem target hs) choice
      d.policy.separator
    rw [← hlen]
    exact changeSection_mirrors own hlen _ _ _

/-- A block that is created for an edit stands alone, and after it behind all others. -/
theorem exchange_withBlock (unlisted : d.sourcesOf target = []) {given : List Sources}
    (hlen : given.length = 1) :
    (d.withBlock target).exchange target given = d.exchange target given := by
  obtain ⟨s, rfl⟩ := List.length_eq_one_iff.mp hlen
  have foreign : ∀ s ∈ d.items.filterMap Block.sources?, s.target ≠ target := by
    intro s hs ht
    have hmem : s ∈ d.sourcesOf target := by
      rw [sourcesOf, sources_eq_items]
      simp [hs, ht]
    simp [unlisted] at hmem
  refine ext_of_items rfl rfl rfl rfl rfl ?_ ?_
  · simp only [spans_exchange]
    rfl
  · have hkept := restoreItems_foreign_append foreign [] [s]
    rw [List.append_nil] at hkept
    simp only [items_exchange, items_withBlock, sourcesOf_withBlock, unlisted,
      restoreItems_foreign_append foreign, hkept]
    simp [restoreItems, newBlock]

theorem created_mirrors (unlisted : d.sourcesOf target = []) (file : Text) (hint : Option Text)
    (events : List Event) :
    d.Mirrors target ((d.withBlock target).addTo target file hint events)
      (((d.alone target).withBlock target).addTo target file hint events) := by
  have halone : (d.alone target).withBlock target = (d.withBlock target).alone target := by
    simp only [alone, sourcesOf_withBlock d target]
    rfl
  have hone : (d.withBlock target).sourcesOf target = [d.newBlock target] := by
    rw [sourcesOf_withBlock, unlisted, List.nil_append]
  obtain ⟨mirrors, hlen⟩ := addTo_mirrors (d.withBlock target) target file hint events
  rw [halone]
  refine ⟨mirrors.result, ?_, ?_, mirrors.own⟩
  · intro hfalse
    have listed : (d.withBlock target).sourcesOf target ≠ [] := by simp [hone]
    rcases addTo_editAt listed file hint events with ⟨-, fault, herr⟩ | ⟨hok, -⟩
    · rw [hfalse] at herr
      cases herr
    · rw [hfalse] at hok
      cases hok
  · intro hok
    have hsingle := hlen hok
    rw [hone, List.length_singleton] at hsingle
    rw [mirrors.done hok, exchange_withBlock unlisted hsingle]

theorem refused_mirrors (d : Document) (target : Text) (events events' : List Event) :
    d.Mirrors target ⟨d, .ok false, events⟩ ⟨d.alone target, .ok false, events'⟩ :=
  ⟨rfl, fun _ => rfl, nofun, nofun⟩

theorem addFile_mirrors (file : Text) (hint : Option Text) :
    d.Mirrors target (d.addFile target file hint) ((d.alone target).addFile target file hint) := by
  have hloaded : (d.alone target).loaded = d.loaded := rfl
  have hpolicy : (d.alone target).policy = d.policy := rfl
  unfold addFile
  simp only [sourcesOf_alone, hloaded, hpolicy]
  split
  · exact refused_mirrors d target _ _
  split
  · exact refused_mirrors d target _ _
  split
  · exact (addTo_mirrors d target file hint []).1
  next hlisted =>
  split
  · exact created_mirrors (by simpa using hlisted) file hint _
  · exact refused_mirrors d target _ _

theorem changeFile_mirrors (file : Text) (f : Nat → Section → Section) :
    d.Mirrors target (d.changeFile target file f) ((d.alone target).changeFile target file f) := by
  unfold changeFile
  simp only [sourcesOf_alone]
  split
  · exact refused_mirrors d target _ _
  split
  · exact refused_mirrors d target _ _
  · exact (changeSection_mirrors (fun s hs => d.target_of_mem target hs) rfl _ _ _).1

theorem renameFile_mirrors (old new : Text) :
    d.Mirrors target (d.renameFile target old new)
      ((d.alone target).renameFile target old new) := by
  have hloaded : (d.alone target).loaded = d.loaded := rfl
  unfold renameFile
  simp only [hloaded]
  split
  · exact refused_mirrors d target _ _
  split
  · exact refused_mirrors d target _ _
  · exact changeFile_mirrors old _

theorem removeFile_mirrors (file : Text) :
    d.Mirrors target (d.removeFile target file) ((d.alone target).removeFile target file) := by
  have hloaded : (d.alone target).loaded = d.loaded := rfl
  unfold removeFile
  simp only [hloaded]
  split
  · exact refused_mirrors d target _ _
  · exact changeFile_mirrors file _

end Mirror

end Document

namespace Operation

def creates (d : Document) (op : Operation) : Prop :=
  d.pending.length < (op.apply d).1.pending.length

theorem exists_mirrors {op : Operation} {target : Text} (edit : op.target? = some target) :
    ∃ reply : Document → Reply Document Bool,
      (∀ d, op.apply d = ((reply d).state, (reply d).result.map .flag)) ∧
      ∀ d : Document, d.Mirrors target (reply d) (reply (d.alone target)) := by
  cases op with
  | add t file hint =>
    cases edit
    exact ⟨_, fun _ => rfl, fun _ => Document.addFile_mirrors file hint⟩
  | rename t old new =>
    cases edit
    exact ⟨_, fun _ => rfl, fun _ => Document.renameFile_mirrors old new⟩
  | remove t file =>
    cases edit
    exact ⟨_, fun _ => rfl, fun _ => Document.removeFile_mirrors file⟩
  | setSorting on => cases edit
  | setCreating on => cases edit
  | setDefaultSection name => cases edit
  | addListener => cases edit
  | write => cases edit
  | save host => cases edit
  | reload => cases edit

/-- What an edit does to every document in which the statements of its target are the same. -/
theorem exists_effect {op : Operation} {target : Text} (edit : op.target? = some target)
    {d : Document} {answer : Answer} (h : (op.apply d).2 = .ok answer) :
    (∀ d', d'.alone target = d.alone target → op.apply d' = (d', .ok answer)) ∨
    ∃ given : List Sources, (∀ s ∈ given, s.target = target) ∧
      ∀ d', d'.alone target = d.alone target →
        op.apply d' = (d'.exchange target given, .ok answer) := by
  obtain ⟨reply, happly, mirrors⟩ := exists_mirrors edit
  have same : ∀ d', d'.alone target = d.alone target →
      (reply d').result = (reply (d.alone target)).result := by
    intro d' heq
    rw [(mirrors d').result, heq]
  rw [happly, same d rfl] at h
  cases hr : (reply (d.alone target)).result with
  | error fault =>
    rw [hr] at h
    cases h
  | ok b =>
    rw [hr] at h
    cases h
    cases b with
    | false =>
      left
      intro d' heq
      have hfalse := (same d' heq).trans hr
      rw [happly, (mirrors d').refused hfalse, hfalse]
      rfl
    | true =>
      right
      refine ⟨(reply (d.alone target)).state.pending, ?_, ?_⟩
      · exact (mirrors d).own ((same d rfl).trans hr)
      · intro d' heq
        have htrue := (same d' heq).trans hr
        rw [happly, (mirrors d').done htrue, htrue, heq]
        rfl

theorem run_pair {d middle next : Document} {op₁ op₂ : Operation} {a₁ a₂ : Answer}
    (h₁ : op₁.apply d = (middle, .ok a₁)) (h₂ : op₂.apply middle = (next, .ok a₂))
    (rest : List Operation) :
    run d (op₁ :: op₂ :: rest) = (run next rest).map fun p => (p.1, a₁ :: a₂ :: p.2) := by
  simp only [run, h₁, h₂]
  cases run next rest with
  | error fault => rfl
  | ok p => rfl

end Operation

open Document

/-- Edits of different targets commute. If not both of them create a block, they give the same two
answers in either order and leave the same document, so that all that follows, a write among it,
gives the same as well. -/
theorem edits_commute {d last : Document} {op₁ op₂ : Operation} {t₁ t₂ : Text} {a₁ a₂ : Answer}
    {rest : List Operation} {answers : List Answer} (edit₁ : op₁.target? = some t₁)
    (edit₂ : op₂.target? = some t₂) (ne : t₁ ≠ t₂) (few : ¬ (op₁.creates d ∧ op₂.creates d))
    (h : Operation.run d (op₁ :: op₂ :: rest) = .ok (last, a₁ :: a₂ :: answers)) :
    Operation.run d (op₂ :: op₁ :: rest) = .ok (last, a₂ :: a₁ :: answers) := by
  obtain ⟨_, _, ok₁, hrun, heq⟩ := Operation.run_cons h
  cases heq
  obtain ⟨_, _, ok₂, hrest, heq⟩ := Operation.run_cons hrun
  cases heq
  -- The second edit is looked at in the document that the first one left. Its effect there is the
  -- one it has in the first document, since the statements of its target are the same in both.
  suffices swapped : ∃ middle next, op₂.apply d = (middle, .ok a₂) ∧
      op₁.apply middle = (next, .ok a₁) ∧ next = (op₂.apply (op₁.apply d).1).1 by
    obtain ⟨middle, next, hsecond, hfirst, rfl⟩ := swapped
    rw [Operation.run_pair hsecond hfirst, hrest]
    rfl
  rcases Operation.exists_effect edit₁ ok₁ with kept₁ | ⟨mine, own₁, done₁⟩
  · have hd := kept₁ d rfl
    rw [hd] at ok₂ ⊢
    rcases Operation.exists_effect edit₂ ok₂ with kept₂ | ⟨theirs, own₂, done₂⟩
    · exact ⟨d, d, kept₂ d rfl, hd, by rw [kept₂ d rfl]⟩
    · exact ⟨_, _, done₂ d rfl, kept₁ _ (alone_exchange ne.symm own₂), by rw [done₂ d rfl]⟩
  · have hd := done₁ d rfl
    rw [hd] at ok₂ ⊢
    have halone : d.alone t₂ = (d.exchange t₁ mine).alone t₂ := (alone_exchange ne own₁).symm
    rcases Operation.exists_effect edit₂ ok₂ with kept₂ | ⟨theirs, own₂, done₂⟩
    · exact ⟨d, _, kept₂ d halone, hd, by rw [kept₂ _ rfl]⟩
    · have hd₂ := done₂ d halone
      refine ⟨_, _, hd₂, done₁ _ (alone_exchange ne.symm own₂), ?_⟩
      rw [done₂ _ rfl]
      refine (exchange_comm ne own₁ own₂ ?_).symm
      by_contra! left
      refine few ⟨?_, ?_⟩
      · rw [Operation.creates, hd, length_pending_exchange]
        have := List.length_pos_iff.mpr left.1
        omega
      · rw [Operation.creates, hd₂, length_pending_exchange]
        have := List.length_pos_iff.mpr left.2
        omega

/-- A file of one target is renamed, in a section that is kept in order, and another target gets
a block of its own: the text written is the same in either order. -/
theorem edits_commute_created :
    let d := (Document.ofBuffer (Buffer.ofString "add_library(app b.c # x\n  a.c)\n")
      { sorting := true }).state
    let op₁ : Operation := .rename "app" "b.c" "c.c"
    let op₂ : Operation := .add "tool" "m.c" none
    let written := Utf8.encode (Text.ofString
      "add_library(app # x\n  a.c c.c)\ntarget_sources(tool\n    PRIVATE\n    m.c\n)\n")
    ¬ op₁.creates d ∧ op₂.creates d ∧
    ∃ last, Operation.run d [op₁, op₂, .write] =
        .ok (last, [.flag true, .flag true, .bytes written]) ∧
      Operation.run d [op₂, op₁, .write] =
        .ok (last, [.flag true, .flag true, .bytes written]) := by
  intro d op₁ op₂ written
  have none₁ : ¬ op₁.creates d := by
    unfold Operation.creates
    decide +kernel
  have one₂ : op₂.creates d := by
    unfold Operation.creates
    decide +kernel
  have answered : (Operation.run d [op₁, op₂, .write]).toOption.map (·.2) =
      some [.flag true, .flag true, .bytes written] := by
    decide +kernel
  obtain ⟨⟨last, _⟩, hrun, rfl⟩ := exists_ok_of_toOption answered
  exact ⟨none₁, one₂, last, hrun,
    edits_commute rfl rfl (by decide) (fun both => none₁ both.1) hrun⟩

end Listfile
