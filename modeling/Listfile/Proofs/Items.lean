import Listfile.Document.Edit
import Listfile.Proofs.Classify
import Mathlib.Data.List.Forall2

/-!
The statements of a document as one list, those of the file first and the created ones after them.
Every edit is a change of the sources in that list; spans, other statements and the buffer stay.
-/

namespace Listfile

section Related

variable {α β γ : Type}

theorem forall₂_of_map_eq {f : α → γ} {g : β → γ} {as : List α} {bs : List β}
    (h : as.map f = bs.map g) : List.Forall₂ (fun a b => f a = g b) as bs := by
  have : List.Forall₂ Eq (as.map f) (bs.map g) := h ▸ List.forall₂_refl _
  exact List.forall₂_map_left_iff.mp (List.forall₂_map_right_iff.mp this)

theorem forall₂_trans {R : α → β → Prop} {S : β → γ → Prop} {T : α → γ → Prop}
    (comp : ∀ a b c, R a b → S b c → T a c) {as : List α} {bs : List β} {cs : List γ}
    (h : List.Forall₂ R as bs) (k : List.Forall₂ S bs cs) : List.Forall₂ T as cs := by
  induction h generalizing cs with
  | nil =>
    cases k
    exact .nil
  | cons hab _ ih =>
    cases k with
    | cons hbc hrest => exact .cons (comp _ _ _ hab hbc) (ih hrest)

theorem forall₂_modify {R : α → α → Prop} (refl : ∀ a, R a a) {l : List α} {n : Nat} {f : α → α}
    (h : ∀ a, l[n]? = some a → R a (f a)) : List.Forall₂ R l (l.modify n f) := by
  induction l generalizing n with
  | nil => simp
  | cons a rest ih =>
    cases n with
    | zero => exact .cons (h a rfl) (List.forall₂_same.mpr fun b _ => refl b)
    | succ n => exact .cons (refl a) (ih fun b hb => h b (by simpa using hb))

end Related

namespace Block

@[simp] theorem sources?_other (s : Statement) : (other s).sources? = none := rfl

@[simp] theorem sources?_listing (s : Sources) : (listing s).sources? = some s := rfl

theorem sources?_listings (l : List Sources) : (l.map listing).filterMap sources? = l := by
  induction l with
  | nil => rfl
  | cons s rest ih => simpa using ih

end Block

namespace Document

def items (d : Document) : List Block := d.blocks.map (·.item) ++ d.pending.map Block.listing

theorem sources_eq_items (d : Document) : d.sources = d.items.filterMap Block.sources? := by
  rw [items, List.filterMap_append, Block.sources?_listings, List.filterMap_map]
  rfl

/-- Puts sources in the place of those of a list of statements, in order. -/
def refillItems : List Block → List Sources → List Block
  | [], _ => []
  | .listing s :: rest, [] => .listing s :: refillItems rest []
  | .listing _ :: rest, s :: more => .listing s :: refillItems rest more
  | .other s :: rest, given => .other s :: refillItems rest given

theorem refillItems_listings {pending given : List Sources} (h : given.length = pending.length) :
    refillItems (pending.map Block.listing) given = given.map Block.listing := by
  induction pending generalizing given with
  | nil => simp [List.eq_nil_of_length_eq_zero h, refillItems]
  | cons s rest ih =>
    cases given with
    | nil => simp at h
    | cons g more => simp [refillItems, ih (by simpa using h)]

theorem refill_spans (blocks : List (Placed Block)) (given : List Sources) :
    (refill blocks given).1.map (·.span) = blocks.map (·.span) := by
  induction blocks generalizing given with
  | nil => rfl
  | cons b rest ih =>
    unfold refill
    split
    · simp [ih]
    · simp [ih]

theorem refill_items (blocks : List (Placed Block)) (pending given : List Sources)
    (h : given.length = (blocks.filterMap (·.item.sources?)).length + pending.length) :
    (refill blocks given).1.map (·.item) ++ (refill blocks given).2.map Block.listing =
      refillItems (blocks.map (·.item) ++ pending.map Block.listing) given := by
  induction blocks generalizing given with
  | nil =>
    have hlen : given.length = pending.length := by simpa using h
    simp [refill, refillItems_listings hlen]
  | cons b rest ih =>
    obtain ⟨span, item⟩ := b
    cases item with
    | other s =>
      have := ih given (by simpa [List.filterMap_cons] using h)
      simp [refill, refillItems, this]
    | listing s =>
      cases given with
      | nil =>
        simp only [List.filterMap_cons, Block.sources?_listing, List.length_cons] at h
        simp only [List.length_nil] at h
        omega
      | cons g more =>
        have := ih more (by
          simp only [List.filterMap_cons, Block.sources?_listing, List.length_cons] at h
          omega)
        simp [refill, refillItems, this]

theorem items_withSources {d : Document} {given : List Sources}
    (h : given.length = d.sources.length) :
    (d.withSources given).items = refillItems d.items given := by
  have := refill_items d.blocks d.pending given (by simpa [sources] using h)
  simpa [withSources, items] using this

theorem sources_refillItems {items : List Block} {given : List Sources}
    (h : given.length = (items.filterMap Block.sources?).length) :
    (refillItems items given).filterMap Block.sources? = given := by
  induction items generalizing given with
  | nil => rw [List.eq_nil_of_length_eq_zero h]; rfl
  | cons b rest ih =>
    cases b with
    | other s =>
      rw [List.filterMap_cons_none (Block.sources?_other s)] at h
      simpa [refillItems, List.filterMap_cons] using ih h
    | listing s =>
      cases given with
      | nil => simp at h
      | cons g more => simpa [refillItems] using ih (by simpa using h)

theorem sources_withSources {d : Document} {given : List Sources}
    (h : given.length = d.sources.length) : (d.withSources given).sources = given := by
  rw [sources_eq_items, items_withSources h]
  exact sources_refillItems (by rw [h, sources_eq_items])

theorem spans_withSources (d : Document) (given : List Sources) :
    (d.withSources given).blocks.map (·.span) = d.blocks.map (·.span) :=
  refill_spans d.blocks given

theorem length_refill (blocks : List (Placed Block)) (given : List Sources) :
    (refill blocks given).1.length = blocks.length := by
  have := congrArg List.length (refill_spans blocks given)
  simpa using this

/-- A relation that holds between old and new sources holds between old and new statements. -/
theorem forall₂_refillItems {R : Block → Block → Prop} (other : ∀ s, R (.other s) (.other s))
    {items : List Block} {given : List Sources}
    (h : List.Forall₂ (fun s s' => R (.listing s) (.listing s'))
      (items.filterMap Block.sources?) given) :
    List.Forall₂ R items (refillItems items given) := by
  induction items generalizing given with
  | nil => exact .nil
  | cons b rest ih =>
    cases b with
    | other s => exact .cons (other s) (ih (by simpa [List.filterMap_cons] using h))
    | listing s =>
      simp only [List.filterMap_cons, Block.sources?_listing] at h
      cases h with
      | cons hs hrest => exact .cons hs (ih hrest)

theorem blocks_items (d : Document) : d.blocks.map (·.item) = d.items.take d.blocks.length := by
  simp [items]

theorem forall₂_withSources {R : Block → Block → Prop} (refl : ∀ b, R b b) {d : Document}
    {given : List Sources}
    (h : List.Forall₂ (fun s s' => R (.listing s) (.listing s')) d.sources given) :
    List.Forall₂ R (d.blocks.map (·.item)) ((d.withSources given).blocks.map (·.item)) := by
  have hlen : (d.withSources given).blocks.length = d.blocks.length := length_refill _ _
  rw [blocks_items, blocks_items, hlen, items_withSources h.length_eq.symm]
  apply List.forall₂_take
  exact forall₂_refillItems (fun s => refl (.other s)) (by rwa [sources_eq_items] at h)

theorem refill_left (blocks : List (Placed Block)) (given : List Sources) :
    (refill blocks given).2 = given.drop (blocks.filterMap (·.item.sources?)).length := by
  induction blocks generalizing given with
  | nil => simp [refill]
  | cons b rest ih =>
    obtain ⟨span, item⟩ := b
    cases item with
    | other s => simp [refill, ih, List.filterMap_cons]
    | listing s =>
      cases given with
      | nil => simp [refill, ih]
      | cons g more => simp [refill, ih]

theorem forall₂_pending {R : Sources → Sources → Prop} {d : Document} {given : List Sources}
    (h : List.Forall₂ R d.sources given) :
    List.Forall₂ R d.pending (d.withSources given).pending := by
  have hold : d.pending = d.sources.drop (d.blocks.filterMap (·.item.sources?)).length := by
    simp [sources]
  have hnew : (d.withSources given).pending =
      given.drop (d.blocks.filterMap (·.item.sources?)).length := refill_left d.blocks given
  rw [hold, hnew]
  exact List.forall₂_drop _ h

theorem length_restoreTarget (target : Text) (all given : List Sources) :
    (restoreTarget target all given).length = all.length := by
  induction all generalizing given with
  | nil => rfl
  | cons s rest ih =>
    unfold restoreTarget
    split
    · split <;> simp [ih]
    · simp [ih]

theorem sources_withTarget (d : Document) (target : Text) (given : List Sources) :
    (d.withTarget target given).sources = restoreTarget target d.sources given :=
  sources_withSources (length_restoreTarget target d.sources given)

theorem filter_restoreTarget {target : Text} {all given : List Sources}
    (own : ∀ s ∈ given, s.target = target)
    (h : given.length = (all.filter fun s => s.target = target).length) :
    ((restoreTarget target all given).filter fun s => s.target = target) = given := by
  induction all generalizing given with
  | nil => rw [List.eq_nil_of_length_eq_zero h]; rfl
  | cons s rest ih =>
    by_cases ht : s.target = target
    · cases given with
      | nil => simp [ht] at h
      | cons g more =>
        rw [List.forall_mem_cons] at own
        simpa [restoreTarget, ht, own.1] using ih own.2 (by simpa [ht] using h)
    · simpa [restoreTarget, ht] using ih own (by simpa [ht] using h)

theorem sourcesOf_withTarget {d : Document} {target : Text} {given : List Sources}
    (own : ∀ s ∈ given, s.target = target) (h : given.length = (d.sourcesOf target).length) :
    (d.withTarget target given).sourcesOf target = given := by
  rw [sourcesOf, sources_withTarget]
  exact filter_restoreTarget own h

theorem forall₂_restoreTarget {R : Sources → Sources → Prop} (refl : ∀ s, R s s) {target : Text}
    {all given : List Sources} (h : List.Forall₂ R (all.filter fun s => s.target = target) given) :
    List.Forall₂ R all (restoreTarget target all given) := by
  induction all generalizing given with
  | nil => exact .nil
  | cons s rest ih =>
    by_cases ht : s.target = target
    · simp only [ht, decide_true, List.filter_cons_of_pos] at h
      cases h with
      | cons hs hrest =>
        simp only [restoreTarget, ht, if_true]
        exact .cons hs (ih hrest)
    · simp only [restoreTarget, ht, if_false]
      refine .cons (refl s) (ih ?_)
      simpa [ht] using h

end Document

end Listfile
