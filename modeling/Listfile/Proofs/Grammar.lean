import Listfile.Proofs.Scan
import Listfile.Statement.Parse
import Mathlib.Data.List.Forall2

/-!
The grammar of a listfile over its tokens. A listfile is a sequence of phrases, each a statement
with the tokens before it, and what follows the last one. The reader accepts exactly the token
lists of that form, and the statements it gives are those of the phrases.
-/

namespace Listfile

theorem map_eq_of_forall₂ {α β γ : Type} {f : α → γ} {g : β → γ} {as : List α} {bs : List β}
    (h : List.Forall₂ (fun a b => f a = g b) as bs) : as.map f = bs.map g := by
  induction h with
  | nil => rfl
  | cons hab _ ih => rw [List.map_cons, List.map_cons, hab, ih]

theorem forall₂_concat {α β : Type} {R : α → β → Prop} {as : List α} {bs : List β} {a : α} {b : β}
    (h : List.Forall₂ R as bs) (hab : R a b) : List.Forall₂ R (as ++ [a]) (bs ++ [b]) :=
  List.rel_append h (.cons hab .nil)

namespace Parse

/-- Passes a token outside statements; none when it is bad or opens a statement. -/
def idle (mayOpen : Bool) (t : Token) : Option Bool :=
  if t.kind.isBad then none
  else if t.kind = .newline then some true
  else if t.kind = .identifier && mayOpen then none
  else some mayOpen

/-- Tokens between statements. The flags say whether a statement may open before and after them. -/
def Gap (before : Bool) (tokens : List Token) (after : Bool) : Prop :=
  tokens.foldlM idle before = some after

def depthAfter (depth : Nat) (k : TokenKind) : Option Nat :=
  if k = .parenLeft then some (depth + 1)
  else if k = .parenRight then (if depth = 0 then none else some (depth - 1))
  else some depth

/-- The layout before an argument and the token of the argument itself. -/
structure Part where
  layout : List Token
  word : Token

def Part.tokens (p : Part) : List Token := p.layout ++ [p.word]

structure Part.Reads (p : Part) (a : Argument) : Prop where
  layout : ∀ t ∈ p.layout, t.kind.isSeparator = true
  word : p.word.kind.isSeparator = false ∧ p.word.kind.isBad = false
  source : Argument.ofSource? (delimiterOf p.word.kind) (Token.textOf p.layout) p.word.text = some a

/-- Parts whose parentheses lead from one depth to another. -/
def Nested (parts : List Part) (before after : Nat) : Prop :=
  (parts.map (·.word.kind)).foldlM depthAfter before = some after

structure Phrase where
  gap : List Token
  name : Token
  leading : List Token
  opener : Token
  parts : List Part
  trailing : List Token
  closer : Token

namespace Phrase

def head (p : Phrase) : List Token := p.name :: p.leading ++ [p.opener]

def call (p : Phrase) : List Token :=
  p.head ++ p.parts.flatMap Part.tokens ++ p.trailing ++ [p.closer]

def tokens (p : Phrase) : List Token := p.gap ++ p.call

structure Reads (p : Phrase) (s : Placed Statement) : Prop where
  name : p.name.kind = .identifier
  leading : ∀ t ∈ p.leading, t.kind = .space
  opener : p.opener.kind = .parenLeft
  parts : List.Forall₂ Part.Reads p.parts s.item.arguments
  nested : Nested p.parts 0 0
  trailing : ∀ t ∈ p.trailing, t.kind.isSeparator = true
  closer : p.closer.kind = .parenRight
  command : s.item.command =
    .named p.name.text [] (Token.textOf p.leading) (Token.textOf p.trailing)
  span : s.span = ⟨p.name.position, p.closer.position⟩

/-- The gaps of phrases; after the first statement none may open on the same line. -/
def Gaps (mayOpen : Bool) : List Phrase → Prop
  | [] => True
  | p :: rest => Gap mayOpen p.gap true ∧ Gaps false rest

theorem gaps_concat {mayOpen : Bool} {phrases : List Phrase} {p : Phrase} :
    Gaps mayOpen (phrases ++ [p]) ↔
      Gaps mayOpen phrases ∧ Gap (mayOpen && phrases.isEmpty) p.gap true := by
  induction phrases generalizing mayOpen with
  | nil => simp [Gaps]
  | cons q rest ih => simp [Gaps, ih, and_assoc]

end Phrase

theorem gap_concat {before after : Bool} {tokens : List Token} {t : Token} :
    Gap before (tokens ++ [t]) after ↔ ∃ m, Gap before tokens m ∧ idle m t = some after := by
  simp only [Gap, List.foldlM_append, List.foldlM_cons, List.foldlM_nil]
  cases h : tokens.foldlM idle before <;> simp

theorem nested_concat {before after : Nat} {parts : List Part} {p : Part} :
    Nested (parts ++ [p]) before after ↔
      ∃ m, Nested parts before m ∧ depthAfter m p.word.kind = some after := by
  simp only [Nested, List.map_append, List.foldlM_append, List.map_cons, List.map_nil,
    List.foldlM_cons, List.foldlM_nil]
  cases h : (parts.map (·.word.kind)).foldlM depthAfter before <;> simp

def phraseTokens (phrases : List Phrase) : List Token := phrases.flatMap Phrase.tokens

/-- The tokens since the last complete statement, by the place of the reader. -/
inductive Pending (mayOpen : Bool) : Mode → List Token → Prop where
  | outside {gap m} : Gap mayOpen gap m → Pending mayOpen (.outside m) gap
  | named {gap leading} {name : Token} : Gap mayOpen gap true → name.kind = .identifier →
      (∀ t ∈ leading, t.kind = .space) →
      Pending mayOpen (.named ⟨name.text, name.position, Token.textOf leading⟩)
        (gap ++ name :: leading)
  | inside {gap leading parts layout depth arguments} {name opener : Token} :
      Gap mayOpen gap true → name.kind = .identifier → (∀ t ∈ leading, t.kind = .space) →
      opener.kind = .parenLeft → List.Forall₂ Part.Reads parts arguments →
      Nested parts 0 depth → (∀ t ∈ layout, t.kind.isSeparator = true) →
      Pending mayOpen
        (.inside ⟨name.text, name.position, Token.textOf leading⟩ depth (Token.textOf layout)
          arguments)
        (gap ++ (name :: leading ++ [opener]) ++ parts.flatMap Part.tokens ++ layout)

def Reading (s : State) (tokens : List Token) : Prop :=
  ∃ phrases rest, tokens = phraseTokens phrases ++ rest ∧
    List.Forall₂ Phrase.Reads phrases s.done ∧ Phrase.Gaps true phrases ∧
    Pending phrases.isEmpty s.mode rest

theorem reading_start : Reading {} [] :=
  ⟨[], [], rfl, .nil, trivial, .outside rfl⟩

theorem stepOutside_cases {mayOpen : Bool} {t : Token} {m : Mode}
    (h : stepOutside mayOpen t = .ok m) :
    (∃ after, idle mayOpen t = some after ∧ m = .outside after) ∨
    (mayOpen = true ∧ t.kind = .identifier ∧ m = .named ⟨t.text, t.position, []⟩) := by
  unfold stepOutside at h
  unfold idle
  split at h
  · cases h
  split at h
  · cases h
    exact Or.inl ⟨true, by simp_all, rfl⟩
  split at h
  · next hi =>
    cases h
    simp only [Bool.and_eq_true, decide_eq_true_eq] at hi
    exact Or.inr ⟨hi.2, hi.1, rfl⟩
  · cases h
    exact Or.inl ⟨mayOpen, by simp_all, rfl⟩

theorem stepNamed_cases {o : Opening} {t : Token} {m : Mode} (h : stepNamed o t = .ok m) :
    (t.kind = .space ∧ m = .named { o with leading := o.leading ++ t.text }) ∨
    (t.kind = .parenLeft ∧ m = .inside o 0 [] []) := by
  unfold stepNamed at h
  split at h
  · next hk => cases h; exact Or.inl ⟨hk, rfl⟩
  · next hk => cases h; exact Or.inr ⟨hk, rfl⟩
  · cases h

theorem pushArgument_cases {o : Opening} {depth : Nat} {separator : Text}
    {arguments : List Argument} {t : Token} {m : Mode}
    (h : pushArgument o depth separator arguments t = .ok m) :
    ∃ a, Argument.ofSource? (delimiterOf t.kind) separator t.text = some a ∧
      m = .inside o depth [] (arguments ++ [a]) := by
  unfold pushArgument at h
  split at h
  · next a ha => cases h; exact ⟨a, ha, rfl⟩
  · cases h

theorem stepInside_cases {o : Opening} {depth : Nat} {separator : Text}
    {arguments : List Argument} {t : Token} {m : Mode}
    (open_ : ¬ (t.kind = .parenRight ∧ depth = 0))
    (h : stepInside o depth separator arguments t = .ok m) :
    (t.kind.isSeparator = true ∧ m = .inside o depth (separator ++ t.text) arguments) ∨
    (t.kind.isSeparator = false ∧ t.kind.isBad = false ∧
      ∃ a later, Argument.ofSource? (delimiterOf t.kind) separator t.text = some a ∧
        depthAfter depth t.kind = some later ∧ m = .inside o later [] (arguments ++ [a])) := by
  unfold stepInside at h
  split at h
  · next hs => cases h; exact Or.inl ⟨hs, rfl⟩
  next hs =>
  split at h
  · cases h
  next hb =>
  refine Or.inr ⟨by simpa using hs, by simpa using hb, ?_⟩
  split at h
  · next hk =>
    obtain ⟨a, ha, rfl⟩ := pushArgument_cases h
    exact ⟨a, depth + 1, ha, by simp [depthAfter, hk], rfl⟩
  split at h
  · next hk =>
    obtain ⟨a, ha, rfl⟩ := pushArgument_cases h
    have hd : depth ≠ 0 := fun hz => open_ ⟨hk, hz⟩
    exact ⟨a, depth - 1, ha, by simp [depthAfter, hk, hd], rfl⟩
  · next hl hr =>
    obtain ⟨a, ha, rfl⟩ := pushArgument_cases h
    exact ⟨a, depth, ha, by simp [depthAfter, hl, hr], rfl⟩

/-- What a token does to the reader: inside a statement it may be the last one, and otherwise it
changes the place only. -/
theorem step_cases {s s' : State} {t : Token} (h : step s t = .ok s') :
    (∃ mayOpen, s.mode = .outside mayOpen ∧ s'.done = s.done ∧
      stepOutside mayOpen t = .ok s'.mode) ∨
    (∃ o, s.mode = .named o ∧ s'.done = s.done ∧ stepNamed o t = .ok s'.mode) ∨
    (∃ o depth separator arguments, s.mode = .inside o depth separator arguments ∧
      ¬ (t.kind = .parenRight ∧ depth = 0) ∧ s'.done = s.done ∧
      stepInside o depth separator arguments t = .ok s'.mode) ∨
    (∃ o separator arguments, s.mode = .inside o 0 separator arguments ∧ t.kind = .parenRight ∧
      s'.done = s.done ++ [⟨⟨o.first, t.position⟩, ⟨o.command separator, arguments⟩⟩] ∧
      s'.mode = .outside false) := by
  unfold step at h
  split at h
  · next mayOpen hm =>
    cases hs : stepOutside mayOpen t with
    | error e => simp [hs, Except.map] at h
    | ok m =>
      simp only [hs, Except.map, Except.ok.injEq] at h
      subst h
      exact Or.inl ⟨mayOpen, hm, rfl, hs⟩
  · next o hm =>
    cases hs : stepNamed o t with
    | error e => simp [hs, Except.map] at h
    | ok m =>
      simp only [hs, Except.map, Except.ok.injEq] at h
      subst h
      exact Or.inr (Or.inl ⟨o, hm, rfl, hs⟩)
  · next o depth separator arguments hm =>
    split at h
    · next hc =>
      simp only [Bool.and_eq_true, decide_eq_true_eq] at hc
      obtain ⟨hk, rfl⟩ := hc
      simp only [Except.ok.injEq] at h
      subst h
      exact Or.inr (Or.inr (Or.inr ⟨o, separator, arguments, hm, hk, rfl, rfl⟩))
    · next hc =>
      simp only [Bool.and_eq_true, decide_eq_true_eq] at hc
      cases hs : stepInside o depth separator arguments t with
      | error e => simp [hs, Except.map] at h
      | ok m =>
        simp only [hs, Except.map, Except.ok.injEq] at h
        subst h
        exact Or.inr (Or.inr (Or.inl ⟨o, depth, separator, arguments, hm, hc, rfl, hs⟩))

theorem pending_step {mayOpen : Bool} {s s' : State} {t : Token} {rest : List Token}
    (pending : Pending mayOpen s.mode rest) (h : step s t = .ok s') (same : s'.done = s.done) :
    Pending mayOpen s'.mode (rest ++ [t]) := by
  rcases step_cases h with ⟨m, hm, -, hs⟩ | ⟨o, hm, -, hs⟩ | ⟨o, depth, separator, arguments, hm,
    hc, -, hs⟩ | ⟨o, separator, arguments, -, -, hdone, -⟩
  · rw [hm] at pending
    cases pending with
    | outside gap =>
      rcases stepOutside_cases hs with ⟨after, hi, hm'⟩ | ⟨rfl, hk, hm'⟩
      · rw [hm']
        exact .outside (gap_concat.mpr ⟨m, gap, hi⟩)
      · rw [hm']
        exact .named gap hk (fun u (hu : u ∈ []) => absurd hu (by simp))
  · rw [hm] at pending
    cases pending with
    | @named gap leading name hgap hname hleading =>
      rcases stepNamed_cases hs with ⟨hk, hm'⟩ | ⟨hk, hm'⟩
      · have eq : Token.textOf leading ++ t.text = Token.textOf (leading ++ [t]) := by simp
        have hspaces : ∀ u ∈ leading ++ [t], u.kind = .space := by
          intro u hu
          rcases List.mem_append.mp hu with hu | hu
          · exact hleading u hu
          · rw [List.mem_singleton.mp hu]
            exact hk
        rw [hm', List.append_assoc, List.cons_append]
        simp only [eq]
        exact .named hgap hname hspaces
      · rw [hm', List.append_assoc, List.cons_append]
        have := Pending.inside hgap hname hleading hk .nil rfl
          (fun u (hu : u ∈ []) => absurd hu (by simp))
        simpa using this
  · rw [hm] at pending
    cases pending with
    | @inside gap leading parts layout depth arguments name opener hgap hname hleading hopener
        hparts hnested hlayout =>
      rcases stepInside_cases hc hs with ⟨hk, hm'⟩ | ⟨hk, hb, a, later, ha, hd, hm'⟩
      · have eq : Token.textOf layout ++ t.text = Token.textOf (layout ++ [t]) := by simp
        have hseparators : ∀ u ∈ layout ++ [t], u.kind.isSeparator = true := by
          intro u hu
          rcases List.mem_append.mp hu with hu | hu
          · exact hlayout u hu
          · rw [List.mem_singleton.mp hu]
            exact hk
        rw [hm', List.append_assoc, eq]
        exact .inside hgap hname hleading hopener hparts hnested hseparators
      · -- The layout so far and the token are one more part.
        have hpart : Part.Reads ⟨layout, t⟩ a := ⟨hlayout, ⟨hk, hb⟩, ha⟩
        have := Pending.inside hgap hname hleading hopener (forall₂_concat hparts hpart)
          (nested_concat.mpr ⟨_, hnested, hd⟩) (fun u (hu : u ∈ []) => absurd hu (by simp))
        rw [hm']
        simpa [Part.tokens] using this
  · rw [hdone] at same
    simp at same

theorem reading_step {s s' : State} {t : Token} {tokens : List Token}
    (reading : Reading s tokens) (h : step s t = .ok s') : Reading s' (tokens ++ [t]) := by
  obtain ⟨phrases, rest, rfl, hreads, hgaps, pending⟩ := reading
  by_cases same : s'.done = s.done
  · refine ⟨phrases, rest ++ [t], by simp, ?_, hgaps, pending_step pending h same⟩
    rw [same]
    exact hreads
  rcases step_cases h with ⟨_, -, hd, -⟩ | ⟨_, -, hd, -⟩ | ⟨_, _, _, _, -, -, hd, -⟩ |
    ⟨o, separator, arguments, hm, hk, hd, hm'⟩
  · exact absurd hd same
  · exact absurd hd same
  · exact absurd hd same
  -- The statement is complete, and with the tokens before it the next phrase.
  rw [hm] at pending
  cases pending with
  | @inside gap leading parts layout depth arguments name opener hgap hname hleading hopener
      hparts hnested hlayout =>
    let phrase : Phrase := ⟨gap, name, leading, opener, parts, layout, t⟩
    refine ⟨phrases ++ [phrase], [], ?_, ?_, ?_, ?_⟩
    · simp [phraseTokens, phrase, Phrase.tokens, Phrase.call, Phrase.head]
    · rw [hd]
      exact forall₂_concat hreads
        ⟨hname, hleading, hopener, hparts, hnested, hlayout, hk, rfl, rfl⟩
    · exact Phrase.gaps_concat.mpr ⟨hgaps, by simpa using hgap⟩
    · rw [hm']
      have hne : (phrases ++ [phrase]).isEmpty = false := by simp
      rw [hne]
      exact .outside rfl

theorem reading_run {s s' : State} {tokens more : List Token} (reading : Reading s tokens)
    (h : run s more = .ok s') : Reading s' (tokens ++ more) := by
  induction more generalizing s tokens with
  | nil =>
    simp only [run, Except.ok.injEq] at h
    subst h
    simpa using reading
  | cons t more ih =>
    simp only [run] at h
    split at h
    · next s₁ hs =>
      have := ih (reading_step reading hs) h
      simpa using this
    · cases h

/-- A listfile: phrases and what follows the last one. -/
structure Listing (tokens : List Token) (statements : List (Placed Statement))
    (phrases : List Phrase) (tail : List Token) : Prop where
  tokens_eq : tokens = phraseTokens phrases ++ tail
  reads : List.Forall₂ Phrase.Reads phrases statements
  gaps : Phrase.Gaps true phrases
  tail_gap : ∃ after, Gap phrases.isEmpty tail after

theorem listing_of_ofTokens {tokens : List Token} {statements : List (Placed Statement)}
    (h : Statement.ofTokens tokens = .ok statements) :
    ∃ phrases tail, Listing tokens statements phrases tail := by
  unfold Statement.ofTokens at h
  split at h
  · next s hs =>
    obtain ⟨phrases, rest, eq, hreads, hgaps, pending⟩ := reading_run reading_start hs
    unfold finish at h
    split at h
    · next m hm =>
      simp only [Except.ok.injEq] at h
      rw [hm] at pending
      cases pending with
      | outside hgap => exact ⟨phrases, rest, by simpa using eq, h ▸ hreads, hgaps, m, hgap⟩
    · cases h
    · cases h
  · cases h

theorem run_append {s s' : State} {tokens : List Token} (h : run s tokens = .ok s')
    (more : List Token) : run s (tokens ++ more) = run s' more := by
  induction tokens generalizing s with
  | nil =>
    simp only [run, Except.ok.injEq] at h
    subst h
    rfl
  | cons t tokens ih =>
    simp only [run, List.cons_append] at h ⊢
    split at h
    · next s₁ hs => exact ih h
    · cases h

theorem stepOutside_of_idle {m after : Bool} {t : Token} (h : idle m t = some after) :
    stepOutside m t = .ok (.outside after) := by
  unfold idle at h
  unfold stepOutside
  split at h
  · cases h
  · next hb =>
    split at h
    · next hn => cases h; simp [hn, TokenKind.isBad]
    · next hn =>
      split at h
      · cases h
      · next hi => cases h; simp only [hb, hn, hi]; simp

theorem run_gap {m after : Bool} {gap : List Token} (h : Gap m gap after)
    (done : List (Placed Statement)) (line : Nat) :
    ∃ line', run ⟨done, .outside m, line⟩ gap = .ok ⟨done, .outside after, line'⟩ := by
  induction gap generalizing m line with
  | nil =>
    simp only [Gap, List.foldlM_nil, Option.pure_def, Option.some.injEq] at h
    subst h
    exact ⟨line, rfl⟩
  | cons t gap ih =>
    simp only [Gap, List.foldlM_cons, Option.bind_eq_bind, Option.bind_eq_some_iff] at h
    obtain ⟨m₁, hi, hrest⟩ := h
    obtain ⟨line', hrun⟩ := ih hrest t.position.line
    refine ⟨line', ?_⟩
    simp only [run, step, stepOutside_of_idle hi, Except.map]
    exact hrun

theorem run_leading {leading : List Token} (h : ∀ t ∈ leading, t.kind = .space) (o : Opening)
    (done : List (Placed Statement)) (line : Nat) :
    ∃ line', run ⟨done, .named o, line⟩ leading =
      .ok ⟨done, .named { o with leading := o.leading ++ Token.textOf leading }, line'⟩ := by
  induction leading generalizing o line with
  | nil => exact ⟨line, by simp [run]⟩
  | cons t leading ih =>
    obtain ⟨line', hrun⟩ := ih (fun u hu => h u (List.mem_cons_of_mem t hu))
      { o with leading := o.leading ++ t.text } t.position.line
    refine ⟨line', ?_⟩
    have hk := h t List.mem_cons_self
    simp only [run, step, stepNamed, hk, Except.map]
    rw [hrun]
    simp

theorem run_layout {layout : List Token} (h : ∀ t ∈ layout, t.kind.isSeparator = true)
    (o : Opening) (depth : Nat) (separator : Text) (arguments : List Argument)
    (done : List (Placed Statement)) (line : Nat) :
    ∃ line', run ⟨done, .inside o depth separator arguments, line⟩ layout =
      .ok ⟨done, .inside o depth (separator ++ Token.textOf layout) arguments, line'⟩ := by
  induction layout generalizing separator line with
  | nil => exact ⟨line, by simp [run]⟩
  | cons t layout ih =>
    obtain ⟨line', hrun⟩ := ih (fun u hu => h u (List.mem_cons_of_mem t hu))
      (separator ++ t.text) t.position.line
    refine ⟨line', ?_⟩
    have hk := h t List.mem_cons_self
    have hp : t.kind ≠ .parenRight := by
      intro hp
      simp [hp, TokenKind.isSeparator] at hk
    simp only [run, step, stepInside, hk, hp, decide_false, Bool.false_and, Bool.false_eq_true,
      if_false, if_true, Except.map]
    rw [hrun]
    simp

theorem stepInside_of_word {o : Opening} {depth later : Nat} {separator : Text}
    {arguments : List Argument} {t : Token} {a : Argument}
    (hs : t.kind.isSeparator = false) (hb : t.kind.isBad = false)
    (ha : Argument.ofSource? (delimiterOf t.kind) separator t.text = some a)
    (hd : depthAfter depth t.kind = some later) :
    stepInside o depth separator arguments t = .ok (.inside o later [] (arguments ++ [a])) := by
  unfold depthAfter at hd
  simp only [stepInside, pushArgument, hs, hb, ha, Bool.false_eq_true, if_false]
  split at hd
  · next hk => cases hd; simp [hk]
  · next hl =>
    split at hd
    · next hk =>
      split at hd
      · cases hd
      · cases hd; simp [hk]
    · next hk => cases hd; simp [hl, hk]

theorem run_part {p : Part} {a : Argument} (h : p.Reads a) {depth later : Nat}
    (hd : depthAfter depth p.word.kind = some later) (o : Opening) (arguments : List Argument)
    (done : List (Placed Statement)) (line : Nat) :
    ∃ line', run ⟨done, .inside o depth [] arguments, line⟩ p.tokens =
      .ok ⟨done, .inside o later [] (arguments ++ [a]), line'⟩ := by
  obtain ⟨line₁, hlayout⟩ := run_layout h.layout o depth [] arguments done line
  rw [List.nil_append] at hlayout
  refine ⟨p.word.position.line, ?_⟩
  have hopen : ¬ (p.word.kind = .parenRight ∧ depth = 0) := by
    rintro ⟨hk, rfl⟩
    simp [depthAfter, hk] at hd
  rw [Part.tokens, run_append hlayout]
  simp only [run, step, Bool.and_eq_true, decide_eq_true_eq, hopen, if_false,
    stepInside_of_word h.word.1 h.word.2 h.source hd, Except.map]

theorem run_parts {parts : List Part} {found : List Argument}
    (h : List.Forall₂ Part.Reads parts found) {depth later : Nat} (hn : Nested parts depth later)
    (o : Opening) (arguments : List Argument) (done : List (Placed Statement)) (line : Nat) :
    ∃ line', run ⟨done, .inside o depth [] arguments, line⟩ (parts.flatMap Part.tokens) =
      .ok ⟨done, .inside o later [] (arguments ++ found), line'⟩ := by
  induction h generalizing depth arguments line with
  | nil =>
    simp only [Nested, List.map_nil, List.foldlM_nil, Option.pure_def, Option.some.injEq] at hn
    subst hn
    exact ⟨line, by simp [run]⟩
  | @cons p a parts found hp _ ih =>
    simp only [Nested, List.map_cons, List.foldlM_cons, Option.bind_eq_bind,
      Option.bind_eq_some_iff] at hn
    obtain ⟨middle, hd, hrest⟩ := hn
    obtain ⟨line₁, hpart⟩ := run_part hp hd o arguments done line
    obtain ⟨line₂, hparts⟩ := ih hrest (arguments ++ [a]) line₁
    refine ⟨line₂, ?_⟩
    rw [List.flatMap_cons, run_append hpart, hparts]
    simp

theorem run_phrase {p : Phrase} {s : Placed Statement} (h : p.Reads s) {m : Bool}
    (hgap : Gap m p.gap true) (done : List (Placed Statement)) (line : Nat) :
    ∃ line', run ⟨done, .outside m, line⟩ p.tokens =
      .ok ⟨done ++ [s], .outside false, line'⟩ := by
  let named : Opening := ⟨p.name.text, p.name.position, []⟩
  let o : Opening := { named with leading := Token.textOf p.leading }
  obtain ⟨line₁, hg⟩ := run_gap hgap done line
  have hname : run ⟨done, .outside true, line₁⟩ [p.name] =
      .ok ⟨done, .named named, p.name.position.line⟩ := by
    simp [run, step, stepOutside, h.name, TokenKind.isBad, Except.map, named]
  obtain ⟨line₂, hl⟩ := run_leading h.leading named done p.name.position.line
  have ho : run ⟨done, .named o, line₂⟩ [p.opener] =
      .ok ⟨done, .inside o 0 [] [], p.opener.position.line⟩ := by
    simp [run, step, stepNamed, h.opener, Except.map]
  obtain ⟨line₃, hp⟩ := run_parts h.parts h.nested o [] done p.opener.position.line
  obtain ⟨line₄, ht⟩ := run_layout h.trailing o 0 [] s.item.arguments done line₃
  have hs : s = ⟨⟨o.first, p.closer.position⟩,
      ⟨o.command (Token.textOf p.trailing), s.item.arguments⟩⟩ := by
    obtain ⟨span, command, arguments⟩ := s
    simp only [Placed.mk.injEq, Statement.mk.injEq]
    exact ⟨h.span, h.command, trivial⟩
  refine ⟨p.closer.position.line, ?_⟩
  have eq : p.tokens = p.gap ++ ([p.name] ++ (p.leading ++ ([p.opener] ++
      (p.parts.flatMap Part.tokens ++ (p.trailing ++ [p.closer]))))) := by
    simp [Phrase.tokens, Phrase.call, Phrase.head]
  rw [eq, run_append hg, run_append hname, run_append hl, List.nil_append, run_append ho,
    run_append hp, List.nil_append, run_append ht, List.nil_append]
  simp only [run, step, h.closer, decide_true, Bool.and_self, if_true]
  rw [← hs]

theorem run_phrases {phrases : List Phrase} {statements : List (Placed Statement)}
    (h : List.Forall₂ Phrase.Reads phrases statements) {m : Bool} (hgaps : Phrase.Gaps m phrases)
    (done : List (Placed Statement)) (line : Nat) :
    ∃ line', run ⟨done, .outside m, line⟩ (phraseTokens phrases) =
      .ok ⟨done ++ statements, .outside (m && phrases.isEmpty), line'⟩ := by
  induction h generalizing m done line with
  | nil => exact ⟨line, by simp [phraseTokens, run]⟩
  | @cons p s phrases statements hp _ ih =>
    obtain ⟨line₁, hphrase⟩ := run_phrase hp hgaps.1 done line
    obtain ⟨line₂, hrest⟩ := ih hgaps.2 (done ++ [s]) line₁
    refine ⟨line₂, ?_⟩
    rw [phraseTokens, List.flatMap_cons, run_append hphrase]
    simpa [phraseTokens] using hrest

/-- The reader accepts every listfile. -/
theorem Listing.ofTokens {tokens : List Token} {statements : List (Placed Statement)}
    {phrases : List Phrase} {tail : List Token} (h : Listing tokens statements phrases tail) :
    Statement.ofTokens tokens = .ok statements := by
  obtain ⟨after, htail⟩ := h.tail_gap
  obtain ⟨line₁, hphrases⟩ := run_phrases h.reads h.gaps [] 0
  obtain ⟨line₂, hrun⟩ := run_gap htail statements line₁
  have all : run {} tokens = .ok ⟨statements, .outside after, line₂⟩ := by
    rw [h.tokens_eq, run_append hphrases]
    simpa using hrun
  simp only [Statement.ofTokens, all, finish]

end Parse

end Listfile
