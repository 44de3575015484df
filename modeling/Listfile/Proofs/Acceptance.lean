import Listfile.Document
import Listfile.Proofs.Legible

/-!
What the reader accepts. Reading from left to right, an identifier opens a statement when none has
been opened on its line, and then it is followed by a parenthesis, a segment that balances and the
parenthesis that closes it. A text is accepted exactly when this holds at every opener and no token
is bad, and each statement is made of the words of its segment. Whatever else is read fails with a
cause of its own, never in reading an argument.
-/

namespace Listfile

namespace Parse

/-- Parentheses that match: none is closed before it is opened, and none is left open. -/
def Balanced (kinds : List TokenKind) : Prop :=
  (∀ front, front <+: kinds → front.count .parenRight ≤ front.count .parenLeft) ∧
    kinds.count .parenRight = kinds.count .parenLeft

/-- The tokens of a statement, from its name to the parenthesis that closes it. -/
structure Call where
  name : Token
  leading : List Token
  opener : Token
  segment : List Token
  closer : Token

namespace Call

def tokens (c : Call) : List Token :=
  c.name :: c.leading ++ c.opener :: c.segment ++ [c.closer]

structure Formed (c : Call) : Prop where
  name : c.name.kind = .identifier
  leading : ∀ t ∈ c.leading, t.kind = .space
  opener : c.opener.kind = .parenLeft
  segment : Balanced (c.segment.map (·.kind))
  closer : c.closer.kind = .parenRight

/-- The statement of a call: its arguments are the words of the segment, one for each and in their
order, and the separator of an argument is the text of the layout just before its word. -/
structure Reads (c : Call) (s : Placed Statement) : Prop where
  span : s.span = ⟨c.name.position, c.closer.position⟩
  segment : ∃ parts trailing, c.segment = parts.flatMap Part.tokens ++ trailing ∧
    parts.map (·.word) = c.segment.filter (fun t => !t.kind.isSeparator) ∧
    List.Forall₂ Part.Reads parts s.item.arguments ∧
    parts.map (fun p => Token.textOf p.layout) = s.item.arguments.map (·.separator) ∧
    (∀ t ∈ trailing, t.kind.isSeparator = true) ∧
    s.item.command = .named c.name.text [] (Token.textOf c.leading) (Token.textOf trailing)

end Call

/-- The calls of a token list, read from left to right. `mayOpen` says that no statement has been
opened since the last line break outside of statements. An identifier met then is an opener, and
only a call that is formed leads past it. -/
inductive Outline : Bool → List Token → List Call → Prop where
  | nil {mayOpen} : Outline mayOpen [] []
  | pass {mayOpen t rest calls} : ¬ (t.kind = .identifier ∧ mayOpen = true) →
      Outline (mayOpen || t.kind = .newline) rest calls → Outline mayOpen (t :: rest) calls
  | call {c rest calls} : Call.Formed c → Outline false rest calls →
      Outline true (c.tokens ++ rest) (c :: calls)

theorem forall_prefix_cons {α : Type} {P : List α → Prop} {a : α} {l : List α} :
    (∀ front, front <+: a :: l → P front) ↔ P [] ∧ ∀ front, front <+: l → P (a :: front) := by
  constructor
  · intro h
    exact ⟨h [] List.nil_prefix, fun front hf => h _ (List.cons_prefix_cons.mpr ⟨rfl, hf⟩)⟩
  · rintro ⟨hnil, hcons⟩ front hf
    cases front with
    | nil => exact hnil
    | cons b front =>
      obtain ⟨rfl, hrest⟩ := List.cons_prefix_cons.mp hf
      exact hcons front hrest

/-- The depth after tokens is there exactly when no prefix closes more than is open, and it counts
what is left open. -/
theorem foldlM_depthAfter {kinds : List TokenKind} {before after : Nat} :
    kinds.foldlM depthAfter before = some after ↔
      (∀ front, front <+: kinds → front.count .parenRight ≤ before + front.count .parenLeft) ∧
      before + kinds.count .parenLeft = after + kinds.count .parenRight := by
  induction kinds generalizing before with
  | nil => simp [List.prefix_nil]
  | cons k rest ih =>
    have left_right : TokenKind.parenLeft ≠ .parenRight := by decide
    rw [List.foldlM_cons, forall_prefix_cons]
    by_cases hl : k = .parenLeft
    · subst hl
      simp only [depthAfter, if_true, Option.bind_eq_bind, Option.bind_some, ih,
        List.count_cons_self, List.count_cons_of_ne left_right, List.count_nil]
      constructor
      · rintro ⟨hfronts, hcount⟩
        exact ⟨⟨by omega, fun front hf => by have := hfronts front hf; omega⟩, by omega⟩
      · rintro ⟨⟨-, hfronts⟩, hcount⟩
        exact ⟨fun front hf => by have := hfronts front hf; omega, by omega⟩
    by_cases hr : k = .parenRight
    · subst hr
      simp only [List.count_cons_self, List.count_cons_of_ne left_right.symm, List.count_nil]
      cases before with
      | zero =>
        have hnone : depthAfter 0 .parenRight = none := rfl
        simp only [hnone, Option.bind_eq_bind, Option.bind_none, reduceCtorEq, false_iff]
        rintro ⟨⟨-, hfronts⟩, -⟩
        have := hfronts [] List.nil_prefix
        simp at this
      | succ before =>
        have hsome : depthAfter (before + 1) .parenRight = some before := rfl
        simp only [hsome, Option.bind_eq_bind, Option.bind_some, ih]
        constructor
        · rintro ⟨hfronts, hcount⟩
          exact ⟨⟨by omega, fun front hf => by have := hfronts front hf; omega⟩, by omega⟩
        · rintro ⟨⟨-, hfronts⟩, hcount⟩
          exact ⟨fun front hf => by have := hfronts front hf; omega, by omega⟩
    · simp [depthAfter, hl, hr, ih, List.count_cons_of_ne]

theorem balanced_iff {kinds : List TokenKind} :
    Balanced kinds ↔ kinds.foldlM depthAfter 0 = some 0 := by
  rw [foldlM_depthAfter, Balanced]
  simp only [Nat.zero_add, eq_comm]

theorem depthAfter_separator {k : TokenKind} (h : k.isSeparator = true) (depth : Nat) :
    depthAfter depth k = some depth := by
  cases k <;> first | rfl | cases h

theorem foldlM_layout {tokens : List Token} (h : ∀ t ∈ tokens, t.kind.isSeparator = true)
    (depth : Nat) : (tokens.map (·.kind)).foldlM depthAfter depth = some depth := by
  induction tokens with
  | nil => rfl
  | cons t rest ih =>
    rw [List.map_cons, List.foldlM_cons, depthAfter_separator (h t List.mem_cons_self)]
    exact ih fun u hu => h u (.tail _ hu)

theorem foldlM_parts {parts : List Part}
    (layout : ∀ p ∈ parts, ∀ t ∈ p.layout, t.kind.isSeparator = true) (depth : Nat) :
    ((parts.flatMap Part.tokens).map (·.kind)).foldlM depthAfter depth =
      (parts.map (·.word.kind)).foldlM depthAfter depth := by
  induction parts generalizing depth with
  | nil => rfl
  | cons p rest ih =>
    have hrest := ih fun q hq => layout q (.tail _ hq)
    rw [List.flatMap_cons, Part.tokens, List.append_assoc, List.map_append, List.foldlM_append,
      foldlM_layout (layout p List.mem_cons_self)]
    simp only [List.singleton_append, List.map_cons, List.foldlM_cons, Option.bind_eq_bind,
      Option.bind_some]
    cases depthAfter depth p.word.kind with
    | none => rfl
    | some later => exact hrest later

theorem balanced_parts {parts : List Part} {trailing : List Token}
    (layout : ∀ p ∈ parts, ∀ t ∈ p.layout, t.kind.isSeparator = true)
    (htrailing : ∀ t ∈ trailing, t.kind.isSeparator = true) :
    Balanced ((parts.flatMap Part.tokens ++ trailing).map (·.kind)) ↔ Nested parts 0 0 := by
  rw [balanced_iff, List.map_append, List.foldlM_append, foldlM_parts layout, Nested]
  cases (parts.map (·.word.kind)).foldlM depthAfter 0 with
  | none => simp
  | some depth => simp [foldlM_layout htrailing]

theorem words_parts {parts : List Part} {trailing : List Token}
    (layout : ∀ p ∈ parts, ∀ t ∈ p.layout, t.kind.isSeparator = true)
    (words : ∀ p ∈ parts, p.word.kind.isSeparator = false)
    (htrailing : ∀ t ∈ trailing, t.kind.isSeparator = true) :
    (parts.flatMap Part.tokens ++ trailing).filter (fun t => !t.kind.isSeparator) =
      parts.map (·.word) := by
  have dropped : ∀ {tokens : List Token}, (∀ t ∈ tokens, t.kind.isSeparator = true) →
      tokens.filter (fun t => !t.kind.isSeparator) = [] := by
    intro tokens h
    simpa [List.filter_eq_nil_iff] using h
  induction parts with
  | nil => simpa using dropped htrailing
  | cons p rest ih =>
    have hrest := ih (fun q hq => layout q (.tail _ hq)) (fun q hq => words q (.tail _ hq))
    rw [List.flatMap_cons, List.append_assoc, List.filter_append, hrest, Part.tokens,
      List.filter_append, dropped (layout p List.mem_cons_self)]
    simp [words p List.mem_cons_self]

/-- A token that can be taken as an argument, whatever stands before it. -/
def Sourced (t : Token) : Prop :=
  ∀ separator, ∃ a, Argument.ofSource? (delimiterOf t.kind) separator t.text = some a

theorem exists_bracketBody {t : Text} {n : Nat} (h : Scan.bracketLength? t = some n) :
    ∃ value, bracketBody? (t.take n) = some value := by
  have hle := Scan.bracketLength?_le h
  unfold Scan.bracketLength? at h
  split at h
  · cases h
  · next level hlevel =>
    obtain ⟨m, -, hm⟩ := Option.map_eq_some_iff.mp h
    rw [← List.take_append_drop n t] at hlevel
    have hopen := Scan.bracketLevel?_of_append hlevel (by rw [List.length_take]; omega)
    obtain ⟨rest, hrest⟩ := Scan.bracketLevel?_eq_some.mp hopen
    have hmem : Glyph.char '[' ∈ (t.take n).drop 1 := by simp [hrest]
    unfold bracketBody?
    split
    · next hnone => exact absurd hmem (List.idxOf?_eq_none_iff.mp hnone)
    · exact ⟨_, rfl⟩

theorem sourced_of_scan {t : Text} {u : Token} (h : u ∈ Token.scan t) : Sourced u := by
  intro separator
  obtain ⟨g, rest, n, lexed, htext⟩ := Scan.lexed_of_mem h
  cases hd : delimiterOf u.kind with
  | none => exact ⟨_, rfl⟩
  | quote => exact ⟨_, rfl⟩
  | bracket =>
    have hkind : u.kind = .argumentBracket := by
      cases hk : u.kind <;> rw [hk] at hd <;> first | rfl | cases hd
    rw [hkind] at lexed
    cases lexed with
    | argumentBracket _ hn =>
      obtain ⟨value, hvalue⟩ := exists_bracketBody hn
      rw [← htext] at hvalue
      refine ⟨⟨value, false, separator, some u.text⟩, ?_⟩
      simp [Argument.ofSource?, hvalue]

theorem exists_parts {segment : List Token} (good : ∀ t ∈ segment, t.kind.isBad = false)
    (sourced : ∀ t ∈ segment, Sourced t) :
    ∃ parts trailing arguments, segment = parts.flatMap Part.tokens ++ trailing ∧
      List.Forall₂ Part.Reads parts arguments ∧ ∀ t ∈ trailing, t.kind.isSeparator = true := by
  induction segment using List.reverseRecOn with
  | nil => exact ⟨[], [], [], rfl, .nil, by simp⟩
  | append_singleton segment t ih =>
    obtain ⟨parts, trailing, arguments, hsegment, hreads, htrailing⟩ :=
      ih (fun u hu => good u (List.mem_append_left _ hu))
        (fun u hu => sourced u (List.mem_append_left _ hu))
    have hmem : t ∈ segment ++ [t] := by simp
    by_cases hk : t.kind.isSeparator = true
    · refine ⟨parts, trailing ++ [t], arguments, by simp [hsegment], hreads, ?_⟩
      intro u hu
      rcases List.mem_append.mp hu with hu | hu
      · exact htrailing u hu
      · rw [List.mem_singleton.mp hu]
        exact hk
    · obtain ⟨a, ha⟩ := sourced t hmem (Token.textOf trailing)
      have hpart : Part.Reads ⟨trailing, t⟩ a :=
        ⟨htrailing, ⟨by simpa using hk, good t hmem⟩, ha⟩
      exact ⟨parts ++ [⟨trailing, t⟩], [], arguments ++ [a], by simp [hsegment, Part.tokens],
        forall₂_concat hreads hpart, by simp⟩

theorem idle_eq_some {mayOpen after : Bool} {t : Token} :
    idle mayOpen t = some after ↔ t.kind.isBad = false ∧
      ¬ (t.kind = .identifier ∧ mayOpen = true) ∧ after = (mayOpen || t.kind = .newline) := by
  unfold idle
  by_cases hbad : t.kind.isBad = true
  · simp [hbad]
  by_cases hnewline : t.kind = .newline
  · simp only [hnewline, TokenKind.isBad]
    cases after <;> simp
  by_cases hopen : t.kind = .identifier ∧ mayOpen = true
  · simp [hopen, TokenKind.isBad]
  · cases mayOpen <;> cases after <;> simp_all

theorem forall_layout {parts : List Part} {arguments : List Argument}
    (reads : List.Forall₂ Part.Reads parts arguments) :
    (∀ p ∈ parts, ∀ t ∈ p.layout, t.kind.isSeparator = true) ∧
      ∀ p ∈ parts, p.word.kind.isSeparator = false := by
  induction reads with
  | nil => simp
  | cons hp _ ih =>
    exact ⟨List.forall_mem_cons.mpr ⟨hp.layout, ih.1⟩,
      List.forall_mem_cons.mpr ⟨hp.word.1, ih.2⟩⟩

theorem Call.Formed.exists_phrase {c : Call} (h : c.Formed)
    (good : ∀ t ∈ c.segment, t.kind.isBad = false) (sourced : ∀ t ∈ c.segment, Sourced t) :
    ∃ (p : Phrase) (s : Placed Statement), p.gap = [] ∧ p.tokens = c.tokens ∧ p.Reads s ∧
      c.Reads s := by
  obtain ⟨parts, trailing, arguments, hsegment, hreads, htrailing⟩ := exists_parts good sourced
  obtain ⟨hlayout, hwords⟩ := forall_layout hreads
  have hnested : Nested parts 0 0 := by
    rw [← balanced_parts hlayout htrailing, ← hsegment]
    exact h.segment
  let s : Placed Statement := ⟨⟨c.name.position, c.closer.position⟩,
    ⟨.named c.name.text [] (Token.textOf c.leading) (Token.textOf trailing), arguments⟩⟩
  refine ⟨⟨[], c.name, c.leading, c.opener, parts, trailing, c.closer⟩, s, rfl, ?_, ?_, ?_⟩
  · simp [Phrase.tokens, Phrase.call, Phrase.head, Call.tokens, hsegment]
  · exact ⟨h.name, h.leading, h.opener, hreads, hnested, htrailing, h.closer, rfl, rfl⟩
  · refine ⟨rfl, parts, trailing, hsegment, ?_, hreads, ?_, htrailing, rfl⟩
    · rw [hsegment, words_parts hlayout hwords htrailing]
    · exact map_eq_of_forall₂ (hreads.imp fun _ _ h => (ofSource?_fields h.source).1.symm)

theorem run_outline {mayOpen : Bool} {tokens : List Token} {calls : List Call}
    (outline : Outline mayOpen tokens calls) (good : ∀ t ∈ tokens, t.kind.isBad = false)
    (sourced : ∀ t ∈ tokens, Sourced t) (done : List (Placed Statement)) (line : Nat) :
    ∃ statements after line', List.Forall₂ Call.Reads calls statements ∧
      run ⟨done, .outside mayOpen, line⟩ tokens =
        .ok ⟨done ++ statements, .outside after, line'⟩ := by
  induction outline generalizing done line with
  | @nil mayOpen => exact ⟨[], mayOpen, line, .nil, by simp [run]⟩
  | @pass mayOpen t rest calls passed _ ih =>
    have hidle : idle mayOpen t = some (mayOpen || t.kind = .newline) :=
      idle_eq_some.mpr ⟨good t List.mem_cons_self, passed, rfl⟩
    obtain ⟨statements, after, line', hreads, hrun⟩ :=
      ih (fun u hu => good u (.tail _ hu)) (fun u hu => sourced u (.tail _ hu)) done
        t.position.line
    refine ⟨statements, after, line', hreads, ?_⟩
    simp only [run, step, stepOutside_of_idle hidle, Except.map]
    exact hrun
  | @call c rest calls formed _ ih =>
    have segment_mem : ∀ t ∈ c.segment, t ∈ c.tokens ++ rest := by
      intro t ht
      simp [Call.tokens, ht]
    obtain ⟨p, s, hgap, htokens, hp, hc⟩ := formed.exists_phrase
      (fun t ht => good t (segment_mem t ht)) (fun t ht => sourced t (segment_mem t ht))
    have hstart : Gap true p.gap true := by
      rw [hgap]
      rfl
    obtain ⟨line₁, hphrase⟩ := run_phrase hp hstart done line
    obtain ⟨statements, after, line₂, hreads, hrun⟩ :=
      ih (fun u hu => good u (List.mem_append_right _ hu))
        (fun u hu => sourced u (List.mem_append_right _ hu)) (done ++ [s]) line₁
    refine ⟨s :: statements, after, line₂, .cons hc hreads, ?_⟩
    rw [← htokens, run_append hphrase, hrun]
    simp

theorem outline_gap {before after : Bool} {gap rest : List Token} {calls : List Call}
    (h : Gap before gap after) (outline : Outline after rest calls) :
    Outline before (gap ++ rest) calls := by
  induction gap generalizing before with
  | nil =>
    simp only [Gap, List.foldlM_nil, Option.pure_def, Option.some.injEq] at h
    subst h
    exact outline
  | cons t gap ih =>
    simp only [Gap, List.foldlM_cons, Option.bind_eq_bind, Option.bind_eq_some_iff] at h
    obtain ⟨middle, hidle, hgap⟩ := h
    obtain ⟨-, passed, rfl⟩ := idle_eq_some.mp hidle
    exact .pass passed (ih hgap)

theorem outline_phrases {phrases : List Phrase} {statements : List (Placed Statement)}
    (reads : List.Forall₂ Phrase.Reads phrases statements) {mayOpen after : Bool}
    (gaps : Phrase.Gaps mayOpen phrases) {tail : List Token}
    (htail : Gap (mayOpen && phrases.isEmpty) tail after) :
    ∃ calls, Outline mayOpen (phraseTokens phrases ++ tail) calls := by
  induction reads generalizing mayOpen with
  | nil =>
    have hgap : Gap mayOpen tail after := by simpa using htail
    refine ⟨[], ?_⟩
    have outline : Outline mayOpen (tail ++ []) [] := outline_gap hgap .nil
    simpa [phraseTokens] using outline
  | @cons p s phrases statements hp _ ih =>
    obtain ⟨calls, hcalls⟩ := ih gaps.2 (by simpa using htail)
    let c : Call :=
      ⟨p.name, p.leading, p.opener, p.parts.flatMap Part.tokens ++ p.trailing, p.closer⟩
    have formed : c.Formed := ⟨hp.name, hp.leading, hp.opener,
      (balanced_parts (forall_layout hp.parts).1 hp.trailing).mpr hp.nested, hp.closer⟩
    have htokens : phraseTokens (p :: phrases) ++ tail =
        p.gap ++ (c.tokens ++ (phraseTokens phrases ++ tail)) := by
      simp [phraseTokens, Phrase.tokens, Phrase.call, Phrase.head, Call.tokens, c]
    rw [htokens]
    exact ⟨c :: calls, outline_gap gaps.1 (.call formed hcalls)⟩

theorem outline_of_ofTokens {tokens : List Token} {statements : List (Placed Statement)}
    (h : Statement.ofTokens tokens = .ok statements) :
    (∀ t ∈ tokens, t.kind.isBad = false) ∧ ∃ calls, Outline true tokens calls := by
  obtain ⟨phrases, tail, listing⟩ := listing_of_ofTokens h
  obtain ⟨after, htail⟩ := listing.tail_gap
  refine ⟨listing.good, ?_⟩
  rw [listing.tokens_eq]
  exact outline_phrases listing.reads listing.gaps (by simpa using htail)

/-- The reader accepts what has an outline, and reads a statement from every call. -/
theorem ofTokens_of_outline {tokens : List Token} {calls : List Call}
    (outline : Outline true tokens calls) (good : ∀ t ∈ tokens, t.kind.isBad = false)
    (sourced : ∀ t ∈ tokens, Sourced t) :
    ∃ statements, Statement.ofTokens tokens = .ok statements ∧
      List.Forall₂ Call.Reads calls statements := by
  obtain ⟨statements, after, line, hreads, hrun⟩ := run_outline outline good sourced [] 0
  refine ⟨statements, ?_, hreads⟩
  rw [List.nil_append] at hrun
  simp only [Statement.ofTokens, hrun, finish]

section Faults

variable {e : ParseError}

theorem stepInside_fault {o : Opening} {depth : Nat} {separator : Text}
    {arguments : List Argument} {t : Token} (sourced : Sourced t)
    (h : stepInside o depth separator arguments t = .error e) : e.fault ≠ .brokenBracket := by
  have pushed : ∀ later, pushArgument o later separator arguments t ≠ .error e := by
    intro later hpush
    obtain ⟨a, ha⟩ := sourced separator
    simp [pushArgument, ha] at hpush
  unfold stepInside at h
  split at h
  · cases h
  split at h
  · cases h
    simp [Opening.error]
  split at h
  · exact absurd h (pushed _)
  split at h
  · exact absurd h (pushed _)
  · exact absurd h (pushed _)

theorem step_fault {s : State} {t : Token} (sourced : Sourced t) (h : step s t = .error e) :
    e.fault ≠ .brokenBracket := by
  have unmapped : ∀ {r : Except ParseError Mode} {f : Mode → State}, r.map f = .error e →
      r = .error e := by
    intro r f hr
    cases r with
    | ok m => cases hr
    | error e' => cases hr; rfl
  unfold step at h
  split at h
  · have hstep := unmapped h
    unfold stepOutside at hstep
    split at hstep
    · cases hstep
      simp
    split at hstep
    · cases hstep
    split at hstep
    · cases hstep
    · cases hstep
  · have hstep := unmapped h
    unfold stepNamed at hstep
    split at hstep
    · cases hstep
    · cases hstep
    · cases hstep
      simp [Opening.error]
  · split at h
    · cases h
    · exact stepInside_fault sourced (unmapped h)

theorem run_fault {s : State} {tokens : List Token} (sourced : ∀ t ∈ tokens, Sourced t)
    (h : run s tokens = .error e) : e.fault ≠ .brokenBracket := by
  induction tokens generalizing s with
  | nil => cases h
  | cons t rest ih =>
    rw [run] at h
    split at h
    · exact ih (fun u hu => sourced u (.tail _ hu)) h
    · next e' hstep =>
      cases h
      exact step_fault (sourced t List.mem_cons_self) hstep

theorem ofTokens_fault {tokens : List Token} (sourced : ∀ t ∈ tokens, Sourced t)
    (h : Statement.ofTokens tokens = .error e) : e.fault ≠ .brokenBracket := by
  unfold Statement.ofTokens at h
  split at h
  · unfold finish at h
    split at h
    · cases h
    · cases h
      simp [Opening.error]
    · cases h
      simp [Opening.error]
  · next e' hrun =>
    cases h
    exact run_fault sourced hrun

end Faults

end Parse

open Parse

/-- The reader accepts exactly its grammar. A text is read when no token of it is bad and every
opener is followed by a call that is formed; its statements are then those of the calls, one for
each and in their order. A text that is refused gives no statements and one report, and never
because an argument could not be read. -/
theorem Statement.parse_grammar (t : Text) :
    ((∃ statements, Statement.parse t = .ok statements) ↔
      (∀ u ∈ Token.scan t, u.kind.isBad = false) ∧ ∃ calls, Outline true (Token.scan t) calls) ∧
    (∀ statements calls, Statement.parse t = .ok statements → Outline true (Token.scan t) calls →
      List.Forall₂ Call.Reads calls statements) ∧
    ∀ e, Statement.parse t = .error e → e.fault ≠ .brokenBracket ∧
      Document.readStatements t = (none, [.parseFailed e.command e.line e.fault.message]) := by
  have sourced : ∀ u ∈ Token.scan t, Sourced u := fun u hu => sourced_of_scan hu
  refine ⟨⟨?_, ?_⟩, ?_, ?_⟩
  · rintro ⟨statements, h⟩
    exact outline_of_ofTokens h
  · rintro ⟨good, calls, outline⟩
    obtain ⟨statements, h, -⟩ := ofTokens_of_outline outline good sourced
    exact ⟨statements, h⟩
  · intro statements calls h outline
    obtain ⟨found, hfound, hreads⟩ :=
      ofTokens_of_outline outline (outline_of_ofTokens h).1 sourced
    obtain rfl : found = statements := Except.ok.inj (hfound.symm.trans h)
    exact hreads
  · intro e h
    exact ⟨ofTokens_fault sourced h, by simp only [Document.readStatements, h]⟩

/-- Two statements, one of them with nested parentheses, and a text that leaves one open. -/
theorem Statement.parse_grammar_nested :
    let t := Text.ofString "f(a (b)\n c) x\ng ()"
    let u := Text.ofString "f(a (b)\n"
    (∃ statements calls, Statement.parse t = .ok statements ∧ Outline true (Token.scan t) calls ∧
      calls.length = 2 ∧ List.Forall₂ Call.Reads calls statements) ∧
    (¬ ∃ calls, Outline true (Token.scan u) calls) ∧
    ∃ e, Statement.parse u = .error e ∧
      Document.readStatements u = (none, [.parseFailed e.command e.line e.fault.message]) := by
  intro t u
  obtain ⟨accepted, reads, -⟩ := Statement.parse_grammar t
  obtain ⟨refused, -, reports⟩ := Statement.parse_grammar u
  have hcount : (Statement.parse t).toOption.map List.length = some 2 := by decide +kernel
  have hfails : (Statement.parse u).isOk = false := by decide +kernel
  have hgood : ∀ v ∈ Token.scan u, v.kind.isBad = false := by decide +kernel
  constructor
  · cases ht : Statement.parse t with
    | error e => simp [ht, Except.toOption] at hcount
    | ok statements =>
      obtain ⟨-, calls, outline⟩ := accepted.mp ⟨statements, ht⟩
      have hreads := reads statements calls ht outline
      refine ⟨statements, calls, rfl, outline, ?_, hreads⟩
      rw [hreads.length_eq]
      simpa [ht, Except.toOption] using hcount
  · cases hu : Statement.parse u with
    | ok statements => simp [hu, Except.isOk, Except.toBool] at hfails
    | error e =>
      refine ⟨?_, e, rfl, (reports e hu).2⟩
      intro outlined
      obtain ⟨statements, hok⟩ := refused.mpr ⟨hgood, outlined⟩
      simp [hu] at hok

end Listfile
