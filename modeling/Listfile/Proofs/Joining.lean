import Listfile.Proofs.Framing
import Listfile.Proofs.Lossless

/-!
Texts that are read one after the other. A text that is read and ends its last line leaves the
scanner and the reader as they were at the start, so what follows it is read as if it stood alone,
some lines further down.
-/

namespace Listfile

def Position.shift (n : Nat) (p : Position) : Position := ⟨p.line + n, p.column⟩

def Span.shift (n : Nat) (s : Span) : Span := ⟨s.first.shift n, s.last.shift n⟩

def Token.shift (n : Nat) (t : Token) : Token := { t with position := t.position.shift n }

def Placed.shift {α : Type} (n : Nat) (p : Placed α) : Placed α := { p with span := p.span.shift n }

def ParseError.shift (n : Nat) (e : ParseError) : ParseError := { e with line := e.line + n }

namespace Position

theorem next_shift (n : Nat) (p : Position) (g : Glyph) :
    (p.shift n).next g = (p.next g).shift n := by
  unfold next
  split
  · simp only [shift, Position.mk.injEq, and_true]
    omega
  · rfl

theorem advance_shift (n : Nat) (p : Position) (t : Text) :
    (p.shift n).advance t = (p.advance t).shift n := by
  induction t generalizing p with
  | nil => rfl
  | cons g t ih =>
    simp only [advance, List.foldl_cons] at ih ⊢
    rw [next_shift, ih]

theorem after_lines {t : Text} (h : t = [] ∨ t.getLast? = some (.char '\n')) :
    after t = start.shift (t.count (.char '\n')) := by
  have hline := after_line t
  have hcolumn := after_column t
  have hrun : (t.reverse.takeWhile fun g => !(g = .char '\n')) = [] := by
    rcases h with rfl | h
    · rfl
    · obtain ⟨front, rfl⟩ := List.getLast?_eq_some_iff.mp h
      simp
  rw [hrun, List.length_nil] at hcolumn
  calc after t
    _ = ⟨(after t).line, (after t).column⟩ := rfl
    _ = start.shift (t.count (.char '\n')) := by rw [hline, hcolumn]; rfl

end Position

theorem Scan.tokensFrom_shift (n : Nat) (p : Position) (t : Text) :
    tokensFrom (p.shift n) 0 t = (tokensFrom p 0 t).map (Token.shift n) := by
  induction t using token_induction generalizing p with
  | nil => rfl
  | cons g body cont k h ih =>
    rw [tokensFrom_token _ h, tokensFrom_token p h, Position.advance_shift, ih, List.map_cons]
    rfl

namespace Parse

def Opening.shift (n : Nat) (o : Opening) : Opening := { o with first := o.first.shift n }

def Mode.shift (n : Nat) : Mode → Mode
  | .outside mayOpen => .outside mayOpen
  | .named o => .named (o.shift n)
  | .inside o depth separator arguments => .inside (o.shift n) depth separator arguments

def State.shift (n : Nat) (above : List (Placed Statement)) (s : State) : State :=
  ⟨above ++ s.done.map (Placed.shift n), s.mode.shift n, s.lastLine + n⟩

def shiftResult {α : Type} (n : Nat) (f : α → α) : Except ParseError α → Except ParseError α
  | .ok a => .ok (f a)
  | .error e => .error (e.shift n)

section Shift

variable (n : Nat) (t : Token)

theorem stepOutside_shift (mayOpen : Bool) :
    stepOutside mayOpen (t.shift n) = shiftResult n (Mode.shift n) (stepOutside mayOpen t) := by
  have hkind : (t.shift n).kind = t.kind := rfl
  unfold stepOutside
  rw [hkind]
  split
  · rfl
  split
  · rfl
  split
  · rfl
  · rfl

theorem stepNamed_shift (o : Opening) :
    stepNamed (o.shift n) (t.shift n) = shiftResult n (Mode.shift n) (stepNamed o t) := by
  have hkind : (t.shift n).kind = t.kind := rfl
  unfold stepNamed
  rw [hkind]
  split <;> rfl

theorem pushArgument_shift (o : Opening) (depth : Nat) (separator : Text)
    (arguments : List Argument) :
    pushArgument (o.shift n) depth separator arguments (t.shift n) =
      shiftResult n (Mode.shift n) (pushArgument o depth separator arguments t) := by
  have hsource : Argument.ofSource? (delimiterOf (t.shift n).kind) separator (t.shift n).text =
      Argument.ofSource? (delimiterOf t.kind) separator t.text := rfl
  unfold pushArgument
  rw [hsource]
  split <;> rfl

theorem stepInside_shift (o : Opening) (depth : Nat) (separator : Text)
    (arguments : List Argument) :
    stepInside (o.shift n) depth separator arguments (t.shift n) =
      shiftResult n (Mode.shift n) (stepInside o depth separator arguments t) := by
  have hkind : (t.shift n).kind = t.kind := rfl
  unfold stepInside
  simp only [hkind, pushArgument_shift]
  split
  · rfl
  split
  · rfl
  split
  · rfl
  split
  · rfl
  · rfl

theorem step_shift (above : List (Placed Statement)) (s : State) :
    step (s.shift n above) (t.shift n) = shiftResult n (State.shift n above) (step s t) := by
  have moved : ∀ r : Except ParseError Mode,
      (shiftResult n (Mode.shift n) r).map (fun m =>
        (⟨above ++ s.done.map (Placed.shift n), m, t.position.line + n⟩ : State)) =
      shiftResult n (State.shift n above)
        (r.map fun m => ⟨s.done, m, t.position.line⟩) := by
    intro r
    cases r <;> rfl
  obtain ⟨done, mode, lastLine⟩ := s
  cases mode with
  | outside mayOpen =>
    simp only [step, State.shift, Mode.shift, stepOutside_shift]
    exact moved _
  | named o =>
    simp only [step, State.shift, Mode.shift, stepNamed_shift]
    exact moved _
  | inside o depth separator arguments =>
    have hkind : (t.shift n).kind = t.kind := rfl
    simp only [step, State.shift, Mode.shift, stepInside_shift, hkind]
    split
    · simp only [shiftResult, State.shift, Mode.shift, List.map_append, List.map_cons,
        List.map_nil, List.append_assoc]
      rfl
    · exact moved _

end Shift

theorem run_shift (n : Nat) (above : List (Placed Statement)) (s : State) (tokens : List Token) :
    run (s.shift n above) (tokens.map (Token.shift n)) =
      shiftResult n (State.shift n above) (run s tokens) := by
  induction tokens generalizing s with
  | nil => rfl
  | cons t rest ih =>
    rw [List.map_cons, run, run, step_shift]
    cases step s t with
    | error e => rfl
    | ok next => exact ih next

theorem finish_shift (n : Nat) (above : List (Placed Statement)) (s : State) :
    finish (s.shift n above) =
      shiftResult n (fun found => above ++ found.map (Placed.shift n)) (finish s) := by
  obtain ⟨done, mode, lastLine⟩ := s
  cases mode <;> rfl

theorem finish_run_outside (done : List (Placed Statement)) (mayOpen : Bool) (line line' : Nat)
    (tokens : List Token) :
    run ⟨done, .outside mayOpen, line⟩ tokens >>= finish =
      run ⟨done, .outside mayOpen, line'⟩ tokens >>= finish := by
  cases tokens <;> rfl

theorem ofTokens_eq_bind (tokens : List Token) :
    Statement.ofTokens tokens = run {} tokens >>= finish := by
  unfold Statement.ofTokens
  cases run {} tokens <;> rfl

theorem run_concat {s last : State} {tokens : List Token} {t : Token}
    (h : run s (tokens ++ [t]) = .ok last) :
    ∃ middle, run s tokens = .ok middle ∧ step middle t = .ok last := by
  induction tokens generalizing s with
  | nil =>
    simp only [List.nil_append, run] at h
    split at h
    · next next hs =>
      cases h
      exact ⟨s, rfl, hs⟩
    · cases h
  | cons u tokens ih =>
    simp only [List.cons_append, run] at h ⊢
    split at h
    · exact ih h
    · cases h

theorem mayOpen_of_newline {s s' : State} {t : Token} (hk : t.kind = .newline)
    (h : step s t = .ok s') {mayOpen : Bool} (hm : s'.mode = .outside mayOpen) :
    mayOpen = true := by
  rcases step_cases h with ⟨before, -, -, hs⟩ | ⟨o, -, -, hs⟩ |
    ⟨o, depth, separator, arguments, -, hopen, -, hs⟩ | ⟨o, separator, arguments, -, hclose, -, -⟩
  · rw [hm] at hs
    rcases stepOutside_cases hs with ⟨after, hidle, hafter⟩ | ⟨-, -, hnamed⟩
    · cases hafter
      simpa [idle, hk, TokenKind.isBad] using hidle.symm
    · cases hnamed
  · rcases stepNamed_cases hs with ⟨hspace, -⟩ | ⟨hparen, -⟩
    · rw [hk] at hspace
      cases hspace
    · rw [hk] at hparen
      cases hparen
  · rw [hm] at hs
    rcases stepInside_cases hopen hs with ⟨-, hinside⟩ | ⟨-, -, a, later, -, -, hinside⟩
    · cases hinside
    · cases hinside
  · rw [hk] at hclose
    cases hclose

theorem good_of_parse {t : Text} {statements : List (Placed Statement)}
    (h : Statement.parse t = .ok statements) : Scan.Good t := by
  obtain ⟨phrases, tail, listing⟩ := listing_of_ofTokens h
  exact Scan.good_of_tokens (p := .start) rfl listing.good

/-- At the end of a text that is read and ends its last line the reader is as at the start, but for
the statements it has read. -/
theorem run_of_parse {t : Text} {statements : List (Placed Statement)}
    (h : Statement.parse t = .ok statements) (ends : t = [] ∨ t.getLast? = some (.char '\n')) :
    ∃ line, run {} (Token.scan t) = .ok ⟨statements, .outside true, line⟩ := by
  have hparse := h
  rw [Statement.parse, ofTokens_eq_bind] at hparse
  cases hrun : run {} (Token.scan t) with
  | error e =>
    rw [hrun] at hparse
    cases hparse
  | ok last =>
    rw [hrun] at hparse
    obtain ⟨done, mode, line⟩ := last
    cases mode with
    | named o => cases hparse
    | inside o depth separator arguments => cases hparse
    | outside mayOpen =>
      cases hparse
      refine ⟨line, ?_⟩
      rcases ends with rfl | hlast
      · cases hrun
        rfl
      have hkinds := getLast?_kinds (good_of_parse h) hlast
      rw [Scan.kinds, List.getLast?_map] at hkinds
      obtain ⟨u, hu, hk⟩ := Option.map_eq_some_iff.mp hkinds
      obtain ⟨tokens, hscan⟩ := List.getLast?_eq_some_iff.mp hu
      rw [hscan] at hrun
      obtain ⟨middle, -, hstep⟩ := run_concat hrun
      rw [mayOpen_of_newline hk hstep rfl]

end Parse

open Parse

theorem Token.scan_append_lines {a : Text} (good : Scan.Good a)
    (ends : a = [] ∨ a.getLast? = some (.char '\n')) (b : Text) :
    scan (a ++ b) = scan a ++ (scan b).map (Token.shift (a.count (.char '\n'))) := by
  have meets : Scan.Meets a b := by
    intro k hk
    rcases ends with rfl | hlast
    · simp [Scan.kinds_nil] at hk
    · rw [getLast?_kinds good hlast] at hk
      cases hk
      exact fun _ _ => trivial
  rw [scan, Scan.tokensFrom_append .start good meets, ← Position.after, Position.after_lines ends,
    Scan.tokensFrom_shift]
  rfl

theorem Statement.parse_after_lines {a : Text} {above : List (Placed Statement)}
    (h : Statement.parse a = .ok above) (ends : a = [] ∨ a.getLast? = some (.char '\n'))
    (b : Text) :
    Statement.parse (a ++ b) = shiftResult (a.count (.char '\n'))
      (fun below => above ++ below.map (Placed.shift (a.count (.char '\n'))))
      (Statement.parse b) := by
  obtain ⟨line, hrun⟩ := run_of_parse h ends
  let n := a.count (.char '\n')
  have hstart : State.shift n above {} = ⟨above, .outside true, 0 + n⟩ := by
    simp [State.shift, Mode.shift]
  calc Statement.parse (a ++ b)
    _ = run {} (Token.scan a ++ (Token.scan b).map (Token.shift n)) >>= finish := by
      rw [Statement.parse, Token.scan_append_lines (good_of_parse h) ends, ofTokens_eq_bind]
    _ = run ⟨above, .outside true, line⟩ ((Token.scan b).map (Token.shift n)) >>= finish := by
      rw [run_append hrun]
    _ = run (State.shift n above {}) ((Token.scan b).map (Token.shift n)) >>= finish := by
      rw [hstart, finish_run_outside]
    _ = shiftResult n (fun below => above ++ below.map (Placed.shift n)) (Statement.parse b) := by
      rw [run_shift, Statement.parse, ofTokens_eq_bind]
      cases run {} (Token.scan b) with
      | error e => rfl
      | ok last => exact finish_shift n above last

/-- Reading is compositional at line ends. After a text that is read and ends its last line, the
tokens of another are those it has alone, so many lines further down as the first has, and so are
its statements, or the error for which it is refused. -/
theorem Statement.parse_compositional {a : Text} {above : List (Placed Statement)}
    (h : Statement.parse a = .ok above) (ends : a = [] ∨ a.getLast? = some (.char '\n'))
    (b : Text) :
    let n := a.count (.char '\n')
    Token.scan (a ++ b) = Token.scan a ++ (Token.scan b).map (Token.shift n) ∧
    ((∃ all, Statement.parse (a ++ b) = .ok all) ↔ ∃ below, Statement.parse b = .ok below) ∧
    (∀ below, Statement.parse b = .ok below →
      Statement.parse (a ++ b) = .ok (above ++ below.map (Placed.shift n))) ∧
    ∀ e, Statement.parse b = .error e → ∃ e', Statement.parse (a ++ b) = .error e' ∧
      e'.fault.message = e.fault.message ∧ e'.command = e.command ∧ e'.line = e.line + n := by
  intro n
  have hparse := Statement.parse_after_lines h ends b
  refine ⟨Token.scan_append_lines (good_of_parse h) ends b, ?_, ?_, ?_⟩
  · rw [hparse]
    cases Statement.parse b with
    | ok below => exact iff_of_true ⟨_, rfl⟩ ⟨below, rfl⟩
    | error e => exact iff_of_false (by rintro ⟨all, ⟨⟩⟩) (by rintro ⟨below, ⟨⟩⟩)
  · intro below hbelow
    rw [hparse, hbelow]
    rfl
  · intro e he
    rw [hparse, he]
    exact ⟨e.shift n, rfl, rfl, rfl, rfl⟩

/-- Three lines with a statement, before one that is read and before one that is not. -/
theorem Statement.parse_compositional_three_lines :
    let a := Text.ofString "f(x\n) # c\n\n"
    let b := Text.ofString "g()\nh(y)"
    let c := Text.ofString "g()\nh(y\n\"z)"
    ∃ above below e, Statement.parse a = .ok above ∧ Statement.parse b = .ok below ∧
      Statement.parse c = .error e ∧
      Token.scan (a ++ c) = Token.scan a ++ (Token.scan c).map (Token.shift 3) ∧
      Statement.parse (a ++ b) = .ok (above ++ below.map (Placed.shift 3)) ∧
      ∃ e', Statement.parse (a ++ c) = .error e' ∧ e'.fault.message = e.fault.message ∧
        e'.command = e.command ∧ e'.line = e.line + 3 := by
  intro a b c
  obtain ⟨above, habove⟩ := exists_ok (e := Statement.parse a) (by decide +kernel)
  obtain ⟨below, hbelow⟩ := exists_ok (e := Statement.parse b) (by decide +kernel)
  have refused : (Statement.parse c).isOk = false := by decide +kernel
  cases hc : Statement.parse c with
  | ok found => simp [hc, Except.isOk, Except.toBool] at refused
  | error e =>
    have lines : a.count (.char '\n') = 3 := by decide
    have ends : a = [] ∨ a.getLast? = some (.char '\n') := by decide
    have hb := Statement.parse_compositional habove ends b
    have hc' := Statement.parse_compositional habove ends c
    rw [lines] at hb hc'
    exact ⟨above, below, e, habove, hbelow, rfl, hc'.1, hb.2.2.1 below hbelow, hc'.2.2.2 e hc⟩

end Listfile
