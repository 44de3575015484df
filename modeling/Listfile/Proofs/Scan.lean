import Listfile.Proofs.Position
import Listfile.Token.Scan

/-!
Scanning loses nothing: the texts of the tokens, one after the other, are the text that was
scanned, no token is empty, and each token stands where the tokens before it end.
-/

namespace Listfile

def Token.textOf (tokens : List Token) : Text := tokens.flatMap (·.text)

/-- Tokens that follow each other from a place on, without gaps. -/
def Token.Consecutive (p : Position) : List Token → Prop
  | [] => True
  | t :: rest => t.position = p ∧ Token.Consecutive (p.advance t.text) rest

namespace Token

@[simp] theorem textOf_nil : textOf [] = [] := rfl

@[simp] theorem textOf_cons (t : Token) (rest : List Token) :
    textOf (t :: rest) = t.text ++ textOf rest := by
  simp [textOf]

@[simp] theorem textOf_append (s t : List Token) : textOf (s ++ t) = textOf s ++ textOf t := by
  simp [textOf]

theorem consecutive_append {p : Position} {s t : List Token} :
    Consecutive p (s ++ t) ↔ Consecutive p s ∧ Consecutive (p.advance (textOf s)) t := by
  induction s generalizing p with
  | nil => simp [Consecutive, Position.advance_nil]
  | cons a s ih => simp [Consecutive, ih, Position.advance_append, and_assoc]

end Token

namespace Scan

theorem bracketLevel?_le {t : Text} {n : Nat} (h : bracketLevel? t = some n) :
    n + 2 ≤ t.length := by
  cases t with
  | nil => simp [bracketLevel?] at h
  | cons g rest =>
    simp only [bracketLevel?] at h
    split at h
    · next hg =>
      simp only [Bool.and_eq_true, decide_eq_true_eq] at hg
      have hlt := (List.getElem?_eq_some_iff.mp hg.2).1
      simp only [Option.some.injEq] at h
      simp only [List.length_cons]
      omega
    · simp at h

theorem length_closer (level : Nat) : (closer level).length = level + 2 := by
  simp [closer]

theorem closerOffset?_le {level n : Nat} {t : Text} (h : closerOffset? level t = some n) :
    n + (level + 2) ≤ t.length := by
  induction t generalizing n with
  | nil => simp [closerOffset?] at h
  | cons g rest ih =>
    simp only [closerOffset?] at h
    split at h
    · next hp =>
      have hle := (List.isPrefixOf_iff_prefix.mp hp).length_le
      rw [length_closer] at hle
      simp only [Option.some.injEq] at h
      omega
    · obtain ⟨m, hm, rfl⟩ := Option.map_eq_some_iff.mp h
      have := ih hm
      simp only [List.length_cons]
      omega

theorem bracketLength?_le {t : Text} {n : Nat} (h : bracketLength? t = some n) :
    0 < n ∧ n ≤ t.length := by
  simp only [bracketLength?] at h
  split at h
  · simp at h
  · next level hl =>
    obtain ⟨m, hm, rfl⟩ := Option.map_eq_some_iff.mp h
    have hopen := bracketLevel?_le hl
    have hclose := closerOffset?_le hm
    rw [List.length_drop] at hclose
    omega

theorem quoteLength?_le {t : Text} {n : Nat} (h : quoteLength? t = some n) : n ≤ t.length := by
  fun_induction quoteLength? t generalizing n with
  | case1 => simp at h
  | case2 => simp only [Option.some.injEq] at h; simp [← h]
  | case3 => simp at h
  | case4 => simp only [Option.some.injEq] at h; simp [← h]
  | case5 x rest hq ih =>
    obtain ⟨m, hm, rfl⟩ := Option.map_eq_some_iff.mp h
    have := ih hm
    simp only [List.length_cons]
    omega
  | case6 g x rest hg hb ih =>
    obtain ⟨m, hm, rfl⟩ := Option.map_eq_some_iff.mp h
    have := ih hm
    simp only [List.length_cons] at this ⊢
    omega

theorem unquotedLength_le (t : Text) : unquotedLength t ≤ t.length := by
  fun_induction unquotedLength t with
  | case1 => simp
  | case2 => simp
  | case3 => simp
  | case4 => simp
  | case5 => simp only [List.length_cons]; omega
  | case6 g x rest hb ho ih => simp only [List.length_cons] at ih ⊢; omega
  | case7 => simp

/-- The forms of a token at the head of a text, each with its kind and its length. -/
inductive Lexed (g : Glyph) (rest : Text) : TokenKind → Nat → Prop where
  | commentBracket {n} : g = .char '#' → bracketLength? rest = some n →
      Lexed g rest .commentBracket (n + 1)
  | openComment : g = .char '#' → bracketLength? rest = none → (bracketLevel? rest).isSome →
      Lexed g rest .badBracket (rest.length + 1)
  | commentLine : g = .char '#' → bracketLevel? rest = none →
      Lexed g rest .commentLine ((rest.takeWhile fun h : Glyph => !(h = .char '\n')).length + 1)
  | argumentBracket {n} : g = .char '[' → bracketLength? (g :: rest) = some n →
      Lexed g rest .argumentBracket n
  | openBracket : g = .char '[' → bracketLength? (g :: rest) = none →
      (bracketLevel? (g :: rest)).isSome → Lexed g rest .badBracket (rest.length + 1)
  | argumentQuoted {n} : g = .char '"' → quoteLength? rest = some n →
      Lexed g rest .argumentQuoted (n + 1)
  | openQuote : g = .char '"' → quoteLength? rest = none →
      Lexed g rest .badString (rest.length + 1)
  | newline : g = .char '\n' → Lexed g rest .newline 1
  | space : g.isSpace = true → Lexed g rest .space ((rest.takeWhile Glyph.isSpace).length + 1)
  | parenLeft : g = .char '(' → Lexed g rest .parenLeft 1
  | parenRight : g = .char ')' → Lexed g rest .parenRight 1
  | identifier {n} : bracketLevel? (g :: rest) = none → unquotedLength (g :: rest) = n + 1 →
      isIdentifier ((g :: rest).take (n + 1)) = true → Lexed g rest .identifier (n + 1)
  | argumentUnquoted {n} : bracketLevel? (g :: rest) = none →
      unquotedLength (g :: rest) = n + 1 → isIdentifier ((g :: rest).take (n + 1)) = false →
      Lexed g rest .argumentUnquoted (n + 1)
  | badCharacter : unquotedLength (g :: rest) = 0 → Lexed g rest .badCharacter 1

theorem bracketLevel?_eq_none {g : Glyph} {rest : Text} (h : g ≠ .char '[') :
    bracketLevel? (g :: rest) = none := by
  simp [bracketLevel?, h]

theorem lexed_word (g : Glyph) (rest : Text) (h : bracketLevel? (g :: rest) = none) :
    Lexed g rest (wordLexeme (g :: rest)).1 (wordLexeme (g :: rest)).2 := by
  unfold wordLexeme
  split
  · next hn => exact .badCharacter hn
  · next n hn =>
    by_cases hi : isIdentifier ((g :: rest).take (n + 1))
    · simp only [hi, if_true]
      exact .identifier h hn hi
    · simp only [hi, Bool.false_eq_true, if_false]
      exact .argumentUnquoted h hn (by simpa using hi)

theorem lexed_lexeme (g : Glyph) (rest : Text) :
    Lexed g rest (lexeme g rest).1 (lexeme g rest).2 := by
  unfold lexeme
  split
  · next hg =>
    split
    · next n hn => exact .commentBracket hg hn
    · next hn =>
      split
      · next hl => exact .openComment hg hn hl
      · next hl => exact .commentLine hg (by simpa using hl)
  next hsharp =>
  split
  · next hg =>
    simp only [Bool.and_eq_true, decide_eq_true_eq] at hg
    split
    · next n hn => exact .argumentBracket hg.1 hn
    · next hn => exact .openBracket hg.1 hn hg.2
  next hbracket =>
  have hlevel : bracketLevel? (g :: rest) = none := by
    by_cases hg : g = .char '['
    · simpa [hg] using hbracket
    · exact bracketLevel?_eq_none hg
  split
  · next hg =>
    split
    · next n hn => exact .argumentQuoted hg hn
    · next hn => exact .openQuote hg hn
  split
  · next hg => exact .newline hg
  split
  · next hg => exact .space hg
  split
  · next hg => exact .parenLeft hg
  split
  · next hg => exact .parenRight hg
  · exact lexed_word g rest hlevel

theorem Lexed.bounds {g : Glyph} {rest : Text} {k : TokenKind} {n : Nat} (h : Lexed g rest k n) :
    0 < n ∧ n ≤ rest.length + 1 := by
  have takeWhile_le : ∀ f : Glyph → Bool, (rest.takeWhile f).length ≤ rest.length :=
    fun f => (List.takeWhile_prefix f).length_le
  have word_le := unquotedLength_le (g :: rest)
  simp only [List.length_cons] at word_le
  cases h with
  | commentBracket _ hn => have := bracketLength?_le hn; omega
  | commentLine => have := takeWhile_le fun h : Glyph => !(h = .char '\n'); omega
  | argumentBracket _ hn => simpa using bracketLength?_le hn
  | argumentQuoted _ hn => have := quoteLength?_le hn; omega
  | space => have := takeWhile_le Glyph.isSpace; omega
  | identifier _ hn => omega
  | argumentUnquoted _ hn => omega
  | openComment => omega
  | openBracket => omega
  | openQuote => omega
  | newline => omega
  | parenLeft => omega
  | parenRight => omega
  | badCharacter => omega

theorem lexeme_bounds (g : Glyph) (rest : Text) :
    0 < (lexeme g rest).2 ∧ (lexeme g rest).2 ≤ rest.length + 1 :=
  (lexed_lexeme g rest).bounds

theorem tokensFrom_skip (p : Position) (n : Nat) (t : Text) :
    tokensFrom p n t = tokensFrom p 0 (t.drop n) := by
  induction t generalizing n with
  | nil => simp [tokensFrom]
  | cons g rest ih =>
    cases n with
    | zero => rfl
    | succ n => simp [tokensFrom, ih n]

theorem tokensFrom_cons (p : Position) (g : Glyph) (rest : Text) :
    tokensFrom p 0 (g :: rest) =
      ⟨(lexeme g rest).1, (g :: rest).take (lexeme g rest).2, p⟩ ::
        tokensFrom (p.advance ((g :: rest).take (lexeme g rest).2)) 0
          ((g :: rest).drop (lexeme g rest).2) := by
  have hpos := (lexeme_bounds g rest).1
  obtain ⟨n, hn⟩ : ∃ n, (lexeme g rest).2 = n + 1 := ⟨(lexeme g rest).2 - 1, by omega⟩
  rw [tokensFrom, tokensFrom_skip, hn]
  simp

/-- Induction along the tokens of a text. -/
theorem scan_induction {motive : Text → Prop} (nil : motive [])
    (cons : ∀ g rest, motive ((g :: rest).drop (lexeme g rest).2) → motive (g :: rest)) (t : Text) :
    motive t := by
  induction hn : t.length using Nat.strongRecOn generalizing t with
  | ind n ih =>
    cases t with
    | nil => exact nil
    | cons g rest =>
      apply cons
      apply ih _ _ _ rfl
      have := lexeme_bounds g rest
      simp only [List.length_drop, List.length_cons] at hn ⊢
      omega

theorem textOf_tokensFrom (p : Position) (t : Text) : Token.textOf (tokensFrom p 0 t) = t := by
  induction t using scan_induction generalizing p with
  | nil => rfl
  | cons g rest ih => rw [tokensFrom_cons, Token.textOf_cons, ih, List.take_append_drop]

theorem consecutive_tokensFrom (p : Position) (t : Text) :
    Token.Consecutive p (tokensFrom p 0 t) := by
  induction t using scan_induction generalizing p with
  | nil => simp [tokensFrom, Token.Consecutive]
  | cons g rest ih =>
    rw [tokensFrom_cons]
    exact ⟨rfl, ih _⟩

theorem lexed_of_mem {p : Position} {t : Text} {a : Token} (h : a ∈ tokensFrom p 0 t) :
    ∃ g rest n, Lexed g rest a.kind n ∧ a.text = (g :: rest).take n := by
  induction t using scan_induction generalizing p with
  | nil => simp [tokensFrom] at h
  | cons g rest ih =>
    rw [tokensFrom_cons, List.mem_cons] at h
    rcases h with rfl | h
    · exact ⟨g, rest, _, lexed_lexeme g rest, rfl⟩
    · exact ih h

theorem text_of_parenLeft {p : Position} {t : Text} {a : Token} (h : a ∈ tokensFrom p 0 t)
    (hk : a.kind = .parenLeft) : a.text = [.char '('] := by
  obtain ⟨g, rest, n, hl, ht⟩ := lexed_of_mem h
  rw [hk] at hl
  cases hl with
  | parenLeft hg => simpa [hg] using ht

theorem text_of_parenRight {p : Position} {t : Text} {a : Token} (h : a ∈ tokensFrom p 0 t)
    (hk : a.kind = .parenRight) : a.text = [.char ')'] := by
  obtain ⟨g, rest, n, hl, ht⟩ := lexed_of_mem h
  rw [hk] at hl
  cases hl with
  | parenRight hg => simpa [hg] using ht

end Scan

theorem Token.textOf_scan (t : Text) : Token.textOf (Token.scan t) = t :=
  Scan.textOf_tokensFrom .start t

theorem Token.consecutive_scan (t : Text) : Token.Consecutive .start (Token.scan t) :=
  Scan.consecutive_tokensFrom .start t

end Listfile
