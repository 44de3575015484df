import Listfile.Proofs.Acceptance
import Listfile.Proofs.Lexical

/-!
Bracket arguments. Reading an argument finds the width of its delimiters anew, by the second opening
bracket, and takes the closing delimiter to be as wide. For a token this is always right: the text
between its delimiters is what the argument holds, less one line break in front.
-/

namespace Listfile

open Scan Lexical

def Text.lessLineBreak : Text → Text
  | .char '\n' :: rest => rest
  | t => t

namespace Lexical

variable {level : Nat} {body t : Text}

theorem lessLineBreak_eq (t : Text) :
    t.lessLineBreak = if t.head? = some (.char '\n') then t.drop 1 else t := by
  unfold Text.lessLineBreak
  split
  · rfl
  · next hne =>
    rw [if_neg]
    intro hhead
    obtain ⟨rest, rfl⟩ := List.head?_eq_some_iff.mp hhead
    exact hne rest rfl

theorem idxOf?_first {g : Glyph} {s : Text} (h : g ∉ s) (rest : Text) :
    (s ++ g :: rest).idxOf? g = some s.length := by
  induction s with
  | nil => simp [List.idxOf?_cons]
  | cons x s ih =>
    simp only [List.mem_cons, not_or] at h
    simp [List.idxOf?_cons, Ne.symm h.1, ih h.2]

theorem bracketBody?_eq (level : Nat) (body : Text) :
    bracketBody? (opener level ++ body ++ closer level) = some body.lessLineBreak := by
  have hindex : ((opener level ++ body ++ closer level).drop 1).idxOf? (.char '[') =
      some level := by
    have hmarks : .char '[' ∉ List.replicate level (Glyph.char '=') := by simp
    simpa [opener] using idxOf?_first hmarks (body ++ closer level)
  have hbody : ((opener level ++ body ++ closer level).drop (level + 2)).take
      ((opener level ++ body ++ closer level).length - (level + 2) - (level + 2)) = body := by
    rw [List.append_assoc, List.drop_left' (length_opener level)]
    apply List.take_left'
    simp only [List.length_append, length_opener, length_closer]
    omega
  simp only [bracketBody?, hindex, hbody, lessLineBreak_eq]

/-- No closing delimiter reaches into the opening one, of whatever level it is. -/
theorem opener_le_of_closer {n : Nat} {rest front back : Text}
    (h : opener level ++ rest = front ++ closer n ++ back) : level + 2 ≤ front.length := by
  by_contra hlt
  have hbracket : (front ++ closer n ++ back)[front.length]? = some (.char ']') := by
    simp [closer]
  rw [← h, List.getElem?_append_left (by rw [length_opener]; omega)] at hbracket
  have hmem := List.mem_of_getElem? hbracket
  simp [opener] at hmem

end Lexical

/-- A bracket argument between its two delimiters, which are its only ones and have no part in
common, and the argument that is read from it. -/
structure Token.Decoded (a : Token) (level : Nat) (body : Text) : Prop where
  text : a.text = opener level ++ body ++ closer level
  unique : ∀ n inner, a.text = opener n ++ inner ++ closer n → n = level ∧ inner = body
  unclosed : ¬ closer level <:+: body
  apart : ∀ n front back, a.text = front ++ closer n ++ back → level + 2 ≤ front.length
  value : ∀ separator, Argument.ofSource? .bracket separator a.text =
    some ⟨body.lessLineBreak, false, separator, some a.text⟩

theorem Lexical.Bracketed.decoded {a : Token} {level : Nat} {body : Text}
    (h : Bracketed level body a.text) : a.Decoded level body := by
  refine ⟨h.text, ?_, ?_, ?_, ?_⟩
  · intro n inner heq
    have hn : bracketLevel? a.text = some n :=
      bracketLevel?_eq_some_iff.mpr ⟨inner ++ closer n, by rw [heq, List.append_assoc]⟩
    have hlevel : bracketLevel? a.text = some level :=
      bracketLevel?_eq_some_iff.mpr ⟨body ++ closer level, by rw [h.text, List.append_assoc]⟩
    obtain rfl : n = level := Option.some.inj (hn.symm.trans hlevel)
    rw [h.text] at heq
    exact ⟨rfl, (List.append_cancel_left (List.append_cancel_right heq)).symm⟩
  · rintro ⟨front, back, rfl⟩
    have hnil := h.first front (back ++ closer level) (by simp)
    simp [closer] at hnil
  · intro n front back heq
    rw [h.text, List.append_assoc] at heq
    exact opener_le_of_closer heq
  · intro separator
    rw [Argument.ofSource?, h.text, bracketBody?_eq]
    rfl

/-- Bracket arguments are read safely and exactly. Every token that is one has a body between its
delimiters, which the argument holds; no text is refused because the delimiters are not found; and
every body that ends at its first closer, of whatever level, is read from a token of its own. -/
theorem Token.bracket_argument_decoded (t : Text) :
    (∀ a ∈ scan t, a.kind = .argumentBracket → ∃ level body, a.Decoded level body) ∧
    (∀ e, Statement.parse t = .error e → e.fault ≠ .brokenBracket) ∧
    ∀ level body text, Bracketed level body text →
      ∃ rest, scan (text ++ t) = ⟨.argumentBracket, text, .start⟩ :: rest := by
  refine ⟨?_, ?_, ?_⟩
  · intro a ha hk
    obtain ⟨before, after, hscan⟩ := List.append_of_mem ha
    have hspelled := spelled_of_tokensFrom hscan
    rw [hk] at hspelled
    cases hspelled with
    | argumentBracket hbody => exact ⟨_, _, hbody.decoded⟩
  · intro e h
    exact Parse.ofTokens_fault (fun u hu => Parse.sourced_of_scan hu) h
  · intro level body text hbody
    have hspelled : Spelled .argumentBracket text t := .argumentBracket hbody
    obtain ⟨g, inner, rfl, hlexeme⟩ := hspelled.lexeme_eq
    exact ⟨_, tokensFrom_token .start hlexeme⟩

/-- A body that holds delimiters of another level. -/
theorem Token.bracket_argument_decoded_nested :
    ∃ a ∈ scan (Text.ofString "f([=[\n[[b]] ]=]c)"), a.kind = .argumentBracket ∧
      a.Decoded 1 (Text.ofString "\n[[b]] ") ∧
      Argument.ofSource? .bracket [] a.text =
        some ⟨Text.ofString "[[b]] ", false, [], some a.text⟩ := by
  let t := Text.ofString "f([=[\n[[b]] ]=]c)"
  have hmem : (scan t)[2] ∈ scan t := List.getElem_mem _
  have hkind : (scan t)[2].kind = .argumentBracket := by decide +kernel
  obtain ⟨level, body, decoded⟩ := (bracket_argument_decoded t).1 _ hmem hkind
  have htext : (scan t)[2].text =
      opener 1 ++ Text.ofString "\n[[b]] " ++ closer 1 := by decide +kernel
  obtain ⟨rfl, rfl⟩ := decoded.unique _ _ htext
  exact ⟨_, hmem, hkind, decoded, decoded.value []⟩

end Listfile
