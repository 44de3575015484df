import Listfile.Text.Utf8

/-!
Reading and writing bytes. What is read from bytes encodes back to them. A text is stable when no
stray bytes in it make up a character, so parts of a stable text are stable, and stable texts can
be joined wherever a character stands at the seam.
-/

namespace Listfile

namespace Utf8

theorem toNat_ofNat_of_lt {n : Nat} (h : n < 256) : (UInt8.ofNat n).toNat = n := by
  rw [UInt8.toNat_ofNat']
  omega

theorem isContinuation_ofNat (n : Nat) : isContinuation (UInt8.ofNat (n % 64 + 128)) = true := by
  rw [isContinuation, toNat_ofNat_of_lt (by omega)]
  simp only [decide_eq_true_eq]
  omega

/-- The bytes of a character: a lead byte that announces their number, then continuations. -/
theorem encodeChar_shape (c : Char) :
    ∃ lead rest, String.utf8EncodeChar c = lead :: rest ∧
      announced lead = rest.length + 1 ∧ isContinuation lead = false ∧
      (∀ b ∈ rest, isContinuation b = true) ∧ payload (lead :: rest) = c.toNat := by
  have hmax : c.val.toNat < 0x110000 := by
    have := c.valid
    simp only [UInt32.isValidChar, Nat.isValidChar] at this
    omega
  have hnat : c.toNat = c.val.toNat := rfl
  rw [hnat]
  unfold String.utf8EncodeChar
  simp only
  generalize c.val.toNat = v at hmax
  have low : ∀ n : Nat, (UInt8.ofNat (n % 64 + 128)).toNat = n % 64 + 128 :=
    fun n => toNat_ofNat_of_lt (by omega)
  split
  · have lead := toNat_ofNat_of_lt (n := v) (by omega)
    refine ⟨_, _, rfl, ?_, ?_, by simp, by simp only [payload, lead]⟩
    · simp only [announced, lead, List.length_nil]
      (repeat' split) <;> omega
    · simp only [isContinuation, lead, decide_eq_false_iff_not]
      omega
  split
  · have lead := toNat_ofNat_of_lt (n := v / 64 % 32 + 192) (by omega)
    refine ⟨_, _, rfl, ?_, ?_, by simp only [List.forall_mem_cons, isContinuation_ofNat]; simp, ?_⟩
    · simp only [announced, lead, List.length_nil, List.length_cons]
      (repeat' split) <;> omega
    · simp only [isContinuation, lead, decide_eq_false_iff_not]
      omega
    · simp only [payload, lead, low]
      omega
  split
  · have lead := toNat_ofNat_of_lt (n := v / 4096 % 16 + 224) (by omega)
    refine ⟨_, _, rfl, ?_, ?_, by simp only [List.forall_mem_cons, isContinuation_ofNat]; simp, ?_⟩
    · simp only [announced, lead, List.length_nil, List.length_cons]
      (repeat' split) <;> omega
    · simp only [isContinuation, lead, decide_eq_false_iff_not]
      omega
    · simp only [payload, lead, low]
      omega
  · have lead := toNat_ofNat_of_lt (n := v / 262144 % 8 + 240) (by omega)
    refine ⟨_, _, rfl, ?_, ?_, by simp only [List.forall_mem_cons, isContinuation_ofNat]; simp, ?_⟩
    · simp only [announced, lead, List.length_nil, List.length_cons]
      (repeat' split) <;> omega
    · simp only [isContinuation, lead, decide_eq_false_iff_not]
      omega
    · simp only [payload, lead, low]
      omega

/-- Bytes start with a character exactly when they start with its encoding. -/
theorem leading?_eq_some {bytes : Bytes} {c : Char} {n : Nat} :
    leading? bytes = some (c, n) ↔
      n = (String.utf8EncodeChar c).length ∧ String.utf8EncodeChar c <+: bytes := by
  constructor
  · intro h
    cases bytes with
    | nil => simp [leading?] at h
    | cons a rest =>
      simp only [leading?] at h
      split at h
      · next heq =>
        simp only [Option.some.injEq, Prod.mk.injEq] at h
        obtain ⟨rfl, rfl⟩ := h
        rw [heq]
        exact ⟨rfl, List.take_prefix _ _⟩
      · cases h
  · rintro ⟨rfl, after, rfl⟩
    obtain ⟨lead, rest, hc, hannounced, -, -, hpayload⟩ := encodeChar_shape c
    have htake : (lead :: (rest ++ after)).take (announced lead) = lead :: rest := by
      rw [hannounced]
      simp
    rw [hc, List.cons_append]
    simp only [leading?, htake, hpayload, Char.ofNat_toNat, hc, if_true]

theorem leading?_ne_none {bytes : Bytes} :
    leading? bytes ≠ none ↔ ∃ c, String.utf8EncodeChar c <+: bytes := by
  rw [Option.ne_none_iff_exists']
  constructor
  · rintro ⟨⟨c, n⟩, h⟩
    exact ⟨c, (leading?_eq_some.mp h).2⟩
  · rintro ⟨c, h⟩
    exact ⟨(c, _), leading?_eq_some.mpr ⟨rfl, h⟩⟩

theorem decodeFrom_skip (n : Nat) (bytes : Bytes) :
    decodeFrom n bytes = decode (bytes.drop n) := by
  induction bytes generalizing n with
  | nil => simp [decode, decodeFrom]
  | cons a rest ih =>
    cases n with
    | zero => rfl
    | succ n => simp [decodeFrom, ih n]

theorem decode_char (c : Char) (bytes : Bytes) :
    decode (String.utf8EncodeChar c ++ bytes) = .char c :: decode bytes := by
  obtain ⟨lead, rest, hc, -⟩ := encodeChar_shape c
  have hlead : leading? (lead :: (rest ++ bytes)) = some (c, rest.length + 1) := by
    rw [leading?_eq_some, hc]
    exact ⟨rfl, bytes, rfl⟩
  rw [hc, List.cons_append, decode, decodeFrom, hlead]
  simp only [decodeFrom_skip]
  simp

theorem decode_stray {a : UInt8} {bytes : Bytes} (h : leading? (a :: bytes) = none) :
    decode (a :: bytes) = strayOf a :: decode bytes := by
  rw [decode, decodeFrom, h]
  rfl

theorem encodeGlyph_strayOf {a : UInt8} {bytes : Bytes} (h : leading? (a :: bytes) = none) :
    encodeGlyph (strayOf a) = [a] := by
  have high : 128 ≤ a.toNat := by
    apply Decidable.byContradiction
    intro hlow
    apply leading?_ne_none.mpr ?_ h
    refine ⟨Char.ofNat a.toNat, ?_⟩
    have hval : (Char.ofNat a.toNat).val.toNat = a.toNat := by
      have hvalid : a.toNat.isValidChar := Or.inl (by omega)
      rw [Char.ofNat, dif_pos hvalid]
      rfl
    have : String.utf8EncodeChar (Char.ofNat a.toNat) = [a] := by
      unfold String.utf8EncodeChar
      simp only [hval]
      rw [if_pos (by omega), UInt8.ofNat_toNat]
    rw [this]
    exact ⟨bytes, rfl⟩
  have hlt := a.toNat_lt
  have hmod : 128 + a.toNat % 128 = a.toNat := by omega
  simp only [strayOf, encodeGlyph, hmod, UInt8.ofNat_toNat]

/-- Writing restores the bytes that were read. -/
theorem encode_decode (bytes : Bytes) : encode (decode bytes) = bytes := by
  induction hn : bytes.length using Nat.strongRecOn generalizing bytes with
  | ind n ih =>
    cases bytes with
    | nil => rfl
    | cons a rest =>
      cases h : leading? (a :: rest) with
      | none =>
        rw [decode_stray h, encode, List.flatMap_cons, encodeGlyph_strayOf h]
        simp only [List.length_cons] at hn
        exact congrArg (a :: ·) (ih rest.length (by omega) rest rfl)
      | some found =>
        obtain ⟨-, after, hafter⟩ := leading?_eq_some.mp h
        rw [← hafter, decode_char, encode, List.flatMap_cons]
        refine congrArg (String.utf8EncodeChar found.1 ++ ·) (ih after.length ?_ after rfl)
        obtain ⟨lead, more, hc, -⟩ := encodeChar_shape found.1
        have := congrArg List.length hafter
        simp only [hc, List.length_append, List.length_cons] at this hn
        omega

theorem stable_decode (bytes : Bytes) : Stable (decode bytes) := by
  rw [Stable, encode_decode]

@[simp] theorem stable_char {c : Char} {t : Text} : Stable (.char c :: t) ↔ Stable t := by
  rw [Stable, encode, List.flatMap_cons, encodeGlyph, decode_char, List.cons.injEq]
  exact ⟨fun h => h.2, fun h => ⟨rfl, h⟩⟩

theorem stable_stray {b : Fin 128} {t : Text} :
    Stable (.stray b :: t) ↔ leading? (encode (.stray b :: t)) = none ∧ Stable t := by
  have hbyte : strayOf (UInt8.ofNat (128 + b.val)) = .stray b := by
    have : (UInt8.ofNat (128 + b.val)).toNat = 128 + b.val := toNat_ofNat_of_lt (by omega)
    simp only [strayOf, this, Glyph.stray.injEq]
    apply Fin.ext
    simp only
    omega
  have hencode : encode (.stray b :: t) = UInt8.ofNat (128 + b.val) :: encode t := rfl
  rw [Stable, hencode]
  cases h : leading? (UInt8.ofNat (128 + b.val) :: encode t) with
  | none =>
    rw [decode_stray h, hbyte, List.cons.injEq]
    exact ⟨fun h => ⟨rfl, h.2⟩, fun h => ⟨rfl, h.2⟩⟩
  | some found =>
    obtain ⟨-, after, hafter⟩ := leading?_eq_some.mp h
    rw [← hafter, decode_char]
    simp

theorem encode_append (s t : Text) : encode (s ++ t) = encode s ++ encode t := by
  simp [encode]

theorem stable_of_append {s t : Text} (h : Stable (s ++ t)) : Stable s ∧ Stable t := by
  induction s with
  | nil => exact ⟨rfl, h⟩
  | cons g s ih =>
    cases g with
    | char c =>
      rw [List.cons_append, stable_char] at h
      rw [stable_char]
      exact ih h
    | stray b =>
      rw [List.cons_append, stable_stray] at h
      obtain ⟨hs, ht⟩ := ih h.2
      refine ⟨stable_stray.mpr ⟨?_, hs⟩, ht⟩
      apply Decidable.byContradiction
      intro hlead
      obtain ⟨c, hc⟩ := leading?_ne_none.mp hlead
      refine leading?_ne_none.mpr ⟨c, ?_⟩ h.1
      rw [← List.cons_append, encode_append]
      exact hc.trans (List.prefix_append _ _)

theorem isContinuation_head {t : Text} (h : ∀ b, t.head? ≠ some (.stray b)) {a : UInt8}
    (ha : (encode t).head? = some a) : isContinuation a = false := by
  cases t with
  | nil => cases ha
  | cons g t =>
    cases g with
    | char c =>
      obtain ⟨lead, rest, hc, -, hlead, -⟩ := encodeChar_shape c
      have : encode (.char c :: t) = lead :: (rest ++ encode t) := by
        rw [encode, List.flatMap_cons, encodeGlyph, hc]
        rfl
      rw [this, List.head?_cons, Option.some.injEq] at ha
      rw [← ha, hlead]
    | stray b => exact absurd rfl (h b)

theorem exists_lead_of_getLast? {t : Text} {c : Char} (h : t.getLast? = some (.char c)) :
    ∃ a ∈ encode t, isContinuation a = false := by
  obtain ⟨before, rfl⟩ := List.getLast?_eq_some_iff.mp h
  obtain ⟨lead, rest, hc, -, hlead, -⟩ := encodeChar_shape c
  refine ⟨lead, ?_, hlead⟩
  rw [encode_append]
  simp [encode, encodeGlyph, hc]

/-- Stable texts make a stable text when a character, or nothing, stands on one side of the
seam. -/
theorem stable_append {s t : Text} (hs : Stable s) (ht : Stable t)
    (seam : (∀ b, s.getLast? ≠ some (.stray b)) ∨ (∀ b, t.head? ≠ some (.stray b))) :
    Stable (s ++ t) := by
  induction s with
  | nil => exact ht
  | cons g s ih =>
    have hseam : (∀ b, s.getLast? ≠ some (.stray b)) ∨ (∀ b, t.head? ≠ some (.stray b)) := by
      refine seam.imp_left fun hleft b hb => hleft b ?_
      rw [List.getLast?_cons, hb]
      rfl
    cases g with
    | char c =>
      rw [stable_char] at hs
      rw [List.cons_append, stable_char]
      exact ih hs hseam
    | stray b =>
      rw [stable_stray] at hs
      rw [List.cons_append, stable_stray]
      refine ⟨?_, ih hs.2 hseam⟩
      apply Decidable.byContradiction
      intro hlead
      obtain ⟨c, after, hafter⟩ := leading?_ne_none.mp hlead
      rw [← List.cons_append, encode_append] at hafter
      rcases List.append_eq_append_iff.mp hafter with ⟨more, hX, -⟩ | ⟨more, hc, ht'⟩
      · exact leading?_ne_none.mpr ⟨c, more, hX.symm⟩ hs.1
      -- The character reaches over the seam, so all bytes there go on with it.
      obtain ⟨lead, rest, hshape, -, -, hrest, -⟩ := encodeChar_shape c
      have hjoin : rest = encode s ++ more := by
        rw [hshape] at hc
        exact (List.cons.inj hc).2
      have hmore : more ≠ [] := by
        rintro rfl
        exact leading?_ne_none.mpr ⟨c, [], by simpa using hc⟩ hs.1
      rcases seam with hleft | hright
      · cases hlast : s.getLast? with
        | none =>
          rw [List.getLast?_eq_none_iff] at hlast
          exact hleft b (by rw [hlast]; rfl)
        | some g =>
          cases g with
          | stray b' => exact hleft b' (by rw [List.getLast?_cons, hlast]; rfl)
          | char c' =>
            obtain ⟨a, ha, hfalse⟩ := exists_lead_of_getLast? hlast
            rw [hrest a (by rw [hjoin]; exact List.mem_append_left _ ha)] at hfalse
            cases hfalse
      · obtain ⟨a, more', rfl⟩ := List.exists_cons_of_ne_nil hmore
        have hfalse := isContinuation_head (a := a) hright (by rw [ht']; rfl)
        rw [hrest a (by rw [hjoin]; simp)] at hfalse
        cases hfalse

theorem stable_of_chars {t : Text} (h : ∀ g ∈ t, ∃ c, g = .char c) : Stable t := by
  induction t with
  | nil => rfl
  | cons g t ih =>
    obtain ⟨c, rfl⟩ := h g List.mem_cons_self
    exact stable_char.mpr (ih fun g hg => h g (List.mem_cons_of_mem _ hg))

end Utf8

end Listfile
