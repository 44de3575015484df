import Listfile.Buffer
import Listfile.Proofs.Walking

/-!
Saving a file through its temporary file. A path text is walked name by name, but it is saved under
its absolute form, which is found without looking at the files. The temporary file stands beside the
file, in the directory where the absolute form leads. What a store changes is what the names of
these two touch: the entries themselves, and the files that they lead to.
-/

namespace Listfile

namespace Utf8

theorem encodeGlyph_ne_nil (g : Glyph) : encodeGlyph g ≠ [] := by
  cases g with
  | stray b => simp [encodeGlyph]
  | char c =>
    obtain ⟨lead, rest, hbytes, -⟩ := encodeChar_shape c
    simp [encodeGlyph, hbytes]

theorem eq_of_encode_dots {n : Nat} {t : Text} (h : encode t = List.replicate n 0x2E) :
    t = List.replicate n (.char '.') := by
  induction n generalizing t with
  | zero =>
    cases t with
    | nil => rfl
    | cons g t => simp [encode, encodeGlyph_ne_nil] at h
  | succ n ih =>
    cases t with
    | nil => simp [encode, List.replicate_succ] at h
    | cons g t =>
      rw [encode, List.flatMap_cons, List.replicate_succ] at h
      cases g with
      | stray b =>
        exfalso
        have hbyte : (UInt8.ofNat (128 + b.val)).toNat = 0x2E := by
          simp only [encodeGlyph, List.cons_append, List.cons.injEq] at h
          rw [h.1]
          rfl
        rw [toNat_ofNat_of_lt (by omega)] at hbyte
        omega
      | char c =>
        obtain ⟨lead, rest, hbytes, hlength, -, -, hpayload⟩ := encodeChar_shape c
        simp only [encodeGlyph, hbytes, List.cons_append, List.cons.injEq] at h
        obtain ⟨rfl, htail⟩ := h
        -- The byte of a dot announces no other one.
        have hrest : rest = [] := by
          have hone : announced 0x2E = 1 := by decide
          exact List.eq_nil_of_length_eq_zero (by omega)
        subst hrest
        have hdot : c = '.' := by
          apply Char.ext
          apply UInt32.toNat.inj
          exact hpayload.symm
        rw [hdot, ih htail, List.replicate_succ]

theorem encode_eq_dot {t : Text} :
    encode t = encode (Text.ofString ".") ↔ t = Text.ofString "." := by
  constructor
  · intro h
    exact eq_of_encode_dots (n := 1) (h.trans (by decide))
  · rintro rfl
    rfl

theorem encode_eq_dots {t : Text} :
    encode t = encode (Text.ofString "..") ↔ t = Text.ofString ".." := by
  constructor
  · intro h
    exact eq_of_encode_dots (n := 2) (h.trans (by decide))
  · rintro rfl
    rfl

end Utf8

section Text

variable {g : Glyph}

theorem splitAt_append (s t : Text) :
    Text.splitAt g (s ++ g :: t) = Text.splitAt g s ++ Text.splitAt g t := by
  induction s with
  | nil => simp [Text.splitAt]
  | cons h s ih =>
    rw [List.cons_append, Text.splitAt, Text.splitAt, ih]
    by_cases hg : h = g
    · simp [hg]
    · cases hs : Text.splitAt g s with
      | nil =>
        exfalso
        cases s with
        | nil => simp [Text.splitAt] at hs
        | cons x s =>
          rw [Text.splitAt] at hs
          split at hs
          · cases hs
          · split at hs <;> cases hs
      | cons first rest => simp [hg]

theorem splitAt_of_not_mem {t : Text} (h : g ∉ t) : Text.splitAt g t = [t] := by
  induction t with
  | nil => rfl
  | cons x t ih =>
    simp only [List.mem_cons, not_or] at h
    simp [Text.splitAt, ih h.2, Ne.symm h.1]

theorem not_mem_of_mem_splitAt {t part : Text} (h : part ∈ Text.splitAt g t) : g ∉ part := by
  induction t generalizing part with
  | nil =>
    rw [Text.splitAt, List.mem_singleton] at h
    simp [h]
  | cons x t ih =>
    rw [Text.splitAt] at h
    by_cases hx : x = g
    · rw [if_pos hx, List.mem_cons] at h
      rcases h with rfl | h
      · simp
      · exact ih h
    · rw [if_neg hx] at h
      cases hs : Text.splitAt g t with
      | nil =>
        rw [hs, List.mem_singleton] at h
        simp [h, Ne.symm hx]
      | cons first rest =>
        rw [hs] at ih h
        rcases List.mem_cons.mp h with rfl | h
        · simp [Ne.symm hx, ih List.mem_cons_self]
        · exact ih (List.mem_cons_of_mem _ h)

theorem join_cons {separator t : Text} {rest : List Text} (h : rest ≠ []) :
    Text.join separator (t :: rest) = t ++ separator ++ Text.join separator rest := by
  cases rest with
  | nil => exact absurd rfl h
  | cons u rest => rfl

theorem join_concat (separator last more : Text) (front : List Text) :
    Text.join separator (front ++ [last]) ++ more =
      Text.join separator (front ++ [last ++ more]) := by
  induction front with
  | nil => rfl
  | cons t front ih =>
    rw [List.cons_append, List.cons_append, join_cons (by simp), join_cons (by simp), ← ih,
      List.append_assoc]

theorem join_append_singleton (separator last : Text) {front : List Text} (h : front ≠ []) :
    Text.join separator (front ++ [last]) = Text.join separator front ++ separator ++ last := by
  induction front with
  | nil => exact absurd rfl h
  | cons t front ih =>
    by_cases hfront : front = []
    · rw [hfront]
      rfl
    · rw [List.cons_append, join_cons (by simp), join_cons hfront, ih hfront]
      simp only [List.append_assoc]

end Text

structure Text.Named (t : Text) : Prop where
  nonempty : t ≠ []
  dot : t ≠ Text.ofString "."
  dots : t ≠ Text.ofString ".."
  slash : .char '/' ∉ t

namespace Path

def step (done : List Text) (name : Text) : List Text :=
  if name.isEmpty || name = Text.ofString "." then done
  else if name = Text.ofString ".." then done.dropLast
  else done ++ [name]

def lexical (workDirectory path : Text) : List Text :=
  normal ((if path.head? = some (.char '/') then path
    else inside workDirectory path).splitAt (.char '/'))

theorem named_of_foldl_step {names done : List Text} (slash : ∀ n ∈ names, .char '/' ∉ n)
    (h : ∀ n ∈ done, n.Named) : ∀ n ∈ names.foldl step done, n.Named := by
  induction names generalizing done with
  | nil => exact h
  | cons name names ih =>
    apply ih fun n hn => slash n (.tail _ hn)
    intro n hn
    unfold step at hn
    split at hn
    · exact h n hn
    split at hn
    · exact h n ((List.dropLast_sublist _).subset hn)
    · next hdot hdots =>
      rcases List.mem_append.mp hn with hn | hn
      · exact h n hn
      · rw [List.mem_singleton] at hn
        subst hn
        simp only [Bool.or_eq_true, List.isEmpty_iff, decide_eq_true_eq, not_or] at hdot
        exact ⟨hdot.1, hdot.2, hdots, slash n List.mem_cons_self⟩

theorem named_lexical (workDirectory path : Text) :
    ∀ n ∈ lexical workDirectory path, n.Named := by
  apply named_of_foldl_step
  · intro n hn
    exact not_mem_of_mem_splitAt hn
  · simp

theorem parts_join {names : List Text} (h : ∀ n ∈ names, n.Named) :
    parts (Text.join (Text.ofString "/") names) = names := by
  induction names with
  | nil => rfl
  | cons name names ih =>
    obtain ⟨nonempty, -, -, slash⟩ := h name List.mem_cons_self
    have hname : parts name = [name] := by
      rw [parts, splitAt_of_not_mem slash, List.filter_cons_of_pos (by simpa using nonempty)]
      rfl
    by_cases hnil : names = []
    · rw [hnil]
      exact hname
    · have hrest := ih fun n hn => h n (.tail _ hn)
      have htext : name ++ Text.ofString "/" ++ Text.join (Text.ofString "/") names =
          name ++ .char '/' :: Text.join (Text.ofString "/") names := by
        rw [List.append_assoc]
        rfl
      rw [parts] at hname hrest ⊢
      rw [join_cons hnil, htext, splitAt_append, List.filter_append, hname, hrest]
      rfl

def Rooted (slashes : Text) : Prop := slashes = Text.ofString "/" ∨ slashes = Text.ofString "//"

/-- The absolute form of a path is its names after one slash or two. -/
theorem absolute_eq (workDirectory path : Text) :
    ∃ slashes, Rooted slashes ∧ absolute workDirectory path =
      slashes ++ Text.join (Text.ofString "/") (lexical workDirectory path) := by
  unfold absolute lexical
  generalize (if path.head? = some (.char '/') then path else inside workDirectory path) = full
  simp only
  split
  · exact ⟨Text.ofString "//", Or.inr rfl, rfl⟩
  · exact ⟨Text.ofString "/", Or.inl rfl, rfl⟩

namespace Rooted

variable {slashes : Text} (rooted : Rooted slashes)
include rooted

theorem parts_append (t : Text) : parts (slashes ++ t) = parts t := by
  rcases rooted with rfl | rfl <;> rfl

theorem start_append (here : Path) (t : Text) : start here (slashes ++ t) = [] := by
  rcases rooted with rfl | rfl <;> rfl

theorem append_ne_nil (t : Text) : slashes ++ t ≠ [] := by
  rcases rooted with rfl | rfl <;> simp [Text.ofString]

theorem exists_join_concat (front : List Text) (last : Text) :
    ∃ t, slashes ++ Text.join (Text.ofString "/") (front ++ [last]) = t ++ .char '/' :: last := by
  by_cases hfront : front = []
  · rw [hfront]
    rcases rooted with rfl | rfl
    · exact ⟨[], rfl⟩
    · exact ⟨Text.ofString "/", rfl⟩
  · refine ⟨slashes ++ Text.join (Text.ofString "/") front, ?_⟩
    rw [join_append_singleton _ _ hfront]
    simp [Text.ofString]

theorem baseName_join (front : List Text) {last : Text} (slash : .char '/' ∉ last) :
    baseName (slashes ++ Text.join (Text.ofString "/") (front ++ [last])) = last := by
  obtain ⟨t, htext⟩ := rooted.exists_join_concat front last
  rw [htext, baseName, splitAt_append, splitAt_of_not_mem slash, List.getLast?_concat]
  rfl

theorem getLast?_join (front : List Text) {last : Text} (named : last.Named) :
    (slashes ++ Text.join (Text.ofString "/") (front ++ [last])).getLast? ≠
      some (.char '/') := by
  obtain ⟨t, htext⟩ := rooted.exists_join_concat front last
  have hend : (t ++ .char '/' :: last).getLast? = some (last.getLast named.nonempty) := by
    rw [List.getLast?_append, List.getLast?_cons, List.getLast?_eq_some_getLast named.nonempty]
    rfl
  rw [htext, hend]
  intro heq
  exact named.slash (Option.some.inj heq ▸ List.getLast_mem named.nonempty)

/-- The names of a path that is joined from names are walked as they are. -/
theorem namesOf_join {front : List Text} {last : Text} (named : ∀ n ∈ front ++ [last], n.Named) :
    namesOf (slashes ++ Text.join (Text.ofString "/") (front ++ [last])) =
      front.map Utf8.encode ++ [Utf8.encode last] := by
  have hend := rooted.getLast?_join front (named last (by simp))
  have hparts := parts_join named
  rw [← rooted.parts_append] at hparts
  simp only [namesOf, hend, hparts, if_false, List.map_append, List.map_cons, List.map_nil]

theorem inside_join {names : List Text} (named : ∀ n ∈ names, n.Named) (name : Text) :
    inside (slashes ++ Text.join (Text.ofString "/") names) name =
      slashes ++ Text.join (Text.ofString "/") (names ++ [name]) := by
  rcases List.eq_nil_or_concat names with rfl | ⟨front, last, rfl⟩
  · rcases rooted with rfl | rfl <;> rfl
  · rw [List.concat_eq_append] at named ⊢
    rw [inside, if_neg (rooted.getLast?_join front (named last (by simp))),
      join_append_singleton _ name (by simp)]
    simp [Text.ofString]

end Rooted

end Path

namespace FileSystem

variable {fs : FileSystem} {follow : Bool} {workDirectory path : Text} {p : Path}

theorem resolve_eq_ok : fs.resolve follow workDirectory path = .ok p ↔
    path ≠ [] ∧ (Utf8.encode path).length < pathLimit ∧
      fs.Leads follow linkLimit
        (Path.start ((Path.normal (workDirectory.splitAt (.char '/'))).map Utf8.encode) path)
        (Path.namesOf path) p := by
  unfold resolve
  by_cases hnil : path = []
  · simp [hnil]
  by_cases hlong : pathLimit ≤ (Utf8.encode path).length
  · simp [hnil, hlong, Nat.not_lt.mpr hlong]
  · simp [hnil, hlong, Nat.not_le.mp hlong, walk_eq_ok]

theorem resolve_join {slashes : Text} (rooted : Path.Rooted slashes) {front : List Text}
    {last : Text} (named : ∀ n ∈ front ++ [last], n.Named) :
    fs.resolve follow workDirectory
        (slashes ++ Text.join (Text.ofString "/") (front ++ [last])) = .ok p ↔
      (Utf8.encode (slashes ++ Text.join (Text.ofString "/") (front ++ [last]))).length <
        pathLimit ∧
      fs.Leads follow linkLimit [] (front.map Utf8.encode ++ [Utf8.encode last]) p := by
  rw [resolve_eq_ok, rooted.start_append, rooted.namesOf_join named]
  simp [rooted.append_ne_nil]

theorem leads_name {place : Path} {name : Text} (directory : fs.lookup place = some .directory)
    (named : name.Named) (short : (Utf8.encode name).length ≤ nameLimit) (links : Nat) :
    fs.Leads false links place [Utf8.encode name] (place ++ [Utf8.encode name]) := by
  have hstep : ∃ link, fs.step place (Utf8.encode name) =
      .ok (place ++ [Utf8.encode name], link) := by
    simp only [step, directory, mt Utf8.encode_eq_dot.mp named.dot,
      mt Utf8.encode_eq_dots.mp named.dots, Nat.not_lt.mpr short, if_false]
    split
    · exact ⟨_, rfl⟩
    · exact ⟨_, rfl⟩
  obtain ⟨link, hstep⟩ := hstep
  cases link with
  | none => exact .plain hstep (.arrived links _)
  | some target => exact .last hstep rfl

theorem Leads.short_name {place : Path} {name : Text} {links : Nat}
    (h : fs.Leads follow links place [Utf8.encode name] p) (named : name.Named) :
    (Utf8.encode name).length ≤ nameLimit := by
  have hstep : ∃ there link, fs.step place (Utf8.encode name) = .ok (there, link) := by
    cases h with
    | plain hstep _ => exact ⟨_, _, hstep⟩
    | last hstep _ => exact ⟨_, _, hstep⟩
    | jump hstep _ _ _ => exact ⟨_, _, hstep⟩
  obtain ⟨there, link, hstep⟩ := hstep
  apply Nat.not_lt.mp
  intro hlong
  simp [step, (step_ok hstep).1, mt Utf8.encode_eq_dot.mp named.dot,
    mt Utf8.encode_eq_dots.mp named.dots, hlong] at hstep

end FileSystem

namespace FileSystem

variable {before after : FileSystem} {workDirectory path source target : Text} {p q : Path}
  {content : Bytes}

theorem SameWays.resolve {follow : Bool} {differing : Path → Prop}
    (alike : before.SameWays after follow differing)
    (h : before.resolve follow workDirectory path = .ok p) :
    after.resolve follow workDirectory path = .ok p := by
  obtain ⟨hne, hshort, hleads⟩ := resolve_eq_ok.mp h
  exact resolve_eq_ok.mpr ⟨hne, hshort, hleads.congr alike⟩

theorem resolve_followed {fs : FileSystem} (h : fs.resolve false workDirectory path = .ok p)
    (plain : ∀ target, fs.lookup p ≠ some (.link target)) :
    fs.resolve true workDirectory path = .ok p := by
  obtain ⟨hne, hshort, hleads⟩ := resolve_eq_ok.mp h
  exact resolve_eq_ok.mpr ⟨hne, hshort, hleads.followed plain⟩

theorem resolve_unfollowed {fs : FileSystem} (h : fs.resolve true workDirectory path = .ok p) :
    ∃ place, fs.resolve false workDirectory path = .ok place := by
  obtain ⟨hne, hshort, hleads⟩ := resolve_eq_ok.mp h
  obtain ⟨place, hplace⟩ := hleads.unfollowed
  exact ⟨place, resolve_eq_ok.mpr ⟨hne, hshort, hplace⟩⟩

theorem readLink?_eq_none {fs : FileSystem} (place : fs.resolve false workDirectory path = .ok p) :
    fs.readLink? workDirectory path = none ↔ ∀ target, fs.lookup p ≠ some (.link target) := by
  unfold readLink?
  rw [place]
  cases hlookup : fs.lookup p with
  | none => simp [hlookup]
  | some e => cases e <;> simp [hlookup]

theorem find?_eq_some {fs : FileSystem} {e : Entry} : fs.find? workDirectory path = some e ↔
    ∃ p, fs.resolve true workDirectory path = .ok p ∧ fs.lookup p = some e := by
  unfold find?
  cases fs.resolve true workDirectory path with
  | error obstacle => simp
  | ok p => simp

theorem item?_eq_file {fs : FileSystem} : fs.item? p = some (.file content) ↔
    ∃ node, fs.lookup p = some (.file node) ∧ fs.content node = content := by
  unfold item?
  cases fs.lookup p with
  | none => simp
  | some e => cases e <;> simp [itemOf]

theorem read_eq_ok {fs : FileSystem} : fs.read workDirectory path = .ok content ↔
    ∃ p, fs.resolve true workDirectory path = .ok p ∧ fs.item? p = some (.file content) := by
  simp only [read, item?_eq_file]
  cases fs.resolve true workDirectory path with
  | error obstacle => simp
  | ok p =>
    cases hlookup : fs.lookup p with
    | none => simp [hlookup]
    | some e => cases e <;> simp [hlookup]

theorem isSameFile_of_find {fs : FileSystem} {node : Nat}
    (path : fs.find? workDirectory source = some (.file node))
    (path' : fs.find? workDirectory target = some (.file node)) :
    fs.isSameFile workDirectory source target = true := by
  simp [isSameFile, path, path']

/-- The places that a path has to do with: where it stands, where it leads, and wherever else the
file stands that it leads to. -/
def Touches (fs : FileSystem) (workDirectory path : Text) (q : Path) : Prop :=
  fs.resolve false workDirectory path = .ok q ∨ fs.resolve true workDirectory path = .ok q ∨
    ∃ node, fs.find? workDirectory path = some (.file node) ∧ fs.lookup q = some (.file node)

/-- Nothing else is seen to have changed. -/
def Keeps (before after : FileSystem) (changed : Path → Prop) : Prop :=
  ∀ q, ¬ changed q → after.item? q = before.item? q

theorem Keeps.trans {middle : FileSystem} {changed changed' : Path → Prop}
    (h : before.Keeps middle changed) (h' : middle.Keeps after changed') :
    before.Keeps after fun q => changed q ∨ changed' q := by
  intro q hq
  rw [not_or] at hq
  rw [h' q hq.2, h q hq.1]

theorem Keeps.mono {changed changed' : Path → Prop} (h : before.Keeps after changed)
    (imp : ∀ q, changed q → changed' q) : before.Keeps after changed' :=
  fun q hq => h q fun hc => hq (imp q hc)

theorem keeps_of_lookup {changed : Path → Prop}
    (entries : ∀ q, ¬ changed q → after.lookup q = before.lookup q)
    (contents : ∀ node, after.content node = before.content node) :
    before.Keeps after changed := by
  intro q hq
  rw [item?, item?, entries q hq]
  cases before.lookup q with
  | none => rfl
  | some e => cases e <;> simp [itemOf, contents]

/-- Bytes are put into the file at a place, which may have been created for them. -/
structure Puts (before after : FileSystem) (p : Path) (node : Nat) (content : Bytes) : Prop where
  there : after.lookup p = some (.file node)
  others : ∀ q, q ≠ p → after.lookup q = before.lookup q
  old : before.lookup p = none ∧ (∀ q, before.lookup q ≠ some (.file node)) ∨
    before.lookup p = some (.file node)
  bytes : after.content node = content
  rest : ∀ other, other ≠ node → after.content other = before.content other

theorem exists_puts (fs : FileSystem) (directory : fs.lookup p ≠ some .directory)
    (link : ∀ target, fs.lookup p ≠ some (.link target)) (content : Bytes) :
    ∃ node, fs.Puts (fs.put p content) p node content := by
  have hp : p ≠ [] := by
    rintro rfl
    exact directory rfl
  unfold put
  split
  · next node hfile =>
    refine ⟨node, ?_, ?_, Or.inr hfile, content_setContent_self fs node content, ?_⟩
    · rw [lookup_setContent, hfile]
    · exact fun q _ => lookup_setContent fs node content q
    · exact fun other hother => content_setContent_of_ne fs hother content
  · next hfile =>
    have hnone : fs.lookup p = none := by
      cases hlookup : fs.lookup p with
      | none => rfl
      | some e =>
        cases e with
        | file node => exact absurd hlookup (hfile node)
        | directory => exact absurd hlookup directory
        | link target => exact absurd hlookup (link target)
    refine ⟨fs.unused, ?_, ?_, Or.inl ⟨hnone, fs.lookup_ne_unused⟩,
      content_setContent_self _ _ _, ?_⟩
    · rw [lookup_setContent, lookup_insert_self _ hp]
    · intro q hq
      rw [lookup_setContent, lookup_insert_of_ne _ hq]
    · intro other hother
      rw [content_setContent_of_ne _ hother]
      rfl

namespace Puts

variable {node : Nat} (h : before.Puts after p node content)
include h

theorem keeps : before.Keeps after fun q => q = p ∨ before.lookup q = some (.file node) := by
  intro q hq
  rw [not_or] at hq
  rw [item?, item?, h.others q hq.1]
  cases hlookup : before.lookup q with
  | none => rfl
  | some e =>
    cases e with
    | file other =>
      have hne : other ≠ node := fun heq => hq.2 (by rw [hlookup, heq])
      simp [itemOf, h.rest other hne]
    | directory => rfl
    | link target => rfl

theorem closed : before.Closed p ∧ after.Closed p := by
  constructor
  · rcases h.old with ⟨hnone, -⟩ | hfile
    · exact ⟨by simp [hnone], fun _ _ _ hlink => by simp [hnone] at hlink⟩
    · exact ⟨by simp [hfile], fun _ _ _ hlink => by simp [hfile] at hlink⟩
  · exact ⟨by simp [h.there], fun _ _ _ hlink => by simp [h.there] at hlink⟩

theorem plain (target : Text) :
    before.lookup p ≠ some (.link target) ∧ after.lookup p ≠ some (.link target) := by
  refine ⟨?_, by simp [h.there]⟩
  rcases h.old with ⟨hnone, -⟩ | hfile
  · simp [hnone]
  · simp [hfile]

theorem resolve_iff {follow : Bool} {r : Path} :
    after.resolve follow workDirectory path = .ok r ↔
      before.resolve follow workDirectory path = .ok r := by
  have forth : before.SameWays after follow (· = p) :=
    ⟨h.others, fun q hq => hq ▸ h.closed.1, fun _ q target hq => hq ▸ h.plain target⟩
  have back : after.SameWays before follow (· = p) :=
    ⟨fun q hq => (h.others q hq).symm, fun q hq => hq ▸ h.closed.2,
      fun _ q target hq => hq ▸ (h.plain target).symm⟩
  exact ⟨back.resolve, forth.resolve⟩

end Puts

theorem Touches.of_puts {node : Nat} {filled : Text} (h : after.Touches workDirectory path q)
    (puts : before.Puts after p node content)
    (leads : before.resolve true workDirectory filled = .ok p) :
    before.Touches workDirectory path q ∨ before.Touches workDirectory filled q := by
  rcases h with hplace | hleads | ⟨other, hfind, hother⟩
  · exact Or.inl (Or.inl (puts.resolve_iff.mp hplace))
  · exact Or.inl (Or.inr (Or.inl (puts.resolve_iff.mp hleads)))
  by_cases hq : q = p
  · exact Or.inr (Or.inr (Or.inl (hq ▸ leads)))
  rw [puts.others q hq] at hother
  obtain ⟨place, hplace, hfile⟩ := find?_eq_some.mp hfind
  rw [puts.resolve_iff] at hplace
  by_cases hp : place = p
  · -- The path leads to the file that has been filled, which is an old one then.
    rw [hp, puts.there] at hfile
    cases hfile
    rcases puts.old with ⟨-, hfresh⟩ | hold
    · exact absurd hother (hfresh q)
    · exact Or.inr (Or.inr (Or.inr ⟨node, find?_eq_some.mpr ⟨p, leads, hold⟩, hother⟩))
  · rw [puts.others place hp] at hfile
    exact Or.inl (Or.inr (Or.inr ⟨other, find?_eq_some.mpr ⟨place, hplace, hfile⟩, hother⟩))

structure Writable (fs : FileSystem) (workDirectory path : Text) (p : Path) : Prop where
  leads : fs.resolve true workDirectory path = .ok p
  directory : fs.lookup p ≠ some .directory
  link : ∀ target, fs.lookup p ≠ some (.link target)

theorem Writable.write {fs : FileSystem} (h : fs.Writable workDirectory path p) (content : Bytes) :
    fs.write workDirectory path content = .ok (fs.put p content) := by
  unfold FileSystem.write
  rw [h.leads]
  split
  · next heq => cases heq
  · next heq =>
    cases heq
    split
    · next hdirectory => exact absurd hdirectory h.directory
    · next hlink => exact absurd hlink (h.link _)
    · rfl

theorem Writable.of_puts {node : Nat} {r : Path} (h : before.Writable workDirectory path r)
    (puts : before.Puts after p node content) : after.Writable workDirectory path r := by
  have hleads := puts.resolve_iff.mpr h.leads
  by_cases hr : r = p
  · exact ⟨hleads, by simp [hr, puts.there], by simp [hr, puts.there]⟩
  · have hsame := puts.others r hr
    exact ⟨hleads, hsame ▸ h.directory, hsame ▸ h.link⟩

/-- The link at a place leads where every path leads that stands there. -/
theorem exists_leads_behind {fs : FileSystem} (place : fs.resolve false workDirectory path = .ok q)
    (leads : fs.resolve true workDirectory path = .ok p)
    (plain : ∀ target, fs.lookup p ≠ some (.link target))
    (link : fs.lookup q = some (.link target)) :
    ∃ left, fs.Leads true left (Path.start q.dropLast target) (Path.namesOf target) p :=
  (resolve_eq_ok.mp place).2.2.behind_link (resolve_eq_ok.mp leads).2.2 link plain

theorem eq_of_plain {fs : FileSystem} (place : fs.resolve false workDirectory path = .ok q)
    (leads : fs.resolve true workDirectory path = .ok p)
    (plain : ∀ target, fs.lookup q ≠ some (.link target)) : p = q := by
  rw [resolve_followed place plain] at leads
  exact (Except.ok.inj leads).symm

theorem eq_of_place {fs : FileSystem} {other : Text} {p' : Path}
    (place : fs.resolve false workDirectory path = .ok q)
    (place' : fs.resolve false workDirectory other = .ok q)
    (leads : fs.resolve true workDirectory path = .ok p)
    (leads' : fs.resolve true workDirectory other = .ok p')
    (plain : ∀ target, fs.lookup p ≠ some (.link target))
    (plain' : ∀ target, fs.lookup p' ≠ some (.link target)) : p = p' := by
  by_cases hlink : ∃ target, fs.lookup q = some (.link target)
  · obtain ⟨target, hlink⟩ := hlink
    obtain ⟨left, hleads⟩ := exists_leads_behind place leads plain hlink
    obtain ⟨left', hleads'⟩ := exists_leads_behind place' leads' plain' hlink
    exact hleads.unique hleads'
  · have hplain := fun target hq => hlink ⟨target, hq⟩
    rw [eq_of_plain place leads hplain, eq_of_plain place' leads' hplain]

theorem Writable.closed {fs : FileSystem} (h : fs.Writable workDirectory path p)
    (place : fs.resolve false workDirectory path = .ok q) : fs.Closed q := by
  by_cases hlink : ∃ target, fs.lookup q = some (.link target)
  · obtain ⟨target, hlink⟩ := hlink
    obtain ⟨left, hleads⟩ := exists_leads_behind place h.leads h.link hlink
    refine ⟨by simp [hlink], fun target' left' end' hlink' hleads' => ?_⟩
    rw [hlink] at hlink'
    cases hlink'
    rw [← hleads.unique hleads']
    exact h.directory
  · have hplain := fun target hq => hlink ⟨target, hq⟩
    obtain rfl := eq_of_plain place h.leads hplain
    exact ⟨h.directory, fun target _ _ hq => absurd hq (hplain target)⟩

theorem exists_writable_of_write (h : before.write workDirectory path content = .ok after) :
    ∃ p node, before.Writable workDirectory path p ∧ before.Puts after p node content := by
  unfold write at h
  split at h
  · cases h
  · next p hresolve =>
    split at h
    · cases h
    · cases h
    · next hdirectory hlink =>
      cases h
      obtain ⟨node, hputs⟩ := before.exists_puts hdirectory hlink content
      exact ⟨p, node, ⟨hresolve, hdirectory, hlink⟩, hputs⟩

theorem keeps_write (h : before.write workDirectory path content = .ok after) :
    before.Keeps after (before.Touches workDirectory path) := by
  obtain ⟨p, node, ⟨hresolve, -, -⟩, hputs⟩ := exists_writable_of_write h
  refine hputs.keeps.mono fun q hq => ?_
  rcases hq with rfl | hfile
  · exact Or.inr (Or.inl hresolve)
  · rcases hputs.old with ⟨-, hfresh⟩ | hold
    · exact absurd hfile (hfresh q)
    · exact Or.inr (Or.inr ⟨node, find?_eq_some.mpr ⟨p, hresolve, hold⟩, hfile⟩)

/-- An entry has come from one place to another. Two names of one file stay as they are. -/
structure Moves (before after : FileSystem) (p q : Path) (e : Entry) : Prop where
  origin : before.lookup p = some e
  free : before.lookup q ≠ some .directory
  there : after.lookup q = some e
  others : ∀ r, r ≠ p → r ≠ q → after.lookup r = before.lookup r
  bytes : ∀ node, after.content node = before.content node
  left : (p ≠ q → after.lookup p = none) ∨
    (∃ node, e = .file node) ∧ before.lookup q = some e ∧ after = before

theorem moves_insert {e : Entry} (origin : before.lookup p = some e) (movable : e ≠ .directory)
    (free : before.lookup q ≠ some .directory) :
    before.Moves ((before.erase p).insert q e) p q e := by
  have hp : p ≠ [] := by
    rintro rfl
    exact movable (Option.some.inj origin).symm
  have hq : q ≠ [] := by
    rintro rfl
    exact free rfl
  refine ⟨origin, free, lookup_insert_self _ hq e, ?_, fun _ => rfl, Or.inl ?_⟩
  · intro r hrp hrq
    rw [lookup_insert_of_ne _ hrq, lookup_erase_of_ne _ hrp]
  · intro hne
    rw [lookup_insert_of_ne _ hne, lookup_erase_self _ hp]

theorem exists_moves_of_rename (h : before.rename workDirectory source target = .ok after) :
    ∃ p q e, before.resolve false workDirectory source = .ok p ∧
      before.resolve false workDirectory target = .ok q ∧ before.Moves after p q e := by
  unfold rename at h
  split at h
  · cases h
  · cases h
  next p q hsource htarget =>
  refine ⟨p, q, ?_⟩
  split at h
  · cases h
  · cases h
  · cases h
  · next n m hp hq =>
    refine ⟨.file n, hsource, htarget, ?_⟩
    split at h
    · next heq =>
      cases h
      rw [← heq] at hq
      exact ⟨hp, by simp [hq], hq, fun _ _ _ => rfl, fun _ => rfl, Or.inr ⟨⟨n, rfl⟩, hq, rfl⟩⟩
    · cases h
      exact moves_insert hp (by simp) (by simp [hq])
  · next e hmovable hp hfree _ =>
    cases h
    exact ⟨e, hsource, htarget, moves_insert hp hmovable hfree⟩

theorem Moves.keeps {e : Entry} (h : before.Moves after p q e) :
    before.Keeps after fun r => r = p ∨ r = q :=
  keeps_of_lookup
    (fun r hr => h.others r (fun hp => hr (Or.inl hp)) fun hq => hr (Or.inr hq)) h.bytes

theorem unlink_eq_ok (h : before.unlink workDirectory path = .ok after) :
    ∃ p, before.resolve false workDirectory path = .ok p ∧ before.lookup p ≠ some .directory ∧
      after = before.erase p := by
  unfold unlink at h
  split at h
  · cases h
  next p hresolve =>
  split at h
  · cases h
  · cases h
  · next hdirectory hlookup =>
    cases h
    refine ⟨p, hresolve, ?_, rfl⟩
    rw [hlookup]
    exact fun heq => hdirectory (Option.some.inj heq)

theorem keeps_erase (fs : FileSystem) (p : Path) : fs.Keeps (fs.erase p) (· = p) :=
  keeps_of_lookup (fun _ hq => lookup_erase_of_ne fs hq) fun _ => rfl

theorem symlink_eq_ok (h : before.symlink workDirectory path target = .ok after) :
    ∃ p, before.resolve false workDirectory path = .ok p ∧ before.lookup p = none ∧
      after = before.insert p (.link target) := by
  unfold symlink at h
  split at h
  · cases h
  next p hresolve =>
  split at h
  · cases h
  · next hlookup =>
    cases h
    exact ⟨p, hresolve, by simpa using hlookup, rfl⟩

theorem keeps_insert (fs : FileSystem) (p : Path) (e : Entry) : fs.Keeps (fs.insert p e) (· = p) :=
  keeps_of_lookup (fun _ hq => lookup_insert_of_ne fs hq e) fun _ => rfl

theorem resolve_insert_link {fs : FileSystem} (target : Text) (free : fs.lookup p = none)
    (h : fs.resolve false workDirectory path = .ok q) :
    (fs.insert p (.link target)).resolve false workDirectory path = .ok q := by
  have hp : fs.Closed p := ⟨by simp [free], fun _ _ _ hlink => by simp [free] at hlink⟩
  have alike : fs.SameWays (fs.insert p (.link target)) false (· = p) :=
    ⟨fun r hr => lookup_insert_of_ne fs hr _, fun r hr => hr ▸ hp, fun hfollow => by cases hfollow⟩
  exact alike.resolve h

end FileSystem

namespace Buffer

variable {fs : FileSystem} {follow : Bool} {workDirectory name : Text} {p place : Path}

def temporary (workDirectory name : Text) : Text :=
  Path.absolute workDirectory name ++ temporarySuffix

def within (workDirectory name : Text) : Text :=
  Path.inside (Path.absolute workDirectory name) (Path.baseName (temporary workDirectory name))

theorem named_temporary (last : Text) (slash : .char '/' ∉ last) :
    (last ++ temporarySuffix).Named := by
  have hlength : temporarySuffix.length = 20 := by decide
  have hslash : Glyph.char '/' ∉ temporarySuffix := by decide
  refine ⟨by simp [temporarySuffix, Text.ofString], ?_, ?_, by simp [slash, hslash]⟩
  · intro heq
    have := congrArg List.length heq
    simp [hlength, Text.ofString] at this
  · intro heq
    have := congrArg List.length heq
    simp [hlength, Text.ofString] at this

/-- The three paths of a save in their names. That of the temporary file differs from that of the
file in the last name, which is longer. -/
structure Spelled (workDirectory name : Text) (slashes : Text) (front : List Text) (last : Text) :
    Prop where
  rooted : Path.Rooted slashes
  named : ∀ n ∈ front ++ [last], n.Named
  absolute : Path.absolute workDirectory name =
    slashes ++ Text.join (Text.ofString "/") (front ++ [last])

theorem spelled_or_root (workDirectory name : Text) :
    (∃ slashes front last, Spelled workDirectory name slashes front last) ∨
      Path.Rooted (Path.absolute workDirectory name) := by
  obtain ⟨slashes, rooted, habsolute⟩ := Path.absolute_eq workDirectory name
  have hnamed := Path.named_lexical workDirectory name
  rcases List.eq_nil_or_concat (Path.lexical workDirectory name) with hnil | ⟨front, last, hnames⟩
  · right
    rw [habsolute, hnil]
    simpa [Text.join] using rooted
  · left
    rw [hnames, List.concat_eq_append] at hnamed habsolute
    exact ⟨slashes, front, last, rooted, hnamed, habsolute⟩

namespace Spelled

variable {slashes last : Text} {front : List Text}
  (h : Spelled workDirectory name slashes front last)
include h

theorem named_beside : ∀ n ∈ front ++ [last ++ temporarySuffix], n.Named := by
  intro n hn
  rcases List.mem_append.mp hn with hn | hn
  · exact h.named n (List.mem_append_left _ hn)
  · rw [List.mem_singleton.mp hn]
    exact named_temporary last (h.named last (by simp)).slash

theorem temporary_eq : temporary workDirectory name =
    slashes ++ Text.join (Text.ofString "/") (front ++ [last ++ temporarySuffix]) := by
  rw [temporary, h.absolute, List.append_assoc, join_concat]

theorem within_eq : within workDirectory name =
    slashes ++ Text.join (Text.ofString "/") (front ++ [last] ++ [last ++ temporarySuffix]) := by
  have hslash := (h.named_beside (last ++ temporarySuffix) (by simp)).slash
  rw [within, h.temporary_eq, h.rooted.baseName_join front hslash, h.absolute,
    h.rooted.inside_join h.named]

end Spelled

theorem within_root (root : Path.Rooted (Path.absolute workDirectory name)) :
    within workDirectory name = temporary workDirectory name := by
  rw [within, temporary]
  rcases root with hroot | hroot <;> rw [hroot] <;> decide

theorem resolve_root (root : Path.Rooted (Path.absolute workDirectory name)) :
    fs.resolve follow workDirectory (Path.absolute workDirectory name) = .ok [] := by
  rcases root with hroot | hroot <;> rw [hroot] <;> rfl

/-- Where the path of the temporary file leads anywhere, it stands beside the place of the file. -/
theorem exists_places (h : fs.resolve true workDirectory (temporary workDirectory name) = .ok p) :
    ∃ temp place, fs.resolve false workDirectory (temporary workDirectory name) = .ok temp ∧
      fs.resolve false workDirectory (Path.absolute workDirectory name) = .ok place := by
  rcases spelled_or_root workDirectory name with ⟨slashes, front, last, hspelled⟩ | hroot
  · have hlast := hspelled.named last (by simp)
    have hbeside := hspelled.named_beside (last ++ temporarySuffix) (by simp)
    rw [hspelled.temporary_eq, FileSystem.resolve_join hspelled.rooted hspelled.named_beside] at h
    obtain ⟨hfits, hleads⟩ := h
    obtain ⟨dir, left, hdirectory, -, hname, hothers⟩ := hleads.split (by simp)
    have hshort := hname.short_name hbeside
    have hlength : (Utf8.encode (last ++ temporarySuffix)).length =
        (Utf8.encode last).length + (Utf8.encode temporarySuffix).length := by
      rw [Utf8.encode_append, List.length_append]
    refine ⟨dir ++ [Utf8.encode (last ++ temporarySuffix)], dir ++ [Utf8.encode last], ?_, ?_⟩
    · rw [hspelled.temporary_eq, FileSystem.resolve_join hspelled.rooted hspelled.named_beside]
      refine ⟨hfits, (hothers false _ _ (by simp)).mpr ?_⟩
      exact FileSystem.leads_name hdirectory hbeside hshort left
    · rw [hspelled.absolute, FileSystem.resolve_join hspelled.rooted hspelled.named]
      constructor
      · rw [← join_concat, ← List.append_assoc, Utf8.encode_append, List.length_append] at hfits
        omega
      · refine (hothers false _ _ (by simp)).mpr ?_
        exact FileSystem.leads_name hdirectory hlast (by omega) left
  · have hnamed : ∀ n ∈ [] ++ [temporarySuffix], Text.Named n := by
      intro n hn
      rw [List.mem_singleton.mp hn]
      exact named_temporary [] List.not_mem_nil
    have htext : temporary workDirectory name = Path.absolute workDirectory name ++
        Text.join (Text.ofString "/") ([] ++ [temporarySuffix]) := rfl
    rw [htext, FileSystem.resolve_join hroot hnamed] at h
    refine ⟨[Utf8.encode temporarySuffix], [], ?_, resolve_root hroot⟩
    rw [htext, FileSystem.resolve_join hroot hnamed]
    exact ⟨h.1, FileSystem.leads_name rfl (hnamed _ (by simp)) (by decide) _⟩

/-- Where the path of the file leads to a directory, there is a place for the temporary file in it,
unless the path becomes too long. -/
theorem exists_resolve_within
    (temp : fs.resolve true workDirectory (temporary workDirectory name) = .ok p)
    (directory : fs.find? workDirectory (Path.absolute workDirectory name) = some .directory)
    (short : (Utf8.encode (within workDirectory name)).length < FileSystem.pathLimit) :
    ∃ q, fs.resolve false workDirectory (within workDirectory name) = .ok q := by
  rcases spelled_or_root workDirectory name with ⟨slashes, front, last, hspelled⟩ | hroot
  · have hbeside := hspelled.named_beside (last ++ temporarySuffix) (by simp)
    have hnamed : ∀ n ∈ (front ++ [last]) ++ [last ++ temporarySuffix], n.Named := by
      intro n hn
      rcases List.mem_append.mp hn with hn | hn
      · exact hspelled.named n hn
      · rw [List.mem_singleton.mp hn]
        exact hbeside
    rw [hspelled.temporary_eq,
      FileSystem.resolve_join hspelled.rooted hspelled.named_beside] at temp
    obtain ⟨_, _, -, -, hname, -⟩ := temp.2.split (by simp)
    obtain ⟨dir, hleads, hdirectory⟩ := FileSystem.find?_eq_some.mp directory
    rw [hspelled.absolute, FileSystem.resolve_join hspelled.rooted hspelled.named] at hleads
    obtain ⟨left, -, honward⟩ := (FileSystem.continues_walk fs FileSystem.linkLimit []
      (front.map Utf8.encode ++ [Utf8.encode last])).onward dir
        (by rw [List.append_nil, FileSystem.walk_eq_ok]; exact hleads.2)
    refine ⟨dir ++ [Utf8.encode (last ++ temporarySuffix)], ?_⟩
    rw [hspelled.within_eq] at short ⊢
    rw [FileSystem.resolve_join hspelled.rooted hnamed, List.map_append, ← FileSystem.walk_eq_ok,
      List.map_cons, List.map_nil, honward false _ (by simp), FileSystem.walk_eq_ok]
    exact ⟨short, FileSystem.leads_name hdirectory hbeside (hname.short_name hbeside) left⟩
  · rw [within_root hroot]
    obtain ⟨place, -, hplace, -⟩ := exists_places temp
    exact ⟨place, hplace⟩

end Buffer

end Listfile
