import Listfile.Proofs.Saving

/-!
What a save answers and what it leaves behind, whatever the files are and whatever the system
refuses. A success puts the bytes where the temporary file lands. That is the place of the absolute
form of the name, or a place inside the directory that it leads to. A failure leaves everything as
it was but for what the temporary file touches. Where the system does not move a file, it is copied
over the old one, so that a failure may leave that one half written.
-/

namespace Listfile

namespace FileSystem

variable {fs : FileSystem} {workDirectory source target : Text} {p : Path}

theorem exists_rename {e : Entry} {q : Path}
    (temp : fs.resolve false workDirectory source = .ok p) (there : fs.lookup p = some e)
    (movable : e ≠ .directory) (place : fs.resolve false workDirectory target = .ok q)
    (free : fs.lookup q ≠ some .directory) :
    ∃ after, fs.rename workDirectory source target = .ok after := by
  rw [rename, temp, place]
  simp only
  split
  · next hnone =>
    rw [there] at hnone
    cases hnone
  · next hdirectory =>
    rw [there] at hdirectory
    exact absurd (Option.some.inj hdirectory) movable
  · next hdirectory => exact absurd hdirectory free
  · exact ⟨_, rfl⟩
  · exact ⟨_, rfl⟩

theorem blocked_of_rename {e : Entry} {obstacle : Obstacle}
    (temp : fs.resolve false workDirectory source = .ok p) (there : fs.lookup p = some e)
    (movable : e ≠ .directory)
    (h : fs.rename workDirectory source target = .error obstacle) {q : Path}
    (place : fs.resolve false workDirectory target = .ok q) : fs.lookup q = some .directory := by
  refine Decidable.byContradiction fun hfree => ?_
  obtain ⟨after, hrename⟩ := exists_rename temp there movable place hfree
  rw [h] at hrename
  cases hrename

/-- Removing a file does not lead other paths astray. -/
theorem sameWays_erase (directory : fs.lookup p ≠ some .directory)
    (plain : ∀ pointer, fs.lookup p ≠ some (.link pointer)) :
    fs.SameWays (fs.erase p) true (· = p) := by
  have hne : p ≠ [] := by
    rintro rfl
    exact directory rfl
  refine ⟨fun q hq => lookup_erase_of_ne fs hq, ?_, ?_⟩
  · rintro q rfl
    exact ⟨directory, fun pointer _ _ hpointer => absurd hpointer (plain pointer)⟩
  · rintro - q pointer rfl
    exact ⟨plain pointer, by simp [lookup_erase_self fs hne]⟩

theorem write_of_blocked {after : FileSystem} {content : Bytes}
    (blocked : ∀ q, fs.resolve false workDirectory target = .ok q →
      fs.lookup q = some .directory) :
    fs.write workDirectory target content ≠ .ok after := by
  intro h
  obtain ⟨r, -, ⟨hleads, hdirectory, -⟩, -⟩ := exists_writable_of_write h
  obtain ⟨q, hplace⟩ := resolve_unfollowed hleads
  have hq := blocked q hplace
  rw [resolve_followed hplace (by simp [hq])] at hleads
  cases hleads
  exact hdirectory hq

theorem symlink_of_blocked {after : FileSystem} {pointer : Text}
    (blocked : ∀ q, fs.resolve false workDirectory target = .ok q →
      fs.lookup q = some .directory) :
    fs.symlink workDirectory target pointer ≠ .ok after := by
  intro h
  obtain ⟨q, hplace, hnone, -⟩ := symlink_eq_ok h
  rw [blocked q hplace] at hnone
  cases hnone

end FileSystem

namespace Host

variable {host : Host} {opening filling call : SystemCall} {files done stopped : FileSystem}
  {path : Text} {content : Bytes} {problem : FileProblem}

theorem write_ok (h : host.write opening filling files path content = .ok done) :
    files.write host.workDirectory path content = .ok done := by
  unfold write at h
  split at h
  · cases h
  · split at h <;> cases h
  · split at h
    · cases h
    · next hwrite =>
      cases h
      exact hwrite

theorem write_error
    (h : host.write opening filling files path content = .error (stopped, problem)) :
    stopped = files ∨ ∃ bytes, files.write host.workDirectory path bytes = .ok stopped := by
  unfold write at h
  split at h
  · cases h
    exact Or.inl rfl
  · split at h
    · cases h
      exact Or.inl rfl
    · next hwrite =>
      cases h
      exact Or.inr ⟨_, hwrite⟩
  · split at h
    · cases h
      exact Or.inl rfl
    · cases h

theorem unlink_ok (h : host.unlink call files path = .ok done) :
    files.unlink host.workDirectory path = .ok done := by
  unfold unlink at h
  split at h
  · cases h
  split at h
  · cases h
  · next hunlink =>
    cases h
    exact hunlink

theorem unlink_error (h : host.unlink call files path = .error (stopped, problem)) :
    stopped = files := by
  unfold unlink at h
  split at h
  · cases h
    rfl
  split at h
  · cases h
    rfl
  · cases h

end Host

namespace Buffer

variable {host : Host} {files done stopped : FileSystem} {source target name : Text}
  {content : Bytes} {problem : FileProblem}

/-- The ways in which a temporary file comes to its place. -/
inductive Replaced (host : Host) (files : FileSystem) (source target : Text) (content : Bytes) :
    FileSystem → Prop
  | moved {done : FileSystem} (move : files.rename host.workDirectory source target = .ok done) :
    Replaced host files source target content done
  | copied {copied done : FileSystem} (refused : (host.refusal? .move).isSome)
    (plain : files.readLink? host.workDirectory source = none)
    (different : files.isSameFile host.workDirectory source target = false)
    (copy : files.write host.workDirectory target content = .ok copied)
    (discard : copied.unlink host.workDirectory source = .ok done) :
    Replaced host files source target content done
  | relinked {pointer : Text} {linked done : FileSystem} (refused : (host.refusal? .move).isSome)
    (link : files.readLink? host.workDirectory source = some pointer)
    (copy : files.symlink host.workDirectory target pointer = .ok linked)
    (discard : linked.unlink host.workDirectory source = .ok done) :
    Replaced host files source target content done

/-- The files at the point where a replacement fails. -/
inductive Halted (host : Host) (files : FileSystem) (source target : Text) : FileSystem → Prop
  | untouched : Halted host files source target files
  | copying {bytes : Bytes} {stopped : FileSystem} (refused : (host.refusal? .move).isSome)
    (copy : files.write host.workDirectory target bytes = .ok stopped) :
    Halted host files source target stopped
  | relinking {pointer : Text} {stopped : FileSystem} (refused : (host.refusal? .move).isSome)
    (link : files.readLink? host.workDirectory source = some pointer)
    (copy : files.symlink host.workDirectory target pointer = .ok stopped) :
    Halted host files source target stopped

def Ends (host : Host) (files : FileSystem) (source target : Text) (content : Bytes) :
    Except (FileSystem × FileProblem) FileSystem → Prop
  | .ok done => Replaced host files source target content done
  | .error (stopped, _) => Halted host files source target stopped

theorem ends_copyOver
    (refused : ∀ stopped, (∃ bytes, files.write host.workDirectory target bytes = .ok stopped) ∨
      (∃ pointer, files.symlink host.workDirectory target pointer = .ok stopped) →
      (host.refusal? .move).isSome) :
    Ends host files source target content (copyOver host files source target content) := by
  unfold copyOver
  split
  · next pointer hlink =>
    split
    · exact .untouched
    · exact .untouched
    next linked _ hcopy =>
    have hrefused := refused linked (Or.inr ⟨pointer, hcopy⟩)
    cases hdiscard : host.unlink .discard linked source with
    | ok done => exact .relinked hrefused hlink hcopy (Host.unlink_ok hdiscard)
    | error failed =>
      obtain ⟨stopped, problem⟩ := failed
      cases Host.unlink_error hdiscard
      exact .relinking hrefused hlink hcopy
  · next hplain =>
    split
    · exact .untouched
    next hdifferent =>
    cases hwrite : host.write .overwrite .copy files target content with
    | error failed =>
      obtain ⟨stopped, problem⟩ := failed
      rcases Host.write_error hwrite with rfl | ⟨bytes, hcopy⟩
      · exact .untouched
      · exact .copying (refused stopped (Or.inl ⟨bytes, hcopy⟩)) hcopy
    | ok copied =>
      have hcopy := Host.write_ok hwrite
      have hrefused := refused copied (Or.inl ⟨content, hcopy⟩)
      simp only
      split
      · exact .copying hrefused hcopy
      cases hdiscard : host.unlink .discard copied source with
      | ok done =>
        exact .copied hrefused hplain (by simpa using hdifferent) hcopy (Host.unlink_ok hdiscard)
      | error failed =>
        obtain ⟨stopped, problem⟩ := failed
        cases Host.unlink_error hdiscard
        exact .copying hrefused hcopy

section Replacement

variable {temp : Path} {e : Entry}
  (place : files.resolve false host.workDirectory source = .ok temp)
  (there : files.lookup temp = some e) (movable : e ≠ .directory)
include place there movable

theorem ends_moveOver (target : Text) (content : Bytes) :
    Ends host files source target content (moveOver host files source target content) := by
  unfold moveOver
  split
  · next hmove => exact .moved hmove
  next hfailed =>
  refine ends_copyOver fun stopped hstopped => ?_
  cases hrefusal : host.refusal? .move with
  | some r => rfl
  | none =>
    exfalso
    cases hmove : files.rename host.workDirectory source target with
    | ok moved => exact hfailed moved hrefusal hmove
    | error obstacle =>
      have hblocked := fun q hq =>
        FileSystem.blocked_of_rename place there movable hmove (q := q) hq
      rcases hstopped with ⟨bytes, hwrite⟩ | ⟨pointer, hlink⟩
      · exact FileSystem.write_of_blocked hblocked hwrite
      · exact FileSystem.symlink_of_blocked hblocked hlink

theorem ends_replace (path : Text) (content : Bytes) :
    Ends host files source
      (if host.find? .inspect files path = some .directory
        then Path.inside path (Path.baseName source) else path) content
      (replace host files source path content) := by
  unfold replace
  cases host.find? .inspect files path with
  | none =>
    rw [if_neg (by simp)]
    simp only
    split
    · exact .untouched
    · exact .untouched
    · next hmove => exact .moved hmove
  | some entry =>
    cases entry with
    | directory =>
      rw [if_pos rfl]
      simp only
      split
      · exact .untouched
      · exact ends_moveOver place there movable _ content
    | file node => exact ends_moveOver place there movable _ content
    | link pointer => exact ends_moveOver place there movable _ content

end Replacement

/-- Where the temporary file lands: on the absolute form of the name, or in the directory there. -/
def landing (host : Host) (name : Text) : Text :=
  if host.find? .inspect host.files (Path.absolute host.workDirectory name) = some .directory
    then within host.workDirectory name
    else Path.absolute host.workDirectory name

/-- What a save may disturb though it fails: what the temporary file touches and, if the system
refuses to move it, also what is touched where it should land. -/
def Disturbed (host : Host) (name : Text) (q : Path) : Prop :=
  host.files.Touches host.workDirectory (temporary host.workDirectory name) q ∨
    (host.refusal? .move).isSome ∧ host.files.Touches host.workDirectory (landing host name) q

structure Begun (host : Host) (name : Text) (content : Bytes) (files : FileSystem)
    (temp place filled : Path) (node : Nat) : Prop where
  writable : host.files.Writable host.workDirectory (temporary host.workDirectory name) filled
  puts : host.files.Puts files filled node content
  beside : host.files.resolve false host.workDirectory (temporary host.workDirectory name) =
    .ok temp
  standing : host.files.resolve false host.workDirectory (Path.absolute host.workDirectory name) =
    .ok place

theorem exists_begun
    (h : host.files.write host.workDirectory (temporary host.workDirectory name) content =
      .ok files) :
    ∃ temp place filled node, Begun host name content files temp place filled node := by
  obtain ⟨filled, node, hwritable, hputs⟩ := FileSystem.exists_writable_of_write h
  obtain ⟨temp, place, htemp, hplace⟩ := exists_places hwritable.leads
  exact ⟨temp, place, filled, node, hwritable, hputs, htemp, hplace⟩

namespace Begun

variable {temp place filled : Path} {node : Nat}
  (h : Begun host name content files temp place filled node)
include h

theorem filled_or_link : filled = temp ∨
    ∃ pointer, host.files.lookup temp = some (.link pointer) ∧
      files.lookup temp = some (.link pointer) := by
  by_cases hlink : ∃ pointer, host.files.lookup temp = some (.link pointer)
  · right
    obtain ⟨pointer, hpointer⟩ := hlink
    refine ⟨pointer, hpointer, ?_⟩
    have hne : temp ≠ filled := by
      rintro rfl
      exact h.writable.link pointer hpointer
    rw [h.puts.others temp hne, hpointer]
  · left
    have hfollowed := FileSystem.resolve_followed h.beside fun target hpointer =>
      hlink ⟨target, hpointer⟩
    rw [h.writable.leads] at hfollowed
    exact Except.ok.inj hfollowed

/-- A link at the temporary path is not touched by what is written through it. -/
theorem readLink?_eq_none :
    files.readLink? host.workDirectory (temporary host.workDirectory name) = none ↔
      host.files.readLink? host.workDirectory (temporary host.workDirectory name) = none := by
  rw [FileSystem.readLink?_eq_none h.beside,
    FileSystem.readLink?_eq_none (h.puts.resolve_iff.mpr h.beside)]
  rcases h.filled_or_link with rfl | ⟨pointer, hbefore, hafter⟩
  · exact ⟨fun _ => h.writable.link, fun _ => by simp [h.puts.there]⟩
  · rw [hbefore, hafter]

theorem filled_eq
    (plain : host.files.readLink? host.workDirectory (temporary host.workDirectory name) = none) :
    filled = temp :=
  FileSystem.eq_of_plain h.beside h.writable.leads
    ((FileSystem.readLink?_eq_none h.beside).mp plain)

theorem exists_movable : ∃ e, files.lookup temp = some e ∧ e ≠ .directory := by
  rcases h.filled_or_link with rfl | ⟨pointer, -, hpointer⟩
  · exact ⟨_, h.puts.there, by simp⟩
  · exact ⟨_, hpointer, by simp⟩

theorem find_directory (path : Text) :
    host.find? .inspect files path = some .directory ↔
      host.find? .inspect host.files path = some .directory := by
  unfold Host.find?
  split
  · rfl
  rw [FileSystem.find?_eq_some, FileSystem.find?_eq_some]
  constructor
  · rintro ⟨p, hleads, hdirectory⟩
    have hne : p ≠ filled := by
      rintro rfl
      rw [h.puts.there] at hdirectory
      cases hdirectory
    exact ⟨p, h.puts.resolve_iff.mp hleads, by rw [← h.puts.others p hne, hdirectory]⟩
  · rintro ⟨p, hleads, hdirectory⟩
    have hne : p ≠ filled := by
      rintro rfl
      exact h.writable.directory hdirectory
    exact ⟨p, h.puts.resolve_iff.mpr hleads, by rw [h.puts.others p hne, hdirectory]⟩

theorem ends : Ends host files (temporary host.workDirectory name) (landing host name) content
    (replace host files (temporary host.workDirectory name)
      (Path.absolute host.workDirectory name) content) := by
  obtain ⟨e, hthere, hmovable⟩ := h.exists_movable
  have hends := ends_replace (h.puts.resolve_iff.mpr h.beside) hthere hmovable
    (Path.absolute host.workDirectory name) content
  simp only [h.find_directory] at hends
  exact hends

end Begun

/-- A state in which a store may fail. What has been changed is what may be disturbed, and the
temporary file is where it was. -/
structure Stage (host : Host) (name : Text) (files : FileSystem) : Prop where
  keeps : host.files.Keeps files (Disturbed host name)
  temp : ∀ t, files.resolve false host.workDirectory (temporary host.workDirectory name) = .ok t →
    host.files.resolve false host.workDirectory (temporary host.workDirectory name) = .ok t
  ways : host.files.readLink? host.workDirectory (temporary host.workDirectory name) = none →
    (∀ path p, host.files.resolve true host.workDirectory path = .ok p →
      files.resolve true host.workDirectory path = .ok p) ∧
    ∀ t pointer, files.resolve false host.workDirectory (temporary host.workDirectory name) =
      .ok t → files.lookup t ≠ some (.link pointer)

namespace Stage

theorem initial (host : Host) (name : Text) : Stage host name host.files := by
  refine ⟨fun _ _ => rfl, fun _ h => h, fun hplain => ⟨fun _ _ h => h, fun t pointer htemp => ?_⟩⟩
  intro hlink
  simp [FileSystem.readLink?, htemp, hlink] at hplain

theorem fill {path : Text} {bytes : Bytes} (h : Stage host name files)
    (write : files.write host.workDirectory path bytes = .ok done)
    (within : ∀ q, files.Touches host.workDirectory path q → Disturbed host name q) :
    Stage host name done := by
  obtain ⟨p, node, hwritable, hputs⟩ := FileSystem.exists_writable_of_write write
  refine ⟨?_, fun t ht => h.temp t (hputs.resolve_iff.mp ht), fun hplain => ⟨?_, ?_⟩⟩
  · refine (h.keeps.trans (FileSystem.keeps_write write)).mono fun q hq => ?_
    rcases hq with hq | hq
    · exact hq
    · exact within q hq
  · intro path p hp
    exact hputs.resolve_iff.mpr ((h.ways hplain).1 path p hp)
  · intro t pointer ht
    by_cases heq : t = p
    · exact heq ▸ (hputs.plain pointer).2
    · rw [hputs.others t heq]
      exact (h.ways hplain).2 t pointer (hputs.resolve_iff.mp ht)

theorem keeps_erase {t : Path} (h : Stage host name files)
    (ht : files.resolve false host.workDirectory (temporary host.workDirectory name) = .ok t) :
    host.files.Keeps (files.erase t) (Disturbed host name) := by
  refine (h.keeps.trans (files.keeps_erase t)).mono fun q hq => ?_
  rcases hq with hq | rfl
  · exact hq
  · exact Or.inl (Or.inl (h.temp q ht))

theorem cleanUp (h : Stage host name files) :
    host.files.Keeps (cleanUp host files (temporary host.workDirectory name))
      (Disturbed host name) ∧
    (host.files.readLink? host.workDirectory (temporary host.workDirectory name) = none →
      ∀ path p, host.files.resolve true host.workDirectory path = .ok p →
      (Buffer.cleanUp host files (temporary host.workDirectory name)).resolve true
        host.workDirectory path = .ok p) := by
  unfold Buffer.cleanUp
  cases hremoval : host.unlink .cleanUp files (temporary host.workDirectory name) with
  | error failed => exact ⟨h.keeps, fun hplain => (h.ways hplain).1⟩
  | ok done =>
    obtain ⟨t, ht, hdirectory, rfl⟩ := FileSystem.unlink_eq_ok (Host.unlink_ok hremoval)
    refine ⟨h.keeps_erase ht, fun hplain path p hp => ?_⟩
    have alike := FileSystem.sameWays_erase hdirectory fun pointer =>
      (h.ways hplain).2 t pointer ht
    exact alike.resolve ((h.ways hplain).1 path p hp)

end Stage

namespace Begun

variable {temp place filled : Path} {node : Nat}
  (h : Begun host name content files temp place filled node)
include h

theorem stage_of_halted (hstage : Stage host name files)
    (halted : Halted host files (temporary host.workDirectory name) (landing host name) stopped) :
    Stage host name stopped := by
  have hallowed : (host.refusal? .move).isSome → ∀ q,
      files.Touches host.workDirectory (landing host name) q → Disturbed host name q := by
    intro hrefused q hq
    rcases hq.of_puts h.puts h.writable.leads with hq | hq
    · exact Or.inr ⟨hrefused, hq⟩
    · exact Or.inl hq
  cases halted with
  | untouched => exact hstage
  | copying hrefused hcopy => exact hstage.fill hcopy (hallowed hrefused)
  | @relinking pointer _ hrefused hlink hcopy =>
    obtain ⟨q, hq, hnone, rfl⟩ := FileSystem.symlink_eq_ok hcopy
    have htemp := FileSystem.resolve_insert_link pointer hnone (h.puts.resolve_iff.mpr h.beside)
    refine ⟨?_, ?_, ?_⟩
    · refine (hstage.keeps.trans (files.keeps_insert q (.link pointer))).mono fun r hr => ?_
      rcases hr with hr | rfl
      · exact hr
      · exact hallowed hrefused r (Or.inl hq)
    · intro t ht
      rw [htemp] at ht
      cases ht
      exact h.beside
    · -- A link is made anew only where the temporary path is one.
      intro hplain
      rw [← h.readLink?_eq_none, hlink] at hplain
      cases hplain

end Begun

/-- What a store leaves that succeeds. The bytes are read under every path that stands where the
temporary file has landed. No directory is touched. -/
structure Landed (host : Host) (name : Text) (content : Bytes) (after : FileSystem) : Prop where
  others : host.files.Keeps after fun q => Disturbed host name q ∨
    host.files.resolve false host.workDirectory (landing host name) = .ok q
  delivered : host.files.readLink? host.workDirectory (temporary host.workDirectory name) = none →
    ∀ path p, host.files.Writable host.workDirectory path p →
      host.files.resolve false host.workDirectory path =
        host.files.resolve false host.workDirectory (landing host name) →
      after.read host.workDirectory path = .ok content
  cleared : ∀ t,
    host.files.resolve false host.workDirectory (temporary host.workDirectory name) = .ok t →
    host.files.resolve false host.workDirectory (landing host name) ≠ .ok t →
    host.files.isSameFile host.workDirectory (temporary host.workDirectory name)
      (landing host name) = false →
    after.lookup t = none
  directories : ∀ d, host.files.lookup d = some .directory → after.lookup d = some .directory

namespace Begun

variable {temp place filled : Path} {node : Nat}
  (h : Begun host name content files temp place filled node)
include h

theorem directories {d : Path} (directory : host.files.lookup d = some .directory) :
    files.lookup d = some .directory ∧ d ≠ temp := by
  have hne : d ≠ filled := by
    rintro rfl
    exact h.writable.directory directory
  have hd : files.lookup d = some .directory := by rw [h.puts.others d hne, directory]
  refine ⟨hd, ?_⟩
  rintro rfl
  obtain ⟨e, he, hmovable⟩ := h.exists_movable
  rw [hd] at he
  exact hmovable (Option.some.inj he).symm

section Moves

variable {q : Path} {e : Entry}
  (standing : host.files.resolve false host.workDirectory (landing host name) = .ok q)
  (moves : files.Moves done temp q e)
include standing moves

theorem read_of_moves
    (plain : host.files.readLink? host.workDirectory (temporary host.workDirectory name) = none)
    {path : Text} {p : Path} (writable : host.files.Writable host.workDirectory path p)
    (same : host.files.resolve false host.workDirectory path =
      host.files.resolve false host.workDirectory (landing host name)) :
    done.read host.workDirectory path = .ok content := by
  rw [standing] at same
  obtain rfl := h.filled_eq plain
  obtain rfl : e = .file node := by
    have horigin := moves.origin
    rw [h.puts.there] at horigin
    exact (Option.some.inj horigin).symm
  have hstands := h.puts.resolve_iff.mpr same
  have alike : files.SameWays done false fun r => r = filled ∨ r = q := by
    refine ⟨fun r hr => moves.others r (fun hp => hr (Or.inl hp)) fun hq => hr (Or.inr hq), ?_,
      fun hfollow => by cases hfollow⟩
    rintro r (rfl | rfl)
    · exact h.puts.closed.2
    · exact (writable.of_puts h.puts).closed hstands
  have hthere := moves.there
  have hleads := FileSystem.resolve_followed (alike.resolve hstands) (by simp [hthere])
  exact FileSystem.read_eq_ok.mpr ⟨q, hleads, FileSystem.item?_eq_file.mpr
    ⟨node, hthere, by rw [moves.bytes, h.puts.bytes]⟩⟩

theorem cleared_of_moves (apart : q ≠ temp)
    (different : host.files.isSameFile host.workDirectory (temporary host.workDirectory name)
      (landing host name) = false) : done.lookup temp = none := by
  rcases moves.left with hleft | ⟨⟨n, rfl⟩, hq, -⟩
  · exact hleft apart.symm
  -- Two names of one file, which was there before.
  exfalso
  have horigin := moves.origin
  rcases h.filled_or_link with rfl | ⟨pointer, -, hpointer⟩
  · rw [h.puts.there] at horigin
    cases horigin
    rw [h.puts.others q apart] at hq
    rcases h.puts.old with ⟨-, hfresh⟩ | hold
    · exact hfresh q hq
    have hlands := FileSystem.resolve_followed standing (by simp [hq])
    rw [FileSystem.isSameFile_of_find (FileSystem.find?_eq_some.mpr ⟨_, h.writable.leads, hold⟩)
      (FileSystem.find?_eq_some.mpr ⟨q, hlands, hq⟩)] at different
    cases different
  · rw [hpointer] at horigin
    cases horigin

theorem landed_of_moves (hstage : Stage host name files) : Landed host name content done := by
  refine ⟨?_, ?_, ?_, ?_⟩
  · refine (hstage.keeps.trans moves.keeps).mono fun r hr => ?_
    rcases hr with hr | rfl | rfl
    · exact Or.inl hr
    · exact Or.inl (Or.inl (Or.inl h.beside))
    · exact Or.inr standing
  · exact fun hplain path p hwritable hpath =>
      h.read_of_moves standing moves hplain hwritable hpath
  · intro t ht hapart hdifferent
    rw [h.beside] at ht
    cases ht
    rw [standing] at hapart
    exact h.cleared_of_moves standing moves (fun heq => hapart (by rw [heq])) hdifferent
  · intro d hdirectory
    obtain ⟨hd, hne⟩ := h.directories hdirectory
    rw [moves.others d hne, hd]
    rintro rfl
    exact moves.free hd

end Moves

theorem landed_of_copied (hstage : Stage host name files) {copied : FileSystem}
    (refused : (host.refusal? .move).isSome)
    (plain : files.readLink? host.workDirectory (temporary host.workDirectory name) = none)
    (different : files.isSameFile host.workDirectory (temporary host.workDirectory name)
      (landing host name) = false)
    (copy : files.write host.workDirectory (landing host name) content = .ok copied)
    (discard : copied.unlink host.workDirectory (temporary host.workDirectory name) = .ok done) :
    Landed host name content done := by
  obtain rfl := h.filled_eq (h.readLink?_eq_none.mp plain)
  have hcopied := h.stage_of_halted hstage (.copying refused copy)
  obtain ⟨q, node', hlands, hputs⟩ := FileSystem.exists_writable_of_write copy
  obtain ⟨t, ht, -, rfl⟩ := FileSystem.unlink_eq_ok discard
  have htemp := hcopied.temp t ht
  rw [h.beside] at htemp
  cases htemp
  have hapart : q ≠ filled := by
    rintro rfl
    rw [FileSystem.isSameFile_of_find
      (FileSystem.find?_eq_some.mpr ⟨_, h.puts.resolve_iff.mpr h.writable.leads, h.puts.there⟩)
      (FileSystem.find?_eq_some.mpr ⟨_, hlands.leads, h.puts.there⟩)] at different
    cases different
  have hthere : copied.lookup filled = some (.file node) := by
    rw [hputs.others filled hapart.symm, h.puts.there]
  have hne : filled ≠ [] := by
    rintro rfl
    cases hthere
  refine ⟨?_, ?_, ?_, ?_⟩
  · exact (hcopied.keeps_erase ht).mono fun _ hr => Or.inl hr
  · intro _ path p hwritable hpath
    -- The path stands where the copy does, so that it leads to the same file.
    obtain ⟨standing, hstands⟩ := FileSystem.resolve_unfollowed hlands.leads
    rw [h.puts.resolve_iff.mp hstands] at hpath
    have hfits := hwritable.of_puts h.puts
    obtain rfl := FileSystem.eq_of_place (h.puts.resolve_iff.mpr hpath) hstands hfits.leads
      hlands.leads hfits.link hlands.link
    have alike : copied.SameWays (copied.erase filled) true (· = filled) :=
      FileSystem.sameWays_erase (by simp [hthere]) (by simp [hthere])
    have hleads := alike.resolve (hputs.resolve_iff.mpr hfits.leads)
    refine FileSystem.read_eq_ok.mpr ⟨p, hleads, FileSystem.item?_eq_file.mpr
      ⟨node', ?_, hputs.bytes⟩⟩
    rw [FileSystem.lookup_erase_of_ne copied hapart, hputs.there]
  · intro t ht _ _
    rw [h.beside] at ht
    cases ht
    exact FileSystem.lookup_erase_self copied hne
  · intro d hdirectory
    obtain ⟨hd, hdne⟩ := h.directories hdirectory
    rw [FileSystem.lookup_erase_of_ne copied hdne, hputs.others d, hd]
    rintro rfl
    exact hlands.directory hd

theorem landed_of_relinked (hstage : Stage host name files) {pointer : Text} {linked : FileSystem}
    (refused : (host.refusal? .move).isSome)
    (link : files.readLink? host.workDirectory (temporary host.workDirectory name) = some pointer)
    (copy : files.symlink host.workDirectory (landing host name) pointer = .ok linked)
    (discard : linked.unlink host.workDirectory (temporary host.workDirectory name) = .ok done) :
    Landed host name content done := by
  have hlinked := h.stage_of_halted hstage (.relinking refused link copy)
  obtain ⟨q, -, hnone, rfl⟩ := FileSystem.symlink_eq_ok copy
  obtain ⟨t, ht, hmovable, rfl⟩ := FileSystem.unlink_eq_ok discard
  have htemp := hlinked.temp t ht
  rw [h.beside] at htemp
  cases htemp
  have hne : temp ≠ [] := by
    rintro rfl
    exact hmovable rfl
  refine ⟨?_, ?_, ?_, ?_⟩
  · exact (hlinked.keeps_erase ht).mono fun _ hr => Or.inl hr
  · intro hplain
    rw [← h.readLink?_eq_none, link] at hplain
    cases hplain
  · intro t ht _ _
    rw [h.beside] at ht
    cases ht
    exact FileSystem.lookup_erase_self _ hne
  · intro d hdirectory
    obtain ⟨hd, hdne⟩ := h.directories hdirectory
    rw [FileSystem.lookup_erase_of_ne _ hdne, FileSystem.lookup_insert_of_ne, hd]
    rintro rfl
    rw [hd] at hnone
    cases hnone

theorem landed (hstage : Stage host name files)
    (replaced : Replaced host files (temporary host.workDirectory name) (landing host name) content
      done) : Landed host name content done := by
  cases replaced with
  | moved hmove =>
    obtain ⟨p, q, e, hp, hq, hmoves⟩ := FileSystem.exists_moves_of_rename hmove
    rw [h.puts.resolve_iff, h.beside] at hp
    cases hp
    exact h.landed_of_moves (h.puts.resolve_iff.mp hq) hmoves hstage
  | copied hrefused hplain hdifferent hcopy hdiscard =>
    exact h.landed_of_copied hstage hrefused hplain hdifferent hcopy hdiscard
  | relinked hrefused hlink hcopy hdiscard =>
    exact h.landed_of_relinked hstage hrefused hlink hcopy hdiscard

end Begun

/-- A name that is saved where it is read: it stands where its absolute form does, and no link
stands at the path of its temporary file. -/
structure Direct (host : Host) (name : Text) : Prop where
  standing : host.files.resolve false host.workDirectory name =
    host.files.resolve false host.workDirectory (Path.absolute host.workDirectory name)
  plain : host.files.readLink? host.workDirectory (temporary host.workDirectory name) = none

theorem Direct.landing_eq {before : Bytes} (h : Direct host name)
    (read : host.files.read host.workDirectory name = .ok before) :
    landing host name = Path.absolute host.workDirectory name := by
  obtain ⟨p, hleads, hitem⟩ := FileSystem.read_eq_ok.mp read
  obtain ⟨node, hfile, -⟩ := FileSystem.item?_eq_file.mp hitem
  obtain ⟨q, hplace⟩ := FileSystem.resolve_unfollowed hleads
  rw [landing, if_neg]
  intro hdirectory
  unfold Host.find? at hdirectory
  split at hdirectory
  · cases hdirectory
  obtain ⟨d, hleads', hd⟩ := FileSystem.find?_eq_some.mp hdirectory
  obtain rfl := FileSystem.eq_of_place hplace (h.standing ▸ hplace) hleads hleads' (by simp [hfile])
    (by simp [hd])
  rw [hfile] at hd
  cases hd

theorem Landed.read {before : Bytes} {after : FileSystem} (h : Landed host name content after)
    (direct : Direct host name)
    (read : host.files.read host.workDirectory name = .ok before) :
    after.read host.workDirectory name = .ok content := by
  obtain ⟨p, hleads, hitem⟩ := FileSystem.read_eq_ok.mp read
  obtain ⟨node, hfile, -⟩ := FileSystem.item?_eq_file.mp hitem
  refine h.delivered direct.plain name p ⟨hleads, by simp [hfile], by simp [hfile]⟩ ?_
  rw [direct.landing_eq read, direct.standing]

structure Succeeded (b : Buffer) (host : Host) (name : Text)
    (reply : Reply (Buffer × FileSystem) Bool) : Prop where
  result : reply.result = .ok true
  silent : reply.events = []
  clean : reply.state.1 = { b with dirty := false }
  landed : Landed host name b.content reply.state.2
  read : Direct host name →
    host.find? .inspect host.files (Path.absolute host.workDirectory name) ≠ some .directory →
    ∀ p, host.files.Writable host.workDirectory name p →
      reply.state.2.read host.workDirectory name = .ok b.content

/-- What a save leaves that fails: nothing is changed but what is disturbed, and what is not can be
read as before. -/
structure Failed (b : Buffer) (host : Host) (name : Text)
    (reply : Reply (Buffer × FileSystem) Bool) : Prop where
  result : reply.result = .ok false
  reported : ∃ problem, reply.events = [.cannotWrite name problem]
  kept : reply.state.1 = b
  others : host.files.Keeps reply.state.2 (Disturbed host name)
  readable : host.files.readLink? host.workDirectory (temporary host.workDirectory name) = none →
    ∀ path p bytes, host.files.resolve true host.workDirectory path = .ok p →
      ¬ Disturbed host name p → host.files.read host.workDirectory path = .ok bytes →
      reply.state.2.read host.workDirectory path = .ok bytes

theorem store_outcome (host : Host) (name : Text) (content : Bytes) :
    (∃ after, store host (Path.absolute host.workDirectory name) content = (after, none) ∧
      Landed host name content after) ∨
    ∃ stopped problem, store host (Path.absolute host.workDirectory name) content =
      (cleanUp host stopped (temporary host.workDirectory name), some problem) ∧
      Stage host name stopped := by
  have hinitial := Stage.initial host name
  have htemporary : Path.absolute host.workDirectory name ++ temporarySuffix =
    temporary host.workDirectory name := rfl
  simp only [store, htemporary]
  cases hwrite : host.write .create .fill host.files (temporary host.workDirectory name)
      content with
  | error failed =>
    obtain ⟨stopped, problem⟩ := failed
    refine Or.inr ⟨stopped, problem, rfl, ?_⟩
    rcases Host.write_error hwrite with rfl | ⟨bytes, hbytes⟩
    · exact hinitial
    · exact hinitial.fill hbytes fun _ hq => Or.inl hq
  | ok files =>
    have hwritten := Host.write_ok hwrite
    have hstage := hinitial.fill hwritten fun _ hq => Or.inl hq
    obtain ⟨temp, place, filled, node, hbegun⟩ := exists_begun hwritten
    have hends := hbegun.ends
    simp only
    cases hreplace : replace host files (temporary host.workDirectory name)
        (Path.absolute host.workDirectory name) content with
    | error failed =>
      obtain ⟨stopped, problem⟩ := failed
      rw [hreplace] at hends
      exact Or.inr ⟨stopped, problem, rfl, hbegun.stage_of_halted hstage hends⟩
    | ok done =>
      rw [hreplace] at hends
      exact Or.inl ⟨done, rfl, hbegun.landed hstage hends⟩

theorem landed_of_store {after : FileSystem}
    (h : store host (Path.absolute host.workDirectory name) content = (after, none)) :
    Landed host name content after := by
  rcases store_outcome host name content with ⟨after', hstore, hlanded⟩ | ⟨_, _, hstore, -⟩
  · rw [h] at hstore
    cases hstore
    exact hlanded
  · rw [h] at hstore
    cases hstore

/-- When a save succeeds that the system refuses nothing: the temporary file can be written and, if
the path leads to a directory, there is room for it in that directory. -/
structure Storable (files : FileSystem) (workDirectory name : Text) : Prop where
  writable : ∃ p, files.Writable workDirectory (temporary workDirectory name) p
  room : files.find? workDirectory (Path.absolute workDirectory name) = some .directory →
    (Utf8.encode (within workDirectory name)).length < FileSystem.pathLimit ∧
    files.find? workDirectory (within workDirectory name) = none ∧
    files.resolve true workDirectory (within workDirectory name) ≠
      files.resolve true workDirectory (temporary workDirectory name)

namespace Begun

variable {temp place filled : Path} {node : Nat}
  (h : Begun host name content files temp place filled node)
include h

theorem find_eq_none (path : Text) : files.find? host.workDirectory path = none ↔
    host.files.find? host.workDirectory path = none ∧
      host.files.resolve true host.workDirectory path ≠
        host.files.resolve true host.workDirectory (temporary host.workDirectory name) := by
  rw [h.writable.leads, ← Option.not_isSome_iff_eq_none, ← Option.not_isSome_iff_eq_none, ← not_or]
  refine not_congr ?_
  rw [Option.isSome_iff_exists, Option.isSome_iff_exists]
  constructor
  · rintro ⟨e, he⟩
    obtain ⟨p, hleads, hp⟩ := FileSystem.find?_eq_some.mp he
    rw [h.puts.resolve_iff] at hleads
    by_cases hfilled : p = filled
    · exact Or.inr (hfilled ▸ hleads)
    · rw [h.puts.others p hfilled] at hp
      exact Or.inl ⟨e, FileSystem.find?_eq_some.mpr ⟨p, hleads, hp⟩⟩
  · rintro (⟨e, he⟩ | hleads)
    · obtain ⟨p, hleads, hp⟩ := FileSystem.find?_eq_some.mp he
      by_cases hfilled : p = filled
      · exact ⟨_, FileSystem.find?_eq_some.mpr
          ⟨filled, h.puts.resolve_iff.mpr (hfilled ▸ hleads), h.puts.there⟩⟩
      · rw [← h.puts.others p hfilled] at hp
        exact ⟨e, FileSystem.find?_eq_some.mpr ⟨p, h.puts.resolve_iff.mpr hleads, hp⟩⟩
    · exact ⟨_, FileSystem.find?_eq_some.mpr
        ⟨filled, h.puts.resolve_iff.mpr hleads, h.puts.there⟩⟩

theorem exists_rename {q : Path} (standing : files.resolve false host.workDirectory target = .ok q)
    (free : files.find? host.workDirectory target ≠ some .directory) :
    ∃ done, files.rename host.workDirectory (temporary host.workDirectory name) target =
      .ok done := by
  obtain ⟨e, hthere, hmovable⟩ := h.exists_movable
  refine FileSystem.exists_rename (h.puts.resolve_iff.mpr h.beside) hthere hmovable standing ?_
  intro hq
  exact free (FileSystem.find?_eq_some.mpr
    ⟨q, FileSystem.resolve_followed standing (by simp [hq]), hq⟩)

theorem exists_moveOver (willing : ∀ call, host.refusal? call = none) {q : Path}
    (standing : files.resolve false host.workDirectory target = .ok q)
    (free : files.find? host.workDirectory target ≠ some .directory) :
    ∃ done, moveOver host files (temporary host.workDirectory name) target content = .ok done := by
  obtain ⟨done, hmove⟩ := h.exists_rename standing free
  exact ⟨done, by simp [moveOver, willing, hmove]⟩

theorem exists_replace_of_file (willing : ∀ call, host.refusal? call = none)
    (free : files.find? host.workDirectory (Path.absolute host.workDirectory name) ≠
      some .directory) :
    ∃ done, replace host files (temporary host.workDirectory name)
      (Path.absolute host.workDirectory name) content = .ok done := by
  have hstanding := h.puts.resolve_iff.mpr h.standing
  simp only [replace, Host.find?, willing, Option.isSome_none, Bool.false_eq_true, if_false]
  cases hfound : files.find? host.workDirectory (Path.absolute host.workDirectory name) with
  | none =>
    obtain ⟨done, hmove⟩ := h.exists_rename hstanding free
    exact ⟨done, by simp [hmove]⟩
  | some e =>
    cases e with
    | directory => exact absurd hfound free
    | file node => exact h.exists_moveOver willing hstanding free
    | link pointer => exact h.exists_moveOver willing hstanding free

theorem exists_replace_of_directory (willing : ∀ call, host.refusal? call = none)
    (directory : files.find? host.workDirectory (Path.absolute host.workDirectory name) =
      some .directory) :
    (∃ done, replace host files (temporary host.workDirectory name)
      (Path.absolute host.workDirectory name) content = .ok done) ↔
    files.find? host.workDirectory (within host.workDirectory name) = none ∧
      ∃ q, files.resolve false host.workDirectory (within host.workDirectory name) = .ok q := by
  have hwithin : Path.inside (Path.absolute host.workDirectory name)
    (Path.baseName (temporary host.workDirectory name)) = within host.workDirectory name := rfl
  simp only [replace, Host.find?, willing, Option.isSome_none, Bool.false_eq_true, if_false,
    directory, hwithin]
  cases hinside : files.find? host.workDirectory (within host.workDirectory name) with
  | some e => simp
  | none =>
    simp only [Option.isSome_none, Bool.false_eq_true, if_false, true_and]
    constructor
    · rintro ⟨done, hdone⟩
      obtain ⟨e, hthere, hmovable⟩ := h.exists_movable
      have hends := ends_moveOver (h.puts.resolve_iff.mpr h.beside) hthere hmovable
        (within host.workDirectory name) content
      rw [hdone] at hends
      cases hends with
      | moved hmove =>
        obtain ⟨-, q, -, -, hq, -⟩ := FileSystem.exists_moves_of_rename hmove
        exact ⟨q, hq⟩
      | copied hrefused => simp [willing] at hrefused
      | relinked hrefused => simp [willing] at hrefused
    · rintro ⟨q, hq⟩
      exact h.exists_moveOver willing hq (by simp [hinside])

theorem exists_replace_iff (willing : ∀ call, host.refusal? call = none) :
    (∃ done, replace host files (temporary host.workDirectory name)
      (Path.absolute host.workDirectory name) content = .ok done) ↔
    Storable host.files host.workDirectory name := by
  have hdirectory := h.find_directory (Path.absolute host.workDirectory name)
  simp only [Host.find?, willing, Option.isSome_none, Bool.false_eq_true, if_false] at hdirectory
  by_cases hfound : host.files.find? host.workDirectory (Path.absolute host.workDirectory name) =
      some .directory
  · rw [h.exists_replace_of_directory willing (hdirectory.mpr hfound), h.find_eq_none]
    constructor
    · rintro ⟨hroom, q, hq⟩
      exact ⟨⟨filled, h.writable⟩, fun _ => ⟨(FileSystem.resolve_eq_ok.mp hq).2.1, hroom⟩⟩
    · rintro ⟨-, hroom⟩
      obtain ⟨hshort, hfree⟩ := hroom hfound
      obtain ⟨q, hq⟩ := exists_resolve_within h.writable.leads hfound hshort
      exact ⟨hfree, q, h.puts.resolve_iff.mpr hq⟩
  · constructor
    · exact fun _ => ⟨⟨filled, h.writable⟩, fun hd => absurd hd hfound⟩
    · exact fun _ => h.exists_replace_of_file willing (mt hdirectory.mp hfound)

end Begun

theorem stored_iff (willing : ∀ call, host.refusal? call = none) :
    (∃ after, store host (Path.absolute host.workDirectory name) content = (after, none)) ↔
      Storable host.files host.workDirectory name := by
  have htemporary : Path.absolute host.workDirectory name ++ temporarySuffix =
    temporary host.workDirectory name := rfl
  simp only [store, htemporary, Host.write, willing]
  cases hwrite : host.files.write host.workDirectory (temporary host.workDirectory name)
      content with
  | error problem =>
    constructor
    · rintro ⟨after, hafter⟩
      cases hafter
    · rintro ⟨⟨p, hwritable⟩, -⟩
      rw [hwritable.write] at hwrite
      cases hwrite
  | ok files =>
    obtain ⟨temp, place, filled, node, hbegun⟩ := exists_begun hwrite
    rw [← hbegun.exists_replace_iff willing]
    simp only
    cases hreplace : replace host files (temporary host.workDirectory name)
        (Path.absolute host.workDirectory name) content with
    | error failed => simp
    | ok done => simp

/-- Saving to a file. If it succeeds, the bytes are where the temporary file has landed. If it
fails, nothing is changed but what is disturbed. The path of the file is no exception to either: a
success may leave the bytes in a directory there, and a copy that fails may leave them half written.
-/
theorem save_delivers_or_fails (b : Buffer) (host : Host) {name : Text}
    (disk : b.storage = .disk name) (proper : hasNull name = false) :
    (Succeeded b host name (b.save host) ∨ Failed b host name (b.save host)) ∧
    ((∀ call, host.refusal? call = none) →
      (Succeeded b host name (b.save host) ↔ Storable host.files host.workDirectory name)) := by
  rcases store_outcome host name b.content with ⟨after, hstore, hlanded⟩ |
    ⟨stopped, problem, hstore, hstage⟩
  · have hsave : b.save host = ⟨({ b with dirty := false }, after), .ok true, []⟩ := by
      simp [save, disk, proper, hstore]
    have hsucceeded : Succeeded b host name (b.save host) := by
      rw [hsave]
      refine ⟨rfl, rfl, rfl, hlanded, fun direct hfree p hwritable => ?_⟩
      apply hlanded.delivered direct.plain name p hwritable
      rw [landing, if_neg hfree, direct.standing]
    exact ⟨Or.inl hsucceeded, fun willing =>
      ⟨fun _ => (stored_iff willing).mp ⟨after, hstore⟩, fun _ => hsucceeded⟩⟩
  · have hsave : b.save host = ⟨(b, cleanUp host stopped (temporary host.workDirectory name)),
        .ok false, [.cannotWrite name problem]⟩ := by
      simp [save, disk, proper, hstore]
    rw [hsave]
    obtain ⟨hkeeps, hways⟩ := hstage.cleanUp
    refine ⟨Or.inr ⟨rfl, ⟨problem, rfl⟩, rfl, hkeeps, ?_⟩, fun willing => ⟨?_, ?_⟩⟩
    · intro hplain path p bytes hleads hp hread
      obtain ⟨p', hleads', hitem⟩ := FileSystem.read_eq_ok.mp hread
      rw [hleads] at hleads'
      cases hleads'
      exact FileSystem.read_eq_ok.mpr ⟨p, hways hplain path p hleads, by rw [hkeeps p hp, hitem]⟩
    · intro hsucceeded
      cases hsucceeded.result
    · intro hstorable
      obtain ⟨after, hafter⟩ := (stored_iff willing).mpr hstorable
      rw [hstore] at hafter
      cases hafter

/-- Over an old file, with a temporary file left over beside it, the bytes are delivered; below a
directory that is missing nothing is. -/
theorem save_delivers_or_fails_stale :
    let b : Buffer := ⟨.disk "a", [1], true⟩
    let lost : Buffer := ⟨.disk "m/a", [1], true⟩
    let host : Host :=
      { files := ⟨[([Utf8.encode "a"], .file 0), ([Utf8.encode "a.cmakelists_edit_tmp"], .file 1)],
          [(0, [0]), (1, [9])]⟩
        workDirectory := "/"
        homeDirectory := "/" }
    Succeeded b host "a" (b.save host) ∧ (b.save host).state.2.read "/" "a" = .ok [1] ∧
      Failed lost host "m/a" (lost.save host) := by
  intro b lost host
  have hplace : host.files.resolve true "/" "a" = .ok [Utf8.encode "a"] := rfl
  have htemp : host.files.resolve true "/" (temporary "/" "a") =
    .ok [Utf8.encode "a.cmakelists_edit_tmp"] := rfl
  have hstorable : Storable host.files "/" "a" := by
    refine ⟨⟨_, htemp, by decide +kernel, ?_⟩, ?_⟩
    · intro target
      simp [show host.files.lookup [Utf8.encode "a.cmakelists_edit_tmp"] = some (.file 1) by
        decide +kernel]
    · intro hdirectory
      rw [show host.files.find? "/" (Path.absolute "/" "a") = some (.file 0) by decide +kernel]
        at hdirectory
      cases hdirectory
  have hlost : ¬ Storable host.files "/" "m/a" := by
    rintro ⟨⟨p, hwritable⟩, -⟩
    have hmissing : host.files.resolve true "/" (temporary "/" "m/a") = .error .missing := rfl
    have hleads := hwritable.leads
    rw [hmissing] at hleads
    cases hleads
  have hsaved := ((save_delivers_or_fails b host rfl (by decide)).2 fun _ => rfl).mpr hstorable
  obtain ⟨hends, hexact⟩ := save_delivers_or_fails lost host rfl (by decide)
  refine ⟨hsaved, ?_, hends.resolve_left fun h => hlost ((hexact fun _ => rfl).mp h)⟩
  have hlanding : landing host "a" = "/a" := by decide +kernel
  have hunlinked : host.files.readLink? "/" (temporary "/" "a") = none := by decide +kernel
  refine hsaved.landed.delivered hunlinked "a" _ ⟨hplace, by decide +kernel, ?_⟩ ?_
  · intro target
    simp [show host.files.lookup [Utf8.encode "a"] = some (.file 0) by decide +kernel]
  · rw [hlanding]
    rfl

/-- A save answers yes and the bytes are not read under its name: where a directory stands, they are
in it under the name of the temporary file; a name that leads through a missing directory or over a
link stands elsewhere than its absolute form; and a link at the temporary path takes the place of
the file that it leads to. A save answers no and the file is overwritten: where it could not be
moved, it has been copied, and only the attributes were refused. -/
theorem save_succeeds_unread :
    let files : FileSystem :=
      ⟨[([Utf8.encode "d"], .directory), ([Utf8.encode "d", Utf8.encode "e"], .directory),
        ([Utf8.encode "l"], .link "d/e"), ([Utf8.encode "a"], .file 0),
        ([Utf8.encode "b"], .file 1), ([Utf8.encode "b.cmakelists_edit_tmp"], .link "b"),
        ([Utf8.encode "d", Utf8.encode "f"], .file 2)], [(0, [0]), (1, [0]), (2, [0])]⟩
    let host : Host := { files := files, workDirectory := "/", homeDirectory := "/" }
    let sticky : Host :=
      { host with
        refusal? := fun call =>
          if call = .move ∨ call = .copyAttributes
            then some ⟨"[Errno 1] Operation not permitted", 0⟩ else none }
    let save (name : Text) (h : Host) := (⟨.disk name, [1], true⟩ : Buffer).save h
    ((save "d" host).result = .ok true ∧ (save "d" host).state.1.dirty = false ∧
      (save "d" host).state.2.read "/" "d" = .error (.blocked .isDirectory "d") ∧
      (save "d" host).state.2.read "/" "d/d.cmakelists_edit_tmp" = .ok [1]) ∧
    ((save "m/../g" host).result = .ok true ∧
      (save "m/../g" host).state.2.read "/" "m/../g" = .error (.blocked .missing "m/../g")) ∧
    ((save "l/../f" host).result = .ok true ∧
      (save "l/../f" host).state.2.read "/" "l/../f" = .ok [0]) ∧
    ((save "b" host).result = .ok true ∧
      (save "b" host).state.2.read "/" "b" = .error (.blocked .tooManyLinks "b")) ∧
    ((save "a" sticky).result = .ok false ∧ (save "a" sticky).state.2.read "/" "a" = .ok [1]) := by
  exact ⟨⟨rfl, rfl, rfl, rfl⟩, ⟨rfl, rfl⟩, ⟨rfl, rfl⟩, ⟨rfl, rfl⟩, ⟨rfl, rfl⟩⟩

end Buffer

end Listfile
