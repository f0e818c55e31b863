/-
What one run of the main thread asks of the HTML5 filesystem: it opens it, it goes on to a request
that names it, or it does neither.
-/
import NaClFs.Html5.Failure

namespace NaClFs

/-! ## Requests -/

/-- The request names `filesystem_`. -/
def Request.usesFileSystem : Request → Bool
  | .fileOpen _ _ _ | .makeDirectory _ | .readDirectoryEntries _ => true
  | _ => false

/-- With the filesystem set, a run for the call goes on to a request that names it. -/
def AsksFileSystem (w : World) (arguments : Arguments) : Prop :=
  let this := w.delegates arguments.delegate
  match arguments.function with
  | .open_ _ _ _ | .stat _ _ => this.waiting = false ∧ this.querying = false
  | .mkdir _ _ => this.waiting = false
  | .readdir dirp => this.waiting = false ∧ ∃ dir, w.dir dirp = some dir ∧ dir.read = false
  | _ => False

/-- The request neither opens the filesystem nor names it. -/
def Request.Indifferent (r : Request) : Prop := r.opensFileSystem = false ∧ r.usesFileSystem = false

theorem Request.Indifferent.of_some {r : Request} (h : r.Indifferent) :
    ∀ r', some r = some r' → r'.Indifferent := by
  rintro r' ⟨⟩
  exact h

/-! ## One run -/

variable {imm : Request → Int} {w : World} {c d : Nat} {code : Int} {f : Function}

/-- What a run for a call does about the filesystem: it opens it, it asks for something on it, or it
does neither. -/
inductive About (w : World) (d : Nat) (f : Function) (e : Entry) : Prop
  | opens (hf : w.filesystem = none) (hn : NeedsFileSystem f) (hw : e.world.filesystem.isSome)
      (r : Request) (hr : e.request = some r) (ho : r.opensFileSystem = true)
      (hu : r.usesFileSystem = false)
  | asks (hf : w.filesystem.isSome ∨ w.dirs ≠ []) (ha : AsksFileSystem w ⟨d, f⟩)
      (hw : e.world.filesystem = w.filesystem) (r : Request) (hr : e.request = some r)
      (ho : r.opensFileSystem = false) (hu : r.usesFileSystem = true)
  | neither (hn : w.filesystem = none → ¬ NeedsFileSystem f)
      (ha : w.filesystem.isSome → ¬ AsksFileSystem w ⟨d, f⟩)
      (hw : e.world.filesystem = w.filesystem)
      (hd : w.filesystem = none → w.dirs = [] → e.world.dirs = [])
      (hr : ∀ r, e.request = some r → r.Indifferent)

theorem not_entered_of_waiting {this : Html5FileSystem} (h : this.waiting = true) :
    ¬ (this.waiting = false ∧ this.querying = false) := by
  rw [h]
  rintro ⟨⟨⟩, -⟩

theorem not_entered_of_querying {this : Html5FileSystem} (h : this.querying = true) :
    ¬ (this.waiting = false ∧ this.querying = false) := by
  rw [h]
  rintro ⟨-, ⟨⟩⟩

theorem World.setDir_nil (dirp : Nat) (dir : Option Html5FileSystemDir) (h : w.dirs = []) :
    (w.setDir dirp dir).dirs = [] := by
  simp [World.setDir, h]

namespace About

variable {e : Entry} {filesystem : Nat}

theorem initialize_ (imm : Request → Int) (hf : w.filesystem = none) (hn : NeedsFileSystem f)
    (hw : e.world = (Html5FileSystem.initialize_ imm w d).world)
    (hr : e.request = (Html5FileSystem.initialize_ imm w d).request) : About w d f e := by
  refine .opens hf hn ?_ _ hr rfl rfl
  rw [hw]
  rfl

theorem asking (hf : w.filesystem = some filesystem) (ha : AsksFileSystem w ⟨d, f⟩)
    (hw : e.world.filesystem = some filesystem) {r : Request} (hr : e.request = some r)
    (ho : r.opensFileSystem = false) (hu : r.usesFileSystem = true) : About w d f e := by
  refine .asks (.inl ?_) ha (hw.trans hf.symm) r hr ho hu
  rw [hf]
  rfl

/-- A run with the filesystem set that asks for nothing on it. -/
theorem settled (hf : w.filesystem = some filesystem) (ha : ¬ AsksFileSystem w ⟨d, f⟩)
    (hw : e.world.filesystem = w.filesystem) (hr : ∀ r, e.request = some r → r.Indifferent) :
    About w d f e := by
  have hne : w.filesystem ≠ none := by rw [hf]; exact Option.some_ne_none _
  exact .neither (fun h => absurd h hne) (fun _ => ha) hw (fun h => absurd h hne) hr

/-- A run of an operation that has nothing to do with the filesystem. -/
theorem apart (hn : ¬ NeedsFileSystem f) (ha : ¬ AsksFileSystem w ⟨d, f⟩)
    (hw : e.world.filesystem = w.filesystem) (hd : w.dirs = [] → e.world.dirs = [])
    (hr : ∀ r, e.request = some r → r.Indifferent) : About w d f e :=
  .neither (fun _ => hn) (fun _ => ha) hw (fun _ => hd) hr

theorem openCall (path : Str) (oflag cmode : BitVec 32) :
    About w d (.open_ path oflag cmode) (Html5FileSystem.openCall imm w d code path oflag) := by
  unfold Html5FileSystem.openCall
  cases hf : w.filesystem with
  | none => exact .initialize_ imm hf trivial rfl rfl
  | some filesystem =>
    simp only
    split
    · next hv =>
      have ha : ¬ AsksFileSystem w ⟨d, .open_ path oflag cmode⟩ := not_entered_of_waiting hv
      split
      · exact .settled hf ha rfl nofun
      · exact .settled hf ha rfl (.of_some ⟨rfl, rfl⟩)
    · next hv =>
      split
      · next hq =>
        have ha : ¬ AsksFileSystem w ⟨d, .open_ path oflag cmode⟩ := not_entered_of_querying hq
        split
        · exact .settled hf ha rfl nofun
        · exact .settled hf ha rfl nofun
      · next hq =>
        have ha : AsksFileSystem w ⟨d, .open_ path oflag cmode⟩ :=
          ⟨eq_false_of_ne_true hv, eq_false_of_ne_true hq⟩
        split
        · exact .asking hf ha rfl rfl rfl rfl
        · exact .asking hf ha rfl rfl rfl rfl

theorem statCall (path : Str) (buf : Nat) :
    About w d (.stat path buf) (Html5FileSystem.statCall imm w d code path buf) := by
  unfold Html5FileSystem.statCall
  cases hf : w.filesystem with
  | none => exact .initialize_ imm hf trivial rfl rfl
  | some filesystem =>
    simp only
    split
    · next hv =>
      have ha : ¬ AsksFileSystem w ⟨d, .stat path buf⟩ := not_entered_of_waiting hv
      split
      · exact .settled hf ha rfl nofun
      · split
        · exact .settled hf ha rfl nofun
        · exact .settled hf ha rfl (.of_some ⟨rfl, rfl⟩)
    · next hv =>
      split
      · next hq =>
        have ha : ¬ AsksFileSystem w ⟨d, .stat path buf⟩ := not_entered_of_querying hq
        split
        · exact .settled hf ha rfl nofun
        · exact .settled hf ha rfl nofun
      · next hq =>
        have ha : AsksFileSystem w ⟨d, .stat path buf⟩ :=
          ⟨eq_false_of_ne_true hv, eq_false_of_ne_true hq⟩
        split
        · exact .asking hf ha rfl rfl rfl rfl
        · exact .asking hf ha rfl rfl rfl rfl

theorem mkDirCall (path : Str) (mode : BitVec 32) :
    About w d (.mkdir path mode) (Html5FileSystem.mkDirCall imm w d code path) := by
  unfold Html5FileSystem.mkDirCall
  cases hf : w.filesystem with
  | none => exact .initialize_ imm hf trivial rfl rfl
  | some filesystem =>
    simp only
    split
    · next hv =>
      have ha : ¬ AsksFileSystem w ⟨d, .mkdir path mode⟩ := by
        intro h
        rw [show _ = false from h] at hv
        cases hv
      exact .settled hf ha rfl nofun
    · next hv =>
      have ha : AsksFileSystem w ⟨d, .mkdir path mode⟩ := eq_false_of_ne_true hv
      split
      · exact .asking hf ha hf rfl rfl rfl
      · exact .asking hf ha hf rfl rfl rfl

theorem openDirCall (dirname : Str) :
    About w d (.opendir dirname) (Html5FileSystem.openDirCall imm w d dirname) := by
  unfold Html5FileSystem.openDirCall
  cases hf : w.filesystem with
  | none => exact .initialize_ imm hf trivial rfl rfl
  | some filesystem => exact .settled hf id hf.symm nofun

theorem readDirCall (dirp : Nat) :
    About w d (.readdir dirp) (Html5FileSystem.readDirCall imm w d code dirp) := by
  unfold Html5FileSystem.readDirCall
  cases hd : w.dir dirp with
  | none =>
    have ha : ¬ AsksFileSystem w ⟨d, .readdir dirp⟩ := by
      rintro ⟨-, dir, h, -⟩
      rw [hd] at h
      cases h
    exact .apart id ha rfl id nofun
  | some dir =>
    -- A DIR was made, so `filesystem_` need not be looked at.
    have hne : w.dirs ≠ [] := by
      intro h
      rw [World.dir_some, h] at hd
      cases hd
    simp only
    split
    · next hv =>
      have ha : ¬ AsksFileSystem w ⟨d, .readdir dirp⟩ := by
        rintro ⟨h, -⟩
        rw [hv] at h
        cases h
      split
      · exact .apart id ha rfl id nofun
      · exact .apart id ha rfl (fun h => absurd h hne) nofun
    · next hv =>
      split
      · next hr =>
        have ha : ¬ AsksFileSystem w ⟨d, .readdir dirp⟩ := by
          rintro ⟨-, dir', h, hr'⟩
          rw [hd] at h
          cases h
          rw [hr] at hr'
          cases hr'
        exact .apart id ha rfl (fun h => absurd h hne) nofun
      · next hr =>
        have ha : AsksFileSystem w ⟨d, .readdir dirp⟩ :=
          ⟨eq_false_of_ne_true hv, dir, hd, eq_false_of_ne_true hr⟩
        split
        · exact .asks (.inr hne) ha rfl _ rfl rfl rfl
        · split
          · exact .asks (.inr hne) ha rfl _ rfl rfl rfl
          · exact .asks (.inr hne) ha rfl _ rfl rfl rfl

theorem fstatCall (buf : Nat) :
    About w d (.fstat buf) (Html5FileSystem.fstatCall imm w d buf) := by
  unfold Html5FileSystem.fstatCall
  simp only
  split
  · exact .apart id id rfl id nofun
  · split
    · exact .apart id id rfl id (.of_some ⟨rfl, rfl⟩)
    · exact .apart id id rfl id (.of_some ⟨rfl, rfl⟩)

theorem readCall (buf nbytes : Nat) :
    About w d (.read buf nbytes) (Html5FileSystem.readCall imm w d code buf nbytes) := by
  unfold Html5FileSystem.readCall
  simp only
  split
  · exact .apart id id rfl id nofun
  · split
    · exact .apart id id rfl id (.of_some ⟨rfl, rfl⟩)
    · exact .apart id id rfl id (.of_some ⟨rfl, rfl⟩)

theorem writeCall (buf : Str) :
    About w d (.write buf) (Html5FileSystem.writeCall imm w d code buf) := by
  unfold Html5FileSystem.writeCall
  simp only
  split
  · exact .apart id id rfl id nofun
  · split
    · exact .apart id id rfl id (.of_some ⟨rfl, rfl⟩)
    · exact .apart id id rfl id (.of_some ⟨rfl, rfl⟩)

theorem seekCall (offset whence : Int) :
    About w d (.seek offset whence) (Html5FileSystem.seekCall w d offset whence) := by
  unfold Html5FileSystem.seekCall
  simp only
  split_ifs <;> exact .apart id id rfl id nofun

theorem fcntlCall (cmd ap : Int) :
    About w d (.fcntl cmd ap) (Html5FileSystem.fcntlCall w cmd ap) := by
  unfold Html5FileSystem.fcntlCall
  split_ifs <;> exact .apart id id rfl id nofun

theorem rewindDirCall (dirp : Nat) :
    About w d (.rewinddir dirp) (Html5FileSystem.rewindDirCall w code dirp) := by
  unfold Html5FileSystem.rewindDirCall
  split
  · exact .apart id id rfl id nofun
  · exact .apart id id rfl (World.setDir_nil _ _) nofun

theorem closeDirCall (dirp : Nat) :
    About w d (.closedir dirp) (Html5FileSystem.closeDirCall w dirp) := by
  unfold Html5FileSystem.closeDirCall
  split
  · exact .apart id id rfl id nofun
  · exact .apart id id rfl (World.setDir_nil _ _) nofun

theorem switch (imm : Request → Int) (w : World) (d : Nat) (code : Int) (f : Function) :
    About w d f (Html5FileSystem.switch imm w d code f) := by
  cases f with
  | open_ path oflag cmode => exact openCall path oflag cmode
  | stat path buf => exact statCall path buf
  | close => exact .apart id id rfl id (.of_some ⟨rfl, rfl⟩)
  | fstat buf => exact fstatCall buf
  | read buf nbytes => exact readCall buf nbytes
  | write buf => exact writeCall buf
  | seek offset whence => exact seekCall offset whence
  | isatty => exact .apart id id rfl id nofun
  | fcntl cmd ap => exact fcntlCall cmd ap
  | mkdir path mode => exact mkDirCall path mode
  | opendir dirname => exact openDirCall dirname
  | rewinddir dirp => exact rewindDirCall dirp
  | readdir dirp => exact readDirCall dirp
  | closedir dirp => exact closeDirCall dirp

end About

/-- A run with the filesystem set leaves it set and opens none. -/
theorem switch_set {filesystem : Nat} (hf : w.filesystem = some filesystem) :
    (Html5FileSystem.switch imm w d code f).world.filesystem = some filesystem ∧
    (∀ r, (Html5FileSystem.switch imm w d code f).request = some r → r.opensFileSystem = false) ∧
    ((∃ r, (Html5FileSystem.switch imm w d code f).request = some r ∧ r.usesFileSystem = true) ↔
      AsksFileSystem w ⟨d, f⟩) := by
  have hsome : w.filesystem.isSome := by rw [hf]; rfl
  cases About.switch imm w d code f with
  | opens hn =>
    rw [hf] at hn
    cases hn
  | asks _ ha hw r hr ho hu =>
    refine ⟨hw.trans hf, ?_, iff_of_true ⟨r, hr, hu⟩ ha⟩
    intro r' hr'
    rw [hr] at hr'
    cases hr'
    exact ho
  | neither _ ha hw _ hr =>
    refine ⟨hw.trans hf, fun r h => (hr r h).1, iff_of_false ?_ (ha hsome)⟩
    rintro ⟨r, h, hu⟩
    rw [(hr r h).2] at hu
    cases hu

/-- A run before the filesystem is set opens it, or leaves it so; it asks for nothing that names it. -/
theorem switch_unset (hf : w.filesystem = none) (hd : w.dirs = []) :
    (∀ r, (Html5FileSystem.switch imm w d code f).request = some r → r.usesFileSystem = false) ∧
    (NeedsFileSystem f → (Html5FileSystem.switch imm w d code f).world.filesystem.isSome) ∧
    ((Html5FileSystem.switch imm w d code f).world.filesystem = none →
      (Html5FileSystem.switch imm w d code f).world.dirs = []) ∧
    ((∃ r, (Html5FileSystem.switch imm w d code f).request = some r ∧ r.opensFileSystem = true) ↔
      (Html5FileSystem.switch imm w d code f).world.filesystem.isSome) := by
  cases About.switch imm w d code f with
  | opens _ _ hw r hr ho hu =>
    refine ⟨?_, fun _ => hw, ?_, iff_of_true ⟨r, hr, ho⟩ hw⟩
    · intro r' hr'
      rw [hr] at hr'
      cases hr'
      exact hu
    · intro hn
      rw [hn] at hw
      cases hw
  | asks hs =>
    rcases hs with hs | hs
    · rw [hf] at hs
      cases hs
    · exact absurd hd hs
  | neither hn _ hw hdirs hr =>
    have hnone := hw.trans hf
    refine ⟨fun r h => (hr r h).2, fun h => absurd h (hn hf), fun _ => hdirs hf hd, iff_of_false ?_ ?_⟩
    · rintro ⟨r, h, ho⟩
      rw [(hr r h).1] at ho
      cases ho
    · rw [hnone]
      exact Bool.false_ne_true

theorem switch_log : (Html5FileSystem.switch imm w d code f).world.log = w.log := by
  cases f <;> simp only [Html5FileSystem.switch]
  case open_ =>
    unfold Html5FileSystem.openCall Html5FileSystem.initialize_
    split
    · rfl
    · simp only
      split_ifs <;> rfl
  case stat =>
    unfold Html5FileSystem.statCall Html5FileSystem.initialize_
    split
    · rfl
    · simp only
      split_ifs <;> rfl
  case close => rfl
  case fstat => unfold Html5FileSystem.fstatCall; dsimp only; split_ifs <;> rfl
  case read => unfold Html5FileSystem.readCall; simp only; split_ifs <;> rfl
  case write => unfold Html5FileSystem.writeCall; simp only; split_ifs <;> rfl
  case seek => unfold Html5FileSystem.seekCall; simp only; split_ifs <;> rfl
  case isatty => rfl
  case fcntl => unfold Html5FileSystem.fcntlCall; split_ifs <;> rfl
  case mkdir =>
    unfold Html5FileSystem.mkDirCall Html5FileSystem.initialize_
    split
    · rfl
    · simp only
      split_ifs <;> rfl
  case opendir => unfold Html5FileSystem.openDirCall Html5FileSystem.initialize_; split <;> rfl
  case rewinddir => unfold Html5FileSystem.rewindDirCall; split <;> rfl
  case readdir =>
    unfold Html5FileSystem.readDirCall
    split
    · rfl
    · simp only
      split_ifs <;> rfl
  case closedir => unfold Html5FileSystem.closeDirCall; split <;> rfl

/-! ## One run on record -/

/-- The requests issued so far. -/
def World.requests (w : World) : List Request := w.log.filterMap Event.request

theorem requests_proxy (imm : Request → Int) (w : World) (c : Nat) (code : Int) :
    (proxy imm w c code).world.requests = w.requests ++ (proxy imm w c code).request.toList := by
  simp only [proxy, World.requests]
  cases h : (Html5FileSystem.switch imm w (w.arguments c).delegate code
      (w.arguments c).function).request with
  | none => simp [World.issue, switch_log]
  | some r => simp [World.issue, World.record, switch_log, Event.request]

theorem filesystem_issue (w : World) (c : Nat) (r : Option Request) :
    (w.issue c r).filesystem = w.filesystem ∧ (w.issue c r).dirs = w.dirs := by
  cases r <;> exact ⟨rfl, rfl⟩

/-- The same of the run with its request on record. -/
theorem proxy_set (imm : Request → Int) (c : Nat) (code : Int) {filesystem : Nat}
    (hf : w.filesystem = some filesystem) :
    (proxy imm w c code).world.filesystem = some filesystem ∧
    (∀ r, (proxy imm w c code).request = some r → r.opensFileSystem = false) ∧
    ((∃ r, (proxy imm w c code).request = some r ∧ r.usesFileSystem = true) ↔
      AsksFileSystem w (w.arguments c)) := by
  simp only [proxy, filesystem_issue]
  exact switch_set hf

theorem proxy_unset (imm : Request → Int) (c : Nat) (code : Int) (hf : w.filesystem = none)
    (hd : w.dirs = []) :
    (∀ r, (proxy imm w c code).request = some r → r.usesFileSystem = false) ∧
    (NeedsFileSystem (w.arguments c).function → (proxy imm w c code).world.filesystem.isSome) ∧
    ((proxy imm w c code).world.filesystem = none → (proxy imm w c code).world.dirs = []) ∧
    ((∃ r, (proxy imm w c code).request = some r ∧ r.opensFileSystem = true) ↔
      (proxy imm w c code).world.filesystem.isSome) := by
  simp only [proxy, filesystem_issue]
  exact switch_unset hf hd

end NaClFs
