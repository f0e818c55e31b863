/-
The request a run leaves outstanding when it chains. `Initialize` and the two queries chain whatever
the backend says at once, so there it is outstanding only if the backend accepted it.
-/
import NaClFs.Html5.Failure
import NaClFs.Thread.Call

namespace NaClFs

open Rendezvous

/-! ## One run -/

/-- The requests whose immediate code a run does not look at are accepted: `FileSystem::Open` while
`filesystem_` is not set, and the query of an `Open` or a `Stat` whose file was opened. -/
def Accepts (imm : Request → Int) (w : World) (d : Nat) (code : Int) (f : Function) : Prop :=
  let opens := w.filesystem = none →
    imm (.fileSystemOpen w.resources w.filesystemType Html5FileSystem.expectedSize) =
      ppOkCompletionPending
  let queries := w.filesystem ≠ none → (w.delegates d).waiting = true → code = ppOk →
    imm (.query (w.delegates d).fileIo) = ppOkCompletionPending
  match f with
  | .open_ _ _ _ | .stat _ _ => opens ∧ queries
  | .mkdir _ _ | .opendir _ => opens
  | _ => True

variable {imm : Request → Int} {w : World} {c d : Nat} {code : Int} {f : Function}

/-- What a run has to do with the call it is made for. -/
structure Chains (imm : Request → Int) (w : World) (d : Nat) (code : Int) (f : Function) (e : Entry) :
    Prop where
  /-- A run that chains leaves a request outstanding exactly when it is accepted. -/
  outstanding : e.chaining = true → (e.ran.pending ≠ none ↔ Accepts imm w d code f)
  /-- One that does not chain depends on no request. -/
  settled : e.chaining = false → e.ran.pending = none ∧ Accepts imm w d code f
  /-- What is outstanding carries the call's `Arguments`. -/
  callee : ∀ c, (w.delegates d).callback = some c → ∀ r p, e.ran.pending = some (r, p) →
    p.callee e.world = some c
  callback : ∀ d', (e.world.delegates d').callback = (w.delegates d').callback
  arguments : e.world.arguments = w.arguments

theorem World.setDelegate_callback {w : World} {d : Nat} {this : Html5FileSystem}
    (h : this.callback = (w.delegates d).callback) (d' : Nat) :
    ((w.setDelegate d this).delegates d').callback = (w.delegates d').callback := by
  by_cases hd : d' = d
  · subst hd
    rw [World.setDelegate_self, h]
  · rw [World.setDelegate_of_ne _ hd]

namespace Chains

variable {e : Entry}

/-- A run that does not chain. -/
theorem final (hc : e.chaining = false) (hp : e.completion = none) (ha : Accepts imm w d code f)
    (hw : ∀ d', (e.world.delegates d').callback = (w.delegates d').callback)
    (harg : e.world.arguments = w.arguments) : Chains imm w d code f e := by
  have hpend : e.ran.pending = none := by simp [Entry.ran, hp]
  refine ⟨fun h => ?_, fun _ => ⟨hpend, ha⟩, fun c _ r p h => ?_, hw, harg⟩
  · rw [hc] at h
    cases h
  · rw [hpend] at h
    cases h

/-- A run that chains on a request that hands `callback_` over where it is accepted. -/
theorem asked {r : Request} {p : Completion} {A : Prop} [Decidable A] (hc : e.chaining = true)
    (hr : e.request = some r) (hp : e.completion = if A then some p else none)
    (hA : A ↔ Accepts imm w d code f) (hcallee : p.callee e.world = (w.delegates d).callback)
    (hw : ∀ d', (e.world.delegates d').callback = (w.delegates d').callback)
    (harg : e.world.arguments = w.arguments) : Chains imm w d code f e := by
  have hpend : e.ran.pending = if A then some (r, p) else none := by
    simp only [Entry.ran, hr, hp]
    split <;> rfl
  refine ⟨fun _ => ?_, fun h => ?_, fun c hcb r' p' h => ?_, hw, harg⟩
  · rw [hpend, ← hA]
    split
    · next h => exact iff_of_true (Option.some_ne_none _) h
    · next h => exact iff_of_false (fun hn => hn rfl) h
  · rw [hc] at h
    cases h
  · rw [hpend] at h
    split at h
    · cases h
      rw [hcallee, hcb]
    · cases h

theorem initialize_ (hf : w.filesystem = none) (hn : NeedsFileSystem f)
    (hw : e.world = (Html5FileSystem.initialize_ imm w d).world) (hc : e.chaining = true)
    (hr : e.request = (Html5FileSystem.initialize_ imm w d).request)
    (hp : e.completion = (Html5FileSystem.initialize_ imm w d).completion) :
    Chains imm w d code f e := by
  refine .asked (A := imm (.fileSystemOpen w.resources w.filesystemType Html5FileSystem.expectedSize) =
    ppOkCompletionPending) hc hr hp ?_ rfl (fun d' => ?_) ?_
  · have hq : w.filesystem ≠ none → (w.delegates d).waiting = true → code = ppOk →
        imm (.query (w.delegates d).fileIo) = ppOkCompletionPending := fun h => absurd hf h
    cases f with
    | open_ | stat => exact ⟨fun h => ⟨fun _ => h, hq⟩, fun h => h.1 hf⟩
    | mkdir | opendir => exact ⟨fun h _ => h, fun h => h hf⟩
    | _ => exact hn.elim
  · rw [hw]
    rfl
  · rw [hw]
    rfl

/-- With the filesystem set, only a run for an `Open` or a `Stat` that goes on to the query depends on
a request. -/
theorem accepts_set (hf : w.filesystem ≠ none)
    (hq : (w.delegates d).waiting = true → code ≠ ppOk) : Accepts imm w d code f := by
  have ho : w.filesystem = none →
      imm (.fileSystemOpen w.resources w.filesystemType Html5FileSystem.expectedSize) =
        ppOkCompletionPending := fun h => absurd h hf
  cases f with
  | open_ | stat => exact ⟨ho, fun _ hw hc => absurd hc (hq hw)⟩
  | mkdir | opendir => exact ho
  | _ => trivial

theorem query (hf : w.filesystem ≠ none) (hv : (w.delegates d).waiting = true) (hcode : code = ppOk)
    (hfun : (∃ path oflag cmode, f = .open_ path oflag cmode) ∨ ∃ path buf, f = .stat path buf) :
    imm (.query (w.delegates d).fileIo) = ppOkCompletionPending ↔ Accepts imm w d code f := by
  have ho : w.filesystem = none →
      imm (.fileSystemOpen w.resources w.filesystemType Html5FileSystem.expectedSize) =
        ppOkCompletionPending := fun h => absurd h hf
  rcases hfun with ⟨path, oflag, cmode, rfl⟩ | ⟨path, buf, rfl⟩
  · exact ⟨fun h => ⟨ho, fun _ _ _ => h⟩, fun h => h.2 hf hv hcode⟩
  · exact ⟨fun h => ⟨ho, fun _ _ _ => h⟩, fun h => h.2 hf hv hcode⟩

theorem openCall (path : Str) (oflag cmode : BitVec 32) : Chains imm w d code (.open_ path oflag cmode)
    (Html5FileSystem.openCall imm w d code path oflag) := by
  unfold Html5FileSystem.openCall
  cases hf : w.filesystem with
  | none => exact .initialize_ hf trivial rfl rfl rfl rfl
  | some filesystem =>
    have hne : w.filesystem ≠ none := by rw [hf]; exact Option.some_ne_none _
    simp only
    split
    · next hv =>
      split
      · next hc => exact .final rfl rfl (accepts_set hne fun _ => hc) (World.setDelegate_callback rfl) rfl
      · next hc =>
        exact .asked rfl rfl rfl (query hne hv (not_not.1 hc) (.inl ⟨_, _, _, rfl⟩)) rfl
          (World.setDelegate_callback rfl) rfl
    · next hv =>
      have ha : Accepts imm w d code (.open_ path oflag cmode) := accepts_set hne fun h => absurd h hv
      split
      · split
        · exact .final rfl rfl ha (World.setDelegate_callback rfl) rfl
        · exact .final rfl rfl ha (World.setDelegate_callback rfl) rfl
      · split
        · exact .final rfl rfl ha (World.setDelegate_callback (w := { w with resources := _ }) rfl) rfl
        · exact .asked (A := True) rfl rfl (if_pos trivial).symm (iff_of_true trivial ha) rfl
            (World.setDelegate_callback (w := { w with resources := _ }) rfl) rfl

theorem statCall (path : Str) (buf : Nat) : Chains imm w d code (.stat path buf)
    (Html5FileSystem.statCall imm w d code path buf) := by
  unfold Html5FileSystem.statCall
  cases hf : w.filesystem with
  | none => exact .initialize_ hf trivial rfl rfl rfl rfl
  | some filesystem =>
    have hne : w.filesystem ≠ none := by rw [hf]; exact Option.some_ne_none _
    simp only
    split
    · next hv =>
      split
      · next hc =>
        have ha : Accepts imm w d code (.stat path buf) := accepts_set hne fun _ => by rw [hc]; decide
        exact .final rfl rfl ha (World.setDelegate_callback rfl) rfl
      · split
        · next hc => exact .final rfl rfl (accepts_set hne fun _ => hc) (World.setDelegate_callback rfl) rfl
        · next hc =>
          exact .asked rfl rfl rfl (query hne hv (not_not.1 hc) (.inr ⟨_, _, rfl⟩)) rfl
            (World.setDelegate_callback rfl) rfl
    · next hv =>
      have ha : Accepts imm w d code (.stat path buf) := accepts_set hne fun h => absurd h hv
      split
      · split
        · exact .final rfl rfl ha (World.setDelegate_callback rfl) rfl
        · exact .final rfl rfl ha (World.setDelegate_callback rfl) rfl
      · split
        · exact .final rfl rfl ha (World.setDelegate_callback (w := { w with resources := _ }) rfl) rfl
        · exact .asked (A := True) rfl rfl (if_pos trivial).symm (iff_of_true trivial ha) rfl
            (World.setDelegate_callback (w := { w with resources := _ }) rfl) rfl

theorem mkDirCall (path : Str) (mode : BitVec 32) : Chains imm w d code (.mkdir path mode)
    (Html5FileSystem.mkDirCall imm w d code path) := by
  unfold Html5FileSystem.mkDirCall
  cases hf : w.filesystem with
  | none => exact .initialize_ hf trivial rfl rfl rfl rfl
  | some filesystem =>
    have ha : Accepts imm w d code (.mkdir path mode) := fun h => by rw [hf] at h; cases h
    simp only
    split
    · exact .final rfl rfl ha (World.setDelegate_callback rfl) rfl
    · split
      · exact .final rfl rfl ha (fun _ => rfl) rfl
      · exact .asked (A := True) rfl rfl (if_pos trivial).symm (iff_of_true trivial ha) rfl
          (World.setDelegate_callback rfl) rfl

theorem openDirCall (dirname : Str) : Chains imm w d code (.opendir dirname)
    (Html5FileSystem.openDirCall imm w d dirname) := by
  unfold Html5FileSystem.openDirCall
  cases hf : w.filesystem with
  | none => exact .initialize_ hf trivial rfl rfl rfl rfl
  | some filesystem =>
    have ha : Accepts imm w d code (.opendir dirname) := fun h => by rw [hf] at h; cases h
    exact .final rfl rfl ha (fun _ => rfl) rfl

theorem fstatCall (buf : Nat) : Chains imm w d code (.fstat buf)
    (Html5FileSystem.fstatCall imm w d buf) := by
  unfold Html5FileSystem.fstatCall
  simp only
  split
  · exact .final rfl rfl trivial (World.setDelegate_callback rfl) rfl
  · split
    · exact .final rfl rfl trivial (fun _ => rfl) rfl
    · exact .asked (A := True) rfl rfl (if_pos trivial).symm (iff_of_true trivial trivial) rfl
        (World.setDelegate_callback rfl) rfl

theorem readCall (buf nbytes : Nat) : Chains imm w d code (.read buf nbytes)
    (Html5FileSystem.readCall imm w d code buf nbytes) := by
  unfold Html5FileSystem.readCall
  simp only
  split
  · exact .final rfl rfl trivial (World.setDelegate_callback rfl) rfl
  · split
    · exact .final rfl rfl trivial (fun _ => rfl) rfl
    · exact .asked (A := True) rfl rfl (if_pos trivial).symm (iff_of_true trivial trivial) rfl
        (World.setDelegate_callback rfl) rfl

theorem writeCall (buf : Str) : Chains imm w d code (.write buf)
    (Html5FileSystem.writeCall imm w d code buf) := by
  unfold Html5FileSystem.writeCall
  simp only
  split
  · exact .final rfl rfl trivial (World.setDelegate_callback rfl) rfl
  · split
    · exact .final rfl rfl trivial (fun _ => rfl) rfl
    · exact .asked (A := True) rfl rfl (if_pos trivial).symm (iff_of_true trivial trivial) rfl
        (World.setDelegate_callback rfl) rfl

theorem seekCall (offset whence : Int) : Chains imm w d code (.seek offset whence)
    (Html5FileSystem.seekCall w d offset whence) := by
  unfold Html5FileSystem.seekCall
  simp only
  split_ifs
  · exact .final rfl rfl trivial (World.setDelegate_callback rfl) rfl
  · exact .final rfl rfl trivial (World.setDelegate_callback rfl) rfl
  · exact .final rfl rfl trivial (World.setDelegate_callback rfl) rfl
  · exact .final rfl rfl trivial (fun _ => rfl) rfl

theorem fcntlCall (cmd ap : Int) : Chains imm w d code (.fcntl cmd ap)
    (Html5FileSystem.fcntlCall w cmd ap) := by
  unfold Html5FileSystem.fcntlCall
  split_ifs <;> exact .final rfl rfl trivial (fun _ => rfl) rfl

theorem rewindDirCall (dirp : Nat) : Chains imm w d code (.rewinddir dirp)
    (Html5FileSystem.rewindDirCall w code dirp) := by
  unfold Html5FileSystem.rewindDirCall
  split <;> exact .final rfl rfl trivial (fun _ => rfl) rfl

theorem closeDirCall (dirp : Nat) : Chains imm w d code (.closedir dirp)
    (Html5FileSystem.closeDirCall w dirp) := by
  unfold Html5FileSystem.closeDirCall
  split <;> exact .final rfl rfl trivial (fun _ => rfl) rfl

/-- The listing of a DIR runs the callback the DIR was given for it. -/
theorem readDirCall (dirp : Nat) : Chains imm w d code (.readdir dirp)
    (Html5FileSystem.readDirCall imm w d code dirp) := by
  unfold Html5FileSystem.readDirCall
  cases hd : w.dir dirp with
  | none => exact .final rfl rfl trivial (fun _ => rfl) rfl
  | some dir =>
    simp only
    split
    · split
      · exact .final rfl rfl trivial (World.setDelegate_callback rfl) rfl
      · exact .final rfl rfl trivial (World.setDelegate_callback rfl) rfl
    · split
      · exact .final rfl rfl trivial (fun _ => rfl) rfl
      · split
        · exact .final rfl rfl trivial (fun _ => rfl) rfl
        · split
          · refine .asked (A := True) rfl rfl (if_pos trivial).symm (iff_of_true trivial trivial) ?_
              (World.setDelegate_callback rfl) rfl
            obtain ⟨hlt, -⟩ := List.getElem?_eq_some_iff.1 (World.dir_some.1 hd)
            simp [Completion.callee, World.dir, World.setDelegate, World.setDir, hlt]
          · exact .final rfl rfl trivial (fun _ => rfl) rfl

theorem switch (imm : Request → Int) (w : World) (d : Nat) (code : Int) (f : Function) :
    Chains imm w d code f (Html5FileSystem.switch imm w d code f) := by
  cases f with
  | open_ path oflag cmode => exact openCall path oflag cmode
  | stat path buf => exact statCall path buf
  | close => exact .final rfl rfl trivial (fun _ => rfl) rfl
  | fstat buf => exact fstatCall buf
  | read buf nbytes => exact readCall buf nbytes
  | write buf => exact writeCall buf
  | seek offset whence => exact seekCall offset whence
  | isatty => exact .final rfl rfl trivial (fun _ => rfl) rfl
  | fcntl cmd ap => exact fcntlCall cmd ap
  | mkdir path mode => exact mkDirCall path mode
  | opendir dirname => exact openDirCall dirname
  | rewinddir dirp => exact rewindDirCall dirp
  | readdir dirp => exact readDirCall dirp
  | closedir dirp => exact closeDirCall dirp

/-- The same of the run with its request on record. -/
theorem proxy (imm : Request → Int) (w : World) (c : Nat) (code : Int) :
    Chains imm w (w.arguments c).delegate code (w.arguments c).function (proxy imm w c code) := by
  have h := Chains.switch imm w (w.arguments c).delegate code (w.arguments c).function
  have hissue : ∀ (w' : World) (r : Option Request) (p : Completion),
      p.callee (w'.issue c r) = p.callee w' ∧ (w'.issue c r).delegates = w'.delegates ∧
        (w'.issue c r).arguments = w'.arguments := by
    intro w' r p
    cases r <;> cases p <;> exact ⟨rfl, rfl, rfl⟩
  refine ⟨h.outstanding, h.settled, fun c' hc r p hp => ?_, fun d' => ?_, ?_⟩
  · exact (hissue _ _ p).1.trans (h.callee c' hc r p hp)
  · rw [← h.callback d']
    exact congrArg (fun g => (g d').callback) (hissue _ _ (.proxy none)).2.1
  · exact (hissue _ _ (.proxy none)).2.2.trans h.arguments

end Chains

end NaClFs
