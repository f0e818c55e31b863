/-
One run of the main thread, seen from the delegate it is made for, once the filesystem is open: it
depends on that delegate, on its DIRs and on the memory of its caller, and it changes nothing else.
-/
import NaClFs.Html5.Calls

namespace NaClFs

/-! ## What a call is about -/

namespace Function

/-- The DIR it is made on. -/
def dirp : Function → Option Nat
  | .rewinddir dirp | .readdir dirp | .closedir dirp => some dirp
  | _ => none

/-- The `struct stat` it fills. -/
def fills : Function → Option Nat
  | .stat _ buf | .fstat buf => some buf
  | _ => none

/-- The buffer it stores bytes in. -/
def stores : Function → Option Nat
  | .read buf _ => some buf
  | _ => none

end Function

/-- The DIR behind a pointer, if it is one of the delegate. -/
def World.ownDir (w : World) (d dirp : Nat) : Option Html5FileSystemDir :=
  (w.dir dirp).filter (·.delegate = d)

/-- The two worlds look the same to a call. -/
structure Near (w v : World) (d : Nat) (f : Function) : Prop where
  filesystem : w.filesystem = v.filesystem
  delegate : w.delegates d = v.delegates d
  dirs : ∀ dirp, w.ownDir d dirp = v.ownDir d dirp
  stats : ∀ buf, f.fills = some buf → w.stats buf = v.stats buf
  buffers : ∀ buf, f.stores = some buf → w.buffers buf = v.buffers buf

/-- What the call may not change is as it was. -/
structure Framed (w w' : World) (d : Nat) (f : Function) : Prop where
  filesystem : w'.filesystem = w.filesystem
  others : ∀ d', d' ≠ d → w'.delegates d' = w.delegates d'
  dirs : ∀ d', d' ≠ d → ∀ dirp, w'.ownDir d' dirp = w.ownDir d' dirp
  stats : ∀ buf, f.fills ≠ some buf → w'.stats buf = w.stats buf
  buffers : ∀ buf, f.stores ≠ some buf → w'.buffers buf = w.buffers buf

variable {w w' w'' v v' : World} {d d' : Nat} {f f' : Function}

theorem Framed.refl (w : World) (d : Nat) (f : Function) : Framed w w d f :=
  ⟨rfl, fun _ _ => rfl, fun _ _ _ => rfl, fun _ _ => rfl, fun _ _ => rfl⟩

theorem Framed.trans (h : Framed w w' d f) (h' : Framed w' w'' d f) : Framed w w'' d f where
  filesystem := h'.filesystem.trans h.filesystem
  others d' hd := (h'.others d' hd).trans (h.others d' hd)
  dirs d' hd dirp := (h'.dirs d' hd dirp).trans (h.dirs d' hd dirp)
  stats buf hb := (h'.stats buf hb).trans (h.stats buf hb)
  buffers buf hb := (h'.buffers buf hb).trans (h.buffers buf hb)

/-- Calls on different delegates that use different memory. -/
structure Arguments.Apart (a a' : Arguments) : Prop where
  delegate : a.delegate ≠ a'.delegate
  fills : ∀ buf, a.function.fills = some buf → a'.function.fills ≠ some buf
  stores : ∀ buf, a.function.stores = some buf → a'.function.stores ≠ some buf

theorem Arguments.Apart.symm {a a' : Arguments} (h : a.Apart a') : a'.Apart a where
  delegate := h.delegate.symm
  fills buf h₁ h₂ := h.fills buf h₂ h₁
  stores buf h₁ h₂ := h.stores buf h₂ h₁

/-- A run for one call leaves what another one sees. -/
theorem Near.framed (h : Near w v d f) (hf : Framed w w' d' f') (ha : Arguments.Apart ⟨d, f⟩ ⟨d', f'⟩) :
    Near w' v d f where
  filesystem := hf.filesystem.trans h.filesystem
  delegate := (hf.others d ha.delegate).trans h.delegate
  dirs dirp := (hf.dirs d ha.delegate dirp).trans (h.dirs dirp)
  stats buf hb := (hf.stats buf (ha.fills buf hb)).trans (h.stats buf hb)
  buffers buf hb := (hf.buffers buf (ha.stores buf hb)).trans (h.buffers buf hb)

/-! ## Updates -/

theorem Near.setDelegate (h : Near w v d f) (this : Html5FileSystem) :
    Near (w.setDelegate d this) (v.setDelegate d this) d f where
  filesystem := h.filesystem
  delegate := by rw [World.setDelegate_self, World.setDelegate_self]
  dirs := h.dirs
  stats := h.stats
  buffers := h.buffers

theorem Framed.setDelegate (w : World) (this : Html5FileSystem) : Framed w (w.setDelegate d this) d f where
  filesystem := rfl
  others _ hd := World.setDelegate_of_ne w hd this
  dirs _ _ _ := rfl
  stats _ _ := rfl
  buffers _ _ := rfl

theorem Near.setStat (h : Near w v d f) (buf : Nat) (st : Stat) :
    Near (w.setStat buf st) (v.setStat buf st) d f where
  filesystem := h.filesystem
  delegate := h.delegate
  dirs := h.dirs
  stats buf' hb := by
    by_cases he : buf' = buf
    · subst he
      simp only [World.setStat, Function.update_self]
    · simp only [World.setStat, Function.update_of_ne he]
      exact h.stats buf' hb
  buffers := h.buffers

theorem Framed.setStat (w : World) {buf : Nat} (hb : f.fills = some buf) (st : Stat) :
    Framed w (w.setStat buf st) d f where
  filesystem := rfl
  others _ _ := rfl
  dirs _ _ _ := rfl
  stats buf' hb' := by
    refine Function.update_of_ne ?_ ..
    rintro rfl
    exact hb' hb
  buffers _ _ := rfl

theorem Near.setBuffer (h : Near w v d f) {buf : Nat} (hb : f.stores = some buf) (data : Str) :
    Near (w.setBuffer buf data) (v.setBuffer buf data) d f where
  filesystem := h.filesystem
  delegate := h.delegate
  dirs := h.dirs
  stats := h.stats
  buffers buf' hb' := by
    obtain rfl : buf = buf' := Option.some.inj (hb.symm.trans hb')
    simp only [World.setBuffer, Function.update_self, h.buffers buf hb]

theorem Framed.setBuffer (w : World) {buf : Nat} (hb : f.stores = some buf) (data : Str) :
    Framed w (w.setBuffer buf data) d f where
  filesystem := rfl
  others _ _ := rfl
  dirs _ _ _ := rfl
  stats _ _ := rfl
  buffers buf' hb' := by
    refine Function.update_of_ne ?_ ..
    rintro rfl
    exact hb' hb

theorem Near.setInfo (h : Near w v d f) (info : Option FileInfo) :
    Near (w.setInfo d info) (v.setInfo d info) d f := by
  cases info with
  | none => exact h
  | some info =>
    unfold World.setInfo
    rw [h.delegate]
    exact h.setDelegate _

theorem Framed.setInfo (w : World) (info : Option FileInfo) : Framed w (w.setInfo d info) d f := by
  cases info with
  | none => exact .refl w d f
  | some info => exact .setDelegate w _

theorem World.ownDir_some {dirp : Nat} {dir : Html5FileSystemDir} :
    w.ownDir d dirp = some dir ↔ w.dir dirp = some dir ∧ dir.delegate = d := by
  simp [World.ownDir, Option.filter_eq_some_iff]

/-- A DIR is changed in its place. -/
theorem World.dir_setDir_apply {dirp : Nat} {dir : Html5FileSystemDir} (h : w.dir dirp = some dir)
    (x : Option Html5FileSystemDir) (dirp' : Nat) :
    (w.setDir dirp x).dir dirp' = if dirp' = dirp then x else w.dir dirp' := by
  obtain ⟨hl, -⟩ := List.getElem?_eq_some_iff.1 (World.dir_some.1 h)
  unfold World.dir World.setDir
  by_cases he : dirp' = dirp
  · subst he
    rw [if_pos rfl, List.getElem?_set_self hl]
    rfl
  · rw [if_neg he, List.getElem?_set_ne (Ne.symm he)]

theorem Near.setDir (h : Near w v d f) {dirp : Nat} {dir dir' : Html5FileSystemDir} (hw : w.dir dirp = some dir)
    (hv : v.dir dirp = some dir') (x : Option Html5FileSystemDir) :
    Near (w.setDir dirp x) (v.setDir dirp x) d f where
  filesystem := h.filesystem
  delegate := h.delegate
  dirs dirp' := by
    have hd := h.dirs dirp'
    unfold World.ownDir at hd ⊢
    rw [World.dir_setDir_apply hw, World.dir_setDir_apply hv]
    split
    · rfl
    · exact hd
  stats := h.stats
  buffers := h.buffers

theorem Framed.setDir {dirp : Nat} {dir : Html5FileSystemDir} (hw : w.dir dirp = some dir)
    (hd : dir.delegate = d) {x : Option Html5FileSystemDir} (hx : ∀ dir' ∈ x, dir'.delegate = d) :
    Framed w (w.setDir dirp x) d f where
  filesystem := rfl
  others _ _ := rfl
  dirs d' hne dirp' := by
    unfold World.ownDir
    rw [World.dir_setDir_apply hw]
    split
    · next he =>
      subst he
      rw [hw]
      -- Neither the old DIR nor the new one is of another delegate.
      have hold : (some dir).filter (·.delegate = d') = none := by
        simp [Option.filter_eq_none_iff, hd, Ne.symm hne]
      have hnew : x.filter (·.delegate = d') = none := by
        rw [Option.filter_eq_none_iff]
        intro dir' hm
        simpa [hx dir' hm] using Ne.symm hne
      rw [hold, hnew]
    · rfl
  stats _ _ := rfl
  buffers _ _ := rfl

theorem Near.made (h : Near w v d f) (filesystem : Option Nat) (n n' : Nat) :
    Near { w with filesystem := filesystem, resources := n }
      { v with filesystem := filesystem, resources := n' }
      d f :=
  ⟨rfl, h.delegate, h.dirs, h.stats, h.buffers⟩

theorem Framed.made (w : World) {filesystem : Option Nat} (hfs : w.filesystem = filesystem) (n : Nat) :
    Framed w { w with filesystem := filesystem, resources := n } d f :=
  ⟨hfs.symm, fun _ _ => rfl, fun _ _ _ => rfl, fun _ _ => rfl, fun _ _ => rfl⟩

theorem World.dir_append (w : World) (dir : Html5FileSystemDir) (dirp : Nat) :
    ({ w with dirs := w.dirs ++ [some dir] } : World).dir dirp =
      if dirp = w.dirs.length then some dir else w.dir dirp := by
  unfold World.dir
  by_cases he : dirp = w.dirs.length
  · subst he
    simp
  · rw [if_neg he]
    by_cases hl : dirp < w.dirs.length
    · simp only [List.getElem?_append_left hl]
    · have h₁ : (w.dirs ++ [some dir])[dirp]? = none := by
        rw [List.getElem?_eq_none_iff, List.length_append, List.length_singleton]
        omega
      rw [h₁, List.getElem?_eq_none (by omega)]

/-- A DIR is made. -/
theorem Near.append (h : Near w v d f) (hl : w.dirs.length = v.dirs.length) (dir : Html5FileSystemDir) :
    Near { w with dirs := w.dirs ++ [some dir] } { v with dirs := v.dirs ++ [some dir] } d f where
  filesystem := h.filesystem
  delegate := h.delegate
  dirs dirp := by
    have hd := h.dirs dirp
    unfold World.ownDir at hd ⊢
    rw [World.dir_append, World.dir_append, hl]
    split
    · rfl
    · exact hd
  stats := h.stats
  buffers := h.buffers

theorem Framed.append (w : World) {dir : Html5FileSystemDir} (hd : dir.delegate = d) :
    Framed w { w with dirs := w.dirs ++ [some dir] } d f where
  filesystem := rfl
  others _ _ := rfl
  dirs d' hne dirp := by
    unfold World.ownDir
    rw [World.dir_append]
    split
    · next he =>
      have hnone : w.dir dirp = none := by
        unfold World.dir
        rw [he, List.getElem?_eq_none (Nat.le_refl _)]
        rfl
      rw [hnone]
      simp [hd, Ne.symm hne]
    · rfl
  stats _ _ := rfl
  buffers _ _ := rfl

/-! ## One run -/

/-- A completion that is about the call. -/
def Completion.Of (d : Nat) (f : Function) : Completion → Prop
  | .proxy _ => True
  | .query d' _ => d' = d
  | .read buf _ => f.stores = some buf
  | .listing dirp => f.dirp = some dirp

/-- The DIR the call is on, if on any, is one of its delegate. -/
def Owned (w : World) (d : Nat) (f : Function) : Prop := ∀ dirp, f.dirp = some dirp → (w.ownDir d dirp).isSome

/-- A run for the call chained, so the ones to come make no file and no DIR. -/
structure Underway (w : World) (d : Nat) (f : Function) : Prop where
  flag : (w.delegates d).waiting = true ∨ (w.delegates d).querying = true
  function : ∀ dirname, f ≠ .opendir dirname
  owned : Owned w d f

/-- What a call makes is numbered alike in both worlds. -/
structure Aligned (w v : World) : Prop where
  resources : w.resources = v.resources
  dirs : w.dirs.length = v.dirs.length

/-- Two runs for a call, made in two worlds that look the same to it: they do the same, and the first
one keeps to what the call may change. -/
structure Alike (w : World) (d : Nat) (f : Function) (e e' : Entry) : Prop where
  result : e'.result = e.result
  chaining : e'.chaining = e.chaining
  request : e'.request = e.request
  completion : e'.completion = e.completion
  near : Near e.world e'.world d f
  framed : Framed w e.world d f
  of : ∀ p, e.completion = some p → p.Of d f
  underway : e.chaining = true → Underway e.world d f

namespace Alike

variable {imm : Request → Int} {code : Int} {filesystem : Nat} {x y : World} {r : Result} {q : Option Request}

/-- A run that does not chain. -/
theorem final (hn : Near x y d f) (hf : Framed w x d f) :
    Alike w d f { world := x, result := r, request := q } { world := y, result := r, request := q } :=
  ⟨rfl, rfl, rfl, rfl, hn, hf, (fun _ h => by cases h), (fun h => by cases h)⟩

/-- A run that chains. -/
theorem chains {p : Completion} {A : Prop} [Decidable A] (hn : Near x y d f) (hf : Framed w x d f)
    (hp : p.Of d f) (hg : Underway x d f) :
    Alike w d f
      { world := x, result := r, chaining := true, request := q, completion := if A then some p else none }
      { world := y, result := r, chaining := true, request := q,
        completion := if A then some p else none } := by
  refine ⟨rfl, rfl, rfl, rfl, hn, hf, fun p' h => ?_, fun _ => hg⟩
  dsimp only at h
  split at h
  · cases h
    exact hp
  · cases h

theorem asks {p : Completion} (hn : Near x y d f) (hf : Framed w x d f) (hp : p.Of d f)
    (hg : Underway x d f) :
    Alike w d f { world := x, result := r, chaining := true, request := q, completion := some p }
      { world := y, result := r, chaining := true, request := q, completion := some p } := by
  refine ⟨rfl, rfl, rfl, rfl, hn, hf, fun p' h => ?_, fun _ => hg⟩
  cases h
  exact hp

theorem openCall {path : Str} {oflag cmode : BitVec 32} (h : Near w v d (.open_ path oflag cmode))
    (hfs : w.filesystem = some filesystem)
    (hr : (w.delegates d).waiting = false → (w.delegates d).querying = false → w.resources = v.resources) :
    Alike w d (.open_ path oflag cmode) (Html5FileSystem.openCall imm w d code path oflag)
      (Html5FileSystem.openCall imm v d code path oflag) := by
  unfold Html5FileSystem.openCall
  simp only [← h.filesystem, ← h.delegate, hfs]
  by_cases hw : (w.delegates d).waiting = true
  · simp only [if_pos hw]
    split_ifs
    · exact .final (h.setDelegate _) (.setDelegate w _)
    · exact .chains (h.setDelegate _) (.setDelegate w _) rfl
        ⟨.inr (by rw [World.setDelegate_self]), nofun, nofun⟩
  · simp only [if_neg hw]
    by_cases hq : (w.delegates d).querying = true
    · simp only [if_pos hq]
      split_ifs
      · exact .final (h.setDelegate _) (.setDelegate w _)
      · exact .final (h.setDelegate _) (.setDelegate w _)
    · have hframed (this : Html5FileSystem) (n : Nat) :
          Framed w ({ w with filesystem := some filesystem, resources := n }.setDelegate d this) d
            (.open_ path oflag cmode) := (Framed.made w hfs n).trans (.setDelegate _ _)
      simp only [if_neg hq, ← hr (by simpa using hw) (by simpa using hq)]
      split_ifs
      · exact .final ((h.made _ _ _).setDelegate _) (hframed _ _)
      · exact .asks ((h.made _ _ _).setDelegate _) (hframed _ _) trivial
          ⟨.inl (by rw [World.setDelegate_self]), nofun, nofun⟩

theorem statCall {path : Str} {buf : Nat} (h : Near w v d (.stat path buf))
    (hfs : w.filesystem = some filesystem)
    (hr : (w.delegates d).waiting = false → (w.delegates d).querying = false → w.resources = v.resources) :
    Alike w d (.stat path buf) (Html5FileSystem.statCall imm w d code path buf)
      (Html5FileSystem.statCall imm v d code path buf) := by
  have hfill (this : Html5FileSystem) (st : Stat) : Framed w ((w.setDelegate d this).setStat buf st) d
      (.stat path buf) := (Framed.setDelegate w this).trans (.setStat _ rfl st)
  unfold Html5FileSystem.statCall
  simp only [← h.filesystem, ← h.delegate, hfs]
  by_cases hw : (w.delegates d).waiting = true
  · simp only [if_pos hw]
    split_ifs
    · exact .final ((h.setDelegate _).setStat _ _) (hfill _ _)
    · exact .final (h.setDelegate _) (.setDelegate w _)
    · exact .chains (h.setDelegate _) (.setDelegate w _) rfl
        ⟨.inr (by rw [World.setDelegate_self]), nofun, nofun⟩
  · simp only [if_neg hw]
    by_cases hq : (w.delegates d).querying = true
    · simp only [if_pos hq]
      split_ifs
      · exact .final (h.setDelegate _) (.setDelegate w _)
      · exact .final ((h.setDelegate _).setStat _ _) (hfill _ _)
    · have hframed (this : Html5FileSystem) (n : Nat) :
          Framed w ({ w with filesystem := some filesystem, resources := n }.setDelegate d this) d
            (.stat path buf) := (Framed.made w hfs n).trans (.setDelegate _ _)
      simp only [if_neg hq, ← hr (by simpa using hw) (by simpa using hq)]
      split_ifs
      · exact .final ((h.made _ _ _).setDelegate _) (hframed _ _)
      · exact .asks ((h.made _ _ _).setDelegate _) (hframed _ _) trivial
          ⟨.inl (by rw [World.setDelegate_self]), nofun, nofun⟩

theorem fstatCall {buf : Nat} (h : Near w v d (.fstat buf)) :
    Alike w d (.fstat buf) (Html5FileSystem.fstatCall imm w d buf) (Html5FileSystem.fstatCall imm v d buf) := by
  unfold Html5FileSystem.fstatCall
  simp only [← h.delegate]
  split_ifs
  · exact .final ((h.setDelegate _).setStat _ _) ((Framed.setDelegate w _).trans (.setStat _ rfl _))
  · exact .final h (.refl w d _)
  · exact .asks (h.setDelegate _) (.setDelegate w _) rfl ⟨.inl (by rw [World.setDelegate_self]), nofun, nofun⟩

theorem readCall {buf nbytes : Nat} (h : Near w v d (.read buf nbytes)) :
    Alike w d (.read buf nbytes) (Html5FileSystem.readCall imm w d code buf nbytes)
      (Html5FileSystem.readCall imm v d code buf nbytes) := by
  unfold Html5FileSystem.readCall
  simp only [← h.delegate]
  split_ifs
  · exact .final (h.setDelegate _) (.setDelegate w _)
  · exact .final h (.refl w d _)
  · exact .asks (h.setDelegate _) (.setDelegate w _) rfl ⟨.inl (by rw [World.setDelegate_self]), nofun, nofun⟩

theorem writeCall {buf : Str} (h : Near w v d (.write buf)) :
    Alike w d (.write buf) (Html5FileSystem.writeCall imm w d code buf)
      (Html5FileSystem.writeCall imm v d code buf) := by
  unfold Html5FileSystem.writeCall
  simp only [← h.delegate]
  split_ifs
  · exact .final (h.setDelegate _) (.setDelegate w _)
  · exact .final h (.refl w d _)
  · exact .asks (h.setDelegate _) (.setDelegate w _) trivial
      ⟨.inl (by rw [World.setDelegate_self]), nofun, nofun⟩

theorem seekCall {offset whence : Int} (h : Near w v d (.seek offset whence)) :
    Alike w d (.seek offset whence) (Html5FileSystem.seekCall w d offset whence)
      (Html5FileSystem.seekCall v d offset whence) := by
  unfold Html5FileSystem.seekCall
  simp only [← h.delegate]
  split_ifs
  · exact .final (h.setDelegate _) (.setDelegate w _)
  · exact .final (h.setDelegate _) (.setDelegate w _)
  · exact .final (h.setDelegate _) (.setDelegate w _)
  · exact .final h (.refl w d _)

theorem fcntlCall {cmd ap : Int} (h : Near w v d (.fcntl cmd ap)) :
    Alike w d (.fcntl cmd ap) (Html5FileSystem.fcntlCall w cmd ap) (Html5FileSystem.fcntlCall v cmd ap) := by
  unfold Html5FileSystem.fcntlCall
  split_ifs
  · exact .final h (.refl w d _)
  · exact .final h (.refl w d _)
  · exact .final ⟨h.filesystem, h.delegate, h.dirs, h.stats, h.buffers⟩
      ⟨rfl, fun _ _ => rfl, fun _ _ _ => rfl, fun _ _ => rfl, fun _ _ => rfl⟩

theorem mkDirCall {path : Str} {mode : BitVec 32} (h : Near w v d (.mkdir path mode))
    (hfs : w.filesystem = some filesystem) :
    Alike w d (.mkdir path mode) (Html5FileSystem.mkDirCall imm w d code path)
      (Html5FileSystem.mkDirCall imm v d code path) := by
  unfold Html5FileSystem.mkDirCall
  simp only [← h.filesystem, ← h.delegate, hfs]
  split_ifs
  · exact .final (h.setDelegate _) (.setDelegate w _)
  · exact .final h (.refl w d _)
  · exact .asks (h.setDelegate _) (.setDelegate w _) trivial
      ⟨.inl (by rw [World.setDelegate_self]), nofun, nofun⟩

theorem openDirCall {dirname : Str} (h : Near w v d (.opendir dirname)) (hfs : w.filesystem = some filesystem)
    (hl : w.dirs.length = v.dirs.length) :
    Alike w d (.opendir dirname) (Html5FileSystem.openDirCall imm w d dirname)
      (Html5FileSystem.openDirCall imm v d dirname) := by
  have hv : v.filesystem = some filesystem := h.filesystem.symm.trans hfs
  have hopened (u : World) (hu : u.filesystem = some filesystem) : Html5FileSystem.openDirCall imm u d dirname =
      { world := { u with dirs := u.dirs ++ [some { delegate := d, directoryRef := ⟨filesystem, dirname⟩ }] }
        result := .dir (some u.dirs.length) } := by
    unfold Html5FileSystem.openDirCall
    split
    · next hn =>
      rw [hu] at hn
      cases hn
    · next hs =>
      rw [hu] at hs
      cases hs
      rfl
  rw [hopened w hfs, hopened v hv, ← hl]
  exact .final (h.append hl _) (.append w rfl)

/-- The DIR of a call is one of its delegate, in both worlds. -/
theorem dir_both {dirp : Nat} {dir : Html5FileSystemDir} (h : Near w v d f) (hd : w.dir dirp = some dir)
    (ho : dir.delegate = d) : v.dir dirp = some dir := by
  have hown := (h.dirs dirp).symm.trans (World.ownDir_some.2 ⟨hd, ho⟩)
  exact (World.ownDir_some.1 hown).1

theorem rewindDirCall {dirp : Nat} {dir : Html5FileSystemDir} (h : Near w v d (.rewinddir dirp))
    (hd : w.dir dirp = some dir) (ho : dir.delegate = d) :
    Alike w d (.rewinddir dirp) (Html5FileSystem.rewindDirCall w code dirp)
      (Html5FileSystem.rewindDirCall v code dirp) := by
  have hv := dir_both h hd ho
  unfold Html5FileSystem.rewindDirCall
  simp only [hd, hv]
  refine .final (h.setDir hd hv _) (.setDir hd ho ?_)
  rintro dir' ⟨rfl⟩
  exact ho

theorem closeDirCall {dirp : Nat} {dir : Html5FileSystemDir} (h : Near w v d (.closedir dirp))
    (hd : w.dir dirp = some dir) (ho : dir.delegate = d) :
    Alike w d (.closedir dirp) (Html5FileSystem.closeDirCall w dirp) (Html5FileSystem.closeDirCall v dirp) := by
  have hv := dir_both h hd ho
  unfold Html5FileSystem.closeDirCall
  simp only [hd, hv]
  exact .final (h.setDir hd hv _) (.setDir hd ho (by simp))

theorem ownDir_setDir {dirp : Nat} {dir dir' : Html5FileSystemDir} (hd : w.dir dirp = some dir)
    (ho : dir'.delegate = d) : ((w.setDir dirp (some dir')).ownDir d dirp).isSome = true := by
  have hown : (w.setDir dirp (some dir')).ownDir d dirp = some dir' :=
    World.ownDir_some.2 ⟨by rw [World.dir_setDir_apply hd, if_pos rfl], ho⟩
  rw [hown]
  rfl

theorem readDirNext_delegate (dir : Listing) : dir.readDirNext.1.delegate = dir.delegate := by
  unfold Listing.readDirNext
  split <;> rfl

theorem readDirCall {dirp : Nat} {dir : Html5FileSystemDir} (h : Near w v d (.readdir dirp))
    (hd : w.dir dirp = some dir) (ho : dir.delegate = d) :
    Alike w d (.readdir dirp) (Html5FileSystem.readDirCall imm w d code dirp)
      (Html5FileSystem.readDirCall imm v d code dirp) := by
  have hv := dir_both h hd ho
  have hnext {u u' : World} {listing : Listing} {callback : Option Nat} {r : Result} {q : Option Request}
      (hn : Near u u' d (.readdir dirp)) (hf : Framed w u d (.readdir dirp)) (hu : u.dir dirp = some dir)
      (hu' : u'.dir dirp = some dir) (hl : listing.delegate = d) :
      Alike w d (.readdir dirp)
        { world := u.setDir dirp (some { toListing := listing, callback := callback }), result := r,
          request := q }
        { world := u'.setDir dirp (some { toListing := listing, callback := callback }), result := r
          request := q } := by
    refine .final (hn.setDir hu hu' _) (hf.trans (.setDir hu ho ?_))
    rintro dir' ⟨rfl⟩
    exact hl
  have hread (listing : Listing) (hl : listing.delegate = d) : listing.readDirNext.1.delegate = d :=
    (readDirNext_delegate listing).trans hl
  unfold Html5FileSystem.readDirCall
  simp only [hd, hv, ← h.delegate]
  split_ifs
  · exact .final (h.setDelegate _) (.setDelegate w _)
  · exact hnext (h.setDelegate _) (.setDelegate w _) hd hv (hread _ ho)
  · exact hnext h (.refl w d _) hd hv (hread _ ho)
  · exact hnext h (.refl w d _) hd hv (hread dir.rewind ho)
  · refine .asks ((h.setDir hd hv _).setDelegate _) ((Framed.setDir hd ho ?_).trans (.setDelegate _ _)) rfl
      ⟨.inl (by rw [World.setDelegate_self]), nofun, ?_⟩
    · rintro dir' ⟨rfl⟩
      exact ho
    · rintro dirp' ⟨rfl⟩
      exact ownDir_setDir hd ho
  · exact hnext h (.refl w d _) hd hv (show dir.rewind.delegate = d from ho)

/-- The first run for a call, or one after a run that chained. -/
theorem switch (h : Near w v d f) (hfs : w.filesystem = some filesystem)
    (hr : Underway w d f ∨ Aligned w v) (ho : Owned w d f) :
    Alike w d f (Html5FileSystem.switch imm w d code f) (Html5FileSystem.switch imm v d code f) := by
  have hfresh (hw : (w.delegates d).waiting = false) (hq : (w.delegates d).querying = false) :
      w.resources = v.resources := by
    rcases hr with hu | hr
    · rcases hu.flag with hu | hu
      · rw [hw] at hu
        cases hu
      · rw [hq] at hu
        cases hu
    · exact hr.resources
  have hdir {dirp : Nat} (hf : f.dirp = some dirp) : ∃ dir, w.dir dirp = some dir ∧ dir.delegate = d := by
    obtain ⟨dir, hd⟩ := Option.isSome_iff_exists.1 (ho dirp hf)
    exact ⟨dir, World.ownDir_some.1 hd⟩
  cases f with
  | open_ path oflag cmode => exact openCall h hfs hfresh
  | stat path buf => exact statCall h hfs hfresh
  | close =>
    unfold Html5FileSystem.switch Html5FileSystem.closeCall
    simp only [← h.delegate]
    exact .final h (.refl w d _)
  | fstat buf => exact fstatCall h
  | read buf nbytes => exact readCall h
  | write buf => exact writeCall h
  | seek offset whence => exact seekCall h
  | isatty => exact .final h (.refl w d _)
  | fcntl cmd ap => exact fcntlCall h
  | mkdir path mode => exact mkDirCall h hfs
  | opendir dirname =>
    rcases hr with hu | hr
    · exact absurd rfl (hu.function dirname)
    · exact openDirCall h hfs hr.dirs
  | rewinddir dirp =>
    obtain ⟨dir, hd, hdel⟩ := hdir rfl
    exact rewindDirCall h hd hdel
  | readdir dirp =>
    obtain ⟨dir, hd, hdel⟩ := hdir rfl
    exact readDirCall h hd hdel
  | closedir dirp =>
    obtain ⟨dir, hd, hdel⟩ := hdir rfl
    exact closeDirCall h hd hdel

end Alike

/-- Only the immediate code of the request a run makes matters to it. -/
theorem switch_imm {imm imm' : Request → Int} {code : Int}
    (h : ∀ r, (Html5FileSystem.switch imm w d code f).request = some r → imm' r = imm r) :
    Html5FileSystem.switch imm' w d code f = Html5FileSystem.switch imm w d code f := by
  cases f <;> simp only [Html5FileSystem.switch] at h ⊢
  case open_ path oflag cmode =>
    unfold Html5FileSystem.openCall Html5FileSystem.initialize_ accepted at *
    cases hfs : w.filesystem with
    | none =>
      simp only [hfs] at h
      simp only [h _ rfl]
    | some filesystem =>
      simp only [hfs] at h
      simp only
      split_ifs at h ⊢ <;> first | rfl | grind
  case stat => unfold Html5FileSystem.statCall Html5FileSystem.initialize_ accepted at *; grind
  case fstat => unfold Html5FileSystem.fstatCall at *; grind
  case read => unfold Html5FileSystem.readCall at *; grind
  case write => unfold Html5FileSystem.writeCall at *; grind
  case mkdir => unfold Html5FileSystem.mkDirCall Html5FileSystem.initialize_ accepted at *; grind
  case opendir => unfold Html5FileSystem.openDirCall Html5FileSystem.initialize_ accepted at *; grind
  case readdir dirp =>
    unfold Html5FileSystem.readDirCall at *
    cases hd : w.dir dirp with
    | none => rfl
    | some dir =>
      simp only [hd] at h
      simp only
      split_ifs at h ⊢ <;> first | rfl | grind

/-! ## A completion -/

theorem Near.record (h : Near w v d f) (e e' : Event) : Near (w.record e) (v.record e') d f :=
  ⟨h.filesystem, h.delegate, h.dirs, h.stats, h.buffers⟩

theorem Framed.record (w : World) (e : Event) : Framed w (w.record e) d f :=
  ⟨rfl, fun _ _ => rfl, fun _ _ _ => rfl, fun _ _ => rfl, fun _ _ => rfl⟩

/-- What a completion that is about the call does, in two worlds that look the same to the call. -/
structure Delivers (w : World) (d : Nat) (f : Function) (o o' : World × Option Nat) : Prop where
  callee : o'.2 = o.2
  near : Near o.1 o'.1 d f
  framed : Framed w o.1 d f
  underway : Underway o.1 d f

theorem deliver_alike (h : Near w v d f) (hu : Underway w d f) {p : Completion} (hp : p.Of d f)
    (answer : Answer) :
    Delivers w d f (deliver w p answer) (deliver v p answer) := by
  have hrec : Framed w (w.record (.delivered p answer)) d f := .record w _
  cases p with
  | proxy callback => exact ⟨rfl, h.record _ _, hrec, hu.flag, hu.function, hu.owned⟩
  | query d' callback =>
    obtain rfl : d' = d := hp
    refine ⟨rfl, (h.record _ _).setInfo _, hrec.trans (.setInfo _ _), ?_⟩
    cases hi : answer.info with
    | none =>
      simp only [deliver, hi]
      exact ⟨hu.flag, hu.function, hu.owned⟩
    | some info =>
      simp only [deliver, hi, World.setInfo]
      exact ⟨by rw [World.setDelegate_self]; exact hu.flag, hu.function, hu.owned⟩
  | read buf callback =>
    exact ⟨rfl, (h.record _ _).setBuffer hp _, hrec.trans (.setBuffer _ hp _), hu.flag, hu.function,
      hu.owned⟩
  | listing dirp =>
    obtain ⟨dir, hd⟩ := Option.isSome_iff_exists.1 (hu.owned dirp hp)
    obtain ⟨hd, ho⟩ := World.ownDir_some.1 hd
    have hv := Alike.dir_both h hd ho
    have hd' : (w.record (.delivered (.listing dirp) answer)).dir dirp = some dir := hd
    have hv' : (v.record (.delivered (.listing dirp) answer)).dir dirp = some dir := hv
    have hl : (dir.onReadDirectoryEntries answer.code answer.entries).delegate = d := by
      unfold Listing.onReadDirectoryEntries
      split <;> exact ho
    simp only [deliver, hd', hv']
    refine ⟨rfl, (h.record _ _).setDir hd' hv' _, hrec.trans (.setDir hd' ho ?_), hu.flag, hu.function, ?_⟩
    · rintro dir' ⟨rfl⟩
      exact hl
    · intro dirp' hp'
      obtain rfl : dirp = dirp' := Option.some.inj (Eq.trans (Eq.symm hp) hp')
      exact Alike.ownDir_setDir hd' hl

theorem Near.issue (h : Near w v d f) (c : Nat) (q q' : Option Request) :
    Near (w.issue c q) (v.issue c q') d f := by
  cases q <;> cases q' <;> exact ⟨h.filesystem, h.delegate, h.dirs, h.stats, h.buffers⟩

theorem Framed.issue (w : World) (c : Nat) (q : Option Request) : Framed w (w.issue c q) d f := by
  cases q with
  | none => exact .refl w d f
  | some r => exact .record w _

theorem Underway.issue (h : Underway w d f) (c : Nat) (q : Option Request) : Underway (w.issue c q) d f := by
  cases q <;> exact ⟨h.flag, h.function, h.owned⟩

/-- The same of a run with its request on record. -/
theorem proxy_alike {imm : Request → Int} {c : Nat} {code : Int} {filesystem : Nat} (h : Near w v d f)
    (hw : w.arguments c = ⟨d, f⟩) (hv : v.arguments c = ⟨d, f⟩) (hfs : w.filesystem = some filesystem)
    (hr : Underway w d f ∨ Aligned w v) (ho : Owned w d f) :
    Alike w d f (proxy imm w c code) (proxy imm v c code) := by
  have ha : Alike w d f (Html5FileSystem.switch imm w d code f) (Html5FileSystem.switch imm v d code f) :=
    Alike.switch h hfs hr ho
  unfold proxy
  rw [hw, hv]
  exact ⟨ha.result, ha.chaining, ha.request, ha.completion, ha.near.issue c _ _, ha.framed.trans (.issue _ c _),
    ha.of, fun hc => (ha.underway hc).issue c _⟩

end NaClFs
