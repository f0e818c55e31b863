/-
The resources of the backend over whole runs of the file system, on the main thread and on a worker: each
descriptor of a file has an open resource of its own, so no operation asks a file that was not opened
or is closed, and none closes a file twice.
-/
import NaClFs.FileSystem.System
import NaClFs.Html5.Resources

namespace NaClFs

open Slots

/-! ## The table -/

namespace FileSystem

variable {fs fs' : FileSystem} {path : Str} {stats : Nat → Stat} {f : Function} {answer : Result} {op : Op}
  {ret : Ret}

/-- A call with a path makes one delegate. -/
theorem delegates_of_pathCall (hc : Process.PathCall fs.cwd path stats f answer op)
    (h : fs.call op = some (fs', ret)) :
    fs'.delegates = (fs.createDelegate (createFullpath fs.cwd path)).1.delegates := by
  cases hc with
  | open_ oflag cmode =>
    simp only [call, open_, Option.some.injEq] at h
    split at h <;> cases h <;> rfl
  | stat buf => cases h; rfl
  | mkdir mode => cases h; rfl
  | opendir =>
    simp only [call, openDir, Option.some.injEq] at h
    split at h <;> cases h <;> rfl
  | chdir buf answer =>
    simp only [call, chDir, Option.some.injEq] at h
    split at h
    · cases h; rfl
    · split at h <;> cases h <;> rfl

/-- Only an `Open` that is answered 0 adds a descriptor. -/
theorem descriptors_of_pathCall (hc : Process.PathCall fs.cwd path stats f answer op)
    (h : fs.call op = some (fs', ret)) :
    fs'.descriptors = fs.descriptors ∨ (∃ oflag cmode, f = .open_ (createFullpath fs.cwd path) oflag cmode) ∧
      answer.toInt = 0 ∧ fs'.descriptors = fs.descriptors ++ [some fs.delegates.length] := by
  cases hc with
  | open_ oflag cmode =>
    simp only [call, open_, Option.some.injEq] at h
    split at h
    · cases h
      exact .inl rfl
    · rename_i h0
      cases h
      exact .inr ⟨⟨oflag, cmode, rfl⟩, not_not.1 h0, rfl⟩
  | stat buf => cases h; exact .inl rfl
  | mkdir mode => cases h; exact .inl rfl
  | opendir =>
    simp only [call, openDir, Option.some.injEq] at h
    split at h <;> cases h <;> exact .inl rfl
  | chdir buf answer =>
    simp only [call, chDir, Option.some.injEq] at h
    split at h
    · cases h; exact .inl rfl
    · split at h <;> cases h <;> exact .inl rfl

/-- A delegate keeps its class when another is made. -/
theorem kind_of_append {kind : DelegateKind} (h : fs'.delegates = fs.delegates ++ [kind]) {d : Nat}
    (hd : d < fs.delegates.length) : fs'.kind d = fs.kind d := by
  simp only [FileSystem.kind, h, List.getD_eq_getElem?_getD]
  rw [List.getElem?_append_left hd]

theorem mem_of_getDelegate {fildes : Int} {d : Nat} (h : fs.getDelegate fildes = some d) :
    d ∈ entries fs.descriptors :=
  Slots.mem_entries.2 (List.mem_of_getElem? (getDelegate_some.1 h).2)

theorem kind_of_delegates (h : fs'.delegates = fs.delegates) (d : Nat) : fs'.kind d = fs.kind d := by
  simp only [FileSystem.kind, h]

/-- The owners after a call on the table. -/
theorem owners_inv (h : fs.owners.Inv) (ht : fs.call op = some (fs', ret)) : fs'.owners.Inv :=
  effect_inv h (call_effect ht)

/-- Each descriptor has a delegate of its own. -/
theorem nodup_descriptors (h : fs.owners.Inv) : (entries fs.descriptors).Nodup :=
  (List.nodup_append.1 (List.nodup_append.1 h.nodup).1).1

theorem lt_of_descriptor (h : fs.owners.Inv) {d : Nat} (hd : d ∈ entries fs.descriptors) :
    d < fs.delegates.length :=
  (h.mem d).1 (List.mem_append_left _ (List.mem_append_left _ hd))

/-- A `Close` that is answered 0 deletes the delegate and empties its slot. -/
theorem close_zero {fildes : Int} {d : Nat} (hd : fs.getDelegate fildes = some d) :
    fs.close fildes 0 =
      ({ fs.delete d with descriptors := fs.descriptors.set fildes.toNat none }, { result := 0 }) := by
  simp only [close, deleteDescriptor, hd, ne_eq, not_true_eq_false, if_false]
  rfl

/-- One that is not changes nothing. -/
theorem close_of_ne {fildes : Int} {d : Nat} (hd : fs.getDelegate fildes = some d) {answer : Int}
    (h : answer ≠ 0) : fs.close fildes answer = (fs, { result := answer }) := by
  simp only [close, hd, if_pos h]

theorem closeDir_eq {dirp d : Nat} (hd : fs.dirs[dirp]?.join = some d) {answer : Int}
    (h : fs.closeDir dirp answer = some (fs', ret)) :
    fs'.descriptors = fs.descriptors ∧ fs'.delegates = fs.delegates := by
  simp only [closeDir, hd] at h
  split at h <;> cases h <;> exact ⟨rfl, rfl⟩

end FileSystem

/-! ## Between operations -/

namespace Process

variable {β : Type} {B : Backend β} {main : Bool} {call : Nat} {m m' : Resources}
  {s s' t : Process (β × List Exchange)} {d : Nat} {f : Function} {answer : Result} {ret : Returned}

/-- Every exchange was allowed, and the descriptors of files are open on files that are all different. -/
structure Tidy (m : Resources) (s : Process (β × List Exchange)) : Prop where
  quiet : Quiescent s.world
  owners : s.table.owners.Inv
  after : Resources.after s.backend.2 = some m
  typed : m.Typed s.world.store
  hasFile : ∀ d ∈ entries s.table.descriptors, s.table.kind d = .html5 → m.HasFile s.world.store d
  distinct : ∀ d ∈ entries s.table.descriptors, ∀ d' ∈ entries s.table.descriptors,
    s.table.kind d = .html5 → s.table.kind d' = .html5 →
    (s.world.delegates d).fileIo = (s.world.delegates d').fileIo → d = d'

/-- A delegate that is open on the same file as before. -/
structure Stays (m m' : Resources) (s t : Process (β × List Exchange)) (d : Nat) : Prop where
  kind : t.table.kind d = s.table.kind d
  fileIo : (t.world.delegates d).fileIo = (s.world.delegates d).fileIo
  file : ∀ file, (s.world.delegates d).fileIo = some file → m file = some .opened →
    m' file = some .opened

theorem Stays.hasFile (h : Stays m m' s t d) (ho : m.HasFile s.world.store d) :
    m'.HasFile t.world.store d := by
  obtain ⟨file, hio, hm⟩ := ho
  exact ⟨file, h.fileIo.trans hio, h.file file hio hm⟩

/-- No descriptor of a file is new. -/
theorem Tidy.of_stays (h : Tidy m s) (hq : Quiescent t.world) (ho : t.table.owners.Inv)
    (ha : Resources.after t.backend.2 = some m') (ht : m'.Typed t.world.store)
    (hs : ∀ d ∈ entries t.table.descriptors, t.table.kind d = .html5 →
      d ∈ entries s.table.descriptors ∧ Stays m m' s t d) : Tidy m' t := by
  refine ⟨hq, ho, ha, ht, ?_, ?_⟩
  · intro d hd hk
    obtain ⟨hd, hst⟩ := hs d hd hk
    exact hst.hasFile (h.hasFile d hd (hst.kind.symm.trans hk))
  · intro d hd d' hd' hk hk' he
    obtain ⟨hd, hst⟩ := hs d hd hk
    obtain ⟨hd', hst'⟩ := hs d' hd' hk'
    refine h.distinct d hd d' hd' (hst.kind.symm.trans hk) (hst'.kind.symm.trans hk') ?_
    rw [← hst.fileIo, ← hst'.fileIo, he]

/-- One descriptor is new, of a file that is. -/
theorem Tidy.of_new (h : Tidy m s) (hq : Quiescent t.world) (ho : t.table.owners.Inv)
    (ha : Resources.after t.backend.2 = some m') (ht : m'.Typed t.world.store)
    (hd : t.table.descriptors = s.table.descriptors ++ [some d])
    (hs : ∀ d ∈ entries s.table.descriptors, Stays m m' s t d) {file : Nat}
    (hio : (t.world.delegates d).fileIo = some file) (hm : m' file = some .opened)
    (hnew : s.world.store.resources ≤ file) : Tidy m' t := by
  -- The file of an old descriptor was made before.
  have hne {d' : Nat} (hd' : d' ∈ entries s.table.descriptors) (hk : t.table.kind d' = .html5) :
      (t.world.delegates d').fileIo ≠ some file := by
    have hst := hs d' hd'
    obtain ⟨file', hio', hm'⟩ := h.hasFile d' hd' (hst.kind.symm.trans hk)
    have hlt := h.typed.lt hm'
    rw [hst.fileIo, show (s.world.delegates d').fileIo = some file' from hio']
    intro he
    have := Option.some.inj he
    omega
  refine ⟨hq, ho, ha, ht, ?_, ?_⟩
  · intro d' hd' hk
    rw [hd, entries_append_some, List.mem_append, List.mem_singleton] at hd'
    rcases hd' with hd' | rfl
    · exact (hs d' hd').hasFile (h.hasFile d' hd' ((hs d' hd').kind.symm.trans hk))
    · exact ⟨file, hio, hm⟩
  · intro d₁ hd₁ d₂ hd₂ hk₁ hk₂ he
    rw [hd, entries_append_some, List.mem_append, List.mem_singleton] at hd₁ hd₂
    rcases hd₁ with hd₁ | rfl
    · rcases hd₂ with hd₂ | rfl
      · refine h.distinct d₁ hd₁ d₂ hd₂ ((hs d₁ hd₁).kind.symm.trans hk₁) ((hs d₂ hd₂).kind.symm.trans hk₂) ?_
        rw [← (hs d₁ hd₁).fileIo, ← (hs d₂ hd₂).fileIo, he]
      · exact absurd (he.trans hio) (hne hd₁ hk₁)
    · rcases hd₂ with hd₂ | rfl
      · exact absurd (he.symm.trans hio) (hne hd₂ hk₂)
      · rfl

/-! ## Methods -/

/-- What a method leaves: only a `Close` that is answered 0 changes a resource there was, the file of its
delegate, and an `Open` of a file that is answered 0 leaves its delegate open on a new one. -/
structure Moved (m : Resources) (s : Process (β × List Exchange)) (d : Nat) (f : Function)
    (answer : Result) (m' : Resources) (s' : Process (β × List Exchange)) : Prop where
  quiet : Quiescent s'.world
  after : Resources.after s'.backend.2 = some m'
  typed : m'.Typed s'.world.store
  others : ∀ d', d' ≠ d → (s'.world.delegates d').fileIo = (s.world.delegates d').fileIo
  same : f.use ≠ .path → (s'.world.delegates d).fileIo = (s.world.delegates d).fileIo
  made : ∀ r, r < s.world.store.resources →
    (f = .close → answer.toInt = 0 → s.table.kind d = .html5 → (s.world.delegates d).fileIo ≠ some r) →
      m' r = m r
  opened : ∀ path oflag cmode, f = .open_ path oflag cmode → s.table.kind d = .html5 →
    answer.toInt ≠ 0 ∨ ∃ file, (s'.world.delegates d).fileIo = some file ∧ m' file = some .opened ∧
      s.world.store.resources ≤ file

theorem Did.moved (h : Did B.recorded main s d f answer s') (hq : Quiescent s.world)
    (ha : Resources.after s.backend.2 = some m) (ht : m.Typed s.world.store)
    (hopen : s.table.kind d = .html5 → Resources.AsksFile f → m.HasFile s.world.store d) :
    ∃ m', Moved m s d f answer m' s' := by
  cases h with
  | port hk =>
    obtain ⟨stats, buffers, hs, hb⟩ := port_store s d f
    have hd := port_delegates s d f
    refine ⟨m, ?_, by rw [hb]; exact ha, ?_, fun d' _ => by rw [hd], fun _ => by rw [hd], fun _ _ _ => rfl,
      fun _ _ _ _ hk' => ?_⟩
    · intro d'
      rw [hd]
      exact hq d'
    · rw [hs]
      exact ⟨ht.filesystem, ht.fresh, ht.dirs⟩
    · rw [hk] at hk'
      cases hk'
  | main hk hm =>
    refine ⟨m, hq, ha, ht, fun _ _ => rfl, fun _ => rfl, fun _ _ _ => rfl, ?_⟩
    rintro path oflag cmode rfl -
    exact .inl (show eio ≠ 0 by decide)
  | @file hk hm _ w b hp hqw =>
    obtain ⟨m', ha', hl⟩ := (Resources.program_left ha ht d f (hopen hk)).apply hp
    refine ⟨m', hqw, ha', hl.typed, ?_, hl.same, ?_, ?_⟩
    · intro d' hd
      exact congrArg OpenFile.fileIo (hl.others d' hd)
    · intro r hr hn
      refine hl.made r hr fun hc => hn hc ?_ hk
      rw [hl.closed hc]
      rfl
    · intro path oflag cmode he _
      rcases hl.opened path oflag cmode he with ⟨errno, hne, rfl⟩ | hf
      · exact .inl hne
      · exact .inr hf

/-! ## Operations -/

/-- A delegate other than the one of the method stays. -/
theorem Moved.stays (hm : Moved m s d f answer m' s') (h : m.Typed s.world.store) {d' : Nat}
    (hk : t.table.kind d' = s.table.kind d') (hw : t.world = s'.world)
    (hio : d' ≠ d ∨ f.use ≠ .path)
    (hc : f = .close → (s.world.delegates d).fileIo ≠ (s.world.delegates d').fileIo) :
    Stays m m' s t d' := by
  refine ⟨hk, ?_, fun file hf ho => ?_⟩
  · rw [hw]
    by_cases hd : d' = d
    · subst hd
      exact hm.same (hio.resolve_left fun hn => hn rfl)
    · exact hm.others d' hd
  · rw [hm.made file (h.lt ho) fun hfc _ _ he => hc hfc (he.trans hf.symm), ho]

/-- A new delegate leaves the store, but for its own file. -/
theorem create_typed (h : m.Typed s.world.store) (path : Str) :
    m.Typed (s.create path).1.world.store :=
  ⟨h.filesystem, h.fresh, h.dirs⟩

theorem tidy_path {path : Str} {op : FileSystem.Op} {table : FileSystem} {ret : FileSystem.Ret}
    (h : Tidy m s) (hc : PathCall s.table.cwd path s'.world.stats f answer op)
    (hm : (s.create (createFullpath s.table.cwd path)).1.method B.recorded main call
      s.table.delegates.length f = some (answer, s')) (ht : s.table.call op = some (table, ret)) :
    ∃ m', Tidy m' { s' with table := table } := by
  have hdel := FileSystem.delegates_of_pathCall hc ht
  have hdesc := FileSystem.descriptors_of_pathCall hc ht
  generalize createFullpath s.table.cwd path = fullpath at hm hdel hdesc
  have hdid := method_did (create_quiescent h.quiet fullpath) hm
  obtain ⟨m', hmv⟩ := hdid.moved (create_quiescent h.quiet fullpath) h.after (create_typed h.typed fullpath)
    fun _ hf => by cases hc <;> exact hf.elim
  refine ⟨m', ?_⟩
  -- The delegates there were are not the new one.
  have hstays : ∀ d ∈ entries s.table.descriptors, Stays m m' s { s' with table := table } d := by
    intro d hd
    have hlt := FileSystem.lt_of_descriptor h.owners hd
    have hst : Stays m m' (s.create fullpath).1 { s' with table := table } d :=
      hmv.stays (create_typed h.typed fullpath) ((FileSystem.kind_of_append hdel hlt).trans
        (FileSystem.kind_of_append (show (s.create fullpath).1.table.delegates = _ from rfl) hlt).symm)
      rfl (.inl (Nat.ne_of_lt hlt)) fun hf => by cases hc <;> cases hf
    have hcr := create_delegates s fullpath (Nat.ne_of_lt hlt)
    refine ⟨?_, ?_, ?_⟩
    · exact FileSystem.kind_of_append hdel hlt
    · rw [hst.fileIo, hcr]
    · rw [← hcr]
      exact hst.file
  have hown := FileSystem.owners_inv h.owners ht
  rcases hdesc with hdesc | ⟨⟨oflag, cmode, rfl⟩, h0, hdesc⟩
  · refine h.of_stays hmv.quiet hown hmv.after hmv.typed fun d hd _ => ?_
    rw [show entries table.descriptors = entries s.table.descriptors by rw [hdesc]] at hd
    exact ⟨hd, hstays d hd⟩
  · by_cases hk : (s.create fullpath).1.table.kind s.table.delegates.length = .html5
    · rcases hmv.opened _ _ _ rfl hk with hne | ⟨file, hio, hmade, hle⟩
      · exact absurd h0 hne
      · exact h.of_new hmv.quiet hown hmv.after hmv.typed hdesc hstays hio hmade hle
    · -- A device has no file.
      refine h.of_stays hmv.quiet hown hmv.after hmv.typed fun d hd hkd => ?_
      rw [show entries table.descriptors = entries (s.table.descriptors ++ [some s.table.delegates.length]) by
        rw [hdesc], entries_append_some, List.mem_append, List.mem_singleton] at hd
      rcases hd with hd | rfl
      · exact ⟨hd, hstays d hd⟩
      · exact absurd ((FileSystem.kind_of_delegates hdel _).symm.trans hkd) hk

/-- A method through a descriptor or a DIR, other than a `Close`, that leaves the descriptors. -/
theorem tidy_method (h : Tidy m s) (hu : f.use ≠ .path) (hc : f ≠ .close)
    (hopen : s.table.kind d = .html5 → Resources.AsksFile f → m.HasFile s.world.store d)
    (hm : s.method B.recorded main call d f = some (answer, s')) {table : FileSystem}
    (hown : table.owners.Inv) (hdesc : table.descriptors = s.table.descriptors)
    (hdel : table.delegates = s.table.delegates) : ∃ m', Tidy m' { s' with table := table } := by
  obtain ⟨m', hmv⟩ := (method_did h.quiet hm).moved h.quiet h.after h.typed hopen
  refine ⟨m', h.of_stays hmv.quiet hown hmv.after hmv.typed fun d' hd' _ => ?_⟩
  refine ⟨by rw [← hdesc]; exact hd', hmv.stays h.typed ?_ rfl (.inr hu) fun hf => absurd hf hc⟩
  exact FileSystem.kind_of_delegates hdel d'

theorem tidy_close {fildes : Int} (h : Tidy m s) (hd : s.table.getDelegate fildes = some d)
    (hm : s.method B.recorded main call d .close = some (answer, s')) :
    ∃ m', Tidy m' { s' with table := (s.table.close fildes answer.toInt).1 } := by
  have hmem := FileSystem.mem_of_getDelegate hd
  obtain ⟨m', hmv⟩ := (method_did h.quiet hm).moved h.quiet h.after h.typed
    fun hk _ => h.hasFile d hmem hk
  have hown : (s.table.close fildes answer.toInt).1.owners.Inv :=
    FileSystem.owners_inv h.owners (show s.table.call (.close fildes answer.toInt) = some _ from rfl)
  refine ⟨m', h.of_stays hmv.quiet hown hmv.after hmv.typed fun d' hd' hk' => ?_⟩
  by_cases h0 : answer.toInt = 0
  · -- The slot is emptied, so the other descriptors have other files.
    have hclose : (s.table.close fildes answer.toInt).1 =
        { s.table.delete d with descriptors := s.table.descriptors.set fildes.toNat none } := by
      rw [h0, FileSystem.close_zero hd]
    have hk : (s.table.close fildes answer.toInt).1.kind d' = s.table.kind d' := by
      rw [hclose]
      rfl
    have hd' : d' ∈ entries s.table.descriptors ∧ d' ≠ d := by
      refine (Slots.mem_entries_set (FileSystem.nodup_descriptors h.owners)
        (FileSystem.getDelegate_some.1 hd).2).1 ?_
      rw [show entries (s.table.descriptors.set fildes.toNat none) =
        entries (s.table.close fildes answer.toInt).1.descriptors by rw [hclose]]
      exact hd'
    refine ⟨hd'.1, ⟨hk, hmv.others d' hd'.2, fun file hf ho => ?_⟩⟩
    rw [hmv.made file (h.typed.lt ho) fun _ _ hkd he => ?_, ho]
    exact hd'.2 (h.distinct d hmem d' hd'.1 hkd (hk.symm.trans hk') (he.trans hf.symm)).symm
  · have hclose : (s.table.close fildes answer.toInt).1 = s.table := by rw [FileSystem.close_of_ne hd h0]
    have hd'' : d' ∈ entries s.table.descriptors := by
      rw [← show (s.table.close fildes answer.toInt).1.descriptors = s.table.descriptors by rw [hclose]]
      exact hd'
    refine ⟨hd'', ⟨by dsimp only; rw [hclose], ?_, fun file hf ho => ?_⟩⟩
    · by_cases he : d' = d
      · subst he
        exact hmv.same (by decide)
      · exact hmv.others d' he
    · rw [hmv.made file (h.typed.lt ho) fun _ hz => absurd hz h0, ho]

/-- `mutex_` is no resource. -/
theorem Tidy.setLocked (h : Tidy m s) (locked : Bool) : Tidy m { s with locked := locked } :=
  ⟨h.quiet, h.owners, h.after, h.typed, h.hasFile, h.distinct⟩

/-- A method that leaves the table. -/
theorem tidy_of_method (h : Tidy m s) (hu : f.use ≠ .path) (hc : f ≠ .close)
    (hopen : s.table.kind d = .html5 → Resources.AsksFile f → m.HasFile s.world.store d)
    (hm : s.method B.recorded main call d f = some (answer, s')) : ∃ m', Tidy m' s' := by
  obtain ⟨errno, htable⟩ := (method_did h.quiet hm).table
  have hown : s'.table.owners.Inv := by
    rw [htable]
    exact h.owners
  exact tidy_method h hu hc hopen hm hown (by rw [htable]) (by rw [htable])

theorem tidy_performed (hp : Performed B.recorded main call s ret t) (h : Tidy m s) : ∃ m', Tidy m' t := by
  induction hp generalizing m with
  | answered => exact ⟨m, h⟩
  | path hc hm ht => exact tidy_path h hc hm ht
  | descriptor hu hc hd hm =>
    exact tidy_of_method h (by rw [hu]; decide) hc
      (fun hk _ => h.hasFile _ (FileSystem.mem_of_getDelegate hd) hk) hm
  | again hd hm rest ih =>
    obtain ⟨m', h'⟩ := tidy_of_method h (f := .read _ _) (by simp [Function.use]) (by simp)
      (fun hk _ => h.hasFile _ (FileSystem.mem_of_getDelegate hd) hk) hm
    exact ih (h'.setLocked true)
  | close hd hm => exact tidy_close h hd hm
  | @dir _ _ _ _ f _ _ hu hc hd hm =>
    have hne : f ≠ .close := by
      rintro rfl
      cases hu
    have hfile : ¬ Resources.AsksFile f := fun hf => by cases f <;> first | exact hf.elim | cases hu
    exact tidy_of_method h (by rw [hu]; decide) hne (fun _ hf => absurd hf hfile) hm
  | @closedir s _ dirp d answer table ret hd hm ht =>
    have hown := FileSystem.owners_inv h.owners
      (show s.table.call (.closeDir dirp answer.toInt) = some _ from ht)
    obtain ⟨hdesc, hdel⟩ := FileSystem.closeDir_eq hd ht
    exact tidy_method h (f := .closedir dirp) (by simp [Function.use]) (by simp) (fun _ hf => hf.elim) hm
      hown hdesc hdel

theorem tidy_init (type : FileSystemType) (info : Nat → FileInfo) (arguments : Nat → Arguments)
    (stats : Nat → Stat) (buffers : Nat → Str) (b : β) :
    Tidy (fun _ => none) (init type info arguments stats buffers (b, ([] : List Exchange))) := by
  refine ⟨init_quiescent type info arguments stats buffers, FileSystem.init_inv, rfl, ⟨?_, ?_, ?_⟩, ?_, ?_⟩
  · intro filesystem h
    cases h
  · intro r _
    rfl
  · intro dir h
    cases h
  · intro d hd
    cases hd
  · intro d hd
    cases hd

end Process

/-! ## Whole runs -/

namespace System

open Process

variable {β : Type} {B : Backend β} {s : System (β × List Exchange)}

theorem step_tidy {a : Act} {t : System (β × List Exchange)} {o : Option Returned}
    (hi : ∃ m, Tidy m s.process) (hs : step B.recorded s a = some (t, o)) : ∃ m, Tidy m t.process := by
  obtain ⟨m, hi⟩ := hi
  cases a with
  | op main call op =>
    obtain ⟨ret, hp, -⟩ := step_op hs
    exact tidy_performed (perform_performed hp) hi
  | message message =>
    cases hs
    exact ⟨m, hi.quiet, hi.owners, hi.after, hi.typed, hi.hasFile, hi.distinct⟩

/-- After every run of operations, on the main thread and on workers, and of messages, one served after the
other and whatever the backend replied: each request that makes a resource made a new one; each that names
a file named one whose opening completed with 0 and that was not closed; each that names a filesystem
named one that was asked for, though its opening may have failed; each descriptor of a file is open on a
file as above; and no two of them on the same one. -/
theorem run_resources (B : Backend β) (type : FileSystemType) (info : Nat → FileInfo)
    (arguments : Nat → Arguments) (stats : Nat → Stat) (buffers : Nat → Str) (b : β) (as : List Act)
    (s : System (β × List Exchange)) (os : List (Option Returned))
    (h : Stream.run (step B.recorded) (init type info arguments stats buffers (b, [])) as = some (s, os)) :
    ∃ m, Resources.after s.process.backend.2 = some m ∧
      (∀ fildes d, s.process.table.getDelegate fildes = some d → s.process.table.kind d = .html5 →
        ∃ file, (s.process.world.delegates d).fileIo = some file ∧ m file = some .opened) ∧
      ∀ fildes fildes' d d', s.process.table.getDelegate fildes = some d →
        s.process.table.getDelegate fildes' = some d' →
        s.process.table.kind d = .html5 → s.process.table.kind d' = .html5 →
        (s.process.world.delegates d).fileIo = (s.process.world.delegates d').fileIo → fildes = fildes' := by
  obtain ⟨m, hi⟩ : ∃ m, Tidy m s.process :=
    Stream.run_invariant (I := fun s => ∃ m, Tidy m s.process) (fun _ _ _ _ hi hs => step_tidy hi hs)
      ⟨_, tidy_init type info arguments stats buffers b⟩ h
  refine ⟨m, hi.after, fun fildes d hd hk => ?_, fun fildes fildes' d d' hd hd' hk hk' he => ?_⟩
  · exact hi.hasFile d (FileSystem.mem_of_getDelegate hd) hk
  · obtain rfl := hi.distinct d (FileSystem.mem_of_getDelegate hd) d'
      (FileSystem.mem_of_getDelegate hd') hk hk' he
    obtain ⟨h0, hs⟩ := FileSystem.getDelegate_some.1 hd
    obtain ⟨h0', hs'⟩ := FileSystem.getDelegate_some.1 hd'
    have := Slots.index_unique (FileSystem.nodup_descriptors hi.owners) hs hs'
    omega

/-- Two files are opened, one of them is closed and then looked at; a key is sent, and the other is written. -/
def openTwice : List Act :=
  [.op false 0 (.open_ (some (str "a")) oRdWr 0), .op false 1 (.open_ (some (str "b")) oRdWr 0),
    .op true 2 (.close 0), .op false 3 (.close 0), .op false 4 (.stat (some (str "a")) 0),
    .message (.string (str "S0x")), .op false 5 (.write 1 (str "x"))]

theorem run_resources_openTwice :
    ∃ s os, Stream.run (step failingReads.recorded) ⟨.blank ((), []), []⟩ openTwice = some (s, os) ∧
      ∃ m, Resources.after s.process.backend.2 = some m := by
  have hs : (Stream.run (step failingReads.recorded) ⟨.blank ((), []), []⟩ openTwice).isSome = true := by
    decide +kernel
  obtain ⟨⟨s, os⟩, h⟩ := Option.isSome_iff_exists.1 hs
  obtain ⟨m, hm, -⟩ := run_resources failingReads .localTemporary _ _ _ _ () openTwice s os h
  exact ⟨s, os, h, m, hm⟩

end System

end NaClFs
