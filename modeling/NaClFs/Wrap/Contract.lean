/-
What the entry points that return an errno promise, over the whole runs of a program: `open`, `stat`,
`close` and `fstat` return 0 and have done what they are for, or return a positive errno and leave every
descriptor as it was. A device that was not opened would answer -1 to `Close`; none is ever behind a
descriptor.
-/
import NaClFs.FileSystem.Resources
import NaClFs.Wrap.Calls

namespace NaClFs

open Slots

/-! ## Between operations -/

namespace Process

variable {β : Type} {B : Backend β} {main : Bool} {call : Nat} {s s' t : Process β} {d d' : Nat}
  {f : Function} {answer : Result} {ret : Returned}

/-- No call is in flight, every delegate has one owner, and a device behind a descriptor is opened. -/
structure Ready (s : Process β) : Prop where
  quiet : Quiescent s.world
  owners : s.table.owners.Inv
  opened : ∀ d ∈ entries s.table.descriptors, s.table.kind d = .port → 0 ≤ (s.ports d).id

/-- Only errno may be set from outside. -/
theorem Ready.setErrno (h : Ready s) (errno : Int) : Ready (s.setErrno errno) := ⟨h.quiet, h.owners, h.opened⟩

/-- A method leaves the devices of the other delegates. -/
theorem Did.ports_of_ne (h : Did B main s d f answer s') (hne : d' ≠ d) : s'.ports d' = s.ports d' := by
  cases h with
  | main | file => rfl
  | port => exact port_ports s d f hne

/-- Only `Open` gives a device its id. -/
theorem Did.id_eq (h : Did B main s d f answer s') (hf : f.use ≠ .path) : (s'.ports d).id = (s.ports d).id := by
  cases h with
  | main | file => rfl
  | port =>
    cases f with
    | fcntl cmd ap =>
      simp only [Process.port, Function.update_self, PortFileSystem.fcntl]
      split
      · rfl
      · split <;> rfl
    | open_ | stat | mkdir | opendir => exact absurd rfl hf
    | _ => rfl

/-- A device that was opened has an id. -/
theorem Did.opened {path : Str} {oflag cmode : BitVec 32}
    (h : Did B main s d (.open_ path oflag cmode) answer s')
    (hk : s.table.kind d = .port) (h0 : answer.toInt = 0) : 0 ≤ (s'.ports d).id := by
  cases h with
  | main hk' | file hk' =>
    rw [hk] at hk'
    cases hk'
  | port =>
    simp only [Process.port, Function.update_self, PortFileSystem.open_, Result.toInt] at h0 ⊢
    split
    · exact Int.le_refl 0
    · split
      · exact Int.zero_le_ofNat 1
      · split
        · exact Int.zero_le_ofNat 2
        · rename_i h1 h2 h3
          rw [if_neg h1, if_neg h2, if_neg h3] at h0
          cases h0

/-- A method through a descriptor or a DIR, and a table with no new descriptor. -/
theorem ready_method (h : Ready s) (hf : f.use ≠ .path) (hm : s.method B main call d f = some (answer, s'))
    {table : FileSystem} (hown : table.owners.Inv)
    (hdesc : ∀ d' ∈ entries table.descriptors, d' ∈ entries s.table.descriptors)
    (hdel : table.delegates = s.table.delegates) : Ready { s' with table := table } := by
  have hdid := method_did h.quiet hm
  have hq := method_quiescent h.quiet hm
  refine ⟨hq, hown, fun d' hd' hk => ?_⟩
  have hold := h.opened d' (hdesc d' hd') ((FileSystem.kind_of_delegates hdel d').symm.trans hk)
  show 0 ≤ (s'.ports d').id
  by_cases hne : d' = d
  · subst hne
    rw [hdid.id_eq hf]
    exact hold
  · rw [hdid.ports_of_ne hne]
    exact hold

theorem ready_path {path : Str} {op : FileSystem.Op} {table : FileSystem} {ret : FileSystem.Ret} (h : Ready s)
    (hc : PathCall s.table.cwd path s'.world.stats f answer op)
    (hm : (s.create (createFullpath s.table.cwd path)).1.method B main call s.table.delegates.length f =
      some (answer, s')) (ht : s.table.call op = some (table, ret)) : Ready { s' with table := table } := by
  have hdel := FileSystem.delegates_of_pathCall hc ht
  have hdesc := FileSystem.descriptors_of_pathCall hc ht
  generalize createFullpath s.table.cwd path = fullpath at hm hdel hdesc
  have hq := create_quiescent h.quiet fullpath
  have hdid := method_did hq hm
  -- The delegates there were are not the new one.
  have hold : ∀ d ∈ entries s.table.descriptors, table.kind d = .port → 0 ≤ (s'.ports d).id := by
    intro d hd hk
    have hlt := FileSystem.lt_of_descriptor h.owners hd
    have hne := Nat.ne_of_lt hlt
    rw [hdid.ports_of_ne hne, show (s.create fullpath).1.ports d = s.ports d from Function.update_of_ne hne ..]
    exact h.opened d hd ((FileSystem.kind_of_append hdel hlt).symm.trans hk)
  have hq' := method_quiescent hq hm
  refine ⟨hq', FileSystem.owners_inv h.owners ht, fun d hd hk => ?_⟩
  rcases hdesc with hdesc | ⟨⟨oflag, cmode, rfl⟩, h0, hdesc⟩
  · exact hold d (by rw [← hdesc]; exact hd) hk
  · rw [show entries table.descriptors = entries (s.table.descriptors ++ [some s.table.delegates.length]) by
      rw [hdesc], entries_append_some, List.mem_append, List.mem_singleton] at hd
    rcases hd with hd | rfl
    · exact hold d hd hk
    · exact hdid.opened ((FileSystem.kind_of_delegates hdel _).symm.trans hk) h0

/-- A method that leaves the table but for errno. -/
theorem ready_answered (h : Ready s) (hf : f.use ≠ .path) (hm : s.method B main call d f = some (answer, s')) :
    Ready s' := by
  obtain ⟨errno, htable⟩ := (method_did h.quiet hm).table
  have hown : s'.table.owners.Inv := by
    rw [htable]
    exact h.owners
  exact ready_method h hf hm hown (by rw [htable]; exact fun _ hd => hd) (by rw [htable])

theorem Performed.ready (hp : Performed B main call s ret t) (h : Ready s) : Ready t := by
  induction hp with
  | answered => exact h
  | path hc hm ht => exact ready_path h hc hm ht
  | descriptor hu hc hd hm => exact ready_answered h (by rw [hu]; decide) hm
  | again hd hm rest ih =>
    have hs := ready_answered h (by simp [Function.use]) hm
    exact ih ⟨hs.quiet, hs.owners, hs.opened⟩
  | @close s s' fildes d answer hd hm =>
    have hown : (s.table.close fildes answer.toInt).1.owners.Inv :=
      FileSystem.owners_inv h.owners (show s.table.call (.close fildes answer.toInt) = some _ from rfl)
    have hu : Function.close.use ≠ .path := by decide
    by_cases h0 : answer.toInt = 0
    · rw [h0, FileSystem.close_zero hd] at hown ⊢
      refine ready_method h hu hm hown (fun d' hd' => ?_) rfl
      exact ((mem_entries_set (FileSystem.nodup_descriptors h.owners)
        (FileSystem.getDelegate_some.1 hd).2).1 hd').1
    · rw [FileSystem.close_of_ne hd h0] at hown ⊢
      exact ready_method h hu hm hown (fun _ hd' => hd') rfl
  | dir hu hc hd hm => exact ready_answered h (by rw [hu]; decide) hm
  | @closedir s s' dirp d answer table ret hd hm ht =>
    have hown := FileSystem.owners_inv h.owners
      (show s.table.call (.closeDir dirp answer.toInt) = some _ from ht)
    obtain ⟨hdesc, hdel⟩ := FileSystem.closeDir_eq hd ht
    exact ready_method h (by simp [Function.use]) hm hown (by rw [hdesc]; exact fun _ hd => hd) hdel

/-- What every operation keeps. -/
theorem perform_ready {op : Op} (h : Ready s) (hp : s.perform B main call op = .returns ret t) : Ready t :=
  (perform_performed hp).ready h

end Process

/-! ## Answers -/

namespace Line

variable {β α γ : Type} {B : Backend β} {s : Store} {b : β}

/-- Whatever was done before, the rest answers 0 or an errno. -/
def Errno (m : Line β Result) : Prop := ∀ s b, wp m (fun result _ _ => 0 ≤ result.toInt) s b

theorem Errno.bind {m : Line β α} {k : α → Line β Result} (h : ∀ a, Errno (k a)) : Errno (m >>= k) := by
  intro s b
  rw [wp_bind]
  exact wp_of_forall fun a => h a

theorem errno_zero : Errno (pure (.int 0) : Line β Result) := fun _ _ => Int.le_refl 0

theorem errno_code (code : Int) : Errno (pure (.int (ppErrorToErrNo code)) : Line β Result) :=
  fun _ _ => Int.le_of_lt (ppErrorToErrNo_pos code)

variable (B)

theorem errno_open (d : Nat) (path : Str) (oflag : BitVec 32) : Errno (open_ B d path oflag) := by
  apply Errno.bind
  rintro ⟨filesystem, code⟩
  apply Errno.bind
  intro reply
  cases reply with
  | refused => exact errno_code code
  | completes answer =>
    show Errno (opening B d oflag answer.code)
    unfold opening
    split
    · exact errno_code _
    · apply Errno.bind
      intro code
      unfold opened
      split
      · exact errno_code _
      · exact Errno.bind fun _ => errno_zero

theorem errno_stat (d : Nat) (path : Str) (buf : Nat) : Errno (stat B d path buf) := by
  apply Errno.bind
  rintro ⟨filesystem, _⟩
  apply Errno.bind
  intro reply
  cases reply with
  | refused code => exact errno_code code
  | completes answer =>
    show Errno (statting B d buf answer.code)
    unfold statting
    split
    · exact Errno.bind fun _ => errno_zero
    · split
      · exact errno_code _
      · apply Errno.bind
        intro code
        unfold queried
        split
        · exact errno_code _
        · exact Errno.bind fun _ => Errno.bind fun _ => errno_zero

theorem errno_fstat (d buf : Nat) : Errno (fstat B d buf) := by
  apply Errno.bind
  intro s
  apply Errno.bind
  intro reply
  cases reply with
  | refused code => exact errno_code code
  | completes answer => exact Errno.bind fun _ => Errno.bind fun _ => Errno.bind fun _ => errno_zero

theorem errno_close (d : Nat) : Errno (close B d) := Errno.bind fun _ => Errno.bind fun _ => errno_zero

end Line

/-- The methods that answer 0 or an errno. -/
def Function.Errno : Function → Prop
  | .open_ _ _ _ | .stat _ _ | .close | .fstat _ => True
  | _ => False

namespace Process

variable {β : Type} {B : Backend β} {main : Bool} {call : Nat} {s s' t : Process β} {d : Nat} {f : Function}
  {answer : Result} {ret : Returned}

/-- A method that answers an errno answers none that is negative, but for `Close` of a device that was not
opened. -/
theorem Did.nonneg (h : Did B main s d f answer s') (hf : f.Errno)
    (hid : f = .close → s.table.kind d = .port → 0 ≤ (s.ports d).id) : 0 ≤ answer.toInt := by
  cases h with
  | main => cases f <;> first | exact hf.elim | exact (by decide : (0 : Int) ≤ eio)
  | port hk =>
    cases f with
    | open_ path oflag cmode =>
      simp only [Process.port, PortFileSystem.open_, Result.toInt]
      split_ifs
      · exact Int.le_refl 0
      · exact Int.le_refl 0
      · exact Int.le_refl 0
      · exact (by decide : (0 : Int) ≤ enodev)
    | stat path buf =>
      simp only [Process.port, PortFileSystem.stat]
      split <;> rename_i hs
      · split at hs <;> cases hs
        exact (by decide : (0 : Int) ≤ enodev)
      · split at hs <;> cases hs
        exact Int.le_refl 0
    | close =>
      have h0 := hid rfl hk
      simp only [Process.port, PortFileSystem.close, if_neg (show ¬ (s.ports d).id < 0 by omega)]
      exact Int.le_refl 0
    | fstat => exact Int.le_refl 0
    | _ => exact hf.elim
  | file hk hm hp =>
    cases f with
    | open_ path oflag cmode => exact (Line.errno_open B d path oflag _ _).apply hp
    | stat path buf => exact (Line.errno_stat B d path buf _ _).apply hp
    | close => exact (Line.errno_close B d _ _).apply hp
    | fstat buf => exact (Line.errno_fstat B d buf _ _).apply hp
    | _ => exact hf.elim

/-! ## Operations -/

theorem onPath_descriptors {path : Str} {f : Str → Function} {k : Result → Process β → FileSystem × Returned}
    (h : s.onPath B main call path f k = .returns ret t)
    (hk : ∀ answer s', (k answer s').1.descriptors = s.table.descriptors) :
    t.table.descriptors = s.table.descriptors := by
  obtain ⟨answer, s', -, -, rfl⟩ := finish_world h
  exact hk answer s'

theorem onDescriptor_descriptors (hq : Quiescent s.world) {fildes bad : Int}
    (h : s.onDescriptor B main call fildes bad f pass = .returns ret t) :
    t.table.descriptors = s.table.descriptors := by
  unfold onDescriptor at h
  split at h
  · cases h
    rfl
  · obtain ⟨answer, s', hm, -, rfl⟩ := finish_world h
    obtain ⟨errno, ht⟩ := (method_did hq hm).table
    show s'.table.descriptors = _
    rw [ht]

theorem ReadTurns.descriptors {fildes : Int} {buf nbytes : Nat}
    (h : ReadTurns B main call fildes buf nbytes s ret t) (hq : Quiescent s.world) :
    t.table.descriptors = s.table.descriptors := by
  induction h with
  | bad => rfl
  | last hd hm hv =>
    obtain ⟨errno, ht⟩ := (method_did hq hm).table
    rw [ht]
  | again hd hm hl rest ih =>
    obtain ⟨errno, ht⟩ := (method_did hq hm).table
    have hq' := method_quiescent hq hm
    rw [ih hq', ht]

theorem onDir_descriptors (hq : Quiescent s.world) {dirp : Nat} {k : Result → Process β → FileSystem × Returned}
    (h : s.onDir B main call dirp f k = .returns ret t) (hk : ∀ answer s', (k answer s').1 = s'.table) :
    t.table.descriptors = s.table.descriptors := by
  unfold onDir at h
  split at h
  · cases h
  · obtain ⟨answer, s', hm, -, rfl⟩ := finish_world h
    obtain ⟨errno, ht⟩ := (method_did hq hm).table
    show (k answer s').1.descriptors = _
    rw [hk, ht]

/-- `Open` binds a new descriptor, or answers an errno and binds none. -/
theorem perform_open (h : Ready s) {path : Str} {oflag cmode : BitVec 32}
    (hp : s.perform B main call (.open_ (some path) oflag cmode) = .returns ret t) :
    (ret.result = 0 ∧ ret.newfd = some (toInt s.table.descriptors.length) ∧
      t.table.descriptors = s.table.descriptors ++ [some s.table.delegates.length]) ∨
    (0 < ret.result ∧ ret.newfd = none ∧ t.table.descriptors = s.table.descriptors) := by
  simp only [perform, open_] at hp
  obtain ⟨answer, s', hm, rfl, rfl⟩ := finish_world hp
  have hdid := method_did (create_quiescent h.quiet _) hm
  have hnonneg := hdid.nonneg trivial fun hf => by cases hf
  by_cases h0 : answer.toInt = 0
  · left
    simp only [FileSystem.open_, if_neg (not_not_intro h0)]
    refine ⟨trivial, ?_, rfl⟩
    simp [FileSystem.bindToDescriptor, FileSystem.createDelegate, FileSystem.hand]
  · right
    simp only [FileSystem.open_, if_pos h0]
    exact ⟨by omega, trivial, rfl⟩

/-- `Close` empties the slot of a descriptor, or answers an errno and empties none. -/
theorem perform_close (h : Ready s) {fildes : Int}
    (hp : s.perform B main call (.close fildes) = .returns ret t) :
    (ret.result = 0 ∧ (∃ d, s.table.getDelegate fildes = some d) ∧
      t.table.descriptors = s.table.descriptors.set fildes.toNat none) ∨
    (0 < ret.result ∧ t.table.descriptors = s.table.descriptors) := by
  simp only [perform, close, onDescriptor] at hp
  split at hp
  · cases hp
    exact .inr ⟨by decide, rfl⟩
  · rename_i d hd
    obtain ⟨answer, s', hm, rfl, rfl⟩ := finish_world hp
    have hnonneg := (method_did h.quiet hm).nonneg trivial fun _ hk =>
      h.opened d (FileSystem.mem_of_getDelegate hd) hk
    by_cases h0 : answer.toInt = 0
    · rw [h0, FileSystem.close_zero hd]
      exact .inl ⟨rfl, ⟨d, hd⟩, rfl⟩
    · rw [FileSystem.close_of_ne hd h0]
      exact .inr ⟨by dsimp only; omega, rfl⟩

theorem perform_stat (h : Ready s) {path : Option Str} {buf : Nat}
    (hp : s.perform B main call (.stat path buf) = .returns ret t) : 0 ≤ ret.result := by
  cases path with
  | none => cases hp
  | some path =>
    simp only [perform, stat] at hp
    obtain ⟨answer, s', hm, rfl, rfl⟩ := finish_world hp
    exact (method_did (create_quiescent h.quiet _) hm).nonneg trivial fun hf => by cases hf

theorem perform_fstat (h : Ready s) {fildes : Int} {buf : Nat}
    (hp : s.perform B main call (.fstat fildes buf) = .returns ret t) : 0 ≤ ret.result := by
  simp only [perform, fstat, onDescriptor] at hp
  split at hp
  · cases hp
    exact (by decide : (0 : Int) ≤ ebadf)
  · obtain ⟨answer, s', hm, rfl, rfl⟩ := finish_world hp
    exact (method_did h.quiet hm).nonneg trivial fun hf => by cases hf

/-- `IsATty` answers 0 for a device alone. -/
theorem perform_isatty (h : Ready s) {fildes : Int}
    (hp : s.perform B main call (.isatty fildes) = .returns ret t) :
    ret.result = 0 ↔ ∃ d, s.table.getDelegate fildes = some d ∧ s.table.kind d = .port := by
  simp only [perform, isATty, onDescriptor] at hp
  split at hp
  · rename_i hd
    cases hp
    simp only [hd, reduceCtorEq, false_and, exists_false, iff_false]
    decide
  · rename_i d hd
    obtain ⟨answer, s', hm, rfl, rfl⟩ := finish_world hp
    simp only [hd, Option.some.injEq, exists_eq_left', pass]
    cases method_did h.quiet hm with
    | port hk => exact iff_of_true rfl hk
    | main hk =>
      rw [hk]
      exact iff_of_false (by decide) (by decide)
    | @file hk hmain _ w b hprog hq =>
      have ha := congrArg Prod.fst hprog
      obtain rfl : Result.int (-1) = answer := Option.some.inj ha
      rw [hk]
      exact iff_of_false (by decide) (by decide)

/-- Every other operation leaves the descriptors. -/
theorem perform_descriptors (hq : Quiescent s.world) {op : Op}
    (ho : ∀ path oflag cmode, op ≠ .open_ path oflag cmode)
    (hc : ∀ fildes, op ≠ .close fildes) (hp : s.perform B main call op = .returns ret t) :
    t.table.descriptors = s.table.descriptors := by
  cases op with
  | open_ path oflag cmode => exact absurd rfl (ho path oflag cmode)
  | close fildes => exact absurd rfl (hc fildes)
  | stat path buf =>
    cases path with
    | none => cases hp
    | some path =>
      simp only [perform, stat] at hp
      exact onPath_descriptors hp fun _ _ => rfl
  | mkdir path mode =>
    cases path with
    | none =>
      cases hp
      rfl
    | some path =>
      simp only [perform, mkDir] at hp
      exact onPath_descriptors hp fun _ _ => rfl
  | opendir dirname =>
    cases dirname with
    | none =>
      cases hp
      rfl
    | some dirname =>
      simp only [perform, openDir] at hp
      refine onPath_descriptors hp fun answer _ => ?_
      simp only [FileSystem.openDir]
      split <;> rfl
  | chdir path buf =>
    cases path with
    | none => cases hp
    | some path =>
      simp only [perform, chDir] at hp
      refine onPath_descriptors hp fun answer s' => ?_
      simp only [FileSystem.chDir]
      split
      · rfl
      · split <;> rfl
  | read fildes buf nbytes => exact (read_turns hp).descriptors hq
  | fstat | write | seek | isatty | fcntl => exact onDescriptor_descriptors hq hp
  | rewinddir | readdir => exact onDir_descriptors hq hp fun _ _ => rfl
  | closedir dirp =>
    simp only [perform, closeDir, onDir] at hp
    split at hp
    · cases hp
    · rename_i d hd
      obtain ⟨answer, s', hm, -, rfl⟩ := finish_world hp
      cases ht : s.table.closeDir dirp answer.toInt with
      | none =>
        simp only [FileSystem.closeDir, hd] at ht
        split at ht <;> cases ht
      | some x => exact (FileSystem.closeDir_eq hd ht).1

end Process

/-! ## Calls -/

namespace Wrap

variable {β : Type} {B : Backend β} {main : Bool} {call : Nat} {c : Call} {s t : Process β} {out : Output}

/-- What the calls that return an errno promise of the descriptors: `open` binds a new one and `close` frees
one, each when it returns 0; otherwise, and in every other call, all of them stay. `isatty` tells a
device. -/
def Call.Keeps (c : Call) (out : Output) (fs fs' : FileSystem) : Prop :=
  match c with
  | .open_ _ _ _ =>
    (out.result = 0 ∧ out.stored = some (toInt fs.descriptors.length) ∧
      ∃ d, d ∉ entries fs.descriptors ∧ fs'.descriptors = fs.descriptors ++ [some d]) ∨
    (0 < out.result ∧ out.stored = none ∧ fs'.descriptors = fs.descriptors)
  | .close fildes =>
    (out.result = 0 ∧ (∃ d, fs.getDelegate fildes = some d) ∧
      fs'.descriptors = fs.descriptors.set fildes.toNat none) ∨
    (0 < out.result ∧ fs'.descriptors = fs.descriptors)
  | .stat _ _ | .fstat _ _ => 0 ≤ out.result ∧ fs'.descriptors = fs.descriptors
  | .isatty fildes =>
    ((out.result = 1 ∧ ∃ d, fs.getDelegate fildes = some d ∧ fs.kind d = .port) ∨
      (out.result = 0 ∧ ∀ d, fs.getDelegate fildes = some d → fs.kind d = .html5)) ∧
    fs'.descriptors = fs.descriptors
  | _ => fs'.descriptors = fs.descriptors

/-- A call that is turned away keeps them. -/
theorem turned_keeps (h : c.op = none) (s : Process β) :
    c.Keeps (c.turned s).1 s.table (c.turned s).2.table := by
  cases c with
  | open_ path =>
    cases path with
    | none => exact .inr ⟨(by decide : 0 < efault), rfl, rfl⟩
    | some path => exact .inr ⟨(by decide : 0 < enoent), rfl, rfl⟩
  | stat path buf =>
    cases path with
    | none => exact ⟨(by decide : 0 ≤ efault), rfl⟩
    | some path =>
      cases buf with
      | none => exact ⟨(by decide : 0 ≤ efault), rfl⟩
      | some buf => exact ⟨(by decide : 0 ≤ enoent), rfl⟩
  | fstat => exact ⟨(by decide : 0 ≤ efault), rfl⟩
  | getcwd | getwd =>
    simp only [Call.Keeps, Call.turned, FileSystem.getCwd]
    split_ifs <;> rfl
  | dup | dup2 | readdirR | telldir | seekdir => rfl
  | _ => cases h

theorem after_returns {ends : NaClFs.Ends β} {k : Returned → Process β → Output × Process β}
    (h : after ends k = .returns out t) :
    ∃ ret u, ends = .returns ret u ∧ out = (k ret u).1 ∧ t = (k ret u).2 := by
  cases ends with
  | returns ret u =>
    cases h
    exact ⟨ret, u, rfl, rfl, rfl⟩
  | waits | faults => cases h

/-- What a function makes of an answer leaves all but errno. -/
theorem answer_eq (c : Call) (ret : Returned) (t : Process β) :
    ∃ errno, (c.answer ret t).2 = t.setErrno errno :=
  (answer_setErrno c ret t t.table.errno).2

theorem turned_eq (h : c.op = none) (t : Process β) : ∃ errno, (c.turned t).2 = t.setErrno errno :=
  (turned_setErrno h t t.table.errno).2

theorem perform_ready (hi : s.Ready) (h : perform B main call s c = .returns out t) : t.Ready := by
  cases hop : c.op with
  | none =>
    rw [perform_of_none hop] at h
    cases h
    obtain ⟨errno, he⟩ := turned_eq hop s
    rw [he]
    exact hi.setErrno errno
  | some op =>
    rw [perform_of_some hop] at h
    obtain ⟨ret, u, hp, -, rfl⟩ := after_returns h
    obtain ⟨errno, he⟩ := answer_eq c ret u
    rw [he]
    exact (Process.perform_ready hi hp).setErrno errno

/-- One call. -/
theorem perform_keeps (hi : s.Ready) (h : perform B main call s c = .returns out t) :
    c.Keeps out s.table t.table := by
  cases hop : c.op with
  | none =>
    rw [perform_of_none hop] at h
    cases h
    exact turned_keeps hop s
  | some op =>
    rw [perform_of_some hop] at h
    obtain ⟨ret, u, hp, rfl, rfl⟩ := after_returns h
    have hdesc (ho : ∀ path oflag cmode, op ≠ .open_ path oflag cmode) (hc : ∀ fildes, op ≠ .close fildes) :
        (c.answer ret u).2.table.descriptors = s.table.descriptors := by
      obtain ⟨errno, he⟩ := answer_eq c ret u
      rw [he]
      show u.table.descriptors = _
      exact Process.perform_descriptors hi.quiet ho hc hp
    cases Call.passes hop with
    | open_ hpath oflag cmode =>
      rcases Process.perform_open hi hp with ⟨h0, hfd, ht⟩ | hfail
      · refine .inl ⟨h0, hfd, s.table.delegates.length, ?_, ht⟩
        intro hd
        exact absurd (FileSystem.lt_of_descriptor hi.owners hd) (Nat.lt_irrefl _)
      · exact .inr hfail
    | close fildes => exact Process.perform_close hi hp
    | stat hpath buf => exact ⟨Process.perform_stat hi hp, hdesc (by simp) (by simp)⟩
    | fstat fd buf => exact ⟨Process.perform_fstat hi hp, hdesc (by simp) (by simp)⟩
    | isatty fildes =>
      refine ⟨?_, hdesc (by simp) (by simp)⟩
      have htty := Process.perform_isatty hi hp
      by_cases h0 : ret.result = 0
      · left
        refine ⟨?_, htty.1 h0⟩
        simp only [Call.answer, ttyAnswer, if_neg (not_not_intro h0)]
      · right
        refine ⟨?_, fun d hd => ?_⟩
        · simp only [Call.answer, ttyAnswer, if_pos h0]
        · cases hk : s.table.kind d with
          | html5 => rfl
          | port => exact absurd (htty.2 ⟨d, hd, hk⟩) h0
    | _ => exact hdesc (by simp) (by simp)

/-! ## Programs -/

/-- A call keeps its promise, and a message touches no descriptor. -/
inductive Keeps : System β → Act → Option Output → System β → Prop
  | call {s t : System β} {main : Bool} {call : Nat} {c : Call} {out : Output}
      (h : c.Keeps out s.process.table t.process.table) : Keeps s (.call main call c) (some out) t
  | message {s t : System β} {message : Var} (h : t.process.table = s.process.table) :
      Keeps s (.message message) none t

theorem step_keeps {s t : System β} {a : Act} {o : Option Output} (hi : s.process.Ready)
    (h : step B s a = some (t, o)) : t.process.Ready ∧ Keeps s a o t := by
  cases a with
  | message message =>
    cases h
    exact ⟨⟨hi.quiet, hi.owners, hi.opened⟩, .message rfl⟩
  | call main call c =>
    simp only [step] at h
    split at h
    · rename_i out process hp
      cases h
      exact ⟨perform_ready hi hp, .call (perform_keeps hi hp)⟩
    · cases h

theorem init_ready (type : FileSystemType) (info : Nat → FileInfo) (arguments : Nat → Arguments)
    (stats : Nat → Stat) (buffers : Nat → Str) (b : β) :
    (System.init type info arguments stats buffers b).process.Ready := by
  refine ⟨init_quiescent type info arguments stats buffers, FileSystem.init_inv, ?_⟩
  intro d hd
  cases hd

/-- In every run of a program over any backend, each call keeps its promise: `open` answers 0 and binds a
new descriptor to a delegate that no other has, or answers a positive errno; `close` answers 0 and frees
its descriptor, or answers a positive errno; `stat` and `fstat` never answer a negative number; `isatty`
answers 1 for the descriptors of devices alone; and no descriptor changes otherwise. -/
theorem run_keeps (B : Backend β) (type : FileSystemType) (info : Nat → FileInfo) (arguments : Nat → Arguments)
    (stats : Nat → Stat) (buffers : Nat → Str) (b : β) (as : List Act) (s : System β)
    (os : List (Option Output))
    (h : Stream.run (step B) (.init type info arguments stats buffers b) as = some (s, os)) :
    Stream.Steps Keeps (System.init type info arguments stats buffers b) as os s := by
  have hstep (s : System β) (a : Act) (t : System β) (o : Option Output) (hi : s.process.Ready)
      (hs : step B s a = some (t, o)) : t.process.Ready ∧ Keeps (id s) (id a) o (id t) := step_keeps hi hs
  obtain ⟨-, hsteps⟩ := Stream.run_steps hstep (init_ready type info arguments stats buffers b) h
  rw [List.map_id] at hsteps
  exact hsteps

/-- /dev/stdout is opened twice, and one of the descriptors is closed twice. -/
def closeTwice : List Act :=
  [.call false 0 (.open_ (some (str "/dev/stdout")) oWrOnly 0),
    .call false 1 (.open_ (some (str "/dev/stdout")) oWrOnly 0), .call true 2 (.isatty 1),
    .call false 3 (.close 0), .call false 4 (.close 0)]

theorem run_keeps_closeTwice :
    ∃ s os, Stream.run (step Process.refusing) ⟨Process.blank (), []⟩ closeTwice = some (s, os) ∧
      os.map (·.map Output.result) = [some 0, some 0, some 1, some 0, some ebadf] ∧
      Stream.Steps Keeps ⟨Process.blank (), []⟩ closeTwice os s := by
  have hs : (Stream.run (step Process.refusing) ⟨Process.blank (), []⟩ closeTwice).map
      (fun x => x.2.map (·.map Output.result)) = some [some 0, some 0, some 1, some 0, some ebadf] := by
    decide +kernel
  obtain ⟨⟨s, os⟩, h, hos⟩ := Option.map_eq_some_iff.1 hs
  exact ⟨s, os, h, hos, run_keeps Process.refusing .localTemporary _ _ _ _ () closeTwice s os h⟩

end Wrap

end NaClFs
