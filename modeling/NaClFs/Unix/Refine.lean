/-
The system over a disk refines the machine: seen through the table, the delegates, the DIRs and the disk,
each operation that returns is one step of it. What the machine has between operations is a function of
what the process has; the invariant says that it has it.
-/
import NaClFs.FileSystem.System
import NaClFs.FileSystem.Resources
import NaClFs.Unix.Files

namespace NaClFs

open Slots

namespace Unix

variable {β : Type} {B : Backend β} (disk : Disk B)

/-! ## The machine of a process -/

/-- What a delegate is open on. -/
def describe (s : Process β) (d : Nat) : Description :=
  match s.table.kind d with
  | .port => .device (s.ports d)
  | .html5 =>
    .of (((s.world.store.files d).fileIo.bind (disk.handle s.backend)).getD ⟨[], 0⟩) (s.world.store.files d)

def machine (posted : List Str) (s : Process β) : Machine where
  files := disk.files s.backend
  cwd := s.table.cwd
  descriptors := s.table.descriptors.map (Option.map (describe disk s))
  dirs := s.world.store.dirs.map (Option.map Cursor.of)
  input := s.buffer
  posted := posted
  buffers := s.world.store.buffers
  stats := s.world.store.stats

/-- The DIRs of the table are those of the HTML5 delegates. -/
structure DirsSound (table : FileSystem) (dirs : List (Option Listing)) : Prop where
  aligned : table.dirs.map Option.isSome = dirs.map Option.isSome
  kind : ∀ d ∈ entries table.dirs, table.kind d = .html5
  unread : ∀ dir, some dir ∈ dirs → Listing.Unread dir

/-- Between operations: each descriptor of a file has a handle on a file there is. -/
structure Sound (s : Process β) : Prop where
  quiet : Quiescent s.world
  owners : s.table.owners.Inv
  opened : ∀ d ∈ entries s.table.descriptors, s.table.kind d = .html5 → ∃ r h content,
    OpenOnFile disk s.world.store s.backend d r h content ∧ r < s.world.store.resources
  dirs : DirsSound s.table s.world.store.dirs

variable {disk} {main : Bool} {call : Nat} {posted : List Str} {s s' t : Process β} {d : Nat} {f : Function}
  {answer : Result} {ret : Returned} {fildes : Int}

theorem Sound.dir_lt (h : Sound disk s) (hd : d ∈ entries s.table.dirs) : d < s.table.delegates.length :=
  (h.owners.mem d).1 (List.mem_append_left _ (List.mem_append_right _ hd))

theorem describe_port (hk : s.table.kind d = .port) : describe disk s d = .device (s.ports d) := by
  simp only [describe, hk]

theorem describe_file (hk : s.table.kind d = .html5) {r : Nat} {h : Handle} {content : Str}
    (ho : OpenOnFile disk s.world.store s.backend d r h content) :
    describe disk s d = .of h (s.world.store.files d) := by
  simp only [describe, hk, ho.fileIo, Option.bind_some, ho.handle, Option.getD_some]

theorem machine_descriptor (fildes : Int) :
    (machine disk posted s).descriptor fildes = (s.table.getDelegate fildes).map (describe disk s) := by
  unfold Machine.descriptor FileSystem.getDelegate machine
  by_cases h0 : fildes < 0
  · rw [if_pos h0, if_pos (.inl h0)]
    rfl
  · rw [if_neg h0]
    dsimp only
    rw [List.getElem?_map]
    by_cases hl : s.table.descriptors.length ≤ fildes.toNat
    · rw [if_pos (.inr hl), List.getElem?_eq_none hl]
      rfl
    · rw [if_neg (not_or.2 ⟨h0, hl⟩)]
      cases s.table.descriptors[fildes.toNat]? with
      | none => rfl
      | some o => cases o <;> rfl

/-! ## What an operation does not touch -/

/-- What a delegate is open on stays. -/
structure Carried (disk : Disk B) (s t : Process β) (d : Nat) : Prop where
  kind : t.table.kind d = s.table.kind d
  port : t.ports d = s.ports d
  file : t.world.store.files d = s.world.store.files d
  handle : ∀ r < s.world.store.resources, disk.handle t.backend r = disk.handle s.backend r

/-- A file that is open stays open, if nothing is removed. -/
theorem OpenOnFile.kept {s s' : Store} {b b' : β} {d d' r : Nat} {h : Handle} {content : Str}
    (ho : OpenOnFile disk s b d r h content) (hr : r < s.resources) (hk : Kept disk d' s b s' b')
    (hio : (s'.files d).fileIo = (s.files d).fileIo) :
    ∃ content', OpenOnFile disk s' b' d r h content' ∧ r < s'.resources := by
  have hsome := hk.files h.path (by rw [ho.file]; rfl)
  obtain ⟨content', hc⟩ := Option.isSome_iff_exists.1 hsome
  refine ⟨content', ⟨hio.trans ho.fileIo, ?_, hc⟩, Nat.lt_of_lt_of_le hr hk.resources⟩
  rw [hk.handle r hr, ho.handle]

theorem Carried.describe (h : Sound disk s) (hc : Carried disk s t d) (hd : d ∈ entries s.table.descriptors) :
    describe disk t d = describe disk s d := by
  cases hk : s.table.kind d with
  | port => rw [describe_port hk, describe_port (hc.kind.trans hk), hc.port]
  | html5 =>
    obtain ⟨r, h', content, ho, hr⟩ := h.opened d hd hk
    rw [describe_file hk ho]
    simp only [Unix.describe, hc.kind, hk, hc.file, ho.fileIo, Option.bind_some, hc.handle r hr, ho.handle,
      Option.getD_some]

/-! ## Through a descriptor -/

/-- An operation that leaves the delegates, the DIRs and the disk. -/
theorem Sound.congr (h : Sound disk s) (hq : Quiescent t.world) {errno : Int}
    (ht : t.table = { s.table with errno := errno }) (hf : t.world.store.files = s.world.store.files)
    (hr : t.world.store.resources = s.world.store.resources) (hd : t.world.store.dirs = s.world.store.dirs)
    (hb : t.backend = s.backend) : Sound disk t := by
  refine ⟨hq, ?_, ?_, ?_⟩
  · rw [ht]
    exact h.owners
  · rw [ht, hr, hb]
    intro d hd hk
    obtain ⟨r, h', content, ho, hlt⟩ := h.opened d hd hk
    exact ⟨r, h', content, ⟨by rw [hf]; exact ho.fileIo, ho.handle, ho.file⟩, hlt⟩
  · rw [ht, hd]
    exact ⟨h.dirs.aligned, h.dirs.kind, h.dirs.unread⟩

theorem Sound.opened_kept (h : Sound disk s) {w : World} {b : β}
    (hk : Kept disk d s.world.store s.backend w.store b)
    (hio : d ∈ entries s.table.descriptors → (w.store.files d).fileIo = (s.world.store.files d).fileIo) :
    ∀ d' ∈ entries s.table.descriptors, s.table.kind d' = .html5 → ∃ r h content,
      OpenOnFile disk w.store b d' r h content ∧ r < w.store.resources := by
  intro d' hd' hk'
  obtain ⟨r, h', content, ho, hr⟩ := h.opened d' hd' hk'
  have hsame : (w.store.files d').fileIo = (s.world.store.files d').fileIo := by
    by_cases he : d' = d
    · subst he
      exact hio hd'
    · rw [hk.others d' he]
  obtain ⟨content', ho', hr'⟩ := ho.kept hr hk hsame
  exact ⟨r, h', content', ho', hr'⟩

/-- A program that leaves the DIRs. -/
theorem Sound.of_kept (h : Sound disk s) {w : World} {b : β} (hq : Quiescent w)
    (hk : Kept disk d s.world.store s.backend w.store b)
    (hio : d ∈ entries s.table.descriptors → (w.store.files d).fileIo = (s.world.store.files d).fileIo)
    (hd : w.store.dirs = s.world.store.dirs) : Sound disk { s with world := w, backend := b } := by
  refine ⟨hq, h.owners, h.opened_kept hk hio, ?_⟩
  dsimp only
  rw [hd]
  exact h.dirs

/-- What a method through a descriptor does. -/
structure Simulated (disk : Disk B) (main : Bool) (posted : List Str) (s : Process β) (d : Nat) (f : Function)
    (answer : Result) (s' : Process β) : Prop where
  sound : Sound disk s'
  descriptors : s'.table.descriptors = s.table.descriptors
  others : ∀ d', d' ≠ d → Carried disk s s' d'
  acts : Acts main (machine disk posted s) (describe disk s d) f answer.toInt (describe disk s' d)
    { machine disk (posted ++ s.posted d f) s' with descriptors := (machine disk posted s).descriptors }

theorem posted_file (hk : s.table.kind d = .html5) : s.posted d f = [] := by
  cases f <;> simp [Process.posted, hk]

theorem port_simulated (h : Sound disk s) (hk : s.table.kind d = .port) (hu : f.use = .descriptor)
    (hc : f = .close → (s.port d f).1.toInt ≠ 0) :
    Simulated disk main posted s d f (s.port d f).1 (s.port d f).2 := by
  have hdid : Process.Did B main s d f (s.port d f).1 (s.port d f).2 := .port hk
  obtain ⟨errno, ht⟩ := hdid.table
  obtain ⟨stats, buffers, hs, hb⟩ := Process.port_store s d f
  have hq : Quiescent (s.port d f).2.world := by
    intro d'
    rw [Process.port_delegates]
    exact h.quiet d'
  have hports : ∀ d', d' ≠ d → (s.port d f).2.ports d' = s.ports d' := by
    intro d' hd
    cases f with
    | fcntl cmd ap => exact Function.update_of_ne hd ..
    | open_ => cases hu
    | stat => cases hu
    | _ => rfl
  have hk' : (s.port d f).2.table.kind d = .port := by
    rw [ht]
    exact hk
  refine ⟨h.congr hq ht (by rw [hs]) (by rw [hs]) (by rw [hs]) hb, by rw [ht], fun d' hd => ?_, ?_⟩
  · exact ⟨by rw [ht]; rfl, hports d' hd, by rw [hs], fun r _ => by rw [hb]⟩
  · rw [describe_port hk, describe_port hk']
    cases f with
    | close =>
      rw [show s.posted d .close = [] from rfl, List.append_nil]
      exact .deviceClose (hc rfl)
    | fstat buf =>
      rw [show s.posted d (.fstat buf) = [] from rfl, List.append_nil]
      exact .deviceFstat buf
    | read buf nbytes =>
      rw [show s.posted d (.read buf nbytes) = [] from rfl, List.append_nil]
      exact .deviceRead buf nbytes
    | write buf =>
      rw [show s.posted d (.write buf) = ((s.ports d).write buf).2.toList by simp only [Process.posted, hk]]
      exact .deviceWrite buf
    | seek offset whence =>
      rw [show s.posted d (.seek offset whence) = [] from rfl, List.append_nil]
      exact .deviceSeek offset whence
    | isatty =>
      rw [show s.posted d .isatty = [] from rfl, List.append_nil]
      exact .deviceIsATty
    | fcntl cmd ap =>
      rw [show s.posted d (.fcntl cmd ap) = [] from rfl, List.append_nil]
      have hport : (s.port d (.fcntl cmd ap)).2.ports d =
          ((s.ports d).fcntl cmd (BitVec.ofInt 32 ap)).1 := Function.update_self ..
      rw [hport]
      exact .deviceFcntl cmd ap
    | _ => cases hu

theorem did_simulated (posted : List Str) (h : Sound disk s) (hd : d ∈ entries s.table.descriptors)
    (hu : f.use = .descriptor) (hc : f = .close → answer.toInt ≠ 0) (hdid : Process.Did B main s d f answer s') :
    Simulated disk main posted s d f answer s' := by
  cases hdid with
  | port hk => exact port_simulated h hk hu hc
  | main hk hm =>
    refine ⟨h, rfl, fun d' _ => ⟨rfl, rfl, rfl, fun _ _ => rfl⟩, ?_⟩
    obtain ⟨r, h', content, ho, hr⟩ := h.opened d hd hk
    rw [posted_file hk, List.append_nil, describe_file hk ho]
    exact .main f hm
  | @file hk hm _ w b hp hq =>
    obtain ⟨r, h', content, ho, hr⟩ := h.opened d hd hk
    have hne : f ≠ .close := by
      -- A worker's `Close` of a file returns 0.
      rintro rfl
      have : answer = .int 0 := by
        have := (Option.some.inj (congrArg Prod.fst hp))
        exact this.symm
      exact hc rfl (by rw [this]; rfl)
    have hacted := (program_acts (machine disk posted s) ho hu hne).apply hp
    have hsound := h.of_kept hq hacted.kept (fun _ => hacted.fileIo) hacted.dirs
    obtain ⟨content', ho', -⟩ := ho.kept hr hacted.kept hacted.fileIo
    refine ⟨hsound, rfl, fun d' hd' => ⟨rfl, rfl, ?_, hacted.kept.handle⟩, ?_⟩
    · exact hacted.kept.others d' hd'
    · have hacts := hacted.acts
      have hdesc : describe disk { s with world := w, backend := b } d = .of h' (w.store.files d) :=
        describe_file (s := { s with world := w, backend := b }) hk ho'
      rw [posted_file hk, List.append_nil, describe_file hk ho, hdesc, hm]
      have hm' : { machine disk posted { s with world := w, backend := b } with
          descriptors := (machine disk posted s).descriptors } =
            (machine disk posted s).over disk w.store b := by
        simp only [machine, Machine.over, hacted.dirs]
      rw [hm']
      exact hacts

theorem posts_eq {op : Process.Op} {fildes bad : Int} (ho : throughDescriptor op = some (fildes, bad, f)) :
    s.posts op = ((s.table.getDelegate fildes).map (s.posted · f)).getD [] := by
  cases op with
  | write fildes' buf =>
    cases ho
    rfl
  | close | fstat | read | seek | isatty | fcntl =>
    cases ho
    cases s.table.getDelegate fildes <;> rfl
  | _ => cases ho

theorem machine_descriptor_of (hg : s.table.getDelegate fildes = some d) :
    (machine disk posted s).descriptor fildes = some (describe disk s d) := by
  rw [machine_descriptor, hg]
  rfl

/-- What the descriptor is open on now is bound to it. -/
theorem Simulated.set (h : Sound disk s) (hg : s.table.getDelegate fildes = some d)
    (hs : Simulated disk main posted s d f answer s') :
    ({ machine disk (posted ++ s.posted d f) s' with
        descriptors := (machine disk posted s).descriptors } : Machine).setDescriptor fildes
      (some (describe disk s' d)) = machine disk (posted ++ s.posted d f) s' := by
  have hmap := map_set (FileSystem.nodup_descriptors h.owners)
    (FileSystem.getDelegate_some.1 hg).2 fun d' hd hne =>
    (hs.others d' hne).describe h hd
  simp only [Machine.setDescriptor, machine, hs.descriptors, hmap]

/-- A method through a descriptor is a step. -/
theorem Simulated.step (h : Sound disk s) {op : Process.Op} {bad : Int}
    (ho : throughDescriptor op = some (fildes, bad, f)) (hg : s.table.getDelegate fildes = some d)
    (hw : ∀ buf nbytes, f = .read buf nbytes → answer.toInt ≠ -2)
    (hs : Simulated disk main posted s d f answer s') :
    Step main (machine disk posted s) op { result := answer.toInt }
      (machine disk (posted ++ s.posts op) s') := by
  have hstep := Step.descriptor ho (machine_descriptor_of hg) hs.acts hw
  have hposts : s.posts op = s.posted d f := by
    rw [posts_eq ho, hg]
    rfl
  rw [hs.set h hg, ← hposts] at hstep
  exact hstep

theorem onDescriptor_simulated (h : Sound disk s) {op : Process.Op} {bad : Int}
    (ho : throughDescriptor op = some (fildes, bad, f)) (hu : f.use = .descriptor) (hc : f ≠ .close)
    (hw : ∀ buf nbytes, f ≠ .read buf nbytes)
    (hr : s.onDescriptor B main call fildes bad f Process.pass = .returns ret t) :
    Sound disk t ∧ Step main (machine disk posted s) op ret (machine disk (posted ++ s.posts op) t) := by
  unfold Process.onDescriptor at hr
  split at hr
  · rename_i hg
    cases hr
    refine ⟨h, ?_⟩
    rw [posts_eq ho, hg, Option.map_none, Option.getD_none, List.append_nil]
    exact .badDescriptor ho (by rw [machine_descriptor, hg]; rfl)
  · rename_i d hg
    obtain ⟨answer, s', hm, rfl, rfl⟩ := Process.finish_world hr
    have hs := did_simulated posted h (FileSystem.mem_of_getDelegate hg) hu (fun he => absurd he hc)
      (Process.method_did h.quiet hm)
    exact ⟨hs.sound, hs.step h ho hg fun buf nbytes he => absurd he (hw buf nbytes)⟩

/-! ## Reads -/

/-- A read that answers -2 leaves what it is called on. -/
theorem Acts.retried {m m' : Machine} {x x' : Description} {buf nbytes : Nat}
    (h : Acts main m x (.read buf nbytes) (-2) x' m') : x' = x := by
  generalize hv : (-2 : Int) = value at h
  cases h with
  | read => omega
  | _ => rfl

theorem read_did (posted : List Str) (h : Sound disk s) {buf nbytes : Nat}
    (hg : s.table.getDelegate fildes = some d)
    (hm : s.method B main call d (.read buf nbytes) = some (answer, s')) :
    Simulated disk main posted s d (.read buf nbytes) answer s' :=
  did_simulated posted h (FileSystem.mem_of_getDelegate hg) rfl (fun he => by cases he)
    (Process.method_did h.quiet hm)

/-- A turn that ends in the lock leaves the machine to the next one. -/
theorem turn_simulated (posted : List Str) (h : Sound disk s) {buf nbytes : Nat}
    (hg : s.table.getDelegate fildes = some d)
    (hm : s.method B main call d (.read buf nbytes) = some (.int (-2), s')) :
    Sound disk { s' with locked := true } ∧
      ({ s' with locked := true } : Process β).table.getDelegate fildes = some d ∧
      describe disk { s' with locked := true } d = describe disk s d ∧
      Acts main (machine disk posted s) (describe disk s d) (.read buf nbytes) (-2) (describe disk s d)
        (machine disk posted { s' with locked := true }) := by
  have hs := read_did posted h hg hm
  have hsame : describe disk s' d = describe disk s d := hs.acts.retried
  have hdesc : (machine disk posted s').descriptors = (machine disk posted s).descriptors := by
    simp only [machine, hs.descriptors]
    apply Slots.map_congr
    intro d' hd
    by_cases he : d' = d
    · rw [he, hsame]
    · exact (hs.others d' he).describe h hd
  have hnone : s.posted d (.read buf nbytes) = [] := rfl
  have hacts := hs.acts
  rw [hsame, hnone, List.append_nil, ← hdesc] at hacts
  refine ⟨⟨hs.sound.quiet, hs.sound.owners, hs.sound.opened, hs.sound.dirs⟩, ?_, hsame, hacts⟩
  show s'.table.getDelegate fildes = some d
  rw [FileSystem.getDelegate, hs.descriptors]
  exact hg

theorem read_simulated (h : Sound disk s) {buf nbytes : Nat}
    (hr : s.read B main call fildes buf nbytes = .returns ret t) :
    Sound disk t ∧ Step main (machine disk posted s) (.read fildes buf nbytes) ret (machine disk posted t) := by
  have hposted (u : Process β) (d : Nat) : posted ++ u.posted d (.read buf nbytes) = posted := List.append_nil _
  cases Process.read_turns hr with
  | bad hg => exact ⟨h, .badDescriptor rfl (by rw [machine_descriptor, hg]; rfl)⟩
  | last hg hm hv =>
    have hs := read_did posted h hg hm
    have hset := hs.set h hg
    have hacts := hs.acts
    rw [hposted] at hset hacts
    refine ⟨hs.sound, ?_⟩
    rw [← hset]
    exact .descriptor rfl (machine_descriptor_of hg) hacts fun _ _ _ => hv
  | @again _ s' _ d _ hg hm hl rest =>
    obtain ⟨hu, hg', hdesc, hfirst⟩ := turn_simulated posted h hg hm
    cases rest with
    | bad hnone =>
      rw [hg'] at hnone
      cases hnone
    | last hd hm' hv =>
      rw [hg'] at hd
      cases hd
      have hs := read_did posted hu hg' hm'
      have hset := hs.set hu hg'
      have hacts := hs.acts
      rw [hposted] at hset hacts
      rw [hdesc] at hacts
      refine ⟨hs.sound, ?_⟩
      rw [← hset]
      exact .readAgain (machine_descriptor_of hg) hfirst hacts hv
    | again hd hm' hl' _ =>
      -- The first turn left `mutex_` locked.
      have hlocked := Process.method_locked hm'
      rw [hl'] at hlocked
      cases hlocked

/-! ## Closing -/

theorem close_kept (disk : Disk B) (d : Nat) (s : Store) (b : β) :
    Line.wp (Line.close B d) (fun _ s' b' => OnDir disk d s b s' b' ∧ s'.dirs = s.dirs) s b := by
  unfold Line.close
  rw [Line.wp_bind, Line.wp_get, Line.wp_bind, Line.wp_ask, Line.wp_pure]
  refine ⟨⟨.of_same rfl (fun _ _ => rfl) (Nat.le_refl _), rfl, disk.files_same b _ rfl, rfl, rfl⟩, rfl⟩

/-- A machine whose descriptors are open on the same. -/
theorem machine_of_carried (posted : List Str) (h : Sound disk s)
    (hc : ∀ d ∈ entries s.table.descriptors, Carried disk s t d)
    (hd : t.world.store.dirs = s.world.store.dirs) (hb : t.buffer = s.buffer) :
    machine disk posted t = { (machine disk posted s).over disk t.world.store t.backend with
      cwd := t.table.cwd, descriptors := t.table.descriptors.map (Option.map (describe disk t)) } ∧
    s.table.descriptors.map (Option.map (describe disk t)) = (machine disk posted s).descriptors := by
  constructor
  · simp only [machine, Machine.over, hd, hb]
  · exact map_congr fun d hd => (hc d hd).describe h hd

/-- The descriptor is gone, and the others are as they were. -/
theorem closed_simulated (h : Sound disk s) {fildes : Int} (hg : s.table.getDelegate fildes = some d)
    (hcl : (describe disk s d).closes main) (hs : Sound disk s') (ht : s'.table = s.table)
    (hc : ∀ d, Carried disk s s' d) (hd : s'.world.store.dirs = s.world.store.dirs)
    (hb : s'.buffer = s.buffer)
    (hm : (machine disk posted s).over disk s'.world.store s'.backend = machine disk posted s) :
    Sound disk { s' with table := (s.table.close fildes 0).1 } ∧
      Step main (machine disk posted s) (.close fildes) { result := 0 }
        (machine disk posted { s' with table := (s.table.close fildes 0).1 }) := by
  have hcall : s.table.call (.close fildes 0) = some (s.table.close fildes 0) := rfl
  have hown : (s.table.close fildes 0).1.owners.Inv :=
    FileSystem.effect_inv h.owners (FileSystem.call_effect hcall)
  rw [FileSystem.close_zero hg] at hown ⊢
  dsimp only at hown ⊢
  refine ⟨⟨hs.quiet, hown, fun d' hd' hk => ?_, ?_⟩, ?_⟩
  · have hmem := ((mem_entries_set (FileSystem.nodup_descriptors h.owners)
      (FileSystem.getDelegate_some.1 hg).2).1 hd').1
    rw [← ht] at hmem
    exact hs.opened d' hmem (by rw [ht]; exact hk)
  · rw [hd]
    exact ⟨h.dirs.aligned, h.dirs.kind, h.dirs.unread⟩
  · have hx : (machine disk posted s).descriptor fildes = some (describe disk s d) := by
      rw [machine_descriptor, hg]
      rfl
    have hstep := Step.close hx hcl
    obtain ⟨heq, hdesc⟩ := machine_of_carried posted h (t := { s' with
      table := { s.table.delete d with descriptors := s.table.descriptors.set fildes.toNat none } })
      (fun d' _ => ⟨rfl, (hc d').port, (hc d').file, (hc d').handle⟩) hd hb
    rw [heq]
    dsimp only at hdesc ⊢
    rw [hm, List.map_set, Option.map_none, hdesc]
    exact hstep

theorem close_simulated (h : Sound disk s) {fildes : Int}
    (hr : s.close B main call fildes = .returns ret t) :
    Sound disk t ∧ Step main (machine disk posted s) (.close fildes) ret
      (machine disk (posted ++ s.posts (.close fildes)) t) := by
  rw [show s.posts (.close fildes) = [] from rfl, List.append_nil]
  unfold Process.close Process.onDescriptor at hr
  split at hr
  · rename_i hg
    cases hr
    exact ⟨h, .badDescriptor rfl (by rw [machine_descriptor, hg]; rfl)⟩
  rename_i d hg
  obtain ⟨answer, s', hm, rfl, rfl⟩ := Process.finish_world hr
  have hdid := Process.method_did h.quiet hm
  dsimp only
  by_cases ha : answer.toInt = 0
  · rw [ha, show (s.table.close fildes 0).2 = { result := 0 } by rw [FileSystem.close_zero hg]]
    cases hdid with
    | port hk =>
      refine closed_simulated h hg ?_ h rfl (fun _ => ⟨rfl, rfl, rfl, fun _ _ => rfl⟩) rfl rfl rfl
      rw [describe_port hk]
      exact ha
    | main => exact absurd ha (by decide)
    | @file hk hmain _ w b hp hq =>
      obtain ⟨hon, hdirs⟩ := (close_kept disk d s.world.store s.backend).apply hp
      have hsound := h.of_kept hq hon.kept (fun _ => by rw [hon.files]) hdirs
      refine closed_simulated h hg ?_ hsound rfl (fun d' => ⟨rfl, rfl, ?_, hon.kept.handle⟩) hdirs rfl ?_
      · obtain ⟨r, h', content, ho, -⟩ := h.opened d (FileSystem.mem_of_getDelegate hg) hk
        rw [describe_file hk ho]
        exact hmain
      · exact congrFun hon.files d'
      · simp only [Machine.over, machine, hon.same, hon.stats, hon.buffers]
  · have hs := did_simulated posted h (FileSystem.mem_of_getDelegate hg) rfl (fun _ => ha) hdid
    have hts : s'.table = s.table := by cases hdid <;> rfl
    have hthrough : throughDescriptor (.close fildes) = some (fildes, ebadf, .close) := rfl
    have hstep := hs.step h hthrough hg fun _ _ he => by cases he
    rw [show s.posts (.close fildes) = [] from rfl, List.append_nil] at hstep
    rw [FileSystem.close_of_ne hg ha, ← hts]
    exact ⟨hs.sound, hstep⟩

/-! ## Paths -/

/-- Only a new delegate was touched. -/
structure Touched (disk : Disk B) (s t : Process β) : Prop where
  quiet : Quiescent t.world
  carried : ∀ d < s.table.delegates.length, Carried disk s t d
  keeps : disk.Keeps s.backend t.backend
  resources : s.world.store.resources ≤ t.world.store.resources
  buffer : t.buffer = s.buffer

theorem kind_created {fullpath : Str} {kind : DelegateKind}
    (hk : (s.create fullpath).1.table.kind s.table.delegates.length = kind) :
    kind = if (str "/dev/std").isPrefixOf fullpath then .port else .html5 :=
  hk.symm.trans (Process.create_kind s fullpath)

theorem not_device {fullpath : Str}
    (hk : (s.create fullpath).1.table.kind s.table.delegates.length = .html5) :
    ¬ (str "/dev/std").isPrefixOf fullpath := by
  intro hd
  have := kind_created hk
  rw [if_pos hd] at this
  cases this

theorem device_of_port {fullpath : Str}
    (hk : (s.create fullpath).1.table.kind s.table.delegates.length = .port) :
    (str "/dev/std").isPrefixOf fullpath = true := by
  by_contra hd
  have := kind_created hk
  rw [if_neg hd] at this
  cases this

theorem did_touched (h : Sound disk s) {fullpath : Str} (hu : f.use = .path)
    (hf : ∀ path buf, f = .stat path buf → path = fullpath)
    (hdid : Process.Did B main (s.create fullpath).1 s.table.delegates.length f answer s') {table : FileSystem}
    (hdel : table.delegates = (s.create fullpath).1.table.delegates) :
    Touched disk s { s' with table := table } := by
  have hkind {d : Nat} (hd : d < s.table.delegates.length) : table.kind d = s.table.kind d :=
    FileSystem.kind_of_append hdel hd
  have hports {d : Nat} (hd : d ≠ s.table.delegates.length) : (s.create fullpath).1.ports d = s.ports d :=
    Function.update_of_ne hd ..
  have hfiles {d : Nat} (hd : d ≠ s.table.delegates.length) :
      (s.create fullpath).1.world.store.files d = s.world.store.files d :=
    congrArg Html5FileSystem.toOpenFile (Process.create_delegates s fullpath hd)
  have hquiet := Process.create_quiescent h.quiet fullpath
  cases hdid with
  | port hk =>
    obtain ⟨stats, buffers, hs, hb⟩ := Process.port_store (s.create fullpath).1 s.table.delegates.length f
    refine ⟨?_, fun d hd => ⟨hkind hd, ?_, ?_, fun r _ => by rw [hb]; rfl⟩, ?_, ?_, ?_⟩
    · intro d
      have := hquiet d
      rwa [← Process.port_delegates (s.create fullpath).1 s.table.delegates.length f] at this
    · exact (Process.port_ports _ _ f (Nat.ne_of_lt hd)).trans (hports (Nat.ne_of_lt hd))
    · rw [hs]
      exact hfiles (Nat.ne_of_lt hd)
    · exact .of_eq (congrArg disk.files hb)
    · exact Nat.le_of_eq (congrArg Store.resources hs).symm
    · exact Process.port_buffer _ _ hu
  | main hk hm =>
    refine ⟨hquiet, fun d hd => ⟨hkind hd, ?_, ?_, fun _ _ => rfl⟩, fun _ hp => hp, Nat.le_refl _, rfl⟩
    · exact hports (Nat.ne_of_lt hd)
    · exact hfiles (Nat.ne_of_lt hd)
  | @file hk hm _ w b hp hq =>
    have hkept := (path_kept disk s.table.delegates.length (s.create fullpath).1.world.store s.backend hu
      fun path buf he => by rw [hf path buf he]; exact not_device hk).apply hp
    refine ⟨hq, fun d hd => ⟨hkind hd, ?_, ?_, hkept.handle⟩, hkept.files, hkept.resources, rfl⟩
    · exact hports (Nat.ne_of_lt hd)
    · exact (hkept.others d (Nat.ne_of_lt hd)).trans (hfiles (Nat.ne_of_lt hd))

/-- After an operation with a path the descriptors are those there were, and at most a new one. -/
theorem Touched.sound (ht : Touched disk s t) (h : Sound disk s) (hown : t.table.owners.Inv)
    (hdirs : DirsSound t.table t.world.store.dirs)
    (hdesc : t.table.descriptors = s.table.descriptors ∨
      t.table.descriptors = s.table.descriptors ++ [some s.table.delegates.length] ∧
        (t.table.kind s.table.delegates.length = .html5 → ∃ r h content,
          OpenOnFile disk t.world.store t.backend s.table.delegates.length r h content ∧
            r < t.world.store.resources)) : Sound disk t := by
  have hold {d : Nat} (hd : d ∈ entries s.table.descriptors) (hk : t.table.kind d = .html5) :
      ∃ r h content, OpenOnFile disk t.world.store t.backend d r h content ∧ r < t.world.store.resources := by
    have hc := ht.carried d (FileSystem.lt_of_descriptor h.owners hd)
    obtain ⟨r, h', content, ho, hr⟩ := h.opened d hd (hc.kind.symm.trans hk)
    obtain ⟨content', hcontent⟩ := Option.isSome_iff_exists.1 (ht.keeps h'.path (by rw [ho.file]; rfl))
    refine ⟨r, h', content', ⟨?_, ?_, hcontent⟩, Nat.lt_of_lt_of_le hr ht.resources⟩
    · rw [hc.file]
      exact ho.fileIo
    · rw [hc.handle r hr]
      exact ho.handle
  refine ⟨ht.quiet, hown, fun d hd hk => ?_, hdirs⟩
  rcases hdesc with hdesc | ⟨hdesc, hnew⟩
  · rw [hdesc] at hd
    exact hold hd hk
  · rw [hdesc, entries_append_some, List.mem_append, List.mem_singleton] at hd
    rcases hd with hd | rfl
    · exact hold hd hk
    · exact hnew hk

/-- The machine after an operation with a path that made no descriptor and no DIR. -/
theorem Touched.machine (ht : Touched disk s t) (posted : List Str) (h : Sound disk s)
    (hdesc : t.table.descriptors = s.table.descriptors) (hd : t.world.store.dirs = s.world.store.dirs) :
    machine disk posted t =
      { (machine disk posted s).over disk t.world.store t.backend with cwd := t.table.cwd } := by
  obtain ⟨heq, hmap⟩ := machine_of_carried posted h
    (fun d hd => ht.carried d (FileSystem.lt_of_descriptor h.owners hd)) hd ht.buffer
  rw [heq, hdesc, hmap]
  rfl

theorem DirsSound.of_eq {table : FileSystem} {dirs : List (Option Listing)} (h : Sound disk s)
    (ht : table.dirs = s.table.dirs) (hd : dirs = s.world.store.dirs)
    (hk : ∀ d < s.table.delegates.length, table.kind d = s.table.kind d) : DirsSound table dirs := by
  refine ⟨by rw [ht, hd]; exact h.dirs.aligned, fun d hmem => ?_, by rw [hd]; exact h.dirs.unread⟩
  rw [ht] at hmem
  rw [hk d (h.dir_lt hmem)]
  exact h.dirs.kind d hmem

/-! ### Looking -/

/-- A `Stat` through a new delegate looks at what there is. -/
theorem did_looks (disk : Disk B) (posted : List Str) {fullpath : Str} {buf : Nat}
    (hdid : Process.Did B main (s.create fullpath).1 s.table.delegates.length (.stat fullpath buf) answer s') :
    Looks main (machine disk posted s) fullpath buf answer.toInt
        ((machine disk posted s).over disk s'.world.store s'.backend) ∧
      s'.world.store.dirs = s.world.store.dirs := by
  cases hdid with
  | port hk =>
    have hd := device_of_port hk
    simp only [Process.port]
    split
    · rename_i result hst
      exact ⟨.noDevice hd hst, rfl⟩
    · rename_i result st hst
      exact ⟨.device hd hst, rfl⟩
  | main hk hm => exact ⟨.fails (not_device hk) (show 0 < eio by decide), rfl⟩
  | @file hk hm _ w b hp hq =>
    have hl := (stat_looks disk (machine disk posted s) (not_device hk) s.table.delegates.length buf
      (s.create fullpath).1.world.store s.backend).apply hp
    rw [hm]
    exact ⟨hl.looks, hl.dirs⟩

theorem stat_simulated (h : Sound disk s) {path : Option Str} {buf : Nat}
    (hr : s.stat B main call path buf = .returns ret t) :
    Sound disk t ∧ Step main (machine disk posted s) (.stat path buf) ret (machine disk posted t) := by
  cases path with
  | none => cases hr
  | some path =>
    obtain ⟨answer, s', hm, rfl, rfl⟩ := Process.finish_world hr
    have hdid := Process.method_did (Process.create_quiescent h.quiet _) hm
    obtain ⟨hl, hdirs⟩ := did_looks disk posted hdid
    have ht : Touched disk s { s' with table := (s.table.stat path answer.toInt).1 } := by
      refine did_touched h rfl ?_ hdid rfl
      rintro path' buf' he
      cases he
      rfl
    have hown : (s.table.stat path answer.toInt).1.owners.Inv :=
      FileSystem.effect_inv h.owners
        (FileSystem.call_effect (show s.table.call (.stat path answer.toInt) = some _ from rfl))
    have hsound := ht.sound h hown (.of_eq h rfl hdirs fun d hd => (ht.carried d hd).kind) (.inl rfl)
    have heq := ht.machine posted h rfl hdirs
    refine ⟨hsound, ?_⟩
    rw [heq]
    exact .stat hl

theorem chDir_simulated (h : Sound disk s) {path : Option Str} {buf : Nat}
    (hr : s.chDir B main call path buf = .returns ret t) :
    Sound disk t ∧ Step main (machine disk posted s) (.chdir path buf) ret (machine disk posted t) := by
  cases path with
  | none => cases hr
  | some path =>
    obtain ⟨answer, s', hm, rfl, rfl⟩ := Process.finish_world hr
    have hdid := Process.method_did (Process.create_quiescent h.quiet _) hm
    obtain ⟨hl, hdirs⟩ := did_looks disk posted hdid
    generalize hfs : s.table.chDir path answer.toInt (s'.world.stats buf) = r
    obtain ⟨table, ret⟩ := r
    have hcall : s.table.call (.chDir path answer.toInt (s'.world.stats buf)) = some (table, ret) :=
      congrArg some hfs
    have hpath : Process.PathCall s.table.cwd path s'.world.stats
        (.stat (createFullpath s.table.cwd path) buf) answer
        (.chDir path answer.toInt (s'.world.stats buf)) := .chdir buf answer
    have hdel := FileSystem.delegates_of_pathCall hpath hcall
    have ht : Touched disk s { s' with table := table } := by
      refine did_touched h rfl ?_ hdid hdel
      rintro path' buf' he
      cases he
      rfl
    have hown : table.owners.Inv := FileSystem.effect_inv h.owners (FileSystem.call_effect hcall)
    have hkind : ∀ d < s.table.delegates.length, table.kind d = s.table.kind d := fun d hd =>
        (ht.carried d hd).kind
    simp only [FileSystem.chDir] at hfs
    split at hfs
    · rename_i hne
      cases hfs
      have heq := ht.machine posted h rfl hdirs
      refine ⟨ht.sound h hown (.of_eq h rfl hdirs hkind) (.inl rfl), ?_⟩
      rw [heq]
      exact .chdirFails hl hne
    · rename_i h0
      have h0 : answer.toInt = 0 := not_not.1 h0
      rw [h0] at hl
      split at hfs
      · rename_i hnd
        cases hfs
        have heq := ht.machine posted h rfl hdirs
        refine ⟨ht.sound h hown (.of_eq h rfl hdirs hkind) (.inl rfl), ?_⟩
        rw [heq]
        have hst : sIsDir (s'.world.stats buf).mode = false := by simpa using hnd
        exact .chdirNotDir hl hst
      · rename_i hnd
        cases hfs
        have heq := ht.machine posted h rfl hdirs
        refine ⟨ht.sound h hown (.of_eq h rfl hdirs hkind) (.inl rfl), ?_⟩
        rw [heq]
        have hst : sIsDir (s'.world.stats buf).mode = true := by simpa using hnd
        exact .chdir hl hst

/-! ### Making and listing directories -/

theorem mkDir_simulated (h : Sound disk s) {path : Option Str} {mode : BitVec 32}
    (hr : s.mkDir B main call path mode = .returns ret t) :
    Sound disk t ∧ Step main (machine disk posted s) (.mkdir path mode) ret (machine disk posted t) := by
  cases path with
  | none =>
    cases hr
    exact ⟨h, .mkdirNull⟩
  | some path =>
    obtain ⟨answer, s', hm, rfl, rfl⟩ := Process.finish_world hr
    have hdid := Process.method_did (Process.create_quiescent h.quiet _) hm
    have ht : Touched disk s { s' with table := (s.table.mkDir (some path) answer.toInt).1 } := by
      refine did_touched h rfl ?_ hdid rfl
      rintro path' buf' he
      cases he
    have hcall : s.table.call (.mkDir (some path) answer.toInt) =
        some (s.table.mkDir (some path) answer.toInt) := rfl
    have hown : (s.table.mkDir (some path) answer.toInt).1.owners.Inv :=
      FileSystem.effect_inv h.owners (FileSystem.call_effect hcall)
    -- Neither the files nor the DIRs nor the memory are touched.
    obtain ⟨hdirs, hsame, hans⟩ : s'.world.store.dirs = s.world.store.dirs ∧
        (machine disk posted s).over disk s'.world.store s'.backend = machine disk posted s ∧
        ((machine disk posted s).onDevice path = true → answer.toInt = -1) := by
      cases hdid with
      | port hk => exact ⟨rfl, rfl, fun _ => rfl⟩
      | main hk hm =>
        refine ⟨rfl, rfl, fun hd => ?_⟩
        exact absurd hd (not_device hk)
      | @file hk hm _ w b hp hq =>
        obtain ⟨-, hside, hf⟩ := (mkDir_kept disk s.table.delegates.length (createFullpath s.table.cwd path)
          (s.create (createFullpath s.table.cwd path)).1.world.store s.backend).apply hp
        refine ⟨hside.1, ?_, fun hd => absurd hd (not_device hk)⟩
        simp only [Machine.over, hf, hside.2.1, hside.2.2]
        rfl
    refine ⟨ht.sound h hown (.of_eq h rfl hdirs fun d hd => (ht.carried d hd).kind) (.inl rfl), ?_⟩
    rw [ht.machine posted h rfl hdirs]
    dsimp only
    rw [hsame]
    exact .mkdir answer.toInt hans

theorem length_dirs (h : Sound disk s) : s.table.dirs.length = s.world.store.dirs.length := by
  have := congrArg List.length h.dirs.aligned
  simpa using this

theorem DirsSound.append {table table' : FileSystem} {dirs : List (Option Listing)} {dir : Listing} {d : Nat}
    (h : DirsSound table dirs) (ht : table'.dirs = table.dirs ++ [some d])
    (hk : ∀ d ∈ entries table.dirs, table'.kind d = table.kind d) (hkd : table'.kind d = .html5)
    (hu : Listing.Unread dir) : DirsSound table' (dirs ++ [some dir]) := by
  refine ⟨by rw [ht, List.map_append, List.map_append, h.aligned]; rfl, fun d' hd => ?_, fun dir' hd => ?_⟩
  · rw [ht, entries_append_some, List.mem_append, List.mem_singleton] at hd
    rcases hd with hd | rfl
    · rw [hk d' hd]
      exact h.kind d' hd
    · exact hkd
  · rcases List.mem_append.1 hd with hd | hd
    · exact h.unread dir' hd
    · rw [List.mem_singleton] at hd
      cases hd
      exact hu

theorem openDir_simulated (h : Sound disk s) {dirname : Option Str}
    (hr : s.openDir B main call dirname = .returns ret t) :
    Sound disk t ∧ Step main (machine disk posted s) (.opendir dirname) ret (machine disk posted t) := by
  cases dirname with
  | none =>
    cases hr
    exact ⟨h, .opendirNull⟩
  | some path =>
    obtain ⟨answer, s', hmethod, rfl, rfl⟩ := Process.finish_world hr
    have hdid := Process.method_did (Process.create_quiescent h.quiet _) hmethod
    generalize hfs : s.table.openDir (some path) answer.isDir = r
    obtain ⟨table, ret⟩ := r
    have hcall : s.table.call (.openDir (some path) answer.isDir) = some (table, ret) := congrArg some hfs
    have hpath : Process.PathCall s.table.cwd path s'.world.stats
        (.opendir (createFullpath s.table.cwd path)) answer
        (.openDir (some path) answer.isDir) := .opendir answer
    have hdel := FileSystem.delegates_of_pathCall hpath hcall
    have ht : Touched disk s { s' with table := table } := by
      refine did_touched h rfl ?_ hdid hdel
      rintro path' buf' he
      cases he
    have hown : table.owners.Inv := FileSystem.effect_inv h.owners (FileSystem.call_effect hcall)
    have hkind : ∀ d < s.table.delegates.length, table.kind d = s.table.kind d :=
      fun d hd => (ht.carried d hd).kind
    simp only [FileSystem.openDir] at hfs
    cases hdid with
    | port hk =>
      rw [show Result.isDir (Process.port _ _ _).1 = false from rfl, if_neg (by decide)] at hfs
      cases hfs
      refine ⟨ht.sound h hown (.of_eq h rfl rfl hkind) (.inl rfl), ?_⟩
      rw [ht.machine posted h rfl rfl]
      exact .opendirFails (.inl (device_of_port hk))
    | main hk hm =>
      rw [show Result.isDir (onMainThread _) = false from rfl, if_neg (by decide)] at hfs
      cases hfs
      refine ⟨ht.sound h hown (.of_eq h rfl rfl hkind) (.inl rfl), ?_⟩
      rw [ht.machine posted h rfl rfl]
      exact .opendirFails (.inr hm)
    | @file hk hm _ w b hp hq =>
      obtain ⟨-, hf, hst, hbuf, rfl, filesystem, hdirs⟩ := (openDir_kept disk s.table.delegates.length
        (createFullpath s.table.cwd path) (s.create (createFullpath s.table.cwd path)).1.world.store
        s.backend).apply hp
      obtain ⟨hdesc, hcwd, htd, rfl⟩ : table.descriptors = s.table.descriptors ∧ table.cwd = s.table.cwd ∧
          table.dirs = s.table.dirs ++ [some s.table.delegates.length] ∧
          ret = { result := 0, dirp := some s.table.dirs.length } := by
        rw [show Result.isDir (.dir (some _)) = true from rfl, if_pos rfl] at hfs
        cases hfs
        exact ⟨rfl, rfl, rfl, rfl⟩
      have hkd := (FileSystem.kind_of_delegates hdel s.table.delegates.length).trans hk
      have hsound : DirsSound table w.store.dirs := by
        rw [hdirs]
        exact h.dirs.append htd (fun d hd => hkind d (h.dir_lt hd)) hkd fun _ => ⟨rfl, rfl⟩
      refine ⟨ht.sound h hown hsound (.inl hdesc), ?_⟩
      have hnd : (machine disk posted s).onDevice path = false := Bool.eq_false_iff.2 (not_device hk)
      have hlen : (machine disk posted s).dirs.length = s.table.dirs.length := by
        rw [length_dirs h]
        exact List.length_map ..
      have hstep := @Step.opendir main (machine disk posted s) path hm hnd
      rw [hlen] at hstep
      have hmap := map_congr fun d hd => (ht.carried d (FileSystem.lt_of_descriptor h.owners hd)).describe h hd
      refine cast (congrArg (Step main (machine disk posted s) _ _) ?_) hstep
      symm
      simp only [machine, Machine.mk.injEq]
      refine ⟨hf, hcwd, by rw [hdesc]; exact hmap, ?_, rfl, trivial, hbuf, hst⟩
      rw [hdirs, List.map_append]
      rfl

/-! ### Opening -/

/-- The table after an `Open` of a path that was answered. -/
theorem open_table (fs : FileSystem) (path : Str) {a : Int} (ha : a ≠ 0) :
    fs.open_ (some path) a = (((fs.createDelegate (createFullpath fs.cwd path)).1.hand
      (createFullpath fs.cwd path)).delete fs.delegates.length, { result := a }) := if_pos ha

theorem open_table_zero (fs : FileSystem) (path : Str) :
    fs.open_ (some path) 0 = (((fs.createDelegate (createFullpath fs.cwd path)).1.hand
        (createFullpath fs.cwd path)).bindToDescriptor fs.delegates.length |>.1,
      { result := 0, newfd := some (toInt fs.descriptors.length) }) := by
  simp [FileSystem.open_, FileSystem.createDelegate, FileSystem.hand, FileSystem.bindToDescriptor]

theorem newfd_eq (disk : Disk B) (posted : List Str) (s : Process β) :
    (machine disk posted s).newfd = toInt s.table.descriptors.length := by
  unfold Machine.newfd machine
  rw [List.length_map]

/-- A new descriptor, open on what the delegate made for it is. -/
theorem Touched.bind (ht : Touched disk s t) (posted : List Str) (h : Sound disk s) {x : Description}
    (hdesc : t.table.descriptors = s.table.descriptors ++ [some s.table.delegates.length])
    (hd : t.world.store.dirs = s.world.store.dirs) (hcwd : t.table.cwd = s.table.cwd)
    (hx : describe disk t s.table.delegates.length = x) :
    Unix.machine disk posted t = ((Unix.machine disk posted s).over disk t.world.store t.backend).bind x := by
  obtain ⟨heq, hmap⟩ := machine_of_carried posted h
    (fun d hd => ht.carried d (FileSystem.lt_of_descriptor h.owners hd)) hd ht.buffer
  rw [heq, hdesc, List.map_append, hmap, hcwd, ← hx]
  rfl

/-- An `Open` that failed left no descriptor. -/
theorem open_failed (posted : List Str) (h : Sound disk s) {path : Str} {a : Int} (ha : a ≠ 0)
    (ht : Touched disk s { s' with table := (s.table.open_ (some path) a).1 })
    (hd : s'.world.store.dirs = s.world.store.dirs) :
    Sound disk { s' with table := (s.table.open_ (some path) a).1 } ∧
      machine disk posted { s' with table := (s.table.open_ (some path) a).1 } =
        (machine disk posted s).over disk s'.world.store s'.backend ∧
      (s.table.open_ (some path) a).2 = { result := a } := by
  have hcall : s.table.call (.open_ (some path) a) = some (s.table.open_ (some path) a) := rfl
  have hown : (s.table.open_ (some path) a).1.owners.Inv :=
    FileSystem.effect_inv h.owners (FileSystem.call_effect hcall)
  have hkind (d : Nat) (hd : d < s.table.delegates.length) :
      (s.table.open_ (some path) a).1.kind d = s.table.kind d := (ht.carried d hd).kind
  rw [open_table _ _ ha] at ht hown hkind ⊢
  exact ⟨ht.sound h hown (.of_eq h rfl hd hkind) (.inl rfl), ht.machine posted h rfl hd, rfl⟩

/-- One that succeeded left a new one. -/
theorem open_opened (posted : List Str) (h : Sound disk s) {path : Str} {x : Description}
    (ht : Touched disk s { s' with table := (s.table.open_ (some path) 0).1 })
    (hd : s'.world.store.dirs = s.world.store.dirs)
    (hx : describe disk { s' with table := (s.table.open_ (some path) 0).1 } s.table.delegates.length = x)
    (hnew : (s.table.open_ (some path) 0).1.kind s.table.delegates.length = .html5 → ∃ r h content,
      OpenOnFile disk s'.world.store s'.backend s.table.delegates.length r h content ∧
        r < s'.world.store.resources) :
    Sound disk { s' with table := (s.table.open_ (some path) 0).1 } ∧
      machine disk posted { s' with table := (s.table.open_ (some path) 0).1 } =
        ((machine disk posted s).over disk s'.world.store s'.backend).bind x ∧
      (s.table.open_ (some path) 0).2 = { result := 0, newfd := some (machine disk posted s).newfd } := by
  have hcall : s.table.call (.open_ (some path) 0) = some (s.table.open_ (some path) 0) := rfl
  have hown : (s.table.open_ (some path) 0).1.owners.Inv :=
    FileSystem.effect_inv h.owners (FileSystem.call_effect hcall)
  have hkind (d : Nat) (hd : d < s.table.delegates.length) :
      (s.table.open_ (some path) 0).1.kind d = s.table.kind d := (ht.carried d hd).kind
  rw [open_table_zero] at ht hown hkind hx hnew ⊢
  refine ⟨ht.sound h hown (.of_eq h rfl hd hkind) (.inr ⟨rfl, hnew⟩), ht.bind posted h rfl hd rfl hx, ?_⟩
  rw [newfd_eq]

theorem open_simulated (h : Sound disk s) {path : Option Str} {oflag cmode : BitVec 32}
    (hr : s.open_ B main call path oflag cmode = .returns ret t) :
    Sound disk t ∧ Step main (machine disk posted s) (.open_ path oflag cmode) ret (machine disk posted t) := by
  cases path with
  | none =>
    cases hr
    exact ⟨h, .openNull⟩
  | some path =>
    obtain ⟨answer, s', hmethod, rfl, rfl⟩ := Process.finish_world hr
    have hdid := Process.method_did (Process.create_quiescent h.quiet _) hmethod
    have hcall : s.table.call (.open_ (some path) answer.toInt) =
        some (s.table.open_ (some path) answer.toInt) := rfl
    have hpath : Process.PathCall s.table.cwd path s'.world.stats
        (.open_ (createFullpath s.table.cwd path) oflag cmode) answer (.open_ (some path) answer.toInt) :=
      .open_ oflag cmode answer
    have hdel : (s.table.open_ (some path) answer.toInt).1.delegates =
        (s.create (createFullpath s.table.cwd path)).1.table.delegates :=
      FileSystem.delegates_of_pathCall hpath hcall
    have ht : Touched disk s { s' with table := (s.table.open_ (some path) answer.toInt).1 } := by
      refine did_touched h rfl ?_ hdid hdel
      rintro path' buf' he
      cases he
    have hkind := FileSystem.kind_of_delegates hdel s.table.delegates.length
    dsimp only
    cases hdid with
    | port hk =>
      have hdev : (machine disk posted s).onDevice path = true := device_of_port hk
      have hport : (s.create (createFullpath s.table.cwd path)).1.ports s.table.delegates.length = {} :=
        Function.update_self ..
      rcases hopen : PortFileSystem.open_ {} (createFullpath s.table.cwd path) oflag with ⟨port, result⟩
      have hans : (Process.port (s.create (createFullpath s.table.cwd path)).1 s.table.delegates.length
          (.open_ (createFullpath s.table.cwd path) oflag cmode)).1.toInt = result := by
        simp only [Process.port, hport, hopen]
        rfl
      rw [hans] at ht hkind ⊢
      by_cases h0 : result = 0
      · subst h0
        have hx : describe disk { (Process.port (s.create (createFullpath s.table.cwd path)).1
            s.table.delegates.length (.open_ (createFullpath s.table.cwd path) oflag cmode)).2 with
              table := (s.table.open_ (some path) 0).1 } s.table.delegates.length = .device port := by
          rw [describe_port (hkind.trans hk)]
          simp only [Process.port, hport, hopen, Function.update_self]
        obtain ⟨hs, hm, hret⟩ := open_opened posted h ht rfl hx fun hk' => by
          rw [hkind.trans hk] at hk'
          cases hk'
        refine ⟨hs, ?_⟩
        rw [hm, hret]
        exact .openDevice hdev hopen
      · obtain ⟨hs, hm, hret⟩ := open_failed posted h h0 ht rfl
        refine ⟨hs, ?_⟩
        rw [hm, hret]
        exact .openNoDevice hdev hopen h0
    | main hk hmain =>
      have hne : Result.toInt (onMainThread (.open_ (createFullpath s.table.cwd path) oflag cmode)) ≠ 0 :=
        show eio ≠ 0 by decide
      obtain ⟨hs, hm, hret⟩ := open_failed posted h hne ht rfl
      refine ⟨hs, ?_⟩
      rw [hm, hret]
      exact .openFails (Bool.eq_false_iff.2 (not_device hk)) (show 0 < eio by decide)
    | @file hk hmain _ w b hp hq =>
      have hdev : (machine disk posted s).onDevice path = false := Bool.eq_false_iff.2 (not_device hk)
      obtain ⟨-, hside, hends⟩ := (open_ends disk s.table.delegates.length (createFullpath s.table.cwd path)
        oflag (s.create (createFullpath s.table.cwd path)).1.world.store s.backend).apply hp
      have hover (files : Str → Option Str) (hf : disk.files b = files) :
          (machine disk posted s).over disk w.store b = { machine disk posted s with files := files } := by
        simp only [Machine.over, hf, hside.2.1, hside.2.2]
        rfl
      cases hends with
      | @fails errno he hf =>
        obtain ⟨hs, hm, hret⟩ := open_failed posted h (Int.ne_of_gt he) ht hside.1
        refine ⟨hs, ?_⟩
        rw [show Result.toInt (.int errno) = errno from rfl, hm, hret]
        dsimp only
        rw [hover _ hf]
        exact .openFails hdev he
      | @late errno content he ho hf =>
        obtain ⟨hs, hm, hret⟩ := open_failed posted h (Int.ne_of_gt he) ht hside.1
        refine ⟨hs, ?_⟩
        rw [show Result.toInt (.int errno) = errno from rfl, hm, hret]
        dsimp only
        rw [hover _ hf]
        exact .openLate hmain hdev ho he
      | @opened r content ho hf hopen hlt hi hoff =>
        have hoff' : (w.store.files s.table.delegates.length).offset =
            if oflag &&& oAppend ≠ 0 then (w.store.files s.table.delegates.length).fileInfo.size else 0 := by
          rw [hoff]
          congr 1
          exact congrArg (fun this : Html5FileSystem => this.offset) (World.setDelegate_self ..)
        have hx : describe disk
            ⟨(s.table.open_ (some path) 0).1, (s.create (createFullpath s.table.cwd path)).1.ports, s.buffer,
              s.locked, w, b⟩
            s.table.delegates.length = .of ⟨createFullpath s.table.cwd path, openFlags oflag⟩
              (w.store.files s.table.delegates.length) := describe_file (hkind.trans hk) hopen
        obtain ⟨hs, hm, hret⟩ := open_opened posted h ht hside.1 hx fun _ => ⟨r, _, content, hopen, hlt⟩
        refine ⟨hs, ?_⟩
        rw [show Result.toInt (.int 0) = 0 from rfl, hm, hret]
        dsimp only
        rw [hover _ hf, Description.of, hoff']
        exact .openFile hmain hdev ho hi

/-! ## DIRs -/

/-- A DIR of the table is one of an HTML5 delegate. -/
theorem Sound.dir (posted : List Str) (h : Sound disk s) {dirp : Nat} (hd : s.table.dirs[dirp]?.join = some d) :
    s.table.kind d = .html5 ∧ ∃ dir, s.world.store.dirs[dirp]?.join = some dir ∧ Listing.Unread dir ∧
      (machine disk posted s).dirs[dirp]?.join = some (.of dir) := by
  have hd' := Option.join_eq_some_iff.1 hd
  have hal := congrArg (fun l => l[dirp]?) h.dirs.aligned
  simp only [List.getElem?_map, hd', Option.map_some, Option.isSome_some] at hal
  obtain ⟨o, ho, hsome⟩ := Option.map_eq_some_iff.1 hal.symm
  obtain ⟨dir, rfl⟩ := Option.isSome_iff_exists.1 hsome
  refine ⟨h.dirs.kind d (mem_entries.2 (List.mem_of_getElem? hd')), dir, ?_, ?_, ?_⟩
  · rw [ho]
    rfl
  · exact h.dirs.unread dir (List.mem_of_getElem? ho)
  · simp only [machine, List.getElem?_map, ho]
    rfl

/-- A DIR is changed in its place. -/
theorem DirsSound.set (h : Sound disk s) {dirp : Nat} {dir dir' : Listing}
    (hd : s.world.store.dirs[dirp]?.join = some dir) (hu : Listing.Unread dir') :
    DirsSound s.table (s.world.store.dirs.set dirp (some dir')) := by
  have hd' := Option.join_eq_some_iff.1 hd
  refine ⟨?_, h.dirs.kind, fun x hx => ?_⟩
  · have hm : (s.world.store.dirs.map Option.isSome)[dirp]? = some true := by
      rw [List.getElem?_map, hd']
      rfl
    obtain ⟨hi, he⟩ := List.getElem?_eq_some_iff.1 hm
    rw [h.dirs.aligned, List.map_set, Option.isSome_some, ← he, List.set_getElem_self]
  · rcases List.mem_or_eq_of_mem_set hx with hx | hx
    · exact h.dirs.unread x hx
    · cases hx
      exact hu

/-- What an operation on a DIR comes to. -/
theorem onDir_simulated (h : Sound disk s) {dirp : Nat} {k : Result → Process β → FileSystem × Returned}
    (hr : s.onDir B main call dirp f k = .returns ret t) :
    ∃ d answer s', s.table.dirs[dirp]?.join = some d ∧ s.table.kind d = .html5 ∧
      Process.Did B main s d f answer s' ∧ ret = (k answer s').2 ∧
        t = { s' with table := (k answer s').1 } := by
  unfold Process.onDir at hr
  split at hr
  · cases hr
  · rename_i d hd
    obtain ⟨answer, s', hm, rfl, rfl⟩ := Process.finish_world hr
    exact ⟨d, answer, s', hd, (h.dir [] hd).1, Process.method_did h.quiet hm, rfl, rfl⟩

/-- A program of a DIR leaves everything else. -/
theorem OnDir.simulated (h : Sound disk s) (posted : List Str) {w : World} {b : β} {table : FileSystem}
    (hq : Quiescent w) (hon : OnDir disk d s.world.store s.backend w.store b)
    (hdesc : table.descriptors = s.table.descriptors) (hdel : table.delegates = s.table.delegates)
    (hcwd : table.cwd = s.table.cwd) (hown : table.owners.Inv) (hdirs : DirsSound table w.store.dirs) :
    Sound disk { s with table := table, world := w, backend := b } ∧
      machine disk posted { s with table := table, world := w, backend := b } =
        { machine disk posted s with dirs := w.store.dirs.map (Option.map Cursor.of) } := by
  have hkind := FileSystem.kind_of_delegates hdel
  have hmap := map_congr fun d' hd =>
    Carried.describe (t := { s with table := table, world := w, backend := b }) h
    ⟨hkind d', rfl, congrFun hon.files d', hon.kept.handle⟩ hd
  refine ⟨⟨hq, hown, ?_, hdirs⟩, ?_⟩
  · dsimp only
    rw [hdesc]
    intro d' hd' hk
    exact h.opened_kept hon.kept (fun _ => by rw [hon.files]) d' hd' ((hkind d').symm.trans hk)
  · simp only [machine, Machine.mk.injEq]
    exact ⟨hon.same, hcwd, by rw [hdesc]; exact hmap, trivial, trivial, trivial, hon.buffers, hon.stats⟩

theorem rewindDir_simulated (h : Sound disk s) {dirp : Nat}
    (hr : s.rewindDir B main call dirp = .returns ret t) :
    Sound disk t ∧ Step main (machine disk posted s) (.rewinddir dirp) ret (machine disk posted t) := by
  obtain ⟨d, answer, s', hd, hk, hdid, rfl, rfl⟩ := onDir_simulated h hr
  obtain ⟨-, dir, hdir, hu, hx⟩ := h.dir posted hd
  cases hdid with
  | port hk' =>
    rw [hk] at hk'
    cases hk'
  | main _ hm =>
    have hstep := @Step.dirMain main (machine disk posted s) (.rewinddir dirp) dirp
      (.rewinddir dirp) _ hm rfl hx
    exact ⟨h, hstep⟩
  | @file _ hm _ w b hp hq =>
    -- The program rewinds the DIR.
    have hwp : Line.wp (Line.rewindDir dirp) (fun _ s' b' => OnDir disk d s.world.store s.backend s' b' ∧
        s'.dirs = s.world.store.dirs.set dirp (some dir.rewind)) s.world.store s.backend := by
      unfold Line.rewindDir
      rw [Line.wp_bind, Line.wp_get, hdir]
      exact ⟨.of_store disk d _ rfl rfl rfl rfl, rfl⟩
    obtain ⟨hon, hdirs⟩ := hwp.apply hp
    have hu' : Listing.Unread dir.rewind := fun hr => ⟨(hu hr).1, rfl⟩
    obtain ⟨hs, hmach⟩ := hon.simulated h posted hq rfl rfl rfl h.owners (by rw [hdirs]; exact .set h hdir hu')
    refine ⟨hs, ?_⟩
    have hstep : Step main (machine disk posted s) (.rewinddir dirp) { result := 0 } _ := .rewinddir hm hx
    refine cast (congrArg (Step main (machine disk posted s) _ _) ?_) hstep
    refine Eq.trans ?_ hmach.symm
    rw [hdirs, List.map_set]
    rfl

theorem readDir_simulated (h : Sound disk s) {dirp : Nat}
    (hr : s.readDir B main call dirp = .returns ret t) :
    Sound disk t ∧ Step main (machine disk posted s) (.readdir dirp) ret (machine disk posted t) := by
  obtain ⟨d, answer, s', hd, hk, hdid, rfl, rfl⟩ := onDir_simulated h hr
  obtain ⟨-, dir, hdir, hu, hx⟩ := h.dir posted hd
  cases hdid with
  | port hk' =>
    rw [hk] at hk'
    cases hk'
  | main _ hm =>
    have hstep := @Step.dirMain main (machine disk posted s) (.readdir dirp) dirp (.readdir dirp) _ hm rfl hx
    exact ⟨h, hstep⟩
  | @file _ hm _ w b hp hq =>
    obtain ⟨hon, _, name, dir', rfl, hdirs, hu', hread, -⟩ := (readDir_reads disk d hdir hu).apply hp
    obtain ⟨hs, hmach⟩ := hon.simulated h posted hq rfl rfl rfl h.owners (by rw [hdirs]; exact .set h hdir hu')
    refine ⟨hs, ?_⟩
    have hstep : Step main (machine disk posted s) (.readdir dirp) { result := 0, dirent := name } _ :=
      .readdir hm hx hread.readsNext
    refine cast (congrArg (Step main (machine disk posted s) _ _) ?_) hstep
    refine Eq.trans ?_ hmach.symm
    rw [hdirs, List.map_set]
    rfl

theorem closeDir_simulated (h : Sound disk s) {dirp : Nat}
    (hr : s.closeDir B main call dirp = .returns ret t) :
    Sound disk t ∧ Step main (machine disk posted s) (.closedir dirp) ret (machine disk posted t) := by
  obtain ⟨d, answer, s', hd, hk, hdid, rfl, rfl⟩ := onDir_simulated h hr
  obtain ⟨-, dir, hdir, hu, hx⟩ := h.dir posted hd
  cases hdid with
  | port hk' =>
    rw [hk] at hk'
    cases hk'
  | main _ hm =>
    have hne : FileSystem.closeDir s.table dirp (onMainThread (.closedir dirp)).toInt =
        some (s.table, { result := eio }) := by
      simp only [FileSystem.closeDir, hd]
      exact if_neg (show eio ≠ 0 by decide)
    simp only [hne]
    have hstep := @Step.dirMain main (machine disk posted s) (.closedir dirp) dirp (.closedir dirp) _ hm rfl hx
    exact ⟨h, hstep⟩
  | @file _ hm _ w b hp hq =>
    have hwp : Line.wp (Line.closeDir dirp) (fun a s' b' => a = .int 0 ∧
        OnDir disk d s.world.store s.backend s' b' ∧ s'.dirs = s.world.store.dirs.set dirp none)
        s.world.store s.backend := by
      unfold Line.closeDir
      rw [Line.wp_bind, Line.wp_get, hdir]
      exact ⟨rfl, .of_store disk d _ rfl rfl rfl rfl, rfl⟩
    obtain ⟨rfl, hon, hdirs⟩ := hwp.apply hp
    obtain ⟨table, hcl, hdesc, hdel, hcwd, htd⟩ :
        ∃ table, s.table.closeDir dirp 0 = some (table, { result := 0 }) ∧
        table.descriptors = s.table.descriptors ∧ table.delegates = s.table.delegates ∧
        table.cwd = s.table.cwd ∧ table.dirs = s.table.dirs.set dirp none := by
      simp only [FileSystem.closeDir, hd, if_true]
      exact ⟨_, rfl, rfl, rfl, rfl, rfl⟩
    have hown : table.owners.Inv :=
      FileSystem.effect_inv h.owners
        (FileSystem.call_effect (show s.table.call (.closeDir dirp 0) = _ from hcl))
    have hsound : DirsSound table w.store.dirs := by
      rw [hdirs]
      refine ⟨?_, fun d' hd' => ?_, fun x hx => ?_⟩
      · rw [htd, List.map_set, List.map_set, h.dirs.aligned]
        rfl
      · rw [htd] at hd'
        have hmem : d' ∈ entries s.table.dirs := by
          rcases List.mem_or_eq_of_mem_set (mem_entries.1 hd') with hm | hm
          · exact mem_entries.2 hm
          · cases hm
        rw [FileSystem.kind_of_delegates hdel]
        exact h.dirs.kind d' hmem
      · rcases List.mem_or_eq_of_mem_set hx with hx | hx
        · exact h.dirs.unread x hx
        · cases hx
    obtain ⟨hs, hmach⟩ := hon.simulated h posted hq hdesc hdel hcwd hown hsound
    simp only [show Result.toInt (.int 0) = 0 from rfl, hcl]
    refine ⟨hs, ?_⟩
    have hstep : Step main (machine disk posted s) (.closedir dirp) { result := 0 } _ := .closedir hm hx
    refine cast (congrArg (Step main (machine disk posted s) _ _) ?_) hstep
    refine Eq.trans ?_ hmach.symm
    rw [hdirs, List.map_set]
    rfl

/-! ## Operations -/

/-- Each operation that returns is a step of the machine. -/
theorem perform_simulated (h : Sound disk s) {op : Process.Op}
    (hr : s.perform B main call op = .returns ret t) :
    Sound disk t ∧ Step main (machine disk posted s) op ret (machine disk (posted ++ s.posts op) t) := by
  cases op with
  | close fildes => exact close_simulated h hr
  | fstat fildes buf => exact onDescriptor_simulated h rfl rfl (by simp) (by simp) hr
  | read fildes buf nbytes =>
    rw [show s.posts (.read fildes buf nbytes) = [] from rfl, List.append_nil]
    exact read_simulated h hr
  | write fildes buf => exact onDescriptor_simulated h rfl rfl (by simp) (by simp) hr
  | seek fildes offset whence => exact onDescriptor_simulated h rfl rfl (by simp) (by simp) hr
  | isatty fildes => exact onDescriptor_simulated h rfl rfl (by simp) (by simp) hr
  | fcntl fildes cmd ap => exact onDescriptor_simulated h rfl rfl (by simp) (by simp) hr
  | open_ path oflag cmode =>
    rw [show s.posts (.open_ path oflag cmode) = [] from rfl, List.append_nil]
    exact open_simulated h hr
  | stat path buf =>
    rw [show s.posts (.stat path buf) = [] from rfl, List.append_nil]
    exact stat_simulated h hr
  | mkdir path mode =>
    rw [show s.posts (.mkdir path mode) = [] from rfl, List.append_nil]
    exact mkDir_simulated h hr
  | opendir dirname =>
    rw [show s.posts (.opendir dirname) = [] from rfl, List.append_nil]
    exact openDir_simulated h hr
  | rewinddir dirp =>
    rw [show s.posts (.rewinddir dirp) = [] from rfl, List.append_nil]
    exact rewindDir_simulated h hr
  | readdir dirp =>
    rw [show s.posts (.readdir dirp) = [] from rfl, List.append_nil]
    exact readDir_simulated h hr
  | closedir dirp =>
    rw [show s.posts (.closedir dirp) = [] from rfl, List.append_nil]
    exact closeDir_simulated h hr
  | chdir path buf =>
    rw [show s.posts (.chdir path buf) = [] from rfl, List.append_nil]
    exact chDir_simulated h hr

/-! ## Runs -/

variable (disk)

/-- The machine of a system. -/
def ofSystem (s : System β) : Machine := machine disk s.posted s.process

theorem init_sound (type : FileSystemType) (info : Nat → FileInfo) (arguments : Nat → Arguments)
    (stats : Nat → Stat) (buffers : Nat → Str) (b : β) :
    Sound disk (Process.init type info arguments stats buffers b) := by
  refine ⟨init_quiescent type info arguments stats buffers, FileSystem.init_inv, ?_, rfl, ?_, ?_⟩
  · intro d hd
    cases hd
  · intro d hd
    cases hd
  · intro dir hd
    cases hd

/-- What an act is to the machine. -/
def label : System.Act → Label
  | .op main _ op => .op main op
  | .message message => .message message

variable {disk}

theorem step_behaves {s t : System β} {a : System.Act} {o : Option Returned} (h : Sound disk s.process)
    (hs : System.step B s a = some (t, o)) :
    Sound disk t.process ∧ Behaves (ofSystem disk s) (label a) o (ofSystem disk t) := by
  cases a with
  | op main call op =>
    obtain ⟨ret, hp, rfl, hposted⟩ := System.step_op hs
    obtain ⟨hsound, hstep⟩ := perform_simulated h hp
    refine ⟨hsound, ?_⟩
    unfold ofSystem
    rw [hposted]
    exact .op hstep
  | message message =>
    cases hs
    exact ⟨⟨h.quiet, h.owners, h.opened, h.dirs⟩, .message message⟩

/-- A run from a sound system. -/
theorem run_behaves {s t : System β} {as : List System.Act} {os : List (Option Returned)}
    (h : Sound disk s.process) (hr : Stream.run (System.step B) s as = some (t, os)) :
    Sound disk t.process ∧ Stream.Steps Behaves (ofSystem disk s) (as.map label) os (ofSystem disk t) :=
  Stream.run_steps (fun _ _ _ _ hi hs => step_behaves hi hs) h hr

/-- Every run of the system over a disk is a run of the machine: operations on the main thread and on
workers and messages in any order, each operation returning what the machine's does, and the files, the
descriptors, the DIRs, the terminal and the callers' memory coming to what the machine's come to. -/
theorem run_refines (disk : Disk B) (type : FileSystemType) (info : Nat → FileInfo)
    (arguments : Nat → Arguments) (stats : Nat → Stat) (buffers : Nat → Str) (b : β)
    (as : List System.Act) (s : System β) (os : List (Option Returned))
    (h : Stream.run (System.step B) (.init type info arguments stats buffers b) as = some (s, os)) :
    Stream.Steps Behaves (.init (disk.files b) stats buffers) (as.map label) os (ofSystem disk s) :=
  (run_behaves (init_sound disk type info arguments stats buffers b) h).2

/-- A file is made, written, looked at on the main thread, and read from its start on a worker. -/
def makeAndRead : List System.Act :=
  [.op false 0 (.open_ (some (str "a")) (oRdWr ||| oCreat) 0), .op false 1 (.write 0 (str "hi")),
    .op true 2 (.read 0 3 8), .op false 3 (.seek 0 0 seekSet), .op false 4 (.read 0 3 8),
    .message (.string (str "S0x"))]

theorem run_refines_makeAndRead :
    ∃ s os, Stream.run (System.step Memory.backend) ⟨.blank Memory.empty, []⟩ makeAndRead = some (s, os) ∧
      Stream.Steps Behaves (.init Memory.empty.files (fun _ => .zero) (fun _ => [])) (makeAndRead.map label) os
        (ofSystem Memory.disk s) := by
  have hs : (Stream.run (System.step Memory.backend) ⟨.blank Memory.empty, []⟩ makeAndRead).isSome = true := by
    decide +kernel
  have h := (Option.some_get hs).symm
  exact ⟨_, _, h, run_refines Memory.disk .localTemporary _ _ _ _ Memory.empty makeAndRead _ _ h⟩

end Unix

end NaClFs
