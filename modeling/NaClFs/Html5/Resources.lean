/-
The resources of the backend in the order of the requests that name them: a file is made by the request
that opens it, asked only where that completed with 0, and closed at most once. A program keeps to this
when its delegate does.
-/
import NaClFs.Html5.Rules
import NaClFs.Lib.Run

namespace NaClFs

open Waiting

/-! ## Exchanges -/

/-- A request and what became of it. -/
abbrev Exchange := Request × Reply

/-- Whether a request was accepted and completed with 0. -/
def Reply.ok : Reply → Bool
  | .refused _ _ => false
  | .completes answer => answer.code == 0

/-- The backend, with the exchanges so far. -/
def Backend.recorded {β : Type} (B : Backend β) : Backend (β × List Exchange) := fun b request =>
  ((B b.1 request).1, (B b.1 request).2, b.2 ++ [(request, (B b.1 request).1)])

/-! ## The life of a resource -/

/-- What a resource that was made is. -/
inductive Resource
  /-- A filesystem that was asked for, whatever came of its opening. -/
  | filesystem
  /-- A file whose opening completed with 0. -/
  | opened
  | failed
  | closed
  deriving DecidableEq, Repr

/-- The resources made so far. -/
abbrev Resources := Nat → Option Resource

namespace Resources

/-- One exchange; none when the request makes a resource that exists, or names one that is not a
filesystem or not an open file. -/
def step (m : Resources) : Exchange → Option Resources
  | (.fileSystemOpen filesystem _ _, _) =>
    if m filesystem = none then some (Function.update m filesystem (some .filesystem)) else none
  | (.fileOpen file ref _, reply) =>
    if m file = none ∧ m ref.filesystem = some .filesystem then
      some (Function.update m file (some (if reply.ok then .opened else .failed)))
    else none
  | (.query file, _) | (.read file _ _ _, _) | (.write file _ _ _, _) =>
    if file.bind m = some .opened then some m else none
  | (.close file, _) =>
    match file with
    | none => none
    | some file =>
      if m file = some .opened then some (Function.update m file (some .closed)) else none
  | (.makeDirectory ref, _) | (.readDirectoryEntries ref, _) =>
    if m ref.filesystem = some .filesystem then some m else none

/-- The resources after some exchanges; none when one of them was not allowed. -/
def after (h : List Exchange) : Option Resources := Run.run step (fun _ => none) h

theorem after_snoc {h : List Exchange} {e : Exchange} {m m' : Resources} (hm : after h = some m)
    (hs : step m e = some m') : after (h ++ [e]) = some m' :=
  Run.run_append.2 ⟨m, hm, Run.run_cons_some.2 ⟨m', hs, rfl⟩⟩

/-! ## Between programs -/

variable {β : Type} {B : Backend β} {m m' : Resources} {s s' : Store} {d : Nat} {f : Function}

/-- The store names only what was made: its filesystem, and those of the DIRs; and the next resource has
not been. -/
structure Typed (m : Resources) (s : Store) : Prop where
  filesystem : ∀ filesystem, s.filesystem = some filesystem → m filesystem = some .filesystem
  fresh : ∀ r, s.resources ≤ r → m r = none
  dirs : ∀ dir, some dir ∈ s.dirs → m dir.directoryRef.filesystem = some .filesystem

/-- The delegate is open on a file. -/
def HasFile (m : Resources) (s : Store) (d : Nat) : Prop :=
  ∃ file, (s.files d).fileIo = some file ∧ m file = some .opened

/-- The functions that ask the file of their delegate. -/
def AsksFile : Function → Prop
  | .close | .fstat _ | .read _ _ | .write _ => True
  | _ => False

/-- What a part of a program leaves: a store that names only what was made, the files of the other
delegates, and the resources there were. -/
structure Grown (d : Nat) (m : Resources) (s : Store) (m' : Resources) (s' : Store) : Prop where
  typed : Typed m' s'
  resources : s.resources ≤ s'.resources
  others : Line.SameOthers d s s'
  made : ∀ r, r < s.resources → m' r = m r

theorem Grown.refl (d : Nat) (ht : Typed m s) : Grown d m s m s :=
  ⟨ht, Nat.le_refl _, (Line.sameOthers_frame d).refl s, fun _ _ => rfl⟩

theorem Grown.trans {m'' : Resources} {s'' : Store} (h : Grown d m s m' s') (h' : Grown d m' s' m'' s'') :
    Grown d m s m'' s'' := by
  refine ⟨h'.typed, Nat.le_trans h.resources h'.resources,
    (Line.sameOthers_frame d).trans _ _ _ h.others h'.others, fun r hr => ?_⟩
  rw [h'.made r (Nat.lt_of_lt_of_le hr h.resources), h.made r hr]

/-- A resource that was made is not the next one. -/
theorem Typed.lt (ht : Typed m s) {r : Nat} {x : Resource} (h : m r = some x) : r < s.resources := by
  by_contra hn
  rw [ht.fresh r (Nat.le_of_not_lt hn)] at h
  cases h

theorem update_made (x : Resource) {n r : Nat} (hr : r < n) :
    Function.update m n (some x) r = m r := Function.update_of_ne (Nat.ne_of_lt hr) ..

theorem Grown.make (ht : Typed m s) (x : Resource) (hr : s'.resources = s.resources + 1)
    (hf : ∀ filesystem, s'.filesystem = some filesystem →
      s.filesystem = some filesystem ∨ filesystem = s.resources ∧ x = .filesystem)
    (hd : s'.dirs = s.dirs) (ho : Line.SameOthers d s s') :
    Grown d m s (Function.update m s.resources (some x)) s' := by
  refine ⟨⟨fun filesystem h => ?_, fun r h => ?_, fun dir h => ?_⟩, by omega, ho, fun r => update_made x⟩
  · rcases hf filesystem h with h | ⟨rfl, rfl⟩
    · have hm := ht.filesystem filesystem h
      rw [update_made x (ht.lt hm), hm]
    · exact Function.update_self ..
  · rw [Function.update_of_ne (by omega), ht.fresh r (by omega)]
  · rw [hd] at h
    have hm := ht.dirs dir h
    rw [update_made x (ht.lt hm), hm]

/-! ## Parts of programs -/

variable {b : β} {h : List Exchange}

theorem needFileSystem_grown (hm : after h = some m) (ht : Typed m s) (d : Nat) :
    Line.wp (Line.needFileSystem B.recorded) (fun p s' b' => ∃ m', after b'.2 = some m' ∧
      Grown d m s m' s' ∧ m' p.1 = some .filesystem ∧ s'.files = s.files) s (b, h) := by
  apply Line.wp_needFileSystem
  · intro filesystem hf
    exact ⟨m, hm, .refl d ht, ht.filesystem filesystem hf, rfl⟩
  · rintro hf request answer rfl hr
    refine ⟨Function.update m s.resources (some .filesystem), after_snoc hm ?_, ?_, ?_, rfl⟩
    · exact if_pos (ht.fresh _ (Nat.le_refl _))
    · refine .make ht _ rfl (fun filesystem h => .inr ?_) rfl fun _ _ => rfl
      exact ⟨(Option.some.inj h).symm, rfl⟩
    · exact Function.update_self ..

/-- A file that is opened is new. -/
theorem openFile_grown (hm : after h = some m) (ht : Typed m s) {ref : FileRef}
    (hf : m ref.filesystem = some .filesystem) (d : Nat) (flags : BitVec 32) :
    Line.wp (Line.openFile B.recorded d ref flags) (fun reply s' b' => ∃ m', after b'.2 = some m' ∧
      Grown d m s m' s' ∧ (s'.files d).fileIo = some s.resources ∧
      (reply.ok = true → m' s.resources = some .opened)) s (b, h) := by
  rw [Line.wp_openFile]
  refine ⟨_, after_snoc hm (if_pos ⟨ht.fresh _ (Nat.le_refl _), hf⟩), ?_, ?_, fun hok => ?_⟩
  · refine .make ht _ rfl (fun filesystem h => .inl h) rfl fun d' hd => ?_
    exact Function.update_of_ne hd ..
  · rw [Store.withFile_files]
  · have hok' : (B b (.fileOpen s.resources ref flags)).1.ok = true := hok
    rw [Function.update_self, hok']
    rfl

/-- A change that names nothing new. -/
theorem Grown.of_eq (ht : Typed m s) (hr : s'.resources = s.resources)
    (hf : s'.filesystem = s.filesystem)
    (hd : ∀ dir, some dir ∈ s'.dirs → m dir.directoryRef.filesystem = some .filesystem)
    (ho : Line.SameOthers d s s') : Grown d m s m s' := by
  refine ⟨⟨fun filesystem h => ?_, fun r h => ?_, hd⟩, by omega, ho, fun _ _ => rfl⟩
  · exact ht.filesystem filesystem (by rw [← hf]; exact h)
  · exact ht.fresh r (by omega)

/-- A request that names the file of the delegate. -/
theorem after_asks (hm : after h = some m) (hopen : HasFile m s d) {request : Request} {reply : Reply}
    (hr : step m (request, reply) =
      if (s.files d).fileIo.bind m = some .opened then some m else none) :
    after (h ++ [(request, reply)]) = some m := by
  obtain ⟨file, hfile, hmade⟩ := hopen
  apply after_snoc hm
  rw [hr, hfile]
  exact if_pos hmade

theorem query_grown (hm : after h = some m) (ht : Typed m s) (hopen : HasFile m s d) :
    Line.wp (Line.query B.recorded d) (fun _ s' b' => after b'.2 = some m ∧ Grown d m s m s' ∧
      (s'.files d).fileIo = (s.files d).fileIo) s (b, h) := by
  apply Line.wp_query
  intro answer hr
  refine ⟨after_asks hm hopen rfl, ?_, ?_⟩
  · exact .of_eq ht rfl rfl ht.dirs fun d' hd => Function.update_of_ne hd ..
  · rw [Store.withInfo_files]

/-! ## Programs -/

/-- What a program leaves: only a `Close` changes a resource there was, its own file, and it returns 0;
only an `Open` and a `Stat` give their delegate another file, and after an `Open` that did not return an
errno it is open on a new one. -/
structure Left (d : Nat) (f : Function) (m : Resources) (s : Store) (result : Result) (m' : Resources)
    (s' : Store) : Prop where
  typed : Typed m' s'
  resources : s.resources ≤ s'.resources
  others : Line.SameOthers d s s'
  made : ∀ r, r < s.resources → (f = .close → (s.files d).fileIo ≠ some r) → m' r = m r
  opened : ∀ path oflag cmode, f = .open_ path oflag cmode → (∃ errno, errno ≠ 0 ∧ result = .int errno) ∨
    ∃ file, (s'.files d).fileIo = some file ∧ m' file = some .opened ∧ s.resources ≤ file
  closed : f = .close → result = .int 0
  same : f.use ≠ .path → (s'.files d).fileIo = (s.files d).fileIo

theorem Grown.left {result : Result} (hg : Grown d m s m' s')
    (ho : ∀ path oflag cmode, f ≠ .open_ path oflag cmode) (hc : f ≠ .close)
    (hs : f.use ≠ .path → (s'.files d).fileIo = (s.files d).fileIo) : Left d f m s result m' s' :=
  ⟨hg.typed, hg.resources, hg.others, fun r hr _ => hg.made r hr,
    fun path oflag cmode he => absurd he (ho path oflag cmode), fun he => absurd he hc, hs⟩

/-- A change to the delegate's file alone. -/
theorem Grown.modifyFile (ht : Typed m s) (g : OpenFile → OpenFile) :
    Grown d m s m { s with files := Function.update s.files d (g (s.files d)) } :=
  .of_eq ht rfl rfl ht.dirs fun _ hd => Function.update_of_ne hd ..

theorem open_left (hm : after h = some m) (ht : Typed m s) (d : Nat) (path : Str)
    (oflag cmode : BitVec 32) :
    Line.wp (Line.open_ B.recorded d path oflag) (fun result s' b' => ∃ m', after b'.2 = some m' ∧
      Left d (.open_ path oflag cmode) m s result m' s') s (b, h) := by
  have hfail {s' : Store} {m' : Resources} {code : Int} (hg : Grown d m s m' s') :
      Left d (.open_ path oflag cmode) m s (.int (ppErrorToErrNo code)) m' s' := by
    refine ⟨hg.typed, hg.resources, hg.others, fun r hr _ => hg.made r hr, fun _ _ _ _ => .inl ?_,
      fun hc => (by cases hc), fun hn => absurd rfl hn⟩
    exact ⟨_, Int.ne_of_gt (ppErrorToErrNo_pos code), rfl⟩
  unfold Line.open_
  rw [Line.wp_bind]
  refine (needFileSystem_grown hm ht d).mono ?_
  rintro ⟨filesystem, code⟩ s₁ ⟨b₁, h₁⟩ ⟨m₁, hm₁, hg₁, hfs, -⟩
  dsimp only
  rw [Line.wp_bind]
  refine (openFile_grown hm₁ hg₁.typed hfs d _).mono ?_
  rintro reply s₂ ⟨b₂, h₂⟩ ⟨m₂, hm₂, hg₂, hio, hok⟩
  have hg := hg₁.trans hg₂
  cases reply with
  | refused code' hc => exact ⟨m₂, hm₂, hfail hg⟩
  | completes answer =>
    dsimp only [Line.opening]
    by_cases h0 : answer.code = 0
    · rw [if_neg (not_not_intro h0), Line.wp_bind]
      have hopen : m₂ s₁.resources = some .opened := hok (by simp [Reply.ok, h0])
      refine (query_grown hm₂ hg₂.typed ⟨_, hio, hopen⟩).mono ?_
      rintro code' s₃ ⟨b₃, h₃⟩ ⟨hm₃, hg₃, hsame⟩
      have hg := hg.trans hg₃
      dsimp only [Line.opened]
      by_cases hc : code' = 0
      · -- The file is open and queried.
        rw [if_neg (not_not_intro hc), Line.wp_bind, Line.wp_modifyFile, Line.wp_pure]
        have hg := hg.trans (.modifyFile hg₃.typed fun file => file.start oflag)
        refine ⟨m₂, hm₃, hg.typed, hg.resources, hg.others, fun r hr _ => hg.made r hr,
          fun _ _ _ _ => .inr ⟨s₁.resources, ?_, hopen, hg₁.resources⟩, fun hc => (by cases hc),
          fun hn => absurd rfl hn⟩
        dsimp only
        rw [Function.update_self, ← hio, ← hsame]
        rfl
      · rw [if_pos hc, Line.wp_pure]
        exact ⟨m₂, hm₃, hfail hg⟩
    · rw [if_pos h0, Line.wp_pure]
      exact ⟨m₂, hm₂, hfail hg⟩

theorem stat_left (hm : after h = some m) (ht : Typed m s) (d : Nat) (path : Str) (buf : Nat) :
    Line.wp (Line.stat B.recorded d path buf) (fun result s' b' => ∃ m', after b'.2 = some m' ∧
      Left d (.stat path buf) m s result m' s') s (b, h) := by
  have hleft {s' : Store} {m' : Resources} {result : Result} (hg : Grown d m s m' s') :
      Left d (.stat path buf) m s result m' s' := hg.left (by simp) (by simp) fun hn => absurd rfl hn
  have hfill {s' : Store} {m' : Resources} (hg : Grown d m s m' s') (st : Stat) :
      Grown d m s m' { s' with stats := Function.update s'.stats buf st } :=
    hg.trans (.of_eq hg.typed rfl rfl hg.typed.dirs fun _ _ => rfl)
  unfold Line.stat
  rw [Line.wp_bind]
  refine (needFileSystem_grown hm ht d).mono ?_
  rintro ⟨filesystem, code⟩ s₁ ⟨b₁, h₁⟩ ⟨m₁, hm₁, hg₁, hfs, -⟩
  dsimp only
  rw [Line.wp_bind]
  refine (openFile_grown hm₁ hg₁.typed hfs d _).mono ?_
  rintro reply s₂ ⟨b₂, h₂⟩ ⟨m₂, hm₂, hg₂, hio, hok⟩
  have hg := hg₁.trans hg₂
  cases reply with
  | refused code' hc => exact ⟨m₂, hm₂, hleft hg⟩
  | completes answer =>
    dsimp only [Line.statting]
    by_cases hna : answer.code = ppErrorNotAFile
    · rw [if_pos hna]
      exact ⟨m₂, hm₂, hleft (hfill hg _)⟩
    rw [if_neg hna]
    by_cases h0 : answer.code = 0
    · rw [if_neg (not_not_intro h0), Line.wp_bind]
      have hopen : m₂ s₁.resources = some .opened := hok (by simp [Reply.ok, h0])
      refine (query_grown hm₂ hg₂.typed ⟨_, hio, hopen⟩).mono ?_
      rintro code' s₃ ⟨b₃, h₃⟩ ⟨hm₃, hg₃, hsame⟩
      have hg := hg.trans hg₃
      dsimp only [Line.queried]
      by_cases hc : code' = 0
      · rw [if_neg (not_not_intro hc)]
        exact ⟨m₂, hm₃, hleft (hfill hg _)⟩
      · rw [if_pos hc]
        exact ⟨m₂, hm₃, hleft hg⟩
    · rw [if_pos h0]
      exact ⟨m₂, hm₂, hleft hg⟩

/-- A program that leaves its delegate's file as it is, or moves it, and asks at most for it. -/
theorem descriptor_left (hm : after h = some m) (ht : Typed m s) (hu : f.use = .descriptor)
    (hopen : AsksFile f → HasFile m s d) :
    Line.wp (Line.program B.recorded d f) (fun result s' b' => ∃ m', after b'.2 = some m' ∧
      Left d f m s result m' s') s (b, h) := by
  have hleft {s' : Store} {result : Result} (hg : Grown d m s m s')
      (hc : (s'.files d).fileIo = (s.files d).fileIo) (hn : f ≠ .close) : Left d f m s result m s' := by
    refine hg.left ?_ hn fun _ => hc
    rintro path oflag cmode rfl
    cases hu
  have hrefl := Grown.refl d ht
  have hasked (request : Request) : Grown d m s m { s with requests := s.requests ++ [request] } :=
    .of_eq ht rfl rfl ht.dirs fun _ _ => rfl
  cases f with
  | close =>
    obtain ⟨file, hfile, hmade⟩ := hopen trivial
    have hlt := ht.lt hmade
    -- Nothing else the store names is a file.
    have hkept {r : Nat} (hr : m r = some .filesystem) :
        Function.update m file (some .closed) r = some .filesystem := by
      rw [Function.update_of_ne, hr]
      rintro rfl
      rw [hr] at hmade
      cases hmade
    change Line.wp (Line.close B.recorded d) _ _ _
    unfold Line.close
    rw [Line.wp_bind, Line.wp_get, Line.wp_bind, Line.wp_ask, Line.wp_pure, hfile]
    refine ⟨Function.update m file (some .closed), after_snoc hm (if_pos hmade), ?_⟩
    refine ⟨⟨?_, ?_, ?_⟩, Nat.le_refl _, fun _ _ => rfl, ?_, fun _ _ _ hc => (by cases hc), fun _ => rfl,
      fun _ => rfl⟩
    · intro filesystem hf
      exact hkept (ht.filesystem filesystem hf)
    · intro r hr
      rw [Function.update_of_ne (Nat.ne_of_gt (Nat.lt_of_lt_of_le hlt hr))]
      exact ht.fresh r hr
    · intro dir hd
      exact hkept (ht.dirs dir hd)
    · intro r _ hn
      refine Function.update_of_ne ?_ ..
      rintro rfl
      exact hn rfl hfile
  | read buf nbytes =>
    change Line.wp (Line.read B.recorded d buf nbytes) _ _ _
    unfold Line.read
    rw [Line.wp_bind, Line.wp_get, Line.wp_bind, Line.wp_ask]
    have hm' : after (h ++ [(Line.readRequest s d buf nbytes, (B b (Line.readRequest s d buf nbytes)).1)]) =
        some m := after_asks hm (hopen trivial) rfl
    split
    · exact ⟨m, hm', hleft (hasked _) rfl (by simp)⟩
    · rw [Line.wp_bind, Line.wp_modify, Line.wp_bind, Line.wp_modifyFile, Line.wp_pure]
      refine ⟨m, hm', hleft ?_ ?_ (by simp)⟩
      · exact .of_eq ht rfl rfl ht.dirs fun _ hd => Function.update_of_ne hd ..
      · simp [NaClFs.OpenFile.advance]
  | write buf =>
    change Line.wp (Line.write B.recorded d buf) _ _ _
    unfold Line.write
    rw [Line.wp_bind, Line.wp_get, Line.wp_bind, Line.wp_ask]
    have hm' : after (h ++ [(Line.writeRequest s d buf, (B b (Line.writeRequest s d buf)).1)]) = some m :=
      after_asks hm (hopen trivial) rfl
    split
    · exact ⟨m, hm', hleft (hasked _) rfl (by simp)⟩
    · rw [Line.wp_bind, Line.wp_modifyFile, Line.wp_pure]
      refine ⟨m, hm', hleft ?_ ?_ (by simp)⟩
      · exact .of_eq ht rfl rfl ht.dirs fun _ hd => Function.update_of_ne hd ..
      · simp [NaClFs.OpenFile.advance, NaClFs.OpenFile.grow]
  | fstat buf =>
    change Line.wp (Line.fstat B.recorded d buf) _ _ _
    unfold Line.fstat
    rw [Line.wp_bind, Line.wp_get, Line.wp_bind, Line.wp_ask]
    have hm' : after (h ++ [(.query (s.files d).fileIo, (B b (.query (s.files d).fileIo)).1)]) = some m :=
      after_asks hm (hopen trivial) rfl
    split
    · exact ⟨m, hm', hleft (hasked _) rfl (by simp)⟩
    · refine ⟨m, hm', hleft ?_ ?_ (by simp)⟩
      · exact .of_eq ht rfl rfl ht.dirs fun _ hd => Function.update_of_ne hd ..
      · simp
  | seek offset whence =>
    change Line.wp (Line.seek d offset whence) _ _ _
    unfold Line.seek
    rw [Line.wp_bind, Line.wp_get]
    have hmove (place : Int) : Line.wp (Line.moveTo d place : Line _ Result) (fun result s' b' =>
        ∃ m', after b'.2 = some m' ∧ Left d (.seek offset whence) m s result m' s') s (b, h) := by
      refine ⟨m, hm, hleft ?_ ?_ (by simp)⟩
      · exact .modifyFile ht fun file => { file with offset := place }
      · simp
    split
    · exact hmove _
    split
    · exact hmove _
    split
    · exact hmove _
    · exact ⟨m, hm, hleft hrefl rfl (by simp)⟩
  | isatty => exact ⟨m, hm, hleft hrefl rfl (by simp)⟩
  | fcntl cmd ap =>
    change Line.wp (Line.fcntl cmd ap) _ _ _
    unfold Line.fcntl
    split
    · exact ⟨m, hm, hleft hrefl rfl (by simp)⟩
    · rw [Line.wp_bind, Line.wp_modify, Line.wp_pure]
      refine ⟨m, hm, hleft ?_ ?_ (by simp)⟩
      · exact .of_eq ht rfl rfl ht.dirs fun _ _ => rfl
      · rfl
  | _ => cases hu

theorem mkdir_left (hm : after h = some m) (ht : Typed m s) (d : Nat) (path : Str) (mode : BitVec 32) :
    Line.wp (Line.mkDir B.recorded path) (fun result s' b' => ∃ m', after b'.2 = some m' ∧
      Left d (.mkdir path mode) m s result m' s') s (b, h) := by
  have hleft {s' : Store} {m' : Resources} {result : Result} (hg : Grown d m s m' s') :
      Left d (.mkdir path mode) m s result m' s' := hg.left (by simp) (by simp) fun hn => absurd rfl hn
  unfold Line.mkDir
  rw [Line.wp_bind]
  refine (needFileSystem_grown hm ht d).mono ?_
  rintro ⟨filesystem, code⟩ s₁ ⟨b₁, h₁⟩ ⟨m₁, hm₁, hg₁, hfs, -⟩
  dsimp only [Line.makeDirectory]
  rw [Line.wp_bind, Line.wp_ask]
  have hg : Grown d m₁ s₁ m₁ { s₁ with requests := s₁.requests ++ [.makeDirectory ⟨filesystem, path⟩] } :=
    .of_eq hg₁.typed rfl rfl hg₁.typed.dirs fun _ _ => rfl
  have hm' : after (h₁ ++ [(.makeDirectory ⟨filesystem, path⟩,
      (B b₁ (.makeDirectory ⟨filesystem, path⟩)).1)]) = some m₁ := after_snoc hm₁ (if_pos hfs)
  split
  · exact ⟨m₁, hm', hleft (hg₁.trans hg)⟩
  · exact ⟨m₁, hm', hleft (hg₁.trans hg)⟩

theorem openDir_left (hm : after h = some m) (ht : Typed m s) (d : Nat) (dirname : Str) :
    Line.wp (Line.openDir B.recorded d dirname) (fun result s' b' => ∃ m', after b'.2 = some m' ∧
      Left d (.opendir dirname) m s result m' s') s (b, h) := by
  unfold Line.openDir
  rw [Line.wp_bind]
  refine (needFileSystem_grown hm ht d).mono ?_
  rintro ⟨filesystem, code⟩ s₁ ⟨b₁, h₁⟩ ⟨m₁, hm₁, hg₁, hfs, -⟩
  dsimp only [Line.newDir]
  rw [Line.wp_bind, Line.wp_get, Line.wp_bind, Line.wp_modify, Line.wp_pure]
  refine ⟨m₁, hm₁, Grown.left (hg₁.trans (.of_eq hg₁.typed rfl rfl ?_ fun _ _ => rfl)) (by simp)
    (by simp) fun hn => absurd rfl hn⟩
  intro dir hdir
  rcases List.mem_append.1 hdir with hdir | hdir
  · exact hg₁.typed.dirs dir hdir
  · rw [List.mem_singleton] at hdir
    cases hdir
    exact hfs

theorem readDirNext_ref (dir : Listing) : dir.readDirNext.1.directoryRef = dir.directoryRef := by
  unfold Listing.readDirNext
  split <;> rfl

theorem onReadDirectoryEntries_ref (dir : Listing) (result : Int) (entries : List Str) :
    (dir.onReadDirectoryEntries result entries).directoryRef = dir.directoryRef := by
  unfold Listing.onReadDirectoryEntries
  split <;> rfl

/-- A DIR that is changed keeps its directory. -/
theorem Typed.setDir (ht : Typed m s) {dirp : Nat} {dir dir' : Listing}
    (hd : s.dirs[dirp]?.join = some dir) (hr : dir'.directoryRef = dir.directoryRef) (x : Listing)
    (hx : some x ∈ s.dirs.set dirp (some dir')) : m x.directoryRef.filesystem = some .filesystem := by
  rcases List.mem_or_eq_of_mem_set hx with hx | hx
  · exact ht.dirs x hx
  · cases hx
    rw [hr]
    exact ht.dirs dir (List.mem_of_getElem? (Option.join_eq_some_iff.1 hd))

/-- The programs of a DIR ask at most for its directory. -/
theorem dir_left (hm : after h = some m) (ht : Typed m s) (hu : f.use = .dir) :
    Line.wp (Line.program B.recorded d f) (fun result s' b' => ∃ m', after b'.2 = some m' ∧
      Left d f m s result m' s') s (b, h) := by
  have hleft {s' : Store} {result : Result} (hr : s'.resources = s.resources)
      (hf : s'.filesystem = s.filesystem) (hfiles : s'.files = s.files)
      (hd : ∀ dir, some dir ∈ s'.dirs → m dir.directoryRef.filesystem = some .filesystem) :
      Left d f m s result m s' := by
    refine Grown.left (.of_eq ht hr hf hd fun d' _ => by rw [hfiles]) ?_ ?_ fun _ => by rw [hfiles]
    · rintro path oflag cmode rfl
      cases hu
    · rintro rfl
      cases hu
  cases f with
  | rewinddir dirp =>
    change Line.wp (Line.rewindDir dirp) _ _ _
    unfold Line.rewindDir
    rw [Line.wp_bind, Line.wp_get]
    split
    · exact ⟨m, hm, hleft rfl rfl rfl ht.dirs⟩
    · rename_i dir hdir
      exact ⟨m, hm, hleft rfl rfl rfl (ht.setDir hdir rfl)⟩
  | closedir dirp =>
    change Line.wp (Line.closeDir dirp) _ _ _
    unfold Line.closeDir
    rw [Line.wp_bind, Line.wp_get]
    split
    · exact ⟨m, hm, hleft rfl rfl rfl ht.dirs⟩
    · refine ⟨m, hm, hleft rfl rfl rfl fun x hx => ?_⟩
      rcases List.mem_or_eq_of_mem_set hx with hx | hx
      · exact ht.dirs x hx
      · cases hx
  | readdir dirp =>
    change Line.wp (Line.readDir B.recorded dirp) _ _ _
    unfold Line.readDir
    rw [Line.wp_bind, Line.wp_get]
    split
    · exact ⟨m, hm, hleft rfl rfl rfl ht.dirs⟩
    rename_i dir hdir
    split
    · exact ⟨m, hm, hleft rfl rfl rfl (ht.setDir hdir (readDirNext_ref dir))⟩
    rw [Line.wp_bind, Line.wp_ask]
    have hm' : after (h ++ [(.readDirectoryEntries dir.directoryRef,
        (B b (.readDirectoryEntries dir.directoryRef)).1)]) = some m :=
      after_snoc hm (if_pos (ht.dirs dir (List.mem_of_getElem? (Option.join_eq_some_iff.1 hdir))))
    split
    · split
      · exact ⟨m, hm', hleft rfl rfl rfl (ht.setDir hdir (readDirNext_ref dir.rewind))⟩
      · exact ⟨m, hm', hleft rfl rfl rfl (ht.setDir hdir rfl)⟩
    · rename_i answer hr
      have href := onReadDirectoryEntries_ref dir.rewind answer.code answer.entries
      dsimp only
      split
      · exact ⟨m, hm', hleft rfl rfl rfl (ht.setDir hdir href)⟩
      · exact ⟨m, hm', hleft rfl rfl rfl (ht.setDir hdir ((readDirNext_ref _).trans href))⟩
  | _ => cases hu

theorem program_left (hm : after h = some m) (ht : Typed m s) (d : Nat) (f : Function)
    (hopen : AsksFile f → HasFile m s d) :
    Line.wp (Line.program B.recorded d f) (fun result s' b' => ∃ m', after b'.2 = some m' ∧
      Left d f m s result m' s') s (b, h) := by
  cases f with
  | open_ path oflag cmode => exact open_left hm ht d path oflag cmode
  | stat path buf => exact stat_left hm ht d path buf
  | mkdir path mode => exact mkdir_left hm ht d path mode
  | opendir dirname => exact openDir_left hm ht d dirname
  | rewinddir | readdir | closedir => exact dir_left hm ht rfl
  | _ => exact descriptor_left hm ht rfl hopen

end Resources

end NaClFs
