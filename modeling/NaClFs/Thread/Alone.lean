/-
One call among others, as if it were alone: what its runs do in the world of all is what they do in a
world of its own, so the call is its straight-line program on the replies to its own requests.
-/
import NaClFs.Html5.Apart
import NaClFs.Html5.Needs
import NaClFs.Thread.Chains
import NaClFs.Thread.Transfer

namespace NaClFs

/-! ## What is a delegate's own -/

/-- What a delegate has: its file, and the DIRs it made. -/
@[ext] structure Own where
  file : OpenFile
  dirs : Nat → Option Listing

def Store.own (s : Store) (d : Nat) : Own where
  file := s.files d
  dirs dirp := (s.dirs[dirp]?.join).filter (·.delegate = d)

variable {w v : World} {c d : Nat} {f : Function} {code : Int} {filesystem : Nat} {before : Own}
  {requests : List Request} {answers : List Answer}

theorem World.own_dirs (w : World) (d dirp : Nat) :
    (w.store.own d).dirs dirp = (w.ownDir d dirp).map Html5FileSystemDir.toListing := by
  simp only [Store.own, World.store_dir, World.ownDir]
  cases w.dir dirp with
  | none => rfl
  | some dir => by_cases hd : dir.delegate = d <;> simp [Option.filter, hd]

theorem World.own_eq (hd : w.delegates d = v.delegates d) (hw : ∀ dirp, w.ownDir d dirp = v.ownDir d dirp) :
    w.store.own d = v.store.own d := by
  ext1
  · show (w.delegates d).toOpenFile = (v.delegates d).toOpenFile
    rw [hd]
  · funext dirp
    rw [World.own_dirs, World.own_dirs, hw]

theorem Near.own (h : Near w v d f) : w.store.own d = v.store.own d := World.own_eq h.delegate h.dirs

theorem Framed.own {w' : World} {d' : Nat} (h : Framed w w' d f) (hd : d' ≠ d) :
    w'.store.own d' = w.store.own d' :=
  World.own_eq (h.others d' hd) (h.dirs d' hd)

/-- The memory the function fills is as in the store. -/
structure Filled (f : Function) (w : World) (s : Store) : Prop where
  stats : ∀ buf, f.fills = some buf → w.stats buf = s.stats buf
  buffers : ∀ buf, f.stores = some buf → w.buffers buf = s.buffers buf

/-- The answer that comes in the completion. -/
def Reply.answer : Reply → Option Answer
  | .refused _ _ => none
  | .completes answer => some answer

/-- The completion is for the call, or for one on the same DIR. -/
def Completion.isFor (c : Nat) (f : Function) : Completion → Bool
  | .proxy callback | .query _ callback | .read _ callback => callback = some c
  | .listing dirp => f.dirp = some dirp

/-- The answers that came for the call. -/
def answersOf (c : Nat) (f : Function) (log : List Event) : List Answer :=
  log.filterMap fun
    | .issued _ _ => none
    | .delivered p answer => if p.isFor c f then some answer else none

/-- The answers among the replies are those that came. On a DIR some of these were for other calls. -/
structure Heard (f : Function) (replies : List Reply) (answers : List Answer) : Prop where
  among : (replies.filterMap Reply.answer).Sublist answers
  all : f.dirp = none → replies.filterMap Reply.answer = answers

theorem Heard.append {replies replies' : List Reply} {answers' : List Answer} (h : Heard f replies answers)
    (ha : replies'.filterMap Reply.answer = answers') :
    Heard f (replies ++ replies') (answers ++ answers') := by
  constructor
  · rw [List.filterMap_append, ha]
    exact h.among.append_right answers'
  · intro hf
    rw [List.filterMap_append, ha, h.all hf]

/-- More answers came, all of them for other calls on the same DIR. -/
structure Overheard (f : Function) (answers answers' : List Answer) : Prop where
  among : answers.Sublist answers'
  none : f.dirp = .none → answers' = answers

theorem Overheard.trans {answers' answers'' : List Answer} (h : Overheard f answers answers')
    (h' : Overheard f answers' answers'') : Overheard f answers answers'' :=
  ⟨h.among.trans h'.among, fun hf => (h'.none hf).trans (h.none hf)⟩

theorem Heard.mono {replies : List Reply} {answers' : List Answer} (h : Heard f replies answers)
    (ho : Overheard f answers answers') : Heard f replies answers' := by
  refine ⟨h.among.trans ho.among, fun hf => ?_⟩
  rw [ho.none hf]
  exact h.all hf

/-- A call is done as if it were alone: replies with the answers that came for it make its program, on
what its delegate has before, return the result, make the requests and leave the store. -/
structure ByItself (filesystem : Nat) (a : Arguments) (before : Own) (requests : List Request)
    (answers : List Answer) (v : Result) (s' : Store) : Prop where
  program : ∃ s replies, s.filesystem = some filesystem ∧ s.own a.delegate = before ∧
    s'.requests = s.requests ++ requests ∧ Heard a.function replies answers ∧
    ∀ rest, Line.program script a.delegate a.function s (replies ++ rest) = (some v, s', rest)

theorem ByItself.mono {a : Arguments} {answers' : List Answer} {v : Result} {s' : Store}
    (h : ByItself filesystem a before requests answers v s') (ho : Overheard a.function answers answers') :
    ByItself filesystem a before requests answers' v s' := by
  obtain ⟨s, replies, hfs, hb, hr, hh, hp⟩ := h.program
  exact ⟨s, replies, hfs, hb, hr, hh.mono ho, hp⟩

/-! ## Runs -/

/-- The call's next run is for `code`: the same run in a world of its own, which looks the same to the
call, goes on what its runs there came to. -/
structure Running (filesystem : Nat) (w : World) (c d : Nat) (f : Function) (code : Int) (before : Own)
    (requests : List Request) (answers : List Answer) : Prop where
  apart : ∃ v₀ v n replies, Phase v₀ c d f false false ∧ v₀.filesystem = some filesystem ∧
    v₀.store.own d = before ∧ v.arguments c = ⟨d, f⟩ ∧ (v.delegates d).callback = some c ∧
    v.store.requests = v₀.store.requests ++ requests ∧ Heard f replies answers ∧ Near w v d f ∧
      (Underway w d f ∨ Aligned w v) ∧
    ∀ rest, serve script 4 v₀ (replies ++ rest) c 0 = serve script n v rest c code

/-- The world in which no other delegate is in the middle of a call. -/
def World.quieted (w : World) (d : Nat) : World :=
  { w with delegates := fun d' =>
    if d' = d then w.delegates d else { w.delegates d' with waiting := false, querying := false } }

theorem World.quieted_self (w : World) (d : Nat) : (w.quieted d).delegates d = w.delegates d := if_pos rfl

/-- The first run of a call. -/
theorem Running.start (hfs : w.filesystem = some filesystem) (hq : Quiet (w.delegates d))
    (ha : w.arguments c = ⟨d, f⟩) (hcb : (w.delegates d).callback = some c) (hh : Heard f [] answers) :
    Running filesystem w c d f 0 (w.store.own d) [] answers := by
  have hself := World.quieted_self w d
  refine ⟨w.quieted d, w.quieted d, 4, [], ⟨fun d' hd => ?_, ha, ?_, ?_, ?_⟩, hfs, ?_, ha, ?_, ?_, hh,
    ⟨rfl, hself.symm, fun _ => rfl, fun _ _ => rfl, fun _ _ => rfl⟩, .inr ⟨rfl, rfl⟩, fun _ => rfl⟩
  · have hother : (w.quieted d).delegates d' = { w.delegates d' with waiting := false, querying := false } :=
      if_neg hd
    rw [hother]
    exact ⟨rfl, rfl⟩
  · rw [hself, hcb]
  · rw [hself, hq.waiting]
  · rw [hself, hq.querying]
  · exact World.own_eq hself fun _ => rfl
  · rw [hself, hcb]
  · exact (List.append_nil _).symm

/-- A request of the call is in flight. -/
structure Going (filesystem : Nat) (w : World) (c d : Nat) (f : Function) (before : Own)
    (requests : List Request) (answers : List Answer) (p : Completion) : Prop where
  underway : Underway w d f
  of : p.Of d f
  isFor : p.isFor c f = true
  apart : ∃ v₀ v n replies, Phase v₀ c d f false false ∧ v₀.filesystem = some filesystem ∧
    v₀.store.own d = before ∧ v.arguments c = ⟨d, f⟩ ∧ (v.delegates d).callback = some c ∧
    v.store.requests = v₀.store.requests ++ requests ∧ Heard f replies answers ∧ Near w v d f ∧
    p.callee v = some c ∧
    ∀ answer rest, serve script 4 v₀ (replies ++ .completes answer :: rest) c 0 =
      serve script n (deliver v p answer).1 rest c answer.code

/-- Runs of other calls leave what is in flight. -/
theorem Going.framed {w' : World} {d' : Nat} {f' : Function} {p : Completion}
    {answers' : List Answer} (h : Going filesystem w c d f before requests answers p) (hf : Framed w w' d' f')
    (ha : Arguments.Apart ⟨d, f⟩ ⟨d', f'⟩) (ho : Overheard f answers answers') :
    Going filesystem w' c d f before requests answers' p := by
  obtain ⟨v₀, v, n, replies, h₁, h₂, h₃, h₄, h₅, h₆, hh, hn, h₇, h₈⟩ := h.apart
  refine ⟨⟨?_, h.underway.function, ?_⟩, h.of, h.isFor, v₀, v, n, replies, h₁, h₂, h₃, h₄, h₅, h₆, hh.mono ho,
    hn.framed hf ha, h₇, h₈⟩
  · rw [hf.others d ha.delegate]
    exact h.underway.flag
  · intro dirp hd
    rw [hf.dirs d ha.delegate]
    exact h.underway.owned dirp hd

theorem deliver_log (w : World) (p : Completion) (answer : Answer) :
    (deliver w p answer).1.log = w.log ++ [.delivered p answer] := by
  cases p with
  | listing dirp =>
    simp only [deliver]
    split <;> rfl
  | query d' callback =>
    cases hi : answer.info <;> simp only [deliver, hi] <;> rfl
  | _ => rfl

theorem deliver_requests (w : World) (p : Completion) (answer : Answer) :
    (deliver w p answer).1.store.requests = w.store.requests := by
  show (deliver w p answer).1.log.filterMap Event.request = w.log.filterMap Event.request
  rw [deliver_log, List.filterMap_append]
  exact List.append_nil _

theorem deliver_arguments (w : World) (p : Completion) (answer : Answer) :
    (deliver w p answer).1.arguments = w.arguments := by
  cases p with
  | listing dirp =>
    simp only [deliver]
    split <;> rfl
  | query d' callback =>
    cases hi : answer.info <;> simp only [deliver, hi] <;> rfl
  | _ => rfl

theorem deliver_callback (w : World) (p : Completion) (answer : Answer) (d : Nat) :
    ((deliver w p answer).1.delegates d).callback = (w.delegates d).callback := by
  cases p with
  | listing dirp =>
    simp only [deliver]
    split <;> rfl
  | query d' callback =>
    cases hi : answer.info with
    | none =>
      simp only [deliver, hi]
      rfl
    | some info =>
      simp only [deliver, hi]
      refine (World.setDelegate_callback (w := w.record _) ?_ d).trans rfl
      rfl
  | _ => rfl

/-- The completion of the request in flight is for the call, and its next run comes of it. -/
theorem Going.deliver {p : Completion} (h : Going filesystem w c d f before requests answers p)
    (answer : Answer) :
    (deliver w p answer).2 = some c ∧ Framed w (deliver w p answer).1 d f ∧
      Owned (deliver w p answer).1 d f ∧
      Running filesystem (deliver w p answer).1 c d f answer.code before requests (answers ++ [answer]) := by
  obtain ⟨v₀, v, n, replies, hp, hfs, hb, ha, hcb, hr, hh, hn, hc, hs⟩ := h.apart
  have hd := deliver_alike hn h.underway h.of answer
  refine ⟨?_, hd.framed, hd.underway.owned, v₀, _, n, replies ++ [.completes answer], hp, hfs, hb, ?_, ?_, ?_,
    hh.append rfl, hd.near, .inl hd.underway, fun rest => ?_⟩
  · rw [← hd.callee, deliver_callee, hc]
  · rw [deliver_arguments, ha]
  · rw [deliver_callback, hcb]
  · rw [deliver_requests, hr]
  · rw [List.append_assoc]
    exact hs answer rest

/-! ## One run -/

/-- A run that chains made a request, which was accepted if a completion is to come. -/
theorem switch_chains {imm : Request → Int} (hc : (Html5FileSystem.switch imm w d code f).chaining = true) :
    ∃ r, (Html5FileSystem.switch imm w d code f).request = some r ∧
      ∀ p, (Html5FileSystem.switch imm w d code f).completion = some p → imm r = ppOkCompletionPending := by
  cases f <;> simp only [Html5FileSystem.switch] at hc ⊢
  case open_ => unfold Html5FileSystem.openCall Html5FileSystem.initialize_ accepted at *; grind
  case stat => unfold Html5FileSystem.statCall Html5FileSystem.initialize_ accepted at *; grind
  case close => cases hc
  case fstat => unfold Html5FileSystem.fstatCall at *; grind
  case read => unfold Html5FileSystem.readCall at *; grind
  case write => unfold Html5FileSystem.writeCall at *; grind
  case seek => unfold Html5FileSystem.seekCall at *; grind
  case isatty => cases hc
  case fcntl => unfold Html5FileSystem.fcntlCall at *; grind
  case mkdir => unfold Html5FileSystem.mkDirCall Html5FileSystem.initialize_ accepted at *; grind
  case opendir => unfold Html5FileSystem.openDirCall Html5FileSystem.initialize_ accepted at *; grind
  case rewinddir => unfold Html5FileSystem.rewindDirCall at *; grind
  case readdir => unfold Html5FileSystem.readDirCall at *; grind
  case closedir => unfold Html5FileSystem.closeDirCall at *; grind

variable {imm : Request → Int}

theorem proxy_imm {imm' : Request → Int} (h : ∀ r, (proxy imm w c code).request = some r → imm' r = imm r) :
    proxy imm' w c code = proxy imm w c code := by
  have hs := switch_imm (w := w) (d := (w.arguments c).delegate) (f := (w.arguments c).function) h
  simp only [proxy, hs]

/-- The request of a run that does not chain was refused, or its code is not looked at. -/
theorem switch_refused {r : Request} (hc : (Html5FileSystem.switch imm w d code f).chaining = false)
    (hr : (Html5FileSystem.switch imm w d code f).request = some r) :
    imm r ≠ ppOkCompletionPending ∨ f = .close := by
  cases f <;> simp only [Html5FileSystem.switch] at hc hr
  case close => exact .inr rfl
  case readdir dirp =>
    unfold Html5FileSystem.readDirCall at hc hr
    cases hd : w.dir dirp with
    | none =>
      rw [hd] at hr
      cases hr
    | some dir =>
      simp only [hd] at hc hr
      split at hr
      · split at hr <;> cases hr
      · split at hr
        · cases hr
        · split at hr
          · cases hr
            grind [ppOk, ppOkCompletionPending]
          · grind
  all_goals refine .inl ?_
  case open_ => unfold Html5FileSystem.openCall Html5FileSystem.initialize_ accepted at *; grind
  case stat => unfold Html5FileSystem.statCall Html5FileSystem.initialize_ accepted at *; grind
  case fstat => unfold Html5FileSystem.fstatCall at *; grind
  case read => unfold Html5FileSystem.readCall at *; grind
  case write => unfold Html5FileSystem.writeCall at *; grind
  case seek => unfold Html5FileSystem.seekCall at *; grind
  case isatty => cases hr
  case fcntl => unfold Html5FileSystem.fcntlCall at *; grind
  case mkdir => unfold Html5FileSystem.mkDirCall Html5FileSystem.initialize_ accepted at *; grind
  case opendir => unfold Html5FileSystem.openDirCall Html5FileSystem.initialize_ accepted at *; grind
  case rewinddir => unfold Html5FileSystem.rewindDirCall at *; grind
  case closedir => unfold Html5FileSystem.closeDirCall at *; grind

/-- A run that does not chain is the same with replies that nothing comes of. -/
theorem proxy_refused (hc : (proxy imm w c code).chaining = false) : ∃ replies : List Reply,
    replies.filterMap Reply.answer = [] ∧
    ∀ rest, proxy (Backend.imm script (replies ++ rest)) w c code = proxy imm w c code ∧
      Backend.after script (replies ++ rest) (proxy imm w c code).request = rest := by
  cases hr : (proxy imm w c code).request with
  | none =>
    refine ⟨[], rfl, fun rest => ⟨proxy_imm fun r hr' => ?_, rfl⟩⟩
    rw [hr] at hr'
    cases hr'
  | some r =>
    rcases switch_refused hc hr with h | h
    · refine ⟨[.refused (imm r) h], rfl, fun rest => ⟨proxy_imm fun r' hr' => ?_, rfl⟩⟩
      rw [hr] at hr'
      cases hr'
      rfl
    · refine ⟨[.refused ppOk (by decide)], rfl, fun rest => ⟨?_, rfl⟩⟩
      simp only [proxy, h, Html5FileSystem.switch]

theorem proxy_requests (imm : Request → Int) (w : World) (c : Nat) (code : Int) :
    (proxy imm w c code).world.store.requests = w.store.requests ++ (proxy imm w c code).request.toList := by
  have hlog : (Html5FileSystem.switch imm w (w.arguments c).delegate code (w.arguments c).function).world.log =
    w.log := switch_log
  have hsame (u : World) (q : Option Request) :
      (u.issue c q).store.requests = u.log.filterMap Event.request ++ q.toList := by
    cases q with
    | none => exact (List.append_nil _).symm
    | some r =>
      show (u.record (.issued c r)).store.requests = _
      rw [World.store_issued]
      rfl
  show (World.issue _ c _).store.requests = _
  rw [hsame, hlog]
  rfl

/-- What the call's run comes to: it is done as if it were alone, or its request is in flight, unless
that was refused. -/
inductive Came (filesystem : Nat) (imm : Request → Int) (c d : Nat) (f : Function) (before : Own)
    (requests : List Request) (answers : List Answer) (e : Entry) : Prop
  | final (hc : e.chaining = false) (hq : Quiet (e.world.delegates d)) {s' : Store}
      (ha : ByItself filesystem ⟨d, f⟩ before (requests ++ e.request.toList) answers e.result s')
      (ho : s'.own d = e.world.store.own d) (hf : Filled f e.world s') :
      Came filesystem imm c d f before requests answers e
  | chains (hc : e.chaining = true) {r : Request} (hr : e.request = some r)
      (hg : ∀ p, e.completion = some p →
        Going filesystem e.world c d f before (requests ++ [r]) answers p) :
      Came filesystem imm c d f before requests answers e

theorem Completion.isFor_of {p : Completion} (ho : p.Of d f) (hc : p.callee w = some c) :
    p.isFor c f = true := by
  cases p with
  | listing dirp =>
    apply decide_eq_true
    exact ho
  | _ =>
    apply decide_eq_true
    exact hc

variable (imm) in
theorem Running.run (h : Running filesystem w c d f code before requests answers) (hw : w.arguments c = ⟨d, f⟩)
    (hfs : w.filesystem = some filesystem) (ho : Owned w d f) :
    Framed w (proxy imm w c code).world d f ∧
      Came filesystem imm c d f before requests answers (proxy imm w c code) := by
  obtain ⟨v₀, v, n, replies, hp, hfs₀, hb, ha, hcb, hreq, hh, hn, hr, hs⟩ := h.apart
  have hal : Alike w d f (proxy imm w c code) (proxy imm v c code) := proxy_alike hn hw ha hfs hr ho
  refine ⟨hal.framed, ?_⟩
  -- The call is served in its own world as its program says, so it has a run to come.
  have hprogram (rest : List Reply) : Agrees (serve script n v rest c code)
      (Line.program script d f v₀.store (replies ++ rest)) := by
    rw [← hs rest]
    exact serve_program hp
  obtain ⟨k, rfl⟩ : ∃ k, n = k + 1 := by
    cases n with
    | zero => exact (hprogram []).elim
    | succ k => exact ⟨k, rfl⟩
  cases hc : (proxy imm w c code).chaining with
  | false =>
    have hc' : (proxy imm v c code).chaining = false := hal.chaining.trans hc
    obtain ⟨refused, hnone, hsame⟩ := proxy_refused hc'
    have hserve (rest : List Reply) : serve script (k + 1) v (refused ++ rest) c code =
        .returned (proxy imm v c code).result (proxy imm v c code).world rest := by
      obtain ⟨hi, hafter⟩ := hsame rest
      rw [serve]
      simp only [hi, hc', hafter, Bool.false_eq_true, not_false_eq_true, if_true]
    have hag (rest : List Reply) := hprogram (refused ++ rest)
    simp only [hserve] at hag
    have hheard := hh.append hnone
    rw [List.append_nil] at hheard
    refine .final hc ?_ (@ByItself.mk _ _ _ _ _ _ (proxy imm v c code).world.store
      ⟨v₀.store, replies ++ refused, hfs₀, hb, ?_, hheard, fun rest => ?_⟩) ?_ ?_
    · rw [hal.near.delegate]
      exact (hag []).2 d
    · rw [proxy_requests, hreq, hal.request, List.append_assoc]
    · rw [List.append_assoc, (hag rest).1, hal.result]
    · exact hal.near.own.symm
    · exact ⟨hal.near.stats, hal.near.buffers⟩
  | true =>
    have hc' : (proxy imm v c code).chaining = true := hal.chaining.trans hc
    obtain ⟨r, hr', hacc⟩ := switch_chains hc'
    have hr'' : (proxy imm v c code).request = some r := hr'
    refine .chains hc (hal.request.symm.trans hr'') fun p hp' => ?_
    have hp'' : (proxy imm v c code).completion = some p := hal.completion.trans hp'
    have hpend : (proxy imm v c code).ran.pending = some (r, p) := by
      simp only [Entry.ran, hr'', hp'']
      rfl
    have hchains := Chains.proxy imm v c code
    have hcallee : p.callee (proxy imm v c code).world = some c :=
      hchains.callee c (by rw [ha]; exact hcb) r p hpend
    refine ⟨hal.underway hc, hal.of p hp', Completion.isFor_of (hal.of p hp') hcallee, v₀,
      (proxy imm v c code).world, k, replies, hp, hfs₀, hb, ?_, ?_, ?_, hh, hal.near, hcallee,
      fun answer rest => ?_⟩
    · rw [hchains.arguments, ha]
    · rw [hchains.callback, hcb]
    · rw [proxy_requests, hreq, hr'', List.append_assoc]
      rfl
    · have hi : proxy (Backend.imm script (.completes answer :: rest)) v c code = proxy imm v c code := by
        apply proxy_imm
        intro r' hr'
        rw [hr''] at hr'
        cases hr'
        exact (hacc p hp'').symm
      rw [hs, serve]
      simp only [hi, hc', not_true_eq_false, if_false, hp'', hr'']
      have hd : deliver (proxy imm v c code).world p answer =
          ((deliver (proxy imm v c code).world p answer).1, some c) := by
        rw [← hcallee, ← deliver_callee _ p answer]
      simp only [Backend.answer, Backend.after, script]
      rw [hd]

end NaClFs
