/-
Workers that use different files and different memory, in any number and any interleaving: each call
is its straight-line program on the replies to its own requests, and the calls on one delegate go on
what the ones before them left, whatever is done on other delegates meanwhile.
-/
import NaClFs.Thread.Alone

namespace NaClFs

open Rendezvous

/-! ## What is on record for a call -/

/-- What was added to the record is not of the call, except for the answers to others on its DIR. -/
structure Bystander (c : Nat) (f : Function) (log log' : List Event) : Prop where
  requests : requestsOf c log' = requestsOf c log
  answers : Overheard f (answersOf c f log) (answersOf c f log')

theorem Bystander.trans {c : Nat} {f : Function} {log log' log'' : List Event} (h : Bystander c f log log')
    (h' : Bystander c f log' log'') : Bystander c f log log'' :=
  ⟨h'.requests.trans h.requests, h.answers.trans h'.answers⟩

theorem answersOf_append (c : Nat) (f : Function) (log log' : List Event) :
    answersOf c f (log ++ log') = answersOf c f log ++ answersOf c f log' := List.filterMap_append

theorem requestsOf_map_issued (c c' : Nat) (requests : List Request) :
    requestsOf c' (requests.map (Event.issued c)) = if c' = c then requests else [] := by
  induction requests with
  | nil => simp [requestsOf]
  | cons r requests ih =>
    rw [List.map_cons, ← List.singleton_append, requestsOf_append, ih]
    by_cases he : c' = c
    · subst he
      rw [if_pos rfl, if_pos rfl, requestsOf_issued]
      rfl
    · rw [if_neg he, if_neg he, requestsOf_issued_of_ne (Ne.symm he)]
      rfl

theorem answersOf_map_issued (c c' : Nat) (f : Function) (requests : List Request) :
    answersOf c' f (requests.map (Event.issued c)) = [] := by
  induction requests with
  | nil => rfl
  | cons r requests ih => exact ih

theorem answersOf_delivered {c : Nat} {f : Function} {p : Completion} (h : p.isFor c f = true)
    (answer : Answer) :
    answersOf c f [.delivered p answer] = [answer] := by
  simp [answersOf, h]

/-- A completion for a call is for no other call, unless that is on the same DIR. -/
theorem Overheard.delivered {c c' : Nat} {f : Function} {p : Completion} (h : p.isFor c f = true) (hne : c' ≠ c)
    (f' : Function) (answer : Answer) : Overheard f' [] (answersOf c' f' [.delivered p answer]) := by
  refine ⟨List.nil_sublist _, fun hd => ?_⟩
  have hnot : p.isFor c' f' = false := by
    cases p with
    | listing dirp => simp [Completion.isFor, hd]
    | _ =>
      have hcallback := of_decide_eq_true h
      apply decide_eq_false
      rw [hcallback]
      exact fun he => hne (Option.some.inj he).symm
  simp [answersOf, hnot]

/-! ## One delegate -/

/-- The calls that finished on a delegate, one after the other, each as if it were alone. -/
inductive Serially (filesystem : Nat) (log : List Event) (d : Nat) :
    Own → List (Nat × Function × Result) → Own → Prop
  | nil (own : Own) : Serially filesystem log d own [] own
  | snoc {own own' : Own} {calls : List (Nat × Function × Result)} {c : Nat} {f : Function} {v : Result}
      {s' : Store} (h : Serially filesystem log d own calls own')
      (ha : ByItself filesystem ⟨d, f⟩ own' (requestsOf c log) (answersOf c f log) v s') :
      Serially filesystem log d own (calls ++ [(c, f, v)]) (s'.own d)

theorem Serially.mono {filesystem d : Nat} {log log' : List Event} {own own' : Own}
    {calls : List (Nat × Function × Result)} (h : Serially filesystem log d own calls own')
    (hl : ∀ x ∈ calls, Bystander x.1 x.2.1 log log') : Serially filesystem log' d own calls own' := by
  induction h with
  | nil => exact .nil own
  | @snoc own' calls c f v s' _ ha ih =>
    apply Serially.snoc (ih fun x hx => hl x (List.mem_append_left _ hx))
    have hc := hl (c, f, v) (List.mem_append_right _ (List.mem_singleton_self _))
    rw [hc.requests]
    exact ha.mono hc.answers

/-- Each of them. -/
theorem Serially.mem {filesystem d c : Nat} {f : Function} {v : Result} {log : List Event} {own own' : Own}
    {calls : List (Nat × Function × Result)} (h : Serially filesystem log d own calls own')
    (hc : (c, f, v) ∈ calls) : ∃ before s',
      ByItself filesystem ⟨d, f⟩ before (requestsOf c log) (answersOf c f log) v s' := by
  induction h with
  | nil => cases hc
  | snoc _ ha ih =>
    rcases List.mem_append.1 hc with hc | hc
    · exact ih hc
    · cases List.mem_singleton.1 hc
      exact ⟨_, _, ha⟩

namespace Delegate

/-- The calls that finished on a delegate, in order. -/
def State.callsOn (u : State) (d : Nat) : List (Nat × Function × Result) :=
  (u.finished.filter fun x => (u.world.arguments x.1).delegate = d).map fun x =>
    (x.1, (u.world.arguments x.1).function, x.2)

theorem State.mem_callsOn {u : State} {d : Nat} {x : Nat × Function × Result} (h : x ∈ u.callsOn d) :
    x.1 ∈ u.finished.map Prod.fst := by
  obtain ⟨y, hy, rfl⟩ := List.mem_map.1 h
  exact List.mem_map_of_mem (List.mem_filter.1 hy).1

theorem State.mem_callsOn_of {u : State} {c : Nat} {v : Result} (h : (c, v) ∈ u.finished) :
    (c, (u.world.arguments c).function, v) ∈ u.callsOn (u.world.arguments c).delegate :=
  List.mem_map_of_mem (List.mem_filter.2 ⟨h, decide_eq_true rfl⟩)

theorem State.callsOn_congr {u u' : State} {d : Nat} (hf : u'.finished = u.finished)
    (ha : ∀ x ∈ u.finished, u'.world.arguments x.1 = u.world.arguments x.1) : u'.callsOn d = u.callsOn d := by
  unfold callsOn
  rw [hf]
  have hfilter : (u.finished.filter fun x => (u'.world.arguments x.1).delegate = d) =
      u.finished.filter fun x => (u.world.arguments x.1).delegate = d :=
    List.filter_congr fun x hx => by rw [ha x hx]
  rw [hfilter]
  exact List.map_congr_left fun x hx => by rw [ha x (List.mem_filter.1 hx).1]

/-- The call that is not posted yet. -/
def starting : Pc → Option Nat
  | .entered c | .holding c => some c
  | _ => none

/-- No run was made for the call yet. -/
def State.Unstarted (u : State) (c : Nat) : Prop :=
  u.calls ≤ c ∨ (c, .start) ∈ u.queue ∨ ∃ t, starting (u.threads t) = some c

theorem call_of_starting {pc : Pc} {c : Nat} (h : starting pc = some c) :
    pc.call = some c ∧ pc.served = none := by
  cases pc <;> first | exact ⟨h, rfl⟩ | cases h

theorem State.Unstarted.unfinished {u : State} {c : Nat} (h : u.Unstarted c) (hi : u.Inv) :
    c ∉ u.finished.map Prod.fst := by
  rcases h with h | h | ⟨t, h⟩
  · intro hm
    obtain ⟨⟨c, v⟩, hv, rfl⟩ := List.mem_map.1 hm
    exact absurd (hi.results c v hv).2 (Nat.not_lt.2 h)
  · exact (hi.served c (List.mem_append_left _ (List.mem_map_of_mem h))).2
  · have hf := hi.fits t
    generalize u.threads t = pc at h hf
    cases pc with
    | entered | holding =>
      cases h
      exact hf
    | _ => cases h

/-- A call with a request in flight is in progress. -/
theorem State.flying {u : State} {c : Nat} {p : Request × Completion} (hi : u.Inv) (h : (c, p) ∈ u.flights) :
    c < u.calls ∧ c ∉ u.finished.map Prod.fst := by
  obtain ⟨⟨t, ht⟩, hc⟩ := hi.served c (Sys.mem_labels_of_flight h)
  exact ⟨hi.base.lt t c (Pc.call_of_served ht), hc⟩

/-- A caller fills in its `Arguments` and sets `callback_`. -/
def State.entered (u : State) (t : Nat) (q : Arguments) : State :=
  ({ u with world := u.world.enter u.calls q, calls := u.calls + 1 } : State).setThread t (.entered u.calls)

theorem State.entered_arguments (u : State) (t : Nat) (q : Arguments) {c : Nat} (hc : c < u.calls) :
    (u.entered t q).world.arguments c = u.world.arguments c := World.enter_of_ne _ (Nat.ne_of_lt hc) _

theorem State.entered_self (u : State) (t : Nat) (q : Arguments) :
    (u.entered t q).world.arguments u.calls = q := World.enter_self ..

/-- The new call is the only one that was not there before. -/
theorem State.entered_unstarted {u : State} {t : Nat} {q : Arguments} {c : Nat}
    (h : (u.entered t q).Unstarted c) : u.Unstarted c := by
  rcases h with h | h | ⟨t', h⟩
  · exact .inl (Nat.le_of_succ_le h)
  · exact .inr (.inl h)
  · unfold State.entered at h
    rw [Sys.threads_setThread] at h
    split at h
    · cases h
      exact .inl (Nat.le_refl _)
    · exact .inr (.inr ⟨t', h⟩)

end Delegate

/-! ## The invariant -/

/-- The calls in progress are on different delegates and use different memory. The calls that finished
on a delegate were made one after the other, and left what it has if none in progress made a request on
it; a request in flight is of a call that goes on as if it were alone. -/
structure Apart (w : World) (filesystem : Nat) (u : Delegate.State) (log : List Event) : Prop where
  opened : u.world.filesystem = some filesystem
  recorded : u.world.log = w.log ++ log
  apart : ∀ c c', c < u.calls → c' < u.calls → c ≠ c' → c ∉ u.finished.map Prod.fst →
    c' ∉ u.finished.map Prod.fst → (u.world.arguments c).Apart (u.world.arguments c')
  unissued : ∀ c, u.Unstarted c → ∀ f, Bystander c f [] log
  waits : ∀ c, c < u.calls → u.Unstarted c →
    Owned u.world (u.world.arguments c).delegate (u.world.arguments c).function ∧
      (u.world.delegates (u.world.arguments c).delegate).callback = some c
  done : ∀ d, ∃ own, Serially filesystem log d (w.store.own d) (u.callsOn d) own
  rests : ∀ d, (∀ c, c < u.calls → c ∉ u.finished.map Prod.fst → (u.world.arguments c).delegate = d →
    requestsOf c log = []) → Quiet (u.world.delegates d) ∧
      Serially filesystem log d (w.store.own d) (u.callsOn d) (u.world.store.own d)
  goes : ∀ c r p, (c, r, p) ∈ u.flights → ∃ before,
    Serially filesystem log (u.world.arguments c).delegate (w.store.own (u.world.arguments c).delegate)
      (u.callsOn (u.world.arguments c).delegate) before ∧
    Going filesystem u.world c (u.world.arguments c).delegate (u.world.arguments c).function before
      (requestsOf c log) (answersOf c (u.world.arguments c).function log) p
  memory : ∀ c, u.main.call = some c → ∃ before v s', (c, v) ∈ u.finished ∧
    ByItself filesystem (u.world.arguments c) before (requestsOf c log)
      (answersOf c (u.world.arguments c).function log) v s' ∧
    Filled (u.world.arguments c).function u.world s'

variable {w : World} {filesystem : Nat} {u u' : Delegate.State} {log : List Event} {c : Nat}

theorem Apart.init (hq : Quiescent w) (hfs : w.filesystem = some filesystem) :
    Apart w filesystem ({ world := w } : Delegate.State) [] where
  opened := hfs
  recorded := (List.append_nil _).symm
  apart _ _ h := absurd h (Nat.not_lt_zero _)
  unissued _ _ _ := ⟨rfl, .refl _, fun _ => rfl⟩
  waits _ h := absurd h (Nat.not_lt_zero _)
  done d := ⟨_, .nil _⟩
  rests d _ := ⟨hq d, .nil _⟩
  goes _ _ _ h := absurd h List.not_mem_nil
  memory _ h := by cases h

/-- Steps that make no run and no call. -/
theorem Apart.of_eq (h : Apart w filesystem u log) (hw : u'.world = u.world) (hc : u'.calls = u.calls)
    (hf : u'.finished = u.finished) (hp : u'.flights.Perm u.flights)
    (hs : ∀ c, u'.Unstarted c → u.Unstarted c) (hm : ∀ c, u'.main.call = some c → u.main.call = some c) :
    Apart w filesystem u' log := by
  have hon (d : Nat) : u'.callsOn d = u.callsOn d :=
    Delegate.State.callsOn_congr hf fun x _ => by rw [hw]
  constructor
  · rw [hw]
    exact h.opened
  · rw [hw]
    exact h.recorded
  · rw [hw, hc, hf]
    exact h.apart
  · exact fun c hu => h.unissued c (hs c hu)
  · rw [hw, hc]
    exact fun c hlt hu => h.waits c hlt (hs c hu)
  · intro d
    rw [hon]
    exact h.done d
  · intro d
    rw [hw, hc, hf, hon]
    exact h.rests d
  · intro c r p hm
    rw [hw, hon]
    exact h.goes c r p (hp.mem_iff.1 hm)
  · intro c hc'
    rw [hw, hf]
    exact h.memory c (hm c hc')

/-- What is asked of the callers and of the signals: a call that is entered is apart from those in
progress, and on a DIR of its delegate, if on any; a signal wakes the caller of the call that has just
finished. -/
def Separate (u : Delegate.State) : Delegate.Action → Prop
  | .enter _ q => Owned u.world q.delegate q.function ∧
      ∀ c, c < u.calls → c ∉ u.finished.map Prod.fst → q.Apart (u.world.arguments c)
  | .signal (some t) => ∀ c, u.main = .signalling c → u.threads t = .waiting c
  | _ => True

theorem World.enter_framed (w : World) (c : Nat) (q : Arguments) :
    Framed w (w.enter c q) q.delegate q.function :=
  ⟨rfl, fun _ hd => Function.update_of_ne hd .., fun _ _ _ => rfl, fun _ _ => rfl, fun _ _ => rfl⟩

theorem Apart.enter (h : Apart w filesystem u log) (hi : u.Inv) {t : Nat} {q : Arguments}
    (hs : Separate u (.enter t q)) : Apart w filesystem (u.entered t q) log := by
  obtain ⟨hown, hq⟩ := hs
  have hframe : Framed u.world (u.entered t q).world q.delegate q.function := u.world.enter_framed u.calls q
  have hargs {c : Nat} (hc : c < u.calls) := u.entered_arguments t q hc
  have hself := u.entered_self t q
  have hon (d : Nat) : (u.entered t q).callsOn d = u.callsOn d :=
    Delegate.State.callsOn_congr rfl fun x hx => hargs (hi.results _ _ hx).2
  have hcallback : ((u.entered t q).world.delegates q.delegate).callback = some u.calls := by
    simp [Delegate.State.entered, Sys.setThread, World.enter]
  have hcases {c : Nat} (hc : c < (u.entered t q).calls) : c < u.calls ∨ c = u.calls :=
    Nat.lt_succ_iff_lt_or_eq.1 hc
  constructor
  · exact h.opened
  · exact h.recorded
  · intro c c' hc hc' hne hn hn'
    rcases hcases hc with hc | rfl
    · rcases hcases hc' with hc' | rfl
      · rw [hargs hc, hargs hc']
        exact h.apart c c' hc hc' hne hn hn'
      · rw [hargs hc, hself]
        exact (hq c hc hn).symm
    · rcases hcases hc' with hc' | rfl
      · rw [hargs hc', hself]
        exact hq c' hc' hn'
      · exact absurd rfl hne
  · exact fun c hu => h.unissued c (Delegate.State.entered_unstarted hu)
  · intro c hc hu
    rcases hcases hc with hc | rfl
    · have hu' := Delegate.State.entered_unstarted hu
      have hne : (u.world.arguments c).delegate ≠ q.delegate := (hq c hc (hu'.unfinished hi)).delegate.symm
      obtain ⟨ho, hcb⟩ := h.waits c hc hu'
      rw [hargs hc, hframe.others _ hne]
      exact ⟨ho, hcb⟩
    · rw [hself]
      exact ⟨hown, hcallback⟩
  · intro d
    rw [hon]
    exact h.done d
  · intro d hd
    have hrest := h.rests d fun c hc hn he =>
      hd c (Nat.lt_succ_of_lt hc) hn ((congrArg Arguments.delegate (hargs hc)).trans he)
    have hown' : (u.entered t q).world.store.own d = u.world.store.own d := by
      show (World.store _).own d = _
      rw [show (u.entered t q).world.store = u.world.store from World.store_enter ..]
    rw [hon, hown']
    refine ⟨?_, hrest.2⟩
    by_cases hne : d = q.delegate
    · have hquiet := hrest.1
      have hflags : ((u.entered t q).world.delegates d).waiting = (u.world.delegates d).waiting ∧
          ((u.entered t q).world.delegates d).querying = (u.world.delegates d).querying := by
        subst hne
        simp [Delegate.State.entered, Sys.setThread, World.enter]
      exact ⟨hflags.1.trans hquiet.waiting, hflags.2.trans hquiet.querying⟩
    · rw [hframe.others d hne]
      exact hrest.1
  · intro c r p hm
    obtain ⟨hc, hn⟩ := Delegate.State.flying hi hm
    obtain ⟨before, hser, hgoing⟩ := h.goes c r p hm
    rw [hargs hc, hon]
    exact ⟨before, hser, hgoing.framed hframe (hq c hc hn).symm ⟨.refl _, fun _ => rfl⟩⟩
  · intro c hc
    obtain ⟨before, v, s', hm, hby, hfill⟩ := h.memory c hc
    have hlt := (hi.results c v hm).2
    rw [hargs hlt]
    exact ⟨before, v, s', hm, hby, hfill.stats, hfill.buffers⟩

/-! ## Runs of the main thread -/

section

variable {queue : List (Nat × Job (Request × Completion) Answer)} {w₁ : World} {d : Nat} {f : Function}
  {e : Entry}

/-- What a run for the call does to the state, besides the world. -/
structure RanFor (u u' : Delegate.State) (c : Nat) (e : Entry) : Prop where
  world : u'.world = e.world
  calls : u'.calls = u.calls
  finished : u'.finished = if e.chaining then u.finished else u.finished ++ [(c, e.result)]
  main : u'.main.call = if e.chaining then none else some c
  /-- The requests in flight are those of the other calls, and the one it left. -/
  flights : ∀ c' p, (c', p) ∈ u'.flights → c' ≠ c ∧ (c', p) ∈ u.flights ∨ c' = c ∧ e.ran.pending = some p
  unstarted : ∀ c', u'.Unstarted c' → c' ≠ c ∧ u.Unstarted c'

theorem RanFor.ran (hi : u.Inv) {j : Job (Request × Completion) Answer} (hq : u.queue = (c, j) :: queue)
    (e : Entry) : RanFor u ({ u with queue := queue }.ran e.world c e.ran) c e := by
  have ht := hi.turn hq
  refine ⟨rfl, rfl, ?_, ?_, fun c' p hm => ?_, fun c' hu => ?_⟩
  · cases hc : e.chaining <;> simp [Sys.ran, Entry.ran, hc]
  · cases hc : e.chaining <;> simp [Sys.ran, Entry.ran, hc, MainPc.call]
  · rw [Sys.flights_ran] at hm
    rcases List.mem_append.1 hm with hm | hm
    · have hl : c' ∈ Sys.labels { u with queue := queue } := Sys.mem_labels_of_flight hm
      refine .inl ⟨fun he => ht.fresh (he ▸ hl), ?_⟩
      cases j with
      | start =>
        rw [Sys.flights_start hq]
        exact hm
      | done p' a =>
        rw [Sys.flights_done hq]
        exact List.mem_cons_of_mem _ hm
    · obtain ⟨p', hp, he⟩ := List.mem_map.1 hm
      cases he
      exact .inr ⟨rfl, Option.mem_toList.1 hp⟩
  · obtain ⟨t, hserved⟩ := ht.caller
    have hcall := Pc.call_of_served hserved
    rcases hu with hu | hu | ⟨t', hu⟩
    · refine ⟨?_, .inl hu⟩
      rintro rfl
      exact absurd ht.lt (Nat.not_lt.2 hu)
    · refine ⟨?_, .inr (.inl (by rw [hq]; exact List.mem_cons_of_mem _ hu))⟩
      rintro rfl
      exact ht.fresh (List.mem_append_left _ (List.mem_map_of_mem hu))
    · have hu' : Delegate.starting (u.threads t') = some c' := hu
      refine ⟨?_, .inr (.inr ⟨t', hu'⟩)⟩
      rintro rfl
      -- The caller of the call has posted it.
      obtain ⟨hcall', hserved'⟩ := Delegate.call_of_starting hu'
      obtain rfl := hi.base.inj t t' c' hcall hcall'
      rw [hserved'] at hserved
      cases hserved

theorem RanFor.unfinished (h : RanFor u u' c e) {c' : Nat} (hn : c' ∉ u'.finished.map Prod.fst) :
    c' ∉ u.finished.map Prod.fst := by
  intro hm
  apply hn
  rw [h.finished]
  split
  · exact hm
  · rw [List.map_append]
    exact List.mem_append_left _ hm

theorem RanFor.callsOn (h : RanFor u u' c e) (ha : e.world.arguments = u.world.arguments)
    (hd : u.world.arguments c = ⟨d, f⟩) (d' : Nat) :
    u'.callsOn d' =
      if e.chaining = false ∧ d' = d then u.callsOn d' ++ [(c, f, e.result)] else u.callsOn d' := by
  unfold Delegate.State.callsOn
  rw [h.finished, h.world, ha]
  cases hc : e.chaining with
  | true => rw [if_pos rfl, if_neg (by simp)]
  | false =>
    by_cases he : d' = d
    · simp [hd, he]
    · simp [hd, he, Ne.symm he]

theorem proxy_log (imm : Request → Int) (w : World) (c : Nat) (code : Int) :
    (proxy imm w c code).world.log = w.log ++ (proxy imm w c code).request.toList.map (Event.issued c) := by
  have hlog : (Html5FileSystem.switch imm w (w.arguments c).delegate code (w.arguments c).function).world.log =
    w.log := switch_log
  have hissue (v : World) (q : Option Request) :
      (v.issue c q).log = v.log ++ q.toList.map (Event.issued c) := by
    cases q with
    | none => exact (List.append_nil _).symm
    | some r => rfl
  unfold proxy
  rw [hissue, hlog]

/-- What a run for a call did, in the world and on record. -/
structure Moved (filesystem : Nat) (imm : Request → Int) (u : Delegate.State) (log log' : List Event)
    (c d : Nat) (f : Function) (before : Own) (e : Entry) : Prop where
  framed : Framed u.world e.world d f
  arguments : e.world.arguments = u.world.arguments
  own : requestsOf c log' = requestsOf c log ++ e.request.toList
  others : ∀ c' f', c' ≠ c → Bystander c' f' log log'
  came : Came filesystem imm c d f before (requestsOf c log) (answersOf c f log') e
  settled : e.chaining = false → e.completion = none

variable {log' : List Event} {before : Own} {imm : Request → Int}

/-- The calls of the other delegates are as they were. -/
theorem Moved.serially (hm : Moved filesystem imm u log log' c d f before e) (hc : c ∉ u.finished.map Prod.fst)
    {d' : Nat} {own own' : Own} (hs : Serially filesystem log d' own (u.callsOn d') own') :
    Serially filesystem log' d' own (u.callsOn d') own' := by
  apply hs.mono
  intro x hx
  apply hm.others x.1 x.2.1
  rintro rfl
  exact hc (Delegate.State.mem_callsOn hx)

/-- A run for a call keeps the invariant. -/
theorem Apart.ran (h : Apart w filesystem u log) (hi : u.Inv) (hr : RanFor u u' c e)
    (hm : Moved filesystem imm u log log' c d f before e) (hd : u.world.arguments c = ⟨d, f⟩)
    (hlt : c < u.calls) (hc : c ∉ u.finished.map Prod.fst) (hlog : e.world.log = w.log ++ log')
    (hser : Serially filesystem log d (w.store.own d) (u.callsOn d) before) :
    Apart w filesystem u' log' := by
  have hargs : u'.world.arguments = u.world.arguments := by rw [hr.world, hm.arguments]
  have hon := hr.callsOn hm.arguments hd
  have hapart {c' : Nat} (hlt' : c' < u.calls) (hn : c' ∉ u.finished.map Prod.fst) (hne : c' ≠ c) :
      (u.world.arguments c').Apart ⟨d, f⟩ := by
    rw [← hd]
    exact h.apart c' c hlt' hlt hne hn hc
  constructor
  · rw [hr.world]
    exact hm.framed.filesystem.trans h.opened
  · rw [hr.world]
    exact hlog
  · intro c₁ c₂ hc₁ hc₂ hne hn₁ hn₂
    rw [hr.calls] at hc₁ hc₂
    rw [hargs]
    exact h.apart c₁ c₂ hc₁ hc₂ hne (hr.unfinished hn₁) (hr.unfinished hn₂)
  · intro c' hu f'
    obtain ⟨hne, hu'⟩ := hr.unstarted c' hu
    exact (h.unissued c' hu' f').trans (hm.others c' f' hne)
  · intro c' hlt' hu
    obtain ⟨hne, hu'⟩ := hr.unstarted c' hu
    rw [hr.calls] at hlt'
    obtain ⟨ho, hcb⟩ := h.waits c' hlt' hu'
    have ha := hapart hlt' (hu'.unfinished hi) hne
    rw [hargs, hr.world, hm.framed.others _ ha.delegate]
    refine ⟨fun dirp hp => ?_, hcb⟩
    rw [hm.framed.dirs _ ha.delegate]
    exact ho dirp hp
  · intro d'
    rw [hon]
    by_cases he : d' = d
    · subst he
      cases hm.came with
      | final hc' hq ha ho hf =>
        rw [if_pos ⟨hc', rfl⟩]
        rw [← hm.own] at ha
        exact ⟨_, .snoc (hm.serially hc hser) ha⟩
      | chains hc' hq =>
        rw [if_neg (by simp [hc'])]
        exact ⟨_, hm.serially hc hser⟩
    · obtain ⟨own, hdone⟩ := h.done d'
      rw [if_neg fun hh => he hh.2]
      exact ⟨own, hm.serially hc hdone⟩
  · intro d' hd'
    rw [hr.world, hon]
    by_cases he : d' = d
    · subst he
      cases hm.came with
      | final hc' hq ha ho hf =>
        rw [if_pos ⟨hc', rfl⟩, ← ho]
        refine ⟨hq, .snoc (hm.serially hc hser) ?_⟩
        rw [hm.own]
        exact ha
      | chains hc' hq =>
        -- It made a request and is still in progress.
        have hnone := hd' c (by rw [hr.calls]; exact hlt) (by rw [hr.finished, hc']; exact hc)
          (by rw [hargs, hd])
        rw [hm.own, hq] at hnone
        simp at hnone
    · have hrest := h.rests d' fun c' hlt' hn hdel => by
        have hne : c' ≠ c := by
          rintro rfl
          rw [hd] at hdel
          exact he hdel.symm
        rw [← (hm.others c' .close hne).requests]
        apply hd' c' (by rw [hr.calls]; exact hlt') ?_ (by rw [hargs]; exact hdel)
        rw [hr.finished]
        split
        · exact hn
        · simpa [hne] using hn
      rw [if_neg fun hh => he hh.2, hm.framed.others d' he, hm.framed.own he]
      exact ⟨hrest.1, hm.serially hc hrest.2⟩
  · intro c' r p hfl
    rw [hargs, hr.world, hon]
    rcases hr.flights c' (r, p) hfl with ⟨hne, hfl⟩ | ⟨rfl, hp⟩
    · obtain ⟨hlt', hn⟩ := Delegate.State.flying hi hfl
      have ha := hapart hlt' hn hne
      obtain ⟨before', hser', hgoing⟩ := h.goes c' r p hfl
      have hother := hm.others c' (u.world.arguments c').function hne
      rw [if_neg fun hh => ha.delegate hh.2, hother.requests]
      exact ⟨before', hm.serially hc hser', hgoing.framed hm.framed ha hother.answers⟩
    · obtain ⟨r', hq, p', hp', he⟩ : ∃ r', e.request = some r' ∧ ∃ p', e.completion = some p' ∧
        (r', p') = (r, p) := by
        simpa [Entry.ran, Option.bind_eq_some_iff, Option.map_eq_some_iff] using hp
      cases he
      rw [hd]
      cases hm.came with
      | final hc' =>
        rw [hm.settled hc'] at hp'
        cases hp'
      | chains hc' hq' hg =>
        rw [hq] at hq'
        cases hq'
        rw [if_neg (by simp [hc']), hm.own, hq]
        exact ⟨before, hm.serially hc hser, hg p hp'⟩
  · intro c' hmain
    rw [hr.main] at hmain
    split at hmain
    · cases hmain
    · rename_i hc'
      cases hmain
      cases hm.came with
      | final _ _ ha _ hf =>
        rw [hargs, hd, hr.world, hm.own]
        refine ⟨before, e.result, _, ?_, ha, hf⟩
        rw [hr.finished, if_neg hc']
        exact List.mem_append_right _ (List.mem_singleton_self _)
      | chains hc'' => exact absurd hc'' hc'

variable (imm) in
/-- A run on what came for the call. -/
theorem Running.moved {code : Int} {es : List Event}
    (hrun : Running filesystem w₁ c d f code before (requestsOf c log) (answersOf c f (log ++ es)))
    (hframe : Framed u.world w₁ d f) (hargs : w₁.arguments = u.world.arguments)
    (hd : u.world.arguments c = ⟨d, f⟩) (hfs : u.world.filesystem = some filesystem) (hown : Owned w₁ d f)
    (hes : ∀ c', requestsOf c' es = []) (hother : ∀ c' f', c' ≠ c → Overheard f' [] (answersOf c' f' es)) :
    Moved filesystem imm u log (log ++ es ++ (proxy imm w₁ c code).request.toList.map (Event.issued c)) c d f
      before (proxy imm w₁ c code) := by
  obtain ⟨hframe', hcame⟩ := hrun.run imm (by rw [hargs, hd]) (hframe.filesystem.trans hfs) hown
  have hanswers (c' : Nat) (f' : Function) :
      answersOf c' f' (log ++ es ++ (proxy imm w₁ c code).request.toList.map (Event.issued c)) =
        answersOf c' f' log ++ answersOf c' f' es := by
    rw [answersOf_append, answersOf_append, answersOf_map_issued, List.append_nil]
  refine ⟨hframe.trans hframe', (Chains.proxy imm w₁ c code).arguments.trans hargs, ?_,
    fun c' f' hne => ⟨?_, ?_⟩, ?_, switch_completion imm w₁ _ _ _⟩
  · rw [requestsOf_append, requestsOf_append, hes, List.append_nil, requestsOf_map_issued, if_pos rfl]
  · rw [requestsOf_append, requestsOf_append, hes, List.append_nil, requestsOf_map_issued, if_neg hne,
      List.append_nil]
  · rw [hanswers]
    refine ⟨List.sublist_append_left .., fun hf => ?_⟩
    rw [(hother c' f' hne).none hf, List.append_nil]
  · rw [hanswers, ← answersOf_append]
    exact hcame

/-- The first run of a call. -/
theorem Apart.start (h : Apart w filesystem u log) (hi : u.Inv) (hq : u.queue = (c, .start) :: queue)
    (imm : Request → Int) : ∃ log', Apart w filesystem
      ({ u with queue := queue }.ran (proxy imm u.world c ppOk).world c
        (proxy imm u.world c ppOk).ran) log' := by
  have ht := hi.turn hq
  obtain ⟨⟨d, f⟩, hd⟩ : ∃ a, u.world.arguments c = a := ⟨_, rfl⟩
  have hu : u.Unstarted c := .inr (.inl (by rw [hq]; exact List.mem_cons_self ..))
  have hnone := h.unissued c hu f
  obtain ⟨hown, hcb⟩ := h.waits c ht.lt hu
  rw [hd] at hown hcb
  -- No other call in progress is on the delegate.
  obtain ⟨hquiet, hser⟩ := h.rests d fun c' hlt hn hdel => by
    by_cases hne : c' = c
    · rw [hne]
      exact hnone.requests
    · have ha := (h.apart c' c hlt ht.lt hne hn ht.unfinished).delegate
      rw [hdel, hd] at ha
      exact absurd rfl ha
  have hrun : Running filesystem u.world c d f ppOk (u.world.store.own d) (requestsOf c log)
      (answersOf c f (log ++ [])) := by
    rw [hnone.requests, List.append_nil]
    exact .start h.opened hquiet hd hcb (.mono ⟨.slnil, fun _ => rfl⟩ hnone.answers)
  have hm := hrun.moved imm (.refl u.world d f) rfl hd h.opened hown (fun _ => rfl)
    fun _ _ _ => ⟨.slnil, fun _ => rfl⟩
  refine ⟨_, h.ran hi (.ran hi hq _) hm hd ht.lt ht.unfinished ?_ hser⟩
  rw [proxy_log, h.recorded, List.append_nil, List.append_assoc]

/-- The run of a completion is for the call its request was made for. -/
theorem Apart.resume (h : Apart w filesystem u log) (hi : u.Inv) {p : Request × Completion} {answer : Answer}
    (hq : u.queue = (c, .done p answer) :: queue) (imm : Request → Int) : ∃ (e : Entry) (log' : List Event),
      Delegate.service.resume imm u.world p answer = (e.world, some (c, e.ran)) ∧
      Apart w filesystem ({ u with queue := queue }.ran e.world c e.ran) log' := by
  have ht := hi.turn hq
  obtain ⟨r, p⟩ := p
  obtain ⟨⟨d, f⟩, hd⟩ : ∃ a, u.world.arguments c = a := ⟨_, rfl⟩
  obtain ⟨before, hser, hgoing⟩ := h.goes c r p (by rw [Sys.flights_done hq]; exact List.mem_cons_self ..)
  rw [hd] at hser hgoing
  obtain ⟨hcallee, hframe, hown, hrun⟩ := hgoing.deliver answer
  rw [← answersOf_delivered hgoing.isFor answer, ← answersOf_append] at hrun
  have hm := hrun.moved imm hframe (deliver_arguments ..) hd h.opened hown
    (fun c' => requestsOf_delivered c' p answer) fun c' f' hne => .delivered hgoing.isFor hne f' answer
  refine ⟨proxy imm (deliver u.world p answer).1 c answer.code, _, ?_,
    h.ran hi (.ran hi hq _) hm hd ht.lt ht.unfinished ?_ hser⟩
  · have hpair : deliver u.world p answer = ((deliver u.world p answer).1, some c) := by
      rw [← hcallee]
    simp only [Delegate.service]
    rw [hpair]
  · rw [proxy_log, deliver_log, h.recorded]
    simp only [List.append_assoc]

end

/-- A completion about to run is for the call its request was made for. -/
theorem Apart.undisturbed (h : Apart w filesystem u log) {a : Delegate.Action} (hs : Separate u a) :
    Delegate.Undisturbed u a := by
  cases a with
  | run imm =>
    intro c p answer queue hq c' hc'
    obtain ⟨before, -, hgoing⟩ := h.goes c p.1 p.2 (by rw [Sys.flights_done hq]; exact List.mem_cons_self ..)
    have hcallee := (hgoing.deliver answer).1
    rw [deliver_callee, hc'] at hcallee
    exact Option.some.inj hcallee
  | signal t => cases t with
    | none => trivial
    | some t => exact hs
  | _ => trivial

theorem Apart.step (h : Apart w filesystem u log) (hi : u.Inv) {a : Delegate.Action} (hs : Separate u a)
    (hstep : Delegate.step u a = some u') : ∃ log', Apart w filesystem u' log' := by
  -- A caller that goes on within its call starts nothing.
  have hmove {t : Nat} {pc : Pc} {v : Delegate.State} (hq : v.queue = u.queue) (hc : v.calls = u.calls)
      (ht : v.threads = u.threads)
      (hpc : ∀ c, Delegate.starting pc = some c → Delegate.starting (u.threads t) = some c)
      (c : Nat) (hu : Delegate.State.Unstarted (v.setThread t pc) c) : u.Unstarted c := by
    rcases hu with hu | hu | ⟨t', hu⟩
    · exact .inl (hc ▸ hu)
    · exact .inr (.inl (hq ▸ hu))
    · rw [Sys.threads_setThread, ht] at hu
      split at hu
      · exact .inr (.inr ⟨t, hpc c hu⟩)
      · exact .inr (.inr ⟨t', hu⟩)
  have hstill (t c : Nat) (hn : none = some c) : Delegate.starting (u.threads t) = some c := by cases hn
  cases Sys.step_spec hstep with
  | enter t q ht => exact ⟨log, h.enter hi hs⟩
  | hold t c ht hh =>
    refine ⟨log, h.of_eq rfl rfl rfl (.refl _) (hmove rfl rfl rfl fun c' hc => ?_) fun _ hm => hm⟩
    rw [ht]
    exact hc
  | relock t c ht hh => exact ⟨log, h.of_eq rfl rfl rfl (.refl _) (hmove rfl rfl rfl (hstill t)) fun _ hm => hm⟩
  | post t c ht =>
    refine ⟨log, h.of_eq rfl rfl rfl (.of_eq ?_) (fun c' hu => ?_) fun _ hm => hm⟩
    · simp [Sys.flights, Sys.setThread, Job.flight]
    · rcases hu with hu | hu | ⟨t', hu⟩
      · exact .inl hu
      · rcases List.mem_append.1 hu with hu | hu
        · exact .inr (.inl hu)
        · cases List.mem_singleton.1 hu
          exact .inr (.inr ⟨t, by rw [ht]; rfl⟩)
      · rw [Sys.threads_setThread] at hu
        split at hu
        · cases hu
        · exact .inr (.inr ⟨t', hu⟩)
  | wait t c ht => exact ⟨log, h.of_eq rfl rfl rfl (.refl _) (hmove rfl rfl rfl (hstill t)) fun _ hm => hm⟩
  | leave t c ht => exact ⟨log, h.of_eq rfl rfl rfl (.refl _) (hmove rfl rfl rfl (hstill t)) fun _ hm => hm⟩
  | complete n answer c p hp =>
    refine ⟨log, h.of_eq rfl rfl rfl (Sys.flights_complete answer hp) (fun c' hu => ?_) fun _ hm => hm⟩
    rcases hu with hu | hu | hu
    · exact .inl hu
    · rcases List.mem_append.1 hu with hu | hu
      · exact .inr (.inl hu)
      · cases List.mem_singleton.1 hu
    · exact .inr (.inr hu)
  | start imm c queue w' r hm hq hr =>
    cases hr
    exact h.start hi hq imm
  | resume imm c c' p answer queue w' r hm hq hr =>
    obtain ⟨e, log', he, h'⟩ := h.resume hi hq imm
    rw [he] at hr
    cases hr
    exact ⟨log', h'⟩
  | drop imm c p answer queue w' hm hq hr =>
    obtain ⟨e, log', he, -⟩ := h.resume hi hq imm
    rw [he] at hr
    cases hr
  | mainLock c hm hh =>
    refine ⟨log, h.of_eq rfl rfl rfl (.refl _) (fun _ hu => hu) fun c' hm' => ?_⟩
    rw [hm]
    exact hm'
  | signalNone c hm hw =>
    exact ⟨log, h.of_eq rfl rfl rfl (.refl _) (fun _ hu => hu) fun _ hm' => by cases hm'⟩
  | signal t c c' hm ht hw =>
    exact ⟨log, h.of_eq rfl rfl rfl (.refl _) (hmove rfl rfl rfl (hstill t)) fun _ hm' => by cases hm'⟩
  | mainUnlock hm =>
    exact ⟨log, h.of_eq rfl rfl rfl (.refl _) (fun _ hu => hu) fun _ hm' => by cases hm'⟩

/-! ## Runs -/

theorem run_apart {as : List Delegate.Action} (hq : Quiescent w) (hfs : w.filesystem = some filesystem)
    (hg : Run.Guarded Delegate.step Separate { world := w } as)
    (hr : Run.run Delegate.step { world := w } as = some u) :
    u.Inv ∧ ∃ log, Apart w filesystem u log := by
  refine Run.invariant (I := fun u => u.Inv ∧ ∃ log, Apart w filesystem u log) ?_
    ⟨.init w, [], .init hq hfs⟩ hg hr
  rintro u a u' ⟨hi, log, h⟩ hs hstep
  exact ⟨hi.step Delegate.service_lawful (h.undisturbed hs).own hstep, h.step hi hs hstep⟩

/-- In every run, by any number of threads, in which every call that is entered is on a delegate, a DIR
and memory that no call in progress is on, and every signal wakes the caller of the call that has just
finished: the calls on each delegate come to what they come to one after the other, each as its program
on the answers that came for it, whatever the calls on other delegates do meanwhile. Each call that
returned is one of them; a delegate with no call in progress has what they left; and a call that has
just finished left the memory it fills as its program does. -/
theorem calls_apart {as : List Delegate.Action} (hq : Quiescent w) (hfs : w.filesystem = some filesystem)
    (hg : Run.Guarded Delegate.step Separate { world := w } as)
    (hr : Run.run Delegate.step { world := w } as = some u) :
    ∃ log, u.world.log = w.log ++ log ∧
      (∀ d, ∃ own, Serially filesystem log d (w.store.own d) (u.callsOn d) own ∧
        ((∀ c, c < u.calls → (u.world.arguments c).delegate = d → c ∈ u.finished.map Prod.fst) →
          Quiet (u.world.delegates d) ∧ own = u.world.store.own d)) ∧
      (∀ c r, (c, r) ∈ u.returned → ∃ before v s', r = some v ∧
        ByItself filesystem (u.world.arguments c) before (requestsOf c log)
          (answersOf c (u.world.arguments c).function log) v s') ∧
      ∀ c, u.main.call = some c → ∃ before v s', (c, v) ∈ u.finished ∧
        ByItself filesystem (u.world.arguments c) before (requestsOf c log)
          (answersOf c (u.world.arguments c).function log) v s' ∧
        Filled (u.world.arguments c).function u.world s' := by
  obtain ⟨hi, log, h⟩ := run_apart hq hfs hg hr
  refine ⟨log, h.recorded, fun d => ?_, fun c r hc => ?_, h.memory⟩
  · by_cases hd : ∀ c, c < u.calls → (u.world.arguments c).delegate = d → c ∈ u.finished.map Prod.fst
    · obtain ⟨hquiet, hser⟩ := h.rests d fun c hc hn he => absurd (hd c hc he) hn
      exact ⟨_, hser, fun _ => ⟨hquiet, rfl⟩⟩
    · obtain ⟨own, hser⟩ := h.done d
      exact ⟨own, hser, fun hall => absurd hall hd⟩
  · obtain ⟨v, rfl, hv⟩ := hi.returned c r hc
    obtain ⟨own, hser⟩ := h.done (u.world.arguments c).delegate
    have hm : (c, (u.world.arguments c).function, v) ∈ u.callsOn (u.world.arguments c).delegate :=
      Delegate.State.mem_callsOn_of hv
    obtain ⟨before, s', hby⟩ := hser.mem hm
    exact ⟨before, v, s', rfl, hby⟩

/-- Two files that were opened, on a filesystem that was. -/
def shared : World :=
  { readable with filesystem := some 7 }

theorem shared_quiescent : Quiescent shared := readable_quiescent

/-- A worker reads one file while another makes a directory with another delegate: both requests are in
flight at once, and the second one completes first. -/
def readAndMake : List Delegate.Action :=
  [.enter 0 ⟨0, .read 0 5⟩, .lock 0, .post 0, .wait 0, .enter 1 ⟨1, .mkdir (str "/b") 0⟩, .lock 1, .post 1,
    .wait 1, .run pendingAlways, .run pendingAlways, .complete 1 ⟨0, none, [], []⟩, .run pendingAlways,
    .mainLock, .signal (some 1), .mainUnlock, .lock 1, .leave 1, .complete 0 ⟨5, none, str "hello", []⟩,
    .run pendingAlways, .mainLock, .signal (some 0), .mainUnlock, .lock 0, .leave 0]

theorem calls_apart_read_and_make :
    ∃ u : Delegate.State, Run.run Delegate.step { world := shared } readAndMake = some u ∧
      u.returned = [(1, some (.int 0)), (0, some (.int 5))] ∧
      ∃ log, u.world.log = shared.log ++ log ∧
        (∀ d, ∃ own, Serially 7 log d (shared.store.own d) (u.callsOn d) own ∧
          ((∀ c, c < u.calls → (u.world.arguments c).delegate = d → c ∈ u.finished.map Prod.fst) →
            Quiet (u.world.delegates d) ∧ own = u.world.store.own d)) ∧
        (∀ c r, (c, r) ∈ u.returned → ∃ before v s', r = some v ∧
          ByItself 7 (u.world.arguments c) before (requestsOf c log)
            (answersOf c (u.world.arguments c).function log) v s') ∧
        ∀ c, u.main.call = some c → ∃ before v s', (c, v) ∈ u.finished ∧
          ByItself 7 (u.world.arguments c) before (requestsOf c log)
            (answersOf c (u.world.arguments c).function log) v s' ∧
          Filled (u.world.arguments c).function u.world s' := by
  have hg : Run.Guarded Delegate.step Separate { world := shared } readAndMake :=
    .cons ⟨nofun, nofun⟩ rfl <| .cons trivial rfl <| .cons trivial rfl <| .cons trivial rfl <|
    .cons ⟨nofun, fun c hc _ => by cases hc with
      | refl => exact ⟨by decide, nofun, nofun⟩
      | step hc => cases hc⟩ rfl <|
    .cons trivial rfl <| .cons trivial rfl <| .cons trivial rfl <| .cons trivial rfl <| .cons trivial rfl <|
    .cons trivial rfl <| .cons trivial rfl <| .cons trivial rfl <| .cons (fun c h => by cases h; rfl) rfl <|
    .cons trivial rfl <| .cons trivial rfl <| .cons trivial rfl <| .cons trivial rfl <| .cons trivial rfl <|
    .cons trivial rfl <| .cons (fun c h => by cases h; rfl) rfl <| .cons trivial rfl <| .cons trivial rfl <|
    .cons trivial rfl trivial
  exact ⟨_, rfl, rfl, calls_apart shared_quiescent rfl hg rfl⟩

end NaClFs
