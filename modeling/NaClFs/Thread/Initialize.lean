/-
The first operations of several threads. `filesystem_` says both that the filesystem is being opened
and that it is open, so what matters is which `Proxy` runs are made while `FileSystem::Open` is in
flight.
-/
import NaClFs.Html5.Needs
import NaClFs.Thread.Call

namespace NaClFs

open Rendezvous

namespace Delegate

/-- The world, the call and the code a job enters `Proxy` with; no call when it does not. -/
def entry (w : World) (c : Nat) : Job (Request × Completion) Answer → World × Option Nat × Int
  | .start => (w, some c, ppOk)
  | .done p answer => ((deliver w p.2 answer).1, (deliver w p.2 answer).2, answer.code)

theorem entry_world (w : World) (c : Nat) (j : Job (Request × Completion) Answer) :
    (entry w c j).1.filesystem = w.filesystem ∧ (w.dirs = [] → (entry w c j).1.dirs = []) ∧
      (entry w c j).1.requests = w.requests := by
  cases j with
  | start => exact ⟨rfl, id, rfl⟩
  | done p answer =>
    obtain ⟨r, p⟩ := p
    have hlog : (w.record (.delivered p answer)).requests = w.requests := by
      simp [World.requests, World.record, Event.request]
    cases p with
    | proxy callback => exact ⟨rfl, id, hlog⟩
    | query d callback =>
      cases hi : answer.info <;> simp only [entry, deliver, World.setInfo, hi] <;> exact ⟨rfl, id, hlog⟩
    | read buf callback => exact ⟨rfl, id, hlog⟩
    | listing dirp =>
      simp only [entry, deliver]
      cases hd : (w.record (.delivered (.listing dirp) answer)).dir dirp with
      | none => exact ⟨rfl, id, hlog⟩
      | some dir => exact ⟨rfl, fun h => by simp [World.setDir, World.record, h], hlog⟩

variable {u u' : State}

/-- What one run of the main thread does. -/
theorem run_spec {imm : Request → Int} (h : step u (.run imm) = some u') :
    ∃ c j queue, u.queue = (c, j) :: queue ∧
      ((∃ c', (entry u.world c j).2.1 = some c' ∧
        u'.world = (proxy imm (entry u.world c j).1 c' (entry u.world c j).2.2).world ∧
        u'.flights = Sys.flights { u with queue := queue } ++
          (proxy imm (entry u.world c j).1 c' (entry u.world c j).2.2).ran.pending.toList.map
            (Prod.mk c')) ∨
      (entry u.world c j).2.1 = none ∧ u'.world = (entry u.world c j).1 ∧
        u'.flights = Sys.flights { u with queue := queue }) := by
  cases Sys.step_spec h with
  | start imm c queue w' r hm hq hr =>
    cases hr
    exact ⟨c, .start, queue, hq, .inl ⟨c, rfl, rfl, Sys.flights_ran ..⟩⟩
  | resume imm c c' p answer queue w' r hm hq hr =>
    refine ⟨c, .done p answer, queue, hq, .inl ⟨c', ?_⟩⟩
    simp only [service] at hr
    split at hr
    · cases hr
    · next hd =>
      cases hr
      simp only [entry, hd]
      exact ⟨trivial, rfl, Sys.flights_ran ..⟩
  | drop imm c p answer queue w' hm hq hr =>
    refine ⟨c, .done p answer, queue, hq, .inr ?_⟩
    simp only [service] at hr
    split at hr
    · next hd =>
      cases hr
      simp only [entry, hd]
      exact ⟨trivial, trivial, rfl⟩
    · cases hr

/-- What the other steps leave alone. -/
theorem other_spec {a : Action} (ha : ∀ imm, a ≠ .run imm) (h : step u a = some u') :
    u'.world.filesystem = u.world.filesystem ∧ u'.world.dirs = u.world.dirs ∧
      u'.world.requests = u.world.requests ∧ u'.flights.Perm u.flights := by
  cases Sys.step_spec h with
  | post t c ht =>
    refine ⟨rfl, rfl, rfl, .of_eq ?_⟩
    simp [Sys.flights, Sys.setThread, Job.flight]
  | complete n answer c p hp => exact ⟨rfl, rfl, rfl, Sys.flights_complete answer hp⟩
  | start imm | resume imm | drop imm => exact absurd rfl (ha imm)
  | _ => exact ⟨rfl, rfl, rfl, .refl _⟩

end Delegate

/-! ## The opening of the filesystem -/

/-- `FileSystem::Open` is in flight: it was accepted and its completion has not run. -/
def Opening (flights : List (Nat × Request × Completion)) : Prop :=
  ∃ x ∈ flights, x.2.1.opensFileSystem = true

/-- As long as the completion of `FileSystem::Open` has not run, no request that names the filesystem
was issued. -/
def Waits (u : Delegate.State) : Prop :=
  u.world.filesystem = none ∨ Opening u.flights → ∀ r ∈ u.world.requests, r.usesFileSystem = false

/-- The condition a step is taken under: with `FileSystem::Open` left in flight, `Proxy` does not run
for a call that goes on to use the filesystem. -/
def Patient (u : Delegate.State) : Delegate.Action → Prop
  | .run _ => ∀ c j queue, u.queue = (c, j) :: queue → Opening (Sys.flights { u with queue := queue }) →
      ∀ c', (Delegate.entry u.world c j).2.1 = some c' →
        ¬ AsksFileSystem (Delegate.entry u.world c j).1 ((Delegate.entry u.world c j).1.arguments c')
  | _ => True

/-- What holds in every run: the filesystem is set when its opening is issued, which is at most once,
and no DIR is made before. -/
structure Opened (u : Delegate.State) : Prop where
  unset : u.world.filesystem = none → u.world.dirs = [] ∧ ¬ Opening u.flights
  once : (u.world.requests.filter Request.opensFileSystem).length =
    if u.world.filesystem.isSome then 1 else 0

variable {u u' : Delegate.State}

theorem Opened.init (type : FileSystemType) (info : Nat → FileInfo) (arguments : Nat → Arguments)
    (stats : Nat → Stat) (buffers : Nat → Str) :
    Opened { world := .init type info arguments stats buffers } where
  unset _ := ⟨rfl, by simp [Opening, Sys.flights]⟩
  once := rfl

theorem Opening.of_perm {l l' : List (Nat × Request × Completion)} (h : l'.Perm l) :
    Opening l' ↔ Opening l := by
  simp only [Opening, h.mem_iff]

/-- The flights a run leaves are those there were, and its own request. -/
theorem Opening.append {l : List (Nat × Request × Completion)} {c : Nat} {e : Entry}
    (h : Opening (l ++ e.ran.pending.toList.map (Prod.mk c))) :
    Opening l ∨ ∃ r, e.request = some r ∧ r.opensFileSystem = true := by
  obtain ⟨x, hx, ho⟩ := h
  rcases List.mem_append.1 hx with hx | hx
  · exact .inl ⟨x, hx, ho⟩
  · obtain ⟨y, hy, rfl⟩ := List.mem_map.1 hx
    simp only [Entry.ran, Option.mem_toList, Option.bind_eq_some_iff,
      Option.map_eq_some_iff] at hy
    obtain ⟨r, hr, p, -, rfl⟩ := hy
    exact .inr ⟨r, hr, ho⟩

theorem Opening.mono {l l' : List (Nat × Request × Completion)} (h : Opening l) (hl : l ⊆ l') :
    Opening l' := by
  obtain ⟨x, hx, ho⟩ := h
  exact ⟨x, hl hx, ho⟩

theorem tail_flights {c : Nat} {j : Job (Request × Completion) Answer}
    {queue : List (Nat × Job (Request × Completion) Answer)} (hq : u.queue = (c, j) :: queue) :
    Sys.flights { u with queue := queue } ⊆ u.flights := by
  cases j with
  | start => rw [Sys.flights_start hq]; exact List.Subset.refl _
  | done p answer => rw [Sys.flights_done hq]; exact List.subset_cons_self ..

theorem patient_run {c : Nat} {j : Job (Request × Completion) Answer}
    {queue : List (Nat × Job (Request × Completion) Answer)} {imm : Request → Int}
    (hq : u.queue = (c, j) :: queue) :
    Patient u (.run imm) ↔ (Opening (Sys.flights { u with queue := queue }) →
      ∀ c', (Delegate.entry u.world c j).2.1 = some c' →
        ¬ AsksFileSystem (Delegate.entry u.world c j).1 ((Delegate.entry u.world c j).1.arguments c')) := by
  refine ⟨fun h => h c j queue hq, fun h c₁ j₁ queue₁ hq₁ => ?_⟩
  rw [hq] at hq₁
  cases hq₁
  exact h

theorem filter_toList {o : Option Request} {p : Request → Bool} (h : ∀ r, o = some r → p r = false) :
    o.toList.filter p = [] := by
  cases o with
  | none => rfl
  | some r => simp [h r rfl]

theorem Opened.step {a : Delegate.Action} (ho : Opened u) (h : Delegate.step u a = some u') :
    Opened u' := by
  by_cases ha : ∃ imm, a = .run imm
  · obtain ⟨imm, rfl⟩ := ha
    obtain ⟨c, j, queue, hq, h⟩ := Delegate.run_spec h
    obtain ⟨hef, hed, her⟩ := Delegate.entry_world u.world c j
    have htail (h : Opening (Sys.flights { u with queue := queue })) : Opening u.flights :=
      h.mono (tail_flights hq)
    have honce := ho.once
    rcases h with ⟨c', -, hw, hfl⟩ | ⟨-, hw, hfl⟩
    · have hreq := requests_proxy imm (Delegate.entry u.world c j).1 c' (Delegate.entry u.world c j).2.2
      rw [← hw, her] at hreq
      cases hf : u.world.filesystem with
      | some filesystem =>
        -- It was opened before: the run opens none.
        obtain ⟨hset, hopens, -⟩ := proxy_set imm c'
          (Delegate.entry u.world c j).2.2 (hef.trans hf)
        rw [← hw] at hset
        refine ⟨fun hn => absurd (hset.symm.trans hn) (Option.some_ne_none _), ?_⟩
        rw [hreq, hset, List.filter_append, filter_toList hopens, List.append_nil, honce, hf]
      | none =>
        -- The run opens it exactly when it sets it.
        obtain ⟨hd, hnot⟩ := ho.unset hf
        obtain ⟨-, -, hdirs, hopens⟩ := proxy_unset imm c'
          (Delegate.entry u.world c j).2.2 (hef.trans hf) (hed hd)
        rw [← hw] at hdirs hopens
        rw [hf] at honce
        refine ⟨fun hn => ⟨hdirs hn, fun h => ?_⟩, ?_⟩
        · rw [hfl] at h
          rcases h.append with h | h
          · exact hnot (htail h)
          · rw [hopens, hn] at h
            cases h
        · rw [hreq, List.filter_append, List.length_append, honce]
          cases hn : u'.world.filesystem with
          | none =>
            rw [filter_toList fun r hr => ?_]
            · rfl
            · by_contra h
              have := hopens.1 ⟨r, hr, by simpa using h⟩
              rw [hn] at this
              cases this
          | some filesystem =>
            obtain ⟨r, hr, hro⟩ := hopens.2 (by rw [hn]; rfl)
            simp [hr, hro]
    · refine ⟨fun hf => ?_, by rw [hw, hef, her]; exact honce⟩
      rw [hw, hef] at hf
      rw [hw, hfl]
      exact ⟨hed (ho.unset hf).1, fun h => (ho.unset hf).2 (htail h)⟩
  · obtain ⟨hf, hd, hr, hp⟩ := Delegate.other_spec (by simpa using ha) h
    constructor
    · rw [hf, hd, Opening.of_perm hp]
      exact ho.unset
    · rw [hr, hf]
      exact ho.once

/-- A step keeps requests waiting exactly where it is patient. -/
theorem waits_step {a : Delegate.Action} (ho : Opened u) (hp : Waits u)
    (h : Delegate.step u a = some u') : Waits u' ↔ Patient u a := by
  by_cases ha : ∃ imm, a = .run imm
  · obtain ⟨imm, rfl⟩ := ha
    obtain ⟨c, j, queue, hq, h⟩ := Delegate.run_spec h
    obtain ⟨hef, hed, her⟩ := Delegate.entry_world u.world c j
    have htail (h : Opening (Sys.flights { u with queue := queue })) : Opening u.flights :=
      h.mono (tail_flights hq)
    rw [patient_run hq]
    rcases h with ⟨c', hc, hw, hfl⟩ | ⟨hc, hw, hfl⟩
    · have hreq := requests_proxy imm (Delegate.entry u.world c j).1 c' (Delegate.entry u.world c j).2.2
      rw [← hw, her] at hreq
      rw [Waits, hreq, hfl, hc]
      cases hf : u.world.filesystem with
      | some filesystem =>
        obtain ⟨hset, hopens, huses⟩ := proxy_set imm c'
          (Delegate.entry u.world c j).2.2 (hef.trans hf)
        rw [← hw] at hset
        by_cases hop : Opening (Sys.flights { u with queue := queue })
        · -- Still being opened after the run: it must not have asked for anything on it.
          have hno := hp (.inr (htail hop))
          constructor
          · rintro h - c'' he hasks
            cases he
            obtain ⟨r, hr, hru⟩ := huses.2 hasks
            have := h (.inr (hop.mono (List.subset_append_left ..))) r
              (List.mem_append_right _ (Option.mem_toList.2 hr))
            rw [hru] at this
            cases this
          · intro h _ r hr
            rcases List.mem_append.1 hr with hr | hr
            · exact hno r hr
            · by_contra hru
              exact h hop c' rfl (huses.1 ⟨r, Option.mem_toList.1 hr, by simpa using hru⟩)
        · -- Set, and not being opened: a run may ask for what it wants.
          refine iff_of_true (fun h => ?_) fun h => absurd h hop
          rcases h with h | h
          · rw [hset] at h
            cases h
          · rcases h.append with h | ⟨r, hr, hro⟩
            · exact absurd h hop
            · rw [hopens r hr] at hro
              cases hro
      | none =>
        obtain ⟨hd, hnot⟩ := ho.unset hf
        obtain ⟨huses, -⟩ := proxy_unset imm c'
          (Delegate.entry u.world c j).2.2 (hef.trans hf) (hed hd)
        refine iff_of_true (fun _ r hr => ?_) fun h => absurd (htail h) hnot
        rcases List.mem_append.1 hr with hr | hr
        · exact hp (.inl hf) r hr
        · exact huses r (Option.mem_toList.1 hr)
    · -- No call is run, and a DIR's listing is all that changed.
      refine iff_of_true (fun h => ?_) fun _ c' hc' => by rw [hc] at hc'; cases hc'
      rw [hw, her]
      rw [hw, hef, hfl] at h
      exact hp (h.imp_right htail)
  · obtain ⟨hf, -, hr, hfl⟩ := Delegate.other_spec (by simpa using ha) h
    refine iff_of_true (by rw [Waits, hf, Opening.of_perm hfl, hr]; exact hp) ?_
    cases a with
    | run imm => exact absurd ⟨imm, rfl⟩ ha
    | _ => trivial

/-! ## Runs -/

/-- In every run of any operations by any number of threads, from the world of the constructors on: no
request names the filesystem before the completion of `FileSystem::Open` has run exactly when the run
is patient; the filesystem is opened once if it is set, and not otherwise; and the next `Proxy` run
for an operation that needs it finds it set or sets it. -/
theorem first_operations (type : FileSystemType) (info : Nat → FileInfo) (arguments : Nat → Arguments)
    (stats : Nat → Stat) (buffers : Nat → Str) {as : List Delegate.Action}
    (hr : Run.run Delegate.step { world := .init type info arguments stats buffers } as = some u) :
    (Run.Along Delegate.step Waits { world := .init type info arguments stats buffers } as ↔
      Run.Guarded Delegate.step Patient { world := .init type info arguments stats buffers } as) ∧
    (u.world.requests.filter Request.opensFileSystem).length =
      (if u.world.filesystem.isSome then 1 else 0) ∧
    ∀ imm c code, NeedsFileSystem (u.world.arguments c).function →
      (proxy imm u.world c code).world.filesystem.isSome := by
  have hinit := Opened.init type info arguments stats buffers
  have hwaits : Waits { world := .init type info arguments stats buffers } :=
    fun _ r hr => absurd hr List.not_mem_nil
  have ho := Run.invariant_all (I := Opened) (fun _ _ _ ho h => ho.step h) hinit hr
  refine ⟨Run.along_iff_guarded (I := Opened) (P := Waits) (fun _ _ _ ho h => ho.step h)
    (fun _ _ _ ho hw h => waits_step ho hw h) hinit hwaits hr, ho.once, ?_⟩
  intro imm c code hn
  cases hf : u.world.filesystem with
  | some filesystem => rw [(proxy_set imm c code hf).1]; rfl
  | none => exact (proxy_unset imm c code hf (ho.unset hf).1).2.1 hn

/-- One worker opens a file, and another one another file once the filesystem was opened. -/
def openInTurn : List Delegate.Action :=
  [.enter 0 ⟨0, .open_ (str "/a") oRdWr 0⟩, .lock 0, .post 0, .wait 0, .run pendingAlways,
    .complete 0 ⟨ppOk, none, [], []⟩, .enter 1 ⟨1, .open_ (str "/b") oRdWr 0⟩, .lock 1, .post 1, .wait 1,
    .run pendingAlways, .run pendingAlways]

theorem first_operations_in_turn :
    ∃ u : Delegate.State, Run.run Delegate.step { world := .blank } openInTurn = some u ∧
      Run.Along Delegate.step Waits { world := .blank } openInTurn ∧
      (u.world.requests.filter Request.opensFileSystem).length = 1 := by
  have hg : Run.Guarded Delegate.step Patient { world := .blank } openInTurn := by
    have hno : ¬ Opening [] := fun ⟨x, hx, _⟩ => absurd hx List.not_mem_nil
    refine .cons trivial rfl <| .cons trivial rfl <| .cons trivial rfl <| .cons trivial rfl <|
      .cons (fun c j q hq ho => by cases hq; exact absurd ho hno) rfl <| .cons trivial rfl <|
      .cons trivial rfl <| .cons trivial rfl <| .cons trivial rfl <| .cons trivial rfl <|
      .cons (fun c j q hq ho => by cases hq; exact absurd ho hno) rfl <|
      .cons (fun c j q hq ho => ?_) rfl trivial
    -- What is in flight at the end is the opening of the first file.
    have hfile : ¬ Opening [(0, .fileOpen 1 ⟨0, str "/a"⟩ (openFlags oRdWr), .proxy (some 0))] := by
      rintro ⟨x, hx, h⟩
      rw [List.mem_singleton.1 hx] at h
      cases h
    cases hq
    exact absurd ho hfile
  refine ⟨_, rfl, ?_⟩
  have h := first_operations .localTemporary (fun _ => ⟨0, .regular, 0, 0, 0⟩) (fun _ => ⟨0, .close⟩)
    (fun _ => .zero) (fun _ => []) (show Run.run Delegate.step { world := .blank } openInTurn = _ from rfl)
  exact ⟨h.1.2 hg, h.2.1⟩

/-- Two workers open their first files; `Proxy` runs for the second one while the filesystem is being
opened. -/
def openInside : List Delegate.Action :=
  [.enter 0 ⟨0, .open_ (str "/a") oRdWr 0⟩, .lock 0, .post 0, .wait 0,
    .enter 1 ⟨1, .open_ (str "/b") oRdWr 0⟩, .lock 1, .post 1, .wait 1,
    .run pendingAlways, .run pendingAlways]

/-- The second file is opened on a filesystem whose opening completes with `PP_OK` only later. -/
theorem open_inside_opening :
    ∃ u u' : Delegate.State, Run.run Delegate.step { world := .blank } openInside = some u ∧
      u.world.requests = [.fileSystemOpen 0 .localTemporary Html5FileSystem.expectedSize,
        .fileOpen 1 ⟨0, str "/b"⟩ (openFlags oRdWr)] ∧ ¬ Waits u ∧
      Run.run Delegate.step u [.complete 0 ⟨ppOk, none, [], []⟩, .run pendingAlways] = some u' := by
  refine ⟨_, _, rfl, rfl, fun h => ?_, rfl⟩
  have := h (.inr ⟨_, List.mem_cons_self .., rfl⟩) (.fileOpen 1 ⟨0, str "/b"⟩ (openFlags oRdWr))
    (.tail _ (.head _))
  cases this

end NaClFs
