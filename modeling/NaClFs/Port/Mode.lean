/-
The non-blocking mode of the devices. A delegate has two records of it: the `oflag_` that `Open` stores
and `F_GETFL` returns, and the `blocking_` that `F_SETFL` stores and `Read` looks at. Neither operation
writes the other one's record.
-/
import NaClFs.Lib.Run
import NaClFs.Port.PortFileSystem

namespace NaClFs

/-! ## The two records -/

/-- `Open` knows the name. -/
def IsDevice (path : Str) : Prop :=
  path = PortFileSystem.kStdInPath ∨ path = PortFileSystem.kStdOutPath ∨
    path = PortFileSystem.kStdErrPath

instance (path : Str) : Decidable (IsDevice path) := inferInstanceAs (Decidable (_ ∨ _ ∨ _))

namespace PortFileSystem

/-- The word `F_GETFL` returns. -/
def getFl (this : PortFileSystem) : BitVec 32 := BitVec.ofInt 32 (this.fcntl fGetFl 0).2.1

theorem getFl_eq (this : PortFileSystem) : this.getFl = this.oflag := by
  have hne : fGetFl ≠ fSetFl := by decide
  unfold getFl fcntl
  rw [if_neg hne, if_pos rfl]
  exact BitVec.ofInt_toInt

/-- The records agree: `Read` does not block exactly when `F_GETFL` says so, and setting the word
that `F_GETFL` returned makes no difference to any `Read`. -/
structure Consistent (this : PortFileSystem) : Prop where
  mode : this.blocking = false ↔ this.getFl &&& oNonBlock ≠ 0
  restore : ∀ buffer nbytes,
    (this.fcntl fSetFl this.getFl).1.read buffer nbytes = this.read buffer nbytes

/-- A delegate on which nobody asked for the non-blocking mode. -/
structure Plain (this : PortFileSystem) : Prop where
  blocking : this.blocking = true
  oflag : this.oflag &&& oNonBlock = 0

theorem fcntl_setFl (this : PortFileSystem) (ap : BitVec 32) :
    this.fcntl fSetFl ap = ({ this with blocking := ap &&& oNonBlock == 0 }, 0, some 0) := if_pos rfl

/-- Any other command leaves the delegate as it is. -/
theorem fcntl_of_ne (this : PortFileSystem) {cmd : Int} (h : cmd ≠ fSetFl) (ap : BitVec 32) :
    (this.fcntl cmd ap).1 = this := by
  unfold fcntl
  rw [if_neg h]
  split <;> rfl

theorem consistent_iff (this : PortFileSystem) :
    this.Consistent ↔ (this.blocking = false ↔ this.oflag &&& oNonBlock ≠ 0) := by
  constructor
  · intro h
    rw [← getFl_eq]
    exact h.mode
  · intro h
    refine ⟨by rw [getFl_eq]; exact h, fun buffer nbytes => ?_⟩
    -- `F_SETFL` stores the mode that is there.
    have hb : (this.oflag &&& oNonBlock == 0) = this.blocking := by
      cases hc : this.blocking with
      | true =>
        rw [hc] at h
        simpa using h
      | false => simpa using h.1 hc
    rw [getFl_eq, fcntl_setFl, hb]

theorem Plain.consistent {this : PortFileSystem} (h : this.Plain) : this.Consistent := by
  rw [consistent_iff, h.blocking, h.oflag]
  simp

/-- `Open` fails on an unknown name, and stores the flags and nothing of the mode. -/
theorem open_device (path : Str) (oflag : BitVec 32) :
    ((open_ {} path oflag).2 = 0 ↔ IsDevice path) ∧
      (open_ {} path oflag).1.oflag = oflag ∧ (open_ {} path oflag).1.blocking = true := by
  unfold open_ IsDevice
  split
  · rename_i h
    exact ⟨iff_of_true rfl (.inl h), rfl, rfl⟩
  · split
    · rename_i h
      exact ⟨iff_of_true rfl (.inr (.inl h)), rfl, rfl⟩
    · split
      · rename_i h
        exact ⟨iff_of_true rfl (.inr (.inr h)), rfl, rfl⟩
      · rename_i h1 h2 h3
        refine ⟨iff_of_false (by dsimp only; decide) ?_, rfl, rfl⟩
        rintro (h | h | h)
        · exact h1 h
        · exact h2 h
        · exact h3 h

theorem open_consistent (path : Str) (oflag : BitVec 32) :
    (open_ {} path oflag).1.Consistent ↔ oflag &&& oNonBlock = 0 := by
  obtain ⟨-, ho, hb⟩ := open_device path oflag
  rw [consistent_iff, ho, hb]
  simp

end PortFileSystem

/-! ## The machine -/

/-- The delegates of the descriptors open on the devices, and the `buffer_` they share. A closed
descriptor leaves a hole. -/
structure Devices where
  ports : List (Option PortFileSystem) := []
  buffer : Str := []
  deriving DecidableEq, Repr

namespace Devices

inductive Action
  | open_ (path : Str) (oflag : BitVec 32)
  | close (port : Nat)
  | fcntl (port : Nat) (cmd : Int) (ap : BitVec 32)
  | read (port : Nat) (nbytes : Nat)
  | message (message : Var)
  deriving DecidableEq, Repr

/-- One call or one message; none for a call on a descriptor that is not open. An `Open` that fails
binds no descriptor. -/
def step (s : Devices) : Action → Option Devices
  | .open_ path oflag =>
    let (this, result) := PortFileSystem.open_ {} path oflag
    some (if result ≠ 0 then s else { s with ports := s.ports ++ [some this] })
  | .close port => s.ports[port]?.join.map fun _ => { s with ports := s.ports.set port none }
  | .fcntl port cmd ap =>
    s.ports[port]?.join.map fun this =>
      { s with ports := s.ports.set port (some (this.fcntl cmd ap).1) }
  | .read port nbytes =>
    s.ports[port]?.join.map fun this => { s with buffer := (this.read s.buffer nbytes).2.2 }
  | .message message => some { s with buffer := (PortFileSystem.handleMessage s.buffer message).2 }

/-- Every open descriptor has a delegate with the property. -/
def All (P : PortFileSystem → Prop) (s : Devices) : Prop := ∀ this, some this ∈ s.ports → P this

/-- The action does not ask for the non-blocking mode. -/
def Action.KeepsBlocking : Action → Prop
  | .open_ path oflag => IsDevice path → oflag &&& oNonBlock = 0
  | .fcntl _ cmd ap => cmd = fSetFl → ap &&& oNonBlock = 0
  | _ => True

/-! ## One step -/

theorem mem_of_join {s : Devices} {port : Nat} {this : PortFileSystem}
    (h : s.ports[port]?.join = some this) : s.ports[port]? = some (some this) :=
  Option.join_eq_some_iff.1 h

theorem All.set {P : PortFileSystem → Prop} {s : Devices} (h : s.All P) (port : Nat)
    {o : Option PortFileSystem} (ho : ∀ this, o = some this → P this) :
    All P { s with ports := s.ports.set port o } := by
  intro this hm
  rcases List.mem_or_eq_of_mem_set hm with hm | he
  · exact h this hm
  · exact ho this he.symm

/-- What does not ask for the non-blocking mode leaves every delegate plain. -/
theorem step_plain {s s' : Devices} {a : Action} (h : s.All PortFileSystem.Plain)
    (ha : a.KeepsBlocking) (hs : s.step a = some s') : s'.All PortFileSystem.Plain := by
  cases a with
  | open_ path oflag =>
    obtain ⟨hd, ho, hb⟩ := PortFileSystem.open_device path oflag
    simp only [step, Option.some.injEq] at hs
    subst hs
    split
    · exact h
    · rename_i hr
      intro this hm
      rcases List.mem_append.1 hm with hm | hm
      · exact h this hm
      · cases List.mem_singleton.1 hm
        refine ⟨hb, ?_⟩
        rw [ho]
        exact ha (hd.1 (not_not.1 hr))
  | close port =>
    obtain ⟨this, -, rfl⟩ := Option.map_eq_some_iff.1 hs
    exact h.set port fun _ he => by cases he
  | fcntl port cmd ap =>
    obtain ⟨this, hj, rfl⟩ := Option.map_eq_some_iff.1 hs
    have hp := h this (List.mem_of_getElem? (mem_of_join hj))
    refine h.set port fun this' he => ?_
    cases he
    by_cases hc : cmd = fSetFl
    · subst hc
      rw [PortFileSystem.fcntl_setFl]
      refine ⟨?_, hp.oflag⟩
      simpa using ha rfl
    · rw [PortFileSystem.fcntl_of_ne this hc]
      exact hp
  | read port nbytes =>
    obtain ⟨this, -, rfl⟩ := Option.map_eq_some_iff.1 hs
    exact h
  | message message =>
    cases hs
    exact h

/-- What asks for it leaves a delegate whose records differ. -/
theorem step_inconsistent {s s' : Devices} {a : Action} (h : s.All PortFileSystem.Plain)
    (ha : ¬ a.KeepsBlocking) (hs : s.step a = some s') : ¬ s'.All PortFileSystem.Consistent := by
  intro hc
  cases a with
  | open_ path oflag =>
    simp only [Action.KeepsBlocking, Classical.not_imp] at ha
    obtain ⟨hp, hn⟩ := ha
    have hr := (PortFileSystem.open_device path oflag).1.2 hp
    simp only [step, Option.some.injEq] at hs
    rw [if_neg (not_not_intro hr)] at hs
    subst hs
    exact hn ((PortFileSystem.open_consistent path oflag).1 (hc _ (by simp)))
  | fcntl port cmd ap =>
    simp only [Action.KeepsBlocking, Classical.not_imp] at ha
    obtain ⟨rfl, hn⟩ := ha
    obtain ⟨this, hj, rfl⟩ := Option.map_eq_some_iff.1 hs
    have hm := mem_of_join hj
    have hp := h this (List.mem_of_getElem? hm)
    obtain ⟨hlt, -⟩ := List.getElem?_eq_some_iff.1 hm
    have hthis := hc _ (List.mem_set hlt _)
    -- `blocking_` is false now, `oflag_` is what it was.
    rw [PortFileSystem.fcntl_setFl, PortFileSystem.consistent_iff] at hthis
    refine hthis.1 ?_ hp.oflag
    simpa using hn
  | close | read | message => exact ha trivial

/-! ## Whole runs -/

/-- In a run of calls and messages on any number of descriptors of the devices the two records of every
open descriptor agree all along exactly when no `Open` of a device and no `F_SETFL` asks for
`O_NONBLOCK`. -/
theorem run_modes (as : List Action) (s : Devices) (h : Run.run step {} as = some s) :
    Run.Along step (All PortFileSystem.Consistent) {} as ↔ ∀ a ∈ as, a.KeepsBlocking := by
  refine Run.along_iff_forall (Q := All PortFileSystem.Plain) ?_ ?_ ?_ ?_ h
  · intro s hs this hm
    exact (hs this hm).consistent
  · intro s a s' hq hok hs
    exact step_plain hq hok hs
  · intro s a s' hq hok hs
    exact step_inconsistent hq hok hs
  · intro this hm
    cases hm

theorem run_modes_saved :
    ∃ s, Run.run step {} [.open_ (str "/dev/stdin") oRdOnly, .fcntl 0 fGetFl 0, .fcntl 0 fSetFl oRdOnly,
        .message (.string (str "S0a")), .read 0 1] = some s ∧
      (Run.Along step (All PortFileSystem.Consistent) {} [.open_ (str "/dev/stdin") oRdOnly,
          .fcntl 0 fGetFl 0, .fcntl 0 fSetFl oRdOnly, .message (.string (str "S0a")), .read 0 1] ↔
        ∀ a ∈ [Action.open_ (str "/dev/stdin") oRdOnly, .fcntl 0 fGetFl 0, .fcntl 0 fSetFl oRdOnly,
          .message (.string (str "S0a")), .read 0 1], a.KeepsBlocking) :=
  ⟨_, rfl, run_modes _ _ rfl⟩

/-- A descriptor opened with `O_NONBLOCK` blocks, and no longer does when the word that `F_GETFL`
returns has been set; one set to `O_NONBLOCK` is reported without it. -/
theorem nonblocking_open_blocks :
    let opened : PortFileSystem := { readable := true, id := 0, oflag := oNonBlock }
    let set : PortFileSystem := { readable := true, id := 0, oflag := oRdOnly, blocking := false }
    Run.run step {} [.open_ (str "/dev/stdin") oNonBlock] = some { ports := [some opened] } ∧
      (opened.getFl = oNonBlock ∧ (opened.read [] 1).1 = -2 ∧
        ((opened.fcntl fSetFl opened.getFl).1.read [] 1).1 = -1 ∧ ¬ opened.Consistent) ∧
    Run.run step {} [.open_ (str "/dev/stdin") oRdOnly, .fcntl 0 fSetFl oNonBlock] =
        some { ports := [some set] } ∧
      (set.getFl = 0 ∧ (set.read [] 1).1 = -1 ∧ ¬ set.Consistent) := by
  refine ⟨by decide, ⟨by decide, by decide, by decide, ?_⟩, by decide, by decide, by decide, ?_⟩
  · rw [PortFileSystem.consistent_iff]
    decide
  · rw [PortFileSystem.consistent_iff]
    decide

end Devices

end NaClFs
