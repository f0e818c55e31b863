/-
Programs over a state and an environment that may wait forever: what they come to, one after the other,
and assertions on what they return and leave where they return.
-/
import Mathlib.Tactic.Common

namespace Waiting

variable {S E α γ : Type*}

/-- What a program comes to: what it returns, or none when it waits forever, and what it leaves. -/
abbrev End (S E α : Type*) := Option α × S × E

/-- One program after the other. -/
def andThen (o : End S E α) (k : α → S → E → End S E γ) : End S E γ :=
  match o with
  | (none, s, e) => (none, s, e)
  | (some a, s, e) => k a s e

/-- Where the program returned, the assertion holds of what it returned and left. -/
def Holds (Q : α → S → E → Prop) : End S E α → Prop
  | (none, _, _) => True
  | (some a, s, e) => Q a s e

variable {o : End S E α} {k : α → S → E → End S E γ} {Q Q' : α → S → E → Prop} {s : S} {e : E}

theorem holds_iff : Holds Q o ↔ ∀ a s e, o = (some a, s, e) → Q a s e := by
  rcases o with ⟨_ | a, s, e⟩
  · simp [Holds]
  · constructor
    · rintro hq a' s' e' he
      cases he
      exact hq
    · intro hq
      exact hq a s e rfl

/-- Two programs in a row meet an assertion when the first leaves what the second needs. -/
theorem holds_andThen {Q : γ → S → E → Prop} :
    Holds Q (andThen o k) ↔ Holds (fun a s e => Holds Q (k a s e)) o := by
  rcases o with ⟨_ | a, s, e⟩
  · exact Iff.rfl
  · exact Iff.rfl

theorem Holds.mono (h : Holds Q o) (hq : ∀ a s e, Q a s e → Q' a s e) : Holds Q' o := by
  rw [holds_iff] at h ⊢
  intro a s e ho
  exact hq a s e (h a s e ho)

/-! ## Programs that never wait -/

/-- The program returns from every state. -/
def Answers (m : S → E → End S E α) : Prop := ∀ s e, (m s e).1.isSome

theorem Answers.returns {m : S → E → End S E α} (h : Answers m) (s : S) (e : E) :
    ∃ a s' e', m s e = (some a, s', e') := by
  obtain ⟨a, ha⟩ := Option.isSome_iff_exists.1 (h s e)
  exact ⟨a, (m s e).2.1, (m s e).2.2, by rw [← ha]⟩

/-- Two programs in a row never wait when neither does. -/
theorem Answers.andThen {m : S → E → End S E α} {k : α → S → E → End S E γ} (hm : Answers m)
    (hk : ∀ a, Answers (k a)) : Answers fun s e => andThen (m s e) k := by
  intro s e
  obtain ⟨a, s', e', h⟩ := hm.returns s e
  show (Waiting.andThen (m s e) k).1.isSome
  rw [h]
  exact hk a s' e'

end Waiting
