/-
The messages of stdin: the page encodes what was typed as 'S', the port id '0' and the payload, and
naclfs.js decodes the messages of the other direction as 'S', an id and the rest. `HandleMessage`
looks at two fixed positions instead, the first and the third.
-/
import NaClFs.Page.Naclfs

namespace NaClFs

/-- The message that carries the payload `w` to stdin. -/
def stdInMessage (w : Str) : Var := .string (str "S0" ++ w)

namespace PortFileSystem

/-- The positions of the string `HandleMessage` looks at: `s[0]` and, if 'S' is there, `s[2]`. -/
def handleMessageReads : Var → List Nat
  | .other => []
  | .string s => if s.getD 0 0 ≠ 83 then [0] else [0, 2]

/-- A message is decoded in full: a payload for stdin is appended to `buffer_`, every other message
leaves it, and no position outside the string is looked at. -/
structure Decodes (buffer : Str) (message : Var) : Prop where
  payload : ∀ w, message = stdInMessage w → handleMessage buffer message = (true, buffer ++ w)
  other : (∀ w, message ≠ stdInMessage w) → (handleMessage buffer message).2 = buffer
  reads : ∀ s, message = .string s → ∀ i ∈ handleMessageReads message, i < s.length

/-- What is decoded in full: anything but a string, a string that starts with another character than
'S', and a payload of one byte. -/
def DecodesWhen : Var → Prop
  | .other => True
  | .string s => (s ≠ [] ∧ s.head? ≠ some 83) ∨ ∃ c, s = str "S0" ++ [c]

theorem getD_zero_eq {s : Str} : s.getD 0 0 = 83 ↔ s.head? = some 83 := by
  cases s with
  | nil => decide
  | cons c s => simp

/-- A string decoded in full is not empty, and has a third character if it starts with 'S'. -/
theorem Decodes.length {buffer s : Str} (h : Decodes buffer (.string s)) :
    0 < s.length ∧ (s.head? = some 83 → 2 < s.length) := by
  have hr := h.reads s rfl
  simp only [handleMessageReads] at hr
  split at hr
  · rename_i hc
    exact ⟨hr 0 (by simp), fun hs => absurd (getD_zero_eq.2 hs) hc⟩
  · exact ⟨hr 0 (by simp), fun _ => hr 2 (by simp)⟩

/-- `HandleMessage` decodes a message in full exactly when it is no string, a nonempty string without
'S' in front, or 'S', '0' and one byte. -/
theorem handleMessage_decodes_iff (buffer : Str) (message : Var) :
    Decodes buffer message ↔ DecodesWhen message := by
  have h0 : str "S0" = [83, 48] := by decide
  cases message with
  | other =>
    refine iff_of_true ⟨?_, ?_, ?_⟩ trivial
    · intro w hw
      cases hw
    · intro _
      rfl
    · intro s hs
      cases hs
  | string s =>
    constructor
    · intro h
      by_cases hs : s.head? = some 83
      · right
        obtain ⟨c, t, rfl⟩ : ∃ c t, s = c :: t := List.exists_cons_of_length_pos h.length.1
        obtain rfl : c = 83 := by simpa using hs
        -- The byte pushed is the third one; the payload decides how many there should be.
        have hpush : (handleMessage buffer (.string (83 :: t))).2 = buffer ++ [t.getD 1 0] := rfl
        by_cases ht : t.head? = some 48
        · obtain ⟨w, rfl⟩ : ∃ w, t = 48 :: w := by
            cases t with
            | nil => cases ht
            | cons d w => exact ⟨w, by simpa using ht⟩
          have hp := h.payload w (by rw [stdInMessage, h0]; rfl)
          rw [hp] at hpush
          have hw : w = [w.getD 0 0] := List.append_cancel_left hpush
          exact ⟨w.getD 0 0, by rw [h0, ← hw]; rfl⟩
        · have ho := h.other fun w hw => ht (by
            rw [stdInMessage, h0, Var.string.injEq] at hw
            injection hw with _ hw
            rw [hw]
            rfl)
          rw [ho] at hpush
          exact absurd (congrArg List.length hpush) (by simp)
      · exact .inl ⟨List.ne_nil_of_length_pos h.length.1, hs⟩
    · rintro (⟨hne, hs⟩ | ⟨c, rfl⟩)
      · have hc : s.getD 0 0 ≠ 83 := fun h => hs (getD_zero_eq.1 h)
        refine ⟨?_, ?_, ?_⟩
        · intro w hw
          rw [stdInMessage, h0, Var.string.injEq] at hw
          exact absurd (by rw [hw]; rfl) hs
        · intro _
          simp only [handleMessage, if_pos hc]
        · intro s' he i hi
          cases he
          simp only [handleMessageReads, if_pos hc, List.mem_singleton] at hi
          rw [hi]
          exact List.length_pos_iff.2 hne
      · rw [h0]
        refine ⟨?_, ?_, ?_⟩
        · intro w hw
          rw [stdInMessage, h0, Var.string.injEq] at hw
          have hw : [c] = w := List.append_cancel_left hw
          rw [← hw]
          rfl
        · intro hn
          exact absurd (by rw [stdInMessage, h0]) (hn [c])
        · intro s he i hi
          cases he
          have : i = 0 ∨ i = 2 := by simpa [handleMessageReads] using hi
          simp only [List.length_append, List.length_cons, List.length_nil]
          omega

/-- Of the keys the page sends, the ASCII ones are decoded in full. -/
theorem onkeypress_decodes_iff (buffer : Str) (which : Char) :
    Decodes buffer (Page.onkeypress which) ↔ which.utf8Size = 1 := by
  have hl := String.length_utf8EncodeChar which
  rw [handleMessage_decodes_iff]
  constructor
  · rintro (⟨-, hs⟩ | ⟨c, hc⟩)
    · exact absurd rfl hs
    · have := congrArg List.length hc
      simp only [List.length_append, List.length_singleton] at this
      omega
  · intro h
    rw [h] at hl
    obtain ⟨c, hc⟩ := List.length_eq_one_iff.1 hl
    exact .inr ⟨c, by rw [← hc]⟩

/-- Of the two bytes of 'é' one is kept; the message 'S0' without a payload pushes a NUL from behind
its end, and 'S1x', which is for no port of the module, pushes its payload. -/
theorem handleMessage_loses_byte :
    Page.onkeypress 'é' = stdInMessage [0xc3, 0xa9] ∧
    handleMessage [] (stdInMessage [0xc3, 0xa9]) = (true, [0xc3]) ∧
    handleMessage [] (stdInMessage []) = (true, [0]) ∧
    handleMessage [] (.string (str "S1x")) = (true, [120]) ∧
    ¬ ∀ buffer message, Decodes buffer message := by
  refine ⟨by decide, by decide, by decide, by decide, fun h => ?_⟩
  have := (h [] (stdInMessage [0xc3, 0xa9])).payload _ rfl
  exact absurd this (by decide)

end PortFileSystem

end NaClFs
