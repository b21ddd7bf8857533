import ImageNaming.Proofs.Text.Pieces
import ImageNaming.Text.Lines

/-!
# Lines and line ends

A text is a last line without an end, or a line and its end in front of a shorter text (`line_rec`).
Whatever the end is, the lines of a text are its first line and those of the text behind the end.
Only a carriage return right in front of a line feed is no end of its own.
-/

namespace ImageNaming.Text

variable {c : Char} {line e t u v : Text}

/-- A text in which no line ends. -/
def IsLine (line : Text) : Prop := '\n' ∉ line ∧ '\r' ∉ line

/-- What may end a line. -/
inductive IsLineEnd : Text → Prop where
  | lineFeed : IsLineEnd ['\n']
  | carriageReturn : IsLineEnd ['\r']
  | both : IsLineEnd ['\r', '\n']

theorem isLine_nil : IsLine [] := ⟨List.not_mem_nil, List.not_mem_nil⟩

theorem isLine_cons_iff : IsLine (c :: line) ↔ c ≠ '\n' ∧ c ≠ '\r' ∧ IsLine line := by
  unfold IsLine
  rw [List.mem_cons, List.mem_cons, not_or, not_or]
  constructor
  · rintro ⟨⟨hn, hline⟩, hr, hline'⟩
    exact ⟨Ne.symm hn, Ne.symm hr, hline, hline'⟩
  · rintro ⟨hn, hr, hline, hline'⟩
    exact ⟨⟨Ne.symm hn, hline⟩, Ne.symm hr, hline'⟩

theorem isLine_append_iff : IsLine (u ++ v) ↔ IsLine u ∧ IsLine v := by
  unfold IsLine
  rw [List.mem_append, List.mem_append, not_or, not_or]
  exact and_and_and_comm

/-! ## Line by line -/

theorem isLine_or_exists_end (t : Text) :
    IsLine t ∨ ∃ line e rest, t = line ++ e ++ rest ∧ IsLine line ∧ IsLineEnd e := by
  induction t with
  | nil => exact Or.inl isLine_nil
  | cons c t ih =>
    by_cases hn : c = '\n'
    · subst hn
      exact Or.inr ⟨[], ['\n'], t, rfl, isLine_nil, .lineFeed⟩
    by_cases hr : c = '\r'
    · subst hr
      exact Or.inr ⟨[], ['\r'], t, rfl, isLine_nil, .carriageReturn⟩
    rcases ih with hline | ⟨line, e, rest, rfl, hline, he⟩
    · exact Or.inl (isLine_cons_iff.mpr ⟨hn, hr, hline⟩)
    · exact Or.inr ⟨c :: line, e, rest, rfl, isLine_cons_iff.mpr ⟨hn, hr, hline⟩, he⟩

/-- Induction on the lines of a text: from a text to the same text behind one more line. -/
@[elab_as_elim]
theorem line_rec {motive : Text → Prop} (last : ∀ line, IsLine line → motive line)
    (cons : ∀ line e t, IsLine line → IsLineEnd e → motive t → motive (line ++ e ++ t))
    (t : Text) : motive t := by
  obtain ⟨n, hn⟩ : ∃ n, t.length = n := ⟨_, rfl⟩
  induction n using Nat.strongRecOn generalizing t with
  | _ n ih =>
    rcases isLine_or_exists_end t with hline | ⟨line, e, rest, rfl, hline, he⟩
    · exact last t hline
    · have hlength : rest.length < n := by
        have hpos : 0 < e.length := by cases he <;> simp
        rw [← hn, List.length_append, List.length_append]
        omega
      exact cons line e rest hline he (ih _ hlength rest rfl)

/-! ## The lines of a text -/

theorem unifyLineEnds_cons (h : c ≠ '\r') (t : Text) :
    unifyLineEnds (c :: t) = c :: unifyLineEnds t := by
  rw [unifyLineEnds, if_neg h]
  intro rest hc
  exact absurd hc h

theorem unifyLineEnds_append (h : IsLine line) (t : Text) :
    unifyLineEnds (line ++ t) = line ++ unifyLineEnds t := by
  induction line with
  | nil => rfl
  | cons c line ih =>
    obtain ⟨-, hr, hline⟩ := isLine_cons_iff.mp h
    rw [List.cons_append, unifyLineEnds_cons hr, ih hline, List.cons_append]

/-- A carriage return ends a line unless a line feed follows it, which is the end then. -/
theorem unifyLineEnds_return (t : Text) :
    unifyLineEnds ('\r' :: t) = '\n' :: unifyLineEnds t ∨
      ∃ rest, t = '\n' :: rest ∧ unifyLineEnds ('\r' :: t) = '\n' :: unifyLineEnds rest := by
  by_cases h : ∃ rest, t = '\n' :: rest
  · obtain ⟨rest, rfl⟩ := h
    right
    exact ⟨rest, rfl, by rw [unifyLineEnds]⟩
  · left
    rw [unifyLineEnds, if_pos rfl]
    intro rest _ ht
    exact h ⟨rest, ht⟩

theorem lines_of_isLine (h : IsLine line) : lines line = [line] := by
  have hline := unifyLineEnds_append h []
  rw [List.append_nil, unifyLineEnds, List.append_nil] at hline
  rw [lines, hline, piecesBetween_of_notMem h.1]

theorem lines_append_of_unify (h : IsLine line)
    (hu : unifyLineEnds u = '\n' :: unifyLineEnds t) : lines (line ++ u) = line :: lines t := by
  rw [lines, unifyLineEnds_append h, hu, piecesBetween_append_cons h.1]
  rfl

/-- Behind a line and its end stand the lines of the rest, or, where a line feed makes up the end
together with what was taken for it, the lines behind that line feed. -/
theorem lines_append (h : IsLine line) (he : IsLineEnd e) (t : Text) :
    lines (line ++ e ++ t) = line :: lines t ∨
      ∃ rest, t = '\n' :: rest ∧ lines (line ++ e ++ t) = line :: lines rest := by
  rw [List.append_assoc]
  cases he with
  | lineFeed =>
    have hfeed : unifyLineEnds ('\n' :: t) = '\n' :: unifyLineEnds t :=
      unifyLineEnds_cons (by decide) t
    exact Or.inl (lines_append_of_unify h hfeed)
  | both =>
    have hboth : unifyLineEnds ('\r' :: '\n' :: t) = '\n' :: unifyLineEnds t := by
      rw [unifyLineEnds]
    exact Or.inl (lines_append_of_unify h hboth)
  | carriageReturn =>
    rcases unifyLineEnds_return t with hreturn | ⟨rest, rfl, hreturn⟩
    · exact Or.inl (lines_append_of_unify h hreturn)
    · exact Or.inr ⟨rest, rfl, lines_append_of_unify h hreturn⟩

end ImageNaming.Text
