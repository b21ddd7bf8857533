import ImageNaming.Proofs.Pattern.Rows

/-!
# Matching as a machine

The matcher holds a list of patterns and replaces it at each character. Where only a few lists can
arise they are the states of a machine that reads the text once: if one character leads from the
patterns of a state to those of the next state, then the matcher goes through the states of the
machine on every text (`anyAccepts_append`).
-/

namespace ImageNaming.Pattern

variable {p q sep : Pattern} {c : Char}

/-! ## One character -/

theorem after_many : after c (many p) = (after c p).map (andThen · (many p)) := by
  simp only [many, after, reduceCtorEq, if_false, Option.map_none, Nat.zero_sub]

theorem after_many1 : after c (many1 p) = (after c p).map (andThen · (many p)) := by
  simp only [many1, many, after, reduceCtorEq, if_false, Option.map_none, Nat.sub_self]

theorem after_row (hp : p.nullable = false) :
    after c (row p sep) = (after c p).map (andThen · (many (seq sep p))) := by
  simp only [row, after, hp, Bool.false_eq_true, if_false]

/-- A character that cannot begin what stands behind some patterns is a step inside of them. -/
theorem flatMap_after_seq {patterns : List Pattern} (hq : after c q = []) :
    (patterns.map (seq · q)).flatMap (after c) =
      (patterns.flatMap (after c)).map (andThen · q) := by
  rw [List.flatMap_map, List.map_flatMap]
  refine List.flatMap_congr fun p _ => ?_
  simp only [after, hq, List.append_nil, ite_self]

/-! ## All characters -/

theorem anyAccepts_nil (t : Text) : anyAccepts [] t = false := by
  rw [Bool.eq_false_iff, ne_eq, anyAccepts_iff]
  simp

section Machine

variable {σ : Type} {step : σ → Char → Option σ} {ahead : σ → List Pattern}
  (hstep : ∀ state c, ((ahead state).flatMap (after c)).eraseDups = (step state c).elim [] ahead)
include hstep

/-- Behind any beginning of a text the matcher holds the patterns of the machine's state; where the
machine has refused the beginning, it accepts no continuation. -/
theorem anyAccepts_append (state : σ) (u v : Text) : anyAccepts (ahead state) (u ++ v) =
    (u.foldlM step state).any fun last => anyAccepts (ahead last) v := by
  induction u generalizing state with
  | nil => rfl
  | cons c u ih =>
    rw [List.cons_append, anyAccepts, hstep, List.foldlM_cons]
    cases step state c with
    | none => exact anyAccepts_nil (u ++ v)
    | some next => exact ih next

/-- If each state can still lead to a text that is accepted, then the machine refuses a beginning
exactly where no continuation is accepted. -/
theorem foldlM_eq_none_iff (hlive : ∀ state, ∃ v, anyAccepts (ahead state) v = true) (state : σ)
    (u : Text) :
    u.foldlM step state = none ↔ ∀ v, anyAccepts (ahead state) (u ++ v) = false := by
  constructor
  · intro h v
    rw [anyAccepts_append hstep, h]
    rfl
  · intro h
    cases hlast : u.foldlM step state with
    | none => rfl
    | some last =>
      obtain ⟨v, hv⟩ := hlive last
      have hrefused := h v
      rw [anyAccepts_append hstep, hlast, Option.any_some, hv] at hrefused
      cases hrefused

end Machine

end ImageNaming.Pattern
