import Mathlib.Data.List.TakeWhile
import Mathlib.Tactic.Tauto
import ImageNaming.Text.Basic

/-!
# Texts around a mark

A text that is joined at a mark which none of its parts holds can be cut there again in only one
way. Everything that is said of segments, tags and digests rests on this.
-/

namespace ImageNaming.Text

variable {mark : Char} {s t u v : Text} {parts : List Text}

/-- The first occurrence of a mark cuts a text in only one way. -/
theorem cut_unique (hu : mark ∉ u) (hv : mark ∉ v) (h : u ++ mark :: s = v ++ mark :: t) :
    u = v ∧ s = t := by
  induction u generalizing v with
  | nil =>
    cases v with
    | nil => exact ⟨rfl, (List.cons.inj h).2⟩
    | cons d v =>
      obtain ⟨rfl, -⟩ := List.cons.inj h
      exact absurd List.mem_cons_self hv
  | cons c u ih =>
    cases v with
    | nil =>
      obtain ⟨rfl, -⟩ := List.cons.inj h
      exact absurd List.mem_cons_self hu
    | cons d v =>
      obtain ⟨rfl, htail⟩ := List.cons.inj h
      obtain ⟨rfl, rfl⟩ := ih (fun m => hu (List.mem_cons_of_mem _ m))
        (fun m => hv (List.mem_cons_of_mem _ m)) htail
      exact ⟨rfl, rfl⟩

/-- The last occurrence of a mark cuts a text in only one way. -/
theorem cut_last_unique (hs : mark ∉ s) (ht : mark ∉ t) (h : u ++ mark :: s = v ++ mark :: t) :
    u = v ∧ s = t := by
  have hreverse : s.reverse ++ mark :: u.reverse = t.reverse ++ mark :: v.reverse := by
    simpa using congrArg List.reverse h
  have hcut := cut_unique (by simpa using hs) (by simpa using ht) hreverse
  exact ⟨List.reverse_inj.mp hcut.2, List.reverse_inj.mp hcut.1⟩

/-- A piece in front of a mark, or at the end of the text, is what is taken up to the mark. -/
theorem takeWhile_cut (hu : mark ∉ u) (hv : v = [] ∨ ∃ more, v = mark :: more) :
    (u ++ v).takeWhile (· ≠ mark) = u := by
  rw [List.takeWhile_append_of_pos]
  · rcases hv with rfl | ⟨more, rfl⟩ <;> simp
  · intro c hc
    exact decide_eq_true (fun h => hu (h ▸ hc))

theorem dropWhile_cut (hu : mark ∉ u) (v : Text) :
    (u ++ mark :: v).dropWhile (· ≠ mark) = mark :: v := by
  rw [List.dropWhile_append_of_pos]
  · simp
  · intro c hc
    exact decide_eq_true (fun h => hu (h ▸ hc))

/-- Taking a text up to a mark leaves nothing, or a rest that begins with the mark. -/
theorem exists_takeWhile_append (mark : Char) (t : Text) :
    ∃ v, t = t.takeWhile (· ≠ mark) ++ v ∧ mark ∉ t.takeWhile (· ≠ mark) ∧
      (v = [] ∨ ∃ more, v = mark :: more) := by
  by_cases h : mark ∈ t
  · obtain ⟨u, v, rfl, hu⟩ := List.eq_append_cons_of_mem h
    rw [takeWhile_cut hu (Or.inr ⟨v, rfl⟩)]
    exact ⟨mark :: v, rfl, hu, Or.inr ⟨v, rfl⟩⟩
  · have htake := takeWhile_cut h (Or.inl rfl)
    rw [List.append_nil] at htake
    rw [htake]
    exact ⟨[], by simp, h, Or.inl rfl⟩

/-! ## Joining -/

theorem joinWith_cons (separator part : Text) (h : parts ≠ []) :
    joinWith separator (part :: parts) = part ++ separator ++ joinWith separator parts := by
  cases parts with
  | nil => exact absurd rfl h
  | cons next rest => rfl

theorem joinWith_concat (separator last : Text) (h : parts ≠ []) :
    joinWith separator (parts ++ [last]) = joinWith separator parts ++ separator ++ last := by
  induction parts with
  | nil => exact absurd rfl h
  | cons part rest ih =>
    by_cases hrest : rest = []
    · subst hrest
      rfl
    · rw [List.cons_append, joinWith_cons _ _ (by simp), ih hrest, joinWith_cons _ _ hrest]
      simp only [List.append_assoc]

/-- All parts but the first stand behind a separator. -/
theorem joinWith_cons_eq_flatMap (separator first : Text) (rest : List Text) :
    joinWith separator (first :: rest) = first ++ rest.flatMap fun part => separator ++ part := by
  induction rest generalizing first with
  | nil => simp [joinWith]
  | cons part rest ih =>
    rw [joinWith_cons _ _ (by simp), ih, List.flatMap_cons]
    simp only [List.append_assoc]

theorem joinWith_eq_intercalate (separator : Text) (parts : List Text) :
    joinWith separator parts = separator.intercalate parts := by
  induction parts with
  | nil => rfl
  | cons part parts ih =>
    cases parts with
    | nil => simp [joinWith]
    | cons next rest => rw [joinWith_cons _ _ (by simp), ih, List.intercalate_cons_cons]

/-- Parts without the mark between them are recovered from the text that they are joined to. -/
theorem joinWith_injective {parts' : List Text} (hne : parts ≠ []) (hne' : parts' ≠ [])
    (hfree : ∀ part ∈ parts, mark ∉ part) (hfree' : ∀ part ∈ parts', mark ∉ part)
    (h : joinWith [mark] parts = joinWith [mark] parts') : parts = parts' := by
  rw [joinWith_eq_intercalate, joinWith_eq_intercalate] at h
  rw [← List.splitOn_intercalate mark hfree hne, h, List.splitOn_intercalate mark hfree' hne']

theorem mem_joinWith {c : Char} {separator : Text} (h : c ∈ joinWith separator parts) :
    c ∈ separator ∨ ∃ part ∈ parts, c ∈ part := by
  induction parts with
  | nil => simp [joinWith] at h
  | cons part parts ih =>
    cases parts with
    | nil => exact Or.inr ⟨part, by simp, h⟩
    | cons next rest =>
      simp only [joinWith, List.mem_append] at h
      rcases h with (h | h) | h
      · exact Or.inr ⟨part, by simp, h⟩
      · exact Or.inl h
      · rcases ih h with h | ⟨other, hother, hc⟩
        · exact Or.inl h
        · exact Or.inr ⟨other, List.mem_cons_of_mem _ hother, hc⟩

/-! ## Cutting -/

theorem piecesBetween_of_notMem (h : mark ∉ t) : piecesBetween mark t = [t] := by
  induction t with
  | nil => rfl
  | cons c t ih =>
    rw [List.mem_cons, not_or] at h
    rw [piecesBetween, if_neg (Ne.symm h.1), ih h.2]

theorem piecesBetween_append_cons (hu : mark ∉ u) (v : Text) :
    piecesBetween mark (u ++ mark :: v) = u :: piecesBetween mark v := by
  induction u with
  | nil => rw [List.nil_append, piecesBetween, if_pos rfl]
  | cons c u ih =>
    rw [List.mem_cons, not_or] at hu
    rw [List.cons_append, piecesBetween, if_neg (Ne.symm hu.1), ih hu.2]

/-- Induction on the marks of a text: from a text to the same text behind one more piece. -/
@[elab_as_elim]
theorem piece_rec {motive : Text → Prop} (mark : Char) (last : ∀ t, mark ∉ t → motive t)
    (cons : ∀ u v, mark ∉ u → motive v → motive (u ++ mark :: v)) (t : Text) : motive t := by
  obtain ⟨n, hn⟩ : ∃ n, t.length = n := ⟨_, rfl⟩
  induction n using Nat.strongRecOn generalizing t with
  | _ n ih =>
    by_cases h : mark ∈ t
    · obtain ⟨u, v, rfl, hu⟩ := List.eq_append_cons_of_mem h
      have hlength : v.length < n := by
        rw [← hn, List.length_append, List.length_cons]
        omega
      exact cons u v hu (ih _ hlength v rfl)
    · exact last t h

theorem joinWith_piecesBetween (mark : Char) (t : Text) :
    joinWith [mark] (piecesBetween mark t) = t := by
  induction t using piece_rec mark with
  | last t h =>
    rw [piecesBetween_of_notMem h]
    rfl
  | cons u v hu ih =>
    rw [piecesBetween_append_cons hu, joinWith_cons _ _ (piecesBetween_ne_nil _ _), ih,
      List.append_assoc]
    rfl

theorem notMem_of_mem_piecesBetween (h : s ∈ piecesBetween mark t) : mark ∉ s := by
  induction t using piece_rec mark with
  | last t ht =>
    rw [piecesBetween_of_notMem ht] at h
    rw [List.mem_singleton.mp h]
    exact ht
  | cons u v hu ih =>
    rw [piecesBetween_append_cons hu] at h
    rcases List.mem_cons.mp h with rfl | hv
    · exact hu
    · exact ih hv

/-- The pieces of a text are the only parts without the mark that the text is joined from. -/
theorem piecesBetween_eq_iff : piecesBetween mark t = parts ↔
    parts ≠ [] ∧ (∀ part ∈ parts, mark ∉ part) ∧ joinWith [mark] parts = t := by
  have hpieces : ∀ s : Text,
      piecesBetween mark s ≠ [] ∧ ∀ part ∈ piecesBetween mark s, mark ∉ part := fun s =>
    ⟨piecesBetween_ne_nil mark s, fun _ mem => notMem_of_mem_piecesBetween mem⟩
  constructor
  · rintro rfl
    exact ⟨(hpieces t).1, (hpieces t).2, joinWith_piecesBetween mark t⟩
  · rintro ⟨hne, hfree, rfl⟩
    have hjoin := joinWith_piecesBetween mark (joinWith [mark] parts)
    exact joinWith_injective (hpieces _).1 hne (hpieces _).2 hfree hjoin

/-! ## Neighbours -/

/-- Two characters that are neighbours in a text are neighbours in its front or in its back, or
stand on the two sides of the cut. -/
theorem pair_infix_append_iff {a b : Char} : [a, b] <:+: u ++ v ↔
    [a, b] <:+: u ∨ [a, b] <:+: v ∨ (u.getLast? = some a ∧ v.head? = some b) := by
  rw [List.infix_append_iff]
  constructor
  · rintro (h | h | ⟨front, back, heq, hfront, hback⟩)
    · exact Or.inl h
    · exact Or.inr (Or.inl h)
    · match front with
      | [] =>
        obtain rfl : [a, b] = back := heq
        exact Or.inr (Or.inl hback.isInfix)
      | [c] =>
        obtain ⟨rfl, rfl⟩ : a = c ∧ [b] = back := List.cons.inj heq
        obtain ⟨w, rfl⟩ := hfront
        obtain ⟨x, rfl⟩ := hback
        exact Or.inr (Or.inr ⟨by simp, by simp⟩)
      | c :: d :: more =>
        simp only [List.cons_append, List.cons.injEq, List.nil_eq_append_iff] at heq
        obtain ⟨rfl, rfl, rfl, -⟩ := heq
        exact Or.inl hfront.isInfix
  · rintro (h | h | ⟨hlast, hhead⟩)
    · exact Or.inl h
    · exact Or.inr (Or.inl h)
    · obtain ⟨w, rfl⟩ := List.getLast?_eq_some_iff.mp hlast
      obtain ⟨x, rfl⟩ := List.head?_eq_some_iff.mp hhead
      exact Or.inr (Or.inr ⟨[a], [b], rfl, ⟨w, rfl⟩, ⟨x, rfl⟩⟩)

/-- Around a mark, the neighbours are those in front of it and behind it and the mark's own. -/
theorem pair_infix_around_iff {a b : Char} : [a, b] <:+: u ++ [mark] ++ v ↔
    [a, b] <:+: u ∨ [a, b] <:+: v ∨ (u.getLast? = some a ∧ mark = b) ∨
      (mark = a ∧ v.head? = some b) := by
  have hmark : ¬ [a, b] <:+: [mark] := fun h => absurd h.length_le (by simp)
  rw [pair_infix_append_iff, pair_infix_append_iff, List.getLast?_concat]
  simp only [hmark, List.head?_cons, Option.some.injEq, false_or]
  tauto

end ImageNaming.Text
