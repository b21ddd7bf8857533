import ImageNaming.Proofs.Pattern.Matching
import ImageNaming.Proofs.Text.Pieces

/-!
# Repetitions, rows and alphabets

Names, paths and hosts are rows: texts of one pattern with a separator between each two. A row is
built from the front, which gives an induction principle for it; with a single character as the
separator it describes the joined lists of texts. A pattern describes only texts over the characters
that it mentions.
-/

namespace ImageNaming.Pattern

variable {p q sep : Pattern} {t : Text} {c : Char}

/-! ## Repetitions -/

/-- Nothing, or one or more: any number. -/
theorem matches_optional_many1_iff : Matches (optional (many1 p)) t ↔ Matches (many p) t := by
  rw [matches_optional_iff, matches_many1_iff, matches_many_iff]
  constructor
  · rintro (rfl | ⟨pieces, rfl, each, -⟩)
    · exact ⟨[], by simp⟩
    · exact ⟨pieces, rfl, each⟩
  · rintro ⟨pieces, rfl, each⟩
    cases pieces with
    | nil => exact Or.inl rfl
    | cons piece pieces => exact Or.inr ⟨piece :: pieces, rfl, each, by simp⟩

/-- Single characters of a class in a row are a text over the class. -/
theorem matches_many_oneOf_iff {items : List ClassItem} :
    Matches (many (oneOf items)) t ↔ ∀ c ∈ t, items.any (·.holds c) = true := by
  rw [matches_many_iff]
  constructor
  · rintro ⟨pieces, rfl, each⟩ c hc
    obtain ⟨piece, mem, hcp⟩ := List.mem_flatten.mp hc
    obtain ⟨d, rfl, hd⟩ := matches_oneOf_iff.mp (each piece mem)
    obtain rfl := List.mem_singleton.mp hcp
    exact hd
  · intro h
    have hflatten : t = (t.map fun c => [c]).flatten := by
      rw [← List.flatMap_def, List.flatMap_singleton']
    refine ⟨t.map fun c => [c], hflatten, ?_⟩
    intro piece mem
    obtain ⟨c, hc, rfl⟩ := List.mem_map.mp mem
    exact matches_oneOf_iff.mpr ⟨c, rfl, h c hc⟩

theorem matches_many1_oneOf_iff {items : List ClassItem} :
    Matches (many1 (oneOf items)) t ↔ t ≠ [] ∧ ∀ c ∈ t, items.any (·.holds c) = true := by
  rw [← matches_many_oneOf_iff, ← matches_optional_many1_iff, matches_optional_iff]
  constructor
  · intro h
    exact ⟨h.ne_nil rfl, Or.inr h⟩
  · rintro ⟨hne, h⟩
    exact h.resolve_left hne

theorem matches_many1_one_iff {d : Char} :
    Matches (many1 (one d)) t ↔ ∃ more, t = List.replicate (more + 1) d := by
  simp only [matches_many1_iff, matches_one_iff]
  constructor
  · rintro ⟨pieces, rfl, each, hne⟩
    obtain ⟨more, hmore⟩ := Nat.exists_eq_succ_of_ne_zero (mt List.length_eq_zero_iff.mp hne)
    rw [List.eq_replicate_of_mem each, List.flatten_replicate_singleton, hmore]
    exact ⟨more, rfl⟩
  · rintro ⟨more, rfl⟩
    refine ⟨List.replicate (more + 1) [d], List.flatten_replicate_singleton.symm, ?_, by simp⟩
    intro piece mem
    exact List.eq_of_mem_replicate mem

theorem matches_seq_assoc {r : Pattern} :
    Matches (.seq p (.seq q r)) t ↔ Matches (.seq (.seq p q) r) t := by
  constructor
  · intro h
    obtain ⟨u, v, rfl, hu, hv⟩ := matches_seq_iff.mp h
    obtain ⟨v, w, rfl, hv, hw⟩ := matches_seq_iff.mp hv
    rw [← List.append_assoc]
    exact .seq (.seq hu hv) hw
  · intro h
    obtain ⟨u, w, rfl, hu, hw⟩ := matches_seq_iff.mp h
    obtain ⟨u, v, rfl, hu, hv⟩ := matches_seq_iff.mp hu
    rw [List.append_assoc]
    exact .seq hu (.seq hv hw)

/-! ## Rows -/

/-- Texts of `p` with a text of `sep` between each two. -/
def row (p sep : Pattern) : Pattern := seq p (many (seq sep p))

theorem Matches.row_single (h : Matches p t) : Matches (row p sep) t :=
  matches_seq_iff.mpr ⟨t, [], by simp, h, matches_many_iff.mpr ⟨[], rfl, by simp⟩⟩

theorem Matches.row_cons {u s v : Text} (hu : Matches p u) (hs : Matches sep s)
    (hv : Matches (row p sep) v) : Matches (row p sep) (u ++ s ++ v) := by
  obtain ⟨first, w, rfl, hfirst, hw⟩ := matches_seq_iff.mp hv
  obtain ⟨pieces, rfl, each⟩ := matches_many_iff.mp hw
  refine matches_seq_iff.mpr ⟨u, s ++ first ++ pieces.flatten, by simp, hu, ?_⟩
  refine matches_many_iff.mpr ⟨(s ++ first) :: pieces, rfl, ?_⟩
  intro piece mem
  rcases List.mem_cons.mp mem with rfl | mem
  · exact .seq hs hfirst
  · exact each piece mem

/-- Induction on a row: from a row to the same row behind one more text and a separator. -/
@[elab_as_elim]
theorem Matches.row_rec {motive : (t : Text) → Matches (row p sep) t → Prop}
    (single : ∀ u (hu : Matches p u), motive u hu.row_single)
    (cons : ∀ u s v (hu : Matches p u) (hs : Matches sep s) (hv : Matches (row p sep) v),
      motive v hv → motive (u ++ s ++ v) (hu.row_cons hs hv))
    {t : Text} (h : Matches (row p sep) t) : motive t h := by
  obtain ⟨u, w, rfl, hu, hw⟩ := matches_seq_iff.mp h
  obtain ⟨pieces, rfl, each⟩ := matches_many_iff.mp hw
  clear hw
  induction pieces generalizing u with
  | nil => simpa using single u hu
  | cons piece pieces ih =>
    obtain ⟨s, v, rfl, hs, hv⟩ := matches_seq_iff.mp (each piece (by simp))
    have each' : ∀ other ∈ pieces, Matches (.seq sep p) other :=
      fun other mem => each other (List.mem_cons_of_mem _ mem)
    have hrow : Matches (row p sep) (v ++ pieces.flatten) :=
      .seq hv (matches_many_iff.mpr ⟨pieces, rfl, each'⟩)
    have := cons u s (v ++ pieces.flatten) hu hs hrow (ih v hv each' hrow)
    simpa [List.append_assoc] using this

/-- A row is one text, or one in front of a separator and another row. -/
theorem matches_row_iff :
    Matches (row p sep) t ↔ Matches p t ∨
      ∃ u s v, t = u ++ s ++ v ∧ Matches p u ∧ Matches sep s ∧ Matches (row p sep) v := by
  constructor
  · intro h
    induction h using Matches.row_rec with
    | single u hu => exact Or.inl hu
    | cons u s v hu hs hv _ => exact Or.inr ⟨u, s, v, rfl, hu, hs, hv⟩
  · rintro (h | ⟨u, s, v, rfl, hu, hs, hv⟩)
    · exact h.row_single
    · exact hu.row_cons hs hv

theorem Matches.row_mono {p' sep' : Pattern} (hp : ∀ t, Matches p t → Matches p' t)
    (hsep : ∀ t, Matches sep t → Matches sep' t) (h : Matches (row p sep) t) :
    Matches (row p' sep') t := by
  induction h using Matches.row_rec with
  | single u hu => exact (hp u hu).row_single
  | cons u s v hu hs _ ih => exact (hp u hu).row_cons (hsep s hs) ih

/-- A row with a mark between each two texts describes exactly the joined lists of texts. -/
theorem matches_row_iff_joinWith {mark : Char} :
    Matches (row p (one mark)) t ↔ ∃ parts : List Text, parts ≠ [] ∧
      (∀ part ∈ parts, Matches p part) ∧ t = Text.joinWith [mark] parts := by
  constructor
  · intro h
    induction h using Matches.row_rec with
    | single u hu => exact ⟨[u], by simp, by simpa using hu, rfl⟩
    | cons u s v hu hs _ ih =>
      obtain ⟨parts, hne, hparts, rfl⟩ := ih
      rw [matches_one_iff] at hs
      subst hs
      refine ⟨u :: parts, by simp, ?_, (Text.joinWith_cons _ _ hne).symm⟩
      intro part mem
      rcases List.mem_cons.mp mem with rfl | mem
      · exact hu
      · exact hparts part mem
  · rintro ⟨parts, hne, hparts, rfl⟩
    induction parts with
    | nil => exact absurd rfl hne
    | cons part parts ih =>
      have hpart := hparts part (by simp)
      cases parts with
      | nil => exact hpart.row_single
      | cons next rest =>
        rw [Text.joinWith_cons _ _ (by simp)]
        exact hpart.row_cons (.one mark)
          (ih (by simp) fun other mem => hparts other (List.mem_cons_of_mem _ mem))

/-! ## Alphabets -/

/-- The entries of classes that a pattern is made of; a single character counts as one. -/
def entries : Pattern → List ClassItem
  | empty => []
  | one c => [.single c]
  | oneOf items => items
  | seq p q => p.entries ++ q.entries
  | alt p q => p.entries ++ q.entries
  | times p _ _ => p.entries

/-- A pattern describes only texts over the characters of its entries. -/
theorem Matches.exists_entry (h : Matches p t) (hc : c ∈ t) :
    ∃ item ∈ p.entries, item.holds c = true := by
  induction h with
  | empty => cases hc
  | one d =>
    obtain rfl := List.mem_singleton.mp hc
    exact ⟨.single c, by simp [entries], by simp [ClassItem.holds]⟩
  | oneOf mem holds =>
    obtain rfl := List.mem_singleton.mp hc
    exact ⟨_, mem, holds⟩
  | seq _ _ ihp ihq =>
    rcases List.mem_append.mp hc with hc | hc
    · obtain ⟨item, mem, holds⟩ := ihp hc
      exact ⟨item, List.mem_append_left _ mem, holds⟩
    · obtain ⟨item, mem, holds⟩ := ihq hc
      exact ⟨item, List.mem_append_right _ mem, holds⟩
  | altLeft _ ih =>
    obtain ⟨item, mem, holds⟩ := ih hc
    exact ⟨item, List.mem_append_left _ mem, holds⟩
  | altRight _ ih =>
    obtain ⟨item, mem, holds⟩ := ih hc
    exact ⟨item, List.mem_append_right _ mem, holds⟩
  | times pieces each _ _ ih =>
    obtain ⟨piece, mem, hc⟩ := List.mem_flatten.mp hc
    exact ih piece mem hc

theorem Matches.notMem (h : Matches p t) (hc : p.entries.all (fun item => !item.holds c)) :
    c ∉ t := by
  intro mem
  obtain ⟨item, hitem, holds⟩ := h.exists_entry mem
  have := List.all_eq_true.mp hc item hitem
  simp [holds] at this

end ImageNaming.Pattern
