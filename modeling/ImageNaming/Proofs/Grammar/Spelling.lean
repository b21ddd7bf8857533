import Mathlib.Data.List.SplitBy
import ImageNaming.Proofs.Grammar.Path

/-!
# The ways of writing a name

A component is written as runs with a joint between each two, and a path as components with a slash
between each two. Runs share no character with joints and slashes, so the pieces of a written name
are its stretches: the longest runs of lowercase letters and digits in it and what stands between
them. Hence a name is written in one way only, although one underscore may stand for a joint as well
as two, and hyphens in any number.
-/

namespace ImageNaming.Grammar

open Pattern ClassItem

variable {c : Char} {s t u v : Text} {pieces : List Text} {parts : List (List Text)}

/-! ## Runs and joints -/

/-- Whether a character is a lowercase letter or a digit. -/
def isRunChar (c : Char) : Bool := c.isLower || c.isDigit

/-- `IsStretch inRun t` says that `t` is not empty and that all its characters are lowercase letters
and digits, or that none of them is. -/
def IsStretch (inRun : Bool) (t : Text) : Prop := t ≠ [] ∧ ∀ c ∈ t, isRunChar c = inRun

/-- A text of lowercase letters and digits that is not empty. -/
abbrev IsRun (t : Text) : Prop := IsStretch true t

/-- What may stand between two runs of a component. -/
inductive IsJoint : Text → Prop where
  | dot : IsJoint ['.']
  | underscore : IsJoint ['_']
  | underscores : IsJoint ['_', '_']
  | hyphens (more : Nat) : IsJoint (List.replicate (more + 1) '-')

instance (inRun : Bool) (t : Text) : Decidable (IsStretch inRun t) :=
  decidable_of_iff ((!t.isEmpty && t.all (isRunChar · == inRun)) = true) (by simp [IsStretch])

theorem any_runChar (c : Char) : [range 'a' 'z', range '0' '9'].any (·.holds c) = isRunChar c := by
  simp only [List.any_cons, List.any_nil, Bool.or_false, holds_lower, holds_digit, isRunChar]

theorem matches_run_iff : Matches run t ↔ IsRun t := by
  simp only [run, matches_many1_oneOf_iff, any_runChar, IsStretch]

theorem matches_joint_iff : Matches joint t ↔ IsJoint t := by
  simp only [joint, matches_alt_iff, matches_oneOf_iff, matches_literal_iff,
    matches_many1_one_iff]
  constructor
  · rintro (⟨c, rfl, hc⟩ | rfl | ⟨more, rfl⟩)
    · have hmark : c = '.' ∨ c = '_' := by simpa [holds] using hc
      rcases hmark with rfl | rfl
      · exact .dot
      · exact .underscore
    · exact .underscores
    · exact .hyphens more
  · rintro (_ | _ | _ | more)
    · exact Or.inl ⟨'.', rfl, rfl⟩
    · exact Or.inl ⟨'_', rfl, rfl⟩
    · exact Or.inr (Or.inl rfl)
    · exact Or.inr (Or.inr ⟨more, rfl⟩)

theorem IsJoint.isStretch (h : IsJoint s) : IsStretch false s := by
  cases h with
  | dot => decide
  | underscore => decide
  | underscores => decide
  | hyphens more =>
    refine ⟨by simp, fun c hc => ?_⟩
    rw [List.eq_of_mem_replicate hc]
    decide

/-! ## Stretches -/

/-- The longest runs of lowercase letters and digits in a text and the longest stretches without
them, in order. -/
def stretches (t : Text) : List Text := t.splitBy fun c d => isRunChar c == isRunChar d

theorem flatten_stretches (t : Text) : (stretches t).flatten = t := List.flatten_splitBy _ t

theorem stretches_of_isStretch {inRun : Bool} (h : IsStretch inRun t) : stretches t = [t] := by
  refine List.splitBy_of_isChain h.1 (List.Pairwise.isChain ?_)
  refine List.pairwise_of_forall_mem_list fun c hc d hd => ?_
  rw [h.2 c hc, h.2 d hd, beq_self_eq_true]

/-- A stretch in front of characters of the other kind is cut off whole. -/
theorem stretches_append {inRun : Bool} (hu : IsStretch inRun u)
    (hv : ∀ c ∈ v.head?, isRunChar c = !inRun) : stretches (u ++ v) = u :: stretches v := by
  have hdiffer : ∀ c ∈ u.getLast?, ∀ d ∈ v.head?, (isRunChar c == isRunChar d) = false := by
    intro c hc d hd
    rw [hu.2 c (List.mem_of_getLast? hc), hv d hd]
    cases inRun <;> rfl
  have hcut : stretches (u ++ v) = stretches u ++ stretches v := List.splitBy_append hdiffer
  rw [hcut, stretches_of_isStretch hu]
  rfl

theorem isRunChar_of_mem_head? {inRun : Bool} (h : IsStretch inRun u) (hc : c ∈ (u ++ v).head?) :
    isRunChar c = inRun := by
  rw [List.head?_append_of_ne_nil _ h.1] at hc
  exact h.2 c (List.mem_of_head? hc)

/-! ## Alternating pieces -/

/-- `Alternating IsSeparator pieces` says that the pieces are runs with a separator between each
two. -/
inductive Alternating (IsSeparator : Text → Prop) : List Text → Prop where
  | single {r : Text} (hr : IsRun r) : Alternating IsSeparator [r]
  | cons {r s : Text} {rest : List Text} (hr : IsRun r) (hs : IsSeparator s)
      (hrest : Alternating IsSeparator rest) : Alternating IsSeparator (r :: s :: rest)

namespace Alternating

variable {IsSeparator : Text → Prop} {others : List Text}

theorem mono {IsSeparator' : Text → Prop} (h : Alternating IsSeparator pieces)
    (hsep : ∀ s, IsSeparator s → IsSeparator' s) : Alternating IsSeparator' pieces := by
  induction h with
  | single hr => exact .single hr
  | cons hr hs _ ih => exact .cons hr (hsep _ hs) ih

theorem append_cons (h : Alternating IsSeparator pieces) (hs : IsSeparator s)
    (h' : Alternating IsSeparator others) : Alternating IsSeparator (pieces ++ s :: others) := by
  induction h with
  | single hr => exact .cons hr hs h'
  | cons hr hs' _ ih => exact .cons hr hs' ih

theorem exists_flatten_eq_append (h : Alternating IsSeparator pieces) :
    ∃ r v, IsRun r ∧ pieces.flatten = r ++ v := by
  cases h with
  | single hr => exact ⟨_, [], hr, by simp⟩
  | cons hr _ _ => exact ⟨_, _, hr, List.flatten_cons⟩

/-- Alternating pieces are the stretches of their text. -/
theorem stretches_flatten (h : Alternating IsSeparator pieces)
    (hsep : ∀ s, IsSeparator s → IsStretch false s) : stretches pieces.flatten = pieces := by
  -- A run and a separator at a time: each ends where a piece of the other kind begins.
  induction h with
  | single hr =>
    rw [List.flatten_singleton]
    exact stretches_of_isStretch hr
  | @cons r s rest hr hs hrest ih =>
    have hmark := hsep s hs
    have hfront : ∀ c ∈ rest.flatten.head?, isRunChar c = !false := by
      obtain ⟨first, v, hfirst, heq⟩ := hrest.exists_flatten_eq_append
      rw [heq]
      exact fun c hc => isRunChar_of_mem_head? hfirst hc
    rw [List.flatten_cons, List.flatten_cons, stretches_append hr, stretches_append hmark hfront,
      ih]
    exact fun c hc => isRunChar_of_mem_head? hmark hc

end Alternating

/-! ## Written names -/

/-- `SpellsComponent t pieces` says that `t` is written as these pieces: runs, and a joint between
each two. -/
structure SpellsComponent (t : Text) (pieces : List Text) : Prop where
  alternating : Alternating IsJoint pieces
  flatten : pieces.flatten = t

/-- `SpellsPath t parts` says that `t` is written as components with a slash between each two, of
which each is given as its runs and joints. -/
structure SpellsPath (t : Text) (parts : List (List Text)) : Prop where
  ne_nil : parts ≠ []
  alternating : ∀ part ∈ parts, Alternating IsJoint part
  joined : Text.joinWith "/" (parts.map List.flatten) = t

theorem SpellsComponent.eq_stretches (h : SpellsComponent t pieces) : pieces = stretches t := by
  rw [← h.flatten]
  exact (h.alternating.stretches_flatten fun _ hs => hs.isStretch).symm

theorem isComponent_iff_exists_spelling :
    isComponent t = true ↔ ∃ pieces, SpellsComponent t pieces := by
  rw [isComponent_iff, component_eq_row]
  constructor
  · intro h
    induction h using Matches.row_rec with
    | single u hu => exact ⟨[u], .single (matches_run_iff.mp hu), by simp⟩
    | cons u s v hu hs _ ih =>
      obtain ⟨pieces, halternating, rfl⟩ := ih
      have hcons := halternating.cons (matches_run_iff.mp hu) (matches_joint_iff.mp hs)
      exact ⟨u :: s :: pieces, hcons, by simp⟩
  · rintro ⟨pieces, halternating, rfl⟩
    induction halternating with
    | single hr =>
      rw [List.flatten_singleton]
      exact (matches_run_iff.mpr hr).row_single
    | cons hr hs _ ih =>
      have := (matches_run_iff.mpr hr).row_cons (matches_joint_iff.mpr hs) ih
      simpa using this

theorem spellsComponent_iff :
    SpellsComponent t pieces ↔ isComponent t = true ∧ pieces = stretches t := by
  rw [isComponent_iff_exists_spelling]
  constructor
  · intro h
    exact ⟨⟨pieces, h⟩, h.eq_stretches⟩
  · rintro ⟨⟨others, h⟩, rfl⟩
    rw [← h.eq_stretches]
    exact h

/-! ## Written paths -/

/-- What may stand between two runs of a path. -/
def IsPathMark (s : Text) : Prop := IsJoint s ∨ s = ['/']

theorem IsPathMark.isStretch (h : IsPathMark s) : IsStretch false s := by
  rcases h with h | rfl
  · exact h.isStretch
  · decide

theorem slash_notMem_of_alternating (h : Alternating IsJoint pieces) : ['/'] ∉ pieces := by
  intro mem
  -- A piece is a part of the component's text, and a component has no slash.
  have hcomponent := isComponent_iff_exists_spelling.mpr ⟨pieces, h, rfl⟩
  exact slash_notMem_of_isComponent hcomponent (List.mem_flatten.mpr ⟨_, mem, by simp⟩)

/-- Put together with slashes, the pieces of components alternate again. -/
theorem alternating_intercalate (hne : parts ≠ [])
    (hparts : ∀ part ∈ parts, Alternating IsJoint part) :
    Alternating IsPathMark (List.intercalate [['/']] parts) := by
  induction parts with
  | nil => exact absurd rfl hne
  | cons part parts ih =>
    have hpart : Alternating IsPathMark part :=
      (hparts part (by simp)).mono fun _ hs => Or.inl hs
    by_cases hrest : parts = []
    · subst hrest
      simpa using hpart
    · rw [List.intercalate_cons_of_ne_nil hrest, List.append_assoc]
      exact hpart.append_cons (Or.inr rfl)
        (ih hrest fun other mem => hparts other (List.mem_cons_of_mem _ mem))

theorem flatten_intercalate (parts : List (List Text)) :
    (List.intercalate [['/']] parts).flatten = Text.joinWith "/" (parts.map List.flatten) := by
  induction parts with
  | nil => rfl
  | cons part parts ih =>
    by_cases hrest : parts = []
    · subst hrest
      simp [Text.joinWith]
    · rw [List.intercalate_cons_of_ne_nil hrest, List.map_cons,
        Text.joinWith_cons _ _ (by simpa using hrest), List.flatten_append, List.flatten_append, ih]
      rfl

/-- The pieces of a written path, with the slashes, are its stretches. -/
theorem SpellsPath.intercalate_eq (h : SpellsPath t parts) :
    List.intercalate [['/']] parts = stretches t := by
  rw [← h.joined, ← flatten_intercalate]
  exact ((alternating_intercalate h.ne_nil h.alternating).stretches_flatten
    fun _ hs => hs.isStretch).symm

theorem SpellsPath.eq_splitOn (h : SpellsPath t parts) :
    parts = (stretches t).splitOn ['/'] := by
  rw [← h.intercalate_eq]
  refine (List.splitOn_intercalate ['/'] ?_ h.ne_nil).symm
  exact fun part mem => slash_notMem_of_alternating (h.alternating part mem)

theorem isPath_iff_exists_spelling : isPath t = true ↔ ∃ parts, SpellsPath t parts := by
  rw [isPath_iff_joinWith]
  constructor
  · rintro ⟨texts, hne, htexts, rfl⟩
    refine ⟨texts.map stretches, by simpa using hne, ?_, ?_⟩
    · intro part mem
      obtain ⟨text, htext, rfl⟩ := List.mem_map.mp mem
      exact (spellsComponent_iff.mpr ⟨htexts text htext, rfl⟩).alternating
    · rw [List.map_map, show List.flatten ∘ stretches = id from funext flatten_stretches,
        List.map_id]
  · rintro ⟨parts, hne, hparts, rfl⟩
    refine ⟨parts.map List.flatten, by simpa using hne, ?_, rfl⟩
    intro text mem
    obtain ⟨part, hpart, rfl⟩ := List.mem_map.mp mem
    exact isComponent_iff_exists_spelling.mpr ⟨part, hparts part hpart, rfl⟩

theorem spellsPath_iff :
    SpellsPath t parts ↔ isPath t = true ∧ parts = (stretches t).splitOn ['/'] := by
  rw [isPath_iff_exists_spelling]
  constructor
  · intro h
    exact ⟨⟨parts, h⟩, h.eq_splitOn⟩
  · rintro ⟨⟨others, h⟩, rfl⟩
    rw [← h.eq_splitOn]
    exact h

end ImageNaming.Grammar
