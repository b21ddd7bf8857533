import Mathlib.Data.List.Chain
import ImageNaming.Proofs.Text.Pieces
import ImageNaming.Proofs.Text.Trimmed

/-!
# Tight texts

The pieces of a text between its slashes are trimmed where a slash stands: each but the last at its
end and each but the first at its start. Joined again, they make the text tight. A tight text may
still end with slashes and blanks; `withoutTrail` cuts those off.
-/

namespace ImageNaming.Text

variable {c : Char} {t u v z : Text} {parts empties : List Text}

/-! ## Trimming at the slashes -/

/-- The pieces without the blanks at the end of each of them but the last. -/
def trimEnds : List Text → List Text
  | [] => []
  | [last] => [last]
  | piece :: next :: rest => trimEnd piece :: trimEnds (next :: rest)

/-- The pieces without the blanks at the start of each of them but the first. -/
def trimStarts : List Text → List Text
  | [] => []
  | first :: rest => first :: rest.map trimStart

/-- A text without the blanks around its slashes. -/
def tight (t : Text) : Text := joinWith "/" (trimEnds (trimStarts (piecesBetween '/' t)))

/-- Two pieces that no blank keeps away from the mark between them. -/
def Meet (u v : Text) : Prop :=
  (∀ c ∈ u.getLast?, isBlank c = false) ∧ ∀ c ∈ v.head?, isBlank c = false

/-- Blanks in front of a text are dropped up to its slash at most. -/
theorem trimStart_append_slash (u v : Text) :
    trimStart (u ++ '/' :: v) = trimStart u ++ '/' :: v := by
  have hslash : ('/' :: v).dropWhile isBlank = '/' :: v :=
    List.dropWhile_cons_of_neg (by decide)
  unfold trimStart
  rw [List.dropWhile_append]
  split
  · rename_i hempty
    rw [List.isEmpty_iff.mp hempty, hslash]
    rfl
  · rfl

theorem trimEnds_cons (h : parts ≠ []) : trimEnds (u :: parts) = trimEnd u :: trimEnds parts := by
  cases parts with
  | nil => exact absurd rfl h
  | cons v rest => rfl

theorem exists_trimEnds_cons (u : Text) (parts : List Text) :
    ∃ v rest, trimEnds (u :: parts) = v :: rest ∧ v <+: u := by
  cases parts with
  | nil => exact ⟨u, [], rfl, List.prefix_rfl⟩
  | cons next rest => exact ⟨trimEnd u, _, rfl, trimEnd_isPrefix u⟩

/-- Pieces that are trimmed at their starts meet when they are trimmed at their ends as well. -/
theorem isChain_trimEnds (h : ∀ part ∈ parts.tail, ∀ c ∈ part.head?, isBlank c = false) :
    (trimEnds parts).IsChain Meet := by
  induction parts with
  | nil => exact .nil
  | cons u parts ih =>
    cases parts with
    | nil => exact .singleton u
    | cons v rest =>
      have hrest : (trimEnds (v :: rest)).IsChain Meet :=
        ih fun part mem => h part (List.mem_cons_of_mem _ mem)
      obtain ⟨w, others, heq, hw⟩ := exists_trimEnds_cons v rest
      rw [trimEnds, heq, List.isChain_cons_cons]
      rw [heq] at hrest
      exact ⟨⟨isBlank_last_trimEnd u, isBlank_head_of_isPrefix hw (h v List.mem_cons_self)⟩, hrest⟩

theorem isChain_trimEnds_trimStarts (parts : List Text) :
    (trimEnds (trimStarts parts)).IsChain Meet := by
  apply isChain_trimEnds
  cases parts with
  | nil => simp [trimStarts]
  | cons first rest =>
    intro part mem
    obtain ⟨piece, -, rfl⟩ := List.mem_map.mp mem
    exact isBlank_head_trimStart piece

/-- Pieces that meet have nothing to be trimmed. -/
theorem trimEnds_eq_self (hchain : parts.IsChain Meet) : trimEnds parts = parts := by
  induction parts with
  | nil => rfl
  | cons u parts ih =>
    cases parts with
    | nil => rfl
    | cons v rest =>
      obtain ⟨hmeet, hrest⟩ := List.isChain_cons_cons.mp hchain
      rw [trimEnds, trimEnd_eq_self hmeet.1, ih hrest]

theorem trimStarts_eq_self (hchain : parts.IsChain Meet) : trimStarts parts = parts := by
  cases parts with
  | nil => rfl
  | cons u parts =>
    have hmap : parts.map trimStart = parts := by
      induction parts generalizing u with
      | nil => rfl
      | cons v rest ih =>
        obtain ⟨hmeet, hrest⟩ := List.isChain_cons_cons.mp hchain
        rw [List.map_cons, trimStart_eq_self hmeet.2, ih v hrest]
    rw [trimStarts, hmap]

/-! ## Joined pieces -/

/-- A joined text begins like its first piece, or with a slash. -/
theorem isBlank_head_joinWith (hu : ∀ c ∈ u.head?, isBlank c = false) :
    ∀ c ∈ (joinWith "/" (u :: parts)).head?, isBlank c = false := by
  by_cases hparts : parts = []
  · subst hparts
    exact hu
  · rw [joinWith_cons _ _ hparts, List.append_assoc]
    cases u with
    | nil =>
      rintro c ⟨⟩
      decide
    | cons d u => exact hu

theorem getLast?_joinWith {last : Text} (hlast : parts.getLast? = some last) (hne : last ≠ []) :
    (joinWith "/" parts).getLast? = last.getLast? := by
  obtain ⟨front, rfl⟩ := List.getLast?_eq_some_iff.mp hlast
  by_cases hfront : front = []
  · subst hfront
    rfl
  · rw [joinWith_concat _ _ hfront, List.getLast?_append_of_ne_nil _ hne]

/-- Where pieces meet, no blank stands next to a slash. -/
theorem not_blank_at_slash (hchain : parts.IsChain Meet) (hfree : ∀ part ∈ parts, '/' ∉ part)
    (hc : isBlank c = true) :
    ¬ [c, '/'] <:+: joinWith "/" parts ∧ ¬ ['/', c] <:+: joinWith "/" parts := by
  induction parts with
  | nil => exact ⟨by simp [joinWith], by simp [joinWith]⟩
  | cons u parts ih =>
    have hu : '/' ∉ u := hfree u List.mem_cons_self
    have hinside : ¬ [c, '/'] <:+: u ∧ ¬ ['/', c] <:+: u :=
      ⟨fun h => hu (h.subset (by simp)), fun h => hu (h.subset (by simp))⟩
    cases parts with
    | nil => exact hinside
    | cons v rest =>
      obtain ⟨⟨hlast, hhead⟩, hrest⟩ := List.isChain_cons_cons.mp hchain
      obtain ⟨hbefore, hbehind⟩ := ih hrest fun part mem => hfree part (List.mem_cons_of_mem _ mem)
      have hjoin : ∀ d ∈ (joinWith "/" (v :: rest)).head?, isBlank d = false :=
        isBlank_head_joinWith hhead
      have hslash : c ≠ '/' := by
        rintro rfl
        exact absurd hc (by decide)
      rw [joinWith_cons _ _ (by simp)]
      constructor
      · intro h
        rcases pair_infix_around_iff.mp h with h | h | ⟨h, -⟩ | ⟨h, -⟩
        · exact hinside.1 h
        · exact hbefore h
        · simp [hlast c h] at hc
        · exact hslash h.symm
      · intro h
        rcases pair_infix_around_iff.mp h with h | h | ⟨-, h⟩ | ⟨-, h⟩
        · exact hinside.2 h
        · exact hbehind h
        · exact hslash h.symm
        · simp [hjoin c h] at hc

/-- Empty pieces at the end are slashes at the end. -/
theorem joinWith_append_empties (hne : parts ≠ []) (hempty : ∀ part ∈ empties, part = []) :
    joinWith "/" (parts ++ empties) =
      joinWith "/" parts ++ List.replicate empties.length '/' := by
  induction empties generalizing parts with
  | nil => simp
  | cons part empties ih =>
    obtain rfl := hempty part List.mem_cons_self
    have hrest : joinWith "/" (parts ++ [[]] ++ empties) =
        joinWith "/" (parts ++ [[]]) ++ List.replicate empties.length '/' :=
      ih (by simp) fun other mem => hempty other (List.mem_cons_of_mem _ mem)
    rw [List.append_cons, hrest, joinWith_concat _ _ hne, List.append_nil, List.append_assoc,
      List.length_cons, List.replicate_succ]
    rfl

/-! ## The trail -/

/-- Whether a text consists of blanks and slashes. -/
def isLoose (t : Text) : Bool := t.all fun c => isBlank c || c == '/'

/-- A text without its trail: the end from the first slash that only blanks and slashes follow. -/
def withoutTrail : Text → Text
  | [] => []
  | c :: t => if c = '/' ∧ isLoose t = true then [] else c :: withoutTrail t

theorem withoutTrail_append_of_notMem (hu : '/' ∉ u) (v : Text) :
    withoutTrail (u ++ v) = u ++ withoutTrail v := by
  induction u with
  | nil => rfl
  | cons c u ih =>
    rw [List.mem_cons, not_or] at hu
    have hc : ¬ (c = '/' ∧ isLoose (u ++ v) = true) := fun h => hu.1 h.1.symm
    rw [List.cons_append, withoutTrail, if_neg hc, ih hu.2]
    rfl

theorem withoutTrail_append (hv : isLoose v = false) (u : Text) :
    withoutTrail (u ++ v) = u ++ withoutTrail v := by
  induction u with
  | nil => rfl
  | cons c u ih =>
    have hrest : isLoose (u ++ v) = false := by
      unfold isLoose at hv ⊢
      rw [List.all_append, hv, Bool.and_false]
    rw [List.cons_append, withoutTrail, if_neg (by simp [hrest]), ih]
    rfl

theorem withoutTrail_replicate (n : Nat) : withoutTrail (List.replicate n '/') = [] := by
  cases n with
  | zero => rfl
  | succ n =>
    have hloose : isLoose (List.replicate n '/') = true := by simp [isLoose]
    rw [List.replicate_succ, withoutTrail, if_pos ⟨rfl, hloose⟩]

/-- Where pieces meet and the last is not empty, the slashes behind them are the trail. -/
theorem withoutTrail_joinWith {last : Text} (hchain : parts.IsChain Meet)
    (hfree : ∀ part ∈ parts, '/' ∉ part) (hlast : parts.getLast? = some last) (hne : last ≠ [])
    (n : Nat) : withoutTrail (joinWith "/" parts ++ List.replicate n '/') = joinWith "/" parts := by
  obtain ⟨front, rfl⟩ := List.getLast?_eq_some_iff.mp hlast
  have hslash : '/' ∉ last := hfree last (by simp)
  have hend : withoutTrail (last ++ List.replicate n '/') = last := by
    rw [withoutTrail_append_of_notMem hslash, withoutTrail_replicate, List.append_nil]
  by_cases hfront : front = []
  · subst hfront
    exact hend
  · -- The last piece begins with neither a blank nor a slash.
    obtain ⟨-, -, hmeet⟩ := List.isChain_append.mp hchain
    obtain ⟨c, rest, rfl⟩ := List.exists_cons_of_ne_nil hne
    have hblank : isBlank c = false :=
      (hmeet _ (List.getLast?_eq_some_getLast hfront) _ rfl).2 c rfl
    have hc : c ≠ '/' := by
      rintro rfl
      exact hslash List.mem_cons_self
    have hloose : isLoose (c :: rest ++ List.replicate n '/') = false := by
      simp [isLoose, hblank, hc]
    rw [joinWith_concat _ _ hfront, List.append_assoc, withoutTrail_append hloose, hend]

end ImageNaming.Text
