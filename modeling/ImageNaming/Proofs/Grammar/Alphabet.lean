import Mathlib.Tactic.Tauto
import ImageNaming.Proofs.Grammar.Component
import ImageNaming.Text.Blank

/-!
# The characters of names

Every part of a valid name is written with ASCII letters, digits and a few marks. The cuts of a name
are unambiguous because the marks between the parts do not occur in them, and no part holds a blank.
-/

namespace ImageNaming.Grammar

open Pattern ClassItem

variable {t u v : Text} {c : Char}

/-! ## The rules as sets of texts -/

theorem isComponent_iff : isComponent t = true ↔ Matches component t := accepts_iff component t

theorem isPath_iff : isPath t = true ↔ Matches path t := accepts_iff path t

theorem isHost_iff : isHost t = true ↔ Matches hostName t := accepts_iff hostName t

theorem isTag_iff : isTag t = true ↔ Matches tagWord t := accepts_iff tagWord t

theorem isDigest_iff : isDigest t = true ↔ Matches fingerprint t := accepts_iff fingerprint t

/-! ## Ranges of characters -/

theorem holds_range_iff {first last : Char} :
    (range first last).holds c = true ↔ first.toNat ≤ c.toNat ∧ c.toNat ≤ last.toNat := by
  simp [holds, Char.le_def, UInt32.le_iff_toNat_le]

theorem holds_upper (c : Char) : (range 'A' 'Z').holds c = c.isUpper := by
  rw [Bool.eq_iff_iff, holds_range_iff]
  show _ ↔ decide (c.val ≥ 'A'.val ∧ c.val ≤ 'Z'.val) = true
  rw [decide_eq_true_iff, ge_iff_le, UInt32.le_iff_toNat_le, UInt32.le_iff_toNat_le]
  rfl

theorem holds_lower (c : Char) : (range 'a' 'z').holds c = c.isLower := rfl

theorem holds_digit (c : Char) : (range '0' '9').holds c = c.isDigit := rfl

theorem any_alphanumeric (c : Char) : alphanumeric.any (·.holds c) = c.isAlphanum := by
  have halphanum : c.isAlphanum = ((c.isUpper || c.isLower) || c.isDigit) := rfl
  simp only [alphanumeric, List.any_cons, List.any_nil, holds_lower, holds_upper, holds_digit,
    Bool.or_false, halphanum]
  rw [← Bool.or_assoc, Bool.or_comm c.isLower]

/-! ## Name characters -/

/-- Whether a class visibly takes in an entry: as a character of its own or as one of its entries.
-/
def covers (items : List ClassItem) : ClassItem → Bool
  | single c => items.any (·.holds c)
  | item => items.contains item

theorem holds_of_covers {items : List ClassItem} {item : ClassItem} (h : covers items item = true)
    (hc : item.holds c = true) : items.any (·.holds c) = true := by
  cases item with
  | single d =>
    obtain rfl : c = d := by simpa [holds] using hc
    exact h
  | range first last => exact List.any_eq_true.mpr ⟨_, List.contains_iff_mem.mp h, hc⟩
  | word => exact List.any_eq_true.mpr ⟨_, List.contains_iff_mem.mp h, hc⟩

/-- A class that covers the entries of a pattern takes in the characters of its texts. -/
theorem holds_of_matches {p : Pattern} {items : List ClassItem} (h : Matches p t)
    (hp : p.entries.all (covers items) = true) (hc : c ∈ t) : items.any (·.holds c) = true := by
  obtain ⟨item, mem, holds⟩ := h.exists_entry hc
  exact holds_of_covers (List.all_eq_true.mp hp item mem) holds

/-- The entries of the class of all characters in names. -/
def nameEntries : List ClassItem :=
  alphanumeric ++ [word, single '.', single '-', single ':', single '/', single '@']

/-- Whether a character may occur in a name. -/
def isNameChar (c : Char) : Bool := nameEntries.any (·.holds c)

theorem isNameChar_of_isPath (h : isPath t = true) (hc : c ∈ t) : isNameChar c = true :=
  holds_of_matches (isPath_iff.mp h) (by decide) hc

theorem isNameChar_of_isHost (h : isHost t = true) (hc : c ∈ t) : isNameChar c = true :=
  holds_of_matches (isHost_iff.mp h) (by decide) hc

theorem isNameChar_of_isTag (h : isTag t = true) (hc : c ∈ t) : isNameChar c = true :=
  holds_of_matches (isTag_iff.mp h) (by decide) hc

theorem isNameChar_of_isDigest (h : isDigest t = true) (hc : c ∈ t) : isNameChar c = true :=
  holds_of_matches (isDigest_iff.mp h) (by decide) hc

theorem isNameChar_iff : isNameChar c = true ↔ c.isUpper = true ∨ c.isLower = true ∨
    c.isDigit = true ∨ c ∈ ['.', '_', '-', ':', '/', '@'] := by
  have alphanum : c.isAlphanum = (c.isUpper || c.isLower || c.isDigit) := rfl
  unfold isNameChar nameEntries
  rw [List.any_append, any_alphanumeric]
  simp only [List.any_cons, holds, alphanum]
  simp
  tauto

/-- Name characters are visible ASCII characters. -/
theorem toNat_of_isNameChar (h : isNameChar c = true) : 0x21 ≤ c.toNat ∧ c.toNat ≤ 0x7E := by
  have within : ∀ first last : Char, (range first last).holds c = true → 0x21 ≤ first.toNat →
      last.toNat ≤ 0x7E → 0x21 ≤ c.toNat ∧ c.toNat ≤ 0x7E := by
    intro first last hc hfirst hlast
    have := holds_range_iff.mp hc
    omega
  rcases isNameChar_iff.mp h with h | h | h | h
  · exact within 'A' 'Z' ((holds_upper c).trans h) (by decide) (by decide)
  · exact within 'a' 'z' h (by decide) (by decide)
  · exact within '0' '9' h (by decide) (by decide)
  · simp only [List.mem_cons, List.not_mem_nil, or_false] at h
    rcases h with rfl | rfl | rfl | rfl | rfl | rfl <;> decide

theorem isBlank_of_isNameChar (h : isNameChar c = true) : Text.isBlank c = false := by
  have := toNat_of_isNameChar h
  simp only [Text.isBlank, Text.blankRanges, List.any_cons, List.any_nil, Bool.or_false,
    Bool.or_eq_false_iff, Bool.and_eq_false_iff, decide_eq_false_iff_not]
  omega

end ImageNaming.Grammar
