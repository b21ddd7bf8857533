/-!
# Texts

Every text that the library reads, holds or writes is the list of its characters, so that a length
counts characters and the recursion of a reader is the recursion of its list. String literals stand
for texts through a coercion.
-/

namespace ImageNaming

/-- A text: its characters in order. -/
abbrev Text := List Char

namespace Text

instance : Coe String Text := ⟨String.toList⟩

/-- The `parts` one after the other, with `separator` between neighbours. -/
def joinWith (separator : Text) : List Text → Text
  | [] => []
  | [part] => part
  | part :: next :: rest => part ++ separator ++ joinWith separator (next :: rest)

/-- The pieces of a text between the occurrences of `mark`: always one more than there are marks. -/
def piecesBetween (mark : Char) : Text → List Text
  | [] => [[]]
  | c :: rest =>
    if c = mark then
      [] :: piecesBetween mark rest
    else
      match piecesBetween mark rest with
      | [] => [[c]]
      | piece :: pieces => (c :: piece) :: pieces

/-- The decimal digits of a natural number, without leading zeros. -/
def ofNat (n : Nat) : Text := Nat.toDigits 10 n

/-- The decimal form of an integer: a minus sign where it is negative, then the digits. -/
def ofInt : Int → Text
  | .ofNat n => ofNat n
  | .negSucc n => '-' :: ofNat (n + 1)

/-- At least `width` digits in lowercase hexadecimal notation. -/
def ofHex (width n : Nat) : Text :=
  let digits := Nat.toDigits 16 n
  List.replicate (width - digits.length) '0' ++ digits

/-- Whether `part` occurs somewhere in a text. -/
def occursIn (part : Text) : Text → Bool
  | [] => part.isEmpty
  | c :: rest => part.isPrefixOf (c :: rest) || occursIn part rest

/-- Whether a text comes before another one or is the same: the first difference decides by the
code points, and a text comes before its continuations. -/
def isAtMost : Text → Text → Bool
  | [], _ => true
  | _ :: _, [] => false
  | c :: s, d :: t => c.toNat < d.toNat || (c = d && isAtMost s t)

theorem piecesBetween_ne_nil (mark : Char) (t : Text) : piecesBetween mark t ≠ [] := by
  cases t with
  | nil => simp [piecesBetween]
  | cons c rest =>
    rw [piecesBetween]
    split
    · simp
    · split <;> simp

end Text

end ImageNaming
