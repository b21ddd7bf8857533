import ImageNaming.Pattern.Basic

/-!
# Matching

A text is matched from left to right. After each character the matcher holds the patterns of which
one must describe the rest of the text; there are never more of them than the pattern has places, so
matching takes time in proportion to the length of the text, also for patterns that describe one
text in many ways.
-/

namespace ImageNaming.Pattern

/-- Whether a pattern describes the empty text. -/
def nullable : Pattern → Bool
  | empty => true
  | one _ => false
  | oneOf _ => false
  | seq p q => p.nullable && q.nullable
  | alt p q => p.nullable || q.nullable
  | times p least most => least = 0 || (p.nullable && most.all (least ≤ ·))

/-- The pattern for what `p` leaves and then `q`. -/
def andThen (p q : Pattern) : Pattern :=
  match p with
  | empty => q
  | p => seq p q

/-- What may follow the character `c` in a text that begins with it: such a text is matched if and
only if one of these patterns describes the rest. -/
def after (c : Char) : Pattern → List Pattern
  | empty => []
  | one d => if c = d then [empty] else []
  | oneOf items => if items.any (·.holds c) then [empty] else []
  | seq p q =>
    let started := (after c p).map (andThen · q)
    if p.nullable then started ++ after c q else started
  | alt p q => after c p ++ after c q
  | times p least most =>
    if most = some 0 then []
    else (after c p).map (andThen · (times p (least - 1) (most.map (· - 1))))

/-- Whether one of the patterns describes the whole text. -/
def anyAccepts (patterns : List Pattern) : Text → Bool
  | [] => patterns.any nullable
  | c :: rest => anyAccepts (patterns.flatMap (after c)).eraseDups rest

/-- Whether a pattern describes the whole text. -/
def accepts (p : Pattern) (t : Text) : Bool := anyAccepts [p] t

end ImageNaming.Pattern
