import ImageNaming.Grammar
import ImageNaming.Text.Blank

/-!
# Taking a name apart

A written name is taken apart from its end: first the digest, then the tag, and what is left is cut
at its slashes. The three cuts decide only where a part begins and ends; whether the part obeys its
rule is another question, except for the first segment, which has to look like a host to be the
registry.
-/

namespace ImageNaming.Reference

/-- The text that announces a digest. -/
def digestMark : Text := "@sha256"

/-- The name before the first at sign and the digest behind it, up to the next at sign. A text that
does not announce a digest is all name. -/
def splitDigest (raw : Text) : Text × Option Text :=
  if Text.occursIn digestMark raw then
    let name := raw.takeWhile (· ≠ '@')
    (name, some ((raw.drop (name.length + 1)).takeWhile (· ≠ '@')))
  else
    (raw, none)

/-- How a name may end: with nothing, or with a colon and a tag that is not empty and holds neither
a colon nor a slash. -/
def ending? : Text → Option (Option Text)
  | [] => some none
  | ':' :: tag =>
    if !tag.isEmpty && tag.all (fun c => c ≠ ':' && c ≠ '/') then some (some tag) else none
  | _ => none

/-- The shortest name of at least one character, none of them a line feed, whose rest is an ending,
with the tag of that ending. -/
def splitTag? : Text → Option (Text × Option Text)
  | [] => none
  | c :: rest =>
    if c = '\n' then none
    else
      match ending? rest with
      | some tag => some ([c], tag)
      | none => (splitTag? rest).map fun (name, tag) => (c :: name, tag)

/-- The text behind a slash and the blanks around it, if the text begins with them. -/
def pastSlash? (t : Text) : Option Text :=
  match Text.trimStart t with
  | '/' :: rest => some (Text.trimStart rest)
  | _ => none

theorem length_trimStart_le (t : Text) : (Text.trimStart t).length ≤ t.length :=
  (List.dropWhile_sublist _).length_le

theorem length_lt_of_pastSlash? {t rest : Text} (h : pastSlash? t = some rest) :
    rest.length < t.length := by
  unfold pastSlash? at h
  have trimmed := length_trimStart_le t
  split at h
  · rename_i behind eq
    rw [eq, List.length_cons] at trimmed
    have := length_trimStart_le behind
    obtain rfl := Option.some.inj h
    omega
  · cases h

/-- The segments of a path: the pieces between slashes, where the blanks around a slash belong to
the slash. -/
def segments (t : Text) : List Text :=
  match _h : pastSlash? t with
  | some rest => [] :: segments rest
  | none =>
    match t with
    | [] => [[]]
    | c :: rest =>
      match segments rest with
      | [] => [[c]]
      | segment :: others => (c :: segment) :: others
termination_by t.length
decreasing_by
  · exact length_lt_of_pastSlash? _h
  · simp

/-- The segments of a path without the empty ones at its end. -/
def trimmedSegments (t : Text) : List Text :=
  ((segments t).reverse.dropWhile (·.isEmpty)).reverse

/-- The registry and the repository of a path. The first of several segments is the registry if it
looks like a host; the other segments are then joined anew. A single segment loses the slashes
behind it, and any other path is the repository as it stands. -/
def splitRegistry (path : Text) : Option Text × Text :=
  match trimmedSegments path with
  | [segment] => (none, segment)
  | first :: second :: others =>
    if Grammar.namesRegistry first then (some first, Text.joinWith "/" (second :: others))
    else (none, path)
  | [] => (none, path)

end ImageNaming.Reference
