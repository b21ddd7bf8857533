import ImageNaming.Files.Path

/-!
# Files

All that a command sees of the files is what is found at a path. A tree holds the files and
directories below a working directory; of what lies outside only the directories above are known.
-/

namespace ImageNaming

/-- What is found in a place. -/
inductive Entry where
  /-- A file with its content. -/
  | file (content : ByteArray)
  /-- A directory. -/
  | directory
  /-- A file that cannot be opened, and why not in the words of the system. -/
  | unreadable (reason : Text)
  /-- Something that cannot be found out about: a name on the way is too long, or a directory on the
  way cannot be searched. -/
  | unreachable

/-- What is found at each path, if anything is. -/
abbrev Files := Path → Option Entry

namespace Entry

/-- The text that a file holds, if its content is the encoding of one. -/
def decode? (content : ByteArray) : Option Text := (String.fromUTF8? content).map String.toList

end Entry

/-- The entries below the working directory, by the names on the way to them. Each directory has an
entry of its own. -/
structure Tree where
  /-- The places and what is found there. -/
  entries : List (List Text × Entry) := []

namespace Tree

/-- What is found at the end of the given names, each of them taken as it stands. -/
def at? (tree : Tree) (names : List Text) : Option Entry :=
  if names.isEmpty then some .directory else tree.entries.lookup names

/-- Whether a name is longer than a name in a directory can be, which is 255 bytes. -/
def isTooLong (name : Text) : Bool := 255 < (String.ofList name).utf8ByteSize

/-- What is found from the place `here` on. Each name leads on from a directory only. -/
def walk (tree : Tree) (here : List Text) : List Text → Option Entry
  | [] => tree.at? here
  | name :: rest =>
    match tree.at? here with
    | some .directory =>
      if name = ['.', '.'] then
        if here.isEmpty then
          if rest.all (· = ['.', '.']) then some .directory else none
        else tree.walk here.dropLast rest
      else if isTooLong name then some .unreachable
      else tree.walk (here ++ [name]) rest
    | _ => none

/-- What is found at each path. Of the paths that start with a slash only the root is known. -/
def files (tree : Tree) : Files := fun path =>
  if path.root.isEmpty then tree.walk [] path.names
  else if path.names.all (· = ['.', '.']) then some .directory
  else none

/-- The tree without what is at the end of the given names. -/
def remove (tree : Tree) (names : List Text) : Tree where
  entries := tree.entries.filter fun (place, _) => place ≠ names

/-- The tree with an entry in one place, whether or not there was one. -/
def put (tree : Tree) (names : List Text) (entry : Entry) : Tree where
  entries := (names, entry) :: (tree.remove names).entries

/-- The tree with a directory at the end of the given names, unless something is there. -/
def ensureDirectory (tree : Tree) (names : List Text) : Tree :=
  if (tree.at? names).isSome then tree else tree.put names .directory

/-- The tree with an entry in one place and directories on the way to it. -/
def write (tree : Tree) (path : Path) (entry : Entry) : Tree :=
  let onTheWay := (List.range path.names.length).map path.names.take
  (onTheWay.foldl ensureDirectory tree).put path.names entry

end Tree

end ImageNaming
