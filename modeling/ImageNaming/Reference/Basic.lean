import ImageNaming.Text.Blank

/-!
# References

A reference names an image: a repository, on a registry if one is given, and in it a version by tag,
by digest or by both. It is written `registry/repository:tag@digest`. Where the reference has no
registry of its own, or one that could as well be the first component of a path, a fallback registry
may be put in front of it.
-/

namespace ImageNaming

/-- The parts of an image name. -/
structure Reference where
  /-- The path of the repository. -/
  repository : Text
  /-- The host that serves the repository, with or without a port. -/
  registry : Option Text := none
  /-- The name of a version. -/
  tag : Option Text := none
  /-- The fingerprint of a version. -/
  digest : Option Text := none
  deriving DecidableEq, Repr

namespace Reference

/-- The first segment of a repository with more than one: the user or project that owns it. -/
def userOf (repository : Text) : Option Text :=
  if repository.contains '/' then some (repository.takeWhile (· ≠ '/')) else none

/-- A repository without its first segment, if it has more than one. -/
def imageOf (repository : Text) : Text :=
  if repository.contains '/' then (repository.dropWhile (· ≠ '/')).drop 1 else repository

/-- A name with a tag and a digest behind it, as far as they are given. -/
def withVersion (name : Text) (tag digest : Option Text) : Text :=
  let tagged := match tag with
    | none => name
    | some tag => name ++ ":" ++ tag
  match digest with
  | none => tagged
  | some digest => tagged ++ "@" ++ digest

variable (r : Reference)

/-- The written form of a reference, part by part. -/
def render : Text :=
  let name := match r.registry with
    | none => r.repository
    | some registry => registry ++ "/" ++ r.repository
  let tagged := match r.tag with
    | none => name
    | some tag => name ++ ":" ++ tag
  match r.digest with
  | none => tagged
  | some digest => tagged ++ "@" ++ digest

/-- The user or project that owns the repository, if it has one. -/
def user : Option Text := userOf r.repository

/-- The name of the image within its user or project. -/
def simpleName : Text := imageOf r.repository

/-- Whether a registry is given; an empty one does not count. -/
def hasRegistry : Bool := r.registry.any (!·.isEmpty)

/-- Whether the registry is given with a port. -/
def hasPort : Bool := r.registry.any fun registry => Text.hasInk registry && registry.contains ':'

/-- Whether the reference settles its registry. A registry with a port always does; without one,
the reference must also have a user and a tag or a digest. -/
def isFullyQualified : Bool :=
  r.hasPort ||
    (Text.isInked r.registry && Text.isInked r.user && Text.hasInk r.repository &&
      (Text.isInked r.tag || Text.isInked r.digest))

/-- Whether the registry of the reference gives way to the fallback and becomes the first component
of the path: the reference does not settle its registry, which has no port, and the fallback is
another one. -/
def isFoldedUnder (fallback : Option Text) : Bool :=
  !r.isFullyQualified && Text.isInked r.registry && !r.hasPort &&
    Text.isInked fallback && fallback != r.registry

/-- The name of the repository, with its registry but without a version. -/
def untaggedName (fallback : Option Text := none) : Text :=
  match r.registry, fallback with
  | some registry, some other =>
    if r.isFoldedUnder fallback then other ++ "/" ++ registry ++ "/" ++ r.repository
    else registry ++ "/" ++ r.repository
  | some registry, none => registry ++ "/" ++ r.repository
  | none, some other => other ++ "/" ++ r.repository
  | none, none => r.repository

/-- The full name, with registry and version. -/
def fullName (fallback : Option Text := none) : Text :=
  withVersion (r.untaggedName fallback) r.tag r.digest

end Reference

end ImageNaming
