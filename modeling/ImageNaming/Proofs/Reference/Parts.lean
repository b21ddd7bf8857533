import Mathlib.Data.List.Nodup
import ImageNaming.Proofs.Reference.ExplicitTag
import ImageNaming.Proofs.Reference.Segments

/-!
# Parts and their rules

A reference is checked in six parts, of which the user and the image are cut from the repository.
Each part has a rule of its own, and the check finds fault with exactly the parts that are given and
break their rule, in a fixed order and with each of them once (`violations_eq_broken_parts`). What
is found of one part depends on its value alone.
-/

namespace ImageNaming.Reference

open Grammar Pattern

/-- A part of a reference that has a rule of its own. -/
inductive CheckedPart where
  | repository
  | registry
  | image
  | user
  | tag
  | digest
  deriving DecidableEq, Repr

namespace CheckedPart

variable {part : CheckedPart}

/-- The parts in the order in which they are checked. -/
def all : List CheckedPart := [repository, registry, image, user, tag, digest]

/-- The name of a part in what is said of it. -/
def name : CheckedPart → Text
  | repository => "repository"
  | registry => "registry"
  | image => "image"
  | user => "user"
  | tag => "tag"
  | digest => "digest"

/-- The part of a reference, if it is given. -/
def value (r : Reference) : CheckedPart → Option Text
  | repository => some r.repository
  | registry => r.registry
  | image => some r.simpleName
  | user => r.user
  | tag => r.tag
  | digest => r.digest

/-- Whether a text may stand for a part: a repository keeps to its limit, and any other part is
described by its pattern. -/
def Allows : CheckedPart → Text → Prop
  | repository, t => t.length ≤ 255
  | registry, t => Matches hostName t
  | image, t => Matches path t
  | user, t => Matches component t
  | tag, t => Matches tagWord t
  | digest, t => Matches fingerprint t

instance : (part : CheckedPart) → (t : Text) → Decidable (part.Allows t)
  | repository, t => inferInstanceAs (Decidable (t.length ≤ 255))
  | registry, _ => decidable_of_iff _ isHost_iff
  | image, _ => decidable_of_iff _ isPath_iff
  | user, _ => decidable_of_iff _ isComponent_iff
  | tag, _ => decidable_of_iff _ isTag_iff
  | digest, _ => decidable_of_iff _ isDigest_iff

/-- What is said of a text that may not stand for a part. -/
def violation : CheckedPart → Text → Violation
  | repository, t => .ofLength t
  | registry, t => .ofPattern "registry" t hostRule
  | image, t => .ofPattern "image" t pathRule
  | user, t => .ofPattern "user" t componentRule
  | tag, t => .ofPattern "tag" t tagRule
  | digest, t => .ofPattern "digest" t digestRule

/-- What is found of a part that has the given value. -/
def objections (part : CheckedPart) : Option Text → List Violation
  | none => []
  | some t => if part.Allows t then [] else [part.violation t]

/-- Whether a part is given and breaks its rule. -/
def IsBroken (r : Reference) (part : CheckedPart) : Prop :=
  ∃ t, part.value r = some t ∧ ¬ part.Allows t

instance (r : Reference) (part : CheckedPart) : Decidable (IsBroken r part) :=
  match h : part.value r with
  | none => isFalse fun ⟨t, ht, _⟩ => by cases h.symm.trans ht
  | some t => decidable_of_iff (¬ part.Allows t)
      ⟨fun hnot => ⟨t, h, hnot⟩, fun ⟨u, hu, hnot⟩ => by cases h.symm.trans hu; exact hnot⟩

theorem name_injective : Function.Injective name := by
  intro part part' h
  cases part <;> cases part' <;> first | rfl | (revert h; decide)

theorem all_nodup : all.Nodup := by decide

theorem mem_all (part : CheckedPart) : part ∈ all := by cases part <;> decide

theorem part_violation (part : CheckedPart) (t : Text) : (part.violation t).part = part.name := by
  cases part <;> rfl

theorem value_violation (part : CheckedPart) (t : Text) : (part.violation t).value = t := by
  cases part <;> rfl

/-! ## What is found of one part -/

theorem partViolation_eq_objections (part : CheckedPart) {rule : Rule}
    (hrule : ∀ t, rule.allows t = true ↔ part.Allows t)
    (hviolation : ∀ t, part.violation t = .ofPattern part.name t rule) (value : Option Text) :
    partViolation part.name rule value = part.objections value := by
  cases value with
  | none => rfl
  | some t =>
    have hallows := hrule t
    show (if rule.allows t = true then [] else _) = if part.Allows t then [] else _
    by_cases h : part.Allows t
    · rw [if_pos h, if_pos (hallows.mpr h)]
    · rw [if_neg h, if_neg (mt hallows.mp h), hviolation]

theorem lengthViolation_eq_objections (t : Text) :
    lengthViolation t = repository.objections (some t) := by
  show (if 255 < t.length then _ else []) = if t.length ≤ 255 then [] else _
  by_cases h : t.length ≤ 255
  · rw [if_pos h, if_neg (Nat.not_lt.mpr h)]
  · rw [if_neg h, if_pos (Nat.lt_of_not_le h)]
    rfl

theorem part_of_mem_objections {value : Option Text} {violation : Violation}
    (h : violation ∈ part.objections value) : violation.part = part.name := by
  cases value with
  | none => cases h
  | some t =>
    rw [objections] at h
    split at h
    · cases h
    · rw [List.mem_singleton.mp h]
      exact part.part_violation t

end CheckedPart

variable {r : Reference} {part : CheckedPart}

/-! ## What is found of a reference -/

theorem violations_eq_flatMap (r : Reference) :
    r.violations = CheckedPart.all.flatMap fun part => part.objections (part.value r) := by
  have hlength := CheckedPart.lengthViolation_eq_objections r.repository
  have hregistry : partViolation "registry" hostRule r.registry =
      CheckedPart.registry.objections r.registry :=
    CheckedPart.partViolation_eq_objections .registry (fun _ => isHost_iff) (fun _ => rfl) _
  have himage : partViolation "image" pathRule r.simpleName =
      CheckedPart.image.objections r.simpleName :=
    CheckedPart.partViolation_eq_objections .image (fun _ => isPath_iff) (fun _ => rfl) _
  have huser : partViolation "user" componentRule r.user = CheckedPart.user.objections r.user :=
    CheckedPart.partViolation_eq_objections .user (fun _ => isComponent_iff) (fun _ => rfl) _
  have htag : partViolation "tag" tagRule r.tag = CheckedPart.tag.objections r.tag :=
    CheckedPart.partViolation_eq_objections .tag (fun _ => isTag_iff) (fun _ => rfl) _
  have hdigest : partViolation "digest" digestRule r.digest =
      CheckedPart.digest.objections r.digest :=
    CheckedPart.partViolation_eq_objections .digest (fun _ => isDigest_iff) (fun _ => rfl) _
  unfold violations
  rw [hlength, hregistry, himage, huser, htag, hdigest]
  simp only [CheckedPart.all, List.flatMap_cons, List.flatMap_nil, List.append_nil,
    List.append_assoc]
  rfl

/-- A part is objected to once if it is broken and not at all otherwise. -/
theorem map_objections (r : Reference) (part : CheckedPart) :
    (part.objections (part.value r)).map (fun violation => (violation.part, some violation.value)) =
      if part.IsBroken r then [(part.name, part.value r)] else [] := by
  split
  · rename_i hbroken
    obtain ⟨t, hvalue, hnot⟩ := hbroken
    have hone : part.objections (some t) = [part.violation t] := if_neg hnot
    rw [hvalue, hone, List.map_singleton, part.part_violation, part.value_violation]
  · rename_i hkept
    cases hvalue : part.value r with
    | none => rfl
    | some t =>
      have hallows : part.Allows t := by
        by_contra hnot
        exact hkept ⟨t, hvalue, hnot⟩
      have hnone : part.objections (some t) = [] := if_pos hallows
      rw [hnone, List.map_nil]

theorem flatMap_ite_eq_map_filter {α β : Type} (p : α → Prop) [DecidablePred p] (f : α → β)
    (l : List α) : (l.flatMap fun a => if p a then [f a] else []) = (l.filter (p ·)).map f := by
  induction l with
  | nil => rfl
  | cons a l ih => by_cases h : p a <;> simp [h, ih]

theorem map_violations (r : Reference) :
    r.violations.map (fun violation => (violation.part, some violation.value)) =
      (CheckedPart.all.filter (·.IsBroken r)).map fun part => (part.name, part.value r) := by
  rw [violations_eq_flatMap, List.map_flatMap]
  simp only [map_objections]
  exact flatMap_ite_eq_map_filter (fun part => CheckedPart.IsBroken r part) _ _

theorem parts_violations (r : Reference) :
    r.violations.map (·.part) = (CheckedPart.all.filter (·.IsBroken r)).map (·.name) := by
  have h := congrArg (List.map Prod.fst) (map_violations r)
  rwa [List.map_map, List.map_map] at h

theorem nodup_parts_violations (r : Reference) : (r.violations.map (·.part)).Nodup := by
  rw [parts_violations]
  exact List.Nodup.map CheckedPart.name_injective (CheckedPart.all_nodup.filter _)

theorem name_mem_parts_iff : part.name ∈ r.violations.map (·.part) ↔ part.IsBroken r := by
  rw [parts_violations, List.mem_map_of_injective CheckedPart.name_injective, List.mem_filter,
    decide_eq_true_iff]
  exact and_iff_right part.mem_all

theorem filter_violations_part (r : Reference) (part : CheckedPart) :
    r.violations.filter (fun violation => violation.part = part.name) =
      part.objections (part.value r) := by
  have hselect : ∀ other : CheckedPart, (other.objections (other.value r)).filter
      (fun violation => violation.part = part.name) =
        if other = part then other.objections (other.value r) else [] := by
    intro other
    have hname : ∀ violation ∈ other.objections (other.value r), violation.part = other.name :=
      fun _ hviolation => CheckedPart.part_of_mem_objections hviolation
    have h := filter_of_part (fun name => name = part.name) hname
    simpa only [decide_eq_true_eq, CheckedPart.name_injective.eq_iff] using h
  rw [violations_eq_flatMap, List.filter_flatMap]
  simp only [hselect]
  cases part <;> simp [CheckedPart.all]

/-! ## User and image -/

/-- The user and the image are cut from the repository at its first slash, if it has any. -/
theorem user_eq (r : Reference) : r.user =
    if Text.hasInk r.repository = true ∧ '/' ∈ r.repository
      then (Text.piecesBetween '/' r.repository).head? else none := by
  unfold user
  by_cases h : '/' ∈ r.repository
  · have hink : Text.hasInk r.repository = true :=
      List.any_eq_true.mpr ⟨'/', h, by rw [slash_not_blank]; rfl⟩
    rw [if_pos ⟨hink, h⟩]
    obtain ⟨u, v, heq, hu⟩ := List.eq_append_cons_of_mem h
    rw [heq, userOf_append_cons hu, Text.piecesBetween_append_cons hu, List.head?_cons]
  · rw [if_neg (fun hyes => h hyes.2), userOf_of_notMem h]

theorem simpleName_eq (r : Reference) : r.simpleName =
    match r.user with
    | none => r.repository
    | some u => r.repository.drop (u.length + 1) := by
  unfold user simpleName
  by_cases h : '/' ∈ r.repository
  · obtain ⟨u, v, heq, hu⟩ := List.eq_append_cons_of_mem h
    rw [heq, userOf_append_cons hu, imageOf_append_cons hu]
    simp
  · rw [userOf_of_notMem h, imageOf_of_notMem h]

theorem isBroken_image_iff (r : Reference) :
    CheckedPart.image.IsBroken r ↔ isPath (imageOf r.repository) = false := by
  have himage : CheckedPart.image.value r = some (imageOf r.repository) := rfl
  unfold CheckedPart.IsBroken
  rw [himage]
  simp [CheckedPart.Allows, ← isPath_iff]

theorem isBroken_user_iff (r : Reference) :
    CheckedPart.user.IsBroken r ↔ ∃ u ∈ userOf r.repository, isComponent u = false := by
  have huser : CheckedPart.user.value r = userOf r.repository := rfl
  unfold CheckedPart.IsBroken
  rw [huser]
  simp [CheckedPart.Allows, ← isComponent_iff]

/-- Neither the image nor the user is broken exactly if the whole repository is a path. -/
theorem not_isBroken_image_user_iff (r : Reference) :
    ¬ CheckedPart.image.IsBroken r ∧ ¬ CheckedPart.user.IsBroken r ↔ Matches path r.repository := by
  rw [← isPath_iff, isPath_iff_image_user, isBroken_image_iff, isBroken_user_iff]
  simp

/-- The check finds fault with exactly the parts that are given and break their rule, in the order
of the parts and with none of them twice, and names the value of the part. What it says of a part
depends on the value of that part alone. The user and the image, cut from the repository at its
first slash, are both in order exactly if the whole repository is a path of components. -/
theorem violations_eq_broken_parts (r : Reference) :
    r.violations.map (fun violation => (violation.part, some violation.value)) =
      (CheckedPart.all.filter fun part => part.IsBroken r).map
        (fun part => (part.name, part.value r)) ∧
    (r.violations.map fun violation => violation.part).Nodup ∧
    (∀ part : CheckedPart, r.violations.filter (fun violation => violation.part = part.name) =
      part.objections (part.value r)) ∧
    ((∀ violation ∈ r.violations, violation.part ≠ CheckedPart.image.name ∧
      violation.part ≠ CheckedPart.user.name) ↔ Matches path r.repository) ∧
    (r.user = if Text.hasInk r.repository = true ∧ '/' ∈ r.repository
      then (Text.piecesBetween '/' r.repository).head? else none) ∧
    r.simpleName = match r.user with
      | none => r.repository
      | some u => r.repository.drop (u.length + 1) := by
  refine ⟨map_violations r, nodup_parts_violations r, filter_violations_part r, ?_, user_eq r,
    simpleName_eq r⟩
  rw [← not_isBroken_image_user_iff, ← name_mem_parts_iff, ← name_mem_parts_iff]
  constructor
  · intro h
    constructor
    · intro himage
      obtain ⟨violation, hmem, hpart⟩ := List.mem_map.mp himage
      exact (h violation hmem).1 hpart
    · intro huser
      obtain ⟨violation, hmem, hpart⟩ := List.mem_map.mp huser
      exact (h violation hmem).2 hpart
  · rintro ⟨himage, huser⟩ violation hmem
    constructor
    · intro hpart
      exact himage (List.mem_map.mpr ⟨violation, hmem, hpart⟩)
    · intro hpart
      exact huser (List.mem_map.mpr ⟨violation, hmem, hpart⟩)

/-- A slash at the front stands behind an empty user, and a slash at the end in front of an empty
component of the image. -/
example : (violations { repository := "/app//" }).map (fun violation => violation.value) =
    ["app//".toList, []] := by
  decide +kernel

end ImageNaming.Reference
