import ImageNaming.Proofs.Input.Canonical
import ImageNaming.Settings

/-!
# Validated settings

To validate settings may change them, also where they are then refused: a registry that is accepted
loses the blanks at its ends. Nothing else is ever changed, and what a validation leaves behind is
not changed by the next one, which comes to the same verdict. So it makes no difference how often
settings are validated while values are assigned to them (`validate_settles`).
-/

namespace ImageNaming.Settings

open Document (Value)
open Grammar (isHost)

variable {s s' : Settings} {value registry : Value} {host t : Text}

/-! ## The registry -/

/-- A text that is a host between blanks. -/
def HoldsHost (value : Value) (host : Text) : Prop :=
  ∃ t, value = .text t ∧ host = Text.trim t ∧ isHost host = true

theorem HoldsHost.trim_eq_self (h : HoldsHost value host) : Text.trim host = host := by
  obtain ⟨t, -, rfl, -⟩ := h
  exact Text.trim_trim t

theorem HoldsHost.isHost (h : HoldsHost value host) : isHost host = true := by
  obtain ⟨t, -, -, hhost⟩ := h
  exact hhost

theorem HoldsHost.ne_null (h : HoldsHost value host) : value ≠ .null := by
  obtain ⟨t, rfl, -⟩ := h
  intro hnull
  cases hnull

/-- Without its blanks, a host is held just so. -/
theorem HoldsHost.again (h : HoldsHost value host) : HoldsHost (.text host) host :=
  ⟨host, rfl, h.trim_eq_self.symm, h.isHost⟩

theorem cleanRegistry_eq_ok_iff : cleanRegistry value = .ok registry ↔
    (value = .null ∧ registry = .null) ∨ ∃ host, HoldsHost value host ∧ registry = .text host := by
  constructor
  · intro h
    unfold cleanRegistry at h
    split at h
    · exact Or.inl ⟨rfl, (Except.ok.inj h).symm⟩
    · rename_i t
      split at h
      · rename_i host hclean
        obtain ⟨hhost, rfl⟩ := Input.registryHost_eq_ok_iff.mp hclean
        exact Or.inr ⟨_, ⟨t, rfl, rfl, hhost⟩, (Except.ok.inj h).symm⟩
      · cases h
    · cases h
  · rintro (⟨rfl, rfl⟩ | ⟨host, ⟨t, rfl, rfl, hhost⟩, rfl⟩)
    · rfl
    · have hclean : Input.registryHost (some t) = .ok (Text.trim t) :=
        Input.registryHost_eq_ok_iff.mpr ⟨hhost, rfl⟩
      show cleanRegistry (.scalar (.text t)) = _
      simp only [cleanRegistry, hclean]

theorem exists_cleanRegistry_iff : (∃ registry, cleanRegistry value = .ok registry) ↔
    value = .null ∨ ∃ host, HoldsHost value host := by
  constructor
  · rintro ⟨registry, hclean⟩
    rcases cleanRegistry_eq_ok_iff.mp hclean with ⟨hnull, -⟩ | ⟨host, hhost, -⟩
    · exact Or.inl hnull
    · exact Or.inr ⟨host, hhost⟩
  · rintro (hnull | ⟨host, hhost⟩)
    · exact ⟨.null, cleanRegistry_eq_ok_iff.mpr (Or.inl ⟨hnull, rfl⟩)⟩
    · exact ⟨.text host, cleanRegistry_eq_ok_iff.mpr (Or.inr ⟨host, hhost, rfl⟩)⟩

/-- What is left of a registry by a validation: a host without the blanks around it, and any other
value as it is. -/
def keptRegistry (value : Value) : Value :=
  match cleanRegistry value with
  | .ok registry => registry
  | .error _ => value

theorem keptRegistry_of_holdsHost (h : HoldsHost value host) :
    keptRegistry value = .text host := by
  have hclean : cleanRegistry value = .ok (.text host) :=
    cleanRegistry_eq_ok_iff.mpr (Or.inr ⟨host, h, rfl⟩)
  rw [keptRegistry, hclean]

theorem keptRegistry_of_not_holdsHost (h : ∀ host, ¬ HoldsHost value host) :
    keptRegistry value = value := by
  unfold keptRegistry
  split
  · rename_i registry hclean
    rcases cleanRegistry_eq_ok_iff.mp hclean with ⟨rfl, rfl⟩ | ⟨host, hhost, -⟩
    · rfl
    · exact absurd hhost (h host)
  · rfl

/-- What is left of a registry is as good as the registry itself. -/
theorem cleanRegistry_keptRegistry (value : Value) :
    cleanRegistry (keptRegistry value) = cleanRegistry value := by
  by_cases h : ∃ host, HoldsHost value host
  · obtain ⟨host, hhost⟩ := h
    have hvalue : cleanRegistry value = .ok (.text host) :=
      cleanRegistry_eq_ok_iff.mpr (Or.inr ⟨host, hhost, rfl⟩)
    have hkept : cleanRegistry (.text host) = .ok (.text host) :=
      cleanRegistry_eq_ok_iff.mpr (Or.inr ⟨host, hhost.again, rfl⟩)
    rw [keptRegistry_of_holdsHost hhost, hkept, hvalue]
  · rw [keptRegistry_of_not_holdsHost (not_exists.mp h)]

theorem keptRegistry_keptRegistry (value : Value) :
    keptRegistry (keptRegistry value) = keptRegistry value := by
  by_cases h : ∃ host, HoldsHost value host
  · obtain ⟨host, hhost⟩ := h
    rw [keptRegistry_of_holdsHost hhost, keptRegistry_of_holdsHost hhost.again]
  · rw [keptRegistry_of_not_holdsHost (not_exists.mp h),
      keptRegistry_of_not_holdsHost (not_exists.mp h)]

/-! ## One validation -/

theorem namesFormat_iff :
    namesFormat value = true ↔ value = .text "text" ∨ value = .text "json" := by
  unfold namesFormat
  split
  · rename_i t
    have htext : Value.scalar (.text t) = .text "text" ↔ t = Format.text.name := by
      simp [Value.text, Format.name]
    have hjson : Value.scalar (.text t) = .text "json" ↔ t = Format.json.name := by
      simp [Value.text, Format.name]
    rw [htext, hjson, Format.ofName?]
    by_cases h : t = Format.text.name
    · simp [h]
    · rw [if_neg h]
      by_cases h' : t = Format.json.name
      · rw [if_pos h']
        simp [h']
      · rw [if_neg h']
        simp [h, h']
  · rename_i hother
    refine iff_of_false (by simp) ?_
    rintro (rfl | rfl) <;> exact hother _ rfl

/-- What a validation finds, without what it does. -/
def verdict (s : Settings) : Except SettingsCause Unit := do
  let _ ← cleanRegistry s.defaultRegistry
  if namesFormat s.outputFormat then .ok () else .error (.unknownFormat s.outputFormat)

/-- The settings that a validation leaves behind. -/
def kept (s : Settings) : Settings := { s with defaultRegistry := keptRegistry s.defaultRegistry }

theorem validate_eq (s : Settings) : s.validate = (s.kept, s.verdict) := by
  unfold validate kept verdict keptRegistry
  cases hclean : cleanRegistry s.defaultRegistry with
  | error cause => rfl
  | ok registry =>
    by_cases hformat : namesFormat s.outputFormat = true
    · simp only [hformat, if_true]
      rfl
    · simp only [hformat]
      rfl

theorem kept_kept (s : Settings) : s.kept.kept = s.kept := by
  unfold kept
  rw [keptRegistry_keptRegistry]

theorem verdict_kept (s : Settings) : s.kept.verdict = s.verdict := by
  show (cleanRegistry (keptRegistry s.defaultRegistry) >>= _) = _
  rw [cleanRegistry_keptRegistry]
  rfl

/-- What a validation leaves behind is validated in the same way. -/
theorem validate_kept (s : Settings) : s.kept.validate = s.validate := by
  rw [validate_eq, validate_eq, kept_kept, verdict_kept]

theorem verdict_eq_ok_iff : s.verdict = .ok () ↔
    (s.defaultRegistry = .null ∨ ∃ host, HoldsHost s.defaultRegistry host) ∧
      (s.outputFormat = .text "text" ∨ s.outputFormat = .text "json") := by
  rw [← namesFormat_iff, ← exists_cleanRegistry_iff, verdict]
  cases hclean : cleanRegistry s.defaultRegistry with
  | error cause => simp [bind, Except.bind]
  | ok registry =>
    by_cases hformat : namesFormat s.outputFormat = true <;> simp [bind, Except.bind, hformat]

/-! ## Many validations -/

/-- What may be done with settings: a value is assigned, or they are validated. -/
inductive Step where
  | assignRegistry (value : Value)
  | assignFormat (value : Value)
  | validate

/-- The settings after a step. -/
def after (s : Settings) : Step → Settings
  | .assignRegistry value => { s with defaultRegistry := value }
  | .assignFormat value => { s with outputFormat := value }
  | .validate => s.validate.1

/-- The settings after some steps. -/
def run (s : Settings) (steps : List Step) : Settings := steps.foldl after s

/-- The steps without the validations. -/
def assignments (steps : List Step) : List Step :=
  steps.filter fun
    | .validate => false
    | _ => true

/-- Settings that were validated, or not, are so after any assignment to them. -/
theorem after_kept (h : s' = s ∨ s' = s.kept) (step : Step) :
    s'.after step = s.run (assignments [step]) ∨
      s'.after step = (s.run (assignments [step])).kept := by
  cases step with
  | assignRegistry value =>
    left
    rcases h with rfl | rfl <;> rfl
  | assignFormat value =>
    rcases h with rfl | rfl
    · exact Or.inl rfl
    · exact Or.inr rfl
  | validate =>
    right
    show s'.validate.1 = s.kept
    rw [validate_eq]
    rcases h with rfl | rfl
    · rfl
    · exact kept_kept s

/-- The validations of a run change no more than one validation at its end does. -/
theorem run_eq_or_kept (h : s' = s ∨ s' = s.kept) (steps : List Step) :
    s'.run steps = s.run (assignments steps) ∨ s'.run steps = (s.run (assignments steps)).kept := by
  induction steps generalizing s s' with
  | nil => exact h
  | cons step steps ih =>
    have hassign : s.run (assignments (step :: steps)) =
        (s.run (assignments [step])).run (assignments steps) := by
      unfold run assignments
      rw [← List.foldl_append, ← List.filter_append, List.singleton_append]
    have hstep := after_kept h step
    rw [hassign]
    exact ih hstep

/-- Whatever was assigned to settings and however often they were validated before: a validation
never changes the format, and the registry only to the host that it holds, which it may do even
where the format is then refused. The next validation changes nothing and comes to the same verdict,
which is the one on the settings as they would be without any validation. -/
theorem validate_settles (s₀ : Settings) (steps : List Step) :
    let s := s₀.run steps
    let s' := s.validate.1
    s'.outputFormat = s.outputFormat ∧
    (∀ host, HoldsHost s.defaultRegistry host → s'.defaultRegistry = .text host) ∧
    ((∀ host, ¬ HoldsHost s.defaultRegistry host) → s'.defaultRegistry = s.defaultRegistry) ∧
    s'.validate = s.validate ∧
    (s.validate.2 = .ok () ↔
      (s.defaultRegistry = .null ∨ ∃ host, HoldsHost s.defaultRegistry host) ∧
        (s.outputFormat = .text "text" ∨ s.outputFormat = .text "json")) ∧
    (s.validate.2 = .ok () → s'.defaultRegistry = .null ∨
      ∃ host, s'.defaultRegistry = .text host ∧ isHost host = true ∧ Text.trim host = host) ∧
    s.validate = (s₀.run (assignments steps)).validate := by
  intro s s'
  have hs' : s' = s.kept := by
    show s.validate.1 = s.kept
    rw [validate_eq]
  have hverdict : s.validate.2 = s.verdict := by rw [validate_eq]
  refine ⟨?_, ?_, ?_, ?_, ?_, ?_, ?_⟩
  · rw [hs']
    rfl
  · intro host hhost
    rw [hs']
    exact keptRegistry_of_holdsHost hhost
  · intro hnone
    rw [hs']
    exact keptRegistry_of_not_holdsHost hnone
  · rw [hs']
    exact validate_kept s
  · rw [hverdict]
    exact verdict_eq_ok_iff
  · intro hok
    rw [hverdict] at hok
    rw [hs']
    rcases (verdict_eq_ok_iff.mp hok).1 with hnull | ⟨host, hhost⟩
    · left
      have hnone : ∀ host, ¬ HoldsHost s.defaultRegistry host := fun host hhost =>
        hhost.ne_null hnull
      show keptRegistry s.defaultRegistry = .null
      rw [keptRegistry_of_not_holdsHost hnone, hnull]
    · right
      exact ⟨host, keptRegistry_of_holdsHost hhost, hhost.isHost, hhost.trim_eq_self⟩
  · show (s₀.run steps).validate = _
    rcases run_eq_or_kept (Or.inl (Eq.refl s₀)) steps with hrun | hrun
    · rw [hrun]
    · rw [hrun]
      exact validate_kept _

/-- The blanks around a registry are gone although the format is refused. -/
theorem validate_settles_xml :
    let s := run {} [.validate, .assignRegistry (.text " gcr.io\n"), .assignFormat (.text "xml")]
    HoldsHost s.defaultRegistry "gcr.io" ∧ s.validate.2 ≠ .ok () ∧
      s.validate.1.defaultRegistry = .text "gcr.io" ∧ s.validate.1.outputFormat = .text "xml" ∧
      s.validate.1.validate = s.validate := by
  intro s
  have hhost : HoldsHost s.defaultRegistry "gcr.io" :=
    ⟨" gcr.io\n".toList, rfl, by decide, by decide +kernel⟩
  obtain ⟨hformat, hregistry, -, hagain, hok, -⟩ := validate_settles {}
    [.validate, .assignRegistry (.text " gcr.io\n"), .assignFormat (.text "xml")]
  refine ⟨hhost, ?_, hregistry _ hhost, hformat, hagain⟩
  intro h
  rcases (hok.mp h).2 with hxml | hxml <;> cases hxml

end ImageNaming.Settings
