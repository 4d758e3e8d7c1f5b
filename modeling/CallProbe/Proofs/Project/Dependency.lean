import CallProbe.Project.Dependency

/-! # The dependency on the runtime

What is asked for of the runtime is read back from each form that the dependency is written in, so an entry remembers the
features of all requests before it, and a request that comes twice changes nothing (`runtimeDependency_merges`). -/

namespace CallProbe.Project

open Manifest

/-! ### Features -/

variable {features more : List String} {f : String}

@[simp]
theorem addFeatures_nil (features : List String) : addFeatures features [] = features := rfl

theorem addFeatures_cons (features more : List String) (f : String) : addFeatures features (f :: more) =
    addFeatures (if f ∈ features then features else features ++ [f]) more := by
  simp [addFeatures]

theorem addFeatures_append (features more others : List String) :
    addFeatures features (more ++ others) = addFeatures (addFeatures features more) others := List.foldl_append

/-- What is added are the features that are not there yet, each once and in the order of their request. -/
theorem addFeatures_added (features more : List String) : ∃ added, addFeatures features more = features ++ added ∧
    added.Sublist more ∧ added.Nodup ∧ ∀ f, f ∈ added ↔ f ∈ more ∧ f ∉ features := by
  induction more generalizing features with
  | nil => exact ⟨[], by simp⟩
  | cons g more ih =>
    rw [addFeatures_cons]
    by_cases hg : g ∈ features
    · obtain ⟨added, heq, hsub, hnodup, hmem⟩ := ih features
      refine ⟨added, by rw [if_pos hg, heq], hsub.cons g, hnodup, fun f => ?_⟩
      rw [hmem, List.mem_cons]
      constructor
      · exact fun ⟨hf, hnew⟩ => ⟨.inr hf, hnew⟩
      · rintro ⟨rfl | hf, hnew⟩
        · exact absurd hg hnew
        · exact ⟨hf, hnew⟩
    · obtain ⟨added, heq, hsub, hnodup, hmem⟩ := ih (features ++ [g])
      have hnew : g ∉ added := fun h => ((hmem g).mp h).2 (by simp)
      refine ⟨g :: added, by rw [if_neg hg, heq, List.append_assoc, List.singleton_append], hsub.cons_cons g,
        List.nodup_cons.mpr ⟨hnew, hnodup⟩, fun f => ?_⟩
      rw [List.mem_cons, List.mem_cons, hmem, List.mem_append, List.mem_singleton]
      constructor
      · rintro (rfl | ⟨hf, hout⟩)
        · exact ⟨.inl rfl, hg⟩
        · exact ⟨.inr hf, fun h => hout (.inl h)⟩
      · rintro ⟨rfl | hf, hout⟩
        · exact .inl rfl
        · exact (Decidable.em (f = g)).imp id fun hne => ⟨hf, fun h => h.elim hout hne⟩

theorem addFeatures_of_subset (h : more ⊆ features) : addFeatures features more = features := by
  obtain ⟨added, heq, -, -, hmem⟩ := addFeatures_added features more
  have hnone : added = [] := List.eq_nil_iff_forall_not_mem.mpr fun f hf => ((hmem f).mp hf).2 (h ((hmem f).mp hf).1)
  rw [heq, hnone, List.append_nil]

theorem subset_addFeatures (features more : List String) : more ⊆ addFeatures features more := by
  obtain ⟨added, heq, -, -, hmem⟩ := addFeatures_added features more
  intro f hf
  rw [heq, List.mem_append, hmem]
  exact (Decidable.em (f ∈ features)).imp id fun hnew => ⟨hf, hnew⟩

/-! ### Reading a dependency back -/

variable {existing : Option Data} {source : RuntimeSource} {defaults : Option Bool}

theorem source_ne_features (source : RuntimeSource) : ("features" == source.entry.1) = false := by
  cases source <;> rfl

theorem source_ne_defaults (source : RuntimeSource) : ("default-features" == source.entry.1) = false := by
  cases source <;> rfl

theorem lookup_behind_source {key : String} (h : (key == source.entry.1) = false) (entries : List (String × Data)) :
    (source.entry :: entries).lookup key = entries.lookup key := by
  change ((source.entry.1, source.entry.2) :: entries).lookup key = _
  rw [List.lookup_cons, h]

/-- The entries of a dependency that is more than a version. -/
def dependencyEntries (source : RuntimeSource) (defaults : Option Bool) (features : List String) : List (String × Data) :=
  source.entry ::
    ((match defaults with
      | some b => [("default-features", .truth b)]
      | none => []) ++
    (if features.isEmpty then [] else [("features", .array (features.map .text))]))

theorem dependencyValue_cases (source : RuntimeSource) (defaults : Option Bool) (features : List String) :
    (∃ n, source = .version n ∧ defaults = none ∧ features = [] ∧
      dependencyValue source defaults features = Value.ofText n) ∨
    dependencyValue source defaults features = Value.ofEntries (dependencyEntries source defaults features) := by
  unfold dependencyValue
  split
  · exact .inl ⟨_, rfl, rfl, rfl, rfl⟩
  · exact .inr rfl

theorem featuresOf_entries : featuresOf (some (.table (dependencyEntries source defaults features))) = features := by
  have htexts : (features.map Data.text).filterMap Data.text? = features := by
    induction features with
    | nil => rfl
    | cons f fs ih => simpa [Data.text?] using ih
  rw [featuresOf, Option.bind_some, Data.get?]
  unfold dependencyEntries
  rw [lookup_behind_source (source_ne_features source)]
  cases features with
  | nil => cases defaults <;> rfl
  | cons f fs => cases defaults <;> exact htexts

theorem defaultsOf_entries : defaultsOf (some (.table (dependencyEntries source defaults features))) = defaults := by
  rw [defaultsOf, Option.bind_some, Data.get?]
  unfold dependencyEntries
  rw [lookup_behind_source (source_ne_defaults source)]
  cases defaults <;> cases features <;> rfl

@[simp]
theorem featuresOf_dependencyValue : featuresOf (some (dependencyValue source defaults features).data) = features := by
  rcases dependencyValue_cases source defaults features with ⟨n, -, -, rfl, heq⟩ | heq <;> rw [heq]
  · rfl
  · exact featuresOf_entries

@[simp]
theorem defaultsOf_dependencyValue : defaultsOf (some (dependencyValue source defaults features).data) = defaults := by
  rcases dependencyValue_cases source defaults features with ⟨n, -, rfl, -, heq⟩ | heq <;> rw [heq]
  · rfl
  · exact defaultsOf_entries

/-! ### Requests -/

theorem runtimeDependency_then (existing : Option Data) (s₁ s₂ : RuntimeSource) (f₁ f₂ : List String) :
    runtimeDependency (some (runtimeDependency existing s₁ f₁).data) s₂ f₂ = runtimeDependency existing s₂ (f₁ ++ f₂) := by
  simp only [runtimeDependency, featuresOf_dependencyValue, defaultsOf_dependencyValue, addFeatures_append]

theorem runtimeDependency_twice (existing : Option Data) (source : RuntimeSource) (features : List String) :
    runtimeDependency existing source (features ++ features) = runtimeDependency existing source features := by
  simp only [runtimeDependency, addFeatures_append, addFeatures_of_subset (subset_addFeatures _ _)]

/-- A request for the runtime that follows another one comes to a single request for the features of both, from the place
    that the later one names. So a request that comes again changes nothing. The features that a dependency had come first
    and in their order; behind them stand the features that were asked for and were not there, each of them once. -/
theorem runtimeDependency_merges (existing : Option Data) (s₁ s₂ : RuntimeSource) (f₁ f₂ : List String) :
    runtimeDependency (some (runtimeDependency existing s₁ f₁).data) s₂ f₂ = runtimeDependency existing s₂ (f₁ ++ f₂) ∧
    runtimeDependency (some (runtimeDependency existing s₁ f₁).data) s₁ f₁ = runtimeDependency existing s₁ f₁ ∧
    defaultsOf (some (runtimeDependency existing s₁ f₁).data) = defaultsOf existing ∧
    ∃ added, featuresOf (some (runtimeDependency existing s₁ f₁).data) = featuresOf existing ++ added ∧
      added.Sublist f₁ ∧ added.Nodup ∧ ∀ f, f ∈ added ↔ f ∈ f₁ ∧ f ∉ featuresOf existing := by
  refine ⟨runtimeDependency_then existing s₁ s₂ f₁ f₂, ?_, defaultsOf_dependencyValue, ?_⟩
  · rw [runtimeDependency_then, runtimeDependency_twice]
  · rw [runtimeDependency, featuresOf_dependencyValue]
    exact addFeatures_added (featuresOf existing) f₁

end CallProbe.Project
