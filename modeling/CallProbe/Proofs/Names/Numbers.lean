import CallProbe.Source.Literal

/-! # Numbers as they are read

The value of a numeric literal keeps its digits: those of a whole number in decimal, and otherwise the digits, the point,
the exponent and its minus as they stand there. -/

namespace CallProbe.Source.Literal

/-! ### Which literals are numbers -/

theorem number?_of_ofText {t : String} {l : Literal} (h : ofText t = some l)
    (hl : (∃ d s, l = .int d s) ∨ ∃ d s, l = .float d s) : number? t.toList = some l := by
  unfold ofText at h
  split at h
  all_goals first
    | exact h
    | cases h
      simp at hl

/-! ### Whole numbers -/

theorem digits_of_wholeNumber? {cs : List Char} {digits suffix : String} (h : wholeNumber? cs = some (digits, suffix)) :
    ∃ n : Nat, digits = toString n := by
  unfold wholeNumber? at h
  simp only at h
  split at h
  · split at h <;> cases h
    exact ⟨_, rfl⟩
  · cases h

theorem wholeNumber?_of_int {t digits suffix : String} (h : ofText t = some (.int digits suffix)) :
    wholeNumber? t.toList = some (digits, suffix) := by
  have hnumber := number?_of_ofText h (.inl ⟨_, _, rfl⟩)
  unfold number? at hnumber
  split at hnumber
  · cases hnumber
    assumption
  · obtain ⟨_, -, heq⟩ := Option.map_eq_some_iff.mp hnumber
    cases heq

theorem digits_of_int {t digits suffix : String} (h : ofText t = some (.int digits suffix)) :
    ∃ n : Nat, digits = toString n :=
  digits_of_wholeNumber? (wholeNumber?_of_int h)

theorem toList_toString (n : Nat) : (toString n).toList = Nat.toDigits 10 n := String.toList_ofList

/-! ### Numbers with a point or an exponent -/

theorem fractional?_of_float {t digits suffix : String} (h : ofText t = some (.float digits suffix)) :
    wholeNumber? t.toList = none ∧ fractional? t.toList = some (digits, suffix) := by
  have hnumber := number?_of_ofText h (.inr ⟨_, _, rfl⟩)
  unfold number? at hnumber
  split at hnumber
  · cases hnumber
  · obtain ⟨⟨d, s⟩, hfraction, heq⟩ := Option.map_eq_some_iff.mp hnumber
    cases heq
    exact ⟨by assumption, hfraction⟩

/-- A character of a number as it is written in decimal. -/
def IsNumberChar (c : Char) : Prop := c.isDigit = true ∨ c = '.' ∨ c = 'e' ∨ c = '-'

/-- A character that is put in front of the digits of a number is the first of them. -/
theorem digits_of_push {c : Char} {r : Option (Bool × List Char × List Char)} {opened : Bool} {digits suffix : List Char}
    (h : r.map (fun p => (p.1, c :: p.2.1, p.2.2)) = some (opened, digits, suffix)) :
    ∃ ds, r = some (opened, ds, suffix) ∧ digits = c :: ds := by
  obtain ⟨⟨o, ds, s⟩, hr, heq⟩ := Option.map_eq_some_iff.mp h
  cases heq
  exact ⟨ds, hr, rfl⟩

theorem fraction_chars {dot e sign expo opened : Bool} {cs digits suffix : List Char}
    (h : fractional?.go dot e sign expo cs = some (opened, digits, suffix)) : ∀ c ∈ digits, IsNumberChar c := by
  induction cs generalizing dot e sign expo opened digits suffix with
  | nil =>
    cases h
    simp
  | cons c cs ih =>
    have hkeep {c : Char} (hc : IsNumberChar c) {r : Option (Bool × List Char × List Char)}
        (ih : ∀ {opened digits suffix}, r = some (opened, digits, suffix) → ∀ c ∈ digits, IsNumberChar c)
        (h : r.map (fun p => (p.1, c :: p.2.1, p.2.2)) = some (opened, digits, suffix)) : ∀ c ∈ digits, IsNumberChar c := by
      obtain ⟨ds, hr, rfl⟩ := digits_of_push h
      exact List.forall_mem_cons.mpr ⟨hc, ih hr⟩
    unfold fractional?.go at h
    have hpoint : IsNumberChar '.' := .inr (.inl rfl)
    have hexponent : IsNumberChar 'e' := .inr (.inr (.inl rfl))
    have hminus : IsNumberChar '-' := .inr (.inr (.inr rfl))
    have hend {r : Option (Bool × List Char × List Char)} {b : Bool} {rest : List Char}
        (hr : r = some (b, [], rest)) (h : r = some (opened, digits, suffix)) : ∀ c ∈ digits, IsNumberChar c := by
      cases hr.symm.trans h
      simp
    split at h
    · exact ih h
    split at h
    · exact hkeep (.inl ‹_›) ih h
    split at h
    · split at h
      · cases h
      · exact hkeep hpoint ih h
    split at h
    · split at h
      · split at h
        · split at h
          · split at h
            · exact hend rfl h
            · cases h
          · exact hkeep hexponent ih h
        · exact hend rfl h
      · exact hend rfl h
    split at h
    · split at h
      · cases h
      · split at h
        · exact hkeep hminus ih h
        · exact ih h
    · exact hend rfl h

theorem fraction_ne_nil {opened : Bool} {c : Char} {cs digits suffix : List Char} (hc : c.isDigit = true)
    (h : fractional?.go false false false false (c :: cs) = some (opened, digits, suffix)) : digits ≠ [] := by
  have hgap : c ≠ '_' := by
    rintro rfl
    cases hc
  unfold fractional?.go at h
  simp only [if_neg hgap, if_pos hc] at h
  obtain ⟨⟨o, ds, s⟩, -, heq⟩ := Option.map_eq_some_iff.mp h
  cases heq
  simp

end CallProbe.Source.Literal
