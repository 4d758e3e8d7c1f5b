import CallProbe.Call.Pattern

/-! # What a pattern stands for

A pattern stands for the targets that come out when keys are put in the place of its `any` (`covers_iff_fill`). So
patterns are ordered by what they stand for (`covers_trans`, `covers_antisymm`), and one with `any` in the place of a
key stands for more (`covers_widen`): as part of a blacklist it lets through less, as part of a whitelist more. -/

namespace CallProbe.Call

/-! ### Keys in the place of `any` -/

/-- The key that stands in a target after a key was put in the place of `any`, if one was. -/
def Key.fill : Option Key → Key → Key
  | some key, any => key
  | _, key => key

namespace Target

/-- A target with keys in the place of some of its `any`. The `i`-th node, counted from the outside, gets the `i`-th
key. -/
def fill (keys : Nat → Option Key) : Target → Target
  | path segments => path segments
  | member base name => member (base.fill fun i => keys (i + 1)) name
  | index base key => index (base.fill fun i => keys (i + 1)) (key.fill (keys 0))
  | result base => result (base.fill fun i => keys (i + 1))
  | unnamed => unnamed

/-- Whether a key of a target is `any`. -/
def hasAny : Target → Bool
  | path _ | unnamed => false
  | member base _ | result base => base.hasAny
  | index base key => key == .any || base.hasAny

/-- A target with `any` for the key of the `i`-th node, counted from the outside, if that is a subscript. -/
def widen : Nat → Target → Target
  | _, path segments => path segments
  | 0, index base _ => index base .any
  | 0, t => t
  | i + 1, member base name => member (base.widen i) name
  | i + 1, index base key => index (base.widen i) key
  | i + 1, result base => result (base.widen i)
  | _, unnamed => unnamed

/-! ### Covering -/

theorem covers_fill (keys : Nat → Option Key) (p : Target) : p.covers (p.fill keys) = true := by
  induction p generalizing keys with
  | path segments => simp [fill, covers]
  | member base name ih => simp [fill, covers, ih]
  | index base key ih =>
    have hkey : key = .any ∨ key = key.fill (keys 0) := by cases key <;> cases keys 0 <;> simp [Key.fill]
    simpa [fill, covers, ih] using hkey
  | result base ih => simp [fill, covers, ih]
  | unnamed => rfl

/-- The keys for a target are those for its base, moved by one, and its own. -/
def keysFrom (own : Option Key) (below : Nat → Option Key) : Nat → Option Key
  | 0 => own
  | i + 1 => below i

theorem exists_fill_of_covers {p n : Target} (h : p.covers n = true) : ∃ keys, p.fill keys = n := by
  induction p generalizing n with
  | path segments =>
    cases n <;> simp [covers] at h
    exact ⟨fun _ => none, by rw [fill, h]⟩
  | member base name ih =>
    cases n <;> simp [covers] at h
    obtain ⟨keys, hkeys⟩ := ih h.2
    exact ⟨keysFrom none keys, by simp [fill, keysFrom, hkeys, h.1]⟩
  | index base key ih =>
    cases n <;> simp [covers] at h
    rename_i nb own
    obtain ⟨keys, hkeys⟩ := ih h.2
    refine ⟨keysFrom (some own) keys, ?_⟩
    rcases h.1 with rfl | rfl
    · simp [fill, keysFrom, hkeys, Key.fill]
    · cases key <;> simp [fill, keysFrom, hkeys, Key.fill]
  | result base ih =>
    cases n <;> simp [covers] at h
    obtain ⟨keys, hkeys⟩ := ih h
    exact ⟨keysFrom none keys, by simp [fill, keysFrom, hkeys]⟩
  | unnamed =>
    cases n <;> simp [covers] at h
    exact ⟨fun _ => none, rfl⟩

theorem covers_iff_fill {p n : Target} : p.covers n = true ↔ ∃ keys, p.fill keys = n := by
  constructor
  · exact exists_fill_of_covers
  · rintro ⟨keys, rfl⟩
    exact covers_fill keys p

/-! ### The order of targets -/

@[simp]
theorem fill_none (t : Target) : t.fill (fun _ => none) = t := by
  induction t with
  | index base key ih => cases key <;> simp [fill, ih, Key.fill]
  | _ => simp_all [fill]

theorem covers_refl (t : Target) : t.covers t = true := covers_iff_fill.mpr ⟨_, fill_none t⟩

theorem covers_trans {a b c : Target} (hab : a.covers b = true) (hbc : b.covers c = true) : a.covers c = true := by
  induction a generalizing b c with
  | index base key ih =>
    cases b <;> simp [covers] at hab
    cases c <;> simp [covers] at hbc
    have hkey := hab.1
    simp only [covers, ih hab.2 hbc.2, Bool.and_true, Bool.or_eq_true, beq_iff_eq]
    rcases hkey with rfl | rfl
    · exact .inl rfl
    · exact hbc.1
  | member base name ih =>
    cases b <;> simp [covers] at hab
    cases c <;> simp [covers] at hbc
    simp [covers, hab.1, hbc.1, ih hab.2 hbc.2]
  | result base ih =>
    cases b <;> simp [covers] at hab
    cases c <;> simp [covers] at hbc
    exact ih hab hbc
  | _ => cases b <;> simp_all [covers]

theorem covers_antisymm {a b : Target} (hab : a.covers b = true) (hba : b.covers a = true) : a = b := by
  induction a generalizing b with
  | index base key ih =>
    cases b <;> simp [covers] at hab hba
    have hkey : key = _ := hab.1.elim (fun h => hba.1.elim (fun h' => h.trans h'.symm) Eq.symm) id
    rw [ih hab.2 hba.2, hkey]
  | member base name ih =>
    cases b <;> simp [covers] at hab hba
    rw [ih hab.2 hba.2, hab.1]
  | result base ih =>
    cases b <;> simp [covers] at hab hba
    rw [ih hab hba]
  | _ => cases b <;> simp_all [covers]

/-! ### Without `any`, and with more of it -/

theorem fill_of_hasAny {t : Target} (h : t.hasAny = false) (keys : Nat → Option Key) : t.fill keys = t := by
  induction t generalizing keys with
  | index base key ih =>
    simp only [hasAny, Bool.or_eq_false_iff, beq_eq_false_iff_ne] at h
    cases key with
    | any => exact absurd rfl h.1
    | literal text => simp [fill, ih h.2, Key.fill]
  | member base name ih => rw [fill, ih h]
  | result base ih => rw [fill, ih h]
  | _ => rfl

theorem covers_of_hasAny {p n : Target} (h : p.hasAny = false) : p.covers n = true ↔ n = p := by
  rw [covers_iff_fill]
  constructor
  · rintro ⟨keys, rfl⟩
    exact fill_of_hasAny h keys
  · rintro rfl
    exact ⟨_, fill_none _⟩

/-- Putting the old key back gives the target before. -/
theorem covers_widen (i : Nat) (t : Target) : (t.widen i).covers t = true := by
  induction t generalizing i with
  | path segments => cases i <;> simp [widen, covers]
  | unnamed => cases i <;> rfl
  | _ =>
    rename_i ih
    cases i <;> simp [widen, covers, covers_refl, ih]

end Target

/-! ### Patterns and filters -/

theorem Pattern.isMatch_of_covers {p q : Pattern} {t : Target} (h : q.target.covers p.target = true)
    (hp : p.isMatch t = true) : q.isMatch t = true :=
  Target.covers_trans h hp

theorem any_isMatch_of_covers {p q : Pattern} {before after : List Pattern} {t : Target}
    (h : q.target.covers p.target = true) (hp : (before ++ p :: after).any (·.isMatch t) = true) :
    (before ++ q :: after).any (·.isMatch t) = true := by
  simp only [List.any_append, List.any_cons, Bool.or_eq_true] at hp ⊢
  exact hp.imp_right (Or.imp_left (Pattern.isMatch_of_covers h))

/-- A target covers those that come from it by putting keys in the place of its `any`, which orders targets. A pattern
without `any` stands for its own target alone, and one with `any` in the place of a key stands for at least the same
calls, so a blacklist with it lets through no more calls and a whitelist no fewer. -/
theorem covers_fills :
    (∀ p n : Target, p.covers n = true ↔ ∃ keys, p.fill keys = n) ∧
      (∀ t : Target, t.covers t = true) ∧
      (∀ a b c : Target, a.covers b = true → b.covers c = true → a.covers c = true) ∧
      (∀ a b : Target, a.covers b = true → b.covers a = true → a = b) ∧
      (∀ p : Pattern, p.target.hasAny = false → ∀ t, p.isMatch t = true ↔ t = p.target) ∧
      ∀ (p q : Pattern) (i : Nat), q.target = p.target.widen i → ∀ t,
        (p.isMatch t = true → q.isMatch t = true) ∧ ∀ before after,
          ((Filter.blacklist (before ++ q :: after)).allows t = true →
            (Filter.blacklist (before ++ p :: after)).allows t = true) ∧
          ((Filter.whitelist (before ++ p :: after)).allows t = true →
            (Filter.whitelist (before ++ q :: after)).allows t = true) := by
  refine ⟨fun _ _ => Target.covers_iff_fill, Target.covers_refl, fun _ _ _ => Target.covers_trans,
    fun _ _ => Target.covers_antisymm, fun p hp t => Target.covers_of_hasAny hp, fun p q i hq t => ?_⟩
  have hwider : q.target.covers p.target = true := hq ▸ Target.covers_widen i p.target
  refine ⟨Pattern.isMatch_of_covers hwider, fun before after => ⟨fun h => ?_, any_isMatch_of_covers hwider⟩⟩
  simp only [Filter.allows, Bool.not_eq_true'] at h ⊢
  exact Bool.eq_false_iff.mpr fun hp => Bool.eq_false_iff.mp h (any_isMatch_of_covers hwider hp)

end CallProbe.Call
