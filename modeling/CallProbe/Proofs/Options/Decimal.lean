import CallProbe.Proofs.Names.Numbers
import CallProbe.Time.Seconds
import Mathlib.Data.List.TakeWhile

/-! # Decimal numbers of seconds

A number literal keeps its digits, in decimal and without a plus in its exponent. Where the text of the literal reads as a
number of seconds, its digits read as the same number (`parse_of_literal`). -/

namespace CallProbe.Time

open Source

/-! ### Whole numbers -/

theorem digitsValue_eq (cs : List Char) : digitsValue cs = Nat.ofDigitChars 10 cs 0 := by
  have h : ∀ (cs : List Char) (n : Nat), cs.foldl (fun n c => n * 10 + (c.toNat - '0'.toNat)) n = Nat.ofDigitChars 10 cs n := by
    intro cs
    induction cs with
    | nil => exact fun n => Nat.ofDigitChars_nil.symm
    | cons c cs ih =>
      intro n
      rw [List.foldl_cons, ih, Nat.ofDigitChars_cons, Nat.mul_comm]
  exact h cs 0

/-- The digits of a number have its value. -/
theorem digitsValue_toString (n : Nat) : digitsValue (toString n).toList = n := by
  rw [digitsValue_eq, Literal.toList_toString, Nat.ofDigitChars_toDigits (by decide) (by decide)]

theorem ofList_eq_empty {cs : List Char} (h : String.ofList cs = "") : cs = [] := by
  have hlist := congrArg String.toList h
  rwa [String.toList_ofList] at hlist

theorem hexValue_lt_ten {c : Char} {v : Nat} (h : Lexer.hexValue? c = some v) (hv : v < 10) :
    c.isDigit = true ∧ v = c.toNat - '0'.toNat := by
  unfold Lexer.hexValue? at h
  split at h
  · rename_i hc
    cases h
    exact ⟨(Bool.and_eq_true _ _).mpr ⟨decide_eq_true hc.1, decide_eq_true hc.2⟩, rfl⟩
  · split at h
    · cases h
      omega
    · split at h
      · cases h
        omega
      · cases h

/-- A whole number in decimal, all of which is digits. -/
theorem whole_digits {value value' : Nat} {found found' : Bool} {cs : List Char} (hgap : '_' ∉ cs)
    (h : Literal.wholeNumber?.go 10 value found cs = some (value', found', [])) :
    (∀ c ∈ cs, c.isDigit = true) ∧ value' = Nat.ofDigitChars 10 cs value ∧ (cs = [] → found' = found) := by
  induction cs generalizing value found with
  | nil =>
    cases h
    simp
  | cons c cs ih =>
    rw [List.mem_cons, not_or] at hgap
    unfold Literal.wholeNumber?.go at h
    rw [if_neg (Ne.symm hgap.1)] at h
    split at h
    · cases h
    · split at h
      · simp only at h
        split at h
        · split at h
          · cases h
          · split at h
            · split at h
              · split at h <;> cases h
              · cases h
            · cases h
        · cases h
      · split at h
        · rename_i v hv
          split at h
          · rename_i hlt
            obtain ⟨hdigit, rfl⟩ := hexValue_lt_ten hv hlt
            obtain ⟨hall, hvalue, -⟩ := ih hgap.2 h
            refine ⟨List.forall_mem_cons.mpr ⟨hdigit, hall⟩, ?_, by simp⟩
            rw [hvalue, Nat.ofDigitChars_cons, Nat.mul_comm]
          · split at h <;> cases h
        · cases h

/-! ### Numbers with a point or an exponent -/

/-- What a character of a number adds to its digits, and what is read after it. -/
theorem fraction_cons {dot e sign expo : Bool} {c : Char} {cs digits : List Char} (hc : c ≠ '_')
    (h : Literal.fractional?.go dot e sign expo (c :: cs) = some (false, digits, [])) :
    (c.isDigit = true ∧ ∃ ds, Literal.fractional?.go dot e sign (expo || e) cs = some (false, ds, []) ∧ digits = c :: ds) ∨
    (c = '.' ∧ dot = false ∧ e = false ∧
      ∃ ds, Literal.fractional?.go true e sign expo cs = some (false, ds, []) ∧ digits = '.' :: ds) ∨
    ((c = 'e' ∨ c = 'E') ∧ e = false ∧
      ∃ ds, Literal.fractional?.go dot true sign expo cs = some (false, ds, []) ∧ digits = 'e' :: ds) ∨
    (e = true ∧ sign = false ∧ expo = false ∧ ∃ ds, Literal.fractional?.go dot e true expo cs = some (false, ds, []) ∧
      (c = '-' ∧ digits = '-' :: ds ∨ c = '+' ∧ digits = ds)) := by
  unfold Literal.fractional?.go at h
  rw [if_neg hc] at h
  split at h
  · rename_i hdigit
    exact .inl ⟨hdigit, Literal.digits_of_push h⟩
  split at h
  · -- A point stands before an exponent, and is the only one.
    rename_i hpoint
    split at h
    · cases h
    · rename_i hno
      simp only [Bool.or_eq_true, not_or, Bool.not_eq_true] at hno
      obtain ⟨rfl, rfl⟩ := hno
      exact .inr (.inl ⟨hpoint, rfl, rfl, Literal.digits_of_push h⟩)
  split at h
  · -- An exponent has a digit or a sign behind it, or else a suffix is left over.
    rename_i hexponent
    split at h
    · split at h
      · split at h
        · split at h <;> cases h
        · rename_i hno
          rw [Bool.not_eq_true] at hno
          subst hno
          exact .inr (.inr (.inl ⟨hexponent, rfl, Literal.digits_of_push h⟩))
      · simp at h
    · simp at h
  split at h
  · -- A sign is the first of an exponent. A plus is not kept.
    rename_i hsign
    split at h
    · cases h
    · rename_i hno
      simp only [Bool.or_eq_true, Bool.not_eq_true', not_or, Bool.not_eq_true, Bool.not_eq_false] at hno
      obtain ⟨⟨rfl, rfl⟩, rfl⟩ := hno
      split at h
      · rename_i hminus
        obtain ⟨ds, hds, hdigits⟩ := Literal.digits_of_push h
        exact .inr (.inr (.inr ⟨rfl, rfl, rfl, ds, hds, .inl ⟨hminus, hdigits⟩⟩))
      · rename_i hminus
        exact .inr (.inr (.inr ⟨rfl, rfl, rfl, _, h, .inr ⟨hsign.resolve_left hminus, rfl⟩⟩))
  · simp at h

/-- Behind a sign or a digit of an exponent there are digits only. -/
theorem exponent_digits {dot sign expo : Bool} {cs ds : List Char} (hbegun : (sign || expo) = true) (hgap : '_' ∉ cs)
    (h : Literal.fractional?.go dot true sign expo cs = some (false, ds, [])) :
    ds = cs ∧ (∀ c ∈ cs, c.isDigit = true) ∧ (expo = false → cs ≠ []) := by
  induction cs generalizing sign expo ds with
  | nil =>
    cases expo with
    | false => cases h
    | true =>
      cases h
      simp
  | cons c cs ih =>
    rw [List.mem_cons, not_or] at hgap
    obtain ⟨hdigit, ds, hds, rfl⟩ | ⟨-, -, he, -⟩ | ⟨-, he, -⟩ | ⟨-, rfl, rfl, -⟩ := fraction_cons (Ne.symm hgap.1) h
    · obtain ⟨rfl, hall, -⟩ := ih (by simp) hgap.2 hds
      exact ⟨rfl, List.forall_mem_cons.mpr ⟨hdigit, hall⟩, by simp⟩
    · cases he
    · cases he
    · cases hbegun

theorem readExponent_letter {x : Char} (hx : x = 'e' ∨ x = 'E') (cs : List Char) :
    readExponent (x :: cs) = readExponent ('e' :: cs) := by
  simp [readExponent, hx]

/-- A plus in an exponent says nothing. -/
theorem readExponent_plus {c : Char} (hc : c.isDigit = true) (cs : List Char) :
    readExponent ('e' :: '+' :: c :: cs) = readExponent ('e' :: c :: cs) := by
  have hminus : c ≠ '-' := by
    rintro rfl
    cases hc
  have hplus : c ≠ '+' := by
    rintro rfl
    cases hc
  simp [readExponent, hminus, hplus]

/-- An exponent reads the same in the digits of a number. -/
theorem exponent_read {dot : Bool} {x : Char} {cs ds : List Char} (hx : x = 'e' ∨ x = 'E') (hgap : '_' ∉ cs)
    (h : Literal.fractional?.go dot true false false cs = some (false, ds, [])) :
    readExponent (x :: cs) = readExponent ('e' :: ds) := by
  rw [readExponent_letter hx]
  cases cs with
  | nil => cases h
  | cons c cs =>
    rw [List.mem_cons, not_or] at hgap
    obtain ⟨hdigit, ds, hds, rfl⟩ | ⟨-, -, he, -⟩ | ⟨-, he, -⟩ | ⟨-, -, -, ds, hds, hsign⟩ := fraction_cons (Ne.symm hgap.1) h
    · rw [(exponent_digits rfl hgap.2 hds).1]
    · cases he
    · cases he
    · obtain ⟨rfl, hall, hne⟩ := exponent_digits rfl hgap.2 hds
      obtain ⟨rfl, rfl⟩ | ⟨rfl, rfl⟩ := hsign
      · rfl
      · obtain ⟨c, cs, rfl⟩ := List.exists_cons_of_ne_nil (hne rfl)
        exact readExponent_plus (hall c (List.mem_cons_self ..)) cs

/-- What stands behind the point reads the same in the digits of a number. -/
theorem fraction_read {cs ds : List Char} (hgap : '_' ∉ cs)
    (h : Literal.fractional?.go true false false false cs = some (false, ds, [])) :
    cs.takeWhile Char.isDigit = ds.takeWhile Char.isDigit ∧
      readExponent (cs.dropWhile Char.isDigit) = readExponent (ds.dropWhile Char.isDigit) := by
  induction cs generalizing ds with
  | nil =>
    cases h
    exact ⟨rfl, rfl⟩
  | cons c cs ih =>
    rw [List.mem_cons, not_or] at hgap
    obtain ⟨hdigit, ds, hds, rfl⟩ | ⟨-, hdot, -, -⟩ | ⟨hx, -, ds, hds, rfl⟩ | ⟨he, -⟩ := fraction_cons (Ne.symm hgap.1) h
    · rw [List.takeWhile_cons_of_pos hdigit, List.takeWhile_cons_of_pos hdigit, List.dropWhile_cons_of_pos hdigit,
        List.dropWhile_cons_of_pos hdigit]
      obtain ⟨htake, hdrop⟩ := ih hgap.2 hds
      exact ⟨by rw [htake], hdrop⟩
    · cases hdot
    · have hc : ¬c.isDigit = true := by
        obtain rfl | rfl := hx <;> decide
      rw [List.takeWhile_cons_of_neg hc, List.dropWhile_cons_of_neg hc]
      exact ⟨rfl, exponent_read hx hgap.2 hds⟩
    · cases he

/-! ### Numbers of seconds -/

theorem toLower_digit {c : Char} (hc : c.isDigit = true) : c.toLower = c := by
  have hle : ¬(c.val ≥ 'A'.val ∧ c.val ≤ 'Z'.val) := by
    rw [Char.isDigit, Bool.and_eq_true, decide_eq_true_eq, decide_eq_true_eq] at hc
    rintro ⟨hupper, -⟩
    have hlow := UInt32.le_trans hupper hc.2
    exact absurd hlow (by decide)
  unfold Char.toLower
  exact dif_neg hle

/-- What starts with a digit is not a word. -/
theorem not_word {c : Char} (hc : c.isDigit = true) (cs : List Char) {w : List Char} (hw : w.all Char.isAlpha = true) :
    (c :: cs).map Char.toLower ≠ w := by
  rintro rfl
  rw [List.map_cons, List.all_cons, toLower_digit hc, Bool.and_eq_true] at hw
  have hnine := of_decide_eq_true (Bool.and_eq_true_iff.mp hc).2
  obtain hupper | hlower := Bool.or_eq_true_iff.mp hw.1
  · have hletter : 'A'.val ≤ c.val := (of_decide_eq_true hupper).1
    exact absurd (UInt32.le_trans hletter hnine) (by decide)
  · have hletter : 'a'.val ≤ c.val := of_decide_eq_true (Bool.and_eq_true_iff.mp hlower).1
    exact absurd (UInt32.le_trans hletter hnine) (by decide)

theorem not_infinite {c : Char} (hc : c.isDigit = true) (cs : List Char) :
    ¬((c :: cs).map Char.toLower = "inf".toList ∨ (c :: cs).map Char.toLower = "infinity".toList) :=
  not_or.mpr ⟨not_word hc cs (by decide), not_word hc cs (by decide)⟩

theorem not_nan {c : Char} (hc : c.isDigit = true) (cs : List Char) : ¬(c :: cs).map Char.toLower = "nan".toList :=
  not_word hc cs (by decide)

/-- How a number goes on behind its first digits: with a point, or with an exponent at most. -/
def GoesOn (cs ds : List Char) : Prop :=
  (∃ us vs, cs = '.' :: us ∧ ds = '.' :: vs ∧ us.takeWhile Char.isDigit = vs.takeWhile Char.isDigit ∧
    readExponent (us.dropWhile Char.isDigit) = readExponent (vs.dropWhile Char.isDigit)) ∨
  cs.head? ≠ some '.' ∧ ds.head? ≠ some '.' ∧ readExponent cs = readExponent ds

theorem readUnsigned_congr {c : Char} {cs ds : List Char} (hc : c.isDigit = true)
    (htake : (c :: cs).takeWhile Char.isDigit = (c :: ds).takeWhile Char.isDigit)
    (hdrop : GoesOn ((c :: cs).dropWhile Char.isDigit) ((c :: ds).dropWhile Char.isDigit)) (negative : Bool) :
    readUnsigned negative (c :: cs) = readUnsigned negative (c :: ds) := by
  unfold readUnsigned
  simp only [if_neg (not_infinite hc cs), if_neg (not_infinite hc ds), if_neg (not_nan hc cs), if_neg (not_nan hc ds), htake]
  obtain ⟨us, vs, hcs, hds, hpart, hexponent⟩ | ⟨hcs, hds, hexponent⟩ := hdrop
  · rw [hcs, hds]
    simp only [hpart, hexponent]
  · generalize List.dropWhile Char.isDigit (c :: cs) = us at hcs hexponent ⊢
    generalize List.dropWhile Char.isDigit (c :: ds) = vs at hds hexponent ⊢
    have hus : ∀ xs, us ≠ '.' :: xs := fun xs h => hcs (h ▸ rfl)
    have hvs : ∀ xs, vs ≠ '.' :: xs := fun xs h => hds (h ▸ rfl)
    simp only [hexponent]

/-- A number with a point or an exponent reads the same from its digits. -/
theorem whole_read {cs ds : List Char} (hgap : '_' ∉ cs)
    (h : Literal.fractional?.go false false false false cs = some (false, ds, [])) :
    cs.takeWhile Char.isDigit = ds.takeWhile Char.isDigit ∧
      GoesOn (cs.dropWhile Char.isDigit) (ds.dropWhile Char.isDigit) := by
  induction cs generalizing ds with
  | nil =>
    cases h
    exact ⟨rfl, .inr ⟨nofun, nofun, rfl⟩⟩
  | cons c cs ih =>
    rw [List.mem_cons, not_or] at hgap
    obtain ⟨hdigit, ds, hds, rfl⟩ | ⟨rfl, -, -, ds, hds, rfl⟩ | ⟨hx, -, ds, hds, rfl⟩ | ⟨he, -⟩ :=
      fraction_cons (Ne.symm hgap.1) h
    · rw [List.takeWhile_cons_of_pos hdigit, List.takeWhile_cons_of_pos hdigit, List.dropWhile_cons_of_pos hdigit,
        List.dropWhile_cons_of_pos hdigit]
      obtain ⟨htake, hdrop⟩ := ih hgap.2 hds
      exact ⟨by rw [htake], hdrop⟩
    · obtain ⟨htake, hdrop⟩ := fraction_read hgap.2 hds
      exact ⟨rfl, .inl ⟨cs, ds, rfl, rfl, htake, hdrop⟩⟩
    · have hc : ¬c.isDigit = true ∧ c ≠ '.' := by
        obtain rfl | rfl := hx <;> decide
      rw [List.takeWhile_cons_of_neg hc.1, List.dropWhile_cons_of_neg hc.1]
      exact ⟨rfl, .inr ⟨by simpa using hc.2, nofun, exponent_read hx hgap.2 hds⟩⟩
    · cases he

theorem readUnsigned_digits {cs : List Char} (hne : cs ≠ []) (hall : ∀ c ∈ cs, c.isDigit = true) (negative : Bool) :
    readUnsigned negative cs = some (nearest negative (digitsValue cs) 0) := by
  obtain ⟨c, cs, rfl⟩ := List.exists_cons_of_ne_nil hne
  have hc := hall c (List.mem_cons_self ..)
  have htake : (c :: cs).takeWhile Char.isDigit = c :: cs := List.takeWhile_eq_self_iff.mpr hall
  have hdrop : (c :: cs).dropWhile Char.isDigit = [] := List.dropWhile_eq_nil_iff.mpr hall
  unfold readUnsigned
  rw [htake, hdrop]
  simp only [if_neg (not_infinite hc cs), if_neg (not_nan hc cs), readExponent]
  simp only [List.isEmpty_cons, Bool.false_eq_true, List.isEmpty_nil, and_true, ↓reduceIte, List.append_nil,
    List.length_nil, Int.cast_ofNat_Int, Int.sub_zero, Option.map_some]

/-- A number of another base is no number of seconds. -/
theorem readUnsigned_based {x : Char} (hx : x = 'x' ∨ x = 'o' ∨ x = 'b') (cs : List Char) (negative : Bool) :
    readUnsigned negative ('0' :: x :: cs) = none := by
  unfold readUnsigned
  simp only [if_neg (not_infinite (show '0'.isDigit = true by decide) (x :: cs)),
    if_neg (not_nan (show '0'.isDigit = true by decide) (x :: cs))]
  obtain rfl | rfl | rfl := hx <;> rfl

/-- A whole number that names no base is read in decimal. -/
theorem decimal_of_whole {cs : List Char} {d suffix : String}
    (hbase : ∀ {x : Char}, x = 'x' ∨ x = 'o' ∨ x = 'b' → ∀ us, cs ≠ '0' :: x :: us)
    (h : Literal.wholeNumber? cs = some (d, suffix)) : ∃ value rest,
      Literal.wholeNumber?.go 10 0 false cs = some (value, true, rest) ∧ d = toString value ∧ suffix = String.ofList rest := by
  have hsixteen : ∀ us, cs ≠ '0' :: 'x' :: us := hbase (.inl rfl)
  have height : ∀ us, cs ≠ '0' :: 'o' :: us := hbase (.inr (.inl rfl))
  have htwo : ∀ us, cs ≠ '0' :: 'b' :: us := hbase (.inr (.inr rfl))
  unfold Literal.wholeNumber? at h
  simp only at h
  split at h
  · rename_i value rest hgo
    split at h
    · obtain ⟨rfl, rfl⟩ := Prod.mk.inj (Option.some.inj h)
      exact ⟨value, rest, hgo, rfl, rfl⟩
    · cases h
  · cases h

/-- A whole number that reads as a number of seconds is made of digits. -/
theorem digits_of_whole {cs : List Char} {d : String} {negative : Bool} {x : Float64} (hgap : '_' ∉ cs)
    (h : Literal.wholeNumber? cs = some (d, "")) (hx : readUnsigned negative cs = some x) :
    cs ≠ [] ∧ (∀ c ∈ cs, c.isDigit = true) ∧ d = toString (digitsValue cs) := by
  have hbase {x : Char} (hx' : x = 'x' ∨ x = 'o' ∨ x = 'b') (us : List Char) : cs ≠ '0' :: x :: us := by
    rintro rfl
    rw [readUnsigned_based hx'] at hx
    cases hx
  obtain ⟨value, suffix, hgo, rfl, hsuffix⟩ := decimal_of_whole (fun hx us => hbase hx us) h
  obtain rfl : suffix = [] := ofList_eq_empty hsuffix.symm
  obtain ⟨hall, hvalue, hnil⟩ := whole_digits hgap hgo
  refine ⟨fun hcs => ?_, hall, by rw [hvalue, digitsValue_eq]⟩
  cases hnil hcs

/-- A number with a point or an exponent starts with a digit, which its digits keep. -/
theorem fraction_of_fractional? {cs : List Char} {d : String} (hgap : '_' ∉ cs) (h : Literal.fractional? cs = some (d, "")) :
    ∃ c us ds, c.isDigit = true ∧ cs = c :: us ∧ d = String.ofList (c :: ds) ∧
      Literal.fractional?.go false false false false (c :: us) = some (false, c :: ds, []) := by
  unfold Literal.fractional? at h
  split at h
  · rename_i hhead
    split at h
    · rename_i digits suffix hgo
      split at h
      · obtain ⟨rfl, hsuffix⟩ := Prod.mk.inj (Option.some.inj h)
        obtain rfl : suffix = [] := ofList_eq_empty hsuffix
        obtain ⟨c, us, rfl⟩ := List.exists_cons_of_ne_nil (show cs ≠ [] by rintro rfl; cases hhead)
        have hc : c.isDigit = true := hhead
        rw [List.mem_cons, not_or] at hgap
        obtain ⟨-, ds, -, rfl⟩ | ⟨rfl, -⟩ | ⟨hletter, -⟩ | ⟨he, -⟩ := fraction_cons (Ne.symm hgap.1) hgo
        · exact ⟨c, us, ds, hc, rfl, rfl, hgo⟩
        · cases hc
        · obtain rfl | rfl := hletter <;> cases hc
        · cases he
      · cases h
    · cases h
  · cases h

/-- Where a number literal reads as a number of seconds, so do its digits, and the numbers are the same. -/
theorem readUnsigned_of_literal {t d : String} (hgap : '_' ∉ t.toList)
    (h : Literal.ofText t = some (.int d "") ∨ Literal.ofText t = some (.float d "")) {negative : Bool} {x : Float64}
    (hx : readUnsigned negative t.toList = some x) : readUnsigned negative d.toList = some x := by
  obtain h | h := h
  · have hwhole := Literal.wholeNumber?_of_int h
    obtain ⟨hne, hall, rfl⟩ := digits_of_whole hgap hwhole hx
    have hdigits : ∀ c ∈ (toString (digitsValue t.toList)).toList, c.isDigit = true := fun c hc => by
      rw [Literal.toList_toString] at hc
      exact Nat.isDigit_of_mem_toDigits (by decide) (by decide) hc
    rw [readUnsigned_digits hne hall] at hx
    rw [readUnsigned_digits (by rw [Literal.toList_toString]; exact Nat.toDigits_ne_nil) hdigits, digitsValue_toString, hx]
  · obtain ⟨c, cs, ds, hc, ht, rfl, hgo⟩ := fraction_of_fractional? hgap (Literal.fractional?_of_float h).2
    rw [ht] at hgap hx
    obtain ⟨htake, hdrop⟩ := whole_read hgap hgo
    rw [String.toList_ofList, ← readUnsigned_congr hc htake hdrop, hx]

/-! ### With a sign -/

theorem parse_minus (s : String) : Float64.parse ("-" ++ s) = readUnsigned true s.toList := by
  unfold Float64.parse
  rw [String.toList_append]
  rfl

theorem parse_of_digit {s : String} (h : s.toList.head?.any Char.isDigit = true) :
    Float64.parse s = readUnsigned false s.toList := by
  have hne {x : Char} (hx : x.isDigit = false) (cs : List Char) : s.toList ≠ x :: cs := fun hs => by
    rw [hs, List.head?_cons, Option.any_some, hx] at h
    cases h
  have hminus : ∀ cs, s.toList ≠ '-' :: cs := hne rfl
  have hplus : ∀ cs, s.toList ≠ '+' :: cs := hne rfl
  unfold Float64.parse
  split <;> simp_all

/-- A whole number starts with a digit or with a gap. -/
theorem whole_head {c : Char} {cs suffix : List Char} {value : Nat} (hgap : c ≠ '_')
    (h : Literal.wholeNumber?.go 10 0 false (c :: cs) = some (value, true, suffix)) : c.isDigit = true := by
  unfold Literal.wholeNumber?.go at h
  rw [if_neg hgap] at h
  split at h
  · cases h
  · split at h
    · simp only at h
      split at h
      · split at h
        · cases h
        · split at h
          · split at h
            · split at h <;> cases h
            · cases h
          · cases h
      · cases h
    · split at h
      · rename_i v hv
        split at h
        · rename_i hlt
          exact (hexValue_lt_ten hv hlt).1
        · split at h <;> cases h
      · cases h

theorem head_of_whole {cs : List Char} {d suffix : String} (hgap : '_' ∉ cs) (h : Literal.wholeNumber? cs = some (d, suffix)) :
    cs.head?.any Char.isDigit = true := by
  cases cs with
  | nil => cases h
  | cons c cs =>
    by_cases hc : c = '0'
    · subst hc
      rfl
    · rw [List.mem_cons, not_or] at hgap
      obtain ⟨_, _, hgo, -⟩ := decimal_of_whole (fun _ us hus => hc (List.cons.inj hus).1) h
      exact whole_head (Ne.symm hgap.1) hgo

/-- A number literal and its digits start with a digit. -/
theorem head_of_literal {t d : String} (hgap : '_' ∉ t.toList)
    (h : Literal.ofText t = some (.int d "") ∨ Literal.ofText t = some (.float d "")) :
    t.toList.head?.any Char.isDigit = true ∧ d.toList.head?.any Char.isDigit = true := by
  obtain h | h := h
  · obtain ⟨n, rfl⟩ := Literal.digits_of_int h
    refine ⟨head_of_whole hgap (Literal.wholeNumber?_of_int h), ?_⟩
    obtain ⟨c, cs, hcs⟩ := List.exists_cons_of_ne_nil (Nat.toDigits_ne_nil (n := n) (b := 10))
    have hc : c.isDigit = true := Nat.isDigit_of_mem_toDigits (by decide) (by decide) (hcs ▸ List.mem_cons_self ..)
    rw [Literal.toList_toString, hcs]
    exact hc
  · obtain ⟨c, cs, ds, hc, ht, rfl, -⟩ := fraction_of_fractional? hgap (Literal.fractional?_of_float h).2
    rw [ht, String.toList_ofList]
    exact ⟨hc, hc⟩

/-- Where a number literal reads as a number of seconds, also with a minus, its digits read as the same number. -/
theorem parse_of_literal {t d : String} (hgap : '_' ∉ t.toList)
    (h : Literal.ofText t = some (.int d "") ∨ Literal.ofText t = some (.float d "")) {x : Float64} :
    (Float64.parse t = some x → Float64.parse d = some x) ∧
      (Float64.parse ("-" ++ t) = some x → Float64.parse ("-" ++ d) = some x) := by
  obtain ⟨htext, hdigits⟩ := head_of_literal hgap h
  rw [parse_of_digit htext, parse_of_digit hdigits, parse_minus, parse_minus]
  exact ⟨readUnsigned_of_literal hgap h, readUnsigned_of_literal hgap h⟩

end CallProbe.Time
