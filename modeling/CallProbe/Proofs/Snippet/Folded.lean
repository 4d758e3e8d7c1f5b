import CallProbe.Call.Site
import Mathlib.Data.List.Chain

/-! # Texts on one line

A text is folded in four passes: its words are joined by single spaces, and then the space after an opening parenthesis,
before a closing one and before a dot is taken out, in that order. Each pass could undo what an earlier one did, since
to take out a space brings two characters together. It does not, because a space is never beside another one:
`replacePair_apart` says that a pass keeps every pair apart that was apart before it, and `onOneLine_folded` puts the
passes together. No pass loses a character that can be seen. -/

namespace CallProbe.Text

/-- The characters that are not blanks. -/
def visible (cs : List Char) : List Char := cs.filter fun c => !isBlank c

theorem visible_append (cs ds : List Char) : visible (cs ++ ds) = visible cs ++ visible ds := List.filter_append ..

theorem visible_eq_self {cs : List Char} (h : ∀ c ∈ cs, isBlank c = false) : visible cs = cs :=
  List.filter_eq_self.mpr fun c hc => by rw [h c hc, Bool.not_false]

/-! ### Words -/

/-- A run of characters that are not blanks. -/
structure IsWord (w : List Char) : Prop where
  nonempty : w ≠ []
  solid : ∀ c ∈ w, isBlank c = false

theorem flatten_wordsFrom {word : List Char} (hword : ∀ c ∈ word, isBlank c = false) (cs : List Char) :
    (wordsFrom word cs).flatten = word.reverse ++ visible cs := by
  induction cs generalizing word with
  | nil =>
    rw [wordsFrom]
    split
    · rename_i hempty
      rw [List.isEmpty_iff.mp hempty]
      rfl
    · simp [visible]
  | cons c cs ih =>
    rw [wordsFrom]
    by_cases hc : isBlank c = true
    · have hvisible : visible (c :: cs) = visible cs := List.filter_cons_of_neg (by simp [hc])
      rw [if_pos hc, hvisible]
      split
      · rename_i hempty
        rw [List.isEmpty_iff.mp hempty, ih (by simp)]
      · rw [List.flatten_cons, ih (by simp), List.reverse_nil, List.nil_append]
    · have hvisible : visible (c :: cs) = c :: visible cs := List.filter_cons_of_pos (by simp [hc])
      rw [if_neg hc, hvisible, ih (by simpa [hc] using hword), List.reverse_cons, List.append_assoc]
      rfl

theorem isWord_of_mem_wordsFrom {word : List Char} (hword : ∀ c ∈ word, isBlank c = false) {cs w : List Char}
    (h : w ∈ wordsFrom word cs) : IsWord w := by
  have hdone : word.isEmpty = false → IsWord word.reverse := fun hne =>
    ⟨by simpa using hne, fun c hc => hword c (List.mem_reverse.mp hc)⟩
  induction cs generalizing word with
  | nil =>
    rw [wordsFrom] at h
    split at h
    · cases h
    · rename_i hne
      rw [List.mem_singleton.mp h]
      exact hdone (by simpa using hne)
  | cons c cs ih =>
    rw [wordsFrom] at h
    by_cases hc : isBlank c = true
    · have hrest : w ∈ wordsFrom [] cs → IsWord w := fun hw => ih (by simp) hw (by simp)
      rw [if_pos hc] at h
      split at h
      · exact hrest h
      · rename_i hne
        rcases List.mem_cons.mp h with rfl | h
        · exact hdone (by simpa using hne)
        · exact hrest h
    · have hnext : ∀ d ∈ c :: word, isBlank d = false := by simpa [hc] using hword
      rw [if_neg hc] at h
      exact ih hnext h fun _ => ⟨by simp, fun d hd => hnext d (List.mem_reverse.mp hd)⟩

/-! ### Pairs that are apart -/

/-- No two neighbours are one of the pairs. -/
def Apart (pairs : List (Char × Char)) (cs : List Char) : Prop := cs.IsChain fun a b => (a, b) ∉ pairs

theorem apart_cons {pairs : List (Char × Char)} {c : Char} {cs : List Char} :
    Apart pairs (c :: cs) ↔ (∀ d ∈ cs.head?, (c, d) ∉ pairs) ∧ Apart pairs cs := List.isChain_cons

theorem not_infix_of_apart {pairs : List (Char × Char)} {cs : List Char} (h : Apart pairs cs) {a b : Char}
    (hab : (a, b) ∈ pairs) : ¬ [a, b] <:+: cs := by
  intro hinfix
  have hpair := List.IsChain.infix h hinfix
  exact List.isChain_pair.mp hpair hab

section
variable {pairs : List (Char × Char)} {a b r : Char} {cs : List Char}

theorem head?_replacePair {c : Char} (h : c ∈ (replacePair a b r cs).head?) :
    c ∈ cs.head? ∨ cs.head? = some a ∧ c = r := by
  fun_cases replacePair a b r cs with
  | case1 => exact .inl h
  | case2 d => exact .inl h
  | case3 c d cs hpair =>
    rw [replacePair, if_pos hpair] at h
    exact .inr ⟨congrArg some hpair.1, (Option.some.inj h).symm⟩
  | case4 c d cs hpair =>
    rw [replacePair, if_neg hpair] at h
    exact .inl h

/-- A replaced pair is gone, and what was apart stays apart, if what stood beside the pair may stand beside what
    replaces it. -/
theorem replacePair_apart (hl : ∀ c, (c, a) ∉ pairs → (c, r) ∉ (a, b) :: pairs)
    (hr : ∀ c, (b, c) ∉ pairs → (r, c) ∉ (a, b) :: pairs) (h : Apart pairs cs) :
    Apart ((a, b) :: pairs) (replacePair a b r cs) := by
  fun_induction replacePair a b r cs with
  | case1 => exact List.isChain_nil
  | case2 c => exact List.isChain_singleton c
  | case3 c d cs hpair ih =>
    obtain ⟨rfl, rfl⟩ := hpair
    obtain ⟨-, htail⟩ := apart_cons.mp h
    obtain ⟨hnext, hrest⟩ := apart_cons.mp htail
    refine apart_cons.mpr ⟨fun e he => ?_, ih hrest⟩
    rcases head?_replacePair he with he | ⟨hhead, rfl⟩
    · exact hr e (hnext e he)
    · -- another pair follows and is replaced too, so two replacements come to stand side by side
      exact hr e fun hmem => hl d (hnext c hhead) (List.mem_cons_of_mem _ hmem)
  | case4 c d cs hpair ih =>
    obtain ⟨hnext, hrest⟩ := apart_cons.mp h
    have hold : (c, d) ∉ pairs := hnext d rfl
    refine apart_cons.mpr ⟨fun e he => ?_, ih hrest⟩
    rcases head?_replacePair he with he | ⟨hhead, rfl⟩
    · cases he
      exact fun hmem => (List.mem_cons.mp hmem).elim (fun heq => hpair (Prod.mk.inj heq)) hold
    · cases hhead
      exact hl c hold

theorem visible_replacePair (h : visible [a, b] = visible [r]) : visible (replacePair a b r cs) = visible cs := by
  fun_induction replacePair a b r cs with
  | case1 => rfl
  | case2 => rfl
  | case3 c d cs hpair ih =>
    obtain ⟨rfl, rfl⟩ := hpair
    calc visible (r :: replacePair c d r cs) = visible [r] ++ visible cs := by rw [← ih, ← visible_append]; rfl
      _ = visible (c :: d :: cs) := by rw [← h, ← visible_append]; rfl
  | case4 c d cs hpair ih =>
    calc visible (c :: replacePair a b r (d :: cs)) = visible [c] ++ visible (d :: cs) := by
          rw [← ih, ← visible_append]; rfl
      _ = visible (c :: d :: cs) := by rw [← visible_append]; rfl

theorem mem_replacePair {c : Char} (h : c ∈ replacePair a b r cs) : c = r ∨ c ∈ cs := by
  fun_induction replacePair a b r cs with
  | case1 => cases h
  | case2 => exact .inr h
  | case3 d e cs hpair ih =>
    rcases List.mem_cons.mp h with h | h
    · exact .inl h
    · exact (ih h).imp_right fun hmem => by simp [hmem]
  | case4 d e cs hpair ih =>
    rcases List.mem_cons.mp h with h | h
    · exact .inr (by simp [h])
    · exact (ih h).imp_right fun hmem => List.mem_cons_of_mem _ hmem

end

/-! ### Words joined by spaces -/

/-- A text of words with single spaces in between. -/
structure Spaced (ws : List (List Char)) (cs : List Char) : Prop where
  seen : visible cs = ws.flatten
  blanks : ∀ c ∈ cs, isBlank c = true → c = ' '
  apart : Apart [(' ', ' ')] cs
  front : ∀ c ∈ cs.head?, isBlank c = false

theorem ne_space_of_solid {c : Char} (h : isBlank c = false) : c ≠ ' ' := by
  rintro rfl
  exact absurd h (by decide)

theorem IsWord.spaced {w : List Char} (h : IsWord w) : Spaced [w] w where
  seen := by rw [visible_eq_self h.solid, List.flatten_singleton]
  blanks c hc hblank := by
    rw [h.solid c hc] at hblank
    cases hblank
  apart := by
    refine List.Pairwise.isChain (List.pairwise_of_forall_mem_list fun a ha b _ hmem => ?_)
    exact ne_space_of_solid (h.solid a ha) (Prod.mk.inj (List.mem_singleton.mp hmem)).1
  front c hc := h.solid c (List.mem_of_mem_head? hc)

theorem Spaced.cons {w cs : List Char} {ws : List (List Char)} (hw : IsWord w) (h : Spaced ws cs) :
    Spaced (w :: ws) (w ++ ' ' :: cs) where
  seen := by
    have hspace : visible (' ' :: cs) = visible cs := List.filter_cons_of_neg (by decide)
    rw [visible_append, visible_eq_self hw.solid, hspace, h.seen, List.flatten_cons]
  blanks c hc hblank := by
    rcases List.mem_append.mp hc with hc | hc
    · exact hw.spaced.blanks c hc hblank
    · exact (List.mem_cons.mp hc).elim id fun hc => h.blanks c hc hblank
  apart := by
    refine List.isChain_append.mpr ⟨hw.spaced.apart, apart_cons.mpr ⟨fun d hd hmem => ?_, h.apart⟩, fun c hc d _ hmem => ?_⟩
    · exact ne_space_of_solid (h.front d hd) (Prod.mk.inj (List.mem_singleton.mp hmem)).2
    · exact ne_space_of_solid (hw.solid c (List.mem_of_getLast? hc)) (Prod.mk.inj (List.mem_singleton.mp hmem)).1
  front c hc := by
    rw [List.head?_append_of_ne_nil _ hw.nonempty] at hc
    exact hw.spaced.front c hc

theorem spaced_joinWith {ws : List (List Char)} (h : ∀ w ∈ ws, IsWord w) :
    Spaced ws (joinWith " " (ws.map String.ofList)).toList := by
  induction ws with
  | nil => exact ⟨rfl, by simp [joinWith], List.isChain_nil, by simp [joinWith]⟩
  | cons w ws ih =>
    cases ws with
    | nil =>
      rw [List.map_cons, List.map_nil, joinWith, String.toList_ofList]
      exact (h w (by simp)).spaced
    | cons v ws =>
      have hrest := ih fun u hu => h u (List.mem_cons_of_mem _ hu)
      have hjoin : (joinWith " " ((w :: v :: ws).map String.ofList)).toList =
          w ++ ' ' :: (joinWith " " ((v :: ws).map String.ofList)).toList := by
        simp only [List.map_cons, joinWith, String.toList_append, String.toList_ofList, List.append_assoc]
        rfl
      rw [hjoin]
      exact hrest.cons (h w (by simp))

theorem spaced_words (cs : List Char) :
    Spaced (words cs) (joinWith " " ((words cs).map String.ofList)).toList :=
  spaced_joinWith fun _ hw => isWord_of_mem_wordsFrom (by simp) hw

theorem flatten_words (cs : List Char) : (words cs).flatten = visible cs := flatten_wordsFrom (by simp) cs

end CallProbe.Text

namespace CallProbe.Call

open Text

/-- A text on one line: its blanks are single spaces, and none stands inside a parenthesis next to it or in front of a
    dot. -/
structure Folded (cs : List Char) : Prop where
  blanks : ∀ c ∈ cs, isBlank c = true → c = ' '
  single : ¬ [' ', ' '] <:+: cs
  opening : ¬ ['(', ' '] <:+: cs
  closing : ¬ [' ', ')'] <:+: cs
  dot : ¬ [' ', '.'] <:+: cs

/-- The text on one line is folded and has the visible characters of the text, in their order. -/
theorem onOneLine_folded (cs : List Char) : visible (onOneLine cs) = visible cs ∧ Folded (onOneLine cs) := by
  have hjoined := spaced_words cs
  rw [onOneLine]
  let joined : List Char := (joinWith " " ((words cs).map String.ofList)).toList
  let opened := replacePair '(' ' ' '(' joined
  let closed := replacePair ' ' ')' ')' opened
  have hopened : Apart [('(', ' '), (' ', ' ')] opened :=
    replacePair_apart (by simp) (by simp) hjoined.apart
  have hclosed : Apart [(' ', ')'), ('(', ' '), (' ', ' ')] closed :=
    replacePair_apart (by simp) (by simp) hopened
  have hdotted : Apart [(' ', '.'), (' ', ')'), ('(', ' '), (' ', ' ')] (replacePair ' ' '.' '.' closed) :=
    replacePair_apart (by simp) (by simp) hclosed
  refine ⟨?_, fun c hc hblank => ?_, ?_, ?_, ?_, ?_⟩
  · rw [visible_replacePair (by decide), visible_replacePair (by decide), visible_replacePair (by decide),
      hjoined.seen, flatten_words]
  · -- the passes put in no blank
    rcases mem_replacePair hc with rfl | hc
    · cases hblank
    rcases mem_replacePair hc with rfl | hc
    · cases hblank
    rcases mem_replacePair hc with rfl | hc
    · cases hblank
    exact hjoined.blanks c hc hblank
  · exact not_infix_of_apart hdotted (by simp)
  · exact not_infix_of_apart hdotted (by simp)
  · exact not_infix_of_apart hdotted (by simp)
  · exact not_infix_of_apart hdotted (by simp)

theorem shorten_eq (cs : List Char) :
    shorten cs = if cs.length ≤ snippetLimit then cs else cs.take (snippetLimit - 3) ++ ['.', '.', '.'] := by
  rw [shorten]
  by_cases h : cs.length ≤ snippetLimit
  · rw [if_pos h, if_neg (Nat.not_lt.mpr h)]
  · rw [if_neg h, if_pos (Nat.lt_of_not_le h)]

theorem length_shorten_le (cs : List Char) : (shorten cs).length ≤ snippetLimit := by
  rw [shorten_eq]
  split
  · assumption
  · rw [List.length_append, List.length_take]
    simp only [snippetLimit, List.length_cons, List.length_nil]
    omega

end CallProbe.Call
