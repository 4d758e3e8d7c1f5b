import CallProbe.Project.Functions
import CallProbe.Proofs.Pass.Parsed

/-! # How a text opens

A search for functions leaves out a line that names an interpreter, and one of two byte order marks. A pass does not, and
what it is left with is no file: behind `#!` a file goes on with a bracket (`bracket_of_parseFile`), a text that names an
interpreter does not (`readFrom_next`), and a mark is no token. So a text that can be read as it is has nothing to leave
out (`dropInterpreter_of_file`). -/

namespace CallProbe.Source.Lexer

open Text

variable {fuel : Nat} {frames : List Frame} {read ts : List TokenTree} {pos : Pos} {c : Char} {cs : List Char}

def comment (cs : List Char) : Option Comment := (lineComment cs).or (blockComment cs)

/-- Whether a blank or a comment without a token stands at the front of a text. -/
def Skips (c : Char) (cs : List Char) : Prop := isSpace c = true ∨ ∃ taken rest, comment (c :: cs) = some ⟨none, taken, rest⟩

def isBracketed : TokenTree → Bool
  | .group .bracket _ _ _ => true
  | _ => false

/-- What one turn of the reader does with a text that has tokens. -/
inductive Turn (fuel : Nat) (frames : List Frame) (read : List TokenTree) (c : Char) (cs : List Char) (ts : List TokenTree) :
    Prop where
  | blank {pos : Pos} (h : isSpace c = true) (hrest : readFrom fuel frames read pos cs = some ts) :
      Turn fuel frames read c cs ts
  | comment {pos : Pos} {taken rest : List Char} (hc : isSpace c = false)
      (h : comment (c :: cs) = some ⟨none, taken, rest⟩) (hrest : readFrom fuel frames read pos rest = some ts) :
      Turn fuel frames read c cs ts
  | tokens {pos : Pos} {t : TokenTree} {more : List TokenTree} {rest : List Char} (h : ¬Skips c cs)
      (ht : isBracketed t = false) (hrest : readFrom fuel frames ((t :: more).reverse ++ read) pos rest = some ts) :
      Turn fuel frames read c cs ts
  | opened {pos p : Pos} {d : Delimiter} (h : ¬Skips c cs) (hd : opens? c = some d)
      (hrest : readFrom fuel (⟨d, p, read⟩ :: frames) [] pos cs = some ts) : Turn fuel frames read c cs ts
  | closed {pos p : Pos} {f : Frame} {outer : List Frame} (hframes : frames = f :: outer)
      (hrest : readFrom fuel outer (.group f.delim f.pos read.reverse p :: f.before) pos cs = some ts) :
      Turn fuel frames read c cs ts

theorem isBracketed_of_leaf {t : TokenTree} {taken rest : List Char} (h : leaf pos cs = some (t, taken, rest)) :
    isBracketed t = false := by
  unfold leaf at h
  split at h
  · cases h
    rfl
  split at h
  · cases h
    rfl
  split at h
  · cases h
  split at h
  · cases h
    rfl
  split at h
  · cases h
    rfl
  · cases h

theorem readFrom_cons (fuel : Nat) (frames : List Frame) (read : List TokenTree) (pos : Pos) (c : Char) (cs : List Char) :
    readFrom (fuel + 1) frames read pos (c :: cs) =
      if isSpace c then readFrom fuel frames read (advance pos [c]) cs
      else match comment (c :: cs) with
        | some ⟨none, taken, rest⟩ => readFrom fuel frames read (advance pos taken) rest
        | some ⟨some (inner, text), taken, rest⟩ =>
          if returnsPaired text then
            readFrom fuel frames ((docTokens pos inner text).reverse ++ read) (advance pos taken) rest
          else none
        | none =>
          match after? placeholder (c :: cs) with
          | some rest =>
            readFrom fuel frames (.literal (String.ofList placeholder) pos :: read) (advance pos placeholder) rest
          | none =>
            match opens? c with
            | some d => readFrom fuel (⟨d, pos, read⟩ :: frames) [] (advance pos [c]) cs
            | none =>
              match closes? c with
              | some d =>
                match frames with
                | f :: outer =>
                  if f.delim = d then
                    readFrom fuel outer (.group d f.pos read.reverse pos :: f.before) (advance pos [c]) cs
                  else none
                | [] => none
              | none =>
                match leaf pos (c :: cs) with
                | some (t, taken, rest) => readFrom fuel frames (t :: read) (advance pos taken) rest
                | none => none := by
  cases frames <;> rfl

theorem turn_of_readFrom (h : readFrom (fuel + 1) frames read pos (c :: cs) = some ts) :
    Turn fuel frames read c cs ts := by
  rw [readFrom_cons] at h
  split at h
  · rename_i hc
    exact .blank hc h
  rename_i hc
  split at h
  · rename_i taken rest hcomment
    exact .comment (by simpa using hc) hcomment h
  · rename_i inner text taken rest hcomment
    have hskips : ¬Skips c cs := by
      rintro (hspace | ⟨_, _, hplain⟩)
      · exact hc hspace
      · rw [hcomment] at hplain
        cases hplain
    split at h
    · exact .tokens hskips rfl h
    · cases h
  rename_i hcomment
  have hskips : ¬Skips c cs := by
    rintro (hspace | ⟨_, _, hplain⟩)
    · exact hc hspace
    · rw [hcomment] at hplain
      cases hplain
  split at h
  · exact .tokens hskips rfl (show readFrom fuel frames ([_].reverse ++ read) _ _ = some ts from h)
  split at h
  · rename_i d hd
    exact .opened hskips hd h
  split at h
  · split at h
    · split at h
      · rename_i f outer hd
        subst hd
        exact .closed rfl h
      · cases h
    · cases h
  · split at h
    · rename_i hleaf
      exact .tokens hskips (isBracketed_of_leaf hleaf) (show readFrom fuel frames ([_].reverse ++ read) _ _ = some ts from h)
    · cases h

theorem opens?_bracket (h : opens? c = some .bracket) : c = '[' := by
  unfold opens? at h
  split at h
  · cases h
  split at h
  · assumption
  split at h <;> cases h

/-! ### What was read stays -/

/-- How the tokens of a text begin once `read` was read inside of `frames`: with what was read, or, if a bracket is open,
    with what stands in front of the outermost one and this one as a group. -/
def Begins (frames : List Frame) (read ts : List TokenTree) : Prop :=
  match frames.getLast? with
  | none => read.reverse <+: ts
  | some f => ∃ content c, (f.before.reverse ++ [.group f.delim f.pos content c]) <+: ts

theorem begins_nil : Begins [] read ts ↔ read.reverse <+: ts := Iff.rfl

theorem begins_single {f : Frame} :
    Begins [f] read ts ↔ ∃ content c, (f.before.reverse ++ [.group f.delim f.pos content c]) <+: ts := Iff.rfl

/-- Inside of two brackets, only the outer ones count. -/
theorem begins_cons (f g : Frame) (frames : List Frame) (read new ts : List TokenTree) :
    Begins (f :: g :: frames) new ts ↔ Begins (g :: frames) read ts := by
  unfold Begins
  rw [List.getLast?_cons_cons]
  cases h : (g :: frames).getLast? with
  | none => simp at h
  | some l => rfl

theorem Begins.of_append {new : List TokenTree} (h : Begins frames (new ++ read) ts) : Begins frames read ts := by
  cases frames with
  | nil =>
    rw [begins_nil, List.reverse_append] at h
    exact begins_nil.mpr ((List.prefix_append ..).trans h)
  | cons f frames =>
    unfold Begins at h ⊢
    cases hlast : (f :: frames).getLast? with
    | none => simp at hlast
    | some l => rwa [hlast] at h

theorem begins_of_readFrom (h : readFrom fuel frames read pos cs = some ts) : Begins frames read ts := by
  induction fuel generalizing frames read pos cs with
  | zero => cases h
  | succ fuel ih =>
    cases cs with
    | nil =>
      cases frames with
      | nil =>
        cases h
        exact begins_nil.mpr List.prefix_rfl
      | cons f frames => cases h
    | cons c cs =>
      cases turn_of_readFrom h with
      | blank _ hrest => exact ih hrest
      | comment _ _ hrest => exact ih hrest
      | tokens _ _ hrest => exact (ih hrest).of_append
      | opened _ _ hrest =>
        have hopen := ih hrest
        cases frames with
        | nil =>
          obtain ⟨content, c, hopen⟩ := begins_single.mp hopen
          exact begins_nil.mpr ((List.prefix_append ..).trans hopen)
        | cons g frames => exact (begins_cons ..).mp hopen
      | closed hframes hrest =>
        subst hframes
        rename_i outer
        have hclosed := ih hrest
        cases outer with
        | nil =>
          rw [begins_nil, List.reverse_cons] at hclosed
          exact begins_single.mpr ⟨_, _, hclosed⟩
        | cons g outer => exact (begins_cons ..).mpr hclosed

/-! ### Blanks -/

theorem lineRest_length (cs : List Char) : (lineRest cs).2.2.length ≤ cs.length := by
  fun_induction lineRest cs <;> simp_all <;> omega

theorem blockRest_length {depth : Nat} {taken rest : List Char} (h : blockRest depth cs = some (taken, rest)) :
    rest.length < cs.length := by
  fun_induction blockRest depth cs generalizing taken rest <;> simp_all [pushAll, push] <;> grind

theorem lineComment_length {doc : Option (Bool × List Char)} {taken rest : List Char}
    (h : lineComment cs = some ⟨doc, taken, rest⟩) : rest.length < cs.length := by
  unfold lineComment at h
  split at h
  · cases h
    grind [lineRest_length]
  · cases h
    grind [lineRest_length]
  · cases h
    grind [lineRest_length]
  · cases h
    grind [lineRest_length]
  · cases h

theorem blockComment_length {doc : Option (Bool × List Char)} {taken rest : List Char}
    (h : blockComment cs = some ⟨doc, taken, rest⟩) : rest.length < cs.length := by
  unfold blockComment at h
  split at h
  · cases h
    grind
  · split at h
    · cases h
    · rename_i hrest
      have := blockRest_length hrest
      split at h <;> cases h <;> grind
  · cases h

theorem comment_length {doc : Option (Bool × List Char)} {taken rest : List Char}
    (h : comment cs = some ⟨doc, taken, rest⟩) : rest.length < cs.length := by
  rcases Option.or_eq_some_iff.mp h with hline | ⟨-, hblock⟩
  · exact lineComment_length hline
  · exact blockComment_length hblock

end CallProbe.Source.Lexer

namespace CallProbe.Project

open Source Lexer

variable {fuel : Nat} {frames : List Frame} {read ts : List TokenTree} {pos : Pos} {c : Char} {cs : List Char}

theorem skipBlanks_blank (h : isSpace c = true) (n : Nat) (cs : List Char) :
    skipBlanks (n + 1) (c :: cs) = skipBlanks n cs := by
  rw [skipBlanks, if_pos h]

theorem skipBlanks_comment {taken rest : List Char} (hc : isSpace c = false)
    (h : comment (c :: cs) = some ⟨none, taken, rest⟩) (n : Nat) : skipBlanks (n + 1) (c :: cs) = skipBlanks n rest := by
  unfold comment at h
  rw [skipBlanks, if_neg (by simp [hc]), h]

theorem skipBlanks_stays (h : ¬Skips c cs) (n : Nat) : skipBlanks n (c :: cs) = c :: cs := by
  cases n with
  | zero => rfl
  | succ n =>
    rw [skipBlanks, if_neg fun hc => h (.inl hc)]
    split
    · rename_i hcomment
      exact absurd (.inr ⟨_, _, hcomment⟩) h
    · rfl

/-- Unless a bracket is the first thing behind the blanks, the next token is no bracketed part. -/
theorem readFrom_next {n : Nat} (h : readFrom fuel [] read pos cs = some ts) (hn : cs.length ≤ n)
    (hbracket : (skipBlanks n cs).head? ≠ some '[') :
    ∃ next, ts = read.reverse ++ next ∧ next.head?.any isBracketed = false := by
  induction fuel generalizing pos cs n with
  | zero => cases h
  | succ fuel ih =>
    cases cs with
    | nil =>
      cases h
      exact ⟨[], by simp, rfl⟩
    | cons c cs =>
      obtain ⟨n, rfl⟩ : ∃ m, n = m + 1 := ⟨n - 1, by simp at hn; omega⟩
      rw [List.length_cons] at hn
      cases turn_of_readFrom h with
      | blank hc hrest =>
        rw [skipBlanks_blank hc] at hbracket
        exact ih hrest (by omega) hbracket
      | comment hc hcomment hrest =>
        have hshort := comment_length hcomment
        rw [List.length_cons] at hshort
        rw [skipBlanks_comment hc hcomment] at hbracket
        exact ih hrest (by omega) hbracket
      | @tokens _ t more _ _ ht hrest =>
        obtain ⟨rest, rfl⟩ := begins_nil.mp (begins_of_readFrom hrest)
        exact ⟨t :: more ++ rest, by simp, by simpa using ht⟩
      | @opened _ p d hskips hd hrest =>
        rw [skipBlanks_stays hskips] at hbracket
        obtain ⟨content, close, rest, rfl⟩ := begins_single.mp (begins_of_readFrom hrest)
        refine ⟨.group d p content close :: rest, by simp, ?_⟩
        cases d with
        | bracket => exact absurd (opens?_bracket hd) (by simpa using hbracket)
        | paren => rfl
        | brace => rfl
      | closed hframes _ => cases hframes

/-! ### Files -/

theorem bracket_of_parseFile {next : List TokenTree} {joint joint' : Bool} {p p' : Pos} {file : Tree}
    (h : Grammar.parseFile (.punct '#' joint p :: .punct '!' joint' p' :: next) = .ok file) :
    next.head?.any isBracketed = true := by
  unfold Grammar.parseFile Grammar.parseWith at h
  split at h
  · rename_i hfile
    obtain ⟨attrs, mid, hattrs, -⟩ := Parse.bind_ok hfile
    obtain ⟨as, mid', hturns, -⟩ := Parse.bind_ok hattrs
    rw [Parse.repeatWhile, Parse.bind_get, List.length_cons, Parse.repeatFuel, Parse.bind_get] at hturns
    obtain ⟨a, mid'', hattr, -⟩ := Parse.bind_ok hturns
    obtain ⟨pound, ts, hpound, hattr⟩ := Parse.bind_ok hattr
    obtain ⟨bang, ts', hbang, hattr⟩ := Parse.bind_ok hattr
    obtain ⟨g, ts'', hgroup, -⟩ := Parse.bind_ok hattr
    obtain ⟨o, content, c, hnext⟩ := Parse.group_rest hgroup
    rw [Parse.symbol_rest hbang, Parse.symbol_rest hpound] at hnext
    obtain rfl : next = .group .bracket o content c :: ts'' := hnext
    rfl
  · cases h
  · cases h

theorem readFrom_pound (fuel : Nat) (frames : List Frame) (read : List TokenTree) (pos : Pos) (cs : List Char) :
    readFrom (fuel + 1) frames read pos ('#' :: cs) =
      readFrom fuel frames (.punct '#' (opensPunct cs) pos :: read) (advance pos ['#']) cs := by
  rw [readFrom_cons]
  rfl

theorem readFrom_bang (fuel : Nat) (frames : List Frame) (read : List TokenTree) (pos : Pos) (cs : List Char) :
    readFrom (fuel + 1) frames read pos ('!' :: cs) =
      readFrom fuel frames (.punct '!' (opensPunct cs) pos :: read) (advance pos ['!']) cs := by
  rw [readFrom_cons]
  rfl

theorem isIdentStart_mark : Text.isIdentStart '\uFEFF' = false := by decide +kernel

theorem identifier_mark (cs : List Char) : identifier ('\uFEFF' :: cs) = none := by
  have hname : name ('\uFEFF' :: cs) = none := by
    rw [name, isIdentStart_mark]
    rfl
  have hopens : (literalOpenings.any fun o => (Text.after? o ('\uFEFF' :: cs)).isSome) = false := rfl
  rw [identifier, hopens, if_neg Bool.false_ne_true, anyName, hname]
  rintro rest hrest
  cases hrest

theorem leaf_mark (pos : Pos) (cs : List Char) : leaf pos ('\uFEFF' :: cs) = none := by
  have hliteral : literal ('\uFEFF' :: cs) = none := rfl
  have hlifetime : lifetime ('\uFEFF' :: cs) = none := rfl
  have hpunct : opensPunct ('\uFEFF' :: cs) = false := rfl
  simp only [leaf, hliteral, hlifetime, hpunct, identifier_mark, Bool.false_and, Bool.false_eq_true, if_false]

/-- A byte order mark is no token. -/
theorem readFrom_mark (fuel : Nat) (frames : List Frame) (read : List TokenTree) (pos : Pos) (cs : List Char) :
    readFrom (fuel + 1) frames read pos ('\uFEFF' :: cs) = none := by
  have hspace : isSpace '\uFEFF' = false := by decide
  have hcomment : comment ('\uFEFF' :: cs) = none := rfl
  have hliteral : Text.after? placeholder ('\uFEFF' :: cs) = none := rfl
  have hopens : opens? '\uFEFF' = none := rfl
  have hcloses : closes? '\uFEFF' = none := rfl
  rw [readFrom_cons]
  simp only [hspace, hcomment, hliteral, hopens, hcloses, leaf_mark, Bool.false_eq_true, if_false]

theorem tokenize_eq (s : String) :
    ∃ pos, tokenize s = readFrom ((withoutMark s.toList).length + 1) [] [] pos (withoutMark s.toList) := by
  unfold tokenize withoutMark
  cases s.toList with
  | nil => exact ⟨_, rfl⟩
  | cons c cs =>
    by_cases hc : c.toNat = 0xFEFF
    · refine ⟨⟨1, 1⟩, ?_⟩
      simp [isMark, hc]
    · refine ⟨⟨1, 0⟩, ?_⟩
      simp [isMark, hc]

theorem eq_mark (h : isMark c = true) : c = '\uFEFF' := Char.toNat_inj.mp (by simpa [isMark] using h)

theorem namesInterpreter_iff : namesInterpreter cs = true ↔
    ∃ rest, cs = '#' :: '!' :: rest ∧ (skipBlanks rest.length rest).head? ≠ some '[' := by
  unfold namesInterpreter
  split
  · simp
  · rename_i hopens
    simp only [Bool.false_eq_true, false_iff]
    rintro ⟨rest, rfl, -⟩
    exact hopens rest rfl

/-- A text that names an interpreter is no file. -/
theorem not_file_of_namesInterpreter (hcs : namesInterpreter cs = true) (h : readFrom (cs.length + 1) [] [] pos cs = some ts)
    (file : Tree) : Grammar.parseFile ts ≠ .ok file := by
  obtain ⟨rest, rfl, hbracket⟩ := namesInterpreter_iff.mp hcs
  rw [List.length_cons, List.length_cons, readFrom_pound, readFrom_bang] at h
  obtain ⟨next, rfl, hnext⟩ := readFrom_next h (Nat.le_refl _) hbracket
  intro hfile
  have hbracketed : next.head?.any isBracketed = true := bracket_of_parseFile hfile
  rw [hnext] at hbracketed
  cases hbracketed

/-- A text that is a file as it stands has nothing to leave out. -/
theorem dropInterpreter_of_file {path text : String} {file : Tree} (h : Probe.fileOfText path text = .ok file) :
    dropInterpreter text = text := by
  obtain ⟨ts, htokens, hfile⟩ := Probe.fileOfText_ok h
  obtain ⟨pos, hread⟩ := tokenize_eq text
  rw [htokens] at hread
  unfold dropInterpreter
  dsimp only
  split
  · rename_i hnames
    exact absurd hfile (not_file_of_namesInterpreter hnames hread.symm file)
  split
  · rename_i hmark
    cases hcs : withoutMark text.toList with
    | nil => simp [hcs] at hmark
    | cons c cs =>
      rw [hcs] at hmark hread
      obtain rfl : c = '\uFEFF' := eq_mark (by simpa using hmark)
      rw [readFrom_mark] at hread
      cases hread
  · rfl

end CallProbe.Project
