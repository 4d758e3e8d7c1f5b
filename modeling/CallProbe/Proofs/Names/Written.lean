import CallProbe.Call.Pattern
import Mathlib.Data.List.TakeWhile

/-! # How patterns are written

A pattern is a path of names, followed by fields, calls and subscripts: a `Form`. Reading a form as it is written gives
its target (`read_written`), whatever is read is a form as it is written (`read_inv`), and no text is two forms
(`written_inj`). -/

namespace CallProbe.Call.Pattern

open Text

/-! ### The parts of a pattern -/

/-- A name: a run of letters, digits and `_`. -/
@[ext]
structure Name where
  chars : List Char
  nonempty : chars ≠ []
  named : ∀ c ∈ chars, isNameChar c = true

/-- What stands between the brackets of a subscript: the first bracket that closes ends it. -/
@[ext]
structure RawKey where
  chars : List Char
  unclosed : ']' ∉ chars
  notBlank : ∃ c ∈ chars, isBlank c = false

/-- What may follow a path. -/
inductive Suffix where
  | member (name : Name)
  | result
  | index (key : RawKey)

/-- A pattern by its parts. -/
@[ext]
structure Form where
  first : Name
  more : List Name
  suffixes : List Suffix

def Name.text (n : Name) : String := String.ofList n.chars

/-- The key without blanks around it, where `*` is every key, and without quotes. -/
def RawKey.key (k : RawKey) : Key :=
  if trimBlanks k.chars = ['*'] then .any else .literal (String.ofList (unquote (trimBlanks k.chars)))

def Suffix.written : Suffix → List Char
  | member name => '.' :: name.chars
  | result => ['(', ')']
  | index key => '[' :: (key.chars ++ [']'])

/-- The target with a suffix behind it. -/
def Suffix.apply (base : Target) : Suffix → Target
  | member name => .member base name.text
  | result => .result base
  | index key => .index base key.key

/-- Names behind colons. -/
def segmentsWritten (names : List Name) : List Char := names.flatMap fun n => ':' :: ':' :: n.chars

def Form.written (f : Form) : List Char :=
  f.first.chars ++ (segmentsWritten f.more ++ f.suffixes.flatMap Suffix.written)

def Form.target (f : Form) : Target :=
  f.suffixes.foldl Suffix.apply (ofSegments ((f.first :: f.more).map Name.text))

/-! ### Names -/

/-- A text that a name in front of it ends at. -/
def Stops (cs : List Char) : Prop := cs.takeWhile isNameChar = []

theorem dropWhile_of_stops {cs : List Char} (h : Stops cs) : cs.dropWhile isNameChar = cs := by
  have hsplit := List.takeWhile_append_dropWhile (p := isNameChar) (l := cs)
  rwa [h, List.nil_append] at hsplit

theorem stops_dropWhile (cs : List Char) : Stops (cs.dropWhile isNameChar) := by
  induction cs with
  | nil => rfl
  | cons c cs ih =>
    by_cases hc : isNameChar c = true
    · rwa [List.dropWhile_cons_of_pos hc]
    · rw [List.dropWhile_cons_of_neg hc, Stops, List.takeWhile_cons_of_neg hc]

theorem takeName_chars (n : Name) {rest : List Char} (h : Stops rest) :
    takeName (n.chars ++ rest) = some (n.text, rest) := by
  unfold takeName
  rw [List.takeWhile_append_of_pos n.named, List.dropWhile_append_of_pos n.named, h, dropWhile_of_stops h,
    List.append_nil]
  split
  · exact absurd ‹_› n.nonempty
  · rfl

theorem takeName_inv {cs rest : List Char} {name : String} (h : takeName cs = some (name, rest)) :
    ∃ n : Name, cs = n.chars ++ rest ∧ name = n.text ∧ Stops rest := by
  unfold takeName at h
  split at h
  · cases h
  · rename_i hne
    cases h
    refine ⟨⟨cs.takeWhile isNameChar, hne, fun c hc => ?_⟩, ?_, rfl, stops_dropWhile cs⟩
    · exact List.mem_takeWhile_imp hc
    · exact List.takeWhile_append_dropWhile.symm

theorem text_inj {n m : Name} (h : n.text = m.text) : n = m := Name.ext (String.ofList_injective h)

/-- Where two names end, they are told apart from what follows. -/
theorem chars_append_inj {n m : Name} {cs ds : List Char} (hcs : Stops cs) (hds : Stops ds)
    (h : n.chars ++ cs = m.chars ++ ds) : n = m ∧ cs = ds := by
  have htaken := takeName_chars n hcs
  rw [h, takeName_chars m hds] at htaken
  obtain ⟨htext, hrest⟩ := Prod.mk.inj (Option.some.inj htaken)
  exact ⟨text_inj htext.symm, hrest.symm⟩

/-! ### Paths -/

/-- A text with suffixes: none of them starts like a name or a segment. -/
def StartsSuffix (cs : List Char) : Prop := ∀ c ∈ cs.head?, c = '.' ∨ c = '(' ∨ c = '['

theorem startsSuffix_written (ss : List Suffix) : StartsSuffix (ss.flatMap Suffix.written) := by
  rintro c hc
  cases ss with
  | nil => cases hc
  | cons s ss => cases s <;> simp [Suffix.written] at hc <;> simp [← hc]

theorem StartsSuffix.stops {cs : List Char} (h : StartsSuffix cs) : Stops cs := by
  cases cs with
  | nil => rfl
  | cons c cs => rcases h c rfl with rfl | rfl | rfl <;> rfl

theorem stops_segments (names : List Name) {rest : List Char} (h : StartsSuffix rest) :
    Stops (segmentsWritten names ++ rest) := by
  cases names with
  | nil => exact h.stops
  | cons n names => rfl

theorem takeSegments_of_suffix {cs : List Char} (h : StartsSuffix cs) : takeSegments cs = .ok ([], cs) := by
  unfold takeSegments
  split
  · have hcolon := h ':' rfl
    simp at hcolon
  · rfl

theorem takeSegments_cons (n : Name) {cs : List Char} (h : Stops cs) :
    takeSegments (':' :: ':' :: (n.chars ++ cs)) =
      (takeSegments cs).map fun (names, rest) => (n.text :: names, rest) := by
  rw [takeSegments]
  split <;> rename_i htaken <;> rw [takeName_chars n h] at htaken <;> cases htaken
  rfl

theorem takeSegments_written (names : List Name) {rest : List Char} (h : StartsSuffix rest) :
    takeSegments (segmentsWritten names ++ rest) = .ok (names.map Name.text, rest) := by
  induction names with
  | nil => exact takeSegments_of_suffix h
  | cons n names ih =>
    have hsplit : segmentsWritten (n :: names) ++ rest = ':' :: ':' :: (n.chars ++ (segmentsWritten names ++ rest)) := by
      simp [segmentsWritten]
    rw [hsplit, takeSegments_cons n (stops_segments names h), ih]
    rfl

theorem takeSegments_inv {cs rest : List Char} {texts : List String} (h : takeSegments cs = .ok (texts, rest)) :
    ∃ names : List Name, cs = segmentsWritten names ++ rest ∧ texts = names.map Name.text := by
  fun_induction takeSegments cs generalizing texts with
  | case1 cs hnone => cases h
  | case2 cs name mid htaken hlen ih =>
    obtain ⟨n, rfl, rfl, -⟩ := takeName_inv htaken
    cases hmore : takeSegments mid with
    | error e =>
      rw [hmore] at h
      cases h
    | ok r =>
      rw [hmore] at h
      cases h
      obtain ⟨names, rfl, hnames⟩ := ih hmore
      exact ⟨n :: names, by simp [segmentsWritten], by simp [hnames]⟩
  | case3 cs hcolons =>
    cases h
    exact ⟨[], rfl, rfl⟩

/-! ### Keys -/

theorem trimBlanks_eq_nil {cs : List Char} : trimBlanks cs = [] ↔ ∀ c ∈ cs, isBlank c = true := by
  rw [trimBlanks, List.reverse_eq_nil_iff, List.dropWhile_eq_nil_iff]
  constructor
  · intro h c hc
    rw [← List.takeWhile_append_dropWhile (p := isBlank) (l := cs)] at hc
    rcases List.mem_append.mp hc with hc | hc
    · exact List.mem_takeWhile_imp hc
    · exact h c (List.mem_reverse.mpr hc)
  · intro h c hc
    exact h c (List.dropWhile_subset _ (List.mem_reverse.mp hc))

theorem keyOf?_chars (k : RawKey) : keyOf? k.chars = some k.key := by
  unfold keyOf? RawKey.key
  split
  · rename_i hnil
    obtain ⟨c, hc, hblank⟩ := k.notBlank
    rw [trimBlanks_eq_nil.mp hnil c hc] at hblank
    cases hblank
  · rename_i hany
    rw [if_pos hany]
  · rename_i hother
    rw [if_neg hother]

theorem notBlank_of_keyOf? {cs : List Char} {key : Key} (h : keyOf? cs = some key) :
    ∃ c ∈ cs, isBlank c = false := by
  by_contra hall
  have hnil : trimBlanks cs = [] := trimBlanks_eq_nil.mpr fun c hc => by
    by_contra hblank
    exact hall ⟨c, hc, by simpa using hblank⟩
  rw [keyOf?, hnil] at h
  cases h

theorem takeWhile_chars (k : RawKey) (rest : List Char) :
    (k.chars ++ ']' :: rest).takeWhile (· != ']') = k.chars ∧
      (k.chars ++ ']' :: rest).dropWhile (· != ']') = ']' :: rest := by
  have hopen : ∀ c ∈ k.chars, (c != ']') = true := fun c hc => bne_iff_ne.mpr fun h => k.unclosed (h ▸ hc)
  rw [List.takeWhile_append_of_pos hopen, List.dropWhile_append_of_pos hopen]
  simp

/-! ### Suffixes -/

theorem takeSuffixes_written (ss : List Suffix) (base : Target) :
    takeSuffixes base (ss.flatMap Suffix.written) = .ok (ss.foldl Suffix.apply base) := by
  induction ss generalizing base with
  | nil => rw [List.flatMap_nil, takeSuffixes, List.foldl_nil]
  | cons s ss ih =>
    rw [List.flatMap_cons, List.foldl_cons]
    cases s with
    | member name =>
      rw [Suffix.written, List.cons_append, takeSuffixes]
      split <;> rename_i htaken <;> rw [takeName_chars name (startsSuffix_written ss).stops] at htaken <;> cases htaken
      exact ih _
    | result =>
      rw [Suffix.written, List.cons_append, List.cons_append, List.nil_append, takeSuffixes]
      exact ih _
    | index key =>
      obtain ⟨htake, hdrop⟩ := takeWhile_chars key (ss.flatMap Suffix.written)
      have hsplit : (Suffix.index key).written ++ ss.flatMap Suffix.written =
          '[' :: (key.chars ++ ']' :: ss.flatMap Suffix.written) := by simp [Suffix.written]
      rw [hsplit, takeSuffixes]
      split <;> rename_i hclosed <;> rw [hdrop] at hclosed <;> cases hclosed
      rw [htake, keyOf?_chars]
      exact ih _

theorem takeSuffixes_inv {cs : List Char} {base t : Target} (h : takeSuffixes base cs = .ok t) :
    ∃ ss : List Suffix, cs = ss.flatMap Suffix.written ∧ t = ss.foldl Suffix.apply base := by
  fun_induction takeSuffixes base cs with
  | case1 base =>
    cases h
    exact ⟨[], rfl, rfl⟩
  | case2 | case4 | case5 | case8 => cases h
  | case3 base cs name rest htaken hlen ih =>
    obtain ⟨n, rfl, rfl, -⟩ := takeName_inv htaken
    obtain ⟨ss, rfl, rfl⟩ := ih h
    exact ⟨.member n :: ss, rfl, rfl⟩
  | case6 base cs closing rest hclosed hlen key hkey ih =>
    obtain ⟨ss, rfl, rfl⟩ := ih h
    have hclosing : closing = ']' := by
      have hhead := List.head_dropWhile_not (p := (· != ']')) (l := cs) (by simp [hclosed])
      simpa [hclosed] using hhead
    have hopen : ']' ∉ cs.takeWhile (· != ']') := fun hmem => by simpa using List.mem_takeWhile_imp hmem
    let k : RawKey := ⟨cs.takeWhile (· != ']'), hopen, notBlank_of_keyOf? hkey⟩
    have hk : k.key = key := Option.some.inj ((keyOf?_chars k).symm.trans hkey)
    refine ⟨.index k :: ss, ?_, by rw [← hk]; rfl⟩
    rw [← List.takeWhile_append_dropWhile (p := (· != ']')) (l := cs), hclosed, hclosing]
    simp [Suffix.written, k]
  | case7 base cs ih =>
    obtain ⟨ss, rfl, rfl⟩ := ih h
    exact ⟨.result :: ss, rfl, rfl⟩

theorem suffixes_inj {ss ss' : List Suffix} (h : ss.flatMap Suffix.written = ss'.flatMap Suffix.written) : ss = ss' := by
  induction ss generalizing ss' with
  | nil =>
    cases ss' with
    | nil => rfl
    | cons s ss' => cases s <;> simp [Suffix.written] at h
  | cons s ss ih =>
    cases ss' with
    | nil => cases s <;> simp [Suffix.written] at h
    | cons s' ss' =>
      cases s <;> cases s' <;> simp only [List.flatMap_cons, Suffix.written, List.cons_append, List.cons.injEq,
        Char.reduceEq, false_and, true_and, List.nil_append, List.append_assoc] at h
      case member.member n m =>
        obtain ⟨rfl, hrest⟩ := chars_append_inj (startsSuffix_written ss).stops (startsSuffix_written ss').stops h
        rw [ih hrest]
      case result.result => rw [ih h]
      case index.index k l =>
        have htake := (takeWhile_chars k (ss.flatMap Suffix.written)).1
        have hdrop := (takeWhile_chars k (ss.flatMap Suffix.written)).2
        rw [h, (takeWhile_chars l (ss'.flatMap Suffix.written)).1] at htake
        rw [h, (takeWhile_chars l (ss'.flatMap Suffix.written)).2] at hdrop
        rw [RawKey.ext htake, ih (List.cons.inj hdrop).2.symm]

/-! ### Whole patterns -/

theorem read_written (f : Form) : read f.written = .ok f.target := by
  have hsuffix := startsSuffix_written f.suffixes
  have hne : f.written.isEmpty = false := by simp [Form.written, f.first.nonempty]
  rw [read, hne, Form.written, takeName_chars f.first (stops_segments f.more hsuffix)]
  simp only [Bool.false_eq_true, if_false, takeSegments_written f.more hsuffix]
  exact takeSuffixes_written f.suffixes _

theorem read_inv {cs : List Char} {t : Target} (h : read cs = .ok t) : ∃ f : Form, f.written = cs ∧ f.target = t := by
  unfold read at h
  split at h
  · cases h
  split at h
  · cases h
  · rename_i name rest htaken
    cases hmore : takeSegments rest with
    | error e =>
      rw [hmore] at h
      cases h
    | ok r =>
      rw [hmore] at h
      obtain ⟨n, rfl, rfl, -⟩ := takeName_inv htaken
      obtain ⟨names, rfl, hnames⟩ := takeSegments_inv hmore
      obtain ⟨ss, hss, rfl⟩ := takeSuffixes_inv h
      exact ⟨⟨n, names, ss⟩, by rw [Form.written, hss], by rw [hnames]; rfl⟩

/-- No text is two patterns. -/
theorem written_inj {f g : Form} (h : f.written = g.written) : f = g := by
  have hf := startsSuffix_written f.suffixes
  have hg := startsSuffix_written g.suffixes
  obtain ⟨hfirst, hrest⟩ := chars_append_inj (stops_segments f.more hf) (stops_segments g.more hg) h
  have hsegments := takeSegments_written f.more hf
  rw [hrest, takeSegments_written g.more hg] at hsegments
  obtain ⟨hmore, hsuffixes⟩ := Prod.mk.inj (Except.ok.inj hsegments)
  exact Form.ext hfirst ((List.map_inj_right fun _ _ => text_inj).mp hmore.symm) (suffixes_inj hsuffixes.symm)

/-- A text is a pattern exactly if it is a form with blanks around it, of which there is then only one. The pattern has
the target of the form and the text without the blanks. A refusal gives the text back. -/
theorem parse_iff_written (s : String) :
    (∀ p, parse s = .ok p ↔ ∃ f : Form, f.written = trimBlanks s.toList ∧ p = ⟨trim s, f.target⟩) ∧
      (∀ f g : Form, f.written = trimBlanks s.toList → g.written = trimBlanks s.toList → f = g) ∧
      ∀ e, parse s = .error e → e.text = s := by
  refine ⟨fun p => ⟨fun h => ?_, ?_⟩, fun f g hf hg => written_inj (hf.trans hg.symm), fun e h => ?_⟩
  · unfold parse at h
    split at h <;> cases h
    obtain ⟨f, hf, rfl⟩ := read_inv ‹_›
    exact ⟨f, hf, rfl⟩
  · rintro ⟨f, hf, rfl⟩
    rw [parse, ← hf, read_written]
  · unfold parse at h
    split at h <;> cases h
    rfl

end CallProbe.Call.Pattern
