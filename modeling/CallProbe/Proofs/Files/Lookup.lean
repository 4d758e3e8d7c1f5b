import CallProbe.Files.Tree
import Mathlib.Data.List.Infix

/-! # What names lead to

A tree as a partial function from names to what is there (`Entry.look`), and what an edit changes of it: the place that
was edited and the directories on the way to it, nothing else (`look_editAt`). Writing and making files and directories
are cases of that. -/

namespace CallProbe.Files.Entry

variable {n m d : String} {names rest q r : List String} {e e' x : Entry} {entries : List Entry} {f g : File}

/-- The file that an entry is, or nothing for a directory. -/
def content : Entry → Option File
  | file _ f => some f
  | dir _ _ => none

/-- What names lead to, if anything: a file, or a directory. -/
def look (names : List String) (e : Entry) : Option (Option File) := (e.at? names).toOption.map content

/-! ### Names -/

@[simp] theorem at?_nil : e.at? [] = .ok e := rfl

@[simp] theorem at?_file_cons : (file m f).at? (n :: rest) = .error .notDirectory := rfl

theorem at?_dir_cons : (dir d entries).at? (n :: rest) =
    match child? n entries with
    | none => .error .missing
    | some e => e.at? rest := rfl

theorem at?_append (p q : List String) (e : Entry) : e.at? (p ++ q) = e.at? p >>= at? q := by
  induction p generalizing e with
  | nil => rfl
  | cons n rest ih =>
    cases e with
    | file m f => rfl
    | dir d entries =>
      rw [List.cons_append, at?_dir_cons, at?_dir_cons]
      cases child? n entries with
      | none => rfl
      | some c => exact ih c

/-- What lies on the way to an entry is a directory. -/
theorem at?_dir_of_append {p q : List String} (hq : q ≠ []) (h : e.at? (p ++ q) = .ok x) :
    ∃ d entries, e.at? p = .ok (dir d entries) := by
  rw [at?_append] at h
  cases hp : e.at? p with
  | error err =>
    rw [hp] at h
    cases h
  | ok y =>
    cases y with
    | dir d entries => exact ⟨d, entries, rfl⟩
    | file m f =>
      rw [hp] at h
      obtain ⟨n, rest, rfl⟩ := List.exists_cons_of_ne_nil hq
      cases h

theorem look_nil : e.look [] = some e.content := rfl

theorem look_file_cons : (file m f).look (n :: rest) = none := rfl

theorem look_dir_cons : (dir d entries).look (n :: rest) = (child? n entries).bind (look rest) := by
  rw [look, at?_dir_cons]
  cases child? n entries <;> rfl

theorem look_empty : (dir d []).look q = if q = [] then some none else none := by
  cases q with
  | nil => rfl
  | cons n rest => exact look_dir_cons

theorem look_append (p q : List String) (e : Entry) : e.look (p ++ q) = (e.at? p).toOption.bind (look q) := by
  rw [look, at?_append]
  cases e.at? p <;> rfl

theorem look_eq_some {k : Option File} : e.look q = some k ↔ ∃ x, e.at? q = .ok x ∧ x.content = k := by
  unfold look
  cases e.at? q with
  | error err => simp [Except.toOption]
  | ok y => simp [Except.toOption]

theorem look_eq_file : e.look q = some (some f) ↔ e.file? q = .ok f := by
  unfold look file?
  cases e.at? q with
  | error err => simp [Except.toOption, bind, Except.bind]
  | ok y => cases y <;> simp [Except.toOption, content, bind, Except.bind]

theorem look_dir_of_append {p q : List String} {k : Option File} (hq : q ≠ []) (h : e.look (p ++ q) = some k) :
    e.look p = some none := by
  obtain ⟨x, hx, -⟩ := look_eq_some.1 h
  obtain ⟨d, entries, hp⟩ := at?_dir_of_append hq hx
  exact look_eq_some.2 ⟨_, hp, rfl⟩

/-- What lies above something that is there is a directory. -/
theorem look_above {k : Option File} (h : e.look names = some k) (hq : q <+: names) : q = names ∨ e.look q = some none := by
  obtain ⟨r, rfl⟩ := hq
  cases r with
  | nil => exact .inl (List.append_nil q).symm
  | cons m r => exact .inr (look_dir_of_append (List.cons_ne_nil m r) h)

/-- Names lead nowhere because something is not there, unless a file is on the way. -/
theorem at?_missing (hway : ∀ p q, names = p ++ q → q ≠ [] → ∀ f, e.look p ≠ some (some f)) (h : e.look names = none) :
    e.at? names = .error .missing := by
  induction names generalizing e with
  | nil => cases h
  | cons n rest ih =>
    cases e with
    | file m f => exact absurd rfl (hway [] (n :: rest) rfl (List.cons_ne_nil _ _) f)
    | dir d entries =>
      rw [at?_dir_cons]
      rw [look_dir_cons] at h
      cases hc : child? n entries with
      | none => rfl
      | some c =>
        rw [hc] at h
        refine ih (fun p q hp hq f hf => hway (n :: p) q (by rw [hp]; rfl) hq f ?_) h
        rw [look_dir_cons, hc]
        exact hf

/-! ### Directories without a name twice -/

mutual

/-- Whether no directory has two entries of one name. -/
def isDistinct : Entry → Bool
  | file _ _ => true
  | dir _ entries => allDistinct entries

def allDistinct : List Entry → Bool
  | [] => true
  | e :: es => es.all (·.name != e.name) && e.isDistinct && allDistinct es

end

theorem child?_cons : child? n (e :: entries) = if e.name = n then some e else child? n entries := by
  unfold child?
  by_cases h : e.name = n <;> simp [h]

theorem child?_name (h : child? n entries = some e) : e.name = n := by
  simpa using List.find?_some h

theorem child?_mem (h : child? n entries = some e) : e ∈ entries := List.mem_of_find?_eq_some h

/-- In a directory without a name twice, an entry is found under its name. -/
theorem child?_of_mem (h : allDistinct entries = true) (he : e ∈ entries) : child? e.name entries = some e := by
  induction entries with
  | nil => cases he
  | cons x xs ih =>
    simp only [allDistinct, Bool.and_eq_true, List.all_eq_true, bne_iff_ne, ne_eq] at h
    rw [child?_cons]
    rcases List.mem_cons.1 he with rfl | he
    · rw [if_pos rfl]
    · rw [if_neg (fun heq => h.1.1 e he heq.symm)]
      exact ih h.2 he

theorem isDistinct_of_mem (h : allDistinct entries = true) (he : e ∈ entries) : e.isDistinct = true := by
  induction entries with
  | nil => cases he
  | cons x xs ih =>
    simp only [allDistinct, Bool.and_eq_true] at h
    rcases List.mem_cons.1 he with rfl | he
    · exact h.1.2
    · exact ih h.2 he

theorem isDistinct_at? (h : e.isDistinct = true) (hx : e.at? names = .ok x) : x.isDistinct = true := by
  induction names generalizing e with
  | nil =>
    cases hx
    exact h
  | cons n rest ih =>
    cases e with
    | file m f => cases hx
    | dir d entries =>
      rw [at?_dir_cons] at hx
      cases hc : child? n entries with
      | none =>
        rw [hc] at hx
        cases hx
      | some c =>
        rw [hc] at hx
        exact ih (isDistinct_of_mem h (child?_mem hc)) hx

/-- What names lead to has the last of them. -/
theorem at?_name (hnames : names ≠ []) (h : e.at? names = .ok x) : names.getLast? = some x.name := by
  induction names generalizing e with
  | nil => exact absurd rfl hnames
  | cons n rest ih =>
    cases e with
    | file m f => cases h
    | dir d entries =>
      rw [at?_dir_cons] at h
      cases hc : child? n entries with
      | none =>
        rw [hc] at h
        cases h
      | some c =>
        rw [hc] at h
        cases rest with
        | nil =>
          cases h
          rw [child?_name hc]
          rfl
        | cons m rest =>
          rw [List.getLast?_cons_cons]
          exact ih (List.cons_ne_nil m rest) h

/-! ### Edits -/

theorem child?_replace : child? m (entries.map fun y => if y.name == x.name then x else y) =
    if m = x.name then (child? m entries).map fun _ => x else child? m entries := by
  induction entries with
  | nil => simp [child?]
  | cons y ys ih =>
    rw [List.map_cons, child?_cons, child?_cons, ih]
    by_cases hy : y.name = x.name
    · by_cases hm : m = x.name
      · simp [hy, hm]
      · have hne : x.name ≠ m := fun h => hm h.symm
        simp [hy, hm, hne]
    · by_cases hm : m = x.name
      · have hne : y.name ≠ m := fun h => hy (h.trans hm)
        simp [hy, hm]
      · simp [hy, hm]

theorem child?_concat : child? m (entries ++ [x]) = (child? m entries).or (if x.name = m then some x else none) := by
  unfold child?
  rw [List.find?_append]
  by_cases h : x.name = m <;> simp [h]

theorem child?_put : child? m (put x entries) = if m = x.name then some x else child? m entries := by
  unfold put
  split
  · rename_i h
    obtain ⟨c, hc⟩ := Option.isSome_iff_exists.1 h
    rw [child?_replace]
    split
    · rename_i hm
      rw [hm, hc]
      rfl
    · rfl
  · rename_i h
    rw [child?_concat]
    by_cases hm : m = x.name
    · rw [hm, Option.not_isSome_iff_eq_none.1 h, if_pos rfl]
      rfl
    · rw [if_neg hm, if_neg (fun heq => hm heq.symm), Option.or_none]

/-- What an edit does one name further down. -/
theorem editAt_inv {make : Bool} {edit : Option Entry → Except AccessError Entry}
    (h : editAt make edit (n :: rest) e = .ok e') :
    ∃ d entries x, e = dir d entries ∧ e' = dir d (put x entries) ∧
      (rest = [] ∧ edit (child? n entries) = .ok x ∨
        rest ≠ [] ∧ editAt make edit rest ((child? n entries).getD (dir n [])) = .ok x) := by
  cases e with
  | file m f =>
    cases rest <;> cases h
  | dir d entries =>
    cases rest with
    | nil =>
      simp only [editAt] at h
      cases hx : edit (child? n entries) with
      | error err =>
        rw [hx] at h
        cases h
      | ok x =>
        rw [hx] at h
        cases h
        exact ⟨d, entries, x, rfl, rfl, .inl ⟨rfl, hx⟩⟩
    | cons k ks =>
      simp only [editAt] at h
      cases hc : child? n entries with
      | none =>
        rw [hc] at h
        cases make with
        | false => cases h
        | true =>
          cases hx : editAt true edit (k :: ks) (dir n []) with
          | error err =>
            simp only [hx, if_true] at h
            cases h
          | ok x =>
            simp only [hx, if_true] at h
            cases h
            exact ⟨d, entries, x, rfl, rfl, .inr ⟨List.cons_ne_nil _ _, hc ▸ hx⟩⟩
      | some c =>
        rw [hc] at h
        cases hx : editAt make edit (k :: ks) c with
        | error err =>
          simp only [hx] at h
          cases h
        | ok x =>
          simp only [hx] at h
          cases h
          exact ⟨d, entries, x, rfl, rfl, .inr ⟨List.cons_ne_nil _ _, hc ▸ hx⟩⟩

theorem editAt_name {make : Bool} {edit : Option Entry → Except AccessError Entry} (hnames : names ≠ [])
    (h : editAt make edit names e = .ok e') : e'.name = e.name := by
  obtain ⟨n, rest, rfl⟩ := List.exists_cons_of_ne_nil hnames
  obtain ⟨d, entries, x, rfl, rfl, -⟩ := editAt_inv h
  rfl

theorem toOption_at?_child (d : String) (entries : List Entry) (n : String) :
    ((dir d entries).at? [n]).toOption = child? n entries := by
  rw [at?_dir_cons]
  cases child? n entries <;> rfl

/-- What an edit goes on with below a name is empty where nothing is of that name, like what names lead to there. -/
theorem toOption_at?_below (d : String) (entries : List Entry) (n : String) (hrest : rest ≠ []) :
    (((child? n entries).getD (dir n [])).at? rest).toOption = ((dir d entries).at? (n :: rest)).toOption := by
  obtain ⟨m, q, rfl⟩ := List.exists_cons_of_ne_nil hrest
  rw [at?_dir_cons]
  cases child? n entries <;> rfl

/-- Whether an edit leaves something under the last of some names. -/
def Renames (edit : Option Entry → Except AccessError Entry) (names : List String) : Prop :=
  ∀ o x, edit o = .ok x → (∀ y, o = some y → some y.name = names.getLast?) → some x.name = names.getLast?

/-- An edit changes the place that names lead to, and makes directories on the way to it. -/
theorem look_editAt {make : Bool} {edit : Option Entry → Except AccessError Entry} (hnames : names ≠ [])
    (hedit : Renames edit names) (h : editAt make edit names e = .ok e') :
    ∃ x, edit (e.at? names).toOption = .ok x ∧ ∀ q, e'.look q =
      if names <+: q then x.look (q.drop names.length) else if q <+: names then some none else e.look q := by
  induction names generalizing e e' with
  | nil => exact absurd rfl hnames
  | cons n rest ih =>
    obtain ⟨d, entries, c, rfl, rfl, ⟨rfl, hc⟩ | ⟨hrest, hc⟩⟩ := editAt_inv h
    · have hname : c.name = n := by
        have := hedit _ c hc fun y hy => by rw [child?_name hy]; rfl
        simpa using this
      refine ⟨c, toOption_at?_child d entries n ▸ hc, fun q => ?_⟩
      cases q with
      | nil => simp [look_nil, content]
      | cons m q =>
        rw [look_dir_cons, look_dir_cons, child?_put, hname]
        by_cases hm : m = n
        · subst hm
          simp
        · have hne : ¬n = m := fun heq => hm heq.symm
          simp [hm, hne]
    · have hstart : ((child? n entries).getD (dir n [])).name = n := by
        cases hc : child? n entries with
        | none => rfl
        | some y => exact child?_name hc
      have hname : c.name = n := (editAt_name hrest hc).trans hstart
      have hlast : (n :: rest).getLast? = rest.getLast? := by
        obtain ⟨m, q, rfl⟩ := List.exists_cons_of_ne_nil hrest
        rfl
      obtain ⟨x, hx, hlook⟩ := ih hrest (fun o x => hlast ▸ hedit o x) hc
      refine ⟨x, toOption_at?_below d entries n hrest ▸ hx, fun q => ?_⟩
      cases q with
      | nil => simp [look_nil, content]
      | cons m q =>
        rw [look_dir_cons, look_dir_cons, child?_put, hname]
        by_cases hm : m = n
        · subst hm
          rw [if_pos rfl, Option.bind_some, hlook q]
          simp only [List.cons_prefix_cons, true_and, List.length_cons, List.drop_succ_cons]
          split
          · rfl
          · split
            · rfl
            · rename_i hq
              -- Off the way of the edit, a directory that it has made is still empty.
              cases child? m entries with
              | none =>
                rw [Option.getD_none, look_empty, if_neg fun hnil : q = [] => hq (hnil ▸ List.nil_prefix)]
                rfl
              | some y => rfl
        · have hne : ¬n = m := fun heq => hm heq.symm
          simp [hm, hne]

/-- An edit that makes directories succeeds if no file is on the way and what names lead to can be edited. -/
theorem editAt_ok {edit : Option Entry → Except AccessError Entry}
    (hway : ∀ p q, names = p ++ q → q ≠ [] → ∀ f, e.look p ≠ some (some f)) (hedit : edit (e.at? names).toOption = .ok x) :
    ∃ e', editAt true edit names e = .ok e' := by
  induction names generalizing e with
  | nil => exact ⟨x, hedit⟩
  | cons n rest ih =>
    cases e with
    | file m f => exact absurd rfl (hway [] (n :: rest) rfl (List.cons_ne_nil _ _) f)
    | dir d entries =>
      cases rest with
      | nil =>
        rw [toOption_at?_child] at hedit
        exact ⟨dir d (put x entries), by simp only [editAt, hedit]; rfl⟩
      | cons m ms =>
        have hinside : ∀ p q, m :: ms = p ++ q → q ≠ [] → ∀ f, ((child? n entries).getD (dir n [])).look p ≠ some (some f) := by
          intro p q hp hq f hlook
          cases hc : child? n entries with
          | none =>
            rw [hc, Option.getD_none, look_empty] at hlook
            split at hlook <;> cases hlook
          | some c =>
            refine hway (n :: p) q (by rw [hp]; rfl) hq f ?_
            rw [look_dir_cons, hc]
            rw [hc] at hlook
            exact hlook
        obtain ⟨e', he'⟩ := ih hinside (toOption_at?_below d entries n (List.cons_ne_nil m ms) ▸ hedit)
        cases hc : child? n entries with
        | none =>
          rw [hc, Option.getD_none] at he'
          exact ⟨dir d (put e' entries), by simp only [editAt, hc, he']; rfl⟩
        | some c =>
          rw [hc, Option.getD_some] at he'
          exact ⟨dir d (put e' entries), by simp only [editAt, hc, he']; rfl⟩

/-- An edit does not go through files. -/
theorem look_of_editAt {make : Bool} {edit : Option Entry → Except AccessError Entry} (h : editAt make edit names e = .ok e')
    {p q : List String} (hp : names = p ++ q) (hq : q ≠ []) : e.look p ≠ some (some f) := by
  induction names generalizing e e' p with
  | nil => exact absurd (List.append_eq_nil_iff.1 hp.symm).2 hq
  | cons n rest ih =>
    obtain ⟨d, entries, c, rfl, rfl, hrest⟩ := editAt_inv h
    cases p with
    | nil => simp [look_nil, content]
    | cons m p =>
      obtain ⟨rfl, rfl⟩ : n = m ∧ rest = p ++ q := by simpa using hp
      rw [look_dir_cons]
      rcases hrest with ⟨hnil, -⟩ | ⟨-, hc⟩
      · exact absurd (List.append_eq_nil_iff.1 hnil).2 hq
      · cases hy : child? n entries with
        | none => simp
        | some y =>
          rw [hy] at hc
          exact ih hc rfl

/-- What an edit is asked about, if something is there. -/
theorem edit_of_editAt {make : Bool} {edit : Option Entry → Except AccessError Entry} (h : editAt make edit names e = .ok e')
    (hx : e.at? names = .ok x) : ∃ y, edit (some x) = .ok y := by
  induction names generalizing e e' with
  | nil =>
    cases hx
    exact ⟨e', h⟩
  | cons n rest ih =>
    obtain ⟨d, entries, c, rfl, rfl, hrest⟩ := editAt_inv h
    rw [at?_dir_cons] at hx
    cases hy : child? n entries with
    | none =>
      rw [hy] at hx
      cases hx
    | some y =>
      rw [hy] at hx hrest
      rcases hrest with ⟨rfl, hc⟩ | ⟨-, hc⟩
      · cases hx
        exact ⟨c, hc⟩
      · exact ih hc hx

/-! ### Files and directories that are made -/

section Files

theorem not_append_cons_above (n : String) (rest : List String) : ¬names ++ n :: rest <+: names := by
  intro hle
  have hlength := hle.length_le
  rw [List.length_append, List.length_cons] at hlength
  omega

variable {make : Bool} {edit : Option Entry → Except AccessError Entry} {s : String}

/-- What names lead to after an edit that refuses directories has put a file. -/
theorem look_file_editAt (hnames : names ≠ []) (hedit : ∀ o x, edit o = .ok x → ∃ f, x = file (names.getLast?.getD "") f)
    (hdir : ∀ d es x, edit (some (dir d es)) ≠ .ok x) (h : editAt make edit names e = .ok e') :
    ∃ f, edit (e.at? names).toOption = .ok (file (names.getLast?.getD "") f) ∧
      ∀ q, e'.look q = if q = names then some (some f) else if q <+: names then some none else e.look q := by
  have hrenames : Renames edit names := by
    intro o x hx _
    obtain ⟨f, rfl⟩ := hedit o x hx
    rw [List.getLast?_eq_some_getLast hnames]
    rfl
  obtain ⟨y, hy, hlook⟩ := look_editAt hnames hrenames h
  obtain ⟨f, rfl⟩ := hedit _ y hy
  refine ⟨f, hy, fun q => ?_⟩
  rw [hlook q]
  by_cases hbelow : names <+: q
  · obtain ⟨r, rfl⟩ := hbelow
    rw [if_pos (List.prefix_append _ _), List.drop_left, look_append]
    cases r with
    | nil => simp [look_nil, content]
    | cons k ks =>
      rw [if_neg (by simp), if_neg (not_append_cons_above k ks), look_file_cons]
      cases ho : (e.at? names).toOption with
      | none => rfl
      | some o =>
        cases o with
        | file m g => rfl
        | dir d es =>
          rw [ho] at hy
          exact absurd hy (hdir d es _)
  · have hne : q ≠ names := fun heq => hbelow (heq ▸ List.prefix_refl _)
    rw [if_neg hbelow, if_neg hne]

/-- A file that is put is there, in directories that are made, and nothing else is changed. -/
theorem look_putFile (hnames : names ≠ []) (h : e.putFile names f = .ok e') :
    e'.look q = if q = names then some (some f) else if q <+: names then some none else e.look q := by
  obtain ⟨f', hf, hlook⟩ := look_file_editAt hnames (fun o x hx => by
    split at hx
    · cases hx
    · exact ⟨f, (Except.ok.inj hx).symm⟩) (fun d es x hx => by cases hx) h
  obtain rfl : f = f' := by
    split at hf
    · cases hf
    · injection hf with hf
      injection hf
  exact hlook q

theorem fromUTF8?_toUTF8 (s : String) : String.fromUTF8? s.toUTF8 = some s := by
  unfold String.fromUTF8?
  exact dif_pos s.isValidUTF8

/-- What a file holds after a text was written to it. -/
theorem read_of_write (hread : f.isReadable = true) (h : f.write s = .ok g) : g.read = .ok s := by
  unfold File.write at h
  split at h
  · cases h
    have hkeep : File.isReadable { f with bytes := s.toUTF8 } = true := hread
    unfold File.read
    rw [hkeep, fromUTF8?_toUTF8]
    rfl
  · cases h

/-- A text that is written goes into one file, and no other file is changed. -/
theorem look_writeText (hnames : names ≠ []) (h : e.writeText names s = .ok e') :
    ∃ f, (∀ k, e.look names = some (some k) → k.write s = .ok f) ∧
      ∀ q g, e'.look q = some (some g) ↔ if q = names then g = f else e.look q = some (some g) := by
  obtain ⟨f, hf, hlook⟩ := look_file_editAt hnames (fun o x hx => by
    split at hx
    · exact ⟨_, (Except.ok.inj hx).symm⟩
    · rename_i f
      cases hw : f.write s with
      | error err =>
        rw [hw] at hx
        cases hx
      | ok g =>
        rw [hw] at hx
        exact ⟨g, (Except.ok.inj hx).symm⟩
    · cases hx) (fun d es x hx => by cases hx) h
  refine ⟨f, fun k hk => ?_, fun q g => ?_⟩
  · obtain ⟨y, hy, hcontent⟩ := look_eq_some.1 hk
    cases y with
    | dir d es => cases hcontent
    | file m k' =>
      obtain rfl : k' = k := Option.some.inj hcontent
      rw [hy] at hf
      cases hw : k'.write s with
      | error err =>
        simp only [Except.toOption, hw] at hf
        cases hf
      | ok g =>
        simp only [Except.toOption, hw] at hf
        cases hf
        rfl
  · rw [hlook q]
    split
    · simp [eq_comm]
    · rename_i hne
      split
      · rename_i habove
        obtain ⟨r, hr⟩ := habove
        have hnofile := look_of_editAt h (f := g) hr.symm fun hnil => hne (by rw [← hr, hnil, List.append_nil])
        simp [hnofile]
      · rfl

/-- A file is in the way of directories. -/
theorem look_of_makeDirs (h : e.makeDirs names = .ok e') (hq : q <+: names) (f : File) : e.look q ≠ some (some f) := by
  obtain ⟨r, hr⟩ := hq
  cases r with
  | cons n rest => exact look_of_editAt h hr.symm (List.cons_ne_nil _ _)
  | nil =>
    intro hlook
    obtain rfl : q = names := by simpa using hr
    obtain ⟨y, hy, hcontent⟩ := look_eq_some.1 hlook
    obtain ⟨x, hx⟩ := edit_of_editAt h hy
    cases y with
    | file m g => cases hx
    | dir d es => cases hcontent

/-- Directories that are made are there, and nothing else is changed. -/
theorem look_makeDirs (hnames : names ≠ []) (h : e.makeDirs names = .ok e') :
    e'.look q = if q <+: names then some none else e.look q := by
  obtain ⟨x, hx, hlook⟩ := look_editAt hnames (fun o x hx hname => by
    split at hx
    · cases hx
      rw [List.getLast?_eq_some_getLast hnames]
      rfl
    · cases hx
      exact hname _ rfl
    · cases hx) h
  have hnew : x = dir (names.getLast?.getD "") [] ∧ (e.at? names).toOption = none ∨
      ∃ d es, x = dir d es ∧ (e.at? names).toOption = some (dir d es) := by
    split at hx
    · cases hx
      exact .inl ⟨rfl, by assumption⟩
    · cases hx
      exact .inr ⟨_, _, rfl, by assumption⟩
    · cases hx
  rw [hlook q]
  split
  · rename_i hbelow
    obtain ⟨r, rfl⟩ := hbelow
    rw [List.drop_left, look_append]
    cases r with
    | nil => rcases hnew with ⟨rfl, -⟩ | ⟨d, es, rfl, -⟩ <;> simp [look_nil, content]
    | cons n rest =>
      rw [if_neg (not_append_cons_above n rest)]
      rcases hnew with ⟨rfl, hnone⟩ | ⟨d, es, rfl, hsome⟩
      · rw [hnone]
        rfl
      · rw [hsome]
        rfl
  · rfl

end Files

end CallProbe.Files.Entry
