import CallProbe.Files.Walk
import CallProbe.Proofs.Files.Lookup

/-! # What a walk finds

A walk finds what is below its start and is reached without being left out on the way (`mem_run`): whether an entry is left
out is said by the rules of the directories above it, wherever the walk started (`Walk.leaves`). -/

namespace CallProbe.Files

open Entry

/-- An entry as a walk gives it: without what is in it. -/
def Entry.shallow : Entry → Entry
  | file n f => file n f
  | dir n _ => dir n []

@[simp] theorem Entry.content_shallow (e : Entry) : e.shallow.content = e.content := by
  cases e <;> rfl

namespace Walk

variable {w : Walk} {top e x : Entry} {start path names rest p : List String} {n m d : String} {es : List Entry} {rules : List Rules}
  {atStart : Bool}

/-- Whether a walk leaves out what names lead to, by the rules of the directories above it or because of where it starts. -/
def leaves (w : Walk) (top : Entry) (start names : List String) : Bool :=
  w.skips (rulesAbove top names) names (top.isDirAt names) ||
    (names.length == start.length + 1 && w.leavesOut (names.getLast?.getD ""))

/-- Whether a walk leaves out nothing on the way to what names lead to. -/
def Reaches (w : Walk) (top : Entry) (start names : List String) : Prop :=
  ∀ p, start <+: p → p ≠ start → p <+: names → w.leaves top start p = false

/-- The entries on the way are the beginnings of the names that are longer than those of the start. -/
theorem reaches_iff_inits (hstart : start <+: names) :
    w.Reaches top start names ↔ ∀ p ∈ names.inits, start.length < p.length → w.leaves top start p = false := by
  constructor
  · intro h p hp hlong
    have hpn : p <+: names := (List.mem_inits _ _).1 hp
    have hne : p ≠ start := fun heq => by rw [heq] at hlong; exact lt_irrefl _ hlong
    exact h p (List.prefix_of_prefix_length_le hstart hpn hlong.le) hne hpn
  · intro h p hp hne hpn
    exact h p ((List.mem_inits _ _).2 hpn) (lt_of_le_of_ne hp.length_le fun heq => hne (hp.eq_of_length heq).symm)

theorem rulesAbove_concat (h : top.at? path = .ok (.dir d es)) :
    rulesAbove top (path ++ [n]) = Rules.of path.length es :: rulesAbove top path := by
  unfold rulesAbove
  rw [List.length_append, List.length_singleton, List.range_succ, List.reverse_append, List.reverse_singleton,
    List.singleton_append, List.filterMap_cons]
  have htake : ∀ k ∈ (List.range path.length).reverse, (path ++ [n]).take k = path.take k := by
    intro k hk
    have hlt : k < path.length := by simpa using hk
    exact List.take_append_of_le_length hlt.le
  rw [List.take_left, h]
  dsimp only
  congr 1
  exact List.filterMap_congr fun k hk => by rw [htake k hk]

/-! ### One directory -/

theorem mem_entries : (names, x) ∈ w.entries rules atStart path es ↔ ∃ e ∈ es, (names, x) ∈ w.entry rules atStart path e := by
  induction es with
  | nil => simp [entries]
  | cons e es ih => simp only [entries, List.mem_append, ih, List.exists_mem_cons_iff]

/-- What is found inside an entry. -/
def inside (w : Walk) (rules : List Rules) (path : List String) : Entry → List (List String × Entry)
  | .file _ _ => []
  | .dir n es => w.entries (Rules.of (path ++ [n]).length es :: rules) false (path ++ [n]) es

theorem mem_entry : (names, x) ∈ w.entry rules atStart path e ↔
    w.skips rules (path ++ [e.name]) e.isDir = false ∧ (atStart = true → w.leavesOut e.name = false) ∧
      (names = path ++ [e.name] ∧ x = e.shallow ∨ (names, x) ∈ w.inside rules path e) := by
  cases e with
  | file n f =>
    simp only [entry, inside, Entry.name, Entry.isDir, Entry.shallow]
    cases hskip : w.skips rules (path ++ [n]) false <;> cases hout : w.leavesOut n <;> cases atStart <;> simp
  | dir n es =>
    simp only [entry, inside, Entry.name, Entry.isDir, Entry.shallow]
    cases hskip : w.skips rules (path ++ [n]) true <;> cases hout : w.leavesOut n <;> cases atStart <;> simp

mutual

theorem names_of_mem_entry : ∀ (e : Entry) {rules atStart path}, (names, x) ∈ w.entry rules atStart path e →
    ∃ rest, names = path ++ e.name :: rest
  | .file n f, rules, atStart, path, h => by
    obtain ⟨-, -, ⟨rfl, -⟩ | h⟩ := mem_entry.1 h
    · exact ⟨[], rfl⟩
    · cases h
  | .dir n es, rules, atStart, path, h => by
    obtain ⟨-, -, ⟨rfl, -⟩ | h⟩ := mem_entry.1 h
    · exact ⟨[], rfl⟩
    · obtain ⟨m, rest, rfl⟩ := names_of_mem_entries es h
      exact ⟨m :: rest, by simp [Entry.name]⟩

theorem names_of_mem_entries : ∀ (es : List Entry) {rules atStart path}, (names, x) ∈ w.entries rules atStart path es →
    ∃ n rest, names = path ++ n :: rest
  | [], rules, atStart, path, h => by cases h
  | e :: es, rules, atStart, path, h => by
    rcases List.mem_append.1 h with h | h
    · obtain ⟨rest, rfl⟩ := names_of_mem_entry e h
      exact ⟨e.name, rest, rfl⟩
    · exact names_of_mem_entries es h

end

/-- Where no name stands twice, what is found below a directory is found below the entry under its first name. -/
theorem mem_entries_cons (hdistinct : allDistinct es = true) :
    (path ++ n :: rest, x) ∈ w.entries rules atStart path es ↔
      ∃ e, child? n es = some e ∧ (path ++ n :: rest, x) ∈ w.entry rules atStart path e := by
  rw [mem_entries]
  constructor
  · rintro ⟨e, he, h⟩
    obtain ⟨r, hr⟩ := names_of_mem_entry e h
    obtain ⟨rfl, rfl⟩ : n = e.name ∧ rest = r := by simpa using hr
    exact ⟨e, child?_of_mem hdistinct he, h⟩
  · rintro ⟨e, he, h⟩
    exact ⟨e, child?_mem he, h⟩

/-! ### Each entry once -/

mutual

theorem nodup_entry : ∀ (e : Entry) {rules atStart path}, e.isDistinct = true →
    (w.entry rules atStart path e).Pairwise (fun a b => a.1 ≠ b.1)
  | .file n f, rules, atStart, path, h => by
    unfold entry
    split
    · exact .nil
    · exact List.pairwise_singleton _ _
  | .dir n es, rules, atStart, path, h => by
    unfold entry
    dsimp only
    split
    · exact .nil
    · refine List.pairwise_cons.2 ⟨fun (names, x) hx heq => ?_, nodup_entries es h⟩
      obtain ⟨m, rest, rfl⟩ := names_of_mem_entries es hx
      simp at heq

theorem nodup_entries : ∀ (es : List Entry) {rules atStart path}, allDistinct es = true →
    (w.entries rules atStart path es).Pairwise (fun a b => a.1 ≠ b.1)
  | [], rules, atStart, path, h => .nil
  | e :: es, rules, atStart, path, h => by
    simp only [allDistinct, Bool.and_eq_true, List.all_eq_true, bne_iff_ne, ne_eq] at h
    unfold entries
    refine List.pairwise_append.2 ⟨nodup_entry e h.1.2, nodup_entries es h.2, fun (names, x) hx (names', y) hy heq => ?_⟩
    obtain ⟨rest, rfl⟩ := names_of_mem_entry e hx
    obtain ⟨e', he', hy⟩ := mem_entries.1 hy
    obtain ⟨rest', rfl⟩ := names_of_mem_entry e' hy
    simp only [List.append_cancel_left_eq, List.cons.injEq] at heq
    exact h.1.1 e' he' heq.1.symm

end

/-- A walk gives nothing twice. -/
theorem nodup_run {found : List (List String × Entry)} (hdistinct : top.isDistinct = true) (h : w.run top start = .ok found) :
    found.Pairwise fun a b => a.1 ≠ b.1 := by
  unfold run at h
  cases hat : top.at? start with
  | error err =>
    rw [hat] at h
    cases h
  | ok e =>
    rw [hat] at h
    cases e with
    | file n f =>
      cases h
      exact List.pairwise_singleton _ _
    | dir n es =>
      cases h
      exact nodup_entries es (isDistinct_at? hdistinct hat)

/-! ### The whole tree -/

theorem at?_concat (h : top.at? path = .ok (.dir d es)) :
    top.at? (path ++ n :: names) = match child? n es with
      | none => .error .missing
      | some e => e.at? names := by
  rw [at?_append, h]
  rfl

theorem isDirAt_of_at? (h : top.at? names = .ok e) : top.isDirAt names = e.isDir := by
  unfold isDirAt
  rw [h]
  cases e <;> rfl

/-- What is found from a directory: what is reached without being left out on the way. -/
theorem mem_entries_iff (hat : top.at? path = .ok (.dir d es)) (hdistinct : top.isDistinct = true) :
    (path ++ n :: names, x) ∈ w.entries (Rules.of path.length es :: rulesAbove top path) atStart path es ↔
      (∃ e, top.at? (path ++ n :: names) = .ok e ∧ x = e.shallow) ∧ (atStart = true → w.leavesOut n = false) ∧
        ∀ p, p <+: names → w.skips (rulesAbove top (path ++ n :: p)) (path ++ n :: p) (top.isDirAt (path ++ n :: p)) = false := by
  induction names generalizing path n d es atStart with
  | nil =>
    rw [mem_entries_cons (isDistinct_at? hdistinct hat), at?_concat hat]
    cases hc : child? n es with
    | none => simp
    | some e =>
      obtain rfl := child?_name hc
      have hhere : top.at? (path ++ [e.name]) = .ok e := by rw [at?_concat hat, hc]; rfl
      -- What is found inside an entry has a longer path.
      have hnot : (path ++ [e.name], x) ∉ w.inside (Rules.of path.length es :: rulesAbove top path) path e := by
        intro h
        cases e with
        | file m f => cases h
        | dir m inner =>
          obtain ⟨k, rest, hk⟩ := names_of_mem_entries inner h
          simp [Entry.name] at hk
      simp only [Option.some.injEq, exists_eq_left', mem_entry, hnot, or_false, true_and, List.prefix_nil, forall_eq,
        isDirAt_of_at? hhere, rulesAbove_concat hat, at?_nil, Except.ok.injEq]
      tauto
  | cons m rest ih =>
    rw [mem_entries_cons (isDistinct_at? hdistinct hat), at?_concat hat]
    cases hc : child? n es with
    | none => simp
    | some e =>
      obtain rfl := child?_name hc
      have hhere : top.at? (path ++ [e.name]) = .ok e := by rw [at?_concat hat, hc]; rfl
      have hlong : path ++ e.name :: m :: rest ≠ path ++ [e.name] := by simp
      cases e with
      | file k f => simp [mem_entry, inside]
      | dir k inner =>
        simp only [Entry.name] at hc hhere hlong
        -- The rest is found by a walk that starts in the directory and leaves out no first names.
        have hinside : (path ++ k :: m :: rest, x) ∈ w.inside (Rules.of path.length es :: rulesAbove top path) path (.dir k inner) ↔
            (∃ e, top.at? (path ++ k :: m :: rest) = .ok e ∧ x = e.shallow) ∧ ∀ p, p <+: rest →
              w.skips (rulesAbove top (path ++ k :: m :: p)) (path ++ k :: m :: p) (top.isDirAt (path ++ k :: m :: p)) = false := by
          have h := @ih (path ++ [k]) m k inner false hhere
          simp only [rulesAbove_concat hat, List.append_assoc, List.singleton_append, Bool.false_eq_true, false_implies,
            true_and] at h
          exact h
        have hfirst : w.skips (rulesAbove top (path ++ [k])) (path ++ [k]) (top.isDirAt (path ++ [k])) =
            w.skips (Rules.of path.length es :: rulesAbove top path) (path ++ [k]) true := by
          rw [isDirAt_of_at? hhere, rulesAbove_concat hat]
          rfl
        have hat' : top.at? (path ++ k :: m :: rest) = (Entry.dir k inner).at? (m :: rest) := by
          rw [at?_concat hat, hc]
        simp only [Option.some.injEq, exists_eq_left', mem_entry, Entry.name, Entry.isDir, hlong, false_and, false_or, hinside,
          List.prefix_cons_iff, hat']
        constructor
        · rintro ⟨hskip, hout, hx, hrest⟩
          refine ⟨hx, hout, ?_⟩
          rintro p (rfl | ⟨t, rfl, ht⟩)
          · rw [hfirst]
            exact hskip
          · exact hrest t ht
        · rintro ⟨hx, hout, hrest⟩
          exact ⟨hfirst ▸ hrest [] (.inl rfl), hout, hx, fun p hp => hrest (m :: p) (.inr ⟨p, rfl, hp⟩)⟩

/-- The directories and entries that a walk goes through are those that it enters by a first name. -/
theorem reaches_iff : w.Reaches top start (start ++ n :: names) ↔ w.leavesOut n = false ∧
    ∀ p, p <+: names → w.skips (rulesAbove top (start ++ n :: p)) (start ++ n :: p) (top.isDirAt (start ++ n :: p)) = false := by
  have hfirst : w.leaves top start (start ++ [n]) = (w.skips (rulesAbove top (start ++ [n])) (start ++ [n])
      (top.isDirAt (start ++ [n])) || w.leavesOut n) := by
    simp [leaves]
  have hmore : ∀ m p, w.leaves top start (start ++ n :: m :: p) =
      w.skips (rulesAbove top (start ++ n :: m :: p)) (start ++ n :: m :: p) (top.isDirAt (start ++ n :: m :: p)) := by
    intro m p
    simp [leaves]
  constructor
  · intro h
    have hstart : w.leaves top start (start ++ [n]) = false :=
      h (start ++ [n]) (List.prefix_append _ _) (by simp) (by simp [List.prefix_append_right_inj])
    rw [hfirst, Bool.or_eq_false_iff] at hstart
    refine ⟨hstart.2, fun p hp => ?_⟩
    cases p with
    | nil => exact hstart.1
    | cons m p =>
      rw [← hmore]
      exact h _ (List.prefix_append _ _) (by simp) (by simpa [List.prefix_append_right_inj] using hp)
  · rintro ⟨hout, h⟩ p ⟨r, rfl⟩ hne hp
    obtain ⟨k, ks, rfl⟩ := List.exists_cons_of_ne_nil fun hr : r = [] => hne (by rw [hr, List.append_nil])
    obtain ⟨rfl, hks⟩ : k = n ∧ ks <+: names := by simpa [List.prefix_append_right_inj] using hp
    cases ks with
    | nil => rw [hfirst, h [] List.nil_prefix, hout]; rfl
    | cons m ks => rw [hmore]; exact h _ hks

/-- A walk finds what is below its start and reached without being left out on the way. -/
theorem mem_run {found : List (List String × Entry)} (hat : top.at? start = .ok (.dir d es)) (hdistinct : top.isDistinct = true)
    (h : w.run top start = .ok found) : (names, x) ∈ found ↔
      start <+: names ∧ names ≠ start ∧ (∃ e, top.at? names = .ok e ∧ x = e.shallow) ∧ w.Reaches top start names := by
  have hfound : found = w.entries (Rules.of start.length es :: rulesAbove top start) true start es := by
    rw [run, hat] at h
    exact (Except.ok.inj h).symm
  subst hfound
  constructor
  · intro hx
    obtain ⟨n, rest, rfl⟩ := names_of_mem_entries es hx
    obtain ⟨he, hout, hskip⟩ := (mem_entries_iff hat hdistinct).1 hx
    exact ⟨List.prefix_append _ _, by simp, he, reaches_iff.2 ⟨hout rfl, hskip⟩⟩
  · rintro ⟨⟨r, rfl⟩, hne, he, hreaches⟩
    obtain ⟨k, ks, rfl⟩ := List.exists_cons_of_ne_nil fun hr : r = [] => hne (by rw [hr, List.append_nil])
    obtain ⟨hout, hskip⟩ := reaches_iff.1 hreaches
    exact (mem_entries_iff hat hdistinct).2 ⟨he, fun _ => hout, hskip⟩

/-- The files that a walk finds. -/
theorem mem_run_file {found : List (List String × Entry)} {f : File} (hat : top.at? start = .ok (.dir d es))
    (hdistinct : top.isDistinct = true) (h : w.run top start = .ok found) :
    (∃ x, (names, x) ∈ found ∧ x.content = some f) ↔
      start <+: names ∧ top.look names = some (some f) ∧ w.Reaches top start names := by
  simp only [mem_run hat hdistinct h, look_eq_some]
  constructor
  · rintro ⟨_, ⟨hstart, -, ⟨e, he, rfl⟩, hreaches⟩, hf⟩
    exact ⟨hstart, ⟨e, he, by rw [← content_shallow, hf]⟩, hreaches⟩
  · rintro ⟨hstart, ⟨e, he, hf⟩, hreaches⟩
    have hne : names ≠ start := by
      rintro rfl
      obtain rfl : .dir d es = e := Except.ok.inj (hat.symm.trans he)
      cases hf
    exact ⟨e.shallow, ⟨hstart, hne, ⟨e, he, rfl⟩, hreaches⟩, by rw [content_shallow, hf]⟩

end Walk

end CallProbe.Files
