import CallProbe.Proofs.Names.Callees

/-! # Names of calls as patterns

The text of a call's name is a pattern for the call: it is a form as it is written (`exists_form`), whose target is the
target of the call, except that a key `*` stands for every key there. So it is for names that letters, digits and `_`
make up, and for keys that need no quotes. -/

namespace CallProbe.Call

open Source Source.Parse Text Pattern

/-! ### Keys without quotes -/

/-- A key that stands between brackets as it is. -/
structure IsPlainKey (s : String) : Prop where
  nonempty : s.toList ≠ []
  unclosed : ']' ∉ s.toList
  front : ∀ c ∈ s.toList.head?, isBlank c = false
  back : ∀ c ∈ s.toList.getLast?, isBlank c = false
  unquoted : ∀ inner, s.toList ≠ '"' :: (inner ++ ['"'])

theorem dropWhile_of_head {p : Char → Bool} {cs : List Char} (h : ∀ c ∈ cs.head?, p c = false) : cs.dropWhile p = cs := by
  cases cs with
  | nil => rfl
  | cons c cs => exact List.dropWhile_cons_of_neg (by simp [h c rfl])

theorem trimBlanks_of_ends {cs : List Char} (hfront : ∀ c ∈ cs.head?, isBlank c = false)
    (hback : ∀ c ∈ cs.getLast?, isBlank c = false) : trimBlanks cs = cs := by
  rw [trimBlanks, dropWhile_of_head hfront, dropWhile_of_head (by simpa using hback), List.reverse_reverse]

theorem unquote_of_unquoted {cs : List Char} (h : ∀ inner, cs ≠ '"' :: (inner ++ ['"'])) : unquote cs = cs := by
  unfold unquote
  split
  · rename_i rest
    split
    · rename_i hquoted
      obtain ⟨inner, rfl⟩ := List.getLast?_eq_some_iff.mp hquoted.2
      exact absurd rfl (h inner)
    · rfl
  · rfl

/-- What stands between the brackets for a key. -/
def IsPlainKey.raw {s : String} (h : IsPlainKey s) : RawKey where
  chars := s.toList
  unclosed := h.unclosed
  notBlank := by
    obtain ⟨c, cs, hcs⟩ := List.exists_cons_of_ne_nil h.nonempty
    exact ⟨c, by simp [hcs], h.front c (by simp [hcs])⟩

/-- A key as it is read from its text: `*` is every key. -/
def Key.starred : Key → Key
  | literal text => if text = "*" then any else literal text
  | any => any

theorem IsPlainKey.key_raw {s : String} (h : IsPlainKey s) : h.raw.key = (Key.literal s).starred := by
  have htrim : trimBlanks s.toList = s.toList := trimBlanks_of_ends h.front h.back
  have hstar : s.toList = ['*'] ↔ s = "*" := by rw [← String.toList_inj]; rfl
  rw [RawKey.key, Key.starred]
  simp only [IsPlainKey.raw, htrim, hstar, unquote_of_unquoted h.unquoted, String.ofList_toList]

/-! ### Numbers as keys -/

theorem isBlank_of_isDigit {c : Char} (h : c.isDigit = true) : isBlank c = false := by
  simp only [Char.isDigit, Bool.and_eq_true, decide_eq_true_eq] at h
  have hlow : 48 ≤ c.toNat := h.1
  have hhigh : c.toNat ≤ 57 := h.2
  simp [isBlank]
  omega

theorem isPlainKey_of_number {s : String} (hne : s.toList ≠ []) (hall : ∀ c ∈ s.toList, Literal.IsNumberChar c) : IsPlainKey s := by
  have hblank : ∀ c ∈ s.toList, isBlank c = false := by
    intro c hc
    rcases hall c hc with hdigit | rfl | rfl | rfl
    · exact isBlank_of_isDigit hdigit
    all_goals rfl
  have hother {c : Char} (hc : c ∈ s.toList) (hdigit : c.isDigit = false) : c = '.' ∨ c = 'e' ∨ c = '-' :=
    (hall c hc).resolve_left (by simp [hdigit])
  refine ⟨hne, fun hmem => ?_, fun c hc => hblank c (List.mem_of_head? hc), fun c hc => hblank c (List.mem_of_getLast? hc),
    fun inner hquoted => ?_⟩
  · simpa using hother hmem rfl
  · have hmem : '"' ∈ s.toList := by simp [hquoted]
    simpa using hother hmem rfl

theorem isPlainKey_of_fractional? {cs : List Char} {digits suffix : String}
    (h : Literal.fractional? cs = some (digits, suffix)) : IsPlainKey digits := by
  unfold Literal.fractional? at h
  split at h
  · rename_i hfirst
    split at h
    · rename_i ds ss hgo
      split at h <;> cases h
      cases cs with
      | nil => cases hfirst
      | cons c cs =>
        refine isPlainKey_of_number ?_ ?_
        · simpa using Literal.fraction_ne_nil (by simpa using hfirst) hgo
        · simpa using Literal.fraction_chars hgo
    · cases h
  · cases h

theorem isPlainKey_toString (n : Nat) : IsPlainKey (toString n) := by
  refine isPlainKey_of_number ?_ fun c hc => .inl ?_
  · rw [Literal.toList_toString]
    exact Nat.toDigits_ne_nil
  · rw [Literal.toList_toString] at hc
    exact Nat.isDigit_of_mem_toDigits (by decide) (by decide) hc

/-- The string that a subscript is, if it is one. Parentheses around it do not count. -/
def stringKey? : Tree → Option String
  | .node .litExpr [_, .leaf (.literal t _)] =>
    match Literal.ofText t with
    | some (.str s) => some s
    | _ => none
  | .node .parenExpr [_, .group _ _ [e] _] => stringKey? e
  | _ => none

/-- A key that is no string is a number, which needs no quotes. -/
theorem isPlainKey_of_keyOf {key : Tree} {s : String} (h : Target.keyOf key = .literal s) (hkey : ∀ s ∈ stringKey? key, IsPlainKey s) :
    IsPlainKey s := by
  fun_induction Target.keyOf key with
  | case1 attrs t p value hvalue =>
    cases h
    exact hkey s (by simp [stringKey?, hvalue])
  | case2 attrs t p digits suffix hvalue =>
    cases h
    obtain ⟨n, rfl⟩ := Literal.digits_of_int hvalue
    exact isPlainKey_toString n
  | case3 attrs t p digits suffix hvalue =>
    cases h
    exact isPlainKey_of_fractional? (Literal.fractional?_of_float hvalue).2
  | case4 | case6 => cases h
  | case5 attrs d o e c ih => exact ih h (by simpa [stringKey?] using hkey)

/-! ### Names that can be written -/

/-- The words in an expression that its name takes over, those on the rest of its spine apart. -/
def identifiers : Tree → List String
  | .node .pathExpr [_, p] => Target.pathNames p
  | .node .fieldExpr [_, _, _, m] => if isNamed m then [m.text] else []
  | .node .methodCallExpr [_, _, _, method, _, _] => [method.text]
  | _ => []

/-- The string in an expression that its name takes over as a key, those on the rest of its spine apart. -/
def stringKeys : Tree → List String
  | .node .indexExpr [_, _, .group _ _ [key] _] => (stringKey? key).toList
  | _ => []

/-- An expression whose name is made of letters, digits and `_`, and of keys that need no quotes. -/
structure IsSpelled (e : Tree) : Prop where
  names : ∀ c ∈ spine e, ∀ n ∈ identifiers c, IsName n
  keys : ∀ c ∈ spine e, ∀ s ∈ stringKeys c, IsPlainKey s

/-- The names and keys of a target can be written in a pattern. -/
def Target.IsWritable : Target → Prop
  | path segments => (∀ s ∈ segments, IsName s) ∧ segments ≠ [] ∧ segments ≠ ["_"]
  | member base name => base.IsWritable ∧ IsName name
  | index base key => base.IsWritable ∧ ∀ s, key = .literal s → IsPlainKey s
  | result base => base.IsWritable
  | unnamed => True

section
variable {k : Kind} {attrs e : Tree} {cs : List Tree}

theorem spine_front (h : front? k cs = some e) {c : Tree} (hc : c ∈ spine e) : c ∈ spine (.node k (attrs :: cs)) := by
  rw [spine_of_front h]
  exact List.mem_cons_of_mem _ hc

theorem Read.front (h : Read (.node k (attrs :: cs))) (hfront : front? k cs = some e) : Read e :=
  fun l a ds hmem => h l a ds (spine_front hfront hmem)

theorem IsSpelled.front (h : IsSpelled (.node k (attrs :: cs))) (hfront : front? k cs = some e) : IsSpelled e :=
  ⟨fun c hc => h.names c (spine_front hfront hc), fun c hc => h.keys c (spine_front hfront hc)⟩

end

theorem isWritable_ofExpr {e : Tree} (hread : Read e) (h : IsSpelled e) : (Target.ofExpr e).IsWritable := by
  have hown := h.names e (self_mem_spine e)
  fun_induction Target.ofExpr e with
  | case1 attrs p => exact ⟨hown, hread .pathExpr attrs [p] (self_mem_spine _)⟩
  | case2 attrs base dot m ih =>
    have hbase := h.front (e := base) rfl
    refine ⟨ih (hread.front rfl) hbase (hbase.names _ (self_mem_spine _)), ?_⟩
    rcases hread .fieldExpr attrs [base, dot, m] (self_mem_spine _) with hnamed | hname
    · exact hown _ (by simp [identifiers, hnamed])
    · exact hname
  | case3 attrs base d o key c ih =>
    have hbase := h.front (e := base) rfl
    refine ⟨ih (hread.front rfl) hbase (hbase.names _ (self_mem_spine _)), fun s hs => ?_⟩
    exact isPlainKey_of_keyOf hs fun s hs => h.keys _ (self_mem_spine _) s (by simpa [stringKeys] using hs)
  | case4 attrs callee args ih =>
    have hcallee := h.front (e := callee) rfl
    exact ih (hread.front rfl) hcallee (hcallee.names _ (self_mem_spine _))
  | case5 attrs receiver dot method generics args ih =>
    have hreceiver := h.front (e := receiver) rfl
    exact ⟨ih (hread.front rfl) hreceiver (hreceiver.names _ (self_mem_spine _)), hown _ (by simp [identifiers])⟩
  | case6 attrs d o e c ih =>
    have he := h.front (e := e) rfl
    exact ih (hread.front rfl) he (he.names _ (self_mem_spine _))
  | case7 attrs amp m e ih =>
    have he := h.front (e := e) rfl
    exact ih (hread.front rfl) he (he.names _ (self_mem_spine _))
  | case8 => trivial

theorem ofExpr_of_ofCall? {c : Tree} {t : Target} (h : Target.ofCall? c = some t) : Target.ofExpr c = .result t := by
  unfold Target.ofCall? at h
  split at h <;> cases h <;> rfl

/-! ### Names as they are written -/

/-- A target as it is read from its text: a key `*` is every key. -/
def Target.starred : Target → Target
  | path segments => path segments
  | member base name => member base.starred name
  | index base key => index base.starred key.starred
  | result base => result base.starred
  | unnamed => unnamed

theorem Target.covers_starred (t : Target) : t.starred.covers t = true := by
  induction t with
  | index base key ih =>
    have hkey : key.starred = .any ∨ key.starred = key := by
      cases key with
      | literal text => exact (ite_eq_or_eq ..)
      | any => exact .inl rfl
    simpa [starred, covers, ih] using hkey
  | _ => simp_all [starred, covers]

/-- A pattern with a suffix behind it. -/
def Pattern.Form.add (f : Form) (s : Suffix) : Form := { f with suffixes := f.suffixes ++ [s] }

theorem Pattern.Form.written_add (f : Form) (s : Suffix) : (f.add s).written = f.written ++ s.written := by
  simp [add, written]

theorem Pattern.Form.target_add (f : Form) (s : Suffix) : (f.add s).target = s.apply f.target := by
  simp [add, target]

theorem toList_joinWith (names : List Name) (n : Name) :
    (joinWith "::" ((n :: names).map Name.text)).toList = n.chars ++ segmentsWritten names := by
  induction names generalizing n with
  | nil => simp [joinWith, segmentsWritten, Name.text]
  | cons m names ih =>
    rw [List.map_cons, List.map_cons, joinWith, String.toList_append, String.toList_append, ← List.map_cons, ih]
    simp [segmentsWritten, Name.text]

theorem exists_names {segments : List String} (h : ∀ s ∈ segments, IsName s) :
    ∃ names : List Name, names.map Name.text = segments := by
  induction segments with
  | nil => exact ⟨[], rfl⟩
  | cons s segments ih =>
    obtain ⟨⟨n, rfl⟩, hmore⟩ := List.forall_mem_cons.mp h
    obtain ⟨names, rfl⟩ := ih hmore
    exact ⟨n :: names, rfl⟩

/-- The text of a target is a pattern as it is written. -/
theorem exists_form {t : Target} (h : t.IsWritable) : ∃ f : Form, f.written = t.text.toList ∧ f.target = t.starred := by
  induction t with
  | path segments =>
    obtain ⟨hnames, hne, hlone⟩ := h
    obtain ⟨names, rfl⟩ := exists_names hnames
    cases names with
    | nil => exact absurd rfl hne
    | cons n names =>
      refine ⟨⟨n, names, []⟩, ?_, ?_⟩
      · rw [Target.text, toList_joinWith]
        simp [Form.written]
      · rw [Form.target, List.foldl_nil, ofSegments, if_neg hlone, Target.starred]
  | member base name ih =>
    obtain ⟨hbase, n, rfl⟩ := h
    obtain ⟨f, hwritten, htarget⟩ := ih hbase
    refine ⟨f.add (.member n), ?_, by rw [Form.target_add, htarget]; rfl⟩
    simp [Form.written_add, hwritten, Target.text, Suffix.written, Name.text]
  | index base key ih =>
    obtain ⟨hbase, hkey⟩ := h
    obtain ⟨f, hwritten, htarget⟩ := ih hbase
    obtain ⟨raw, hraw, hread⟩ : ∃ raw : RawKey, raw.chars = key.text.toList ∧ raw.key = key.starred := by
      cases key with
      | literal s => exact ⟨(hkey s rfl).raw, rfl, (hkey s rfl).key_raw⟩
      | any => exact ⟨⟨['*'], by simp, '*', by simp, rfl⟩, rfl, rfl⟩
    refine ⟨f.add (.index raw), ?_, by rw [Form.target_add, htarget, Suffix.apply, hread]; rfl⟩
    simp [Form.written_add, hwritten, Target.text, Suffix.written, hraw]
  | result base ih =>
    obtain ⟨f, hwritten, htarget⟩ := ih h
    refine ⟨f.add .result, ?_, by rw [Form.target_add, htarget]; rfl⟩
    simp [Form.written_add, hwritten, Target.text, Suffix.written]
  | unnamed => exact ⟨⟨⟨['_'], by simp, by simp [isNameChar]⟩, [], []⟩, rfl, rfl⟩

/-! ### Blanks -/

/-- The blanks, which the tables of letters and digits leave out. -/
theorem isNameChar_blanks : ∀ n ∈ [9, 10, 11, 12, 13, 32, 0x85, 0xA0, 0x1680, 0x2000, 0x2001, 0x2002, 0x2003, 0x2004, 0x2005,
    0x2006, 0x2007, 0x2008, 0x2009, 0x200A, 0x2028, 0x2029, 0x202F, 0x205F, 0x3000], isNameChar (Char.ofNat n) = false := by
  decide +kernel

theorem isBlank_of_isNameChar {c : Char} (h : isNameChar c = true) : isBlank c = false := by
  by_contra hblank
  have hfalse := isNameChar_blanks c.toNat (by
    simp only [isBlank, Bool.not_eq_false, Bool.or_eq_true, Bool.and_eq_true, decide_eq_true_eq, beq_iff_eq] at hblank
    simp only [List.mem_cons, List.not_mem_nil, or_false]
    omega)
  rw [Char.ofNat_toNat, h] at hfalse
  cases hfalse

/-- A text without a blank at its end. -/
def EndsPlain (cs : List Char) : Prop := ∀ c ∈ cs.getLast?, isBlank c = false

theorem EndsPlain.append {cs ds : List Char} (hcs : EndsPlain cs) (hds : EndsPlain ds) : EndsPlain (cs ++ ds) := by
  intro c hc
  rw [List.getLast?_append] at hc
  cases hlast : ds.getLast? with
  | none =>
    rw [hlast] at hc
    exact hcs c hc
  | some d =>
    rw [hlast] at hc
    exact hds c (hlast ▸ hc)

theorem EndsPlain.flatMap {α : Type} {f : α → List Char} (h : ∀ a, EndsPlain (f a)) (as : List α) :
    EndsPlain (as.flatMap f) := by
  induction as with
  | nil => simp [EndsPlain]
  | cons a as ih => exact (h a).append ih

theorem endsPlain_chars (n : Name) : EndsPlain n.chars := fun c hc =>
  isBlank_of_isNameChar (n.named c (List.mem_of_getLast? hc))

theorem trimBlanks_written (f : Form) : trimBlanks f.written = f.written := by
  have hcolons : EndsPlain [':', ':'] := by simp [EndsPlain, isBlank]
  have hsuffix (s : Suffix) : EndsPlain s.written := by
    cases s with
    | member name =>
      have hdot : EndsPlain ['.'] := by simp [EndsPlain, isBlank]
      exact hdot.append (endsPlain_chars name)
    | result => simp [EndsPlain, Suffix.written, isBlank]
    | index key =>
      intro c hc
      rw [Suffix.written, ← List.cons_append, List.getLast?_append] at hc
      cases hc
      rfl
  have hback : EndsPlain f.written :=
    (endsPlain_chars f.first).append ((EndsPlain.flatMap (fun n => hcolons.append (endsPlain_chars n)) _).append
      (EndsPlain.flatMap hsuffix _))
  refine trimBlanks_of_ends (fun c hc => ?_) hback
  obtain ⟨d, ds, hchars⟩ := List.exists_cons_of_ne_nil f.first.nonempty
  have hfirst : c = d := by simpa [Form.written, hchars] using hc.symm
  exact isBlank_of_isNameChar (f.first.named c (by simp [hchars, hfirst]))

/-! ### The name of a call as a pattern -/

theorem parse_text {t : Target} (h : t.IsWritable) : Pattern.parse t.text = .ok ⟨trim t.text, t.starred⟩ := by
  obtain ⟨f, hwritten, htarget⟩ := exists_form h
  rw [Pattern.parse, ← hwritten, trimBlanks_written, read_written, htarget]

/-- The goals that give whole expressions. -/
def isExprGoal : Goal → Bool
  | .expr _ | .unary _ | .operand _ _ | .earlyExpr => true
  | _ => false

/-- The name of a call in an expression that the grammar reads, if letters, digits and `_` make up its words and its
strings need no quotes, is a pattern for the call. As a pattern it has the target of the call, except that a key `*`
stands for every key. -/
theorem parse_name {goal : Goal} {ts rest : List TokenTree} {e call : Tree} {t : Target} (hgoal : isExprGoal goal = true)
    (hread : Grammar.reach goal ts = .ok (e, rest)) (hcall : call ∈ spine e) (ht : Target.ofCall? call = some t)
    (hspelled : IsSpelled call) : ∃ p, Pattern.parse t.text = .ok p ∧ p.target = t.starred ∧ p.isMatch t = true := by
  have hasks : Asks goal := by cases goal <;> trivial
  -- The callees of an expression that the grammar reads are of the forms that have names.
  have hcallee : Read call := fun k attrs cs hmem => reach_reads goal hasks ts e rest hread k attrs cs (spine_subset hcall hmem)
  have hwritable := isWritable_ofExpr hcallee hspelled
  rw [ofExpr_of_ofCall? ht] at hwritable
  exact ⟨_, parse_text hwritable, rfl, t.covers_starred⟩

/-- The call `client["*"].send()`. -/
theorem parse_name_subscript :
    let p := Pos.none
    let ts : List TokenTree := [.ident "client" p, .group .bracket p [.literal "\"*\"" p] p, .punct '.' false p,
      .ident "send" p, .group .paren p [] p]
    ∃ e t q, Grammar.reach (.expr true) ts = .ok (e, []) ∧ Target.ofCall? e = some t ∧ t.text = "client[*].send" ∧
      Pattern.parse t.text = .ok q ∧ q.target = t.starred ∧ q.isMatch t = true := by
  intro p ts
  let client : Tree := .node .pathExpr [.noAttrs, .node .path [.absent, .list [.node .segment [.leaf (.word "client" p),
    .absent]]]]
  let subscript : Tree := .node .indexExpr [.noAttrs, client, .group .bracket p
    [.node .litExpr [.noAttrs, .leaf (.literal "\"*\"" p)]] p]
  let e : Tree := .node .methodCallExpr [.noAttrs, subscript, .leaf (.symbol "." p), .leaf (.word "send" p), .absent,
    .group .paren p [.list []] p]
  have hread : Grammar.reach (.expr true) ts = .ok (e, []) := rfl
  have hspine : spine e = [e, subscript, client] := by
    rw [spine_of_front (e := subscript) rfl, spine_of_front (e := client) rfl, spine_of_none rfl]
  have hspelled : IsSpelled e := by
    have hclient : IsName "client" := ⟨⟨"client".toList, by decide, List.all_eq_true.mp rfl⟩, rfl⟩
    have hsend : IsName "send" := ⟨⟨"send".toList, by decide, List.all_eq_true.mp rfl⟩, rfl⟩
    have hkey : IsPlainKey "*" := ⟨by decide, by decide, by rintro _ ⟨⟩; rfl, by rintro _ ⟨⟩; rfl, fun inner h => by cases h⟩
    have hon {c : Tree} (hc : c ∈ spine e) : c = e ∨ c = subscript ∨ c = client := by simpa [hspine] using hc
    refine ⟨fun c hc n hn => ?_, fun c hc s hs => ?_⟩
    · rcases hon hc with rfl | rfl | rfl
      · exact List.mem_singleton.mp hn ▸ hsend
      · cases hn
      · exact List.mem_singleton.mp hn ▸ hclient
    · rcases hon hc with rfl | rfl | rfl
      · cases hs
      · exact List.mem_singleton.mp hs ▸ hkey
      · cases hs
  obtain ⟨q, hparse, htarget, hmatch⟩ := parse_name (by rfl) hread (self_mem_spine e) rfl hspelled
  exact ⟨e, _, q, hread, rfl, rfl, hparse, htarget, hmatch⟩

end CallProbe.Call
