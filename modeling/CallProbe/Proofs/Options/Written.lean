import CallProbe.Probe.Plan
import CallProbe.Proofs.Grammar.Commas

/-! # Options as they are written

The options of a marker as tokens: a name, and a value behind an equals sign. An option reads the same in front of a comma
and at the end (`Spells.reads`), whatever tokens come after the comma. So a list of options reads as its options do, one after
the other, up to the first one that does not mean a setting. -/

namespace CallProbe.Probe

open Source Call Time

/-! ### Names -/

/-- The options. -/
inductive OptionName where
  | ignorePrelude
  | blacklist
  | whitelist
  | details
  | wrapper
  | timeLimit
  | below
  | above
deriving DecidableEq

namespace OptionName

/-- The word for an option. -/
def text : OptionName → String
  | ignorePrelude => "ignore_builtins"
  | blacklist => "blacklist"
  | whitelist => "whitelist"
  | details => "rewrite_details"
  | wrapper => "wrapper"
  | timeLimit => "time_limit"
  | below => "below"
  | above => "above"

/-- Whether a marker has an option. -/
def isOf : Marker → OptionName → Bool
  | .wrapCalls, wrapper => true
  | .profile, wrapper => false
  | .profile, timeLimit | .profile, below | .profile, above => true
  | .wrapCalls, timeLimit | .wrapCalls, below | .wrapCalls, above => false
  | _, ignorePrelude | _, blacklist | _, whitelist | _, details => true

end OptionName

/-! ### Values -/

/-- An option with its value as it is written. -/
inductive MarkerOption where
  | ignorePrelude (value : Bool)
  | blacklist (texts : List String)
  | whitelist (texts : List String)
  | details (name : String)
  | wrapper (path : Tree)
  /-- A literal, with its digits and sign if it is a number. -/
  | timeLimit (number : Option String)
  | below (path : Tree)
  | above (path : Tree)
  /-- A name that no option has, and the words it is made of. -/
  | other (fromRoot : Bool) (words : List String)

/-- The time limit that the digits of a number say. -/
def limitOf? (number : Option String) : Option Duration :=
  (number.bind Float64.parse).bind fun x => (limitOfSeconds x).toOption

/-- The patterns that texts are. -/
def patternsOf? (texts : List String) : Option (List Pattern) := texts.mapM fun t => (Pattern.parse t).toOption

/-- The callback that a path names, where `none` names none. -/
def callbackOf (path : Tree) : Option Tree := if isWord "none" path then none else some path

namespace MarkerOption

/-- The option that is given. -/
def name? : MarkerOption → Option OptionName
  | ignorePrelude _ => some .ignorePrelude
  | blacklist _ => some .blacklist
  | whitelist _ => some .whitelist
  | details _ => some .details
  | wrapper _ => some .wrapper
  | timeLimit _ => some .timeLimit
  | below _ => some .below
  | above _ => some .above
  | other _ _ => none

/-- What a given option means, if its value can be understood. -/
def setting? : MarkerOption → Option Setting
  | ignorePrelude v => some (.ignorePrelude v)
  | blacklist texts => (patternsOf? texts).map .blacklist
  | whitelist texts => (patternsOf? texts).map .whitelist
  | details n => some (.details n)
  | wrapper p => some (.wrapper p)
  | timeLimit number => (limitOf? number).map .timeLimit
  | below p => some (.below (callbackOf p))
  | above p => some (.above (callbackOf p))
  | other _ _ => none

/-- Whether it is an option of a marker. -/
def isOf (m : Marker) (o : MarkerOption) : Bool := o.name?.any (·.isOf m)

/-- What a given option means to a marker. -/
def settingFor (m : Marker) (o : MarkerOption) : Option Setting := if o.isOf m then o.setting? else none

end MarkerOption

/-! ### Tokens -/

/-- String literals between commas, and their texts. -/
inductive Texts : List TokenTree → List String → Prop where
  | nil : Texts [] []
  | last {t s : String} (h : Literal.ofText t = some (.str s)) (p : Pos) : Texts [.literal t p] [s]
  | cons {t s : String} {ts : List TokenTree} {ss : List String} (h : Literal.ofText t = some (.str s)) (p : Pos) (joint : Bool)
      (q : Pos) (rest : Texts ts ss) : Texts (.literal t p :: .punct ',' joint q :: ts) (s :: ss)

/-- A literal, and its digits if it is a number. -/
inductive Numeral : List TokenTree → Option String → Prop where
  | literal (t : String) (p : Pos) : Numeral [.literal t p] (numberText?.digits t)
  | negative {t : String} (h : Ahead.isNumber t = true) (joint : Bool) (p q : Pos) :
      Numeral [.punct '-' joint p, .literal t q] ((numberText?.digits t).map ("-" ++ ·))
  | truth (b : Bool) (p : Pos) : Numeral [.ident (toString b) p] none

/-- Words with two colons in front of each. -/
inductive MoreWords : List TokenTree → List String → Prop where
  | nil : MoreWords [] []
  | cons (w : String) (p q s : Pos) (joint : Bool) {ts : List TokenTree} {ws : List String} (rest : MoreWords ts ws) :
      MoreWords (.punct ':' true p :: .punct ':' joint q :: .ident w s :: ts) (w :: ws)

/-- Words between colons, which may also stand in front of the first. -/
inductive Words : List TokenTree → Bool → List String → Prop where
  | bare (w : String) (p : Pos) {ts : List TokenTree} {ws : List String} (rest : MoreWords ts ws) :
      Words (.ident w p :: ts) false (w :: ws)
  | fromRoot {ts : List TokenTree} {ws : List String} (h : MoreWords ts ws) (hsome : ws ≠ []) : Words ts true ws

/-- How options are written. -/
inductive Spells : List TokenTree → MarkerOption → Prop where
  | flag (p : Pos) : Spells [.ident "ignore_builtins" p] (.ignorePrelude true)
  | truth (b : Bool) (p : Pos) (joint : Bool) (q s : Pos) :
      Spells [.ident "ignore_builtins" p, .punct '=' joint q, .ident (toString b) s] (.ignorePrelude b)
  | blacklist {ts : List TokenTree} {texts : List String} (h : Texts ts texts) (p : Pos) (joint : Bool) (q o c : Pos) :
      Spells [.ident "blacklist" p, .punct '=' joint q, .group .bracket o ts c] (.blacklist texts)
  | whitelist {ts : List TokenTree} {texts : List String} (h : Texts ts texts) (p : Pos) (joint : Bool) (q o c : Pos) :
      Spells [.ident "whitelist" p, .punct '=' joint q, .group .bracket o ts c] (.whitelist texts)
  | details {n : String} (h : n ∉ Ahead.keywords) (p : Pos) (joint : Bool) (q s : Pos) :
      Spells [.ident "rewrite_details" p, .punct '=' joint q, .ident n s] (.details n)
  | wrapper {ts : List TokenTree} {path : Tree} (h : Grammar.parsePath ts = .ok path) (p : Pos) (joint : Bool) (q : Pos) :
      Spells (.ident "wrapper" p :: .punct '=' joint q :: ts) (.wrapper path)
  | timeLimit {ts : List TokenTree} {number : Option String} (h : Numeral ts number) (p : Pos) (joint : Bool) (q : Pos) :
      Spells (.ident "time_limit" p :: .punct '=' joint q :: ts) (.timeLimit number)
  | below {ts : List TokenTree} {path : Tree} (h : Grammar.parsePath ts = .ok path) (p : Pos) (joint : Bool) (q : Pos) :
      Spells (.ident "below" p :: .punct '=' joint q :: ts) (.below path)
  | above {ts : List TokenTree} {path : Tree} (h : Grammar.parsePath ts = .ok path) (p : Pos) (joint : Bool) (q : Pos) :
      Spells (.ident "above" p :: .punct '=' joint q :: ts) (.above path)
  /-- A name that no option has may have anything behind it. -/
  | other {ts behind : List TokenTree} {fromRoot : Bool} {words : List String} (h : Words ts fromRoot words)
      (hunknown : fromRoot = false → ∀ n : OptionName, words ≠ [n.text]) (hbehind : Ahead.symbol "::" behind = false) :
      Spells (ts ++ behind) (.other fromRoot words)

/-- Options between commas, maybe with one after the last. -/
inductive Options : List TokenTree → List MarkerOption → Prop where
  | nil : Options [] []
  | last {ts : List TokenTree} {o : MarkerOption} (h : Spells ts o) : Options ts [o]
  | cons {ts us : List TokenTree} {o : MarkerOption} {os : List MarkerOption} (h : Spells ts o) (joint : Bool) (p : Pos)
      (rest : Options us os) : Options (ts ++ .punct ',' joint p :: us) (o :: os)

/-! ### Reading -/

/-- What may come after an option. -/
inductive Ends : List TokenTree → Prop where
  | nil : Ends []
  | comma (c : Parse.Comma) : Ends c.tokens

theorem Ends.no_symbol {rest : List TokenTree} (h : Ends rest) {s : String} (hs : s.toList.head?.any (· ≠ ',') = true) :
    Ahead.symbol s rest = false := by
  unfold Ahead.symbol
  cases hchars : s.toList with
  | nil =>
    rw [hchars] at hs
    cases hs
  | cons x xs =>
    have hx : (x == ',') = false := by simpa [hchars] using hs
    cases h with
    | nil => cases xs <;> rfl
    | comma c =>
      cases xs with
      | nil => exact hx
      | cons y ys =>
        change (x == ',' && c.joint && Ahead.chars (y :: ys) c.after) = false
        rw [hx]
        rfl

namespace OptionParser

variable {α β : Type} {p : OptionParser α} {f : α → OptionParser β} {ts mid : List TokenTree} {a : α} {e : PlanError}

theorem bind_of_ok (h : p ts = .ok (a, mid)) : (p >>= f) ts = f a mid := by
  change (p ts).bind (fun r => f r.1 r.2) = f a mid
  rw [h]
  rfl

theorem bind_of_error (h : p ts = .error e) : (p >>= f) ts = .error e := by
  change (p ts).bind (fun r => f r.1 r.2) = .error e
  rw [h]
  rfl

end OptionParser

theorem grammar_of_ok {α : Type} {p : Reach → Parser α} {ts : List TokenTree} {r : α × List TokenTree}
    (h : p Grammar.reach ts = .ok r) : grammar p ts = .ok r := by
  unfold grammar
  rw [h]

/-- One option with the place of its name. -/
def oneOption (m : Marker) : OptionParser (Pos × Setting) := do
  let (name, fromRoot, pos) ← optionName
  return (pos, ← setting m name fromRoot pos)

/-! #### Names -/

theorem moreWords_read {ts us : List TokenTree} {ws : List String} (h : MoreWords ts ws) (hus : Ahead.symbol "::" us = false)
    {n : Nat} (hn : ts.length ≤ n) : ∃ words : List Tree, words.map Tree.text = ws ∧
      Parse.repeatFuel (Ahead.symbol "::") (do let _ ← Parse.symbol "::"; Parse.anyWord) n (ts ++ us) = .ok (words, us) := by
  induction h generalizing n with
  | nil => exact ⟨[], rfl, Parse.repeatFuel_of_not hus n⟩
  | cons w p q s joint rest ih =>
    obtain ⟨n, rfl⟩ : ∃ k, n = k + 1 := Nat.exists_eq_succ_of_ne_zero (by rintro rfl; cases hn)
    obtain ⟨words, hwords, hrest⟩ := ih (n := n) (by simp only [List.length_cons] at hn; omega)
    refine ⟨.leaf (.word w s) :: words, by rw [List.map_cons, hwords]; rfl, ?_⟩
    have hturn := congrArg (fun x : Except Fault (List Tree × List TokenTree) =>
      x.bind fun r => .ok (Tree.leaf (.word w s) :: r.1, r.2)) hrest
    exact hturn

/-- The first word and those behind it. -/
theorem wordsFrom_read {ts us : List TokenTree} {ws : List String} (h : MoreWords ts ws) (hus : Ahead.symbol "::" us = false)
    (w : String) (p : Pos) (lead : Tree) : (do
      let pos := startOf (← get)
      let first ← Parse.anyWord
      let rest ← Parse.repeatWhile (Ahead.symbol "::") do
        let _ ← Parse.symbol "::"
        Parse.anyWord
      return ((first :: rest).map Tree.text, lead.isPresent, pos) : Parser (List String × Bool × Pos))
        (.ident w p :: (ts ++ us)) = .ok ((w :: ws, lead.isPresent, p), us) := by
  obtain ⟨words, rfl, hwords⟩ := moreWords_read h hus (n := (ts ++ us).length) (by simp)
  have hall := congrArg (fun x : Except Fault (List Tree × List TokenTree) =>
    x.bind fun r => .ok ((w :: r.1.map Tree.text, lead.isPresent, p), r.2)) hwords
  exact hall

theorem optionName_read {ts us : List TokenTree} {fromRoot : Bool} {ws : List String} (h : Words ts fromRoot ws)
    (hus : Ahead.symbol "::" us = false) : ∃ pos, optionName (ts ++ us) = .ok ((ws, fromRoot, pos), us) := by
  cases h with
  | bare w p rest => exact ⟨p, grammar_of_ok (wordsFrom_read rest hus w p .absent)⟩
  | fromRoot h hsome =>
    cases h with
    | nil => exact absurd rfl hsome
    | cons w p q s joint rest => exact ⟨s, grammar_of_ok (wordsFrom_read rest hus w s (.leaf (.symbol "::" p)))⟩

/-! #### Values -/

/-- What a parser gives of some tokens, and what it leaves of them; or that it fails. -/
inductive ReadsAs {α : Type} (p : OptionParser α) (ts rest : List TokenTree) : Option α → Prop where
  | ok {a : α} (h : p ts = .ok (a, rest)) : ReadsAs p ts rest (some a)
  | error {e : PlanError} (h : p ts = .error e) : ReadsAs p ts rest none

namespace ReadsAs

variable {α β : Type} {p : OptionParser α} {f : α → OptionParser β} {ts mid rest : List TokenTree} {a : α} {v : Option α}

theorem map (g : α → β) (h : ReadsAs p ts rest v) : ReadsAs (p >>= fun a => pure (g a)) ts rest (v.map g) := by
  cases h with
  | ok h => exact .ok (OptionParser.bind_of_ok h)
  | error h => exact .error (OptionParser.bind_of_error h)

theorem after {v : Option β} (h : p ts = .ok (a, mid)) (hf : ReadsAs (f a) mid rest v) : ReadsAs (p >>= f) ts rest v := by
  cases hf with
  | ok hf => exact .ok ((OptionParser.bind_of_ok h).trans hf)
  | error hf => exact .error ((OptionParser.bind_of_ok h).trans hf)

end ReadsAs

variable {m : Marker} {ts us rest : List TokenTree} {texts : List String} {number : Option String} {o : MarkerOption}

theorem equals_read (joint : Bool) (q : Pos) (us : List TokenTree) : equals (.punct '=' joint q :: us) = .ok ((), us) := rfl

theorem flag_alone (hrest : Ends rest) : flag rest = .ok (true, rest) := by
  change (if Ahead.symbol "=" rest then _ else pure true : OptionParser Bool) rest = _
  rw [hrest.no_symbol (by decide)]
  rfl

theorem flag_truth (b : Bool) (joint : Bool) (q s : Pos) (rest : List TokenTree) :
    flag (.punct '=' joint q :: .ident (toString b) s :: rest) = .ok (b, rest) := by
  cases b <;> rfl

theorem stringLiteral_read {t s : String} (h : Literal.ofText t = some (.str s)) (p : Pos) (us : List TokenTree) :
    stringLiteral (.literal t p :: us) = .ok (.leaf (.literal t p), us) := by
  have hahead : Ahead.stringLiteral (.literal t p :: us) = true := by
    rw [Ahead.stringLiteral, h]
  change (if Ahead.stringLiteral (.literal t p :: us) then Parse.literal else Parse.refuse : Parser Tree) _ = _
  rw [hahead]
  rfl

theorem stringValue_literal {t s : String} (h : Literal.ofText t = some (.str s)) (p : Pos) :
    stringValue (.leaf (.literal t p)) = s := by
  unfold stringValue
  rw [show Tree.text (.leaf (.literal t p)) = t from rfl, h]

theorem separatedFuel_cons (p : Parser Tree) (n : Nat) (t : TokenTree) (us : List TokenTree) :
    Parse.separatedFuel Parse.atEnd "," p (n + 1) (t :: us) = (p (t :: us)).bind fun r =>
      if Parse.atEnd r.2 then .ok ([r.1], r.2)
      else (Parse.symbol "," r.2).bind fun s =>
        (Parse.separatedFuel Parse.atEnd "," p n s.2).bind fun l => .ok (r.1 :: s.1 :: l.1, l.2) := by
  change (p (t :: us)).bind _ = (p (t :: us)).bind _
  refine congrArg _ (funext fun r => ?_)
  change (if Parse.atEnd r.2 then _ else _ : Parser (List Tree)) r.2 = _
  split
  · rfl
  · rfl

/-- String literals are read as they are written. -/
theorem texts_read (h : Texts ts texts) {n : Nat} (hn : ts.length < n) : ∃ elems : List Tree,
    (Tree.elements (.list elems)).map stringValue = texts ∧
      Parse.separatedFuel Parse.atEnd "," stringLiteral n ts = .ok (elems, []) := by
  induction h generalizing n with
  | nil =>
    obtain ⟨n, rfl⟩ := Nat.exists_eq_succ_of_ne_zero (Nat.ne_zero_of_lt hn)
    exact ⟨[], rfl, rfl⟩
  | @last t s h p =>
    obtain ⟨n, rfl⟩ := Nat.exists_eq_succ_of_ne_zero (Nat.ne_zero_of_lt hn)
    refine ⟨[.leaf (.literal t p)], congrArg (fun s => [s]) (stringValue_literal h p), ?_⟩
    rw [separatedFuel_cons, stringLiteral_read h]
    rfl
  | @cons t s ts ss h p joint q rest ih =>
    obtain ⟨n, rfl⟩ := Nat.exists_eq_succ_of_ne_zero (Nat.ne_zero_of_lt hn)
    obtain ⟨elems, helems, hread⟩ := ih (n := n) (by simp only [List.length_cons] at hn; omega)
    refine ⟨.leaf (.literal t p) :: .leaf (.symbol "," q) :: elems, ?_, ?_⟩
    · change stringValue (.leaf (.literal t p)) :: (Tree.elements (.list elems)).map stringValue = _
      rw [stringValue_literal h, helems]
    · rw [separatedFuel_cons, stringLiteral_read h]
      change (Parse.separatedFuel Parse.atEnd "," stringLiteral n ts).bind _ = _
      rw [hread]
      rfl

theorem group_read {d : Delimiter} {p : Parser (List Tree)} {content : List TokenTree} {cs : List Tree}
    (h : p content = .ok (cs, [])) (o c : Pos) (rest : List TokenTree) :
    Parse.group d p (.group d o content c :: rest) = .ok (.group d o cs c, rest) := by
  change (if d == d then _ else _ : Parser Tree) _ = _
  rw [if_pos (by cases d <;> rfl)]
  change (Parse.within content p rest).bind _ = _
  rw [Parse.within, h]
  rfl

theorem patternsOf?_cons (t : String) (ts : List String) :
    patternsOf? (t :: ts) = (Pattern.parse t).toOption.bind fun p => (patternsOf? ts).map (p :: ·) := by
  rw [patternsOf?, List.mapM_cons]
  refine congrArg _ (funext fun p => ?_)
  rw [Option.map_eq_bind]
  rfl

theorem patterns_read (lits : List Tree) (rest : List TokenTree) :
    ReadsAs (lits.mapM fun t => match Pattern.parse (stringValue t) with
      | .ok p => (pure p : OptionParser Pattern)
      | .error e => failAt (startOf t.toTokens) (.badPattern e)) rest rest (patternsOf? (lits.map stringValue)) := by
  induction lits with
  | nil => exact .ok rfl
  | cons t lits ih =>
    rw [List.mapM_cons, List.map_cons, patternsOf?_cons]
    cases Pattern.parse (stringValue t) with
    | error e => exact .error rfl
    | ok p => exact .after rfl (ih.map (p :: ·))

theorem patternList_reads (h : Texts ts texts) (joint : Bool) (q o c : Pos) (rest : List TokenTree) :
    ReadsAs patternList (.punct '=' joint q :: .group .bracket o ts c :: rest) rest (patternsOf? texts) := by
  obtain ⟨elems, rfl, hread⟩ := texts_read h (Nat.lt_succ_self _)
  refine .after (equals_read joint q _) (.after (grammar_of_ok ?_) (patterns_read (Tree.elements (.list elems)) rest))
  have hcommas : Parse.commas stringLiteral ts = .ok (.list elems, []) := by
    change (Parse.separatedFuel Parse.atEnd "," stringLiteral (ts.length + 1) ts).bind _ = _
    rw [hread]
    rfl
  have hlist : (do return [← Parse.commas stringLiteral] : Parser (List Tree)) ts = .ok ([.list elems], []) :=
    (Parse.bind_of_ok hcommas).trans rfl
  exact (Parse.bind_of_ok (group_read hlist o c rest)).trans rfl

theorem literal_read (h : Numeral ts number) (rest : List TokenTree) :
    ∃ l, Parse.literal (ts ++ rest) = .ok (l, rest) ∧ numberText? l = number := by
  cases h with
  | literal t p => exact ⟨_, rfl, rfl⟩
  | negative h joint p q =>
    refine ⟨.node .negative [.leaf (.symbol "-" p), .leaf (.literal _ q)], ?_, rfl⟩
    change (if Ahead.isNumber _ then _ else _ : Parser Tree) _ = _
    rw [h]
    rfl
  | truth b p => cases b <;> exact ⟨_, rfl, rfl⟩

theorem timeLimit_reads (h : Numeral ts number) (joint : Bool) (q : Pos) (rest : List TokenTree) :
    ReadsAs timeLimit (.punct '=' joint q :: (ts ++ rest)) rest (limitOf? number) := by
  obtain ⟨l, hl, rfl⟩ := literal_read h rest
  refine .after (equals_read joint q _) (.after (grammar_of_ok hl) ?_)
  dsimp only
  cases numberText? l with
  | none => exact .error rfl
  | some text =>
    rw [limitOf?, Option.bind_some]
    dsimp only
    cases Float64.parse text with
    | none => exact .error rfl
    | some x =>
      rw [Option.bind_some, Option.map_some]
      cases limitOfSeconds x with
      | error f => exact .error rfl
      | ok d => exact .ok rfl

theorem path_read {path : Tree} (h : Grammar.parsePath ts = .ok path) (hrest : Ends rest) :
    Parse.path Grammar.reach false (ts ++ rest) = .ok (path, rest) := by
  cases hrest with
  | nil => rw [List.append_nil, Parse.path_of_parsePath h]
  | comma c => exact Parse.path_before_comma h c

theorem callback_reads {path : Tree} (h : Grammar.parsePath ts = .ok path) (hrest : Ends rest) (joint : Bool) (q : Pos) :
    ReadsAs callback (.punct '=' joint q :: (ts ++ rest)) rest (some (callbackOf path)) :=
  .after (equals_read joint q _) (.after (grammar_of_ok (path_read h hrest)) (.ok rfl))

theorem details_reads {n : String} (h : n ∉ Ahead.keywords) (joint : Bool) (q s : Pos) (rest : List TokenTree) :
    ReadsAs (do equals; return Setting.details (← grammar fun _ => Parse.name).text)
      (.punct '=' joint q :: .ident n s :: rest) rest (some (.details n)) := by
  have hname : Parse.name (.ident n s :: rest) = .ok (.leaf (.word n s), rest) := by
    change (if !Ahead.keywords.contains n then Parse.anyWord else Parse.refuse : Parser Tree) _ = _
    rw [List.contains_eq_mem, decide_eq_false h]
    rfl
  exact .after (equals_read joint q _) (.after (grammar_of_ok hname) (.ok rfl))

/-- What stands behind the name of an option reads as what is given. -/
theorem oneOption_reads {fromRoot : Bool} {ws : List String} {v : Option Setting} (h : Words ts fromRoot ws)
    (hus : Ahead.symbol "::" us = false) (hv : ∀ pos, ReadsAs (setting m ws fromRoot pos) us rest v) :
    ∃ pos, ReadsAs (oneOption m) (ts ++ us) rest (v.map (pos, ·)) := by
  obtain ⟨pos, hname⟩ := optionName_read h hus
  exact ⟨pos, .after hname ((hv pos).map (pos, ·))⟩

theorem known_reads {n : OptionName} (p : Pos) {v : Option Setting} (hus : Ahead.symbol "::" us = false)
    (hv : ∀ pos, ReadsAs (setting m [n.text] false pos) us rest v) :
    ∃ pos, ReadsAs (oneOption m) (.ident n.text p :: us) rest (v.map (pos, ·)) :=
  oneOption_reads (.bare n.text p .nil) hus hv

theorem setting_unsupported {words : List String} (h : ∀ n : OptionName, words ≠ [n.text]) (pos : Pos) (us : List TokenTree) :
    setting m words false pos us = .error ⟨.unsupported m, pos⟩ := by
  unfold setting
  rw [if_neg Bool.false_ne_true]
  split
  · exact absurd rfl (h .ignorePrelude)
  · exact absurd rfl (h .blacklist)
  · exact absurd rfl (h .whitelist)
  · exact absurd rfl (h .details)
  · rename_i n _ _ _ _
    have hword (o : OptionName) : n ≠ o.text := fun hn => h o (by rw [hn])
    cases m with
    | wrapCalls => exact congrFun (if_neg (hword .wrapper)) us
    | profile =>
      dsimp only
      rw [if_neg (show n ≠ "time_limit" from hword .timeLimit), if_neg (show n ≠ "below" from hword .below),
        if_neg (show n ≠ "above" from hword .above)]
      rfl
  · rfl

/-- An option reads as what is given, also in front of a comma. -/
theorem Spells.reads (h : Spells ts o) (hrest : Ends rest) (m : Marker) :
    ∃ pos, ReadsAs (oneOption m) (ts ++ rest) rest ((o.settingFor m).map (pos, ·)) := by
  have hequals (joint : Bool) (q : Pos) (us : List TokenTree) : Ahead.symbol "::" (.punct '=' joint q :: us) = false := rfl
  cases h with
  | flag p =>
    refine known_reads (n := .ignorePrelude) p (hrest.no_symbol (by decide)) fun pos => ?_
    have hflag := (ReadsAs.ok (flag_alone hrest)).map Setting.ignorePrelude
    cases m <;> exact hflag
  | truth b p joint q s =>
    refine known_reads (n := .ignorePrelude) p (hequals joint q _) fun pos => ?_
    have hflag := (ReadsAs.ok (flag_truth b joint q s rest)).map Setting.ignorePrelude
    cases m <;> exact hflag
  | blacklist h p joint q o c =>
    refine known_reads (n := .blacklist) p (hequals joint q _) fun pos => ?_
    have hlist := (patternList_reads h joint q o c rest).map Setting.blacklist
    cases m <;> exact hlist
  | whitelist h p joint q o c =>
    refine known_reads (n := .whitelist) p (hequals joint q _) fun pos => ?_
    have hlist := (patternList_reads h joint q o c rest).map Setting.whitelist
    cases m <;> exact hlist
  | @details n h p joint q s =>
    refine known_reads (n := .details) p (hequals joint q _) fun pos => ?_
    cases m <;> exact details_reads h joint q s rest
  | wrapper h p joint q =>
    refine known_reads (n := .wrapper) p (hequals joint q _) fun pos => ?_
    cases m with
    | wrapCalls =>
      exact .after (equals_read joint q _) ((ReadsAs.ok (grammar_of_ok (path_read h hrest))).map Setting.wrapper)
    | profile => exact .error rfl
  | timeLimit h p joint q =>
    refine known_reads (n := .timeLimit) p (hequals joint q _) fun pos => ?_
    cases m with
    | wrapCalls => exact .error rfl
    | profile => exact (timeLimit_reads h joint q rest).map Setting.timeLimit
  | below h p joint q =>
    refine known_reads (n := .below) p (hequals joint q _) fun pos => ?_
    cases m with
    | wrapCalls => exact .error rfl
    | profile => exact (callback_reads h hrest joint q).map Setting.below
  | above h p joint q =>
    refine known_reads (n := .above) p (hequals joint q _) fun pos => ?_
    cases m with
    | wrapCalls => exact .error rfl
    | profile => exact (callback_reads h hrest joint q).map Setting.above
  | @other names behind fromRoot words h hunknown hbehind =>
    -- An unknown name is refused, whatever stands behind it.
    have hnext : Ahead.symbol "::" (behind ++ rest) = false := by
      cases hrest with
      | nil => rw [List.append_nil, hbehind]
      | comma c => exact (Parse.Steady.symbol (by decide) (by decide) behind).trans hbehind
    rw [List.append_assoc]
    refine oneOption_reads h hnext fun pos => .error (e := ⟨.unsupported m, pos⟩) ?_
    cases fromRoot with
    | true => rfl
    | false => exact setting_unsupported (hunknown rfl) pos _

/-! ### Lists of options -/

/-- Settings made one after the other, each with the place of its name. -/
def Settings.setAll (s : Settings) (settings : List (Pos × Setting)) : Except PlanError Settings :=
  settings.foldlM (fun s x => s.set x.1 x.2) s

/-- What given options mean to a marker, if all of them mean something. -/
def settingsFor? (m : Marker) (os : List MarkerOption) : Option (List Setting) := os.mapM (·.settingFor m)

theorem settingsFuel_succ (m : Marker) (n : Nat) (s : Settings) (ts : List TokenTree) :
    settingsFuel m (n + 1) s ts = (oneOption m ts).bind fun r => (s.set r.1.1 r.1.2).bind fun s =>
      if r.2.isEmpty then .ok (s, r.2)
      else (grammar (fun _ => Parse.symbol ",") r.2).bind fun c =>
        if c.2.isEmpty then .ok (s, c.2) else settingsFuel m n s c.2 := by
  change (optionName ts).bind _ = ((optionName ts).bind _).bind _
  cases optionName ts with
  | error e => rfl
  | ok r =>
    obtain ⟨⟨name, fromRoot, pos⟩, us⟩ := r
    change (setting m name fromRoot pos us).bind _ = ((setting m name fromRoot pos us).bind _).bind _
    cases setting m name fromRoot pos us with
    | error e => rfl
    | ok v =>
      change ((s.set pos v.1).bind fun s => .ok (s, v.2)).bind _ = (s.set pos v.1).bind _
      cases s.set pos v.1 with
      | error e => rfl
      | ok s' =>
        change (if v.2.isEmpty then _ else _ : OptionParser Settings) v.2 = if v.2.isEmpty then _ else _
        split
        · rfl
        · change (grammar (fun _ => Parse.symbol ",") v.2).bind _ = _
          refine congrArg _ (funext fun c => ?_)
          change (if c.2.isEmpty then _ else _ : OptionParser Settings) c.2 = _
          split <;> rfl

theorem Spells.ne_nil (h : Spells ts o) : ts ≠ [] := by
  cases h with
  | other h => cases h with
    | bare => simp
    | fromRoot h hsome => cases h with
      | nil => exact absurd rfl hsome
      | cons => simp
  | _ => simp

/-- An option reads as a setting to be made, or not at all, and what comes after it is read next. -/
theorem settingsFuel_reads (h : Spells ts o) (hrest : Ends rest) (n : Nat) (s : Settings) :
    (o.settingFor m = none ∧ ∃ e, settingsFuel m (n + 1) s (ts ++ rest) = .error e) ∨
      ∃ pos v, o.settingFor m = some v ∧ settingsFuel m (n + 1) s (ts ++ rest) = (s.set pos v).bind fun s =>
        if rest.isEmpty then .ok (s, rest)
        else (grammar (fun _ => Parse.symbol ",") rest).bind fun c =>
          if c.2.isEmpty then .ok (s, c.2) else settingsFuel m n s c.2 := by
  obtain ⟨pos, hreads⟩ := h.reads hrest m
  rw [settingsFuel_succ]
  cases hv : o.settingFor m with
  | none =>
    rw [hv] at hreads
    cases hreads with
    | error he => exact .inl ⟨rfl, _, by rw [he]; rfl⟩
  | some v =>
    rw [hv] at hreads
    cases hreads with
    | ok hok => exact .inr ⟨pos, v, rfl, by rw [hok]; rfl⟩

theorem settingsFor?_cons (m : Marker) (o : MarkerOption) (os : List MarkerOption) :
    settingsFor? m (o :: os) = (o.settingFor m).bind fun v => (settingsFor? m os).map (v :: ·) := by
  rw [settingsFor?, List.mapM_cons]
  refine congrArg _ (funext fun v => ?_)
  rw [Option.map_eq_bind]
  rfl

theorem Settings.setAll_cons (s : Settings) (pos : Pos) (v : Setting) (settings : List (Pos × Setting)) :
    s.setAll ((pos, v) :: settings) = (s.set pos v).bind fun s => s.setAll settings := by
  rw [setAll, List.foldlM_cons]
  rfl

theorem Options.eq_nil {us : List TokenTree} (h : Options us []) : us = [] := by
  cases h
  rfl

theorem Options.ne_nil {os : List MarkerOption} (h : Options ts os) (hos : os ≠ []) : ts ≠ [] := by
  cases h with
  | nil => exact absurd rfl hos
  | last h => exact h.ne_nil
  | cons h => exact List.append_ne_nil_of_left_ne_nil h.ne_nil _

/-- Options read as the settings that they mean, made in their order. If one of them means none, they do not read. -/
theorem settingsFuel_options {os : List MarkerOption} (h : Options ts os) (hos : os ≠ []) {n : Nat} (hn : ts.length ≤ n)
    (s : Settings) :
    (settingsFor? m os = none ∧ ∃ e, settingsFuel m n s ts = .error e) ∨
      ∃ settings, settingsFor? m os = some (settings.map Prod.snd) ∧
        settingsFuel m n s ts = (s.setAll settings).map (·, []) := by
  have hpos := List.length_pos_iff.mpr (h.ne_nil hos)
  obtain ⟨n, rfl⟩ : ∃ k, n = k + 1 := Nat.exists_eq_succ_of_ne_zero (by omega)
  induction h generalizing n s with
  | nil => exact absurd rfl hos
  | @last ts o h =>
    have hreads := settingsFuel_reads (m := m) h .nil n s
    rw [List.append_nil] at hreads
    obtain ⟨hnone, he⟩ | ⟨pos, v, hv, hread⟩ := hreads
    · exact .inl ⟨by rw [settingsFor?_cons, hnone]; rfl, he⟩
    · refine .inr ⟨[(pos, v)], by rw [settingsFor?_cons, hv]; rfl, ?_⟩
      rw [hread, Settings.setAll_cons]
      cases s.set pos v <;> rfl
  | @cons ts us o os h joint p rest ih =>
    obtain ⟨hnone, he⟩ | ⟨pos, v, hv, hread⟩ := settingsFuel_reads (m := m) h (.comma ⟨joint, p, us⟩) n s
    · exact .inl ⟨by rw [settingsFor?_cons, hnone]; rfl, he⟩
    · have hnext : settingsFuel m (n + 1) s (ts ++ .punct ',' joint p :: us) =
          (s.set pos v).bind fun s => if us.isEmpty then .ok (s, us) else settingsFuel m n s us := hread
      rw [hnext, settingsFor?_cons, hv]
      by_cases hos : os = []
      · subst hos
        obtain rfl := rest.eq_nil
        refine .inr ⟨[(pos, v)], rfl, ?_⟩
        rw [Settings.setAll_cons]
        cases s.set pos v <;> rfl
      · have hus := List.length_pos_iff.mpr (rest.ne_nil hos)
        rw [List.length_append, List.length_cons] at hn
        obtain ⟨n, rfl⟩ : ∃ k, n = k + 1 := Nat.exists_eq_succ_of_ne_zero (by omega)
        rw [show us.isEmpty = false by simpa using rest.ne_nil hos]
        -- Even if the setting cannot be made, what the other options mean decides which of the two cases it is.
        cases hset : s.set pos v with
        | error e =>
          obtain ⟨hnone, -⟩ | ⟨settings, hsettings, -⟩ := ih hos s hus n (by omega)
          · exact .inl ⟨by rw [Option.bind_some, hnone]; rfl, e, rfl⟩
          · refine .inr ⟨(pos, v) :: settings, by rw [Option.bind_some, hsettings]; rfl, ?_⟩
            rw [Settings.setAll_cons, hset]
            rfl
        | ok s' =>
          obtain ⟨hnone, he⟩ | ⟨settings, hsettings, hrest⟩ := ih hos s' hus n (by omega)
          · exact .inl ⟨by rw [Option.bind_some, hnone]; rfl, he⟩
          · refine .inr ⟨(pos, v) :: settings, by rw [Option.bind_some, hsettings]; rfl, ?_⟩
            rw [Settings.setAll_cons, hset]
            exact hrest

/-- Options read as the settings that they mean, made in their order. If one of them means none, they do not read. -/
theorem readSettings_options {os : List MarkerOption} (h : Options ts os) (m : Marker) :
    (settingsFor? m os = none ∧ ∃ e, readSettings m ts = .error e) ∨
      ∃ settings, settingsFor? m os = some (settings.map Prod.snd) ∧ readSettings m ts = Settings.setAll {} settings := by
  by_cases hos : os = []
  · subst hos
    obtain rfl := h.eq_nil
    exact .inr ⟨[], rfl, rfl⟩
  · have hts : ts.isEmpty = false := by simpa using h.ne_nil hos
    rw [readSettings, hts]
    obtain ⟨hnone, e, he⟩ | ⟨settings, hsettings, hread⟩ := settingsFuel_options (m := m) h hos (Nat.le_refl _) {}
    · refine .inl ⟨hnone, e, ?_⟩
      change (settingsFuel m ts.length {} ts).bind _ = _
      rw [he]
      rfl
    · refine .inr ⟨settings, hsettings, ?_⟩
      change (settingsFuel m ts.length {} ts).bind _ = _
      rw [hread]
      cases Settings.setAll {} settings <;> rfl

end CallProbe.Probe
