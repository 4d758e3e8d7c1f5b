import CallProbe.Proofs.Pass.Imports
import CallProbe.Proofs.Pass.Resolved

/-! # Markers that are imported

What a `use` brings in is a list of paths, however its braces are nested. A bare `#[profile]` is a marker in a file just if
a path of some `use` that stands in the file leads into a crate that exports markers and ends there in `profile` or in all
of the crate; what else is a marker does not depend on the file (`profile_recognised_iff`). A `use` with colons in front of
a path in its braces is only passed through and stands nowhere, so it brings in nothing (`profile_missed_in_braces`). -/

namespace CallProbe.Probe

open Source Call Parse

/-! ### Paths of a use tree -/

/-- How a path that a `use` brings in ends. -/
inductive UseEnd where
  | name (n : String)
  | rename (n new : String)
  | all
deriving DecidableEq, Repr

/-- A path that a `use` brings in. -/
structure UsePath where
  names : List String
  last : UseEnd
deriving DecidableEq, Repr

def UsePath.under (n : String) (p : UsePath) : UsePath := { p with names := n :: p.names }

/-- The paths of a use tree, its braces taken apart. Colons in front of a path in braces count as a name of it. -/
def usePaths : Tree → List UsePath
  | .node .usePath [n, _, t] => (usePaths t).map (.under n.text)
  | .node .useName [n] => [⟨[], .name n.text⟩]
  | .node .useRename [n, _, new] => [⟨[], .rename n.text new.text⟩]
  | .node .useGlob _ => [⟨[], .all⟩]
  | .node .useGroup [.group _ _ [.node .list ts] _] => pathsOfAll ts
  | .node .verbatimItem [_, t] => (usePaths t).map (.under "::")
  | _ => []
where
  pathsOfAll : List Tree → List UsePath
    | [] => []
    | t :: ts => usePaths t ++ pathsOfAll ts

/-- A path that is `profile` in a crate that exports markers, or all of such a crate. -/
def UsePath.IsImport (p : UsePath) : Prop :=
  (∃ c ∈ markerCrates, p.names = [c]) ∧ (p.last = .name "profile" ∨ p.last = .all)

instance (p : UsePath) : Decidable p.IsImport := inferInstanceAs (Decidable (_ ∧ _))

/-- What a path has to be for an import, seen from inside or from outside of the crate. -/
def UsePath.IsImportFrom (p : UsePath) : (inCrate : Bool) → Prop
  | true => p.names = [] ∧ (p.last = .name "profile" ∨ p.last = .all)
  | false => p.IsImport

/-- A path without the colons in front of it. -/
def UsePath.unrooted : UsePath → UsePath
  | ⟨"::" :: names, last⟩ => ⟨names, last⟩
  | p => p

namespace UsePath

variable {p : UsePath} {inCrate : Bool}

theorem isImportFrom_under (n : String) :
    (p.under n).IsImportFrom inCrate ↔ inCrate = false ∧ n ∈ markerCrates ∧ p.IsImportFrom true := by
  cases inCrate with
  | true => simp [IsImportFrom, under]
  | false =>
    simp only [IsImportFrom, IsImport, under, List.cons.injEq, true_and]
    constructor
    · rintro ⟨⟨c, hc, rfl, hnames⟩, hlast⟩
      exact ⟨hc, hnames, hlast⟩
    · rintro ⟨hn, hnames, hlast⟩
      exact ⟨⟨n, hn, rfl, hnames⟩, hlast⟩

theorem isImportFrom_end (e : UseEnd) :
    (⟨[], e⟩ : UsePath).IsImportFrom inCrate ↔ inCrate = true ∧ (e = .name "profile" ∨ e = .all) := by
  cases inCrate <;> simp [IsImportFrom, IsImport]

theorem IsImport.unrooted (h : p.IsImport) : p.unrooted.IsImport := by
  obtain ⟨⟨c, hc, hnames⟩, hlast⟩ := h
  obtain ⟨names, last⟩ := p
  obtain rfl : names = [c] := hnames
  unfold UsePath.unrooted
  split
  · rename_i heq
    cases heq
    exact absurd hc (by decide)
  · exact ⟨⟨c, hc, rfl⟩, hlast⟩

end UsePath

/-- A use tree brings in `profile` just if one of its paths does. The way down from the crate's name to the end of the path
    is one step, so the induction is for both sides of that name. -/
theorem importsProfile_iff (inCrate : Bool) (t : Tree) :
    importsProfile inCrate t = true ↔ ∃ p ∈ usePaths t, p.IsImportFrom inCrate := by
  refine usePaths.induct
    (fun ts => ∀ inCrate, importsProfile.anyImportsProfile inCrate ts = true ↔
      ∃ p ∈ usePaths.pathsOfAll ts, p.IsImportFrom inCrate)
    (fun t => ∀ inCrate, importsProfile inCrate t = true ↔ ∃ p ∈ usePaths t, p.IsImportFrom inCrate)
    ?path ?name ?rename ?glob ?braces ?rooted ?other ?nil ?cons t inCrate
  case path =>
    intro n sep t ih inCrate
    simp only [importsProfile, usePaths, List.mem_map, exists_exists_and_eq_and, UsePath.isImportFrom_under,
      Bool.and_eq_true, Bool.not_eq_true', List.contains_eq_mem, decide_eq_true_eq, ih]
    constructor
    · rintro ⟨⟨houtside, hcrate⟩, p, hp, hinside⟩
      exact ⟨p, hp, houtside, hcrate, hinside⟩
    · rintro ⟨p, hp, houtside, hcrate, hinside⟩
      exact ⟨⟨houtside, hcrate⟩, p, hp, hinside⟩
  case name =>
    intro n inCrate
    simp [importsProfile, usePaths, UsePath.isImportFrom_end]
  case rename =>
    intro n sep new inCrate
    simp [importsProfile, usePaths, UsePath.isImportFrom_end]
  case glob =>
    intro cs inCrate
    simp [importsProfile, usePaths, UsePath.isImportFrom_end]
  case braces =>
    intro d o ts c ih inCrate
    simpa only [importsProfile, usePaths] using ih inCrate
  case rooted =>
    -- The colons in front of a path are its first name, which is not that of a crate.
    intro lead t ih inCrate
    have hcolons : "::" ∉ markerCrates := by decide
    simp [importsProfile, usePaths, UsePath.isImportFrom_under, hcolons]
  case other =>
    intro t hpath hname hrename hglob hbraces hrooted inCrate
    have hnone : importsProfile inCrate t = false := by
      rw [importsProfile]
      all_goals assumption
    have hpaths : usePaths t = [] := by
      rw [usePaths]
      all_goals assumption
    simp [hnone, hpaths]
  case nil =>
    intro inCrate
    simp [importsProfile.anyImportsProfile, usePaths.pathsOfAll]
  case cons =>
    intro t ts ih ihs inCrate
    simp [importsProfile.anyImportsProfile, usePaths.pathsOfAll, ih, ihs, or_and_right, exists_or]

/-! ### Declarations in a file -/

/-- A `use` of the use tree `t` stands in a tree: in whatever module or body, but not inside of another `use`. -/
inductive Uses (t : Tree) : Tree → Prop where
  | here {cs : List Tree} : usedTree? cs = some t → Uses t (.node .useItem cs)
  | node {k : Kind} {cs : List Tree} {c : Tree} : (k = .useItem → usedTree? cs = none) → c ∈ cs → Uses t c →
      Uses t (.node k cs)
  | group {d : Delimiter} {o cl : Pos} {content : List Tree} {c : Tree} : c ∈ content → Uses t c →
      Uses t (.group d o content cl)

/-- Reads a `use` for its use tree. -/
def useDeclaration (reach : Reach) : Parser Tree := do
  let _ ← outerAttrs reach
  let _ ← visibility
  let _ ← word "use"
  let lead ← symbol? "::"
  let t ← reach (.useTree (!lead.isPresent))
  let _ ← symbol ";"
  return t

/-- A `use` of the use tree `t` is written in a tree, wherever that is, and also if it is only passed through. -/
inductive Declares (t : Tree) : Tree → Prop where
  | here {cs : List Tree} : usedTree? cs = some t → Declares t (.node .useItem cs)
  | passed {start rest : List TokenTree} : useDeclaration Grammar.reach start = .ok (t, rest) →
      Declares t (.node .verbatimItem [.tokens (start.take (start.length - rest.length))])
  | node {k : Kind} {cs : List Tree} {c : Tree} : c ∈ cs → Declares t c → Declares t (.node k cs)
  | group {d : Delimiter} {o cl : Pos} {content : List Tree} {c : Tree} : c ∈ content → Declares t c →
      Declares t (.group d o content cl)

section
variable {t u : Tree}

theorem Uses.toDeclares (h : Uses t u) : Declares t u := by
  induction h with
  | here ht => exact .here ht
  | node _ hc _ ih => exact .node hc ih
  | group hc _ ih => exact .group hc ih

theorem not_uses_tokens (ts : List TokenTree) : ¬Uses t (.tokens ts) := by
  intro huse
  cases huse

theorem uses_use {cs : List Tree} (h : usedTree? cs = some u) : Uses t (.node .useItem cs) ↔ t = u := by
  constructor
  · intro huse
    cases huse with
    | here ht => exact Option.some.inj (ht.symm.trans h)
    | node hk => exact absurd (hk rfl) (by simp [h])
  · rintro rfl
    exact .here h

theorem uses_node {k : Kind} {cs : List Tree} (h : k = .useItem → usedTree? cs = none) :
    Uses t (.node k cs) ↔ ∃ c ∈ cs, Uses t c := by
  constructor
  · intro huse
    cases huse with
    | here ht => exact absurd (h rfl) (by simp [ht])
    | node _ hc hu => exact ⟨_, hc, hu⟩
  · rintro ⟨c, hc, hu⟩
    exact .node h hc hu

theorem uses_group {d : Delimiter} {o cl : Pos} {content : List Tree} :
    Uses t (.group d o content cl) ↔ ∃ c ∈ content, Uses t c := by
  constructor
  · intro huse
    cases huse with
    | group hc hu => exact ⟨_, hc, hu⟩
  · rintro ⟨c, hc, hu⟩
    exact .group hc hu

end

mutual

/-- A tree brings in `profile` just if a `use` that stands in it does. -/
theorem bringsInProfile_iff : ∀ u : Tree, bringsInProfile u = true ↔ ∃ t, Uses t u ∧ importsProfile false t = true
  | .leaf _ | .tokens _ | .arguments _ _ => by
    simp only [bringsInProfile, Bool.false_eq_true, false_iff]
    rintro ⟨t, hu, -⟩
    cases hu
  | .group _ _ content _ => by
    simp only [bringsInProfile, anyBringsInProfile_iff content, uses_group]
  | .node k cs => by
    have hchildren (h : k = .useItem → usedTree? cs = none) :
        anyBringsInProfile cs = true ↔ ∃ t, Uses t (.node k cs) ∧ importsProfile false t = true := by
      simp only [anyBringsInProfile_iff cs, uses_node h]
    by_cases hk : k = .useItem
    · subst hk
      rw [bringsInProfile_use]
      cases hcs : usedTree? cs with
      | some t => simp [uses_use hcs]
      | none => simpa using hchildren fun _ => hcs
    · rw [bringsInProfile_other cs hk]
      exact hchildren fun h => absurd h hk

theorem anyBringsInProfile_iff : ∀ us : List Tree,
    anyBringsInProfile us = true ↔ ∃ t, (∃ u ∈ us, Uses t u) ∧ importsProfile false t = true
  | [] => by simp [anyBringsInProfile]
  | u :: us => by
    simp only [anyBringsInProfile, Bool.or_eq_true, bringsInProfile_iff u, anyBringsInProfile_iff us,
      List.exists_mem_cons_iff, or_and_right, exists_or]

end

/-! ### Declarations that are read -/

theorem word_ok {w : String} {ts rest : List TokenTree} {t : Tree} (h : word w ts = .ok (t, rest)) :
    ∃ p, ts = .ident w p :: rest := by
  cases ts with
  | nil => cases h
  | cons a ts =>
    cases a with
    | ident s p =>
      rw [word, bind_get] at h
      split at h
      · rename_i hw
        cases h
        exact ⟨p, by rw [beq_iff_eq.mp hw]⟩
      · cases h
    | _ => cases h

theorem itemRest_of_use {reach : Reach} {begin ts ts₁ ts₂ ts₃ rest : List TokenTree} {vis u lead t semi : Tree}
    (huse : word "use" ts = .ok (u, ts₁)) (hlead : symbol? "::" ts₁ = .ok (lead, ts₂))
    (ht : reach (.useTree (!lead.isPresent)) ts₂ = .ok (t, ts₃)) (hsemi : symbol ";" ts₃ = .ok (semi, rest)) :
    itemRest reach begin vis ts = .ok (if hasInnerRoot t then
      .node .verbatimItem [.tokens (begin.take (begin.length - rest.length))]
      else .node .useItem [.noAttrs, vis, u, lead, t, semi], rest) := by
  obtain ⟨p, rfl⟩ := word_ok huse
  have hsig : signatureAhead false (.ident "use" p :: ts₁) = false := rfl
  have hextern : Ahead.word "extern" (.ident "use" p :: ts₁) = false := rfl
  have hword : Ahead.word "use" (.ident "use" p :: ts₁) = true := rfl
  rw [itemRest, bind_get]
  simp only [hsig, hextern, hword, Bool.false_eq_true, ↓reduceIte]
  rw [bind_of_ok huse, bind_of_ok hlead, bind_of_ok ht, bind_of_ok hsemi]
  split
  · rfl
  · rfl

/-- A `use` that is read is written in the item that it becomes, and stands there if no path in its braces has colons in
    front of it. -/
theorem item_of_useDeclaration {ts rest : List TokenTree} {t : Tree}
    (h : useDeclaration Grammar.reach ts = .ok (t, rest)) :
    ∃ i, item Grammar.reach ts = .ok (i, rest) ∧ Declares t i ∧ (Uses t i ↔ hasInnerRoot t = false) := by
  have hread := h
  obtain ⟨attrs, ts₁, hattrs, h⟩ := bind_ok h
  obtain ⟨vis, ts₂, hvis, h⟩ := bind_ok h
  obtain ⟨u, ts₃, huse, h⟩ := bind_ok h
  obtain ⟨lead, ts₄, hlead, h⟩ := bind_ok h
  obtain ⟨t', ts₅, ht, h⟩ := bind_ok h
  obtain ⟨semi, ts₆, hsemi, h⟩ := bind_ok h
  obtain ⟨rfl, rfl⟩ := pure_ok h
  obtain ⟨as, -, rfl⟩ := outerAttrs_ok hattrs
  rw [item, bind_get, bind_of_ok hattrs, bind_of_ok hvis, bind_of_ok (itemRest_of_use huse hlead ht hsemi)]
  cases hasInnerRoot t' with
  | true =>
    refine ⟨.node .verbatimItem [.tokens (ts.take (ts.length - ts₆.length))], rfl, .passed hread, ?_⟩
    rw [uses_node (by simp)]
    simpa using not_uses_tokens _
  | false =>
    have hstands : usedTree? [.node .attrs as, vis, u, lead, t', semi] = some t' := rfl
    refine ⟨.node .useItem [.node .attrs as, vis, u, lead, t', semi], ?_, .here hstands, by simp [uses_use hstands]⟩
    simp [Tree.addAttrs, Tree.attrList, Tree.noAttrs, Tree.kind?]
    rfl

/-! ### Recognised markers -/

section
variable {imports : Imports} {attr : Tree}

theorem marker?_bare (h : Target.pathNames (attrPath attr) = ["profile"]) :
    imports.marker? attr = some .profile ↔ imports.profile = true := by
  have hof : Marker.of? attr = some .profile := by
    rw [Marker.of?, h]
    rfl
  simp [Imports.marker?, hof, h]

/-- Only a bare `#[profile]` asks for the imports: no other marker has this one name. -/
theorem marker?_of_ne (h : Target.pathNames (attrPath attr) ≠ ["profile"]) : imports.marker? attr = Marker.of? attr := by
  cases hof : Marker.of? attr with
  | none => simp [Imports.marker?, hof]
  | some m =>
    cases m with
    | wrapCalls => simp [Imports.marker?, hof]
    | profile =>
      have hlength : (Target.pathNames (attrPath attr)).length ≠ 1 := by
        intro hone
        obtain ⟨n, hn⟩ := List.length_eq_one_iff.mp hone
        have hname : Marker.ofName? n = some .profile := by
          rw [← hof, Marker.of?, hn]
        unfold Marker.ofName? at hname
        split at hname
        · cases hname
        · split at hname
          · rename_i hprofile
            exact h (hprofile ▸ hn)
          · cases hname
      simp [Imports.marker?, hof, hlength]

end

/-- A bare `#[profile]` is a marker just if a path of a `use` that stands in the file is an import. That is the case just if
    such a path is written in the file, unless all of these paths are written where no `use` stands. All other attributes
    are what they are by themselves. A `use` that is read stands where it is written if no path in its braces has colons in
    front of it, and otherwise nowhere. -/
theorem profile_recognised_iff (file attr : Tree) :
    (Target.pathNames (attrPath attr) = ["profile"] →
      ((Imports.ofFile file).marker? attr = some .profile ↔ ∃ t, Uses t file ∧ ∃ p ∈ usePaths t, p.IsImport) ∧
      (((Imports.ofFile file).marker? attr = some .profile ↔
          ∃ t, Declares t file ∧ ∃ p ∈ usePaths t, p.unrooted.IsImport) ↔
        ∀ t, Declares t file → ∀ p ∈ usePaths t, p.unrooted.IsImport → ∃ u, Uses u file ∧ ∃ q ∈ usePaths u, q.IsImport)) ∧
    (Target.pathNames (attrPath attr) ≠ ["profile"] → (Imports.ofFile file).marker? attr = Marker.of? attr) ∧
    ∀ (ts rest : List TokenTree) (t : Tree), useDeclaration Grammar.reach ts = .ok (t, rest) →
      ∃ i, item Grammar.reach ts = .ok (i, rest) ∧ Declares t i ∧ (Uses t i ↔ hasInnerRoot t = false) := by
  refine ⟨fun hbare => ?_, marker?_of_ne, fun ts rest t => item_of_useDeclaration⟩
  have huses : (Imports.ofFile file).marker? attr = some .profile ↔
      ∃ t, Uses t file ∧ ∃ p ∈ usePaths t, p.IsImport := by
    rw [marker?_bare hbare, Imports.ofFile, bringsInProfile_iff]
    exact exists_congr fun t => and_congr_right fun _ => importsProfile_iff false t
  refine ⟨huses, ?_⟩
  rw [huses]
  -- What stands somewhere is written there, so only the way back needs the hypothesis.
  constructor
  · intro hall t ht p hp himport
    exact hall.mpr ⟨t, ht, p, hp, himport⟩
  · intro hall
    constructor
    · rintro ⟨t, ht, p, hp, himport⟩
      exact ⟨t, ht.toDeclares, p, hp, himport.unrooted⟩
    · rintro ⟨t, ht, p, hp, himport⟩
      exact hall t ht p hp himport

/-- The tokens of a `use` of `::shallow_runtime::profile` in braces. -/
def bracedImport : List TokenTree :=
  [.ident "use" Pos.none, .group .brace Pos.none
    [.punct ':' true Pos.none, .punct ':' false Pos.none, .ident "shallow_runtime" Pos.none, .punct ':' true Pos.none,
      .punct ':' false Pos.none, .ident "profile" Pos.none] Pos.none, .punct ';' false Pos.none]

/-- A module with a function that brings in `profile` from within three pairs of braces, next to two paths that do not. -/
def nestedImport : String :=
  "mod jobs \x7b fn run() \x7b use \x7bother::profile, shallow::\x7bprofile as p, \x7bprofile\x7d\x7d\x7d; \x7d \x7d"

/-- A deep `use` is found and makes a bare attribute a marker, a marker under its crate is one anyway, and a `use` with
    colons in its braces is read and stands nowhere. -/
theorem profile_recognised_nested : ∃ file bare wrap t i, fileOfText "lib.rs" nestedImport = .ok file ∧
    Target.pathNames (attrPath bare) = ["profile"] ∧ (∃ t, Uses t file ∧ ∃ p ∈ usePaths t, p.IsImport) ∧
    Target.pathNames (attrPath wrap) ≠ ["profile"] ∧ (Imports.ofFile file).marker? wrap = some .wrapCalls ∧
    useDeclaration Grammar.reach bracedImport = .ok (t, []) ∧ item Grammar.reach bracedImport = .ok (i, []) ∧ Declares t i ∧
    ¬Uses t i := by
  obtain ⟨file, hfile, hmarker⟩ := @ok_of_any _ _ (fileOfText "lib.rs" nestedImport)
    (fun file => (Imports.ofFile file).marker? (Marker.profile.attr (fun _ => Pos.none) []) == some .profile)
    (by decide +kernel)
  obtain ⟨hbare, -, hread⟩ := profile_recognised_iff file (Marker.profile.attr (fun _ => Pos.none) [])
  obtain ⟨-, hother, -⟩ := profile_recognised_iff file (Marker.wrapCalls.attr (fun _ => Pos.none) [])
  obtain ⟨t, htree, hroot⟩ : ∃ t, useDeclaration Grammar.reach bracedImport = .ok (t, []) ∧ hasInnerRoot t = true :=
    ⟨_, rfl, rfl⟩
  obtain ⟨i, hitem, hdeclares, hstands⟩ := hread bracedImport [] t htree
  have hne : Target.pathNames (attrPath (Marker.wrapCalls.attr (fun _ => Pos.none) [])) ≠ ["profile"] := by decide
  refine ⟨file, Marker.profile.attr (fun _ => Pos.none) [], Marker.wrapCalls.attr (fun _ => Pos.none) [], t, i, hfile, rfl,
    (hbare rfl).1.mp (beq_iff_eq.mp hmarker), hne, hother hne, htree, hitem, hdeclares, ?_⟩
  rw [hstands, hroot]
  simp

/-- A file that is the one `use` in braces brings in `profile` from one of the crates, and a bare `#[profile]` is no marker
    in it. -/
theorem profile_missed_in_braces : ¬∀ (ts : List TokenTree) (file attr : Tree), Grammar.parseFile ts = .ok file →
    Target.pathNames (attrPath attr) = ["profile"] →
      ((Imports.ofFile file).marker? attr = some .profile ↔
        ∃ t, Declares t file ∧ ∃ p ∈ usePaths t, p.unrooted.IsImport) := by
  intro hall
  have hparse : Grammar.parseFile bracedImport =
      .ok (.node .file [.noAttrs, .node .items [.node .verbatimItem [.tokens bracedImport]]]) := rfl
  obtain ⟨t, htree, hpaths⟩ : ∃ t, useDeclaration Grammar.reach bracedImport = .ok (t, []) ∧
      usePaths t = [⟨["::", "shallow_runtime"], .name "profile"⟩] := ⟨_, rfl, rfl⟩
  have hitem : Declares t (.node .verbatimItem [.tokens bracedImport]) := .passed htree
  have hitems : Declares t (.node .items [.node .verbatimItem [.tokens bracedImport]]) :=
    .node (List.mem_singleton_self _) hitem
  have hmarker := (hall _ _ (Marker.profile.attr (fun _ => Pos.none) []) hparse rfl).mpr
    ⟨t, .node (by simp) hitems, _, hpaths ▸ List.mem_singleton_self _, by decide⟩
  exact absurd hmarker (by decide)

end CallProbe.Probe
