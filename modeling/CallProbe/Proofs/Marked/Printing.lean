import CallProbe.Proofs.Marked.Reading

/-! # What can be printed

A text is printed if no part of it lacks a layout, so whether items are printed is decided item by item and attribute by
attribute: `textOfItems_ok`, `prints_fnItem`. What is put around a function in a file can always be printed: the import
of the markers, a marker with whatever arguments, and the constant with the sources. -/

namespace CallProbe.Layout

open Source

/-- Whether all parts of a layout have one. -/
def Whole (d : Doc) : Prop := missing? d = none

theorem text_ok {d : Doc} : (∃ s, text d = .ok s) ↔ Whole d := by
  unfold text Whole
  cases missing? d <;> simp

/-! ### Building blocks -/

@[simp]
theorem whole_append {a b : Doc} : Whole (a ++ b) ↔ Whole a ∧ Whole b := by
  simp [Whole, missing?, List.findSome?_append]

@[simp]
theorem whole_nil : Whole [] := rfl

@[simp]
theorem whole_nothing : Whole nothing := rfl

@[simp]
theorem whole_word (s : String) : Whole (word s) := rfl

@[simp]
theorem whole_blanks (n : Nat) : Whole (blanks n) := rfl

@[simp]
theorem whole_noBreak : Whole noBreak := rfl

@[simp]
theorem whole_outdent : Whole outdent := rfl

@[simp]
theorem whole_comma (last : Bool) : Whole (comma last) := by
  cases last <;> rfl

@[simp]
theorem whole_commaOrSpace (last : Bool) : Whole (commaOrSpace last) := by
  cases last <;> rfl

@[simp]
theorem whole_uniformBox {offset : Int} {d : Doc} : Whole (uniformBox offset d) ↔ Whole d := by
  simp [uniformBox, Whole, missing?]

@[simp]
theorem whole_filledBox {offset : Int} {d : Doc} : Whole (filledBox offset d) ↔ Whole d := by
  simp [filledBox, Whole, missing?]

theorem whole_flatMap {α : Type} {f : α → Doc} {as : List α} : Whole (as.flatMap f) ↔ ∀ a ∈ as, Whole (f a) := by
  induction as with
  | nil => simp
  | cons a as ih => simp [ih]

theorem whole_eachFrom {α : Type} {f : Bool → Bool → α → Doc} {first : Bool} {as : List α}
    (h : ∀ first last, ∀ a ∈ as, Whole (f first last a)) : Whole (eachFrom f first as) := by
  induction first, as using eachFrom.induct with
  | case1 => exact whole_nil
  | case2 first a => exact h first true a (by simp)
  | case3 first a b rest ih =>
    rw [eachFrom]
    exact whole_append.mpr ⟨h first false a (by simp), ih fun first last c hc => h first last c (by simp [hc])⟩

/-! ### Attributes and visibility -/

@[simp]
theorem whole_attrSpace (inBrackets : Bool) : Whole (attrSpace inBrackets) := by
  cases inBrackets <;> rfl

theorem whole_dite {c : Prop} [Decidable c] {a b : Doc} (ha : Whole a) (hb : Whole b) : Whole (if _ : c then a else b) := by
  split
  · exact ha
  · exact hb

mutual

/-- The arguments of an attribute always have a layout. -/
theorem whole_attrTokens (inBrackets : Bool) (s : AttrSpacing) : ∀ ts, Whole (attrTokens inBrackets s ts).1
  | [] => whole_nil
  | t :: ts => by
    rw [attrTokens]
    exact whole_append.mpr ⟨whole_attrToken inBrackets s ts.isEmpty t, whole_attrTokens inBrackets _ ts⟩

theorem whole_attrToken (inBrackets : Bool) (s : AttrSpacing) (isLast : Bool) :
    ∀ t, Whole (attrToken inBrackets s isLast t).1
  | .ident t _ | .literal t _ => whole_append.mpr ⟨whole_dite (whole_attrSpace _) whole_nothing, whole_word t⟩
  | .lifetime t _ => whole_word t
  | .punct c _ _ => by
    have hgap : Whole (if s = .wordLike ∧ c = '=' then word " " else nothing) := whole_dite (whole_word _) whole_nothing
    have hafter : Whole (if c = '=' then word " " else if c = ',' then attrSpace inBrackets else nothing) :=
      whole_dite (whole_word _) (whole_dite (whole_attrSpace _) whole_nothing)
    rw [attrToken]
    split <;> simp [hgap, hafter]
  | .group delim _ content _ => by
    have hinner := whole_attrTokens true .mark content
    have hbreak : Whole softBreak := whole_blanks 0
    have hclose : Whole (if (attrTokens true .mark content).2 = .finalComma then nothing else softBreak) :=
      whole_dite whole_nothing hbreak
    rw [attrToken]
    cases delim <;> simp [hinner, hbreak, hclose]

end

theorem whole_visDoc (vis : Tree) : Whole (visDoc vis) := by
  unfold visDoc
  split <;> simp [spelled]

open Probe

/-- An attribute with arguments in brackets has a layout, whatever the arguments are. -/
theorem whole_listAttr (show_ : Show) (pound path : Tree) (d e : Delimiter) (o o' c c' : Pos) (args : List TokenTree) :
    Whole (attrDoc show_ (.node .attr [pound, .absent,
      .group d o [.node .metaList [path, .group e o' [.tokens args] c']] c])) := by
  have harguments := whole_attrTokens false .wordLike [.group e o' args c']
  change Whole (word "#" ++ word "[" ++ (word _ ++ (attrTokens false .wordLike _).1) ++ word "]" ++ space)
  simp [space, harguments]

/-! ### Items -/

theorem trees_eq (c : Grouping.Caution) (ts : List Tree) : Grouping.trees c ts = ts.map (Grouping.tree c {}) := by
  induction ts with
  | nil => rfl
  | cons t ts ih => rw [Grouping.trees, ih, List.map_cons]

/-- Whether an item can be printed where it stands in a file. -/
def Prints (i : Tree) : Prop := Whole (itemDoc layout .module (Grouping.tree .most {} i))

/-- A text is printed exactly if every item of it is. -/
theorem textOfItems_ok {items : List Tree} :
    (∃ s, textOfItems .noAttrs items = .ok s) ↔ ∀ i ∈ items, Prints i := by
  have hnone : attrsDoc layout (Grouping.tree .most {} .noAttrs) = nothing := rfl
  rw [textOfItems, text_ok, itemsLayout, whole_uniformBox, hnone, whole_append, trees_eq, whole_flatMap]
  simp [Prints]

/-- A function item is printed if its attributes are, and the rest of it. -/
theorem prints_fnItem {as : List Tree} {vis sig body : Tree} :
    Prints (.node .fnItem [.node .attrs as, vis, sig, body]) ↔
      (∀ a ∈ as, Whole (attrDoc layout (Grouping.tree .most {} a))) ∧
        Prints (.node .fnItem [.noAttrs, vis, sig, body]) := by
  have hitem : ∀ as', Grouping.tree .most {} (.node .fnItem [.node .attrs as', vis, sig, body]) =
      .node .fnItem [.node .attrs (Grouping.trees .most as'), Grouping.tree .most {} vis, Grouping.tree .most {} sig,
        Grouping.tree .most {} body] := fun _ => rfl
  rw [Prints, Prints, Tree.noAttrs, hitem, hitem, itemDoc, itemDoc, whole_append, whole_append]
  have hattrs : ∀ as', attrsDoc layout (outerAttrs (.node .fnItem [.node .attrs (Grouping.trees .most as'),
      Grouping.tree .most {} vis, Grouping.tree .most {} sig, Grouping.tree .most {} body])) =
      as'.flatMap fun a => attrDoc layout (Grouping.tree .most {} a) := by
    intro as'
    rw [trees_eq]
    exact List.flatMap_map ..
  rw [hattrs, hattrs, whole_flatMap]
  simp only [List.flatMap_nil, whole_nil, true_and]
  exact Iff.rfl

/-- A marker makes no difference to whether a function item is printed. -/
theorem prints_marked {m : Marker} {place : Nat → Pos} {args : List TokenTree} {as : List Tree} {vis sig body : Tree} :
    Prints (.node .fnItem [.node .attrs (m.attr place args :: as), vis, sig, body]) ↔
      Prints (.node .fnItem [.node .attrs as, vis, sig, body]) := by
  have hmarker : Grouping.tree .most {} (m.attr place args) = m.attr place args := rfl
  have hwhole : Whole (attrDoc layout (m.attr place args)) := whole_listAttr ..
  rw [prints_fnItem, List.forall_mem_cons, hmarker, and_assoc, and_iff_right hwhole]
  exact prints_fnItem.symm

theorem prints_importItem (place : Nat → Pos) : Prints (importItem place) := by
  have hgrouped : Grouping.tree .most {} (importItem place) = importItem place := rfl
  rw [Prints, hgrouped]
  change Whole (nothing ++ (nothing ++ word "use " ++ nothing ++ (word "shallow_runtime" ++ word "::" ++
    (word "\x7b" ++ uniformBox tab (blanks 0 ++ filledBox 0 (word "profile" ++ word "," ++ blanks 1 ++ word "wrap_calls") ++
      comma true ++ outdent) ++ word "\x7d")) ++ word ";" ++ lineBreak))
  simp [lineBreak]

/-! ### The constant with the sources -/

/-- A text that is written as a string can be read again, so it has a layout. -/
theorem whole_string (show_ : Show) (s : String) : Whole (formDoc show_ (.inner (Make.string s))) := by
  have hread : (Literal.ofText (Text.quote s)).isNone = false := by
    simp [Literal.ofText, Text.quote]
  have hliteral : literalDoc (.leaf (.literal (Text.quote s) Pos.none)) = spelled (.leaf (.literal (Text.quote s) Pos.none)) := by
    rw [literalDoc, hread]
    rfl
  change Whole (nothing ++ literalDoc (.leaf (.literal (Text.quote s) Pos.none)))
  rw [hliteral]
  exact whole_append.mpr ⟨whole_nothing, whole_word _⟩

theorem whole_structExpr {show_ : Show} {path fields : Tree} {o c : Pos} (hpath : Whole (pathDoc show_ .inExpr path))
    (hfields : ∀ f ∈ fields.elements, Whole (fieldValueDoc show_ f)) :
    Whole (formDoc show_ (.inner (.node .structExpr
      [.noAttrs, path, .group .brace o [fields, .absent, .absent] c]))) := by
  change Whole (nothing ++ ([Op.box tab true] ++ filledBox (-tab) (pathDoc show_ .inExpr path) ++ word " \x7b" ++
    spaceIfFollowed ++ each (fun last f => fieldValueDoc show_ f ++ commaOrSpace (last && !false)) fields.elements ++
    nothing ++ outdent ++ [Op.closeWithin 34] ++ word "\x7d"))
  have heach : Whole (each (fun last f => fieldValueDoc show_ f ++ commaOrSpace (last && !false)) fields.elements) :=
    whole_eachFrom fun _ last f hf => whole_append.mpr ⟨hfields f hf, whole_commaOrSpace _⟩
  have hbox : Whole [Op.box tab true] ∧ Whole spaceIfFollowed ∧ Whole [Op.closeWithin 34] := ⟨rfl, rfl, rfl⟩
  simp only [whole_append, whole_filledBox, whole_nothing, whole_word, whole_outdent, hpath, heach, hbox, and_self]

theorem whole_stringField (fuel : Nat) (n s : String) : Whole (fieldValueDoc (layoutFuel (fuel + 1))
    (.node .fieldValue [.noAttrs, Make.word n, Make.symbol ":", Make.string s])) := by
  change Whole (nothing ++ word n ++ (word ": " ++ filledBox 0 (formDoc (layoutFuel fuel) (.inner (Make.string s)))))
  simp only [whole_append, whole_filledBox, whole_nothing, whole_word, whole_string, and_self]

/-- The constant with the sources can be printed, whatever the sources are. -/
theorem prints_detailsConst (vis : Tree) (n function before after : String) :
    Prints (detailsConst vis n function before after) := by
  let path := Make.path true ["shallow_runtime", "RewriteDetails"]
  let field (n v : String) : Tree := .node .fieldValue [.noAttrs, Make.word n, Make.symbol ":", Make.string v]
  let fields : Tree := .list (Make.terminated [field "function" function, field "original_source" before,
    field "new_source" after])
  let value : Tree := .node .structExpr [.noAttrs, path, .group .brace Pos.none [fields, .absent, .absent] Pos.none]
  have helements : fields.elements =
      [field "function" function, field "original_source" before, field "new_source" after] := rfl
  have hvalue : Whole (layout (.inner value)) := by
    refine whole_structExpr rfl fun f hf => ?_
    rw [helements] at hf
    simp only [List.mem_cons, List.not_mem_nil, or_false] at hf
    rcases hf with rfl | rfl | rfl <;> exact whole_stringField ..
  have htype : Whole (layout (.type (.node .pathType [path]))) := rfl
  have hattrs : Whole (attrsDoc layout (.node .attrs [Function.listAttr "allow" "dead_code"])) :=
    whole_flatMap.mpr (List.forall_mem_singleton.mpr (whole_listAttr ..))
  have hvis := whole_visDoc (Grouping.tree .most {} vis)
  change Whole (attrsDoc layout (.node .attrs [Function.listAttr "allow" "dead_code"]) ++
    (uniformBox 0 (visDoc (Grouping.tree .most {} vis) ++ word "const " ++ word n ++ word ": " ++
      layout (.type (.node .pathType [path])) ++ (word " = " ++ noBreak ++ layout (.inner value)) ++ word ";") ++
      lineBreak))
  simp only [whole_append, whole_uniformBox, whole_word, whole_noBreak, lineBreak, whole_blanks, hattrs, hvis, htype,
    hvalue, and_self]

end CallProbe.Layout
