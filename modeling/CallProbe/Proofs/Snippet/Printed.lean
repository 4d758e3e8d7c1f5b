import CallProbe.Proofs.Grouping.Forms
import CallProbe.Proofs.Names.Printed
import CallProbe.Proofs.Snippet.Characters
import CallProbe.Proofs.Snippet.Folded

/-! # Snippets of calls

A call is laid out as the value of a constant, and its snippet is made from what stands between the start of the
constant and its semicolon. Whatever the value is, nothing that comes after the start of the constant changes it: a word
stays when it is settled (`settle_behind`), and lines only grow (`Line.text_foldl`). So the text of the constant always has
its two ends (`render_constantLayout`), and the whole text, which is the fallback, never becomes a snippet. -/

namespace CallProbe.Layout

open Source

/-! ### Settling behind a word -/

section
variable {t : String} {w : Nat} {ps : List Piece}

theorem closeBox_behind (later : List Piece) :
    ∃ later', closeBox (later ++ .word t w :: ps) = later' ++ .word t w :: ps := by
  cases later with
  | nil => exact ⟨[.close], rfl⟩
  | cons p later =>
    cases p with
    | gap g =>
      let kept : Piece := if g.ifFollowed then .edge else .gap g
      cases later with
      | nil => exact ⟨[.close, kept], rfl⟩
      | cons q later =>
        cases q with
        | box => exact ⟨later, rfl⟩
        | word | gap | close | edge | lastGap => exact ⟨.close :: kept :: _ :: later, rfl⟩
    | word | box | close | edge | lastGap => exact ⟨.close :: _ :: later, rfl⟩

theorem settleStep_behind (later : List Piece) (op : Op) :
    ∃ later', settleStep (later ++ .word t w :: ps) op = later' ++ .word t w :: ps := by
  cases op with
  | word s => exact ⟨.word s s.utf8ByteSize :: later, rfl⟩
  | gap g => exact ⟨.gap g :: later, rfl⟩
  | box o u => exact ⟨.box o u :: later, rfl⟩
  | close => exact closeBox_behind later
  | closeWithin limit =>
    rw [settleStep]
    split
    · cases later with
      | nil => exact ⟨[.close, .word "" infinite], rfl⟩
      | cons p later =>
        cases p with
        | gap g => exact ⟨.close :: .word "" infinite :: (if g.ifFollowed then .lastGap g else .gap g) :: later, rfl⟩
        | word | box | close | edge | lastGap => exact ⟨.close :: .word "" infinite :: _ :: later, rfl⟩
    · exact closeBox_behind later
  | shift d =>
    cases later with
    | nil => exact ⟨[], rfl⟩
    | cons p later =>
      cases p with
      | gap g => exact ⟨.gap { g with offset := g.offset + d } :: later, rfl⟩
      | word | box | close | edge | lastGap => exact ⟨_ :: later, rfl⟩
  | spaceAfterDot =>
    rw [settleStep]
    split
    · exact ⟨.word " " 1 :: later, rfl⟩
    · exact ⟨later, rfl⟩
  | gapBeforeDot => exact ⟨.gap { inline := if endsInDot (later ++ .word t w :: ps) then " " else "" } :: later, rfl⟩
  | missing => exact ⟨later, rfl⟩

theorem settle_behind (ops : List Op) (later : List Piece) :
    ∃ later', ops.foldl settleStep (later ++ .word t w :: ps) = later' ++ .word t w :: ps := by
  induction ops generalizing later with
  | nil => exact ⟨later, rfl⟩
  | cons op ops ih =>
    obtain ⟨next, hnext⟩ := settleStep_behind later op
    rw [List.foldl_cons, hnext]
    exact ih next

end

theorem map_measureFrom (room : Nat) (near : List Nat) (done : List (Piece × Nat)) (ps : List Piece) :
    (measureFrom room near done ps).map Prod.fst = ps.reverse ++ done.map Prod.fst := by
  fun_induction measureFrom room near done ps <;> simp_all

theorem map_measure (ps : List Piece) : (measure ps).map Prod.fst = ps.reverse := by
  rw [measure, map_measureFrom, List.map_nil, List.append_nil]

/-! ### The end of a line -/

namespace Line

theorem text_pass_lineBreak (l : Line) (size : Nat) :
    (l.pass { blank := infinite } size).text = l.text ∨ (l.pass { blank := infinite } size).text = l.text ++ "\n" := by
  rw [pass]
  split
  · exact .inl String.append_empty
  · exact .inr rfl

end Line

/-! ### Constants -/

/-- The start of a constant without a name whose type is empty. -/
def constantStart : Doc :=
  word "const " ++ word "_" ++ word ": " ++ tupleBox (fun _ => nothing) true [] ++ word " = "

/-- A constant in the box of its item and that of its file. -/
def constantLayout (value : Doc) : Doc := uniformBox 0 (uniformBox 0 (constantStart ++ value ++ word ";") ++ lineBreak)

/-- The pieces of the start, last one first. -/
def startPieces : List Piece :=
  [.word " = " 3, .word ")" 1, .word "(" 1, .word ": " 2, .word "_" 1, .word "const " 6, .box 0 true, .box 0 true]

/-- The pieces of the end, last one first. -/
def endPieces : List Piece := [.close, .gap { blank := infinite }, .close, .word ";" 1]

theorem settle_constantLayout (value : Doc) :
    ∃ between, settle (constantLayout value) = endPieces ++ between ++ startPieces := by
  have hops : constantLayout value = .box 0 true :: .box 0 true :: constantStart ++
      (value ++ [.word ";", .close, .gap { blank := infinite }, .close]) := by
    simp [constantLayout, uniformBox, word, lineBreak, blanks]
  have hstart : (Op.box 0 true :: .box 0 true :: constantStart).foldl settleStep [] = startPieces := rfl
  obtain ⟨between, hbetween⟩ : ∃ between, value.foldl settleStep startPieces = between ++ startPieces :=
    settle_behind value []
  refine ⟨between, ?_⟩
  rw [settle, hops, List.foldl_append, hstart, List.foldl_append, hbetween]
  rfl

/-! ### The text of a constant -/

/-- What a piece writes, gaps apart. -/
def Piece.letters : Piece → List Char
  | word t _ => t.toList
  | _ => []

/-- A piece that is a word or opens a box. -/
def Piece.isPlain : Piece → Bool
  | word _ _ | box _ _ => true
  | _ => false

theorem text_plain {ps : List (Piece × Nat)} (h : ∀ p ∈ ps.map Prod.fst, p.isPlain = true) {l : Line}
    (hl : l.pending = 0) :
    (ps.foldl Line.step l).text.toList = l.text.toList ++ (ps.map Prod.fst).flatMap Piece.letters ∧
      (ps.foldl Line.step l).pending = 0 := by
  induction ps generalizing l with
  | nil => exact ⟨by simp, hl⟩
  | cons p ps ih =>
    obtain ⟨p, size⟩ := p
    obtain ⟨hp, hps⟩ := List.forall_mem_cons.mp h
    rw [List.foldl_cons, List.map_cons, List.flatMap_cons]
    cases p with
    | word t w =>
      have hnext := ih hps (l := l.step (.word t w, size)) rfl
      have htext : (l.step (.word t w, size)).text.toList = l.text.toList ++ t.toList := by
        simp [Line.step, Line.write, hl, spaces]
      rw [htext, List.append_assoc] at hnext
      exact hnext
    | box o u =>
      obtain ⟨htext, hpending⟩ := l.text_enter o u size
      have hnext := ih hps (l := l.step (.box o u, size)) (hpending.trans hl)
      rw [Line.step, htext] at hnext
      exact hnext
    | gap | close | edge | lastGap => cases hp

theorem exists_sizes {ps : List (Piece × Nat)} {p : Piece} {rest : List Piece} (h : ps.map Prod.fst = p :: rest) :
    ∃ size tail, ps = (p, size) :: tail ∧ tail.map Prod.fst = rest := by
  obtain ⟨⟨q, size⟩, tail, rfl, rfl, htail⟩ := List.map_eq_cons_iff.mp h
  exact ⟨size, tail, rfl, htail⟩

theorem text_end (l : Line) {ps : List (Piece × Nat)} (h : ps.map Prod.fst = endPieces.reverse) :
    ∃ before trail, (∀ c ∈ trail, Text.isBlank c = true) ∧
      (ps.foldl Line.step l).text.toList = l.text.toList ++ before ++ ';' :: trail := by
  obtain ⟨s₁, ps₁, rfl, h₁⟩ := exists_sizes h
  obtain ⟨s₂, ps₂, rfl, h₂⟩ := exists_sizes h₁
  obtain ⟨s₃, ps₃, rfl, h₃⟩ := exists_sizes h₂
  obtain ⟨s₄, ps₄, rfl, h₄⟩ := exists_sizes h₃
  obtain rfl := List.map_eq_nil_iff.mp h₄
  let ended : Line := { l.write ";" with flat := l.flat + 1 }
  have hended : ended.leave.text.toList = l.text.toList ++ (spaces l.pending).toList ++ [';'] := by
    rw [Line.text_leave]
    simp [ended, Line.write]
  simp only [List.foldl_cons, List.foldl_nil, Line.step, Line.text_leave]
  rcases Line.text_pass_lineBreak ended.leave s₃ with hpass | hpass
  · refine ⟨(spaces l.pending).toList, [], by simp, ?_⟩
    rw [hpass, hended]
  · refine ⟨(spaces l.pending).toList, ['\n'], by simp [Text.isBlank], ?_⟩
    rw [hpass, String.toList_append, hended, List.append_assoc]
    rfl

/-- The text of a constant has the start and the semicolon of one. -/
theorem render_constantLayout (value : Doc) : ∃ body trail, (∀ c ∈ trail, Text.isBlank c = true) ∧
    (render (constantLayout value)).toList = "const _: () =".toList ++ body ++ ';' :: trail := by
  obtain ⟨between, hbetween⟩ := settle_constantLayout value
  have hpieces := map_measure (settle (constantLayout value))
  rw [hbetween, List.reverse_append, List.reverse_append] at hpieces
  -- The sizes of the pieces depend on the value, so only the pieces themselves are known at the two ends.
  obtain ⟨front, rest, hsplit, hfront, hrest⟩ := List.map_eq_append_iff.mp hpieces
  obtain ⟨middle, back, rfl, hmiddle, hback⟩ := List.map_eq_append_iff.mp hrest
  have hplain : ∀ p ∈ front.map Prod.fst, p.isPlain = true := by
    rw [hfront]
    decide
  obtain ⟨hstart, -⟩ := text_plain hplain (l := {}) rfl
  have hmore := Line.text_foldl (front.foldl Line.step {}) middle
  obtain ⟨before, trail, htrail, hend⟩ := text_end ((front ++ middle).foldl Line.step {}) hback
  have hletters : startPieces.reverse.flatMap Piece.letters = "const _: () =".toList ++ [' '] := rfl
  refine ⟨' ' :: (front.foldl Line.step {}).addedAll middle ++ before, trail, htrail, ?_⟩
  rw [render, hbetween, hsplit, ← List.append_assoc, List.foldl_append, hend, List.foldl_append, hmore, hstart, hfront,
    hletters]
  simp

end CallProbe.Layout

namespace CallProbe.Call

open Source Text Layout

def emptyType : Tree := .node .tupleType [Make.parens [.list []]]

theorem layoutFuel_emptyType (n : Nat) : layoutFuel (n + 1) (.type emptyType) = tupleBox (fun _ => nothing) true [] := rfl

theorem layout_emptyType : layout (.type emptyType) = tupleBox (fun _ => nothing) true [] := layoutFuel_emptyType _

theorem itemDoc_constantOf (e : Tree) : itemDoc layout .module (constantOf e) =
    constDoc layout (word "const ") (Make.word "_") emptyType e := rfl

theorem itemsLayout_constantOf {e : Tree} (h : e.isPresent = true) :
    itemsLayout .noAttrs [constantOf e] = constantLayout (noBreak ++ layout (.inner (Grouping.tree .most {} e))) := by
  have hpresent : (Grouping.tree .most {} e).isPresent = true := by
    rw [Grouping.isPresent_tree]
    exact h
  have hitems : Grouping.trees .most [constantOf e] = [constantOf (Grouping.tree .most {} e)] := rfl
  have hattrs : attrsDoc layout (Grouping.tree .most {} .noAttrs) = [] := rfl
  have hname : (Make.word "_").text = "_" := rfl
  rw [itemsLayout, hitems, List.flatMap_singleton, hattrs, List.nil_append, itemDoc_constantOf, constDoc, if_pos hpresent,
    layout_emptyType, hname, constantLayout, constantStart]
  simp only [List.append_assoc]

theorem isPresent_of_callOf? {e : Tree} (h : (callOf? e).isSome) : e.isPresent = true := by
  unfold Tree.isPresent
  split
  · cases h
  · rfl

theorem text_constantOf {e : Tree} (he : (callOf? e).isSome) {rendered : String}
    (h : textOfItems .noAttrs [constantOf e.grouped] = .ok rendered) :
    ∃ body trail, (∀ c ∈ trail, isBlank c = true) ∧
      rendered.toList = "const _: () =".toList ++ body ++ ';' :: trail := by
  have hpresent : e.grouped.isPresent = true := (Grouping.isPresent_tree e).trans (isPresent_of_callOf? he)
  rw [textOfItems, itemsLayout_constantOf hpresent, Layout.text] at h
  split at h
  · cases h
  · obtain rfl := Except.ok.inj h
    exact render_constantLayout _

/-! ### What stands between the ends -/

theorem after?_append (p rest : List Char) : after? p (p ++ rest) = some rest := by
  induction p with
  | nil => rfl
  | cons c p ih => rw [List.cons_append, after?, if_pos rfl, ih]

/-- Blanks around a text that has none at its ends are trimmed. -/
theorem trimBlanks_around {lead cs trail : List Char} (hlead : ∀ c ∈ lead, isBlank c = true)
    (htrail : ∀ c ∈ trail, isBlank c = true) (hne : cs ≠ []) (hfront : ∀ c ∈ cs.head?, isBlank c = false)
    (hback : ∀ c ∈ cs.getLast?, isBlank c = false) : trimBlanks (lead ++ cs ++ trail) = cs := by
  have hfront' : ∀ c ∈ (cs ++ trail).head?, isBlank c = false := by
    rw [List.head?_append_of_ne_nil _ hne]
    exact hfront
  rw [trimBlanks, List.append_assoc, List.dropWhile_append_of_pos hlead, dropWhile_of_head hfront', List.reverse_append,
    List.dropWhile_append_of_pos fun c hc => htrail c (List.mem_reverse.mp hc), dropWhile_of_head (by simpa using hback),
    List.reverse_reverse]

/-- The part of the text of a constant from which a snippet is made: its value, or the whole text if it has not the form
    of one. -/
def snippetPart (rendered : String) : List Char := (constantValue? rendered).getD rendered.toList

theorem snippetPart_of_form {rendered : String} {lead body trail : List Char} (hlead : ∀ c ∈ lead, isBlank c = true)
    (htrail : ∀ c ∈ trail, isBlank c = true)
    (h : rendered.toList = lead ++ "const _: () =".toList ++ body ++ ';' :: trail) : snippetPart rendered = body := by
  have htext : rendered.toList = lead ++ ("const _: () =".toList ++ (body ++ [';'])) ++ trail := by
    rw [h]
    simp
  have htrim : trimBlanks rendered.toList = "const _: () =".toList ++ (body ++ [';']) := by
    rw [htext]
    refine trimBlanks_around hlead htrail (by simp) ?_ ?_
    · simp [isBlank]
    · rw [← List.append_assoc, List.getLast?_concat]
      simp [isBlank]
  rw [snippetPart, constantValue?, htrim, after?_append]
  simp

/-- What a snippet is of a part of a text and of that part on one line. -/
structure IsSnippet (part line : List Char) (snippet : String) : Prop where
  visible : visible line = visible part
  folded : Folded line
  cut : snippet.toList = if line.length ≤ 80 then line else line.take 77 ++ "...".toList
  short : snippet.length ≤ 80

theorem isSnippet_snippetOf (rendered : String) :
    IsSnippet (snippetPart rendered) (onOneLine (snippetPart rendered)) (snippetOf rendered) := by
  obtain ⟨hvisible, hfolded⟩ := onOneLine_folded (snippetPart rendered)
  have hchars : (snippetOf rendered).toList = shorten (onOneLine (snippetPart rendered)) := String.toList_ofList
  refine ⟨hvisible, hfolded, hchars.trans (shorten_eq _), ?_⟩
  rw [← String.length_toList, hchars]
  exact length_shorten_le _

/-- Snippets. Of any text that a call may be laid out as, the snippet is made from the part between the start of the
    constant and its semicolon. This part on one line has the visible characters of the part and is folded, and the
    snippet is this line if it is short, and otherwise the start of it with dots. The text of a call always has such a
    part. -/
theorem snippetOf_lossless :
    (∀ rendered, IsSnippet (snippetPart rendered) (onOneLine (snippetPart rendered)) (snippetOf rendered)) ∧
    (∀ rendered lead body trail, (∀ c ∈ lead, isBlank c = true) → (∀ c ∈ trail, isBlank c = true) →
      rendered.toList = lead ++ "const _: () =".toList ++ body ++ ';' :: trail → snippetPart rendered = body) ∧
    (∀ e rendered, (callOf? e).isSome → textOfItems .noAttrs [constantOf e.grouped] = .ok rendered →
      snippet e = .ok (snippetOf rendered) ∧ ∃ body trail, (∀ c ∈ trail, isBlank c = true) ∧
        rendered.toList = "const _: () =".toList ++ body ++ ';' :: trail) := by
  refine ⟨isSnippet_snippetOf, fun rendered lead body trail hlead htrail h => snippetPart_of_form hlead htrail h,
    fun e rendered he h => ⟨?_, text_constantOf he h⟩⟩
  rw [snippet, h]
  rfl

/-- A call that has no room on one line. -/
def longCall : Tree :=
  Make.call (Make.nameExpr "run") (Make.separated (List.replicate 6 (Make.nameExpr "argument_name")))

/-- The call as it is laid out. -/
def longBody : String :=
  " run(\n    argument_name,\n    argument_name,\n    argument_name,\n    argument_name,\n    argument_name,\n" ++
    "    argument_name,\n)"

/-- The text of the constant for the call. -/
def longText : String := "const _: () =" ++ longBody ++ ";\n"

theorem snippetOf_lossless_long : snippet longCall = .ok (snippetOf longText) ∧
    IsSnippet longBody.toList (onOneLine longBody.toList) (snippetOf longText) := by
  obtain ⟨hsnippet, hform, hprinted⟩ := snippetOf_lossless
  have hprint := (hprinted longCall longText rfl (by decide +kernel)).1
  have htext : ∀ body : String, ("const _: () =" ++ body ++ ";\n").toList =
      [] ++ "const _: () =".toList ++ body.toList ++ ';' :: ['\n'] := by
    intro body
    rw [String.toList_append, String.toList_append]
    rfl
  have hpart := hform longText [] longBody.toList ['\n'] (by simp) (by simp [isBlank]) (htext longBody)
  exact ⟨hprint, hpart ▸ hsnippet longText⟩

end CallProbe.Call
