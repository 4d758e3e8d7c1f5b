import CallProbe.Layout.Item

/-! # Texts as characters

Lines only grow: what a piece adds to the text does not depend on the text (`Line.text_step`). So a text is put together from
the characters that its pieces add one after the other. -/

namespace CallProbe.Layout

namespace Line

/-! ### What is added -/

/-- What is added at a gap. -/
def passed (l : Line) (g : Gap) (size : Nat) : List Char :=
  if l.goesOn g size then g.inline.toList
  else (if g.before.isEmpty then [] else List.replicate l.pending ' ' ++ g.before.toList) ++ '\n' ::
    (if g.after.isEmpty then [] else List.replicate (l.indent + g.offset).toNat ' ' ++ g.after.toList)

/-- What is added at a piece. -/
def added (l : Line) : Piece × Nat → List Char
  | (.word t _, _) => List.replicate l.pending ' ' ++ t.toList
  | (.gap g, size) => l.passed g size
  | (.lastGap g, size) => if l.flat ≤ l.farOfBox then l.passed g size else []
  | _ => []

theorem text_write (l : Line) (s : String) :
    (l.write s).text.toList = l.text.toList ++ (List.replicate l.pending ' ' ++ s.toList) := by
  simp [write, spaces]

theorem text_newLine (l : Line) (g : Gap) : (l.newLine g).text.toList = l.text.toList ++
    ((if g.before.isEmpty then [] else List.replicate l.pending ' ' ++ g.before.toList) ++ '\n' ::
      (if g.after.isEmpty then [] else List.replicate (l.indent + g.offset).toNat ' ' ++ g.after.toList)) := by
  have hbefore : (if g.before.isEmpty then l else l.write g.before).text.toList = l.text.toList ++
      (if g.before.isEmpty then [] else List.replicate l.pending ' ' ++ g.before.toList) := by
    split
    · rw [List.append_nil]
    · exact text_write l g.before
  have hindent : (if g.before.isEmpty then l else l.write g.before).indent = l.indent := by split <;> rfl
  rw [← List.append_assoc, ← hbefore, ← hindent, newLine]
  split
  · simp
  · simp [text_write]

theorem text_pass (l : Line) (g : Gap) (size : Nat) : (l.pass g size).text.toList = l.text.toList ++ l.passed g size := by
  have hgoes : ({ l with far := max l.farOfBox (l.flat + l.room) } : Line).goesOn g size = l.goesOn g size := rfl
  rw [pass, passed]
  dsimp only
  rw [hgoes]
  split
  · simp [across]
  · exact text_newLine { l with far := _ } g

theorem text_enter (l : Line) (offset : Int) (uniform : Bool) (size : Nat) :
    (l.enter offset uniform size).text = l.text ∧ (l.enter offset uniform size).pending = l.pending := by
  rw [enter]
  split <;> exact ⟨rfl, rfl⟩

theorem text_leave (l : Line) : l.leave.text = l.text := by
  rw [leave]
  split <;> rfl

/-- A piece adds its characters to the text. -/
theorem text_step (l : Line) (p : Piece × Nat) : (l.step p).text.toList = l.text.toList ++ l.added p := by
  obtain ⟨p, size⟩ := p
  cases p with
  | word s w => exact text_write l s
  | gap g => exact text_pass l g size
  | box offset uniform =>
    rw [step, (l.text_enter offset uniform size).1]
    exact (List.append_nil _).symm
  | close =>
    rw [step, text_leave]
    exact (List.append_nil _).symm
  | edge => exact (List.append_nil _).symm
  | lastGap g =>
    rw [step, added]
    split
    · exact text_pass l g size
    · rw [List.append_nil]

/-- What pieces add one after the other. -/
def addedAll : Line → List (Piece × Nat) → List Char
  | _, [] => []
  | l, p :: ps => l.added p ++ addedAll (l.step p) ps

theorem text_foldl (l : Line) (ps : List (Piece × Nat)) :
    (ps.foldl step l).text.toList = l.text.toList ++ l.addedAll ps := by
  induction ps generalizing l with
  | nil => exact (List.append_nil _).symm
  | cons p ps ih => rw [List.foldl_cons, ih, text_step, addedAll, List.append_assoc]

end Line

/-! ### Whole texts -/

/-- The characters of a layout. -/
def chars (ops : List Op) : List Char := Line.addedAll {} (measure (settle ops))

theorem render_eq (ops : List Op) : render ops = String.ofList (chars ops) := by
  rw [← String.toList_inj, String.toList_ofList, render, Line.text_foldl]
  rfl

open Source

/-- The characters of a file. -/
def fileChars : Tree → List Char
  | .node .file [attrs, .node .items items] => chars (itemsLayout attrs items)
  | _ => []

theorem textOfFile_chars {file : Tree} {s : String} (h : textOfFile file = .ok s) : s = String.ofList (fileChars file) := by
  unfold textOfFile at h
  split at h
  · rw [textOfItems, text] at h
    split at h
    · cases h
    · exact (Except.ok.inj h).symm.trans (render_eq _)
  · rename_i hother
    obtain rfl := Except.ok.inj h
    unfold fileChars
    split
    · exact absurd rfl (hother _ _)
    · rfl

end CallProbe.Layout
