import CallProbe.Call.Walk
import CallProbe.Proofs.Grouping.Forms
import CallProbe.Probe.Marker

/-! # Maps that keep shapes

Putting parentheses and wrapping calls change expressions, and forgetting where tokens stand changes no more than that. A
node of a plain kind, which is no such expression, is at most rebuilt from its children (`Reshaped`), and a list may lose a
separator at its end. So what is read off these nodes is what it was: the names of a path, or what a `use` brings in. -/

namespace CallProbe.Source

open Grouping

/-- Kinds of nodes that are never put into parentheses and never are the place of a call, lists aside. -/
def isPlain (k : Kind) : Bool := (partCount? k).isNone && !([Kind.parenExpr, .repeatExpr, .list].contains k)

/-- The elements of a list with their separators, maybe without one at the end. -/
def Trims (kept cs : List Tree) : Prop := kept = cs ∨ kept.length % 2 = 1 ∧ ∃ l, cs = kept ++ [.leaf l]

theorem Trims.subset {kept cs : List Tree} (h : Trims kept cs) : kept ⊆ cs := by
  rcases h with rfl | ⟨-, l, rfl⟩
  · exact List.Subset.refl _
  · exact List.subset_append_left ..

/-- A map that rebuilds plain nodes from their children, if it does not leave them alone, and lists from their elements. -/
structure Regular (f : Tree → Tree) : Prop where
  leaf (l : Leaf) : ∃ l', f (.leaf l) = .leaf l' ∧ l'.text = l.text
  tokens (ts : List TokenTree) : ∃ ts', f (.tokens ts) = .tokens ts'
  arguments (written : List TokenTree) (read : List Tree) : ∃ written' read', f (.arguments written read) = .arguments written' read'
  group (d : Delimiter) (o c : Pos) (content : List Tree) : ∃ o' c', f (.group d o content c) = .group d o' (content.map f) c'
  plain {k : Kind} (cs : List Tree) (h : isPlain k = true) : f (.node k cs) = .node k cs ∨ f (.node k cs) = .node k (cs.map f)
  list (cs : List Tree) : f (.node .list cs) = .node .list cs ∨ ∃ kept, Trims kept cs ∧ f (.node .list cs) = .node .list (kept.map f)
  other {k : Kind} (cs : List Tree) (h : isPlain k = false) (hlist : k ≠ .list) :
    ∃ k' cs', f (.node k cs) = .node k' cs' ∧ isPlain k' = false ∧ k' ≠ .list

theorem regular_tree (c : Caution) : Regular (tree c {}) where
  leaf l := ⟨l, rfl, rfl⟩
  tokens ts := ⟨ts, rfl⟩
  arguments written read := ⟨written, read, rfl⟩
  group d o cl content := ⟨o, cl, tree_group d o cl content⟩
  plain := by
    intro k cs h
    simp only [isPlain, Bool.and_eq_true, Option.isNone_iff_eq_none] at h
    exact .inr (tree_node (by simp [h.1]))
  list cs := .inr ⟨cs, .inl rfl, tree_node (by simp [partCount?])⟩
  other := by
    intro k cs h hlist
    by_cases hcount : partCount? k = some cs.length
    · obtain ⟨cs', -, htree | htree⟩ := tree_form (c := c) (s := {}) hcount
      · exact ⟨_, _, htree, h, hlist⟩
      · exact ⟨_, _, htree, rfl, by decide⟩
    · exact ⟨_, _, tree_node hcount, h, hlist⟩

/-- What a map that keeps shapes makes of a tree, by the form of the tree. -/
inductive Reshaped (f : Tree → Tree) : Tree → Tree → Prop
  | leaf {l l' : Leaf} (htext : l'.text = l.text) : Reshaped f (.leaf l) (.leaf l')
  | tokens (ts ts' : List TokenTree) : Reshaped f (.tokens ts) (.tokens ts')
  | arguments (written written' : List TokenTree) (read read' : List Tree) :
    Reshaped f (.arguments written read) (.arguments written' read')
  | group (d : Delimiter) (o c o' c' : Pos) (content : List Tree) :
    Reshaped f (.group d o content c) (.group d o' (content.map f) c')
  | same (k : Kind) (cs : List Tree) : Reshaped f (.node k cs) (.node k cs)
  | mapped {k : Kind} (cs : List Tree) (hk : isPlain k = true) : Reshaped f (.node k cs) (.node k (cs.map f))
  | list {kept cs : List Tree} (htrims : Trims kept cs) : Reshaped f (.node .list cs) (.node .list (kept.map f))
  | other {k k' : Kind} (cs cs' : List Tree) (hk : isPlain k = false) (hk' : isPlain k' = false) (hlist : k ≠ .list)
      (hlist' : k' ≠ .list) : Reshaped f (.node k cs) (.node k' cs')

namespace Regular

variable {f : Tree → Tree} (h : Regular f)

include h

theorem reshaped (t : Tree) : Reshaped f t (f t) := by
  cases t with
  | leaf l =>
    obtain ⟨l', heq, htext⟩ := h.leaf l
    rw [heq]
    exact .leaf htext
  | tokens ts =>
    obtain ⟨ts', heq⟩ := h.tokens ts
    rw [heq]
    exact .tokens ts ts'
  | arguments written read =>
    obtain ⟨written', read', heq⟩ := h.arguments written read
    rw [heq]
    exact .arguments written written' read read'
  | group d o content c =>
    obtain ⟨o', c', heq⟩ := h.group d o c content
    rw [heq]
    exact .group d o c o' c' content
  | node k cs =>
    cases hk : isPlain k with
    | true =>
      rcases h.plain cs hk with heq | heq
      · rw [heq]
        exact .same ..
      · rw [heq]
        exact .mapped cs hk
    | false =>
      by_cases hlist : k = .list
      · subst hlist
        rcases h.list cs with heq | ⟨kept, htrims, heq⟩
        · rw [heq]
          exact .same ..
        · rw [heq]
          exact .list htrims
      · obtain ⟨k', cs', heq, hk', hlist'⟩ := h.other cs hk hlist
        rw [heq]
        exact .other cs cs' hk hk' hlist hlist'

theorem text (t : Tree) : (f t).text = t.text := by
  have hshape := h.reshaped t
  generalize f t = t' at hshape ⊢
  cases hshape with
  | leaf htext => exact htext
  | _ => rfl

/-- What is a plain node afterwards was one before. -/
theorem node_inv {t : Tree} {k : Kind} {new : List Tree} (hk : isPlain k = true) (heq : f t = .node k new) :
    ∃ cs, t = .node k cs ∧ (new = cs ∨ new = cs.map f) := by
  have hshape := h.reshaped t
  rw [heq] at hshape
  cases hshape with
  | same => exact ⟨_, rfl, .inl rfl⟩
  | mapped => exact ⟨_, rfl, .inr rfl⟩
  | list => cases hk
  | other _ _ _ hk' =>
    rw [hk] at hk'
    cases hk'

/-- What is a list afterwards was one before. -/
theorem list_inv {t : Tree} {new : List Tree} (heq : f t = .node .list new) : ∃ cs, t = .node .list cs := by
  have hshape := h.reshaped t
  rw [heq] at hshape
  cases hshape with
  | same => exact ⟨_, rfl⟩
  | mapped _ hk => cases hk
  | list => exact ⟨_, rfl⟩
  | other _ _ _ _ _ hlist' => exact absurd rfl hlist'

theorem group_inv {t : Tree} {d : Delimiter} {o c : Pos} {new : List Tree} (heq : f t = .group d o new c) :
    ∃ o' content c', t = .group d o' content c' ∧ new = content.map f := by
  have hshape := h.reshaped t
  rw [heq] at hshape
  cases hshape with
  | group => exact ⟨_, _, _, rfl, rfl⟩

/-- What is read off the nodes of some plain kinds only, and is the same off this node if it is rebuilt. -/
theorem read_kinds_at {α : Type} {read : Tree → α} {t : Tree} (on : Kind → Bool) (none : α)
    (hon : ∀ k, on k = true → isPlain k = true) (hother : ∀ t, t.kind?.any on = false → read t = none)
    (hread : ∀ k cs, t = .node k cs → on k = true → read (.node k (cs.map f)) = read (.node k cs)) : read (f t) = read t := by
  have hshape := h.reshaped t
  generalize f t = t' at hshape ⊢
  cases hshape with
  | same => rfl
  | @mapped k cs =>
    cases hk : on k with
    | true => exact hread k cs rfl hk
    | false => rw [hother (.node k cs) hk, hother (.node k (cs.map f)) hk]
  | list =>
    have hnot : on .list = false := Bool.eq_false_iff.mpr fun hl => absurd (hon .list hl) (by decide)
    rw [hother (.node .list _) hnot, hother (.node .list _) hnot]
  | @other k k' cs cs' hk hk' =>
    have hnot {l : Kind} (hl : isPlain l = false) : on l = false := Bool.eq_false_iff.mpr fun hl' => by
      rw [hon l hl'] at hl
      cases hl
    rw [hother (.node k cs) (hnot hk), hother (.node k' cs') (hnot hk')]
  | _ => rw [hother _ rfl, hother _ rfl]

/-- What is read off the nodes of some plain kinds only, and is the same off a rebuilt node. -/
theorem read_kinds {α : Type} {read : Tree → α} (on : Kind → Bool) (none : α) (hon : ∀ k, on k = true → isPlain k = true)
    (hother : ∀ t, t.kind?.any on = false → read t = none)
    (hread : ∀ k cs, on k = true → read (.node k (cs.map f)) = read (.node k cs)) (t : Tree) : read (f t) = read t :=
  h.read_kinds_at on none hon hother fun k cs _ hk => hread k cs hk

/-- What is read off the nodes of one plain kind only. -/
theorem read_kind {α : Type} {read : Tree → α} (k : Kind) (none : α) (hk : isPlain k = true)
    (hother : ∀ t, t.kind? ≠ some k → read t = none) (hread : ∀ cs, read (.node k (cs.map f)) = read (.node k cs)) (t : Tree) :
    read (f t) = read t := by
  refine h.read_kinds (· == k) none (fun l hl => ?_) (fun t ht => hother t fun heq => ?_) (fun l cs hl => ?_) t
  · rwa [beq_iff_eq.mp hl]
  · rw [heq] at ht
    simp at ht
  · rw [beq_iff_eq.mp hl]
    exact hread cs

/-- What is read off lists only. -/
theorem read_list {α : Type} {read : Tree → α} (none : α) (hother : ∀ t, t.kind? ≠ some .list → read t = none)
    (hread : ∀ kept cs, Trims kept cs → read (.node .list (kept.map f)) = read (.node .list cs)) (t : Tree) :
    read (f t) = read t := by
  have hshape := h.reshaped t
  generalize f t = t' at hshape ⊢
  cases hshape with
  | same => rfl
  | list htrims => exact hread _ _ htrims
  | @mapped k cs hk =>
    have hlist : k ≠ .list := by
      rintro rfl
      cases hk
    rw [hother _ (by simpa [Tree.kind?] using hlist), hother _ (by simpa [Tree.kind?] using hlist)]
  | @other k k' cs cs' hk hk' hlist hlist' =>
    rw [hother (.node k cs) (by simpa [Tree.kind?] using hlist), hother (.node k' cs') (by simpa [Tree.kind?] using hlist')]
  | _ => rw [hother _ (by simp [Tree.kind?]), hother _ (by simp [Tree.kind?])]

theorem isPresent (t : Tree) : (f t).isPresent = t.isPresent := by
  refine h.read_kind .absent true rfl (fun t ht => ?_) (fun _ => rfl) t
  unfold Tree.isPresent
  split
  · exact absurd rfl ht
  · rfl

end Regular

end CallProbe.Source

namespace CallProbe.Call

open Source

/-! ### Names of paths -/

variable {f : Tree → Tree}

theorem everySecond_map (f : Tree → Tree) (ts : List Tree) :
    Tree.elements.everySecond (ts.map f) = (Tree.elements.everySecond ts).map f := by
  fun_induction Tree.elements.everySecond ts with
  | case1 => rfl
  | case2 t => rfl
  | case3 t sep rest ih => simp [Tree.elements.everySecond, ih]

theorem everySecond_concat (ts : List Tree) (l : Leaf) (hodd : ts.length % 2 = 1) :
    Tree.elements.everySecond (ts ++ [.leaf l]) = Tree.elements.everySecond ts := by
  fun_induction Tree.elements.everySecond ts with
  | case1 => cases hodd
  | case2 t => rfl
  | case3 t sep rest ih =>
    have hrest : rest.length % 2 = 1 := by
      simp only [List.length_cons] at hodd
      omega
    rw [List.cons_append, List.cons_append, Tree.elements.everySecond, ih hrest]

/-- A separator at the end is no element. -/
theorem everySecond_of_trims {kept cs : List Tree} (h : Trims kept cs) :
    Tree.elements.everySecond kept = Tree.elements.everySecond cs := by
  rcases h with rfl | ⟨hodd, l, rfl⟩
  · rfl
  · exact (everySecond_concat kept l hodd).symm

def segmentName : Tree → String
  | .node .segment [n, _] => n.text
  | _ => ""

theorem segmentNames_eq (segments : Tree) : Target.segmentNames segments = segments.elements.map segmentName := rfl

theorem segmentName_regular (h : Regular f) (t : Tree) : segmentName (f t) = segmentName t := by
  refine h.read_kind .segment "" rfl (fun t ht => ?_) (fun cs => ?_) t
  · unfold segmentName
    split
    · exact absurd rfl ht
    · rfl
  · match cs with
    | [] => rfl
    | [n] => rfl
    | [n, args] => exact h.text n
    | _ :: _ :: _ :: _ => rfl

theorem segmentNames_regular (h : Regular f) (t : Tree) : Target.segmentNames (f t) = Target.segmentNames t := by
  refine h.read_list [] (fun t ht => ?_) (fun kept cs htrims => ?_) t
  · unfold Target.segmentNames Tree.elements
    split
    · exact absurd rfl ht
    · rfl
  · rw [segmentNames_eq, segmentNames_eq, Tree.elements, Tree.elements, everySecond_map, List.map_map,
      everySecond_of_trims htrims]
    exact List.map_congr_left fun s _ => segmentName_regular h s

/-- The names and the leading colons of a path that is not qualified. -/
def plainNames? : Tree → Option (List String × Bool)
  | .node .path [lead, segments] => some (Target.segmentNames segments, lead.isPresent)
  | _ => none

theorem plainNames?_regular (h : Regular f) (t : Tree) : plainNames? (f t) = plainNames? t := by
  refine h.read_kind .path none rfl (fun t ht => ?_) (fun cs => ?_) t
  · unfold plainNames?
    split
    · exact absurd rfl ht
    · rfl
  · match cs with
    | [] => rfl
    | [n] => rfl
    | [lead, segments] => simp [plainNames?, segmentNames_regular h, h.isPresent]
    | _ :: _ :: _ :: _ => rfl

def namesOf (path : Tree) : List String × Bool := (Target.pathNames path, startsAtRoot path)

theorem namesOf_qualified (a b c p e f segments : Tree) :
    namesOf (.node .qualifiedPath [a, b, c, p, e, f, segments]) =
      (((plainNames? p).map Prod.fst).getD [] ++ Target.segmentNames segments, ((plainNames? p).map Prod.snd).getD true) := by
  fun_cases plainNames? p with
  | case1 lead trait => rfl
  | case2 _ h =>
    have hroot : startsAtRoot (.node .qualifiedPath [a, b, c, p, e, f, segments]) = true := by
      rw [startsAtRoot]
      intro _ _ _ lead trait _ _ _ he
      cases he
      exact h _ _ rfl
    simp [namesOf, Target.pathNames, hroot]

theorem namesOf_regular (h : Regular f) (t : Tree) : namesOf (f t) = namesOf t := by
  refine h.read_kinds [Kind.path, .qualifiedPath].contains ([], false) (fun k hk => ?_) (fun t ht => ?_)
    (fun k cs hk => ?_) t
  · cases k <;> first | rfl | cases hk
  · unfold namesOf Target.pathNames startsAtRoot
    split
    all_goals first
      | cases ht
      | skip
    split
    all_goals first
      | cases ht
      | rfl
  · obtain rfl | rfl : k = .path ∨ k = .qualifiedPath := by simpa using hk
    · match cs with
      | [] => rfl
      | [n] => rfl
      | [lead, segments] => simp [namesOf, Target.pathNames, startsAtRoot, segmentNames_regular h, h.isPresent]
      | _ :: _ :: _ :: _ => rfl
    · match cs with
      | [a, b, c, p, e, g, segments] =>
        simp only [List.map_cons, List.map_nil, namesOf_qualified, plainNames?_regular h, segmentNames_regular h]
      | [] | [_] | [_, _] | [_, _, _] | [_, _, _, _] | [_, _, _, _, _] | [_, _, _, _, _, _] =>
        simp [namesOf, Target.pathNames, startsAtRoot]
      | _ :: _ :: _ :: _ :: _ :: _ :: _ :: _ :: _ => simp [namesOf, Target.pathNames, startsAtRoot]

theorem pathNames_regular (h : Regular f) (t : Tree) : Target.pathNames (f t) = Target.pathNames t :=
  congrArg Prod.fst (namesOf_regular h t)

end CallProbe.Call

namespace CallProbe.Probe

open Source

/-! ### Imports -/

/-- The kinds of use trees that can bring something in. -/
def isUseKind (k : Kind) : Bool := [Kind.usePath, .useName, .useGlob, .useGroup].contains k

theorem importsProfile_of_kind {k : Kind} (cs : List Tree) (hk : isUseKind k = false) (b : Bool) :
    importsProfile b (.node k cs) = false := by
  unfold importsProfile
  split
  all_goals first
    | rfl
    | (rename_i he; cases he; cases hk)

theorem anyImportsProfile_eq (b : Bool) (ts : List Tree) :
    importsProfile.anyImportsProfile b ts = ts.any (importsProfile b) := by
  induction ts with
  | nil => rfl
  | cons t ts ih => rw [importsProfile.anyImportsProfile, ih, List.any_cons]

variable {f : Tree → Tree}

/-- The trees in the braces of a `use`. -/
def groupedUses : List Tree → List Tree
  | [.group _ _ [.node .list ts] _] => ts
  | _ => []

theorem groupedUses_of_ne {cs : List Tree} (hne : ∀ d o ts c, cs ≠ [.group d o [.node .list ts] c]) : groupedUses cs = [] := by
  unfold groupedUses
  split
  · exact absurd rfl (hne _ _ _ _)
  · rfl

theorem importsProfile_group (b : Bool) (cs : List Tree) :
    importsProfile b (.node .useGroup cs) = (groupedUses cs).any (importsProfile b) := by
  by_cases hform : ∃ d o ts c, cs = [.group d o [.node .list ts] c]
  · obtain ⟨d, o, ts, c, rfl⟩ := hform
    rw [importsProfile, anyImportsProfile_eq, groupedUses]
  · have hne : ∀ d o ts c, cs ≠ [.group d o [.node .list ts] c] := fun d o ts c he => hform ⟨d, o, ts, c, he⟩
    rw [groupedUses_of_ne hne, List.any_nil]
    unfold importsProfile
    split
    case h_4 he =>
      cases he
      exact absurd rfl (hne _ _ _ _)
    all_goals first
      | rfl
      | (rename_i he; cases he)

theorem groupedUses_map (h : Regular f) (cs : List Tree) : groupedUses (cs.map f) = groupedUses cs ∨
    ∃ kept, Trims kept (groupedUses cs) ∧ groupedUses (cs.map f) = kept.map f := by
  by_cases hform : ∃ d o ts c, cs = [.group d o [.node .list ts] c]
  · obtain ⟨d, o, ts, c, rfl⟩ := hform
    obtain ⟨_, _, hgroup⟩ := h.group d o c [.node .list ts]
    rw [List.map_cons, List.map_nil, hgroup, List.map_cons, List.map_nil]
    rcases h.list ts with heq | ⟨kept, htrims, heq⟩
    · rw [heq]
      exact .inl rfl
    · rw [heq]
      exact .inr ⟨kept, htrims, rfl⟩
  · refine .inl ?_
    rw [groupedUses_of_ne fun d o ts c he => hform ⟨d, o, ts, c, he⟩, groupedUses_of_ne]
    intro d o ts c heq
    obtain ⟨g, rfl, hg⟩ := List.map_eq_singleton_iff.mp heq
    obtain ⟨o', content, c', rfl, hcontent⟩ := h.group_inv hg
    obtain ⟨l, rfl, hl⟩ := List.map_eq_singleton_iff.mp hcontent.symm
    obtain ⟨us, rfl⟩ := h.list_inv hl
    exact hform ⟨d, o', us, c', rfl⟩

/-- A separator at the end brings in nothing. -/
theorem any_of_trims {kept cs : List Tree} (h : Trims kept cs) (b : Bool) :
    kept.any (importsProfile b) = cs.any (importsProfile b) := by
  rcases h with rfl | ⟨-, l, rfl⟩
  · rfl
  · simp [importsProfile]

theorem mem_groupedUses {cs : List Tree} {t : Tree} (h : t ∈ groupedUses cs) : sizeOf t < sizeOf cs := by
  unfold groupedUses at h
  split at h
  · have := List.sizeOf_lt_of_mem h
    simp
    omega
  · cases h

theorem importsProfile_of_not_use {t : Tree} (ht : t.kind?.any isUseKind = false) (b : Bool) : importsProfile b t = false := by
  cases t with
  | node k cs => exact importsProfile_of_kind cs ht b
  | _ => simp [importsProfile]

/-- What a use tree brings in is what it did. -/
theorem importsProfile_regular (h : Regular f) (b : Bool) (t : Tree) : importsProfile b (f t) = importsProfile b t := by
  induction hn : sizeOf t using Nat.strongRecOn generalizing t b with
  | ind n ih =>
    subst hn
    refine h.read_kinds_at isUseKind false (fun k hk => ?_) (fun t ht => importsProfile_of_not_use ht b) fun k cs ht hk => ?_
    · cases k <;> first | rfl | cases hk
    · subst ht
      have hkinds : k = .usePath ∨ k = .useName ∨ k = .useGlob ∨ k = .useGroup := by simpa [isUseKind] using hk
      obtain rfl | rfl | rfl | rfl := hkinds
      · match cs with
        | [n, sep, t] => simp only [List.map_cons, List.map_nil, importsProfile, h.text, ih (sizeOf t) (by simp; omega)]
        | [] | [_] | [_, _] => rfl
        | _ :: _ :: _ :: _ :: _ => rfl
      · match cs with
        | [n] => simp only [List.map_cons, List.map_nil, importsProfile, h.text]
        | [] => rfl
        | _ :: _ :: _ => rfl
      · rfl
      · rw [importsProfile_group, importsProfile_group]
        rcases groupedUses_map h cs with heq | ⟨kept, htrims, heq⟩
        · rw [heq]
        · rw [heq, List.any_map, ← any_of_trims htrims]
          have hsame : kept.map (importsProfile b ∘ f) = kept.map (importsProfile b) := by
            refine List.map_congr_left fun t ht => ih (sizeOf t) ?_ b t rfl
            have := mem_groupedUses (htrims.subset ht)
            simp
            omega
          simpa [List.any_map] using congrArg (List.any · id) hsame

end CallProbe.Probe
