import CallProbe.Proofs.Shape.Survey

/-! # Trees that are printed alike

Trees that are equal but for the places of their tokens are one tree once these are forgotten. A printed list may also get a
separator behind its last element, and such a separator can be forgotten too. Both are maps that keep shapes. -/

namespace CallProbe.Source

mutual

/-- A token without places. -/
def TokenTree.unplaced : TokenTree → TokenTree
  | .ident t _ => .ident t Pos.none
  | .lifetime t _ => .lifetime t Pos.none
  | .literal t _ => .literal t Pos.none
  | .punct c joint _ => .punct c joint Pos.none
  | .group d _ content _ => .group d Pos.none (TokenTree.unplacedAll content) Pos.none

def TokenTree.unplacedAll : List TokenTree → List TokenTree
  | [] => []
  | t :: ts => t.unplaced :: TokenTree.unplacedAll ts

end

def Leaf.unplaced : Leaf → Leaf
  | .word t _ => .word t Pos.none
  | .lifetime t _ => .lifetime t Pos.none
  | .literal t _ => .literal t Pos.none
  | .symbol t _ => .symbol t Pos.none

mutual

/-- A tree without places. -/
def Tree.unplaced : Tree → Tree
  | .leaf l => .leaf l.unplaced
  | .tokens ts => .tokens (TokenTree.unplacedAll ts)
  | .arguments written read => .arguments (TokenTree.unplacedAll written) (Tree.unplacedAll read)
  | .group d _ content _ => .group d Pos.none (Tree.unplacedAll content) Pos.none
  | .node k cs => .node k (Tree.unplacedAll cs)

def Tree.unplacedAll : List Tree → List Tree
  | [] => []
  | t :: ts => t.unplaced :: Tree.unplacedAll ts

end

theorem Tree.unplacedAll_eq (ts : List Tree) : Tree.unplacedAll ts = ts.map Tree.unplaced := by
  induction ts with
  | nil => rfl
  | cons t ts ih => rw [Tree.unplacedAll, ih, List.map_cons]

theorem Leaf.text_unplaced (l : Leaf) : l.unplaced.text = l.text := by
  cases l <;> rfl

theorem Leaf.unplaced_of_same {a b : Leaf} (h : a.same b = true) : a.unplaced = b.unplaced := by
  cases a <;> cases b
  all_goals first
    | cases h
    | (obtain rfl := beq_iff_eq.mp h; rfl)

mutual

theorem TokenTree.unplaced_of_same : ∀ {a b : TokenTree}, a.same b = true → a.unplaced = b.unplaced
  | .ident _ _, .ident _ _, h | .lifetime _ _, .lifetime _ _, h | .literal _ _, .literal _ _, h => by
    obtain rfl := beq_iff_eq.mp h
    rfl
  | .punct _ _ _, .punct _ _ _, h => by
    obtain ⟨hc, hj⟩ := Bool.and_eq_true_iff.mp h
    obtain rfl := beq_iff_eq.mp hc
    obtain rfl := beq_iff_eq.mp hj
    rfl
  | .group _ _ as _, .group _ _ bs _, h => by
    obtain ⟨hd, hall⟩ := Bool.and_eq_true_iff.mp h
    obtain rfl := beq_iff_eq.mp hd
    rw [TokenTree.unplaced, TokenTree.unplaced, TokenTree.unplacedAll_of_same hall]

theorem TokenTree.unplacedAll_of_same : ∀ {as bs : List TokenTree}, TokenTree.same.sameAll as bs = true →
    TokenTree.unplacedAll as = TokenTree.unplacedAll bs
  | [], [], _ => rfl
  | a :: as, b :: bs, h => by
    obtain ⟨hab, hall⟩ := Bool.and_eq_true_iff.mp h
    rw [TokenTree.unplacedAll, TokenTree.unplacedAll, TokenTree.unplaced_of_same hab, TokenTree.unplacedAll_of_same hall]

end

mutual

/-- Equality up to places is equality without places. -/
theorem Tree.unplaced_of_same : ∀ {a b : Tree}, a.same b = true → a.unplaced = b.unplaced
  | .leaf _, .leaf _, h => congrArg Tree.leaf (Leaf.unplaced_of_same h)
  | .tokens _, .tokens _, h => congrArg Tree.tokens (TokenTree.unplacedAll_of_same h)
  | .arguments _ as, .arguments _ bs, h => by
    obtain ⟨hwritten, hread⟩ := Bool.and_eq_true_iff.mp h
    rw [Tree.unplaced, Tree.unplaced, TokenTree.unplacedAll_of_same hwritten, Tree.unplacedAll_of_same hread]
  | .group _ _ as _, .group _ _ bs _, h => by
    obtain ⟨hd, hall⟩ := Bool.and_eq_true_iff.mp h
    obtain rfl := beq_iff_eq.mp hd
    rw [Tree.unplaced, Tree.unplaced, Tree.unplacedAll_of_same hall]
  | .node _ as, .node _ bs, h => by
    obtain ⟨hk, hall⟩ := Bool.and_eq_true_iff.mp h
    obtain rfl := beq_iff_eq.mp hk
    rw [Tree.unplaced, Tree.unplaced, Tree.unplacedAll_of_same hall]

theorem Tree.unplacedAll_of_same : ∀ {as bs : List Tree}, Tree.same.sameAll as bs = true →
    Tree.unplacedAll as = Tree.unplacedAll bs
  | [], [], _ => rfl
  | a :: as, b :: bs, h => by
    obtain ⟨hab, hall⟩ := Bool.and_eq_true_iff.mp h
    rw [Tree.unplacedAll, Tree.unplacedAll, Tree.unplaced_of_same hab, Tree.unplacedAll_of_same hall]

end

theorem regular_unplaced : Regular Tree.unplaced where
  leaf l := ⟨l.unplaced, rfl, l.text_unplaced⟩
  tokens ts := ⟨TokenTree.unplacedAll ts, rfl⟩
  arguments written read := ⟨_, _, rfl⟩
  group d o c content := ⟨Pos.none, Pos.none, by rw [Tree.unplaced, Tree.unplacedAll_eq]⟩
  plain cs _ := .inr (by rw [Tree.unplaced, Tree.unplacedAll_eq])
  list cs := .inr ⟨cs, .inl rfl, by rw [Tree.unplaced, Tree.unplacedAll_eq]⟩
  other cs h hlist := ⟨_, _, rfl, h, hlist⟩

/-- No survey sees places. -/
theorem Survey.passes_unplaced (v : Survey) (t : Tree) : v.passes t.unplaced = v.passes t := by
  induction t using Tree.inside_induction with
  | step t ih =>
    cases t with
    | leaf l => rfl
    | tokens ts => rfl
    | arguments written read =>
      rw [Tree.unplaced, Tree.unplacedAll_eq, passes_arguments, passes_arguments]
      exact congrArg (!v.macros || ·) (v.all_congr ih)
    | group d o content c =>
      rw [Tree.unplaced, Tree.unplacedAll_eq, passes_group, passes_group]
      exact v.all_congr ih
    | node k cs =>
      rw [Tree.unplaced, Tree.unplacedAll_eq]
      exact v.passes_map regular_unplaced ih k

/-! ### Separators at the end -/

def isLeaf : Tree → Bool
  | .leaf _ => true
  | _ => false

/-- A list without a separator at its end. -/
def trim (cs : List Tree) : List Tree := if cs.length % 2 = 0 ∧ cs.getLast?.any isLeaf then cs.dropLast else cs

theorem trims_trim (cs : List Tree) : Trims (trim cs) cs := by
  unfold trim
  split
  · rename_i h
    obtain ⟨heven, hlast⟩ := h
    obtain ⟨t, ht, hleaf⟩ := (Option.any_eq_true ..).mp hlast
    obtain ⟨init, rfl⟩ := List.getLast?_eq_some_iff.mp ht
    cases t with
    | leaf l =>
      rw [List.dropLast_concat]
      rw [List.length_append, List.length_singleton] at heven
      exact .inr ⟨by omega, l, rfl⟩
    | _ => cases hleaf
  · exact .inl rfl

mutual

/-- A tree whose lists have no separators at their ends. -/
def Tree.trimmed : Tree → Tree
  | .leaf l => .leaf l
  | .tokens ts => .tokens ts
  | .arguments written read => .arguments written read
  | .group d o content c => .group d o (Tree.trimmedAll content) c
  | .node k cs => .node k (if k = .list then trim (Tree.trimmedAll cs) else Tree.trimmedAll cs)

def Tree.trimmedAll : List Tree → List Tree
  | [] => []
  | t :: ts => t.trimmed :: Tree.trimmedAll ts

end

theorem Tree.trimmedAll_eq (ts : List Tree) : Tree.trimmedAll ts = ts.map Tree.trimmed := by
  induction ts with
  | nil => rfl
  | cons t ts ih => rw [Tree.trimmedAll, ih, List.map_cons]

theorem Tree.trimmed_list (cs : List Tree) : Tree.trimmed (.node .list cs) = .node .list ((trim cs).map Tree.trimmed) := by
  have hleaf : (fun t : Tree => isLeaf t.trimmed) = isLeaf := funext fun t => by cases t <;> rfl
  have hlast : (cs.map Tree.trimmed).getLast?.any isLeaf = cs.getLast?.any isLeaf := by
    rw [List.getLast?_map, Option.any_map, hleaf]
  rw [Tree.trimmed, if_pos rfl, Tree.trimmedAll_eq, trim, trim, List.length_map, hlast]
  split
  · rw [List.map_dropLast]
  · rfl

theorem Tree.trimmed_node {k : Kind} (h : k ≠ .list) (cs : List Tree) :
    Tree.trimmed (.node k cs) = .node k (cs.map Tree.trimmed) := by
  rw [Tree.trimmed, if_neg h, Tree.trimmedAll_eq]

theorem regular_trimmed : Regular Tree.trimmed where
  leaf l := ⟨l, rfl, rfl⟩
  tokens ts := ⟨ts, rfl⟩
  arguments written read := ⟨written, read, rfl⟩
  group d o c content := ⟨o, c, by rw [Tree.trimmed, Tree.trimmedAll_eq]⟩
  plain cs h := .inr (Tree.trimmed_node (fun hk => by rw [hk] at h; cases h) cs)
  list cs := .inr ⟨trim cs, trims_trim cs, Tree.trimmed_list cs⟩
  other cs h hlist := ⟨_, _, Tree.trimmed_node hlist cs, h, hlist⟩

/-- No survey sees the separators at the ends of lists. -/
theorem Survey.passes_trimmed (v : Survey) (t : Tree) : v.passes t.trimmed = v.passes t := by
  induction t using Tree.inside_induction with
  | step t ih =>
    cases t with
    | leaf l => rfl
    | tokens ts => rfl
    | arguments written read => rfl
    | group d o content c =>
      rw [Tree.trimmed, Tree.trimmedAll_eq, passes_group, passes_group]
      exact v.all_congr ih
    | node k cs =>
      by_cases hk : k = .list
      · subst hk
        have hall : (trim cs).all v.passes = cs.all v.passes := by
          rcases trims_trim cs with heq | ⟨-, l, heq⟩
          · rw [heq]
          · conv_rhs => rw [heq, List.all_append]
            simp
        rw [Tree.trimmed_list, passes_other _ _ (by decide) (by decide), passes_other _ _ (by decide) (by decide), ← hall]
        exact v.all_congr fun t ht => ih t ((trims_trim cs).subset ht)
      · rw [Tree.trimmed_node hk]
        exact v.passes_map regular_trimmed ih k

/-- Whether trees are equal, places and separators at the ends of lists aside. -/
def Tree.alike (t u : Tree) : Bool := t.trimmed.same u.trimmed

theorem Survey.passes_of_alike (v : Survey) {t u : Tree} (h : t.alike u = true) : v.passes t = v.passes u := by
  rw [← v.passes_trimmed, ← v.passes_unplaced, Tree.unplaced_of_same h, v.passes_unplaced, v.passes_trimmed]

end CallProbe.Source
