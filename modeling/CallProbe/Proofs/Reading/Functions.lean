import CallProbe.Proofs.Reading.Generated
import CallProbe.Probe.Function

/-! # Functions that are written as they are

Attributes and a signature that read as they are written, with a block behind them that does, are a function that does. -/

namespace CallProbe.Source.Parse

open Grammar Grouping

variable {ss : List Tree} {o c : Pos}

/-! ### Attributes -/

/-- An attribute that is written as it is and reads as it is written. -/
structure ReadsAttr (a : Tree) : Prop where
  settled : Settled a
  ahead : ∀ rest, Ahead.symbol "#" (a.toTokens ++ rest) = true
  reads : ∀ rest, outerAttr reach (a.toTokens ++ rest) = .ok (a, rest)

theorem ReadsAttr.taken {a : Tree} (h : ReadsAttr a) : a.toTokens ≠ [] := by
  intro hnil
  have hahead := h.ahead []
  rw [hnil] at hahead
  cases hahead

section
variable {as : List Tree} (h : ∀ a ∈ as, ReadsAttr a) {rest : List TokenTree}
include h

theorem length_le_of_readsAttr : as.length ≤ (as.flatMap Tree.toTokens ++ rest).length := by
  induction as with
  | nil => exact Nat.zero_le _
  | cons a as ih =>
    have htaken := List.length_pos_iff.mpr (h a (by simp)).taken
    have hmore := ih fun b hb => h b (by simp [hb])
    simp only [List.flatMap_cons, List.length_append, List.length_cons] at hmore ⊢
    omega

theorem repeatFuel_outerAttr (hrest : Ahead.symbol "#" rest = false) {n : Nat} (hn : as.length ≤ n) :
    repeatFuel (Ahead.symbol "#") (outerAttr reach) n (as.flatMap Tree.toTokens ++ rest) = .ok (as, rest) := by
  induction as generalizing n with
  | nil => exact repeatFuel_of_not hrest n
  | cons a as ih =>
    obtain ⟨n, rfl⟩ : ∃ k, n = k + 1 := ⟨n - 1, by simp at hn; omega⟩
    have ha := h a (by simp)
    rw [List.flatMap_cons, List.append_assoc]
    exact repeatFuel_cons (ha.ahead _) (ha.reads _) (ih (fun b hb => h b (by simp [hb])) (by simp at hn; omega))

theorem outerAttrs_of_readsAttr (hrest : Ahead.symbol "#" rest = false) :
    outerAttrs reach (as.flatMap Tree.toTokens ++ rest) = .ok (.node .attrs as, rest) := by
  have hrepeat : repeatWhile (Ahead.symbol "#") (outerAttr reach) (as.flatMap Tree.toTokens ++ rest) = .ok (as, rest) := by
    rw [repeatWhile, bind_get]
    exact repeatFuel_outerAttr h hrest (length_le_of_readsAttr h)
  rw [outerAttrs, bind_of_ok hrepeat]
  rfl

end

/-! ### Futures -/

/-- A future that takes along what it uses. -/
theorem Stmts.future (h : Stmts ss) (hsettled : ∀ s ∈ ss, Settled s) {a m : Pos} :
    Operand false false (.node .asyncExpr [.noAttrs, .leaf (.word "async" a), .leaf (.word "move" m), blockOf ss o c]) where
  base structs rest e rest' _ _ htrailers hform := by
    have htokens : (Tree.node .asyncExpr [.noAttrs, .leaf (.word "async" a), .leaf (.word "move" m), blockOf ss o c]).toTokens ++
        rest = .ident "async" a :: .ident "move" m :: ((blockOf ss o c).toTokens ++ rest) := by
      simp [toTokens_node, toTokens_noAttrs, toTokens_word]
    have hatom : atom reach structs (.ident "async" a :: .ident "move" m :: ((blockOf ss o c).toTokens ++ rest)) =
        .ok (.node .asyncExpr [.noAttrs, .leaf (.word "async" a), .leaf (.word "move" m), blockOf ss o c], rest) := by
      have hmove : word? "move" (.ident "move" m :: ((blockOf ss o c).toTokens ++ rest)) =
          .ok (.leaf (.word "move" m), (blockOf ss o c).toTokens ++ rest) := whenAhead_ok rfl rfl
      have hahead : Ahead.group .brace ((blockOf ss o c).toTokens ++ rest) = true := by
        rw [toTokens_blockOf]
        rfl
      rw [atom, bind_get]
      dsimp only
      rw [if_neg (by simp [Ahead.literal]), if_pos, bind_of_ok (word_ok "async" a _), bind_of_ok hmove,
        bind_of_ok (h.block o c false rest)]
      · rfl
      · simp [Ahead.word, hahead]
    rw [htokens]
    exact unary_atom ⟨rfl, rfl, rfl, rfl, rfl⟩ hatom htrailers hform
  shape := ⟨isForm_node (by decide), rfl, rfl, rfl, by simp [Tree.kind?], fun s _ =>
    grouped_node (by simp [partCount?]) (by simp [settled_blockOf hsettled, settled_leaf, settled_noAttrs]) s, rfl, fun rest =>
      ⟨⟨rfl, rfl, rfl, rfl, rfl⟩, rfl, rfl, rfl⟩⟩
  named _ := rfl
  early he := by cases he

end CallProbe.Source.Parse

namespace CallProbe.Probe

open Source Parse Grammar

variable {f : Function} {ss : List Tree} {o c : Pos}

/-! ### Functions -/

/-- A function whose attributes and signature are written as they are and read as they are written, whatever block follows. -/
structure Function.Heads (f : Function) : Prop where
  attrs : ∀ a ∈ f.attrs, ReadsAttr a
  settled : Settled f.sig
  front : ∀ rest, Ahead.symbol "#" (f.vis.toTokens ++ (f.sig.toTokens ++ rest)) = false
  vis : ∀ rest, visibility (f.vis.toTokens ++ (f.sig.toTokens ++ rest)) = .ok (f.vis, f.sig.toTokens ++ rest)
  sig : ∀ o content c, signature reach (f.sig.toTokens ++ [.group .brace o content c]) = .ok (f.sig, [.group .brace o content c])

/-- A function with a block that reads as it is written. -/
theorem Function.Heads.parse (h : f.Heads) (hbody : f.body = some (blockOf ss o c)) (hstmts : Stmts ss)
    (hsettled : ∀ s ∈ ss, Settled s) : Function.parse f.toTokens = .ok f := by
  let block : TokenTree := .group .brace o (ss.flatMap Tree.toTokens) c
  have hattrs : f.attrs.flatMap Tree.written = f.attrs.flatMap Tree.toTokens :=
    List.flatMap_congr fun a ha => congrArg Tree.toTokens (h.attrs a ha).settled
  have htokens : f.toTokens = f.attrs.flatMap Tree.toTokens ++ (f.vis.toTokens ++ (f.sig.toTokens ++ [block])) := by
    have hsig : f.sig.written = f.sig.toTokens := congrArg Tree.toTokens h.settled
    have hblock : (blockOf ss o c).written = [block] := by
      rw [Tree.written, Tree.grouped, settled_blockOf hsettled, toTokens_blockOf]
    rw [toTokens, hattrs, hsig, hbody]
    simp [hblock]
  have hblock : reach (.block true) [block] = .ok (blockOf ss o c, []) := by
    have hread := hstmts.block o c true []
    rwa [toTokens_blockOf, List.append_nil] at hread
  have hreads : reader reach f.toTokens = .ok (f, []) := by
    rw [htokens, reader, bind_of_ok (outerAttrs_of_readsAttr h.attrs (h.front _)), bind_of_ok (h.vis _), bind_of_ok (h.sig ..),
      bind_get, if_neg (show ¬Ahead.symbol ";" [block] = true from by simp [block, Ahead.symbol, Ahead.chars])]
    dsimp only
    rw [bind_of_ok hblock]
    change Except.ok ((⟨f.attrs ++ [], f.vis, f.sig, some (blockOf ss o c)⟩ : Function), []) = _
    rw [List.append_nil, ← hbody]
  rw [Function.parse, parseWith, hreads]

/-- What is read as it is written needs no parentheses. -/
theorem Function.Heads.grouped (h : f.Heads) (hbody : f.body = some (blockOf ss o c)) (hsettled : ∀ s ∈ ss, Settled s) :
    f.grouped = f := by
  have hattrs : f.attrs.map Tree.grouped = f.attrs := settled_all fun a ha => (h.attrs a ha).settled
  have hsig : f.sig.grouped = f.sig := h.settled
  have hblock : f.body.map Tree.grouped = f.body := by
    rw [hbody]
    exact congrArg some (settled_blockOf hsettled)
  rw [Function.grouped, hattrs, hsig, hblock]

/-- The attribute that allows unreachable code is written as it is. -/
theorem readsAttr_allow : ReadsAttr (Function.listAttr "allow" "unreachable_code") := ⟨rfl, fun _ => rfl, fun _ => rfl⟩

end CallProbe.Probe
