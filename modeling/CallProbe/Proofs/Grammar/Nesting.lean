import CallProbe.Proofs.Grammar.Items

/-! # The nesting of rules

Rules are nested at most as deep as a bound says that is taken from the number of tokens. The bound is never met: with any
larger one the same is read, so a goal reads what its rule reads (`reach_eq`). -/

namespace CallProbe.Source

/-- How many goals may follow each other from this one on before a token is taken. -/
def Goal.rank : Goal → Nat
  | .stmt => 3
  | .expr _ | .operand _ _ | .earlyExpr => 2
  | .unary _ | .item | .type _ => 1
  | .climb _ _ _ | .trailers _ | .block _ | .pattern | .typePath | .genericParam | .useTree _ => 0

theorem Goal.rank_le (goal : Goal) : goal.rank ≤ 3 := by
  cases goal <;> simp [rank]

namespace Grammar

open Parse

variable {n k l : Nat} {r r' : Reach}

/-- A rule reaches the goals that it starts with, of lower rank, and others only behind a token that is taken. -/
theorem rule_agree (h : Below n r r') (goal : Goal)
    (hnear : ∀ goal', goal'.rank < goal.rank → Agree n (r goal') (r' goal')) : Agree n (rule r goal) (rule r' goal) := by
  have near {goal' : Goal} (hrank : decide (goal'.rank < goal.rank) = true) : Agree n (r goal') (r' goal') :=
    hnear goal' (of_decide_eq_true hrank)
  cases goal with
  | expr structs => exact expr_agree (near rfl) fun _ => near rfl
  | unary structs => exact unary_agree h (near rfl) (fun _ => near rfl) structs
  | climb left structs base => exact climb_agree h left structs base
  | earlyExpr =>
    exact earlyExpr_agree h (near rfl) (near rfl) (fun _ => near rfl)
      fun _ => near rfl
  | operand structs after => exact operand_agree (near rfl) (fun _ _ => near rfl) after
  | trailers base => exact trailers_agree h base
  | block inner => exact block_agree h inner
  | stmt => exact stmt_agree h (near rfl) (near rfl)
  | pattern => exact pattern_agree h
  | type plus => exact type_agree h (near rfl) plus
  | typePath => exact path_agree h false
  | genericParam => exact genericParam_agree h
  | item => exact item_agree h (near rfl)
  | useTree root => exact useTree_agree h root

/-- With at most so many tokens, rules that are nested deep enough give the same. -/
theorem run_agree (goal : Goal) (hk : 4 * n + goal.rank < k) (hl : 4 * n + goal.rank < l) :
    Agree n (run k goal) (run l goal) := by
  induction hdepth : 4 * n + goal.rank using Nat.strongRecOn generalizing n goal k l with
  | ind depth ih =>
    obtain ⟨k, rfl⟩ := Nat.exists_eq_succ_of_ne_zero (Nat.ne_zero_of_lt hk)
    obtain ⟨l, rfl⟩ := Nat.exists_eq_succ_of_ne_zero (Nat.ne_zero_of_lt hl)
    refine rule_agree (fun m hm goal' => ?_) goal fun goal' hrank => ?_
    · have hle := goal'.rank_le
      exact ih (4 * m + goal'.rank) (by omega) goal' (by omega) (by omega) rfl
    · exact ih (4 * n + goal'.rank) (by omega) goal' (by omega) (by omega) rfl

/-- What a goal reads does not depend on the bound, if that is large enough. -/
theorem reach_eq_run (goal : Goal) {ts : List TokenTree} (hk : depth ts ≤ k) : reach goal ts = run k goal ts := by
  have hrank := goal.rank_le
  rw [depth] at hk
  exact (run_agree goal (by rw [depth]; omega) (by omega)).same (Nat.le_refl (tokenCount ts))

theorem agree_reach (goal : Goal) (hk : 12 * n + 60 ≤ k) : Agree n (run k goal) (reach goal) where
  same {ts} hts := (reach_eq_run goal (by rw [depth]; omega)).symm
  left {ts a rest} hts h := by
    have hrank := goal.rank_le
    exact (run_agree goal (by omega) (by omega : 4 * n + goal.rank < k)).left hts h

/-- A goal reads what its rule reads. -/
theorem reach_eq (goal : Goal) : reach goal = rule reach goal := by
  funext ts
  have hbelow : Below (tokenCount ts) (run (depth ts)) reach :=
    fun m hm goal' => agree_reach goal' (by rw [depth]; omega)
  have hrule : Agree (tokenCount ts) (rule (run (depth ts)) goal) (rule reach goal) :=
    rule_agree hbelow goal fun goal' _ => agree_reach goal' (Nat.le_refl _)
  calc reach goal ts = run (depth ts + 1) goal ts := reach_eq_run goal (Nat.le_succ _)
    _ = rule (run (depth ts)) goal ts := rfl
    _ = rule reach goal ts := hrule.same (Nat.le_refl _)

end Grammar

end CallProbe.Source
