import InfixCalc.Proofs.Conversion.Reading
import InfixCalc.Proofs.Conversion.Refusal

/-!
# The limit of a conversion

A limit bounds the number of parentheses that are open at the same time, and nothing else in the
conversion depends on it.
-/

namespace InfixCalc

variable {σ α : Type}

/-- The largest number of open parentheses while the tokens are read, if some are open already. -/
def nestingFrom (depth : Nat) : List (Token σ α) → Nat
  | [] => depth
  | .separator .openParen :: rest => nestingFrom (depth + 1) rest
  | .separator .closeParen :: rest => max depth (nestingFrom (depth - 1) rest)
  | .separator .comma :: rest => nestingFrom depth rest
  | .symbol _ :: rest => nestingFrom depth rest

def nesting (tokens : List (Token σ α)) : Nat := nestingFrom 0 tokens

theorem le_nestingFrom (depth : Nat) (ts : List (Token σ α)) : depth ≤ nestingFrom depth ts := by
  fun_induction nestingFrom depth ts with
  | case1 depth => exact Nat.le_refl depth
  | case2 depth rest ih => exact Nat.le_of_succ_le ih
  | case3 depth rest ih => exact Nat.le_max_left _ _
  | case4 depth rest ih => exact ih
  | case5 depth s rest ih => exact ih

namespace Postfix

/- The depth of the state is the number of open parentheses. -/

theorem depth_openGroup {state next : State σ α} (h : openGroup none state = .ok next) :
    next.depth = state.depth + 1 := by
  cases h
  rfl

theorem depth_openCall {state next : State σ α} {callable : Callable σ α}
    (h : openCall none state callable = .ok next) : next.depth = state.depth + 1 := by
  cases h
  rfl

theorem depth_operator {state next : State σ α} {op : Operator σ α}
    (h : operator state op = .ok next) : next.depth = state.depth := by
  by_cases fixity : op.fixity = .before
  · rw [operator_before fixity] at h
    split at h
    · cases h
    · cases h
      rfl
  · rw [operator_behind fixity] at h
    split at h
    · cases h
      unfold behind
      split
      · rfl
      · rfl
    · cases h

theorem depth_comma {state next : State σ α} (h : comma state = .ok next) :
    next.depth = state.depth := by
  rw [comma_ended (ended_of_comma h)] at h
  split at h
  · cases h
    rfl
  · cases h

theorem depth_closeParen {state next : State σ α} (h : closeParen state = .ok next) :
    next.depth = state.depth - 1 := by
  unfold closeParen at h
  simp only at h
  split at h
  · cases h
  · obtain ⟨closed, _, given⟩ := bind_eq_ok_iff.mp h
    cases given
    rfl

theorem enter_eq_ok_iff {limit : Option Nat} {depth deeper : Nat} :
    enter limit depth = .ok deeper ↔ deeper = depth + 1 ∧ Within limit (depth + 1) := by
  cases limit with
  | none => simp [enter, within_none, eq_comm]
  | some most =>
    simp only [enter, within_some]
    split <;> simp <;> omega

theorem openGroup_eq_ok_iff {limit : Option Nat} {state next : State σ α} :
    openGroup limit state = .ok next ↔
      openGroup none state = .ok next ∧ Within limit (state.depth + 1) := by
  unfold openGroup
  simp only [bind_eq_ok_iff, enter_eq_ok_iff, within_none]
  grind

theorem openCall_eq_ok_iff {limit : Option Nat} {state next : State σ α}
    {callable : Callable σ α} :
    openCall limit state callable = .ok next ↔
      openCall none state callable = .ok next ∧ Within limit (state.depth + 1) := by
  unfold openCall
  simp only [bind_eq_ok_iff, enter_eq_ok_iff, within_none]
  grind

theorem bind_run_eq_ok_iff {limit : Option Nat} {opened depth : Nat} {final : State σ α}
    {limited unlimited : Except Failure (State σ α)} {rest : List (Token σ α)}
    (first : ∀ middle, limited = .ok middle ↔ unlimited = .ok middle ∧ Within limit opened)
    (reached : ∀ middle, unlimited = .ok middle → middle.depth = depth) (small : depth ≤ opened)
    (later : ∀ middle : State σ α, Within limit middle.depth →
      (run limit middle rest = .ok final ↔
        run none middle rest = .ok final ∧ Within limit (nestingFrom middle.depth rest))) :
    (limited >>= fun middle => run limit middle rest) = .ok final ↔
      (unlimited >>= fun middle => run none middle rest) = .ok final ∧
        Within limit (max opened (nestingFrom depth rest)) := by
  have both : Within limit (max opened (nestingFrom depth rest)) ↔
      Within limit opened ∧ Within limit (nestingFrom depth rest) := by
    simp only [Within, Nat.max_le]
    exact forall₂_and
  simp only [bind_eq_ok_iff, both]
  constructor
  · rintro ⟨middle, stepped, ran⟩
    obtain ⟨unlimitedStep, allowed⟩ := (first middle).mp stepped
    have here := reached middle unlimitedStep
    have rest_ran := (later middle (here ▸ allowed.mono small)).mp ran
    exact ⟨⟨middle, unlimitedStep, rest_ran.1⟩, allowed, here ▸ rest_ran.2⟩
  · rintro ⟨⟨middle, stepped, ran⟩, allowed, allowedLater⟩
    have here := reached middle stepped
    refine ⟨middle, (first middle).mpr ⟨stepped, allowed⟩, ?_⟩
    exact (later middle (here ▸ allowed.mono small)).mpr ⟨ran, here ▸ allowedLater⟩

theorem bind_run_eq_ok_iff_same {limit : Option Nat} {depth : Nat} {final : State σ α}
    {limited unlimited : Except Failure (State σ α)} {rest : List (Token σ α)}
    (first : ∀ middle, limited = .ok middle ↔ unlimited = .ok middle ∧ Within limit depth)
    (reached : ∀ middle, unlimited = .ok middle → middle.depth = depth)
    (later : ∀ middle : State σ α, Within limit middle.depth →
      (run limit middle rest = .ok final ↔
        run none middle rest = .ok final ∧ Within limit (nestingFrom middle.depth rest))) :
    (limited >>= fun middle => run limit middle rest) = .ok final ↔
      (unlimited >>= fun middle => run none middle rest) = .ok final ∧
        Within limit (nestingFrom depth rest) := by
  have bound := bind_run_eq_ok_iff first reached (Nat.le_refl depth) later
  rwa [Nat.max_eq_right (le_nestingFrom depth rest)] at bound

theorem run_eq_ok_iff {limit : Option Nat} {state final : State σ α} {ts : List (Token σ α)}
    (allowed : Within limit state.depth) :
    run limit state ts = .ok final ↔
      run none state ts = .ok final ∧ Within limit (nestingFrom state.depth ts) := by
  fun_induction run none state ts
  case case1 state =>
    simp only [run, nestingFrom]
    exact (and_iff_left allowed).symm
  case case2 state rest ih =>
    exact bind_run_eq_ok_iff_same (fun middle => openGroup_eq_ok_iff)
      (fun middle opened => depth_openGroup opened) ih
  case case3 state rest ih =>
    exact bind_run_eq_ok_iff (fun middle => (and_iff_left allowed).symm)
      (fun middle closed => depth_closeParen closed) (Nat.sub_le _ _) ih
  case case4 state rest ih =>
    exact bind_run_eq_ok_iff_same (fun middle => (and_iff_left allowed).symm)
      (fun middle added => depth_comma added) ih
  case case5 state callable rest ih =>
    exact bind_run_eq_ok_iff_same (fun middle => openCall_eq_ok_iff)
      (fun middle opened => depth_openCall opened) ih
  case case6 state callable rest notOpened =>
    rw [run_call_alone notOpened]
    simp
  case case7 state op rest ih =>
    exact bind_run_eq_ok_iff_same (fun middle => (and_iff_left allowed).symm)
      (fun middle added => depth_operator added) ih
  case case8 state s rest _ notCall notOperator ih =>
    cases s with
    | operand value => exact ih allowed
    | «variable» label => exact ih allowed
    | operator op => exact absurd rfl (notOperator op)
    | call callable => exact absurd rfl (notCall callable)

theorem reorder_eq_ok_iff_within {limit : Option Nat} {ts : List (Token σ α)}
    {symbols : List (Symbol σ α)} :
    reorder limit ts = .ok symbols ↔
      reorder none ts = .ok symbols ∧ Within limit (nesting ts) := by
  unfold reorder
  have start : Within limit (State.initial : State σ α).depth := fun most _ => Nat.zero_le most
  simp only [bind_eq_ok_iff, run_eq_ok_iff start]
  grind [nesting, State.initial]

end Postfix

/-- The tree that tokens are assembled to: conversion to postfix order, and from there to a tree. -/
def Tree.parse (limit : Option Nat) (ts : List (Token σ α)) : Except Failure (Tree (Symbol σ α)) :=
  Postfix.reorder limit ts >>= Tree.assemble limit

/-- Tokens give the tree of the phrase that they are read as, if the limit allows the parentheses
and the tree. -/
theorem Tree.parse_eq_ok_iff {limit : Option Nat} {ts : List (Token σ α)} {t : Tree (Symbol σ α)} :
    Tree.parse limit ts = .ok t ↔
      (∃ p : Phrase σ α, p.tokens = ts ∧ p.Sound ∧ p.tree = t) ∧
        Within limit (nesting ts) ∧ Within limit t.height := by
  constructor
  · intro h
    obtain ⟨symbols, converted, assembled⟩ := bind_eq_ok_iff.mp h
    obtain ⟨unlimited, shallow⟩ := Postfix.reorder_eq_ok_iff_within.mp converted
    obtain ⟨rfl, full, low⟩ := assemble_eq_ok_iff.mp assembled
    obtain ⟨p, readAs, listed⟩ :=
      Postfix.reorder_eq_ok_iff.mp ⟨unlimited, full.weightOf_postorder⟩
    obtain ⟨tokens, sound⟩ := Phrase.ofTokens?_eq_some_iff.mp readAs
    exact ⟨⟨p, tokens, sound, (full.postorder_inj sound.1.full listed).symm⟩, shallow, low⟩
  · rintro ⟨⟨p, tokens, sound, rfl⟩, shallow, low⟩
    have readAs := Phrase.ofTokens?_eq_some_iff.mpr ⟨tokens, sound⟩
    obtain ⟨unlimited, _⟩ := Postfix.reorder_eq_ok_iff.mpr ⟨p, readAs, rfl⟩
    have converted := Postfix.reorder_eq_ok_iff_within.mpr ⟨unlimited, shallow⟩
    have assembled := assemble_eq_ok_iff.mpr ⟨rfl, sound.1.full, low⟩
    exact bind_eq_ok_iff.mpr ⟨_, converted, assembled⟩

end InfixCalc
