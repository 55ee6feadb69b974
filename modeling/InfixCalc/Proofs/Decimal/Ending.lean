import InfixCalc.Proofs.Decimal.Magnitude

/-!
# Outcomes that come to an end

Arithmetic on decimals gives a decimal or stops with an exceptional condition. A series does so too,
or goes on without end. An undefined decimal that is not signaling goes through all arithmetic, and
is equal to nothing.
-/

namespace InfixCalc

open InfixCalc.Number

namespace Decimal

/-- An undefined decimal that is not signaling. -/
def IsQuiet (x : Decimal) : Prop := x.isUndefined = true ∧ x.isSignaling = false

end Decimal

namespace Context

open Decimal

variable {α β : Type} {good good' : α → Prop}

/-- The outcome is a good value, or an exceptional condition of the arithmetic. -/
inductive Ends (good : α → Prop) : Outcome α → Prop where
  | value {a : α} (holds : good a) : Ends good (.ok a)
  | zeroDivisor : Ends good (.error .zeroDivisor)
  | signal (condition : Signal) : Ends good (refuse condition)

theorem Ends.bind_of_eq {outcome : Outcome α} {next : α → Outcome β} {good' : β → Prop}
    (first : Ends good outcome) (then_ : ∀ a, outcome = .ok a → good a → Ends good' (next a)) :
    Ends good' (outcome >>= next) := by
  cases first with
  | value holds => exact then_ _ rfl holds
  | zeroDivisor => exact .zeroDivisor
  | signal condition => exact .signal condition

theorem Ends.bind {outcome : Outcome α} {next : α → Outcome β} {good' : β → Prop}
    (first : Ends good outcome) (then_ : ∀ a, good a → Ends good' (next a)) :
    Ends good' (outcome >>= next) :=
  first.bind_of_eq fun a _ => then_ a

theorem Ends.of_eq_ok {outcome : Outcome α} (ends : Ends good outcome) {a : α}
    (came : outcome = .ok a) : good a := by
  subst came
  cases ends with
  | value holds => exact holds

theorem Ends.mono {outcome : Outcome α} (ends : Ends good outcome)
    (weaker : ∀ a, good a → good' a) : Ends good' outcome := by
  cases ends with
  | value holds => exact .value (weaker _ holds)
  | zeroDivisor => exact .zeroDivisor
  | signal condition => exact .signal condition

theorem exists_ok_bind {outcome : Outcome α} {next : α → Outcome β} {good' : β → Prop}
    (first : ∃ a, outcome = .ok a ∧ good a)
    (then_ : ∀ a, good a → ∃ b, next a = .ok b ∧ good' b) :
    ∃ b, (outcome >>= next) = .ok b ∧ good' b := by
  obtain ⟨a, rfl, holds⟩ := first
  exact then_ a holds

/-- A decimal with the value, which the context has room for. -/
def Shows (ctx : Context) (v : ℚ) (d : Decimal) : Prop :=
  d.value? = some v ∧ |v| < 10 ^ (ctx.greatest + 1)

variable {ctx : Context} {x y : Decimal} {v w : ℚ}

/-- The outcome is a good value, or something that was to be small is too large for the context. -/
inductive Yields (small : Prop) (good : α → Prop) : Outcome α → Prop where
  | value {a : α} (holds : good a) : Yields small good (.ok a)
  | overflow (large : ¬ small) : Yields small good (refuse .overflow)

theorem Yields.bind {small : Prop} {outcome : Outcome α} {next : α → Outcome β} {good' : β → Prop}
    (first : Yields small good outcome) (then_ : ∀ a, good a → Yields small good' (next a)) :
    Yields small good' (outcome >>= next) := by
  cases first with
  | value holds => exact then_ _ holds
  | overflow large => exact .overflow large

theorem Yields.mono {small small' : Prop} {outcome : Outcome α} (yields : Yields small good outcome)
    (stronger : small' → small) (weaker : ∀ a, good a → good' a) :
    Yields small' good' outcome := by
  cases yields with
  | value holds => exact .value (weaker _ holds)
  | overflow large => exact .overflow fun small => large (stronger small)

theorem Yields.ends {small : Prop} {outcome : Outcome α} (yields : Yields small good outcome) :
    Ends good outcome := by
  cases yields with
  | value holds => exact .value holds
  | overflow large => exact .signal _

theorem Yields.exists_eq_ok {small : Prop} {outcome : Outcome α}
    (yields : Yields small good outcome) (holds : small) : ∃ a, outcome = .ok a ∧ good a := by
  cases yields with
  | value holds => exact ⟨_, rfl, holds⟩
  | overflow large => exact absurd holds large

theorem Gives.yields {small : Prop} {outcome : Outcome Decimal} (gives : ctx.Gives v outcome)
    (fits : small → |v| < 10 ^ (ctx.greatest + 1)) :
    Yields small (ctx.Shows v) outcome := by
  cases gives with
  | number shows small => exact .value ⟨shows, small⟩
  | overflow large => exact .overflow fun small => (fits small).not_ge large

theorem Gives.ends {outcome : Outcome Decimal} (gives : ctx.Gives v outcome) :
    Ends (ctx.Shows v) outcome := by
  cases gives with
  | number shows small => exact .value ⟨shows, small⟩
  | overflow large => exact .signal _

/-- A quotient of finite decimals is finite, or there is none. -/
theorem ends_div (proper : ctx.IsProper) (shows : x.value? = some v) (shows' : y.value? = some w) :
    Ends (fun d => ∃ v, d.value? = some v) (ctx.div x y) := by
  rcases eq_or_ne w 0 with rfl | divisor
  · obtain ⟨m, c, p, rfl, rfl⟩ := exists_of_value? shows
    obtain ⟨n, d, q, rfl, zero⟩ := exists_of_value? shows'
    have none_ : d = 0 := by
      by_contra some_
      have positive := mul_pos (show (0 : ℚ) < d by exact_mod_cast Nat.pos_of_ne_zero some_)
        (ten_zpow_pos q)
      cases n <;> simp only [signedBy, Bool.false_eq_true, if_true, if_false] at zero <;> linarith
    simp only [div, if_pos none_]
    split
    · exact .signal _
    · exact .zeroDivisor
  · exact (gives_div proper shows shows' divisor).ends.mono fun _ shown => ⟨_, shown.1⟩

/- Undefined operands. -/

theorem passEither_quiet (quiet : x.IsQuiet ∨ y.IsQuiet) (plain : x.isSignaling = false)
    (plain' : y.isSignaling = false) : ∃ z, ctx.passEither x y = .ok z ∧ z.IsQuiet := by
  have passes {z : Decimal} (quiet : z.IsQuiet) : ∃ r, ctx.pass z = .ok r ∧ r.IsQuiet := by
    obtain ⟨undefined, plain⟩ := quiet
    cases z with
    | finite negative n e => cases undefined
    | infinite negative => cases undefined
    | undefined negative signaling payload =>
      obtain rfl : signaling = false := plain
      exact ⟨_, rfl, rfl, rfl⟩
  rw [passEither, plain, plain', Bool.or_self, if_neg Bool.false_ne_true]
  by_cases undefined : x.isUndefined = true
  · rw [if_pos undefined]
    exact passes ⟨undefined, plain⟩
  · rw [if_neg undefined]
    exact passes (quiet.resolve_left fun quiet => undefined quiet.1)

theorem mul_quiet (quiet : x.IsQuiet ∨ y.IsQuiet) (plain : x.isSignaling = false)
    (plain' : y.isSignaling = false) : ∃ z, ctx.mul x y = .ok z ∧ z.IsQuiet := by
  have passes : ctx.mul x y = ctx.passEither x y := by
    rcases quiet with ⟨undefined, _⟩ | ⟨undefined, _⟩ <;> cases x <;> cases y <;> trivial
  rw [passes]
  exact passEither_quiet quiet plain plain'

theorem div_quiet (quiet : x.IsQuiet ∨ y.IsQuiet) (plain : x.isSignaling = false)
    (plain' : y.isSignaling = false) : ∃ z, ctx.div x y = .ok z ∧ z.IsQuiet := by
  have passes : ctx.div x y = ctx.passEither x y := by
    rcases quiet with ⟨undefined, _⟩ | ⟨undefined, _⟩ <;> cases x <;> cases y <;> trivial
  rw [passes]
  exact passEither_quiet quiet plain plain'

theorem add_quiet (quiet : x.IsQuiet ∨ y.IsQuiet) (plain : x.isSignaling = false)
    (plain' : y.isSignaling = false) : ∃ z, ctx.add x y = .ok z ∧ z.IsQuiet := by
  have passes : ctx.add x y = ctx.passEither x y := by
    rcases quiet with ⟨undefined, _⟩ | ⟨undefined, _⟩ <;> cases x <;> cases y <;> trivial
  rw [passes]
  exact passEither_quiet quiet plain plain'

theorem equal_quiet (quiet : x.IsQuiet) (plain : y.isSignaling = false) :
    equal x y = .ok false := by
  obtain ⟨undefined, plain'⟩ := quiet
  rw [equal, plain', plain, Bool.or_self, if_neg Bool.false_ne_true]
  cases x <;> trivial

end Context
end InfixCalc
