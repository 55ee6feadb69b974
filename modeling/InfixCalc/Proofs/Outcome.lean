import InfixCalc.Failure
import Mathlib.Data.List.Forall2

/-!
# Outcomes and limits

Steps that may fail, one after another, and limits that may be absent.
-/

namespace InfixCalc

variable {ε β γ : Type}

theorem bind_eq_ok_iff {first : Except ε β} {next : β → Except ε γ} {result : γ} :
    (first >>= next) = .ok result ↔ ∃ b, first = .ok b ∧ next b = .ok result := by
  cases first with
  | ok b => simp [bind, Except.bind]
  | error cause => simp [bind, Except.bind]

theorem bind_eq_error_iff {first : Except ε β} {next : β → Except ε γ} {cause : ε} :
    (first >>= next) = .error cause ↔
      first = .error cause ∨ ∃ b, first = .ok b ∧ next b = .error cause := by
  cases first with
  | ok b => simp [bind, Except.bind]
  | error other => simp [bind, Except.bind]

theorem map_eq_ok_iff {first : Except ε β} {f : β → γ} {result : γ} :
    first.map f = .ok result ↔ ∃ b, first = .ok b ∧ f b = result := by
  cases first with
  | ok b => simp [Except.map]
  | error cause => simp [Except.map]

theorem exists_mapM_iff {f : β → Except ε γ} {xs : List β} :
    (∃ ys, xs.mapM f = .ok ys) ↔ ∀ x ∈ xs, ∃ y, f x = .ok y := by
  induction xs with
  | nil => simp [pure, Except.pure]
  | cons x xs ih =>
    rw [List.forall_mem_cons, ← ih, List.mapM_cons]
    simp only [bind_eq_ok_iff]
    constructor
    · rintro ⟨_, y, first, ys, later, _⟩
      exact ⟨⟨y, first⟩, ⟨ys, later⟩⟩
    · rintro ⟨⟨y, first⟩, ⟨ys, later⟩⟩
      exact ⟨y :: ys, y, first, ys, later, rfl⟩

theorem mapM_eq_ok_iff {f : β → Except ε γ} {xs : List β} {ys : List γ} :
    xs.mapM f = .ok ys ↔ List.Forall₂ (fun x y => f x = .ok y) xs ys := by
  induction xs generalizing ys with
  | nil =>
    rw [List.forall₂_nil_left_iff]
    constructor
    · intro came
      cases came
      rfl
    · rintro rfl
      rfl
  | cons x xs ih =>
    rw [List.mapM_cons, List.forall₂_cons_left_iff]
    simp only [bind_eq_ok_iff, ih]
    constructor
    · rintro ⟨y, first, others, later, same⟩
      cases same
      exact ⟨y, others, first, later, rfl⟩
    · rintro ⟨y, others, first, later, rfl⟩
      exact ⟨y, first, others, later, rfl⟩

theorem mapM_eq_error {f : β → Except ε γ} {xs : List β} {cause : ε}
    (h : xs.mapM f = .error cause) : ∃ x ∈ xs, f x = .error cause := by
  induction xs with
  | nil => cases h
  | cons x xs ih =>
    rw [List.mapM_cons] at h
    rcases bind_eq_error_iff.mp h with first | ⟨y, _, later⟩
    · exact ⟨x, List.mem_cons_self, first⟩
    · rcases bind_eq_error_iff.mp later with inside | ⟨_, _, never⟩
      · obtain ⟨other, member, failed⟩ := ih inside
        exact ⟨other, List.mem_cons_of_mem _ member, failed⟩
      · cases never

/-- A number that the limit allows; without a limit every number is allowed. -/
def Within (limit : Option Nat) (n : Nat) : Prop := ∀ most ∈ limit, n ≤ most

theorem within_none (n : Nat) : Within none n := by simp [Within]

theorem within_some (most n : Nat) : Within (some most) n ↔ n ≤ most := by simp [Within]

theorem Within.mono {limit : Option Nat} {m n : Nat} (small : m ≤ n) (h : Within limit n) :
    Within limit m :=
  fun most given => Nat.le_trans small (h most given)

end InfixCalc
