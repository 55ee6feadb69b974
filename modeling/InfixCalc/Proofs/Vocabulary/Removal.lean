import InfixCalc.Proofs.Vocabulary.Kept

/-!
# Removal of operators

A removal takes out whatever stands under the label in one place, and the operators between
operands share a place: those that group to the left and those that group to the right. A look-up
asks for the fixity too. So a removal that names one of these two fixities takes out an operator
of the other as well.
-/

namespace InfixCalc
namespace Vocabulary

variable {σ α : Type} {v w : Vocabulary σ α} {label : String}

/-- Remove the operator of a fixity, or of every fixity where none is named. -/
def removeOperators (v : Vocabulary σ α) (label : String) :
    Option Fixity → Except Failure (Bool × Vocabulary σ α)
  | some fixity => v.removeOperatorAt label fixity
  | none => v.removeOperator label

/-- Whether there is an operator of a fixity, or of any fixity where none is named. -/
def hasOperators (v : Vocabulary σ α) (label : String) : Option Fixity → Bool
  | some fixity => v.hasOperatorAt label fixity
  | none => v.hasOperator label

def Names : Option Fixity → Fixity → Prop
  | some fixity, other => other = fixity
  | none, _ => True

/-- Whether a removal takes out the operators of a fixity. -/
def Covers : Option Fixity → Fixity → Prop
  | some fixity, other => fixity.Shares other
  | none, _ => True

theorem Names.covers {which : Option Fixity} {fixity : Fixity} (names : Names which fixity) :
    Covers which fixity := by
  cases which with
  | none => exact trivial
  | some given => exact .inl names.symm

/-- A removal that agrees with the look-ups: it tells whether there was such an operator, leaves
none, and changes no other look-up. -/
structure Agrees (v : Vocabulary σ α) (label : String) (which : Option Fixity) (found : Bool)
    (w : Vocabulary σ α) : Prop where
  told : found = v.hasOperators label which
  gone : w.hasOperators label which = false
  kept : ∀ other fixity, ¬ (other = label ∧ Names which fixity) →
    w.operator? other fixity = v.operator? other fixity

/- Look-ups in a regular vocabulary. -/

theorem Regular.shares (regular : v.Regular) {fixity : Fixity} {op : Operator σ α}
    (given : (v.operatorsAt fixity).get? label = some op) : op.fixity.Shares fixity := by
  cases fixity with
  | before => exact .inl (regular.before label op given).2.2.2
  | after => exact .inl (regular.after label op given).2.2.2
  | left => exact .inr ⟨(regular.between label op given).2.2.2, rfl⟩
  | right => exact .inr ⟨(regular.between label op given).2.2.2, rfl⟩

theorem Regular.operator?_eq_some_iff (regular : v.Regular) {fixity : Fixity}
    {op : Operator σ α} :
    v.operator? label fixity = some op ↔
      (v.operatorsAt fixity).get? label = some op ∧ op.fixity = fixity := by
  unfold operator?
  cases given : (v.operatorsAt fixity).get? label with
  | none => simp
  | some stored =>
    have fits : fixity.isBetween = false → stored.fixity = fixity := by
      intro outside
      rcases regular.shares given with same | ⟨_, between⟩
      · exact same
      · rw [outside] at between
        cases between
    simp only [Bool.and_eq_true, bne_iff_ne, ne_eq, Option.ite_none_left_eq_some, Option.some.injEq]
    constructor
    · rintro ⟨asked, rfl⟩
      refine ⟨rfl, ?_⟩
      cases between : fixity.isBetween with
      | false => exact fits between
      | true => simpa [between] using asked
    · rintro ⟨rfl, same⟩
      exact ⟨fun asked => asked.2 same, rfl⟩

theorem hasOperatorAt_iff {fixity : Fixity} :
    v.hasOperatorAt label fixity = true ↔ ∃ op, v.operator? label fixity = some op :=
  Option.isSome_iff_exists

theorem Regular.contains_iff (regular : v.Regular) {fixity : Fixity} :
    (v.operatorsAt fixity).contains label = true ↔
      ∃ other, fixity.Shares other ∧ v.hasOperatorAt label other = true := by
  constructor
  · intro present
    obtain ⟨op, given⟩ := Option.isSome_iff_exists.mp present
    have shares : fixity.Shares op.fixity := (regular.shares given).imp Eq.symm And.symm
    refine ⟨op.fixity, shares, hasOperatorAt_iff.mpr ⟨op, ?_⟩⟩
    rw [operatorsAt_of_shares v shares] at given
    exact regular.operator?_eq_some_iff.mpr ⟨given, rfl⟩
  · rintro ⟨other, shares, has⟩
    obtain ⟨op, found⟩ := hasOperatorAt_iff.mp has
    have given := (regular.operator?_eq_some_iff.mp found).1
    rw [← operatorsAt_of_shares v shares] at given
    exact Option.isSome_iff_exists.mpr ⟨op, given⟩

theorem Regular.hasOperators_iff (regular : v.Regular) {which : Option Fixity} :
    v.hasOperators label which = true ↔
      ∃ fixity, Names which fixity ∧ v.hasOperatorAt label fixity = true := by
  cases which with
  | some fixity => simp [hasOperators, Names]
  | none =>
    have places : v.hasOperator label = true ↔
        ∃ fixity, (v.operatorsAt fixity).contains label = true := by
      simp only [hasOperator, Bool.or_eq_true]
      constructor
      · rintro ((before | after) | between)
        · exact ⟨.before, before⟩
        · exact ⟨.after, after⟩
        · exact ⟨.left, between⟩
      · rintro ⟨fixity, present⟩
        cases fixity <;> simp_all [operatorsAt]
    rw [hasOperators, places]
    constructor
    · rintro ⟨_, present⟩
      obtain ⟨fixity, _, has⟩ := regular.contains_iff.mp present
      exact ⟨fixity, trivial, has⟩
    · rintro ⟨fixity, _, has⟩
      exact ⟨fixity, regular.contains_iff.mpr ⟨fixity, .inl rfl, has⟩⟩

/- What a removal does. -/

/-- What a removal tells and does, in all places that it covers. -/
structure Withdraws (v : Vocabulary σ α) (label : String) (which : Option Fixity) (found : Bool)
    (w : Vocabulary σ α) : Prop where
  told : found = true ↔ ∃ fixity, Covers which fixity ∧ v.hasOperatorAt label fixity = true
  gone : ∀ fixity, Covers which fixity → w.operator? label fixity = none
  kept : ∀ other fixity, ¬ (other = label ∧ Covers which fixity) →
    w.operator? other fixity = v.operator? other fixity

theorem operator?_congr {other : String} {fixity : Fixity}
    (same : (w.operatorsAt fixity).get? other = (v.operatorsAt fixity).get? other) :
    w.operator? other fixity = v.operator? other fixity := by
  unfold operator?
  rw [same]

theorem operator?_eq_none_of_missing {fixity : Fixity}
    (missing : (v.operatorsAt fixity).get? label = none) : v.operator? label fixity = none := by
  unfold operator?
  rw [missing]

theorem Regular.withdraws_at (regular : v.Regular) (free : label ∉ reservedLabels)
    (fixity : Fixity) :
    ∃ found w, v.removeOperatorAt label fixity = .ok (found, w) ∧
      v.Withdraws label (some fixity) found w := by
  have checked : checkReserved label = .ok () := by simp [checkReserved, free]
  have somewhere : (v.operatorsAt fixity).contains label = true ↔
      ∃ other, fixity.Shares other ∧ v.hasOperatorAt label other = true := regular.contains_iff
  cases present : (v.operatorsAt fixity).contains label with
  | false =>
    have ran : v.removeOperatorAt label fixity = .ok (false, v) := by
      simp only [removeOperatorAt, checked, present]
      rfl
    refine ⟨false, v, ran, ?_, ?_, ?_⟩
    · simpa [present, Covers] using somewhere
    · intro other shares
      have missing := Option.not_isSome_iff_eq_none.mp (Bool.eq_false_iff.mp present)
      rw [operatorsAt_of_shares v shares] at missing
      exact operator?_eq_none_of_missing missing
    · exact fun _ _ _ => rfl
  | true =>
    have place (other : Fixity) := operatorsAt_setOperatorsAt v fixity other
      ((v.operatorsAt fixity).erase label)
    have ran : v.removeOperatorAt label fixity =
        .ok (true, (v.setOperatorsAt fixity ((v.operatorsAt fixity).erase label)).touch) := by
      simp only [removeOperatorAt, checked, present]
      rfl
    refine ⟨true, _, ran, ?_, ?_, ?_⟩
    · simpa [Covers] using somewhere.mp present
    · intro other (shares : fixity.Shares other)
      apply operator?_eq_none_of_missing
      change ((v.setOperatorsAt fixity _).operatorsAt other).get? label = none
      rw [place, if_pos shares, Entries.get?_erase, if_pos rfl]
    · intro name other outside
      apply operator?_congr
      change ((v.setOperatorsAt fixity _).operatorsAt other).get? name = _
      rw [place]
      split
      · rename_i shares
        have elsewhere : name ≠ label := fun same => outside ⟨same, shares⟩
        rw [Entries.get?_erase, if_neg elsewhere, operatorsAt_of_shares v shares]
      · rfl

theorem Regular.withdraws_all (regular : v.Regular) (free : label ∉ reservedLabels) :
    ∃ found w, v.removeOperator label = .ok (found, w) ∧ v.Withdraws label none found w := by
  have checked : checkReserved label = .ok () := by simp [checkReserved, free]
  have somewhere : v.hasOperators label none = true ↔
      ∃ fixity, Names none fixity ∧ v.hasOperatorAt label fixity = true :=
    regular.hasOperators_iff
  have absent (missing : v.hasOperator label = false) (fixity : Fixity) :
      v.operator? label fixity = none := by
    by_contra found
    have has : v.hasOperatorAt label fixity = true := Option.isSome_iff_ne_none.mpr found
    have present : v.hasOperator label = true := somewhere.mpr ⟨fixity, trivial, has⟩
    rw [missing] at present
    cases present
  cases present : v.hasOperator label with
  | false =>
    have ran : v.removeOperator label = .ok (false, v) := by
      unfold hasOperator at present
      simp only [removeOperator, checked, present]
      rfl
    refine ⟨false, v, ran, ?_, ?_, ?_⟩
    · simpa [hasOperators, present, Names, Covers] using somewhere
    · exact fun fixity _ => absent present fixity
    · exact fun _ _ _ => rfl
  | true =>
    have ran : v.removeOperator label = .ok (true, { v with
        before := v.before.erase label
        after := v.after.erase label
        between := v.between.erase label }.touch) := by
      unfold hasOperator at present
      simp only [removeOperator, checked, present]
      rfl
    refine ⟨true, _, ran, ?_, ?_, ?_⟩
    · simpa [Names, Covers] using somewhere.mp present
    · intro fixity _
      apply operator?_eq_none_of_missing
      cases fixity <;> exact (Entries.get?_erase _ _ _).trans (if_pos rfl)
    · intro name fixity outside
      have elsewhere : name ≠ label := fun same => outside ⟨same, trivial⟩
      apply operator?_congr
      cases fixity <;> exact (Entries.get?_erase _ _ _).trans (if_neg elsewhere)

theorem Regular.withdraws (regular : v.Regular) (free : label ∉ reservedLabels)
    (which : Option Fixity) :
    ∃ found w, v.removeOperators label which = .ok (found, w) ∧
      v.Withdraws label which found w := by
  cases which with
  | some fixity => exact regular.withdraws_at free fixity
  | none => exact regular.withdraws_all free

/-- A removal agrees with the look-ups where it covers no operator that it does not name. -/
theorem Withdraws.agrees_iff {which : Option Fixity} {found : Bool}
    (withdraws : v.Withdraws label which found w) (regular : v.Regular) (after : w.Regular) :
    v.Agrees label which found w ↔
      ∀ fixity, Covers which fixity → v.hasOperatorAt label fixity = true →
        Names which fixity := by
  constructor
  · intro agrees fixity covered has
    by_contra unnamed
    have same := agrees.kept label fixity fun both => unnamed both.2
    rw [withdraws.gone fixity covered] at same
    simp [hasOperatorAt, ← same] at has
  · intro named
    refine ⟨?_, ?_, ?_⟩
    · rw [Bool.eq_iff_iff, withdraws.told, regular.hasOperators_iff]
      constructor
      · rintro ⟨fixity, covered, has⟩
        exact ⟨fixity, named fixity covered has, has⟩
      · rintro ⟨fixity, names, has⟩
        exact ⟨fixity, names.covers, has⟩
    · rw [← Bool.not_eq_true, after.hasOperators_iff]
      rintro ⟨fixity, names, has⟩
      simp [hasOperatorAt, withdraws.gone fixity names.covers] at has
    · intro other fixity outside
      by_cases inside : other = label ∧ Covers which fixity
      · obtain ⟨rfl, covered⟩ := inside
        have missing : ¬ v.hasOperatorAt other fixity = true := fun has =>
          outside ⟨rfl, named fixity covered has⟩
        rw [withdraws.gone fixity covered]
        exact (Option.not_isSome_iff_eq_none.mp missing).symm
      · exact withdraws.kept other fixity inside

/-- A removal is made whatever it finds. It takes out the operators of all fixities that are kept
together with a named one, and tells whether there were any. So it agrees with the look-ups if and
only if no operator of another fixity is kept there under the label. -/
theorem removeOperators_agrees_iff (reachable : v.Reachable) (free : label ∉ reservedLabels)
    (which : Option Fixity) :
    ∃ found w, v.removeOperators label which = .ok (found, w) ∧
      v.Withdraws label which found w ∧
      (v.Agrees label which found w ↔
        ∀ fixity, Covers which fixity → v.hasOperatorAt label fixity = true →
          Names which fixity) := by
  obtain ⟨found, w, ran, withdraws⟩ := reachable.regular.withdraws free which
  have after : w.Reachable := by
    cases which with
    | some fixity => exact reachable.change (.removeOperatorAt ran)
    | none => exact reachable.change (.removeOperator ran)
  exact ⟨found, w, ran, withdraws, withdraws.agrees_iff reachable.regular after.regular⟩

/- A power groups to the right, and the removal of one that groups to the left takes it out. -/

def power : Operator Unit Nat where
  label := "^"
  fixity := .right
  precedence := 4
  body _ := (Action.parameter 0).bind fun base => (Action.parameter 1).bind fun exponent =>
    .done (Nat.pow base exponent)
  symbol := none

def powers : Vocabulary Unit Nat := Vocabulary.empty.putOperator power

theorem reachable_powers : powers.Reachable := by
  have added : Vocabulary.empty.addOperator "^" "INFIX_RIGHT" (.whole 4) power.body =
      .ok (power, powers) := rfl
  exact .change .empty (.addOperator added)

theorem removeOperators_agrees_iff_powers :
    ∃ found w, powers.removeOperators "^" (some .left) = .ok (found, w) ∧
      powers.hasOperators "^" (some .left) = false ∧ found = true ∧
      w.hasOperators "^" (some .right) = false ∧ ¬ powers.Agrees "^" (some .left) found w := by
  have free : "^" ∉ reservedLabels := by decide
  obtain ⟨found, w, ran, withdraws, agrees⟩ :=
    removeOperators_agrees_iff reachable_powers free (some .left)
  have covered : Covers (some .left) .right := .inr ⟨rfl, rfl⟩
  have has : powers.hasOperatorAt "^" .right = true := by rfl
  refine ⟨found, w, ran, rfl, withdraws.told.mpr ⟨.right, covered, has⟩, ?_, ?_⟩
  · rw [hasOperators, hasOperatorAt, withdraws.gone .right covered]
    rfl
  · intro agreed
    cases agrees.mp agreed .right covered has

end Vocabulary
end InfixCalc
