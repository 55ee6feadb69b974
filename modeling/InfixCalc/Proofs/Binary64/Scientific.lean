import InfixCalc.Proofs.Binary64.Text

/-!
# Doubles in scientific notation

A number is read, with an exponent or without one, whatever script its digits belong to and wherever
its point stands.
-/

namespace InfixCalc

theorem IsMantissa.digit_or_point {cs : List Char} (mantissa : IsMantissa cs) :
    ∀ c ∈ cs, BeginsOperand c := by
  cases mantissa with
  | whole run => exact fun c member => .inl (run.2 c member)
  | point digits run =>
    exact List.forall_mem_append.mpr ⟨fun c member => .inl (digits c member),
      List.forall_mem_cons.mpr ⟨.inr rfl, fun c member => .inl (run.2 c member)⟩⟩

theorem IsMantissa.ne_nil {cs : List Char} (mantissa : IsMantissa cs) : cs ≠ [] := by
  cases mantissa with
  | whole run => exact run.1
  | point _ _ => simp

namespace Binary64

open InfixCalc.Number InfixCalc.Text

theorem isBlank_of_mem_exponent {es : List Char} (exponent : IsExponent es) :
    ∀ c ∈ es, isBlank c = false := by
  have mark {c : Char} (marked : c = 'e' ∨ c = 'E') : isBlank c = false := by
    rcases marked with rfl | rfl <;> rfl
  have digits {ds : List Char} (run : IsDigits ds) : ∀ c ∈ ds, isBlank c = false :=
    fun c member => not_isBlank_of_begins (.inl (run.2 c member))
  cases exponent with
  | plain marked run => exact List.forall_mem_cons.mpr ⟨mark marked, digits run⟩
  | signed marked signed run =>
    refine List.forall_mem_cons.mpr ⟨mark marked, List.forall_mem_cons.mpr ⟨?_, digits run⟩⟩
    rcases signed with rfl | rfl <;> rfl

/-- What may follow a number stops its digits. -/
theorem stops_of_exponent {es : List Char} (ends : es = [] ∨ IsExponent es) :
    ∀ c ∈ es.head?, digitValue? c = none ∧ c ≠ '_' := by
  rcases ends with rfl | exponent
  · exact nofun
  · obtain ⟨mark, rest, rfl, marked⟩ := exponent.cons
    rintro _ ⟨⟩
    rcases marked with rfl | rfl <;> decide

theorem digitRun_digits {ds : List Char} (run : IsDigits ds) :
    ∃ d more, digitRun false ds = (d :: more, []) := by
  have all : digitRun false (ds ++ []) = (ds.filterMap digitValue?, []) :=
    digitRun_append run.2 (stops_of_exponent (.inl rfl)) false
  obtain ⟨d, more, values⟩ := List.exists_cons_of_ne_nil (filterMap_ne_nil run)
  rw [List.append_nil, values] at all
  exact ⟨d, more, all⟩

theorem exists_exponentOf {es : List Char} (ends : es = [] ∨ IsExponent es) :
    ∃ n, exponentOf es = some n := by
  rcases ends with rfl | exponent
  · exact ⟨0, rfl⟩
  · have found {mark : Char} {rest ds : List Char} {negative : Bool}
        (marked : mark = 'e' ∨ mark = 'E') (signed : signOf rest = (negative, ds))
        (run : IsDigits ds) : ∃ n, exponentOf (mark :: rest) = some n := by
      obtain ⟨d, more, all⟩ := digitRun_digits run
      have isMark : (mark == 'e' || mark == 'E') = true := by
        rcases marked with rfl | rfl <;> rfl
      simp [exponentOf, isMark, signed, all]
    cases exponent with
    | plain marked run =>
      obtain ⟨d, ds, rfl, digit⟩ := run.cons
      exact found marked (signOf_of_begins (.inl digit) ds) run
    | signed marked signed run =>
      rcases signed with rfl | rfl
      · exact found marked rfl run
      · exact found marked rfl run

theorem exists_unsigned {cs es : List Char} (mantissa : IsMantissa cs)
    (ends : es = [] ∨ IsExponent es) : ∃ number, unsigned (cs ++ es) = some number := by
  obtain ⟨n, exponent⟩ := exists_exponentOf ends
  have stops := stops_of_exponent ends
  unfold unsigned
  cases mantissa with
  | whole run =>
    have first := digitRun_append run.2 stops false
    have some_ := filterMap_ne_nil run
    rw [first]
    -- no point can follow the digits
    rcases ends with rfl | isExponent
    · simp [some_, exponent]
    · obtain ⟨mark, rest, rfl, rfl | rfl⟩ := isExponent.cons
      · simp [some_, exponent]
      · simp [some_, exponent]
  | @point ds fs digits run =>
    have pointStops : ∀ c ∈ ('.' :: (fs ++ es)).head?, digitValue? c = none ∧ c ≠ '_' := by
      rintro _ ⟨⟩
      decide
    have first := digitRun_append digits pointStops false
    have later := digitRun_append run.2 stops false
    rw [List.append_assoc, List.cons_append, first]
    simp [later, filterMap_ne_nil run, exponent]

/-- A number is read, with an exponent or without one. -/
theorem exists_read {cs es : List Char} (mantissa : IsMantissa cs)
    (ends : es = [] ∨ IsExponent es) : ∃ value, read (String.ofList (cs ++ es)) = some value := by
  have noBlank : ∀ c ∈ cs ++ es, isBlank c = false := by
    refine List.forall_mem_append.mpr
      ⟨fun c member => not_isBlank_of_begins (mantissa.digit_or_point c member), ?_⟩
    rcases ends with rfl | exponent
    · exact List.forall_mem_nil _
    · exact isBlank_of_mem_exponent exponent
  obtain ⟨number, reads⟩ := exists_unsigned mantissa ends
  have trimmed := trim_eq_self noBlank
  have begins := mantissa.digit_or_point
  obtain ⟨c, rest, rfl⟩ := List.exists_cons_of_ne_nil mantissa.ne_nil
  rw [List.cons_append] at trimmed reads ⊢
  rw [read_of_begins (begins c List.mem_cons_self) trimmed, reads]
  exact ⟨_, rfl⟩

end Binary64
end InfixCalc
