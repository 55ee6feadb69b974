import InfixCalc.Proofs.Pattern.Default

/-!
# What patterns take

The ways to match a pattern, told from its parts. They do not say which way comes first, so they
serve where a text is matched in some way, or where no way takes a certain character.
-/

namespace InfixCalc.Pattern

variable {p q : Pattern} {set : CharSet} {text rest : List Char}

theorem mem_remainders_seq :
    rest ∈ (seq p q).remainders text ↔ ∃ middle ∈ p.remainders text, rest ∈ q.remainders middle :=
  List.mem_flatMap

theorem mem_remainders_char :
    rest ∈ (char set).remainders text ↔ ∃ c, set.contains c = true ∧ text = c :: rest := by
  cases text with
  | nil => simp [remainders]
  | cons c cs =>
    rw [remainders]
    constructor
    · intro member
      split at member
      · rename_i holds
        exact ⟨c, holds, by rw [List.mem_singleton.mp member]⟩
      · cases member
    · rintro ⟨d, holds, same⟩
      cases same
      simp [holds]

theorem mem_remainders_empty : rest ∈ empty.remainders text ↔ rest = text := List.mem_singleton

theorem mem_remainders_one {c : Char} :
    rest ∈ (char (.one c)).remainders text ↔ text = c :: rest := by
  rw [mem_remainders_char]
  constructor
  · rintro ⟨d, same, rfl⟩
    rw [beq_iff_eq.mp same]
  · rintro rfl
    exact ⟨c, beq_self_eq_true c, rfl⟩

theorem mem_remainders_optional :
    rest ∈ (optional p).remainders text ↔ rest ∈ p.remainders text ∨ rest = text := by
  simp [remainders]

theorem mem_remainders_ahead {expected : Bool} :
    rest ∈ (ahead expected p).remainders text ↔ p.matchesStart text = expected ∧ rest = text := by
  have same : (p.remainders text).isEmpty = !p.matchesStart text := by
    unfold matchesStart remainder?
    cases p.remainders text <;> rfl
  rw [remainders, same]
  cases expected <;> cases p.matchesStart text <;> simp

theorem mem_remainders_atEnd :
    rest ∈ atEnd.remainders text ↔ (text = [] ∨ text = ['\n']) ∧ rest = text := by
  have condition : (text.isEmpty || text == ['\n']) = true ↔ text = [] ∨ text = ['\n'] := by
    rw [Bool.or_eq_true, List.isEmpty_iff, beq_iff_eq]
  rw [remainders]
  split
  · rename_i ended
    rw [List.mem_singleton, and_iff_right (condition.mp ended)]
  · rename_i more
    exact iff_of_false List.not_mem_nil fun found => more (condition.mpr found.1)

theorem mem_repeated_char {fuel : Nat} (enough : text.length ≤ fuel) :
    rest ∈ repeated (char set).remainders fuel text ↔
      ∃ front, (∀ c ∈ front, set.contains c = true) ∧ text = front ++ rest := by
  induction fuel generalizing text with
  | zero =>
    obtain rfl := List.length_eq_zero_iff.mp (Nat.le_zero.mp enough)
    rw [repeated, List.mem_singleton]
    constructor
    · rintro rfl
      exact ⟨[], List.forall_mem_nil _, rfl⟩
    · rintro ⟨front, _, same⟩
      exact (List.append_eq_nil_iff.mp same.symm).2
  | succ fuel ih =>
    have later (middle : List Char) (shorter : middle.length < text.length) :
        rest ∈ repeated (char set).remainders fuel middle ↔
          ∃ front, (∀ c ∈ front, set.contains c = true) ∧ middle = front ++ rest :=
      ih (by omega)
    simp only [repeated, List.mem_append, List.mem_flatMap, List.mem_filter, List.mem_singleton,
      mem_remainders_char, decide_eq_true_eq]
    constructor
    · rintro (⟨middle, ⟨⟨c, holds, rfl⟩, shorter⟩, more⟩ | rfl)
      · obtain ⟨front, all, rfl⟩ := (later middle shorter).mp more
        exact ⟨c :: front, List.forall_mem_cons.mpr ⟨holds, all⟩, rfl⟩
      · exact ⟨[], List.forall_mem_nil _, rfl⟩
    · rintro ⟨front, all, rfl⟩
      cases front with
      | nil => exact .inr rfl
      | cons c front =>
        obtain ⟨holds, all⟩ := List.forall_mem_cons.mp all
        have shorter : (front ++ rest).length < (c :: front ++ rest).length := by simp
        exact .inl ⟨front ++ rest, ⟨⟨c, holds, rfl⟩, shorter⟩,
          (later _ shorter).mpr ⟨front, all, rfl⟩⟩

theorem mem_remainders_many : rest ∈ (many (char set)).remainders text ↔
    ∃ front, (∀ c ∈ front, set.contains c = true) ∧ text = front ++ rest :=
  mem_repeated_char (Nat.le_refl _)

theorem mem_remainders_atLeastOnce : rest ∈ (atLeastOnce (char set)).remainders text ↔
    ∃ front, front ≠ [] ∧ (∀ c ∈ front, set.contains c = true) ∧ text = front ++ rest := by
  unfold atLeastOnce
  simp only [mem_remainders_seq, mem_remainders_char, mem_remainders_many]
  constructor
  · rintro ⟨_, ⟨c, holds, rfl⟩, front, all, rfl⟩
    exact ⟨c :: front, List.cons_ne_nil _ _, List.forall_mem_cons.mpr ⟨holds, all⟩, rfl⟩
  · rintro ⟨front, some_, all, rfl⟩
    cases front with
    | nil => exact absurd rfl some_
    | cons c front =>
      obtain ⟨holds, all⟩ := List.forall_mem_cons.mp all
      exact ⟨front ++ rest, ⟨c, holds, rfl⟩, front, all, rfl⟩

theorem matchesStart_iff : p.matchesStart text = true ↔ ∃ rest, rest ∈ p.remainders text := by
  unfold matchesStart remainder?
  cases p.remainders text with
  | nil => simp
  | cons first more => exact iff_of_true rfl ⟨first, List.mem_cons_self⟩

/-- Some way to match the pattern takes the whole text. -/
def MatchesWhole (p : Pattern) (text : List Char) : Prop := [] ∈ p.remainders text

instance (p : Pattern) (text : List Char) : Decidable (p.MatchesWhole text) :=
  inferInstanceAs (Decidable ([] ∈ p.remainders text))

/- Characters that are not taken. -/

/-- The pattern has no set with the character. What it looks for ahead is not taken. -/
def Avoids (x : Char) : Pattern → Prop
  | .empty | .ahead _ _ | .atEnd => True
  | .char set => set.contains x = false
  | .seq first second | .alt first second => first.Avoids x ∧ second.Avoids x
  | .optional inner | .many inner => inner.Avoids x

/-- What the pattern takes is without the character. -/
theorem Avoids.exists_front {x : Char} (avoids : p.Avoids x) (matched : rest ∈ p.remainders text) :
    ∃ front, x ∉ front ∧ text = front ++ rest := by
  induction p generalizing text rest with
  | empty => exact ⟨[], List.not_mem_nil, (List.mem_singleton.mp matched).symm⟩
  | char set =>
    obtain ⟨c, holds, rfl⟩ := mem_remainders_char.mp matched
    refine ⟨[c], fun member => ?_, rfl⟩
    cases List.mem_singleton.mp member
    exact Bool.noConfusion (holds.symm.trans avoids)
  | seq first second firstIh secondIh =>
    obtain ⟨middle, inFirst, inSecond⟩ := mem_remainders_seq.mp matched
    obtain ⟨front, free, rfl⟩ := firstIh avoids.1 inFirst
    obtain ⟨more, freeToo, rfl⟩ := secondIh avoids.2 inSecond
    exact ⟨front ++ more, by simp [free, freeToo], by simp⟩
  | alt first second firstIh secondIh =>
    rcases List.mem_append.mp matched with inFirst | inSecond
    · exact firstIh avoids.1 inFirst
    · exact secondIh avoids.2 inSecond
  | optional inner ih =>
    rcases mem_remainders_optional.mp matched with once | rfl
    · exact ih avoids once
    · exact ⟨[], List.not_mem_nil, rfl⟩
  | many inner ih =>
    have rounds (fuel : Nat) : ∀ {text : List Char},
        rest ∈ repeated inner.remainders fuel text → ∃ front, x ∉ front ∧ text = front ++ rest := by
      induction fuel with
      | zero =>
        intro text matched
        exact ⟨[], List.not_mem_nil, (List.mem_singleton.mp matched).symm⟩
      | succ fuel later =>
        intro text matched
        simp only [repeated, List.mem_append, List.mem_flatMap, List.mem_filter,
          List.mem_singleton] at matched
        rcases matched with ⟨middle, ⟨once, _⟩, more⟩ | rfl
        · obtain ⟨front, free, rfl⟩ := ih avoids once
          obtain ⟨behind, freeToo, rfl⟩ := later more
          exact ⟨front ++ behind, by simp [free, freeToo], by simp⟩
        · exact ⟨[], List.not_mem_nil, rfl⟩
    exact rounds _ matched
  | ahead expected inner =>
    obtain ⟨_, rfl⟩ := mem_remainders_ahead.mp matched
    exact ⟨[], List.not_mem_nil, rfl⟩
  | atEnd =>
    obtain ⟨_, rfl⟩ := mem_remainders_atEnd.mp matched
    exact ⟨[], List.not_mem_nil, rfl⟩

theorem Avoids.not_mem_taken {x : Char} (avoids : p.Avoids x) {taken : List Char}
    (found : p.split? text = some (taken, rest)) : x ∉ taken := by
  obtain ⟨front, free, same⟩ := avoids.exists_front (mem_remainders_of_split? found)
  rw [← append_eq_of_split? found] at same
  rwa [List.append_cancel_right same]

end InfixCalc.Pattern
