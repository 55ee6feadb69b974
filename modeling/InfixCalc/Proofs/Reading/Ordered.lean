import InfixCalc.Proofs.Reading.Basic

/-!
# Readings are ordered

The invariant of reading is that what is complete is well-formed and ordered, and that the phrase
in hand fits behind the operator that waits for it. Conversely an ordered phrase is read from its
own tokens. So the phrases that are read are exactly the well-formed ordered ones.
-/

namespace InfixCalc

open Postfix (appliesFirst)

variable {σ α : Type}

def Phrase.Sound (p : Phrase σ α) : Prop := p.WellFormed ∧ p.Ordered

/-- A call of names. -/
def Phrase.calling (callable : Callable σ α) (names : List String) : Phrase σ α :=
  .call callable (names.map .name)

theorem Phrase.sound_calling {callable : Callable σ α} {names : List String}
    (takes : callable.Takes names.length) : (calling callable names).Sound := by
  have each (p : Phrase σ α) (member : p ∈ names.map .name) : p.WellFormed ∧ p.Ordered := by
    obtain ⟨name, _, rfl⟩ := List.mem_map.mp member
    exact ⟨.name _, .name _⟩
  exact ⟨.call (by rwa [List.length_map]) fun p member => (each p member).1,
    .call fun p member => (each p member).2⟩

namespace Reading

/-- Whether the innermost waiting operator still waits while the phrase is read. -/
def Fits (waiting : List (Ahead σ α)) (p : Phrase σ α) : Prop :=
  match waiting with
  | [] => True
  | .before op :: _ => (∀ x ∈ p.leftEdge, appliesFirst op x = false) ∧ p.opensGroup = false
  | .between _ op :: _ => ∀ x ∈ p.leftEdge, appliesFirst op x = false

theorem fits_of_closed {waiting : List (Ahead σ α)} {p : Phrase σ α} (noEdge : p.leftEdge = [])
    (noGroup : p.opensGroup = false) : Fits waiting p := by
  match waiting with
  | [] => trivial
  | .before op :: rest => exact ⟨by simp [noEdge], noGroup⟩
  | .between left op :: rest => simp [Fits, noEdge]

/-- A phrase that grows to the right by an operator fits where it did, unless the operator makes
the waiting one apply. -/
theorem Fits.grow {waiting : List (Ahead σ α)} {p q : Phrase σ α} {op : Operator σ α}
    (fits : Fits waiting p) (stops : ∀ a ∈ waiting.head?, appliesFirst a.op op = false)
    (edge : q.leftEdge = op :: p.leftEdge) (opens : q.opensGroup = p.opensGroup) :
    Fits waiting q := by
  match waiting with
  | [] => trivial
  | .before first :: rest =>
    have here : appliesFirst first op = false := stops (.before first) rfl
    refine ⟨?_, opens ▸ fits.2⟩
    intro x member
    rw [edge] at member
    rcases List.mem_cons.mp member with rfl | member
    · exact here
    · exact fits.1 x member
  | .between left first :: rest =>
    have here : appliesFirst first op = false := stops (.between left first) rfl
    intro x member
    rw [edge] at member
    rcases List.mem_cons.mp member with rfl | member
    · exact here
    · exact fits x member

theorem Fits.shrink {waiting : List (Ahead σ α)} {p q : Phrase σ α} {op : Operator σ α}
    (fits : Fits waiting q) (edge : q.leftEdge = op :: p.leftEdge)
    (opens : q.opensGroup = p.opensGroup) : Fits waiting p := by
  match waiting with
  | [] => trivial
  | .before first :: rest =>
    have inside := fits.1
    rw [edge] at inside
    exact ⟨fun x member => inside x (List.mem_cons_of_mem _ member), opens ▸ fits.2⟩
  | .between left first :: rest =>
    have inside : ∀ x ∈ q.leftEdge, appliesFirst first x = false := fits
    rw [edge] at inside
    exact fun x member => inside x (List.mem_cons_of_mem _ member)

/-- The operators that wait inside one pair of parentheses. Each fits, with what stands to its
left, behind the one that waits outside of it. -/
def Stacked : List (Ahead σ α) → Prop
  | [] => True
  | .before op :: rest => op.fixity = .before ∧ Stacked rest
  | .between left op :: rest =>
    (op.fixity.isBetween = true ∧ left.Sound ∧ ∀ x ∈ left.rightEdge, appliesFirst x op = true) ∧
      (∀ right, Fits rest (.between left op right)) ∧ Stacked rest

/-- The invariant of reading. The phrase in hand does not end with waiting operators. -/
structure Sound (r : Reading σ α) : Prop where
  waiting : Stacked r.waiting
  outside : ∀ level ∈ r.outer, Stacked level.2
  completed : ∀ callable completed waiting,
    (.call callable completed, waiting) ∈ r.outer → ∀ p ∈ completed, p.Sound
  current : ∀ p ∈ r.current, p.Sound ∧ p.rightEdge = [] ∧ Fits r.waiting p

theorem sound_start : (start : Reading σ α).Sound := by
  refine ⟨trivial, ?_, ?_, ?_⟩ <;> simp [start]

theorem sound_apply {a : Ahead σ α} {rest : List (Ahead σ α)} {p : Phrase σ α}
    (stacked : Stacked (a :: rest)) (sound : p.Sound) (fits : Fits (a :: rest) p) :
    (a.apply p).Sound ∧ Fits rest (a.apply p) ∧ Stacked rest := by
  cases a with
  | before op =>
    have noGroup : p.opensGroup = true → p.isGroup = true := by simp [fits.2]
    exact ⟨⟨.before stacked.1 sound.1, .before fits.1 noGroup sound.2⟩,
      fits_of_closed rfl rfl, stacked.2⟩
  | between left op =>
    obtain ⟨⟨fixity, leftSound, applied⟩, leftFits, below⟩ := stacked
    exact ⟨⟨.between fixity leftSound.1 sound.1, .between applied fits leftSound.2 sound.2⟩,
      leftFits p, below⟩

theorem rightEdge_apply {a : Ahead σ α} {p : Phrase σ α} {x : Operator σ α}
    (member : x ∈ (a.apply p).rightEdge) : x = a.op ∨ x ∈ p.rightEdge := by
  cases a with
  | before op =>
    simp only [Ahead.apply, Phrase.rightEdge] at member
    split at member
    · cases member
    · exact List.mem_cons.mp member
  | between left op => exact List.mem_cons.mp member

/-- What applying leaves: a sound phrase that fits, whose right edge has been applied, and a
waiting operator that stays. -/
theorem sound_applyWhile (condition : Operator σ α → Bool) {p : Phrase σ α}
    {waiting : List (Ahead σ α)} (stacked : Stacked waiting) (sound : p.Sound)
    (fits : Fits waiting p) (applied : ∀ x ∈ p.rightEdge, condition x = true) :
    (applyWhile condition p waiting).1.Sound ∧
      Fits (applyWhile condition p waiting).2 (applyWhile condition p waiting).1 ∧
      Stacked (applyWhile condition p waiting).2 ∧
      (∀ x ∈ (applyWhile condition p waiting).1.rightEdge, condition x = true) ∧
      ∀ a ∈ (applyWhile condition p waiting).2.head?, condition a.op = false := by
  induction waiting generalizing p with
  | nil => exact ⟨sound, fits, stacked, applied, by simp [applyWhile]⟩
  | cons a rest ih =>
    simp only [applyWhile]
    split
    · rename_i first
      obtain ⟨grown, fitsBelow, below⟩ := sound_apply stacked sound fits
      refine ih below grown fitsBelow ?_
      intro x member
      rcases rightEdge_apply member with rfl | member
      · exact first
      · exact applied x member
    · rename_i stays
      exact ⟨sound, fits, stacked, applied, by simpa using stays⟩

/- Moves that leave a reading sound. -/

/-- A phrase with nothing open at its ends may come in hand wherever none is. -/
theorem Sound.put {waiting : List (Ahead σ α)} {outer : List (Opening σ α × List (Ahead σ α))}
    {p : Phrase σ α} (sound : (⟨waiting, outer, none⟩ : Reading σ α).Sound) (whole : p.Sound)
    (right : p.rightEdge = []) (fits : Fits waiting p) :
    (⟨waiting, outer, some p⟩ : Reading σ α).Sound := by
  refine ⟨sound.waiting, sound.outside, sound.completed, ?_⟩
  intro q same
  cases same
  exact ⟨whole, right, fits⟩

/-- What stands outside of the innermost parentheses is itself a sound reading. -/
theorem Sound.outwards {inside : List (Ahead σ α)} {level : Opening σ α × List (Ahead σ α)}
    {outer : List (Opening σ α × List (Ahead σ α))} {current : Option (Phrase σ α)}
    (sound : (⟨inside, level :: outer, current⟩ : Reading σ α).Sound) :
    (⟨level.2, outer, none⟩ : Reading σ α).Sound where
  waiting := sound.outside level List.mem_cons_self
  outside := fun other member => sound.outside other (List.mem_cons_of_mem _ member)
  completed := fun callable completed waiting member =>
    sound.completed callable completed waiting (List.mem_cons_of_mem _ member)
  current := by simp

/-- Parentheses open where no phrase is in hand. -/
theorem Sound.inwards {waiting : List (Ahead σ α)} {outer : List (Opening σ α × List (Ahead σ α))}
    {o : Opening σ α} (sound : (⟨waiting, outer, none⟩ : Reading σ α).Sound)
    (arguments : ∀ callable completed, o = .call callable completed → ∀ p ∈ completed, p.Sound) :
    (⟨[], (o, waiting) :: outer, none⟩ : Reading σ α).Sound := by
  refine ⟨trivial, ?_, ?_, by simp⟩
  · intro level member
    rcases List.mem_cons.mp member with rfl | member
    · exact sound.waiting
    · exact sound.outside level member
  · intro callable completed below member
    rcases List.mem_cons.mp member with same | member
    · exact arguments callable completed (congrArg Prod.fst same).symm
    · exact sound.completed callable completed below member

/-- The phrase in hand, once all that waits inside the innermost parentheses has taken it. -/
theorem Sound.applyAll {r : Reading σ α} {p : Phrase σ α} (sound : r.Sound)
    (inHand : r.current = some p) : (Reading.applyAll p r.waiting).Sound := by
  obtain ⟨whole, _, fits⟩ := sound.current p inHand
  have all := sound_applyWhile (fun _ => true) sound.waiting whole fits (fun _ _ => rfl)
  rw [applyWhile_true] at all
  exact all.1

/- One token. -/

theorem Sound.leaf {r next : Reading σ α} {p : Phrase σ α} (sound : r.Sound) (whole : p.Sound)
    (right : p.rightEdge = []) (left : p.leftEdge = []) (opens : p.opensGroup = false)
    (h : r.leaf p = some next) : next.Sound := by
  obtain ⟨waiting, outer, current⟩ := r
  cases current with
  | none =>
    cases h
    exact sound.put whole right (fits_of_closed left opens)
  | some other => cases h

theorem Sound.enclose {r next : Reading σ α} {o : Opening σ α} (sound : r.Sound)
    (empty : ∀ callable completed, o = .call callable completed → completed = [])
    (h : r.enclose o = some next) : next.Sound := by
  obtain ⟨waiting, outer, current⟩ := r
  cases current with
  | none =>
    cases h
    refine sound.inwards ?_
    intro callable completed opened p member
    rw [empty callable completed opened] at member
    cases member
  | some other => cases h

theorem Sound.operator {r next : Reading σ α} {op : Operator σ α} (sound : r.Sound)
    (h : r.operator op = some next) : next.Sound := by
  unfold Reading.operator at h
  split at h
  · rename_i empty
    split at h
    · rename_i fixity
      cases h
      exact ⟨⟨fixity, sound.waiting⟩, sound.outside, sound.completed, by simp [empty]⟩
    · cases h
  · rename_i p inHand
    obtain ⟨whole, right, fits⟩ := sound.current p inHand
    obtain ⟨grown, fitsBelow, below, applied, stops⟩ :=
      sound_applyWhile (appliesFirst · op) sound.waiting whole fits (by simp [right])
    split at h
    · cases h
    · rename_i notBefore
      split at h
      · rename_i fixity
        cases h
        have rest : (⟨_, r.outer, none⟩ : Reading σ α).Sound :=
          ⟨below, sound.outside, sound.completed, by simp⟩
        exact rest.put ⟨.after fixity grown.1, .after applied grown.2⟩ rfl
          (fitsBelow.grow stops rfl rfl)
      · rename_i notAfter
        cases h
        have fixity := Fixity.isBetween_iff.mpr ⟨notBefore, notAfter⟩
        refine ⟨⟨⟨fixity, grown, applied⟩, ?_, below⟩, sound.outside, sound.completed, by simp⟩
        intro last
        exact fitsBelow.grow stops rfl rfl

theorem Sound.comma {r next : Reading σ α} (sound : r.Sound) (h : r.comma = some next) :
    next.Sound := by
  obtain ⟨inside, outer, current⟩ := r
  unfold Reading.comma at h
  split at h
  · rename_i p callable completed waiting outer inHand enclosed
    cases h
    cases inHand
    cases enclosed
    refine sound.outwards.inwards ?_
    rintro _ _ ⟨⟩ q member
    rcases List.mem_cons.mp member with rfl | member
    · exact sound.applyAll rfl
    · exact sound.completed callable completed waiting List.mem_cons_self q member
  · cases h

theorem Sound.closeCall {callable : Callable σ α} {arguments : List (Phrase σ α)}
    {waiting : List (Ahead σ α)} {outer : List (Opening σ α × List (Ahead σ α))}
    {next : Reading σ α} (outside : (⟨waiting, outer, none⟩ : Reading σ α).Sound)
    (sound : ∀ p ∈ arguments, p.Sound)
    (h : Reading.closeCall callable arguments waiting outer = some next) : next.Sound := by
  unfold Reading.closeCall at h
  split at h
  · rename_i settled fits
    cases h
    have takes := (Postfix.settle_eq_ok_iff.mp fits).1
    exact outside.put ⟨.call takes fun p member => (sound p member).1,
      .call fun p member => (sound p member).2⟩ rfl (fits_of_closed rfl rfl)
  · cases h

/-- The operator that waits for a group has it as its operand, and waits no longer. -/
theorem Sound.applyGroup {op : Operator σ α} {waiting : List (Ahead σ α)}
    {outer : List (Opening σ α × List (Ahead σ α))} {p : Phrase σ α}
    (outside : (⟨.before op :: waiting, outer, none⟩ : Reading σ α).Sound) (whole : p.Sound) :
    (⟨waiting, outer, some (.before op (.group p))⟩ : Reading σ α).Sound := by
  have below : (⟨waiting, outer, none⟩ : Reading σ α).Sound :=
    ⟨outside.waiting.2, outside.outside, outside.completed, by simp⟩
  refine below.put ⟨.before outside.waiting.1 (.group whole.1), ?_⟩ rfl (fits_of_closed rfl rfl)
  exact .before (fun x member => nomatch member) (fun _ => rfl) (.group whole.2)

/-- A group closes the left edge of what is in it, so every operator still waits for it. -/
theorem fits_group {waiting : List (Ahead σ α)} {p : Phrase σ α}
    (notBefore : ∀ op rest, waiting ≠ .before op :: rest) : Fits waiting (.group p) := by
  match waiting with
  | [] => trivial
  | .before op :: rest => exact absurd rfl (notBefore op rest)
  | .between left op :: rest =>
    intro x member
    cases member

theorem Sound.closeParen {r next : Reading σ α} (sound : r.Sound) (h : r.closeParen = some next) :
    next.Sound := by
  unfold Reading.closeParen at h
  split at h
  · cases h
    exact sound.outwards.applyGroup (sound.applyAll rfl)
  · rename_i inside waiting outer p notBefore
    cases h
    have inner := sound.applyAll rfl
    exact sound.outwards.put ⟨.group inner.1, .group inner.2⟩ rfl (fits_group notBefore)
  · rename_i inside callable completed waiting outer p
    refine Sound.closeCall sound.outwards ?_ h
    intro q member
    rcases List.mem_append.mp member with member | member
    · exact sound.completed callable completed waiting List.mem_cons_self q
        (List.mem_reverse.mp member)
    · rw [List.mem_singleton.mp member]
      exact sound.applyAll rfl
  · exact Sound.closeCall sound.outwards (by simp) h
  · cases h

theorem Sound.run {r next : Reading σ α} {ts : List (Token σ α)} (sound : r.Sound)
    (h : r.run ts = some next) : next.Sound := by
  fun_induction Reading.run r ts
  case case1 =>
    cases h
    exact sound
  case case6 => cases h
  case case2 r rest ih =>
    obtain ⟨middle, opened, later⟩ := Option.bind_eq_some_iff.mp h
    exact ih middle (sound.enclose (by simp) opened) later
  case case3 r rest ih =>
    obtain ⟨middle, closed, later⟩ := Option.bind_eq_some_iff.mp h
    exact ih middle (sound.closeParen closed) later
  case case4 r rest ih =>
    obtain ⟨middle, added, later⟩ := Option.bind_eq_some_iff.mp h
    exact ih middle (sound.comma added) later
  case case5 r callable rest ih =>
    obtain ⟨middle, opened, later⟩ := Option.bind_eq_some_iff.mp h
    exact ih middle (sound.enclose (by simp) opened) later
  case case7 r op rest ih =>
    obtain ⟨middle, added, later⟩ := Option.bind_eq_some_iff.mp h
    exact ih middle (sound.operator added) later
  case case8 r value rest ih =>
    obtain ⟨middle, added, later⟩ := Option.bind_eq_some_iff.mp h
    exact ih middle (sound.leaf ⟨.operand value, .operand value⟩ rfl rfl rfl added) later
  case case9 r label rest ih =>
    obtain ⟨middle, added, later⟩ := Option.bind_eq_some_iff.mp h
    exact ih middle (sound.leaf ⟨.name label, .name label⟩ rfl rfl rfl added) later

theorem Sound.finish {r : Reading σ α} {p : Phrase σ α} (sound : r.Sound)
    (h : r.finish = some p) : p.Sound := by
  unfold Reading.finish at h
  split at h
  · cases h
    exact sound.applyAll rfl
  · cases h

end Reading

namespace Phrase

/- An ordered phrase is read from its own tokens. Behind its last token the operators on its right
edge still wait; `frames` are these and `last` is what is in hand. -/

def frames : Phrase σ α → List (Ahead σ α)
  | .before op inner => if inner.isGroup then [] else frames inner ++ [.before op]
  | .between left op right => frames right ++ [.between left op]
  | _ => []

def last : Phrase σ α → Phrase σ α
  | .before op inner => if inner.isGroup then .before op inner else last inner
  | .between _ _ right => last right
  | p => p

theorem applyAll_frames (p : Phrase σ α) (waiting : List (Ahead σ α)) :
    Reading.applyAll p.last (p.frames ++ waiting) = Reading.applyAll p waiting := by
  induction p generalizing waiting with
  | before op inner ih =>
    simp only [last, frames]
    split
    · rfl
    · rw [List.append_assoc, ih]
      rfl
  | between left op right _ ih =>
    simp only [last, frames]
    rw [List.append_assoc, ih]
    rfl
  | _ => rfl

theorem applyWhile_frames {condition : Operator σ α → Bool} {p : Phrase σ α}
    (applied : ∀ x ∈ p.rightEdge, condition x = true) (waiting : List (Ahead σ α)) :
    Reading.applyWhile condition p.last (p.frames ++ waiting) =
      Reading.applyWhile condition p waiting := by
  induction p generalizing waiting with
  | before op inner ih =>
    simp only [last, frames]
    split
    · rfl
    · rename_i notGroup
      simp only [rightEdge, notGroup, Bool.false_eq_true, if_false, List.forall_mem_cons]
        at applied
      rw [List.append_assoc, ih applied.2]
      simp [Reading.applyWhile, Ahead.op, applied.1, Ahead.apply]
  | between left op right _ ih =>
    simp only [rightEdge, List.forall_mem_cons] at applied
    simp only [last, frames]
    rw [List.append_assoc, ih applied.2]
    simp [Reading.applyWhile, Ahead.op, applied.1, Ahead.apply]
  | _ => rfl

theorem applyWhile_stays {condition : Operator σ α → Bool} {p : Phrase σ α}
    {waiting : List (Ahead σ α)} (stays : ∀ a ∈ waiting.head?, condition a.op = false) :
    Reading.applyWhile condition p waiting = (p, waiting) := by
  cases waiting with
  | nil => rfl
  | cons a rest => simp [Reading.applyWhile, stays a rfl]

/-- A phrase that fits is read whole, whatever comes behind it. -/
def ReadsWhole (p : Phrase σ α) : Prop :=
  ∀ waiting outer rest, Reading.Fits waiting p →
    Reading.run ⟨waiting, outer, none⟩ (p.tokens ++ rest) =
      Reading.run ⟨p.frames ++ waiting, outer, some p.last⟩ rest

theorem fits_nil (p : Phrase σ α) : Reading.Fits [] p := trivial

theorem Fits.stays {waiting : List (Ahead σ α)} {p : Phrase σ α} {op : Operator σ α}
    (fits : Reading.Fits waiting p) (member : op ∈ p.leftEdge) :
    ∀ a ∈ waiting.head?, appliesFirst a.op op = false := by
  match waiting with
  | [] => simp
  | .before first :: rest => simpa [Ahead.op] using fits.1 op member
  | .between left first :: rest => simpa [Ahead.op] using fits op member

theorem readsWhole_group {inner : Phrase σ α} (reads : inner.ReadsWhole)
    (waiting : List (Ahead σ α)) (outer : List (Opening σ α × List (Ahead σ α)))
    (rest : List (Token σ α)) :
    Reading.run ⟨waiting, outer, none⟩ ((group inner).tokens ++ rest) =
      (Reading.closeParen ⟨inner.frames, (.group, waiting) :: outer, some inner.last⟩).bind
        fun next => next.run rest := by
  have inside := reads [] ((.group, waiting) :: outer) (.separator .closeParen :: rest)
    (fits_nil inner)
  simp only [List.append_nil] at inside
  simp [tokens, Reading.run, Reading.enclose, inside]

theorem applyAll_frames_nil (p : Phrase σ α) : Reading.applyAll p.last p.frames = p := by
  have all := applyAll_frames p []
  simpa [Reading.applyAll] using all

theorem run_furtherTokens (callable : Callable σ α) (waiting : List (Ahead σ α))
    (outer : List (Opening σ α × List (Ahead σ α))) (rest : List (Token σ α))
    (first : Phrase σ α) (others completed : List (Phrase σ α))
    (reads : ∀ p ∈ others, p.ReadsWhole) :
    Reading.run ⟨first.frames, (.call callable completed, waiting) :: outer, some first.last⟩
        (furtherTokens others ++ .separator .closeParen :: rest) =
      (Reading.closeCall callable (completed.reverse ++ first :: others) waiting outer).bind
        fun next => next.run rest := by
  induction others generalizing first completed with
  | nil =>
    simp [furtherTokens, Reading.run, Reading.closeParen, applyAll_frames_nil]
  | cons second others ih =>
    have whole := reads second List.mem_cons_self []
      ((.call callable (first :: completed), waiting) :: outer)
      (furtherTokens others ++ .separator .closeParen :: rest) (fits_nil second)
    have later := ih second (first :: completed) fun p member =>
      reads p (List.mem_cons_of_mem _ member)
    simp only [List.append_nil] at whole
    simp [furtherTokens, Reading.run, Reading.comma, applyAll_frames_nil, whole, later]

theorem ReadsWhole.group {inner : Phrase σ α} (reads : inner.ReadsWhole) :
    (Phrase.group inner).ReadsWhole := by
  intro waiting outer rest fits
  rw [readsWhole_group reads]
  match waiting with
  | [] => simp [Reading.closeParen, applyAll_frames_nil, frames, last]
  | .before op :: below => cases fits.2
  | .between left op :: below => simp [Reading.closeParen, applyAll_frames_nil, frames, last]

theorem run_before {op : Operator σ α} (fixity : op.fixity = .before) (inner : Phrase σ α)
    (waiting : List (Ahead σ α)) (outer : List (Opening σ α × List (Ahead σ α)))
    (rest : List (Token σ α)) :
    Reading.run ⟨waiting, outer, none⟩ ((before op inner).tokens ++ rest) =
      Reading.run ⟨.before op :: waiting, outer, none⟩ (inner.tokens ++ rest) := by
  simp [tokens, Reading.run, Reading.operator, fixity]

theorem isGroup_of_opensGroup {p : Phrase σ α} (opens : p.opensGroup = false) :
    p.isGroup = false := by
  cases p with
  | group inner => cases opens
  | _ => rfl

theorem ReadsWhole.before {op : Operator σ α} {inner : Phrase σ α} (reads : inner.ReadsWhole)
    (fixity : op.fixity = .before) (stays : ∀ x ∈ inner.leftEdge, appliesFirst op x = false)
    (noGroup : inner.opensGroup = false) : (Phrase.before op inner).ReadsWhole := by
  intro waiting outer rest fits
  rw [run_before fixity, reads (.before op :: waiting) outer rest ⟨stays, noGroup⟩]
  simp [frames, last, isGroup_of_opensGroup noGroup]

/-- A group behind an operator is taken by it at once. -/
theorem ReadsWhole.before_group {op : Operator σ α} {inner : Phrase σ α}
    (reads : inner.ReadsWhole) (fixity : op.fixity = .before) :
    (Phrase.before op (.group inner)).ReadsWhole := by
  intro waiting outer rest fits
  rw [run_before fixity, readsWhole_group reads]
  simp [Reading.closeParen, applyAll_frames_nil, frames, last, isGroup]

/-- What waits for the operand of an operator goes on to wait for the operator. -/
theorem applyWhile_frames_stays {p : Phrase σ α} {op : Operator σ α} {waiting : List (Ahead σ α)}
    (applied : ∀ x ∈ p.rightEdge, appliesFirst x op = true)
    (stays : ∀ a ∈ waiting.head?, appliesFirst a.op op = false) :
    Reading.applyWhile (appliesFirst · op) p.last (p.frames ++ waiting) = (p, waiting) := by
  rw [applyWhile_frames applied, applyWhile_stays stays]

theorem ReadsWhole.after {inner : Phrase σ α} {op : Operator σ α} (reads : inner.ReadsWhole)
    (fixity : op.fixity = .after) (applied : ∀ x ∈ inner.rightEdge, appliesFirst x op = true) :
    (Phrase.after inner op).ReadsWhole := by
  intro waiting outer rest fits
  have kept := applyWhile_frames_stays applied (Fits.stays fits List.mem_cons_self)
  simp [tokens, reads waiting outer _ (fits.shrink rfl rfl), Reading.run, Reading.operator, fixity,
    kept, frames, last]

theorem ReadsWhole.between {left right : Phrase σ α} {op : Operator σ α}
    (leftReads : left.ReadsWhole) (rightReads : right.ReadsWhole)
    (fixity : op.fixity.isBetween = true)
    (applied : ∀ x ∈ left.rightEdge, appliesFirst x op = true)
    (stays : ∀ x ∈ right.leftEdge, appliesFirst op x = false) :
    (Phrase.between left op right).ReadsWhole := by
  intro waiting outer rest fits
  have kept := applyWhile_frames_stays applied (Fits.stays fits List.mem_cons_self)
  obtain ⟨notBefore, notAfter⟩ := Fixity.isBetween_iff.mp fixity
  simp [tokens, leftReads waiting outer _ (fits.shrink rfl rfl), Reading.run, Reading.operator,
    notBefore, notAfter, kept, rightReads (.between left op :: waiting) outer rest stays, frames,
    last]

theorem ReadsWhole.call {callable : Callable σ α} {arguments : List (Phrase σ α)}
    (reads : ∀ p ∈ arguments, p.ReadsWhole) (takes : callable.Takes arguments.length) :
    (Phrase.call callable arguments).ReadsWhole := by
  intro waiting outer rest fits
  have settled := Postfix.settle_eq_ok_iff.mpr ⟨takes, rfl⟩
  cases arguments with
  | nil =>
    simp only [List.length_nil] at settled
    simp [tokens, argumentTokens, Reading.run, Reading.enclose, Reading.closeParen,
      Reading.closeCall, settled, frames, last]
  | cons first others =>
    have opened := reads first List.mem_cons_self [] ((.call callable [], waiting) :: outer)
      (furtherTokens others ++ .separator .closeParen :: rest) (fits_nil first)
    have closed := run_furtherTokens callable waiting outer rest first others []
      fun p member => reads p (List.mem_cons_of_mem _ member)
    simp only [List.length_cons] at settled
    simp only [List.append_nil] at opened
    simp [tokens, argumentTokens, Reading.run, Reading.enclose, opened, closed,
      Reading.closeCall, settled, frames, last]

/-- The induction is on the phrase. An operator before a group needs the claim for what stands in
the group, so the claim speaks of that as well. -/
theorem readsWhole {p : Phrase σ α} (whole : p.WellFormed) (ordered : p.Ordered) :
    p.ReadsWhole ∧ ∀ inner, p = .group inner → inner.ReadsWhole := by
  induction p with
  | operand value =>
    refine ⟨?_, by simp⟩
    intro waiting outer rest fits
    simp [tokens, Reading.run, Reading.leaf, frames, last]
  | name label =>
    refine ⟨?_, by simp⟩
    intro waiting outer rest fits
    simp [tokens, Reading.run, Reading.leaf, frames, last]
  | group inner ih =>
    cases whole with | group whole =>
    cases ordered with | group ordered =>
    have reads := (ih whole ordered).1
    exact ⟨reads.group, by simpa using reads⟩
  | before op inner ih =>
    cases whole with | before fixity whole =>
    cases ordered with | before stays opens ordered =>
    obtain ⟨reads, readsInside⟩ := ih whole ordered
    refine ⟨?_, by simp⟩
    cases has : inner.opensGroup with
    | false => exact reads.before fixity stays has
    | true =>
      cases inner with
      | group content => exact (readsInside content rfl).before_group fixity
      | _ => cases opens has
  | after inner op ih =>
    cases whole with | after fixity whole =>
    cases ordered with | after applied ordered =>
    exact ⟨(ih whole ordered).1.after fixity applied, by simp⟩
  | between left op right leftIh rightIh =>
    cases whole with | between fixity leftWhole rightWhole =>
    cases ordered with | between applied stays leftOrdered rightOrdered =>
    have leftReads := (leftIh leftWhole leftOrdered).1
    have rightReads := (rightIh rightWhole rightOrdered).1
    exact ⟨leftReads.between rightReads fixity applied stays, by simp⟩
  | call callable arguments ih =>
    cases whole with | call takes whole =>
    cases ordered with | call ordered =>
    have reads (p : Phrase σ α) (member : p ∈ arguments) : p.ReadsWhole :=
      (ih p member (whole p member) (ordered p member)).1
    exact ⟨.call reads takes, by simp⟩

theorem ofTokens?_tokens {p : Phrase σ α} (sound : p.Sound) : ofTokens? p.tokens = some p := by
  have reads := (readsWhole sound.1 sound.2).1 [] [] [] (fits_nil p)
  simp only [List.append_nil, Reading.run] at reads
  simp [ofTokens?, Reading.start, reads, Reading.finish, applyAll_frames_nil]

theorem sound_of_ofTokens? {ts : List (Token σ α)} {p : Phrase σ α}
    (h : ofTokens? ts = some p) : p.Sound := by
  obtain ⟨r, ran, ended⟩ := Option.bind_eq_some_iff.mp h
  exact (Reading.sound_start.run ran).finish ended

/-- Tokens are read as the well-formed ordered phrase that they write. -/
theorem ofTokens?_eq_some_iff {ts : List (Token σ α)} {p : Phrase σ α} :
    ofTokens? ts = some p ↔ p.tokens = ts ∧ p.Sound := by
  constructor
  · exact fun h => ⟨tokens_of_ofTokens? h, sound_of_ofTokens? h⟩
  · rintro ⟨rfl, sound⟩
    exact ofTokens?_tokens sound

end Phrase
end InfixCalc
