import InfixCalc.Proofs.Phrase

/-!
# Reading phrases

What the tokens read so far amount to: the phrase in hand, the operators that wait for it, and the
parentheses around it. Every token changes such a reading as it changes the stack and the output
of the conversion to postfix order, but nothing is lost, and so the phrase can be told at the end.
The phrases that are read are the well-formed ordered ones, each from its own tokens.
-/

namespace InfixCalc

variable {σ α : Type}

/-- An operator that waits for its operand on the right. -/
inductive Ahead (σ α : Type) where
  | before (op : Operator σ α)
  | between (left : Phrase σ α) (op : Operator σ α)

namespace Ahead

def op : Ahead σ α → Operator σ α
  | .before op => op
  | .between _ op => op

def apply (a : Ahead σ α) (p : Phrase σ α) : Phrase σ α :=
  match a with
  | .before op => .before op p
  | .between left op => .between left op p

def tokens : Ahead σ α → List (Token σ α)
  | .before op => [.symbol (.operator op)]
  | .between left op => left.tokens ++ [.symbol (.operator op)]

theorem tokens_apply (a : Ahead σ α) (p : Phrase σ α) :
    (a.apply p).tokens = a.tokens ++ p.tokens := by
  cases a <;> simp [apply, tokens, Phrase.tokens]

end Ahead

/-- A parenthesis that is open: one that groups, or that of a call with the arguments completed so
far, last one first. -/
inductive Opening (σ α : Type) where
  | group
  | call (callable : Callable σ α) (completed : List (Phrase σ α))

/-- What has been read: operators waiting inside the innermost parentheses, innermost first, the
parentheses with the operators that wait outside, and the phrase in hand. -/
structure Reading (σ α : Type) where
  waiting : List (Ahead σ α)
  outer : List (Opening σ α × List (Ahead σ α))
  current : Option (Phrase σ α)

namespace Reading

def start : Reading σ α := ⟨[], [], none⟩

/-- Give the phrase to the waiting operators while the condition holds. -/
def applyWhile (condition : Operator σ α → Bool) (p : Phrase σ α) :
    List (Ahead σ α) → Phrase σ α × List (Ahead σ α)
  | [] => (p, [])
  | a :: rest =>
    if condition a.op then applyWhile condition (a.apply p) rest else (p, a :: rest)

def applyAll (p : Phrase σ α) (waiting : List (Ahead σ α)) : Phrase σ α :=
  waiting.foldl (fun q a => a.apply q) p

def leaf (r : Reading σ α) (p : Phrase σ α) : Option (Reading σ α) :=
  match r.current with
  | none => some { r with current := some p }
  | some _ => none

def enclose (r : Reading σ α) (e : Opening σ α) : Option (Reading σ α) :=
  match r.current with
  | none => some ⟨[], (e, r.waiting) :: r.outer, none⟩
  | some _ => none

/-- An operator: one before its operand where an operand is expected, another one behind one. -/
def operator (r : Reading σ α) (op : Operator σ α) : Option (Reading σ α) :=
  match r.current with
  | none => if op.fixity = .before then some { r with waiting := .before op :: r.waiting } else none
  | some p =>
    if op.fixity = .before then none
    else
      let applied := applyWhile (Postfix.appliesFirst · op) p r.waiting
      if op.fixity = .after then some ⟨applied.2, r.outer, some (.after applied.1 op)⟩
      else some ⟨.between applied.1 op :: applied.2, r.outer, none⟩

def comma (r : Reading σ α) : Option (Reading σ α) :=
  match r.current, r.outer with
  | some p, (.call callable completed, waiting) :: outer =>
    some ⟨[], (.call callable (applyAll p r.waiting :: completed), waiting) :: outer, none⟩
  | _, _ => none

def closeCall (callable : Callable σ α) (arguments : List (Phrase σ α))
    (waiting : List (Ahead σ α)) (outer : List (Opening σ α × List (Ahead σ α))) :
    Option (Reading σ α) :=
  match Postfix.settle callable arguments.length with
  | .ok _ => some ⟨waiting, outer, some (.call callable arguments)⟩
  | .error _ => none

/-- A closing parenthesis. The operator before a group takes it at once. -/
def closeParen : Reading σ α → Option (Reading σ α)
  | ⟨inside, (.group, .before op :: waiting) :: outer, some p⟩ =>
    some ⟨waiting, outer, some (.before op (.group (applyAll p inside)))⟩
  | ⟨inside, (.group, waiting) :: outer, some p⟩ =>
    some ⟨waiting, outer, some (.group (applyAll p inside))⟩
  | ⟨inside, (.call callable completed, waiting) :: outer, some p⟩ =>
    closeCall callable (completed.reverse ++ [applyAll p inside]) waiting outer
  | ⟨[], (.call callable [], waiting) :: outer, none⟩ => closeCall callable [] waiting outer
  | _ => none

def run (r : Reading σ α) : List (Token σ α) → Option (Reading σ α)
  | [] => some r
  | .separator .openParen :: rest => (r.enclose .group).bind fun next => run next rest
  | .separator .closeParen :: rest => r.closeParen.bind fun next => run next rest
  | .separator .comma :: rest => r.comma.bind fun next => run next rest
  | .symbol (.call callable) :: .separator .openParen :: rest =>
    (r.enclose (.call callable [])).bind fun next => run next rest
  | .symbol (.call _) :: _ => none
  | .symbol (.operator op) :: rest => (r.operator op).bind fun next => run next rest
  | .symbol (.operand value) :: rest => (r.leaf (.operand value)).bind fun next => run next rest
  | .symbol (.variable label) :: rest => (r.leaf (.name label)).bind fun next => run next rest

def finish : Reading σ α → Option (Phrase σ α)
  | ⟨waiting, [], some p⟩ => some (applyAll p waiting)
  | _ => none

def waitingTokens : List (Ahead σ α) → List (Token σ α)
  | [] => []
  | a :: rest => waitingTokens rest ++ a.tokens

def completedTokens : List (Phrase σ α) → List (Token σ α)
  | [] => []
  | p :: earlier => completedTokens earlier ++ p.tokens ++ [.separator .comma]

def openingTokens : Opening σ α → List (Token σ α)
  | .group => [.separator .openParen]
  | .call callable completed =>
    .symbol (.call callable) :: .separator .openParen :: completedTokens completed

/-- The tokens of the open parentheses and of what waits outside of them. -/
def outerTokens : List (Opening σ α × List (Ahead σ α)) → List (Token σ α)
  | [] => []
  | (e, waiting) :: rest => outerTokens rest ++ waitingTokens waiting ++ openingTokens e

def tokens (r : Reading σ α) : List (Token σ α) :=
  outerTokens r.outer ++ waitingTokens r.waiting ++ (r.current.map Phrase.tokens).getD []

theorem furtherTokens_append (xs ys : List (Phrase σ α)) :
    Phrase.furtherTokens (xs ++ ys) = Phrase.furtherTokens xs ++ Phrase.furtherTokens ys := by
  induction xs with
  | nil => simp [Phrase.furtherTokens]
  | cons p ps ih => simp [Phrase.furtherTokens, ih]

theorem argumentTokens_completed (completed : List (Phrase σ α)) (last : Phrase σ α) :
    Phrase.argumentTokens (completed.reverse ++ [last]) =
      completedTokens completed ++ last.tokens := by
  induction completed generalizing last with
  | nil => simp [Phrase.argumentTokens, Phrase.furtherTokens, completedTokens]
  | cons p earlier ih =>
    have shorter := ih p
    cases listed : earlier.reverse ++ [p] with
    | nil => simp at listed
    | cons q qs =>
      rw [listed] at shorter
      simp only [Phrase.argumentTokens] at shorter
      simp only [List.reverse_cons, listed, List.cons_append, Phrase.argumentTokens,
        furtherTokens_append, completedTokens, ← shorter]
      simp [Phrase.furtherTokens]

theorem waitingTokens_applyWhile (condition : Operator σ α → Bool) (p : Phrase σ α)
    (waiting : List (Ahead σ α)) :
    waitingTokens (applyWhile condition p waiting).2 ++
      (applyWhile condition p waiting).1.tokens = waitingTokens waiting ++ p.tokens := by
  induction waiting generalizing p with
  | nil => rfl
  | cons a rest ih =>
    simp only [applyWhile]
    split
    · rw [ih]
      simp [waitingTokens, Ahead.tokens_apply]
    · rfl

theorem tokens_applyAll (p : Phrase σ α) (waiting : List (Ahead σ α)) :
    (applyAll p waiting).tokens = waitingTokens waiting ++ p.tokens := by
  induction waiting generalizing p with
  | nil => rfl
  | cons a rest ih =>
    change (applyAll (a.apply p) rest).tokens = _
    rw [ih]
    simp [waitingTokens, Ahead.tokens_apply]

/- What each token adds. -/

theorem tokens_leaf {r next : Reading σ α} {p : Phrase σ α} (h : r.leaf p = some next) :
    next.tokens = r.tokens ++ p.tokens := by
  unfold leaf at h
  split at h
  · rename_i empty
    cases h
    simp [tokens, empty]
  · cases h

theorem tokens_enclose {r next : Reading σ α} {o : Opening σ α} (h : r.enclose o = some next) :
    next.tokens = r.tokens ++ openingTokens o := by
  unfold enclose at h
  split at h
  · rename_i empty
    cases h
    simp [tokens, outerTokens, waitingTokens, empty]
  · cases h

theorem tokens_operator {r next : Reading σ α} {op : Operator σ α}
    (h : r.operator op = some next) :
    next.tokens = r.tokens ++ [.symbol (.operator op)] := by
  unfold operator at h
  split at h
  · rename_i empty
    split at h
    · cases h
      simp [tokens, waitingTokens, Ahead.tokens, empty]
    · cases h
  · rename_i p inHand
    have applied := waitingTokens_applyWhile (Postfix.appliesFirst · op) p r.waiting
    split at h
    · cases h
    · split at h
      · cases h
        simp [tokens, Phrase.tokens, inHand, ← applied]
      · cases h
        simp [tokens, waitingTokens, Ahead.tokens, inHand, ← applied]

theorem tokens_comma {r next : Reading σ α} (h : r.comma = some next) :
    next.tokens = r.tokens ++ [.separator .comma] := by
  unfold comma at h
  split at h
  · rename_i inHand enclosed
    cases h
    simp [tokens, outerTokens, waitingTokens, openingTokens, completedTokens, tokens_applyAll,
      inHand, enclosed]
  · cases h

theorem closeCall_eq {callable : Callable σ α} {arguments : List (Phrase σ α)}
    {waiting : List (Ahead σ α)} {outer : List (Opening σ α × List (Ahead σ α))}
    {next : Reading σ α} (h : closeCall callable arguments waiting outer = some next) :
    next = ⟨waiting, outer, some (.call callable arguments)⟩ := by
  unfold closeCall at h
  split at h
  · exact (Option.some.inj h).symm
  · cases h

theorem tokens_closeParen {r next : Reading σ α} (h : r.closeParen = some next) :
    next.tokens = r.tokens ++ [.separator .closeParen] := by
  unfold closeParen at h
  split at h
  · cases h
    simp [tokens, outerTokens, waitingTokens, openingTokens, Ahead.tokens, Phrase.tokens,
      tokens_applyAll]
  · cases h
    simp [tokens, outerTokens, openingTokens, Phrase.tokens, tokens_applyAll]
  · rw [closeCall_eq h]
    simp [tokens, outerTokens, openingTokens, Phrase.tokens, tokens_applyAll,
      argumentTokens_completed]
  · rw [closeCall_eq h]
    simp [tokens, outerTokens, openingTokens, Phrase.tokens, Phrase.argumentTokens,
      completedTokens, waitingTokens]
  · cases h

theorem tokens_run {r next : Reading σ α} {ts : List (Token σ α)} (h : r.run ts = some next) :
    next.tokens = r.tokens ++ ts := by
  fun_induction run r ts
  case case1 r =>
    cases h
    simp
  case case6 => cases h
  case case2 r rest ih | case5 r callable rest ih =>
    obtain ⟨middle, opened, later⟩ := Option.bind_eq_some_iff.mp h
    simp [ih middle later, tokens_enclose opened, openingTokens, completedTokens]
  case case3 r rest ih =>
    obtain ⟨middle, closed, later⟩ := Option.bind_eq_some_iff.mp h
    simp [ih middle later, tokens_closeParen closed]
  case case4 r rest ih =>
    obtain ⟨middle, added, later⟩ := Option.bind_eq_some_iff.mp h
    simp [ih middle later, tokens_comma added]
  case case7 r op rest ih =>
    obtain ⟨middle, added, later⟩ := Option.bind_eq_some_iff.mp h
    simp [ih middle later, tokens_operator added]
  case case8 r value rest ih | case9 r label rest ih =>
    obtain ⟨middle, added, later⟩ := Option.bind_eq_some_iff.mp h
    simp [ih middle later, tokens_leaf added, Phrase.tokens]

theorem tokens_finish {r : Reading σ α} {p : Phrase σ α} (h : r.finish = some p) :
    p.tokens = r.tokens := by
  unfold finish at h
  split at h
  · cases h
    simp [tokens, outerTokens, tokens_applyAll]
  · cases h

theorem applyWhile_true (p : Phrase σ α) (waiting : List (Ahead σ α)) :
    applyWhile (fun _ => true) p waiting = (applyAll p waiting, []) := by
  induction waiting generalizing p with
  | nil => rfl
  | cons a rest ih => simp [applyWhile, ih, applyAll]

end Reading

/-- The phrase that the tokens are read as. -/
def Phrase.ofTokens? (ts : List (Token σ α)) : Option (Phrase σ α) :=
  (Reading.start.run ts).bind Reading.finish

theorem Phrase.tokens_of_ofTokens? {ts : List (Token σ α)} {p : Phrase σ α}
    (h : Phrase.ofTokens? ts = some p) : p.tokens = ts := by
  obtain ⟨r, ran, ended⟩ := Option.bind_eq_some_iff.mp h
  rw [Reading.tokens_finish ended, Reading.tokens_run ran]
  rfl

end InfixCalc
