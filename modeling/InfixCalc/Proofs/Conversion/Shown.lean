import InfixCalc.Proofs.Conversion.Joined

/-!
# Listings on the way

The symbols in postfix order are listed for the log before they are returned, and so is the tree.
The listings show every operand. Tokens whose operands can all be shown give the tree that they
would give without the listings, and no others give one.
-/

namespace InfixCalc

variable {σ α τ : Type} {limit : Option Nat}

/-- Every token has a text in listings. -/
def Lists (display : τ → Except Failure String) (ts : List τ) : Prop :=
  ∀ t ∈ ts, ∃ text, display t = .ok text

/-- Every operand among the symbols can be shown. -/
def Symbol.Displays (display : α → Except Failure String) (symbols : List (Symbol σ α)) : Prop :=
  ∀ value, .operand value ∈ symbols → ∃ text, display value = .ok text

/-- Every operand among the tokens can be shown. -/
def Token.Displays (display : α → Except Failure String) (ts : List (Token σ α)) : Prop :=
  ∀ value, .symbol (.operand value) ∈ ts → ∃ text, display value = .ok text

section Symbols

variable {display : α → Except Failure String}

theorem Symbol.lists_iff {symbols : List (Symbol σ α)} :
    Lists (Symbol.text display) symbols ↔ Displays display symbols := by
  constructor
  · exact fun lists value member => lists _ member
  · intro displays s member
    cases s with
    | operand value => exact displays value member
    | «variable» label => exact ⟨label, rfl⟩
    | operator op => exact ⟨op.display, rfl⟩
    | call callable => exact ⟨callable.label, rfl⟩

theorem Token.lists_iff {ts : List (Token σ α)} :
    Lists (Token.text display) ts ↔ Displays display ts := by
  constructor
  · exact fun lists value member => lists _ member
  · intro displays t member
    cases t with
    | separator s => exact ⟨_, rfl⟩
    | symbol s =>
      cases s with
      | operand value => exact displays value member
      | «variable» label => exact ⟨label, rfl⟩
      | operator op => exact ⟨op.display, rfl⟩
      | call callable => exact ⟨callable.label, rfl⟩

theorem Symbol.exists_of_text_error {s : Symbol σ α} {cause : Failure}
    (failed : s.text display = .error cause) :
    ∃ value, s = .operand value ∧ display value = .error cause := by
  cases s with
  | operand value => exact ⟨value, rfl, failed⟩
  | _ => cases failed

theorem Token.exists_of_text_error {t : Token σ α} {cause : Failure}
    (failed : t.text display = .error cause) :
    ∃ value, t = .symbol (.operand value) ∧ display value = .error cause := by
  cases t with
  | separator s => cases failed
  | symbol s =>
    obtain ⟨value, rfl, shown⟩ := Symbol.exists_of_text_error failed
    exact ⟨value, rfl, shown⟩

end Symbols

namespace Tree

variable {display : τ → Except Failure String}

theorem outlineAll_eq (cs : List (Tree τ)) : outlineAll display cs = cs.mapM (outline display) := by
  induction cs with
  | nil => rfl
  | cons c cs ih => rw [outlineAll, List.mapM_cons, ih]

theorem exists_outline_iff {t : Tree τ} :
    (∃ text, t.outline display = .ok text) ↔ Lists display t.postorder := by
  induction t with
  | node s cs ih =>
    have inner : (∃ texts, outlineAll display cs = .ok texts) ↔
        ∀ c ∈ cs, Lists display c.postorder := by
      rw [outlineAll_eq, exists_mapM_iff]
      exact forall₂_congr ih
    have whole : Lists display (node s cs).postorder ↔
        (∃ shown, display s = .ok shown) ∧ ∃ texts, outlineAll display cs = .ok texts := by
      rw [inner]
      constructor
      · intro lists
        exact ⟨lists s (mem_postorder.mpr (.inr rfl)), fun c child other member =>
          lists other (mem_postorder.mpr (.inl ⟨c, child, member⟩))⟩
      · rintro ⟨root, below⟩ other member
        rcases mem_postorder.mp member with ⟨c, child, inside⟩ | rfl
        · exact below c child other inside
        · exact root
    rw [whole]
    cases cs with
    | nil => simp [outline, outlineAll, bind_eq_ok_iff, pure, Except.pure]
    | cons c cs => simp [outline, bind_eq_ok_iff, pure, Except.pure]

theorem outline_eq_error {t : Tree τ} {cause : Failure} (h : t.outline display = .error cause) :
    ∃ s ∈ t.postorder, display s = .error cause := by
  induction t with
  | node s cs ih =>
    have failed : display s = .error cause ∨ outlineAll display cs = .error cause := by
      cases cs with
      | nil =>
        rcases bind_eq_error_iff.mp h with root | ⟨_, _, never⟩
        · exact .inl root
        · cases never
      | cons c cs =>
        rcases bind_eq_error_iff.mp h with root | ⟨_, _, later⟩
        · exact .inl root
        · rcases bind_eq_error_iff.mp later with inside | ⟨_, _, never⟩
          · exact .inr inside
          · cases never
    rcases failed with root | inside
    · exact ⟨s, mem_postorder.mpr (.inr rfl), root⟩
    · rw [outlineAll_eq] at inside
      obtain ⟨c, child, below⟩ := mapM_eq_error inside
      obtain ⟨other, member, shown⟩ := ih c child below
      exact ⟨other, mem_postorder.mpr (.inl ⟨c, child, member⟩), shown⟩

variable [Ranked τ]

theorem ofPostfix_eq_ok_iff {ts : List τ} {t : Tree τ} :
    ofPostfix display limit ts = .ok t ↔ assemble limit ts = .ok t ∧ Lists display ts := by
  have listed (assembled : assemble limit ts = .ok t) :
      (∃ text, t.outline display = .ok text) ↔ Lists display ts := by
    rw [exists_outline_iff, (assemble_eq_ok_iff.mp assembled).1]
  constructor
  · intro h
    obtain ⟨tree, assembled, outlined⟩ := bind_eq_ok_iff.mp h
    obtain ⟨text, shown, same⟩ := bind_eq_ok_iff.mp outlined
    cases same
    exact ⟨assembled, (listed assembled).mp ⟨text, shown⟩⟩
  · rintro ⟨assembled, lists⟩
    obtain ⟨text, shown⟩ := (listed assembled).mpr lists
    exact bind_eq_ok_iff.mpr ⟨t, assembled, bind_eq_ok_iff.mpr ⟨text, shown, rfl⟩⟩

theorem ofPostfix_eq_error {ts : List τ} {cause : Failure}
    (h : ofPostfix display limit ts = .error cause) :
    assemble limit ts = .error cause ∨ ∃ s ∈ ts, display s = .error cause := by
  rcases bind_eq_error_iff.mp h with failed | ⟨t, assembled, later⟩
  · exact .inl failed
  · rcases bind_eq_error_iff.mp later with outlined | ⟨_, _, never⟩
    · exact .inr ((assemble_eq_ok_iff.mp assembled).1 ▸ outline_eq_error outlined)
    · cases never

end Tree

/- The operands in postfix order are operands of the tokens. -/

namespace Postfix

theorem operand_mem_of_applyWhile {condition : Operator σ α → Bool} {output : List (Symbol σ α)}
    {stack : List (Waiting σ α)} {value : α}
    (member : .operand value ∈ (applyWhile condition output stack).1) :
    .operand value ∈ output := by
  fun_induction applyWhile condition output stack with
  | case1 output op stack _ ih => exact (List.mem_cons.mp (ih member)).resolve_left (by simp)
  | case2 output op stack _ => exact member
  | case3 output stack _ => exact member

theorem operand_mem_of_close {output : List (Symbol σ α)} {stack : List (Waiting σ α)}
    {noArguments : Bool} {closed : List (Symbol σ α) × List (Waiting σ α)} {value : α}
    (h : close output stack noArguments = .ok closed) (member : .operand value ∈ closed.1) :
    .operand value ∈ output := by
  have below (inside : .operand value ∈ (applyAll output stack).1) : .operand value ∈ output :=
    operand_mem_of_applyWhile inside
  obtain ⟨applied, top | ⟨rest, top⟩ | ⟨callable, count, rest, top⟩⟩ := applyAll_cases output stack
  · cases (close_empty noArguments top).symm.trans h
  · rw [close_group noArguments top] at h
    cases h
    refine below (top ▸ ?_)
    unfold closeGroup at member
    split at member
    · split at member
      · exact (List.mem_cons.mp member).resolve_left (by simp)
      · exact member
    · exact member
  · rw [close_call noArguments top] at h
    split at h
    · cases h
      exact below (top ▸ (List.mem_cons.mp member).resolve_left (by simp))
    · cases h

theorem operand_mem_of_operator {state next : State σ α} {op : Operator σ α} {value : α}
    (h : operator state op = .ok next) (member : .operand value ∈ next.output) :
    .operand value ∈ state.output := by
  by_cases fixity : op.fixity = .before
  · rw [operator_before fixity] at h
    split at h
    · cases h
    · cases h
      exact member
  · rw [operator_behind fixity] at h
    split at h
    · cases h
      unfold behind at member
      simp only at member
      split at member
      · exact operand_mem_of_applyWhile ((List.mem_cons.mp member).resolve_left (by simp))
      · exact operand_mem_of_applyWhile member
    · cases h

theorem operand_mem_of_comma {state next : State σ α} {value : α}
    (h : comma state = .ok next) (member : .operand value ∈ next.output) :
    .operand value ∈ state.output := by
  rw [comma_ended (ended_of_comma h)] at h
  split at h
  · rename_i top
    cases h
    have applied : .operand value ∈ (applyAll state.output state.stack).1 := by rwa [top]
    exact operand_mem_of_applyWhile applied
  · cases h

theorem operand_mem_of_closeParen {state next : State σ α} {value : α}
    (h : closeParen state = .ok next) (member : .operand value ∈ next.output) :
    .operand value ∈ state.output := by
  unfold closeParen at h
  simp only at h
  split at h
  · cases h
  · obtain ⟨closed, done, same⟩ := bind_eq_ok_iff.mp h
    cases same
    exact operand_mem_of_close done member

theorem output_openGroup {state next : State σ α} (h : openGroup limit state = .ok next) :
    next.output = state.output := by
  obtain ⟨_, _, same⟩ := bind_eq_ok_iff.mp h
  cases same
  rfl

theorem output_openCall {state next : State σ α} {callable : Callable σ α}
    (h : openCall limit state callable = .ok next) : next.output = state.output := by
  obtain ⟨_, _, same⟩ := bind_eq_ok_iff.mp h
  cases same
  rfl

theorem operand_mem_of_run {state next : State σ α} {ts : List (Token σ α)} {value : α}
    (h : run limit state ts = .ok next) (member : .operand value ∈ next.output) :
    .operand value ∈ state.output ∨ .symbol (.operand value) ∈ ts := by
  fun_induction run limit state ts
  case case1 =>
    cases h
    exact .inl member
  case case2 state rest ih =>
    obtain ⟨middle, opened, later⟩ := bind_eq_ok_iff.mp h
    rw [← output_openGroup opened]
    exact (ih middle later).imp_right (List.mem_cons_of_mem _)
  case case3 state rest ih =>
    obtain ⟨middle, closed, later⟩ := bind_eq_ok_iff.mp h
    exact (ih middle later).imp (operand_mem_of_closeParen closed) (List.mem_cons_of_mem _)
  case case4 state rest ih =>
    obtain ⟨middle, added, later⟩ := bind_eq_ok_iff.mp h
    exact (ih middle later).imp (operand_mem_of_comma added) (List.mem_cons_of_mem _)
  case case5 state callable rest ih =>
    obtain ⟨middle, opened, later⟩ := bind_eq_ok_iff.mp h
    rw [← output_openCall opened]
    exact (ih middle later).imp_right fun inside =>
      List.mem_cons_of_mem _ (List.mem_cons_of_mem _ inside)
  case case6 => cases h
  case case7 state op rest ih =>
    obtain ⟨middle, added, later⟩ := bind_eq_ok_iff.mp h
    exact (ih middle later).imp (operand_mem_of_operator added) (List.mem_cons_of_mem _)
  case case8 state s rest _ _ _ ih =>
    rcases ih h with inside | inside
    · rcases List.mem_cons.mp inside with rfl | inside
      · exact .inr List.mem_cons_self
      · exact .inl inside
    · exact .inr (List.mem_cons_of_mem _ inside)

theorem operand_mem_of_reorder {ts : List (Token σ α)} {symbols : List (Symbol σ α)} {value : α}
    (h : reorder limit ts = .ok symbols) (member : .operand value ∈ symbols) :
    .symbol (.operand value) ∈ ts := by
  obtain ⟨state, ran, finished⟩ := bind_eq_ok_iff.mp h
  have applied : .operand value ∈ (applyAll state.output state.stack).1 := by
    rw [(finish_eq_ok_iff.mp finished).2]
    exact List.mem_reverse.mpr member
  exact (operand_mem_of_run ran (operand_mem_of_applyWhile applied)).resolve_left
    List.not_mem_nil

variable {display : α → Except Failure String}

theorem ofTokens_eq_ok_iff {ts : List (Token σ α)} {symbols : List (Symbol σ α)} :
    ofTokens display limit ts = .ok symbols ↔
      reorder limit ts = .ok symbols ∧ Symbol.Displays display symbols := by
  rw [← Symbol.lists_iff, Lists, ← exists_mapM_iff]
  constructor
  · intro h
    obtain ⟨found, reordered, listed⟩ := bind_eq_ok_iff.mp h
    obtain ⟨texts, shown, same⟩ := bind_eq_ok_iff.mp listed
    cases same
    exact ⟨reordered, texts, shown⟩
  · rintro ⟨reordered, texts, shown⟩
    exact bind_eq_ok_iff.mpr ⟨symbols, reordered, bind_eq_ok_iff.mpr ⟨texts, shown, rfl⟩⟩

theorem ofTokens_eq_error {ts : List (Token σ α)} {cause : Failure}
    (h : ofTokens display limit ts = .error cause) :
    reorder limit ts = .error cause ∨
      ∃ value, .symbol (.operand value) ∈ ts ∧ display value = .error cause := by
  rcases bind_eq_error_iff.mp h with failed | ⟨symbols, reordered, later⟩
  · exact .inl failed
  · rcases bind_eq_error_iff.mp later with listed | ⟨_, _, never⟩
    · obtain ⟨s, member, unshown⟩ := mapM_eq_error listed
      obtain ⟨value, rfl, failed⟩ := Symbol.exists_of_text_error unshown
      exact .inr ⟨value, operand_mem_of_reorder reordered member, failed⟩
    · cases never

end Postfix

namespace Tree

variable {display : α → Except Failure String}

/-- The tree of tokens, with the listings on the way to it. -/
def ofTokens (display : α → Except Failure String) (limit : Option Nat)
    (ts : List (Token σ α)) : Except Failure (Tree (Symbol σ α)) :=
  Postfix.ofTokens display limit ts >>= ofPostfix (Symbol.text display) limit

theorem ofTokens_eq_ok_iff {ts : List (Token σ α)} {t : Tree (Symbol σ α)} :
    ofTokens display limit ts = .ok t ↔
      parse limit ts = .ok t ∧ Symbol.Displays display t.postorder := by
  simp only [ofTokens, parse, bind_eq_ok_iff, Postfix.ofTokens_eq_ok_iff, ofPostfix_eq_ok_iff,
    Symbol.lists_iff]
  constructor
  · rintro ⟨symbols, ⟨reordered, displays⟩, assembled, _⟩
    exact ⟨⟨symbols, reordered, assembled⟩, (assemble_eq_ok_iff.mp assembled).1 ▸ displays⟩
  · rintro ⟨⟨symbols, reordered, assembled⟩, displays⟩
    rw [(assemble_eq_ok_iff.mp assembled).1] at displays
    exact ⟨symbols, ⟨reordered, displays⟩, assembled, displays⟩

theorem ofTokens_eq_error {ts : List (Token σ α)} {cause : Failure}
    (h : ofTokens display limit ts = .error cause) :
    parse limit ts = .error cause ∨
      ∃ value, .symbol (.operand value) ∈ ts ∧ display value = .error cause := by
  rcases bind_eq_error_iff.mp h with failed | ⟨symbols, reordered, later⟩
  · exact (Postfix.ofTokens_eq_error failed).imp_left fun early =>
      bind_eq_error_iff.mpr (.inl early)
  · obtain ⟨raw, _⟩ := Postfix.ofTokens_eq_ok_iff.mp reordered
    rcases ofPostfix_eq_error later with failed | ⟨s, member, unshown⟩
    · exact .inl (bind_eq_error_iff.mpr (.inr ⟨symbols, raw, failed⟩))
    · obtain ⟨value, rfl, shown⟩ := Symbol.exists_of_text_error unshown
      exact .inr ⟨value, Postfix.operand_mem_of_reorder raw member, shown⟩

end Tree
end InfixCalc
