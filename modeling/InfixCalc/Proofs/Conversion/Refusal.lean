import InfixCalc.Proofs.Conversion.Step
import InfixCalc.Proofs.Message

/-!
# What the conversion refuses

Whatever the conversion refuses is refused as a text that cannot be parsed, and its message quotes
nothing but separators and what the tokens are shown as.
-/

namespace InfixCalc

variable {σ α : Type}

/-- A failure of parsing that quotes only texts with the property. -/
structure Failure.IsSyntactic (P : String → Prop) (cause : Failure) : Prop where
  stage : cause.stage = .parsing
  quoted : ∀ text ∈ cause.quoted, P text

/-- Some call among the tokens takes so many arguments that their number is not written out. -/
def Token.Unwritable (ts : List (Token σ α)) : Prop :=
  ∃ callable, .symbol (.call callable) ∈ ts ∧ callable.arity.isWritable = false

/-- What a message shows of the symbol has the property. -/
def Symbol.ShownAs (P : String → Prop) : Symbol σ α → Prop
  | .operand _ | .variable _ => True
  | .operator op => P op.display
  | .call callable => P callable.label

namespace Postfix

variable {P : String → Prop} {Q : Callable σ α → Prop} {limit : Option Nat} {state : State σ α}

/-- The calls that are open have the property. -/
def OpenCalls (Q : Callable σ α → Prop) (stack : List (Waiting σ α)) : Prop :=
  ∀ callable count, .call callable count ∈ stack → Q callable

/-- How tokens are refused: by a failure of parsing that quotes only texts with the property, or
because the number of arguments that a call takes is not written out. -/
inductive Refuses (P : String → Prop) (Q : Callable σ α → Prop) : Failure → Prop where
  | syntactic {cause : Failure} : cause.IsSyntactic P → Refuses P Q cause
  | unwritable {callable : Callable σ α} :
      Q callable → callable.arity.isWritable = false → Refuses P Q .unreadableValue

theorem Refuses.of_quoted {cause : Failure} (stage : cause.stage = .parsing)
    (quoted : ∀ text ∈ cause.quoted, P text) : Refuses P Q cause :=
  .syntactic ⟨stage, quoted⟩

/-- A refusal, or a state whose open calls have the property. -/
inductive Fair (P : String → Prop) (Q : Callable σ α → Prop) :
    Except Failure (State σ α) → Prop where
  | ok {state : State σ α} : OpenCalls Q state.stack → Fair P Q (.ok state)
  | error {cause : Failure} : Refuses P Q cause → Fair P Q (.error cause)

theorem Fair.bind {outcome : Except Failure (State σ α)}
    {next : State σ α → Except Failure (State σ α)} (fair : Fair P Q outcome)
    (each : ∀ state, OpenCalls Q state.stack → Fair P Q (next state)) :
    Fair P Q (outcome >>= next) := by
  cases fair with
  | ok calls => exact each _ calls
  | error refuses => exact .error refuses

theorem OpenCalls.suffix {stack rest : List (Waiting σ α)} (calls : OpenCalls Q stack)
    (suffix : rest <:+ stack) : OpenCalls Q rest :=
  fun callable count member => calls callable count (suffix.subset member)

theorem OpenCalls.cons {stack : List (Waiting σ α)} {w : Waiting σ α} (calls : OpenCalls Q stack)
    (here : ∀ callable count, w = .call callable count → Q callable) :
    OpenCalls Q (w :: stack) := by
  intro callable count member
  rcases List.mem_cons.mp member with same | below
  · exact here callable count same.symm
  · exact calls callable count below

theorem applyWhile_suffix (condition : Operator σ α → Bool) (output : List (Symbol σ α))
    (stack : List (Waiting σ α)) : (applyWhile condition output stack).2 <:+ stack := by
  fun_induction applyWhile condition output stack with
  | case1 output op stack _ ih => exact ih.trans (List.suffix_cons _ _)
  | case2 output op stack _ => exact List.suffix_rfl
  | case3 output stack _ => exact List.suffix_rfl

theorem closeGroup_suffix (output : List (Symbol σ α)) (stack : List (Waiting σ α)) :
    (closeGroup output stack).2 <:+ stack := by
  unfold closeGroup
  split
  · split
    · exact List.suffix_cons _ _
    · exact List.suffix_rfl
  · exact List.suffix_rfl

/- One token. -/

theorem enter_cases (limit : Option Nat) (depth : Nat) :
    enter limit depth = .ok (depth + 1) ∨ ∃ most, enter limit depth = .error (.tooDeep most) := by
  unfold enter
  split
  · split
    · exact .inr ⟨_, rfl⟩
    · exact .inl rfl
  · exact .inl rfl

theorem fair_openGroup (calls : OpenCalls Q state.stack) : Fair P Q (openGroup limit state) := by
  unfold openGroup
  rcases enter_cases limit state.depth with entered | ⟨most, refused⟩
  · rw [entered]
    exact .ok (calls.cons fun _ _ never => nomatch never)
  · rw [refused]
    exact .error (.of_quoted rfl (List.forall_mem_nil _))

theorem fair_openCall {callable : Callable σ α} (here : Q callable)
    (calls : OpenCalls Q state.stack) : Fair P Q (openCall limit state callable) := by
  unfold openCall
  rcases enter_cases limit state.depth with entered | ⟨most, refused⟩
  · rw [entered]
    refine .ok (calls.cons ?_)
    rintro _ _ ⟨⟩
    exact here
  · rw [refused]
    exact .error (.of_quoted rfl (List.forall_mem_nil _))

theorem refuses_of_settle (named : ∀ callable, Q callable → P callable.label)
    {callable : Callable σ α} {count : Nat} {cause : Failure} (here : Q callable)
    (failed : settle callable count = .error cause) : Refuses P Q cause := by
  have quoted (expected actual : Nat) :
      Refuses P Q (.wrongArity callable.label expected actual) :=
    .of_quoted rfl (List.forall_mem_singleton.mpr (named callable here))
  unfold settle at failed
  split at failed
  · split at failed
    · exact Except.error.inj failed ▸ quoted _ _
    · cases failed
  · cases failed
  · rename_i expected arity
    split at failed
    · cases failed
    · rw [← Except.error.inj failed, Failure.writing]
      split
      · exact quoted expected count
      · rename_i long
        refine .unwritable here ?_
        rw [Arity.isWritable, arity]
        exact (Bool.not_eq_true _).mp long

theorem close_cases (named : ∀ callable, Q callable → P callable.label)
    (output : List (Symbol σ α)) {stack : List (Waiting σ α)} (calls : OpenCalls Q stack)
    (noArguments : Bool) :
    (∃ closed, close output stack noArguments = .ok closed ∧ closed.2 <:+ stack) ∨
      ∃ cause, close output stack noArguments = .error cause ∧ Refuses P Q cause := by
  have suffix : (applyAll output stack).2 <:+ stack := applyWhile_suffix _ output stack
  obtain ⟨applied, top | ⟨rest, top⟩ | ⟨callable, count, rest, top⟩⟩ := applyAll_cases output stack
  · exact .inr ⟨_, close_empty noArguments top, .of_quoted rfl (List.forall_mem_nil _)⟩
  · rw [top] at suffix
    refine .inl ⟨_, close_group noArguments top, ?_⟩
    exact (closeGroup_suffix applied rest).trans ((List.suffix_cons _ _).trans suffix)
  · rw [top] at suffix
    have here := calls callable count (suffix.subset List.mem_cons_self)
    rw [close_call noArguments top]
    split
    · exact .inl ⟨_, rfl, (List.suffix_cons _ _).trans suffix⟩
    · rename_i cause failed
      exact .inr ⟨cause, rfl, refuses_of_settle named here failed⟩

theorem fair_closeParen (named : ∀ callable, Q callable → P callable.label) (closes : P ")")
    (calls : OpenCalls Q state.stack) : Fair P Q (closeParen state) := by
  unfold closeParen
  simp only
  split
  · exact .error (.of_quoted rfl (List.forall_mem_singleton.mpr closes))
  · rcases close_cases named state.output calls state.callOpened with
      ⟨closed, ran, suffix⟩ | ⟨cause, failed, refuses⟩
    · rw [ran]
      exact .ok (calls.suffix suffix)
    · rw [failed]
      exact .error refuses

theorem fair_comma (separates : P ",") (calls : OpenCalls Q state.stack) :
    Fair P Q (comma state) := by
  cases ended : state.ended with
  | false =>
    rcases comma_not_ended ended with failed | failed
    · rw [failed]
      exact .error (.of_quoted rfl (List.forall_mem_nil _))
    · rw [failed]
      exact .error (.of_quoted rfl (List.forall_mem_singleton.mpr separates))
  | true =>
    have suffix : (applyAll state.output state.stack).2 <:+ state.stack :=
      applyWhile_suffix _ state.output state.stack
    rw [comma_ended ended]
    split
    · rename_i output callable count stack top
      rw [top] at suffix
      have inside := calls.suffix suffix
      refine .ok ((inside.suffix (List.suffix_cons _ _)).cons ?_)
      rintro _ _ ⟨⟩
      exact inside callable count List.mem_cons_self
    · exact .error (.of_quoted rfl (List.forall_mem_nil _))

theorem fair_operator {op : Operator σ α} (shown : P op.display)
    (calls : OpenCalls Q state.stack) : Fair P Q (operator state op) := by
  by_cases fixity : op.fixity = .before
  · rw [operator_before fixity]
    split
    · exact .error (.of_quoted rfl (List.forall_mem_singleton.mpr shown))
    · exact .ok (calls.cons fun _ _ never => nomatch never)
  · rw [operator_behind fixity]
    have below := calls.suffix (applyWhile_suffix (appliesFirst · op) state.output state.stack)
    split
    · refine .ok ?_
      unfold behind
      simp only
      split
      · exact below
      · exact below.cons fun _ _ never => nomatch never
    · exact .error (.of_quoted rfl (List.forall_mem_singleton.mpr shown))

/- All tokens. -/

/-- A symbol is shown as a text with the property, and if it is a call it has the other one. -/
def Shows (P : String → Prop) (Q : Callable σ α → Prop) (s : Symbol σ α) : Prop :=
  s.ShownAs P ∧ ∀ callable, s = .call callable → Q callable

theorem fair_run (named : ∀ callable, Q callable → P callable.label) (closes : P ")")
    (separates : P ",") {ts : List (Token σ α)} (shown : ∀ s, .symbol s ∈ ts → Shows P Q s)
    (calls : OpenCalls Q state.stack) : Fair P Q (run limit state ts) := by
  fun_induction run limit state ts
  case case1 => exact .ok calls
  case case2 state rest ih =>
    have later (s : Symbol σ α) (member : .symbol s ∈ rest) :=
      shown s (List.mem_cons_of_mem _ member)
    exact (fair_openGroup calls).bind fun middle kept => ih middle later kept
  case case3 state rest ih =>
    have later (s : Symbol σ α) (member : .symbol s ∈ rest) :=
      shown s (List.mem_cons_of_mem _ member)
    exact (fair_closeParen named closes calls).bind fun middle kept => ih middle later kept
  case case4 state rest ih =>
    have later (s : Symbol σ α) (member : .symbol s ∈ rest) :=
      shown s (List.mem_cons_of_mem _ member)
    exact (fair_comma separates calls).bind fun middle kept => ih middle later kept
  case case5 state callable rest ih =>
    have later (s : Symbol σ α) (member : .symbol s ∈ rest) :=
      shown s (List.mem_cons_of_mem _ (List.mem_cons_of_mem _ member))
    have here : Q callable := (shown (.call callable) List.mem_cons_self).2 callable rfl
    exact (fair_openCall here calls).bind fun middle kept => ih middle later kept
  case case6 state callable rest _ =>
    have here : P callable.label := (shown (.call callable) List.mem_cons_self).1
    exact .error (.of_quoted rfl (List.forall_mem_singleton.mpr here))
  case case7 state op rest ih =>
    have later (s : Symbol σ α) (member : .symbol s ∈ rest) :=
      shown s (List.mem_cons_of_mem _ member)
    have here : P op.display := (shown (.operator op) List.mem_cons_self).1
    exact (fair_operator here calls).bind fun middle kept => ih middle later kept
  case case8 state s rest _ _ _ ih =>
    exact ih (fun s member => shown s (List.mem_cons_of_mem _ member)) calls

/-- Whatever is refused is refused as a text that cannot be parsed, and what is quoted has the
property if the separators have it and what the symbols are shown as; or the number of arguments
that a call takes is not written out. -/
theorem reorder_refuses (closes : P ")") (separates : P ",") {ts : List (Token σ α)}
    (shown : ∀ s, .symbol s ∈ ts → s.ShownAs P) {cause : Failure}
    (failed : reorder limit ts = .error cause) :
    cause.IsSyntactic P ∨ cause = .unreadableValue ∧ Token.Unwritable ts := by
  let Q : Callable σ α → Prop := fun callable => .symbol (.call callable) ∈ ts
  have calls : OpenCalls Q (State.initial : State σ α).stack := fun _ _ never => nomatch never
  have fair : Fair P Q (run limit .initial ts) :=
    fair_run (fun callable => shown (.call callable)) closes separates
      (fun s member => ⟨shown s member, fun callable same =>
        show .symbol (.call callable) ∈ ts from same ▸ member⟩) calls
  rcases bind_eq_error_iff.mp failed with early | ⟨state, _, late⟩
  · rw [early] at fair
    cases fair with
    | error refuses =>
      cases refuses with
      | syntactic syntactic => exact .inl syntactic
      | unwritable member long => exact .inr ⟨rfl, _, member, long⟩
  · rw [finish_eq] at late
    split at late
    · cases late
      exact .inl ⟨rfl, List.forall_mem_nil _⟩
    · split at late
      · cases late
      · cases late
        exact .inl ⟨rfl, List.forall_mem_nil _⟩

theorem stage_of_reorder_error {ts : List (Token σ α)} {cause : Failure}
    (failed : reorder limit ts = .error cause) :
    cause.stage = .parsing ∨ cause = .unreadableValue ∧ Token.Unwritable ts := by
  refine (reorder_refuses (P := fun _ => True) trivial trivial (fun s _ => ?_) failed).imp_left
    Failure.IsSyntactic.stage
  cases s <;> exact trivial

end Postfix
end InfixCalc
