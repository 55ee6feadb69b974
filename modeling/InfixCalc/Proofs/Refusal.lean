import InfixCalc.Proofs.Conversion.Counted
import InfixCalc.Proofs.Scan.Refusal
import InfixCalc.Proofs.Session
import InfixCalc.Proofs.Vocabulary.Wordbook

/-!
# What a build refuses

A build comes to an expression whose tree is complete, or it refuses the text while it scans or
parses it. Nothing goes wrong later: what has been parsed can be assembled, and what has been
assembled can be written. Only what is listed on the way has to be shown: an operand that cannot be
shown, or a number of arguments that is not written out, ends the build as well.
-/

namespace InfixCalc

variable {σ α : Type}

/-- What a text fails by when it is shown on the way: a call takes so many arguments that their
number is not written out, or an operand in it cannot be shown. -/
inductive Scanner.Unshown (scanner : Scanner σ α) : Failure → Prop where
  | arity {label : String} {callable : Callable σ α} :
      scanner.vocabulary.callable? label = some callable → callable.arity.isWritable = false →
        Unshown scanner .unreadableValue
  | operand {value : α} {cause : Failure} :
      scanner.Literal value → scanner.config.display value = .error cause → Unshown scanner cause

theorem Arity.isWritable_of_small {arity : Arity} (small : arity.toInt.natAbs < 10) :
    arity.isWritable = true := by
  unfold Arity.isWritable Number.isWritable
  have most {digits : Nat} (some_ : digits ≠ 0) : 10 ≤ Nat.pow 10 digits :=
    Nat.le_self_pow some_ 10
  exact decide_eq_true (small.trans_le (most (by decide)))

/-- The number of arguments of every call is written out where it is reported. -/
def Vocabulary.Writable (v : Vocabulary σ α) : Prop :=
  v.Keeps (fun _ _ => True) (fun _ f => f.arity.isWritable = true)
    fun _ b => b.arity.isWritable = true

theorem Vocabulary.Writable.isWritable {v : Vocabulary σ α} (writable : v.Writable)
    {label : String} {callable : Callable σ α} (called : v.callable? label = some callable) :
    callable.arity.isWritable = true := by
  rcases callable?_eq_some_iff.mp called with ⟨f, found, rfl⟩ | ⟨_, b, found, rfl⟩
  · exact writable.functions label f found
  · exact writable.branches label b found

/-- The numbers of arguments of a wordbook with small ones are written out. -/
theorem Wordbook.writable_vocabulary [Shown α] {book : Wordbook σ α}
    (functions : ∀ word ∈ book.functions, word.2.1.toInt.natAbs < 10)
    (branches : ∀ word ∈ book.branches, word.2.1.toInt.natAbs < 10) :
    book.vocabulary.Writable := by
  refine words_induction Vocabulary.keeps_empty ?_ ?_ ?_ ?_
  · exact fun v keeps word member => keeps.putOperator trivial
  · exact fun v keeps word member => ⟨keeps.before, keeps.after, keeps.between,
      keeps.functions.insert (Arity.isWritable_of_small (functions word member)), keeps.branches⟩
  · exact fun v keeps word member => ⟨keeps.before, keeps.after, keeps.between, keeps.functions,
      keeps.branches.insert (Arity.isWritable_of_small (branches word member))⟩
  · exact fun v keeps _ _ =>
      ⟨keeps.before, keeps.after, keeps.between, keeps.functions, keeps.branches⟩

/-- Where all operands can be shown and all numbers of arguments, nothing fails by being shown. -/
theorem Scanner.not_unshown {scanner : Scanner σ α} (writable : scanner.vocabulary.Writable)
    (shows : ∀ value, ∃ text, scanner.config.display value = .ok text) {cause : Failure} :
    ¬ scanner.Unshown cause := by
  intro unshown
  cases unshown with
  | arity called long => exact Bool.noConfusion ((writable.isWritable called).symm.trans long)
  | @operand value _ _ failed =>
    obtain ⟨text, shown⟩ := shows value
    cases shown.symm.trans failed

/-- A text gives a tree that has all its operands, or it is refused as it is scanned or parsed, or
something in it cannot be shown. -/
theorem Scanner.Ready.root_cases {scanner : Scanner σ α} (ready : scanner.Ready)
    (limit : Option Nat) (text : String) :
    (∃ t, scanner.root limit text = .ok t ∧ t.Full) ∨
      ∃ cause, scanner.root limit text = .error cause ∧
        ((cause.IsLexical ∨ cause.stage = .parsing) ∨ scanner.Unshown cause) := by
  unfold root
  cases scanned : scanner.scan text with
  | error cause => exact .inr ⟨cause, rfl, .inl (.inl (ready.refuses_of_scan scanned).isLexical)⟩
  | ok tokens =>
    have given := (ready.of_scan scanned).1
    change (∃ t, Tree.ofTokens scanner.config.display limit tokens = .ok t ∧ t.Full) ∨
      ∃ cause, Tree.ofTokens scanner.config.display limit tokens = .error cause ∧ _
    cases read : Tree.ofTokens scanner.config.display limit tokens with
    | ok t =>
      obtain ⟨⟨p, _, sound, same⟩, _⟩ :=
        Tree.parse_eq_ok_iff.mp (Tree.ofTokens_eq_ok_iff.mp read).1
      exact .inl ⟨t, rfl, same ▸ sound.1.full⟩
    | error cause =>
      refine .inr ⟨cause, rfl, ?_⟩
      rcases Tree.ofTokens_eq_error read with unparsed | ⟨value, member, unshown⟩
      · rcases Tree.parse_of_joins (ready.joins_of_scan scanned) limit with
          ⟨t, parsed, _⟩ | ⟨other, failed, parsing | ⟨rfl, callable, member, long⟩⟩
        · cases unparsed.symm.trans parsed
        · cases unparsed.symm.trans failed
          exact .inl (.inr parsing)
        · cases unparsed.symm.trans failed
          cases given _ member with
          | call called => exact .inr (.arity called long)
      · cases given _ member with
        | operand literal => exact .inr (.operand literal unshown)

namespace Builder

end Builder
end InfixCalc
