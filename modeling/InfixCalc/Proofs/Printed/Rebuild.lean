import InfixCalc.Proofs.Conversion.Shown
import InfixCalc.Proofs.Printed.Literal
import InfixCalc.Proofs.Printed.Ordered
import InfixCalc.Proofs.Reading.Unique

/-!
# Rebuilding from the written form

When a tree is read again from its written form, and when it is not.
-/

namespace InfixCalc

variable {σ α : Type}

def Scanner.root (scanner : Scanner σ α) (limit : Option Nat) (text : String) :
    Except Failure (Tree (Symbol σ α)) :=
  scanner.scan text >>= Tree.ofTokens scanner.config.display limit

namespace Tree

theorem height_explicit (t : Tree (Symbol σ α)) : t.explicit.height = t.height := by
  induction t with
  | node s cs ih =>
    have inner : heightAll (explicitAll cs) = heightAll cs := by
      induction cs with
      | nil => rfl
      | cons c cs ihAll =>
        rw [explicitAll, heightAll, heightAll, ih c List.mem_cons_self,
          ihAll fun d member => ih d (List.mem_cons_of_mem _ member)]
    rw [explicit, height_node, height_node, inner]

theorem exists_written {print : α → Except Failure String} {t : Tree (Symbol σ α)}
    (prints : ∀ value, .operand value ∈ t.postorder → ∃ text, print value = .ok text) :
    ∃ text, t.written print = .ok text := by
  induction t with
  | node s cs ih =>
    have inner : ∃ texts, writtenAll print cs = .ok texts := by
      have each : ∀ c ∈ cs, ∃ text, c.written print = .ok text := fun c member =>
        ih c member fun value inside => prints value (mem_postorder.mpr (.inl ⟨c, member, inside⟩))
      clear ih prints
      induction cs with
      | nil => exact ⟨[], rfl⟩
      | cons c cs ihAll =>
        obtain ⟨text, first⟩ := each c List.mem_cons_self
        obtain ⟨texts, later⟩ := ihAll fun d member => each d (List.mem_cons_of_mem _ member)
        exact ⟨text :: texts, bind_eq_ok_iff.mpr ⟨text, first,
          bind_eq_ok_iff.mpr ⟨texts, later, rfl⟩⟩⟩
    obtain ⟨texts, all⟩ := inner
    cases s with
    | operand value => exact prints value (mem_postorder.mpr (.inr rfl))
    | _ => exact ⟨_, bind_eq_ok_iff.mpr ⟨texts, all, rfl⟩⟩

theorem operand_mem_explicit {t : Tree (Symbol σ α)} {value : α} :
    .operand value ∈ t.explicit.postorder ↔ .operand value ∈ t.postorder := by
  rw [postorder_explicit, List.mem_map]
  constructor
  · rintro ⟨s, inside, same⟩
    cases s with
    | operand other => exact same ▸ inside
    | _ => cases same
  · exact fun inside => ⟨_, inside, rfl⟩

theorem displays_explicit_iff {display : α → Except Failure String} {t : Tree (Symbol σ α)} :
    Symbol.Displays display t.explicit.postorder ↔ Symbol.Displays display t.postorder :=
  forall_congr' fun _ => imp_congr_left operand_mem_explicit

end Tree

theorem Scanner.displays_of_root {scanner : Scanner σ α} {limit : Option Nat} {text : String}
    {t : Tree (Symbol σ α)} (read : scanner.root limit text = .ok t) :
    Symbol.Displays scanner.config.display t.postorder := by
  obtain ⟨_, _, assembled⟩ := bind_eq_ok_iff.mp read
  exact (Tree.ofTokens_eq_ok_iff.mp assembled).2

theorem Scanner.Ready.spoken_root {scanner : Scanner σ α} (ready : scanner.Ready)
    {limit : Option Nat} {text : String} {t : Tree (Symbol σ α)}
    (read : scanner.root limit text = .ok t) :
    t.Spoken scanner ∧ Within limit t.height := by
  obtain ⟨tokens, scanned, assembled⟩ := bind_eq_ok_iff.mp read
  obtain ⟨⟨p, rfl, sound, rfl⟩, _, low⟩ :=
    Tree.parse_eq_ok_iff.mp (Tree.ofTokens_eq_ok_iff.mp assembled).1
  exact ⟨sound.1.spoken (ready.of_scan scanned).1, low⟩

theorem Scanner.exists_print {scanner : Scanner σ α} {t : Tree (Symbol σ α)}
    (literals : ∀ value, .operand value ∈ t.postorder → scanner.Readable value) :
    ∀ value, .operand value ∈ t.postorder → ∃ text, scanner.config.print value = .ok text := by
  intro value member
  obtain ⟨text, printed, _⟩ := literals value member
  exact ⟨text, printed⟩

/-- A tree is read again from its written form, with its implied products written out, if and only
if every operator of the written form has the operands that its precedence gives it and no label
in it is taken for a sign. -/
theorem Scanner.Ready.root_written_iff {scanner : Scanner σ α} (ready : scanner.Ready)
    (separate : scanner.vocabulary.Separate) {limit : Option Nat} {source text : String}
    {t : Tree (Symbol σ α)} (read : scanner.root limit source = .ok t)
    (literals : ∀ value, .operand value ∈ t.postorder → scanner.Readable value)
    (written : t.written scanner.config.print = .ok text) :
    scanner.root limit text = .ok t.explicit ↔
      (t.printed scanner.vocabulary).Ordered ∧
        ∀ s ∈ t.postorder, looksLikeSign s = false := by
  obtain ⟨spoken, low⟩ := ready.spoken_root read
  constructor
  · intro again
    obtain ⟨tokens, scanned, assembled⟩ := bind_eq_ok_iff.mp again
    obtain ⟨⟨p, rfl, sound, same⟩, _, _⟩ :=
      Tree.parse_eq_ok_iff.mp (Tree.ofTokens_eq_ok_iff.mp assembled).1
    have plain := spoken.plain ready sound.1 same (ready.of_scan scanned).2
    refine ⟨?_, plain⟩
    have tokens := spoken.scan_written ready separate ⟨literals, plain⟩ written
    rw [scanned] at tokens
    have onlyOne : p = t.printed scanner.vocabulary :=
      sound.1.eq_of_tokens spoken.wellFormed (Except.ok.inj tokens)
        (same.trans spoken.tree_printed.symm)
    exact onlyOne ▸ sound.2
  · rintro ⟨ordered, plain⟩
    have scanned := spoken.scan_written ready separate ⟨literals, plain⟩ written
    have parsed : Tree.parse limit (t.printed scanner.vocabulary).tokens = .ok t.explicit := by
      refine Tree.parse_eq_ok_iff.mpr ⟨?_, ?_, ?_⟩
      · exact ⟨_, rfl, ⟨spoken.wellFormed, ordered⟩, spoken.tree_printed⟩
      · exact low.mono spoken.nesting_printed
      · rwa [Tree.height_explicit]
    have displays := Tree.displays_explicit_iff.mpr (displays_of_root read)
    exact bind_eq_ok_iff.mpr ⟨_, scanned, Tree.ofTokens_eq_ok_iff.mpr ⟨parsed, displays⟩⟩

/-- The vocabularies whose written forms are read again. -/
structure Vocabulary.Faithful (v : Vocabulary σ α) : Prop where
  separate : v.Separate
  tight : v.Tight
  sharesSigns : v.SharesSigns
  leavesDigits : v.LeavesDigits

/-- Over a faithful vocabulary every tree is read again from its written form. -/
theorem Scanner.Ready.root_written {scanner : Scanner σ α} (ready : scanner.Ready)
    (faithful : scanner.vocabulary.Faithful) {limit : Option Nat} {source text : String}
    {t : Tree (Symbol σ α)} (read : scanner.root limit source = .ok t)
    (literals : ∀ value, .operand value ∈ t.postorder → scanner.Readable value)
    (written : t.written scanner.config.print = .ok text) :
    scanner.root limit text = .ok t.explicit := by
  obtain ⟨spoken, _⟩ := ready.spoken_root read
  obtain ⟨tokens, scanned, assembled⟩ := bind_eq_ok_iff.mp read
  obtain ⟨⟨p, rfl, sound, rfl⟩, _, _⟩ :=
    Tree.parse_eq_ok_iff.mp (Tree.ofTokens_eq_ok_iff.mp assembled).1
  obtain ⟨given, sheltered⟩ := ready.of_scan scanned
  exact (ready.root_written_iff faithful.separate read literals written).mpr
    ⟨spoken.ordered ready faithful.tight, sound.1.plain ready faithful.sharesSigns given sheltered⟩

end InfixCalc
