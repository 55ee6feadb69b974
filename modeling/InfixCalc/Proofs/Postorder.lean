import InfixCalc.Proofs.Outcome
import InfixCalc.Tree
import Mathlib.Data.List.Induction

/-!
# Trees from postfix lists

Tokens that arrive from the end of a postfix list fill the slots of a growing tree from the last
one to the first. The lists that come to an end without a free slot are the postorder listings of
full trees, and the tree that grows is the one listed.
-/

namespace InfixCalc

namespace Tree

variable {τ : Type}

/-- Proofs about trees may assume what they show of all operands of a node. -/
@[induction_eliminator] theorem induction {motive : Tree τ → Prop}
    (node : ∀ s cs, (∀ c ∈ cs, motive c) → motive (.node s cs)) (t : Tree τ) : motive t := by
  refine @Tree.rec τ motive (fun cs => ∀ c ∈ cs, motive c) node ?_ ?_ t
  · intro c member
    cases member
  · intro c cs first rest other member
    rcases List.mem_cons.mp member with rfl | member
    · exact first
    · exact rest other member

theorem postorderAll_append (xs ys : List (Tree τ)) :
    postorderAll (xs ++ ys) = postorderAll xs ++ postorderAll ys := by
  induction xs with
  | nil => rfl
  | cons x xs ih => simp only [List.cons_append, postorderAll, ih, List.append_assoc]

theorem mem_postorderAll {s : τ} {cs : List (Tree τ)} :
    s ∈ postorderAll cs ↔ ∃ c ∈ cs, s ∈ c.postorder := by
  induction cs with
  | nil => simp [postorderAll]
  | cons c cs ih => simp [postorderAll, ih]

theorem mem_postorder {s root : τ} {cs : List (Tree τ)} :
    s ∈ (node root cs).postorder ↔ (∃ c ∈ cs, s ∈ c.postorder) ∨ s = root := by
  rw [postorder, List.mem_append, mem_postorderAll, List.mem_singleton]

section Labels

variable {σ α : Type}

theorem mem_variableLabelsAll {label : String} {cs : List (Tree (Symbol σ α))} :
    label ∈ variableLabelsAll cs ↔ ∃ c ∈ cs, label ∈ c.variableLabels := by
  induction cs with
  | nil => simp [variableLabelsAll]
  | cons c cs ih => simp [variableLabelsAll, ih]

theorem mem_variableLabels {label : String} {t : Tree (Symbol σ α)} :
    label ∈ t.variableLabels ↔ .variable label ∈ t.postorder := by
  induction t with
  | node s cs ih =>
    have inner : label ∈ variableLabelsAll cs ↔ ∃ c ∈ cs, .variable label ∈ c.postorder := by
      rw [mem_variableLabelsAll]
      exact exists_congr fun c => and_congr_right fun among => ih c among
    rw [mem_postorder, ← inner]
    cases s <;> simp [variableLabels]

end Labels

variable [Ranked τ]

/-- Every node has as many operands as its symbol takes. -/
inductive Full : Tree τ → Prop where
  | node {s : τ} {cs : List (Tree τ)} :
      Ranked.arity s = some cs.length → (∀ c ∈ cs, Full c) → Full (.node s cs)

theorem hasFreeSlot_iff {s : τ} {count taken : Nat} (arity : Ranked.arity s = some count) :
    hasFreeSlot s taken = true ↔ taken < count := by
  simp [hasFreeSlot, arity]

/- What an insertion does. The place of a new tree depends only on the tree that grows, and a new
tree comes before everything that is there already. -/

theorem isSome_insertFirst (x y t : Tree τ) :
    (insertFirst x t).isSome = (insertFirst y t).isSome := by
  induction t with
  | node s cs ih =>
    cases cs with
    | nil => by_cases free : hasFreeSlot s 0 = true <;> simp [insertFirst, free]
    | cons c cs =>
      have first := ih c List.mem_cons_self
      by_cases free : hasFreeSlot s (cs.length + 1) = true <;>
        cases hx : insertFirst x c <;> cases hy : insertFirst y c <;>
        simp_all [insertFirst]

theorem exists_insertFirst {x y t grown : Tree τ} (h : insertFirst x t = some grown) :
    ∃ other, insertFirst y t = some other := by
  apply Option.isSome_iff_exists.mp
  rw [isSome_insertFirst y x, h, Option.isSome_some]

theorem insertFirst_eq_none {x y t : Tree τ} (h : insertFirst x t = none) :
    insertFirst y t = none := by
  apply Option.isNone_iff_eq_none.mp
  rw [← Option.not_isSome, isSome_insertFirst y x, h]
  rfl

theorem postorder_insertFirst {x t grown : Tree τ} (h : insertFirst x t = some grown) :
    postorder grown = postorder x ++ postorder t := by
  induction t generalizing grown with
  | node s cs ih =>
    cases cs with
    | nil =>
      simp only [insertFirst] at h
      split at h
      · cases h
        simp [postorder, postorderAll]
      · cases h
    | cons c cs =>
      simp only [insertFirst] at h
      split at h
      · rename_i deeper found
        cases h
        simp [postorder, postorderAll, ih c List.mem_cons_self found]
      · split at h
        · cases h
          simp [postorder, postorderAll]
        · cases h

/-- Inserting into a tree that has just been inserted is inserting the grown one. -/
theorem insertFirst_insertFirst {x y t grown larger : Tree τ}
    (outer : insertFirst x t = some grown) (inner : insertFirst y x = some larger) :
    insertFirst y grown = insertFirst larger t := by
  induction t generalizing grown with
  | node s cs ih =>
    cases cs with
    | nil =>
      simp only [insertFirst] at outer
      split at outer
      · rename_i free
        cases outer
        simp [insertFirst, inner, free]
      · cases outer
    | cons c cs =>
      simp only [insertFirst] at outer
      split at outer
      · rename_i deeper found
        cases outer
        have same := ih c List.mem_cons_self found
        obtain ⟨next, there⟩ := exists_insertFirst (y := larger) found
        simp [insertFirst, same, there]
      · rename_i blocked
        split at outer
        · rename_i free
          cases outer
          simp [insertFirst, inner, free, insertFirst_eq_none (y := larger) blocked]
        · cases outer

theorem insertFirst_full {x t : Tree τ} (full : Full t) : insertFirst x t = none := by
  induction full with
  | @node s cs arity _ ih =>
    cases cs with
    | nil => simp [insertFirst, hasFreeSlot, arity]
    | cons c cs => simp [insertFirst, ih c List.mem_cons_self, hasFreeSlot, arity]

theorem insertFirst_child {s : τ} {count : Nat} {x : Tree τ} {cs : List (Tree τ)}
    (arity : Ranked.arity s = some count) (room : cs.length < count) (full : ∀ c ∈ cs, Full c) :
    insertFirst x (.node s cs) = some (.node s (x :: cs)) := by
  cases cs with
  | nil =>
    have free : hasFreeSlot s 0 = true := (hasFreeSlot_iff arity).mpr room
    simp [insertFirst, free]
  | cons c cs =>
    have free : hasFreeSlot s (cs.length + 1) = true := (hasFreeSlot_iff arity).mpr room
    simp [insertFirst, insertFirst_full (full c List.mem_cons_self), free]

theorem postorder_insertAll {t grown : Tree τ} {symbols : List τ}
    (h : insertAll t symbols = .ok grown) :
    postorder grown = symbols.reverse ++ postorder t := by
  induction symbols generalizing t with
  | nil =>
    cases h
    rfl
  | cons s rest ih =>
    simp only [insertAll] at h
    split at h
    · rename_i next found
      rw [ih h, postorder_insertFirst found]
      simp [postorder, postorderAll]
    · cases h

/-- What fills a tree fills it in the same way where it has been inserted. -/
theorem insertAll_inserted {x larger t grown : Tree τ} {symbols : List τ}
    (rest : List τ) (outer : insertFirst x t = some grown)
    (inner : insertAll x symbols = .ok larger) :
    ∃ next, insertFirst larger t = some next ∧
      insertAll grown (symbols ++ rest) = insertAll next rest := by
  induction symbols generalizing x grown with
  | nil =>
    cases inner
    exact ⟨grown, outer, rfl⟩
  | cons s symbols ih =>
    simp only [insertAll] at inner
    split at inner
    · rename_i middle found
      have same := insertFirst_insertFirst outer found
      obtain ⟨next, there⟩ := exists_insertFirst (y := middle) outer
      obtain ⟨last, atEnd, runs⟩ := ih there inner
      refine ⟨last, atEnd, ?_⟩
      simp only [List.cons_append, insertAll, same, there, runs]
    · cases inner

theorem insertAll_children {s : τ} {count : Nat} (arity : Ranked.arity s = some count)
    (before after : List (Tree τ)) (room : before.length + after.length ≤ count)
    (full : ∀ c ∈ before ++ after, Full c)
    (fills : ∀ r cs, Tree.node r cs ∈ before →
      insertAll (.node r []) (postorderAll cs).reverse = .ok (.node r cs)) :
    insertAll (.node s after) (postorderAll before).reverse = .ok (.node s (before ++ after)) := by
  induction before using List.reverseRecOn generalizing after with
  | nil => rfl
  | append_singleton before c ih =>
    obtain ⟨r, cs⟩ := c
    simp only [List.length_append, List.length_singleton] at room
    have fullAfter : ∀ c ∈ after, Full c := fun c member =>
      full c (List.mem_append_right _ member)
    have opened : insertFirst (.node r []) (.node s after) =
        some (.node s (.node r [] :: after)) := insertFirst_child arity (by omega) fullAfter
    have closed : insertFirst (.node r cs) (.node s after) =
        some (.node s (.node r cs :: after)) := insertFirst_child arity (by omega) fullAfter
    have filled := fills r cs (by simp)
    obtain ⟨next, there, runs⟩ := insertAll_inserted (postorderAll before).reverse opened filled
    have same : next = .node s (.node r cs :: after) := Option.some.inj (there.symm.trans closed)
    subst same
    have others := ih (.node r cs :: after) (by simp only [List.length_cons]; omega)
      (fun c member => full c (by simpa using member))
      (fun r' cs' member => fills r' cs' (List.mem_append_left _ member))
    simp only [List.append_assoc, List.singleton_append]
    rw [← others, ← runs]
    simp [postorderAll_append, postorderAll, postorder, insertAll, opened]

theorem insertAll_full {s : τ} {cs : List (Tree τ)} (full : Full (.node s cs)) :
    insertAll (.node s []) (postorderAll cs).reverse = .ok (.node s cs) := by
  generalize same : Tree.node s cs = t at full
  induction full generalizing s cs with
  | node arity full ih =>
    cases same
    have filled := insertAll_children arity _ [] (by simp) (by simpa using full)
      (fun r ds member => ih (.node r ds) member rfl)
    simpa using filled

/- The final check. -/

theorem checkAll_eq_ok_iff (limit : Option Nat) (depth : Nat) (cs : List (Tree τ))
    (ih : ∀ c ∈ cs, check limit depth c = .ok () ↔ Full c ∧ Within limit (depth + height c - 1))
    (allowed : Within limit (depth - 1)) :
    checkAll limit depth cs = .ok () ↔
      (∀ c ∈ cs, Full c) ∧ Within limit (depth + heightAll cs - 1) := by
  induction cs with
  | nil => simp [checkAll, heightAll, allowed]
  | cons c cs others =>
    have first := ih c List.mem_cons_self
    have rest := others fun d member => ih d (List.mem_cons_of_mem _ member)
    have split : Within limit (depth + heightAll (c :: cs) - 1) ↔
        Within limit (depth + height c - 1) ∧ Within limit (depth + heightAll cs - 1) := by
      simp only [heightAll, Within]
      constructor
      · intro h
        exact ⟨fun most given => by have := h most given; omega,
          fun most given => by have := h most given; omega⟩
      · intro h most given
        have := h.1 most given
        have := h.2 most given
        omega
    rw [split, List.forall_mem_cons]
    simp only [checkAll]
    cases run : checkAll limit depth cs with
    | ok _ =>
      have := rest.mp run
      simp only [first]
      tauto
    | error cause =>
      have : ¬ ((∀ c ∈ cs, Full c) ∧ Within limit (depth + heightAll cs - 1)) := by
        intro h
        cases run.symm.trans (rest.mpr h)
      simp only [reduceCtorEq, false_iff]
      tauto

theorem check_eq_ok_iff (limit : Option Nat) (depth : Nat) (positive : 0 < depth) (t : Tree τ) :
    check limit depth t = .ok () ↔ Full t ∧ Within limit (depth + height t - 1) := by
  induction t generalizing depth with
  | node s cs ih =>
    have full : Full (.node s cs) ↔ Ranked.arity s = some cs.length ∧ ∀ c ∈ cs, Full c :=
      ⟨fun h => by cases h; exact ⟨‹_›, ‹_›⟩, fun h => .node h.1 h.2⟩
    have deeper : depth + height (.node s cs) - 1 = depth + 1 + heightAll cs - 1 := by
      simp only [height]
      omega
    rw [full, deeper]
    by_cases allowed : Within limit depth
    · have below := checkAll_eq_ok_iff limit (depth + 1) cs
        (fun c member => ih c member (depth + 1) (Nat.succ_pos _)) (by simpa using allowed)
      have unfolded : check limit depth (.node s cs) =
          if Ranked.arity s = some cs.length then checkAll limit (depth + 1) cs
          else .error .malformedTree := by
        cases limit with
        | none => simp [check]
        | some most => simp [check, Nat.not_lt.mpr ((within_some most depth).mp allowed)]
      rw [unfolded]
      split
      · rw [below]
        tauto
      · simp only [reduceCtorEq, false_iff]
        tauto
    · cases limit with
      | none => exact absurd (within_none depth) allowed
      | some most =>
        rw [within_some] at allowed
        simp only [check, if_pos (Nat.lt_of_not_le allowed), reduceCtorEq, within_some, false_iff]
        omega

/-- The postfix lists that give a tree are the postorder listings of full trees of an allowed
height, and they give the tree that they list. -/
theorem assemble_eq_ok_iff {limit : Option Nat} {symbols : List τ} {t : Tree τ} :
    assemble limit symbols = .ok t ↔
      postorder t = symbols ∧ Full t ∧ Within limit (height t) := by
  have height_eq : 1 + height t - 1 = height t := by omega
  constructor
  · intro h
    simp only [assemble] at h
    split at h
    · cases h
    · rename_i root rest listed
      cases grown : insertAll (.node root []) rest with
      | error cause =>
        rw [grown] at h
        cases h
      | ok tree =>
        rw [grown] at h
        change (check limit 1 tree >>= fun _ => pure tree) = .ok t at h
        cases checked : check limit 1 tree with
        | error cause =>
          rw [checked] at h
          cases h
        | ok _ =>
          rw [checked] at h
          cases h
          have sound := (check_eq_ok_iff limit 1 Nat.one_pos t).mp checked
          rw [height_eq] at sound
          refine ⟨?_, sound⟩
          rw [postorder_insertAll grown, ← List.reverse_reverse symbols, listed]
          simp [postorder, postorderAll]
  · rintro ⟨rfl, full, allowed⟩
    obtain ⟨s, cs⟩ := t
    have listed : (postorder (.node s cs)).reverse = s :: (postorderAll cs).reverse := by
      simp [postorder]
    have checked := (check_eq_ok_iff limit 1 Nat.one_pos (.node s cs)).mpr
      ⟨full, by rwa [height_eq]⟩
    simp only [assemble, listed, insertAll_full full]
    change (check limit 1 (.node s cs) >>= fun _ => pure _) = _
    rw [checked]
    rfl

theorem Full.postorder_inj {t other : Tree τ} (full : t.Full) (otherFull : other.Full)
    (same : postorder t = postorder other) : t = other := by
  have first := assemble_eq_ok_iff.mpr ⟨rfl, full, within_none (height t)⟩
  have second := assemble_eq_ok_iff.mpr ⟨same.symm, otherFull, within_none (height other)⟩
  exact Except.ok.inj (first.symm.trans second)

/- What can go wrong. -/

theorem insertAll_error {t : Tree τ} {symbols : List τ} {cause : Failure}
    (h : insertAll t symbols = .error cause) : cause = .malformedTree := by
  induction symbols generalizing t with
  | nil => cases h
  | cons s rest ih =>
    simp only [insertAll] at h
    split at h
    · exact ih h
    · cases h
      rfl

theorem checkAll_error {limit : Option Nat} {depth : Nat} {cs : List (Tree τ)} {cause : Failure}
    (h : checkAll limit depth cs = .error cause) :
    ∃ c ∈ cs, check limit depth c = .error cause := by
  induction cs with
  | nil => cases h
  | cons c cs ih =>
    simp only [checkAll] at h
    split at h
    · exact ⟨c, List.mem_cons_self, h⟩
    · rename_i inner found
      cases h
      obtain ⟨d, member, failed⟩ := ih found
      exact ⟨d, List.mem_cons_of_mem _ member, failed⟩

theorem check_error {limit : Option Nat} {depth : Nat} {t : Tree τ} {cause : Failure}
    (h : check limit depth t = .error cause) :
    cause = .malformedTree ∨ ∃ most, limit = some most ∧ cause = .tooDeep most := by
  induction t generalizing depth with
  | node s cs ih =>
    have below (failed : checkAll limit (depth + 1) cs = .error cause) :
        cause = .malformedTree ∨ ∃ most, limit = some most ∧ cause = .tooDeep most := by
      obtain ⟨c, member, inner⟩ := checkAll_error failed
      exact ih c member inner
    cases limit with
    | none =>
      simp only [check] at h
      split at h
      · exact below h
      · cases h
        exact .inl rfl
    | some most =>
      simp only [check] at h
      split at h
      · cases h
        exact .inr ⟨most, rfl, rfl⟩
      · split at h
        · exact below h
        · cases h
          exact .inl rfl

/-- A postfix list is refused for its form or for the height of its tree. -/
theorem assemble_error {limit : Option Nat} {symbols : List τ} {cause : Failure}
    (h : assemble limit symbols = .error cause) :
    cause = .malformedTree ∨ ∃ most, limit = some most ∧ cause = .tooDeep most := by
  simp only [assemble] at h
  split at h
  · cases h
    exact .inl rfl
  · rename_i root rest listed
    rcases bind_eq_error_iff.mp h with failed | ⟨tree, _, failed⟩
    · exact .inl (insertAll_error failed)
    · rcases bind_eq_error_iff.mp failed with failed | ⟨_, _, never⟩
      · exact check_error failed
      · cases never

theorem stage_of_assemble_error {limit : Option Nat} {symbols : List τ}
    {cause : Failure} (h : assemble limit symbols = .error cause) :
    cause.stage = .assembly ∨ cause.stage = .parsing := by
  rcases assemble_error h with rfl | ⟨most, _, rfl⟩
  · exact .inl rfl
  · exact .inr rfl

end Tree
end InfixCalc
