import InfixCalc.Builder
import InfixCalc.Proofs.Vocabulary.Edit

/-!
# Objects on a heap

The objects that builders are made of, each at an address: a builder refers to a dictionary, a cache
and a tokenizer, a dictionary to six maps, a tokenizer to the dictionary that it scans with, a cache
to the expressions that it holds. Builders, dictionaries, maps and caches change in place, while
tokenizers and expressions never do.
-/

namespace InfixCalc.Sharing

variable {σ α β γ : Type}

abbrev Address := Nat

/-- Where the maps of a dictionary are. -/
structure Maps where
  before : Address
  after : Address
  between : Address
  functions : Address
  branches : Address
  constants : Address

def Maps.all (maps : Maps) : List Address :=
  [maps.before, maps.after, maps.between, maps.functions, maps.branches, maps.constants]

/-- The fields of a builder. The tokenizer is kept with the version that it was made for. -/
structure Fields (α : Type) where
  config : Config α
  dictionary : Address
  cache : Option Address
  cacheVersion : Nat
  tokenizer : Option (Nat × Address)

/-- An object. -/
inductive Cell (σ α : Type) where
  | operators (entries : Entries (Operator σ α))
  | functions (entries : Entries (Function σ α))
  | branches (entries : Entries (Branch σ α))
  | constants (entries : Entries α)
  | dictionary (maps : Maps) (version : Nat)
  | cache (cache : Cache Address)
  | builder (fields : Fields α)
  | tokenizer (dictionary : Address) (config : Config α) (labels : List (List Char))
  | expression (e : Expression σ α)

/-- Tokenizers and expressions stay as they are made. -/
def Cell.IsFixed : Cell σ α → Prop
  | .tokenizer _ _ _ | .expression _ => True
  | _ => False

/-- The objects in the order in which they were made; an address is a place in it. -/
abbrev Heap (σ α : Type) := List (Cell σ α)

/-- Work on a heap. It gets stuck where it does not find the kind of object that it follows an
address to. -/
abbrev Work (σ α β : Type) := StateT (Heap σ α) Option β

def read (address : Address) : Work σ α (Cell σ α) := fun heap =>
  heap[address]?.map fun cell => (cell, heap)

def write (address : Address) (cell : Cell σ α) : Work σ α Unit := fun heap =>
  some ((), heap.set address cell)

def writeAll : List (Address × Cell σ α) → Work σ α Unit
  | [] => pure ()
  | (address, cell) :: others => do
    write address cell
    writeAll others

def allocate (cell : Cell σ α) : Work σ α Address := fun heap =>
  some (heap.length, heap ++ [cell])

/- Dictionaries. -/

/-- The vocabulary that a dictionary and its maps hold. -/
def vocabulary (address : Address) : Work σ α (Vocabulary σ α) := do
  let .dictionary maps version ← read address | failure
  let .operators before ← read maps.before | failure
  let .operators after ← read maps.after | failure
  let .operators between ← read maps.between | failure
  let .functions functions ← read maps.functions | failure
  let .branches branches ← read maps.branches | failure
  let .constants constants ← read maps.constants | failure
  return ⟨before, after, between, functions, branches, constants, version⟩

/-- The objects of a dictionary that holds a vocabulary, at their addresses. -/
def dictionaryCells (address : Address) (maps : Maps) (v : Vocabulary σ α) :
    List (Address × Cell σ α) :=
  [(address, .dictionary maps v.version), (maps.before, .operators v.before),
    (maps.after, .operators v.after), (maps.between, .operators v.between),
    (maps.functions, .functions v.functions), (maps.branches, .branches v.branches),
    (maps.constants, .constants v.constants)]

/-- A new dictionary with maps of its own. -/
def newDictionary (v : Vocabulary σ α) : Work σ α Address := do
  let before ← allocate (.operators v.before)
  let after ← allocate (.operators v.after)
  let between ← allocate (.operators v.between)
  let functions ← allocate (.functions v.functions)
  let branches ← allocate (.branches v.branches)
  let constants ← allocate (.constants v.constants)
  allocate (.dictionary ⟨before, after, between, functions, branches, constants⟩ v.version)

/-- A call that changes a vocabulary, made to a dictionary: its maps and its version are changed
where they are. -/
def editDictionary (address : Address) (edit : Vocabulary.Edit σ α) :
    Work σ α (Except Failure (Vocabulary.Answer σ α)) := do
  let .dictionary maps _ ← read address | failure
  let v ← vocabulary address
  let (answer, w) := edit.perform.run v
  writeAll (dictionaryCells address maps w)
  return answer

/- What is on a heap, and how heaps follow each other. -/

/-- These objects are on the heap. -/
def Stores (heap : Heap σ α) (cells : List (Address × Cell σ α)) : Prop :=
  ∀ entry ∈ cells, heap[entry.1]? = some entry.2

/-- The later heap still has all objects of the earlier one. They have changed only at the given
addresses, and fixed ones not at all. -/
def Follows (own : List Address) (earlier later : Heap σ α) : Prop :=
  ∀ address cell, earlier[address]? = some cell → address ∉ own ∨ cell.IsFixed →
    later[address]? = some cell

variable {own : List Address} {heap earlier later : Heap σ α}

theorem Follows.refl (own : List Address) (heap : Heap σ α) : Follows own heap heap :=
  fun _ _ found _ => found

theorem Follows.trans {last : Heap σ α} (first : Follows own earlier later)
    (second : Follows own later last) : Follows own earlier last :=
  fun address cell found kept => second address cell (first address cell found kept) kept

theorem Follows.mono {more : List Address} (follows : Follows own earlier later)
    (inside : own ⊆ more) : Follows more earlier later :=
  fun address cell found kept =>
    follows address cell found (kept.imp_left fun outside member => outside (inside member))

theorem follows_append (own : List Address) (heap more : Heap σ α) :
    Follows own heap (heap ++ more) := by
  intro address cell found _
  rw [List.getElem?_append_left (List.getElem?_eq_some_iff.mp found).1]
  exact found

theorem follows_set {address : Address} {old : Cell σ α} (found : heap[address]? = some old)
    (changes : ¬ old.IsFixed) (cell : Cell σ α) :
    Follows [address] heap (heap.set address cell) := by
  intro other kept there stays
  rw [List.getElem?_set_ne]
  · exact there
  · rintro rfl
    cases found.symm.trans there
    rcases stays with outside | fixed
    · exact outside List.mem_cons_self
    · exact changes fixed

theorem Stores.follows {cells : List (Address × Cell σ α)} (stores : Stores earlier cells)
    (follows : Follows own earlier later) (apart : ∀ entry ∈ cells, entry.1 ∉ own) :
    Stores later cells :=
  fun entry member => follows _ _ (stores entry member) (.inl (apart entry member))

theorem lt_length_of_stores {address : Address} {maps : Maps} {v : Vocabulary σ α}
    (stores : Stores heap (dictionaryCells address maps v)) {place : Address}
    (member : place ∈ address :: maps.all) : place < heap.length := by
  obtain ⟨entry, inside, rfl⟩ := List.mem_map.mp
    (show place ∈ (dictionaryCells address maps v).map Prod.fst from member)
  exact (List.getElem?_eq_some_iff.mp (stores entry inside)).1

/- Running work. -/

theorem run_bind (first : Work σ α β) (next : β → Work σ α γ) :
    (first >>= next).run heap =
      (first.run heap).bind fun reached => (next reached.1).run reached.2 := rfl

theorem run_read {address : Address} {cell : Cell σ α} (found : heap[address]? = some cell) :
    (read address).run heap = some (cell, heap) := by
  rw [StateT.run, read, found]
  rfl

theorem run_write (address : Address) (cell : Cell σ α) :
    (write address cell).run heap = some ((), heap.set address cell) := rfl

theorem run_allocate (cell : Cell σ α) :
    (allocate cell).run heap = some (heap.length, heap ++ [cell]) := rfl

theorem run_vocabulary {address : Address} {maps : Maps} {v : Vocabulary σ α}
    (stores : Stores heap (dictionaryCells address maps v)) :
    (vocabulary address).run heap = some (v, heap) := by
  simp only [Stores, dictionaryCells, List.forall_mem_cons] at stores
  obtain ⟨dictionary, before, after, between, functions, branches, constants, -⟩ := stores
  unfold vocabulary
  simp only [run_bind, run_read dictionary, run_read before, run_read after, run_read between,
    run_read functions, run_read branches, run_read constants, Option.bind_some]
  rfl

theorem run_writeAll {cells : List (Address × Cell σ α)}
    (there : ∀ entry ∈ cells, ∃ old, heap[entry.1]? = some old ∧ ¬ old.IsFixed)
    (distinct : (cells.map Prod.fst).Nodup) :
    ∃ later, (writeAll cells).run heap = some ((), later) ∧ Stores later cells ∧
      Follows (cells.map Prod.fst) heap later := by
  induction cells generalizing heap with
  | nil => exact ⟨heap, rfl, List.forall_mem_nil _, .refl _ _⟩
  | cons entry others ih =>
    obtain ⟨address, cell⟩ := entry
    obtain ⟨outside, distinct⟩ := List.nodup_cons.mp distinct
    obtain ⟨⟨old, found, changes⟩, there⟩ := List.forall_mem_cons.mp there
    have apart (entry : Address × Cell σ α) (member : entry ∈ others) : address ≠ entry.1 := by
      rintro rfl
      exact outside (List.mem_map.mpr ⟨entry, member, rfl⟩)
    have written : (heap.set address cell)[address]? = some cell :=
      List.getElem?_set_self (List.getElem?_eq_some_iff.mp found).1
    have thereStill (entry : Address × Cell σ α) (member : entry ∈ others) :
        ∃ old, (heap.set address cell)[entry.1]? = some old ∧ ¬ old.IsFixed := by
      rw [List.getElem?_set_ne (apart entry member)]
      exact there entry member
    obtain ⟨later, ran, stores, follows⟩ := ih thereStill distinct
    refine ⟨later, ran, ?_, ?_⟩
    · exact List.forall_mem_cons.mpr ⟨follows _ _ written (.inl outside), stores⟩
    · refine ((follows_set found changes cell).mono ?_).trans (follows.mono ?_)
      · exact List.cons_subset.mpr ⟨List.mem_cons_self, List.nil_subset _⟩
      · exact List.subset_cons_self _ _

theorem run_newDictionary (v : Vocabulary σ α) (heap : Heap σ α) :
    ∃ address maps later, (newDictionary v).run heap = some (address, later) ∧
      Stores later (dictionaryCells address maps v) ∧ (address :: maps.all).Nodup ∧
      (∀ place ∈ address :: maps.all, heap.length ≤ place) ∧ Follows [] heap later := by
  generalize size : heap.length = n
  have ran : (newDictionary v).run heap = some (n + 6, heap ++
      [.operators v.before, .operators v.after, .operators v.between, .functions v.functions,
        .branches v.branches, .constants v.constants,
        .dictionary ⟨n, n + 1, n + 2, n + 3, n + 4, n + 5⟩ v.version]) := by
    unfold newDictionary
    simp only [run_bind, run_allocate, Option.bind_some, List.length_append, List.length_cons,
      List.length_nil, List.append_assoc, List.cons_append, List.nil_append, size]
  refine ⟨n + 6, ⟨n, n + 1, n + 2, n + 3, n + 4, n + 5⟩, _, ran, ?_, ?_, ?_, follows_append _ _ _⟩
  · simp [Stores, dictionaryCells, ← size]
  · simp [Maps.all]
  · simp [Maps.all]

/-- An edit of a dictionary changes its objects, and what it holds becomes what the edit makes of
it. -/
theorem run_editDictionary {address : Address} {maps : Maps} {v : Vocabulary σ α}
    (stores : Stores heap (dictionaryCells address maps v)) (distinct : (address :: maps.all).Nodup)
    (edit : Vocabulary.Edit σ α) :
    ∃ later, (editDictionary address edit).run heap = some ((edit.perform.run v).1, later) ∧
      Stores later (dictionaryCells address maps (edit.perform.run v).2) ∧
      Follows (address :: maps.all) heap later := by
  generalize performed : edit.perform.run v = result
  obtain ⟨answer, w⟩ := result
  have there : ∀ entry ∈ dictionaryCells address maps w,
      ∃ old, heap[entry.1]? = some old ∧ ¬ old.IsFixed := by
    simp only [Stores, dictionaryCells, List.forall_mem_cons] at stores ⊢
    obtain ⟨dictionary, before, after, between, functions, branches, constants, -⟩ := stores
    exact ⟨⟨_, dictionary, id⟩, ⟨_, before, id⟩, ⟨_, after, id⟩, ⟨_, between, id⟩,
      ⟨_, functions, id⟩, ⟨_, branches, id⟩, ⟨_, constants, id⟩, List.forall_mem_nil _⟩
  obtain ⟨later, wrote, stored, follows⟩ := run_writeAll there distinct
  refine ⟨later, ?_, stored, follows⟩
  unfold editDictionary
  rw [run_bind, run_read (stores _ List.mem_cons_self), Option.bind_some]
  simp only [run_bind, run_vocabulary stores, performed, wrote, Option.bind_some]
  rfl

end InfixCalc.Sharing
