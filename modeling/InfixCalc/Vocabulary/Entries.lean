/-!
# Labelled entries

Values under distinct labels, in the order in which the labels first came. A value put under a
label that is there already takes the place of the old one.
-/

namespace InfixCalc

structure Entries (α : Type) where
  toList : List (String × α)

namespace Entries

variable {α : Type}

def empty : Entries α := ⟨[]⟩

def get? (entries : Entries α) (label : String) : Option α := entries.toList.lookup label

def contains (entries : Entries α) (label : String) : Bool := (entries.get? label).isSome

def labels (entries : Entries α) : List String := entries.toList.map (·.1)

def values (entries : Entries α) : List α := entries.toList.map (·.2)

def insertList (label : String) (value : α) : List (String × α) → List (String × α)
  | [] => [(label, value)]
  | (l, v) :: rest => if label == l then (label, value) :: rest
    else (l, v) :: insertList label value rest

def insert (entries : Entries α) (label : String) (value : α) : Entries α :=
  ⟨insertList label value entries.toList⟩

def erase (entries : Entries α) (label : String) : Entries α :=
  ⟨entries.toList.filter fun entry => !(label == entry.1)⟩

theorem lookup_insertList (label other : String) (value : α) (items : List (String × α)) :
    (insertList label value items).lookup other =
      if other = label then some value else items.lookup other := by
  induction items with
  | nil =>
    by_cases same : other = label
    · simp [insertList, same]
    · simp [insertList, List.lookup_cons, same, beq_eq_false_iff_ne.mpr same]
  | cons item rest ih =>
    obtain ⟨l, v⟩ := item
    by_cases here : label = l
    · subst here
      by_cases same : other = label
      · simp [insertList, same]
      · simp [insertList, List.lookup_cons, same, beq_eq_false_iff_ne.mpr same]
    · by_cases same : other = l
      · subst same
        simp [insertList, beq_eq_false_iff_ne.mpr here, Ne.symm here]
      · simp [insertList, List.lookup_cons, beq_eq_false_iff_ne.mpr here,
          beq_eq_false_iff_ne.mpr same, ih]

@[simp] theorem get?_insert (entries : Entries α) (label other : String) (value : α) :
    (entries.insert label value).get? other =
      if other = label then some value else entries.get? other :=
  lookup_insertList label other value entries.toList

@[simp] theorem get?_erase (entries : Entries α) (label other : String) :
    (entries.erase label).get? other =
      if other = label then none else entries.get? other := by
  obtain ⟨items⟩ := entries
  simp only [get?, erase]
  induction items with
  | nil => simp [List.lookup_nil]
  | cons item rest ih =>
    obtain ⟨l, v⟩ := item
    by_cases here : label = l
    · subst here
      by_cases same : other = label
      · simp_all [List.filter]
      · simp_all [List.filter, List.lookup_cons, beq_eq_false_iff_ne.mpr same]
    · by_cases same : other = l
      · subst same
        simp [List.filter, beq_eq_false_iff_ne.mpr here, Ne.symm here]
      · simp_all [List.filter, List.lookup_cons, beq_eq_false_iff_ne.mpr here,
          beq_eq_false_iff_ne.mpr same]

@[simp] theorem get?_empty (label : String) : (empty : Entries α).get? label = none := rfl

end Entries
end InfixCalc
