/-!
# Finite maps from text, listed in order

Entries are kept in the order of their keys, each key once. Putting an entry
under a key that is taken replaces the value.
-/

set_option autoImplicit false

namespace Reclass

/-- A finite map whose keys are texts. -/
structure SortedMap (α : Type) where
  /-- In the order of the keys. -/
  entries : List (String × α)
  deriving DecidableEq, Repr

namespace SortedMap

variable {α : Type}

def empty : SortedMap α := ⟨[]⟩

def size (m : SortedMap α) : Nat := m.entries.length

def keys (m : SortedMap α) : List String := m.entries.map Prod.fst

def get? (m : SortedMap α) (key : String) : Option α := m.entries.lookup key

def contains (m : SortedMap α) (key : String) : Bool := (m.get? key).isSome

/-- An ordered list with an entry put in its place. -/
def insertInto (key : String) (value : α) : List (String × α) → List (String × α)
  | [] => [(key, value)]
  | e :: es =>
    if key = e.1 then (key, value) :: es
    else if key < e.1 then (key, value) :: e :: es
    else e :: insertInto key value es

/-- The map with `value` under `key`. -/
def insert (m : SortedMap α) (key : String) (value : α) : SortedMap α :=
  ⟨insertInto key value m.entries⟩

/-- The map of a list of entries, where a later entry wins. -/
def ofList (es : List (String × α)) : SortedMap α :=
  es.foldl (fun m e => m.insert e.1 e.2) empty

theorem lookup_insertInto (key : String) (value : α) (es : List (String × α)) (k : String) :
    (insertInto key value es).lookup k = if k = key then some value else es.lookup k := by
  induction es with
  | nil =>
    by_cases h : k = key
    · simp [insertInto, h]
    · simp [insertInto, h, List.lookup_cons, beq_eq_false_iff_ne.2 h]
  | cons e es ih =>
    obtain ⟨e1, e2⟩ := e
    unfold insertInto
    by_cases h : key = e1
    · subst h
      by_cases hk : k = key
      · simp [hk]
      · simp [hk, List.lookup_cons, beq_eq_false_iff_ne.2 hk]
    · simp only [h, if_false]
      split
      · by_cases hk : k = key
        · simp [hk]
        · simp [hk, List.lookup_cons, beq_eq_false_iff_ne.2 hk]
      · by_cases he : k = e1
        · have hk : k ≠ key := fun hh => h (hh.symm.trans he)
          subst he
          simp [hk]
        · simp only [List.lookup_cons, beq_eq_false_iff_ne.2 he]
          rw [ih]

/-- The value put under a key is found there, and every other key is as before. -/
theorem get?_insert (m : SortedMap α) (key : String) (value : α) (k : String) :
    (m.insert key value).get? k = if k = key then some value else m.get? k :=
  lookup_insertInto key value m.entries k

end SortedMap

end Reclass
