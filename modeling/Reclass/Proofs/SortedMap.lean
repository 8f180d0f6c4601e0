import Mathlib.Data.List.Sort
import Mathlib.Data.String.Basic
import Reclass.SortedMap

/-!
# Maps that are listed in order

Entries stay in the order of their keys (`SortedMap.Ascending.insertInto`), so a map is determined
by the entries it has: lists of the same entries make the same map, in whatever order they come and
however often (`SortedMap.ofList_eq_ofList`). It is determined by what is found in it, too
(`SortedMap.eq_of_get?`). Of several entries with one key the last one is found
(`SortedMap.get?_ofList`), so one list behind another makes the map of the first, overridden by that
of the second (`SortedMap.ofList_append`).
-/

set_option autoImplicit false

namespace Reclass.SortedMap

variable {α : Type} {es es' : List (String × α)} {e : String × α} {key : String} {value : α}

/-- Each key comes before the next. -/
def Ascending (es : List (String × α)) : Prop := es.Pairwise fun a b => a.1 < b.1

/-- No key has two values. -/
def Functional (es : List (String × α)) : Prop := ∀ e ∈ es, ∀ e' ∈ es, e.1 = e'.1 → e = e'

theorem mem_of_mem_insertInto (h : e ∈ insertInto key value es) : e = (key, value) ∨ e ∈ es := by
  induction es with
  | nil => exact Or.inl (List.mem_singleton.1 h)
  | cons first es ih =>
    rw [insertInto] at h
    split at h
    · rcases List.mem_cons.1 h with h | h
      · exact Or.inl h
      · exact Or.inr (List.mem_cons_of_mem first h)
    · split at h
      · exact List.mem_cons.1 h
      · rcases List.mem_cons.1 h with rfl | h
        · exact Or.inr List.mem_cons_self
        · exact (ih h).imp_right (List.mem_cons_of_mem first)

theorem Ascending.insertInto (h : Ascending es) (key : String) (value : α) :
    Ascending (insertInto key value es) := by
  induction es with
  | nil => exact List.pairwise_singleton _ _
  | cons first es ih =>
    obtain ⟨hfirst, hes⟩ := List.pairwise_cons.1 h
    rw [SortedMap.insertInto]
    split
    · rename_i hkey
      refine List.pairwise_cons.2 ⟨?_, hes⟩
      rw [hkey]
      exact hfirst
    · rename_i hne
      split
      · rename_i hlt
        refine List.pairwise_cons.2 ⟨?_, h⟩
        intro e he
        rcases List.mem_cons.1 he with rfl | he
        · exact hlt
        · exact lt_trans hlt (hfirst e he)
      · rename_i hnlt
        -- the new entry comes behind the first one, as all others do
        refine List.pairwise_cons.2 ⟨?_, ih hes⟩
        intro e he
        rcases mem_of_mem_insertInto he with rfl | he
        · exact lt_of_le_of_ne (not_lt.1 hnlt) (Ne.symm hne)
        · exact hfirst e he

/-- The entries after an insertion, when a key that is taken has the same value already. -/
theorem mem_insertInto_iff (h : ∀ e ∈ es, e.1 = key → e = (key, value)) :
    e ∈ insertInto key value es ↔ e = (key, value) ∨ e ∈ es := by
  refine ⟨mem_of_mem_insertInto, fun he => ?_⟩
  induction es with
  | nil => simpa [insertInto] using he
  | cons first es ih =>
    rw [List.forall_mem_cons] at h
    have hrest := ih h.2
    rw [insertInto]
    split
    · rename_i hkey
      have hsame := h.1 hkey.symm
      rcases he with rfl | he
      · exact List.mem_cons_self
      · rwa [hsame] at he
    · split
      · exact List.mem_cons.2 he
      · rcases he with he | he
        · exact List.mem_cons_of_mem first (hrest (Or.inl he))
        · rcases List.mem_cons.1 he with rfl | he
          · exact List.mem_cons_self
          · exact List.mem_cons_of_mem first (hrest (Or.inr he))

/-- In ascending order an entry is the one that is found under its key. -/
theorem Ascending.lookup_eq_some_iff (h : Ascending es) : es.lookup e.1 = some e.2 ↔ e ∈ es := by
  induction es with
  | nil => simp
  | cons first es ih =>
    obtain ⟨hfirst, hes⟩ := List.pairwise_cons.1 h
    obtain ⟨key, value⟩ := first
    by_cases hkey : e.1 = key
    · -- no other entry has the key of the first
      have hnot : e ∉ es := by
        intro he
        have hlt := hfirst e he
        rw [hkey] at hlt
        exact lt_irrefl _ hlt
      simp [hkey, hnot, Prod.ext_iff, eq_comm]
    · have hne : e ≠ (key, value) := fun he => hkey (congrArg Prod.fst he)
      simp [List.lookup_cons, beq_eq_false_iff_ne.2 hkey, hne, ih hes]

theorem Ascending.functional (h : Ascending es) : Functional es := by
  intro e he e' he' hkey
  rw [← h.lookup_eq_some_iff] at he he'
  rw [hkey, he', Option.some.injEq] at he
  exact Prod.ext hkey he.symm

theorem ascending_foldl_insert (m : SortedMap α) (hm : Ascending m.entries)
    (es : List (String × α)) :
    Ascending (es.foldl (fun m e => m.insert e.1 e.2) m).entries := by
  induction es generalizing m with
  | nil => exact hm
  | cons e es ih => exact ih (m.insert e.1 e.2) (hm.insertInto e.1 e.2)

theorem ascending_ofList (es : List (String × α)) : Ascending (ofList es).entries :=
  ascending_foldl_insert empty List.Pairwise.nil es

/-- Entries are put into a map one after the other. -/
theorem mem_foldl_insert_iff (m : SortedMap α) (hes : Functional (m.entries ++ es)) :
    ∀ e, e ∈ (es.foldl (fun m e => m.insert e.1 e.2) m).entries ↔ e ∈ m.entries ∨ e ∈ es := by
  induction es generalizing m with
  | nil => simp
  | cons first es ih =>
    have hfirst : ∀ e, e ∈ (m.insert first.1 first.2).entries ↔ e = first ∨ e ∈ m.entries := by
      intro e
      apply mem_insertInto_iff
      intro e he hkey
      exact hes e (List.mem_append_left _ he) first (by simp) hkey
    have hes' : Functional ((m.insert first.1 first.2).entries ++ es) := by
      have hsub : ∀ e, e ∈ (m.insert first.1 first.2).entries ++ es →
          e ∈ m.entries ++ first :: es := by
        intro e he
        simp only [List.mem_append, List.mem_cons, hfirst] at he ⊢
        tauto
      exact fun e he e' he' => hes e (hsub e he) e' (hsub e' he')
    intro e
    rw [List.foldl_cons, ih (m.insert first.1 first.2) hes', hfirst, List.mem_cons]
    tauto

/-- The map of a list has the entries of the list, in order. -/
theorem entries_ofList (hes : Functional es) :
    Ascending (ofList es).entries ∧ ∀ e, e ∈ (ofList es).entries ↔ e ∈ es := by
  refine ⟨ascending_ofList es, fun e => (mem_foldl_insert_iff empty hes e).trans ?_⟩
  simp [empty]

instance : Std.Irrefl fun a b : String × α => a.1 < b.1 := ⟨fun a => lt_irrefl a.1⟩

instance : Std.Antisymm fun a b : String × α => a.1 < b.1 :=
  ⟨fun _ _ hlt hgt => absurd hgt (lt_asymm hlt)⟩

/-- **A map is determined by its entries.** -/
theorem ofList_eq_ofList (hes : Functional es) (h : ∀ e, e ∈ es ↔ e ∈ es') :
    ofList es = ofList es' := by
  have hes' : Functional es' := fun e he e' he' => hes e ((h e).2 he) e' ((h e').2 he')
  obtain ⟨hascending, hmem⟩ := entries_ofList hes
  obtain ⟨hascending', hmem'⟩ := entries_ofList hes'
  have hentries : (ofList es).entries = (ofList es').entries := by
    apply List.Pairwise.eq_of_mem_iff hascending hascending'
    intro e
    rw [hmem, hmem', h]
  exact congrArg SortedMap.mk hentries

/-- An ordered map is the map of its own entries. -/
theorem ofList_entries {m : SortedMap α} (hm : Ascending m.entries) : ofList m.entries = m := by
  obtain ⟨hascending, hmem⟩ := entries_ofList hm.functional
  exact congrArg SortedMap.mk (List.Pairwise.eq_of_mem_iff hascending hm hmem)

/-! ### What is found in a map -/

/-- Maps in which the same is found are the same. -/
theorem eq_of_get? {m m' : SortedMap α} (hm : Ascending m.entries) (hm' : Ascending m'.entries)
    (h : ∀ key, m.get? key = m'.get? key) : m = m' := by
  have hentries : m.entries = m'.entries := by
    apply List.Pairwise.eq_of_mem_iff hm hm'
    intro e
    rw [← hm.lookup_eq_some_iff, ← hm'.lookup_eq_some_iff]
    exact Eq.congr (h e.1) rfl
  exact congrArg SortedMap.mk hentries

/-- Of the entries that are put in, the last one with a key is found, and without one what was there
before. -/
theorem get?_foldl_insert (m : SortedMap α) (es : List (String × α)) (key : String) :
    (es.foldl (fun m e => m.insert e.1 e.2) m).get? key =
      (es.reverse.lookup key).or (m.get? key) := by
  induction es generalizing m with
  | nil => rfl
  | cons e es ih =>
    obtain ⟨key', value⟩ := e
    rw [List.foldl_cons, ih, get?_insert, List.reverse_cons, List.lookup_append, Option.or_assoc]
    by_cases hkey : key = key'
    · simp [hkey]
    · simp [hkey, List.lookup_cons, beq_eq_false_iff_ne.2 hkey]

theorem get?_ofList (es : List (String × α)) (key : String) :
    (ofList es).get? key = es.reverse.lookup key := by
  have h := get?_foldl_insert empty es key
  rwa [show empty.get? key = (none : Option α) from rfl, Option.or_none] at h

/-- The map in which the entries of `m'` take the place of those of `m` with the same keys. -/
def override (m m' : SortedMap α) : SortedMap α := ofList (m.entries ++ m'.entries)

theorem ascending_override (m m' : SortedMap α) : Ascending (m.override m').entries :=
  ascending_ofList _

theorem get?_override {m m' : SortedMap α} (hm : Ascending m.entries) (hm' : Ascending m'.entries)
    (key : String) : (m.override m').get? key = (m'.get? key).or (m.get? key) := by
  -- each of the two maps has at most one entry with the key, so turning it round finds the same
  have hturn : ∀ {m : SortedMap α}, Ascending m.entries →
      m.entries.reverse.lookup key = m.get? key := by
    intro m hm
    rw [← get?_ofList, ofList_entries hm]
  rw [override, get?_ofList, List.reverse_append, List.lookup_append, hturn hm, hturn hm']

/-- **One list behind another** makes the map of the first, overridden by the map of the second. -/
theorem ofList_append (es es' : List (String × α)) :
    ofList (es ++ es') = (ofList es).override (ofList es') := by
  refine eq_of_get? (ascending_ofList _) (ascending_override _ _) fun key => ?_
  rw [get?_override (ascending_ofList es) (ascending_ofList es')]
  simp only [get?_ofList, List.reverse_append, List.lookup_append]

end Reclass.SortedMap
