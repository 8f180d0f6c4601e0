import Mathlib.Tactic.Common
import Reclass.ClassPath.Universe
import Reclass.Proofs.Act

/-!
# What loading and redefining do to a universe

A class keeps its place, its name and its loader. Loading adds a class at the end; a redefinition
that is accepted replaces the bytes of the classes it names and no others.
-/

set_option autoImplicit false

namespace Reclass

/-- No class is without a header. -/
theorem ClassHeader.parse_nil (header : ClassHeader) : ClassHeader.parse [] ≠ .ok header := by
  intro h
  obtain ⟨p, hp, -⟩ := (except_bind_eq_ok_iff _ _ _).1 h
  cases hp

namespace Universe

variable {u u' : Universe} {d : ClassDefinition} {ds : List ClassDefinition} {i : Nat}

/-- Every class has its position as its identity. -/
def Numbered (u : Universe) : Prop :=
  ∀ (i : Nat) (c : Defined), u.classes[i]? = some c → c.loaded.id = i

theorem numbered_empty : empty.Numbered := by
  rintro i c ⟨⟩

theorem bytesOf_of_getElem? {c : Defined} (hc : u.classes[c.loaded.id]? = some c) :
    u.bytesOf c.loaded = some c.bytes := by
  rw [bytesOf, hc]
  rfl

/-- Loading a class that is not there adds it at the end. -/
theorem classes_define {name : String} {loader : LoaderId} {bytes : Bytes}
    (h : u.get? name loader = none) :
    (u.define name loader bytes).2.classes =
      u.classes.push ⟨⟨u.classes.size, name, loader⟩, bytes, 0⟩ := by
  unfold define
  rw [h]

theorem Numbered.define (hu : u.Numbered) {name : String} {loader : LoaderId} {bytes : Bytes}
    (h : u.get? name loader = none) : (u.define name loader bytes).2.Numbered := by
  intro i c hc
  rw [classes_define h, Array.getElem?_push] at hc
  by_cases hi : i = u.classes.size
  · rw [if_pos hi] at hc
    cases hc
    exact hi.symm
  · rw [if_neg hi] at hc
    exact hu i c hc

theorem getElem?_replace (u : Universe) (d : ClassDefinition) (i : Nat) :
    (u.replace d).classes[i]? = u.classes[i]?.map fun c =>
      if d.target.id = i then { c with bytes := d.bytes, redefinitions := c.redefinitions + 1 }
      else c := by
  unfold replace
  rw [Array.getElem?_modify]
  by_cases hi : d.target.id = i
  · rw [if_pos hi]
    simp only [if_pos hi]
  · rw [if_neg hi]
    simp only [if_neg hi, Option.map_id']

/-- A redefinition keeps every class in its place, with its name and its loader. -/
theorem loaded_foldl_replace (u : Universe) (ds : List ClassDefinition) (i : Nat) :
    (ds.foldl replace u).classes[i]?.map Defined.loaded = u.classes[i]?.map Defined.loaded := by
  induction ds generalizing u with
  | nil => rfl
  | cons d ds ih =>
    rw [List.foldl_cons, ih, getElem?_replace, Option.map_map]
    congr 1
    funext c
    show (if d.target.id = i then _ else c).loaded = c.loaded
    by_cases hi : d.target.id = i
    · rw [if_pos hi]
    · rw [if_neg hi]

theorem loadedClasses_foldl_replace (u : Universe) (ds : List ClassDefinition) :
    (ds.foldl replace u).loadedClasses = u.loadedClasses := by
  refine List.ext_getElem? fun i => ?_
  rw [loadedClasses, loadedClasses, List.getElem?_map, List.getElem?_map, Array.getElem?_toList,
    Array.getElem?_toList]
  exact loaded_foldl_replace u ds i

theorem index_foldl_replace (u : Universe) (ds : List ClassDefinition) :
    (ds.foldl replace u).index = u.index := by
  induction ds generalizing u with
  | nil => rfl
  | cons d ds ih =>
    rw [List.foldl_cons, ih]
    rfl

/-- What a redefinition does not name stays as it is. -/
theorem getElem?_foldl_replace_of_ne (h : ∀ d ∈ ds, d.target.id ≠ i) :
    (ds.foldl replace u).classes[i]? = u.classes[i]? := by
  induction ds generalizing u with
  | nil => rfl
  | cons d ds ih =>
    rw [List.foldl_cons, ih fun d' hd' => h d' (List.mem_cons_of_mem d hd'), getElem?_replace]
    simp only [if_neg (h d List.mem_cons_self), Option.map_id']

/-- A class that a redefinition names once has the bytes given for it, and one redefinition more. -/
theorem getElem?_foldl_replace_of_mem (hd : d ∈ ds) (hnodup : (ds.map fun d => d.target.id).Nodup) :
    (ds.foldl replace u).classes[d.target.id]? = u.classes[d.target.id]?.map fun c =>
      { c with bytes := d.bytes, redefinitions := c.redefinitions + 1 } := by
  induction ds generalizing u with
  | nil => cases hd
  | cons d' ds ih =>
    rw [List.map_cons, List.nodup_cons] at hnodup
    rw [List.foldl_cons]
    rcases List.mem_cons.1 hd with rfl | hd
    · -- no later definition is about the same class
      have hrest : ∀ d' ∈ ds, d'.target.id ≠ d.target.id := by
        intro d' hd' e
        exact hnodup.1 (List.mem_map.2 ⟨d', hd', e⟩)
      rw [getElem?_foldl_replace_of_ne hrest, getElem?_replace]
      simp only [if_pos]
    · -- the definition in front is about another class
      have hne : d'.target.id ≠ d.target.id := by
        intro e
        exact hnodup.1 (List.mem_map.2 ⟨d, hd, e.symm⟩)
      rw [ih hd hnodup.2, getElem?_replace]
      simp only [if_neg hne, Option.map_id']

theorem bytes_foldl_replace (hd : d ∈ ds) (hnodup : (ds.map fun d => d.target.id).Nodup)
    {c : Defined} (hc : u.classes[d.target.id]? = some c) :
    ∃ c', (ds.foldl replace u).classes[d.target.id]? = some c' ∧ c'.bytes = d.bytes := by
  rw [getElem?_foldl_replace_of_mem hd hnodup, hc]
  exact ⟨_, rfl, rfl⟩

/-- Whether a definition is acceptable does not depend on what has been redefined before. -/
theorem check_foldl_replace (u : Universe) (ds : List ClassDefinition) (d : ClassDefinition) :
    (ds.foldl replace u).check d = u.check d := by
  rw [check, check, loaded_foldl_replace]

theorem forM_eq_ok {check : ClassDefinition → Except RedefinitionError Unit}
    (h : ds.forM check = .ok ()) : ∀ d ∈ ds, check d = .ok () := by
  induction ds with
  | nil => exact fun _ hd => absurd hd List.not_mem_nil
  | cons d ds ih =>
    have hbind : (check d >>= fun _ => ds.forM check) = .ok () := h
    obtain ⟨⟨⟩, hd, h⟩ := (except_bind_eq_ok_iff _ _ _).1 hbind
    intro d' hd'
    rcases List.mem_cons.1 hd' with rfl | hd'
    · exact hd
    · exact ih h d' hd'

/-- A redefinition is accepted when each definition is. -/
theorem redefine_eq_ok (h : u.redefine ds = .ok u') :
    (∀ d ∈ ds, u.check d = .ok ()) ∧ u' = ds.foldl replace u := by
  obtain ⟨⟨⟩, hcheck, h⟩ := (except_bind_eq_ok_iff _ _ _).1 h
  cases h
  exact ⟨forM_eq_ok hcheck, rfl⟩

theorem redefine_of_check (h : ∀ d ∈ ds, u.check d = .ok ()) :
    u.redefine ds = .ok (ds.foldl replace u) := by
  have hforM : ds.forM u.check = .ok () := by
    induction ds with
    | nil => rfl
    | cons d ds ih =>
      show (u.check d >>= fun _ => ds.forM u.check) = .ok ()
      rw [h d List.mem_cons_self]
      exact ih fun d' hd' => h d' (List.mem_cons_of_mem d hd')
  rw [redefine, hforM]
  rfl

/-- An accepted definition has the bytes of a class. -/
theorem bytes_ne_nil_of_check (h : u.check d = .ok ()) : d.bytes ≠ [] := by
  intro hbytes
  unfold check at h
  by_cases hd : u.classes[d.target.id]?.map Defined.loaded ≠ some d.target
  · simp only [if_pos hd] at h
    cases h
  · simp only [if_neg hd] at h
    cases hp : ClassHeader.parse d.bytes with
    | error fault =>
      rw [hp] at h
      cases h
    | ok header =>
      -- the check reads a header, which no bytes do not have
      rw [hbytes] at hp
      exact ClassHeader.parse_nil header hp

end Universe

end Reclass
