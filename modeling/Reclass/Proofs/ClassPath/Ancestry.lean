import Mathlib.Tactic.Common
import Reclass.ClassPath.Basic
import Reclass.Proofs.ClassFile.Sketch
import Reclass.Proofs.Hierarchy.Assignability
import Reclass.Proofs.Hierarchy.Bounds

/-!
# Ancestry over a class path

A class path never changes its answers, but as it makes up a class for every name of the platform,
no number bounds the types that resolve. It vouches for the lines of ancestors instead: what is made
up extends the root type and nothing else, so a search goes on from the classes of the roots only
(`ClassPath.within_names`). In every state a resolver can come to, assignability is one function
of the names and the loader (`ClassPath.isAssignableFrom_ensures`).
-/

set_option autoImplicit false

namespace Reclass.ClassPath

open Hierarchy (Stands)

variable {cp : ClassPath} {name n : String} {loader : LoaderId} {bytes : Bytes}
  {header : ClassHeader}

/-- What the class path answers as a source. -/
def answer (cp : ClassPath) (name : String) (loader : LoaderId) : Except ReadError (Option Bytes) :=
  (cp.find name loader).map fun found => found.map Prod.snd

theorem source_tells {σ : Type} (cp : ClassPath) (I : σ → Prop) :
    (cp.source : ClassSource σ).Tells I (Told cp.answer) where
  read _ _ _ hs := ⟨rfl, hs⟩
  reach _ hs := hs

/-- The names of the classes that the roots define. -/
def names (cp : ClassPath) : List String := cp.resources.map Prod.fst

theorem mem_resources {r : ClassPathRoot} {i : Nat} (hr : cp.roots[i]? = some r)
    (hname : name ∈ r.resources.keys) : (name, loaderAt i) ∈ cp.resources := by
  refine List.mem_flatMap.2 ⟨(r, i), List.mem_zipIdx_iff_getElem?.2 hr, ?_⟩
  exact List.mem_map.2 ⟨name, hname, rfl⟩

theorem mem_names {r : ClassPathRoot} (hr : r ∈ cp.roots) (hname : name ∈ r.resources.keys) :
    name ∈ cp.names := by
  obtain ⟨i, hi⟩ := List.mem_iff_getElem?.1 hr
  exact List.mem_map.2 ⟨(name, loaderAt i), mem_resources hi hname, rfl⟩

theorem getElem?_of_firstDefining {position : Nat} {rs : List ClassPathRoot}
    {found : LoaderId × Bytes} (h : firstDefining name position rs = some found) :
    ∃ k r, rs[k]? = some r ∧ name ∈ r.resources.keys ∧ found.1 = loaderAt (position + k) := by
  induction rs generalizing position with
  | nil => cases h
  | cons r rs ih =>
    rw [firstDefining] at h
    cases hr : r.resources.get? name with
    | some own =>
      rw [hr] at h
      cases h
      obtain ⟨l₁, l₂, hentries, -⟩ := List.lookup_eq_some_iff.1 hr
      refine ⟨0, r, rfl, List.mem_map.2 ⟨(name, own), ?_, rfl⟩, rfl⟩
      rw [hentries]
      exact List.mem_append_right l₁ List.mem_cons_self
    | none =>
      rw [hr] at h
      obtain ⟨k, r', hr', hname, hloader⟩ := ih h
      refine ⟨k + 1, r', hr', hname, ?_⟩
      rw [hloader, Nat.add_assoc, Nat.add_comm 1 k]

theorem mem_of_firstDefining {position : Nat} {rs : List ClassPathRoot} {found : LoaderId × Bytes}
    (h : firstDefining name position rs = some found) : ∃ r ∈ rs, name ∈ r.resources.keys := by
  obtain ⟨k, r, hr, hname, -⟩ := getElem?_of_firstDefining h
  exact ⟨r, List.mem_of_getElem? hr, hname⟩

/-- A class is made up, or it is one of the roots'. -/
theorem answer_eq_ok (h : cp.answer name loader = .ok (some bytes)) :
    platformStub name = some bytes ∨ (platformStub name = none ∧ name ∈ cp.names) := by
  unfold answer find at h
  cases hstub : platformStub name with
  | some stub =>
    rw [hstub] at h
    exact Or.inl (congrArg some (Option.some.inj (Except.ok.inj h)))
  | none =>
    refine Or.inr ⟨rfl, ?_⟩
    simp only [hstub] at h
    by_cases hb : loader = .bootstrap
    · rw [if_pos hb] at h
      cases h
    · rw [if_neg hb] at h
      by_cases hl : cp.roots.length < loader.number
      · rw [if_pos hl] at h
        cases h
      · rw [if_neg hl] at h
        cases hfirst : firstDefining name 0 (cp.roots.take loader.number) with
        | none =>
          rw [hfirst] at h
          cases h
        | some found =>
          obtain ⟨r, hr, hname⟩ := mem_of_firstDefining hfirst
          exact mem_names (List.mem_of_mem_take hr) hname

/-- The bytes behind a fact. -/
theorem answer_of_typeFacts (h : typeFacts cp.answer loader n = .ok header) :
    ∃ bytes, cp.answer n loader = .ok (some bytes) ∧ ClassHeader.parse bytes = .ok header := by
  unfold typeFacts at h
  match hanswer : cp.answer n loader with
  | .error cause =>
    rw [hanswer] at h
    cases h
  | .ok none =>
    rw [hanswer] at h
    cases h
  | .ok (some bytes) =>
    rw [hanswer] at h
    refine ⟨bytes, rfl, ?_⟩
    rw [ClassHeader.ofAnswer] at h
    cases hp : ClassHeader.parse bytes with
    | error fault =>
      simp only [hp] at h
      cases h
    | ok header' =>
      simp only [hp] at h
      by_cases hn : header'.name ≠ n
      · rw [if_pos hn] at h
        cases h
      · rw [if_neg hn] at h
        cases h
        rfl

theorem parse_root : ClassHeader.parse ((ClassSketch.new objectName).withSuper none).encode =
    .ok ⟨0, ClassSketch.majorVersion, .union .isPublic .isSuper, objectName, none, []⟩ := by
  decide +kernel

theorem header_root (h : ClassHeader.parse
    ((ClassSketch.new objectName).withSuper none).encode = .ok header) :
    header.superName = none ∧ header.interfaces = [] := by
  rw [parse_root] at h
  cases h
  exact ⟨rfl, rfl⟩

/-- A type that is made up is the root type, or it extends the root type and nothing else. -/
theorem header_of_platformStub (hstub : platformStub n = some bytes)
    (hparse : ClassHeader.parse bytes = .ok header) (hname : header.name = n) :
    header.interfaces = [] ∧
      (n = objectName ∧ header.superName = none ∨
        n ≠ objectName ∧ header.superName = some objectName) := by
  unfold platformStub at hstub
  by_cases hroot : n = objectName
  · rw [if_pos hroot] at hstub
    cases hstub
    obtain ⟨hsuper, hinterfaces⟩ := header_root hparse
    exact ⟨hinterfaces, Or.inl ⟨hroot, hsuper⟩⟩
  · rw [if_neg hroot] at hstub
    by_cases hplatform : Text.startsWith n "java/" = true
    · rw [if_pos hplatform] at hstub
      cases hstub
      obtain ⟨hsuper, hinterfaces⟩ := ClassSketch.header_new hparse hname
      exact ⟨hinterfaces, Or.inr ⟨hroot, hsuper⟩⟩
    · rw [if_neg hplatform] at hstub
      cases hstub

/-- What is known of a type is stated by one of the roots, or it is made up. -/
theorem typeFacts_eq_ok (h : typeFacts cp.answer loader n = .ok header) :
    (platformStub n = none ∧ n ∈ cp.names) ∨ header.interfaces = [] ∧
      (n = objectName ∧ header.superName = none ∨
        n ≠ objectName ∧ header.superName = some objectName) := by
  obtain ⟨bytes, hanswer, hparse⟩ := answer_of_typeFacts h
  rcases answer_eq_ok hanswer with hstub | hname
  · exact Or.inr (header_of_platformStub hstub hparse (ClassHeader.name_of_ofAnswer h))
  · exact Or.inl hname

/-- **A search goes on from the classes of the roots only.** -/
theorem within_names (cp : ClassPath) (loader : LoaderId) :
    (typeFacts cp.answer loader).Within cp.names where
  line := by
    rintro n m k ⟨header, hn, hm⟩ ⟨header', hm', hk⟩
    rcases typeFacts_eq_ok hn with ⟨-, hname⟩ | ⟨-, ⟨-, hsuper⟩ | ⟨-, hsuper⟩⟩
    · exact hname
    · rw [ClassHeader.parent, hsuper] at hm
      cases hm
    · -- what lies above a class that is made up is the root type, which ends the line
      exfalso
      rw [ClassHeader.parent, hsuper] at hm
      have hroot : m = objectName := by
        rw [← Option.some.inj hm]
        decide
      subst hroot
      rcases typeFacts_eq_ok hm' with ⟨hstub, -⟩ | ⟨-, ⟨-, hsuper'⟩ | ⟨hne, -⟩⟩
      · cases hstub
      · rw [ClassHeader.parent, hsuper'] at hk
        cases hk
      · exact hne rfl
  interface := by
    rintro n m ⟨header, hn, hm⟩
    rcases typeFacts_eq_ok hn with ⟨-, hname⟩ | ⟨hinterfaces, -⟩
    · exact hname
    · rw [ClassHeader.parents, hinterfaces] at hm
      exact absurd hm List.not_mem_nil

/-! ### Assignability -/

/-- Whether a value of type `candidate` can be assigned to `target`, as a loader sees both. -/
def assignable (cp : ClassPath) (target candidate : String) (loader : LoaderId) :
    Except ResolutionError Bool :=
  let facts := typeFacts cp.answer loader
  let target := ClassName.internal target
  let candidate := ClassName.internal candidate
  if target = candidate then .ok true
  else facts candidate >>= fun _ =>
    facts.assignable loader (cp.names.length + 2) target candidate

/-- **Over a class path assignability does not depend on what a resolver has been asked before.** -/
theorem isAssignableFrom_ensures {σ : Type} {I : σ → Prop} {h₀ : Hierarchy} {s : Hierarchy × σ}
    (cp : ClassPath) (hs : Stands (Told cp.answer) I h₀ s) (target candidate : String)
    (loader : LoaderId) :
    (Hierarchy.isAssignableFrom cp.source target candidate loader).Ensures s fun r s' =>
      r = cp.assignable target candidate loader ∧ Stands (Told cp.answer) I h₀ s' := by
  rw [Hierarchy.isAssignableFrom, assignable]
  by_cases ht : ClassName.internal target = ClassName.internal candidate
  · simp only [if_pos ht]
    exact ⟨rfl, hs⟩
  · simp only [if_neg ht, Attempt.ensures_bind]
    have hresolve := Hierarchy.resolveRequired_ensures (cp.source_tells I) hs
      (ClassName.internal candidate) loader
    rw [ClassName.internal_internal] at hresolve
    refine hresolve.imp fun r s₁ h => ?_
    obtain ⟨hs₁, hr⟩ := h
    cases r with
    | error e =>
      have hfact : Except.error e = typeFacts cp.answer loader (ClassName.internal candidate) := hr
      rw [← hfact]
      exact ⟨rfl, hs₁⟩
    | ok id =>
      obtain ⟨hd, header, hfact⟩ := hr
      have hknown : Except.ok header = typeFacts cp.answer loader (ClassName.internal candidate) :=
        hfact
      rw [← hknown]
      refine Attempt.Ensures.imp (Hierarchy.isAssignable_follows (cp.source_tells I)
        (ClassName.internal target) hs₁.self hd) fun r' s₂ h => ⟨?_, hs₁.trans h.1⟩
      -- the limit in this state is high enough, as the one chosen above is
      have hlimit : cp.names.length + 2 ≤ Hierarchy.limitIn cp.source s₁ := by
        have hreach : (cp.source.reach.run s₁.2).value = cp.resources.length + 2 := rfl
        rw [Hierarchy.limitIn, hreach, names, List.length_map]
        omega
      rw [h.2.eq]
      exact TypeFacts.assignable_limit (cp.within_names loader) _ hlimit (Nat.le_refl _)

end Reclass.ClassPath
