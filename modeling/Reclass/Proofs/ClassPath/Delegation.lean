import Reclass.Proofs.ClassPath.Ancestry
import Reclass.Proofs.ClassPath.History

/-!
# Classes as different loaders see them

A loader that lists a class need not be the one that defines it. The class that it finds under the
name is listed with the loader that defines it (`ClassPath.mem_resources_of_find`), or it is a class
of the platform, which no root defines. To what a class of the platform is assignable does not
depend on the loader that looks at it (`ClassPath.assignable_of_platformStub`).
-/

set_option autoImplicit false

namespace Reclass

namespace TypeFacts

open ClassPath (objectName)

variable {facts : TypeFacts} {loader : LoaderId} {n target : String} {header root : ClassHeader}

theorem searchBelow_of_no_interfaces (hn : facts n = .ok header)
    (hinterfaces : header.interfaces = []) (limit : Nat) (visited : List String) :
    facts.searchBelow loader target (limit + 1) n visited = .ok (false, visited) := by
  have hparents : facts.parentsOf n = .ok [] := by
    rw [parentsOf, hn]
    simp only [bind, Except.bind, ClassHeader.parents, hinterfaces, List.map_nil]
    rfl
  rw [searchBelow, hparents]
  rfl

/-- A type that extends nothing but the root type is assignable to itself and to the root type. -/
theorem assignable_of_platform (hn : facts n = .ok header) (hroot : facts objectName = .ok root)
    (hrootEnds : root.superName = none ∧ root.interfaces = [])
    (hends : header.interfaces = [] ∧ (n = objectName ∧ header.superName = none ∨
      n ≠ objectName ∧ header.superName = some objectName)) (limit : Nat) :
    facts.assignable loader (limit + 2) target n =
      .ok (decide (target = n ∨ target = objectName)) := by
  have hbelow : ∀ visited, facts.searchBelow loader target (limit + 2 + 1) n visited =
      .ok (false, visited) := searchBelow_of_no_interfaces hn hends.1 (limit + 2)
  have hrootBelow : ∀ visited, facts.searchBelow loader target (limit + 2 + 1) objectName visited =
      .ok (false, visited) := searchBelow_of_no_interfaces hroot hrootEnds.2 (limit + 2)
  have hrootLine : facts.parentOf objectName = .ok none := parentOf_of_root hroot hrootEnds.1
  rw [assignable]
  by_cases htarget : n = target
  · rw [if_pos htarget, decide_eq_true (Or.inl htarget.symm)]
    rfl
  · rw [if_neg htarget]
    rcases hends.2 with ⟨rfl, -⟩ | ⟨hne, hsuper⟩
    · -- the root type is alone on its line
      have hline : facts.superLine loader (limit + 2) [objectName] objectName =
          .ok [objectName] := by
        rw [superLine, hrootLine]
        rfl
      rw [hline, decide_eq_false (fun h => htarget (h.elim Eq.symm Eq.symm))]
      simp only [bind, Except.bind, searchLine, hrootBelow]
      rfl
    · have hparent : facts.parentOf n = .ok (some objectName) := by
        rw [parentOf_of_declared hn hsuper,
          show ClassName.internal objectName = objectName by decide, resolved, hroot]
        rfl
      have hline : facts.superLine loader (limit + 2) [n] n = .ok [n, objectName] := by
        rw [superLine, hparent]
        simp only [bind, Except.bind, List.mem_singleton, if_neg (Ne.symm hne)]
        rw [superLine, hrootLine]
        rfl
      rw [hline]
      by_cases hobject : target = objectName
      · rw [decide_eq_true (Or.inr hobject), hobject]
        rfl
      · rw [decide_eq_false (fun h => h.elim (fun h => htarget h.symm) hobject)]
        simp only [bind, Except.bind, searchLine, hbelow, hrootBelow, List.drop_succ_cons,
          List.drop_zero, List.mem_singleton, if_neg hobject]
        rfl

end TypeFacts

namespace ClassPath

variable {cp : ClassPath} {name n target : String} {loader defining : LoaderId} {bytes : Bytes}
  {header : ClassHeader}

/-- **A class is listed with the loader that defines it**, unless it is one of the platform. -/
theorem mem_resources_of_find (h : cp.find name loader = .ok (some (defining, bytes)))
    (hstub : platformStub name = none) : (name, defining) ∈ cp.resources := by
  have hdefinition := definition?_of_find h
  rw [definition?, hstub] at hdefinition
  obtain ⟨k, r, hr, hname, rfl⟩ := getElem?_of_firstDefining hdefinition
  rw [Nat.zero_add]
  exact mem_resources hr hname

/-! ### Classes of the platform -/

theorem platformStub_internal (h : platformStub name = some bytes) :
    ∃ bytes', platformStub (ClassName.internal name) = some bytes' := by
  have hname : name = objectName ∨ Text.startsWith name "java/" = true := by
    unfold platformStub at h
    by_cases hroot : name = objectName
    · exact Or.inl hroot
    · rw [if_neg hroot] at h
      by_cases hplatform : Text.startsWith name "java/" = true
      · exact Or.inr hplatform
      · rw [if_neg hplatform] at h
        cases h
  have hinternal : Text.startsWith (ClassName.internal name) "java/" = true := by
    rcases hname with rfl | hname
    · decide
    · rw [Text.startsWith, List.isPrefixOf_iff_prefix] at hname ⊢
      have hletters : (ClassName.internal name).toList =
          name.toList.map fun c => if c = '.' then '/' else c := String.toList_ofList
      rw [hletters]
      exact hname.map fun c => if c = '.' then '/' else c
  unfold platformStub
  by_cases hroot : ClassName.internal name = objectName
  · rw [if_pos hroot]
    exact ⟨_, rfl⟩
  · rw [if_neg hroot, if_pos hinternal]
    exact ⟨_, rfl⟩

theorem answer_of_platformStub (hstub : platformStub n = some bytes) (loader : LoaderId) :
    cp.answer n loader = .ok (some bytes) := by
  rw [answer, find, hstub]
  rfl

theorem typeFacts_of_platformStub (hstub : platformStub n = some bytes)
    (h : typeFacts cp.answer loader n = .ok header) (loader' : LoaderId) :
    typeFacts cp.answer loader' n = .ok header := by
  rw [typeFacts, answer_of_platformStub hstub, ClassHeader.ofAnswer] at h ⊢
  cases hparse : ClassHeader.parse bytes with
  | error fault =>
    rw [hparse] at h
    cases h
  | ok found =>
    simp only [hparse] at h ⊢
    by_cases hname : found.name ≠ n
    · rw [if_pos hname] at h
      cases h
    · rw [if_neg hname] at h ⊢
      exact h

theorem typeFacts_root (cp : ClassPath) (loader : LoaderId) :
    ∃ root, typeFacts cp.answer loader objectName = .ok root ∧
      root.superName = none ∧ root.interfaces = [] := by
  have hstub : platformStub objectName =
      some ((ClassSketch.new objectName).withSuper none).encode := if_pos rfl
  refine ⟨⟨0, ClassSketch.majorVersion, .union .isPublic .isSuper, objectName, none, []⟩, ?_, rfl,
    rfl⟩
  rw [typeFacts, answer_of_platformStub hstub, ClassHeader.ofAnswer, parse_root]
  exact if_neg (fun h => h rfl)

/-- **A class of the platform is assignable to the same classes, whichever loader looks at it.** -/
theorem assignable_of_platformStub (hstub : platformStub name = some bytes)
    (h : cp.assignable target name loader = .ok true) (loader' : LoaderId) :
    cp.assignable target name loader' = .ok true := by
  unfold assignable at h ⊢
  by_cases htarget : ClassName.internal target = ClassName.internal name
  · rw [if_pos htarget]
  · simp only [if_neg htarget] at h ⊢
    obtain ⟨stub, hstub⟩ := platformStub_internal hstub
    obtain ⟨header, hfact, h⟩ := (except_bind_eq_ok_iff _ _ _).1 h
    have hfact' := typeFacts_of_platformStub hstub hfact loader'
    obtain ⟨found, hanswer, hparse⟩ := answer_of_typeFacts hfact
    cases (answer_of_platformStub hstub loader).symm.trans hanswer
    have hends := header_of_platformStub hstub hparse (ClassHeader.name_of_ofAnswer hfact)
    obtain ⟨root, hroot, hrootEnds⟩ := cp.typeFacts_root loader
    obtain ⟨root', hroot', hrootEnds'⟩ := cp.typeFacts_root loader'
    rw [TypeFacts.assignable_of_platform hfact hroot hrootEnds hends] at h
    rw [hfact']
    show TypeFacts.assignable _ _ _ _ _ = _
    rw [TypeFacts.assignable_of_platform hfact' hroot' hrootEnds' hends, ← h]

end ClassPath

end Reclass
