import Reclass.Proofs.ClassPath.Ancestry
import Reclass.Proofs.ClassPath.History
import Reclass.Proofs.Hierarchy.History

/-!
# Inner loaders extend outer ones

A name that an outer loader sees is looked up by an inner one in the same roots first, so it is the
same class for both (`ClassPath.find_of_le`). An inner loader knows all that an outer one knows of
the types, and more. Hence what a resolver finds for the outer loader it finds for the inner one as
well, that a type cannot be assigned included (`ClassPath.inner_loaders_extend`): every ancestor
that the search for the outer loader has met is the same type for the inner loader, whatever the
inner roots define.
-/

set_option autoImplicit false

namespace Reclass

namespace Hierarchy

variable {σ : Type} {src : ClassSource σ} {I : σ → Prop} {h₀ : Hierarchy} {s : Hierarchy × σ}
  {answer : String → LoaderId → Except ReadError (Option Bytes)} {name : String}
  {loader : LoaderId} {header : ClassHeader}

/-- Resolving the name succeeds with that descriptor. -/
def ResolvesTo (src : ClassSource σ) (s : Hierarchy × σ) (name : String) (loader : LoaderId)
    (d : Descriptor) : Prop :=
  (resolveRequired src name loader).Ensures s fun r s' =>
    ∃ id, r = .ok id ∧ s'.1.descriptor? id = some d

/-- What a loader knows of a type, resolving the type tells. -/
theorem resolvesTo_of_typeFacts (hsrc : src.Tells I (Told answer))
    (hs : Stands (Told answer) I h₀ s)
    (hfact : typeFacts answer loader (ClassName.internal name) = .ok header) :
    ∃ d, ResolvesTo src s name loader d ∧ d.internalName = ClassName.internal name ∧
      d.States header := by
  have hresolve := resolveRequired_ensures hsrc hs name loader
  unfold ResolvesTo
  unfold Attempt.Ensures Act.Ensures at hresolve ⊢
  obtain ⟨hs', hr⟩ := hresolve
  cases hv : ((resolveRequired src name loader).result.run s).value with
  | error e =>
    rw [hv] at hr
    have hfact' : Except.error e = typeFacts answer loader (ClassName.internal name) := hr
    cases hfact'.trans hfact
  | ok id =>
    rw [hv] at hr
    obtain ⟨d, hd, hname, rfl⟩ := hr.1
    obtain ⟨header', hfact', hstates⟩ := hs'.valid.told id d hd
    have hheader : Except.ok header' = typeFacts answer d.loader d.internalName := hfact'
    rw [hname, hfact] at hheader
    cases hheader
    exact ⟨d, ⟨id, rfl, hd⟩, hname, hstates⟩

/-- A type that resolves is known to the loader. -/
theorem typeFacts_of_resolves (hsrc : src.Tells I (Told answer)) (hs : Stands (Told answer) I h₀ s)
    {id : DescriptorId}
    (h : (resolveRequired src name loader).Ensures s fun r _ => r = .ok id) :
    ∃ header, typeFacts answer loader (ClassName.internal name) = .ok header := by
  have hresolve := resolveRequired_ensures hsrc hs name loader
  unfold Attempt.Ensures Act.Ensures at hresolve h
  rw [h] at hresolve
  obtain ⟨-, -, header, hfact⟩ := hresolve
  exact ⟨header, Eq.symm hfact⟩

end Hierarchy

namespace ClassPath

open Hierarchy (Stands ResolvesTo isAssignableFrom resolveRequired)

variable {cp : ClassPath} {name target n : String} {outer inner : LoaderId} {header : ClassHeader}
  {found : LoaderId × Bytes}

/-- The loaders in the order of delegation: the bootstrap loader, then those of the roots. -/
def delegation (cp : ClassPath) : List LoaderId := .bootstrap :: cp.loaders

/-- The number of a loader is its place in the order of delegation. -/
theorem getElem?_delegation {i : Nat} {loader : LoaderId} (h : cp.delegation[i]? = some loader) :
    loader = ⟨i⟩ ∧ i ≤ cp.roots.length := by
  cases i with
  | zero =>
    cases h
    exact ⟨rfl, Nat.zero_le _⟩
  | succ i =>
    rw [delegation, List.getElem?_cons_succ, loaders, List.getElem?_map] at h
    obtain ⟨k, hk, rfl⟩ := Option.map_eq_some_iff.1 h
    obtain ⟨hi, rfl⟩ := List.getElem?_eq_some_iff.1 hk
    rw [List.length_range] at hi
    rw [List.getElem_range]
    exact ⟨rfl, hi⟩

/-- **A loader finds what the loaders before it find.** -/
theorem find_of_le (h : cp.find name outer = .ok (some found)) (hle : outer.number ≤ inner.number)
    (hinner : inner.number ≤ cp.roots.length) : cp.find name inner = .ok (some found) := by
  unfold find at h ⊢
  cases hs : platformStub name with
  | some stub =>
    simp only [hs] at h ⊢
    exact h
  | none =>
    simp only [hs] at h ⊢
    by_cases hb : outer = .bootstrap
    · rw [if_pos hb] at h
      cases h
    · have hb' : inner ≠ .bootstrap := by
        rintro rfl
        exact hb (congrArg LoaderId.mk (Nat.le_zero.1 hle))
      have hl : ¬ cp.roots.length < outer.number := Nat.not_lt.2 (Nat.le_trans hle hinner)
      rw [if_neg hb, if_neg hl] at h
      rw [if_neg hb', if_neg (Nat.not_lt.2 hinner)]
      have htake : cp.roots.take outer.number = (cp.roots.take inner.number).take outer.number := by
        rw [List.take_take, Nat.min_eq_left hle]
      rw [htake] at h
      exact congrArg Except.ok (firstDefining_of_take (Except.ok.inj h))

theorem typeFacts_of_le (h : typeFacts cp.answer outer n = .ok header)
    (hle : outer.number ≤ inner.number) (hinner : inner.number ≤ cp.roots.length) :
    typeFacts cp.answer inner n = .ok header := by
  obtain ⟨bytes, hanswer, hparse⟩ := answer_of_typeFacts h
  have hname := ClassHeader.name_of_ofAnswer h
  unfold answer at hanswer
  obtain ⟨found, hfind, hbytes⟩ := (except_map_eq_ok_iff _ _ _).1 hanswer
  obtain ⟨⟨defining, _⟩, rfl, rfl⟩ := Option.map_eq_some_iff.1 hbytes
  rw [typeFacts, answer, find_of_le hfind hle hinner]
  show ClassHeader.ofAnswer n inner (.ok (some _)) = _
  rw [ClassHeader.ofAnswer, hparse]
  exact if_neg (not_not.2 hname)

theorem assignable_of_le {candidate : String} {r : Bool}
    (h : cp.assignable target candidate outer = .ok r) (hle : outer.number ≤ inner.number)
    (hinner : inner.number ≤ cp.roots.length) : cp.assignable target candidate inner = .ok r := by
  unfold assignable at h ⊢
  by_cases ht : ClassName.internal target = ClassName.internal candidate
  · rw [if_pos ht] at h ⊢
    exact h
  · simp only [if_neg ht] at h ⊢
    obtain ⟨header, hfact, h⟩ := (except_bind_eq_ok_iff _ _ _).1 h
    rw [typeFacts_of_le hfact hle hinner]
    exact TypeFacts.assignable_of_subsumes (fun _ _ h => typeFacts_of_le h hle hinner) h

/-- A resolver over a class path, in any state that it can come to. -/
theorem stands_after {σ : Type} (cp : ClassPath) (history : List (Happening σ)) (start : σ) :
    Stands (Told cp.answer) (fun _ => True) .empty
      (Happening.after cp.source history (.empty, start)) :=
  Happening.after_stands_of_tells (cp.source_tells _) history
    ⟨Hierarchy.Extends.refl _, Hierarchy.valid_empty, trivial⟩

/-- **Inner loaders extend outer ones.** Let one loader of a class path come before another one in
the order of delegation, or be the same. Whatever has happened to the resolvers that are asked, an
answer about assignability that the outer loader gets is the answer that the inner loader gets, and
a name that resolves for the outer loader resolves for the inner one, with the same flags, the same
super class and the same interfaces. -/
theorem inner_loaders_extend {σ : Type} (cp : ClassPath) {i j : Nat} {outer inner : LoaderId}
    (houter : cp.delegation[i]? = some outer) (hinner : cp.delegation[j]? = some inner)
    (hij : i ≤ j) (start start' : σ) (history history' : List (Happening σ)) :
    let s := Happening.after cp.source history (.empty, start)
    let s' := Happening.after cp.source history' (.empty, start')
    (∀ target candidate r,
      (isAssignableFrom cp.source target candidate outer).Ensures s (fun v _ => v = .ok r) →
        (isAssignableFrom cp.source target candidate inner).Ensures s' fun v _ => v = .ok r) ∧
      ∀ name id, (resolveRequired cp.source name outer).Ensures s (fun v _ => v = .ok id) →
        ∃ d d', ResolvesTo cp.source s name outer d ∧ ResolvesTo cp.source s' name inner d' ∧
          d'.flags = d.flags ∧ d'.superName = d.superName ∧
          d'.interfaceNames = d.interfaceNames := by
  intro s s'
  have hs : Stands (Told cp.answer) (fun _ => True) .empty s := cp.stands_after history start
  have hs' : Stands (Told cp.answer) (fun _ => True) .empty s' := cp.stands_after history' start'
  obtain ⟨rfl, -⟩ := getElem?_delegation houter
  obtain ⟨rfl, hj⟩ := getElem?_delegation hinner
  constructor
  · intro target candidate r hr
    have hvalue := cp.isAssignableFrom_ensures hs target candidate ⟨i⟩
    unfold Attempt.Ensures Act.Ensures at hr hvalue
    have hassignable : cp.assignable target candidate ⟨i⟩ = .ok r := hvalue.1.symm.trans hr
    refine (cp.isAssignableFrom_ensures hs' target candidate ⟨j⟩).imp fun v _ h => ?_
    exact h.1.trans (assignable_of_le hassignable hij hj)
  · intro name id hid
    obtain ⟨header, hfact⟩ := Hierarchy.typeFacts_of_resolves (cp.source_tells _) hs hid
    obtain ⟨d, hd, -, hstates⟩ := Hierarchy.resolvesTo_of_typeFacts (cp.source_tells _) hs hfact
    obtain ⟨d', hd', -, hstates'⟩ := Hierarchy.resolvesTo_of_typeFacts (cp.source_tells _) hs'
      (typeFacts_of_le hfact hij hj)
    exact ⟨d, d', hd, hd', hstates'.flags.trans hstates.flags.symm,
      hstates'.superName.trans hstates.superName.symm,
      hstates'.interfaceNames.trans hstates.interfaceNames.symm⟩

/-- The inner root has a class that would be below the target, but the outer root has the class
too, and there it is not. -/
theorem inner_loaders_extend_shadowed_class :
    let cp : ClassPath := ⟨[
      ⟨"a", .ofList [("p/A", (ClassSketch.new "p/A").encode),
        ("p/B", (ClassSketch.new "p/B").encode)]⟩,
      ⟨"b", .ofList [("p/A", ((ClassSketch.new "p/A").withSuper "p/B").encode)]⟩]⟩
    let s := Happening.after cp.source [] (.empty, ())
    let s' := Happening.after cp.source [.operation (.resolve "p.B" ⟨2⟩)] (.empty, ())
    (isAssignableFrom cp.source "p.B" "p/A" ⟨1⟩).Ensures s (fun v _ => v = .ok false) ∧
      (isAssignableFrom cp.source "p.B" "p/A" ⟨2⟩).Ensures s' (fun v _ => v = .ok false) ∧
      ∃ d, ResolvesTo cp.source s' "p.A" ⟨2⟩ d ∧ d.superName = some objectName := by
  intro cp s s'
  have houter : cp.delegation[1]? = some ⟨1⟩ := by decide
  have hinner : cp.delegation[2]? = some ⟨2⟩ := by decide
  have hextend := cp.inner_loaders_extend houter hinner (by decide) () () []
    [.operation (.resolve "p.B" ⟨2⟩)]
  have hoff : ((isAssignableFrom cp.source "p.B" "p/A" ⟨1⟩).result.run s).value = .ok false := by
    decide +kernel
  let resolved := (resolveRequired cp.source "p.A" ⟨1⟩).result.run s
  have hresolved : resolved.value = .ok ⟨0⟩ := by decide +kernel
  have hobject : (resolved.state.1.descriptor? ⟨0⟩).map Descriptor.superName =
      some (some objectName) := by decide +kernel
  refine ⟨hoff, hextend.1 "p.B" "p/A" false hoff, ?_⟩
  obtain ⟨d, d', ⟨id, hid, hd⟩, hd', -, hsuper, -⟩ := hextend.2 "p.A" ⟨0⟩ hresolved
  cases hresolved.symm.trans hid
  rw [show resolved.state.1.descriptor? ⟨0⟩ = some d from hd] at hobject
  exact ⟨d', hd', hsuper.trans (Option.some.inj hobject)⟩

end ClassPath

end Reclass
