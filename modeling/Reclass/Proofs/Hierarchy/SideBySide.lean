import Reclass.Proofs.Hierarchy.Assignability

/-!
# Two sources side by side

The same question is put to two resolvers that have the same descriptors and ask different sources.
A check for assignability comes to a source in two steps only, where it resolves a name and where
it asks how far a line can reach. When these are taken alike over both sources, so is the whole
check (`Hierarchy.Check.inStep`). A failure is the end of a check, so what relates the resolvers
has to outlast each successful step, and may be less after a failure.
-/

set_option autoImplicit false

namespace Reclass.Hierarchy

variable {σ σ' : Type}

/-- A question whether a value can be assigned: of one name and another in a loader, or of a type
that was resolved before. -/
inductive Check where
  | ofNames (target candidate : String) (loader : LoaderId)
  | ofType (target : String) (candidate : DescriptorId)
  deriving DecidableEq, Repr

/-- Answers the question. -/
def Check.run (src : ClassSource σ) : Check → Attempt (Hierarchy × σ) ResolutionError Bool
  | ofNames target candidate loader => isAssignableFrom src target candidate loader
  | ofType target candidate => isAssignable src target candidate

/-- The steps that depend on the source are taken alike. Resolvers related by `R` have the same
descriptors; a failure leaves them related by `E`. -/
structure Accords (src : ClassSource σ) (src' : ClassSource σ')
    (R E : Hierarchy × σ → Hierarchy × σ' → Prop) : Prop where
  hierarchy : ∀ s s', R s s' → s'.1 = s.1
  failed : ∀ s s', R s s' → E s s'
  reach : (reach src).Alike (reach src') R fun _ => R
  resolveRequired : ∀ name loader,
    (resolveRequired src name loader).InStep (resolveRequired src' name loader) R E
  fill : ∀ s s' id slot target, R s s' →
    R (s.1.fill id slot target, s.2) (s'.1.fill id slot target, s'.2)

section Rules

variable {src : ClassSource σ} {src' : ClassSource σ'}
  {R E : Hierarchy × σ → Hierarchy × σ' → Prop}

/-- A look at the descriptors. -/
theorem Accords.look (h : Accords src src' R E) {α : Type} (f : Hierarchy → α) :
    (Act.gets fun s : Hierarchy × σ => f s.1).Alike (Act.gets fun s => f s.1) R fun _ => R :=
  fun s s' hs => ⟨congrArg f (h.hierarchy s s' hs), hs⟩

theorem nameOf_alike (h : Accords src src' R E) (id : DescriptorId) :
    (nameOf id).Alike (nameOf id) R fun _ => R :=
  h.look (nameIn · id)

/-- Where an identity is resolved. -/
def loaderIn (h : Hierarchy) (id : DescriptorId) : LoaderId :=
  match h.descriptor? id with
  | some d => d.loader
  | none => .bootstrap

theorem loaderOf_alike (h : Accords src src' R E) (id : DescriptorId) :
    (loaderOf id).Alike (loaderOf id) R fun _ => R :=
  h.look (loaderIn · id)

theorem slotsOf_alike (h : Accords src src' R E) (id : DescriptorId) :
    (slotsOf id).Alike (slotsOf id) R fun _ => R := by
  refine (h.look (·.descriptor? id)).bind fun found => ?_
  cases found with
  | none => exact Act.alike_pure [] fun _ _ hs => hs
  | some d => exact Act.alike_pure d.interfaceSlots fun _ _ hs => hs

/-- Giving up at a type. -/
theorem throw_inStep (h : Accords src src' R E) (id : DescriptorId)
    (e : String → LoaderId → ResolutionError) {α : Type} :
    (do throw (e (← Attempt.act (nameOf id)) (← Attempt.act (loaderOf id))) :
        Attempt (Hierarchy × σ) ResolutionError α).InStep
      (do throw (e (← Attempt.act (nameOf id)) (← Attempt.act (loaderOf id)))) R E := by
  refine (Attempt.inStep_act (nameOf_alike h id)).bind fun name => ?_
  refine (Attempt.inStep_act (loaderOf_alike h id)).bind fun loader => ?_
  exact Attempt.inStep_throw _ h.failed

theorem ancestorRequired_inStep (h : Accords src src' R E) (id : DescriptorId)
    (slot : AncestorSlot) :
    (ancestorRequired src id slot).InStep (ancestorRequired src' id slot) R E := by
  refine (Attempt.inStep_act (h.look (·.descriptor? id))).bind fun found => ?_
  cases found with
  | none => exact Attempt.inStep_pure none
  | some d =>
    dsimp only
    cases d.declared slot with
    | none => exact Attempt.inStep_pure none
    | some name =>
      cases d.link slot with
      | some target => exact Attempt.inStep_pure (some target)
      | none =>
        refine (h.resolveRequired name d.loader).bind fun target => ?_
        refine (Attempt.inStep_act fun s s' hs => ?_).bind fun _ =>
          Attempt.inStep_pure (some target)
        exact ⟨rfl, h.fill s s' id slot target hs⟩

theorem requiredInterfaces_inStep (h : Accords src src' R E) (id : DescriptorId) :
    (requiredInterfaces src id).InStep (requiredInterfaces src' id) R E := by
  refine (Attempt.inStep_act (slotsOf_alike h id)).bind fun slots => ?_
  refine (Attempt.inStep_mapM (ancestorRequired_inStep h id) slots).bind fun found => ?_
  exact Attempt.inStep_pure _

theorem superLine_inStep (h : Accords src src' R E) (limit : Nat) (seen : List String)
    (id : DescriptorId) :
    (superLine src limit seen id).InStep (superLine src' limit seen id) R E := by
  induction limit generalizing seen id with
  | zero => exact throw_inStep h id .unbounded
  | succ limit ih =>
    rw [superLine, superLine]
    refine (ancestorRequired_inStep h id .superclass).bind fun parent => ?_
    cases parent with
    | none => exact Attempt.inStep_pure [id]
    | some parent =>
      refine (Attempt.inStep_act (nameOf_alike h parent)).bind fun name => ?_
      by_cases hname : name ∈ seen
      · simp only [if_pos hname, Attempt.throw_bind]
        refine (Attempt.inStep_act (loaderOf_alike h parent)).bind fun loader => ?_
        exact Attempt.inStep_throw _ h.failed
      · simp only [if_neg hname]
        exact (ih (name :: seen) parent).bind fun line => Attempt.inStep_pure (id :: line)

theorem searchEach_inStep (h : Accords src src' R E) {target : String}
    {deeper : DescriptorId → List String →
      Attempt (Hierarchy × σ) ResolutionError (Bool × List String)}
    {deeper' : DescriptorId → List String →
      Attempt (Hierarchy × σ') ResolutionError (Bool × List String)}
    (hdeeper : ∀ id visited, (deeper id visited).InStep (deeper' id visited) R E)
    (ids : List DescriptorId) (visited : List String) :
    (searchEach target deeper ids visited).InStep (searchEach target deeper' ids visited) R E := by
  induction ids generalizing visited with
  | nil => exact Attempt.inStep_pure (false, visited)
  | cons id ids ih =>
    rw [searchEach, searchEach]
    refine (Attempt.inStep_act (nameOf_alike h id)).bind fun name => ?_
    by_cases ht : name = target
    · rw [if_pos ht, if_pos ht]
      exact Attempt.inStep_pure (true, visited)
    · rw [if_neg ht, if_neg ht]
      by_cases hname : name ∈ visited
      · rw [if_pos hname, if_pos hname]
        exact ih visited
      · rw [if_neg hname, if_neg hname]
        refine (hdeeper id (name :: visited)).bind fun below => ?_
        obtain ⟨found, visited'⟩ := below
        cases found with
        | true => exact Attempt.inStep_pure (true, visited')
        | false => exact ih visited'

theorem searchBelow_inStep (h : Accords src src' R E) (target : String) (limit : Nat) :
    ∀ (id : DescriptorId) (visited : List String),
      (searchBelow src target limit id visited).InStep
        (searchBelow src' target limit id visited) R E := by
  induction limit with
  | zero =>
    intro id visited
    exact throw_inStep h id .unbounded
  | succ limit ih =>
    intro id visited
    rw [searchBelow, searchBelow]
    exact (requiredInterfaces_inStep h id).bind fun ids => searchEach_inStep h ih ids visited

theorem searchLine_inStep (h : Accords src src' R E) (target : String) (limit : Nat)
    (line : List DescriptorId) (visited : List String) :
    (searchLine src target limit line visited).InStep
      (searchLine src' target limit line visited) R E := by
  induction line generalizing visited with
  | nil => exact Attempt.inStep_pure false
  | cons id line ih =>
    rw [searchLine, searchLine]
    refine (searchBelow_inStep h target limit id visited).bind fun below => ?_
    obtain ⟨found, visited'⟩ := below
    cases found with
    | true => exact Attempt.inStep_pure true
    | false => exact ih visited'

theorem isAssignable_inStep (h : Accords src src' R E) (target : String)
    (candidate : DescriptorId) :
    (isAssignable src target candidate).InStep (isAssignable src' target candidate) R E := by
  rw [isAssignable, isAssignable]
  refine (Attempt.inStep_act (nameOf_alike h candidate)).bind fun own => ?_
  by_cases ht : own = target
  · rw [if_pos ht, if_pos ht]
    exact Attempt.inStep_pure true
  · rw [if_neg ht, if_neg ht]
    refine (Attempt.inStep_act h.reach).bind fun limit => ?_
    refine (superLine_inStep h limit [own] candidate).bind fun line => ?_
    refine (Attempt.inStep_act (Act.alike_mapM (nameOf_alike h) line)).bind fun names => ?_
    by_cases hmem : target ∈ names.drop 1
    · rw [if_pos hmem, if_pos hmem]
      exact Attempt.inStep_pure true
    · rw [if_neg hmem, if_neg hmem]
      exact searchLine_inStep h target (limit + 1) line []

/-- A check is taken alike over two sources when the steps that depend on them are. -/
theorem Check.inStep (h : Accords src src' R E) (c : Check) :
    (c.run src).InStep (c.run src') R E := by
  cases c with
  | ofType target candidate => exact isAssignable_inStep h target candidate
  | ofNames target candidate loader =>
    show (isAssignableFrom src target candidate loader).InStep
      (isAssignableFrom src' target candidate loader) R E
    rw [isAssignableFrom, isAssignableFrom]
    by_cases ht : ClassName.internal target = ClassName.internal candidate
    · simp only [if_pos ht]
      exact Attempt.inStep_pure true
    · simp only [if_neg ht]
      exact (h.resolveRequired _ loader).bind fun id => isAssignable_inStep h _ id

end Rules

end Reclass.Hierarchy
