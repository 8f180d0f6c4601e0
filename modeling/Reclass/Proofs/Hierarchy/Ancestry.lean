import Mathlib.Logic.Relation
import Reclass.ClassFile.Header
import Reclass.Hierarchy.Source
import Reclass.ClassName
import Reclass.Proofs.Act

/-!
# Ancestry as a search in a graph

To a loader every name is a class header or a reason why it does not resolve (`TypeFacts`), and
the headers draw a graph with an edge to the super class and edges to the interfaces. This module
has the search for an ancestor over that graph, without a resolver and without a state, and its
correctness (`assignable_verdict`): what it finds is an ancestor, what it does not find is none, and
it fails for a reason that lies among the ancestors, whatever circles the graph has.

A depth-first search that comes to its end without the target leaves visited types behind whose
interfaces are visited too, apart from those it is still below (`Exhausts`). At the end of the line
nothing is left open, so no way through interfaces leads out of the visited types.
-/

set_option autoImplicit false

namespace Reclass

open Relation

/-- What a loader knows of the types: for each internal name a header, or a failure. -/
abbrev TypeFacts : Type := String → Except ResolutionError ClassHeader

namespace ClassHeader

/-- The super class, by internal name. -/
def parent (h : ClassHeader) : Option String := h.superName.map ClassName.internal

/-- The interfaces, by internal name. -/
def parents (h : ClassHeader) : List String := h.interfaces.map ClassName.internal

end ClassHeader

namespace TypeFacts

section Graph

variable (facts : TypeFacts)

def Resolves (n : String) : Prop := ∃ h, facts n = .ok h

/-- An edge to the super class. -/
def Super (n m : String) : Prop := ∃ h, facts n = .ok h ∧ h.parent = some m

/-- An edge to an interface. -/
def Interface (n m : String) : Prop := ∃ h, facts n = .ok h ∧ m ∈ h.parents

/-- The line of super classes, the type itself included. -/
def OnLine (n m : String) : Prop := ReflTransGen facts.Super n m

/-- The line of super classes runs through some name twice. -/
def Circular (n : String) : Prop := ∃ m, facts.OnLine n m ∧ TransGen facts.Super m m

/-- An ancestor: the type itself, a type on its line, or a type reached from the line through
interfaces. -/
def Ancestor (n m : String) : Prop :=
  m = n ∨ facts.OnLine n m ∨ ∃ k, facts.OnLine n k ∧ TransGen facts.Interface k m

/-- No more than `bound` names resolve. -/
def AtMost (bound : Nat) : Prop :=
  ∀ names : List String, names.Nodup → (∀ n ∈ names, facts.Resolves n) → names.length ≤ bound

end Graph

section Search

variable (facts : TypeFacts) (loader : LoaderId)

/-- A name, which has to resolve. -/
def resolved (n : String) : Except ResolutionError String := do
  let _ ← facts n
  return n

/-- The super class, which has to resolve. -/
def parentOf (n : String) : Except ResolutionError (Option String) := do
  let h ← facts n
  match h.parent with
  | none => return none
  | some p => some <$> facts.resolved p

/-- The interfaces, which have to resolve. -/
def parentsOf (n : String) : Except ResolutionError (List String) := do
  let h ← facts n
  h.parents.mapM facts.resolved

/-- A type and its super classes, nearest first. -/
def superLine : (limit : Nat) → (seen : List String) → String →
    Except ResolutionError (List String)
  | 0, _, n => throw (.unbounded n loader)
  | limit + 1, seen, n => do
    match ← facts.parentOf n with
    | none => return [n]
    | some p =>
      if p ∈ seen then throw (.circular p loader)
      else do
        let line ← superLine limit (p :: seen) p
        return n :: line

/-- Searches a list of interfaces in order. -/
def searchEach (target : String)
    (deeper : String → List String → Except ResolutionError (Bool × List String)) :
    List String → (visited : List String) → Except ResolutionError (Bool × List String)
  | [], visited => return (false, visited)
  | n :: ns, visited =>
    if n = target then return (true, visited)
    else if n ∈ visited then searchEach target deeper ns visited
    else do
      let (found, visited) ← deeper n (n :: visited)
      if found then return (true, visited)
      else searchEach target deeper ns visited

/-- Searches the interfaces below a type. -/
def searchBelow (target : String) :
    (limit : Nat) → String → (visited : List String) →
      Except ResolutionError (Bool × List String)
  | 0, n, _ => throw (.unbounded n loader)
  | limit + 1, n, visited => do
    let ns ← facts.parentsOf n
    searchEach target (searchBelow target limit) ns visited

/-- Searches the interfaces below each type of a line. -/
def searchLine (target : String) (limit : Nat) :
    List String → (visited : List String) → Except ResolutionError Bool
  | [], _ => return false
  | n :: ns, visited => do
    let (found, visited) ← facts.searchBelow loader target limit n visited
    if found then return true
    else searchLine target limit ns visited

/-- Whether a value of a type that resolves can be assigned to `target`. -/
def assignable (limit : Nat) (target n : String) : Except ResolutionError Bool :=
  if n = target then return true
  else do
    let line ← facts.superLine loader limit [n] n
    if target ∈ line.drop 1 then return true
    else facts.searchLine loader target (limit + 1) line []

end Search

section Edges

variable {facts : TypeFacts} {n m : String}

theorem Super.unique {m' : String} (h : facts.Super n m) (h' : facts.Super n m') : m = m' := by
  obtain ⟨header, hn, hm⟩ := h
  obtain ⟨header', hn', hm'⟩ := h'
  rw [hn] at hn'
  cases hn'
  rw [hm] at hm'
  exact Option.some.inj hm'

theorem resolved_ok (h : facts.resolved n = .ok m) : m = n ∧ facts.Resolves n := by
  obtain ⟨header, hn, h⟩ := (except_bind_eq_ok_iff _ _ _).1 h
  cases h
  exact ⟨rfl, header, hn⟩

theorem resolved_error {e : ResolutionError} (h : facts.resolved n = .error e) :
    facts n = .error e := by
  rcases (except_bind_eq_error_iff _ _ _).1 h with h | ⟨_, -, h⟩
  · exact h
  · cases h

theorem parentOf_of_root {h : ClassHeader} (hn : facts n = .ok h) (hp : h.superName = none) :
    facts.parentOf n = .ok none := by
  rw [parentOf, hn]
  simp only [bind, Except.bind, ClassHeader.parent, hp, Option.map_none]
  rfl

theorem parentOf_of_declared {h : ClassHeader} {name : String} (hn : facts n = .ok h)
    (hp : h.superName = some name) :
    facts.parentOf n = some <$> facts.resolved (ClassName.internal name) := by
  rw [parentOf, hn]
  simp only [bind, Except.bind, ClassHeader.parent, hp, Option.map_some]

theorem parentOf_none (h : facts.parentOf n = .ok none) :
    facts.Resolves n ∧ ∀ m, ¬ facts.Super n m := by
  obtain ⟨header, hn, h⟩ := (except_bind_eq_ok_iff _ _ _).1 h
  refine ⟨⟨header, hn⟩, ?_⟩
  rintro m ⟨header', hn', hm⟩
  rw [hn] at hn'
  cases hn'
  rw [hm] at h
  cases hr : facts.resolved m with
  | ok p =>
    simp only [hr] at h
    cases h
  | error e =>
    simp only [hr] at h
    cases h

theorem parentOf_some (h : facts.parentOf n = .ok (some m)) :
    facts.Super n m ∧ facts.Resolves m := by
  obtain ⟨header, hn, h⟩ := (except_bind_eq_ok_iff _ _ _).1 h
  cases hp : header.parent with
  | none =>
    rw [hp] at h
    cases h
  | some p =>
    rw [hp] at h
    cases hr : facts.resolved p with
    | ok q =>
      simp only [hr] at h
      cases h
      obtain ⟨rfl, hresolves⟩ := resolved_ok hr
      exact ⟨⟨header, hn, hp⟩, hresolves⟩
    | error e =>
      simp only [hr] at h
      cases h

theorem parentOf_error {e : ResolutionError} (hn : facts.Resolves n)
    (h : facts.parentOf n = .error e) : ∃ m, facts.Super n m ∧ facts m = .error e := by
  obtain ⟨header, hn⟩ := hn
  rcases (except_bind_eq_error_iff _ _ _).1 h with h | ⟨header', hn', h⟩
  · rw [hn] at h
    cases h
  · rw [hn] at hn'
    cases hn'
    cases hp : header.parent with
    | none =>
      rw [hp] at h
      cases h
    | some p =>
      rw [hp] at h
      cases hr : facts.resolved p with
      | ok q =>
        simp only [hr] at h
        cases h
      | error e =>
        simp only [hr] at h
        cases h
        exact ⟨p, ⟨header, hn, hp⟩, resolved_error hr⟩

theorem resolveAll_ok {ps qs : List String}
    (h : ps.mapM facts.resolved = .ok qs) : qs = ps ∧ ∀ p ∈ ps, facts.Resolves p := by
  induction ps generalizing qs with
  | nil =>
    cases h
    exact ⟨rfl, fun _ h => absurd h List.not_mem_nil⟩
  | cons p ps ih =>
    rw [List.mapM_cons] at h
    obtain ⟨q, hp, h⟩ := (except_bind_eq_ok_iff _ _ _).1 h
    obtain ⟨qs, hps, h⟩ := (except_bind_eq_ok_iff _ _ _).1 h
    cases h
    obtain ⟨rfl, hresolves⟩ := resolved_ok hp
    obtain ⟨rfl, hall⟩ := ih hps
    refine ⟨rfl, ?_⟩
    intro r hr
    rcases List.mem_cons.1 hr with rfl | hr
    · exact hresolves
    · exact hall r hr

theorem resolveAll_error {ps : List String} {e : ResolutionError}
    (h : ps.mapM facts.resolved = .error e) : ∃ p ∈ ps, facts p = .error e := by
  induction ps with
  | nil => cases h
  | cons p ps ih =>
    rw [List.mapM_cons] at h
    rcases (except_bind_eq_error_iff _ _ _).1 h with h | ⟨q, -, h⟩
    · exact ⟨p, List.mem_cons_self, resolved_error h⟩
    · rcases (except_bind_eq_error_iff _ _ _).1 h with h | ⟨_, -, h⟩
      · obtain ⟨r, hr, he⟩ := ih h
        exact ⟨r, List.mem_cons_of_mem p hr, he⟩
      · cases h

theorem parentsOf_ok {ns : List String} (h : facts.parentsOf n = .ok ns) :
    (∀ m, facts.Interface n m ↔ m ∈ ns) ∧ ∀ m ∈ ns, facts.Resolves m := by
  obtain ⟨header, hn, h⟩ := (except_bind_eq_ok_iff _ _ _).1 h
  obtain ⟨rfl, hall⟩ := resolveAll_ok h
  refine ⟨?_, hall⟩
  intro m
  constructor
  · rintro ⟨header', hn', hm⟩
    rw [hn] at hn'
    cases hn'
    exact hm
  · intro hm
    exact ⟨header, hn, hm⟩

theorem parentsOf_error {e : ResolutionError} (hn : facts.Resolves n)
    (h : facts.parentsOf n = .error e) : ∃ m, facts.Interface n m ∧ facts m = .error e := by
  obtain ⟨header, hn⟩ := hn
  rcases (except_bind_eq_error_iff _ _ _).1 h with h | ⟨header', hn', h⟩
  · rw [hn] at h
    cases h
  · rw [hn] at hn'
    cases hn'
    obtain ⟨m, hm, he⟩ := resolveAll_error h
    exact ⟨m, ⟨header, hn, hm⟩, he⟩

end Edges

section Line

variable {facts : TypeFacts} {loader : LoaderId} {n m : String}

/-- A line of super classes that comes to an end. -/
inductive Line (facts : TypeFacts) : String → List String → Prop
  | root {n : String} : facts.parentOf n = .ok none → Line facts n [n]
  | step {n p : String} {ns : List String} : facts.parentOf n = .ok (some p) → Line facts p ns →
      Line facts n (n :: ns)

theorem Line.mem_iff {ns : List String} (h : Line facts n ns) : m ∈ ns ↔ facts.OnLine n m := by
  induction h with
  | @root n hn =>
    rw [List.mem_singleton]
    constructor
    · rintro rfl
      exact ReflTransGen.refl
    · intro h
      rcases ReflTransGen.cases_head h with h | ⟨p, hp, -⟩
      · exact h.symm
      · exact absurd hp ((parentOf_none hn).2 p)
  | @step n p ns hn _ ih =>
    rw [List.mem_cons, ih]
    have hp := (parentOf_some hn).1
    constructor
    · rintro (rfl | h)
      · exact ReflTransGen.refl
      · exact ReflTransGen.head hp h
    · intro h
      rcases ReflTransGen.cases_head h with h | ⟨p', hp', h⟩
      · exact Or.inl h.symm
      · -- a type has one super class, so every way up goes through `p`
        rw [hp.unique hp']
        exact Or.inr h

theorem Line.resolves {ns : List String} (h : Line facts n ns) : ∀ m ∈ ns, facts.Resolves m := by
  induction h with
  | root hn =>
    intro m hm
    rw [List.mem_singleton.1 hm]
    exact (parentOf_none hn).1
  | step hn _ ih =>
    obtain ⟨header, hheader, -⟩ := (parentOf_some hn).1
    intro m hm
    rcases List.mem_cons.1 hm with rfl | hm
    · exact ⟨header, hheader⟩
    · exact ih m hm

/-- A line that comes to an end passes no type twice. -/
theorem Line.not_revisited {ns : List String} (h : Line facts n ns) :
    ∀ m ∈ ns, ¬ TransGen facts.Super m m := by
  induction h with
  | root hn =>
    intro m hm hcircle
    rw [List.mem_singleton.1 hm] at hcircle
    obtain ⟨p, hp, -⟩ := TransGen.head'_iff.1 hcircle
    exact (parentOf_none hn).2 p hp
  | @step n p ns hn hline ih =>
    intro m hm
    rcases List.mem_cons.1 hm with rfl | hm
    · intro hcircle
      obtain ⟨p', hp', hback⟩ := TransGen.head'_iff.1 hcircle
      rw [← (parentOf_some hn).1.unique hp'] at hback
      -- A type that lies above its own super class lies on a line that is free of circles.
      exact ih m (hline.mem_iff.2 hback) hcircle
    · exact ih m hm

theorem Line.not_circular {ns : List String} (h : Line facts n ns) : ¬ facts.Circular n := by
  rintro ⟨m, hm, hcircle⟩
  exact h.not_revisited m (h.mem_iff.2 hm) hcircle

/-- Different names, all of which resolve. -/
structure Explored (facts : TypeFacts) (names : List String) : Prop where
  nodup : names.Nodup
  resolves : ∀ n ∈ names, facts.Resolves n

theorem Explored.cons {names : List String} (h : facts.Explored names)
    (hn : n ∉ names) (hr : facts.Resolves n) : facts.Explored (n :: names) := by
  refine ⟨List.nodup_cons.2 ⟨hn, h.nodup⟩, ?_⟩
  intro m hm
  rcases List.mem_cons.1 hm with rfl | hm
  · exact hr
  · exact h.resolves m hm

theorem superLine_ok {limit : Nat} {seen ns : List String}
    (h : facts.superLine loader limit seen n = .ok ns) : Line facts n ns := by
  induction limit generalizing seen n ns with
  | zero => cases h
  | succ limit ih =>
    obtain ⟨parent, hparent, h⟩ := (except_bind_eq_ok_iff _ _ _).1 h
    cases parent with
    | none =>
      cases h
      exact Line.root hparent
    | some p =>
      by_cases hp : p ∈ seen
      · simp only [if_pos hp] at h
        cases h
      · simp only [if_neg hp] at h
        obtain ⟨line, hline, h⟩ := (except_bind_eq_ok_iff _ _ _).1 h
        cases h
        exact Line.step hparent (ih hline)

/-- A line is cut short by a type that does not resolve or by one that comes twice; the limit is
never reached. -/
theorem superLine_error {bound limit : Nat} {seen : List String} {e : ResolutionError}
    (hbound : facts.AtMost bound) (hseen : facts.Explored seen)
    (hbelow : ∀ m ∈ seen, facts.OnLine m n) (hn : n ∈ seen)
    (hlimit : bound < seen.length + limit)
    (h : facts.superLine loader limit seen n = .error e) :
    (∃ p, e = .circular p loader ∧ facts.OnLine n p ∧ TransGen facts.Super p p) ∨
      ∃ p, facts.OnLine n p ∧ facts p = .error e := by
  induction limit generalizing seen n with
  | zero =>
    -- the line would run through more types than there are
    exact absurd (hbound seen hseen.nodup hseen.resolves) (Nat.not_le_of_lt hlimit)
  | succ limit ih =>
    rcases (except_bind_eq_error_iff _ _ _).1 h with h | ⟨parent, hparent, h⟩
    · obtain ⟨p, hp, he⟩ := parentOf_error (hseen.resolves n hn) h
      exact Or.inr ⟨p, ReflTransGen.single hp, he⟩
    · cases parent with
      | none => cases h
      | some p =>
        obtain ⟨hsuper, hresolves⟩ := parentOf_some hparent
        by_cases hp : p ∈ seen
        · -- from `p` the line has come to `n`, and `n` leads back to `p`
          simp only [if_pos hp] at h
          cases h
          exact Or.inl ⟨p, rfl, ReflTransGen.single hsuper, TransGen.tail' (hbelow p hp) hsuper⟩
        · simp only [if_neg hp] at h
          rcases (except_bind_eq_error_iff _ _ _).1 h with h | ⟨_, -, h⟩
          · -- one more type has been seen and one step less is left
            have hbelow' : ∀ m ∈ p :: seen, facts.OnLine m p := by
              intro m hm
              rcases List.mem_cons.1 hm with rfl | hm
              · exact ReflTransGen.refl
              · exact (hbelow m hm).tail hsuper
            have hlimit' : bound < (p :: seen).length + limit := by
              rw [List.length_cons]
              omega
            rcases ih (hseen.cons hp hresolves) hbelow' List.mem_cons_self hlimit' h with
              ⟨q, he, hq, hcircle⟩ | ⟨q, hq, he⟩
            · exact Or.inl ⟨q, he, hq.head hsuper, hcircle⟩
            · exact Or.inr ⟨q, hq.head hsuper, he⟩
          · cases h

end Line

section DepthFirst

variable {facts : TypeFacts} {loader : LoaderId} {target n : String}

/-- A type of which every interface has been visited and none is the target. -/
structure Closed (facts : TypeFacts) (target : String) (visited : List String) (n : String) :
    Prop where
  resolves : facts.Resolves n
  interface : ∀ m, facts.Interface n m → m ≠ target ∧ m ∈ visited

theorem Closed.mono {visited visited' : List String} (h : facts.Closed target visited n)
    (hsub : visited ⊆ visited') : facts.Closed target visited' n where
  resolves := h.resolves
  interface m hm := ⟨(h.interface m hm).1, hsub (h.interface m hm).2⟩

/-- From a closed type no way through interfaces leaves a set of closed types. -/
theorem Closed.reached {visited : List String} (hall : ∀ m ∈ visited, facts.Closed target visited m)
    (h : facts.Closed target visited n) {m : String} (hm : TransGen facts.Interface n m) :
    m ≠ target ∧ m ∈ visited := by
  induction hm with
  | single hm => exact h.interface _ hm
  | tail _ hm ih => exact (hall _ ih.2).interface _ hm

/-- What a search that failed to find the target has done: it added types to the visited ones,
and each type it added is closed by now. Types that were visited before may still be open: they
are the ones that the search came through. -/
structure Exhausts (facts : TypeFacts) (target : String) (visited visited' : List String) :
    Prop where
  subset : visited ⊆ visited'
  explored : facts.Explored visited'
  closed : ∀ m ∈ visited', m ∉ visited → facts.Closed target visited' m

theorem Exhausts.refl {visited : List String} (h : facts.Explored visited) :
    facts.Exhausts target visited visited where
  subset := List.Subset.refl visited
  explored := h
  closed _ hm hn := absurd hm hn

theorem Exhausts.trans {visited visited' visited'' : List String}
    (h : facts.Exhausts target visited visited') (h' : facts.Exhausts target visited' visited'') :
    facts.Exhausts target visited visited'' where
  subset := List.Subset.trans h.subset h'.subset
  explored := h'.explored
  closed m hm hn := by
    by_cases hm' : m ∈ visited'
    · exact (h.closed m hm' hn).mono h'.subset
    · exact h'.closed m hm hm'

/-- Once the search below a type is over, the type is closed itself. -/
theorem Exhausts.leave {visited visited' : List String}
    (h : facts.Exhausts target (n :: visited) visited') (hn : facts.Closed target visited' n) :
    facts.Exhausts target visited visited' where
  subset _ hm := h.subset (List.mem_cons_of_mem n hm)
  explored := h.explored
  closed m hm hm' := by
    by_cases e : m = n
    · rw [e]
      exact hn
    · refine h.closed m hm ?_
      intro hmem
      rcases List.mem_cons.1 hmem with he | hmem
      · exact e he
      · exact hm' hmem

theorem Exhausts.length_le {visited visited' : List String} (hv : visited.Nodup)
    (h : facts.Exhausts target visited visited') : visited.length ≤ visited'.length :=
  hv.length_le_of_subset h.subset

/-- A type reached through interfaces from one of those that satisfy `start`. -/
def ReachedFrom (facts : TypeFacts) (start : String → Prop) (m : String) : Prop :=
  ∃ k, start k ∧ ReflTransGen facts.Interface k m

/-- What a search from the types that satisfy `start` may yield. -/
def SearchResult (facts : TypeFacts) (target : String) (start : String → Prop)
    (visited : List String) : Except ResolutionError (Bool × List String) → Prop
  | .ok (true, _) => facts.ReachedFrom start target
  | .ok (false, visited') =>
    facts.Exhausts target visited visited' ∧ ∀ k, start k → k ≠ target ∧ k ∈ visited'
  | .error e => ∃ m, facts.ReachedFrom start m ∧ facts m = .error e

theorem ReachedFrom.mono {start start' : String → Prop} {m : String}
    (h : facts.ReachedFrom start m) (hsub : ∀ k, start k → start' k) :
    facts.ReachedFrom start' m := by
  obtain ⟨k, hk, hm⟩ := h
  exact ⟨k, hsub k hk, hm⟩

theorem ReachedFrom.of_interface {m : String} (h : facts.ReachedFrom (facts.Interface n) m) :
    TransGen facts.Interface n m := by
  obtain ⟨k, hk, hm⟩ := h
  exact TransGen.head' hk hm

/-- A list is searched rightly when the search below each of its types goes right. -/
theorem searchEach_result {bound limit : Nat}
    {deeper : String → List String → Except ResolutionError (Bool × List String)}
    (hdeeper : ∀ n visited, facts.Resolves n → facts.Explored visited →
      bound < visited.length + limit →
      facts.SearchResult target (facts.Interface n) visited (deeper n visited))
    {ns visited : List String} (hns : ∀ n ∈ ns, facts.Resolves n)
    (hvisited : facts.Explored visited) (hlimit : bound < visited.length + (limit + 1)) :
    facts.SearchResult target (· ∈ ns) visited (searchEach target deeper ns visited) := by
  induction ns generalizing visited with
  | nil => exact ⟨Exhausts.refl hvisited, fun _ h => absurd h List.not_mem_nil⟩
  | cons n ns ih =>
    have hrest : ∀ m ∈ ns, facts.Resolves m := fun m hm => hns m (List.mem_cons_of_mem n hm)
    have widen : ∀ k, k ∈ ns → k ∈ n :: ns := fun k hk => List.mem_cons_of_mem n hk
    rw [searchEach]
    by_cases ht : n = target
    · -- found
      rw [if_pos ht]
      exact ⟨n, List.mem_cons_self, by rw [ht]⟩
    · rw [if_neg ht]
      -- What holds of the rest of the list holds of the list once `n` has been visited.
      have extend : ∀ {visited₁ : List String} {r : Except ResolutionError (Bool × List String)},
          facts.Exhausts target visited visited₁ → n ∈ visited₁ →
          facts.SearchResult target (· ∈ ns) visited₁ r →
          facts.SearchResult target (· ∈ n :: ns) visited r := by
        intro visited₁ r hex hn hr
        match r, hr with
        | .ok (true, _), hr => exact hr.mono widen
        | .ok (false, visited₂), ⟨hex', hall⟩ =>
          refine ⟨hex.trans hex', ?_⟩
          intro k hk
          rcases List.mem_cons.1 hk with rfl | hk
          · exact ⟨ht, hex'.subset hn⟩
          · exact hall k hk
        | .error e, ⟨m, hm, he⟩ => exact ⟨m, hm.mono widen, he⟩
      by_cases hn : n ∈ visited
      · -- visited before: closed by now, or still being searched further up
        rw [if_pos hn]
        exact extend (Exhausts.refl hvisited) hn (ih hrest hvisited hlimit)
      · rw [if_neg hn]
        have hcons := hvisited.cons hn (hns n List.mem_cons_self)
        have hlimit' : bound < (n :: visited).length + limit := by
          rw [List.length_cons]
          omega
        have hbelow := hdeeper n (n :: visited) (hns n List.mem_cons_self) hcons hlimit'
        have enter : ∀ {m : String}, facts.ReachedFrom (facts.Interface n) m →
            facts.ReachedFrom (· ∈ n :: ns) m := by
          intro m hm
          exact ⟨n, List.mem_cons_self, hm.of_interface.to_reflTransGen⟩
        match hr : deeper n (n :: visited), hbelow with
        | .ok (true, _), hbelow => exact enter hbelow
        | .ok (false, visited₁), ⟨hex, hall⟩ =>
          -- every interface of `n` is visited by now, so `n` is closed
          have hex' := hex.leave ⟨hns n List.mem_cons_self, hall⟩
          have hlen := hex'.length_le hvisited.nodup
          exact extend hex' (hex.subset List.mem_cons_self) (ih hrest hex.explored (by omega))
        | .error e, ⟨m, hm, he⟩ => exact ⟨m, enter hm, he⟩

theorem searchBelow_result {bound : Nat} (hbound : facts.AtMost bound) (limit : Nat) :
    ∀ (n : String) (visited : List String), facts.Resolves n → facts.Explored visited →
      bound < visited.length + limit →
      facts.SearchResult target (facts.Interface n) visited
        (facts.searchBelow loader target limit n visited) := by
  induction limit with
  | zero =>
    -- each level has visited one more type
    intro n visited _ hvisited hlimit
    exact absurd (hbound visited hvisited.nodup hvisited.resolves) (Nat.not_le_of_lt hlimit)
  | succ limit ih =>
    intro n visited hn hvisited hlimit
    rw [searchBelow]
    cases hp : facts.parentsOf n with
    | error e =>
      obtain ⟨m, hm, he⟩ := parentsOf_error hn hp
      exact ⟨m, ⟨m, hm, ReflTransGen.refl⟩, he⟩
    | ok ns =>
      -- the search starts from all interfaces of `n`, and these are the types listed
      obtain ⟨hiff, hns⟩ := parentsOf_ok hp
      have hstart : facts.Interface n = (· ∈ ns) := funext fun m => propext (hiff m)
      rw [hstart]
      exact searchEach_result ih hns hvisited hlimit

/-- What a search below every type of a line may yield. -/
def LineResult (facts : TypeFacts) (target : String) (line : List String) :
    Except ResolutionError Bool → Prop
  | .ok true => ∃ n ∈ line, TransGen facts.Interface n target
  | .ok false => ∀ n ∈ line, ∀ m, TransGen facts.Interface n m → m ≠ target ∧ facts.Resolves m
  | .error e => ∃ n ∈ line, ∃ m, TransGen facts.Interface n m ∧ facts m = .error e

theorem searchLine_result {bound limit : Nat} (hbound : facts.AtMost bound)
    {line visited : List String} (hline : ∀ n ∈ line, facts.Resolves n)
    (hvisited : facts.Explored visited) (hclosed : ∀ m ∈ visited, facts.Closed target visited m)
    (hlimit : bound < visited.length + limit) :
    facts.LineResult target line (facts.searchLine loader target limit line visited) := by
  induction line generalizing visited with
  | nil => exact fun _ h => absurd h List.not_mem_nil
  | cons n line ih =>
    have hbelow : facts.SearchResult target (facts.Interface n) visited
        (facts.searchBelow loader target limit n visited) :=
      searchBelow_result hbound limit n visited (hline n List.mem_cons_self) hvisited hlimit
    rw [searchLine]
    match hr : facts.searchBelow loader target limit n visited, hbelow with
    | .ok (true, _), hbelow => exact ⟨n, List.mem_cons_self, hbelow.of_interface⟩
    | .error e, ⟨m, hm, he⟩ => exact ⟨n, List.mem_cons_self, m, hm.of_interface, he⟩
    | .ok (false, visited₁), ⟨hex, hall⟩ =>
      have hlen := hex.length_le hvisited.nodup
      have hn : facts.Closed target visited₁ n := ⟨hline n List.mem_cons_self, hall⟩
      -- nothing is open between two types of the line
      have hclosed₁ : ∀ m ∈ visited₁, facts.Closed target visited₁ m := by
        intro m hm
        by_cases hm' : m ∈ visited
        · exact (hclosed m hm').mono hex.subset
        · exact hex.closed m hm hm'
      have hrest := ih (fun m hm => hline m (List.mem_cons_of_mem n hm)) hex.explored hclosed₁
        (by omega)
      show facts.LineResult target (n :: line) (facts.searchLine loader target limit line visited₁)
      match facts.searchLine loader target limit line visited₁, hrest with
      | .ok true, ⟨k, hk, hreach⟩ => exact ⟨k, List.mem_cons_of_mem n hk, hreach⟩
      | .error e, ⟨k, hk, herr⟩ => exact ⟨k, List.mem_cons_of_mem n hk, herr⟩
      | .ok false, hrest =>
        intro k hk m hm
        rcases List.mem_cons.1 hk with rfl | hk
        · obtain ⟨hne, hmem⟩ := hn.reached hclosed₁ hm
          exact ⟨hne, hex.explored.resolves m hmem⟩
        · exact hrest k hk m hm

end DepthFirst

section Assignability

variable {facts : TypeFacts} {loader : LoaderId} {target n : String}

/-- What the search for an ancestor may yield. -/
def Verdict (facts : TypeFacts) (loader : LoaderId) (target n : String) :
    Except ResolutionError Bool → Prop
  | .ok true => facts.Ancestor n target
  | .ok false => ¬ facts.Ancestor n target ∧ ¬ facts.Circular n ∧
      ∀ m, facts.Ancestor n m → facts.Resolves m
  | .error e =>
    (∃ p, e = .circular p loader ∧ facts.OnLine n p ∧ TransGen facts.Super p p) ∨
      ∃ m, facts.Ancestor n m ∧ facts m = .error e

theorem Line.ancestor_iff {ns : List String} (h : Line facts n ns) {m : String} :
    facts.Ancestor n m ↔ m ∈ ns ∨ ∃ k ∈ ns, TransGen facts.Interface k m := by
  constructor
  · rintro (rfl | hm | ⟨k, hk, hm⟩)
    · exact Or.inl (h.mem_iff.2 ReflTransGen.refl)
    · exact Or.inl (h.mem_iff.2 hm)
    · exact Or.inr ⟨k, h.mem_iff.2 hk, hm⟩
  · rintro (hm | ⟨k, hk, hm⟩)
    · exact Or.inr (Or.inl (h.mem_iff.1 hm))
    · exact Or.inr (Or.inr ⟨k, h.mem_iff.1 hk, hm⟩)

theorem Line.eq_cons_drop {ns : List String} (h : Line facts n ns) : ns = n :: ns.drop 1 := by
  cases h with
  | root _ => rfl
  | step _ _ => rfl

/-- **The search decides ancestry**, or fails for a reason that lies among the ancestors. -/
theorem assignable_verdict {bound limit : Nat} (hbound : facts.AtMost bound)
    (hlimit : bound ≤ limit) (hn : facts.Resolves n) :
    facts.Verdict loader target n (facts.assignable loader limit target n) := by
  rw [assignable]
  by_cases ht : n = target
  · rw [if_pos ht]
    exact Or.inl ht.symm
  · rw [if_neg ht]
    have hseen : facts.Explored [n] :=
      ⟨by simp, fun m hm => by rw [List.mem_singleton.1 hm]; exact hn⟩
    cases hl : facts.superLine loader limit [n] n with
    | error e =>
      have hbelow : ∀ m ∈ [n], facts.OnLine m n := by
        intro m hm
        rw [List.mem_singleton.1 hm]
        exact ReflTransGen.refl
      have hlimit' : bound < [n].length + limit := by
        rw [List.length_singleton]
        omega
      rcases superLine_error hbound hseen hbelow (List.mem_singleton.2 rfl) hlimit' hl with
        hcircle | ⟨m, hm, he⟩
      · exact Or.inl hcircle
      · exact Or.inr ⟨m, Or.inr (Or.inl hm), he⟩
    | ok line =>
      -- the line is complete, so it has no circle and all its types resolve
      have hline := superLine_ok hl
      show facts.Verdict loader target n (if target ∈ line.drop 1 then return true
        else facts.searchLine loader target (limit + 1) line [])
      by_cases hmem : target ∈ line.drop 1
      · rw [if_pos hmem]
        exact hline.ancestor_iff.2 (Or.inl (List.mem_of_mem_drop hmem))
      · rw [if_neg hmem]
        -- the line starts with `n`, which is not the target either
        have hnotin : target ∉ line := by
          rw [hline.eq_cons_drop]
          intro h
          rcases List.mem_cons.1 h with h | h
          · exact ht h.symm
          · exact hmem h
        -- nothing is visited at first, so nothing is open
        have hsearch : facts.LineResult target line
            (facts.searchLine loader target (limit + 1) line []) := by
          refine searchLine_result hbound hline.resolves ⟨List.nodup_nil, ?_⟩ ?_ ?_
          · exact fun _ h => absurd h List.not_mem_nil
          · exact fun _ h => absurd h List.not_mem_nil
          · rw [List.length_nil]
            omega
        match facts.searchLine loader target (limit + 1) line [], hsearch with
        | .ok true, hreach => exact hline.ancestor_iff.2 (Or.inr hreach)
        | .error e, ⟨k, hk, m, hm, he⟩ =>
          exact Or.inr ⟨m, hline.ancestor_iff.2 (Or.inr ⟨k, hk, hm⟩), he⟩
        | .ok false, hnone =>
          refine ⟨?_, hline.not_circular, ?_⟩
          · intro hanc
            rcases hline.ancestor_iff.1 hanc with h | ⟨k, hk, h⟩
            · exact hnotin h
            · exact (hnone k hk target h).1 rfl
          · intro m hanc
            rcases hline.ancestor_iff.1 hanc with h | ⟨k, hk, h⟩
            · exact hline.resolves m h
            · exact (hnone k hk m h).2

end Assignability

end TypeFacts

end Reclass
