import Mathlib.Data.List.Nodup
import Reclass.Proofs.Hierarchy.Ancestry

/-!
# How far a search goes

A search for an ancestor is given a limit, and the limit that a resolver gives depends on what it
has been asked before. The answer does not, as soon as the graph is bounded: when all types with an
interface, and all types on whose line two more follow, are among a list of names, every limit from
two more than that list on leads to one answer (`TypeFacts.assignable_limit`). The types that
resolve may be infinitely many.

The invariant of the walk along a line is that the names seen are different and all but the last
two on the list. Below a type of the line the walk follows interfaces; the names on the way down
are different, as each was marked before it was entered, and all but the last are on the list.

Two searches for one target go side by side as long as what the first one learns is known to the
second one (`TypeFacts.assignable_sameBut`). So whatever the graph, a higher limit changes nothing
about a search that was not cut off (`TypeFacts.assignable_improves`), and what is found with some
facts is found with more of them (`TypeFacts.assignable_of_subsumes`).
-/

set_option autoImplicit false

namespace Reclass.TypeFacts

variable {facts : TypeFacts} {loader : LoaderId} {core : List String} {n : String}
  {limit limit' : Nat}

/-- The types from which a search goes on are among a list of names. -/
structure Within (facts : TypeFacts) (core : List String) : Prop where
  line : ∀ n m k, facts.Super n m → facts.Super m k → n ∈ core
  interface : ∀ n m, facts.Interface n m → n ∈ core

/-- Different names, all but the first of which are on the list. -/
structure Trail (core names : List String) : Prop where
  nodup : names.Nodup
  rest : names.tail ⊆ core

theorem Trail.length_le {names : List String} (h : Trail core names) :
    names.length ≤ core.length + 1 := by
  have hrest := (h.nodup.sublist (List.tail_sublist names)).length_le_of_subset h.rest
  rw [List.length_tail] at hrest
  omega

theorem Trail.cons {names : List String} (h : Trail core names) (hnames : names ⊆ core)
    (hn : n ∉ names) : Trail core (n :: names) :=
  ⟨List.nodup_cons.2 ⟨hn, h.nodup⟩, hnames⟩

/-! ### Along a line -/

/-- The line of a type, to which some names have led, is the same for all limits that are high
enough. -/
theorem superLine_limit (hcore : facts.Within core) {before : List String}
    (hbefore : Trail core before) (hn : n ∉ before)
    (hline : ∀ m, facts.Super n m → before ⊆ core)
    (hlimit : core.length + 1 < before.length + limit)
    (hlimit' : core.length + 1 < before.length + limit') :
    facts.superLine loader limit (n :: before) n =
      facts.superLine loader limit' (n :: before) n := by
  have hlength := hbefore.length_le
  induction limit generalizing limit' n before with
  | zero => omega
  | succ limit ih =>
    cases limit' with
    | zero => omega
    | succ limit' =>
      rw [superLine, superLine]
      cases hparent : facts.parentOf n with
      | error e => rfl
      | ok parent =>
        cases parent with
        | none => rfl
        | some p =>
          have hsuper := (parentOf_some hparent).1
          by_cases hp : p ∈ n :: before
          · simp only [bind, Except.bind, if_pos hp]
          · have hmore := hbefore.cons (hline p hsuper) hn
            have hrest : facts.superLine loader limit (p :: n :: before) p =
                facts.superLine loader limit' (p :: n :: before) p := by
              refine ih hmore hp ?_ ?_ ?_ hmore.length_le
              · intro m hm
                exact List.cons_subset.2 ⟨hcore.line n p m hsuper hm, hline p hsuper⟩
              · rw [List.length_cons]
                omega
              · rw [List.length_cons]
                omega
            simp only [bind, Except.bind, if_neg hp, hrest]

/-! ### Below a type -/

/-- Two searches do the same, and forget no name that has been visited. -/
def Alike (visited : List String) (x y : Except ResolutionError (Bool × List String)) : Prop :=
  x = y ∧ ∀ found visited', x = .ok (found, visited') → visited ⊆ visited'

theorem Alike.error (visited : List String) (e : ResolutionError) :
    Alike visited (.error e) (.error e) := by
  refine ⟨rfl, ?_⟩
  rintro found visited' ⟨⟩

theorem Alike.ok (visited : List String) (found : Bool) :
    Alike visited (.ok (found, visited)) (.ok (found, visited)) := by
  refine ⟨rfl, ?_⟩
  rintro found' visited' ⟨⟩
  exact List.Subset.refl visited

theorem Alike.mono {visited visited₀ : List String}
    {x y : Except ResolutionError (Bool × List String)} (h : Alike visited x y)
    (hsub : visited₀ ⊆ visited) : Alike visited₀ x y :=
  ⟨h.1, fun found visited' hx => List.Subset.trans hsub (h.2 found visited' hx)⟩

/-- Searches of a list are alike when the searches below its members are. -/
theorem searchEach_alike {target : String}
    {deeper deeper' : String → List String → Except ResolutionError (Bool × List String)}
    {ns visited₀ visited : List String} (hsub : visited₀ ⊆ visited)
    (hdeeper : ∀ m ∈ ns, ∀ visited, visited₀ ⊆ visited → m ∉ visited →
      Alike (m :: visited) (deeper m (m :: visited)) (deeper' m (m :: visited))) :
    Alike visited (searchEach target deeper ns visited)
      (searchEach target deeper' ns visited) := by
  induction ns generalizing visited with
  | nil => exact Alike.ok visited false
  | cons m ns ih =>
    have hrest := fun visited (h : visited₀ ⊆ visited) =>
      ih h fun m' hm' => hdeeper m' (List.mem_cons_of_mem m hm')
    rw [searchEach, searchEach]
    by_cases ht : m = target
    · rw [if_pos ht, if_pos ht]
      exact Alike.ok visited true
    · rw [if_neg ht, if_neg ht]
      by_cases hm : m ∈ visited
      · rw [if_pos hm, if_pos hm]
        exact hrest visited hsub
      · rw [if_neg hm, if_neg hm]
        obtain ⟨heq, hkept⟩ := hdeeper m List.mem_cons_self visited hsub hm
        rw [← heq]
        cases hbelow : deeper m (m :: visited) with
        | error e => exact Alike.error visited e
        | ok below =>
          obtain ⟨found, visited'⟩ := below
          have hvisited : visited ⊆ visited' :=
            List.Subset.trans (List.subset_cons_self m visited) (hkept found visited' hbelow)
          cases found with
          | true => exact (Alike.ok visited' true).mono hvisited
          | false => exact (hrest visited' (List.Subset.trans hsub hvisited)).mono hvisited

/-- The search below a type, to which some names have led down, is the same for all limits that are
high enough. -/
theorem searchBelow_limit (hcore : facts.Within core) {target : String} {way visited : List String}
    (hway : Trail core way) (hsub : way ⊆ visited)
    (hbelow : ∀ m, facts.Interface n m → way ⊆ core)
    (hlimit : core.length + 1 < way.length + limit)
    (hlimit' : core.length + 1 < way.length + limit') :
    Alike visited (facts.searchBelow loader target limit n visited)
      (facts.searchBelow loader target limit' n visited) := by
  have hlength := hway.length_le
  induction limit generalizing limit' n way visited with
  | zero => omega
  | succ limit ih =>
    cases limit' with
    | zero => omega
    | succ limit' =>
      rw [searchBelow, searchBelow]
      cases hparents : facts.parentsOf n with
      | error e => exact Alike.error visited e
      | ok ns =>
        refine searchEach_alike hsub fun m hm visited' hsub' hnew => ?_
        have hinterface := ((parentsOf_ok hparents).1 m).2 hm
        have hmore := hway.cons (hbelow m hinterface) fun h => hnew (hsub' h)
        refine ih hmore ?_ ?_ ?_ ?_ hmore.length_le
        · exact List.cons_subset_cons m hsub'
        · intro k hk
          exact List.cons_subset.2 ⟨hcore.interface m k hk, hbelow m hinterface⟩
        · rw [List.length_cons]
          omega
        · rw [List.length_cons]
          omega

theorem searchLine_limit (hcore : facts.Within core) {target : String} {line visited : List String}
    (hlimit : core.length + 1 < limit) (hlimit' : core.length + 1 < limit') :
    facts.searchLine loader target limit line visited =
      facts.searchLine loader target limit' line visited := by
  induction line generalizing visited with
  | nil => rfl
  | cons n line ih =>
    have hbelow : facts.searchBelow loader target limit n visited =
        facts.searchBelow loader target limit' n visited := by
      have hway : Trail core [] := ⟨List.nodup_nil, List.nil_subset core⟩
      refine (searchBelow_limit hcore hway (List.nil_subset visited)
        (fun _ _ => List.nil_subset core) ?_ ?_).1
      · rw [List.length_nil]
        omega
      · rw [List.length_nil]
        omega
    rw [searchLine, searchLine, hbelow]
    simp only [ih]

/-- **The limit of a search does not matter**, as long as it is high enough for the graph. -/
theorem assignable_limit (hcore : facts.Within core) (target : String)
    (hlimit : core.length + 2 ≤ limit) (hlimit' : core.length + 2 ≤ limit') :
    facts.assignable loader limit target n = facts.assignable loader limit' target n := by
  have hline : facts.superLine loader limit [n] n = facts.superLine loader limit' [n] n := by
    refine superLine_limit hcore ⟨List.nodup_nil, List.nil_subset core⟩ List.not_mem_nil
      (fun _ _ => List.nil_subset core) ?_ ?_
    · rw [List.length_nil]
      omega
    · rw [List.length_nil]
      omega
  have hsearch : ∀ line, facts.searchLine loader target (limit + 1) line [] =
      facts.searchLine loader target (limit' + 1) line [] :=
    fun line => searchLine_limit hcore (by omega) (by omega)
  rw [assignable, assignable, hline]
  simp only [hsearch]

/-! ### Searches side by side -/

section SideBySide

variable {α β : Type} {excused : ResolutionError → Prop} {facts' : TypeFacts} {loader' : LoaderId}

/-- The two results are one, unless the first one is a failure that is excused. -/
def SameBut (excused : ResolutionError → Prop) (r r' : Except ResolutionError α) : Prop :=
  (∃ e, excused e ∧ r = .error e) ∨ r = r'

theorem SameBut.refl (r : Except ResolutionError α) : SameBut excused r r := Or.inr rfl

theorem SameBut.bind {r r' : Except ResolutionError α} {f g : α → Except ResolutionError β}
    (h : SameBut excused r r') (hfg : ∀ a, SameBut excused (f a) (g a)) :
    SameBut excused (r >>= f) (r' >>= g) := by
  rcases h with ⟨e, he, rfl⟩ | rfl
  · exact Or.inl ⟨e, he, rfl⟩
  · cases r with
    | error e => exact SameBut.refl _
    | ok a => exact hfg a

/-- A result that is no excused failure is the other result too. -/
theorem SameBut.eq_ok {r r' : Except ResolutionError α} (h : SameBut excused r r') {a : α}
    (hr : r = .ok a) : r' = .ok a := by
  rcases h with ⟨e, -, he⟩ | rfl
  · cases he.symm.trans hr
  · exact hr

/-- What is known on the one side is known on the other, but for failures that are excused; so are
the failures that name a loader, unless it is one loader, and searches that are cut off. -/
structure Backs (excused : ResolutionError → Prop) (facts facts' : TypeFacts)
    (loader loader' : LoaderId) : Prop where
  facts : ∀ n, SameBut excused (facts n) (facts' n)
  circular : ∀ n, excused (.circular n loader) ∨ loader = loader'
  cutOff : ∀ n, excused (.unbounded n loader)

section Rules

variable (hbacks : Backs excused facts facts' loader loader')
include hbacks

theorem resolved_sameBut (n : String) : SameBut excused (facts.resolved n) (facts'.resolved n) :=
  (hbacks.facts n).bind fun _ => SameBut.refl _

theorem parentOf_sameBut (n : String) : SameBut excused (facts.parentOf n) (facts'.parentOf n) := by
  refine (hbacks.facts n).bind fun header => ?_
  cases header.parent with
  | none => exact SameBut.refl _
  | some p => exact (resolved_sameBut hbacks p).bind fun _ => SameBut.refl _

theorem parentsOf_sameBut (n : String) :
    SameBut excused (facts.parentsOf n) (facts'.parentsOf n) := by
  refine (hbacks.facts n).bind fun header => ?_
  induction header.parents with
  | nil => exact SameBut.refl _
  | cons p ps ih =>
    rw [List.mapM_cons, List.mapM_cons]
    exact (resolved_sameBut hbacks p).bind fun _ => ih.bind fun _ => SameBut.refl _

theorem superLine_sameBut (h : limit ≤ limit') (seen : List String) (n : String) :
    SameBut excused (facts.superLine loader limit seen n)
      (facts'.superLine loader' limit' seen n) := by
  induction limit generalizing limit' seen n with
  | zero => exact Or.inl ⟨_, hbacks.cutOff n, rfl⟩
  | succ limit ih =>
    cases limit' with
    | zero => omega
    | succ limit' =>
      rw [superLine, superLine]
      refine (parentOf_sameBut hbacks n).bind fun parent => ?_
      cases parent with
      | none => exact SameBut.refl _
      | some p =>
        by_cases hp : p ∈ seen
        · simp only [if_pos hp]
          rcases hbacks.circular p with he | rfl
          · exact Or.inl ⟨_, he, rfl⟩
          · exact SameBut.refl _
        · simp only [if_neg hp]
          exact (ih (Nat.le_of_succ_le_succ h) (p :: seen) p).bind fun line => SameBut.refl _

omit hbacks in
theorem searchEach_sameBut {target : String}
    {deeper deeper' : String → List String → Except ResolutionError (Bool × List String)}
    (h : ∀ n visited, SameBut excused (deeper n visited) (deeper' n visited))
    (ns visited : List String) :
    SameBut excused (searchEach target deeper ns visited)
      (searchEach target deeper' ns visited) := by
  induction ns generalizing visited with
  | nil => exact SameBut.refl _
  | cons n ns ih =>
    rw [searchEach, searchEach]
    by_cases ht : n = target
    · rw [if_pos ht, if_pos ht]
      exact SameBut.refl _
    · rw [if_neg ht, if_neg ht]
      by_cases hn : n ∈ visited
      · rw [if_pos hn, if_pos hn]
        exact ih visited
      · rw [if_neg hn, if_neg hn]
        refine (h n (n :: visited)).bind fun below => ?_
        obtain ⟨found, visited'⟩ := below
        cases found with
        | true => exact SameBut.refl _
        | false => exact ih visited'

theorem searchBelow_sameBut (target : String) (h : limit ≤ limit') (n : String)
    (visited : List String) : SameBut excused (facts.searchBelow loader target limit n visited)
      (facts'.searchBelow loader' target limit' n visited) := by
  induction limit generalizing limit' n visited with
  | zero => exact Or.inl ⟨_, hbacks.cutOff n, rfl⟩
  | succ limit ih =>
    cases limit' with
    | zero => omega
    | succ limit' =>
      rw [searchBelow, searchBelow]
      refine (parentsOf_sameBut hbacks n).bind fun ns => ?_
      exact searchEach_sameBut (fun m visited => ih (Nat.le_of_succ_le_succ h) m visited) ns visited

theorem searchLine_sameBut (target : String) (h : limit ≤ limit') (line visited : List String) :
    SameBut excused (facts.searchLine loader target limit line visited)
      (facts'.searchLine loader' target limit' line visited) := by
  induction line generalizing visited with
  | nil => exact SameBut.refl _
  | cons n line ih =>
    rw [searchLine, searchLine]
    refine (searchBelow_sameBut hbacks target h n visited).bind fun below => ?_
    obtain ⟨found, visited'⟩ := below
    cases found with
    | true => exact SameBut.refl _
    | false => exact ih visited'

/-- **A search with more facts and more room** finds what the first one finds, but for failures that
are excused. -/
theorem assignable_sameBut (target : String) (h : limit ≤ limit') (n : String) :
    SameBut excused (facts.assignable loader limit target n)
      (facts'.assignable loader' limit' target n) := by
  rw [assignable, assignable]
  by_cases ht : n = target
  · rw [if_pos ht, if_pos ht]
    exact SameBut.refl _
  · rw [if_neg ht, if_neg ht]
    refine (superLine_sameBut hbacks h [n] n).bind fun line => ?_
    by_cases hmem : target ∈ line.drop 1
    · rw [if_pos hmem, if_pos hmem]
      exact SameBut.refl _
    · rw [if_neg hmem, if_neg hmem]
      exact searchLine_sameBut hbacks target (Nat.succ_le_succ h) line []

end Rules

/-- **What a loader finds another one finds as well**, when it knows no less of the types. -/
theorem assignable_of_subsumes (hfacts : ∀ n header, facts n = .ok header → facts' n = .ok header)
    {target : String} {r : Bool} (h : facts.assignable loader limit target n = .ok r) :
    facts'.assignable loader' limit target n = .ok r := by
  have hbacks : Backs (fun _ => True) facts facts' loader loader' := by
    refine ⟨fun m => ?_, fun _ => Or.inl trivial, fun _ => trivial⟩
    cases hm : facts m with
    | error e => exact Or.inl ⟨e, trivial, rfl⟩
    | ok header => exact Or.inr (hfacts m header hm).symm
  exact (assignable_sameBut hbacks target (Nat.le_refl limit) n).eq_ok h

end SideBySide

/-! ### Searches that are cut off -/

section CutOff

variable {α β : Type}

/-- The search has come to its limit. -/
def CutOff (r : Except ResolutionError α) : Prop := ∃ n l, r = .error (.unbounded n l)

/-- A search with more room yields what the first one yields, unless that was cut off. -/
def Improves (r r' : Except ResolutionError α) : Prop := CutOff r ∨ r = r'

theorem improves_iff {r r' : Except ResolutionError α} :
    Improves r r' ↔ SameBut (fun e => ∃ n l, e = .unbounded n l) r r' := by
  constructor
  · rintro (⟨n, l, hr⟩ | hr)
    · exact Or.inl ⟨_, ⟨n, l, rfl⟩, hr⟩
    · exact Or.inr hr
  · rintro (⟨_, ⟨n, l, rfl⟩, hr⟩ | hr)
    · exact Or.inl ⟨n, l, hr⟩
    · exact Or.inr hr

theorem Improves.refl (r : Except ResolutionError α) : Improves r r := Or.inr rfl

theorem Improves.bind {r r' : Except ResolutionError α} {f g : α → Except ResolutionError β}
    (h : Improves r r') (hfg : ∀ a, Improves (f a) (g a)) : Improves (r >>= f) (r' >>= g) :=
  improves_iff.2 ((improves_iff.1 h).bind fun a => improves_iff.1 (hfg a))

theorem assignable_improves (target : String) (h : limit ≤ limit') (n : String) :
    Improves (facts.assignable loader limit target n)
      (facts.assignable loader limit' target n) := by
  have hbacks : Backs (fun e => ∃ n l, e = .unbounded n l) facts facts loader loader :=
    ⟨fun _ => SameBut.refl _, fun _ => Or.inr rfl, fun n => ⟨n, loader, rfl⟩⟩
  exact improves_iff.2 (assignable_sameBut hbacks target h n)

end CutOff

end Reclass.TypeFacts
