import Reclass.Proofs.Hierarchy.Termination

/-!
# Assignability as a preorder

A search follows super classes first and interfaces after that, and never the super class of an
interface, so ancestors of ancestors need not be ancestors. In a sane hierarchy they are
(`TypeFacts.Sane.ancestor_trans`): all lines of super classes end at the root type, and an
interface has no other type above it on its own line. The interfaces may still run in circles.

A search from a type comes to the ancestors of the type only, and what is known of them
(`TypeFacts.above`) decides it. They are finitely many when those from which a search goes on are,
so the search ends, without a failure, and finds exactly the ancestors
(`TypeFacts.Sane.assignable`). Assignability is then a preorder, whatever a resolver has been asked
before (`Hierarchy.isAssignableFrom_preorder`).
-/

set_option autoImplicit false

namespace Reclass

open Relation
open ClassPath (objectName)

namespace TypeFacts

variable {facts : TypeFacts} {a b c n m : String} {core : List String}

theorem Super.left_resolves (h : facts.Super n m) : facts.Resolves n := by
  obtain ⟨header, hn, -⟩ := h
  exact ⟨header, hn⟩

theorem Interface.left_resolves (h : facts.Interface n m) : facts.Resolves n := by
  obtain ⟨header, hn, -⟩ := h
  exact ⟨header, hn⟩

theorem parentOf_of_super (h : facts.Super n m) (hm : facts.Resolves m) :
    facts.parentOf n = .ok (some m) := by
  obtain ⟨header, hn, hp⟩ := h
  obtain ⟨header', hm⟩ := hm
  rw [parentOf, hn]
  simp only [bind, Except.bind, hp, resolved, hm]
  rfl

theorem parentOf_of_not_super (hn : facts.Resolves n) (h : ∀ m, ¬ facts.Super n m) :
    facts.parentOf n = .ok none := by
  obtain ⟨header, hn⟩ := hn
  have hp : header.parent = none := by
    cases hp : header.parent with
    | none => rfl
    | some m => exact absurd ⟨header, hn, hp⟩ (h m)
  rw [parentOf, hn]
  simp only [bind, Except.bind, hp]
  rfl

/-- A type of which nothing is known has no ancestor but itself. -/
theorem Ancestor.eq_of_not_resolves (h : facts.Ancestor n m) (hn : ¬ facts.Resolves n) : m = n := by
  have hline : ∀ k, facts.OnLine n k → k = n := by
    intro k hk
    rcases ReflTransGen.cases_head hk with hk | ⟨_, hp, -⟩
    · exact hk.symm
    · exact absurd hp.left_resolves hn
  rcases h with h | h | ⟨k, hk, h⟩
  · exact h
  · exact hline m h
  · obtain ⟨_, hp, -⟩ := TransGen.head'_iff.1 h
    rw [hline k hk] at hp
    exact absurd hp.left_resolves hn

theorem Ancestor.of_reached {k : String} (hk : facts.OnLine n k)
    (h : ReflTransGen facts.Interface k m) : facts.Ancestor n m := by
  rcases reflTransGen_iff_eq_or_transGen.1 h with rfl | h
  · exact Or.inr (Or.inl hk)
  · exact Or.inr (Or.inr ⟨k, hk, h⟩)

/-- Every type that is named resolves; every line of super classes leads to the root type, and no
further; and interfaces extend the root type. So a line has no circle (`Sane.not_circular`). -/
structure Sane (facts : TypeFacts) : Prop where
  named : ∀ n m, facts.Super n m ∨ facts.Interface n m → facts.Resolves m
  line : ∀ n, facts.Resolves n → facts.OnLine n objectName
  root : ∀ m, ¬ facts.Super objectName m
  interface : ∀ n m, facts.Interface n m → facts.Super m objectName

namespace Sane

theorem resolves_of_ancestor (hs : facts.Sane) (hn : facts.Resolves n) (h : facts.Ancestor n m) :
    facts.Resolves m := by
  rcases h with rfl | h | ⟨k, -, h⟩
  · exact hn
  · -- an ancestor that is not the type itself is named by the one before it
    rcases ReflTransGen.cases_tail h with rfl | ⟨k, -, hk⟩
    · exact hn
    · exact hs.named k m (Or.inl hk)
  · obtain ⟨k', -, hk'⟩ := TransGen.tail'_iff.1 h
    exact hs.named k' m (Or.inr hk')

/-- The line of an interface consists of itself and the root type. -/
theorem onLine_of_interface (hs : facts.Sane) (hi : facts.Interface n b) (h : facts.OnLine b m) :
    m = b ∨ m = objectName := by
  rcases ReflTransGen.cases_head h with h | ⟨p, hp, h⟩
  · exact Or.inl h.symm
  · rw [hp.unique (hs.interface n b hi)] at h
    rcases ReflTransGen.cases_head h with h | ⟨q, hq, -⟩
    · exact Or.inr h.symm
    · exact absurd hq (hs.root q)

/-- **Ancestors of ancestors are ancestors.** -/
theorem ancestor_trans (hs : facts.Sane) (hab : facts.Ancestor a b) (hbc : facts.Ancestor b c) :
    facts.Ancestor a c := by
  rcases hab with rfl | hab | ⟨k, hk, hkb⟩
  · exact hbc
  · -- two parts of one line
    rcases hbc with rfl | hbc | ⟨k, hk, hkc⟩
    · exact Or.inr (Or.inl hab)
    · exact Or.inr (Or.inl (hab.trans hbc))
    · exact Or.inr (Or.inr ⟨k, hab.trans hk, hkc⟩) -- the interface of a type further up
  · -- `b` is an interface; the one type above it on its line ends the line of `a` too
    obtain ⟨i, -, hib⟩ := TransGen.tail'_iff.1 hkb
    obtain ⟨j, hkj, -⟩ := TransGen.head'_iff.1 hkb
    have hroot : facts.OnLine a objectName := hk.trans (hs.line k hkj.left_resolves)
    rcases hbc with rfl | hbc | ⟨l, hl, hlc⟩
    · exact Or.inr (Or.inr ⟨k, hk, hkb⟩)
    · rcases hs.onLine_of_interface hib hbc with rfl | rfl
      · exact Or.inr (Or.inr ⟨k, hk, hkb⟩)
      · exact Or.inr (Or.inl hroot)
    · rcases hs.onLine_of_interface hib hl with rfl | rfl
      · exact Or.inr (Or.inr ⟨k, hk, hkb.trans hlc⟩)
      · exact Or.inr (Or.inr ⟨objectName, hroot, hlc⟩)

/-- Every line comes to an end. -/
theorem exists_line (hs : facts.Sane) (hn : facts.Resolves n) : ∃ ns, Line facts n ns := by
  have hroot : facts.Resolves objectName :=
    hs.resolves_of_ancestor hn (Or.inr (Or.inl (hs.line n hn)))
  -- from the root type downwards along the line
  refine ReflTransGen.head_induction_on (hs.line n hn) ?_ ?_
  · exact ⟨[objectName], Line.root (parentOf_of_not_super hroot hs.root)⟩
  · intro n p hp _ ih
    obtain ⟨ns, hns⟩ := ih
    exact ⟨n :: ns, Line.step (parentOf_of_super hp (hs.named n p (Or.inl hp))) hns⟩

theorem not_circular (hs : facts.Sane) (hn : facts.Resolves n) : ¬ facts.Circular n := by
  obtain ⟨ns, hns⟩ := hs.exists_line hn
  exact hns.not_circular

end Sane

/-- Whether the line of a type comes to the root type within a limit, and its interfaces extend
the root type. -/
def regular (facts : TypeFacts) (loader : LoaderId) (limit : Nat) (n : String) : Bool :=
  match facts.superLine loader limit [n] n, facts.parentsOf n with
  | .ok line, .ok ns =>
    decide (objectName ∈ line) && ns.all fun m => facts.parentOf m = .ok (some objectName)
  | _, _ => false

/-- A hierarchy of finitely many types can be checked. -/
theorem sane_of_regular (loader : LoaderId) (limit : Nat) {names : List String}
    (hnames : ∀ n, facts.Resolves n → n ∈ names) (hroot : facts.parentOf objectName = .ok none)
    (hregular : ∀ n ∈ names, facts.regular loader limit n = true) : facts.Sane := by
  have checked : ∀ n, facts.Resolves n → (∃ line, Line facts n line ∧ objectName ∈ line) ∧
      ∀ m, facts.Interface n m → facts.parentOf m = .ok (some objectName) := by
    intro n hn
    have h := hregular n (hnames n hn)
    unfold regular at h
    cases hl : facts.superLine loader limit [n] n with
    | error e =>
      rw [hl] at h
      cases h
    | ok line =>
      cases hp : facts.parentsOf n with
      | error e =>
        rw [hl, hp] at h
        cases h
      | ok ns =>
        simp only [hl, hp, Bool.and_eq_true, decide_eq_true_eq, List.all_eq_true] at h
        exact ⟨⟨line, superLine_ok hl, h.1⟩, fun m hm => h.2 m (((parentsOf_ok hp).1 m).1 hm)⟩
  -- what a type has on its line and among its interfaces resolves, or the checks had failed
  refine ⟨?_, ?_, (parentOf_none hroot).2, ?_⟩
  · rintro n m (h | h)
    · obtain ⟨line, hline, -⟩ := (checked n h.left_resolves).1
      exact hline.resolves m (hline.mem_iff.2 (ReflTransGen.single h))
    · exact (parentOf_some ((checked n h.left_resolves).2 m h)).1.left_resolves
  · intro n hn
    obtain ⟨line, hline, hmem⟩ := (checked n hn).1
    exact hline.mem_iff.1 hmem
  · intro n m h
    exact (parentOf_some ((checked n h.left_resolves).2 m h)).1

/-! ### The ancestors of one type -/

open Classical in
/-- What is known of the ancestors of a type, and nothing else. -/
noncomputable def above (facts : TypeFacts) (a : String) : TypeFacts :=
  fun n => if facts.Ancestor a n then facts n else .error (.notFound n .bootstrap)

section Above

theorem above_eq_ok_iff {header : ClassHeader} :
    facts.above a n = .ok header ↔ facts.Ancestor a n ∧ facts n = .ok header := by
  rw [above]
  by_cases ha : facts.Ancestor a n
  · rw [if_pos ha]
    exact ⟨fun h => ⟨ha, h⟩, fun h => h.2⟩
  · rw [if_neg ha]
    exact iff_of_false nofun fun h => ha h.1

theorem resolves_above_iff :
    (facts.above a).Resolves n ↔ facts.Ancestor a n ∧ facts.Resolves n := by
  simp only [Resolves, above_eq_ok_iff, exists_and_left]

theorem super_above_iff :
    (facts.above a).Super n m ↔ facts.Ancestor a n ∧ facts.Super n m := by
  simp only [Super, above_eq_ok_iff, and_assoc, exists_and_left]

theorem interface_above_iff :
    (facts.above a).Interface n m ↔ facts.Ancestor a n ∧ facts.Interface n m := by
  simp only [Interface, above_eq_ok_iff, and_assoc, exists_and_left]

theorem super_above_le : (facts.above a).Super ≤ facts.Super := fun _ _ h => (super_above_iff.1 h).2

theorem interface_above_le : (facts.above a).Interface ≤ facts.Interface :=
  fun _ _ h => (interface_above_iff.1 h).2

theorem onLine_above_iff : (facts.above a).OnLine a m ↔ facts.OnLine a m := by
  constructor
  · exact ReflTransGen.mono super_above_le a m
  · intro h
    induction h with
    | refl => exact ReflTransGen.refl
    | tail hk hm ih => exact ih.tail (super_above_iff.2 ⟨Or.inr (Or.inl hk), hm⟩)

/-- A type has the same ancestors. -/
theorem ancestor_above_iff : (facts.above a).Ancestor a m ↔ facts.Ancestor a m := by
  have hreached : ∀ k, facts.OnLine a k →
      (TransGen (facts.above a).Interface k m ↔ TransGen facts.Interface k m) := by
    intro k hk
    constructor
    · exact TransGen.mono interface_above_le k m
    · intro h
      induction h with
      | single h => exact TransGen.single (interface_above_iff.2 ⟨Or.inr (Or.inl hk), h⟩)
      | tail hi h ih => exact ih.tail (interface_above_iff.2 ⟨Or.inr (Or.inr ⟨k, hk, hi⟩), h⟩)
  simp only [Ancestor, onLine_above_iff]
  refine or_congr_right (or_congr_right (exists_congr fun k => ?_))
  exact and_congr_right fun hk => hreached k hk

theorem Within.above (hcore : facts.Within core) (a : String) : (facts.above a).Within core where
  line n m k hm hk := hcore.line n m k (super_above_iff.1 hm).2 (super_above_iff.1 hk).2
  interface n m h := hcore.interface n m (interface_above_iff.1 h).2

/-- An ancestor has fewer of them. -/
theorem Sane.within_above (hs : facts.Sane) (hab : facts.Ancestor a b)
    (hcore : (facts.above a).Within core) : (facts.above b).Within core where
  line n m k hm hk := by
    obtain ⟨hn, hm⟩ := super_above_iff.1 hm
    obtain ⟨hm', hk⟩ := super_above_iff.1 hk
    exact hcore.line n m k (super_above_iff.2 ⟨hs.ancestor_trans hab hn, hm⟩)
      (super_above_iff.2 ⟨hs.ancestor_trans hab hm', hk⟩)
  interface n m h := by
    obtain ⟨hn, h⟩ := interface_above_iff.1 h
    exact hcore.interface n m (interface_above_iff.2 ⟨hs.ancestor_trans hab hn, h⟩)

/-- A type has finitely many ancestors when there are finitely many from which a search goes on. -/
theorem Sane.exists_ancestors (hs : facts.Sane) (ha : facts.Resolves a)
    (hcore : (facts.above a).Within core) :
    ∃ names : List String, ∀ m, facts.Ancestor a m → m ∈ names := by
  obtain ⟨line, hline⟩ := hs.exists_line ha
  let parents := fun n => match facts n with
    | .ok header => header.parents
    | .error _ => []
  refine ⟨line ++ core.flatMap parents, fun m hm => List.mem_append.2 ?_⟩
  rcases hline.ancestor_iff.1 hm with hm | ⟨k, hk, hm⟩
  · exact Or.inl hm
  · -- the last step leads from an ancestor to one of its interfaces
    obtain ⟨i, hki, him⟩ := TransGen.tail'_iff.1 hm
    have hi : facts.Ancestor a i := Ancestor.of_reached (hline.mem_iff.1 hk) hki
    have hmem : i ∈ core := hcore.interface i m (interface_above_iff.2 ⟨hi, him⟩)
    obtain ⟨header, hheader, hm⟩ := him
    refine Or.inr (List.mem_flatMap.2 ⟨i, hmem, ?_⟩)
    show m ∈ (match facts i with
      | .ok header => header.parents
      | .error _ => [])
    rw [hheader]
    exact hm

/-- **In a sane hierarchy a search has a verdict, and it is right**, with room for the ancestors
from which the search goes on. -/
theorem Sane.assignable (hs : facts.Sane) (ha : facts.Resolves a)
    (hcore : (facts.above a).Within core) {limit : Nat} (hlimit : core.length + 2 ≤ limit)
    (loader : LoaderId) (target : String) :
    ∃ r, facts.assignable loader limit target a = .ok r ∧
      (r = true ↔ facts.Ancestor a target) := by
  obtain ⟨names, hnames⟩ := hs.exists_ancestors ha hcore
  have hbound : (facts.above a).AtMost names.length :=
    atMost_of_resolves fun n hn => hnames n (resolves_above_iff.1 hn).1
  have hverdict : (facts.above a).Verdict loader target a
      ((facts.above a).assignable loader (max names.length limit) target a) :=
    assignable_verdict hbound (Nat.le_max_left _ _) (resolves_above_iff.2 ⟨Or.inl rfl, ha⟩)
  -- the verdict is the same with less room, and with what is known of other types
  rw [assignable_limit hcore target (hlimit.trans (Nat.le_max_right _ _)) hlimit] at hverdict
  cases hr : (facts.above a).assignable loader limit target a with
  | ok r =>
    refine ⟨r, assignable_of_subsumes (fun _ _ h => (above_eq_ok_iff.1 h).2) hr, ?_⟩
    rw [hr] at hverdict
    cases r with
    | true => exact iff_of_true rfl (ancestor_above_iff.1 hverdict)
    | false => exact iff_of_false nofun fun h => hverdict.1 (ancestor_above_iff.2 h)
  | error e =>
    -- neither a circle nor a type that is missing is among the ancestors
    rw [hr] at hverdict
    exfalso
    rcases hverdict with ⟨p, -, hp, hcircle⟩ | ⟨m, hm, he⟩
    · refine hs.not_circular ha ⟨p, onLine_above_iff.1 hp, ?_⟩
      exact TransGen.mono super_above_le p p hcircle
    · have hm := ancestor_above_iff.1 hm
      obtain ⟨header, hheader⟩ := hs.resolves_of_ancestor ha hm
      rw [above_eq_ok_iff.2 ⟨hm, hheader⟩] at he
      cases he

end Above

end TypeFacts

/-- A class that comes to two interfaces which extend each other by its super class. Its line ends
at the root type, and so do those of the interfaces. -/
def MemorySource.rootedInterfaces : MemorySource :=
  let sketches : List ClassSketch := [(ClassSketch.new objectName).withSuper none,
    (ClassSketch.new "p.A").withSuper (some "p.B"), (ClassSketch.new "p.B").implementing "p.I",
    (ClassSketch.new "p.I").asInterface.implementing "p.J",
    (ClassSketch.new "p.J").asInterface.implementing "p.I"]
  { entries := sketches.map fun sketch =>
      { name := sketch.name, content := .ok (some sketch.encode) } }

theorem MemorySource.rootedInterfaces_sane :
    (typeFacts rootedInterfaces.answer .bootstrap).Sane :=
  TypeFacts.sane_of_regular .bootstrap rootedInterfaces.entries.length
    (fun _ h => mem_of_resolves h) (by decide +kernel) (by decide +kernel)

namespace Hierarchy

variable {σ : Type} {src : ClassSource σ} {I : σ → Prop}
  {answer : String → LoaderId → Except ReadError (Option Bytes)} {loader : LoaderId}
  {s : Hierarchy × σ} {core : List String}

/-- Over a sane hierarchy the answer is true of the ancestors, and of them only. -/
theorem isAssignableFrom_ensures_of_sane (hsrc : src.Tells I (Told answer))
    (hs : Stands (Told answer) I s.1 s) (hsane : (typeFacts answer loader).Sane)
    {target candidate : String}
    (hcore : ((typeFacts answer loader).above (ClassName.internal candidate)).Within core)
    (hroom : src.Allows I core.length) :
    (isAssignableFrom src target candidate loader).Ensures s fun r _ =>
      (r = .ok true ↔ (typeFacts answer loader).Ancestor (ClassName.internal candidate)
        (ClassName.internal target)) := by
  have hrun : (isAssignableFrom src target candidate loader).Ensures s fun r _ =>
      ∃ limit, core.length + 2 ≤ limit ∧
        r = (Check.ofNames target candidate loader).verdict (typeFacts answer) limit s.1 :=
    Check.run_ensures hsrc hroom hs (.ofNames target candidate loader)
  refine hrun.imp fun r s' h => ?_
  obtain ⟨limit, hlimit, rfl⟩ := h
  rw [Check.verdict]
  by_cases ht : ClassName.internal target = ClassName.internal candidate
  · rw [if_pos ht]
    exact iff_of_true rfl (Or.inl ht)
  · rw [if_neg ht]
    cases hfact : typeFacts answer loader (ClassName.internal candidate) with
    | error e =>
      -- a candidate that fails to resolve has no ancestor but itself
      refine iff_of_false ?_ fun h => ht (h.eq_of_not_resolves ?_)
      · rintro ⟨⟩
      · rintro ⟨header, h⟩
        rw [hfact] at h
        cases h
    | ok header =>
      obtain ⟨r, hr, hiff⟩ := hsane.assignable ⟨header, hfact⟩ hcore hlimit loader
        (ClassName.internal target)
      show (typeFacts answer loader).assignable loader limit _ _ = .ok true ↔ _
      rw [hr, Except.ok.injEq]
      exact hiff

/-- **Assignability is a preorder on sane hierarchies.** Over a source that does not change, for a
loader to which the hierarchy is sane, and after any operations before each of the questions: a
type is assignable to itself, in whatever form its name is given; and if `a` is assignable to `b`
and `b` to `c`, then `a` is assignable to `c`, when the source allows for as many types as there
are among the ancestors of `a` from which a search goes on, so that no search is cut off. -/
theorem isAssignableFrom_preorder {σ : Type} (src : ClassSource σ) (I : σ → Prop)
    (answer : String → LoaderId → Except ReadError (Option Bytes))
    (hsrc : src.Tells I (Told answer)) (start : σ) (hstart : I start) (loader : LoaderId)
    (hsane : (typeFacts answer loader).Sane) :
    let asked := fun (before : List Operation) (target candidate : String) =>
      ((isAssignableFrom src target candidate loader).result.run
        (Operation.after src before (.empty, start))).value
    (∀ before a a', ClassName.internal a' = ClassName.internal a → asked before a' a = .ok true) ∧
      ∀ a core, ((typeFacts answer loader).above (ClassName.internal a)).Within core →
        src.Allows I core.length → ∀ b c before₁ before₂ before₃,
          asked before₁ b a = .ok true → asked before₂ c b = .ok true →
            asked before₃ c a = .ok true := by
  intro asked
  constructor
  · intro before a a' hname
    show ((isAssignableFrom src a' a loader).result.run _).value = .ok true
    rw [isAssignableFrom, if_pos hname]
    rfl
  · intro a core hcore hroom b c before₁ before₂ before₃ hab hbc
    have hstands : ∀ before, Stands (Told answer) I (Operation.after src before (.empty, start)).1
        (Operation.after src before (.empty, start)) := fun before =>
      (Operation.after_stands hsrc before ⟨Extends.refl _, valid_empty, hstart⟩).self
    -- what is among the ancestors of `b` is among those of `a`, so there is room for it as well
    have hb := (isAssignableFrom_ensures_of_sane hsrc (hstands before₁) hsane hcore hroom).1 hab
    have hc := (isAssignableFrom_ensures_of_sane hsrc (hstands before₂) hsane
      (hsane.within_above hb hcore) hroom).1 hbc
    exact (isAssignableFrom_ensures_of_sane hsrc (hstands before₃) hsane hcore hroom).2
      (hsane.ancestor_trans hb hc)

/-- The class comes to the second interface, as the first one does, which it comes to itself. -/
theorem isAssignableFrom_preorder_rootedInterfaces :
    let start := MemorySource.rootedInterfaces
    let s := Operation.after MemorySource.source [.resolve "p/J" .bootstrap] (.empty, start)
    ((isAssignableFrom MemorySource.source "p.J" "p.A" .bootstrap).result.run s).value =
      .ok true := by
  intro start s
  refine (isAssignableFrom_preorder MemorySource.source (fun m => m.entries = start.entries)
    start.answer (MemorySource.source_steady start).tells start rfl .bootstrap
    MemorySource.rootedInterfaces_sane).2 "p.A" (start.entries.map MemoryEntry.name) ?_ ?_
    "p/I" "p.J" [] [.interfaces ⟨0⟩, .evict .bootstrap] [.resolve "p/J" .bootstrap]
    (by decide +kernel) (by decide +kernel)
  · exact (TypeFacts.within_of_resolves fun _ h => MemorySource.mem_of_resolves h).above _
  · intro m hm
    refine ⟨?_, hm⟩
    show _ ≤ m.entries.length
    rw [hm, List.length_map]

end Hierarchy

end Reclass
