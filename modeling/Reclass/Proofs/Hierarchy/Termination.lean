import Reclass.Proofs.Hierarchy.Memoization
import Reclass.Proofs.Hierarchy.SideBySide

/-!
# Checks come to an end

Super classes and interfaces may run in circles of any shape, name a type twice or one that is
missing. A check for assignability still ends, as long as a loader resolves finitely many names:
with room for as many types as there are names it is never cut off, and more room does not change
the verdict (`Hierarchy.checks_end`). So the walk along a line and the search below its types need
no limit of their own; the names that were seen there are one.

On its way a check reads each type at most once. What it has read is in the table, where the next
question about the name is answered; a type that could not be read is the end of the check
(`Hierarchy.noted_accords`).
-/

set_option autoImplicit false

namespace Reclass

/-- The source with a list of what it was asked, oldest first. -/
def ClassSource.noted {σ : Type} (src : ClassSource σ) :
    ClassSource (σ × List (String × LoaderId)) where
  read name loader := do
    Act.zoom .snd (Act.modify fun asked => asked ++ [(name, loader)])
    Act.zoom .fst (src.read name loader)
  reach := Act.zoom .fst src.reach

/-- The source vouches for so many types at least, and stays as it is required to be. -/
def ClassSource.Allows {σ : Type} (src : ClassSource σ) (I : σ → Prop) (bound : Nat) : Prop :=
  ∀ s, I s → src.reach.Ensures s fun n s' => bound ≤ n ∧ I s'

/-- No more names resolve than there are on a list of them. -/
theorem TypeFacts.atMost_of_resolves {facts : TypeFacts} {names : List String}
    (h : ∀ n, facts.Resolves n → n ∈ names) : facts.AtMost names.length :=
  fun _ hnodup hresolve => hnodup.length_le_of_subset fun n hn => h n (hresolve n hn)

namespace Hierarchy

variable {σ : Type}

/-! ### Each type is read once -/

section Reading

variable {src : ClassSource σ} {name : String} {loader : LoaderId} {s : Hierarchy × σ}
  {s' : Hierarchy × σ × List (String × LoaderId)}

/-- Two resolvers, the second of which notes what it asks: nothing twice, and always for names in
internal form. -/
structure Noted (s : Hierarchy × σ) (s' : Hierarchy × σ × List (String × LoaderId)) : Prop where
  hierarchy : s'.1 = s.1
  source : s'.2.1 = s.2
  internal : ∀ q ∈ s'.2.2, ClassName.internal q.1 = q.1
  nodup : s'.2.2.Nodup

/-- What was asked is known. -/
structure Known (s : Hierarchy × σ) (s' : Hierarchy × σ × List (String × LoaderId)) : Prop
    extends Noted s s' where
  current : ∀ q ∈ s'.2.2, (s'.1.current? q.1 q.2).isSome

/-- What was asked is known, but for one name that has just been read. -/
structure KnownBut (name : String) (loader : LoaderId) (s : Hierarchy × σ)
    (s' : Hierarchy × σ × List (String × LoaderId)) : Prop extends Noted s s' where
  current : ∀ q ∈ s'.2.2, q = (name, loader) ∨ (s'.1.current? q.1 q.2).isSome

theorem known_start (s : Hierarchy × σ) : Known s (s.1, s.2, []) where
  hierarchy := rfl
  source := rfl
  internal _ h := absurd h List.not_mem_nil
  nodup := List.nodup_nil
  current _ h := absurd h List.not_mem_nil

/-- A question about a name that is not known has not been asked yet. -/
theorem Known.ask (hs : Known s s') (hname : ClassName.internal name = name)
    (hmissing : s.1.current? name loader = none) (t : σ) :
    KnownBut name loader (s.1, t) (s.1, t, s'.2.2 ++ [(name, loader)]) where
  hierarchy := rfl
  source := rfl
  internal q hq := by
    rcases List.mem_append.1 hq with hq | hq
    · exact hs.internal q hq
    · rw [List.mem_singleton.1 hq]
      exact hname
  nodup := by
    refine hs.nodup.append (List.nodup_singleton _) ?_
    rw [List.disjoint_singleton]
    intro hasked
    have hcurrent := hs.current _ hasked
    rw [hs.hierarchy, hmissing] at hcurrent
    cases hcurrent
  current q hq := by
    rcases List.mem_append.1 hq with hq | hq
    · rw [← hs.hierarchy]
      exact Or.inr (hs.current q hq)
    · exact Or.inl (List.mem_singleton.1 hq)

/-- The descriptor that was read is known from now on. -/
theorem KnownBut.insert {d : Descriptor} (hs : KnownBut name loader s s')
    (hd : (d.internalName, d.loader) = (name, loader)) :
    Known ((s.1.insert d).2, s.2) ((s'.1.insert d).2, s'.2) where
  hierarchy := congrArg (fun h => (Hierarchy.insert h d).2) hs.hierarchy
  source := hs.source
  internal := hs.internal
  nodup := hs.nodup
  current q hq := by
    show ((s'.1.insert d).2.current? q.1 q.2).isSome
    rw [current?_insert, hd, Option.isSome_or, Bool.or_eq_true]
    rcases hs.current q hq with rfl | hcurrent
    · exact Or.inr (by rw [if_pos rfl]; rfl)
    · exact Or.inl hcurrent

/-- What building a descriptor comes to. -/
theorem build_eq (src : ClassSource σ) (name : String) (loader : LoaderId) (s : Hierarchy × σ) :
    let out := (src.read name loader).run s.2
    (build src name loader).Ensures s fun r s' =>
      r = (ClassHeader.ofAnswer name loader out.value).map (Descriptor.ofHeader · loader) ∧
        s' = (s.1, out.state) :=
  build_ensures ⟨rfl, rfl⟩

theorem build_alike (src : ClassSource σ) (hname : ClassName.internal name = name) :
    Act.Alike (build src name loader).result (build src.noted name loader).result
      (fun s s' => Known s s' ∧ s.1.current? name loader = none)
      fun r s s' => KnownBut name loader s s' ∧
        ∀ d, r = .ok d → (d.internalName, d.loader) = (name, loader) := by
  rintro ⟨h, t⟩ ⟨h', t', asked⟩ ⟨hs, hmissing⟩
  obtain rfl : h' = h := hs.hierarchy
  obtain rfl : t' = t := hs.source
  obtain ⟨hvalue, hstate⟩ := build_eq src name loader (h', t')
  obtain ⟨hvalue', hstate'⟩ := build_eq src.noted name loader (h', t', asked)
  refine ⟨hvalue'.trans hvalue.symm, ?_⟩
  rw [hvalue, hstate, hstate']
  refine ⟨hs.ask hname hmissing _, fun d hd => ?_⟩
  obtain ⟨header, hheader, rfl⟩ := (except_map_eq_ok_iff _ _ _).1 hd
  exact congrArg (·, loader) (ClassHeader.name_of_ofAnswer hheader)

theorem resolveRequired_inStep (src : ClassSource σ) (name : String) (loader : LoaderId) :
    (resolveRequired src name loader).InStep (resolveRequired src.noted name loader)
      Known Noted := by
  -- both find the name in the table, or neither does
  refine Attempt.alike_bind (P := fun r s s' => Known s s' ∧
    ∀ found, r = .ok found → s.1.current? (ClassName.internal name) loader = found)
    (fun s s' hs => ?_) (fun found => ?_) fun _ _ _ hs => hs.1.toNoted
  · refine ⟨congrArg (fun h => Except.ok (current? h _ loader)) hs.hierarchy, hs, ?_⟩
    intro found hfound
    exact Except.ok.inj hfound
  · cases found with
    | some id => exact Act.alike_pure _ fun _ _ hs => hs.1
    | none =>
      refine Attempt.alike_bind (fun s s' hs => build_alike src (ClassName.internal_internal name)
        s s' ⟨hs.1, hs.2 none rfl⟩) (fun d s s' hs => ?_) fun _ _ _ hs => hs.1.toNoted
      refine ⟨?_, hs.1.insert (hs.2 d rfl)⟩
      exact congrArg (fun h => Except.ok (insert h d).1) hs.1.hierarchy

/-- A resolver that notes what it asks answers as before, and asks nothing twice. -/
theorem noted_accords (src : ClassSource σ) : Accords src src.noted Known Noted where
  hierarchy _ _ hs := hs.hierarchy
  failed _ _ hs := hs.toNoted
  reach := by
    rintro ⟨h, t⟩ ⟨h', t', asked⟩ hs
    obtain rfl : h' = h := hs.hierarchy
    obtain rfl : t' = t := hs.source
    exact ⟨rfl, ⟨rfl, rfl, hs.internal, hs.nodup⟩, hs.current⟩
  resolveRequired := resolveRequired_inStep src
  fill s s' id slot target hs := by
    refine ⟨⟨?_, hs.source, hs.internal, hs.nodup⟩, hs.current⟩
    exact congrArg (fun h => fill h id slot target) hs.hierarchy

theorem Noted.map_internal (hs : Noted s s') :
    (s'.2.2.map fun q => (ClassName.internal q.1, q.2)) = s'.2.2 := by
  conv_rhs => rw [← List.map_id s'.2.2]
  exact List.map_congr_left fun q hq => congrArg (·, q.2) (hs.internal q hq)

end Reading

/-! ### No check is cut off -/

namespace Check

variable {src : ClassSource σ} {I : σ → Prop}
  {answer : String → LoaderId → Except ReadError (Option Bytes)} {s : Hierarchy × σ}
  {names : List String} {limit limit' : Nat} {c : Check}

/-- The loader in which a check resolves names. -/
def loader (h : Hierarchy) : Check → LoaderId
  | ofNames _ _ loader => loader
  | ofType _ candidate => loaderIn h candidate

/-- The verdict that the facts give, when searches are cut off at a limit. An identity that was
never given out has no ancestors. -/
def verdict (facts : LoaderId → TypeFacts) (limit : Nat) (h : Hierarchy) :
    Check → Except ResolutionError Bool
  | ofNames target candidate loader =>
    let target := ClassName.internal target
    let candidate := ClassName.internal candidate
    if target = candidate then .ok true
    else facts loader candidate >>= fun _ =>
      (facts loader).assignable loader limit target candidate
  | ofType target candidate =>
    match h.descriptor? candidate with
    | some d => (facts d.loader).assignable d.loader limit target d.internalName
    | none => .ok (decide ("" = target))

section Types

variable {facts : LoaderId → TypeFacts} {h : Hierarchy} {id : DescriptorId} {d : Descriptor}
  {target : String}

theorem loader_of_known (hd : h.descriptor? id = some d) :
    (ofType target id).loader h = d.loader := by
  rw [loader, loaderIn, hd]

theorem verdict_of_known (hd : h.descriptor? id = some d) :
    (ofType target id).verdict facts limit h =
      (facts d.loader).assignable d.loader limit target d.internalName := by
  simp only [verdict, hd]

theorem verdict_of_unknown (hd : h.descriptor? id = none) :
    (ofType target id).verdict facts limit h = .ok (decide ("" = target)) := by
  simp only [verdict, hd]

end Types

section Unknown

/-! An identity that was never given out has no super class and no interfaces. -/

variable {id : DescriptorId}

theorem superLine_of_unknown (src : ClassSource σ) (h : s.1.descriptor? id = none) (limit : Nat)
    (seen : List String) (t : σ) :
    (superLine src (limit + 1) seen id).Ensures (s.1, t) fun r s' =>
      r = .ok [id] ∧ s' = (s.1, t) := by
  simp only [superLine, requiredSuperclass, ancestorRequired, lookup, Attempt.ensures_bind,
    Attempt.ensures_act, Act.ensures_gets, h, Attempt.ensures_pure, and_self]

theorem searchLine_of_unknown (src : ClassSource σ) (h : s.1.descriptor? id = none)
    (target : String) (limit : Nat) (visited : List String) (t : σ) :
    (searchLine src target (limit + 1) [id] visited).Ensures (s.1, t) fun r _ =>
      r = .ok false := by
  simp only [searchLine, searchBelow, requiredInterfaces, slotsOf, lookup, Attempt.ensures_bind,
    Attempt.ensures_act, Act.ensures_bind, Act.ensures_gets, h, Act.ensures_pure, List.mapM_nil,
    Attempt.ensures_pure, List.filterMap_nil, searchEach]
  rfl

theorem isAssignable_of_unknown (src : ClassSource σ) (h : s.1.descriptor? id = none)
    (target : String) :
    (isAssignable src target id).Ensures s fun r _ => r = .ok (decide ("" = target)) := by
  simp only [isAssignable, reach, nameOf, Attempt.ensures_bind, Attempt.ensures_act,
    Act.ensures_gets, h]
  by_cases ht : "" = target
  · rw [if_pos ht, decide_eq_true ht]
    rfl
  · rw [if_neg ht, decide_eq_false ht, Attempt.ensures_bind, Attempt.ensures_act,
      Act.ensures_bind, Act.ensures_zoom]
    refine Act.Ensures.of_forall fun fresh t => ?_
    rw [Act.ensures_gets]
    dsimp only
    rw [Attempt.ensures_bind]
    refine (superLine_of_unknown src h _ _ t).imp ?_
    rintro _ _ ⟨rfl, rfl⟩
    -- no class comes after the type on its line
    simp only [List.mapM_cons, List.mapM_nil, Attempt.ensures_bind, Attempt.ensures_act,
      Act.ensures_bind, Act.ensures_pure, List.drop_one, List.tail_cons, List.not_mem_nil,
      if_false]
    exact searchLine_of_unknown src h target _ [] t

end Unknown

/-- A check gives the verdict of the facts, with a limit above what the source vouches for. -/
theorem run_ensures (hsrc : src.Tells I (Told answer)) {bound : Nat} (hreach : src.Allows I bound)
    (hs : Stands (Told answer) I s.1 s) (c : Check) :
    (c.run src).Ensures s fun r _ =>
      ∃ limit, bound + 2 ≤ limit ∧ r = c.verdict (typeFacts answer) limit s.1 := by
  have hbound : ∀ s, I s → src.reach.Ensures s fun n _ => bound ≤ n :=
    fun s hs => (hreach s hs).imp fun _ _ h => h.1
  cases c with
  | ofNames target candidate loader =>
    have hask : (Query.ask src (.isAssignableFrom target candidate loader)).Ensures s fun r _ =>
        Query.Replies answer bound (.isAssignableFrom target candidate loader) r :=
      Query.ask_ensures hsrc hbound hs rfl
    obtain ⟨limit, hlimit, hreply⟩ := hask
    exact ⟨limit, hlimit, Reply.verdict.inj hreply⟩
  | ofType target candidate =>
    cases hd : s.1.descriptor? candidate with
    | some d =>
      have hask : (Query.ask src (.about candidate (.isAssignable target))).Ensures s fun r _ =>
          Query.Replies answer bound (.about ⟨d.internalName, d.loader⟩ (.isAssignable target)) r :=
        Query.ask_about_ensures hsrc hbound hs ⟨d, hd, rfl, rfl⟩ (.isAssignable target)
      obtain ⟨limit, hlimit, hreply⟩ := hask
      refine ⟨limit, hlimit, ?_⟩
      rw [verdict_of_known hd]
      exact Reply.verdict.inj hreply
    | none =>
      refine (isAssignable_of_unknown src hd target).imp fun r _ hr => ?_
      refine ⟨bound + 2, Nat.le_refl _, ?_⟩
      rw [verdict_of_unknown hd]
      exact hr

/-- Room for as many types as there are names is enough, and any more changes nothing. -/
theorem verdict_limit {facts : LoaderId → TypeFacts} {h : Hierarchy}
    (hnames : ∀ n, (facts (c.loader h)).Resolves n → n ∈ names)
    (hlimit : names.length + 2 ≤ limit) (hlimit' : names.length + 2 ≤ limit') :
    c.verdict facts limit h = c.verdict facts limit' h := by
  cases c with
  | ofNames target candidate loader =>
    have heq : (facts loader).assignable loader limit (ClassName.internal target)
        (ClassName.internal candidate) = (facts loader).assignable loader limit' _ _ :=
      TypeFacts.assignable_limit (TypeFacts.within_of_resolves hnames) _ hlimit hlimit'
    simp only [verdict, heq]
  | ofType target candidate =>
    cases hd : h.descriptor? candidate with
    | none => rw [verdict_of_unknown hd, verdict_of_unknown hd]
    | some d =>
      rw [loader_of_known hd] at hnames
      rw [verdict_of_known hd, verdict_of_known hd]
      exact TypeFacts.assignable_limit (TypeFacts.within_of_resolves hnames) _ hlimit hlimit'

/-- With that much room a check is not cut off. -/
theorem verdict_ne_unbounded (hs : Stands (Told answer) I s.1 s)
    (hnames : ∀ n, (typeFacts answer (c.loader s.1)).Resolves n → n ∈ names)
    (hlimit : names.length ≤ limit) (n : String) (l : LoaderId) :
    c.verdict (typeFacts answer) limit s.1 ≠ .error (.unbounded n l) := by
  -- the failure of a search is a circle, or that of some type
  have search : ∀ {loader target candidate},
      (∀ n, (typeFacts answer loader).Resolves n → n ∈ names) →
      (typeFacts answer loader).Resolves candidate →
      (typeFacts answer loader).assignable loader limit target candidate ≠
        .error (.unbounded n l) := by
    intro loader target candidate hnames hcandidate herror
    have hverdict : (typeFacts answer loader).Verdict loader target candidate
        ((typeFacts answer loader).assignable loader limit target candidate) :=
      TypeFacts.assignable_verdict (TypeFacts.atMost_of_resolves hnames) hlimit hcandidate
    rw [herror] at hverdict
    rcases hverdict with ⟨_, he, -⟩ | ⟨m, -, hm⟩
    · cases he
    · exact typeFacts_ne_unbounded hm
  cases c with
  | ofNames target candidate loader =>
    unfold verdict
    by_cases ht : ClassName.internal target = ClassName.internal candidate
    · simp only [if_pos ht]
      rintro ⟨⟩
    · simp only [if_neg ht]
      cases hfact : typeFacts answer loader (ClassName.internal candidate) with
      | error e =>
        rintro ⟨⟩
        exact typeFacts_ne_unbounded hfact
      | ok header => exact search hnames ⟨header, hfact⟩
  | ofType target candidate =>
    cases hd : s.1.descriptor? candidate with
    | none =>
      rw [verdict_of_unknown hd]
      rintro ⟨⟩
    | some d =>
      obtain ⟨header, hfact, -⟩ := hs.valid.told candidate d hd
      rw [loader_of_known hd] at hnames
      rw [verdict_of_known hd]
      exact search hnames ⟨header, hfact.symm⟩

/-- Noting what is asked changes no answer and leads to the same state; nothing is asked twice. -/
theorem reads_once (src : ClassSource σ) (c : Check) (s : Hierarchy × σ) :
    let plain := (c.run src).result.run s
    let noting := (c.run src.noted).result.run (s.1, s.2, [])
    noting.value = plain.value ∧ (noting.state.1, noting.state.2.1) = plain.state ∧
      (noting.state.2.2.map fun q => (ClassName.internal q.1, q.2)).Nodup := by
  intro plain noting
  have hends := (c.inStep (noted_accords src)).ends fun _ _ hs => hs.toNoted
  obtain ⟨hvalue, hnoted⟩ := hends s (s.1, s.2, []) (known_start s)
  refine ⟨hvalue, Prod.ext hnoted.hierarchy hnoted.source, ?_⟩
  rw [hnoted.map_internal]
  exact hnoted.nodup

end Check

/-- **Every check comes to an end**, over every source that does not change and resolves finitely
many names in each loader, whatever these say of each other, and after any operations: there is a
verdict which is not that a search was cut off, and which is the same for all limits from the number
of names on. On its way a check asks the source about no name twice in a loader, in whichever form
the names are given. -/
theorem checks_end {σ : Type} (src : ClassSource σ) (I : σ → Prop)
    (answer : String → LoaderId → Except ReadError (Option Bytes))
    (hsrc : src.Tells I (Told answer)) (names : LoaderId → List String)
    (hnames : ∀ loader n, (typeFacts answer loader).Resolves n → n ∈ names loader)
    (start : σ) (hstart : I start) (ops : List Operation) (c : Check) :
    let s := Operation.after src ops (.empty, start)
    ∃ verdict, (∀ n l, verdict ≠ .error (.unbounded n l)) ∧
      ∀ src' : ClassSource σ, src'.read = src.read →
        src'.Allows I (names (c.loader s.1)).length →
          let plain := (c.run src').result.run s
          let noting := (c.run src'.noted).result.run (s.1, s.2, [])
          plain.value = verdict ∧ noting.value = verdict ∧
            (noting.state.1, noting.state.2.1) = plain.state ∧
            (noting.state.2.2.map fun q => (ClassName.internal q.1, q.2)).Nodup := by
  intro s
  have hs : Stands (Told answer) I s.1 s :=
    (Operation.after_stands hsrc ops ⟨Extends.refl _, valid_empty, hstart⟩).self
  have hloader := hnames (c.loader s.1)
  refine ⟨c.verdict (typeFacts answer) ((names (c.loader s.1)).length + 2) s.1,
    c.verdict_ne_unbounded hs hloader (Nat.le_add_right _ 2), fun src' hread hreach => ?_⟩
  have hsrc' : src'.Tells I (Told answer) := by
    refine ⟨?_, fun t ht => (hreach t ht).imp fun _ _ h => h.2⟩
    rw [hread]
    exact hsrc.read
  obtain ⟨limit, hlimit, hvalue⟩ := c.run_ensures hsrc' hreach hs
  rw [c.verdict_limit hloader hlimit (Nat.le_refl _)] at hvalue
  obtain ⟨hsame, hstate, hnodup⟩ := c.reads_once src' s
  exact ⟨hvalue, hsame.trans hvalue, hstate, hnodup⟩

/-- Two interfaces that extend each other are searched for a class, after one of them has been
forgotten: each is read once. -/
theorem checks_end_mutualInterfaces :
    let start := MemorySource.mutualInterfaces
    let s := Operation.after MemorySource.source
      [.resolve "p.I" .bootstrap, .evict .bootstrap] (.empty, start)
    let c : Check := .ofType "p/A" ⟨0⟩
    let noting := (c.run MemorySource.source.noted).result.run (s.1, s.2, [])
    (∀ n l, ((c.run MemorySource.source).result.run s).value ≠ .error (.unbounded n l)) ∧
      (noting.state.2.2.map fun q => (ClassName.internal q.1, q.2)).Nodup ∧
      noting.state.2.2 = [("p/J", .bootstrap), ("p/I", .bootstrap)] := by
  intro start s c noting
  obtain ⟨verdict, hbounded, hall⟩ := checks_end MemorySource.source
    (fun m => m.entries = start.entries) start.answer (MemorySource.source_steady start).tells
    (fun _ => start.entries.map MemoryEntry.name) (fun _ _ h => MemorySource.mem_of_resolves h)
    start rfl [.resolve "p.I" .bootstrap, .evict .bootstrap] c
  obtain ⟨hvalue, -, -, hnodup⟩ := hall MemorySource.source rfl fun m hm => by
    refine ⟨?_, hm⟩
    show _ ≤ m.entries.length
    rw [hm, List.length_map]
  refine ⟨?_, hnodup, by decide +kernel⟩
  rw [hvalue]
  exact hbounded

end Hierarchy

end Reclass
