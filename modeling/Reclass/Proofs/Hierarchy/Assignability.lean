import Mathlib.Data.List.Forall2
import Mathlib.Data.Option.Basic
import Reclass.ClassFile.Builder
import Reclass.Hierarchy.Memory
import Reclass.Proofs.Hierarchy.Ancestry
import Reclass.Proofs.Hierarchy.Invariant

/-!
# Assignability is ancestry

Over a source that always answers alike, a resolver in any state it can come to searches the graph
of types as `TypeFacts.assignable` does, descriptor by descriptor and name by name: each step of
the one follows the step of the other (`Follows`). So what `isAssignableFrom` answers does not
depend on what was asked before, and it is right (`isAssignableFrom_decides`).
-/

set_option autoImplicit false

namespace Reclass

/-- What a loader makes of the answers of a source. -/
def typeFacts (answer : String → LoaderId → Except ReadError (Option Bytes)) (loader : LoaderId) :
    TypeFacts :=
  fun name => ClassHeader.ofAnswer name loader (answer name loader)

/-- A class that does not resolve was not read, not found or not understood. -/
theorem typeFacts_error {answer : String → LoaderId → Except ReadError (Option Bytes)}
    {loader : LoaderId} {n : String} {e : ResolutionError}
    (h : typeFacts answer loader n = .error e) :
    (∃ cause, e = .unreadable n loader cause) ∨ e = .notFound n loader ∨
      ∃ fault, e = .malformed n loader fault := by
  unfold typeFacts at h
  match answer n loader, h with
  | .error cause, h =>
    cases h
    exact Or.inl ⟨cause, rfl⟩
  | .ok none, h =>
    cases h
    exact Or.inr (Or.inl rfl)
  | .ok (some bytes), h =>
    rw [ClassHeader.ofAnswer] at h
    cases hp : ClassHeader.parse bytes with
    | error fault =>
      rw [hp] at h
      cases h
      exact Or.inr (Or.inr ⟨fault, rfl⟩)
    | ok header =>
      simp only [hp] at h
      by_cases hn : header.name ≠ n
      · rw [if_pos hn] at h
        cases h
        exact Or.inr (Or.inr ⟨_, rfl⟩)
      · rw [if_neg hn] at h
        cases h

theorem typeFacts_ne_circular {answer : String → LoaderId → Except ReadError (Option Bytes)}
    {loader l : LoaderId} {n name : String} :
    typeFacts answer loader n ≠ .error (.circular name l) := by
  intro h
  rcases typeFacts_error h with ⟨_, he⟩ | he | ⟨_, he⟩
  all_goals cases he

theorem typeFacts_ne_unbounded {answer : String → LoaderId → Except ReadError (Option Bytes)}
    {loader l : LoaderId} {n name : String} :
    typeFacts answer loader n ≠ .error (.unbounded name l) := by
  intro h
  rcases typeFacts_error h with ⟨_, he⟩ | he | ⟨_, he⟩
  all_goals cases he

/-- A source that does not change: at all times it gives the same answers, and it vouches for a
number of types that no loader sees more of. -/
structure ClassSource.Steady {σ : Type} (src : ClassSource σ) (I : σ → Prop)
    (answer : String → LoaderId → Except ReadError (Option Bytes)) : Prop where
  read : ∀ name loader s, I s → (src.read name loader).Ensures s fun r s' =>
    r = answer name loader ∧ I s'
  reach : ∀ s, I s → src.reach.Ensures s fun n s' =>
    (∀ loader, (typeFacts answer loader).AtMost n) ∧ I s'

/-- What a steady source tells. -/
def Told (answer : String → LoaderId → Except ReadError (Option Bytes)) (name : String)
    (loader : LoaderId) (r : Except ResolutionError ClassHeader) : Prop :=
  r = typeFacts answer loader name

theorem ClassSource.Steady.tells {σ : Type} {src : ClassSource σ} {I : σ → Prop}
    {answer : String → LoaderId → Except ReadError (Option Bytes)} (h : src.Steady I answer) :
    src.Tells I (Told answer) where
  read name loader s hs := (h.read name loader s hs).imp fun r s' hr =>
    ⟨by rw [hr.1]; rfl, hr.2⟩
  reach s hs := (h.reach s hs).imp fun _ _ hr => hr.2

namespace MemorySource

variable {m m' : MemorySource}

theorem answer_eq (h : m'.entries = m.entries) : m'.answer = m.answer := by
  funext name loader
  rw [answer, answer, entry?, entry?, entry?, entry?, h]

/-- What resolves has an entry. -/
theorem mem_of_resolves {loader : LoaderId} {n : String}
    (h : (typeFacts m.answer loader).Resolves n) : n ∈ m.entries.map MemoryEntry.name := by
  obtain ⟨header, h⟩ := h
  have hsome : ∃ e ∈ m.entries, e.name = n := by
    cases he : (m.entry? n (some loader)).or (m.entry? n none) with
    | none =>
      rw [typeFacts, answer, he] at h
      cases h
    | some e =>
      rcases Option.or_eq_some_iff.1 he with he | ⟨-, he⟩
      all_goals
        have habout := List.find?_some he
        rw [isAbout, Bool.and_eq_true, decide_eq_true_iff] at habout
        exact ⟨e, List.mem_of_find?_eq_some he, habout.1⟩
  obtain ⟨e, he, rfl⟩ := hsome
  exact List.mem_map_of_mem he

/-- A source in memory is steady: reading only remembers what was read. -/
theorem source_steady (m : MemorySource) :
    source.Steady (fun m' => m'.entries = m.entries) m.answer where
  read name loader m' hm' := ⟨by rw [← answer_eq hm']; rfl, hm'⟩
  reach m' hm' := by
    refine ⟨?_, hm'⟩
    intro loader names hnodup hresolve
    show names.length ≤ m'.entries.length
    -- different names that resolve have different entries
    have hsubset : names ⊆ m.entries.map MemoryEntry.name :=
      fun n hn => mem_of_resolves (hresolve n hn)
    have hle := hnodup.length_le_of_subset hsubset
    rw [List.length_map] at hle
    rw [hm']
    exact hle

/-- Two interfaces that extend each other, and a class that comes to them by its super class. -/
def mutualInterfaces : MemorySource :=
  let entry := fun (sketch : ClassSketch) (superName : Option String) =>
    { name := sketch.name, content := .ok (some (sketch.withSuper superName).encode) : MemoryEntry }
  { entries := [entry (.new "p.A") (some "p.B"),
      entry ((ClassSketch.new "p.B").implementing "p.I") none,
      entry ((ClassSketch.new "p.I").implementing "p.J") none,
      entry ((ClassSketch.new "p.J").implementing "p.I") none] }

end MemorySource

namespace Hierarchy

/-- Two results agree when both are good and related, or both are the same failure. -/
def Agree {ε α β : Type} (R : α → β → Prop) : Except ε α → Except ε β → Prop
  | .ok a, .ok b => R a b
  | .error e, .error e' => e = e'
  | _, _ => False

section Follows

variable {σ α β γ δ : Type} {answer : String → LoaderId → Except ReadError (Option Bytes)}
  {I : σ → Prop} {s : Hierarchy × σ}

/-- A resolver step from the state `s` yields what the value `v` says: the same failure, or a
result that is related to it in the state after the step. -/
def Follows (answer : String → LoaderId → Except ReadError (Option Bytes)) (I : σ → Prop)
    (x : Attempt (Hierarchy × σ) ResolutionError α) (s : Hierarchy × σ)
    (R : Hierarchy → α → β → Prop) (v : Except ResolutionError β) : Prop :=
  x.Ensures s fun r s' => Stands (Told answer) I s.1 s' ∧ Agree (R s'.1) r v

theorem follows_pure {R : Hierarchy → α → β → Prop} {a : α} {b : β}
    (hs : Stands (Told answer) I s.1 s) (h : R s.1 a b) :
    Follows answer I (pure a) s R (pure b) :=
  ⟨hs, h⟩

theorem follows_throw {R : Hierarchy → α → β → Prop} {e : ResolutionError}
    (hs : Stands (Told answer) I s.1 s) : Follows answer I (throw e) s R (throw e) :=
  ⟨hs, rfl⟩

theorem Follows.map {R : Hierarchy → α → β → Prop} {S : Hierarchy → α → δ → Prop}
    {x : Attempt (Hierarchy × σ) ResolutionError α} {v : Except ResolutionError β} {f : β → δ}
    (h : Follows answer I x s R v) (hRS : ∀ h a b, R h a b → S h a (f b)) :
    Follows answer I x s S (f <$> v) := by
  refine Attempt.Ensures.imp h fun r s' h => ⟨h.1, ?_⟩
  match r, v, h.2 with
  | .ok a, .ok b, hr => exact hRS s'.1 a b hr
  | .error e, .error e', hr => exact hr

theorem Follows.bind {R : Hierarchy → α → β → Prop} {S : Hierarchy → γ → δ → Prop}
    {x : Attempt (Hierarchy × σ) ResolutionError α} {v : Except ResolutionError β}
    {f : α → Attempt (Hierarchy × σ) ResolutionError γ} {g : β → Except ResolutionError δ}
    (hx : Follows answer I x s R v)
    (hf : ∀ a b s', Stands (Told answer) I s.1 s' → R s'.1 a b →
      Follows answer I (f a) s' S (g b)) :
    Follows answer I (x >>= f) s S (v >>= g) := by
  unfold Follows
  rw [Attempt.ensures_bind]
  refine Attempt.Ensures.imp hx fun r s' h => ?_
  obtain ⟨hs', hr⟩ := h
  match r, v, hr with
  | .error e, .error e', hr => exact ⟨hs', hr⟩
  | .ok a, .ok b, hr =>
    exact Attempt.Ensures.imp (hf a b s' hs' hr) fun _ _ h => ⟨hs'.trans h.1, h.2⟩

/-- A step whose result is known goes before another one. -/
theorem Follows.value_bind {S : Hierarchy → γ → δ → Prop} {a : α}
    {x : Attempt (Hierarchy × σ) ResolutionError α}
    {f : α → Attempt (Hierarchy × σ) ResolutionError γ} {w : Except ResolutionError δ}
    (hx : Follows answer I x s (fun _ a b => a = b) (pure a))
    (hf : ∀ s', Stands (Told answer) I s.1 s' → Follows answer I (f a) s' S w) :
    Follows answer I (x >>= f) s S w := by
  unfold Follows
  rw [Attempt.ensures_bind]
  refine Attempt.Ensures.imp hx fun r s' h => ?_
  obtain ⟨hs', hr⟩ := h
  match r, hr with
  | .ok a', hr =>
    cases hr
    exact Attempt.Ensures.imp (hf s' hs') fun _ _ h => ⟨hs'.trans h.1, h.2⟩

theorem follows_mapM {T : γ → δ → Prop} {R : Hierarchy → α → β → Prop}
    (hmono : ∀ h h' : Hierarchy, h.Extends h' → ∀ a b, R h a b → R h' a b)
    {f : γ → Attempt (Hierarchy × σ) ResolutionError α} {g : δ → Except ResolutionError β}
    {cs : List γ} {ds : List δ} (hcs : List.Forall₂ T cs ds) (hs : Stands (Told answer) I s.1 s)
    (hf : ∀ c d s', Stands (Told answer) I s.1 s' → T c d → Follows answer I (f c) s' R (g d)) :
    Follows answer I (cs.mapM f) s (fun h => List.Forall₂ (R h)) (ds.mapM g) := by
  induction hcs generalizing s with
  | nil => exact follows_pure hs List.Forall₂.nil
  | @cons c d cs ds hc _ ih =>
    rw [List.mapM_cons, List.mapM_cons]
    refine (hf c d s hs hc).bind fun a b s₁ hs₁ hab => ?_
    have hrest := ih hs₁.self fun c d s' hs' hcd => hf c d s' (hs₁.trans hs') hcd
    refine hrest.bind fun as bs s₂ hs₂ habs => ?_
    -- what was related after the first step still is after the others
    exact follows_pure hs₂.self (List.Forall₂.cons (hmono _ _ hs₂.later a b hab) habs)

end Follows

section Search

variable {σ : Type} {src : ClassSource σ} {I : σ → Prop}
  {answer : String → LoaderId → Except ReadError (Option Bytes)} {loader : LoaderId}
  {s : Hierarchy × σ}

/-- Identities and names of the same types of a loader, in the same order. -/
abbrev Named (loader : LoaderId) (h : Hierarchy) : List DescriptorId → List String → Prop :=
  List.Forall₂ (h.Denotes loader)

theorem Named.mono {h h' : Hierarchy} (e : h.Extends h') {ids : List DescriptorId}
    {ns : List String} (hn : Named loader h ids ns) : Named loader h' ids ns :=
  hn.imp fun _ _ hd => hd.mono e

/-- What an identity is called. -/
def nameIn (h : Hierarchy) (id : DescriptorId) : String :=
  match h.descriptor? id with
  | some d => d.internalName
  | none => ""

theorem Denotes.nameIn_eq {h : Hierarchy} {id : DescriptorId} {n : String}
    (hd : h.Denotes loader id n) : nameIn h id = n := by
  obtain ⟨d, hd, rfl, -⟩ := hd
  rw [nameIn, hd]

theorem Named.map_nameIn {h : Hierarchy} {ids : List DescriptorId} {ns : List String}
    (hids : Named loader h ids ns) : ids.map (nameIn h) = ns := by
  induction hids with
  | nil => rfl
  | cons hd _ ih => rw [List.map_cons, hd.nameIn_eq, ih]

theorem nameOf_follows (hs : Stands (Told answer) I s.1 s) {id : DescriptorId} {n : String}
    (hd : s.1.Denotes loader id n) :
    Follows answer I (Attempt.act (nameOf id)) s (fun _ a b => a = b) (pure n) :=
  ⟨hs, hd.nameIn_eq⟩

/-- The names behind a list of identities. -/
theorem namesOf_follows (hs : Stands (Told answer) I s.1 s) {ids : List DescriptorId}
    {ns : List String} (hids : Named loader s.1 ids ns) :
    Follows answer I (Attempt.act (ids.mapM nameOf)) s (fun _ a b => a = b) (pure ns) := by
  have hvalue : (ids.mapM nameOf).Ensures s fun names s' =>
      names = ids.map (nameIn s.1) ∧ s' = s := by
    refine Act.ensures_mapM (I := fun s' => s' = s) ?_ rfl
    rintro id - _ rfl
    exact ⟨rfl, rfl⟩
  unfold Follows
  rw [Attempt.ensures_act]
  refine hvalue.imp fun names s' h => ?_
  obtain ⟨rfl, rfl⟩ := h
  exact ⟨hs, hids.map_nameIn⟩

theorem nameOf_bind_follows {α β : Type} {R : Hierarchy → α → β → Prop} {id : DescriptorId}
    {f : String → Attempt (Hierarchy × σ) ResolutionError α} {v : Except ResolutionError β} :
    Follows answer I (Attempt.act (nameOf id) >>= f) s R v ↔
      Follows answer I (f (nameIn s.1 id)) s R v :=
  Iff.rfl

theorem loaderOf_follows (hs : Stands (Told answer) I s.1 s) {id : DescriptorId} {n : String}
    (hd : s.1.Denotes loader id n) :
    Follows answer I (Attempt.act (loaderOf id)) s (fun _ a b => a = b) (pure loader) := by
  obtain ⟨d, hd, -, rfl⟩ := hd
  refine ⟨hs, ?_⟩
  show (match s.1.descriptor? id with
    | some d => d.loader
    | none => .bootstrap) = d.loader
  rw [hd]

/-- An ancestor that is declared comes to its internal name, when that resolves. -/
theorem ancestorRequired_follows (hsrc : src.Tells I (Told answer)) (hs : Stands (Told answer) I s.1 s)
    {id : DescriptorId} {d : Descriptor} (hd : s.1.descriptor? id = some d)
    {slot : AncestorSlot} {name : String} (hname : d.declared slot = some name) :
    Follows answer I (ancestorRequired src id slot) s
      (fun h a n => ∃ target, a = some target ∧ h.Denotes d.loader target n)
      ((typeFacts answer d.loader).resolved (ClassName.internal name)) := by
  refine (ancestorRequired_ensures hsrc hs hd slot).imp fun r s' h => ⟨h.1, ?_⟩
  have hr := h.2
  rw [hname] at hr
  obtain ⟨r', rfl, hr⟩ := hr
  rw [TypeFacts.resolved]
  match r', hr with
  | .ok target, ⟨htarget, header, hfact⟩ =>
    rw [← hfact]
    exact ⟨target, rfl, htarget⟩
  | .error e, hfact =>
    rw [← hfact]
    rfl

/-- The descriptor behind an identity repeats the header of the type. -/
theorem Stands.states (hs : Stands (Told answer) I s.1 s) {id : DescriptorId} {n : String}
    (hd : s.1.Denotes loader id n) : ∃ d header, s.1.descriptor? id = some d ∧
      d.loader = loader ∧ typeFacts answer loader n = .ok header ∧ d.States header := by
  obtain ⟨d, hd, rfl, rfl⟩ := hd
  obtain ⟨header, hfact, hstates⟩ := hs.valid.told id d hd
  exact ⟨d, header, hd, rfl, hfact.symm, hstates⟩

theorem requiredSuperclass_follows (hsrc : src.Tells I (Told answer))
    (hs : Stands (Told answer) I s.1 s) {id : DescriptorId} {n : String}
    (hd : s.1.Denotes loader id n) :
    Follows answer I (requiredSuperclass src id) s (fun h => Option.Rel (h.Denotes loader))
      ((typeFacts answer loader).parentOf n) := by
  obtain ⟨d, header, hdesc, rfl, hfact, hstates⟩ := hs.states hd
  have hdeclared : d.declared .superclass = header.superName := hstates.superName
  cases hname : header.superName with
  | some name =>
    rw [hname] at hdeclared
    rw [TypeFacts.parentOf_of_declared hfact hname]
    refine (ancestorRequired_follows hsrc hs hdesc hdeclared).map fun h a m hm => ?_
    obtain ⟨target, rfl, htarget⟩ := hm
    exact Option.Rel.some htarget
  | none =>
    -- a root has no super class to be followed
    rw [TypeFacts.parentOf_of_root hfact hname]
    refine (ancestorRequired_ensures hsrc hs hdesc .superclass).imp fun r s' h => ⟨h.1, ?_⟩
    have hr := h.2
    rw [hdeclared, hname] at hr
    cases hr
    exact Option.Rel.none

/-- The interface slots of a descriptor, each with the name declared in it. -/
theorem declared_interfaceSlots (d : Descriptor) :
    List.Forall₂ (fun slot name => d.declared slot = some name) d.interfaceSlots
      d.interfaceNames := by
  rw [List.forall₂_iff_get]
  refine ⟨?_, ?_⟩
  · simp [Descriptor.interfaceSlots]
  · intro i h₁ h₂
    simp [Descriptor.interfaceSlots, Descriptor.declared]

theorem named_filterMap {h : Hierarchy} {found : List (Option DescriptorId)} {ns : List String}
    (hfound : List.Forall₂ (fun a n => ∃ target, a = some target ∧ h.Denotes loader target n)
      found ns) : Named loader h (found.filterMap fun target => target) ns := by
  induction hfound with
  | nil => exact List.Forall₂.nil
  | cons ha _ ih =>
    obtain ⟨target, rfl, htarget⟩ := ha
    exact List.Forall₂.cons htarget ih

theorem requiredInterfaces_follows (hsrc : src.Tells I (Told answer))
    (hs : Stands (Told answer) I s.1 s) {id : DescriptorId} {n : String}
    (hd : s.1.Denotes loader id n) :
    Follows answer I (requiredInterfaces src id) s (Named loader)
      ((typeFacts answer loader).parentsOf n) := by
  obtain ⟨d, header, hdesc, rfl, hfact, hstates⟩ := hs.states hd
  rw [TypeFacts.parentsOf, hfact, requiredInterfaces]
  have hslots : Follows answer I (Attempt.act (slotsOf id)) s (fun _ a b => a = b)
      (pure d.interfaceSlots) := by
    unfold Follows
    rw [Attempt.ensures_act, slotsOf, Act.ensures_bind, lookup, Act.ensures_gets, hdesc]
    exact ⟨hs, rfl⟩
  refine hslots.value_bind fun s₁ hs₁ => ?_
  show Follows answer I _ s₁ (Named d.loader)
    (header.parents.mapM (typeFacts answer d.loader).resolved)
  rw [ClassHeader.parents, List.mapM_map, ← hstates.interfaceNames]
  rw [← bind_pure (List.mapM _ d.interfaceNames)]
  refine (follows_mapM (R := fun h a n => ∃ target, a = some target ∧ h.Denotes d.loader target n)
    ?_ (declared_interfaceSlots d) hs₁.self ?_).bind
    fun found ns s₂ hs₂ hfound => follows_pure hs₂.self (named_filterMap hfound)
  · rintro h h' e a n ⟨target, rfl, htarget⟩
    exact ⟨target, rfl, htarget.mono e⟩
  · intro slot name s' hs' hname
    -- earlier slots may have filled links, but what is declared stays
    obtain ⟨d', hd', hdd'⟩ := (hs₁.trans hs').later id d hdesc
    rw [← hdd'.loader]
    exact ancestorRequired_follows hsrc hs'.self hd' ((hdd'.declared slot).trans hname)

/-! ### The search follows the graph -/

theorem superLine_follows (hsrc : src.Tells I (Told answer)) {limit : Nat} {seen : List String}
    {id : DescriptorId} {n : String} (hs : Stands (Told answer) I s.1 s)
    (hd : s.1.Denotes loader id n) :
    Follows answer I (superLine src limit seen id) s (Named loader)
      ((typeFacts answer loader).superLine loader limit seen n) := by
  induction limit generalizing s seen id n with
  | zero =>
    -- both give up with the name at hand
    refine (nameOf_follows hs hd).value_bind fun s₁ hs₁ => ?_
    refine (loaderOf_follows hs₁.self (hd.mono hs₁.later)).value_bind fun s₂ hs₂ => ?_
    exact follows_throw hs₂.self
  | succ limit ih =>
    rw [superLine, TypeFacts.superLine]
    refine (requiredSuperclass_follows hsrc hs hd).bind fun parent p s₁ hs₁ hparent => ?_
    have hd₁ := hd.mono hs₁.later
    cases hparent with
    | none => exact follows_pure hs₁.self (List.Forall₂.cons hd₁ List.Forall₂.nil)
    | @some parent p hp =>
      refine (nameOf_follows hs₁.self hp).value_bind fun s₂ hs₂ => ?_
      have hp₂ := hp.mono hs₂.later
      by_cases hseen : p ∈ seen
      · -- a name that comes twice ends both
        simp only [if_pos hseen, Attempt.throw_bind]
        refine (loaderOf_follows hs₂.self hp₂).value_bind fun s₃ hs₃ => ?_
        exact follows_throw hs₃.self
      · simp only [if_neg hseen]
        refine (ih hs₂.self hp₂).bind fun line ns s₃ hs₃ hline => ?_
        have hd₃ := (hd₁.mono hs₂.later).mono hs₃.later
        exact follows_pure hs₃.self (List.Forall₂.cons hd₃ hline)

theorem searchEach_follows {target : String}
    {deeper : DescriptorId → List String →
      Attempt (Hierarchy × σ) ResolutionError (Bool × List String)}
    {deeper' : String → List String → Except ResolutionError (Bool × List String)}
    (hdeeper : ∀ (s : Hierarchy × σ) (id : DescriptorId) (n : String) (visited : List String),
      Stands (Told answer) I s.1 s → s.1.Denotes loader id n →
      Follows answer I (deeper id visited) s (fun _ a b => a = b) (deeper' n visited))
    {ids : List DescriptorId} {ns visited : List String} (hs : Stands (Told answer) I s.1 s)
    (hids : Named loader s.1 ids ns) :
    Follows answer I (searchEach target deeper ids visited) s (fun _ a b => a = b)
      (TypeFacts.searchEach target deeper' ns visited) := by
  induction ids generalizing s ns visited with
  | nil =>
    cases hids
    exact follows_pure hs rfl
  | cons id ids ih =>
    cases hids with
    | @cons _ n _ ns hd hids =>
      rw [searchEach, TypeFacts.searchEach]
      refine (nameOf_follows hs hd).value_bind fun s₁ hs₁ => ?_
      have hids₁ := Named.mono hs₁.later hids
      by_cases ht : n = target
      · rw [if_pos ht, if_pos ht]
        exact follows_pure hs₁.self rfl
      · rw [if_neg ht, if_neg ht]
        by_cases hn : n ∈ visited
        · rw [if_pos hn, if_pos hn]
          exact ih hs₁.self hids₁
        · rw [if_neg hn, if_neg hn]
          -- both go on with the names visited below, or end with what was found
          refine (hdeeper s₁ id n _ hs₁.self (hd.mono hs₁.later)).bind ?_
          rintro ⟨found, visited'⟩ _ s₂ hs₂ rfl
          cases found with
          | true => exact follows_pure hs₂.self rfl
          | false => exact ih hs₂.self (Named.mono hs₂.later hids₁)

theorem searchBelow_follows (hsrc : src.Tells I (Told answer)) (target : String) (limit : Nat) :
    ∀ (s : Hierarchy × σ) (id : DescriptorId) (n : String) (visited : List String),
      Stands (Told answer) I s.1 s → s.1.Denotes loader id n →
      Follows answer I (searchBelow src target limit id visited) s (fun _ a b => a = b)
        ((typeFacts answer loader).searchBelow loader target limit n visited) := by
  induction limit with
  | zero =>
    intro s id n visited hs hd
    refine (nameOf_follows hs hd).value_bind fun s₁ hs₁ => ?_
    refine (loaderOf_follows hs₁.self (hd.mono hs₁.later)).value_bind fun s₂ hs₂ => ?_
    exact follows_throw hs₂.self
  | succ limit ih =>
    intro s id n visited hs hd
    rw [searchBelow, TypeFacts.searchBelow]
    refine (requiredInterfaces_follows hsrc hs hd).bind fun ids ns s₁ hs₁ hids => ?_
    exact searchEach_follows ih hs₁.self hids

theorem searchLine_follows (hsrc : src.Tells I (Told answer)) {target : String} {limit : Nat}
    {line : List DescriptorId} {ns visited : List String} (hs : Stands (Told answer) I s.1 s)
    (hline : Named loader s.1 line ns) :
    Follows answer I (searchLine src target limit line visited) s (fun _ a b => a = b)
      ((typeFacts answer loader).searchLine loader target limit ns visited) := by
  induction line generalizing s ns visited with
  | nil =>
    cases hline
    exact follows_pure hs rfl
  | cons id line ih =>
    cases hline with
    | @cons _ n _ ns hd hline =>
      rw [searchLine, TypeFacts.searchLine]
      refine (searchBelow_follows hsrc target limit s id n visited hs hd).bind ?_
      rintro ⟨found, visited'⟩ _ s₁ hs₁ rfl
      cases found with
      | true => exact follows_pure hs₁.self rfl
      | false => exact ih hs₁.self (Named.mono hs₁.later hline)

/-- The limit of a search that starts in the state. -/
def limitIn (src : ClassSource σ) (s : Hierarchy × σ) : Nat :=
  s.1.descriptors.size + (src.reach.run s.2).value + 1

theorem reach_follows (hsrc : src.Tells I (Told answer)) (hs : Stands (Told answer) I s.1 s) :
    Follows answer I (Attempt.act (reach src)) s (fun _ a b => a = b) (pure (limitIn src s)) := by
  have hsource : src.reach.Ensures s.2 fun _ s' => I s' := hsrc.reach s.2 hs.source
  exact ⟨⟨Extends.refl s.1, hs.valid, hsource⟩, rfl⟩

theorem isAssignable_follows (hsrc : src.Tells I (Told answer)) (target : String)
    {candidate : DescriptorId} {n : String} (hs : Stands (Told answer) I s.1 s)
    (hd : s.1.Denotes loader candidate n) :
    Follows answer I (isAssignable src target candidate) s (fun _ a b => a = b)
      ((typeFacts answer loader).assignable loader (limitIn src s) target n) := by
  rw [isAssignable, nameOf_bind_follows, hd.nameIn_eq, TypeFacts.assignable]
  by_cases ht : n = target
  · rw [if_pos ht, if_pos ht]
    exact follows_pure hs rfl
  · rw [if_neg ht, if_neg ht]
    refine (reach_follows hsrc hs).value_bind fun s₁ hs₁ => ?_
    refine (superLine_follows hsrc hs₁.self (hd.mono hs₁.later)).bind
      fun line ns s₂ hs₂ hline => ?_
    refine (namesOf_follows hs₂.self hline).value_bind fun s₃ hs₃ => ?_
    by_cases hmem : target ∈ ns.drop 1
    · rw [if_pos hmem, if_pos hmem]
      exact follows_pure hs₃.self rfl
    · rw [if_neg hmem, if_neg hmem]
      exact searchLine_follows hsrc hs₃.self (Named.mono hs₃.later hline)

/-- A steady source vouches for more types than a search can come to. -/
theorem atMost_limitIn (hsrc : src.Steady I answer) (hs : I s.2) (loader : LoaderId) :
    (typeFacts answer loader).AtMost (limitIn src s) := by
  have hreach : src.reach.Ensures s.2 fun n _ =>
      ∀ loader, (typeFacts answer loader).AtMost n := (hsrc.reach s.2 hs).imp fun _ _ h => h.1
  intro names hnodup hresolve
  have hle : names.length ≤ (src.reach.run s.2).value := hreach loader names hnodup hresolve
  unfold limitIn
  omega

theorem Agree.eq {ε α : Type} {r v : Except ε α} (h : Agree (fun a b => a = b) r v) : r = v := by
  match r, v, h with
  | .ok a, .ok b, h => exact congrArg Except.ok h
  | .error e, .error e', h => exact congrArg Except.error h

/-- The answer is the verdict of the search over the graph, in every state. -/
theorem isAssignableFrom_verdict (hsrc : src.Steady I answer) (hs : Stands (Told answer) I s.1 s)
    (target candidate : String) :
    (isAssignableFrom src target candidate loader).Ensures s fun r _ =>
      (typeFacts answer loader).Verdict loader (ClassName.internal target)
        (ClassName.internal candidate) r := by
  rw [isAssignableFrom]
  by_cases ht : ClassName.internal target = ClassName.internal candidate
  · simp only [if_pos ht]
    exact Or.inl ht
  · simp only [if_neg ht, Attempt.ensures_bind]
    have hresolve := resolveRequired_ensures hsrc.tells hs (ClassName.internal candidate) loader
    rw [ClassName.internal_internal] at hresolve
    refine hresolve.imp fun r s₁ h => ?_
    obtain ⟨hs₁, hr⟩ := h
    cases r with
    | error e => exact Or.inr ⟨ClassName.internal candidate, Or.inl rfl, hr.symm⟩
    | ok id =>
      obtain ⟨hd, header, hfact⟩ := hr
      have hfollows := isAssignable_follows hsrc.tells (ClassName.internal target) hs₁.self hd
      refine Attempt.Ensures.imp hfollows fun r' s₂ h => ?_
      rw [h.2.eq]
      -- whatever the limit is in this state, no search over the graph reaches it
      exact TypeFacts.assignable_verdict (atMost_limitIn hsrc hs₁.source loader)
        (Nat.le_refl _) ⟨header, hfact.symm⟩

end Search

/-- **Assignability decides ancestry.** Over a source that does not change, after any operations,
the answer about two names in either form is right: it is true of ancestors only, and false only
of a type that is no ancestor, when the line of super classes comes to an end and every ancestor
resolves. A failure lies among the ancestors: a line that comes to some name twice, or a type that
does not resolve. -/
theorem isAssignableFrom_decides {σ : Type} (src : ClassSource σ) (I : σ → Prop)
    (answer : String → LoaderId → Except ReadError (Option Bytes)) (hsrc : src.Steady I answer)
    (source : σ) (hsource : I source) (ops : List Operation) (target candidate : String)
    (loader : LoaderId) :
    let facts := typeFacts answer loader
    let t := ClassName.internal target
    let c := ClassName.internal candidate
    let r := ((isAssignableFrom src target candidate loader).result.run
      (Operation.after src ops (empty, source))).value
    (r = .ok true → facts.Ancestor c t) ∧
      (r = .ok false → ¬ facts.Ancestor c t ∧ ¬ facts.Circular c ∧
        ∀ n, facts.Ancestor c n → facts.Resolves n) ∧
      (∀ name l, r = .error (.circular name l) → facts.Circular c) ∧
      (∀ e, r = .error e → (∀ name l, e ≠ .circular name l) →
        ∃ n, facts.Ancestor c n ∧ facts n = .error e) ∧
      ((∀ n, facts.Ancestor c n → facts.Resolves n) → ¬ facts.Circular c → ∃ b, r = .ok b) := by
  intro facts t c r
  have hstart : Stands (Told answer) I empty (empty, source) :=
    ⟨Extends.refl empty, valid_empty, hsource⟩
  have hs := Operation.after_stands hsrc.tells ops hstart
  have hverdict : facts.Verdict loader t c r :=
    isAssignableFrom_verdict hsrc hs.self target candidate
  match r, hverdict with
  | .ok true, h =>
    refine ⟨fun _ => h, ?_, ?_, ?_, fun _ _ => ⟨true, rfl⟩⟩
    · rintro ⟨⟩
    · rintro name l ⟨⟩
    · rintro e ⟨⟩
  | .ok false, h =>
    refine ⟨?_, fun _ => h, ?_, ?_, fun _ _ => ⟨false, rfl⟩⟩
    · rintro ⟨⟩
    · rintro name l ⟨⟩
    · rintro e ⟨⟩
  | .error e, h =>
    refine ⟨?_, ?_, ?_, ?_, ?_⟩
    · rintro ⟨⟩
    · rintro ⟨⟩
    · -- no source reports a circle, so it is one of super classes
      rintro name l ⟨⟩
      rcases h with ⟨p, -, hp, hcircle⟩ | ⟨n, -, hn⟩
      · exact ⟨p, hp, hcircle⟩
      · exact absurd hn typeFacts_ne_circular
    · rintro _ ⟨⟩ hne
      rcases h with ⟨p, he, -⟩ | h
      · exact absurd he (hne p loader)
      · exact h
    · intro hresolves hcircular
      rcases h with ⟨p, -, hp, hcircle⟩ | ⟨n, hn, he⟩
      · exact absurd ⟨p, hp, hcircle⟩ hcircular
      · obtain ⟨header, hheader⟩ := hresolves n hn
        rw [he] at hheader
        cases hheader

/-- The class is below the interface that it comes to, which is not below the class, although the
search runs in a circle. -/
theorem isAssignableFrom_decides_mutualInterfaces :
    (typeFacts MemorySource.mutualInterfaces.answer .bootstrap).Ancestor "p/A" "p/J" ∧
      ¬ (typeFacts MemorySource.mutualInterfaces.answer .bootstrap).Ancestor "p/J" "p/A" := by
  have decides := isAssignableFrom_decides MemorySource.source
    (fun m => m.entries = MemorySource.mutualInterfaces.entries)
    MemorySource.mutualInterfaces.answer
    (MemorySource.source_steady MemorySource.mutualInterfaces) MemorySource.mutualInterfaces rfl
    [.resolve "p.I" .bootstrap, .evict .bootstrap, .interfaces ⟨0⟩]
  constructor
  · exact (decides "p.J" "p/A" .bootstrap).1 (by decide +kernel)
  · exact ((decides "p.A" "p/J" .bootstrap).2.1 (by decide +kernel)).1

end Hierarchy

end Reclass
