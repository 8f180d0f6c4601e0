import Mathlib.Data.Nat.Find
import Reclass.Proofs.ClassPath.Ancestry
import Reclass.Proofs.Hierarchy.Bounds
import Reclass.Proofs.Hierarchy.History

/-!
# What is remembered does not show

Every query has a reply that is read off the facts of the source, without a table and without links
(`Query.reply`). In every state that a resolver over a source with steady answers can come to, it
gives that reply (`Query.ask_ensures`), whether the types were built before, evicted, linked in part
or asked for in vain. So two resolvers with different histories answer alike, and like one that has
been asked nothing (`Hierarchy.replies_of_histories`).

Identities differ from one history to the other. A reply therefore shows descriptors without their
links, and a query about a descriptor is the same in two histories when it is about the same name
and loader.
-/

set_option autoImplicit false

namespace Reclass

/-- A type, by its internal name and its loader. -/
structure TypeRef where
  name : String
  loader : LoaderId
  deriving DecidableEq, Repr

/-- What can be asked about a type that has been resolved. -/
inductive Question where
  | isAssignable (target : String)
  | superclass
  | requiredSuperclass
  | interfaces
  | requiredInterfaces
  deriving DecidableEq, Repr

/-- What can be asked of a resolver, with types of the kind `η`. -/
inductive Query (η : Type) where
  | resolve (name : String) (loader : LoaderId)
  | resolveRequired (name : String) (loader : LoaderId)
  | isAssignableFrom (target candidate : String) (loader : LoaderId)
  | about (type : η) (question : Question)
  deriving DecidableEq, Repr

/-- An answer, with descriptors in place of identities. -/
inductive Reply where
  | verdict (r : Except ResolutionError Bool)
  | type (r : Except ResolutionError (Option Descriptor))
  | types (r : Except ResolutionError (List (Option Descriptor)))
  deriving DecidableEq

/-- The descriptor with all links empty. -/
def Descriptor.unlinked (d : Descriptor) : Descriptor :=
  { d with superLink := none, interfaceLinks := d.interfaceNames.map fun _ => none }

theorem Descriptor.unlinked_of_states {d : Descriptor} {header : ClassHeader}
    (h : d.States header) (hname : d.internalName = header.name) :
    d.unlinked = ofHeader header d.loader := by
  obtain ⟨flags, internalName, superName, interfaceNames, loader, superLink, interfaceLinks⟩ := d
  obtain ⟨rfl, rfl, rfl⟩ := h
  obtain rfl : internalName = header.name := hname
  rfl

/-- What is known of a type, as a descriptor; none when it does not resolve. -/
def TypeFacts.descriptor? (facts : TypeFacts) (loader : LoaderId) (name : String) :
    Option Descriptor :=
  (facts name).toOption.map fun header => Descriptor.ofHeader header loader

namespace Hierarchy

/-- What an identity shows. -/
def unlinked? (h : Hierarchy) (id : DescriptorId) : Option Descriptor :=
  (h.descriptor? id).map Descriptor.unlinked

/-- The type behind an identity. -/
def typeRef? (h : Hierarchy) (id : DescriptorId) : Option TypeRef :=
  (h.descriptor? id).map fun d => ⟨d.internalName, d.loader⟩

end Hierarchy

namespace Query

variable {σ η η' : Type}

def map (f : η → η') : Query η → Query η'
  | resolve name loader => resolve name loader
  | resolveRequired name loader => resolveRequired name loader
  | isAssignableFrom target candidate loader => isAssignableFrom target candidate loader
  | about type question => about (f type) question

/-- Asks a resolver. -/
def ask (src : ClassSource σ) : Query DescriptorId → Act (Hierarchy × σ) Reply
  | resolve name loader => do
    let found ← Hierarchy.resolve src name loader
    Act.gets fun s => .type (.ok (found.bind s.1.unlinked?))
  | resolveRequired name loader => do
    let r ← (Hierarchy.resolveRequired src name loader).result
    Act.gets fun s => .type (r.map s.1.unlinked?)
  | isAssignableFrom target candidate loader => do
    return .verdict (← (Hierarchy.isAssignableFrom src target candidate loader).result)
  | about id (.isAssignable target) => do
    return .verdict (← (Hierarchy.isAssignable src target id).result)
  | about id .superclass => do
    let found ← Hierarchy.superclass src id
    Act.gets fun s => .type (.ok (found.bind s.1.unlinked?))
  | about id .requiredSuperclass => do
    let r ← (Hierarchy.requiredSuperclass src id).result
    Act.gets fun s => .type (r.map fun found => found.bind s.1.unlinked?)
  | about id .interfaces => do
    let found ← Hierarchy.interfaces src id
    Act.gets fun s => .types (.ok (found.map fun target => target.bind s.1.unlinked?))
  | about id .requiredInterfaces => do
    let r ← (Hierarchy.requiredInterfaces src id).result
    Act.gets fun s => .types (r.map fun ids => ids.map s.1.unlinked?)

/-- Asks a resolver about types that it may not have resolved yet. -/
def askFor (src : ClassSource σ) :
    Query TypeRef → Attempt (Hierarchy × σ) ResolutionError Reply
  | resolve name loader => Attempt.act (ask src (.resolve name loader))
  | resolveRequired name loader => Attempt.act (ask src (.resolveRequired name loader))
  | isAssignableFrom target candidate loader =>
    Attempt.act (ask src (.isAssignableFrom target candidate loader))
  | about type question => do
    let id ← Hierarchy.resolveRequired src type.name type.loader
    Attempt.act (ask src (.about id question))

/-- The reply that the facts give, when searches are cut off at a limit. -/
def reply (facts : LoaderId → TypeFacts) (limit : Nat) : Query TypeRef → Reply
  | resolve name loader => .type (.ok ((facts loader).descriptor? loader (ClassName.internal name)))
  | resolveRequired name loader =>
    .type ((facts loader (ClassName.internal name)).map fun header =>
      some (Descriptor.ofHeader header loader))
  | isAssignableFrom target candidate loader =>
    let target := ClassName.internal target
    let candidate := ClassName.internal candidate
    .verdict (if target = candidate then .ok true
      else facts loader candidate >>= fun _ =>
        (facts loader).assignable loader limit target candidate)
  | about ⟨name, loader⟩ (.isAssignable target) =>
    .verdict ((facts loader).assignable loader limit target name)
  | about ⟨name, loader⟩ .superclass =>
    .type (.ok (((facts loader).parentOf name).toOption.join.bind ((facts loader).descriptor? loader)))
  | about ⟨name, loader⟩ .requiredSuperclass =>
    .type (((facts loader).parentOf name).map fun p => p.bind ((facts loader).descriptor? loader))
  | about ⟨name, loader⟩ .interfaces =>
    .types ((facts loader name).map fun header =>
      header.parents.map ((facts loader).descriptor? loader))
  | about ⟨name, loader⟩ .requiredInterfaces =>
    .types (((facts loader).parentsOf name).map fun ns =>
      ns.map ((facts loader).descriptor? loader))

end Query

namespace Hierarchy

variable {σ : Type} {src : ClassSource σ} {I : σ → Prop}
  {answer : String → LoaderId → Except ReadError (Option Bytes)} {h₀ : Hierarchy}
  {s : Hierarchy × σ} {loader : LoaderId}

section Descriptors

variable {id : DescriptorId} {n : String}

/-- Whatever links it has by now, a descriptor shows what the source says of its type. -/
theorem Stands.unlinked? (hs : Stands (Told answer) I h₀ s) (hd : s.1.Denotes loader id n) :
    s.1.unlinked? id = (typeFacts answer loader).descriptor? loader n := by
  obtain ⟨d, hdesc, rfl, rfl⟩ := hd
  obtain ⟨header, hfact, hstates⟩ := hs.valid.told id d hdesc
  have hknown : typeFacts answer d.loader d.internalName = .ok header := hfact.symm
  have hname : d.internalName = header.name := (ClassHeader.name_of_ofAnswer hknown).symm
  rw [Hierarchy.unlinked?, hdesc, TypeFacts.descriptor?, hknown]
  exact congrArg some (Descriptor.unlinked_of_states hstates hname)

/-- A resolution shows what the source says of the name. -/
theorem Stands.map_unlinked? (hs : Stands (Told answer) I h₀ s)
    {r : Except ResolutionError DescriptorId} (hr : Resolved (Told answer) s.1 loader n r) :
    r.map s.1.unlinked? = (typeFacts answer loader n).map fun header =>
      some (Descriptor.ofHeader header loader) := by
  cases r with
  | error e =>
    have hfact : Except.error e = typeFacts answer loader n := hr
    rw [← hfact]
    rfl
  | ok id =>
    obtain ⟨hd, header, hfact⟩ := hr
    have hknown : typeFacts answer loader n = .ok header := hfact.symm
    rw [Except.map, hs.unlinked? hd, TypeFacts.descriptor?, hknown]
    rfl

theorem Stands.bind_unlinked? (hs : Stands (Told answer) I h₀ s)
    {r : Except ResolutionError DescriptorId} (hr : Resolved (Told answer) s.1 loader n r) :
    r.toOption.bind s.1.unlinked? = (typeFacts answer loader).descriptor? loader n := by
  cases r with
  | error e =>
    have hfact : Except.error e = typeFacts answer loader n := hr
    rw [TypeFacts.descriptor?, ← hfact]
    rfl
  | ok id => exact hs.unlinked? hr.1

theorem Agree.map_eq {ε α β γ : Type} {R : α → β → Prop} {f : α → γ} {g : β → γ}
    {r : Except ε α} {v : Except ε β} (h : Agree R r v) (hR : ∀ a b, R a b → f a = g b) :
    r.map f = v.map g := by
  cases r with
  | ok a =>
    cases v with
    | ok b => exact congrArg Except.ok (hR a b h)
    | error e => exact False.elim h
  | error e =>
    cases v with
    | ok b => exact False.elim h
    | error e' => exact congrArg Except.error h

theorem toOption_join_bind {ε α β : Type} (r : Except ε (Option α)) (f : α → Option β) :
    r.toOption.join.bind f = (r.map (·.bind f)).toOption.join := by
  cases r with
  | ok a => rfl
  | error e => rfl

theorem Stands.rel_unlinked? (hs : Stands (Told answer) I h₀ s) {a : Option DescriptorId}
    {p : Option String} (h : Option.Rel (s.1.Denotes loader) a p) :
    a.bind s.1.unlinked? = p.bind ((typeFacts answer loader).descriptor? loader) := by
  cases h with
  | none => rfl
  | some hd => exact hs.unlinked? hd

theorem Stands.named_unlinked? (hs : Stands (Told answer) I h₀ s) {ids : List DescriptorId}
    {ns : List String} (h : Named loader s.1 ids ns) :
    ids.map s.1.unlinked? = ns.map ((typeFacts answer loader).descriptor? loader) := by
  induction h with
  | nil => rfl
  | cons hd _ ih => rw [List.map_cons, List.map_cons, hs.unlinked? hd, ih]

end Descriptors

/-! ### Optional ancestors -/

/-- An ancestor that may be missing: the type of that name, or none that resolves. -/
def Finds (answer : String → LoaderId → Except ReadError (Option Bytes)) (loader : LoaderId)
    (h : Hierarchy) (a : Option DescriptorId) (n : String) : Prop :=
  ∃ r : Except ResolutionError DescriptorId, a = r.toOption ∧ Resolved (Told answer) h loader n r

theorem Finds.mono {h h' : Hierarchy} (e : h.Extends h') {a : Option DescriptorId} {n : String}
    (hf : Finds answer loader h a n) : Finds answer loader h' a n := by
  obtain ⟨r, ha, hr⟩ := hf
  refine ⟨r, ha, ?_⟩
  cases r with
  | error e => exact hr
  | ok id => exact ⟨hr.1.mono e, hr.2⟩

theorem ancestor_finds (hsrc : src.Tells I (Told answer)) (hs : Stands (Told answer) I h₀ s)
    {id : DescriptorId} {d : Descriptor} (hd : s.1.descriptor? id = some d) {slot : AncestorSlot}
    {name : String} (hname : d.declared slot = some name) :
    (ancestor src id slot).Ensures s fun a s' => Stands (Told answer) I h₀ s' ∧
      Finds answer d.loader s'.1 a (ClassName.internal name) := by
  rw [ancestor_ensures_iff]
  refine (ancestorRequired_ensures hsrc hs hd slot).imp fun r s' h => ⟨h.1, ?_⟩
  have hr := h.2
  rw [hname] at hr
  obtain ⟨r', rfl, hr'⟩ := hr
  refine ⟨r', ?_, hr'⟩
  cases r' with
  | error e => rfl
  | ok target => rfl

/-- One after the other, the slots show what the source says of the names declared in them. -/
theorem ancestors_find (hsrc : src.Tells I (Told answer)) {id : DescriptorId} {d d' : Descriptor}
    {slots : List AncestorSlot} {names : List String}
    (hslots : List.Forall₂ (fun slot name => d.declared slot = some name) slots names)
    (hs : Stands (Told answer) I s.1 s) (hd' : s.1.descriptor? id = some d') (hdd' : d.Extends d') :
    (slots.mapM fun slot => ancestor src id slot).Ensures s fun found s' =>
      Stands (Told answer) I s.1 s' ∧
        List.Forall₂ (Finds answer d.loader s'.1) found (names.map ClassName.internal) := by
  induction hslots generalizing s d' with
  | nil => exact ⟨hs, List.Forall₂.nil⟩
  | @cons slot name slots names hname _ ih =>
    rw [List.mapM_cons, Act.ensures_bind]
    have hname' : d'.declared slot = some name := (hdd'.declared slot).trans hname
    refine (ancestor_finds hsrc hs hd' hname').imp fun a s₁ h => ?_
    obtain ⟨hs₁, ha⟩ := h
    rw [hdd'.loader] at ha
    rw [Act.ensures_bind]
    -- the descriptor may have gained a link, but declares the same
    obtain ⟨d₁, hd₁, hdd₁⟩ := hs₁.later id d' hd'
    refine (ih hs₁.self hd₁ (hdd'.trans hdd₁)).imp fun found s₂ h => ?_
    exact ⟨hs₁.trans h.1, List.Forall₂.cons (ha.mono h.1.later) h.2⟩

theorem Stands.finds_unlinked? (hs : Stands (Told answer) I h₀ s) {found : List (Option DescriptorId)}
    {ns : List String} (h : List.Forall₂ (Finds answer loader s.1) found ns) :
    (found.map fun a => a.bind s.1.unlinked?) =
      ns.map ((typeFacts answer loader).descriptor? loader) := by
  induction h with
  | nil => rfl
  | cons ha _ ih =>
    obtain ⟨r, rfl, hr⟩ := ha
    rw [List.map_cons, List.map_cons, hs.bind_unlinked? hr, ih]

end Hierarchy

/-! ### Every query gives the reply of the facts -/

namespace Query

open Hierarchy

variable {σ : Type} {src : ClassSource σ} {I : σ → Prop}
  {answer : String → LoaderId → Except ReadError (Option Bytes)} {s : Hierarchy × σ}

/-- The reply is that of the facts, with a limit above what the source vouches for. -/
def Replies (answer : String → LoaderId → Except ReadError (Option Bytes)) (bound : Nat)
    (q : Query TypeRef) (r : Reply) : Prop :=
  ∃ limit, bound + 2 ≤ limit ∧ r = q.reply (typeFacts answer) limit

/-- A reply without a search has no limit. -/
theorem replies_of_forall {bound : Nat} {q : Query TypeRef} {r : Reply}
    (h : ∀ limit, r = q.reply (typeFacts answer) limit) : Replies answer bound q r :=
  ⟨bound + 2, Nat.le_refl _, h _⟩

/-- A search that starts from a type that is known has more room than the source vouches for. -/
theorem lt_limitIn {bound : Nat} (hreach : ∀ s, I s → src.reach.Ensures s fun n _ => bound ≤ n)
    (hs : I s.2) {id : DescriptorId} {n : String} {loader : LoaderId}
    (hd : s.1.Denotes loader id n) : bound + 2 ≤ limitIn src s := by
  have hbound : bound ≤ (src.reach.run s.2).value := hreach s.2 hs
  have hsize := hd.number_lt
  unfold limitIn
  omega

theorem ask_about_ensures (hsrc : src.Tells I (Told answer)) {bound : Nat}
    (hreach : ∀ s, I s → src.reach.Ensures s fun n _ => bound ≤ n)
    (hs : Stands (Told answer) I s.1 s) {id : DescriptorId} {type : TypeRef}
    (hd : s.1.Denotes type.loader id type.name) (question : Question) :
    (ask src (.about id question)).Ensures s fun r _ =>
      Replies answer bound (.about type question) r := by
  obtain ⟨n, loader⟩ := type
  cases question with
  | isAssignable target =>
    rw [ask, Act.ensures_bind, Attempt.ensures_result]
    refine Attempt.Ensures.imp (isAssignable_follows hsrc target hs hd) fun r s' h => ?_
    exact ⟨limitIn src s, lt_limitIn hreach hs.source hd, congrArg Reply.verdict h.2.eq⟩
  | superclass =>
    rw [ask, Act.ensures_bind, superclass, ancestor_ensures_iff]
    refine Attempt.Ensures.imp (requiredSuperclass_follows hsrc hs hd) fun r s' h => ?_
    refine replies_of_forall fun limit => congrArg (fun a => Reply.type (.ok a)) ?_
    rw [toOption_join_bind, toOption_join_bind, h.2.map_eq fun _ _ hr => h.1.rel_unlinked? hr]
  | requiredSuperclass =>
    rw [ask, Act.ensures_bind, Attempt.ensures_result]
    refine Attempt.Ensures.imp (requiredSuperclass_follows hsrc hs hd) fun r s' h => ?_
    refine replies_of_forall fun limit => congrArg Reply.type ?_
    exact h.2.map_eq fun _ _ hr => h.1.rel_unlinked? hr
  | interfaces =>
    obtain ⟨d, header, hdesc, rfl, hfact, hstates⟩ := hs.states hd
    rw [ask, Act.ensures_bind, interfaces, slotsOf, Act.ensures_bind, Act.ensures_bind, lookup,
      Act.ensures_gets, hdesc]
    dsimp only
    rw [Act.ensures_pure]
    have hslots := declared_interfaceSlots d
    refine (ancestors_find hsrc hslots hs hdesc (Descriptor.Extends.refl d)).imp fun found s' h => ?_
    refine replies_of_forall fun limit => congrArg Reply.types ?_
    show _ = (typeFacts answer d.loader n).map _
    rw [hfact, Except.map, h.1.finds_unlinked? h.2, hstates.interfaceNames]
    rfl
  | requiredInterfaces =>
    rw [ask, Act.ensures_bind, Attempt.ensures_result]
    refine Attempt.Ensures.imp (requiredInterfaces_follows hsrc hs hd) fun r s' h => ?_
    refine replies_of_forall fun limit => congrArg Reply.types ?_
    exact h.2.map_eq fun _ _ hr => h.1.named_unlinked? hr

/-- **Every query gives the reply of the facts**, in every state. -/
theorem ask_ensures (hsrc : src.Tells I (Told answer)) {bound : Nat}
    (hreach : ∀ s, I s → src.reach.Ensures s fun n _ => bound ≤ n)
    (hs : Stands (Told answer) I s.1 s) {q : Query DescriptorId} {q' : Query TypeRef}
    (hq : q.map s.1.typeRef? = q'.map some) :
    (ask src q).Ensures s fun r _ => Replies answer bound q' r := by
  match q, q', hq with
  | .resolve name loader, .resolve _ _, rfl =>
    rw [ask, Act.ensures_bind, resolve_ensures_iff]
    refine (resolveRequired_ensures hsrc hs name loader).imp fun r s' h => ?_
    exact replies_of_forall fun limit =>
      congrArg (fun a => Reply.type (.ok a)) (h.1.bind_unlinked? h.2)
  | .resolveRequired name loader, .resolveRequired _ _, rfl =>
    rw [ask, Act.ensures_bind, Attempt.ensures_result]
    refine (resolveRequired_ensures hsrc hs name loader).imp fun r s' h => ?_
    exact replies_of_forall fun limit => congrArg Reply.type (h.1.map_unlinked? h.2)
  | .isAssignableFrom target candidate loader, .isAssignableFrom _ _ _, rfl =>
    rw [ask, Act.ensures_bind, Attempt.ensures_result, Hierarchy.isAssignableFrom]
    by_cases ht : ClassName.internal target = ClassName.internal candidate
    · simp only [if_pos ht]
      exact replies_of_forall fun limit => congrArg Reply.verdict (if_pos ht).symm
    · simp only [if_neg ht, Attempt.ensures_bind]
      have hresolve := resolveRequired_ensures hsrc hs (ClassName.internal candidate) loader
      rw [ClassName.internal_internal] at hresolve
      refine hresolve.imp fun r s₁ h => ?_
      obtain ⟨hs₁, hr⟩ := h
      cases r with
      | error e =>
        have hfact : Except.error e = typeFacts answer loader (ClassName.internal candidate) := hr
        refine replies_of_forall fun limit => congrArg Reply.verdict ?_
        rw [if_neg ht, ← hfact]
        rfl
      | ok id =>
        obtain ⟨hd, header, hfact⟩ := hr
        have hknown : Except.ok header = typeFacts answer loader (ClassName.internal candidate) :=
          hfact
        refine Attempt.Ensures.imp (isAssignable_follows hsrc _ hs₁.self hd) fun r' s₂ h => ?_
        refine ⟨limitIn src s₁, lt_limitIn hreach hs₁.source hd, congrArg Reply.verdict ?_⟩
        rw [if_neg ht, ← hknown]
        exact h.2.eq
  | .about id question, .about type _, hq =>
    obtain ⟨htype, rfl⟩ := Query.about.inj hq
    obtain ⟨d, hd, rfl⟩ := Option.map_eq_some_iff.1 htype
    exact ask_about_ensures hsrc hreach hs ⟨d, hd, rfl, rfl⟩ question

/-- So does a resolver that resolves the type of the question first. -/
theorem askFor_ensures (hsrc : src.Tells I (Told answer)) {bound : Nat}
    (hreach : ∀ s, I s → src.reach.Ensures s fun n _ => bound ≤ n)
    (hs : Stands (Told answer) I s.1 s) {q : Query TypeRef}
    (hq : ∀ type question, q = .about type question →
      ClassName.internal type.name = type.name ∧ (typeFacts answer type.loader).Resolves type.name) :
    (askFor src q).Ensures s fun res _ => ∃ r, res = .ok r ∧ Replies answer bound q r := by
  have direct : ∀ q' : Query DescriptorId, q'.map s.1.typeRef? = q.map some →
      (Attempt.act (ask src q') : Attempt (Hierarchy × σ) ResolutionError Reply).Ensures s
        fun res _ => ∃ r, res = .ok r ∧ Replies answer bound q r := by
    intro q' hq'
    rw [Attempt.ensures_act]
    exact (ask_ensures hsrc hreach hs hq').imp fun r _ h => ⟨r, rfl, h⟩
  cases q with
  | resolve name loader => exact direct (.resolve name loader) rfl
  | resolveRequired name loader => exact direct (.resolveRequired name loader) rfl
  | isAssignableFrom target candidate loader =>
    exact direct (.isAssignableFrom target candidate loader) rfl
  | about type question =>
    obtain ⟨hinternal, header, hheader⟩ := hq type question rfl
    rw [askFor, Attempt.ensures_bind]
    have hresolve := resolveRequired_ensures hsrc hs type.name type.loader
    rw [hinternal] at hresolve
    refine hresolve.imp fun r s₁ h => ?_
    obtain ⟨hs₁, hr⟩ := h
    cases r with
    | error e =>
      -- the type resolves
      have hfact : Except.error e = typeFacts answer type.loader type.name := hr
      rw [hheader] at hfact
      cases hfact
    | ok id =>
      show (Attempt.act (ask src (.about id question)) :
        Attempt (Hierarchy × σ) ResolutionError Reply).Ensures s₁ _
      rw [Attempt.ensures_act]
      exact (ask_about_ensures hsrc hreach hs₁.self hr.1 question).imp fun r _ h => ⟨r, rfl, h⟩

end Query

/-! ### Replies that are cut off -/

/-- The search for the reply came to its limit. -/
def Reply.CutOff (r : Reply) : Prop := ∃ n l, r = .verdict (.error (.unbounded n l))

/-- The replies are the same, unless a search for one of them was cut off. -/
def Reply.Agrees (r r' : Reply) : Prop := r = r' ∨ r.CutOff ∨ r'.CutOff

/-- A source that knows its bounds: it says how many types there are at least from which a search
goes on. -/
def ClassSource.Vouches {σ : Type} (src : ClassSource σ) (I : σ → Prop)
    (answer : String → LoaderId → Except ReadError (Option Bytes)) : Prop :=
  ∃ bound, (∀ s, I s → src.reach.Ensures s fun n _ => bound ≤ n) ∧
    ∀ loader, ∃ core, (typeFacts answer loader).Within core ∧ core.length ≤ bound

namespace Query

variable {answer : String → LoaderId → Except ReadError (Option Bytes)} {q : Query TypeRef}
  {r r' : Reply}

/-- A higher limit changes no reply that is not cut off. -/
theorem reply_improves (facts : LoaderId → TypeFacts) {limit limit' : Nat} (h : limit ≤ limit')
    (q : Query TypeRef) :
    (q.reply facts limit).CutOff ∨ q.reply facts limit = q.reply facts limit' := by
  have verdict : ∀ {r r' : Except ResolutionError Bool}, TypeFacts.Improves r r' →
      (Reply.verdict r).CutOff ∨ Reply.verdict r = Reply.verdict r' := by
    rintro r r' (⟨n, l, rfl⟩ | rfl)
    · exact Or.inl ⟨n, l, rfl⟩
    · exact Or.inr rfl
  match q with
  | .resolve _ _ => exact Or.inr rfl
  | .resolveRequired _ _ => exact Or.inr rfl
  | .isAssignableFrom target candidate loader =>
    refine verdict ?_
    by_cases ht : ClassName.internal target = ClassName.internal candidate
    · rw [if_pos ht, if_pos ht]
      exact TypeFacts.Improves.refl _
    · rw [if_neg ht, if_neg ht]
      exact (TypeFacts.Improves.refl _).bind fun _ => TypeFacts.assignable_improves _ h _
  | .about ⟨name, loader⟩ (.isAssignable target) =>
    exact verdict (TypeFacts.assignable_improves target h name)
  | .about ⟨_, _⟩ .superclass => exact Or.inr rfl
  | .about ⟨_, _⟩ .requiredSuperclass => exact Or.inr rfl
  | .about ⟨_, _⟩ .interfaces => exact Or.inr rfl
  | .about ⟨_, _⟩ .requiredInterfaces => exact Or.inr rfl

theorem Replies.agrees {bound : Nat} (h : Replies answer bound q r) (h' : Replies answer bound q r') :
    r.Agrees r' := by
  obtain ⟨limit, -, rfl⟩ := h
  obtain ⟨limit', -, rfl⟩ := h'
  rcases Nat.le_total limit limit' with hle | hle
  · rcases reply_improves (typeFacts answer) hle q with hcut | heq
    · exact Or.inr (Or.inl hcut)
    · exact Or.inl heq
  · rcases reply_improves (typeFacts answer) hle q with hcut | heq
    · exact Or.inr (Or.inr hcut)
    · exact Or.inl heq.symm

/-- With enough room the limit does not matter. -/
theorem Replies.eq {bound : Nat}
    (hcore : ∀ loader, ∃ core, (typeFacts answer loader).Within core ∧ core.length ≤ bound)
    (h : Replies answer bound q r) (h' : Replies answer bound q r') : r = r' := by
  obtain ⟨limit, hlimit, rfl⟩ := h
  obtain ⟨limit', hlimit', rfl⟩ := h'
  have assignable : ∀ loader target n, (typeFacts answer loader).assignable loader limit target n =
      (typeFacts answer loader).assignable loader limit' target n := by
    intro loader target n
    obtain ⟨core, hwithin, hlength⟩ := hcore loader
    exact TypeFacts.assignable_limit hwithin target (by omega) (by omega)
  match q with
  | .resolve _ _ => rfl
  | .resolveRequired _ _ => rfl
  | .isAssignableFrom target candidate loader =>
    show Reply.verdict _ = Reply.verdict _
    simp only [assignable]
  | .about ⟨name, loader⟩ (.isAssignable target) =>
    exact congrArg Reply.verdict (assignable loader target name)
  | .about ⟨_, _⟩ .superclass => rfl
  | .about ⟨_, _⟩ .requiredSuperclass => rfl
  | .about ⟨_, _⟩ .interfaces => rfl
  | .about ⟨_, _⟩ .requiredInterfaces => rfl

end Query

/-! ### Sources that know their bounds -/

/-- When no more than so many names resolve, they are the names of one list. -/
theorem TypeFacts.AtMost.exists_names {facts : TypeFacts} {bound : Nat} (h : facts.AtMost bound) :
    ∃ core : List String, facts.Explored core ∧ ∀ n, facts.Resolves n → n ∈ core := by
  -- a list to which no name can be added, or lists of every length
  have grow : ∀ k, (∃ core : List String, facts.Explored core ∧ ∀ n, facts.Resolves n → n ∈ core) ∨
      ∃ core : List String, facts.Explored core ∧ core.length = k := by
    intro k
    induction k with
    | zero => exact Or.inr ⟨[], ⟨List.nodup_nil, fun n hn => absurd hn List.not_mem_nil⟩, rfl⟩
    | succ k ih =>
      rcases ih with hall | ⟨core, hcore, rfl⟩
      · exact Or.inl hall
      · by_cases hall : ∀ n, facts.Resolves n → n ∈ core
        · exact Or.inl ⟨core, hcore, hall⟩
        · obtain ⟨n, hn⟩ := not_forall.1 hall
          obtain ⟨hresolves, hnot⟩ := Classical.not_imp.1 hn
          exact Or.inr ⟨n :: core, hcore.cons hnot hresolves, rfl⟩
  rcases grow (bound + 1) with hall | ⟨core, hcore, hlength⟩
  · exact hall
  · have hle := h core hcore.nodup hcore.resolves
    omega

/-- A search goes on from types that resolve only. -/
theorem TypeFacts.within_of_resolves {facts : TypeFacts} {core : List String}
    (h : ∀ n, facts.Resolves n → n ∈ core) : facts.Within core where
  line := by
    rintro n m k ⟨header, hn, -⟩ -
    exact h n ⟨header, hn⟩
  interface := by
    rintro n m ⟨header, hn, -⟩
    exact h n ⟨header, hn⟩

theorem ClassSource.Steady.vouches {σ : Type} {src : ClassSource σ} {I : σ → Prop}
    {answer : String → LoaderId → Except ReadError (Option Bytes)} (h : src.Steady I answer)
    (start : σ) (hstart : I start) : src.Vouches I answer := by
  classical
  -- the least number that the source ever gives is right for all loaders
  have hsome : ∃ n s, I s ∧ n = (src.reach.run s).value := ⟨_, start, hstart, rfl⟩
  refine ⟨Nat.find hsome, fun s hs => Nat.find_min' hsome ⟨s, hs, rfl⟩, fun loader => ?_⟩
  obtain ⟨s, hs, hleast⟩ := Nat.find_spec hsome
  have hbound : src.reach.Ensures s fun n _ =>
      ∀ loader, (typeFacts answer loader).AtMost n := (h.reach s hs).imp fun _ _ h => h.1
  obtain ⟨core, hcore, hall⟩ := (hbound loader).exists_names
  refine ⟨core, TypeFacts.within_of_resolves hall, ?_⟩
  rw [hleast]
  exact hbound loader core hcore.nodup hcore.resolves

theorem ClassPath.source_vouches {σ : Type} (cp : ClassPath) (I : σ → Prop) :
    (cp.source : ClassSource σ).Vouches I cp.answer := by
  refine ⟨cp.resources.length + 2, fun s _ => Nat.le_refl _, fun loader => ?_⟩
  refine ⟨cp.names, cp.within_names loader, ?_⟩
  rw [names, List.length_map]
  omega

namespace Hierarchy

variable {σ : Type} {src : ClassSource σ} {I : σ → Prop}
  {answer : String → LoaderId → Except ReadError (Option Bytes)}

/-! ### Names of descriptors -/

/-- Every descriptor has its name in internal form. -/
def Internal (h : Hierarchy) : Prop :=
  ∀ id d, h.descriptor? id = some d → ClassName.internal d.internalName = d.internalName

theorem Internal.insert {h : Hierarchy} (hi : h.Internal) {d : Descriptor}
    (hd : ClassName.internal d.internalName = d.internalName) : (h.insert d).2.Internal := by
  intro id d' hd'
  rw [descriptor?_insert] at hd'
  by_cases hid : id.number = h.descriptors.size
  · rw [if_pos hid] at hd'
    cases hd'
    exact hd
  · rw [if_neg hid] at hd'
    exact hi id d' hd'

theorem Internal.fill {h : Hierarchy} (hi : h.Internal) (id : DescriptorId) (slot : AncestorSlot)
    (target : DescriptorId) : (h.fill id slot target).Internal := by
  intro id' d' hd'
  rw [descriptor?_fill] at hd'
  obtain ⟨d, hd, rfl⟩ := Option.map_eq_some_iff.1 hd'
  by_cases hid : id = id'
  · rw [if_pos hid, (Descriptor.extends_fill d slot target).internalName]
    exact hi id' d hd
  · rw [if_neg hid]
    exact hi id' d hd

theorem internal_maintained (src : ClassSource σ) : Maintains src fun s => s.1.Internal :=
  maintains_of_updates (fun _ _ _ hname hi => hi.insert hname)
    fun _ id slot target hi => hi.fill id slot target

theorem after_internal (src : ClassSource σ) (ops : List Operation) {s : Hierarchy × σ}
    (hs : s.1.Internal) : (Operation.after src ops s).1.Internal := by
  induction ops generalizing s with
  | nil => exact hs
  | cons op ops ih =>
    refine ih (op.perform_maintains (internal_maintained src) (fun _ _ s hs => ?_) s hs)
    exact hs

/-! ### Two histories -/

/-- **What a resolver remembers does not show.**

Over a source whose answers do not change, the same question gets the same reply after any two
histories, and from a resolver that has been asked nothing, which resolves the type of the question
first. A resolver searches within the bounds that the source vouches for; a reply can be different
only when a search was cut off there, and over a source that knows its bounds never. -/
theorem replies_of_histories (src : ClassSource σ) (I : σ → Prop)
    (answer : String → LoaderId → Except ReadError (Option Bytes))
    (hsrc : src.Tells I (Told answer)) (start start₁ start₂ : σ) (hstart : I start)
    (hstart₁ : I start₁) (hstart₂ : I start₂) (ops₁ ops₂ : List Operation) (q : Query TypeRef)
    (q₁ q₂ : Query DescriptorId) :
    let s₁ := Operation.after src ops₁ (.empty, start₁)
    let s₂ := Operation.after src ops₂ (.empty, start₂)
    q₁.map s₁.1.typeRef? = q.map some → q₂.map s₂.1.typeRef? = q.map some →
      ∃ r, ((q.askFor src).result.run (.empty, start)).value = .ok r ∧
        let r₁ := ((q₁.ask src).run s₁).value
        let r₂ := ((q₂.ask src).run s₂).value
        r₁.Agrees r ∧ r₂.Agrees r ∧ r₁.Agrees r₂ ∧
          (src.Vouches I answer → r₁ = r ∧ r₂ = r) := by
  intro s₁ s₂ hq₁ hq₂
  have stands : ∀ {start : σ}, I start →
      Stands (Told answer) I .empty ((.empty : Hierarchy), start) :=
    fun h => ⟨Extends.refl _, valid_empty, h⟩
  have hs₁ : Stands (Told answer) I s₁.1 s₁ :=
    (Operation.after_stands hsrc ops₁ (stands hstart₁)).self
  have hs₂ : Stands (Told answer) I s₂.1 s₂ :=
    (Operation.after_stands hsrc ops₂ (stands hstart₂)).self
  -- the type of the question is known after the first history
  have hq : ∀ type question, q = .about type question →
      ClassName.internal type.name = type.name ∧
        (typeFacts answer type.loader).Resolves type.name := by
    rintro type question rfl
    cases q₁ with
    | about id _ =>
      obtain ⟨htype, -⟩ := Query.about.inj hq₁
      obtain ⟨d, hd, rfl⟩ := Option.map_eq_some_iff.1 htype
      obtain ⟨header, hfact, -⟩ := hs₁.valid.told id d hd
      have hinternal : s₁.1.Internal := after_internal src ops₁ fun _ _ h => by cases h
      exact ⟨hinternal id d hd, header, hfact.symm⟩
    | resolve name loader => cases hq₁
    | resolveRequired name loader => cases hq₁
    | isAssignableFrom target candidate loader => cases hq₁
  have replies : ∀ bound : Nat, (∀ s, I s → src.reach.Ensures s fun n _ => bound ≤ n) →
      (∃ r, ((q.askFor src).result.run (.empty, start)).value = .ok r ∧
          Query.Replies answer bound q r) ∧
        Query.Replies answer bound q ((q₁.ask src).run s₁).value ∧
        Query.Replies answer bound q ((q₂.ask src).run s₂).value :=
    fun bound hreach => ⟨Query.askFor_ensures hsrc hreach (stands hstart).self hq,
      Query.ask_ensures hsrc hreach hs₁ hq₁, Query.ask_ensures hsrc hreach hs₂ hq₂⟩
  obtain ⟨⟨r, hr, h⟩, h₁, h₂⟩ := replies 0 fun s _ => Nat.zero_le _
  refine ⟨r, hr, h₁.agrees h, h₂.agrees h, h₁.agrees h₂, ?_⟩
  rintro ⟨bound, hreach, hcore⟩
  obtain ⟨⟨r', hr', h⟩, h₁, h₂⟩ := replies bound hreach
  rw [hr] at hr'
  cases hr'
  exact ⟨h₁.eq hcore h, h₂.eq hcore h⟩

/-- An interface has been found by a search in one history, and forgotten after it was resolved in
the other one; to both of them it extends the same interface. -/
theorem replies_of_histories_mutualInterfaces :
    let question : Query TypeRef := .about ⟨"p/I", .bootstrap⟩ .requiredInterfaces
    let start := MemorySource.mutualInterfaces
    let s₁ := Operation.after MemorySource.source
      [.isAssignableFrom "p.J" "p.A" .bootstrap] (.empty, start)
    let s₂ := Operation.after MemorySource.source
      [.resolve "p.C" .bootstrap, .resolve "p.I" .bootstrap, .evict .bootstrap] (.empty, start)
    ∃ r, ((question.askFor MemorySource.source).result.run (.empty, start)).value = .ok r ∧
      ((Query.ask MemorySource.source (.about ⟨2⟩ .requiredInterfaces)).run s₁).value = r ∧
      ((Query.ask MemorySource.source (.about ⟨0⟩ .requiredInterfaces)).run s₂).value = r := by
  intro question start s₁ s₂
  have hsteady := MemorySource.source_steady start
  obtain ⟨r, hr, -, -, -, hvouched⟩ := replies_of_histories MemorySource.source
    (fun m => m.entries = start.entries) start.answer hsteady.tells start start start rfl rfl rfl
    [.isAssignableFrom "p.J" "p.A" .bootstrap]
    [.resolve "p.C" .bootstrap, .resolve "p.I" .bootstrap, .evict .bootstrap] question
    (.about ⟨2⟩ .requiredInterfaces) (.about ⟨0⟩ .requiredInterfaces)
    (by decide +kernel) (by decide +kernel)
  exact ⟨r, hr, hvouched (hsteady.vouches start rfl)⟩

end Hierarchy

end Reclass
