import Reclass.Hierarchy.Assignability
import Reclass.Proofs.Act

/-!
# What a resolver keeps

Descriptors are only ever added and their links only ever filled (`Hierarchy.Extends`). In every
state the table leads to descriptors of the right name and loader, each descriptor repeats a
header that the source has told, and a link leads to the ancestor that the header names in its
place (`Hierarchy.Valid`). Every query of the resolver keeps both, whatever the source answers and
also when the query fails (`Operation.perform_preserves`).
-/

set_option autoImplicit false

namespace Reclass

namespace ClassName

/-- A name in internal form stays as it is. -/
theorem internal_internal (name : String) : internal (internal name) = internal name := by
  unfold internal Text.replaceChar
  rw [String.toList_ofList, List.map_map]
  congr 1
  refine List.map_congr_left fun c _ => ?_
  by_cases h : c = '.'
  · simp [h]
  · simp [h]

end ClassName

namespace ClassHeader

/-- What a loader makes of the answer to its question about a name. -/
def ofAnswer (name : String) (loader : LoaderId) :
    Except ReadError (Option Bytes) → Except ResolutionError ClassHeader
  | .error cause => .error (.unreadable name loader cause)
  | .ok none => .error (.notFound name loader)
  | .ok (some bytes) =>
    match parse bytes with
    | .error fault => .error (.malformed name loader fault)
    | .ok header =>
      if header.name ≠ name then .error (.malformed name loader (.nameMismatch name header.name))
      else .ok header

/-- The file of another class is not taken for the class. -/
theorem name_of_ofAnswer {name : String} {loader : LoaderId}
    {r : Except ReadError (Option Bytes)} {header : ClassHeader}
    (h : ofAnswer name loader r = .ok header) : header.name = name := by
  match r, h with
  | .ok (some bytes), h =>
    rw [ofAnswer] at h
    cases hp : parse bytes with
    | error fault =>
      simp only [hp] at h
      cases h
    | ok header' =>
      simp only [hp] at h
      by_cases hn : header'.name ≠ name
      · rw [if_pos hn] at h
        cases h
      · rw [if_neg hn] at h
        cases h
        exact not_not.1 hn

end ClassHeader

namespace Descriptor

/-- The descriptor repeats the header. -/
structure States (d : Descriptor) (header : ClassHeader) : Prop where
  flags : d.flags = header.access
  superName : d.superName = header.superName
  interfaceNames : d.interfaceNames = header.interfaces

/-- A later form of the same descriptor: equal facts, and every link that was filled. -/
structure Extends (d d' : Descriptor) : Prop where
  flags : d'.flags = d.flags
  internalName : d'.internalName = d.internalName
  superName : d'.superName = d.superName
  interfaceNames : d'.interfaceNames = d.interfaceNames
  loader : d'.loader = d.loader
  link : ∀ slot target, d.link slot = some target → d'.link slot = some target

theorem Extends.refl (d : Descriptor) : d.Extends d :=
  ⟨rfl, rfl, rfl, rfl, rfl, fun _ _ h => h⟩

theorem Extends.trans {d d' d'' : Descriptor} (h : d.Extends d') (h' : d'.Extends d'') :
    d.Extends d'' where
  flags := h'.flags.trans h.flags
  internalName := h'.internalName.trans h.internalName
  superName := h'.superName.trans h.superName
  interfaceNames := h'.interfaceNames.trans h.interfaceNames
  loader := h'.loader.trans h.loader
  link slot target hl := h'.link slot target (h.link slot target hl)

theorem Extends.declared {d d' : Descriptor} (h : d.Extends d') (slot : AncestorSlot) :
    d'.declared slot = d.declared slot := by
  cases slot with
  | superclass => exact h.superName
  | interface i =>
    rw [Descriptor.declared, Descriptor.declared, h.interfaceNames]

theorem link_ofHeader (header : ClassHeader) (loader : LoaderId) (slot : AncestorSlot) :
    (ofHeader header loader).link slot = none := by
  cases slot with
  | superclass => rfl
  | interface i =>
    show ((header.interfaces.map fun _ => (none : Option DescriptorId))[i]?).join = none
    rw [List.getElem?_map]
    cases header.interfaces[i]? with
    | none => rfl
    | some _ => rfl

/-- A link that is filled now was filled before or is the one being filled. -/
theorem link_fill {d : Descriptor} {slot slot' : AncestorSlot} {target target' : DescriptorId}
    (h : (d.fill slot target).link slot' = some target') :
    d.link slot' = some target' ∨ (slot' = slot ∧ target' = target) := by
  unfold fill at h
  by_cases hs : (d.link slot).isSome
  · rw [if_pos hs] at h
    exact Or.inl h
  · rw [if_neg hs] at h
    cases slot with
    | superclass =>
      cases slot' with
      | superclass => exact Or.inr ⟨rfl, (Option.some.inj h).symm⟩
      | interface j => exact Or.inl h
    | interface i =>
      cases slot' with
      | superclass => exact Or.inl h
      | interface j =>
        by_cases hij : i = j
        · subst hij
          have h' : ((d.interfaceLinks.set i (some target))[i]?).join = some target' := h
          rw [List.getElem?_set_self'] at h'
          cases hi : d.interfaceLinks[i]? with
          | none =>
            rw [hi] at h'
            cases h'
          | some old =>
            -- the link in this place is the new one
            rw [hi] at h'
            exact Or.inr ⟨rfl, (Option.some.inj h').symm⟩
        · have h' : ((d.interfaceLinks.set i (some target))[j]?).join = some target' := h
          rw [List.getElem?_set_ne hij] at h'
          exact Or.inl h'

theorem extends_fill (d : Descriptor) (slot : AncestorSlot) (target : DescriptorId) :
    d.Extends (d.fill slot target) := by
  unfold fill
  by_cases hs : (d.link slot).isSome
  · -- a link that is there is not replaced
    rw [if_pos hs]
    exact Extends.refl d
  · rw [if_neg hs]
    cases slot with
    | superclass =>
      refine ⟨rfl, rfl, rfl, rfl, rfl, ?_⟩
      intro slot' target' h
      cases slot' with
      | superclass =>
        rw [h] at hs
        exact absurd rfl hs
      | interface j => exact h
    | interface i =>
      refine ⟨rfl, rfl, rfl, rfl, rfl, ?_⟩
      intro slot' target' h
      cases slot' with
      | superclass => exact h
      | interface j =>
        -- the slot that is filled had no link, so it is another one
        have hij : i ≠ j := by
          rintro rfl
          rw [h] at hs
          exact hs rfl
        show ((d.interfaceLinks.set i (some target))[j]?).join = some target'
        rw [List.getElem?_set_ne hij]
        exact h

end Descriptor

namespace Hierarchy

variable {h h' h'' : Hierarchy} {Fact : String → LoaderId → Except ResolutionError ClassHeader → Prop}

/-- The identity belongs to a type of that name and loader. -/
def Denotes (h : Hierarchy) (loader : LoaderId) (id : DescriptorId) (name : String) : Prop :=
  ∃ d, h.descriptor? id = some d ∧ d.internalName = name ∧ d.loader = loader

/-- A later hierarchy has a later form of every descriptor. -/
def Extends (h h' : Hierarchy) : Prop :=
  ∀ id d, h.descriptor? id = some d → ∃ d', h'.descriptor? id = some d' ∧ d.Extends d'

/-- `Fact name loader r` holds of whatever the source tells a loader about a name. -/
structure Valid (Fact : String → LoaderId → Except ResolutionError ClassHeader → Prop)
    (h : Hierarchy) : Prop where
  table : ∀ name loader id, ((name, loader), id) ∈ h.table → h.Denotes loader id name
  told : ∀ id d, h.descriptor? id = some d →
    ∃ header, Fact d.internalName d.loader (.ok header) ∧ d.States header
  linked : ∀ id d slot target, h.descriptor? id = some d → d.link slot = some target →
    ∃ name, d.declared slot = some name ∧ h.Denotes d.loader target (ClassName.internal name)

theorem Extends.refl (h : Hierarchy) : h.Extends h := fun _ d hd => ⟨d, hd, Descriptor.Extends.refl d⟩

theorem Extends.trans (e : h.Extends h') (e' : h'.Extends h'') : h.Extends h'' := by
  intro id d hd
  obtain ⟨d', hd', hdd'⟩ := e id d hd
  obtain ⟨d'', hd'', hdd''⟩ := e' id d' hd'
  exact ⟨d'', hd'', hdd'.trans hdd''⟩

theorem Denotes.mono {loader : LoaderId} {id : DescriptorId} {name : String}
    (hd : h.Denotes loader id name) (e : h.Extends h') : h'.Denotes loader id name := by
  obtain ⟨d, hd, hname, hloader⟩ := hd
  obtain ⟨d', hd', hdd'⟩ := e id d hd
  exact ⟨d', hd', hdd'.internalName.trans hname, hdd'.loader.trans hloader⟩

section Updates

theorem valid_empty : Valid Fact empty where
  table _ _ _ h := absurd h List.not_mem_nil
  told id d h := by cases h
  linked id d slot target h := by cases h

/-- A new identity is different from every one in use. -/
theorem descriptor?_insert (h : Hierarchy) (d : Descriptor) (id : DescriptorId) :
    (h.insert d).2.descriptor? id =
      if id.number = h.descriptors.size then some d else h.descriptor? id :=
  Array.getElem?_push

theorem descriptor?_insert_of_some {d' : Descriptor} {id : DescriptorId} (d : Descriptor)
    (hd' : h.descriptor? id = some d') : (h.insert d).2.descriptor? id = some d' := by
  obtain ⟨hlt, -⟩ := Array.getElem?_eq_some_iff.1 hd'
  rw [descriptor?_insert, if_neg (Nat.ne_of_lt hlt)]
  exact hd'

theorem extends_insert (h : Hierarchy) (d : Descriptor) : h.Extends (h.insert d).2 :=
  fun _ d' hd' => ⟨d', descriptor?_insert_of_some d hd', Descriptor.Extends.refl d'⟩

theorem denotes_insert (h : Hierarchy) (d : Descriptor) :
    (h.insert d).2.Denotes d.loader (h.insert d).1 d.internalName :=
  ⟨d, by rw [descriptor?_insert]; exact if_pos rfl, rfl, rfl⟩

theorem Valid.insert (hv : h.Valid Fact) {header : ClassHeader} {loader : LoaderId}
    (hfact : Fact header.name loader (.ok header)) :
    (h.insert (Descriptor.ofHeader header loader)).2.Valid Fact := by
  have hext := extends_insert h (Descriptor.ofHeader header loader)
  refine ⟨?_, ?_, ?_⟩
  · intro name l id hmem
    rcases List.mem_append.1 hmem with hmem | hmem
    · exact (hv.table name l id hmem).mono hext
    · cases List.mem_singleton.1 hmem
      exact denotes_insert h (Descriptor.ofHeader header loader)
  · intro id d hd
    rw [descriptor?_insert] at hd
    by_cases hid : id.number = h.descriptors.size
    · rw [if_pos hid] at hd
      cases hd
      exact ⟨header, hfact, rfl, rfl, rfl⟩
    · rw [if_neg hid] at hd
      exact hv.told id d hd
  · intro id d slot target hd hl
    rw [descriptor?_insert] at hd
    by_cases hid : id.number = h.descriptors.size
    · -- the new descriptor has no link yet
      rw [if_pos hid] at hd
      cases hd
      rw [Descriptor.link_ofHeader] at hl
      cases hl
    · rw [if_neg hid] at hd
      obtain ⟨name, hname, htarget⟩ := hv.linked id d slot target hd hl
      exact ⟨name, hname, htarget.mono hext⟩

theorem descriptor?_fill (h : Hierarchy) (id : DescriptorId) (slot : AncestorSlot)
    (target id' : DescriptorId) :
    (h.fill id slot target).descriptor? id' =
      (h.descriptor? id').map fun d => if id = id' then d.fill slot target else d := by
  unfold descriptor? fill
  rw [Array.getElem?_modify]
  by_cases hid : id = id'
  · subst hid
    rw [if_pos rfl]
    simp only [if_true]
  · have hnumber : id.number ≠ id'.number := fun e => hid (congrArg DescriptorId.mk e)
    rw [if_neg hnumber]
    simp only [if_neg hid, Option.map_id']

theorem extends_fill (h : Hierarchy) (id : DescriptorId) (slot : AncestorSlot)
    (target : DescriptorId) : h.Extends (h.fill id slot target) := by
  intro id' d hd
  rw [descriptor?_fill, hd]
  refine ⟨_, rfl, ?_⟩
  show d.Extends (if id = id' then d.fill slot target else d)
  by_cases hid : id = id'
  · rw [if_pos hid]
    exact Descriptor.extends_fill d slot target
  · rw [if_neg hid]
    exact Descriptor.Extends.refl d

/-- A link may be filled with an ancestor that the header names in its place. -/
theorem Valid.fill (hv : h.Valid Fact) {id target : DescriptorId} {d : Descriptor}
    {slot : AncestorSlot} {name : String} (hd : h.descriptor? id = some d)
    (hname : d.declared slot = some name)
    (htarget : h.Denotes d.loader target (ClassName.internal name)) :
    (h.fill id slot target).Valid Fact := by
  have hext := extends_fill h id slot target
  -- What a descriptor was before the update.
  have earlier : ∀ id' d', (h.fill id slot target).descriptor? id' = some d' →
      ∃ d₀, h.descriptor? id' = some d₀ ∧ d₀.Extends d' ∧
        (d' = d₀ ∨ (id' = id ∧ d' = d₀.fill slot target)) := by
    intro id' d' hd'
    rw [descriptor?_fill] at hd'
    obtain ⟨d₀, hd₀, rfl⟩ := Option.map_eq_some_iff.1 hd'
    by_cases hid : id = id'
    · rw [if_pos hid]
      exact ⟨d₀, hd₀, Descriptor.extends_fill d₀ slot target, Or.inr ⟨hid.symm, rfl⟩⟩
    · rw [if_neg hid]
      exact ⟨d₀, hd₀, Descriptor.Extends.refl d₀, Or.inl rfl⟩
  refine ⟨?_, ?_, ?_⟩
  · intro n l id' hmem
    exact (hv.table n l id' hmem).mono hext
  · intro id' d' hd'
    obtain ⟨d₀, hd₀, hdd', -⟩ := earlier id' d' hd'
    obtain ⟨header, hfact, hstates⟩ := hv.told id' d₀ hd₀
    rw [hdd'.internalName, hdd'.loader]
    exact ⟨header, hfact, hdd'.flags.trans hstates.flags,
      hdd'.superName.trans hstates.superName, hdd'.interfaceNames.trans hstates.interfaceNames⟩
  · intro id' d' slot' target' hd' hl
    obtain ⟨d₀, hd₀, hdd', hform⟩ := earlier id' d' hd'
    rw [hdd'.declared, hdd'.loader]
    -- a link from before the update has its ancestor still
    have old : d₀.link slot' = some target' → ∃ name', d₀.declared slot' = some name' ∧
        (h.fill id slot target).Denotes d₀.loader target' (ClassName.internal name') := by
      intro hl₀
      obtain ⟨name', hname', htarget'⟩ := hv.linked id' d₀ slot' target' hd₀ hl₀
      exact ⟨name', hname', htarget'.mono hext⟩
    rcases hform with rfl | ⟨rfl, rfl⟩
    · exact old hl
    · rcases Descriptor.link_fill hl with hl₀ | ⟨rfl, rfl⟩
      · exact old hl₀
      · rw [hd] at hd₀
        cases hd₀
        exact ⟨name, hname, htarget.mono hext⟩

theorem extends_evict (h : Hierarchy) (loader : LoaderId) : h.Extends (h.evict loader) :=
  Extends.refl h

theorem Valid.evict (hv : h.Valid Fact) (loader : LoaderId) : (h.evict loader).Valid Fact where
  table name l id hmem := hv.table name l id (List.mem_filter.1 hmem).1
  told := hv.told
  linked := hv.linked

end Updates

end Hierarchy

/-- Whatever the source answers, it tells a loader a fact, and it stays as it is required to be. -/
structure ClassSource.Tells {σ : Type} (src : ClassSource σ) (I : σ → Prop)
    (Fact : String → LoaderId → Except ResolutionError ClassHeader → Prop) : Prop where
  read : ∀ name loader s, I s → (src.read name loader).Ensures s fun r s' =>
    Fact name loader (ClassHeader.ofAnswer name loader r) ∧ I s'
  reach : ∀ s, I s → src.reach.Ensures s fun _ s' => I s'

namespace Hierarchy

variable {σ : Type} {src : ClassSource σ} {I : σ → Prop}
  {Fact : String → LoaderId → Except ResolutionError ClassHeader → Prop} {h₀ : Hierarchy}
  {s : Hierarchy × σ}

/-- A state that a resolver may be in some time after it had the descriptors `h₀`. -/
structure Stands (Fact : String → LoaderId → Except ResolutionError ClassHeader → Prop)
    (I : σ → Prop) (h₀ : Hierarchy) (s : Hierarchy × σ) : Prop where
  later : h₀.Extends s.1
  valid : s.1.Valid Fact
  source : I s.2

theorem Stands.self (hs : Stands Fact I h₀ s) : Stands Fact I s.1 s :=
  ⟨Extends.refl s.1, hs.valid, hs.source⟩

theorem Stands.trans {s' : Hierarchy × σ} (hs : Stands Fact I h₀ s) (hs' : Stands Fact I s.1 s') :
    Stands Fact I h₀ s' :=
  ⟨hs.later.trans hs'.later, hs'.valid, hs'.source⟩

/-- What resolving a name may yield. -/
def Resolved (Fact : String → LoaderId → Except ResolutionError ClassHeader → Prop)
    (h : Hierarchy) (loader : LoaderId) (name : String) :
    Except ResolutionError DescriptorId → Prop
  | .ok id => h.Denotes loader id name ∧ ∃ header, Fact name loader (.ok header)
  | .error e => Fact name loader (.error e)

/-- What resolving an ancestor may yield, given the name that the header declares for it. -/
def ResolvedAncestor (Fact : String → LoaderId → Except ResolutionError ClassHeader → Prop)
    (h : Hierarchy) (loader : LoaderId) :
    Option String → Except ResolutionError (Option DescriptorId) → Prop
  | none, r => r = .ok none
  | some name, r =>
    ∃ r' : Except ResolutionError DescriptorId, r = r'.map some ∧
      Resolved Fact h loader (ClassName.internal name) r'

section Queries

theorem Valid.fact_of_denotes {h : Hierarchy} (hv : h.Valid Fact) {loader : LoaderId}
    {id : DescriptorId} {name : String} (hd : h.Denotes loader id name) :
    ∃ header, Fact name loader (.ok header) := by
  obtain ⟨d, hd, rfl, rfl⟩ := hd
  obtain ⟨header, hfact, -⟩ := hv.told id d hd
  exact ⟨header, hfact⟩

theorem mem_of_current? {h : Hierarchy} {name : String} {loader : LoaderId} {id : DescriptorId}
    (hc : h.current? name loader = some id) : ((name, loader), id) ∈ h.table := by
  unfold current? at hc
  obtain ⟨l₁, l₂, he, -⟩ := List.lookup_eq_some_iff.1 hc
  rw [he]
  exact List.mem_append_right l₁ List.mem_cons_self

/-- Building a descriptor is reading, and leaves the hierarchy as it is. -/
theorem build_ensures {name : String} {loader : LoaderId}
    {Q : Except ResolutionError Descriptor → Hierarchy × σ → Prop}
    (hread : (src.read name loader).Ensures s.2 fun r s' =>
      Q ((ClassHeader.ofAnswer name loader r).map (Descriptor.ofHeader · loader)) (s.1, s')) :
    (build src name loader).Ensures s Q := by
  rw [build, Attempt.ensures_bind, Attempt.ensures_act, Act.ensures_zoom]
  refine hread.imp fun r s' h => ?_
  match r, h with
  | .error cause, h => exact h
  | .ok none, h => exact h
  | .ok (some bytes), h =>
    rw [ClassHeader.ofAnswer] at h
    cases hp : ClassHeader.parse bytes with
    | error fault =>
      simp only [hp] at h ⊢
      exact h
    | ok header =>
      simp only [hp] at h ⊢
      by_cases hn : header.name ≠ name
      · simp only [if_pos hn] at h ⊢
        exact h
      · simp only [if_neg hn] at h ⊢
        exact h

/-- What resolving a name can do: it finds the current descriptor, or it reads, and adds a
descriptor under the name unless it fails. -/
theorem resolveRequired_ensures_of {name : String} {loader : LoaderId}
    {Q : Except ResolutionError DescriptorId → Hierarchy × σ → Prop}
    (hknown : ∀ id, s.1.current? (ClassName.internal name) loader = some id → Q (.ok id) s)
    (hread : s.1.current? (ClassName.internal name) loader = none →
      (src.read (ClassName.internal name) loader).Ensures s.2 fun r s' =>
        match ClassHeader.ofAnswer (ClassName.internal name) loader r with
        | .error e => Q (.error e) (s.1, s')
        | .ok header => header.name = ClassName.internal name →
          let inserted := s.1.insert (Descriptor.ofHeader header loader)
          Q (.ok inserted.1) (inserted.2, s')) :
    (resolveRequired src name loader).Ensures s Q := by
  rw [resolveRequired]
  simp only [Attempt.ensures_bind, Attempt.ensures_act, Act.ensures_gets]
  cases hc : s.1.current? (ClassName.internal name) loader with
  | some id => exact hknown id hc
  | none =>
    rw [Attempt.ensures_bind]
    refine build_ensures ((hread hc).imp fun r s' h => ?_)
    cases ho : ClassHeader.ofAnswer (ClassName.internal name) loader r with
    | error e =>
      rw [ho] at h
      exact h
    | ok header =>
      rw [ho] at h
      exact h (ClassHeader.name_of_ofAnswer ho)

theorem resolveRequired_ensures (hsrc : src.Tells I Fact) (hs : Stands Fact I h₀ s)
    (name : String) (loader : LoaderId) :
    (resolveRequired src name loader).Ensures s fun r s' =>
      Stands Fact I h₀ s' ∧ Resolved Fact s'.1 loader (ClassName.internal name) r := by
  refine resolveRequired_ensures_of (fun id hc => ?_) fun _ => ?_
  · -- known already: the descriptor was built from what the source told then
    have hd := hs.valid.table _ _ _ (mem_of_current? hc)
    exact ⟨hs, hd, hs.valid.fact_of_denotes hd⟩
  · refine (hsrc.read _ loader s.2 hs.source).imp fun r s' h => ?_
    obtain ⟨hfact, hsource⟩ := h
    cases ho : ClassHeader.ofAnswer (ClassName.internal name) loader r with
    | error e =>
      rw [ho] at hfact
      exact ⟨⟨hs.later, hs.valid, hsource⟩, hfact⟩
    | ok header =>
      -- a new descriptor, under the name that its header has
      intro hname
      rw [ho, ← hname] at hfact
      refine ⟨⟨hs.later.trans (extends_insert s.1 _), hs.valid.insert hfact, hsource⟩, ?_⟩
      rw [← hname]
      exact ⟨denotes_insert s.1 (Descriptor.ofHeader header loader), header, hfact⟩

/-- Resolving for whatever comes is resolving, with a failure left aside. -/
theorem resolve_ensures_iff (s : Hierarchy × σ) (name : String) (loader : LoaderId)
    (Q : Option DescriptorId → Hierarchy × σ → Prop) :
    (resolve src name loader).Ensures s Q ↔
      (resolveRequired src name loader).Ensures s fun r s' => Q r.toOption s' := by
  rw [resolve, Act.ensures_bind, Attempt.ensures_result]
  unfold Attempt.Ensures Act.Ensures
  cases ((resolveRequired src name loader).result.run s).value with
  | ok id => exact Iff.rfl
  | error e => exact Iff.rfl

/-- So is following a link. -/
theorem ancestor_ensures_iff (s : Hierarchy × σ) (id : DescriptorId) (slot : AncestorSlot)
    (Q : Option DescriptorId → Hierarchy × σ → Prop) :
    (ancestor src id slot).Ensures s Q ↔
      (ancestorRequired src id slot).Ensures s fun r s' => Q r.toOption.join s' := by
  rw [ancestor, ancestorRequired]
  simp only [lookup, Act.ensures_bind, Attempt.ensures_bind, Attempt.ensures_act, Act.ensures_gets]
  cases s.1.descriptor? id with
  | none => exact Iff.rfl
  | some d =>
    dsimp only
    cases d.declared slot with
    | none => exact Iff.rfl
    | some name =>
      cases d.link slot with
      | some target => exact Iff.rfl
      | none =>
        simp only [Act.ensures_bind, Attempt.ensures_bind, resolve_ensures_iff]
        unfold Attempt.Ensures Act.Ensures
        cases ((resolveRequired src name d.loader).result.run s).value with
        | ok target => exact Iff.rfl
        | error e => exact Iff.rfl

/-- Filling a link with what its declared name resolves to is an admissible step. -/
theorem Stands.fill {s' : Hierarchy × σ} {id target : DescriptorId}
    {d : Descriptor} {slot : AncestorSlot} {name : String} (hd : s.1.descriptor? id = some d)
    (hname : d.declared slot = some name) (hs' : Stands Fact I s.1 s')
    (htarget : s'.1.Denotes d.loader target (ClassName.internal name)) :
    Stands Fact I s.1 (s'.1.fill id slot target, s'.2) := by
  obtain ⟨d', hd', hdd'⟩ := hs'.later id d hd
  refine ⟨hs'.later.trans (extends_fill s'.1 id slot target), ?_, hs'.source⟩
  refine hs'.valid.fill hd' ((hdd'.declared slot).trans hname) ?_
  rw [hdd'.loader]
  exact htarget

/-- What following a slot can do: nothing is declared, or there is a link, or the name is resolved
and the slot is filled unless that fails. -/
theorem ancestorRequired_ensures_of {id : DescriptorId} {slot : AncestorSlot}
    {Q : Except ResolutionError (Option DescriptorId) → Hierarchy × σ → Prop}
    (hunknown : s.1.descriptor? id = none → Q (.ok none) s)
    (hroot : ∀ d, s.1.descriptor? id = some d → d.declared slot = none → Q (.ok none) s)
    (hlinked : ∀ d name target, s.1.descriptor? id = some d → d.declared slot = some name →
      d.link slot = some target → Q (.ok (some target)) s)
    (hempty : ∀ d name, s.1.descriptor? id = some d → d.declared slot = some name →
      d.link slot = none → (resolveRequired src name d.loader).Ensures s fun r s' => match r with
        | .error e => Q (.error e) s'
        | .ok target => Q (.ok (some target)) (s'.1.fill id slot target, s'.2)) :
    (ancestorRequired src id slot).Ensures s Q := by
  rw [ancestorRequired]
  simp only [lookup, Attempt.ensures_bind, Attempt.ensures_act, Act.ensures_gets]
  cases hd : s.1.descriptor? id with
  | none => exact hunknown hd
  | some d =>
    dsimp only
    cases hname : d.declared slot with
    | none => exact hroot d hd hname
    | some name =>
      cases hl : d.link slot with
      | some target => exact hlinked d name target hd hname hl
      | none =>
        simp only [Attempt.ensures_bind]
        refine (hempty d name hd hname hl).imp fun r s' h => ?_
        cases r with
        | error e => exact h
        | ok target => exact h

theorem ancestorRequired_ensures (hsrc : src.Tells I Fact) (hs : Stands Fact I h₀ s)
    {id : DescriptorId} {d : Descriptor} (hd : s.1.descriptor? id = some d)
    (slot : AncestorSlot) :
    (ancestorRequired src id slot).Ensures s fun r s' => Stands Fact I h₀ s' ∧
      ResolvedAncestor Fact s'.1 d.loader (d.declared slot) r := by
  refine ancestorRequired_ensures_of ?_ ?_ ?_ ?_
  · intro hnone
    cases hd.symm.trans hnone
  · intro d' hd' hname
    obtain rfl : d = d' := Option.some.inj (hd.symm.trans hd')
    rw [hname]
    exact ⟨hs, rfl⟩
  · -- linked before, by the invariant with the declared ancestor
    intro d' name target hd' hname hl
    obtain rfl : d = d' := Option.some.inj (hd.symm.trans hd')
    obtain ⟨name', hname', htarget⟩ := hs.valid.linked id d slot target hd hl
    rw [hname] at hname' ⊢
    cases hname'
    exact ⟨hs, .ok target, rfl, htarget, hs.valid.fact_of_denotes htarget⟩
  · intro d' name hd' hname _
    obtain rfl : d = d' := Option.some.inj (hd.symm.trans hd')
    rw [hname]
    refine (resolveRequired_ensures hsrc hs.self name d.loader).imp fun r s' h => ?_
    obtain ⟨hs', hr⟩ := h
    cases r with
    | error e => exact ⟨hs.trans hs', .error e, rfl, hr⟩
    | ok target =>
      -- linked from now on
      have hfill := hs'.fill hd hname hr.1
      exact ⟨hs.trans hfill, .ok target, rfl, hr.1.mono (extends_fill _ _ _ _), hr.2⟩

end Queries

/-! ### What every query keeps -/

/-- The queries that read, add and link descriptors keep a property of the state; all others are
made of them. -/
structure Maintains (src : ClassSource σ) (P : Hierarchy × σ → Prop) : Prop where
  reach : (reach src).Preserves P
  resolveRequired : ∀ name loader, (resolveRequired src name loader).Preserves P
  ancestorRequired : ∀ id slot, (ancestorRequired src id slot).Preserves P

section Preservation

/-- What new descriptors and filled links do not break, no query breaks, whatever is read. -/
theorem maintains_of_updates {P : Hierarchy → Prop}
    (hinsert : ∀ h header loader, ClassName.internal header.name = header.name → P h →
      P (h.insert (Descriptor.ofHeader header loader)).2)
    (hfill : ∀ h id slot target, P h → P (h.fill id slot target)) :
    Maintains src fun s => P s.1 := by
  have hresolve : ∀ name loader, (resolveRequired src name loader).Preserves fun s => P s.1 := by
    intro name loader s hs
    refine resolveRequired_ensures_of (fun _ _ => hs) fun _ => Act.Ensures.of_forall fun r s' => ?_
    cases ClassHeader.ofAnswer (ClassName.internal name) loader r with
    | error e => exact hs
    | ok header =>
      intro hname
      refine hinsert s.1 header loader ?_ hs
      rw [hname, ClassName.internal_internal]
  refine ⟨fun s hs => ?_, hresolve, fun id slot s hs => ?_⟩
  · rw [Hierarchy.reach]
    simp only [Act.ensures_bind, Act.ensures_zoom, Act.ensures_gets]
    exact Act.Ensures.of_forall fun _ _ => hs
  · refine ancestorRequired_ensures_of (fun _ => hs) (fun _ _ _ => hs) (fun _ _ _ _ _ _ => hs)
      fun d name _ _ _ => (hresolve name d.loader s hs).imp fun r s' hs' => ?_
    cases r with
    | error e => exact hs'
    | ok target => exact hfill s'.1 id slot target hs'

/-- They keep the invariant. -/
theorem stands_maintained (hsrc : src.Tells I Fact) : Maintains src (Stands Fact I h₀) where
  reach s hs := by
    rw [Hierarchy.reach]
    simp only [Act.ensures_bind, Act.ensures_zoom, Act.ensures_gets]
    exact (hsrc.reach s.2 hs.source).imp fun _ _ h => ⟨hs.later, hs.valid, h⟩
  resolveRequired name loader _ hs :=
    (resolveRequired_ensures hsrc hs name loader).imp fun _ _ h => h.1
  ancestorRequired id slot s hs := by
    cases hd : s.1.descriptor? id with
    | some d => exact (ancestorRequired_ensures hsrc hs hd slot).imp fun _ _ h => h.1
    | none =>
      -- an identity that was never given out has no ancestors
      refine ancestorRequired_ensures_of (fun _ => hs) (fun d h => ?_) (fun d _ _ h => ?_)
        fun d _ h => ?_
      all_goals cases hd.symm.trans h

variable {P : Hierarchy × σ → Prop}

theorem resolve_preserves (hP : Maintains src P) (name : String) (loader : LoaderId) :
    (resolve src name loader).Preserves P := by
  intro s hs
  rw [resolve_ensures_iff]
  exact hP.resolveRequired name loader s hs

theorem ancestor_preserves (hP : Maintains src P) (id : DescriptorId) (slot : AncestorSlot) :
    (ancestor src id slot).Preserves P := by
  intro s hs
  rw [ancestor_ensures_iff]
  exact hP.ancestorRequired id slot s hs

theorem slotsOf_preserves (id : DescriptorId) (P : Hierarchy × σ → Prop) :
    (slotsOf id).Preserves P := by
  refine (Act.preserves_gets _ P).bind fun d => ?_
  cases d with
  | none => exact Act.preserves_pure [] P
  | some d => exact Act.preserves_pure d.interfaceSlots P

theorem requiredInterfaces_preserves (hP : Maintains src P) (id : DescriptorId) :
    (requiredInterfaces src id).Preserves P := by
  refine (Attempt.preserves_act (slotsOf_preserves id P)).bind fun slots => ?_
  refine (Attempt.preserves_mapM (hP.ancestorRequired id) slots).bind fun found => ?_
  exact Attempt.preserves_pure _ _

theorem interfaces_preserves (hP : Maintains src P) (id : DescriptorId) :
    (interfaces src id).Preserves P :=
  (slotsOf_preserves id P).bind fun slots => Act.preserves_mapM (ancestor_preserves hP id) slots

theorem superLine_preserves (hP : Maintains src P) (limit : Nat) (seen : List String)
    (id : DescriptorId) : (superLine src limit seen id).Preserves P := by
  have look : ∀ {α : Type} (f : Hierarchy × σ → α),
      (Attempt.act (Act.gets f) : Attempt (Hierarchy × σ) ResolutionError α).Preserves
        P :=
    fun f => Attempt.preserves_act (Act.preserves_gets f _)
  induction limit generalizing seen id with
  | zero => exact (look _).bind fun _ => (look _).bind fun _ => Attempt.preserves_throw _ _
  | succ limit ih =>
    rw [superLine]
    refine (hP.ancestorRequired id .superclass).bind fun parent => ?_
    cases parent with
    | none => exact Attempt.preserves_pure [id] _
    | some parent =>
      refine (look _).bind fun name => ?_
      by_cases hname : name ∈ seen
      · simp only [if_pos hname, Attempt.throw_bind]
        exact (look _).bind fun _ => Attempt.preserves_throw _ _
      · simp only [if_neg hname]
        exact (ih (name :: seen) parent).bind fun _ => Attempt.preserves_pure _ _

theorem searchEach_preserves {target : String}
    {deeper : DescriptorId → List String →
      Attempt (Hierarchy × σ) ResolutionError (Bool × List String)}
    (hdeeper : ∀ id visited, (deeper id visited).Preserves P) (ids : List DescriptorId)
    (visited : List String) : (searchEach target deeper ids visited).Preserves P := by
  induction ids generalizing visited with
  | nil => exact Attempt.preserves_pure _ P
  | cons id ids ih =>
    rw [searchEach]
    refine (Attempt.preserves_act (Act.preserves_gets _ P)).bind fun name => ?_
    by_cases ht : name = target
    · rw [if_pos ht]
      exact Attempt.preserves_pure _ P
    · rw [if_neg ht]
      by_cases hname : name ∈ visited
      · rw [if_pos hname]
        exact ih visited
      · rw [if_neg hname]
        refine (hdeeper id (name :: visited)).bind fun found => ?_
        obtain ⟨found, visited'⟩ := found
        cases found with
        | true => exact Attempt.preserves_pure _ P
        | false => exact ih visited'

theorem searchBelow_preserves (hP : Maintains src P) (target : String) (limit : Nat) :
    ∀ (id : DescriptorId) (visited : List String),
      (searchBelow src target limit id visited).Preserves P := by
  induction limit with
  | zero =>
    intro id visited
    rw [searchBelow]
    refine (Attempt.preserves_act (Act.preserves_gets _ _)).bind fun name => ?_
    exact (Attempt.preserves_act (Act.preserves_gets _ _)).bind fun _ => Attempt.preserves_throw _ _
  | succ limit ih =>
    intro id visited
    rw [searchBelow]
    exact (requiredInterfaces_preserves hP id).bind fun ids => searchEach_preserves ih ids visited

theorem searchLine_preserves (hP : Maintains src P) (target : String) (limit : Nat)
    (line : List DescriptorId) (visited : List String) :
    (searchLine src target limit line visited).Preserves P := by
  induction line generalizing visited with
  | nil => exact Attempt.preserves_pure _ _
  | cons id line ih =>
    rw [searchLine]
    refine (searchBelow_preserves hP target limit id visited).bind fun found => ?_
    obtain ⟨found, visited'⟩ := found
    cases found with
    | true => exact Attempt.preserves_pure _ _
    | false => exact ih visited'

theorem isAssignable_preserves (hP : Maintains src P) (target : String)
    (candidate : DescriptorId) :
    (isAssignable src target candidate).Preserves P := by
  rw [isAssignable]
  refine (Attempt.preserves_act (Act.preserves_gets _ _)).bind fun own => ?_
  by_cases ht : own = target
  · rw [if_pos ht]
    exact Attempt.preserves_pure _ _
  · rw [if_neg ht]
    refine (Attempt.preserves_act (hP.reach)).bind fun limit => ?_
    refine (superLine_preserves hP limit [own] candidate).bind fun line => ?_
    have hnames : (line.mapM (nameOf (σ := σ))).Preserves P :=
      Act.preserves_mapM (fun id => Act.preserves_gets _ _) line
    refine (Attempt.preserves_act hnames).bind fun names => ?_
    by_cases hmem : target ∈ names.drop 1
    · rw [if_pos hmem]
      exact Attempt.preserves_pure _ _
    · rw [if_neg hmem]
      exact searchLine_preserves hP target (limit + 1) line []

theorem isAssignableFrom_preserves (hP : Maintains src P) (target candidate : String)
    (loader : LoaderId) :
    (isAssignableFrom src target candidate loader).Preserves P := by
  rw [isAssignableFrom]
  by_cases ht : ClassName.internal target = ClassName.internal candidate
  · simp only [if_pos ht]
    exact Attempt.preserves_pure _ _
  · simp only [if_neg ht]
    exact (hP.resolveRequired _ loader).bind fun id =>
      isAssignable_preserves hP _ id

end Preservation

end Hierarchy

/-- What can be asked of a resolver. -/
inductive Operation where
  | resolve (name : String) (loader : LoaderId)
  | resolveRequired (name : String) (loader : LoaderId)
  | isAssignableFrom (target candidate : String) (loader : LoaderId)
  | isAssignable (target : String) (candidate : DescriptorId)
  | superclass (id : DescriptorId)
  | requiredSuperclass (id : DescriptorId)
  | interfaces (id : DescriptorId)
  | requiredInterfaces (id : DescriptorId)
  | evict (loader : LoaderId)
  deriving DecidableEq, Repr

namespace Operation

variable {σ : Type}

/-- Does what is asked for; the answer is left aside. -/
def perform (src : ClassSource σ) : Operation → Act (Hierarchy × σ) Unit
  | resolve name loader => do let _ ← Hierarchy.resolve src name loader
  | resolveRequired name loader => do let _ ← (Hierarchy.resolveRequired src name loader).result
  | isAssignableFrom target candidate loader => do
    let _ ← (Hierarchy.isAssignableFrom src target candidate loader).result
  | isAssignable target candidate => do
    let _ ← (Hierarchy.isAssignable src target candidate).result
  | superclass id => do let _ ← Hierarchy.superclass src id
  | requiredSuperclass id => do let _ ← (Hierarchy.requiredSuperclass src id).result
  | interfaces id => do let _ ← Hierarchy.interfaces src id
  | requiredInterfaces id => do let _ ← (Hierarchy.requiredInterfaces src id).result
  | evict loader => Act.zoom .fst (Act.modify fun h => h.evict loader)

/-- The state after a list of operations. -/
def after (src : ClassSource σ) (ops : List Operation) (s : Hierarchy × σ) : Hierarchy × σ :=
  ops.foldl (fun s op => ((op.perform src).run s).state) s

section Invariance

variable {src : ClassSource σ} {I : σ → Prop}
  {Fact : String → LoaderId → Except ResolutionError ClassHeader → Prop} {h₀ : Hierarchy}

/-- An operation keeps what the queries and its own eviction keep. -/
theorem perform_maintains {P : Hierarchy × σ → Prop} (hP : Hierarchy.Maintains src P)
    (op : Operation)
    (hevict : ∀ loader, op = .evict loader → ∀ s, P s → P (s.1.evict loader, s.2)) :
    (op.perform src).Preserves P := by
  cases op with
  | resolve name loader => exact (Hierarchy.resolve_preserves hP name loader).discard
  | resolveRequired name loader => exact (hP.resolveRequired name loader).result.discard
  | isAssignableFrom target candidate loader =>
    exact (Hierarchy.isAssignableFrom_preserves hP target candidate loader).result.discard
  | isAssignable target candidate =>
    exact (Hierarchy.isAssignable_preserves hP target candidate).result.discard
  | superclass id => exact (Hierarchy.ancestor_preserves hP id .superclass).discard
  | requiredSuperclass id => exact (hP.ancestorRequired id .superclass).result.discard
  | interfaces id => exact (Hierarchy.interfaces_preserves hP id).discard
  | requiredInterfaces id => exact (Hierarchy.requiredInterfaces_preserves hP id).result.discard
  | evict loader => exact hevict loader rfl

/-- **No operation breaks the invariant**, whatever it answers. -/
theorem perform_preserves (hsrc : src.Tells I Fact) (op : Operation) :
    (op.perform src).Preserves (Hierarchy.Stands Fact I h₀) := by
  refine perform_maintains (Hierarchy.stands_maintained hsrc) op fun loader _ s hs => ?_
  exact ⟨hs.later.trans (Hierarchy.extends_evict s.1 loader), hs.valid.evict loader, hs.source⟩

theorem after_stands (hsrc : src.Tells I Fact) (ops : List Operation) {s : Hierarchy × σ}
    (hs : Hierarchy.Stands Fact I h₀ s) : Hierarchy.Stands Fact I h₀ (after src ops s) := by
  induction ops generalizing s with
  | nil => exact hs
  | cons op ops ih => exact ih (perform_preserves hsrc op s hs)

end Invariance

end Operation

end Reclass
