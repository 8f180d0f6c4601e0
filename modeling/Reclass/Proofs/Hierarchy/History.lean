import Reclass.ClassFile.Builder
import Reclass.Hierarchy.Memory
import Reclass.Proofs.Hierarchy.Invariant

/-!
# A resolver over time

A history is a list of happenings: operations of the resolver, and changes of what its source
would answer, in any order. Whatever happens, the table and the links lead where they should
(`Hierarchy.Sound`), and filled links stay. As long as a loader is not evicted, its types are
built once and its current descriptors stay current (`Hierarchy.Lasts`), so a name that has
resolved resolves to the same descriptor from then on (`Hierarchy.integrity_of_history`).
-/

set_option autoImplicit false

namespace Reclass

namespace Hierarchy

variable {σ : Type} {src : ClassSource σ} {loader : LoaderId} {h h' h'' : Hierarchy}

/-- The table leads to descriptors of the right name and loader, and a filled link to one of the
declared name, in the loader of the descriptor itself. -/
structure Sound (h : Hierarchy) : Prop where
  table : ∀ name loader id, ((name, loader), id) ∈ h.table → h.Denotes loader id name
  linked : ∀ id d slot target, h.descriptor? id = some d → d.link slot = some target →
    ∃ name, d.declared slot = some name ∧ h.Denotes d.loader target (ClassName.internal name)

/-- From `h` to `h'` the loader was not evicted: what was current for it is current still, what
was built for it since is current, and so is what a link of its descriptors was filled with. -/
structure Lasts (loader : LoaderId) (h h' : Hierarchy) : Prop where
  later : h.Extends h'
  current : ∀ name id, h.current? name loader = some id → h'.current? name loader = some id
  built : ∀ name id, h'.Denotes loader id name → h.descriptors.size ≤ id.number →
    h'.current? name loader = some id
  linked : ∀ id d' slot target name, h'.descriptor? id = some d' → d'.loader = loader →
    d'.declared slot = some name → d'.link slot = some target →
    (∃ d, h.descriptor? id = some d ∧ d.link slot = some target) ∨
      h'.current? (ClassName.internal name) loader = some target

theorem Denotes.number_lt {id : DescriptorId} {name : String} (hd : h.Denotes loader id name) :
    id.number < h.descriptors.size := by
  obtain ⟨d, hd, -, -⟩ := hd
  obtain ⟨hlt, -⟩ := Array.getElem?_eq_some_iff.1 hd
  exact hlt

/-- What a later hierarchy knows of an old identity was known of it before. -/
theorem Extends.denotes_of_lt (e : h.Extends h') {id : DescriptorId} {name : String}
    (hd : h'.Denotes loader id name) (hlt : id.number < h.descriptors.size) :
    h.Denotes loader id name := by
  obtain ⟨d', hd', hname, hloader⟩ := hd
  have hd : h.descriptor? id = some h.descriptors[id.number] :=
    Array.getElem?_eq_getElem hlt
  obtain ⟨d'', hd'', hdd''⟩ := e id _ hd
  rw [hd'] at hd''
  cases hd''
  exact ⟨_, hd, hdd''.internalName.symm.trans hname, hdd''.loader.symm.trans hloader⟩

namespace Lasts

theorem refl (loader : LoaderId) (h : Hierarchy) : Lasts loader h h where
  later := Extends.refl h
  current _ _ hc := hc
  built _ _ hd hle := absurd hle (Nat.not_le.2 hd.number_lt)
  linked _ d _ _ _ hd _ _ hl := Or.inl ⟨d, hd, hl⟩

theorem trans (e : Lasts loader h h') (e' : Lasts loader h' h'') : Lasts loader h h'' where
  later := e.later.trans e'.later
  current name id hc := e'.current name id (e.current name id hc)
  built name id hd hle := by
    by_cases hlt : id.number < h'.descriptors.size
    · -- built in the first part, and current since
      have hd' := e'.later.denotes_of_lt hd hlt
      exact e'.current name id (e.built name id hd' hle)
    · exact e'.built name id hd (Nat.not_lt.1 hlt)
  linked id d'' slot target name hd'' hloader hname hl := by
    rcases e'.linked id d'' slot target name hd'' hloader hname hl with ⟨d', hd', hl'⟩ | hc
    · -- filled in the first part
      obtain ⟨d₂, hd₂, hdd⟩ := e'.later id d' hd'
      rw [hd''] at hd₂
      cases hd₂
      have hloader' : d'.loader = loader := hdd.loader.symm.trans hloader
      have hname' : d'.declared slot = some name := (hdd.declared slot).symm.trans hname
      rcases e.linked id d' slot target name hd' hloader' hname' hl' with hold | hc
      · exact Or.inl hold
      · exact Or.inr (e'.current _ _ hc)
    · exact Or.inr hc

end Lasts

/-! ### Updates of the hierarchy -/

theorem current?_insert (h : Hierarchy) (d : Descriptor) (name : String) (l : LoaderId) :
    (h.insert d).2.current? name l = (h.current? name l).or
      (if (name, l) = (d.internalName, d.loader) then some (h.insert d).1 else none) := by
  unfold current? insert
  rw [List.lookup_append]
  congr 1
  by_cases hkey : (name, l) = (d.internalName, d.loader)
  · rw [if_pos hkey, hkey, List.lookup_cons_self]
  · have hne : ((name, l) == (d.internalName, d.loader)) = false := by simpa using hkey
    rw [if_neg hkey, List.lookup_cons, hne]
    rfl

theorem current?_insert_self {h : Hierarchy} {d : Descriptor}
    (hc : h.current? d.internalName d.loader = none) :
    (h.insert d).2.current? d.internalName d.loader = some (h.insert d).1 := by
  rw [current?_insert, hc, Option.none_or, if_pos rfl]

theorem current?_evict_of_ne (h : Hierarchy) {l : LoaderId} (hne : l ≠ loader) (name : String) :
    (h.evict l).current? name loader = h.current? name loader := by
  unfold current? evict
  induction h.table with
  | nil => rfl
  | cons entry table ih =>
    obtain ⟨⟨n, l'⟩, id⟩ := entry
    by_cases hl : l' = l
    · -- an entry that goes is about another loader
      subst hl
      have hkey : ((name, loader) == (n, l')) = false := by
        simpa using fun _ => hne.symm
      rw [List.filter_cons_of_neg (by simp), ih, List.lookup_cons, hkey]
    · rw [List.filter_cons_of_pos (by simpa using hl), List.lookup_cons, List.lookup_cons, ih]

/-- A descriptor is built only for a name that has none. -/
theorem lasts_insert {header : ClassHeader} {l : LoaderId}
    (hnone : h.current? header.name l = none) :
    Lasts loader h (h.insert (Descriptor.ofHeader header l)).2 where
  later := extends_insert h _
  current name id hc := by rw [current?_insert, hc, Option.some_or]
  built name id hd hle := by
    have hlt : id.number < (h.descriptors.push (Descriptor.ofHeader header l)).size := hd.number_lt
    rw [Array.size_push] at hlt
    have hnumber : id.number = h.descriptors.size := by omega
    obtain ⟨d, hd, rfl, rfl⟩ := hd
    rw [descriptor?_insert, if_pos hnumber] at hd
    cases hd
    have hid : (h.insert (Descriptor.ofHeader header l)).1 = id :=
      congrArg DescriptorId.mk hnumber.symm
    rw [current?_insert, hid]
    show (h.current? header.name l).or _ = _
    rw [hnone, if_pos rfl, Option.none_or]
  linked id d slot target name hd _ _ hl := by
    rw [descriptor?_insert] at hd
    by_cases hid : id.number = h.descriptors.size
    · -- the new descriptor has no link yet
      rw [if_pos hid] at hd
      cases hd
      rw [Descriptor.link_ofHeader] at hl
      cases hl
    · rw [if_neg hid] at hd
      exact Or.inl ⟨d, hd, hl⟩

/-- A link is filled with the current descriptor of its name. -/
theorem lasts_fill {id target : DescriptorId} {d : Descriptor} {slot : AncestorSlot}
    {name : String} (hd : h.descriptor? id = some d) (hname : d.declared slot = some name)
    (hc : h.current? (ClassName.internal name) d.loader = some target) :
    Lasts loader h (h.fill id slot target) where
  later := extends_fill h id slot target
  current _ _ hc := hc
  built n i hdenotes hle := by
    have hlt : i.number < (h.descriptors.modify id.number fun d => d.fill slot target).size :=
      hdenotes.number_lt
    rw [Array.size_modify] at hlt
    exact absurd hle (Nat.not_le.2 hlt)
  linked id' d' slot' target' name' hd' hloader hname' hl := by
    rw [descriptor?_fill] at hd'
    obtain ⟨d₀, hd₀, rfl⟩ := Option.map_eq_some_iff.1 hd'
    by_cases hid : id = id'
    · subst hid
      rw [hd] at hd₀
      cases hd₀
      simp only [if_pos] at hl hname' hloader
      rcases Descriptor.link_fill hl with hold | ⟨rfl, rfl⟩
      · exact Or.inl ⟨d, hd, hold⟩
      · have hdd := Descriptor.extends_fill d slot' target'
        rw [hdd.declared, hname] at hname'
        cases hname'
        refine Or.inr ?_
        rw [← hloader, hdd.loader]
        exact hc
    · rw [if_neg hid] at hl
      exact Or.inl ⟨d₀, hd₀, hl⟩

theorem lasts_evict {l : LoaderId} (hne : l ≠ loader) (h : Hierarchy) :
    Lasts loader h (h.evict l) where
  later := extends_evict h l
  current name id hc := by rw [current?_evict_of_ne h hne, hc]
  built name id hd hle := absurd hle (Nat.not_le.2 hd.number_lt)
  linked _ d _ _ _ hd _ _ hl := Or.inl ⟨d, hd, hl⟩

/-! ### Queries -/

variable {s : Hierarchy × σ}

/-- A name that resolves has a current descriptor from then on; one that does not leaves the
hierarchy as it was. -/
theorem resolveRequired_lasts (src : ClassSource σ) (loader : LoaderId) (s : Hierarchy × σ)
    (name : String) (l : LoaderId) :
    (resolveRequired src name l).Ensures s fun r s' => Lasts loader s.1 s'.1 ∧ match r with
      | .ok id => s'.1.current? (ClassName.internal name) l = some id
      | .error _ => s'.1 = s.1 := by
  refine resolveRequired_ensures_of (fun id hc => ⟨Lasts.refl loader s.1, hc⟩) fun hc => ?_
  refine Act.Ensures.of_forall fun r s' => ?_
  cases ClassHeader.ofAnswer (ClassName.internal name) l r with
  | error e => exact ⟨Lasts.refl loader s.1, rfl⟩
  | ok header =>
    -- built now, under the name that the header has
    intro hname
    rw [← hname] at hc ⊢
    exact ⟨lasts_insert hc, current?_insert_self hc⟩

/-- A query evicts nothing. -/
theorem lasts_maintained (src : ClassSource σ) (loader : LoaderId) (h₀ : Hierarchy) :
    Maintains src fun s => Lasts loader h₀ s.1 where
  reach s hs := by
    rw [Hierarchy.reach]
    simp only [Act.ensures_bind, Act.ensures_zoom, Act.ensures_gets]
    exact Act.Ensures.of_forall fun _ _ => hs
  resolveRequired name l s hs :=
    (resolveRequired_lasts src loader s name l).imp fun _ _ h => hs.trans h.1
  ancestorRequired id slot s hs := by
    refine ancestorRequired_ensures_of (fun _ => hs) (fun _ _ _ => hs) (fun _ _ _ _ _ _ => hs)
      fun d name hd hname _ => ?_
    refine (resolveRequired_lasts src loader s name d.loader).imp fun r s' h => ?_
    obtain ⟨hs', hr⟩ := h
    cases r with
    | error e => exact hs.trans hs'
    | ok target =>
      -- the descriptor may have gained links meanwhile, but declares the same
      obtain ⟨d', hd', hdd'⟩ := hs'.later id d hd
      refine (hs.trans hs').trans (lasts_fill hd' ((hdd'.declared slot).trans hname) ?_)
      rw [hdd'.loader]
      exact hr

/-- A type that is known is not built again. -/
theorem resolveRequired_of_current? (src : ClassSource σ) {name : String} {id : DescriptorId}
    (hc : s.1.current? (ClassName.internal name) loader = some id) :
    (resolveRequired src name loader).Ensures s fun r s' => r = .ok id ∧ s' = s := by
  rw [resolveRequired]
  simp only [Attempt.ensures_bind, Attempt.ensures_act, Act.ensures_gets, hc]
  exact ⟨rfl, rfl⟩

end Hierarchy

/-- Anything may be told when nothing is said about it. -/
theorem ClassSource.tells_true {σ : Type} (src : ClassSource σ) :
    src.Tells (fun _ => True) fun _ _ _ => True where
  read _ _ _ _ := Act.Ensures.of_forall fun _ _ => ⟨trivial, trivial⟩
  reach _ _ := Act.Ensures.of_forall fun _ _ => trivial

/-- What happens to a resolver: something is asked of it, or its source changes. -/
inductive Happening (σ : Type) where
  | operation (op : Operation)
  | change (f : σ → σ)

namespace Happening

variable {σ : Type}

def perform (src : ClassSource σ) : Happening σ → Act (Hierarchy × σ) Unit
  | operation op => op.perform src
  | change f => Act.zoom .snd (Act.modify f)

/-- The state after a history. -/
def after (src : ClassSource σ) (history : List (Happening σ)) (s : Hierarchy × σ) :
    Hierarchy × σ :=
  history.foldl (fun s e => ((e.perform src).run s).state) s

section Invariance

variable {src : ClassSource σ} {loader : LoaderId} {h₀ : Hierarchy} {s : Hierarchy × σ}
  {Fact : String → LoaderId → Except ResolutionError ClassHeader → Prop}

/-- A happening does not break the invariant of what the source tells in all its states. -/
theorem perform_stands_of_tells (hsrc : src.Tells (fun _ => True) Fact) (happening : Happening σ) :
    (happening.perform src).Preserves (Hierarchy.Stands Fact (fun _ => True) h₀) := by
  cases happening with
  | operation op => exact op.perform_preserves hsrc
  | change f => exact fun s hs => ⟨hs.later, hs.valid, trivial⟩

theorem after_stands_of_tells (hsrc : src.Tells (fun _ => True) Fact) (history : List (Happening σ))
    (hs : Hierarchy.Stands Fact (fun _ => True) h₀ s) :
    Hierarchy.Stands Fact (fun _ => True) h₀ (after src history s) := by
  induction history generalizing s with
  | nil => exact hs
  | cons e history ih => exact ih (perform_stands_of_tells hsrc e s hs)

/-- Only its own eviction takes anything from a loader. -/
theorem perform_lasts {happening : Happening σ} (hne : happening ≠ .operation (.evict loader)) :
    (happening.perform src).Preserves fun s => Hierarchy.Lasts loader h₀ s.1 := by
  cases happening with
  | change f => exact fun s hs => hs
  | operation op =>
    refine op.perform_maintains (Hierarchy.lasts_maintained src loader h₀) fun l hop s hs => ?_
    have hl : l ≠ loader := by
      rintro rfl
      exact hne (congrArg operation hop)
    exact hs.trans (Hierarchy.lasts_evict hl s.1)

theorem after_stands (history : List (Happening σ))
    (hs : Hierarchy.Stands (fun _ _ _ => True) (fun _ => True) h₀ s) :
    Hierarchy.Stands (fun _ _ _ => True) (fun _ => True) h₀ (after src history s) :=
  after_stands_of_tells src.tells_true history hs

theorem after_lasts {history : List (Happening σ)}
    (hne : ∀ e ∈ history, e ≠ .operation (.evict loader)) (hs : Hierarchy.Lasts loader h₀ s.1) :
    Hierarchy.Lasts loader h₀ (after src history s).1 := by
  induction history generalizing s with
  | nil => exact hs
  | cons e history ih =>
    obtain ⟨he, hhistory⟩ := List.forall_mem_cons.1 hne
    exact ih hhistory (perform_lasts he s hs)

end Invariance

end Happening

namespace Hierarchy

variable {σ : Type}

/-- A resolution of either kind from the state `s` yields the descriptor and leaves `s'`. -/
def Yields (src : ClassSource σ) (loader : LoaderId) (name : String) (id : DescriptorId)
    (s s' : Hierarchy × σ) : Prop :=
  (resolveRequired src name loader).Ensures s (fun r s₁ => r = .ok id ∧ s₁ = s') ∨
    (resolve src name loader).Ensures s fun r s₁ => r = some id ∧ s₁ = s'

theorem Yields.current? {src : ClassSource σ} {loader : LoaderId} {name : String}
    {id : DescriptorId} {s s' : Hierarchy × σ} (h : Yields src loader name id s s') :
    s'.1.current? (ClassName.internal name) loader = some id := by
  have hr := resolveRequired_lasts src loader s name loader
  unfold Yields at h
  rw [resolve_ensures_iff] at h
  unfold Attempt.Ensures Act.Ensures at h hr
  rcases h with ⟨hv, rfl⟩ | ⟨hv, rfl⟩
  · rw [hv] at hr
    exact hr.2
  · cases hok : ((resolveRequired src name loader).result.run s).value with
    | error e =>
      rw [hok] at hv
      cases hv
    | ok id' =>
      rw [hok] at hv hr
      cases hv
      exact hr.2

/-- **The table and the links stay right, and types are built once, under every history.**

After `before` and `between`, the table and all links lead where they should, and all links that
were filled before `between` are as they were. If `between` does not evict the loader, then what
was current for it before `between` is current still, what was built for it meanwhile was built
once and is current, and a name that resolved before `between` resolves to the same descriptor. -/
theorem integrity_of_history (src : ClassSource σ) (start : σ)
    (before between : List (Happening σ)) :
    let s := Happening.after src before (.empty, start)
    let s' := Happening.after src between s
    s'.1.Sound ∧ s.1.Extends s'.1 ∧
      ∀ loader, (∀ e ∈ between, e ≠ .operation (.evict loader)) →
        s.1.Lasts loader s'.1 ∧
          ∀ name id s₁, Yields src loader name id s s₁ →
            ∀ name', ClassName.internal name' = ClassName.internal name →
              let s₂ := Happening.after src between s₁
              (resolveRequired src name' loader).Ensures s₂ (fun r _ => r = .ok id) ∧
                (resolve src name' loader).Ensures s₂ fun r _ => r = some id := by
  intro s s'
  have hempty : Stands (fun _ _ _ => True) (fun _ => True) .empty ((.empty : Hierarchy), start) :=
    ⟨Extends.refl _, valid_empty, trivial⟩
  have hs : Stands _ _ .empty s := Happening.after_stands before hempty
  have hs' : Stands _ _ s.1 s' := Happening.after_stands between hs.self
  refine ⟨⟨hs'.valid.table, hs'.valid.linked⟩, hs'.later, fun loader hne => ⟨?_, ?_⟩⟩
  · exact Happening.after_lasts hne (Lasts.refl loader s.1)
  · intro name id s₁ hyields name' hname s₂
    have hc : s₂.1.current? (ClassName.internal name') loader = some id := by
      rw [hname]
      exact (Happening.after_lasts hne (Lasts.refl loader s₁.1)).current _ id hyields.current?
    have hagain := resolveRequired_of_current? src hc
    refine ⟨hagain.imp fun r _ h => h.1, ?_⟩
    rw [resolve_ensures_iff]
    refine hagain.imp fun r _ h => ?_
    rw [h.1]
    rfl

/-- A class that is known stays known when the source has lost it and another loader is evicted. -/
theorem integrity_of_history_lost_class :
    let source := MemorySource.ofList
      [⟨"p/A", none, .ok (some (ClassSketch.new "p/A").encode)⟩]
    let between : List (Happening MemorySource) :=
      [.change fun _ => MemorySource.ofList [], .operation (.evict ⟨2⟩)]
    let resolved := (resolveRequired MemorySource.source "p.A" ⟨1⟩).result.run
      (Happening.after MemorySource.source [.operation (.evict ⟨1⟩)] (.empty, source))
    resolved.value = .ok ⟨0⟩ ∧
      (resolveRequired MemorySource.source "p/A" ⟨1⟩).Ensures
        (Happening.after MemorySource.source between resolved.state) fun r _ => r = .ok ⟨0⟩ := by
  intro source between resolved
  have hok : resolved.value = .ok ⟨0⟩ := by decide +kernel
  have hne : ∀ e ∈ between, e ≠ .operation (.evict ⟨1⟩) := by
    intro e he
    rcases List.mem_cons.1 he with rfl | he
    · rintro ⟨⟩
    · rw [List.mem_singleton.1 he]
      simp
  have hlasting := (integrity_of_history MemorySource.source source [.operation (.evict ⟨1⟩)]
    between).2.2 ⟨1⟩ hne
  exact ⟨hok, (hlasting.2 "p.A" ⟨0⟩ resolved.state (Or.inl ⟨hok, rfl⟩) "p/A" (by decide +kernel)).1⟩

end Hierarchy

end Reclass
