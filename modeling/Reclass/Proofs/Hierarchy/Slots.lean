import Reclass.Proofs.Hierarchy.Assignability
import Reclass.Proofs.Hierarchy.History

/-!
# What becomes of a slot

Whoever asks for an ancestor settles its slot (`Hierarchy.ancestorRequired_persists`): from then on
it is linked, or it is empty, its name has no current descriptor and the source none to give
(`Hierarchy.Settled`). Both are for good, as long as the source gives the same answers: no query
and no eviction brings back what is missing, and no link is taken away (`Hierarchy.Persists`).
-/

set_option autoImplicit false

namespace Reclass

namespace Descriptor

variable {d : Descriptor} {slot : AncestorSlot} {target : DescriptorId} {name : String}

theorem length_interfaceLinks_fill (d : Descriptor) (slot : AncestorSlot) (target : DescriptorId) :
    (d.fill slot target).interfaceLinks.length = d.interfaceLinks.length := by
  unfold fill
  by_cases hs : (d.link slot).isSome
  · rw [if_pos hs]
  · rw [if_neg hs]
    cases slot with
    | superclass => rfl
    | interface i => exact List.length_set

/-- A declared slot takes a link. -/
theorem link_fill_self (hlength : d.interfaceLinks.length = d.interfaceNames.length)
    (hname : d.declared slot = some name) (hl : d.link slot = none) :
    (d.fill slot target).link slot = some target := by
  have hs : ¬ (d.link slot).isSome := by
    rw [hl]
    exact Bool.false_ne_true
  unfold fill
  rw [if_neg hs]
  cases slot with
  | superclass => rfl
  | interface i =>
    -- setting an entry beyond the end of the list would do nothing
    obtain ⟨hi, -⟩ := List.getElem?_eq_some_iff.1 hname
    show ((d.interfaceLinks.set i (some target))[i]?).join = some target
    rw [List.getElem?_set_self (by rw [hlength]; exact hi)]
    rfl

end Descriptor

namespace Hierarchy

variable {σ : Type} {src : ClassSource σ} {I : σ → Prop}
  {answer : String → LoaderId → Except ReadError (Option Bytes)} {h h' h₀ : Hierarchy}
  {s s' : Hierarchy × σ} {id : DescriptorId} {slot : AncestorSlot}
  {r r' : Except ResolutionError DescriptorId}

/-! ### Slots that are settled -/

/-- The type is not known, and the source tells why. -/
structure Missing (answer : String → LoaderId → Except ReadError (Option Bytes)) (h : Hierarchy)
    (name : String) (loader : LoaderId) (e : ResolutionError) : Prop where
  current : h.current? name loader = none
  told : typeFacts answer loader name = .error e

/-- What has become of a slot: it is linked, or it is empty and its name leads nowhere. -/
def Settled (answer : String → LoaderId → Except ReadError (Option Bytes)) (h : Hierarchy)
    (id : DescriptorId) (slot : AncestorSlot) : Except ResolutionError DescriptorId → Prop
  | .ok target => ∃ d, h.descriptor? id = some d ∧ d.link slot = some target
  | .error e => ∃ d name, h.descriptor? id = some d ∧ d.declared slot = some name ∧
      d.link slot = none ∧ Missing answer h (ClassName.internal name) d.loader e

/-- What an ancestor comes to that is settled, given the name declared for it. -/
def SettledAncestor (answer : String → LoaderId → Except ReadError (Option Bytes)) (h : Hierarchy)
    (id : DescriptorId) (slot : AncestorSlot) :
    Option String → Except ResolutionError (Option DescriptorId) → Prop
  | none, r => r = .ok none
  | some _, r => ∃ r', r = r'.map some ∧ Settled answer h id slot r'

theorem Settled.unique (hr : Settled answer h id slot r) (hr' : Settled answer h id slot r') :
    r = r' := by
  -- a slot is not both linked and empty, and the source tells one failure of a name
  match r, r', hr, hr' with
  | .ok _, .ok _, ⟨d, hd, hl⟩, ⟨d', hd', hl'⟩ =>
    rw [hd] at hd'
    cases hd'
    rw [hl] at hl'
    rw [Option.some.inj hl']
  | .ok _, .error _, ⟨d, hd, hl⟩, ⟨d', _, hd', _, hl', _⟩ =>
    rw [hd] at hd'
    cases hd'
    cases hl.symm.trans hl'
  | .error _, .ok _, ⟨d', _, hd', _, hl', _⟩, ⟨d, hd, hl⟩ =>
    rw [hd] at hd'
    cases hd'
    cases hl.symm.trans hl'
  | .error _, .error _, ⟨d, _, hd, hname, _, hmissing⟩, ⟨d', _, hd', hname', _, hmissing'⟩ =>
    rw [hd] at hd'
    cases hd'
    rw [hname] at hname'
    cases hname'
    rw [Except.error.inj (hmissing.told.symm.trans hmissing'.told)]

theorem SettledAncestor.unique {declared : Option String}
    {v v' : Except ResolutionError (Option DescriptorId)}
    (hv : SettledAncestor answer h id slot declared v)
    (hv' : SettledAncestor answer h id slot declared v') : v = v' := by
  cases declared with
  | none => exact Eq.trans hv (Eq.symm hv')
  | some name =>
    obtain ⟨r, rfl, hr⟩ := hv
    obtain ⟨r', rfl, hr'⟩ := hv'
    rw [hr.unique hr']

theorem SettledAncestor.mono {declared : Option String}
    {v : Except ResolutionError (Option DescriptorId)}
    (hv : SettledAncestor answer h id slot declared v)
    (ht : ∀ r, Settled answer h id slot r → Settled answer h' id slot r) :
    SettledAncestor answer h' id slot declared v := by
  cases declared with
  | none => exact hv
  | some name =>
    obtain ⟨r, rfl, hr⟩ := hv
    exact ⟨r, rfl, ht r hr⟩

/-- An ancestor is found unless it is declared and its slot stayed empty. -/
theorem SettledAncestor.eq_ok_iff {declared : Option String}
    {v : Except ResolutionError (Option DescriptorId)}
    (hv : SettledAncestor answer h id slot declared v) :
    (∃ found, v = .ok found) ↔
      ∀ name, declared = some name → ∃ target, Settled answer h id slot (.ok target) := by
  cases declared with
  | none => exact iff_of_true ⟨none, hv⟩ nofun
  | some name =>
    obtain ⟨r, rfl, hr⟩ := hv
    cases r with
    | ok target => exact iff_of_true ⟨some target, rfl⟩ fun _ _ => ⟨target, hr⟩
    | error e =>
      refine iff_of_false nofun fun h => ?_
      obtain ⟨target, hl⟩ := h name rfl
      cases hr.unique hl

/-- A type that is built is not missing. -/
theorem Missing.insert {name : String} {l : LoaderId} {e : ResolutionError}
    (hm : Missing answer h name l e) {header : ClassHeader} {loader : LoaderId}
    (hfact : typeFacts answer loader header.name = .ok header) :
    Missing answer (h.insert (Descriptor.ofHeader header loader)).2 name l e where
  current := by
    rw [current?_insert, hm.current, Option.none_or]
    -- the source has a header for the one and a failure for the other
    refine if_neg fun hkey => ?_
    obtain ⟨rfl, rfl⟩ := Prod.mk.inj hkey
    cases hm.told.symm.trans hfact
  told := hm.told

theorem Missing.evict {name : String} {l : LoaderId} {e : ResolutionError}
    (hm : Missing answer h name l e) (loader : LoaderId) :
    Missing answer (h.evict loader) name l e where
  current := by
    -- a table with fewer entries
    have hnone := hm.current
    unfold current? at hnone ⊢
    rw [List.lookup_eq_none_iff] at hnone ⊢
    exact fun entry hentry => hnone entry (List.mem_filter.1 hentry).1
  told := hm.told

theorem Settled.insert (hr : Settled answer h id slot r) {header : ClassHeader} {loader : LoaderId}
    (hfact : typeFacts answer loader header.name = .ok header) :
    Settled answer (h.insert (Descriptor.ofHeader header loader)).2 id slot r := by
  match r, hr with
  | .ok _, ⟨d, hd, hl⟩ => exact ⟨d, descriptor?_insert_of_some _ hd, hl⟩
  | .error _, ⟨d, name, hd, hname, hl, hmissing⟩ =>
    exact ⟨d, name, descriptor?_insert_of_some _ hd, hname, hl, hmissing.insert hfact⟩

/-- Only a slot whose name is known is filled. -/
theorem Settled.fill (hr : Settled answer h id slot r) {id' target : DescriptorId}
    {d' : Descriptor} {slot' : AncestorSlot} {name' : String} (hd' : h.descriptor? id' = some d')
    (hname' : d'.declared slot' = some name')
    (hc : h.current? (ClassName.internal name') d'.loader = some target) :
    Settled answer (h.fill id' slot' target) id slot r := by
  match r, hr with
  | .ok t, ⟨d, hd, hl⟩ =>
    obtain ⟨d₁, hd₁, hdd₁⟩ := extends_fill h id' slot' target id d hd
    exact ⟨d₁, hd₁, hdd₁.link slot t hl⟩
  | .error e, ⟨d, name, hd, hname, hl, hmissing⟩ =>
    have hfill := descriptor?_fill h id' slot' target id
    rw [hd, Option.map_some] at hfill
    refine ⟨_, name, hfill, ?_⟩
    by_cases hid : id' = id
    · subst hid
      obtain rfl : d = d' := Option.some.inj (hd.symm.trans hd')
      have hdd := Descriptor.extends_fill d slot' target
      rw [if_pos rfl, hdd.declared, hdd.loader]
      refine ⟨hname, ?_, hmissing.current, hmissing.told⟩
      cases hl' : (d.fill slot' target).link slot with
      | none => rfl
      | some t =>
        rcases Descriptor.link_fill hl' with hold | ⟨rfl, -⟩
        · cases hl.symm.trans hold
        · -- the name of the slot is missing, so it is not this one that is filled
          rw [hname] at hname'
          cases hname'
          cases hmissing.current.symm.trans hc
    · rw [if_neg hid]
      exact ⟨hname, hl, hmissing.current, hmissing.told⟩

theorem Settled.evict (hr : Settled answer h id slot r) (loader : LoaderId) :
    Settled answer (h.evict loader) id slot r := by
  match r, hr with
  | .ok _, hr => exact hr
  | .error _, ⟨d, name, hd, hname, hl, hmissing⟩ =>
    exact ⟨d, name, hd, hname, hl, hmissing.evict loader⟩

/-- The name of an empty slot fails to resolve, as it did. -/
theorem Settled.resolveRequired (hsrc : src.Tells I (Told answer)) (hs : I s.2)
    {e : ResolutionError} (hr : Settled answer s.1 id slot (.error e)) {d : Descriptor}
    {name : String} (hd : s.1.descriptor? id = some d) (hname : d.declared slot = some name) :
    (resolveRequired src name d.loader).Ensures s fun r _ => r = .error e := by
  obtain ⟨d', name', hd', hname', -, hmissing⟩ := hr
  rw [hd] at hd'
  cases hd'
  rw [hname] at hname'
  cases hname'
  refine resolveRequired_ensures_of (fun id hc => ?_) fun _ => ?_
  · cases hmissing.current.symm.trans hc
  · refine (hsrc.read _ d.loader s.2 hs).imp fun r s' h => ?_
    rw [show ClassHeader.ofAnswer (ClassName.internal name) d.loader r = .error e from
      h.1.trans hmissing.told]

theorem Settled.resolveRequired_iff (hsrc : src.Tells I (Told answer)) (hs : I s.2)
    {e : ResolutionError} (hr : Settled answer s.1 id slot (.error e)) {d d' : Descriptor}
    {name : String} (hd' : s.1.descriptor? id = some d') (hdd' : d.Extends d')
    (hname : d.declared slot = some name) (e' : ResolutionError) :
    (Hierarchy.resolveRequired src name d.loader).Ensures s (fun r _ => r = .error e') ↔
      e = e' := by
  rw [← hdd'.declared] at hname
  rw [← hdd'.loader]
  have hvalue : ((Hierarchy.resolveRequired src name d'.loader).result.run s).value = .error e :=
    hr.resolveRequired hsrc hs hd' hname
  show ((Hierarchy.resolveRequired src name d'.loader).result.run s).value = .error e' ↔ _
  rw [hvalue, Except.error.injEq]

/-! ### One link for each interface -/

/-- Every descriptor has a place for a link to each of its interfaces. -/
def Shaped (h : Hierarchy) : Prop :=
  ∀ id d, h.descriptor? id = some d → d.interfaceLinks.length = d.interfaceNames.length

theorem shaped_empty : empty.Shaped := fun _ _ hd => by cases hd

theorem Shaped.insert (hs : h.Shaped) (header : ClassHeader) (loader : LoaderId) :
    (h.insert (Descriptor.ofHeader header loader)).2.Shaped := by
  intro id d hd
  rw [descriptor?_insert] at hd
  by_cases hid : id.number = h.descriptors.size
  · rw [if_pos hid] at hd
    cases hd
    exact List.length_map _
  · rw [if_neg hid] at hd
    exact hs id d hd

theorem Shaped.fill (hs : h.Shaped) (id : DescriptorId) (slot : AncestorSlot)
    (target : DescriptorId) : (h.fill id slot target).Shaped := by
  intro id' d hd
  rw [descriptor?_fill] at hd
  obtain ⟨d₀, hd₀, rfl⟩ := Option.map_eq_some_iff.1 hd
  by_cases hid : id = id'
  · rw [if_pos hid, Descriptor.length_interfaceLinks_fill,
      (Descriptor.extends_fill d₀ slot target).interfaceNames]
    exact hs id' d₀ hd₀
  · rw [if_neg hid]
    exact hs id' d₀ hd₀

theorem after_shaped (src : ClassSource σ) (history : List (Happening σ)) (hs : s.1.Shaped) :
    (Happening.after src history s).1.Shaped := by
  have hkept : Maintains src fun s => s.1.Shaped :=
    maintains_of_updates (fun _ header loader _ hs => hs.insert header loader)
      fun _ id slot target hs => hs.fill id slot target
  induction history generalizing s with
  | nil => exact hs
  | cons e history ih =>
    refine ih (s := ((e.perform src).run s).state) ?_
    cases e with
    | change f => exact hs
    | operation op => exact op.perform_maintains hkept (fun _ _ _ hs => hs) s hs

/-! ### What is settled stays so -/

/-- A state that a resolver may be in after it had the descriptors `h₀`, while its source gave the
same answers. -/
structure Persists (answer : String → LoaderId → Except ReadError (Option Bytes)) (I : σ → Prop)
    (h₀ : Hierarchy) (s : Hierarchy × σ) : Prop where
  later : h₀.Extends s.1
  settled : ∀ id slot r, Settled answer h₀ id slot r → Settled answer s.1 id slot r
  shaped : s.1.Shaped
  source : I s.2

theorem Persists.self (hs : Persists answer I h₀ s) : Persists answer I s.1 s :=
  ⟨Extends.refl s.1, fun _ _ _ hr => hr, hs.shaped, hs.source⟩

theorem Persists.trans (hs : Persists answer I h₀ s) (hs' : Persists answer I s.1 s') :
    Persists answer I h₀ s' :=
  ⟨hs.later.trans hs'.later, fun id slot r hr => hs'.settled id slot r (hs.settled id slot r hr),
    hs'.shaped, hs'.source⟩

/-- Resolving a name touches no descriptor. The name is known after that, or it is missing. -/
theorem resolveRequired_persists (hsrc : src.Tells I (Told answer))
    (hs : Persists answer I h₀ s) (name : String) (loader : LoaderId) :
    (resolveRequired src name loader).Ensures s fun r s' => Persists answer I h₀ s' ∧
      (∀ id d, s.1.descriptor? id = some d → s'.1.descriptor? id = some d) ∧ match r with
        | .ok target => s'.1.current? (ClassName.internal name) loader = some target
        | .error e => Missing answer s'.1 (ClassName.internal name) loader e := by
  refine resolveRequired_ensures_of (fun id hc => ⟨hs, fun _ _ hd => hd, hc⟩) fun hc => ?_
  refine (hsrc.read _ loader s.2 hs.source).imp fun r s' h => ?_
  obtain ⟨hfact, hsource⟩ := h
  cases ho : ClassHeader.ofAnswer (ClassName.internal name) loader r with
  | error e =>
    rw [ho] at hfact
    exact ⟨⟨hs.later, hs.settled, hs.shaped, hsource⟩, fun _ _ hd => hd, hc, hfact.symm⟩
  | ok header =>
    -- the header has the name that was asked for
    intro hname
    rw [ho] at hfact
    rw [← hname] at hfact hc ⊢
    refine ⟨⟨hs.later.trans (extends_insert s.1 _), fun id slot r hr => ?_,
      hs.shaped.insert header loader, hsource⟩, fun _ _ hd => descriptor?_insert_of_some _ hd,
      current?_insert_self hc⟩
    exact (hs.settled id slot r hr).insert hfact.symm

/-- **Whoever asks for an ancestor settles its slot.** -/
theorem ancestorRequired_persists (hsrc : src.Tells I (Told answer)) (hs : Persists answer I h₀ s)
    (id : DescriptorId) (slot : AncestorSlot) :
    (ancestorRequired src id slot).Ensures s fun r s' => Persists answer I h₀ s' ∧
      ∀ d, s.1.descriptor? id = some d →
        SettledAncestor answer s'.1 id slot (d.declared slot) r := by
  refine ancestorRequired_ensures_of ?_ ?_ ?_ ?_
  · intro hnone
    refine ⟨hs, fun d hd => ?_⟩
    cases hnone.symm.trans hd
  · intro d hd hname
    simp only [hd, Option.some.injEq, forall_eq', hname]
    exact ⟨hs, rfl⟩
  · intro d name target hd hname hl
    simp only [hd, Option.some.injEq, forall_eq', hname]
    exact ⟨hs, .ok target, rfl, d, hd, hl⟩
  · intro d name hd hname hl
    simp only [hd, Option.some.injEq, forall_eq', hname]
    refine (resolveRequired_persists hsrc hs name d.loader).imp fun r s' h => ?_
    obtain ⟨hs', hsame, hr⟩ := h
    have hd' := hsame id d hd
    cases r with
    | error e => exact ⟨hs', .error e, rfl, d, name, hd', hname, hl, hr⟩
    | ok target =>
      -- the name is known by now, so no other slot is empty for want of it
      refine ⟨⟨hs'.later.trans (extends_fill _ _ _ _), fun id₁ slot₁ r₁ hr₁ => ?_,
        hs'.shaped.fill id slot target, hs'.source⟩, .ok target, rfl, ?_⟩
      · exact (hs'.settled id₁ slot₁ r₁ hr₁).fill hd' hname hr
      · have hfilled : (s'.1.fill id slot target).descriptor? id = some (d.fill slot target) := by
          rw [descriptor?_fill, hd', Option.map_some, if_pos rfl]
        exact ⟨_, hfilled, Descriptor.link_fill_self (hs'.shaped id d hd') hname hl⟩

theorem persists_maintained (hsrc : src.Tells I (Told answer)) :
    Maintains src (Persists answer I h₀) where
  reach s hs := by
    rw [Hierarchy.reach]
    simp only [Act.ensures_bind, Act.ensures_zoom, Act.ensures_gets]
    exact (hsrc.reach s.2 hs.source).imp fun _ _ h => ⟨hs.later, hs.settled, hs.shaped, h⟩
  resolveRequired name loader _ hs :=
    (resolveRequired_persists hsrc hs name loader).imp fun _ _ h => h.1
  ancestorRequired id slot _ hs :=
    (ancestorRequired_persists hsrc hs id slot).imp fun _ _ h => h.1

theorem after_persists (hsrc : src.Tells I (Told answer)) (ops : List Operation)
    (hs : Persists answer I h₀ s) : Persists answer I h₀ (Operation.after src ops s) := by
  induction ops generalizing s with
  | nil => exact hs
  | cons op ops ih =>
    refine ih (op.perform_maintains (persists_maintained hsrc) (fun loader _ s hs => ?_) s hs)
    exact ⟨hs.later, fun id slot r hr => (hs.settled id slot r hr).evict loader, hs.shaped,
      hs.source⟩

end Hierarchy

end Reclass
