import Reclass.Proofs.Hierarchy.Slots

/-!
# Optional and required links

A link can be asked for in two ways: with a failure that counts, or with one that is passed over.
Interfaces are asked for all at once, and there the first way stops where the second goes on. While
the source does not change the two agree, in whichever order they are asked, on a descriptor that
is current or forgotten, with links filled long ago from another source or not at all
(`Hierarchy.required_links_agree`).

A question settles the slots that it comes to, and what has become of a slot stays so. So each
answer can be read off the slots as they are in the end, where the answers are compared: the
optional interfaces are the slots one by one (`Hierarchy.interfaces_settled`), and the required ones
are the slots up to the first that is empty (`Hierarchy.requiredInterfaces_gathers`).
-/

set_option autoImplicit false

namespace Reclass

section Results

variable {ε α : Type}

theorem except_mapM_self_cons_ok (a : α) (rs : List (Except ε α)) :
    ((Except.ok a :: rs).mapM fun r => r) = (rs.mapM fun r => r).map (a :: ·) := by
  rw [List.mapM_cons]
  cases rs.mapM fun r => r with
  | ok v => rfl
  | error e => rfl

theorem except_mapM_self_cons_error (e : ε) (rs : List (Except ε α)) :
    ((Except.error e :: rs).mapM fun r => r) = .error e := by
  rw [List.mapM_cons]
  rfl

theorem except_mapM_self_eq_ok_iff (rs : List (Except ε α)) (v : List α) :
    (rs.mapM fun r => r) = .ok v ↔ rs.map Except.toOption = v.map some := by
  induction rs generalizing v with
  | nil =>
    cases v with
    | nil => exact iff_of_true rfl rfl
    | cons a v => exact iff_of_false nofun nofun
  | cons r rs ih =>
    cases r with
    | error e =>
      rw [except_mapM_self_cons_error]
      cases v with
      | nil => exact iff_of_false nofun nofun
      | cons a v => exact iff_of_false nofun nofun
    | ok a =>
      rw [except_mapM_self_cons_ok, except_map_eq_ok_iff]
      simp only [ih, List.map_cons, Except.toOption]
      constructor
      · rintro ⟨v, hv, rfl⟩
        rw [hv, List.map_cons]
      · intro h
        cases v with
        | nil => cases h
        | cons b v =>
          obtain ⟨hab, hv⟩ := List.cons.inj h
          exact ⟨v, hv, by rw [Option.some.inj hab]⟩

/-- The first failure counts. -/
theorem except_mapM_self_eq_error_iff (rs : List (Except ε α)) (e : ε) :
    (rs.mapM fun r => r) = .error e ↔
      ∃ k, (rs.map Except.toOption).findIdx? Option.isNone = some k ∧ rs[k]? = some (.error e) := by
  induction rs with
  | nil => exact iff_of_false nofun nofun
  | cons r rs ih =>
    rw [List.map_cons, List.findIdx?_cons]
    cases r with
    | error e' =>
      rw [except_mapM_self_cons_error]
      simp [Except.toOption]
    | ok a =>
      -- the place in the list is one further on than in its rest
      rw [except_mapM_self_cons_ok, except_map_eq_error_iff, ih]
      simp only [Except.toOption, Option.isNone_some, Bool.false_eq_true, if_false,
        Option.map_eq_some_iff]
      constructor
      · rintro ⟨k, hk, he⟩
        exact ⟨k + 1, ⟨k, hk, rfl⟩, he⟩
      · rintro ⟨_, ⟨k, hk, rfl⟩, he⟩
        exact ⟨k, hk, he⟩

theorem exists_error_of_findIdx? {rs : List (Except ε α)} {k : Nat}
    (h : (rs.map Except.toOption).findIdx? Option.isNone = some k) :
    ∃ e, rs[k]? = some (.error e) := by
  obtain ⟨hk, hnone, -⟩ := List.findIdx?_eq_some_iff_getElem.1 h
  rw [List.getElem_map] at hnone
  rw [List.length_map] at hk
  rw [List.getElem?_eq_getElem hk]
  cases hr : rs[k] with
  | ok a =>
    rw [hr] at hnone
    cases hnone
  | error e => exact ⟨e, rfl⟩

end Results

namespace Descriptor

variable {d : Descriptor} {slot : AncestorSlot}

/-- The interface slots are those, apart from the one for the super class, that declare a name. -/
theorem mem_interfaceSlots_iff :
    slot ∈ d.interfaceSlots ↔ slot ≠ .superclass ∧ ∃ name, d.declared slot = some name := by
  rw [interfaceSlots, List.mem_map]
  simp only [List.mem_range]
  constructor
  · rintro ⟨i, hi, rfl⟩
    refine ⟨?_, d.interfaceNames[i], List.getElem?_eq_getElem hi⟩
    rintro ⟨⟩
  · rintro ⟨hne, name, hname⟩
    cases slot with
    | superclass => exact absurd rfl hne
    | interface i => exact ⟨i, (List.getElem?_eq_some_iff.1 hname).1, rfl⟩

theorem Extends.interfaceSlots {d' : Descriptor} (h : d.Extends d') :
    d'.interfaceSlots = d.interfaceSlots := by
  rw [Descriptor.interfaceSlots, Descriptor.interfaceSlots, h.interfaceNames]

/-- A descriptor is fully linked when every slot that declares a name is linked. -/
theorem isFullyLinked_iff (hlength : d.interfaceLinks.length = d.interfaceNames.length) :
    d.isFullyLinked = true ↔
      ∀ slot name, d.declared slot = some name → ∃ target, d.link slot = some target := by
  rw [isFullyLinked, Bool.and_eq_true, Bool.or_eq_true, List.all_eq_true]
  constructor
  · rintro ⟨hsuper, hinterfaces⟩ slot name hname
    cases slot with
    | superclass =>
      rcases hsuper with hsuper | hsuper
      · rw [show d.superName = some name from hname] at hsuper
        cases hsuper
      · exact Option.isSome_iff_exists.1 hsuper
    | interface i =>
      obtain ⟨hi, -⟩ := List.getElem?_eq_some_iff.1 hname
      -- a name at this place means that there is a place for a link too
      have hi' : i < d.interfaceLinks.length := by
        rw [hlength]
        exact hi
      obtain ⟨target, htarget⟩ := Option.isSome_iff_exists.1 (hinterfaces _ (List.getElem_mem hi'))
      refine ⟨target, ?_⟩
      rw [link, List.getElem?_eq_getElem hi', htarget]
      rfl
  · intro hlinked
    constructor
    · cases hsuper : d.superName with
      | none => exact Or.inl rfl
      | some name => exact Or.inr (Option.isSome_iff_exists.2 (hlinked .superclass name hsuper))
    · intro l hl
      obtain ⟨i, hi, rfl⟩ := List.getElem_of_mem hl
      -- and no link is without a name
      have hname := List.getElem?_eq_getElem (l := d.interfaceNames) (i := i) (by omega)
      obtain ⟨target, htarget⟩ := hlinked (.interface i) _ hname
      rw [link, List.getElem?_eq_getElem hi] at htarget
      exact Option.isSome_iff_exists.2 ⟨target, htarget⟩

end Descriptor

namespace Hierarchy

variable {σ : Type} {src : ClassSource σ} {I : σ → Prop}
  {answer : String → LoaderId → Except ReadError (Option Bytes)} {h h₀ : Hierarchy}
  {s : Hierarchy × σ} {id : DescriptorId}

/-! ### Interfaces in order -/

/-- What following slots in order comes to: their links, or the first failure. -/
inductive Gathers (settled : AncestorSlot → Except ResolutionError DescriptorId → Prop) :
    List AncestorSlot → Except ResolutionError (List DescriptorId) → Prop
  | nil : Gathers settled [] (.ok [])
  | failure {slot : AncestorSlot} {slots : List AncestorSlot} {e : ResolutionError} :
      settled slot (.error e) → Gathers settled (slot :: slots) (.error e)
  | link {slot : AncestorSlot} {slots : List AncestorSlot} {target : DescriptorId}
      {r : Except ResolutionError (List DescriptorId)} : settled slot (.ok target) →
      Gathers settled slots r → Gathers settled (slot :: slots) (r.map (target :: ·))

section Gathers

variable {settled settled' : AncestorSlot → Except ResolutionError DescriptorId → Prop}
  {slots : List AncestorSlot} {rs : List (Except ResolutionError DescriptorId)}
  {v : Except ResolutionError (List DescriptorId)}

theorem Gathers.mono (hg : Gathers settled slots v)
    (h : ∀ slot r, settled slot r → settled' slot r) : Gathers settled' slots v := by
  induction hg with
  | nil => exact Gathers.nil
  | failure hr => exact Gathers.failure (h _ _ hr)
  | link hr _ ih => exact Gathers.link (h _ _ hr) ih

theorem Gathers.eq_mapM (hunique : ∀ slot r r', settled slot r → settled slot r' → r = r')
    (hrs : List.Forall₂ settled slots rs) (hg : Gathers settled slots v) :
    v = rs.mapM fun r => r := by
  induction hg generalizing rs with
  | nil =>
    cases hrs
    rfl
  | failure he =>
    cases hrs with
    | cons hr _ => rw [← hunique _ _ _ he hr, except_mapM_self_cons_error]
  | link hl _ ih =>
    cases hrs with
    | cons hr hrs => rw [← hunique _ _ _ hl hr, ih hrs, except_mapM_self_cons_ok]

theorem Gathers.eq_ok_iff (hunique : ∀ slot r r', settled slot r → settled slot r' → r = r')
    (hg : Gathers settled slots v) :
    (∃ targets, v = .ok targets) ↔ ∀ slot ∈ slots, ∃ target, settled slot (.ok target) := by
  induction hg with
  | nil => exact iff_of_true ⟨[], rfl⟩ fun _ h => absurd h List.not_mem_nil
  | @failure slot slots e he =>
    refine iff_of_false nofun fun h => ?_
    obtain ⟨target, hl⟩ := h slot List.mem_cons_self
    cases hunique slot _ _ he hl
  | @link slot slots target r hl _ ih =>
    rw [List.forall_mem_cons, ← ih]
    refine Iff.trans ?_ (and_iff_right ⟨target, hl⟩).symm
    cases r with
    | ok targets => exact iff_of_true ⟨_, rfl⟩ ⟨_, rfl⟩
    | error e => exact iff_of_false nofun nofun

end Gathers

/-! ### Queries -/

theorem slotsOf_ensures {d : Descriptor} (hd : s.1.descriptor? id = some d) :
    (slotsOf id).Ensures s fun slots s' => slots = d.interfaceSlots ∧ s' = s := by
  rw [slotsOf, Act.ensures_bind, lookup, Act.ensures_gets, hd]
  exact ⟨rfl, rfl⟩

/-- The slots are among those in which the descriptor declares a name. -/
def Declares (h : Hierarchy) (id : DescriptorId) (slots : List AncestorSlot) : Prop :=
  ∃ d, h.descriptor? id = some d ∧ ∀ slot ∈ slots, ∃ name, d.declared slot = some name

theorem declares_interfaceSlots {d : Descriptor} (hd : s.1.descriptor? id = some d) :
    s.1.Declares id d.interfaceSlots :=
  ⟨d, hd, fun _ hslot => (Descriptor.mem_interfaceSlots_iff.1 hslot).2⟩

/-- The first of several slots is settled, and what the others declare stays. -/
theorem ancestorRequired_of_declares (hsrc : src.Tells I (Told answer))
    {slot : AncestorSlot} {slots : List AncestorSlot} (hs : Persists answer I h₀ s)
    (hslots : s.1.Declares id (slot :: slots)) :
    (ancestorRequired src id slot).Ensures s fun r s' => Persists answer I s.1 s' ∧
      s'.1.Declares id slots ∧ ∃ r', r = r'.map some ∧ Settled answer s'.1 id slot r' := by
  obtain ⟨d, hd, hslots⟩ := hslots
  obtain ⟨⟨name, hname⟩, hslots⟩ := List.forall_mem_cons.1 hslots
  refine (ancestorRequired_persists hsrc hs.self id slot).imp fun r s' h => ?_
  obtain ⟨hs', hall⟩ := h
  obtain ⟨d', hd', hdd'⟩ := hs'.later id d hd
  refine ⟨hs', ⟨d', hd', ?_⟩, ?_⟩
  · simpa only [hdd'.declared] using hslots
  · have hslot := hall d hd
    rw [hname] at hslot
    exact hslot

theorem mapM_ancestorRequired_gathers (hsrc : src.Tells I (Told answer)) {slots : List AncestorSlot}
    (hs : Persists answer I h₀ s) (hslots : s.1.Declares id slots) :
    (slots.mapM fun slot => ancestorRequired src id slot).Ensures s fun r s' =>
      Persists answer I h₀ s' ∧
        ∃ v, r = v.map (List.map some) ∧ Gathers (Settled answer s'.1 id) slots v := by
  induction slots generalizing s h₀ with
  | nil =>
    rw [List.mapM_nil, Attempt.ensures_pure]
    exact ⟨hs, .ok [], rfl, Gathers.nil⟩
  | cons slot slots ih =>
    rw [List.mapM_cons, Attempt.ensures_bind]
    refine (ancestorRequired_of_declares hsrc hs hslots).imp fun r s' h => ?_
    obtain ⟨hs', hslots', r', rfl, hr⟩ := h
    cases r' with
    | error e => exact ⟨hs.trans hs', .error e, rfl, Gathers.failure hr⟩
    | ok target =>
      -- the search goes on behind a link
      show (slots.mapM (fun slot => ancestorRequired src id slot) >>= _ :
        Attempt (Hierarchy × σ) ResolutionError _).Ensures s' _
      rw [Attempt.ensures_bind]
      refine (ih hs'.self hslots').imp fun r s'' h => ?_
      obtain ⟨hs'', v, rfl, hv⟩ := h
      -- the first slot is linked still when the others have been followed
      have hlink := Gathers.link (hs''.settled id slot _ hr) hv
      cases v with
      | ok targets => exact ⟨hs.trans (hs'.trans hs''), .ok (target :: targets), rfl, hlink⟩
      | error e => exact ⟨hs.trans (hs'.trans hs''), .error e, rfl, hlink⟩

/-- The required interfaces are the slots up to the first that is empty. -/
theorem requiredInterfaces_gathers (hsrc : src.Tells I (Told answer)) (hs : Persists answer I h₀ s)
    {d : Descriptor} (hd : s.1.descriptor? id = some d) :
    (requiredInterfaces src id).Ensures s fun r s' =>
      Persists answer I h₀ s' ∧ Gathers (Settled answer s'.1 id) d.interfaceSlots r := by
  rw [requiredInterfaces, Attempt.ensures_bind, Attempt.ensures_act]
  refine (slotsOf_ensures hd).imp ?_
  rintro slots s₁ ⟨rfl, rfl⟩
  dsimp only
  rw [Attempt.ensures_bind]
  refine (mapM_ancestorRequired_gathers hsrc hs (declares_interfaceSlots hd)).imp ?_
  rintro _ s' ⟨hs', v, rfl, hv⟩
  cases v with
  | error e => exact ⟨hs', hv⟩
  | ok targets =>
    -- every slot that was followed declares a name, so none is left out
    have hfound : (targets.map some).filterMap (fun target => target) = targets := by simp
    show Persists answer I h₀ s' ∧
      Gathers (Settled answer s'.1 id) d.interfaceSlots (.ok ((targets.map some).filterMap _))
    rw [hfound]
    exact ⟨hs', hv⟩

theorem mapM_ancestor_settled (hsrc : src.Tells I (Told answer)) {slots : List AncestorSlot}
    (hs : Persists answer I h₀ s) (hslots : s.1.Declares id slots) :
    (slots.mapM fun slot => ancestor src id slot).Ensures s fun found s' =>
      Persists answer I h₀ s' ∧
        ∃ rs, List.Forall₂ (Settled answer s'.1 id) slots rs ∧ found = rs.map Except.toOption := by
  induction slots generalizing s h₀ with
  | nil =>
    rw [List.mapM_nil, Act.ensures_pure]
    exact ⟨hs, [], List.Forall₂.nil, rfl⟩
  | cons slot slots ih =>
    rw [List.mapM_cons, Act.ensures_bind, ancestor_ensures_iff]
    refine (ancestorRequired_of_declares hsrc hs hslots).imp fun r s' h => ?_
    obtain ⟨hs', hslots', r', rfl, hr⟩ := h
    -- with or without a failure the others are followed
    rw [Act.ensures_bind]
    refine (ih hs'.self hslots').imp fun found s'' h => ?_
    obtain ⟨hs'', rs, hrs, rfl⟩ := h
    rw [Act.ensures_pure]
    refine ⟨hs.trans (hs'.trans hs''), r' :: rs, hrs.cons (hs''.settled id slot r' hr), ?_⟩
    cases r' with
    | ok target => rfl
    | error e => rfl

/-- The optional interfaces are the slots, with no failure told. -/
theorem interfaces_settled (hsrc : src.Tells I (Told answer)) (hs : Persists answer I h₀ s)
    {d : Descriptor} (hd : s.1.descriptor? id = some d) :
    (interfaces src id).Ensures s fun found s' => Persists answer I h₀ s' ∧
      ∃ rs, List.Forall₂ (Settled answer s'.1 id) d.interfaceSlots rs ∧
        found = rs.map Except.toOption := by
  rw [interfaces, Act.ensures_bind]
  refine (slotsOf_ensures hd).imp ?_
  rintro slots s₁ ⟨rfl, rfl⟩
  exact mapM_ancestor_settled hsrc hs (declares_interfaceSlots hd)

theorem requiredSuperclass_settled (hsrc : src.Tells I (Told answer)) (hs : Persists answer I h₀ s)
    {d : Descriptor} (hd : s.1.descriptor? id = some d) :
    (requiredSuperclass src id).Ensures s fun r s' => Persists answer I h₀ s' ∧
      SettledAncestor answer s'.1 id .superclass d.superName r :=
  (ancestorRequired_persists hsrc hs id .superclass).imp fun _ _ h => ⟨h.1, h.2 d hd⟩

theorem superclass_settled (hsrc : src.Tells I (Told answer)) (hs : Persists answer I h₀ s)
    {d : Descriptor} (hd : s.1.descriptor? id = some d) :
    (superclass src id).Ensures s fun found s' => Persists answer I h₀ s' ∧
      ∃ r, SettledAncestor answer s'.1 id .superclass d.superName r ∧
        found = r.toOption.join := by
  rw [superclass, ancestor_ensures_iff]
  exact (requiredSuperclass_settled hsrc hs hd).imp fun r _ h => ⟨h.1, r, h.2, rfl⟩

end Hierarchy

/-- The operations after one of them start from where it ends. -/
theorem Operation.after_of_getElem? {σ : Type} {src : ClassSource σ} {ops : List Operation}
    {op : Operation} {i : Nat} (hop : ops[i]? = some op) (s : Hierarchy × σ) :
    after src ops s =
      after src (ops.drop (i + 1)) ((op.perform src).run (after src (ops.take i) s)).state := by
  obtain ⟨hi, rfl⟩ := List.getElem?_eq_some_iff.1 hop
  have hsplit : ops = ops.take i ++ ops[i] :: ops.drop (i + 1) := by
    rw [List.getElem_cons_drop, List.take_append_drop]
  conv_lhs => rw [hsplit, after, List.foldl_append, List.foldl_cons]
  rfl

namespace Hierarchy

variable {σ : Type} {src : ClassSource σ} {I : σ → Prop}
  {answer : String → LoaderId → Except ReadError (Option Bytes)} {h h₀ : Hierarchy}
  {s : Hierarchy × σ} {id : DescriptorId} {d : Descriptor}
  {rs : List (Except ResolutionError DescriptorId)}

/-- What is found out about slots by one of the operations holds when all have been done. -/
theorem holds_after {α : Type} {ops : List Operation} {op : Operation} {i : Nat}
    {x : Act (Hierarchy × σ) α} {Q : Descriptor → Hierarchy → α → Prop}
    (hsrc : src.Tells I (Told answer)) (hop : ops[i]? = some op)
    (hperform : op.perform src = x >>= fun _ => pure ())
    (hx : ∀ {s d}, Persists answer I s.1 s → s.1.descriptor? id = some d →
      x.Ensures s fun a s' => Persists answer I s.1 s' ∧ Q d s'.1 a)
    (hQ : ∀ {d d' h h' a}, d.Extends d' →
      (∀ slot r, Settled answer h id slot r → Settled answer h' id slot r) → Q d' h a → Q d h' a)
    (hs : Persists answer I h₀ s) (hd : s.1.descriptor? id = some d) :
    Q d (Operation.after src ops s).1 (x.run (Operation.after src (ops.take i) s)).value := by
  -- the query starts where the operations before it end, and those after it start where it ends
  have hbefore := after_persists hsrc (ops.take i) hs.self
  obtain ⟨d', hd', hdd'⟩ := hbefore.later id d hd
  obtain ⟨hs', hq⟩ := hx hbefore.self hd'
  have hlast := after_persists hsrc (ops.drop (i + 1)) hs'.self
  rw [Operation.after_of_getElem? hop, hperform]
  exact hQ hdd' (fun slot r hr => hlast.settled id slot r hr) hq

section Answers

variable {ops : List Operation} {i : Nat}

theorem interfaces_after (hsrc : src.Tells I (Told answer)) (hop : ops[i]? = some (.interfaces id))
    (hs : Persists answer I h₀ s) (hd : s.1.descriptor? id = some d) :
    ∃ rs, List.Forall₂ (Settled answer (Operation.after src ops s).1 id) d.interfaceSlots rs ∧
      ((interfaces src id).run (Operation.after src (ops.take i) s)).value =
        rs.map Except.toOption := by
  refine holds_after (x := interfaces src id) (Q := fun d h found =>
    ∃ rs, List.Forall₂ (Settled answer h id) d.interfaceSlots rs ∧ found = rs.map Except.toOption)
    hsrc hop rfl (fun hs hd => interfaces_settled hsrc hs hd) ?_ hs hd
  rintro d d' h h' _ hdd ht ⟨rs, hrs, rfl⟩
  rw [hdd.interfaceSlots] at hrs
  exact ⟨rs, hrs.imp fun slot r => ht slot r, rfl⟩

theorem requiredInterfaces_after (hsrc : src.Tells I (Told answer))
    (hop : ops[i]? = some (.requiredInterfaces id)) (hs : Persists answer I h₀ s)
    (hd : s.1.descriptor? id = some d) :
    Gathers (Settled answer (Operation.after src ops s).1 id) d.interfaceSlots
      ((requiredInterfaces src id).result.run (Operation.after src (ops.take i) s)).value := by
  refine holds_after (x := (requiredInterfaces src id).result) (Q := fun d h v =>
    Gathers (Settled answer h id) d.interfaceSlots v)
    hsrc hop rfl (fun hs hd => requiredInterfaces_gathers hsrc hs hd) ?_ hs hd
  intro d d' h h' v hdd ht hv
  rw [hdd.interfaceSlots] at hv
  exact hv.mono ht

theorem superclass_after (hsrc : src.Tells I (Told answer)) (hop : ops[i]? = some (.superclass id))
    (hs : Persists answer I h₀ s) (hd : s.1.descriptor? id = some d) :
    ∃ v, SettledAncestor answer (Operation.after src ops s).1 id .superclass d.superName v ∧
      ((superclass src id).run (Operation.after src (ops.take i) s)).value = v.toOption.join := by
  refine holds_after (x := superclass src id) (Q := fun d h found =>
    ∃ v, SettledAncestor answer h id .superclass d.superName v ∧ found = v.toOption.join)
    hsrc hop rfl (fun hs hd => superclass_settled hsrc hs hd) ?_ hs hd
  rintro d d' h h' _ hdd ht ⟨v, hv, rfl⟩
  rw [hdd.superName] at hv
  exact ⟨v, hv.mono (ht .superclass), rfl⟩

theorem requiredSuperclass_after (hsrc : src.Tells I (Told answer))
    (hop : ops[i]? = some (.requiredSuperclass id)) (hs : Persists answer I h₀ s)
    (hd : s.1.descriptor? id = some d) :
    SettledAncestor answer (Operation.after src ops s).1 id .superclass d.superName
      ((requiredSuperclass src id).result.run (Operation.after src (ops.take i) s)).value := by
  refine holds_after (x := (requiredSuperclass src id).result) (Q := fun d h v =>
    SettledAncestor answer h id .superclass d.superName v)
    hsrc hop rfl (fun hs hd => requiredSuperclass_settled hsrc hs hd) ?_ hs hd
  intro d d' h h' v hdd ht hv
  rw [hdd.superName] at hv
  exact hv.mono (ht .superclass)

end Answers

/-! ### Comparison -/

/-- What has become of the slot for an interface, which declares a name. -/
theorem settled_interface {k : Nat} {r : Except ResolutionError DescriptorId}
    (hrs : List.Forall₂ (Settled answer h id) d.interfaceSlots rs) (hk : rs[k]? = some r) :
    Settled answer h id (.interface k) r ∧ ∃ name, d.interfaceNames[k]? = some name := by
  obtain ⟨hlength, hall⟩ := List.forall₂_iff_get.1 hrs
  obtain ⟨hlt, rfl⟩ := List.getElem?_eq_some_iff.1 hk
  have hr := hall k (by omega) hlt
  have hnames : d.interfaceSlots.length = d.interfaceNames.length := by
    simp [Descriptor.interfaceSlots]
  have hslot : d.interfaceSlots.get ⟨k, by omega⟩ = .interface k := by
    simp [Descriptor.interfaceSlots]
  rw [hslot] at hr
  exact ⟨hr, _, List.getElem?_eq_getElem (by omega)⟩

section Comparison

variable {d' : Descriptor} {v : Except ResolutionError (List DescriptorId)}
  {w : Except ResolutionError (Option DescriptorId)}

/-- The required interfaces, compared with the optional ones. -/
theorem requiredInterfaces_iff (hsrc : src.Tells I (Told answer)) (hsource : I s.2)
    (hd' : s.1.descriptor? id = some d') (hdd' : d.Extends d')
    (hrs : List.Forall₂ (Settled answer s.1 id) d.interfaceSlots rs)
    (hv : Gathers (Settled answer s.1 id) d.interfaceSlots v) :
    (∀ targets, v = .ok targets ↔ rs.map Except.toOption = targets.map some) ∧
      ∀ e, v = .error e ↔ ∃ k name, (rs.map Except.toOption).findIdx? Option.isNone = some k ∧
        d.interfaceNames[k]? = some name ∧
          (resolveRequired src name d.loader).Ensures s fun r _ => r = .error e := by
  rw [hv.eq_mapM (fun _ _ _ hr hr' => hr.unique hr') hrs]
  refine ⟨except_mapM_self_eq_ok_iff rs, fun e => ?_⟩
  rw [except_mapM_self_eq_error_iff]
  constructor
  · rintro ⟨k, hk, he⟩
    obtain ⟨hsettled, name, hname⟩ := settled_interface hrs he
    exact ⟨k, name, hk, hname, (hsettled.resolveRequired_iff hsrc hsource hd' hdd' hname e).2 rfl⟩
  · rintro ⟨k, name, hk, hname, hfails⟩
    -- the place is that of a failure, and the name fails with no other
    obtain ⟨e', he'⟩ := exists_error_of_findIdx? hk
    obtain ⟨hsettled, -⟩ := settled_interface hrs he'
    obtain rfl := (hsettled.resolveRequired_iff hsrc hsource hd' hdd' hname e).1 hfails
    exact ⟨k, hk, he'⟩

/-- The required super class, compared with the optional one. -/
theorem requiredSuperclass_iff (hsrc : src.Tells I (Told answer)) (hsource : I s.2)
    (hd' : s.1.descriptor? id = some d') (hdd' : d.Extends d')
    (hw : SettledAncestor answer s.1 id .superclass d.superName w) :
    (w = .ok none ↔ d.superName = none) ∧
      (∀ target, w = .ok (some target) ↔ w.toOption.join = some target) ∧
      ∀ e, w = .error e ↔ w.toOption.join = none ∧ ∃ name, d.superName = some name ∧
        (resolveRequired src name d.loader).Ensures s fun r _ => r = .error e := by
  cases hname : d.superName with
  | none =>
    rw [hname] at hw
    obtain rfl : w = .ok none := hw
    exact ⟨iff_of_true rfl rfl, fun _ => iff_of_false nofun nofun,
      fun e => iff_of_false nofun (by rintro ⟨-, _, ⟨⟩, -⟩)⟩
  | some name =>
    rw [hname] at hw
    obtain ⟨r, rfl, hr⟩ := hw
    cases r with
    | ok target =>
      refine ⟨iff_of_false nofun nofun, fun target' => ?_, fun e => iff_of_false nofun ?_⟩
      · show Except.ok (some target) = .ok (some target') ↔ some target = some target'
        rw [Except.ok.injEq]
      · rintro ⟨⟨⟩, -⟩
    | error e =>
      refine ⟨iff_of_false nofun nofun, fun _ => iff_of_false nofun nofun, fun e' => ?_⟩
      show Except.error e = .error e' ↔ _
      rw [Except.error.injEq, ← hr.resolveRequired_iff hsrc hsource hd' hdd' hname e']
      constructor
      · exact fun hfails => ⟨rfl, name, rfl, hfails⟩
      · rintro ⟨-, _, ⟨⟩, hfails⟩
        exact hfails

/-- A descriptor is fully linked when both kinds of ancestors have been found. -/
theorem isFullyLinked_iff_of_settled (hshaped : h.Shaped)
    (hd' : h.descriptor? id = some d') (hdd' : d.Extends d')
    (hv : Gathers (Settled answer h id) d.interfaceSlots v)
    (hw : SettledAncestor answer h id .superclass d.superName w) :
    d'.isFullyLinked = true ↔ (∃ targets, v = .ok targets) ∧ ∃ found, w = .ok found := by
  -- there is only one descriptor that a settled slot can be of
  have hlink : ∀ slot target, Settled answer h id slot (.ok target) ↔
      d'.link slot = some target := by
    intro slot target
    constructor
    · rintro ⟨d₁, hd₁, hl⟩
      rw [hd'] at hd₁
      cases hd₁
      exact hl
    · exact fun hl => ⟨d', hd', hl⟩
  rw [Descriptor.isFullyLinked_iff (hshaped id d' hd'),
    hv.eq_ok_iff fun _ _ _ hr hr' => hr.unique hr', hw.eq_ok_iff]
  simp only [hlink, hdd'.declared]
  constructor
  · intro hall
    refine ⟨fun slot hslot => ?_, hall .superclass⟩
    obtain ⟨-, name, hname⟩ := Descriptor.mem_interfaceSlots_iff.1 hslot
    exact hall slot name hname
  · rintro ⟨hinterfaces, hsuper⟩ slot name hname
    by_cases hslot : slot = .superclass
    · subst hslot
      exact hsuper name hname
    · exact hinterfaces slot (Descriptor.mem_interfaceSlots_iff.2 ⟨hslot, name, hname⟩)

end Comparison

/-- **Optional and required links agree.** Let a resolver come to a state by any history, and let
its source give the same answers from then on, while a list of operations is performed. For every
descriptor that there was, current or not:

* the optional interfaces are as many as are declared;
* the required interfaces are a list exactly when each optional one is there, and then they are the
  same in the same order; and they fail exactly with the failure to resolve the first that is
  missing;
* the required super class is nothing exactly when none is declared, and it is a descriptor exactly
  when it is the optional super class; otherwise it fails with the failure to resolve it;
* the descriptor is fully linked in the end exactly when its required super class and its required
  interfaces were found.

It does not matter where among the operations the two questions stand that are compared. -/
theorem required_links_agree {σ : Type} (src : ClassSource σ) (start : σ)
    (history : List (Happening σ)) (I : σ → Prop)
    (answer : String → LoaderId → Except ReadError (Option Bytes))
    (hsrc : src.Tells I (Told answer)) (ops : List Operation) :
    let s := Happening.after src history (.empty, start)
    let reached := fun i => Operation.after src (ops.take i) s
    let last := Operation.after src ops s
    let fails := fun name loader e =>
      (resolveRequired src name loader).Ensures last fun r _ => r = .error e
    I s.2 → ∀ id d, s.1.descriptor? id = some d →
      (∀ i, ops[i]? = some (.interfaces id) →
        ((interfaces src id).run (reached i)).value.length = d.interfaceNames.length) ∧
      (∀ i j, ops[i]? = some (.interfaces id) → ops[j]? = some (.requiredInterfaces id) →
        let optional := ((interfaces src id).run (reached i)).value
        let required := ((requiredInterfaces src id).result.run (reached j)).value
        (∀ targets, required = .ok targets ↔ optional = targets.map some) ∧
          ∀ e, required = .error e ↔ ∃ k name, optional.findIdx? Option.isNone = some k ∧
            d.interfaceNames[k]? = some name ∧ fails name d.loader e) ∧
      (∀ i j, ops[i]? = some (.superclass id) → ops[j]? = some (.requiredSuperclass id) →
        let optional := ((superclass src id).run (reached i)).value
        let required := ((requiredSuperclass src id).result.run (reached j)).value
        (required = .ok none ↔ d.superName = none) ∧
          (∀ target, required = .ok (some target) ↔ optional = some target) ∧
          ∀ e, required = .error e ↔ optional = none ∧
            ∃ name, d.superName = some name ∧ fails name d.loader e) ∧
      ∀ i j, ops[i]? = some (.requiredInterfaces id) → ops[j]? = some (.requiredSuperclass id) →
        ∃ d', last.1.descriptor? id = some d' ∧ d.Extends d' ∧ (d'.isFullyLinked = true ↔
          (∃ targets, ((requiredInterfaces src id).result.run (reached i)).value = .ok targets) ∧
            ∃ found, ((requiredSuperclass src id).result.run (reached j)).value = .ok found) := by
  intro s reached last fails hsource id d hd
  have hs : Persists answer I s.1 s :=
    ⟨Extends.refl s.1, fun _ _ _ hr => hr, after_shaped src history shaped_empty, hsource⟩
  have hlast : Persists answer I s.1 last := after_persists hsrc ops hs
  obtain ⟨d', hd', hdd'⟩ := hlast.later id d hd
  refine ⟨fun i hi => ?_, fun i j hi hj => ?_, fun i j hi hj => ?_, fun i j hi hj => ?_⟩
  · obtain ⟨rs, hrs, hoptional⟩ := interfaces_after hsrc hi hs hd
    show ((interfaces src id).run (reached i)).value.length = _
    rw [hoptional, List.length_map, ← hrs.length_eq, Descriptor.interfaceSlots, List.length_map,
      List.length_range]
  · intro optional required
    obtain ⟨rs, hrs, hoptional⟩ := interfaces_after hsrc hi hs hd
    rw [show optional = rs.map Except.toOption from hoptional]
    exact requiredInterfaces_iff hsrc hlast.source hd' hdd' hrs
      (requiredInterfaces_after hsrc hj hs hd)
  · intro optional required
    obtain ⟨w, hw, hoptional⟩ := superclass_after hsrc hi hs hd
    -- both answers tell of one slot
    have hrequired : required = w := (requiredSuperclass_after hsrc hj hs hd).unique hw
    rw [show optional = w.toOption.join from hoptional, hrequired]
    exact requiredSuperclass_iff hsrc hlast.source hd' hdd' hw
  · refine ⟨d', hd', hdd', ?_⟩
    exact isFullyLinked_iff_of_settled hlast.shaped hd' hdd'
      (requiredInterfaces_after hsrc hi hs hd) (requiredSuperclass_after hsrc hj hs hd)

/-- A class whose super class was linked before it was lost, together with one of two interfaces.
The required interfaces fail with it, and the optional ones that are asked for after that pass over
it. -/
theorem required_links_agree_lost_interface :
    let entry := fun sketch : ClassSketch =>
      ({ name := sketch.name, content := .ok (some sketch.encode) } : MemoryEntry)
    let former : MemorySource := { entries := [
      entry { name := "p/A", superName := some "p/B", interfaces := ["p/I", "p/J"] },
      entry (.new "p.B"), entry (.new "p.I")] }
    let current : MemorySource := { entries := [entry (.new "p.J")] }
    let history : List (Happening MemorySource) := [.operation (.resolve "p.A" .bootstrap),
      .operation (.superclass ⟨0⟩), .operation (.resolve "p.I" .bootstrap),
      .change fun _ => current, .operation (.evict .bootstrap)]
    let s := Happening.after MemorySource.source history (.empty, former)
    let ops : List Operation :=
      [.requiredInterfaces ⟨0⟩, .evict .bootstrap, .interfaces ⟨0⟩, .requiredSuperclass ⟨0⟩]
    let reached := fun i => Operation.after MemorySource.source (ops.take i) s
    let optional := ((interfaces MemorySource.source ⟨0⟩).run (reached 2)).value
    let required := ((requiredInterfaces MemorySource.source ⟨0⟩).result.run (reached 0)).value
    optional = [none, some ⟨3⟩] ∧ required = .error (.notFound "p/I" .bootstrap) ∧
      ∃ d, (Operation.after MemorySource.source ops s).1.descriptor? ⟨0⟩ = some d ∧
        d.superLink = some ⟨1⟩ ∧ d.isFullyLinked = false := by
  intro entry former current history s ops reached optional required
  have hoptional : optional = [none, some ⟨3⟩] := by decide +kernel
  have hd : (s.1.descriptor? ⟨0⟩).map (fun d => (d.interfaceNames, d.loader)) =
      some (["p/I", "p/J"], .bootstrap) := by decide +kernel
  obtain ⟨d, hd, hfields⟩ := Option.map_eq_some_iff.1 hd
  obtain ⟨hnames, hloader⟩ := Prod.mk.inj hfields
  obtain ⟨-, hinterfaces, -, hlinked⟩ := required_links_agree MemorySource.source former history
    (fun m => m.entries = current.entries) current.answer (MemorySource.source_steady current).tells
    ops rfl ⟨0⟩ d hd
  have hfails : ((resolveRequired MemorySource.source "p/I" .bootstrap).result.run
      (Operation.after MemorySource.source ops s)).value = .error (.notFound "p/I" .bootstrap) := by
    decide +kernel
  have hrequired : required = .error (.notFound "p/I" .bootstrap) := by
    refine ((hinterfaces 2 0 rfl rfl).2 _).2 ⟨0, "p/I", ?_, ?_, ?_⟩
    · show optional.findIdx? Option.isNone = some 0
      rw [hoptional]
      rfl
    · rw [hnames]
      rfl
    · rw [hloader]
      exact hfails
  have hsuper : ((Operation.after MemorySource.source ops s).1.descriptor? ⟨0⟩).map
      Descriptor.superLink = some (some ⟨1⟩) := by decide +kernel
  obtain ⟨d', hd', -, hiff⟩ := hlinked 0 3 rfl rfl
  rw [hd', Option.map_some] at hsuper
  refine ⟨hoptional, hrequired, d', hd', Option.some.inj hsuper, ?_⟩
  refine Bool.eq_false_iff.2 fun hfull => ?_
  obtain ⟨⟨targets, htargets⟩, -⟩ := hiff.1 hfull
  cases htargets.symm.trans hrequired

end Hierarchy

end Reclass
