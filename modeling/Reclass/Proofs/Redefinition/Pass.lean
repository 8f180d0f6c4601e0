import Reclass.Proofs.ClassPath.Host
import Reclass.Proofs.Redefinition.Record

/-!
# One pass over the classes of a class path host

Collecting looks at each class in turn and leaves the host as it is. The invariant `Collected`
holds between two classes: of those dealt with in this pass, exactly those with bytes that the
transformer edits are pending, each once. An accepted batch of pending edits then rewrites the
universe class by class (`Rewritten`).
-/

set_option autoImplicit false

namespace Reclass.Redefinition

variable {ρ : Type} {u : Universe} {f : ClassEdit} {before : List Nat}

/-- A class that a pass can edit. -/
def Readable (d : Defined) : Prop := d.loaded.isArray = false ∧ d.bytes ≠ []

/-- What an edit makes of a loaded class. -/
def editOf (f : ClassEdit) (d : Defined) : Option Bytes := f d.loaded.loader d.loaded.name d.bytes

/-- Where a pass stands after it has looked at the classes `seen`, when the classes `before` had
been dealt with in earlier passes. -/
structure Collected (u : Universe) (f : ClassEdit) (before : List Nat) (seen : List LoadedClass)
    (p : Progress) : Prop where
  before_done : ∀ i ∈ before, i ∈ p.done
  pending : ∀ e ∈ p.pending, e.target.id ∈ p.done ∧ e.target.id ∉ before ∧
    ∃ d, u.classes[e.target.id]? = some d ∧ d.loaded = e.target ∧ Readable d ∧
      editOf f d = some e.bytes
  nodup : (p.pending.map fun e => e.target.id).Nodup
  complete : ∀ i ∈ p.done, i ∉ before → ∀ d, u.classes[i]? = some d → Readable d →
    ∀ bytes, editOf f d = some bytes → ⟨d.loaded, bytes⟩ ∈ p.pending
  seen_done : ∀ c ∈ seen, ∀ d, u.classes[c.id]? = some d → Readable d → c.id ∈ p.done

theorem collected_start (u : Universe) (f : ClassEdit) {p : Progress} (hp : p.pending = []) :
    Collected u f p.done [] p where
  before_done _ h := h
  pending e he := by
    rw [hp] at he
    cases he
  nodup := by
    rw [hp]
    exact List.nodup_nil
  complete i hi hn := absurd hi hn
  seen_done _ h := absurd h List.not_mem_nil

section Step

variable {seen : List LoadedClass} {p p' : Progress} {d : Defined}

/-- A class without an edit: nothing is added to the pending edits. -/
theorem Collected.skip (h : Collected u f before seen p)
    (hd : u.classes[d.loaded.id]? = some d) (hpending : p'.pending = p.pending)
    (hkeep : ∀ i ∈ p.done, i ∈ p'.done)
    (hnew : ∀ i ∈ p'.done, i ∈ p.done ∨ (i = d.loaded.id ∧ (Readable d → editOf f d = none)))
    (hdone : Readable d → d.loaded.id ∈ p'.done) :
    Collected u f before (seen ++ [d.loaded]) p' where
  before_done i hi := hkeep i (h.before_done i hi)
  pending e he := by
    rw [hpending] at he
    obtain ⟨hmem, hrest⟩ := h.pending e he
    exact ⟨hkeep _ hmem, hrest⟩
  nodup := by
    rw [hpending]
    exact h.nodup
  complete i hi hn d' hd' hr bytes hb := by
    rw [hpending]
    rcases hnew i hi with hi | ⟨rfl, hnone⟩
    · exact h.complete i hi hn d' hd' hr bytes hb
    · rw [hd] at hd'
      cases hd'
      rw [hnone hr] at hb
      cases hb
  seen_done c hc d' hd' hr := by
    rcases List.mem_append.1 hc with hc | hc
    · exact hkeep _ (h.seen_done c hc d' hd' hr)
    · cases List.mem_singleton.1 hc
      rw [hd] at hd'
      cases hd'
      exact hdone hr

/-- A class with an edit, which becomes pending. -/
theorem Collected.add (h : Collected u f before seen p)
    (hd : u.classes[d.loaded.id]? = some d) (hfresh : d.loaded.id ∉ p.done) (hr : Readable d)
    {bytes : Bytes} (hb : editOf f d = some bytes) :
    Collected u f before (seen ++ [d.loaded])
      { p with done := d.loaded.id :: p.done, pending := p.pending ++ [⟨d.loaded, bytes⟩] } where
  before_done i hi := List.mem_cons_of_mem _ (h.before_done i hi)
  pending e he := by
    rcases List.mem_append.1 he with he | he
    · obtain ⟨hmem, hrest⟩ := h.pending e he
      exact ⟨List.mem_cons_of_mem _ hmem, hrest⟩
    · cases List.mem_singleton.1 he
      exact ⟨List.mem_cons_self, fun hmem => hfresh (h.before_done _ hmem), d, hd, rfl, hr, hb⟩
  nodup := by
    rw [List.map_append, List.map_singleton, List.nodup_append]
    refine ⟨h.nodup, by simp, ?_⟩
    -- what is pending has been dealt with, and this class has not
    intro i hi j hj
    obtain ⟨e, he, rfl⟩ := List.mem_map.1 hi
    cases List.mem_singleton.1 hj
    intro heq
    exact hfresh (heq ▸ (h.pending e he).1)
  complete i hi hn d' hd' hr' bytes' hb' := by
    rcases List.mem_cons.1 hi with rfl | hi
    · rw [hd] at hd'
      cases hd'
      rw [hb] at hb'
      cases hb'
      exact List.mem_append_right _ (List.mem_singleton.2 rfl)
    · exact List.mem_append_left _ (h.complete i hi hn d' hd' hr' bytes' hb')
  seen_done c hc d' hd' hr' := by
    rcases List.mem_append.1 hc with hc | hc
    · exact List.mem_cons_of_mem _ (h.seen_done c hc d' hd' hr')
    · cases List.mem_singleton.1 hc
      exact List.mem_cons_self

end Step

section Collecting

variable {host : ClassPathHost ρ} {t : Transformer ρ} {opts : RedefineOptions} {J : ρ → Prop}

theorem classBytes_ensures {d : Defined} (hd : host.loaded.classes[d.loaded.id]? = some d) (r : ρ)
    {Q : Except ReadError (Option Bytes) → ClassPathHost ρ × ρ → Prop} :
    (ClassPathHost.instrumentation.classBytes d.loaded).Ensures (host, r) Q ↔
      Q (.ok (some d.bytes)) (host, r) := by
  rw [← Universe.bytesOf_of_getElem? hd]
  exact Iff.rfl

/-- Transforming a class makes its edit pending, if it has one. -/
theorem transform_ensures (ht : t.Does J f) (p : Progress) (d : Defined)
    (host : ClassPathHost ρ) {r : ρ} (hr : J r) :
    (transform (ClassPathHost.lift t) d.loaded d.bytes p).Ensures (host, r) fun p' s' =>
      (s'.1 = host ∧ J s'.2) ∧ p' = match editOf f d with
        | some bytes => { p with pending := p.pending ++ [⟨d.loaded, bytes⟩] }
        | none => p := by
  rw [transform, ClassPathHost.lift, Transformer.zoom, Act.ensures_bind, Act.ensures_zoom]
  refine Act.Ensures.imp (ht ⟨d.loaded.loader, d.loaded.name, some d.loaded, d.bytes⟩ r hr)
    fun v r' hv => ?_
  have hedit : v = editOf f d := hv.1
  rw [hedit]
  cases editOf f d with
  | none => exact ⟨⟨rfl, hv.2⟩, rfl⟩
  | some bytes => exact ⟨⟨rfl, hv.2⟩, rfl⟩

/-- Looking at a class leaves the host as it is and takes the invariant one class further. -/
theorem consider_ensures (ht : t.Performs J f) {seen : List LoadedClass}
    {p : Progress} (h : Collected host.loaded f before seen p) {d : Defined}
    (hd : host.loaded.classes[d.loaded.id]? = some d) {r : ρ} (hr : J r) :
    (consider ClassPathHost.instrumentation (ClassPathHost.lift t) opts p d.loaded).Ensures
      (host, r) fun p' s' => (s'.1 = host ∧ J s'.2) ∧
        Collected host.loaded f before (seen ++ [d.loaded]) p' := by
  rw [consider]
  by_cases hskip : (d.loaded.isArray || p.done.contains d.loaded.id) = true
  · -- passed over: no class that can be edited, or dealt with
    rw [if_pos hskip]
    refine ⟨⟨rfl, hr⟩, h.skip hd rfl (fun _ hi => hi) (fun _ hi => Or.inl hi) ?_⟩
    intro hreadable
    rw [hreadable.1, Bool.false_or, List.contains_iff_mem] at hskip
    exact hskip
  · rw [if_neg hskip, Act.ensures_bind]
    rw [Bool.or_eq_true, not_or, List.contains_iff_mem, Bool.not_eq_true] at hskip
    obtain ⟨harray, hfresh⟩ := hskip
    have hcons : ∀ i, i ∈ d.loaded.id :: p.done → i ∈ p.done ∨ i = d.loaded.id := by
      intro i hi
      exact (List.mem_cons.1 hi).symm
    show ((ClassPathHost.lift t).accepts d.loaded.name d.loaded.loader).Ensures (host, r) _
    rw [ClassPathHost.lift, Transformer.zoom, Act.ensures_zoom]
    refine (ht.accepts d.loaded.name d.loaded.loader r hr).imp fun accepted r' haccepted => ?_
    obtain ⟨haccepted, hr'⟩ := haccepted
    cases accepted with
    | false =>
      -- declined: the transformer has no edit for it
      refine ⟨⟨rfl, hr'⟩, h.skip hd rfl (fun _ hi => List.mem_cons_of_mem _ hi) ?_
        (fun _ => List.mem_cons_self)⟩
      intro i hi
      exact (hcons i hi).imp_right fun e => ⟨e, fun _ => haccepted rfl d.bytes⟩
    | true =>
      rw [Bool.not_true, if_neg Bool.false_ne_true, Act.ensures_bind]
      refine (classBytes_ensures hd r').2 ?_
      cases hb : d.bytes with
      | nil =>
        -- unreadable, perhaps to be tried again
        have hunreadable : ¬ Readable d := fun hr => hr.2 hb
        refine ⟨⟨rfl, hr'⟩, h.skip hd rfl ?_ ?_ (fun hr => absurd hr hunreadable)⟩
        · intro i hi
          refine mem_noteUnreadable.2 ⟨List.mem_cons_of_mem _ hi, fun _ e => ?_⟩
          exact hfresh (e ▸ hi)
        · intro i hi
          exact (hcons i (mem_noteUnreadable.1 hi).1).imp_right fun e =>
            ⟨e, fun hr => absurd hr hunreadable⟩
      | cons b bs =>
        -- transformed, with an edit or without
        have hreadable : Readable d := ⟨harray, by rw [hb]; exact List.cons_ne_nil b bs⟩
        have htransform :=
          transform_ensures ht.apply { p with done := d.loaded.id :: p.done } d host hr'
        rw [hb] at htransform
        refine htransform.imp fun p' s' hp' => ?_
        obtain ⟨hs', hp'⟩ := hp'
        refine ⟨hs', ?_⟩
        cases he : editOf f d with
        | none =>
          rw [he] at hp'
          rw [hp']
          refine h.skip hd rfl (fun _ hi => List.mem_cons_of_mem _ hi) ?_
            (fun _ => List.mem_cons_self)
          intro i hi
          exact (hcons i hi).imp_right fun e => ⟨e, fun _ => he⟩
        | some bytes =>
          rw [he] at hp'
          rw [hp']
          exact h.add hd hfresh hreadable he

/-- Collecting looks at every loaded class. -/
theorem collect_ensures (ht : t.Performs J f) (hnumbered : host.loaded.Numbered)
    {p : Progress} (hp : p.pending = []) {r : ρ} (hr : J r) :
    (collect ClassPathHost.instrumentation (ClassPathHost.lift t) opts p).Ensures (host, r)
      fun p' s' => (s'.1 = host ∧ J s'.2) ∧
        Collected host.loaded f p.done host.loaded.loadedClasses p' := by
  have hstep : ∀ c ∈ host.loaded.loadedClasses, ∀ seen p' (s : ClassPathHost ρ × ρ),
      ((s.1 = host ∧ J s.2) ∧ Collected host.loaded f p.done seen p') →
      (consider ClassPathHost.instrumentation (ClassPathHost.lift t) opts p' c).Ensures s
        fun p'' s' => (s'.1 = host ∧ J s'.2) ∧
          Collected host.loaded f p.done (seen ++ [c]) p'' := by
    rintro c hc seen p' ⟨host', r'⟩ ⟨⟨rfl, hr'⟩, hcollected⟩
    obtain ⟨d, hd, rfl⟩ := List.mem_map.1 hc
    -- the identity of a class leads back to the class
    obtain ⟨i, hi⟩ := List.mem_iff_getElem?.1 hd
    rw [Array.getElem?_toList] at hi
    have hid : d.loaded.id = i := hnumbered i d hi
    subst hid
    exact consider_ensures ht hcollected hi hr'
  have hstart : ((host, r).1 = host ∧ J r) ∧ Collected host.loaded f p.done [] p :=
    ⟨⟨rfl, hr⟩, collected_start host.loaded f hp⟩
  exact Act.ensures_foldlM (I := fun seen p' (s' : ClassPathHost ρ × ρ) =>
    (s'.1 = host ∧ J s'.2) ∧ Collected host.loaded f p.done seen p') hstep hstart

end Collecting

section Rewriting

/-- The universe `u` is `u₀` with the classes dealt with edited, as far as they can be. -/
structure Rewritten (u₀ u : Universe) (f : ClassEdit) (dealt : Nat → Prop) : Prop where
  loaded : ∀ i : Nat, u.classes[i]?.map Defined.loaded = u₀.classes[i]?.map Defined.loaded
  edited : ∀ (i : Nat) (d₀ d : Defined), u₀.classes[i]? = some d₀ → u.classes[i]? = some d →
    dealt i → Readable d₀ → d.bytes = (editOf f d₀).getD d₀.bytes
  kept : ∀ (i : Nat) (d₀ d : Defined), u₀.classes[i]? = some d₀ → u.classes[i]? = some d →
    ¬ (dealt i ∧ Readable d₀) → d.bytes = d₀.bytes
  present : ∀ (i : Nat) (d₀ d : Defined), u₀.classes[i]? = some d₀ → u.classes[i]? = some d →
    Readable d₀ → d.bytes ≠ []

variable {u₀ u' : Universe} {p : Progress} {i : Nat} {d₀ d : Defined}

theorem rewritten_refl (u : Universe) (f : ClassEdit) : Rewritten u u f (· ∈ ([] : List Nat)) where
  loaded _ := rfl
  edited _ _ _ _ _ hi := absurd hi List.not_mem_nil
  kept i d₀ d hd₀ hd _ := by
    rw [hd₀] at hd
    cases hd
    rfl
  present i d₀ d hd₀ hd hr := by
    rw [hd₀] at hd
    cases hd
    exact hr.2

variable {dealt : Nat → Prop}

theorem Rewritten.loaded_eq (h : Rewritten u₀ u f dealt) (hd₀ : u₀.classes[i]? = some d₀)
    (hd : u.classes[i]? = some d) : d.loaded = d₀.loaded := by
  have hi := h.loaded i
  rw [hd₀, hd] at hi
  exact Option.some.inj hi

theorem Rewritten.exists_later (h : Rewritten u₀ u f dealt) (hd₀ : u₀.classes[i]? = some d₀) :
    ∃ d, u.classes[i]? = some d := by
  have hi := h.loaded i
  rw [hd₀, Option.map_some] at hi
  obtain ⟨d, hd, -⟩ := Option.map_eq_some_iff.1 hi
  exact ⟨d, hd⟩

theorem Rewritten.numbered (h : Rewritten u₀ u f dealt) (hn : u₀.Numbered) : u.Numbered := by
  intro i d hd
  have hi := h.loaded i
  rw [hd, Option.map_some] at hi
  obtain ⟨d₀, hd₀, he⟩ := Option.map_eq_some_iff.1 hi.symm
  rw [← he]
  exact hn i d₀ hd₀

/-- A class that no pass has dealt with is as it was at the start. -/
theorem Rewritten.eq_of_not_dealt (h : Rewritten u₀ u f dealt) (hd₀ : u₀.classes[i]? = some d₀)
    (hd : u.classes[i]? = some d) (hi : ¬ dealt i) :
    d.bytes = d₀.bytes ∧ editOf f d = editOf f d₀ ∧ (Readable d ↔ Readable d₀) := by
  have hbytes := h.kept i d₀ d hd₀ hd fun hh => hi hh.1
  have hloaded := h.loaded_eq hd₀ hd
  refine ⟨hbytes, ?_, ?_⟩
  · rw [editOf, editOf, hloaded, hbytes]
  · rw [Readable, Readable, hloaded, hbytes]

/-- The pending edits of a pass are about classes that no earlier pass has dealt with. -/
theorem Collected.not_pending {seen : List LoadedClass} (hc : Collected u f before seen p)
    (hd : u.classes[i]? = some d) (h : i ∈ before ∨ ¬ i ∈ p.done ∨ ¬ Readable d ∨ editOf f d = none) :
    ∀ e ∈ p.pending, e.target.id ≠ i := by
  rintro e he rfl
  obtain ⟨hdone, hbefore, d', hd', -, hr, hb⟩ := hc.pending e he
  rw [hd] at hd'
  cases hd'
  rcases h with h | h | h | h
  · exact hbefore h
  · exact h hdone
  · exact h hr
  · rw [h] at hb
    cases hb

/-- An accepted batch rewrites the classes that the pass has dealt with. -/
theorem Rewritten.redefine (h : Rewritten u₀ u f (· ∈ before)) (hn : u₀.Numbered)
    {seen : List LoadedClass} (hc : Collected u f before seen p)
    (hredefine : u.redefine p.pending = .ok u') : Rewritten u₀ u' f (· ∈ p.done) := by
  obtain ⟨hcheck, rfl⟩ := Universe.redefine_eq_ok hredefine
  have hloaded := Universe.loaded_foldl_replace u p.pending
  -- The bytes of a class after the batch, when no edit is about it.
  have same : ∀ {i : Nat} {d d' : Defined}, u.classes[i]? = some d →
      (p.pending.foldl Universe.replace u).classes[i]? = some d' →
      (∀ e ∈ p.pending, e.target.id ≠ i) → d'.bytes = d.bytes := by
    intro i d d' hd hd' hne
    rw [Universe.getElem?_foldl_replace_of_ne hne, hd] at hd'
    cases hd'
    rfl
  -- And when there is one.
  have new : ∀ {e : ClassDefinition} {d d' : Defined}, e ∈ p.pending →
      u.classes[e.target.id]? = some d →
      (p.pending.foldl Universe.replace u).classes[e.target.id]? = some d' →
      d'.bytes = e.bytes := by
    intro e d d' he hd hd'
    obtain ⟨c, hc', hbytes⟩ := Universe.bytes_foldl_replace he hc.nodup hd
    rw [hd'] at hc'
    cases hc'
    exact hbytes
  refine ⟨fun i => (hloaded i).trans (h.loaded i), ?_, ?_, ?_⟩
  · -- edited: by an earlier pass, or by this one if there is an edit at all
    intro i d₀ d' hd₀ hd' hi hr
    obtain ⟨d, hd⟩ := h.exists_later hd₀
    by_cases hb : i ∈ before
    · rw [same hd hd' (hc.not_pending hd (Or.inl hb))]
      exact h.edited i d₀ d hd₀ hd hb hr
    · obtain ⟨hbytes, hedit, hreadable⟩ := h.eq_of_not_dealt hd₀ hd hb
      rw [← hedit, ← hbytes]
      cases he : editOf f d with
      | none => exact same hd hd' (hc.not_pending hd (Or.inr (Or.inr (Or.inr he))))
      | some bytes =>
        have hid : d.loaded.id = i := h.numbered hn i d hd
        subst hid
        exact new (hc.complete _ hi hb d hd (hreadable.2 hr) bytes he) hd hd'
  · -- kept: no pending edit is about the class
    intro i d₀ d' hd₀ hd' hi
    obtain ⟨d, hd⟩ := h.exists_later hd₀
    by_cases hb : i ∈ before
    · rw [same hd hd' (hc.not_pending hd (Or.inl hb))]
      exact h.kept i d₀ d hd₀ hd fun hh => hi ⟨hc.before_done i hb, hh.2⟩
    · obtain ⟨hbytes, -, hreadable⟩ := h.eq_of_not_dealt hd₀ hd hb
      rw [← hbytes]
      refine same hd hd' (hc.not_pending hd ?_)
      by_cases hdone : i ∈ p.done
      · exact Or.inr (Or.inr (Or.inl fun hr => hi ⟨hdone, hreadable.1 hr⟩))
      · exact Or.inr (Or.inl hdone)
  · -- present: the host takes no definition without bytes
    intro i d₀ d' hd₀ hd' hr
    obtain ⟨d, hd⟩ := h.exists_later hd₀
    by_cases hpending : ∃ e ∈ p.pending, e.target.id = i
    · obtain ⟨e, he, rfl⟩ := hpending
      rw [new he hd hd']
      exact Universe.bytes_ne_nil_of_check (hcheck e he)
    · rw [same hd hd' fun e he hid => hpending ⟨e, he, hid⟩]
      exact h.present i d₀ d hd₀ hd hr

/-- When a pass over all classes finds no edit, every class has been edited. -/
theorem Rewritten.settled (h : Rewritten u₀ u f (· ∈ before)) (hn : u₀.Numbered)
    (hc : Collected u f before u.loadedClasses p) (hp : p.pending = []) :
    Rewritten u₀ u f fun _ => True where
  loaded := h.loaded
  present := h.present
  kept i d₀ d hd₀ hd hi := h.kept i d₀ d hd₀ hd fun hh => hi ⟨trivial, hh.2⟩
  edited i d₀ d hd₀ hd _ hr := by
    by_cases hb : i ∈ before
    · exact h.edited i d₀ d hd₀ hd hb hr
    · obtain ⟨hbytes, hedit, hreadable⟩ := h.eq_of_not_dealt hd₀ hd hb
      have hid : d.loaded.id = i := h.numbered hn i d hd
      subst hid
      have hmem : d.loaded ∈ u.loadedClasses := by
        refine List.mem_map.2 ⟨d, List.mem_iff_getElem?.2 ⟨d.loaded.id, ?_⟩, rfl⟩
        rw [Array.getElem?_toList]
        exact hd
      have hdone := hc.seen_done d.loaded hmem d hd (hreadable.2 hr)
      rw [← hedit, ← hbytes]
      cases he : editOf f d with
      | none => rfl
      | some bytes =>
        -- the edit would be pending, and nothing is
        have hpending := hc.complete _ hdone hb d hd (hreadable.2 hr) bytes he
        rw [hp] at hpending
        cases hpending

end Rewriting

end Reclass.Redefinition
