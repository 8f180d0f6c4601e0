import Reclass.DeleterAgent
import Reclass.Proofs.Cache.Disk
import Reclass.Proofs.ClassPath.Ancestry
import Reclass.Proofs.Redefinition.Lockstep
import Reclass.Proofs.Transform.Deletion

/-!
# What a cache does for the deleter

Which class a plan names, and whether subtypes are meant, decides what is asked of a cache and not
what is in it. A cache is right for a list of requests when whatever it holds for them is what
deleting the methods of one name makes of them. A plan for these methods then answers the requests
alike over every such cache (`DeletionPlan.transformer_alike`), and a cache stays right for them
under every plan for these methods and every plan that means none of them
(`DeletionPlan.transformer_keeps`).
-/

set_option autoImplicit false

namespace Reclass

open Hierarchy (Stands)

theorem Hierarchy.Stands.surround {σ : Type}
    {Fact : String → LoaderId → Except ResolutionError ClassHeader → Prop} {I I' : σ → Prop}
    {h₀ : Hierarchy} {s : Hierarchy × σ} (hs : Stands Fact I h₀ s) {surroundings : σ}
    (h : I' surroundings) : Stands Fact I' h₀ (s.1, surroundings) :=
  ⟨hs.later, hs.valid, h⟩

namespace DeletionPlan

variable {σ : Type} {cp : ClassPath} {I : σ → Prop} {s : Hierarchy × σ}

/-- Whether the plan means a class, as a loader sees it. -/
def eligible (p : DeletionPlan) (cp : ClassPath) (name : String) (loader : LoaderId) : Bool :=
  if name = p.className then true
  else if p.subtypes then (cp.assignable p.className name loader).toOption.getD false
  else false

/-- The deleter applies to the classes that its plan means. -/
theorem accepts_ensures (p : DeletionPlan) (hs : Stands (Told cp.answer) I .empty s) (name : String)
    (loader : LoaderId) :
    ((p.deleter cp.source).accepts name loader).Ensures s fun accepted s' =>
      accepted = p.eligible cp name loader ∧ Stands (Told cp.answer) I .empty s' := by
  unfold MethodDeleter.accepts eligible
  by_cases hname : name = p.className
  · rw [if_pos hname, if_pos (show name = (p.deleter cp.source).className from hname)]
    exact ⟨rfl, hs⟩
  · rw [if_neg hname, if_neg (show ¬ name = (p.deleter cp.source).className from hname)]
    by_cases hsubtypes : p.subtypes = true
    · simp only [deleter, if_pos hsubtypes, Act.ensures_bind, Attempt.ensures_result]
      refine (cp.isAssignableFrom_ensures hs p.className name loader).imp fun r s' h => ?_
      obtain ⟨hr, hs'⟩ := h
      rw [← hr]
      cases r with
      | ok assignable => exact ⟨rfl, hs'⟩
      | error e => exact ⟨rfl, hs'⟩
    · simp only [deleter, if_neg hsubtypes]
      exact ⟨rfl, hs⟩

/-- What it makes of a class that its plan means depends on the method and the bytes. -/
theorem edit_ensures (p : DeletionPlan) (hs : Stands (Told cp.answer) I .empty s)
    {r : TransformRequest} (he : p.eligible cp r.className r.loader = true) :
    ((p.deleter cp.source).edit r).Ensures s fun o s' =>
      o = MethodDeleter.outcome p.method (ClassName.qualified r.className) r.bytes ∧
        Stands (Told cp.answer) I .empty s' := by
  refine MethodDeleter.edit_ensures ((p.accepts_ensures hs r.className r.loader).imp ?_)
  intro accepted s' h
  exact ⟨h.1.trans he, h.2⟩

variable {p : DeletionPlan} {settings : AgentSettings} {cache : TransformCache} {method : String}
  {rs : List TransformRequest} {asked : LoaderId → String → Bytes → Prop}

theorem store_caching (hcache : settings.cache? = some cache) (src : ClassSource σ)
    (files : Lens σ FileSystem) :
    (p.caching settings src files).store = some (cache.resultStore (Lens.comp .snd files)) := by
  rw [caching, AgentSettings.caching, hcache]
  rfl

/-- Beside a transformer lie a hierarchy of the class path, and a cache that is right for the
requests when methods of the given name are deleted. -/
abbrev Beside (cp : ClassPath) (cache : TransformCache) (method : String)
    (rs : List TransformRequest) : Hierarchy × FileSystem → Prop :=
  Stands (Told cp.answer) (cache.Sound (MethodDeleter.outcome method) rs) .empty

/-- Whether what a plan makes of the classes that are asked may lie in the cache. -/
def Agrees (p : DeletionPlan) (cp : ClassPath) (method : String) (rs : List TransformRequest)
    (asked : LoaderId → String → Bytes → Prop) : Prop :=
  ∀ r : TransformRequest, asked r.loader r.className r.bytes →
    p.eligible cp r.className r.loader = true → ∀ r' ∈ rs, r'.key = r.key →
      p.method = method ∧ r'.bytes = r.bytes

theorem caching_maintains (hcache : settings.cache? = some cache)
    (hagrees : p.Agrees cp method rs asked) :
    (p.caching settings cp.source .id).Maintains (Beside cp cache method rs) (p.eligible cp)
      (MethodDeleter.outcome p.method) fun r => asked r.loader r.className r.bytes where
  accepts name loader s hs := p.accepts_ensures hs name loader
  edit r s hs he := p.edit_ensures hs he
  load store hstore k s hs := by
    rw [store_caching hcache, Option.mem_some_iff] at hstore
    rw [← hstore, TransformCache.resultStore, Act.ensures_zoom, Act.ensures_gets]
    exact hs
  store store hstore r hr he output houtput s hs := by
    rw [store_caching hcache, Option.mem_some_iff] at hstore
    rw [← hstore, TransformCache.resultStore, Act.ensures_zoom, Act.ensures_modifyGet]
    refine hs.surround (hs.source.store fun r' hr' hkey => ?_)
    obtain ⟨hmethod, hbytes⟩ := hagrees r hr he r' hr' hkey
    obtain ⟨result, hresult, rfl⟩ := houtput
    -- the outcome of a deletion depends on the method and the input alone
    rw [← hmethod, ← hbytes]
    refine ⟨result, ?_, rfl⟩
    rw [← hresult]
    show (MethodDeleter.outcome p.method _ r'.bytes).guarded =
      (MethodDeleter.outcome p.method _ r.bytes).guarded
    rw [hbytes]
    rfl
  dump dump hdump r _ _ bytes s hs := by
    obtain ⟨root, -, hroot⟩ := Option.mem_map.1 hdump
    rw [← hroot, DumpDir.target, Act.ensures_zoom, Act.ensures_modifyGet]
    exact hs.surround (hs.source.dump ⟨root⟩ r.className r.loader bytes)

theorem caching_right (hcache : settings.cache? = some cache)
    (hasked : ∀ r : TransformRequest, asked r.loader r.className r.bytes →
      p.eligible cp r.className r.loader = true → { r with redefining := none } ∈ rs) :
    (p.caching settings cp.source .id).Right (Beside cp cache p.method rs) (p.eligible cp)
      (MethodDeleter.outcome p.method) fun r => asked r.loader r.className r.bytes := by
  intro store hstore r hr he s hs
  rw [store_caching hcache, Option.mem_some_iff] at hstore
  rw [← hstore, TransformCache.resultStore, Act.ensures_zoom, Act.ensures_gets]
  exact fun stored hfound => hs.source.load (hasked r hr he) hfound

/-- The transformer that is installed for a plan. -/
abbrev transformer (p : DeletionPlan) (settings : AgentSettings) (cp : ClassPath) :
    Transformer (TransformStats × (Hierarchy × FileSystem)) :=
  (p.caching settings cp.source .id).transformer

/-- **A cache stays right** under a plan that agrees with it. -/
theorem transformer_keeps (hcache : settings.cache? = some cache)
    (hagrees : p.Agrees cp method rs asked) :
    (p.transformer settings cp).Alike (p.transformer settings cp)
      (fun w w' => w' = w ∧ Beside cp cache method rs w.2) asked where
  accepts name loader := by
    rintro w _ ⟨rfl, hw⟩
    exact ⟨rfl, rfl, (p.accepts_ensures hw name loader).2⟩
  apply r hr := by
    rintro w _ ⟨rfl, hw⟩
    exact ⟨rfl, rfl, ((caching_maintains hcache hagrees).apply_ensures hr hw).2⟩

/-- **A plan answers alike over all caches that are right** for the requests that it means. -/
theorem transformer_alike (hcache : settings.cache? = some cache)
    (hagrees : p.Agrees cp p.method rs asked)
    (hasked : ∀ r : TransformRequest, asked r.loader r.className r.bytes →
      p.eligible cp r.className r.loader = true → { r with redefining := none } ∈ rs) :
    (p.transformer settings cp).Alike (p.transformer settings cp)
      (fun w w' => Beside cp cache p.method rs w.2 ∧ Beside cp cache p.method rs w'.2) asked where
  accepts name loader := by
    rintro w w' ⟨hw, hw'⟩
    obtain ⟨haccepts, hs⟩ := p.accepts_ensures hw name loader
    obtain ⟨haccepts', hs'⟩ := p.accepts_ensures hw' name loader
    exact ⟨haccepts'.trans haccepts.symm, hs, hs'⟩
  apply r hr := by
    rintro w w' ⟨hw, hw'⟩
    have hright := caching_right hcache hasked
    obtain ⟨hanswer, hs⟩ := (caching_maintains hcache hagrees).apply_ensures hr hw
    obtain ⟨hanswer', hs'⟩ := (caching_maintains hcache hagrees).apply_ensures hr hw'
    exact ⟨(hanswer' hright).trans (hanswer hright).symm, hs, hs'⟩

end DeletionPlan

end Reclass
