import Reclass.CommandLine.Execute
import Reclass.Proofs.Cache.Retention
import Reclass.Proofs.ClassPath.Delegation
import Reclass.Proofs.DeleterAgent.Serving
import Reclass.Proofs.Transform.Stock

/-!
# What filling a cache leaves there

Filling a cache hands over every class of a class path as the loader sees it that lists it
(`ClassPath.requests`). In whatever order that happens, a cache that was empty is sound for these
requests afterwards and holds the results for all that the plan means, unless a storage failure has
been counted (`CommandLine.warmupOver_fills`). The invariant is `DeletionPlan.Filling`, and each
class that is handed over adds its request to those for which the cache holds the result.
-/

set_option autoImplicit false

namespace Reclass

open Hierarchy (Stands)
open CachingTransformer (Counted Filled Fills Output)

theorem Act.ensures_over {σ τ α : Type} (make : σ → τ) (keep : τ → σ) (x : Act τ α) (s : σ)
    (Q : α → σ → Prop) :
    (Act.over make keep x).Ensures s Q ↔ x.Ensures (make s) fun a t => Q a (keep t) := Iff.rfl

namespace ClassPath

variable {cp : ClassPath} {c : String × LoaderId} {r r' : TransformRequest}

/-- A class as a loader sees it. -/
def request? (cp : ClassPath) (c : String × LoaderId) : Option TransformRequest :=
  match cp.find c.1 c.2 with
  | .ok (some (_, bytes)) => some ⟨c.2, c.1, none, bytes⟩
  | _ => none

/-- The classes of the roots, each as the loader sees it that lists it. -/
def requests (cp : ClassPath) : List TransformRequest := cp.resources.filterMap cp.request?

/-- No two names of classes have one qualified form. -/
def Distinct (cp : ClassPath) : Prop :=
  ∀ name ∈ cp.names, ∀ name' ∈ cp.names,
    ClassName.qualified name = ClassName.qualified name' → name = name'

instance (cp : ClassPath) : Decidable cp.Distinct :=
  inferInstanceAs (Decidable (∀ name ∈ cp.names, ∀ name' ∈ cp.names,
    ClassName.qualified name = ClassName.qualified name' → name = name'))

theorem request?_eq_some :
    cp.request? c = some r ↔ ∃ defining bytes, cp.find c.1 c.2 = .ok (some (defining, bytes)) ∧
      ⟨c.2, c.1, none, bytes⟩ = r := by
  unfold request?
  match cp.find c.1 c.2 with
  | .error e => simp
  | .ok none => simp
  | .ok (some (defining, bytes)) => simp

theorem mem_requests_of_find {bytes : Bytes} {defining : LoaderId} (hc : c ∈ cp.resources)
    (hfind : cp.find c.1 c.2 = .ok (some (defining, bytes))) :
    ⟨c.2, c.1, none, bytes⟩ ∈ cp.requests :=
  List.mem_filterMap.2 ⟨c, hc, request?_eq_some.2 ⟨defining, bytes, hfind, rfl⟩⟩

/-- Requests with one key have one input, when names are distinct. -/
theorem Distinct.bytes_eq (h : cp.Distinct) (hr : r ∈ cp.requests) (hr' : r' ∈ cp.requests)
    (hkey : r'.key = r.key) : r'.bytes = r.bytes := by
  obtain ⟨c, hc, hrequest⟩ := List.mem_filterMap.1 hr
  obtain ⟨c', hc', hrequest'⟩ := List.mem_filterMap.1 hr'
  obtain ⟨defining, bytes, hfind, rfl⟩ := request?_eq_some.1 hrequest
  obtain ⟨defining', bytes', hfind', rfl⟩ := request?_eq_some.1 hrequest'
  have hname : c'.1 = c.1 := h c'.1 (List.mem_map_of_mem hc') c.1 (List.mem_map_of_mem hc)
    (CacheKey.mk.inj hkey).1
  -- a name stands for one class to all loaders
  have hdefinition := definition?_of_find hfind'
  rw [hname, definition?_of_find hfind] at hdefinition
  exact (Prod.mk.inj (Option.some.inj hdefinition)).2.symm

end ClassPath

namespace MethodDeleter

/-- What is left of a class depends on its bytes. -/
theorem output_congr {method : String} {r r' : TransformRequest} {output : Bytes}
    (hbytes : r'.bytes = r.bytes) (h : Output (outcome method) r output) :
    Output (outcome method) r' output := by
  obtain ⟨result, hresult, rfl⟩ := h
  refine ⟨result, ?_, by rw [hbytes]⟩
  rw [← hresult]
  show (outcome method _ r'.bytes).guarded = (outcome method _ r.bytes).guarded
  rw [hbytes]
  rfl

end MethodDeleter

namespace DeletionPlan

variable {p : DeletionPlan} {cp : ClassPath} {settings : AgentSettings} {cache : TransformCache}
  {filled : List TransformRequest} {r : TransformRequest}

/-- What is handed over of a class, if the plan means it as its loader sees it. -/
def due (p : DeletionPlan) (cp : ClassPath) (c : String × LoaderId) : Option TransformRequest :=
  if p.eligible cp c.1 c.2 then cp.request? c else none

/-- The classes of the roots that the plan means, each as the loader sees it that lists it. -/
def meant (p : DeletionPlan) (cp : ClassPath) : List TransformRequest :=
  cp.resources.filterMap (p.due cp)

theorem mem_meant_iff :
    r ∈ p.meant cp ↔ r ∈ cp.requests ∧ p.eligible cp r.className r.loader = true := by
  unfold meant ClassPath.requests
  simp only [List.mem_filterMap]
  constructor
  · rintro ⟨c, hc, hdue⟩
    unfold due at hdue
    by_cases he : p.eligible cp c.1 c.2 = true
    · rw [if_pos he] at hdue
      obtain ⟨defining, bytes, -, rfl⟩ := ClassPath.request?_eq_some.1 hdue
      exact ⟨⟨c, hc, hdue⟩, he⟩
    · rw [if_neg he] at hdue
      cases hdue
  · rintro ⟨⟨c, hc, hrequest⟩, he⟩
    refine ⟨c, hc, ?_⟩
    obtain ⟨defining, bytes, -, rfl⟩ := ClassPath.request?_eq_some.1 hrequest
    rw [due, if_pos he, hrequest]

/-- In a well-formed file system the cache is sound for all classes that the plan means, and holds
the results for some of them. -/
structure Provided (p : DeletionPlan) (cp : ClassPath) (cache : TransformCache)
    (filled : List TransformRequest) (fs : FileSystem) : Prop where
  wellFormed : fs.WellFormed
  sound : cache.Sound (MethodDeleter.outcome p.method) (p.meant cp) fs
  holds : cache.Holds (MethodDeleter.outcome p.method) filled fs

/-- Beside a transformer lie a hierarchy of the class path, and a cache on its way to being filled. -/
abbrev Filling (p : DeletionPlan) (cp : ClassPath) (cache : TransformCache)
    (filled : List TransformRequest) : Hierarchy × FileSystem → Prop :=
  Stands (Told cp.answer) (p.Provided cp cache filled) .empty

theorem Provided.mono {filled' : List TransformRequest} {fs : FileSystem}
    (h : p.Provided cp cache filled fs) (hsub : ∀ r ∈ filled', r ∈ filled) :
    p.Provided cp cache filled' fs :=
  ⟨h.wellFormed, h.sound, h.holds.mono hsub⟩

theorem Provided.dump {fs : FileSystem} (h : p.Provided cp cache filled fs) (d : DumpDir)
    (name : String) (loader : LoaderId) (bytes : Bytes) :
    p.Provided cp cache filled (d.write name loader bytes fs).2 :=
  ⟨d.wellFormed_write h.wellFormed name loader bytes, h.sound.dump d name loader bytes,
    h.holds.dump d name loader bytes⟩

theorem Provided.inProcess {fs : FileSystem} (h : p.Provided cp cache filled fs)
    (process tempCount : Nat) : p.Provided cp cache filled (fs.inProcess process tempCount) :=
  ⟨h.wellFormed.inProcess process tempCount, h.sound.inProcess process tempCount,
    h.holds.inProcess process tempCount⟩

theorem accepts_transformer (name : String) (loader : LoaderId) :
    (p.transformer settings cp).accepts name loader =
      Act.zoom .snd ((p.deleter cp.source).accepts name loader) := rfl

/-- **Handing over a class that the plan means fills its place.** -/
theorem caching_fills (hcache : settings.cache? = some cache) (hdistinct : cp.Distinct)
    (hr : r ∈ p.meant cp) (hfilled : ∀ r' ∈ filled, r' ∈ p.meant cp) :
    (p.caching settings cp.source .id).Fills (p.Filling cp cache filled)
      (p.Filling cp cache (r :: filled)) (p.eligible cp) (MethodDeleter.outcome p.method) r := by
  have hinput : ∀ r' ∈ p.meant cp, r'.key = r.key → r'.bytes = r.bytes := fun r' hr' =>
    hdistinct.bytes_eq (mem_meant_iff.1 hr).1 (mem_meant_iff.1 hr').1
  constructor
  case accepts => exact fun name loader s hs => p.accepts_ensures hs name loader
  case edit => exact fun s hs he => p.edit_ensures hs he
  case load =>
    intro store hstore s hs
    rw [store_caching hcache, Option.mem_some_iff] at hstore
    rw [← hstore, TransformCache.resultStore, Act.ensures_zoom, Act.ensures_gets]
    refine ⟨hs, fun stored hload => hs.surround ⟨hs.source.wellFormed, hs.source.sound, ?_⟩⟩
    exact hs.source.holds.cons_of_load hload (hs.source.sound.load hr hload)
  case store =>
    intro store hstore output houtput s hs
    rw [store_caching hcache, Option.mem_some_iff] at hstore
    rw [← hstore, TransformCache.resultStore, Act.ensures_zoom, Act.ensures_modifyGet]
    refine fun path hstored => hs.surround
      ⟨TransformCache.wellFormed_store hs.source.wellFormed r.key output,
        hs.source.sound.store fun r' hr' hkey => ?_, ?_⟩
    · exact MethodDeleter.output_congr (hinput r' hr' hkey) houtput
    · refine hs.source.holds.store hstored fun r' hr' hkey => ?_
      have hmeant : r' ∈ p.meant cp := (List.mem_cons.1 hr').elim (fun h => h ▸ hr) (hfilled r')
      exact MethodDeleter.output_congr (hinput r' hmeant hkey) houtput
  case failed =>
    exact fun e he s hs => hs.surround
      ⟨hs.source.wellFormed, hs.source.sound, hs.source.holds.cons_of_error he⟩
  case dump =>
    intro dump hdump name loader bytes s hs
    obtain ⟨root, -, hroot⟩ := Option.mem_map.1 hdump
    rw [← hroot, DumpDir.target, Act.ensures_zoom, Act.ensures_modifyGet]
    exact hs.surround (hs.source.dump ⟨root⟩ name loader bytes)

end DeletionPlan

namespace CommandLine

variable {env : Environment} {settings : AgentSettings} {cp : ClassPath} {agentArgs : String}
  {p : DeletionPlan} {cache : TransformCache} {order : List (String × LoaderId)}
  {filled : List TransformRequest} {n : Nat}

/-- Fills the cache for the classes of a list, in its order. -/
def warmupOver (env : Environment) (settings : AgentSettings) (cp : ClassPath) (agentArgs : String)
    (order : List (String × LoaderId)) : Attempt FileSystem CommandError WarmupResult := do
  match DeletionPlan.ofArguments env agentArgs with
  | .error missing => throw (.missing missing)
  | .ok plan =>
    let t := (plan.caching settings cp.source .id).transformer
    let transformAll : Act Workshop (Nat × TransformStats) := do
      let transformed ← transformEach cp t order
      return (transformed, ← Act.gets Prod.fst)
    let (transformed, stats) ←
      Attempt.act (Act.over DeleterAgent.freshWorkshop (fun w => w.2.2) transformAll)
    return { classes := order.length, transformed, stats }

/-- The cache is filled in the order in which the classes are listed. -/
theorem warmup_eq (env : Environment) (settings : AgentSettings) (cp : ClassPath)
    (agentArgs : String) :
    warmup env settings cp agentArgs = warmupOver env settings cp agentArgs cp.resources := rfl

/-- Transforms one class, and counts it if it changed. -/
def transformOne {σ : Type} (cp : ClassPath) (t : Transformer σ) (c : String × LoaderId) :
    Act σ Nat := do
  if ← t.accepts c.1 c.2 then
    match cp.request? c with
    | some r => return if (← t.apply r).isSome then 1 else 0
    | none => return 0
  else return 0

/-- No storage failure that has been counted is forgotten on the way. -/
theorem transformOne_counted {σ : Type} (cp : ClassPath) (t : CachingTransformer σ)
    (c : String × LoaderId) (n : Nat) :
    (transformOne cp t.transformer c).Preserves (Counted n) := by
  refine (CachingTransformer.zoom_counted (t.inner.accepts c.1 c.2) n).bind fun accepted => ?_
  cases accepted with
  | false => exact Act.preserves_pure _ _
  | true =>
    cases cp.request? c with
    | none => exact Act.preserves_pure _ _
    | some r => exact (t.apply_counted r n).bind fun _ => Act.preserves_pure _ _

theorem transformEach_cons {σ : Type} (cp : ClassPath) (t : Transformer σ) (c : String × LoaderId)
    (rest : List (String × LoaderId)) :
    transformEach cp t (c :: rest) = do
      let changed ← transformOne cp t c
      return changed + (← transformEach cp t rest) := by
  obtain ⟨name, loader⟩ := c
  rw [transformEach, transformOne, bind_assoc]
  refine bind_congr fun accepted => ?_
  cases accepted with
  | false => rfl
  | true =>
    rw [ClassPath.request?]
    match cp.find name loader with
    | .error e => rfl
    | .ok none => rfl
    | .ok (some (defining, bytes)) => simp

/-- One class adds its request, if the plan means it. -/
theorem transformOne_fills (hcache : settings.cache? = some cache) (hdistinct : cp.Distinct)
    {c : String × LoaderId} (hc : c ∈ cp.resources) (hfilled : ∀ r ∈ filled, r ∈ p.meant cp)
    {w : Workshop} (hw : Filled (p.Filling cp cache filled) n w) :
    (transformOne cp (p.transformer settings cp) c).Ensures w fun _ w' =>
      Filled (p.Filling cp cache ((p.due cp c).toList ++ filled)) n w' := by
  rcases hw with hcounted | ⟨hn, hw⟩
  · exact (transformOne_counted cp _ c (n + 1) w hcounted).imp fun _ _ => Or.inl
  · rw [transformOne, Act.ensures_bind, DeletionPlan.accepts_transformer, Act.ensures_zoom]
    refine (p.accepts_ensures hw c.1 c.2).imp fun accepted s haccepted => ?_
    obtain ⟨haccepted, hs⟩ := haccepted
    rw [DeletionPlan.due, ← haccepted]
    cases accepted with
    | false => exact Or.inr ⟨hn, hs⟩
    | true =>
      cases hrequest : cp.request? c with
      | none => exact Or.inr ⟨hn, hs⟩
      | some r =>
        have hmeant : r ∈ p.meant cp := by
          refine List.mem_filterMap.2 ⟨c, hc, ?_⟩
          rw [DeletionPlan.due, ← haccepted, if_pos rfl, hrequest]
        have hfills := p.caching_fills hcache hdistinct hmeant hfilled
        exact hfills.apply_ensures (DeletionPlan.store_caching hcache _ _)
          (DeletionPlan.mem_meant_iff.1 hmeant).2 (Or.inr ⟨hn, hs⟩)

/-- So the classes of a list add the requests for those that the plan means. -/
theorem transformEach_fills (hcache : settings.cache? = some cache) (hdistinct : cp.Distinct)
    (horder : ∀ c ∈ order, c ∈ cp.resources) (hfilled : ∀ r ∈ filled, r ∈ p.meant cp)
    {w : Workshop} (hw : Filled (p.Filling cp cache filled) n w) :
    (transformEach cp (p.transformer settings cp) order).Ensures w fun _ w' =>
      Filled (p.Filling cp cache (order.filterMap (p.due cp) ++ filled)) n w' := by
  -- each class adds to what is filled, so that is not fixed along the list
  induction order generalizing filled w with
  | nil => exact hw
  | cons c rest ih =>
    have hc : c ∈ cp.resources := horder c List.mem_cons_self
    rw [transformEach_cons, Act.ensures_bind]
    refine (transformOne_fills hcache hdistinct hc hfilled hw).imp fun changed w₁ hw₁ => ?_
    have hmeant : ∀ r ∈ (p.due cp c).toList ++ filled, r ∈ p.meant cp := by
      intro r hr
      rcases List.mem_append.1 hr with hr | hr
      · exact List.mem_filterMap.2 ⟨c, hc, Option.mem_toList.1 hr⟩
      · exact hfilled r hr
    rw [Act.ensures_bind]
    refine (ih (fun c' hc' => horder c' (List.mem_cons_of_mem c hc')) hmeant hw₁).imp
      fun _ w₂ hw₂ => ?_
    refine hw₂.imp fun s hs => hs.surround (hs.source.mono fun r hr => ?_)
    simp only [List.mem_append, List.mem_filterMap, List.mem_cons, Option.mem_toList] at hr ⊢
    rcases hr with ⟨c', rfl | hc', hdue⟩ | hr
    · exact Or.inr (Or.inl hdue)
    · exact Or.inl ⟨c', hc', hdue⟩
    · exact Or.inr (Or.inr hr)

/-- **Filling a cache leaves all results there**, in whatever order the classes are taken, unless a
storage failure is counted. -/
theorem warmupOver_fills (hcache : settings.cache? = some cache) (hdistinct : cp.Distinct)
    (hplan : DeletionPlan.ofArguments env agentArgs = .ok p) (horder : order.Perm cp.resources)
    {fs : FileSystem} (hwf : fs.WellFormed) (hfs : cache.Vacant fs) :
    (warmupOver env settings cp agentArgs order).Ensures fs fun res fs' =>
      ∀ result, res = .ok result → result.stats.storageFailures = 0 →
        p.Provided cp cache (p.meant cp) fs' := by
  have hstart : Filled (p.Filling cp cache []) 0 (DeleterAgent.freshWorkshop fs) :=
    Or.inr ⟨rfl, Hierarchy.Extends.refl _, Hierarchy.valid_empty, hwf, hfs.sound,
      fun r hr => absurd hr List.not_mem_nil⟩
  have hfilled := transformEach_fills hcache hdistinct (fun c hc => horder.mem_iff.1 hc)
    (fun r hr => absurd hr List.not_mem_nil) hstart
  rw [warmupOver, hplan]
  simp only [Attempt.ensures_bind, Attempt.ensures_act, Act.ensures_over, Act.ensures_bind]
  refine hfilled.imp fun changed w hw => ?_
  rintro _ ⟨⟩ hzero
  -- the count at the end is zero, so the cache has been filled all the way
  rcases hw with hcounted | ⟨-, hw⟩
  · exact absurd hzero (Nat.ne_of_gt hcounted)
  · refine hw.source.mono fun r hr => List.mem_append_left [] ?_
    obtain ⟨c, hc, hdue⟩ := List.mem_filterMap.1 hr
    exact List.mem_filterMap.2 ⟨c, horder.mem_iff.2 hc, hdue⟩

end CommandLine

end Reclass
