import Reclass.Proofs.ClassPath.Exportable
import Reclass.Proofs.DeleterAgent.Effect
import Reclass.Proofs.DeleterAgent.SideBySide
import Reclass.Proofs.DeleterAgent.Warmup

/-!
# Runs over a cache that has been filled

Filling a cache asks the loader that lists a class, while a run asks the one that defines it, which
may be the bootstrap loader. All the same the cache holds the results for all classes that a run can
hand over (`DeletionPlan.exists_meant`, `DeletionPlan.caching_serves`). So a later run calls the
deletion for those classes only on which it fails, whatever it loads before the agent and what after
it, and leaves the classes as a run without a cache does (`CommandLine.run_after_warmup`).

The two runs need not dump the same classes, though. Over a cache a class that the deletion has
nothing to do for is dumped as it is, and without one it is not. So they come to the same end unless
the classes are to be written out where a dump can be in the way (`CommandLine.EndAlike`), and there
one of them can fail alone (`CommandLine.run_after_warmup_dumpInTheWay`).
-/

set_option autoImplicit false

namespace Reclass

open CachingTransformer (Output Serves Tally SameWork unjournaled)
open Hierarchy (Stands)

namespace AgentSettings

/-- The same settings without a cache. -/
def uncached (s : AgentSettings) : AgentSettings := { s with cacheDir := none }

/-- The places where dumps make directories, if nothing is there at the start. -/
def dumpDirs (s : AgentSettings) (start : FileSystem) (place : Place) : Prop :=
  ∃ root, s.dumpDir = some root ∧ place ∈ start.trail root

end AgentSettings

namespace DeletionPlan

variable {p : DeletionPlan} {cp : ClassPath} {settings : AgentSettings} {cache : TransformCache}
  {start : FileSystem} {name : String} {loader : LoaderId} {bytes : Bytes} {r : TransformRequest}

theorem eligible_of_platformStub (hstub : ClassPath.platformStub name = some bytes)
    (he : p.eligible cp name loader = true) (loader' : LoaderId) :
    p.eligible cp name loader' = true := by
  unfold eligible at he ⊢
  by_cases hname : name = p.className
  · rw [if_pos hname]
  · rw [if_neg hname] at he ⊢
    by_cases hsubtypes : p.subtypes = true
    · rw [if_pos hsubtypes] at he ⊢
      have hok : cp.assignable p.className name loader = .ok true := by
        cases hassignable : cp.assignable p.className name loader with
        | error e =>
          rw [hassignable] at he
          cases he
        | ok answer =>
          rw [hassignable] at he
          exact congrArg Except.ok he
      rw [ClassPath.assignable_of_platformStub hstub hok loader']
      rfl
    · rw [if_neg hsubtypes] at he
      cases he

/-- **Filling a cache takes every class into account that a run can hand over.** The loader that
lists a class need not be the one that defines it, but the key and the bytes are the same. -/
theorem exists_meant (h : cp.Asks r.loader r.className r.bytes)
    (he : p.eligible cp r.className r.loader = true) :
    ∃ r' ∈ p.meant cp, r'.key = r.key ∧ r'.bytes = r.bytes := by
  obtain ⟨c, hc, hname, hfind⟩ := h
  cases hstub : ClassPath.platformStub r.className with
  | none =>
    -- the loader that defines the class lists it as well
    have hdefined := ClassPath.mem_resources_of_find hfind hstub
    have hrequest := ClassPath.mem_requests_of_find hdefined (ClassPath.find_defining hfind)
    exact ⟨_, mem_meant_iff.2 ⟨hrequest, he⟩, rfl, rfl⟩
  | some stub =>
    have he' := eligible_of_platformStub hstub he c.2
    rw [← hname] at hfind he'
    have hrequest := ClassPath.mem_requests_of_find hc hfind
    exact ⟨_, mem_meant_iff.2 ⟨hrequest, he'⟩, by rw [TransformRequest.key, hname]; rfl, rfl⟩

/-- The places of the dumps of classes that a run can hand over and the plan means. -/
def dumpFiles (p : DeletionPlan) (cp : ClassPath) (settings : AgentSettings) (start : FileSystem)
    (place : Place) : Prop :=
  ∃ root, settings.dumpDir = some root ∧ ∃ name loader bytes, cp.Asks loader name bytes ∧
    p.eligible cp name loader = true ∧ place = start.placeOf (DumpDir.pathFor ⟨root⟩ name loader)

/-- The files are those of the start with dumps of such classes. -/
abbrev Dumped (p : DeletionPlan) (cp : ClassPath) (settings : AgentSettings)
    (start fs : FileSystem) : Prop :=
  start.Supplements fs (settings.dumpDirs start) (p.dumpFiles cp settings start)

theorem Dumped.write {root : Path} {fs : FileSystem} (h : p.Dumped cp settings start fs)
    (hroot : settings.dumpDir = some root) (hasked : cp.Asks r.loader r.className r.bytes)
    (he : p.eligible cp r.className r.loader = true) (bytes : Bytes) :
    p.Dumped cp settings start (DumpDir.write ⟨root⟩ r.className r.loader bytes fs).2 := by
  refine h.trans ((DumpDir.supplements_write ⟨root⟩ r.className r.loader bytes fs).mono ?_ ?_)
  · intro place hplace
    rw [FileSystem.trail_congr h.cwd] at hplace
    exact ⟨root, hroot, hplace⟩
  · intro place hplace
    rw [FileSystem.placeOf_congr h.cwd] at hplace
    exact ⟨root, hroot, r.className, r.loader, r.bytes, hasked, he, hplace⟩

/-- Beside a transformer lies a cache that holds the results for all classes that the plan means,
among the files of the start and dumps. -/
abbrev Stocked (p : DeletionPlan) (cp : ClassPath) (cache : TransformCache)
    (settings : AgentSettings) (start : FileSystem) : Hierarchy × FileSystem → Prop :=
  Stands (Told cp.answer)
    (fun fs => p.Provided cp cache (p.meant cp) fs ∧ p.Dumped cp settings start fs) .empty

/-- **Over such a cache the transformer of the plan serves all classes** that a run hands over. -/
theorem caching_serves (hcache : settings.cache? = some cache) (start : FileSystem) :
    (p.caching settings cp.source .id).Serves (p.Stocked cp cache settings start) (p.eligible cp)
      (MethodDeleter.outcome p.method) fun r => cp.Asks r.loader r.className r.bytes := by
  constructor
  case accepts => exact fun name loader s hs => p.accepts_ensures hs name loader
  case edit => exact fun r s hs he => p.edit_ensures hs he
  case load =>
    intro store hstore r hr he s hs
    obtain ⟨r', hr', hkey, hbytes⟩ := exists_meant hr he
    rw [store_caching hcache, Option.mem_some_iff] at hstore
    rw [← hstore, TransformCache.resultStore, Act.ensures_zoom, Act.ensures_gets, ← hkey]
    obtain ⟨-, hsound, hholds⟩ := hs.source.1
    refine ⟨fun stored => (TransformCache.load_eq_ok_iff_output hsound hholds hr').trans ?_, hs⟩
    exact ⟨MethodDeleter.output_congr hbytes.symm, MethodDeleter.output_congr hbytes⟩
  case dump =>
    intro dump hdump r hr he bytes s hs
    obtain ⟨root, hroot, rfl⟩ := Option.mem_map.1 hdump
    rw [DumpDir.target, Act.ensures_zoom, Act.ensures_modifyGet]
    obtain ⟨hprovided, hdumped⟩ := hs.source
    exact hs.surround ⟨hprovided.dump ⟨root⟩ r.className r.loader bytes,
      hdumped.write hroot hr he bytes⟩

/-- Beside a transformer without a cache lie the files of the start and dumps. -/
abbrev Unstocked (p : DeletionPlan) (cp : ClassPath) (settings : AgentSettings)
    (start : FileSystem) : Hierarchy × FileSystem → Prop :=
  Stands (Told cp.answer) (fun fs => fs.WellFormed ∧ p.Dumped cp settings start fs) .empty

theorem uncached_maintains (p : DeletionPlan) (cp : ClassPath) (settings : AgentSettings)
    (start : FileSystem) :
    (p.caching settings.uncached cp.source .id).Maintains (p.Unstocked cp settings start)
      (p.eligible cp) (MethodDeleter.outcome p.method)
      fun r => cp.Asks r.loader r.className r.bytes :=
  p.maintains_without_cache cp rfl fun root hroot r hr he bytes _ hfs =>
    ⟨DumpDir.wellFormed_write hfs.1 ⟨root⟩ r.className r.loader bytes, hfs.2.write hroot hr he bytes⟩

/-- The run has been served so far: of the classes handed over those that the plan means have been
hits, but for those on which the deletion fails. -/
structure Served (p : DeletionPlan) (cp : ClassPath) (cache : TransformCache)
    (settings : AgentSettings) (start : FileSystem)
    (w : TransformStats × ((Hierarchy × FileSystem) × Journal)) (w' : CommandLine.Workshop) :
    Prop where
  stocked : p.Stocked cp cache settings start w.2.1
  tally : Tally (p.eligible cp) (MethodDeleter.outcome p.method) w.1 w.2.2
  uncached : p.Unstocked cp settings start w'.2

/-- **The transformer over a filled cache and the one without a cache answer alike**, and the first
one keeps its tally. -/
theorem journaling_alike_uncached (hcache : settings.cache? = some cache) (start : FileSystem) :
    (p.caching settings cp.source .id).journalingTransformer.Alike
      (p.transformer settings.uncached cp) (p.Served cp cache settings start)
      cp.Asks := by
  have hserves : (p.caching settings cp.source .id).Serves (p.Stocked cp cache settings start)
      _ _ _ := p.caching_serves hcache start
  have hmaintains := p.uncached_maintains cp settings start
  constructor
  · rintro name loader w w' ⟨hstocked, htally, huncached⟩
    obtain ⟨haccepted, hs⟩ := p.accepts_ensures hstocked name loader
    obtain ⟨haccepted', hs'⟩ := p.accepts_ensures huncached name loader
    exact ⟨haccepted'.trans haccepted.symm, hs, htally, hs'⟩
  · -- both answers are what the deletion makes of the bytes
    rintro r hr w w' ⟨hstocked, htally, huncached⟩
    obtain ⟨hanswer, hs, htally⟩ :=
      hserves.apply_ensures (store_caching hcache _ _) hr hstocked htally
    obtain ⟨hanswer', hs'⟩ := hmaintains.apply_ensures hr huncached
    exact ⟨(hanswer' (p.right_without_cache cp rfl _ _)).trans hanswer.symm, hs, htally, hs'⟩

end DeletionPlan

namespace CommandLine

/-- A workshop in which what is asked of the transformer is written down. -/
abbrev JournaledWorkshop : Type := TransformStats × ((Hierarchy × FileSystem) × Journal)

/-- A run on a fresh host with a fresh journal. -/
def runJournaled (env : Environment) (settings : AgentSettings) (cp : ClassPath)
    (agent agentArgs : String) (defer : List String) (out : Option Path) (fs : FileSystem) :
    Outcome (ClassPathHost JournaledWorkshop × JournaledWorkshop) (Except CommandError RunResult) :=
  let make := fun cp (p : DeletionPlan) => (p.caching settings cp.source .id).journalingTransformer
  (runWith make (.comp .snd (.comp .fst .snd)) env settings agent agentArgs defer out).result.run
    (.new cp, ({}, ((.empty, fs), {})))

variable {env : Environment} {settings : AgentSettings} {cp : ClassPath} {cache : TransformCache}
  {p : DeletionPlan} {agentArgs : String} {fs : FileSystem}

theorem runFresh_eq (env : Environment) (settings : AgentSettings) (cp : ClassPath)
    (agent agentArgs : String) (defer : List String) (out : Option Path) (fs : FileSystem) :
    runFresh env settings cp agent agentArgs defer out fs =
      (runWith (fun cp p => p.transformer settings cp) (.comp .snd .snd) env settings agent
        agentArgs defer out).result.run (.new cp, ({}, (.empty, fs))) := by
  rw [← runOnHost_eq]
  rfl

/-- **A run is the same with a journal.** -/
theorem runFresh_eq_runJournaled (env : Environment) (settings : AgentSettings) (cp : ClassPath)
    (agent agentArgs : String) (defer : List String) (out : Option Path) (fs : FileSystem) :
    let ran := runFresh env settings cp agent agentArgs defer out fs
    let journaled := runJournaled env settings cp agent agentArgs defer out fs
    ran.value = journaled.value ∧ ran.state.1.loaded = journaled.state.1.loaded ∧
      ran.state.2 = unjournaled journaled.state.2 := by
  intro ran journaled
  rw [show ran = _ from runFresh_eq env settings cp agent agentArgs defer out fs]
  exact runWith_side_by_side (K := SameWork) (.comp .snd (.comp .fst .snd)) (.comp .snd .snd)
    (fun p _ => CachingTransformer.journaling_alike _ cp.Asks) rfl agent defer out
    (Q := fun res s res' s' => res' = res ∧ s'.1.loaded = s.1.loaded ∧ s'.2 = unjournaled s.2)
    (fun e h h' w w' hloaded hw => ⟨rfl, hloaded, hw⟩)
    (by
      rintro result h h' w _ hloaded rfl
      exact ⟨rfl, hloaded, rfl⟩) rfl

/-- How two runs end that write the classes of `u` out to the files `start`, after each has dumped
some: alike, unless dumps can be in the way of the classes. -/
inductive EndAlike (p : DeletionPlan) (cp : ClassPath) (settings : AgentSettings)
    (start : FileSystem) (out : Option Path) (u : Universe)
    (res res' : Except CommandError RunResult) : Prop where
  /-- Both succeed with the same result, or fail for the same reason. -/
  | same (h : res' = res)
  /-- Both fail to write the classes out. Why may depend on what has been dumped, when the path of a
  class leads through a place where dumps go, or to one: `d/x/../../f/y` stops at a file `f` as soon
  as there is a directory `d/x`, and `f` is only met as something in the way of a new directory
  when `d/x` has to be made first. -/
  | bothFail {dir : Path} {cause cause' : Universe.ExportError} (hout : out = some dir)
      (hshows : Universe.Shows dir u.classes.toList start (settings.dumpDirs start)
        (p.dumpFiles cp settings start))
      (h : res = .error (.notWritten dir cause)) (h' : res' = .error (.notWritten dir cause'))
  /-- One of them fails to write the classes out. The path of a class leads through the place of a
  dump, where nothing was at the start, or to a directory that has been made for dumps. -/
  | blocked {dir : Path} {cause : Universe.ExportError} (hout : out = some dir)
      (hway : Universe.InTheWay dir u.classes.toList start (settings.dumpDirs start)
        (p.dumpFiles cp settings start))
      (h : res = .error (.notWritten dir cause) ∨ res' = .error (.notWritten dir cause))

theorem written_endAlike {out : Option Path} {result : RunResult} {u : Universe}
    {start fs fs' : FileSystem} (hwf : fs.WellFormed) (hdumped : p.Dumped cp settings start fs)
    (hwf' : fs'.WellFormed) (hdumped' : p.Dumped cp settings start fs') :
    EndAlike p cp settings start out u (written out result u fs).1
      (written out result u fs').1 := by
  cases out with
  | none => exact .same rfl
  | some dir =>
    rw [written, written]
    rcases hended : u.exportTo dir fs with ⟨cause | n, made⟩
    all_goals rcases hended' : u.exportTo dir fs' with ⟨cause' | n', made'⟩
    · by_cases hshows : Universe.Shows dir u.classes.toList start (settings.dumpDirs start)
          (p.dumpFiles cp settings start)
      · exact .bothFail rfl hshows rfl rfl
      · have hsame := (Universe.exportTo_congr hdumped' hshows).trans
          (Universe.exportTo_congr hdumped hshows).symm
        rw [hended, hended', Except.error.injEq] at hsame
        rw [hsame]
        exact .same rfl
    · exact .blocked rfl (Universe.inTheWay_of_exportTo hwf hdumped' hdumped
        (congrArg Prod.fst hended') (congrArg Prod.fst hended)) (Or.inl rfl)
    · exact .blocked rfl (Universe.inTheWay_of_exportTo hwf' hdumped hdumped'
        (congrArg Prod.fst hended) (congrArg Prod.fst hended')) (Or.inr rfl)
    · obtain ⟨rfl, -⟩ := Universe.exportTo_eq_ok (congrArg Prod.fst hended)
      obtain ⟨rfl, -⟩ := Universe.exportTo_eq_ok (congrArg Prod.fst hended')
      exact .same rfl

/-- **Over a filled cache a run is served**, and leaves the classes as one without a cache does. -/
theorem runJournaled_served (hcache : settings.cache? = some cache)
    (hplan : DeletionPlan.ofArguments env agentArgs = .ok p)
    (hprovided : p.Provided cp cache (p.meant cp) fs) (agent : String) (defer : List String)
    (out : Option Path) :
    let journaled := runJournaled env settings cp agent agentArgs defer out fs
    let uncached := runFresh env settings.uncached cp agent agentArgs defer out fs
    Tally (p.eligible cp) (MethodDeleter.outcome p.method) journaled.state.2.1
        journaled.state.2.2.2 ∧
      uncached.state.1.loaded = journaled.state.1.loaded ∧
      EndAlike p cp settings fs out journaled.state.1.loaded journaled.value uncached.value := by
  intro journaled uncached
  rw [show uncached = _ from runFresh_eq env settings.uncached cp agent agentArgs defer out fs]
  have hfresh := FileSystem.Supplements.refl fs (settings.dumpDirs fs)
    (p.dumpFiles cp settings fs)
  have hstart : p.Served cp cache settings fs ({}, ((.empty, fs), {})) ({}, (.empty, fs)) := by
    refine ⟨?_, CachingTransformer.tally_start _ _, ?_⟩
    · exact ⟨Hierarchy.Extends.refl _, Hierarchy.valid_empty, hprovided, hfresh⟩
    · exact ⟨Hierarchy.Extends.refl _, Hierarchy.valid_empty, hprovided.wellFormed, hfresh⟩
  have ht : ∀ p', DeletionPlan.ofArguments env agentArgs = .ok p' →
      (p'.caching settings cp.source .id).journalingTransformer.Alike
        (p'.transformer settings.uncached cp) (p.Served cp cache settings fs) cp.Asks := by
    intro p' hp'
    obtain rfl : p = p' := Except.ok.inj (hplan.symm.trans hp')
    exact p.journaling_alike_uncached hcache fs
  have hsettings : settings.uncached.redefinition = settings.redefinition := rfl
  exact runWith_side_by_side (.comp .snd (.comp .fst .snd)) (.comp .snd .snd) ht hsettings agent
    defer out
    (Q := fun res s res' s' =>
      Tally (p.eligible cp) (MethodDeleter.outcome p.method) s.2.1 s.2.2.2 ∧
        s'.1.loaded = s.1.loaded ∧ EndAlike p cp settings fs out s.1.loaded res res')
    (fun e h h' w w' hloaded hw => ⟨hw.tally, hloaded, .same rfl⟩)
    (by
      intro result h h' w w' hloaded hw
      -- both write out to the files of the start with what they have dumped
      obtain ⟨hprovided, hdumped⟩ := hw.stocked.source
      obtain ⟨hwf, hdumped'⟩ := hw.uncached.source
      exact ⟨⟨hw.tally.calls, hw.tally.failed, hw.tally.hits⟩, hloaded,
        written_endAlike hprovided.wellFormed hdumped hwf hdumped'⟩) hstart

/-- **Filling a cache covers a later run.** When the cache was empty and no storage failure has been
counted, a later run with the same arguments, with any agent, any deferred classes and any settings
that name the same cache, calls the deletion just for the classes that it is handed, that are meant
and on which the deletion fails. The other classes that are meant are hits. The run leaves the
classes as it would without the cache, and comes to the same end, unless classes are to be written
out where dumps can be in the way. -/
theorem run_after_warmup (env : Environment) (settings later : AgentSettings)
    (cache : TransformCache) (cp : ClassPath) (agentArgs : String)
    (order : List (String × LoaderId)) (fs : FileSystem) (result : WarmupResult)
    (hcache : settings.cache? = some cache) (hlater : later.cache? = some cache)
    (hwf : fs.WellFormed) (hdistinct : cp.Distinct) (hvacant : cache.Vacant fs)
    (horder : order.Perm cp.resources)
    (hresult : ((warmupOver env settings cp agentArgs order).result.run fs).value = .ok result)
    (hstored : result.stats.storageFailures = 0) :
    ∃ p, DeletionPlan.ofArguments env agentArgs = .ok p ∧
      ∀ (agent : String) (defer : List String) (out : Option Path) (process tempCount : Nat),
        let filled := ((warmupOver env settings cp agentArgs order).result.run fs).state
        let files := filled.inProcess process tempCount
        let ran := runFresh env later cp agent agentArgs defer out files
        let journaled := runJournaled env later cp agent agentArgs defer out files
        let uncached := runFresh env later.uncached cp agent agentArgs defer out files
        (ran.value = journaled.value ∧ ran.state.1.loaded = journaled.state.1.loaded ∧
            ran.state.2 = unjournaled journaled.state.2) ∧
          Tally (p.eligible cp) (MethodDeleter.outcome p.method) ran.state.2.1
            journaled.state.2.2.2 ∧
          uncached.state.1.loaded = ran.state.1.loaded ∧
          EndAlike p cp later files out ran.state.1.loaded ran.value uncached.value := by
  cases hplan : DeletionPlan.ofArguments env agentArgs with
  | error missing =>
    -- without a plan nothing is filled, and there is no result
    rw [warmupOver, hplan] at hresult
    cases hresult
  | ok p =>
    have hprovided :=
      warmupOver_fills hcache hdistinct hplan horder hwf hvacant result hresult hstored
    refine ⟨p, rfl, fun agent defer out process tempCount => ?_⟩
    intro filled files ran journaled uncached
    obtain ⟨hvalue, hloaded, hbeside⟩ :=
      runFresh_eq_runJournaled env later cp agent agentArgs defer out files
    obtain ⟨htally, huncached, hend⟩ := runJournaled_served hlater hplan
      (hprovided.inProcess process tempCount) agent defer out
    refine ⟨⟨hvalue, hloaded, hbeside⟩, ?_, huncached.trans hloaded.symm, ?_⟩
    · show Tally _ _ ran.state.2.1 _
      rw [hbeside]
      exact htally
    · show EndAlike p cp later files out ran.state.1.loaded ran.value _
      rw [hvalue, hloaded]
      exact hend

/-- Two roots: the second one has a class `a/A` that nobody sees, a subtype `a/B` of the class that
is seen under that name, and a subtype `a/C` with a byte too many. -/
def shadowedAndBroken : ClassPath :=
  let a := (ClassSketch.new "a/A").withMethod "m" "()V"
  let b := ((ClassSketch.new "a/B").withSuper (some "a/A")).withMethod "m" "()V"
  let c := ((ClassSketch.new "a/C").withSuper (some "a/A")).withMethod "m" "()V"
  ⟨[⟨"lib", .ofList [("a/A", a.encode)]⟩,
    ⟨"app", .ofList [("a/A", []), ("a/B", b.encode), ("a/C", c.encode ++ [0])]⟩]⟩

/-- One root with a class without methods. -/
def plainClass : ClassPath :=
  ⟨[⟨"cp", .ofList [("p/A", (ClassSketch.new "p/A").encode)]⟩]⟩

/-- Settings with a cache, and with a directory for dumps or without one. -/
def withCache (dumpDir : Option Path) : AgentSettings :=
  { version := "1", cacheDir := some "cache", dumpDir }

/-- The cache is filled on a file system without files, in reverse order. -/
def filledInReverse (cp : ClassPath) (agentArgs : String) :
    Outcome FileSystem (Except CommandError WarmupResult) :=
  (warmupOver [] (withCache none) cp agentArgs cp.resources.reverse).result.run ⟨[], [], 1, 0⟩

section

-- the runs below are evaluated step by step
set_option maxRecDepth 10000

/-- The deletion is called for the broken class alone; the other two classes are hits, one of them
when the agent has been started. All are dumped and written out. -/
theorem run_after_warmup_shadowedAndBroken :
    let arguments := "class=a.A,method=m,subtypes"
    let files := (filledInReverse shadowedAndBroken arguments).state.inProcess 2 0
    (filledInReverse shadowedAndBroken arguments).value = .ok ⟨4, 3, ⟨1, 3, 0, 1, 0⟩⟩ ∧
      (runJournaled [] (withCache (some "d")) shadowedAndBroken "method-deleter" arguments ["a.B"]
          (some "out") files).state.2.map TransformStats.hits
          (fun beside => beside.2.calls.map fun call => call.1.className) = (2, ["a/C"]) ∧
      (runFresh [] (withCache (some "d")).uncached shadowedAndBroken "method-deleter" arguments
          ["a.B"] (some "out") files).state.1.loaded =
        (runFresh [] (withCache (some "d")) shadowedAndBroken "method-deleter" arguments ["a.B"]
          (some "out") files).state.1.loaded ∧
      EndAlike ⟨"a/A", "m", true⟩ shadowedAndBroken (withCache (some "d")) files (some "out")
        (runFresh [] (withCache (some "d")) shadowedAndBroken "method-deleter" arguments ["a.B"]
          (some "out") files).state.1.loaded
        (runFresh [] (withCache (some "d")) shadowedAndBroken "method-deleter" arguments ["a.B"]
          (some "out") files).value
        (runFresh [] (withCache (some "d")).uncached shadowedAndBroken "method-deleter" arguments
          ["a.B"] (some "out") files).value := by
  have hresult : (filledInReverse shadowedAndBroken "class=a.A,method=m,subtypes").value =
      .ok ⟨4, 3, ⟨1, 3, 0, 1, 0⟩⟩ := by
    decide +kernel
  have hdistinct : shadowedAndBroken.Distinct := by decide +kernel
  have hvacant : TransformCache.Vacant ⟨"cache", "1"⟩ ⟨[], [], 1, 0⟩ :=
    TransformCache.vacant_of_no_entries rfl
  have hwf : FileSystem.WellFormed ⟨[], [], 1, 0⟩ := FileSystem.wellFormed_of_no_entries rfl rfl
  have hcovers := run_after_warmup [] (withCache none) (withCache (some "d")) ⟨"cache", "1"⟩
    shadowedAndBroken "class=a.A,method=m,subtypes" shadowedAndBroken.resources.reverse
    ⟨[], [], 1, 0⟩ _ rfl rfl hwf hdistinct hvacant (List.reverse_perm _) hresult rfl
  rw [← filledInReverse] at hcovers
  have hplan : DeletionPlan.ofArguments [] "class=a.A,method=m,subtypes" =
      .ok ⟨"a/A", "m", true⟩ := by
    decide +kernel
  obtain ⟨p, hp, hcovers⟩ := hcovers
  obtain rfl := Except.ok.inj (hplan.symm.trans hp)
  obtain ⟨-, -, hloaded, hend⟩ := hcovers "method-deleter" ["a.B"] (some "out") 2 0
  exact ⟨hresult, by decide +kernel, hloaded, hend⟩

/-- **A dumped class can be in the way.** A class that has been stored as it is is dumped over a
cache, and not without one. So a run that is to write the classes below the place of its dump fails
over a filled cache, and succeeds without one. -/
theorem run_after_warmup_dumpInTheWay :
    let files := (filledInReverse plainClass "class=p.A,method=m").state
    (withCache none).cache? = some ⟨"cache", "1"⟩ ∧
      (withCache (some "d")).cache? = some ⟨"cache", "1"⟩ ∧ plainClass.Distinct ∧
      TransformCache.Vacant ⟨"cache", "1"⟩ ⟨[], [], 1, 0⟩ ∧
      (filledInReverse plainClass "class=p.A,method=m").value = .ok ⟨1, 0, ⟨0, 1, 0, 0, 0⟩⟩ ∧
      (runFresh [] (withCache (some "d")) plainClass "method-deleter" "class=p.A,method=m" []
          (some "d/p.A#loaderId=1.class") files).value =
        .error (.notWritten "d/p.A#loaderId=1.class"
          (.directory "d/p.A#loaderId=1.class/p" .notDirectory)) ∧
      (runFresh [] (withCache (some "d")).uncached plainClass "method-deleter"
          "class=p.A,method=m" [] (some "d/p.A#loaderId=1.class") files).value =
        .ok ⟨1, 0, some 1, ⟨"method-deleter", "0.1.0", [⟨1, 0, 0, [], []⟩]⟩⟩ :=
  ⟨rfl, rfl, by decide +kernel, TransformCache.vacant_of_no_entries rfl, by decide +kernel,
    by decide +kernel, by decide +kernel⟩

end

end CommandLine

end Reclass
