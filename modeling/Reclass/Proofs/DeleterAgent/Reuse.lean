import Reclass.CommandLine.Execute
import Reclass.Proofs.DeleterAgent.Serving

/-!
# Runs over a cache that others have used

Earlier runs of the deleter leave results in a cache. A later run leaves every class with the bytes
it would have over an empty cache, if none of the earlier runs has deleted methods of another name
from a class file that the later one means as well (`DeleterRun.classes_over_reused_cache`). The
earlier runs keep the cache right for what the later one is going to ask, and what is right is all
that the later one can see of it. The condition is needed, for the key of a result does not tell the
names of methods apart (`DeleterRun.classes_over_cache_of_another_method`).
-/

set_option autoImplicit false

namespace Reclass

open CommandLine (Workshop)
open Hierarchy (Stands)
open ClassPathHost (loads)
open Universe (Fresh)

/-- A run of the deleter: it is started when some classes have been loaded, and then more are. -/
structure DeleterRun where
  path : ClassPath
  env : Environment
  settings : AgentSettings
  arguments : String
  before : List (String × LoaderId)
  after : List (String × LoaderId)

namespace DeleterRun

/-- What the arguments ask for. -/
def plan (run : DeleterRun) : Except MissingArgument DeletionPlan :=
  DeletionPlan.ofArguments run.env run.arguments

/-- The agent on the host of the run. -/
def go (run : DeleterRun) :
    Act (ClassPathHost Workshop × Workshop) (Except AgentError AgentReport) :=
  (CommandLine.registry run.env run.settings run.path).runAgent DeleterAgent.name
    ClassPathHost.instrumentation ClassPathHost.lift run.arguments

/-- The host and its workshop when the run is over. -/
def endState (run : DeleterRun) (fs : FileSystem) : ClassPathHost Workshop × Workshop :=
  loads run.after (run.go.run (loads run.before (CommandLine.freshHost run.path fs))).state

/-- The loaded classes when the run is over. -/
def classes (run : DeleterRun) (fs : FileSystem) : Universe := (run.endState fs).1.loaded

/-- The files when the run is over. -/
def files (run : DeleterRun) (fs : FileSystem) : FileSystem := (run.endState fs).2.2.2

/-- The classes that are loaded, with the loaders that define them and their bytes on the class
path. -/
def requests (run : DeleterRun) : List TransformRequest :=
  (run.before ++ run.after).filterMap fun c =>
    match run.path.find c.1 c.2 with
    | .ok (some (defining, bytes)) => some ⟨defining, c.1, none, bytes⟩
    | _ => none

/-- The classes that are loaded and that the plan means. -/
def meant (run : DeleterRun) : List TransformRequest :=
  match run.plan with
  | .error _ => []
  | .ok p => run.requests.filter fun r => p.eligible run.path r.className r.loader

/-- The name of the methods to be deleted. -/
def method? (run : DeleterRun) : Option String := run.plan.toOption.map DeletionPlan.method

/-- The class is one of those that are loaded. -/
def Asks (run : DeleterRun) (loader : LoaderId) (name : String) (bytes : Bytes) : Prop :=
  ⟨loader, name, none, bytes⟩ ∈ run.requests

theorem asks_of_find {run : DeleterRun} {c : String × LoaderId} (hc : c ∈ run.before ++ run.after)
    {found : LoaderId × Bytes} (hfind : run.path.find c.1 c.2 = .ok (some found)) :
    run.Asks found.1 c.1 found.2 := by
  refine List.mem_filterMap.2 ⟨c, hc, ?_⟩
  rw [hfind]

theorem mem_meant {run : DeleterRun} {p : DeletionPlan} (hp : run.plan = .ok p)
    {r : TransformRequest} (hr : run.Asks r.loader r.className r.bytes)
    (he : p.eligible run.path r.className r.loader = true) :
    { r with redefining := none } ∈ run.meant := by
  rw [meant, hp]
  exact List.mem_filter.2 ⟨hr, he⟩

theorem meant_subset {run : DeleterRun} {r : TransformRequest} (hr : r ∈ run.meant) :
    r ∈ run.requests := by
  unfold meant at hr
  cases hp : run.plan with
  | error missing =>
    rw [hp] at hr
    cases hr
  | ok p =>
    rw [hp] at hr
    exact (List.mem_filter.1 hr).1

/-! ### One run -/

/-- The transformer that the run installs for a plan. -/
def transformer (run : DeleterRun) (p : DeletionPlan) : Transformer Workshop :=
  (p.caching run.settings run.path.source .id).transformer

theorem go_eq (run : DeleterRun) :
    run.go = match run.plan with
      | .error missing => pure (.error (.notCreated DeleterAgent.name [missing.message]))
      | .ok p => do
        match ← (DeleterAgent.agent run.settings (run.transformer p)).go
            ClassPathHost.instrumentation ClassPathHost.lift with
        | .error e => return .error (.notRun DeleterAgent.name e)
        | .ok report => return .ok report := by
  rw [go, AgentRegistry.runAgent, CommandLine.registry, SortedMap.get?_insert, if_pos rfl]
  dsimp only [DeleterAgent.factory]
  show _ = match DeletionPlan.ofArguments run.env run.arguments with
    | .error missing => _
    | .ok p => _
  cases DeletionPlan.ofArguments run.env run.arguments with
  | error missing => rfl
  | ok p => rfl

variable {run : DeleterRun} {K : Workshop → Workshop → Prop} {u : Universe}

theorem go_lockstep
    (ht : ∀ p, run.plan = .ok p → (run.transformer p).Alike (run.transformer p) K run.Asks)
    (hf : Fresh run.Asks (fun _ => False) u) :
    run.go.Alike run.go ((HostPair.mk run.path [] [] K).At u)
      fun _ => Agent.Installed run.path K run.Asks := by
  rw [go_eq]
  cases hplan : run.plan with
  | error missing =>
    exact Act.alike_pure _ fun _ _ hs => ⟨[], [], u, .none, hs, hf.mono fun _ _ => trivial⟩
  | ok p =>
    refine (Agent.go_lockstep (ht p hplan) rfl rfl rfl rfl rfl hf).bind fun result => ?_
    cases result with
    | error e => exact Act.alike_pure _ fun _ _ hs => hs
    | ok report => exact Act.alike_pure _ fun _ _ hs => hs

/-- When the transformer that may come up answers two file systems alike, so does the run. -/
theorem endState_lockstep
    (ht : ∀ p, run.plan = .ok p → (run.transformer p).Alike (run.transformer p) K run.Asks)
    {fs fs' : FileSystem}
    (hK : K (DeleterAgent.freshWorkshop fs) (DeleterAgent.freshWorkshop fs')) :
    run.classes fs' = run.classes fs ∧ K (run.endState fs).2 (run.endState fs').2 := by
  have hnew : (HostPair.mk run.path [] [] K).At .empty (CommandLine.freshHost run.path fs)
      (CommandLine.freshHost run.path fs') :=
    ⟨rfl, rfl, hK⟩
  obtain ⟨u, hbefore, hf⟩ := ClassPathHost.loads_lockstep .none (Or.inl rfl)
    (fun c hc _ hfind => asks_of_find (List.mem_append_left run.after hc) hfind)
    ⟨Universe.numbered_empty, nofun⟩ hnew
  obtain ⟨-, hooks, hooks', u', hhooks, hgo, hf'⟩ := go_lockstep ht hf _ _ hbefore
  obtain ⟨u'', hafter, -⟩ := ClassPathHost.loads_lockstep hhooks (Or.inr fun _ => trivial)
    (fun c hc _ hfind => asks_of_find (List.mem_append_right run.before hc) hfind) hf' hgo
  refine ⟨?_, hafter.related⟩
  rw [classes, classes, endState, endState, hafter.fst_eq, hafter.fst_eq']

/-! ### Runs one after the other -/

variable {cache : TransformCache} {method : String} {rs : List TransformRequest}

/-- **A run keeps a cache right** for the requests of another one that its plan agrees with. -/
theorem files_sound (hcache : run.settings.cache? = some cache)
    (hagrees : ∀ p, run.plan = .ok p → p.Agrees run.path method rs run.Asks) {fs : FileSystem}
    (hfs : cache.Sound (MethodDeleter.outcome method) rs fs) :
    cache.Sound (MethodDeleter.outcome method) rs (run.files fs) := by
  have ht := fun p hp => DeletionPlan.transformer_keeps hcache (hagrees p hp)
  have hstart : DeletionPlan.Beside run.path cache method rs (.empty, fs) :=
    ⟨Hierarchy.Extends.refl _, Hierarchy.valid_empty, hfs⟩
  exact (endState_lockstep ht ⟨rfl, hstart⟩).2.2.source

/-- What a history of runs leaves of the files. -/
def filesAfter (history : List DeleterRun) (fs : FileSystem) : FileSystem :=
  history.foldl (fun fs run => run.files fs) fs

theorem filesAfter_sound {history : List DeleterRun} {fs : FileSystem}
    (hcache : ∀ run ∈ history, run.settings.cache? = some cache)
    (hagrees : ∀ run ∈ history, ∀ p, run.plan = .ok p → p.Agrees run.path method rs run.Asks)
    (hfs : cache.Sound (MethodDeleter.outcome method) rs fs) :
    cache.Sound (MethodDeleter.outcome method) rs (filesAfter history fs) := by
  induction history generalizing fs with
  | nil => exact hfs
  | cons run history ih =>
    have hrun := files_sound (hcache run List.mem_cons_self) (hagrees run List.mem_cons_self) hfs
    exact ih (fun r hr => hcache r (List.mem_cons_of_mem run hr))
      (fun r hr => hagrees r (List.mem_cons_of_mem run hr)) hrun

/-- What two runs ask under one key has one input. -/
theorem bytes_eq_of_key {runs : List DeleterRun} (hfree : CollisionFree (runs.flatMap requests))
    {last : DeleterRun} (hrun : run ∈ runs) (hlast : last ∈ runs) {r r' : TransformRequest}
    (hr : run.Asks r.loader r.className r.bytes) (hr' : r' ∈ last.meant) (hkey : r'.key = r.key) :
    r'.bytes = r.bytes := by
  obtain ⟨hname, hsum⟩ := CacheKey.mk.inj hkey
  exact hfree r' (List.mem_flatMap.2 ⟨last, hlast, meant_subset hr'⟩)
    ⟨r.loader, r.className, none, r.bytes⟩ (List.mem_flatMap.2 ⟨run, hrun, hr⟩) hname hsum

/-- Where two runs delete methods of one name, or mean no class file in common, what the one makes of
its classes is right for the other. -/
theorem agrees_of_method {runs : List DeleterRun} (hfree : CollisionFree (runs.flatMap requests))
    {last : DeleterRun} (hrun : run ∈ runs) (hlast : last ∈ runs)
    (hmethod : run.method? = last.method? ∨ ∀ r ∈ run.meant, ∀ r' ∈ last.meant,
      ClassName.qualified r.className = ClassName.qualified r'.className → r.bytes ≠ r'.bytes)
    {p q : DeletionPlan} (hp : run.plan = .ok p) (hq : last.plan = .ok q) :
    p.Agrees run.path q.method last.meant run.Asks := by
  intro r hr he r' hr' hkey
  have hbytes := bytes_eq_of_key hfree hrun hlast hr hr' hkey
  refine ⟨?_, hbytes⟩
  rcases hmethod with hsame | hapart
  · rw [method?, method?, hp, hq] at hsame
    exact Option.some.inj hsame
  · -- the class is meant by both, with one input
    have hname := (CacheKey.mk.inj hkey).1
    exact absurd hbytes.symm (hapart _ (mem_meant hp hr he) r' hr' hname.symm)

/-- **Reuse of a cache changes no class.** Runs of the deleter use one cache, one after the other.
The last one leaves every class with the bytes it would have over a cache without results, if every
earlier one deleted methods of the same name or meant no class that the last one means with the same
input. The runs may name different classes, mean subtypes or not, work on different class paths,
come to nothing for want of arguments, and have storage fail on them. -/
theorem classes_over_reused_cache (cache : TransformCache) (history : List DeleterRun)
    (last : DeleterRun) (fs fs' : FileSystem)
    (hcache : ∀ run ∈ last :: history, run.settings.cache? = some cache)
    (hmethod : ∀ run ∈ history, run.method? = last.method? ∨ ∀ r ∈ run.meant, ∀ r' ∈ last.meant,
      ClassName.qualified r.className = ClassName.qualified r'.className → r.bytes ≠ r'.bytes)
    (hfree : CollisionFree ((last :: history).flatMap requests))
    (hfs : cache.Vacant fs) (hfs' : cache.Vacant fs') :
    last.classes (filesAfter history fs) = last.classes fs' := by
  cases hlast : last.plan with
  | error missing =>
    -- nothing is installed, and no cache is looked at
    have ht : ∀ p, last.plan = .ok p →
        (last.transformer p).Alike (last.transformer p) (fun _ _ => True) last.Asks := by
      intro p hp
      rw [hlast] at hp
      cases hp
    exact (endState_lockstep ht trivial).1
  | ok q =>
    have hothers : ∀ run ∈ history, ∀ p, run.plan = .ok p →
        p.Agrees run.path q.method last.meant run.Asks :=
      fun run hrun _ hp => agrees_of_method hfree (List.mem_cons_of_mem last hrun)
        List.mem_cons_self (hmethod run hrun) hp hlast
    have hreused := filesAfter_sound (fun run hrun => hcache run (List.mem_cons_of_mem last hrun))
      hothers hfs.sound
    have ht : ∀ p, last.plan = .ok p → (last.transformer p).Alike (last.transformer p)
        (fun w w' => DeletionPlan.Beside last.path cache q.method last.meant w.2 ∧
          DeletionPlan.Beside last.path cache q.method last.meant w'.2) last.Asks := by
      intro p hp
      obtain rfl : q = p := Except.ok.inj (hlast.symm.trans hp)
      have hown := agrees_of_method hfree List.mem_cons_self List.mem_cons_self (Or.inl rfl) hp hp
      exact DeletionPlan.transformer_alike (hcache last List.mem_cons_self) hown
        fun r hr he => mem_meant hp hr he
    have hstart : ∀ {files}, cache.Sound (MethodDeleter.outcome q.method) last.meant files →
        DeletionPlan.Beside last.path cache q.method last.meant (.empty, files) :=
      fun h => ⟨Hierarchy.Extends.refl _, Hierarchy.valid_empty, h⟩
    exact (endState_lockstep ht ⟨hstart hfs'.sound, hstart hreused⟩).1

/-- A run on a class `a/A` and its subtype `a/B`, of which `a/B` is loaded last. -/
def onTwoClasses (arguments : String) : DeleterRun :=
  let a := (ClassSketch.new "a/A").withMethod "m" "()V"
  let b := ((ClassSketch.new "a/B").withSuper (some "a/A")).withMethod "m" "()V"
  { path := ⟨[⟨"root", .ofList [("a/A", a.encode), ("a/B", b.encode)]⟩]⟩
    env := []
    settings := { version := "1", cacheDir := some "cache", dumpDir := none }
    arguments
    before := [("a/A", ⟨1⟩)]
    after := [("a/B", ⟨1⟩)] }

/-- One run leaves a result for `a/A`, one deletes methods of another name from `a/B` alone, and one
has no arguments. -/
def threeRuns : List DeleterRun :=
  ["class=a.A,method=m,subtypes", "class=a.B,method=n", ""].map onTwoClasses

/-- A file system on which nothing has been written. -/
def noFiles : FileSystem := ⟨[], [], 1, 0⟩

theorem requests_onTwoClasses (arguments : String) :
    (onTwoClasses arguments).requests = (onTwoClasses "").requests := rfl

theorem collisionFree_onTwoClasses (arguments : List String) :
    CollisionFree ((arguments.map onTwoClasses).flatMap requests) := by
  have hbytes : ∀ r ∈ (onTwoClasses "").requests, ∀ r' ∈ (onTwoClasses "").requests,
      ClassName.qualified r.className = ClassName.qualified r'.className → r.bytes = r'.bytes := by
    decide +kernel
  -- the arguments change nothing about what is loaded
  have hrequests : ∀ r ∈ (arguments.map onTwoClasses).flatMap requests,
      r ∈ (onTwoClasses "").requests := by
    intro r hr
    obtain ⟨run, hrun, hr⟩ := List.mem_flatMap.1 hr
    obtain ⟨args, -, rfl⟩ := List.mem_map.1 hrun
    rw [requests_onTwoClasses] at hr
    exact hr
  exact fun r hr r' hr' hname _ => hbytes r (hrequests r hr) r' (hrequests r' hr') hname

section

-- the runs below are evaluated step by step
set_option maxRecDepth 10000

/-- The result that one of the three runs has left is found again. -/
theorem classes_over_reused_cache_threeRuns :
    ((onTwoClasses "class=a.A,method=m").endState (filesAfter threeRuns noFiles)).2.1.hits = 1 ∧
      (onTwoClasses "class=a.A,method=m").classes (filesAfter threeRuns noFiles) =
        (onTwoClasses "class=a.A,method=m").classes noFiles := by
  have hcache : ∀ run ∈ onTwoClasses "class=a.A,method=m" :: threeRuns,
      run.settings.cache? = some ⟨"cache", "1"⟩ := by
    decide +kernel
  have hmethod : ∀ run ∈ threeRuns, run.method? = (onTwoClasses "class=a.A,method=m").method? ∨
      ∀ r ∈ run.meant, ∀ r' ∈ (onTwoClasses "class=a.A,method=m").meant,
        ClassName.qualified r.className = ClassName.qualified r'.className →
          r.bytes ≠ r'.bytes := by
    decide +kernel
  have hfree := collisionFree_onTwoClasses ["class=a.A,method=m", "class=a.A,method=m,subtypes",
    "class=a.B,method=n", ""]
  have hvacant : TransformCache.Vacant ⟨"cache", "1"⟩ noFiles :=
    TransformCache.vacant_of_no_entries rfl
  exact ⟨by decide +kernel, classes_over_reused_cache ⟨"cache", "1"⟩ threeRuns
    (onTwoClasses "class=a.A,method=m") noFiles noFiles hcache hmethod hfree hvacant hvacant⟩

/-- **A run is handed the result of a run for another method** when both mean one class file: over
the cache of the first run the second one deletes the methods of the first. No storage fails. -/
theorem classes_over_cache_of_another_method :
    (onTwoClasses "class=a.A,method=m").settings.cache? = some ⟨"cache", "1"⟩ ∧
      (onTwoClasses "class=a.A,method=n").settings.cache? = some ⟨"cache", "1"⟩ ∧
      TransformCache.Vacant ⟨"cache", "1"⟩ noFiles ∧
      CollisionFree ((["class=a.A,method=n", "class=a.A,method=m"].map onTwoClasses).flatMap
        requests) ∧
      ((onTwoClasses "class=a.A,method=m").endState noFiles).2.1.storageFailures = 0 ∧
      ((onTwoClasses "class=a.A,method=n").endState
        ((onTwoClasses "class=a.A,method=m").files noFiles)).2.1.storageFailures = 0 ∧
      (onTwoClasses "class=a.A,method=n").classes
          ((onTwoClasses "class=a.A,method=m").files noFiles) ≠
        (onTwoClasses "class=a.A,method=n").classes noFiles :=
  ⟨rfl, rfl, TransformCache.vacant_of_no_entries rfl, collisionFree_onTwoClasses _,
    by decide +kernel, by decide +kernel, by decide +kernel⟩

end

end DeleterRun

end Reclass
