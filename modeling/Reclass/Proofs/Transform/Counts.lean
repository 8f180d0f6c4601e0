import Reclass.Proofs.Transform.Lockstep
import Reclass.Proofs.Transform.Refinement

/-!
# What a caching transformer counts

Every counter of a caching transformer counts one kind of deed: of the edit, of the store, or of the
place where results are shown. To say so, the deeds are written down beside the state
(`CachingTransformer.noting`), which changes nothing else (`CachingTransformer.noting_alike`). What
a call adds to the counters and what it adds to the deeds is balanced with its request (`Balanced`),
in each of the ways in which it can go (`CachingTransformer.apply_balanced`), and what is balanced
stays so when it is put together (`Balanced.add`). So it is balanced after any number of calls
(`CachingTransformer.counts_balanced`), whatever the edit does and whichever loads, stores and dumps
fail.
-/

set_option autoImplicit false

namespace Reclass

variable {σ : Type}

/-! ### Deeds -/

/-- Something that is asked on behalf of a caching transformer, with the answer. -/
inductive Deed where
  | decided (className : String) (loader : LoaderId) (accepted : Bool)
  | edited (r : TransformRequest) (outcome : EditOutcome)
  | loaded (k : CacheKey) (found : Except StorageError (Option Bytes))
  | stored (k : CacheKey) (result : Bytes) (written : Except StorageError Path)
  | dumped (className : String) (loader : LoaderId) (bytes : Bytes)
      (written : Except StorageError Path)

namespace Deed

/-- The class that a decision is about. -/
def asked : Deed → Option (String × LoaderId)
  | decided name loader _ => some (name, loader)
  | _ => none

/-- A request turns out to be eligible. -/
def eligible : Deed → Bool
  | decided _ _ accepted => accepted
  | _ => false

/-- The edit is called. -/
def calls : Deed → Bool
  | edited _ _ => true
  | _ => false

/-- The edit is called, and fails or is aborted. -/
def callFails : Deed → Bool
  | edited _ (.done _) => false
  | edited _ _ => true
  | _ => false

def loadFails : Deed → Bool
  | loaded _ (.error _) => true
  | _ => false

def storeFails : Deed → Bool
  | stored _ _ (.error _) => true
  | _ => false

/-- A result has been shown. -/
def shows : Deed → Bool
  | dumped _ _ _ (.ok _) => true
  | _ => false

end Deed

instance : Zero TransformStats := ⟨{}⟩

instance : Add TransformStats where
  add s t :=
    { hits := s.hits + t.hits
      misses := s.misses + t.misses
      storageFailures := s.storageFailures + t.storageFailures
      transformFailures := s.transformFailures + t.transformFailures
      dumps := s.dumps + t.dumps }

theorem TransformStats.add_assoc (s t u : TransformStats) : s + t + u = s + (t + u) := by
  show TransformStats.mk _ _ _ _ _ = TransformStats.mk _ _ _ _ _
  congr 1 <;> exact Nat.add_assoc _ _ _

theorem TransformStats.zero_add (s : TransformStats) : 0 + s = s := by
  show TransformStats.mk _ _ _ _ _ = s
  congr 1 <;> exact Nat.zero_add _

/-- The deeds are done for the requests `rs`, and the counts say of them what they should; `cached`
tells whether there is a store. -/
structure Balanced (cached : Bool) (rs : List TransformRequest) (stats : TransformStats)
    (deeds : List Deed) : Prop where
  /-- Each request is decided on once, in order. -/
  decisions : deeds.filterMap Deed.asked = rs.map fun r => (r.className, r.loader)
  /-- Every eligible request is a hit or a call of the edit. -/
  requests : stats.hits + deeds.countP Deed.calls = deeds.countP Deed.eligible
  /-- Over a store, the edit is called after a miss or a failed load. -/
  calls : cached = true → deeds.countP Deed.calls = stats.misses + deeds.countP Deed.loadFails
  unused : cached = false → stats.hits = 0 ∧ stats.misses = 0 ∧ stats.storageFailures = 0
  storage : stats.storageFailures = deeds.countP Deed.loadFails + deeds.countP Deed.storeFails
  failures : stats.transformFailures = deeds.countP Deed.callFails
  dumps : stats.dumps = deeds.countP Deed.shows

namespace Balanced

variable {cached : Bool} {rs rs' : List TransformRequest} {stats stats' : TransformStats}
  {deeds deeds' : List Deed}

/-- Before anything is done nothing is counted. -/
theorem nil (cached : Bool) : Balanced cached [] 0 [] :=
  ⟨rfl, rfl, fun _ => rfl, fun _ => ⟨rfl, rfl, rfl⟩, rfl, rfl, rfl⟩

/-- **What is balanced stays so when it is put together.** -/
theorem add (h : Balanced cached rs stats deeds) (h' : Balanced cached rs' stats' deeds') :
    Balanced cached (rs ++ rs') (stats + stats') (deeds ++ deeds') where
  decisions := by rw [List.filterMap_append, List.map_append, h.decisions, h'.decisions]
  requests := by
    show stats.hits + stats'.hits + _ = _
    rw [List.countP_append, List.countP_append, ← h.requests, ← h'.requests]
    omega
  calls hcached := by
    show _ = stats.misses + stats'.misses + _
    rw [List.countP_append, List.countP_append, h.calls hcached, h'.calls hcached]
    omega
  unused hcached := by
    obtain ⟨hhits, hmisses, hfailures⟩ := h.unused hcached
    obtain ⟨hhits', hmisses', hfailures'⟩ := h'.unused hcached
    show stats.hits + stats'.hits = 0 ∧ stats.misses + stats'.misses = 0 ∧
      stats.storageFailures + stats'.storageFailures = 0
    omega
  storage := by
    show stats.storageFailures + stats'.storageFailures = _
    rw [List.countP_append, List.countP_append, h.storage, h'.storage]
    omega
  failures := by
    show stats.transformFailures + stats'.transformFailures = _
    rw [List.countP_append, h.failures, h'.failures]
  dumps := by
    show stats.dumps + stats'.dumps = _
    rw [List.countP_append, h.dumps, h'.dumps]

end Balanced

/-! ### Writing down what is done -/

/-- The edit, with its decisions and calls written down. -/
def Transformation.noting (t : Transformation σ) : Transformation (σ × List Deed) where
  accepts name loader := (t.accepts name loader).noted (.decided name loader)
  edit r := (t.edit r).noted (.edited r)

/-- The store, with loads and stores written down. -/
def ResultStore.noting (store : ResultStore σ) : ResultStore (σ × List Deed) where
  load k := (store.load k).noted (.loaded k)
  store k result := (store.store k result).noted (.stored k result)
  path := store.path

/-- The place for showing results, with what is shown written down. -/
def DumpTarget.noting (dump : DumpTarget σ) : DumpTarget (σ × List Deed) where
  write name loader bytes := (dump.write name loader bytes).noted (.dumped name loader bytes)

namespace CachingTransformer

/-- The transformer, with everything written down that it asks of its parts. -/
def noting (c : CachingTransformer σ) : CachingTransformer (σ × List Deed) where
  inner := c.inner.noting
  store := c.store.map ResultStore.noting
  dump := c.dump.map DumpTarget.noting

theorem noting_store (c : CachingTransformer σ) :
    c.noting.store = c.store.map ResultStore.noting := rfl

theorem noting_dump (c : CachingTransformer σ) :
    c.noting.dump = c.dump.map DumpTarget.noting := rfl

/-- The state without the notes. -/
abbrev Unnoted (w : σ × List Deed) (s : σ) : Prop := s = w.1

/-- **Writing down what is done changes nothing else.** -/
theorem noting_alike (c : CachingTransformer σ) : c.noting.Alike c Unnoted where
  inner := ⟨fun _ _ => Act.noted_alike _ _, fun _ => Act.noted_alike _ _⟩
  store := by
    rw [noting_store]
    cases c.store with
    | none => exact .none
    | some store =>
      exact .some ⟨fun _ => Act.noted_alike _ _, rfl, fun _ _ => Act.noted_alike _ _⟩
  dump := by
    rw [noting_dump]
    cases c.dump with
    | none => exact .none
    | some dump => exact .some fun _ _ _ => Act.noted_alike _ _

/-! ### One call -/

/-- The ways in which an eligible request comes to its result, `cached` telling whether there is a
store: what is counted and done on the way. -/
inductive Route : (cached : Bool) → TransformStats → List Deed → EditResult → Prop where
  | direct (r : TransformRequest) (outcome : EditOutcome) :
      Route false 0 [.edited r outcome] outcome.guarded
  | hit (k : CacheKey) (bytes : Bytes) :
      Route true { hits := 1 } [.loaded k (.ok (some bytes))] (.ok (some bytes))
  | unread (k : CacheKey) (e : StorageError) (r : TransformRequest) (outcome : EditOutcome) :
      Route true { storageFailures := 1 } [.loaded k (.error e), .edited r outcome] outcome.guarded
  | failed (k : CacheKey) (r : TransformRequest) (outcome : EditOutcome) (e : TransformError)
      (h : outcome.guarded = .error e) :
      Route true { misses := 1 } [.loaded k (.ok none), .edited r outcome] (.error e)
  | stored (k : CacheKey) (r : TransformRequest) (result : Option Bytes) (output : Bytes)
      (path : Path) :
      Route true { misses := 1 }
        [.loaded k (.ok none), .edited r (.done result), .stored k output (.ok path)]
        (.ok (some output))
  | unstored (k : CacheKey) (r : TransformRequest) (result : Option Bytes) (output : Bytes)
      (e : StorageError) :
      Route true { misses := 1, storageFailures := 1 }
        [.loaded k (.ok none), .edited r (.done result), .stored k output (.error e)]
        (.ok (some output))

/-- What a failure of the edit adds to the counts. -/
def failure : EditResult → TransformStats
  | .ok _ => 0
  | .error _ => { transformFailures := 1 }

/-- Every way to a result is balanced, with the request that it starts from. -/
theorem Route.balanced {cached : Bool} {stats : TransformStats} {deeds : List Deed}
    {result : EditResult} (h : Route cached stats deeds result) (asked : TransformRequest) :
    Balanced cached [asked] (stats + failure result)
      (.decided asked.className asked.loader true :: deeds) := by
  cases h with
  | direct r outcome =>
    match outcome with
    | .done _ | .failed _ | .aborted (.text _) | .aborted .other =>
      exact ⟨rfl, rfl, nofun, fun _ => ⟨rfl, rfl, rfl⟩, rfl, rfl, rfl⟩
  | hit k bytes => exact ⟨rfl, rfl, fun _ => rfl, nofun, rfl, rfl, rfl⟩
  | unread k e r outcome =>
    match outcome with
    | .done _ | .failed _ | .aborted (.text _) | .aborted .other =>
      exact ⟨rfl, rfl, fun _ => rfl, nofun, rfl, rfl, rfl⟩
  | failed k r outcome e hfails =>
    match outcome with
    | .done _ => cases hfails
    | .failed _ | .aborted _ => exact ⟨rfl, rfl, fun _ => rfl, nofun, rfl, rfl, rfl⟩
  | stored k r result output path => exact ⟨rfl, rfl, fun _ => rfl, nofun, rfl, rfl, rfl⟩
  | unstored k r result output e => exact ⟨rfl, rfl, fun _ => rfl, nofun, rfl, rfl, rfl⟩

/-- From the first state to the second `stats` are counted and `deeds` are done. -/
structure Advances (w w' : TransformStats × (σ × List Deed)) (stats : TransformStats)
    (deeds : List Deed) : Prop where
  stats : w'.1 = w.1 + stats
  deeds : w'.2.2 = w.2.2 ++ deeds

section Call

variable {w w' w'' : TransformStats × (σ × List Deed)} {stats stats' : TransformStats}
  {deeds deeds' : List Deed}

/-- Something is counted. -/
theorem Advances.counted (stats : TransformStats) : Advances w (w.1 + stats, w.2) stats [] :=
  ⟨rfl, (List.append_nil _).symm⟩

theorem Advances.trans (h : Advances w w' stats deeds) (h' : Advances w' w'' stats' deeds') :
    Advances w w'' (stats + stats') (deeds ++ deeds') where
  stats := by rw [h'.stats, h.stats, TransformStats.add_assoc]
  deeds := by rw [h'.deeds, h.deeds, List.append_assoc]

/-- Something is counted, and a deed is written down. -/
theorem Advances.noted (stats : TransformStats) (deed : Deed) (s : σ) :
    Advances w (w.1 + stats, s, w.2.2 ++ [deed]) stats [deed] :=
  ⟨rfl, rfl⟩

variable (c : CachingTransformer σ) (r : TransformRequest)

theorem runInner_advances (w : TransformStats × (σ × List Deed)) :
    (c.noting.runInner r).Ensures w fun result w' =>
      ∃ outcome, Advances w w' 0 [.edited r outcome] ∧ result = outcome.guarded :=
  ⟨_, ⟨rfl, rfl⟩, rfl⟩

/-- The ways that begin with a miss. -/
theorem transformAndStore_route (store : ResultStore σ) (k : CacheKey)
    (w : TransformStats × (σ × List Deed)) :
    (c.noting.transformAndStore store.noting k r).Ensures w fun result w' =>
      ∃ stats deeds, Advances w w' stats deeds ∧
        Route true stats (.loaded k (.ok none) :: deeds) result := by
  rw [transformAndStore, Act.ensures_bind, count_ensures, Act.ensures_bind]
  refine (runInner_advances c r (w.1.miss, w.2)).imp fun result w₁ hcall => ?_
  obtain ⟨outcome, hcall, rfl⟩ := hcall
  have hcalled := (Advances.counted { misses := 1 }).trans hcall
  cases hresult : outcome.guarded with
  | error e => exact ⟨_, _, hcalled, .failed k r outcome e hresult⟩
  | ok result =>
    obtain rfl : outcome = .done result := outcome.eq_done_of_guarded hresult
    dsimp only
    rw [Act.ensures_bind, Act.ensures_zoom]
    refine (Act.ensures_noted _ _ _ _).2 (Act.Ensures.of_forall fun written s => ?_)
    cases written with
    | ok path =>
      rw [Act.ensures_bind, Act.ensures_report, Act.ensures_pure]
      exact ⟨_, _, hcalled.trans (.noted 0 _ s), .stored k r result _ path⟩
    | error e =>
      rw [Act.ensures_bind, count_ensures, Act.ensures_bind, Act.ensures_report, Act.ensures_pure]
      exact ⟨_, _, hcalled.trans (.noted { storageFailures := 1 } _ s), .unstored k r result _ e⟩

/-- **A result is come to in one of the ways.** -/
theorem cachedOrTransform_route (w : TransformStats × (σ × List Deed)) :
    (c.noting.cachedOrTransform r).Ensures w fun result w' =>
      ∃ stats deeds, Advances w w' stats deeds ∧ Route c.store.isSome stats deeds result := by
  rw [cachedOrTransform, noting_store]
  cases c.store with
  | none =>
    refine (runInner_advances c r w).imp fun result w' hcall => ?_
    obtain ⟨outcome, hcall, rfl⟩ := hcall
    exact ⟨_, _, hcall, .direct r outcome⟩
  | some store =>
    rw [Option.map_some, Option.isSome_some]
    dsimp only
    rw [Act.ensures_bind, Act.ensures_zoom]
    refine (Act.ensures_noted _ _ _ _).2 (Act.Ensures.of_forall fun loaded s => ?_)
    rcases loaded with e | _ | bytes
    · rw [Act.ensures_bind, count_ensures, Act.ensures_bind, Act.ensures_report]
      refine (runInner_advances c r _).imp fun result w' hcall => ?_
      obtain ⟨outcome, hcall, rfl⟩ := hcall
      refine ⟨_, _, (Advances.noted { storageFailures := 1 } _ s).trans hcall, ?_⟩
      exact .unread _ e r outcome
    · refine (transformAndStore_route c r store _ _).imp fun result w' hrest => ?_
      obtain ⟨stats, deeds, hrest, hroute⟩ := hrest
      refine ⟨_, _, (Advances.noted 0 _ s).trans hrest, ?_⟩
      rw [TransformStats.zero_add]
      exact hroute
    · rw [Act.ensures_bind, count_ensures, Act.ensures_bind, Act.ensures_report, Act.ensures_pure]
      exact ⟨_, _, .noted { hits := 1 } _ s, .hit _ bytes⟩

/-- What is shown is counted. -/
theorem dumpResult_balanced (bytes : Bytes) (w : TransformStats × (σ × List Deed)) :
    (c.noting.dumpResult r bytes).Ensures w fun _ w' =>
      ∃ stats deeds, Advances w w' stats deeds ∧ Balanced c.store.isSome [] stats deeds := by
  rw [dumpResult, noting_dump]
  cases c.dump with
  | none => exact ⟨0, [], .counted 0, .nil _⟩
  | some dump =>
    rw [Option.map_some]
    dsimp only
    rw [Act.ensures_bind, Act.ensures_zoom]
    refine (Act.ensures_noted _ _ _ _).2 (Act.Ensures.of_forall fun written s => ?_)
    cases written with
    | ok path =>
      rw [Act.ensures_bind, count_ensures, Act.ensures_report]
      exact ⟨_, _, .noted { dumps := 1 } _ s,
        ⟨rfl, rfl, fun _ => rfl, fun _ => ⟨rfl, rfl, rfl⟩, rfl, rfl, rfl⟩⟩
    | error e =>
      rw [Act.ensures_report]
      exact ⟨_, _, .noted 0 _ s, ⟨rfl, rfl, fun _ => rfl, fun _ => ⟨rfl, rfl, rfl⟩, rfl, rfl, rfl⟩⟩

/-- An eligible request is balanced once its result is there. -/
theorem resultOrNone_balanced (w : TransformStats × (σ × List Deed)) :
    (c.noting.resultOrNone r).Ensures w fun _ w' =>
      ∃ stats deeds, Advances w w' stats deeds ∧ Balanced c.store.isSome [r] stats
        (.decided r.className r.loader true :: deeds) := by
  rw [resultOrNone, Act.ensures_bind]
  refine (cachedOrTransform_route c r w).imp fun result w' h => ?_
  obtain ⟨stats, deeds, hp, hroute⟩ := h
  refine ⟨stats + failure result, deeds, ?_, hroute.balanced r⟩
  cases result with
  | ok result => exact hp
  | error e =>
    have hfailed := hp.trans (.counted (failure (.error e)))
    rw [List.append_nil] at hfailed
    exact hfailed

/-- **Each call is balanced with its request**, in whichever way it goes. -/
theorem apply_balanced (w : TransformStats × (σ × List Deed)) :
    (c.noting.apply r).Ensures w fun _ w' =>
      ∃ stats deeds, Advances w w' stats deeds ∧ Balanced c.store.isSome [r] stats deeds := by
  rw [apply, Act.ensures_bind, Act.ensures_zoom]
  refine (Act.ensures_noted _ _ _ _).2 (Act.Ensures.of_forall fun accepted s => ?_)
  have hdecided := Advances.noted (w := w) 0 (.decided r.className r.loader accepted) s
  cases accepted with
  | false =>
    exact ⟨0, [.decided r.className r.loader false], hdecided,
      ⟨rfl, rfl, fun _ => rfl, fun _ => ⟨rfl, rfl, rfl⟩, rfl, rfl, rfl⟩⟩
  | true =>
    rw [Bool.not_true, if_neg Bool.false_ne_true, Act.ensures_bind, Act.ensures_report,
      Act.ensures_bind]
    refine (resultOrNone_balanced c r _).imp fun result w₁ h => ?_
    obtain ⟨stats, deeds, hp, hbalanced⟩ := h
    have hresult := hdecided.trans hp
    rw [TransformStats.zero_add] at hresult
    cases result with
    | none => exact ⟨_, _, hresult, hbalanced⟩
    | some bytes =>
      rw [Act.ensures_bind]
      refine (dumpResult_balanced c r bytes w₁).imp fun _ w₂ h => ?_
      obtain ⟨stats', deeds', hp', hbalanced'⟩ := h
      exact ⟨_, _, hresult.trans hp', hbalanced.add hbalanced'⟩

end Call

/-! ### Any number of calls -/

/-- Calls one after another are balanced with their requests. -/
theorem mapM_apply_balanced (c : CachingTransformer σ) (rs : List TransformRequest)
    (w : TransformStats × (σ × List Deed)) :
    (rs.mapM c.noting.apply).Ensures w fun _ w' =>
      ∃ stats deeds, Advances w w' stats deeds ∧ Balanced c.store.isSome rs stats deeds := by
  induction rs generalizing w with
  | nil => exact ⟨0, [], .counted 0, .nil _⟩
  | cons r rs ih =>
    rw [List.mapM_cons, Act.ensures_bind]
    refine (apply_balanced c r w).imp fun result w₁ h => ?_
    obtain ⟨stats, deeds, hcall, hbalanced⟩ := h
    rw [Act.ensures_bind]
    refine (ih w₁).imp fun results w₂ h => ?_
    obtain ⟨stats', deeds', hcalls, hbalanced'⟩ := h
    exact ⟨_, _, hcall.trans hcalls, hbalanced.add hbalanced'⟩

/-- **The counts are balanced after any number of calls.**

Take a caching transformer around any edit, with or without a store and a place for showing results,
and let it answer any requests one after another; nothing is assumed about the edit, the loads, the
stores and the dumps, so each of them may fail at any time. The run in which all of these are written
down is the same run; it decides on each of the requests once, in their order, and the counters that
it ends with are balanced with what has been done. -/
theorem counts_balanced (c : CachingTransformer σ) (rs : List TransformRequest) (s : σ) :
    let ran := (rs.mapM c.apply).run ({}, s)
    let noted := (rs.mapM c.noting.apply).run ({}, s, [])
    noted.value = ran.value ∧ (noted.state.1, noted.state.2.1) = ran.state ∧
      Balanced c.store.isSome rs ran.state.1 noted.state.2.2 := by
  intro ran noted
  obtain ⟨hvalue, hstats, hstate⟩ :
      ran.value = noted.value ∧ BesideCounts Unnoted noted.state ran.state :=
    Act.alike_mapM (noting_alike c).apply rs ({}, s, []) ({}, s) ⟨rfl, rfl⟩
  obtain ⟨stats, deeds, hadvances, hbalanced⟩ := mapM_apply_balanced c rs ({}, s, [])
  have hcounted : noted.state.1 = stats := hadvances.stats.trans (TransformStats.zero_add stats)
  have hdeeds : noted.state.2.2 = deeds := hadvances.deeds
  refine ⟨hvalue.symm, Prod.ext hstats.symm hstate.symm, ?_⟩
  rw [hstats, hcounted, hdeeds]
  exact hbalanced

/-- A run with a miss, a hit, a miss whose result cannot be stored or shown, a load that fails before
an edit that gives up, and a class that is declined. -/
theorem counts_balanced_mixedRun :
    let eligible := fun name (_ : LoaderId) => name != "p/Declined"
    let dump : DumpTarget FaultyStore :=
      ⟨fun name _ _ => pure (if name = "p/B" then .error ⟨.write, "d", .notDirectory⟩ else .ok name)⟩
    let c : CachingTransformer FaultyStore :=
      ⟨Transformation.ofFunctions eligible doubling, some FaultyStore.resultStore, some dump⟩
    let request := fun name bytes => TransformRequest.mk .bootstrap name none bytes
    let rs := [request "p/A" [1], request "p/A" [1], request "p/B" [2], request "p/Broken" [3],
      request "p/Declined" [4]]
    let faulty : FaultyStore :=
      { loadFaults := [none, none, none, some ⟨.read, "c", .busy⟩]
        storeFaults := [none, some ⟨.write, "c", .notDirectory⟩] }
    let ran := (rs.mapM c.apply).run ({}, faulty)
    ran.state.1 = ⟨1, 2, 2, 1, 2⟩ ∧
      Balanced true rs ran.state.1 ((rs.mapM c.noting.apply).run ({}, faulty, [])).state.2.2 := by
  intro eligible dump c request rs faulty ran
  exact ⟨by decide +kernel, (counts_balanced c rs faulty).2.2⟩

end CachingTransformer

end Reclass
