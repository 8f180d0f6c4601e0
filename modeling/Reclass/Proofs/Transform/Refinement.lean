import Mathlib.Logic.Function.Basic
import Reclass.Proofs.Act
import Reclass.Transform.Caching

/-!
# Caching changes no answer

A caching transformer answers every request of a sequence as the transformer does that calls the
edit directly (`caching_refines_direct`), whichever loads and stores fail on the way. The edit has
to decide by name and loader, its outcome by qualified name and input, and no two requests may
agree in the key under which results are kept and differ in their input.

One call gives the right answer from every state in which the store gives nothing but right results
(`Maintains.apply_ensures`). For a store that never lies the invariant is `StoreContents.Sound`: whatever
lies under a key is the output of the edit for a request of the sequence with that key. It holds of
a store without entries, each call keeps it, and under it a hit is what a fresh run of the edit
would have given.
-/

set_option autoImplicit false

namespace Reclass

variable {σ : Type}

/-- What a store holds under each key. -/
abbrev StoreContents : Type := CacheKey → Option Bytes

/-- A store that may fail at any time and never lies. A load that succeeds yields what the last
successful store under the key wrote, and a store that fails writes nothing. -/
structure ResultStore.Honest (store : ResultStore σ) (contents : σ → StoreContents) : Prop where
  load : ∀ k s, (store.load k).Ensures s fun r s' =>
    contents s' = contents s ∧ ∀ found, r = .ok found → found = contents s k
  store : ∀ k result s, (store.store k result).Ensures s fun r s' =>
    ((∃ path, r = .ok path) ∧ contents s' = Function.update (contents s) k (some result)) ∨
      ((∃ e, r = .error e) ∧ contents s' = contents s)

/-- A store with a fault to come for some of the next loads and stores. -/
structure FaultyStore where
  held : StoreContents := fun _ => none
  loadFaults : List (Option StorageError) := []
  storeFaults : List (Option StorageError) := []

namespace FaultyStore

/-- The outcome of a load, and the store after it. -/
def load (k : CacheKey) (s : FaultyStore) : Except StorageError (Option Bytes) × FaultyStore :=
  let after := { s with loadFaults := s.loadFaults.tail }
  match s.loadFaults.headD none with
  | some e => (.error e, after)
  | none => (.ok (s.held k), after)

/-- The outcome of a store, and the store after it. -/
def store (k : CacheKey) (result : Bytes) (s : FaultyStore) :
    Except StorageError Path × FaultyStore :=
  let after := { s with storeFaults := s.storeFaults.tail }
  match s.storeFaults.headD none with
  | some e => (.error e, after)
  | none => (.ok k.fileName, { after with held := Function.update s.held k (some result) })

def resultStore : ResultStore FaultyStore where
  load k := Act.modifyGet (load k)
  store k result := Act.modifyGet (store k result)
  path := CacheKey.fileName

/-- Faults make a store forget, not lie. -/
theorem resultStore_honest : resultStore.Honest held where
  load k s := by
    show held (load k s).2 = held s ∧ ∀ found, (load k s).1 = .ok found → found = held s k
    rw [load]
    cases s.loadFaults.headD none with
    | some e =>
      refine ⟨rfl, ?_⟩
      rintro found ⟨⟩
    | none => exact ⟨rfl, fun _ h => (Except.ok.inj h).symm⟩
  store k result s := by
    show ((∃ path, (store k result s).1 = .ok path) ∧
        held (store k result s).2 = Function.update (held s) k (some result)) ∨
      ((∃ e, (store k result s).1 = .error e) ∧ held (store k result s).2 = held s)
    rw [store]
    cases s.storeFaults.headD none with
    | some e => exact Or.inr ⟨⟨e, rfl⟩, rfl⟩
    | none => exact Or.inl ⟨⟨k.fileName, rfl⟩, rfl⟩

end FaultyStore

/-- An edit that decides by name and loader, and whose outcome depends on the qualified name and
the input alone. -/
structure Transformation.Functional (t : Transformation σ) (eligible : String → LoaderId → Bool)
    (outcome : String → Bytes → EditOutcome) : Prop where
  accepts : ∀ name loader s, (t.accepts name loader).Ensures s fun b _ => b = eligible name loader
  edit : ∀ r s, eligible r.className r.loader = true →
    (t.edit r).Ensures s fun o _ => o = outcome (ClassName.qualified r.className) r.bytes

/-- An edit that leaves a part of the state alone. -/
structure Transformation.Keeps {ν : Type} (t : Transformation σ) (view : σ → ν) : Prop where
  accepts : ∀ name loader, (t.accepts name loader).Keeps view
  edit : ∀ r, (t.edit r).Keeps view

namespace Transformation

/-- The edit that two functions describe. -/
def ofFunctions (eligible : String → LoaderId → Bool) (outcome : String → Bytes → EditOutcome) :
    Transformation σ where
  accepts name loader := pure (eligible name loader)
  edit r := pure (outcome (ClassName.qualified r.className) r.bytes)

theorem ofFunctions_functional (eligible : String → LoaderId → Bool)
    (outcome : String → Bytes → EditOutcome) :
    (ofFunctions (σ := σ) eligible outcome).Functional eligible outcome where
  accepts _ _ _ := rfl
  edit _ _ _ := rfl

theorem ofFunctions_keeps {ν : Type} (eligible : String → LoaderId → Bool)
    (outcome : String → Bytes → EditOutcome) (view : σ → ν) :
    (ofFunctions eligible outcome).Keeps view where
  accepts _ _ _ := rfl
  edit _ _ := rfl

end Transformation

namespace TransformRequest

/-- The key under which the result for the request is kept. -/
def key (r : TransformRequest) : CacheKey := CacheKey.ofInput r.className r.bytes

end TransformRequest

theorem EditOutcome.eq_done_of_guarded (outcome : EditOutcome) {result : Option Bytes}
    (h : outcome.guarded = .ok result) : outcome = .done result := by
  match outcome with
  | .done result' =>
    cases h
    rfl
  | .failed _ | .aborted (.text _) | .aborted .other => cases h

/-- The result of an edit for a request. -/
def editResult (outcome : String → Bytes → EditOutcome) (r : TransformRequest) : EditResult :=
  (outcome (ClassName.qualified r.className) r.bytes).guarded

/-- What a caller sees of a result: nothing when the edit fails or nothing changes. -/
def settle (input : Bytes) : EditResult → Option Bytes
  | .ok result => droppingUnchanged result input
  | .error _ => none

/-- The answer to a request: what a caller sees of the edit, unless the class is declined. -/
def answer (eligible : String → LoaderId → Bool) (outcome : String → Bytes → EditOutcome)
    (r : TransformRequest) : Option Bytes :=
  if eligible r.className r.loader then settle r.bytes (editResult outcome r) else none

/-- Whatever is stored is the output of the edit for one of the requests. -/
def StoreContents.Sound (contents : StoreContents) (eligible : String → LoaderId → Bool)
    (outcome : String → Bytes → EditOutcome) (rs : List TransformRequest) : Prop :=
  ∀ k stored, contents k = some stored → ∃ r ∈ rs, eligible r.className r.loader = true ∧
    r.key = k ∧ ∃ result, editResult outcome r = .ok result ∧ stored = result.getD r.bytes

/-- No two requests that are eligible have one key and different inputs. -/
def Distinguished (eligible : String → LoaderId → Bool) (rs : List TransformRequest) : Prop :=
  ∀ r ∈ rs, ∀ r' ∈ rs, eligible r.className r.loader = true →
    eligible r'.className r'.loader = true →
    ClassName.qualified r.className = ClassName.qualified r'.className →
    Checksum.crc32 r.bytes = Checksum.crc32 r'.bytes → r.bytes = r'.bytes

namespace Transformation

variable {t : Transformation σ} {eligible : String → LoaderId → Bool}
  {outcome : String → Bytes → EditOutcome}

theorem Functional.guarded (h : t.Functional eligible outcome) {r : TransformRequest}
    (hr : eligible r.className r.loader = true) (s : σ) :
    (t.guarded r).Ensures s fun result _ => result = editResult outcome r := by
  rw [Transformation.guarded, Act.ensures_bind]
  refine (h.edit r s hr).imp fun o s' ho => ?_
  rw [Act.ensures_pure, ho, editResult]

/-- The direct transformer gives the answer from every state. -/
theorem Functional.applyDirectly (h : t.Functional eligible outcome) (r : TransformRequest)
    (s : σ) : (t.applyDirectly r).Ensures s fun v _ => v = answer eligible outcome r := by
  rw [Transformation.applyDirectly, Act.ensures_bind]
  refine (h.accepts r.className r.loader s).imp fun b s' hb => ?_
  subst hb
  by_cases hr : eligible r.className r.loader = true
  · rw [hr, Bool.not_true, if_neg Bool.false_ne_true, Act.ensures_bind]
    refine (h.guarded hr s').imp fun result s'' hresult => ?_
    rw [answer, if_pos hr, ← hresult]
    cases result with
    | ok result => rfl
    | error e => rfl
  · rw [Bool.not_eq_true] at hr
    rw [hr, Bool.not_false, if_pos rfl, Act.ensures_pure, answer, hr]
    rfl

end Transformation

namespace StoreContents

variable {contents : StoreContents} {eligible : String → LoaderId → Bool}
  {outcome : String → Bytes → EditOutcome} {rs : List TransformRequest}

/-- A store without entries is sound. -/
theorem sound_of_empty (h : ∀ k, contents k = none) : contents.Sound eligible outcome rs := by
  intro k stored hk
  rw [h k] at hk
  cases hk

/-- Storing the output of the edit under the key of its request keeps a store sound. -/
theorem Sound.update (h : contents.Sound eligible outcome rs) {r : TransformRequest} (hr : r ∈ rs)
    (he : eligible r.className r.loader = true) {result : Option Bytes}
    (hresult : editResult outcome r = .ok result) :
    Sound (Function.update contents r.key (some (result.getD r.bytes))) eligible outcome rs := by
  intro k stored hk
  by_cases e : k = r.key
  · subst e
    rw [Function.update_self, Option.some.injEq] at hk
    exact ⟨r, hr, he, rfl, result, hresult, hk.symm⟩
  · rw [Function.update_of_ne e] at hk
    exact h k stored hk

/-- What a sound store holds under the key of a request is the output of the edit for it. -/
theorem Sound.eq_getD (h : contents.Sound eligible outcome rs) (hrs : Distinguished eligible rs)
    {r : TransformRequest} (hr : r ∈ rs) (he : eligible r.className r.loader = true)
    {stored : Bytes} (hk : contents r.key = some stored) :
    ∃ result, editResult outcome r = .ok result ∧ stored = result.getD r.bytes := by
  obtain ⟨r', hr', he', hkey, result, hresult, hstored⟩ := h r.key stored hk
  -- the entry was made for a request with the same key, hence with the same input
  obtain ⟨hname, hsum⟩ := CacheKey.mk.inj hkey
  have hbytes := hrs r' hr' r hr he' he hname hsum
  refine ⟨result, ?_, by rw [hstored, hbytes]⟩
  rw [← hresult, editResult, editResult, hname, hbytes]

end StoreContents

/-- The stored form of a result, the input for a declined edit, looks the same to a caller. -/
theorem settle_stored (input : Bytes) (result : EditResult) :
    settle input (result.map fun result => some (result.getD input)) = settle input result := by
  cases result with
  | error e => rfl
  | ok result =>
    cases result with
    | none => simp [settle, droppingUnchanged, Except.map]
    | some bytes => rfl

namespace CachingTransformer

section Serving

variable {c : CachingTransformer σ} {K : σ → Prop} {eligible : String → LoaderId → Bool}
  {outcome : String → Bytes → EditOutcome} {asked : TransformRequest → Prop}
  {r : TransformRequest}

/-- The output of the edit for a request. -/
def Output (outcome : String → Bytes → EditOutcome) (r : TransformRequest) (output : Bytes) : Prop :=
  ∃ result, editResult outcome r = .ok result ∧ output = result.getD r.bytes

/-- An edit has one output for a request. -/
theorem Output.unique {output output' : Bytes} (h : Output outcome r output)
    (h' : Output outcome r output') : output = output' := by
  obtain ⟨result, hresult, rfl⟩ := h
  obtain ⟨result', hresult', rfl⟩ := h'
  cases hresult.symm.trans hresult'
  rfl

/-- In states with the property `K` the edit is a function, and nothing that is done for a request
that is asked loses the property. -/
structure Maintains (c : CachingTransformer σ) (K : σ → Prop) (eligible : String → LoaderId → Bool)
    (outcome : String → Bytes → EditOutcome) (asked : TransformRequest → Prop) : Prop where
  accepts : ∀ name loader s, K s → (c.inner.accepts name loader).Ensures s fun b s' =>
    b = eligible name loader ∧ K s'
  edit : ∀ r s, K s → eligible r.className r.loader = true → (c.inner.edit r).Ensures s fun o s' =>
    o = outcome (ClassName.qualified r.className) r.bytes ∧ K s'
  load : ∀ store ∈ c.store, ∀ k s, K s → (store.load k).Ensures s fun _ s' => K s'
  store : ∀ store ∈ c.store, ∀ r, asked r → eligible r.className r.loader = true →
    ∀ output, Output outcome r output → ∀ s, K s →
      (store.store r.key output).Ensures s fun _ s' => K s'
  dump : ∀ dump ∈ c.dump, ∀ r, asked r → eligible r.className r.loader = true → ∀ bytes s, K s →
    (dump.write r.className r.loader bytes).Ensures s fun _ s' => K s'

/-- In states with the property `K` the store holds the output of the edit for the requests that
are asked, or nothing. -/
def Right (c : CachingTransformer σ) (K : σ → Prop) (eligible : String → LoaderId → Bool)
    (outcome : String → Bytes → EditOutcome) (asked : TransformRequest → Prop) : Prop :=
  ∀ store ∈ c.store, ∀ r, asked r → eligible r.className r.loader = true → ∀ s, K s →
    (store.load r.key).Ensures s fun found _ =>
      ∀ stored, found = .ok (some stored) → Output outcome r stored

theorem count_ensures (f : TransformStats → TransformStats) (s : TransformStats × σ)
    (Q : Unit → TransformStats × σ → Prop) : (count f).Ensures s Q ↔ Q () (f s.1, s.2) := Iff.rfl

namespace Maintains

variable (h : c.Maintains K eligible outcome asked)
include h

/-- Running the edit gives its result. -/
theorem runInner_ensures (he : eligible r.className r.loader = true) {s : TransformStats × σ}
    (hs : K s.2) :
    (c.runInner r).Ensures s fun result s' => result = editResult outcome r ∧ K s'.2 := by
  rw [runInner, Act.ensures_zoom, Transformation.guarded, Act.ensures_bind]
  refine (h.edit r s.2 hs he).imp fun o s' ho => ?_
  rw [Act.ensures_pure, ho.1, editResult]
  exact ⟨rfl, ho.2⟩

/-- A miss: the edit runs, and its output is stored when storage works. -/
theorem transformAndStore_ensures {store : ResultStore σ} (hstore : store ∈ c.store)
    (hr : asked r) (he : eligible r.className r.loader = true) {s : TransformStats × σ}
    (hs : K s.2) :
    (c.transformAndStore store r.key r).Ensures s fun result s' =>
      result = (editResult outcome r).map (fun result => some (result.getD r.bytes)) ∧
        K s'.2 := by
  rw [transformAndStore, Act.ensures_bind, count_ensures, Act.ensures_bind]
  refine (h.runInner_ensures (s := (s.1.miss, s.2)) he hs).imp fun result s' hresult => ?_
  obtain ⟨hresult, hs'⟩ := hresult
  cases result with
  | error e =>
    -- a failure is not stored
    rw [Act.ensures_pure, ← hresult]
    exact ⟨rfl, hs'⟩
  | ok result =>
    rw [← hresult]
    simp only [Act.ensures_bind, Act.ensures_zoom]
    have houtput : Output outcome r (result.getD r.bytes) := ⟨result, hresult.symm, rfl⟩
    refine (h.store store hstore r hr he _ houtput s'.2 hs').imp fun stored s'' hs'' => ?_
    cases stored with
    | ok path => exact ⟨rfl, hs''⟩
    | error e => exact ⟨rfl, hs''⟩

/-- A hit, a miss or a failed load: over a store that is right a caller sees the result of the
edit. -/
theorem cachedOrTransform_ensures (hr : asked r) (he : eligible r.className r.loader = true)
    {s : TransformStats × σ} (hs : K s.2) :
    (c.cachedOrTransform r).Ensures s fun result s' => (c.Right K eligible outcome asked →
      settle r.bytes result = settle r.bytes (editResult outcome r)) ∧ K s'.2 := by
  -- what happens without a store and after a load that failed
  have direct : ∀ s : TransformStats × σ, K s.2 → (c.runInner r).Ensures s fun result s' =>
      (c.Right K eligible outcome asked →
        settle r.bytes result = settle r.bytes (editResult outcome r)) ∧ K s'.2 := by
    intro s hs
    exact (h.runInner_ensures he hs).imp fun result s' hresult =>
      ⟨fun _ => by rw [hresult.1], hresult.2⟩
  rw [cachedOrTransform]
  cases hc : c.store with
  | none => exact direct s hs
  | some store =>
    simp only [Act.ensures_bind, Act.ensures_zoom]
    have hload : (store.load r.key).Ensures s.2 fun found s' => K s' ∧
        (c.Right K eligible outcome asked →
          ∀ stored, found = .ok (some stored) → Output outcome r stored) :=
      ⟨h.load store hc r.key s.2 hs, fun hright => hright store hc r hr he s.2 hs⟩
    refine hload.imp fun loaded s' hloaded => ?_
    obtain ⟨hs', hfound⟩ := hloaded
    cases loaded with
    | error e =>
      -- a failed load: the edit runs and nothing is stored
      simp only [Act.ensures_bind, count_ensures, Act.ensures_report]
      exact direct _ hs'
    | ok found =>
      cases found with
      | none =>
        refine (h.transformAndStore_ensures (s := (s.1, s')) hc hr he hs').imp
          fun result t hresult => ?_
        exact ⟨fun _ => by rw [hresult.1, settle_stored], hresult.2⟩
      | some stored =>
        -- a hit: what is found in a store that is right is the output of the edit
        simp only [Act.ensures_bind, count_ensures, Act.ensures_report, Act.ensures_pure]
        refine ⟨fun hright => ?_, hs'⟩
        obtain ⟨result, hresult, rfl⟩ := hfound hright stored rfl
        rw [hresult]
        exact settle_stored r.bytes (.ok result)

/-- A failure counts as no result, and either way a caller sees the result of the edit. -/
theorem resultOrNone_ensures (hr : asked r) (he : eligible r.className r.loader = true)
    {s : TransformStats × σ} (hs : K s.2) :
    (c.resultOrNone r).Ensures s fun result s' => (c.Right K eligible outcome asked →
      droppingUnchanged result r.bytes = settle r.bytes (editResult outcome r)) ∧ K s'.2 := by
  rw [resultOrNone, Act.ensures_bind]
  refine (h.cachedOrTransform_ensures hr he hs).imp fun result s' hresult => ?_
  obtain ⟨hresult, hs'⟩ := hresult
  cases result with
  | ok result => exact ⟨hresult, hs'⟩
  | error e => exact ⟨hresult, hs'⟩

/-- Showing a result loses nothing. -/
theorem dumpResult_ensures (hr : asked r) (he : eligible r.className r.loader = true)
    (bytes : Bytes) {s : TransformStats × σ} (hs : K s.2) :
    (c.dumpResult r bytes).Ensures s fun _ s' => K s'.2 := by
  rw [dumpResult]
  cases hd : c.dump with
  | none => exact hs
  | some dump =>
    simp only [Act.ensures_bind, Act.ensures_zoom]
    refine (h.dump dump hd r hr he bytes s.2 hs).imp fun written s' hs' => ?_
    cases written with
    | ok path => exact hs'
    | error e => exact hs'

/-- **One call loses nothing, and over a store that is right it gives the answer to its request.** -/
theorem apply_ensures (hr : asked r) {s : TransformStats × σ} (hs : K s.2) :
    (c.apply r).Ensures s fun v s' =>
      (c.Right K eligible outcome asked → v = answer eligible outcome r) ∧ K s'.2 := by
  rw [apply, Act.ensures_bind, Act.ensures_zoom]
  refine (h.accepts r.className r.loader s.2 hs).imp fun b s₁ hb => ?_
  obtain ⟨rfl, hs₁⟩ := hb
  by_cases he : eligible r.className r.loader = true
  · rw [he, Bool.not_true, if_neg Bool.false_ne_true, answer, if_pos he]
    simp only [Act.ensures_bind, Act.ensures_report]
    refine (h.resultOrNone_ensures (s := (s.1, s₁)) hr he hs₁).imp fun result s₂ hresult => ?_
    obtain ⟨hresult, hs₂⟩ := hresult
    -- the counters and the dump change no answer
    cases result with
    | none => exact ⟨hresult, hs₂⟩
    | some bytes =>
      simp only [Act.ensures_bind, Act.ensures_report]
      exact (h.dumpResult_ensures hr he bytes hs₂).imp fun _ s₃ hs₃ => ⟨hresult, hs₃⟩
  · -- a declined class never comes to the store
    rw [Bool.not_eq_true] at he
    rw [he, Bool.not_false, if_pos rfl, answer, he]
    exact ⟨fun _ => rfl, hs₁⟩

end Maintains

end Serving

section Simulation

variable {c : CachingTransformer σ} {contents : σ → StoreContents}
  {eligible : String → LoaderId → Bool} {outcome : String → Bytes → EditOutcome}
  {rs : List TransformRequest} {r : TransformRequest}

/-- What a call leaves of a state: a sound store. -/
def Stands (contents : σ → StoreContents) (eligible : String → LoaderId → Bool)
    (outcome : String → Bytes → EditOutcome) (rs : List TransformRequest)
    (s : TransformStats × σ) : Prop :=
  (contents s.2).Sound eligible outcome rs

/-- With a store that does not lie, what it holds stays sound. -/
theorem maintains_of_honest (hstore : ∀ store ∈ c.store, store.Honest contents)
    (hdump : ∀ dump ∈ c.dump, ∀ name loader bytes, (dump.write name loader bytes).Keeps contents)
    (hinner : c.inner.Functional eligible outcome) (hkeeps : c.inner.Keeps contents) :
    c.Maintains (fun s => (contents s).Sound eligible outcome rs) eligible outcome (· ∈ rs) where
  accepts name loader s hs := by
    have hcontents : (c.inner.accepts name loader).Ensures s fun _ s' => contents s' = contents s :=
      hkeeps.accepts name loader s
    exact ⟨hinner.accepts name loader s, hcontents ▸ hs⟩
  edit r s hs he := by
    have hcontents : (c.inner.edit r).Ensures s fun _ s' => contents s' = contents s :=
      hkeeps.edit r s
    exact ⟨hinner.edit r s he, hcontents ▸ hs⟩
  load store hc k s hs := ((hstore store hc).load k s).imp fun _ _ h => h.1 ▸ hs
  store store hc r hr he output houtput s hs := by
    obtain ⟨result, hresult, rfl⟩ := houtput
    refine ((hstore store hc).store r.key (result.getD r.bytes) s).imp fun stored s' h => ?_
    rcases h with ⟨-, h⟩ | ⟨-, h⟩
    · -- stored under the key of its own request
      rw [h]
      exact hs.update hr he hresult
    · -- the store failed and holds what it held
      exact h ▸ hs
  dump dump hd r _ _ bytes s hs := by
    have hcontents : (dump.write r.className r.loader bytes).Ensures s fun _ s' =>
        contents s' = contents s := hdump dump hd r.className r.loader bytes s
    exact Act.Ensures.imp hcontents fun _ s' h => h ▸ hs

/-- What is found in a sound store is right. -/
theorem right_of_honest (hstore : ∀ store ∈ c.store, store.Honest contents)
    (hrs : Distinguished eligible rs) :
    c.Right (fun s => (contents s).Sound eligible outcome rs) eligible outcome (· ∈ rs) := by
  intro store hc r hr he s hs
  refine ((hstore store hc).load r.key s).imp fun found s' h => ?_
  rintro stored rfl
  exact hs.eq_getD hrs hr he (h.2 _ rfl).symm

/-- One call gives the answer to its request and leaves a sound store behind. -/
theorem apply_ensures (hstore : ∀ store ∈ c.store, store.Honest contents)
    (hdump : ∀ dump ∈ c.dump, ∀ name loader bytes, (dump.write name loader bytes).Keeps contents)
    (hinner : c.inner.Functional eligible outcome) (hkeeps : c.inner.Keeps contents)
    (hrs : Distinguished eligible rs) (hr : r ∈ rs) {s : TransformStats × σ}
    (hs : Stands contents eligible outcome rs s) :
    (c.apply r).Ensures s fun v s' =>
      v = answer eligible outcome r ∧ Stands contents eligible outcome rs s' :=
  ((maintains_of_honest hstore hdump hinner hkeeps).apply_ensures hr hs).imp fun _ _ h =>
    ⟨h.1 (right_of_honest hstore hrs), h.2⟩

end Simulation

/-- **A caching transformer answers as the direct one does**, whatever storage does: from a store
without entries, over every sequence of requests, and from whatever state the direct one starts. -/
theorem caching_refines_direct (c : CachingTransformer σ) (contents : σ → StoreContents)
    (eligible : String → LoaderId → Bool) (outcome : String → Bytes → EditOutcome)
    (hstore : ∀ store ∈ c.store, store.Honest contents)
    (hdump : ∀ dump ∈ c.dump, ∀ name loader bytes, (dump.write name loader bytes).Keeps contents)
    (hinner : c.inner.Functional eligible outcome) (hkeeps : c.inner.Keeps contents)
    (rs : List TransformRequest) (hrs : Distinguished eligible rs) (stats : TransformStats)
    (s t : σ) (hempty : ∀ k, contents s k = none) :
    ((rs.mapM c.apply).run (stats, s)).value = ((rs.mapM c.inner.direct.apply).run t).value := by
  have hs : Stands contents eligible outcome rs (stats, s) := StoreContents.sound_of_empty hempty
  -- both runs yield the list of answers
  have cached : (rs.mapM c.apply).Ensures (stats, s) fun vs _ =>
      vs = rs.map (answer eligible outcome) :=
    (Act.ensures_mapM (fun r hr s hs => apply_ensures hstore hdump hinner hkeeps hrs hr hs) hs).imp
      fun _ _ h => h.1
  have direct : (rs.mapM c.inner.direct.apply).Ensures t fun vs _ =>
      vs = rs.map (answer eligible outcome) :=
    (Act.ensures_mapM (I := fun _ => True)
      (fun r _ s _ => (hinner.applyDirectly r s).imp fun _ _ h => ⟨h, trivial⟩) trivial).imp
      fun _ _ h => h.1
  exact cached.trans direct.symm

/-- Doubles a class, leaves `p.Same` alone and gives up on `p.Broken`. -/
def doubling : String → Bytes → EditOutcome
  | "p.Same", _ => .done none
  | "p.Broken", _ => .aborted .other
  | _, bytes => .done (some (bytes ++ bytes))

/-- A run in which a load and a store fail, a result is found again, an edit gives up, one has
nothing to do and one class is declined. -/
theorem caching_refines_direct_over_faulty_store :
    let fault : StorageError := ⟨.read, "d", .busy⟩
    let eligible := fun name (_ : LoaderId) => name != "p/Declined"
    let c : CachingTransformer FaultyStore :=
      ⟨Transformation.ofFunctions eligible doubling, some FaultyStore.resultStore, none⟩
    let request := fun name bytes => TransformRequest.mk .bootstrap name none bytes
    let rs := [request "p/A" [1], request "p.A" [1], request "p/A" [1], request "p/B" [2],
      request "p/B" [2], request "p/Same" [3], request "p/Same" [3], request "p/Broken" [4],
      request "p/Declined" [5], request "p/A" [6]]
    let faulty : FaultyStore :=
      { loadFaults := [none, none, some fault], storeFaults := [none, some fault] }
    ((rs.mapM c.apply).run ({}, faulty)).value =
      ((rs.mapM c.inner.direct.apply).run faulty).value := by
  intro fault eligible c request rs faulty
  exact caching_refines_direct c FaultyStore.held eligible doubling
    (fun store h => by cases h; exact FaultyStore.resultStore_honest)
    (by rintro dump ⟨⟩)
    (Transformation.ofFunctions_functional eligible doubling)
    (Transformation.ofFunctions_keeps eligible doubling FaultyStore.held)
    rs (by unfold Distinguished; decide +kernel) {} faulty faulty
    (fun _ => rfl)

end CachingTransformer

end Reclass
