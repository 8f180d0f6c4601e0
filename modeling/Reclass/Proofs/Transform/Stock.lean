import Reclass.Proofs.Redefinition.Lockstep
import Reclass.Proofs.Transform.Lockstep
import Reclass.Proofs.Transform.Refinement

/-!
# Filling a store and serving from it

A call of a caching transformer leaves the output of the edit in the store, unless storage fails
(`CachingTransformer.Fills.apply_ensures`). Over a store that holds the outputs for all requests,
a later call runs the edit for a request only if it fails for it, and every other request is a hit
(`CachingTransformer.Serves.apply_ensures`). To say so, requests and calls are written down beside
the state (`CachingTransformer.journalingTransformer`), which changes nothing else
(`CachingTransformer.journaling_alike`).
-/

set_option autoImplicit false

namespace Reclass

variable {σ τ : Type}

namespace CachingTransformer

variable {c : CachingTransformer σ} {K K' : σ → Prop} {eligible : String → LoaderId → Bool}
  {outcome : String → Bytes → EditOutcome} {r : TransformRequest} {store : ResultStore σ} {n : Nat}

/-! ### Storage failures -/

/-- At least `n` storage failures have been counted. -/
abbrev Counted (n : Nat) (s : TransformStats × σ) : Prop := n ≤ s.1.storageFailures

theorem zoom_counted {α : Type} (x : Act σ α) (n : Nat) :
    (Act.zoom .snd x : Act (TransformStats × σ) α).Preserves (Counted n) :=
  fun _ hs => hs

theorem report_counted (topic : Topic) (level : Level) (text : String) (n : Nat) :
    (Act.report topic level text : Act (TransformStats × σ) Unit).Preserves (Counted n) :=
  fun _ hs => hs

theorem count_counted {f : TransformStats → TransformStats}
    (hf : ∀ stats, stats.storageFailures ≤ (f stats).storageFailures) (n : Nat) :
    (count f : Act (TransformStats × σ) Unit).Preserves (Counted n) :=
  fun s hs => Nat.le_trans hs (hf s.1)

theorem count_storageFailure_counted (n : Nat) :
    (count .storageFailure : Act (TransformStats × σ) Unit).Preserves (Counted n) :=
  count_counted (fun stats => Nat.le_succ stats.storageFailures) n

theorem cachedOrTransform_counted (c : CachingTransformer σ) (r : TransformRequest) (n : Nat) :
    (c.cachedOrTransform r).Preserves (Counted n) := by
  have hinner : (c.runInner r).Preserves (Counted n) := zoom_counted (c.inner.guarded r) n
  rw [cachedOrTransform]
  cases c.store with
  | none => exact hinner
  | some store =>
    refine (zoom_counted _ n).bind fun loaded => ?_
    rcases loaded with e | _ | stored
    · exact (count_storageFailure_counted n).bind fun _ =>
        (report_counted _ _ _ n).bind fun _ => hinner
    · refine (count_counted (f := .miss) (fun _ => Nat.le_refl _) n).bind fun _ =>
        hinner.bind fun result => ?_
      cases result with
      | error e => exact Act.preserves_pure _ _
      | ok result =>
        refine (zoom_counted _ n).bind fun written => ?_
        cases written with
        | ok path => exact (report_counted _ _ _ n).bind fun _ => Act.preserves_pure _ _
        | error e =>
          exact (count_storageFailure_counted n).bind fun _ =>
            (report_counted _ _ _ n).bind fun _ => Act.preserves_pure _ _
    · exact (count_counted (f := .hit) (fun _ => Nat.le_refl _) n).bind fun _ =>
        (report_counted _ _ _ n).bind fun _ => Act.preserves_pure _ _

theorem dumpResult_counted (c : CachingTransformer σ) (r : TransformRequest) (bytes : Bytes)
    (n : Nat) : (c.dumpResult r bytes).Preserves (Counted n) := by
  rw [dumpResult]
  cases c.dump with
  | none => exact Act.preserves_pure _ _
  | some dump =>
    refine (zoom_counted _ n).bind fun written => ?_
    cases written with
    | ok path =>
      exact (count_counted (f := .dump) (fun _ => Nat.le_refl _) n).bind fun _ =>
        report_counted _ _ _ n
    | error e => exact report_counted _ _ _ n

/-- A storage failure that has been counted stays counted. -/
theorem apply_counted (c : CachingTransformer σ) (r : TransformRequest) (n : Nat) :
    (c.apply r).Preserves (Counted n) := by
  rw [apply]
  refine (zoom_counted _ n).bind fun accepted => ?_
  cases accepted with
  | false => exact Act.preserves_pure _ _
  | true =>
    refine (report_counted _ _ _ n).bind fun _ => ?_
    refine Act.Preserves.bind ((cachedOrTransform_counted c r n).bind fun result => ?_)
      fun result => ?_
    · cases result with
      | ok result => exact Act.preserves_pure _ _
      | error e =>
        exact (count_counted (f := .transformFailure) (fun _ => Nat.le_refl _) n).bind fun _ =>
          (report_counted _ _ _ n).bind fun _ => Act.preserves_pure _ _
    · cases result with
      | none => exact (report_counted _ _ _ n).bind fun _ => Act.preserves_pure _ _
      | some bytes =>
        exact (dumpResult_counted c r bytes n).bind fun _ =>
          (report_counted _ _ _ n).bind fun _ => Act.preserves_pure _ _

/-! ### Filling a store -/

/-- In states with the property `K` the edit is a function. From there the request comes to states
with the property `K'` in each of three ways: a result is found for it, the output of the edit is
stored, or the edit fails. -/
structure Fills (c : CachingTransformer σ) (K K' : σ → Prop) (eligible : String → LoaderId → Bool)
    (outcome : String → Bytes → EditOutcome) (r : TransformRequest) : Prop where
  accepts : ∀ name loader s, K s → (c.inner.accepts name loader).Ensures s fun b s' =>
    b = eligible name loader ∧ K s'
  edit : ∀ s, K s → eligible r.className r.loader = true → (c.inner.edit r).Ensures s fun o s' =>
    o = outcome (ClassName.qualified r.className) r.bytes ∧ K s'
  load : ∀ store ∈ c.store, ∀ s, K s → (store.load r.key).Ensures s fun loaded s' =>
    K s' ∧ ∀ stored, loaded = .ok (some stored) → K' s'
  store : ∀ store ∈ c.store, ∀ output, Output outcome r output → ∀ s, K s →
    (store.store r.key output).Ensures s fun written s' => ∀ path, written = .ok path → K' s'
  failed : ∀ e, editResult outcome r = .error e → ∀ s, K s → K' s
  dump : ∀ dump ∈ c.dump, ∀ name loader bytes s, K' s →
    (dump.write name loader bytes).Ensures s fun _ s' => K' s'

/-- More than `n` storage failures have been counted, or there are `n` and the state has the
property. -/
def Filled (K : σ → Prop) (n : Nat) (s : TransformStats × σ) : Prop :=
  n < s.1.storageFailures ∨ s.1.storageFailures = n ∧ K s.2

theorem Filled.imp {s : TransformStats × σ} (h : Filled K n s) (hK : ∀ s, K s → K' s) :
    Filled K' n s :=
  Or.imp id (And.imp id (hK s.2)) h

/-- Showing a result is no matter of storage. -/
theorem dumpResult_filled (hdump : ∀ dump ∈ c.dump, ∀ name loader bytes s, K s →
    (dump.write name loader bytes).Ensures s fun _ s' => K s') (r : TransformRequest)
    (bytes : Bytes) {s : TransformStats × σ} (hs : Filled K n s) :
    (c.dumpResult r bytes).Ensures s fun _ s' => Filled K n s' := by
  rcases hs with hcounted | ⟨hn, hs⟩
  · exact (dumpResult_counted c r bytes (n + 1) s hcounted).imp fun _ _ => Or.inl
  · rw [dumpResult]
    cases hd : c.dump with
    | none => exact Or.inr ⟨hn, hs⟩
    | some dump =>
      simp only [Act.ensures_bind, Act.ensures_zoom]
      refine (hdump dump hd r.className r.loader bytes s.2 hs).imp fun written s' hs' => ?_
      cases written with
      | ok path => exact Or.inr ⟨hn, hs'⟩
      | error e => exact Or.inr ⟨hn, hs'⟩

section Filling

variable (h : c.Fills K K' eligible outcome r) (hstore : c.store = some store)
  (he : eligible r.className r.loader = true) {s : TransformStats × σ}
include h hstore he

theorem Fills.cachedOrTransform_ensures (hn : s.1.storageFailures = n) (hs : K s.2) :
    (c.cachedOrTransform r).Ensures s fun _ s' => Filled K' n s' := by
  rw [cachedOrTransform, hstore]
  simp only [Act.ensures_bind, Act.ensures_zoom]
  refine (h.load store hstore s.2 hs).imp fun loaded s₁ hloaded => ?_
  obtain ⟨hs₁, hfound⟩ := hloaded
  rcases loaded with e | _ | stored
  · -- a failed load is counted
    simp only [Act.ensures_bind, count_ensures, Act.ensures_report, runInner, Act.ensures_zoom]
    exact Act.Ensures.of_forall fun _ _ => Or.inl (Nat.lt_succ_of_le (Nat.le_of_eq hn.symm))
  · -- nothing is found: either the edit fails, or its output is stored
    simp only [transformAndStore, Act.ensures_bind, count_ensures, runInner, Act.ensures_zoom,
      Transformation.guarded, Act.ensures_pure]
    refine (h.edit s₁ hs₁ he).imp fun o s₂ ho => ?_
    obtain ⟨ho, hs₂⟩ := ho
    have hresult : editResult outcome r = o.guarded := by rw [editResult, ho]
    cases hguarded : o.guarded with
    | error e => exact Or.inr ⟨hn, h.failed e (hresult.trans hguarded) s₂ hs₂⟩
    | ok result =>
      have houtput : Output outcome r (result.getD r.bytes) :=
        ⟨result, hresult.trans hguarded, rfl⟩
      simp only [Act.ensures_bind, Act.ensures_zoom]
      refine (h.store store hstore _ houtput s₂ hs₂).imp fun written s₃ hwritten => ?_
      cases written with
      | ok path => exact Or.inr ⟨hn, hwritten path rfl⟩
      | error e => exact Or.inl (Nat.lt_succ_of_le (Nat.le_of_eq hn.symm))
  · exact Or.inr ⟨hn, hfound stored rfl⟩

/-- **A call fills the store**, unless it counts a storage failure. -/
theorem Fills.apply_ensures (hs : Filled K n s) :
    (c.apply r).Ensures s fun _ s' => Filled K' n s' := by
  rcases hs with hcounted | ⟨hn, hs⟩
  · -- a failure that has been counted before stays counted
    exact (apply_counted c r (n + 1) s hcounted).imp fun _ _ => Or.inl
  · rw [apply, Act.ensures_bind, Act.ensures_zoom]
    refine (h.accepts r.className r.loader s.2 hs).imp fun accepted s₁ haccepted => ?_
    obtain ⟨rfl, hs₁⟩ := haccepted
    rw [he, Bool.not_true, if_neg Bool.false_ne_true]
    simp only [Act.ensures_bind, Act.ensures_report, resultOrNone]
    refine (h.cachedOrTransform_ensures hstore he (s := (s.1, s₁)) hn hs₁).imp
      fun result s₂ hs₂ => ?_
    rcases result with e | _ | bytes
    · exact hs₂
    · exact hs₂
    · simp only [Act.ensures_bind, Act.ensures_report, Act.ensures_pure]
      exact dumpResult_filled h.dump r bytes hs₂

end Filling

end CachingTransformer

/-! ### Writing down what is asked -/

/-- What a transformer has been handed, and the calls of its edit with their outcomes; oldest
first. -/
structure Journal where
  handed : List TransformRequest := []
  calls : List (TransformRequest × EditOutcome) := []
  deriving DecidableEq

namespace Journal

def hand (j : Journal) (r : TransformRequest) : Journal := { j with handed := j.handed ++ [r] }

def call (j : Journal) (r : TransformRequest) (o : EditOutcome) : Journal :=
  { j with calls := j.calls ++ [(r, o)] }

end Journal

/-- A store in a part of the state. -/
def ResultStore.zoom (l : Lens σ τ) (store : ResultStore τ) : ResultStore σ where
  load k := Act.zoom l (store.load k)
  store k result := Act.zoom l (store.store k result)
  path := store.path

/-- A place in a part of the state where classes are shown. -/
def DumpTarget.zoom (l : Lens σ τ) (dump : DumpTarget τ) : DumpTarget σ where
  write name loader bytes := Act.zoom l (dump.write name loader bytes)

/-- The edit, with its calls written down. -/
def Transformation.journaled (t : Transformation σ) : Transformation (σ × Journal) where
  accepts name loader := Act.zoom .fst (t.accepts name loader)
  edit r := do
    let outcome ← Act.zoom .fst (t.edit r)
    Act.zoom .snd (Act.modify fun j => j.call r outcome)
    return outcome

namespace CachingTransformer

/-- The caching transformer around the edit whose calls are written down. -/
def journaled (c : CachingTransformer σ) : CachingTransformer (σ × Journal) where
  inner := c.inner.journaled
  store := c.store.map (ResultStore.zoom .fst)
  dump := c.dump.map (DumpTarget.zoom .fst)

/-- The transformer, with what it is handed written down as well. -/
def journalingTransformer (c : CachingTransformer σ) :
    Transformer (TransformStats × (σ × Journal)) where
  accepts := c.journaled.transformer.accepts
  apply r := do
    Act.zoom (.comp .snd .snd) (Act.modify fun j => j.hand r)
    c.journaled.apply r

/-- The state without the journal. -/
def unjournaled (w : TransformStats × (σ × Journal)) : TransformStats × σ := (w.1, w.2.1)

/-- The states are the same but for the journal. -/
abbrev SameWork (w : TransformStats × (σ × Journal)) (w' : TransformStats × σ) : Prop :=
  w' = unjournaled w

section Journaling

variable {c : CachingTransformer σ} {r : TransformRequest}

theorem accepts_journaled (c : CachingTransformer σ) (name : String) (loader : LoaderId) :
    c.journaled.inner.accepts name loader = Act.zoom .fst (c.inner.accepts name loader) := rfl

theorem store_journaled (c : CachingTransformer σ) :
    c.journaled.store = c.store.map (ResultStore.zoom .fst) := rfl

theorem dump_journaled (c : CachingTransformer σ) :
    c.journaled.dump = c.dump.map (DumpTarget.zoom .fst) := rfl

/-- A call of the edit is written down with its outcome. -/
theorem runInner_journaled {s : σ} {Q : EditOutcome → σ → Prop}
    (hedit : (c.inner.edit r).Ensures s Q) (stats : TransformStats) (j : Journal) :
    (c.journaled.runInner r).Ensures (stats, s, j) fun result w =>
      ∃ outcome s', w = (stats, s', j.call r outcome) ∧ result = outcome.guarded ∧
        Q outcome s' := by
  rw [runInner, Act.ensures_zoom, Transformation.guarded, Act.ensures_bind]
  simp only [journaled, Transformation.journaled, Act.ensures_bind, Act.ensures_zoom]
  exact hedit.imp fun outcome s' hs' => ⟨outcome, s', rfl, rfl, hs'⟩

/-- The parts of the transformer do beside a journal what they do without. -/
theorem journaled_alike (c : CachingTransformer σ) : c.journaled.Alike c fun w s => s = w.1 where
  inner := by
    constructor
    · rintro name loader w _ rfl
      exact ⟨rfl, rfl⟩
    · rintro r w _ rfl
      exact ⟨rfl, rfl⟩
  store := by
    rw [store_journaled]
    cases c.store with
    | none => exact .none
    | some store =>
      refine .some ⟨?_, rfl, ?_⟩
      · rintro k w _ rfl
        exact ⟨rfl, rfl⟩
      · rintro k result w _ rfl
        exact ⟨rfl, rfl⟩
  dump := by
    rw [dump_journaled]
    cases c.dump with
    | none => exact .none
    | some dump =>
      refine .some ?_
      rintro name loader bytes w _ rfl
      exact ⟨rfl, rfl⟩

theorem apply_alike : (c.journaled.apply r).Alike (c.apply r) SameWork fun _ => SameWork := by
  rintro w _ rfl
  obtain ⟨hvalue, hstats, hstate⟩ := (journaled_alike c).apply r w (unjournaled w) ⟨rfl, rfl⟩
  exact ⟨hvalue, Prod.ext hstats hstate⟩

/-- **Writing down what is asked changes nothing else.** -/
theorem journaling_alike (c : CachingTransformer σ)
    (asked : LoaderId → String → Bytes → Prop) :
    c.journalingTransformer.Alike c.transformer SameWork asked where
  accepts name loader := by
    rintro w _ rfl
    exact ⟨rfl, rfl⟩
  apply r _ := by
    rintro w _ rfl
    exact apply_alike (w.1, w.2.1, w.2.2.hand r) _ rfl

end Journaling

/-! ### Serving from a store -/

/-- In states with the property `K` the edit is a function, and the store holds its outputs for the
requests that are asked and nothing else for them. Neither a load nor a dump loses the property. -/
structure Serves (c : CachingTransformer σ) (K : σ → Prop) (eligible : String → LoaderId → Bool)
    (outcome : String → Bytes → EditOutcome) (asked : TransformRequest → Prop) : Prop where
  accepts : ∀ name loader s, K s → (c.inner.accepts name loader).Ensures s fun b s' =>
    b = eligible name loader ∧ K s'
  edit : ∀ r s, K s → eligible r.className r.loader = true → (c.inner.edit r).Ensures s fun o s' =>
    o = outcome (ClassName.qualified r.className) r.bytes ∧ K s'
  load : ∀ store ∈ c.store, ∀ r, asked r → eligible r.className r.loader = true → ∀ s, K s →
    (store.load r.key).Ensures s fun found s' =>
      (∀ stored, found = .ok (some stored) ↔ Output outcome r stored) ∧ K s'
  dump : ∀ dump ∈ c.dump, ∀ r, asked r → eligible r.className r.loader = true → ∀ bytes s, K s →
    (dump.write r.className r.loader bytes).Ensures s fun _ s' => K s'

/-- The edit gives a result for the request. -/
def succeeds (outcome : String → Bytes → EditOutcome) (r : TransformRequest) : Bool :=
  (editResult outcome r).isOk

/-- Of the requests that have been handed over and are eligible, those for which the edit fails have
become calls of the edit, which have failed, and the others have been hits. -/
structure Tally (eligible : String → LoaderId → Bool) (outcome : String → Bytes → EditOutcome)
    (stats : TransformStats) (j : Journal) : Prop where
  calls : j.calls.map Prod.fst =
    j.handed.filter fun r => eligible r.className r.loader && !succeeds outcome r
  failed : ∀ call ∈ j.calls, ∃ e, call.2.guarded = .error e
  hits : stats.hits =
    (j.handed.filter fun r => eligible r.className r.loader && succeeds outcome r).length

section Serving

variable {c : CachingTransformer σ} {K : σ → Prop} {eligible : String → LoaderId → Bool}
  {outcome : String → Bytes → EditOutcome} {asked : TransformRequest → Prop}
  {r : TransformRequest} {store : ResultStore σ} {stats stats' : TransformStats} {j : Journal}

theorem tally_start (eligible : String → LoaderId → Bool)
    (outcome : String → Bytes → EditOutcome) : Tally eligible outcome {} {} :=
  ⟨rfl, nofun, rfl⟩

/-- A request that is declined. -/
theorem Tally.declined (h : Tally eligible outcome stats j)
    (he : eligible r.className r.loader = false) : Tally eligible outcome stats (j.hand r) where
  calls := by simpa [Journal.hand, he] using h.calls
  failed := h.failed
  hits := by simpa [Journal.hand, he] using h.hits

/-- A request that is a hit. -/
theorem Tally.hit (h : Tally eligible outcome stats j)
    (he : eligible r.className r.loader = true) (hsucceeds : succeeds outcome r = true)
    (hstats : stats'.hits = stats.hits + 1) : Tally eligible outcome stats' (j.hand r) where
  calls := by simpa [Journal.hand, he, hsucceeds] using h.calls
  failed := h.failed
  hits := by simp [Journal.hand, he, hsucceeds, hstats, h.hits]

/-- A request that has become a call of the edit, which has failed. -/
theorem Tally.call (h : Tally eligible outcome stats j)
    (he : eligible r.className r.loader = true) {e : TransformError}
    (hresult : editResult outcome r = .error e) (hstats : stats'.hits = stats.hits) :
    Tally eligible outcome stats'
      ((j.hand r).call r (outcome (ClassName.qualified r.className) r.bytes)) := by
  have hfails : succeeds outcome r = false := by
    rw [succeeds, hresult]
    rfl
  constructor
  · simp [Journal.hand, Journal.call, he, hfails, h.calls]
  · intro call hcall
    rcases List.mem_append.1 hcall with hcall | hcall
    · exact h.failed call hcall
    · rw [List.mem_singleton.1 hcall]
      exact ⟨e, hresult⟩
  · simp [Journal.hand, Journal.call, he, hfails, hstats, h.hits]

theorem Tally.of_hits (h : Tally eligible outcome stats j) (hstats : stats'.hits = stats.hits) :
    Tally eligible outcome stats' j :=
  ⟨h.calls, h.failed, hstats.trans h.hits⟩

/-- A request that is not found in the store, because the edit fails for it. -/
theorem Serves.runInner_ensures (h : c.Serves K eligible outcome asked)
    (he : eligible r.className r.loader = true) {e : TransformError}
    (hresult : editResult outcome r = .error e) (hj : Tally eligible outcome stats j)
    (stats' : TransformStats) (hstats : stats'.hits = stats.hits) {s : σ} (hs : K s) :
    (c.journaled.runInner r).Ensures (stats', s, j.hand r) fun result w =>
      result = .error e ∧ K w.2.1 ∧ Tally eligible outcome w.1 w.2.2 := by
  refine (runInner_journaled (h.edit r s hs he) stats' (j.hand r)).imp fun result w hw => ?_
  obtain ⟨o, s', rfl, rfl, rfl, hs'⟩ := hw
  exact ⟨hresult, hs', hj.call he hresult hstats⟩

section Handing

variable (h : c.Serves K eligible outcome asked) (hstore : c.store = some store) (hr : asked r)
include h hstore hr

/-- A request that is eligible is a hit, or it becomes a call of the edit, which fails. -/
theorem Serves.cachedOrTransform_ensures
    (he : eligible r.className r.loader = true) {s : σ} (hs : K s)
    (hj : Tally eligible outcome stats j) :
    (c.journaled.cachedOrTransform r).Ensures (stats, s, j.hand r) fun result w =>
      settle r.bytes result = settle r.bytes (editResult outcome r) ∧ K w.2.1 ∧
        Tally eligible outcome w.1 w.2.2 := by
  rw [cachedOrTransform, store_journaled, hstore]
  simp only [Option.map_some, ResultStore.zoom, Act.ensures_bind, Act.ensures_zoom]
  refine (h.load store hstore r hr he s hs).imp fun found s' hfound => ?_
  obtain ⟨hfound, hs'⟩ := hfound
  cases hresult : editResult outcome r with
  | ok result =>
    -- the store has the output of the edit, so the edit is not called
    obtain rfl := (hfound _).2 ⟨result, hresult, rfl⟩
    have hsucceeds : succeeds outcome r = true := by rw [succeeds, hresult]; rfl
    refine ⟨?_, hs', hj.hit he hsucceeds rfl⟩
    exact settle_stored r.bytes (.ok result)
  | error e =>
    -- the store has nothing for the request, for there is no output
    rcases found with cause | _ | stored
    · simp only [Act.ensures_bind, count_ensures, Act.ensures_report]
      refine (h.runInner_ensures he hresult hj stats.storageFailure rfl hs').imp
        fun result w hw => ?_
      obtain ⟨rfl, hw⟩ := hw
      exact ⟨rfl, hw⟩
    · simp only [transformAndStore, Act.ensures_bind, count_ensures]
      refine (h.runInner_ensures he hresult hj stats.miss rfl hs').imp fun result w hw => ?_
      obtain ⟨rfl, hw⟩ := hw
      exact ⟨rfl, hw⟩
    · obtain ⟨result, hok, -⟩ := (hfound stored).1 rfl
      cases hresult.symm.trans hok

/-- **A request is served from the store**, or it becomes a call of the edit, which fails. -/
theorem Serves.apply_ensures {w : TransformStats × (σ × Journal)} (hs : K w.2.1)
    (hj : Tally eligible outcome w.1 w.2.2) :
    (c.journalingTransformer.apply r).Ensures w fun v w' =>
      v = answer eligible outcome r ∧ K w'.2.1 ∧ Tally eligible outcome w'.1 w'.2.2 := by
  obtain ⟨stats, s, j⟩ := w
  show (c.journaled.apply r).Ensures (stats, s, j.hand r) fun v w' =>
    v = answer eligible outcome r ∧ K w'.2.1 ∧ Tally eligible outcome w'.1 w'.2.2
  rw [apply, Act.ensures_bind, Act.ensures_zoom, accepts_journaled, Act.ensures_zoom]
  refine (h.accepts r.className r.loader s hs).imp fun accepted s₁ haccepted => ?_
  obtain ⟨haccepted, hs₁⟩ := haccepted
  rw [answer, ← haccepted]
  cases accepted with
  | false => exact ⟨rfl, hs₁, hj.declined haccepted.symm⟩
  | true =>
    simp only [Bool.not_true, if_neg Bool.false_ne_true, if_pos, Act.ensures_bind,
      Act.ensures_report, resultOrNone]
    refine (h.cachedOrTransform_ensures hstore hr haccepted.symm hs₁ hj).imp
      fun result w hw => ?_
    obtain ⟨hanswer, hw⟩ := hw
    rw [← hanswer]
    rcases result with e | _ | bytes
    · exact ⟨rfl, hw.1, hw.2.of_hits rfl⟩
    · exact ⟨rfl, hw⟩
    · simp only [Act.ensures_bind, Act.ensures_report, Act.ensures_pure, dumpResult,
        dump_journaled]
      cases hd : c.dump with
      | none => exact ⟨rfl, hw⟩
      | some dump =>
        simp only [Option.map_some, DumpTarget.zoom, Act.ensures_bind, Act.ensures_zoom]
        refine (h.dump dump hd r hr haccepted.symm bytes w.2.1 hw.1).imp fun written s₂ hs₂ => ?_
        cases written with
        | ok path => exact ⟨rfl, hs₂, hw.2.of_hits rfl⟩
        | error e => exact ⟨rfl, hs₂, hw.2⟩

end Handing

end Serving

end CachingTransformer

end Reclass
