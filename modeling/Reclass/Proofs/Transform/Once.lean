import Reclass.Proofs.Transform.Stock

/-!
# One output for each key

Several caching transformers work around one edit and over one store, to which nobody else writes
(`CachingTransformer.Alone`). The edit need not be a function. A call that is watched
(`CachingTransformer.watch`) proceeds in one of few ways, unless storage fails: the class is
declined, or its result is found, or the edit is called for want of a result and fails, or the
output of the edit is stored (`CachingTransformer.Proceeds`). So a key that has a result keeps it,
and one that has none stays without until the edit comes to an output for it
(`CachingTransformer.Course.held`, `CachingTransformer.Course.vacant`). Hence there is one output
for each key, and it is the answer from then on (`CachingTransformer.Course.oncePerKey`).
-/

set_option autoImplicit false

namespace Reclass

variable {σ ν ι : Type}

/-- The output of an edit that has come to an end: the input, if it has declined. -/
def EditOutcome.output? (input : Bytes) : EditOutcome → Option Bytes
  | done result => some (result.getD input)
  | failed _ => none
  | aborted _ => none

theorem EditOutcome.output?_eq (outcome : EditOutcome) (input : Bytes) :
    outcome.output? input = (outcome.guarded.map fun result => result.getD input).toOption := by
  match outcome with
  | .done _ | .failed _ | .aborted (.text _) | .aborted .other => rfl

/-- A result as a caller sees it. -/
theorem droppingUnchanged_some (output input : Bytes) :
    droppingUnchanged (some output) input = if output = input then none else some output := by
  rw [droppingUnchanged, Option.filter_some]
  by_cases h : output = input
  · simp [h]
  · simp [h]

/-- What one of several instances works on: counts of its own, and a state that all share. -/
def Lens.own {α : Type} [DecidableEq ι] (i : ι) : Lens ((ι → α) × σ) (α × σ) where
  get s := (s.1 i, s.2)
  set own s := (Function.update s.1 i own.1, own.2)
  get_set _ _ := Prod.ext (Function.update_self ..) rfl
  set_get s := Prod.ext (Function.update_eq_self i s.1) rfl
  set_set _ _ _ := Prod.ext (Function.update_idem ..) rfl

/-- One call of a caching transformer, as it can be watched. -/
structure Turn (σ : Type) where
  request : TransformRequest
  /-- Whether the edit accepts the class. -/
  eligible : Bool
  /-- The calls of the edit, with their outcomes. -/
  calls : List (TransformRequest × EditOutcome)
  answer : Option Bytes
  before : TransformStats × σ
  after : TransformStats × σ

namespace Turn

/-- No storage failure is counted. -/
def Stored (turn : Turn σ) : Prop :=
  turn.after.1.storageFailures = turn.before.1.storageFailures

instance (turn : Turn σ) : Decidable turn.Stored :=
  inferInstanceAs (Decidable (_ = _))

/-- The outputs that the edit has come to for a key. -/
def outputs (turn : Turn σ) (k : CacheKey) : List Bytes :=
  turn.calls.filterMap fun call => if call.1.key = k then call.2.output? call.1.bytes else none

end Turn

/-- For each key the edit comes to one output at most. A call for which it fails has no answer and
changes nothing that is seen, and the next eligible request with the key calls it again. Once it has
come to an output, every eligible request with the key is answered with that, without a call. -/
structure OncePerKey (view : σ → ν) (turns : List (Turn σ)) : Prop where
  once : ∀ k, (turns.flatMap fun turn => turn.outputs k).length ≤ 1
  failed : ∀ turn ∈ turns, ∀ call ∈ turn.calls, call.2.output? call.1.bytes = none →
    turn.answer = none ∧ view turn.after.2 = view turn.before.2
  retried : ∀ before turn between next after,
    turns = before ++ turn :: (between ++ next :: after) →
    (∃ call ∈ turn.calls, call.2.output? call.1.bytes = none) →
    next.eligible = true → next.request.key = turn.request.key →
    (∀ other ∈ between, other.eligible = true → other.request.key ≠ turn.request.key) →
    ∃ outcome, next.calls = [(next.request, outcome)]
  served : ∀ before turn between next after,
    turns = before ++ turn :: (between ++ next :: after) →
    ∀ output ∈ turn.outputs turn.request.key,
    next.eligible = true → next.request.key = turn.request.key →
    next.calls = [] ∧ next.answer = if output = next.request.bytes then none else some output

namespace CachingTransformer

variable {c : CachingTransformer σ} {view : σ → ν} {I : σ → Prop} {contents : σ → StoreContents}
  {r q : TransformRequest} {s s' s'' : σ} {store : ResultStore σ} {turn : Turn σ}
  {turns : List (Turn σ)} {output : Bytes}

/-! ### Watching one call -/

/-- A call, watched. The calls of the edit are those that are written down when the edit is
journaled, which changes nothing else. -/
def watch (c : CachingTransformer σ) (r : TransformRequest) :
    Act (TransformStats × σ) (Turn σ) := do
  let before ← Act.get
  let answer ← c.apply r
  let after ← Act.get
  return {
    request := r
    eligible := ((c.inner.accepts r.className r.loader).run before.2).value
    calls := ((c.journaled.apply r).run (before.1, before.2, {})).state.2.2.calls
    answer, before, after }

/-- For all requests the two states have the same results. -/
def Agree (contents : σ → StoreContents) (s s' : σ) : Prop :=
  ∀ r : TransformRequest, contents s' r.key = contents s r.key

theorem Agree.trans (h : Agree contents s s') (h' : Agree contents s' s'') :
    Agree contents s s'' :=
  fun r => (h' r).trans (h r)

/-- Nobody else writes to the store. In states with the property `I` it holds certain contents: a
load yields them, and a result that has been stored is the only change. The edit changes nothing
that is seen, and the contents are seen; a dump may be seen, but does not change the contents. -/
structure Alone (c : CachingTransformer σ) (view : σ → ν) (I : σ → Prop)
    (contents : σ → StoreContents) : Prop where
  inner : c.inner.Keeps view
  seen : ∀ s s', view s' = view s → I s → I s' ∧ Agree contents s s'
  load : ∀ store ∈ c.store, ∀ (r : TransformRequest) s, I s →
    (store.load r.key).Ensures s fun loaded s' =>
      view s' = view s ∧ ∀ found, loaded = .ok found → found = contents s r.key
  store : ∀ store ∈ c.store, ∀ (r : TransformRequest) output s, I s →
    (store.store r.key output).Ensures s fun written s' => ∀ path, written = .ok path →
      I s' ∧ ∀ q : TransformRequest, contents s' q.key =
        if q.key = r.key then some output else contents s q.key
  dump : ∀ dump ∈ c.dump, ∀ name loader bytes s, I s →
    (dump.write name loader bytes).Ensures s fun _ s' => I s' ∧ Agree contents s s'

/-- How an eligible request comes to its result: the result, the calls of the edit, and the state
that it leads to. -/
inductive Fetched (view : σ → ν) (contents : σ → StoreContents) (r : TransformRequest) (s : σ) :
    Option Bytes → List (TransformRequest × EditOutcome) → σ → Prop where
  | found {s' : σ} (stored : Bytes) (held : contents s r.key = some stored)
      (same : Agree contents s s') : Fetched view contents r s (some stored) [] s'
  | failed {s' : σ} (outcome : EditOutcome) (vacant : contents s r.key = none)
      (fails : outcome.output? r.bytes = none) (same : Agree contents s s')
      (unseen : view s' = view s) : Fetched view contents r s none [(r, outcome)] s'
  | stored {s' : σ} (outcome : EditOutcome) (output : Bytes) (vacant : contents s r.key = none)
      (succeeds : outcome.output? r.bytes = some output)
      (updated : ∀ q : TransformRequest, contents s' q.key =
        if q.key = r.key then some output else contents s q.key) :
      Fetched view contents r s (some output) [(r, outcome)] s'

/-- A result that has been found or stored may be shown. -/
theorem Fetched.dump {calls : List (TransformRequest × EditOutcome)}
    (h : Fetched view contents r s (some output) calls s') (hsame : Agree contents s' s'') :
    Fetched view contents r s (some output) calls s'' := by
  cases h with
  | found _ held same => exact .found output held (same.trans hsame)
  | stored outcome _ vacant succeeds updated =>
    exact .stored outcome output vacant succeeds fun q => (hsame q).trans (updated q)

/-- How a request is answered: whether it is eligible, the calls of the edit, the answer, and the
state that it leads to. -/
inductive Answered (view : σ → ν) (contents : σ → StoreContents) (r : TransformRequest) (s : σ) :
    Bool → List (TransformRequest × EditOutcome) → Option Bytes → σ → Prop where
  | declined {s' : σ} (same : Agree contents s s') : Answered view contents r s false [] none s'
  | eligible {result : Option Bytes} {calls : List (TransformRequest × EditOutcome)} {s' : σ}
      (fetched : Fetched view contents r s result calls s') :
      Answered view contents r s true calls (droppingUnchanged result r.bytes) s'

/-- A call proceeds in one of these ways. -/
abbrev Proceeds (view : σ → ν) (contents : σ → StoreContents) (turn : Turn σ) : Prop :=
  Answered view contents turn.request turn.before.2 turn.eligible turn.calls turn.answer
    turn.after.2

namespace Alone

theorem runInner_ensures (h : c.Alone view I contents) (stats : TransformStats) (s : σ)
    (j : Journal) : (c.journaled.runInner r).Ensures (stats, s, j) fun result w =>
      ∃ outcome s', w = (stats, s', j.call r outcome) ∧ result = outcome.guarded ∧
        view s' = view s := by
  have hedit : (c.inner.edit r).Ensures s fun _ s' => view s' = view s := h.inner.edit r s
  exact runInner_journaled hedit stats j

section Fetching

variable (h : c.Alone view I contents) (hstore : c.store = some store) (hs : I s)
  (hview : view s' = view s)
include h hstore hs hview

/-- When nothing is found for a request, the edit is called and its output stored. -/
theorem transformAndStore_ensures (hvacant : contents s r.key = none) (stats : TransformStats) :
    (c.journaled.transformAndStore (store.zoom .fst) r.key r).Ensures (stats, s', {})
      fun result w => Filled (fun w => I w.1 ∧
        Fetched view contents r s result.toOption.join w.2.calls w.1) stats.storageFailures w := by
  simp only [transformAndStore, Act.ensures_bind, count_ensures, ResultStore.zoom]
  refine (h.runInner_ensures stats.miss s' {}).imp fun result w hw => ?_
  obtain ⟨outcome, s₁, rfl, rfl, hview₁⟩ := hw
  obtain ⟨hs₁, hsame⟩ := h.seen s s₁ (hview₁.trans hview) hs
  have houtput := outcome.output?_eq r.bytes
  cases hguarded : outcome.guarded with
  | error e =>
    rw [hguarded] at houtput
    exact Or.inr ⟨rfl, hs₁, .failed outcome hvacant houtput hsame (hview₁.trans hview)⟩
  | ok result =>
    rw [hguarded] at houtput
    simp only [Act.ensures_bind, Act.ensures_zoom]
    refine (h.store store hstore r (result.getD r.bytes) s₁ hs₁).imp fun written s₂ hwritten => ?_
    cases written with
    | error e => exact Or.inl (Nat.lt_succ_self _)
    | ok path =>
      obtain ⟨hs₂, hupdated⟩ := hwritten path rfl
      have hafter (q : TransformRequest) : contents s₂ q.key =
          if q.key = r.key then some (result.getD r.bytes) else contents s q.key := by
        rw [hupdated q, hsame q]
      exact Or.inr ⟨rfl, hs₂, .stored outcome _ hvacant houtput hafter⟩

theorem resultOrNone_ensures (r : TransformRequest) (stats : TransformStats) :
    (c.journaled.resultOrNone r).Ensures (stats, s', {}) fun result w =>
      Filled (fun w => I w.1 ∧ Fetched view contents r s result w.2.calls w.1)
        stats.storageFailures w := by
  obtain ⟨hs', hsame⟩ := h.seen s s' hview hs
  rw [resultOrNone, Act.ensures_bind, cachedOrTransform, store_journaled, hstore]
  simp only [Option.map_some, ResultStore.zoom, Act.ensures_bind, Act.ensures_zoom]
  refine (h.load store hstore r s' hs').imp fun loaded s₁ hloaded => ?_
  obtain ⟨hview₁, hfound⟩ := hloaded
  rw [hsame r] at hfound
  rcases loaded with e | _ | stored
  · -- a load that fails is counted, whatever comes then
    simp only [Act.ensures_bind, count_ensures, Act.ensures_report]
    refine (h.runInner_ensures stats.storageFailure s₁ {}).imp fun result w hw => ?_
    obtain ⟨outcome, s₂, rfl, rfl, -⟩ := hw
    cases outcome.guarded with
    | ok result => exact Or.inl (Nat.lt_succ_self _)
    | error e => exact Or.inl (Nat.lt_succ_self _)
  · have hvacant : contents s r.key = none := (hfound none rfl).symm
    refine (h.transformAndStore_ensures hstore hs (hview₁.trans hview) hvacant stats).imp
      fun result w hw => ?_
    cases result with
    | ok result => exact hw
    | error e => exact hw
  · obtain ⟨hs₁, hsame₁⟩ := h.seen s s₁ (hview₁.trans hview) hs
    exact Or.inr ⟨rfl, hs₁, .found stored (hfound _ rfl).symm hsame₁⟩

end Fetching

section Watching

variable (h : c.Alone view I contents) (hstore : c.store = some store) (hs : I s)
include h hstore hs

theorem apply_ensures (r : TransformRequest) (stats : TransformStats) :
    (c.journaled.apply r).Ensures (stats, s, {}) fun answer w =>
      Filled (fun w => I w.1 ∧ Answered view contents r s
        ((c.inner.accepts r.className r.loader).run s).value w.2.calls answer w.1)
        stats.storageFailures w := by
  rw [apply, Act.ensures_bind, Act.ensures_zoom, accepts_journaled, Act.ensures_zoom]
  have haccepts : (c.inner.accepts r.className r.loader).Ensures s fun accepted s₁ =>
      ((c.inner.accepts r.className r.loader).run s).value = accepted ∧ view s₁ = view s :=
    ⟨rfl, h.inner.accepts r.className r.loader s⟩
  refine haccepts.imp fun accepted s₁ hw => ?_
  obtain ⟨haccepted, hview⟩ := hw
  rw [haccepted]
  obtain ⟨hs₁, hsame⟩ := h.seen s s₁ hview hs
  cases accepted with
  | false => exact Or.inr ⟨rfl, hs₁, .declined hsame⟩
  | true =>
    simp only [Bool.not_true, if_neg Bool.false_ne_true, Act.ensures_bind, Act.ensures_report]
    refine (h.resultOrNone_ensures hstore hs hview r stats).imp fun result w hw => ?_
    cases result with
    | none =>
      simp only [Act.ensures_bind, Act.ensures_report, Act.ensures_pure]
      exact hw.imp fun w hw => ⟨hw.1, .eligible hw.2⟩
    | some output =>
      simp only [Act.ensures_bind, Act.ensures_report, Act.ensures_pure]
      refine (dumpResult_filled ?_ r output hw).imp fun _ w hw =>
        hw.imp fun w hw => ⟨hw.1, .eligible hw.2⟩
      -- showing the result changes no contents
      intro dump hdump name loader bytes w hw
      rw [dump_journaled, Option.mem_def, Option.map_eq_some_iff] at hdump
      obtain ⟨dump, hdump, rfl⟩ := hdump
      simp only [DumpTarget.zoom, Act.ensures_zoom]
      refine (h.dump dump hdump name loader bytes w.1 hw.1).imp fun _ s₂ hs₂ => ?_
      exact ⟨hs₂.1, hw.2.dump hs₂.2⟩

/-- **One call**, when nobody else has written to the store. -/
theorem watch_ensures (r : TransformRequest) (stats : TransformStats) :
    (c.watch r).Ensures (stats, s) fun turn w => turn.before = (stats, s) ∧ turn.after = w ∧
      (turn.Stored → I w.2 ∧ Proceeds view contents turn) := by
  have hfilled := h.apply_ensures hstore hs r stats
  -- the edit is journaled on the side, which makes no difference to the call
  obtain ⟨hanswer, hafter⟩ := apply_alike (c := c) (r := r) (stats, s, {}) (stats, s) rfl
  refine ⟨rfl, rfl, fun hstored => ?_⟩
  simp only [watch, Turn.Stored, Act.run_bind, Act.run_get, Act.run_pure] at hstored ⊢
  rw [hanswer, hafter]
  rw [hafter] at hstored
  rcases hfilled with hcounted | ⟨-, hproceeds⟩
  · exact absurd hstored (Nat.ne_of_gt hcounted)
  · exact hproceeds

end Watching

end Alone

/-! ### What one call leaves -/

section Leaving

variable {calls : List (TransformRequest × EditOutcome)} {eligible : Bool} {answer : Option Bytes}

/-- A result that is there stays. -/
theorem Answered.held (h : Answered view contents r s eligible calls answer s')
    (hq : contents s q.key = some output) : contents s' q.key = some output := by
  cases h with
  | declined same => rw [same q, hq]
  | eligible fetched =>
    cases fetched with
    | found _ _ same => rw [same q, hq]
    | failed _ _ _ same => rw [same q, hq]
    | stored _ _ vacant _ updated =>
      have hne : q.key ≠ r.key := by
        intro hkey
        rw [hkey, vacant] at hq
        cases hq
      rw [updated q, if_neg hne, hq]

/-- No result comes to be but for the request, and only when the edit accepts it. -/
theorem Answered.vacant (h : Answered view contents r s eligible calls answer s')
    (hother : eligible = true → r.key ≠ q.key) (hq : contents s q.key = none) :
    contents s' q.key = none := by
  cases h with
  | declined same => rw [same q, hq]
  | eligible fetched =>
    cases fetched with
    | found _ _ same => rw [same q, hq]
    | failed _ _ _ same => rw [same q, hq]
    | stored _ _ _ _ updated => rw [updated q, if_neg (hother rfl).symm, hq]

/-- A result that is there is the answer, and the edit is not called. -/
theorem Answered.of_held (h : Answered view contents r s true calls answer s')
    (hheld : contents s r.key = some output) :
    calls = [] ∧ answer = droppingUnchanged (some output) r.bytes := by
  cases h with
  | eligible fetched =>
    cases fetched with
    | found stored held =>
      cases hheld.symm.trans held
      exact ⟨rfl, rfl⟩
    | failed _ vacant => cases hheld.symm.trans vacant
    | stored _ _ vacant => cases hheld.symm.trans vacant

/-- For want of a result the edit is called. -/
theorem Answered.of_vacant (h : Answered view contents r s true calls answer s')
    (hvacant : contents s r.key = none) : ∃ outcome, calls = [(r, outcome)] := by
  cases h with
  | eligible fetched =>
    cases fetched with
    | found _ held => cases hvacant.symm.trans held
    | failed outcome => exact ⟨outcome, rfl⟩
    | stored outcome => exact ⟨outcome, rfl⟩

/-- A call of the edit that fails has no answer and changes nothing. -/
theorem Answered.of_failed (h : Answered view contents r s eligible calls answer s')
    {call : TransformRequest × EditOutcome} (hcall : call ∈ calls)
    (hfails : call.2.output? call.1.bytes = none) :
    answer = none ∧ view s' = view s ∧ contents s' r.key = none := by
  cases h with
  | declined => cases hcall
  | eligible fetched =>
    cases fetched with
    | found => cases hcall
    | failed outcome vacant _ same unseen => exact ⟨rfl, unseen, (same r).trans vacant⟩
    | stored outcome output _ succeeds =>
      rw [List.mem_singleton.1 hcall, succeeds] at hfails
      cases hfails

end Leaving

/-- A call has an output at most for its own key, and that is there from then on. -/
theorem Proceeds.outputs (h : Proceeds view contents turn) (k : CacheKey) :
    turn.outputs k = [] ∨ ∃ output, turn.outputs k = [output] ∧ turn.request.key = k ∧
      contents turn.before.2 k = none ∧ contents turn.after.2 k = some output := by
  obtain ⟨r, eligible, calls, answer, before, after⟩ := turn
  dsimp only [Proceeds] at h
  cases h with
  | declined => exact Or.inl rfl
  | eligible fetched =>
    cases fetched with
    | found => exact Or.inl rfl
    | failed outcome _ fails => exact Or.inl (by simp [Turn.outputs, fails])
    | stored outcome output vacant succeeds updated =>
      by_cases hkey : r.key = k
      · subst hkey
        refine Or.inr ⟨output, by simp [Turn.outputs, succeeds], rfl, vacant, ?_⟩
        rw [updated r, if_pos rfl]
      · exact Or.inl (by simp [Turn.outputs, hkey])

/-! ### One call after the other -/

/-- Calls of several instances, one after the other. Each has counts of its own. -/
def watchEach [DecidableEq ι] (c : ι → CachingTransformer σ)
    (calls : List (ι × TransformRequest)) : Act ((ι → TransformStats) × σ) (List (Turn σ)) :=
  calls.mapM fun call => Act.zoom (.own call.1) ((c call.1).watch call.2)

/-- Calls that proceed one after the other, from the state `s` on. -/
inductive Course (view : σ → ν) (contents : σ → StoreContents) : σ → List (Turn σ) → Prop where
  | nil (s : σ) : Course view contents s []
  | cons {turn : Turn σ} {turns : List (Turn σ)} (proceeds : Proceeds view contents turn)
      (rest : Course view contents turn.after.2 turns) :
      Course view contents turn.before.2 (turn :: turns)

/-- **Calls of several instances**, when nobody else writes to the store and storage does not
fail. -/
theorem Alone.watchEach_ensures [DecidableEq ι] {c : ι → CachingTransformer σ}
    (h : ∀ i, (c i).Alone view I contents) (hstore : ∀ i, (c i).store ≠ none)
    (calls : List (ι × TransformRequest)) (stats : ι → TransformStats) (hs : I s) :
    (watchEach c calls).Ensures (stats, s) fun turns _ =>
      (∀ turn ∈ turns, turn.Stored) → Course view contents s turns := by
  induction calls generalizing stats s with
  | nil => exact fun _ => .nil s
  | cons call calls ih =>
    obtain ⟨i, r⟩ := call
    obtain ⟨store, hsome⟩ := Option.ne_none_iff_exists'.1 (hstore i)
    rw [watchEach, List.mapM_cons, Act.ensures_bind, Act.ensures_zoom]
    refine ((h i).watch_ensures hsome hs r (stats i)).imp fun turn w hturn => ?_
    obtain ⟨hbefore, hafter, hproceeds⟩ := hturn
    rw [Act.ensures_bind]
    by_cases hstored : turn.Stored
    · obtain ⟨hw, hproceeds⟩ := hproceeds hstored
      refine (ih (Function.update stats i w.1) hw).imp fun turns _ hrest => ?_
      rw [Act.ensures_pure, List.forall_mem_cons]
      rintro ⟨-, hall⟩
      have hs' : s = turn.before.2 := (congrArg Prod.snd hbefore).symm
      have hw' : w.2 = turn.after.2 := (congrArg Prod.snd hafter).symm
      rw [hw'] at hrest
      rw [hs']
      exact .cons hproceeds (hrest hall)
    · refine Act.Ensures.of_forall fun turns _ => ?_
      rw [Act.ensures_pure, List.forall_mem_cons]
      exact fun hall => absurd hall.1 hstored

namespace Course

/-- A result that is there is there when a later call is made. -/
theorem held {before after : List (Turn σ)} (h : Course view contents s (before ++ turn :: after))
    (hq : contents s q.key = some output) : contents turn.before.2 q.key = some output := by
  induction before generalizing s with
  | nil =>
    cases h with
    | cons proceeds rest => exact hq
  | cons first before ih =>
    cases h with
    | cons proceeds rest => exact ih rest (proceeds.held hq)

/-- A key that has no result has none when a later call is made, unless the edit has been called for
it meanwhile. -/
theorem vacant {before after : List (Turn σ)}
    (h : Course view contents s (before ++ turn :: after))
    (hothers : ∀ other ∈ before, other.eligible = true → other.request.key ≠ q.key)
    (hq : contents s q.key = none) : contents turn.before.2 q.key = none := by
  induction before generalizing s with
  | nil =>
    cases h with
    | cons proceeds rest => exact hq
  | cons first before ih =>
    cases h with
    | cons proceeds rest =>
      rw [List.forall_mem_cons] at hothers
      exact ih rest hothers.2 (proceeds.vacant hothers.1 hq)

/-- The calls that come after some others. -/
theorem later {before after : List (Turn σ)}
    (h : Course view contents s (before ++ turn :: after)) :
    Proceeds view contents turn ∧ Course view contents turn.after.2 after := by
  induction before generalizing s with
  | nil =>
    cases h with
    | cons proceeds rest => exact ⟨proceeds, rest⟩
  | cons first before ih =>
    cases h with
    | cons proceeds rest => exact ih rest

/-- For a key that has a result there are no more outputs. -/
theorem outputs_of_held (h : Course view contents s turns)
    (hq : contents s q.key = some output) :
    (turns.flatMap fun turn => turn.outputs q.key) = [] := by
  induction h with
  | nil => rfl
  | cons proceeds rest ih =>
    rw [List.flatMap_cons, ih (proceeds.held hq), List.append_nil]
    rcases proceeds.outputs q.key with hnone | ⟨_, -, -, hvacant, -⟩
    · exact hnone
    · cases hq.symm.trans hvacant

theorem length_outputs_le_one (h : Course view contents s turns) (k : CacheKey) :
    (turns.flatMap fun turn => turn.outputs k).length ≤ 1 := by
  induction h with
  | nil => exact Nat.zero_le 1
  | cons proceeds rest ih =>
    rw [List.flatMap_cons]
    rcases proceeds.outputs k with hnone | ⟨output, hone, rfl, -, hheld⟩
    · rw [hnone]
      exact ih
    · rw [hone, rest.outputs_of_held hheld]
      exact Nat.le_refl 1

/-- **There is one output for each key, and it is the answer from then on.** -/
theorem oncePerKey (h : Course view contents s turns) : OncePerKey view turns where
  once := h.length_outputs_le_one
  failed turn hturn call hcall hfails := by
    obtain ⟨before, after, rfl⟩ := List.append_of_mem hturn
    obtain ⟨hanswer, hsame, -⟩ := h.later.1.of_failed hcall hfails
    exact ⟨hanswer, hsame⟩
  retried before turn between next after hturns hfailed heligible hkey hothers := by
    subst hturns
    obtain ⟨call, hcall, hfails⟩ := hfailed
    obtain ⟨hproceeds, hrest⟩ := h.later
    obtain ⟨-, -, hvacant⟩ := hproceeds.of_failed hcall hfails
    have hnext := hrest.later.1
    have hvacant' := hrest.vacant hothers hvacant
    rw [Proceeds, heligible] at hnext
    rw [← hkey] at hvacant'
    exact hnext.of_vacant hvacant'
  served before turn between next after hturns output houtput heligible hkey := by
    subst hturns
    obtain ⟨hproceeds, hrest⟩ := h.later
    rcases hproceeds.outputs turn.request.key with hnone | ⟨stored, hone, -, -, hheld⟩
    · rw [hnone] at houtput
      cases houtput
    · rw [hone] at houtput
      obtain rfl := List.mem_singleton.1 houtput
      have hnext := hrest.later.1
      have hheld' := hrest.held hheld
      rw [Proceeds, heligible] at hnext
      rw [← hkey] at hheld'
      rw [← droppingUnchanged_some]
      exact hnext.of_held hheld'

end Course

end CachingTransformer

end Reclass
