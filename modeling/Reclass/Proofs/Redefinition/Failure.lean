import Reclass.Proofs.Redefinition.Agreement

/-!
# What a failing agent leaves behind

On a host over a class path a run in batch mode submits one batch at most. After a pass every class
is an array, or has been dealt with, or has no bytes (`Redefinition.Spent`), and that stays so when
the batch is put in place: no class is loaded meanwhile, and none without bytes is edited. So the
second pass finds nothing, whether it looks at unreadable classes again or not, and a run that fails
has failed on its only batch and leaves the host as it was (`Redefinition.run_outcome`). An agent
registers a transformer when its run has converged; when a later run fails, the host is what the
transformers before it have made of it, and nothing of the failed run is left
(`Agent.go_leaves_whole_steps`).
-/

set_option autoImplicit false

namespace Reclass

variable {ρ : Type}

namespace Universe

variable {u : Universe} {ds : List ClassDefinition} {i : Nat}

/-- There are no bytes for the class of an identity. -/
def Bare (u : Universe) (i : Nat) : Prop := ∀ d, u.classes[i]? = some d → d.bytes = []

theorem bare_iff {c : LoadedClass} : u.Bare c.id ↔ (u.bytesOf c).getD [] = [] := by
  unfold Bare bytesOf
  cases u.classes[c.id]? with
  | none => simp
  | some d => simp

/-- What a redefinition does not name has no more bytes than before. -/
theorem Bare.foldl_replace (h : u.Bare i) (hne : ∀ d ∈ ds, d.target.id ≠ i) :
    (ds.foldl replace u).Bare i := by
  intro d hd
  rw [getElem?_foldl_replace_of_ne hne] at hd
  exact h d hd

end Universe

namespace Redefinition

variable {u u' : Universe} {before : List Nat} {seen : List LoadedClass} {p : Progress}
  {c : LoadedClass} {t : Transformer ρ} {opts : RedefineOptions}

/-- No pass has anything left to edit when these classes have been dealt with. -/
def Spent (u : Universe) (done : List Nat) : Prop :=
  ∀ c ∈ u.loadedClasses, c.isArray = true ∨ c.id ∈ done ∨ u.Bare c.id

/-- Where a pass stands after it has looked at the classes `seen`, whatever the transformer does
with them. The classes `before` had been dealt with in earlier passes. -/
structure Surveyed (u : Universe) (before : List Nat) (seen : List LoadedClass) (p : Progress) :
    Prop where
  kept : ∀ i ∈ before, i ∈ p.done ∨ u.Bare i
  dealt : ∀ c ∈ seen, c.isArray = true ∨ c.id ∈ p.done ∨ u.Bare c.id
  pending : ∀ e ∈ p.pending, e.target ∈ seen ∧ e.target.isArray = false ∧
    e.target.id ∉ before ∧ ¬ u.Bare e.target.id

theorem surveyed_start (u : Universe) (hp : p.pending = []) : Surveyed u p.done [] p where
  kept _ hi := Or.inl hi
  dealt _ hc := absurd hc List.not_mem_nil
  pending e he := by
    rw [hp] at he
    cases he

theorem Surveyed.skip (h : Surveyed u before seen p) (hskip : c.isArray = true ∨ c.id ∈ p.done) :
    Surveyed u before (seen ++ [c]) p where
  kept := h.kept
  dealt := by
    rw [List.forall_mem_append, List.forall_mem_singleton]
    exact ⟨h.dealt, hskip.imp_right Or.inl⟩
  pending e he := by
    obtain ⟨hseen, hrest⟩ := h.pending e he
    exact ⟨List.mem_append_left [c] hseen, hrest⟩

/-- A class is unreadable only without bytes, and edited only with some. -/
theorem Surveyed.after (h : Surveyed u before seen p) (harray : c.isArray = false)
    (hfresh : c.id ∉ p.done) {finding : Finding}
    (hunreadable : finding = .unreadable → u.Bare c.id)
    (hedited : ∀ bytes, finding = .edited bytes → ¬ u.Bare c.id) :
    Surveyed u before (seen ++ [c]) (p.after opts c finding) := by
  -- a class is taken off the list of those dealt with only when it has no bytes
  have hdone : ∀ i, i = c.id ∨ i ∈ p.done → i ∈ (p.after opts c finding).done ∨ u.Bare i := by
    intro i hi
    by_cases hretry : finding = .unreadable ∧ i = c.id
    · obtain ⟨hfinding, rfl⟩ := hretry
      exact Or.inr (hunreadable hfinding)
    · exact Or.inl (mem_done_after.2 ⟨hi, fun hfinding _ hid => hretry ⟨hfinding, hid⟩⟩)
  refine ⟨?_, ?_, ?_⟩
  · intro i hi
    rcases h.kept i hi with hin | hbare
    · exact hdone i (Or.inr hin)
    · exact Or.inr hbare
  · rw [List.forall_mem_append, List.forall_mem_singleton]
    refine ⟨fun c' hc' => ?_, Or.inr (hdone c.id (Or.inl rfl))⟩
    rcases h.dealt c' hc' with hisArray | hin | hbare
    · exact Or.inl hisArray
    · exact Or.inr (hdone c'.id (Or.inr hin))
    · exact Or.inr (Or.inr hbare)
  · intro e he
    rw [pending_after, List.mem_append] at he
    rcases he with he | he
    · obtain ⟨hseen, hrest⟩ := h.pending e he
      exact ⟨List.mem_append_left [c] hseen, hrest⟩
    · cases finding with
      | edited bytes =>
        cases List.mem_singleton.1 he
        have hbytes := hedited bytes rfl
        refine ⟨List.mem_append_right seen (List.mem_singleton_self c), harray, ?_, hbytes⟩
        intro hbefore
        exact (h.kept c.id hbefore).elim hfresh hbytes
      | declined => cases he
      | unreadable => cases he
      | unchanged => cases he

/-- A pass over all classes finds no edit when there is nothing left. -/
theorem Surveyed.pending_eq_nil (h : Surveyed u before u.loadedClasses p)
    (hspent : Spent u before) : p.pending = [] := by
  apply List.eq_nil_iff_forall_not_mem.2
  intro e he
  obtain ⟨hseen, harray, hbefore, hbytes⟩ := h.pending e he
  rcases hspent e.target hseen with hisArray | hin | hbare
  · rw [harray] at hisArray
    cases hisArray
  · exact hbefore hin
  · exact hbytes hbare

/-- Nothing is left after a pass, whichever of its edits are put in place. -/
theorem Surveyed.spent_foldl (h : Surveyed u before u.loadedClasses p) {ds : List ClassDefinition}
    (hds : ∀ e ∈ ds, e ∈ p.pending) : Spent (ds.foldl Universe.replace u) p.done := by
  intro c hc
  rw [Universe.loadedClasses_foldl_replace] at hc
  refine (h.dealt c hc).imp_right (Or.imp_right fun hbare => ?_)
  apply hbare.foldl_replace
  intro e he hid
  exact (h.pending e (hds e he)).2.2.2 (hid ▸ hbare)

/-- **After an accepted batch there is nothing left.** -/
theorem Surveyed.spent (h : Surveyed u before u.loadedClasses p)
    (hredefine : u.redefine p.pending = .ok u') : Spent u' p.done := by
  obtain ⟨-, rfl⟩ := Universe.redefine_eq_ok hredefine
  exact h.spent_foldl fun _ he => he

theorem ensures_classBytes (c : LoadedClass) (host : ClassPathHost ρ) (r : ρ)
    {Q : Except ReadError (Option Bytes) → ClassPathHost ρ × ρ → Prop} :
    (ClassPathHost.instrumentation.classBytes c).Ensures (host, r) Q ↔
      Q (.ok (host.loaded.bytesOf c)) (host, r) := Iff.rfl

/-- Looking at a class leaves the host as it is, whatever the transformer does. -/
theorem inspect_ensures (t : Transformer ρ) (c : LoadedClass) (host : ClassPathHost ρ) (r : ρ) :
    (inspect ClassPathHost.instrumentation (ClassPathHost.lift t) c).Ensures (host, r)
      fun finding s' => s'.1 = host ∧ (finding = .unreadable → host.loaded.Bare c.id) ∧
        ∀ bytes, finding = .edited bytes → ¬ host.loaded.Bare c.id := by
  rw [inspect, Act.ensures_bind]
  show ((ClassPathHost.lift t).accepts c.name c.loader).Ensures (host, r) _
  rw [ClassPathHost.lift, Transformer.zoom, Act.ensures_zoom]
  refine Act.Ensures.of_forall fun accepted r' => ?_
  cases accepted with
  | false => exact ⟨rfl, by rintro ⟨⟩, by rintro _ ⟨⟩⟩
  | true =>
    rw [Bool.not_true, if_neg Bool.false_ne_true, Act.ensures_bind]
    refine (ensures_classBytes c host r').2 ?_
    cases hbytes : host.loaded.bytesOf c with
    | none =>
      have hbare : host.loaded.Bare c.id := by simp [Universe.bare_iff, hbytes]
      exact ⟨rfl, fun _ => hbare, by rintro _ ⟨⟩⟩
    | some bytes =>
      cases bytes with
      | nil =>
        have hbare : host.loaded.Bare c.id := by simp [Universe.bare_iff, hbytes]
        exact ⟨rfl, fun _ => hbare, by rintro _ ⟨⟩⟩
      | cons b bytes =>
        have hbytes' : ¬ host.loaded.Bare c.id := by simp [Universe.bare_iff, hbytes]
        simp only [Act.ensures_bind, Act.ensures_zoom]
        refine Act.Ensures.of_forall fun edited r'' => ?_
        cases edited with
        | none => exact ⟨rfl, by rintro ⟨⟩, by rintro _ ⟨⟩⟩
        | some edited => exact ⟨rfl, by rintro ⟨⟩, fun _ _ => hbytes'⟩

/-- A pass surveys all classes and leaves the host as it is. -/
theorem collect_survey (t : Transformer ρ) (opts : RedefineOptions) (hp : p.pending = [])
    (host : ClassPathHost ρ) (r : ρ) :
    (collect ClassPathHost.instrumentation (ClassPathHost.lift t) opts p).Ensures (host, r)
      fun p' s' => s'.1 = host ∧ Surveyed host.loaded p.done host.loaded.loadedClasses p' := by
  have hstep : ∀ c ∈ host.loaded.loadedClasses, ∀ seen p' (s : ClassPathHost ρ × ρ),
      (s.1 = host ∧ Surveyed host.loaded p.done seen p') →
      (consider ClassPathHost.instrumentation (ClassPathHost.lift t) opts p' c).Ensures s
        fun p'' s' => s'.1 = host ∧ Surveyed host.loaded p.done (seen ++ [c]) p'' := by
    rintro c - seen p' ⟨_, r'⟩ ⟨rfl, hsurveyed⟩
    rw [consider_eq]
    by_cases hskip : (c.isArray || p'.done.contains c.id) = true
    · rw [if_pos hskip]
      rw [Bool.or_eq_true, List.contains_iff_mem] at hskip
      exact ⟨rfl, hsurveyed.skip hskip⟩
    · rw [if_neg hskip, map_eq_pure_bind, Act.ensures_bind]
      rw [Bool.or_eq_true, not_or, List.contains_iff_mem, Bool.not_eq_true] at hskip
      refine (inspect_ensures t c _ r').imp fun finding s' h => ?_
      obtain ⟨hhost, hunreadable, hedited⟩ := h
      exact ⟨hhost, hsurveyed.after hskip.1 hskip.2 hunreadable hedited⟩
  have hstart : (host, r).1 = host ∧ Surveyed host.loaded p.done [] p :=
    ⟨rfl, surveyed_start host.loaded hp⟩
  exact Act.ensures_foldlM (I := fun seen p' (s' : ClassPathHost ρ × ρ) =>
    s'.1 = host ∧ Surveyed host.loaded p.done seen p') hstep hstart

/-- A pass with nothing left to edit is the last one. -/
theorem passes_of_spent (t : Transformer ρ) (opts : RedefineOptions) (limit pass : Nat)
    (hp : p.pending = []) (report : RedefineReport) {host : ClassPathHost ρ}
    (hspent : Spent host.loaded p.done) (r : ρ) :
    (passes ClassPathHost.instrumentation (ClassPathHost.lift t) opts (limit + 1) pass p
      report).Ensures (host, r) fun res s' =>
        s'.1 = host ∧ ∃ report', res = .ok report' ∧ report'.passes = pass := by
  rw [passes]
  simp only [Act.ensures_bind, Act.ensures_report]
  refine (collect_survey t opts hp host r).imp fun p' s' h => ?_
  obtain ⟨hhost, hsurveyed⟩ := h
  rw [hsurveyed.pending_eq_nil hspent, List.isEmpty_nil, if_pos rfl]
  simp only [Act.ensures_bind, Act.ensures_report, Act.ensures_pure]
  exact ⟨hhost, _, rfl, rfl⟩

/-- **What a run in batch mode comes to.** Either no class is edited, or the edits of the first pass
are put in place and the second pass finds no others, or the host rejects the edits of the first
pass and stays as it is. -/
theorem run_outcome (hbatch : opts.verbose = false) (t : Transformer ρ) (host : ClassPathHost ρ)
    (r : ρ) :
    (run ClassPathHost.instrumentation (ClassPathHost.lift t) opts).Ensures (host, r)
      fun res s' =>
        (∃ report, res = .ok report ∧ report.passes = 1 ∧ s'.1 = host) ∨
        (∃ report edits u', res = .ok report ∧ report.passes = 2 ∧
          host.loaded.redefine edits = .ok u' ∧ s'.1 = { host with loaded := u' }) ∨
        ∃ edits e, res = .error (.batch edits.length e) ∧
          host.loaded.redefine edits = .error e ∧ s'.1 = host := by
  rw [run, Act.ensures_bind]
  show Act.Ensures (Act.gets fun s => s.1.loaded.size + 1) (host, r) _
  rw [Act.ensures_gets, passes]
  simp only [Act.ensures_bind, Act.ensures_report]
  refine (collect_survey t opts (p := {}) rfl host r).imp fun p s' h => ?_
  obtain ⟨hhost, hsurveyed⟩ := h
  by_cases hempty : p.pending.isEmpty = true
  · rw [if_pos hempty]
    simp only [Act.ensures_bind, Act.ensures_report, Act.ensures_pure]
    exact Or.inl ⟨_, rfl, rfl, hhost⟩
  · rw [if_neg hempty]
    simp only [Act.ensures_bind, Act.ensures_report]
    obtain ⟨host', r'⟩ := s'
    obtain rfl : host = host' := hhost.symm
    refine (submit_all_or_nothing hbatch host r' p.pending _).imp fun res s'' h => ?_
    obtain ⟨-, ⟨u', hredefine, rfl, hhost'⟩ | ⟨e, hredefine, rfl, hhost'⟩⟩ := h
    · -- there is a class, so that a second pass is allowed
      obtain ⟨limit, hlimit⟩ : ∃ limit, host.loaded.size = limit + 1 := by
        apply Nat.exists_eq_add_one.2
        obtain ⟨e, he⟩ := List.exists_mem_of_ne_nil p.pending (mt List.isEmpty_iff.2 hempty)
        have hclasses := List.length_pos_of_mem (hsurveyed.pending e he).1
        rwa [Universe.loadedClasses, List.length_map, Array.length_toList] at hclasses
      obtain ⟨host'', r''⟩ := s''
      obtain rfl : { host with loaded := u' } = host'' := hhost'.symm
      rw [hlimit]
      refine (passes_of_spent t opts limit 2 (p := { p with pending := [] }) rfl _
        (hsurveyed.spent hredefine) r'').imp fun res s''' h => ?_
      obtain ⟨hhost'', report, rfl, hpasses⟩ := h
      exact Or.inr (Or.inl ⟨report, p.pending, u', rfl, hpasses, hredefine, hhost''⟩)
    · exact Or.inr (Or.inr ⟨p.pending, e, rfl, hredefine, hhost'⟩)

/-- A run in batch mode registers nothing, and when it fails the host is as it was. -/
theorem run_ensures_unchanged (hbatch : opts.verbose = false) (t : Transformer ρ)
    (s : ClassPathHost ρ × ρ) :
    (run ClassPathHost.instrumentation (ClassPathHost.lift t) opts).Ensures s fun res s' =>
      s'.1.hooks = s.1.hooks ∧ ∀ e, res = .error e → s'.1 = s.1 := by
  obtain ⟨host, r⟩ := s
  refine (run_outcome hbatch t host r).imp fun res s' h => ?_
  rcases h with ⟨report, rfl, -, hhost⟩ | ⟨report, edits, u', rfl, -, -, hhost⟩ |
    ⟨edits, e, rfl, -, hhost⟩
  · rw [hhost]
    exact ⟨rfl, by rintro _ ⟨⟩⟩
  · rw [hhost]
    exact ⟨rfl, by rintro _ ⟨⟩⟩
  · rw [hhost]
    exact ⟨rfl, fun _ _ => rfl⟩

end Redefinition

namespace Agent

variable {opts : RedefineOptions} {s s' ran : ClassPathHost ρ × ρ} {t : Transformer ρ}
  {done ts : List (Transformer ρ)} {report : RedefineReport}

/-- The run of a transformer on a host over a class path. -/
def runOf (opts : RedefineOptions) (t : Transformer ρ) :
    Act (ClassPathHost ρ × ρ) (Except RedefinitionError RedefineReport) :=
  Redefinition.run ClassPathHost.instrumentation (ClassPathHost.lift t) opts

/-- The state with these transformers, and no others, registered with the host. -/
def withHooks (s : ClassPathHost ρ × ρ) (hooks : List (Transformer ρ)) : ClassPathHost ρ × ρ :=
  ({ s.1 with hooks }, s.2)

/-- From the state `s` on the runs of the transformers converge, each from where the one before it
has been registered, and right after the last run the state is `s'`. -/
inductive Converged (opts : RedefineOptions) :
    ClassPathHost ρ × ρ → List (Transformer ρ) → ClassPathHost ρ × ρ → Prop
  | none (s : ClassPathHost ρ × ρ) : Converged opts s [] s
  | last {s : ClassPathHost ρ × ρ} {t : Transformer ρ} {report : RedefineReport}
      (hrun : ((runOf opts t).run s).value = .ok report) :
      Converged opts s [t] ((runOf opts t).run s).state
  | next {s s₁ s' : ClassPathHost ρ × ρ} {t t' : Transformer ρ} {ts : List (Transformer ρ)}
      {report : RedefineReport} (hrun : ((runOf opts t).run s).value = .ok report)
      (hstate : ((runOf opts t).run s).state = s₁)
      (hrest : Converged opts (withHooks s₁ (s₁.1.hooks ++ [t])) (t' :: ts) s') :
      Converged opts s (t :: t' :: ts) s'

/-- One more run in front: the last run ends as it does without it, but for the registration. -/
theorem Converged.cons (hrun : ((runOf opts t).run s).value = .ok report)
    (hstate : ((runOf opts t).run s).state = s')
    (hrest : Converged opts (withHooks s' (s'.1.hooks ++ [t])) ts ran) :
    ∃ ran', Converged opts s (t :: ts) ran' ∧ ∀ hooks, withHooks ran' hooks = withHooks ran hooks := by
  cases hrest with
  | none =>
    rw [← hstate]
    exact ⟨_, .last hrun, fun _ => rfl⟩
  | last h => exact ⟨_, .next hrun hstate (.last h), fun _ => rfl⟩
  | next h hstate' hrest => exact ⟨_, .next hrun hstate (.next h hstate' hrest), fun _ => rfl⟩

/-- **What is left of the runs of some transformers.** When all of them converge, all are registered;
when one fails, the state is that in which the ones before it have left the host. -/
theorem install_leaves_whole_steps (hbatch : opts.verbose = false) (ts : List (Transformer ρ))
    (s : ClassPathHost ρ × ρ) :
    (install ClassPathHost.instrumentation ClassPathHost.lift opts ts).Ensures s fun res s' =>
      (∀ reports, res = .ok reports → reports.length = ts.length ∧
        ∃ ran, Converged opts s ts ran ∧ s'.1 = (withHooks ran (s.1.hooks ++ ts)).1) ∧
      ∀ e, res = .error e → ∃ done t rest ran, ts = done ++ t :: rest ∧
        Converged opts s done ran ∧ s'.1 = (withHooks ran (s.1.hooks ++ done)).1 ∧
        ((runOf opts t).run (withHooks ran (s.1.hooks ++ done))).value = .error e := by
  induction ts generalizing s with
  | nil =>
    refine ⟨?_, by rintro _ ⟨⟩⟩
    rintro reports ⟨⟩
    refine ⟨rfl, s, .none s, ?_⟩
    rw [List.append_nil]
    rfl
  | cons t ts ih =>
    rw [install, Act.ensures_bind]
    -- what is known of the run, and that it is this run
    have hrun : (runOf opts t).Ensures s fun res s₁ =>
        (((runOf opts t).run s).value = res ∧ ((runOf opts t).run s).state = s₁) ∧
          s₁.1.hooks = s.1.hooks ∧ ∀ e, res = .error e → s₁.1 = s.1 :=
      ⟨⟨rfl, rfl⟩, Redefinition.run_ensures_unchanged hbatch t s⟩
    refine Act.Ensures.imp hrun fun res s₁ h => ?_
    obtain ⟨⟨hvalue, hstate⟩, hhooks, hfailed⟩ := h
    cases res with
    | error e =>
      refine ⟨by rintro _ ⟨⟩, ?_⟩
      rintro _ ⟨⟩
      refine ⟨[], t, ts, s, rfl, .none s, ?_⟩
      rw [List.append_nil]
      exact ⟨hfailed e rfl, hvalue⟩
    | ok report =>
      rw [Act.ensures_bind, ClassPathHost.addTransformer_ensures, Act.ensures_bind]
      have hlist : ∀ more, (withHooks s₁ (s₁.1.hooks ++ [t])).1.hooks ++ more =
          s.1.hooks ++ t :: more := by
        intro more
        show (s₁.1.hooks ++ [t]) ++ more = _
        rw [hhooks, List.append_assoc]
        rfl
      refine (ih (withHooks s₁ (s₁.1.hooks ++ [t]))).imp fun res s' h => ?_
      obtain ⟨hok, herror⟩ := h
      cases res with
      | error e =>
        refine ⟨by rintro _ ⟨⟩, ?_⟩
        rintro _ ⟨⟩
        obtain ⟨done, t', rest, ran, rfl, hconverged, hhost, hrun'⟩ := herror e rfl
        obtain ⟨ran', hconverged', hsame⟩ := hconverged.cons hvalue hstate
        rw [hlist, ← hsame] at hhost hrun'
        exact ⟨t :: done, t', rest, ran', rfl, hconverged', hhost, hrun'⟩
      | ok reports =>
        refine ⟨?_, by rintro _ ⟨⟩⟩
        rintro _ ⟨⟩
        obtain ⟨hlength, ran, hconverged, hhost⟩ := hok reports rfl
        obtain ⟨ran', hconverged', hsame⟩ := hconverged.cons hvalue hstate
        rw [hlist, ← hsame] at hhost
        exact ⟨congrArg Nat.succ hlength, ran', hconverged', hhost⟩

/-- **A failing agent leaves whole steps only.**

Take any host over a class path, any transformers, and batch mode, with or without another look at
unreadable classes. The transformers work on a state beside the host and may answer anything and
change that state at will, but they load and redefine no classes themselves. When the agent succeeds, all its transformers have been
registered in order, and there is a report of each. When it fails, it has failed in the run of some
transformer: those before it, and no others, have been registered in order, and the path and the
loaded classes, with their bytes and how often they have been redefined, are as they were right
after the run of the last one of them had converged, or as before the agent ran when there is
none. -/
theorem go_leaves_whole_steps (name version : String) (ts : List (Transformer ρ))
    (retryUnreadable : Bool) (s : ClassPathHost ρ × ρ) :
    let opts : RedefineOptions := { verbose := false, retryUnreadable }
    let agent : Agent (Transformer ρ) := ⟨name, version, ts, opts⟩
    let gone := (agent.go ClassPathHost.instrumentation ClassPathHost.lift).run s
    (∀ report, gone.value = .ok report →
      gone.state.1.hooks = s.1.hooks ++ ts ∧ report.redefinitions.length = ts.length) ∧
    ∀ e, gone.value = .error e → ∃ done t rest ran, ts = done ++ t :: rest ∧
      Converged opts s done ran ∧ gone.state.1 = (withHooks ran (s.1.hooks ++ done)).1 ∧
      ((runOf opts t).run (withHooks ran (s.1.hooks ++ done))).value = .error e := by
  intro opts agent gone
  have hgone : (agent.go ClassPathHost.instrumentation ClassPathHost.lift).Ensures s fun res s' =>
      (∀ report, res = .ok report →
        s'.1.hooks = s.1.hooks ++ ts ∧ report.redefinitions.length = ts.length) ∧
      ∀ e, res = .error e → ∃ done t rest ran, ts = done ++ t :: rest ∧
        Converged opts s done ran ∧ s'.1 = (withHooks ran (s.1.hooks ++ done)).1 ∧
        ((runOf opts t).run (withHooks ran (s.1.hooks ++ done))).value = .error e := by
    rw [go, Act.ensures_within]
    simp only [Act.ensures_bind, Act.ensures_report]
    have hbatch : opts.verbose = false := rfl
    refine (install_leaves_whole_steps hbatch ts s).imp fun res s' h => ?_
    obtain ⟨hok, herror⟩ := h
    cases res with
    | error e =>
      refine ⟨by rintro _ ⟨⟩, ?_⟩
      rintro _ ⟨⟩
      exact herror e rfl
    | ok reports =>
      obtain ⟨hlength, ran, -, hhost⟩ := hok reports rfl
      have hhooks : s'.1.hooks = s.1.hooks ++ ts := by
        rw [hhost]
        rfl
      refine ⟨?_, by rintro _ ⟨⟩⟩
      rintro _ ⟨⟩
      exact ⟨hhooks, hlength⟩
  exact hgone

/-- The second of three transformers makes another class of the one that the first has edited. -/
example :
    let path : ClassPath := ⟨[⟨"root", .ofList [("p/A", (ClassSketch.new "p/A").encode)]⟩]⟩
    let transformer := fun edit =>
      (Transformation.ofFunctions (fun _ _ => true) edit : Transformation Unit).direct
    let agent : Agent (Transformer Unit) := ⟨"methods", "1", [transformer addFirst,
      transformer fun _ _ => .done (some (ClassSketch.new "p/B").encode), transformer addFirst], {}⟩
    let gone := (agent.go ClassPathHost.instrumentation ClassPathHost.lift).run
      (ClassPathHost.loads [("p/A", ⟨1⟩)] (ClassPathHost.new path, ()))
    gone.value = .error (.batch 1 (.rejected "p/A" "bytes define p/B")) ∧
      gone.state.1.hooks.length = 1 ∧ gone.state.1.loaded.classes =
        #[⟨⟨0, "p/A", ⟨1⟩⟩, ((ClassSketch.new "p/A").withMethod "first" "()V").encode, 1⟩] := by
  decide +kernel

end Agent

end Reclass
