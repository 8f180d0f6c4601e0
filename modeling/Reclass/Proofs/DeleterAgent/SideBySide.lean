import Reclass.CommandLine.Execute
import Reclass.Proofs.ClassPath.Export
import Reclass.Proofs.DeleterAgent.Serving

/-!
# Runs with transformers that answer alike

A run of the deleter works on a host and its workshop, and the only part of it that looks into the
workshop, but for writing the classes out, is the transformer of the plan. So a run is taken here
with any transformer on any workshop (`CommandLine.runWith`). Two runs on one class path, whose
transformers answer alike for the classes that a run hands over, load the same classes, with the
same bytes, and come to the same end before they write them out (`CommandLine.prepare_alike`,
`CommandLine.runWith_side_by_side`).
-/

set_option autoImplicit false

namespace Reclass

open Universe (Fresh)

/-- The class is what a loader finds that lists the name. -/
def ClassPath.Asks (cp : ClassPath) (loader : LoaderId) (name : String) (bytes : Bytes) : Prop :=
  ∃ c ∈ cp.resources, c.1 = name ∧ cp.find name c.2 = .ok (some (loader, bytes))

namespace HostPair

variable {ρ ρ' α ε : Type} {T : HostPair ρ ρ'} {u : Universe}
  {Q : Except ε α → ClassPathHost ρ × ρ → ClassPathHost ρ' × ρ' → Prop}

/-- A look at the hosts, which have the class path and the classes in common. -/
theorem alike_host_bind {k : ClassPathHost ρ → Attempt (ClassPathHost ρ × ρ) ε α}
    {k' : ClassPathHost ρ' → Attempt (ClassPathHost ρ' × ρ') ε α}
    (h : Act.Alike (k ⟨T.path, u, T.hooks⟩).result (k' ⟨T.path, u, T.hooks'⟩).result (T.At u) Q) :
    Act.Alike (Attempt.act (Act.gets Prod.fst) >>= k).result
      (Attempt.act (Act.gets Prod.fst) >>= k').result (T.At u) Q := by
  rintro ⟨h₁, r⟩ ⟨h₂, r'⟩ hs
  obtain rfl : h₁ = _ := hs.fst_eq
  obtain rfl : h₂ = _ := hs.fst_eq'
  exact h _ _ hs

end HostPair

namespace CommandLine

variable {ρ ρ' : Type}

/-! ### Runs with any transformer -/

/-- The agents that can be run, with the transformer that is made for a plan. -/
def registryWith (make : DeletionPlan → Transformer ρ) (env : Environment)
    (settings : AgentSettings) : AgentRegistry (ClassPathHost ρ × ρ) (Transformer ρ) :=
  SortedMap.empty.insert DeleterAgent.name (DeleterAgent.factory env settings fun plan =>
    return make plan)

/-- All of a run but writing the classes out. -/
def prepare (make : ClassPath → DeletionPlan → Transformer ρ) (env : Environment)
    (settings : AgentSettings) (agent agentArgs : String) (defer : List String) :
    Attempt (ClassPathHost ρ × ρ) CommandError RunResult := do
  let host ← Attempt.act (Act.gets Prod.fst)
  let classesLoaded ← (ClassPathHost.loadAll (isDeferred defer)).mapError .load
  let report ← (Attempt.of ((registryWith (make host.path) env settings).runAgent agent
    ClassPathHost.instrumentation ClassPathHost.lift agentArgs)).mapError .agent
  let deferred := host.path.resources.filter fun r => isDeferred defer r.1
  let deferredLoaded ← (ClassPathHost.loadEach deferred).mapError .load
  return { classesLoaded, deferredLoaded, classesWritten := none, report }

/-- Writes the loaded classes out, if that is asked for. -/
def writeOut (files : Lens ρ FileSystem) (out : Option Path) (result : RunResult) :
    Attempt (ClassPathHost ρ × ρ) CommandError RunResult := do
  match out with
  | none => return result
  | some dir =>
    let host ← Attempt.act (Act.gets Prod.fst)
    let written ← (Attempt.of (Act.zoom (.comp .snd files)
      (Act.modifyGet (host.loaded.exportTo dir)))).mapError (.notWritten dir)
    return { result with classesWritten := some written }

/-- A run with the transformer that is made for a plan, and the files in its workshop. -/
def runWith (make : ClassPath → DeletionPlan → Transformer ρ) (files : Lens ρ FileSystem)
    (env : Environment) (settings : AgentSettings) (agent agentArgs : String)
    (defer : List String) (out : Option Path) :
    Attempt (ClassPathHost ρ × ρ) CommandError RunResult :=
  prepare make env settings agent agentArgs defer >>= writeOut files out

/-- A run of the program is one with the caching transformer of the plan. -/
theorem runOnHost_eq (env : Environment) (settings : AgentSettings) (agent agentArgs : String)
    (defer : List String) (out : Option Path) :
    runOnHost env settings agent agentArgs defer out =
      runWith (fun cp p => p.transformer settings cp) (.comp .snd .snd) env settings agent agentArgs
        defer out := by
  unfold runWith prepare writeOut
  simp only [bind_assoc, pure_bind]
  rfl

/-- The one agent there is runs with the transformer of the plan that its arguments ask for. -/
theorem runAgent_eq (make : DeletionPlan → Transformer ρ) (env : Environment)
    (settings : AgentSettings) (agent agentArgs : String) :
    (registryWith make env settings).runAgent agent ClassPathHost.instrumentation
        ClassPathHost.lift agentArgs =
      if agent = DeleterAgent.name then
        match DeletionPlan.ofArguments env agentArgs with
        | .error missing => pure (.error (.notCreated agent [missing.message]))
        | .ok p => do
          match ← (DeleterAgent.agent settings (make p)).go ClassPathHost.instrumentation
              ClassPathHost.lift with
          | .error e => return .error (.notRun agent e)
          | .ok report => return .ok report
      else pure (.error (.unknown agent [DeleterAgent.name])) := by
  rw [AgentRegistry.runAgent, registryWith, SortedMap.get?_insert]
  by_cases hagent : agent = DeleterAgent.name
  · rw [if_pos hagent, if_pos hagent]
    dsimp only [DeleterAgent.factory]
    cases DeletionPlan.ofArguments env agentArgs with
    | error missing => rfl
    | ok p => rfl
  · rw [if_neg hagent, if_neg hagent]
    rfl

/-! ### Loading and editing side by side -/

section Alike

variable {cp : ClassPath} {K : ρ → ρ' → Prop} {u : Universe} {env : Environment}
  {settings settings' : AgentSettings} {agentArgs : String}

theorem loadAll_lockstep (skip : String → Bool) (hf : Fresh cp.Asks (fun _ => False) u) :
    (HostPair.mk cp [] [] K).Lockstep (ClassPathHost.loadAll skip).result
      (ClassPathHost.loadAll skip).result u fun _ u' => Fresh cp.Asks (fun _ => False) u' := by
  rw [ClassPathHost.loadAll, ClassPathHost.loadAll]
  refine HostPair.alike_host_bind ?_
  refine (ClassPathHost.loadEach_lockstep .none (Or.inl rfl)
    (fun c hc _ hfind => ⟨c, (List.mem_filter.1 hc).1, rfl, hfind⟩) hf).attempt_bind
      (fun count u' hf' => ?_) fun _ _ hf' => hf'
  exact fun s s' hs => ⟨rfl, u', hs, hf'⟩

variable {make : DeletionPlan → Transformer ρ} {make' : DeletionPlan → Transformer ρ'}

theorem runAgent_alike (ht : ∀ p, DeletionPlan.ofArguments env agentArgs = .ok p →
      (make p).Alike (make' p) K cp.Asks)
    (hsettings : settings'.redefinition = settings.redefinition) (agent : String)
    (hf : Fresh cp.Asks (fun _ => False) u) :
    ((registryWith make env settings).runAgent agent ClassPathHost.instrumentation
        ClassPathHost.lift agentArgs).Alike
      ((registryWith make' env settings').runAgent agent ClassPathHost.instrumentation
        ClassPathHost.lift agentArgs)
      ((HostPair.mk cp [] [] K).At u) fun _ => Agent.Installed cp K cp.Asks := by
  have hnone : ∀ s s', (HostPair.mk cp [] [] K).At u s s' → Agent.Installed cp K cp.Asks s s' :=
    fun s s' hs => ⟨[], [], u, .none, hs, hf.mono fun _ _ => trivial⟩
  rw [runAgent_eq, runAgent_eq]
  by_cases hagent : agent = DeleterAgent.name
  · rw [if_pos hagent, if_pos hagent]
    cases hplan : DeletionPlan.ofArguments env agentArgs with
    | error missing => exact Act.alike_pure _ hnone
    | ok p =>
      refine (Agent.go_lockstep (ht p hplan) rfl rfl hsettings rfl rfl hf).bind fun result => ?_
      cases result with
      | error e => exact Act.alike_pure _ fun _ _ hs => hs
      | ok report => exact Act.alike_pure _ fun _ _ hs => hs
  · rw [if_neg hagent, if_neg hagent]
    exact Act.alike_pure _ hnone

theorem loadDeferred_alike (defer : List String) :
    Act.Alike
      (ClassPathHost.loadEach (cp.resources.filter fun r => isDeferred defer r.1)).result
      (ClassPathHost.loadEach (cp.resources.filter fun r => isDeferred defer r.1)).result
      (Agent.Installed cp K cp.Asks) fun _ => Agent.Installed cp K cp.Asks := by
  rintro s s' ⟨hooks, hooks', u, hhooks, hs, hf⟩
  have hload : (HostPair.mk cp hooks hooks' K).Lockstep
      (ClassPathHost.loadEach (cp.resources.filter fun r => isDeferred defer r.1)).result
      (ClassPathHost.loadEach (cp.resources.filter fun r => isDeferred defer r.1)).result u
      fun _ u' => Fresh cp.Asks (fun _ => True) u' :=
    ClassPathHost.loadEach_lockstep hhooks (Or.inr fun _ => trivial)
      (fun c hc _ hfind => ⟨c, (List.mem_filter.1 hc).1, rfl, hfind⟩) hf
  obtain ⟨hvalue, u', hs', hf'⟩ := hload s s' hs
  exact ⟨hvalue, hooks, hooks', u', hhooks, hs', hf'⟩

/-- **Up to writing the classes out two runs are alike** when their transformers are. -/
theorem prepare_alike {make : ClassPath → DeletionPlan → Transformer ρ}
    {make' : ClassPath → DeletionPlan → Transformer ρ'}
    (ht : ∀ p, DeletionPlan.ofArguments env agentArgs = .ok p →
      (make cp p).Alike (make' cp p) K cp.Asks)
    (hsettings : settings'.redefinition = settings.redefinition) (agent : String)
    (defer : List String) :
    Act.Alike (prepare make env settings agent agentArgs defer).result
      (prepare make' env settings' agent agentArgs defer).result
      ((HostPair.mk cp [] [] K).At .empty) fun _ => Agent.Installed cp K cp.Asks := by
  have hloaded : ∀ s s', (∃ u, (HostPair.mk cp [] [] K).At u s s' ∧
      Fresh cp.Asks (fun _ => False) u) → Agent.Installed cp K cp.Asks s s' := by
    rintro s s' ⟨u, hs, hf⟩
    exact ⟨[], [], u, .none, hs, hf.mono fun _ _ => trivial⟩
  rw [prepare, prepare]
  refine HostPair.alike_host_bind ?_
  refine Attempt.alike_bind (P := fun _ s s' => ∃ u, (HostPair.mk cp [] [] K).At u s s' ∧
    Fresh cp.Asks (fun _ => False) u) (Attempt.alike_mapError _ ?_) (fun classesLoaded => ?_)
    (fun _ => hloaded)
  · -- no transformer is registered yet, so this is loading alone
    exact loadAll_lockstep _ ⟨Universe.numbered_empty, nofun⟩
  refine Attempt.alike_bind (P := fun _ => Agent.Installed cp K cp.Asks)
    (Attempt.alike_mapError _ ?_) (fun report => ?_) fun _ _ _ => id
  · rintro s s' ⟨u, hs, hf⟩
    exact runAgent_alike ht hsettings agent hf s s' hs
  refine Attempt.alike_bind (P := fun _ => Agent.Installed cp K cp.Asks)
    (Attempt.alike_mapError _ ?_) (fun deferredLoaded => ?_) fun _ _ _ => id
  · exact loadDeferred_alike defer
  · exact Act.alike_pure _ fun _ _ => id

end Alike

/-! ### Writing out -/

/-- What writing classes out comes to, and the files after it. -/
def written (out : Option Path) (result : RunResult) (u : Universe) (fs : FileSystem) :
    Except CommandError RunResult × FileSystem :=
  match out with
  | none => (.ok result, fs)
  | some dir =>
    match u.exportTo dir fs with
    | (.ok count, fs) => (.ok { result with classesWritten := some count }, fs)
    | (.error cause, fs) => (.error (.notWritten dir cause), fs)

theorem writeOut_ensures (files : Lens ρ FileSystem) (out : Option Path) (result : RunResult)
    (s : ClassPathHost ρ × ρ) :
    (writeOut files out result).Ensures s fun res s' =>
      res = (written out result s.1.loaded (files.get s.2)).1 ∧
        s' = (s.1, files.set (written out result s.1.loaded (files.get s.2)).2 s.2) := by
  obtain ⟨host, w⟩ := s
  cases out with
  | none => exact ⟨rfl, Prod.ext rfl (files.set_get w).symm⟩
  | some dir =>
    rw [writeOut, written]
    simp only [Attempt.ensures_bind, Attempt.ensures_act, Act.ensures_gets,
      Attempt.ensures_mapError, Attempt.ensures_of, Act.ensures_zoom, Act.ensures_modifyGet]
    have hget : (Lens.comp (.snd : Lens (ClassPathHost ρ × ρ) ρ) files).get (host, w) =
        files.get w := rfl
    rw [hget]
    rcases host.loaded.exportTo dir (files.get w) with ⟨_ | _, _⟩
    · exact ⟨rfl, rfl⟩
    · exact ⟨rfl, rfl⟩

/-! ### Runs side by side -/

section SideBySide

variable {cp : ClassPath} {K : ρ → ρ' → Prop} {env : Environment}
  {settings settings' : AgentSettings} {agentArgs : String}
  {make : ClassPath → DeletionPlan → Transformer ρ}
  {make' : ClassPath → DeletionPlan → Transformer ρ'}

/-- **Two runs whose transformers are alike** fail alike before they write classes out, or come to
write out the same ones. -/
theorem runWith_side_by_side (files : Lens ρ FileSystem) (files' : Lens ρ' FileSystem)
    (ht : ∀ p, DeletionPlan.ofArguments env agentArgs = .ok p →
      (make cp p).Alike (make' cp p) K cp.Asks)
    (hsettings : settings'.redefinition = settings.redefinition) (agent : String)
    (defer : List String) (out : Option Path)
    {Q : Except CommandError RunResult → ClassPathHost ρ × ρ →
      Except CommandError RunResult → ClassPathHost ρ' × ρ' → Prop}
    (herror : ∀ e h h' w w', h'.loaded = h.loaded → K w w' →
      Q (.error e) (h, w) (.error e) (h', w'))
    (hok : ∀ result h h' w w', h'.loaded = h.loaded → K w w' →
      let done := written out result h.loaded (files.get w)
      let done' := written out result h.loaded (files'.get w')
      Q done.1 (h, files.set done.2 w) done'.1 (h', files'.set done'.2 w'))
    {w : ρ} {w' : ρ'} (hK : K w w') :
    (runWith make files env settings agent agentArgs defer out).Ensures (.new cp, w)
      fun res s => (runWith make' files' env settings' agent agentArgs defer out).Ensures
        (.new cp, w') fun res' s' => Q res s res' s' := by
  have hprepare := prepare_alike ht hsettings agent defer (.new cp, w) (.new cp, w') ⟨rfl, rfl, hK⟩
  simp only [runWith, Attempt.ensures_bind]
  refine hprepare.imp fun res s hs => ?_
  cases res with
  | error e =>
    refine hs.imp fun res' s' h => ?_
    obtain ⟨rfl, hooks, hooks', u, -, hat, -⟩ := h
    exact herror e s.1 s'.1 s.2 s'.2 (by rw [hat.fst_eq, hat.fst_eq']) hat.related
  | ok result =>
    -- what is left differs in the files that are written to, and in nothing else
    refine (writeOut_ensures files out result s).imp fun done t hdone => ?_
    refine hs.imp fun res' s' h => ?_
    obtain ⟨rfl, hooks, hooks', u, -, hat, -⟩ := h
    refine (writeOut_ensures files' out result s').imp fun done' t' hdone' => ?_
    obtain ⟨rfl, rfl⟩ := hdone
    obtain ⟨rfl, rfl⟩ := hdone'
    have hloaded : s'.1.loaded = s.1.loaded := by rw [hat.fst_eq, hat.fst_eq']
    rw [hloaded]
    exact hok result s.1 s'.1 s.2 s'.2 hloaded hat.related

end SideBySide

end CommandLine

end Reclass
