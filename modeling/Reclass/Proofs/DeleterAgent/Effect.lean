import Reclass.CommandLine.Execute
import Reclass.Proofs.ClassPath.History
import Reclass.Proofs.DeleterAgent.Serving

/-!
# What a run leaves of the classes

A run of the deleter loads a part of the class path, edits what is loaded, and loads the rest
through the transformer that it has registered. In whatever parts the classes are loaded, each name
of the class path is loaded once in the end, and its class has the bytes of the class path without
the methods of the plan, if the plan means the class, and those bytes themselves if not
(`CommandLine.classes_after_run`). The invariant is `ClassPathHost.Made`: it holds of a host that
has loaded nothing, every load keeps it, and a run with the registration after it takes it from no
edit to the edit of the plan.
-/

set_option autoImplicit false

namespace Reclass

open Hierarchy (Stands)

/-! ### The edit of a plan -/

theorem getD_droppingUnchanged (result : Option Bytes) (input : Bytes) :
    (droppingUnchanged result input).getD input = result.getD input := by
  cases result with
  | none => rfl
  | some bytes =>
    rw [droppingUnchanged, Option.filter_some]
    by_cases h : bytes = input
    · rw [h, bne_self_eq_false, if_neg Bool.false_ne_true]
      rfl
    · rw [if_pos (bne_iff_ne.2 h)]

namespace DeletionPlan

variable {p : DeletionPlan} {cp : ClassPath} {settings : AgentSettings} {name : String}
  {loader : LoaderId} {bytes : Bytes}

/-- The plan means the class of that name, as a loader sees it: it is the class that is named, or
subtypes are meant as well and a resolver finds that it is assignable to that class. -/
def Means (p : DeletionPlan) (cp : ClassPath) (name : String) (loader : LoaderId) : Prop :=
  name = p.className ∨ p.subtypes = true ∧
    (Hierarchy.isAssignableFrom cp.source p.className name loader).Ensures (.empty, ())
      fun r _ => r = .ok true

/-- What a plan leaves of the bytes of a class: the class file without the methods, if the class is
meant and has any, and otherwise the bytes themselves. -/
structure Leaves (p : DeletionPlan) (cp : ClassPath) (name : String) (loader : LoaderId)
    (bytes left : Bytes) : Prop where
  edited : ∀ cf, p.Means cp name loader → ClassFile.parse bytes = .ok cf → cf.Declares p.method →
    left = (cf.without p.method).encode
  kept : (p.Means cp name loader → ∀ cf, ClassFile.parse bytes = .ok cf → ¬ cf.Declares p.method) →
    left = bytes

/-- The plan as an edit. -/
def toEdit (p : DeletionPlan) (cp : ClassPath) : ClassEdit := fun loader name bytes =>
  answer (p.eligible cp) (MethodDeleter.outcome p.method) ⟨loader, name, none, bytes⟩

theorem eligible_iff : p.eligible cp name loader = true ↔ p.Means cp name loader := by
  have hfresh : Stands (Told cp.answer) (fun _ => True) .empty ((.empty : Hierarchy), ()) :=
    ⟨Hierarchy.Extends.refl _, Hierarchy.valid_empty, trivial⟩
  have hanswer : ((Hierarchy.isAssignableFrom cp.source p.className name loader).result.run
      (.empty, ())).value = cp.assignable p.className name loader :=
    (cp.isAssignableFrom_ensures hfresh p.className name loader).1
  show _ ↔ name = p.className ∨ p.subtypes = true ∧
    ((Hierarchy.isAssignableFrom cp.source p.className name loader).result.run
      (.empty, ())).value = .ok true
  rw [hanswer, eligible]
  by_cases hname : name = p.className
  · rw [if_pos hname]
    exact ⟨fun _ => Or.inl hname, fun _ => rfl⟩
  · rw [if_neg hname, or_iff_right hname]
    by_cases hsub : p.subtypes = true
    · rw [if_pos hsub, and_iff_right hsub]
      cases cp.assignable p.className name loader with
      | error e =>
        constructor
        · rintro ⟨⟩
        · rintro ⟨⟩
      | ok b =>
        rw [Except.ok.injEq]
        exact Iff.rfl
    · rw [if_neg hsub]
      constructor
      · rintro ⟨⟩
      · exact fun h => absurd h.1 hsub

theorem step_toEdit_of_means (h : p.Means cp name loader) :
    (p.toEdit cp).step loader name bytes =
      match MethodDeleter.delete p.method bytes with
      | .ok (some (edited, _)) => edited
      | _ => bytes := by
  show (answer (p.eligible cp) (MethodDeleter.outcome p.method) _).getD bytes = _
  rw [answer, if_pos (eligible_iff.2 h), editResult, MethodDeleter.outcome]
  cases MethodDeleter.delete p.method bytes with
  | error fault => rfl
  | ok found =>
    cases found with
    | none => exact getD_droppingUnchanged none bytes
    | some edited => exact getD_droppingUnchanged (some edited.1) bytes

theorem toEdit_of_not_means (h : ¬ p.Means cp name loader) : p.toEdit cp loader name bytes = none :=
  if_neg fun he => h (eligible_iff.1 he)

/-- **The edit of a plan leaves what the plan says.** -/
theorem leaves_toEdit (p : DeletionPlan) (cp : ClassPath) (name : String) (loader : LoaderId)
    (bytes : Bytes) : p.Leaves cp name loader bytes ((p.toEdit cp).step loader name bytes) where
  edited cf hmeans hparse hdeclares := by
    obtain ⟨removed, hdelete⟩ := MethodDeleter.delete_of_declares hparse hdeclares
    rw [step_toEdit_of_means hmeans, hdelete]
  kept h := by
    by_cases hmeans : p.Means cp name loader
    · rw [step_toEdit_of_means hmeans]
      rcases MethodDeleter.delete_of_not_declares (h hmeans) with ⟨fault, hdelete⟩ | hdelete
      · rw [hdelete]
      · rw [hdelete]
    · rw [ClassEdit.step, toEdit_of_not_means hmeans, Option.getD_none]

/-- Nothing can be deleted from a class without bytes. -/
theorem step_toEdit_nil (p : DeletionPlan) (cp : ClassPath) (loader : LoaderId) (name : String) :
    (p.toEdit cp).step loader name [] = [] := by
  refine (p.leaves_toEdit cp name loader []).kept fun _ cf hparse => ?_
  cases hparse

/-- A workshop whose hierarchy knows of the class path what the class path answers. -/
abbrev Knows (cp : ClassPath) : CommandLine.Workshop → Prop := fun w =>
  Stands (Told cp.answer) (fun _ => True) .empty w.2

/-- Without a cache nothing but dumps touches the files. -/
theorem maintains_without_cache (p : DeletionPlan) (cp : ClassPath)
    (hcache : settings.cacheDir = none) {I : FileSystem → Prop} {asked : TransformRequest → Prop}
    (hdump : ∀ root, settings.dumpDir = some root → ∀ r, asked r →
      p.eligible cp r.className r.loader = true → ∀ bytes fs, I fs →
        I (DumpDir.write ⟨root⟩ r.className r.loader bytes fs).2) :
    (p.caching settings cp.source .id).Maintains (Stands (Told cp.answer) I .empty) (p.eligible cp)
      (MethodDeleter.outcome p.method) asked := by
  have hstore : ∀ store,
      store ∉ (p.caching settings cp.source (.id : Lens FileSystem _)).store := by
    intro store hmem
    rw [caching, AgentSettings.caching, AgentSettings.cache?, hcache] at hmem
    cases hmem
  constructor
  case accepts => exact fun name loader s hs => p.accepts_ensures hs name loader
  case edit => exact fun r s hs he => p.edit_ensures hs he
  case load => exact fun store hmem => absurd hmem (hstore store)
  case store => exact fun store hmem => absurd hmem (hstore store)
  case dump =>
    intro dump hmem r hr he bytes s hs
    obtain ⟨root, hroot, rfl⟩ := Option.mem_map.1 hmem
    rw [DumpDir.target, Act.ensures_zoom, Act.ensures_modifyGet]
    exact hs.surround (hdump root hroot r hr he bytes s.2 hs.source)

theorem right_without_cache (p : DeletionPlan) (cp : ClassPath) (hcache : settings.cacheDir = none)
    (K : Hierarchy × FileSystem → Prop) (asked : TransformRequest → Prop) :
    (p.caching settings cp.source .id).Right K (p.eligible cp) (MethodDeleter.outcome p.method)
      asked := by
  intro store hmem
  rw [caching, AgentSettings.caching, AgentSettings.cache?, hcache] at hmem
  cases hmem

/-- **Without a cache the transformer of a plan performs its edit.** -/
theorem caching_performs (p : DeletionPlan) (cp : ClassPath) (hcache : settings.cacheDir = none) :
    (p.caching settings cp.source .id).transformer.Performs (Knows cp) (p.toEdit cp) := by
  have hmaintains : (p.caching settings cp.source .id).Maintains _ _ _ fun _ => True :=
    p.maintains_without_cache cp hcache (I := fun _ => True) fun _ _ _ _ _ _ _ _ => trivial
  constructor
  · intro name loader w hw
    show (Act.zoom .snd ((p.deleter cp.source).accepts name loader)).Ensures w _
    rw [Act.ensures_zoom]
    refine (p.accepts_ensures hw name loader).imp fun accepted s' h => ?_
    obtain ⟨haccepted, hs'⟩ := h
    refine ⟨fun hfalse bytes => toEdit_of_not_means fun hmeans => ?_, hs'⟩
    rw [haccepted, eligible_iff.2 hmeans] at hfalse
    cases hfalse
  · intro r w hw
    refine (hmaintains.apply_ensures trivial hw).imp fun v w' h => ?_
    exact ⟨h.1 (p.right_without_cache cp hcache _ _), h.2⟩

end DeletionPlan

/-! ### Loading, editing and loading on -/

namespace ClassPathHost

variable {ρ : Type} {path : ClassPath} {J : ρ → Prop} {edits : List ClassEdit}
  {s : ClassPathHost ρ × ρ}

/-- There is a loaded class of that name. -/
def Has (s : ClassPathHost ρ × ρ) (name : String) : Prop :=
  ∃ (i : Nat) (d : Defined), s.1.loaded.classes[i]? = some d ∧ d.loaded.name = name

theorem Has.mono {s' : ClassPathHost ρ × ρ} {name : String} (h : Has s name)
    (hext : s.1.loaded.Extends s'.1.loaded) : Has s' name := by
  obtain ⟨i, d, hd, hname⟩ := h
  obtain ⟨d', hd', hloaded⟩ := hext i d hd
  exact ⟨i, d', hd', by rw [hloaded, hname]⟩

/-- The loaded classes are filed and come from the roots of the class path, and each has its bytes
there with every edit made; the registered transformers make these edits. -/
structure Made (path : ClassPath) (J : ρ → Prop) (edits : List ClassEdit)
    (s : ClassPathHost ρ × ρ) : Prop where
  filed : s.1.Filed path
  hooks : List.Forall₂ (fun t f => Transformer.Does t J f) s.1.hooks edits
  beside : J s.2
  made : ∀ (i : Nat) (d : Defined), s.1.loaded.classes[i]? = some d →
    d.loaded.name ∈ path.names ∧ ∃ bytes,
      path.find d.loaded.name d.loaded.loader = .ok (some (d.loaded.loader, bytes)) ∧
        d.bytes = ClassEdit.steps edits d.loaded.loader d.loaded.name bytes

theorem made_new (path : ClassPath) {r : ρ} (hr : J r) :
    Made path J [] ((new path : ClassPathHost ρ), r) where
  filed := filed_new path
  hooks := List.Forall₂.nil
  beside := hr
  made i d hd := by cases hd

theorem Made.mem_names_iff (hs : Made path J edits s) (hall : ∀ name ∈ path.names, Has s name)
    (name : String) :
    name ∈ s.1.loaded.loadedClasses.map LoadedClass.name ↔ name ∈ path.names := by
  simp only [Universe.loadedClasses, List.map_map, List.mem_map, Function.comp_apply,
    Array.mem_toList_iff, Array.mem_iff_getElem?]
  constructor
  · rintro ⟨d, ⟨i, hd⟩, rfl⟩
    exact (hs.made i d hd).1
  · intro hname
    obtain ⟨i, d, hd, hname⟩ := hall name hname
    exact ⟨d, ⟨i, hd⟩, hname⟩

/-- Under one name two hosts that have made the same edits have the same class. -/
theorem Made.agrees {s' : ClassPathHost ρ × ρ} (hs : Made path J edits s)
    (hs' : Made path J edits s') {d d' : Defined} (hd : d ∈ s.1.loaded.classes)
    (hd' : d' ∈ s'.1.loaded.classes) (hname : d'.loaded.name = d.loaded.name) :
    d'.loaded.loader = d.loaded.loader ∧ d'.bytes = d.bytes := by
  obtain ⟨i, hd⟩ := Array.mem_iff_getElem?.1 hd
  obtain ⟨i', hd'⟩ := Array.mem_iff_getElem?.1 hd'
  obtain ⟨-, bytes, hfind, hbytes⟩ := hs.made i d hd
  obtain ⟨-, bytes', hfind', hbytes'⟩ := hs'.made i' d' hd'
  -- whatever loaders they belong to, both are the class that the path has under the name
  have hdefinition := ClassPath.definition?_of_find hfind'
  rw [hname, ClassPath.definition?_of_find hfind] at hdefinition
  obtain ⟨hloader, rfl⟩ := Prod.mk.inj (Option.some.inj hdefinition)
  refine ⟨hloader.symm, ?_⟩
  rw [hbytes, hbytes', hname, hloader]

theorem has_of_loadClass (hf : s.1.Filed path) (name : String) (loader : LoaderId) :
    (loadClass name loader).Ensures s fun res s' => ∀ c, res = .ok c → Has s' name := by
  intro c hc
  obtain ⟨i, d, hd, rfl, hname⟩ := Yields.getElem? ⟨hc, rfl⟩ hf
  exact ⟨i, d, hd, hname⟩

/-- Loading a class of the roots keeps the invariant and all classes, and when it succeeds there is
a class of that name. -/
theorem Made.loadClass (hs : Made path J edits s) {name : String} (hname : name ∈ path.names)
    (loader : LoaderId) :
    (ClassPathHost.loadClass name loader).Ensures s fun res s' =>
      (Made path J edits s' ∧ s.1.loaded.Extends s'.1.loaded) ∧ ∀ c, res = .ok c → Has s' name := by
  obtain ⟨host, r⟩ := s
  have hkeeps := loadClass_keeps path host.loaded name loader (host, r)
    ⟨hs.filed, Universe.Extends.refl _⟩
  have hloads := loadClass_ensures hs.hooks name loader hs.beside
  refine ((hkeeps.and hloads).and (has_of_loadClass hs.filed name loader)).imp fun res s' h => ?_
  obtain ⟨⟨⟨hfiled, hlater⟩, hbeside, hhost⟩, hhas⟩ := h
  refine ⟨⟨?_, hlater⟩, hhas⟩
  obtain ⟨host', r'⟩ := s'
  rcases hhost with rfl | ⟨defining, bytes, hfind, hget, rfl⟩
  · exact ⟨hfiled, hs.hooks, hbeside, hs.made⟩
  · refine ⟨hfiled, hs.hooks, hbeside, fun i d hd => ?_⟩
    rw [Universe.classes_define hget, Array.getElem?_push] at hd
    by_cases hi : i = host.loaded.classes.size
    · -- the new class
      rw [if_pos hi] at hd
      cases hd
      rw [hs.filed.path_eq] at hfind
      exact ⟨hname, bytes, hfind, rfl⟩
    · rw [if_neg hi] at hd
      exact hs.made i d hd

/-- So does loading a list of classes. -/
theorem Made.loadEach (hs : Made path J edits s) {list : List (String × LoaderId)}
    (hlist : ∀ c ∈ list, c.1 ∈ path.names) :
    (ClassPathHost.loadEach list).Ensures s fun res s' =>
      (Made path J edits s' ∧ s.1.loaded.Extends s'.1.loaded) ∧
        ∀ n, res = .ok n → ∀ c ∈ list, Has s' c.1 := by
  induction list generalizing s with
  | nil =>
    rw [ClassPathHost.loadEach, Attempt.ensures_pure]
    exact ⟨⟨hs, Universe.Extends.refl _⟩, fun _ _ c hc => absurd hc List.not_mem_nil⟩
  | cons entry list ih =>
    obtain ⟨name, loader⟩ := entry
    rw [ClassPathHost.loadEach, Attempt.ensures_bind]
    refine (hs.loadClass (hlist _ List.mem_cons_self) loader).imp fun res s₁ h => ?_
    obtain ⟨⟨hs₁, hlater₁⟩, hhas⟩ := h
    cases res with
    | error e =>
      refine ⟨⟨hs₁, hlater₁⟩, fun n hn => ?_⟩
      cases hn
    | ok c =>
      dsimp only
      rw [Attempt.ensures_bind]
      have hrest := ih hs₁ fun c' hc' => hlist c' (List.mem_cons_of_mem _ hc')
      refine hrest.imp fun res s₂ h => ?_
      obtain ⟨⟨hs₂, hlater₂⟩, hall⟩ := h
      cases res with
      | error e =>
        refine ⟨⟨hs₂, hlater₁.trans hlater₂⟩, fun n hn => ?_⟩
        cases hn
      | ok n =>
        refine ⟨⟨hs₂, hlater₁.trans hlater₂⟩, fun _ _ c' hc' => ?_⟩
        rcases List.mem_cons.1 hc' with rfl | hc'
        · -- loaded first, and still there
          exact (hhas c rfl).mono hlater₂
        · exact hall n rfl c' hc'

/-- A run that ends well, with the registration after it, makes an edit of all classes, when the
edit leaves classes without bytes alone and no class is an array. -/
theorem Made.install (hs : Made path J [] s) (harray : ∀ name ∈ path.names,
    ClassName.isArray name = false) {t : Transformer ρ} {f : ClassEdit} (ht : t.Does J f)
    (hnil : ∀ loader name, f.step loader name [] = []) {u' : Universe} {r' : ρ} (hr' : J r')
    (hrewritten : Redefinition.Rewritten s.1.loaded u' f fun _ => True)
    (hindex : u'.index = s.1.loaded.index) :
    Made path J [f] ({ s.1 with loaded := u', hooks := s.1.hooks ++ [t] }, r') := by
  have hfiled := hs.filed.of_loaded hrewritten.loaded hindex
  refine ⟨⟨hfiled.path_eq, hfiled.numbered, hfiled.indexed, hfiled.placed⟩, ?_, hr', ?_⟩
  · exact List.rel_append hs.hooks (List.Forall₂.cons ht List.Forall₂.nil)
  · intro i d hd
    obtain ⟨d₀, hd₀, hloaded⟩ := Universe.extends_of_loaded
      (fun i => (hrewritten.loaded i).symm) i d hd
    obtain ⟨hname, bytes, hfind, hbytes⟩ := hs.made i d₀ hd₀
    rw [← hloaded]
    refine ⟨hname, bytes, hfind, ?_⟩
    have hbytes₀ : d₀.bytes = bytes := hbytes
    show d.bytes = f.step d₀.loaded.loader d₀.loaded.name bytes
    by_cases hempty : d₀.bytes = []
    · -- no pass looks at a class without bytes
      have hunreadable : ¬ (True ∧ Redefinition.Readable d₀) := fun h => h.2.2 hempty
      rw [hrewritten.kept i d₀ d hd₀ hd hunreadable, ← hbytes₀, hempty, hnil]
    · have hreadable : Redefinition.Readable d₀ := ⟨harray _ hname, hempty⟩
      rw [hrewritten.edited i d₀ d hd₀ hd trivial hreadable, ← hbytes₀]
      rfl

end ClassPathHost

namespace Agent

variable {ρ : Type} {path : ClassPath} {J : ρ → Prop} {s : ClassPathHost ρ × ρ}

/-- **An agent with one transformer that ends well makes one edit of all classes**, and registers
what makes it of those that are loaded later. -/
theorem go_made {agent : Agent (Transformer ρ)} {t : Transformer ρ} {f : ClassEdit}
    (hagent : agent.transformers = [t]) (hbatch : agent.options.verbose = false)
    (ht : t.Performs J f) (hnil : ∀ loader name, f.step loader name [] = [])
    (harray : ∀ name ∈ path.names, ClassName.isArray name = false)
    (hs : ClassPathHost.Made path J [] s) :
    (agent.go ClassPathHost.instrumentation ClassPathHost.lift).Ensures s fun res s' =>
      ∀ report, res = .ok report →
        ClassPathHost.Made path J [f] s' ∧ s.1.loaded.Extends s'.1.loaded := by
  obtain ⟨host, r⟩ := s
  rw [go, Act.ensures_within, hagent]
  simp only [Act.ensures_bind, Act.ensures_report, install]
  refine (Redefinition.run_ensures hbatch ht hs.filed.numbered hs.beside).imp fun res s' h => ?_
  obtain ⟨host', r'⟩ := s'
  cases res with
  | error e =>
    intro report hreport
    cases hreport
  | ok report =>
    obtain ⟨hr', u', hrewritten, hindex, hhost⟩ := h report rfl
    obtain rfl : host' = { host with loaded := u' } := hhost
    simp only [Act.ensures_bind, ClassPathHost.addTransformer_ensures]
    exact fun _ _ => ⟨hs.install harray ht.apply hnil hr' hrewritten hindex,
      Universe.extends_of_loaded hrewritten.loaded⟩

end Agent

namespace CommandLine

open ClassPathHost (Made Has)
open DeletionPlan (Knows)

variable {env : Environment} {settings : AgentSettings} {cp : ClassPath}
  {s : ClassPathHost Workshop × Workshop}

/-- The one agent there is makes the edit of the plan that its arguments ask for. -/
theorem runAgent_made (hcache : settings.cacheDir = none)
    (hbatch : settings.redefinition.verbose = false)
    (harray : ∀ name ∈ cp.names, ClassName.isArray name = false) (agent agentArgs : String)
    (hs : Made cp (Knows cp) [] s) :
    ((registry env settings cp).runAgent agent ClassPathHost.instrumentation ClassPathHost.lift
      agentArgs).Ensures s fun res s' => ∀ report, res = .ok report →
        ∃ p, DeletionPlan.ofArguments env agentArgs = .ok p ∧
          Made cp (Knows cp) [p.toEdit cp] s' ∧ s.1.loaded.Extends s'.1.loaded := by
  rw [AgentRegistry.runAgent, registry, SortedMap.get?_insert]
  by_cases hagent : agent = DeleterAgent.name
  · rw [if_pos hagent]
    dsimp only [DeleterAgent.factory]
    cases hplan : DeletionPlan.ofArguments env agentArgs with
    | error missing =>
      intro report hreport
      cases hreport
    | ok p =>
      let t := (p.caching settings cp.source .id).transformer
      have hone : (DeleterAgent.agent settings t).transformers = [t] := rfl
      have hgo := Agent.go_made hone hbatch (p.caching_performs cp hcache) (p.step_toEdit_nil cp)
        harray hs
      simp only [Act.ensures_bind, Act.ensures_pure]
      refine hgo.imp fun res s' h => ?_
      cases res with
      | error e =>
        intro report hreport
        cases hreport
      | ok report => exact fun _ _ => ⟨p, rfl, h report rfl⟩
  · rw [if_neg hagent]
    intro report hreport
    cases hreport

/-- A run on a fresh host that ends well has loaded all classes of the roots, and made the edit of
the plan that its arguments ask for. -/
theorem runOnHost_made (hcache : settings.cacheDir = none)
    (hbatch : settings.redefinition.verbose = false)
    (harray : ∀ name ∈ cp.names, ClassName.isArray name = false) (agent agentArgs : String)
    (defer : List String) (out : Option Path) (fs : FileSystem) :
    (runOnHost env settings agent agentArgs defer out).Ensures (freshHost cp fs) fun res s' =>
      ∀ result, res = .ok result → ∃ p, DeletionPlan.ofArguments env agentArgs = .ok p ∧
        Made cp (Knows cp) [p.toEdit cp] s' ∧ ∀ name ∈ cp.names, Has s' name := by
  have hfresh : Made cp (Knows cp) [] (freshHost cp fs) :=
    ClassPathHost.made_new cp ⟨Hierarchy.Extends.refl _, Hierarchy.valid_empty, trivial⟩
  have hresources : ∀ {skip : String × LoaderId → Bool}, ∀ c ∈ cp.resources.filter skip,
      c.1 ∈ cp.names := fun c hc => List.mem_map.2 ⟨c, (List.mem_filter.1 hc).1, rfl⟩
  rw [runOnHost, ClassPathHost.loadAll]
  simp only [Attempt.ensures_bind, Attempt.ensures_act, Act.ensures_gets, Attempt.ensures_mapError]
  refine (hfresh.loadEach hresources).imp fun res s₁ h => ?_
  obtain ⟨⟨hs₁, -⟩, hearly⟩ := h
  cases res with
  | error e =>
    intro result hresult
    cases hresult
  | ok classesLoaded =>
    have hpath : (freshHost cp fs).1.path = cp := rfl
    simp only [Act.ensures_report, Attempt.ensures_pure, Except.mapError, Attempt.ensures_of, hpath]
    refine (runAgent_made hcache hbatch harray agent agentArgs hs₁).imp fun res s₂ h => ?_
    cases res with
    | error e =>
      intro result hresult
      cases hresult
    | ok report =>
      obtain ⟨p, hplan, hs₂, hlater₂⟩ := h report rfl
      dsimp only
      refine (hs₂.loadEach hresources).imp fun res s₃ h => ?_
      obtain ⟨⟨hs₃, hlater₃⟩, hlate⟩ := h
      cases res with
      | error e =>
        intro result hresult
        cases hresult
      | ok deferredLoaded =>
        have hall : ∀ name ∈ cp.names, Has s₃ name := by
          intro name hname
          obtain ⟨c, hc, rfl⟩ := List.mem_map.1 hname
          by_cases hdefer : isDeferred defer c.1 = true
          · exact hlate deferredLoaded rfl c (List.mem_filter.2 ⟨hc, hdefer⟩)
          · have hkept : (!isDeferred defer c.1) = true := by
              rw [Bool.not_eq_true', ← Bool.not_eq_true]
              exact hdefer
            exact (hearly classesLoaded rfl c (List.mem_filter.2 ⟨hc, hkept⟩)).mono
              (hlater₂.trans hlater₃)
        cases out with
        | none => exact fun _ _ => ⟨p, hplan, hs₃, hall⟩
        | some dir =>
          -- writing the classes out touches the file system only
          simp only [Attempt.ensures_bind, Attempt.ensures_act, Act.ensures_gets,
            Attempt.ensures_mapError, Attempt.ensures_of, Act.ensures_zoom, Act.ensures_modifyGet]
          generalize s₃.1.loaded.exportTo dir _ = written
          obtain ⟨written, fs'⟩ := written
          cases written with
          | error e =>
            intro result hresult
            cases hresult
          | ok count =>
            have hs₄ : Made cp (Knows cp) [p.toEdit cp] (s₃.1, s₃.2.1, s₃.2.2.1, fs') :=
              ⟨hs₃.filed, hs₃.hooks, hs₃.beside.surround trivial, hs₃.made⟩
            exact fun _ _ => ⟨p, hplan, hs₄, hall⟩

/-- A run on a fresh host: what it comes to, and the host with its workshop that it leaves. -/
def runFresh (env : Environment) (settings : AgentSettings) (cp : ClassPath)
    (agent agentArgs : String) (defer : List String) (out : Option Path) (fs : FileSystem) :
    Outcome (ClassPathHost Workshop × Workshop) (Except CommandError RunResult) :=
  (runOnHost env settings agent agentArgs defer out).result.run (freshHost cp fs)

/-- **What a run leaves of the classes.** When a run without a cache ends well, its arguments ask
for a plan, and each name of the class path is loaded once, with what the plan leaves of the bytes
that its loader finds. So the bytes do not depend on what was loaded before the agent and what after
it: a second run that ends well, with other classes deferred, has the same class under each name. -/
theorem classes_after_run (env : Environment) (settings : AgentSettings) (cp : ClassPath)
    (agent agentArgs : String) (defer : List String) (out : Option Path) (fs : FileSystem)
    (result : RunResult) (hcache : settings.cacheDir = none)
    (hbatch : settings.redefinition.verbose = false)
    (harray : ∀ c ∈ cp.resources, ClassName.isArray c.1 = false)
    (hresult : (runFresh env settings cp agent agentArgs defer out fs).value = .ok result) :
    ∃ p, DeletionPlan.ofArguments env agentArgs = .ok p ∧
      let loaded := (runFresh env settings cp agent agentArgs defer out fs).state.1.loaded
      (loaded.loadedClasses.map LoadedClass.name).Nodup ∧
        (∀ name, name ∈ loaded.loadedClasses.map LoadedClass.name ↔ name ∈ cp.names) ∧
        (∀ d ∈ loaded.classes, ∃ bytes,
          cp.find d.loaded.name d.loaded.loader = .ok (some (d.loaded.loader, bytes)) ∧
            p.Leaves cp d.loaded.name d.loaded.loader bytes d.bytes) ∧
        ∀ (defer' : List String) (out' : Option Path) (fs' : FileSystem) (result' : RunResult),
          let other := runFresh env settings cp agent agentArgs defer' out' fs'
          other.value = .ok result' →
            ∀ d ∈ loaded.classes, ∀ d' ∈ other.state.1.loaded.classes,
              d'.loaded.name = d.loaded.name →
                d'.loaded.loader = d.loaded.loader ∧ d'.bytes = d.bytes := by
  have harray' : ∀ name ∈ cp.names, ClassName.isArray name = false := by
    intro name hname
    obtain ⟨c, hc, rfl⟩ := List.mem_map.1 hname
    exact harray c hc
  obtain ⟨p, hplan, hs, hall⟩ := runOnHost_made hcache hbatch harray' agent agentArgs defer out fs
    result hresult
  refine ⟨p, hplan, hs.filed.nodup_names, hs.mem_names_iff hall, ?_, ?_⟩
  · intro d hd
    obtain ⟨i, hd⟩ := Array.mem_iff_getElem?.1 hd
    obtain ⟨-, bytes, hfind, hbytes⟩ := hs.made i d hd
    refine ⟨bytes, hfind, ?_⟩
    rw [hbytes]
    exact p.leaves_toEdit cp d.loaded.name d.loaded.loader bytes
  · intro defer' out' fs' result' other hresult' d hd d' hd' hname
    obtain ⟨p', hplan', hs', -⟩ := runOnHost_made hcache hbatch harray' agent agentArgs defer' out'
      fs' result' hresult'
    obtain rfl : p = p' := Except.ok.inj (hplan.symm.trans hplan')
    exact hs.agrees hs' hd hd' hname

/-- Two roots: the first has a class `a/A`; the second one has another class of that name, which
nobody sees, and a subtype `a/B`. -/
def shadowedAndSubtype : ClassPath :=
  let a := (ClassSketch.new "a/A").withMethod "m" "()V"
  let b := ((ClassSketch.new "a/B").withSuper (some "a/A")).withMethod "m" "()V"
  ⟨[⟨"lib", .ofList [("a/A", a.encode)]⟩, ⟨"app", .ofList [("a/A", []), ("a/B", b.encode)]⟩]⟩

section

-- the run is evaluated step by step
set_option maxRecDepth 10000

/-- The subtype is loaded after the agent, and the methods are deleted from it as they are from the
class that is named. -/
theorem classes_after_run_deferredSubtype :
    let ran := runFresh [] { version := "1", cacheDir := none, dumpDir := none } shadowedAndSubtype
      "method-deleter" "class=a.A,method=m,subtypes" ["a.B"] none ⟨[], [], 1, 0⟩
    ran.state.1.loaded.loadedClasses = [⟨0, "a/A", ⟨1⟩⟩, ⟨1, "a/B", ⟨2⟩⟩] ∧
      ∃ p, DeletionPlan.ofArguments [] "class=a.A,method=m,subtypes" = .ok p ∧
        ∀ d ∈ ran.state.1.loaded.classes, ∃ bytes,
          shadowedAndSubtype.find d.loaded.name d.loaded.loader =
              .ok (some (d.loaded.loader, bytes)) ∧
            p.Leaves shadowedAndSubtype d.loaded.name d.loaded.loader bytes d.bytes := by
  have hresult : (runFresh [] { version := "1", cacheDir := none, dumpDir := none }
      shadowedAndSubtype "method-deleter" "class=a.A,method=m,subtypes" ["a.B"] none
      ⟨[], [], 1, 0⟩).value =
        .ok ⟨2, 1, none, ⟨"method-deleter", "0.1.0", [⟨2, 1, 1, [], []⟩]⟩⟩ := by
    decide +kernel
  have harray : ∀ c ∈ shadowedAndSubtype.resources, ClassName.isArray c.1 = false := by
    decide +kernel
  obtain ⟨p, hplan, -, -, hleaves, -⟩ := classes_after_run [] _ shadowedAndSubtype "method-deleter"
    "class=a.A,method=m,subtypes" ["a.B"] none ⟨[], [], 1, 0⟩ _ rfl rfl harray hresult
  exact ⟨by decide +kernel, p, hplan, hleaves⟩

end

end CommandLine

end Reclass
