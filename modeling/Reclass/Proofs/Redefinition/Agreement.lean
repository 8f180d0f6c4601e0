import Mathlib.Data.List.Forall2
import Reclass.Agent
import Reclass.Proofs.ClassPath.History
import Reclass.Proofs.Redefinition.Pass

/-!
# Redefining and loading agree

A class that was loaded before an agent ran is edited by the passes of the agent's runs; a class
that is loaded later is edited by the transformers that the agent registered. Both ways lead to the
same bytes, those of the class path after every edit of the agent in order
(`go_agrees_with_loading`); only a class that had been redefined before starts from the bytes that
it had then (`Universe.basis`). The invariant is `Agrees`: it holds of a host without transformers,
whatever has been done to it (`ClassPathHost.unedited_after`), and it goes on by one edit when a run
has ended well and its transformer is registered.
-/

set_option autoImplicit false

namespace Reclass

variable {ρ : Type}

namespace Redefinition

variable {t : Transformer ρ} {f : ClassEdit} {opts : RedefineOptions} {J : ρ → Prop}

/-- The host takes a whole batch or nothing of it. -/
theorem redefine_ensures (host : ClassPathHost ρ) (r : ρ) (ds : List ClassDefinition) :
    (ClassPathHost.instrumentation.redefine ds).Ensures (host, r) fun res s' => s'.2 = r ∧
      ((∃ u', host.loaded.redefine ds = .ok u' ∧ res = .ok () ∧
        s'.1 = { host with loaded := u' }) ∨
      ∃ e, host.loaded.redefine ds = .error e ∧ res = .error e ∧ s'.1 = host) := by
  show Act.Ensures (Act.zoom .fst (ClassPathHost.redefine ds)) (host, r) _
  rw [Act.ensures_zoom, ClassPathHost.redefine, Act.ensures_modifyGet]
  refine ⟨rfl, ?_⟩
  cases hr : host.loaded.redefine ds with
  | error e => exact Or.inr ⟨e, rfl, by simp only [Lens.fst, hr], by simp only [Lens.fst, hr]⟩
  | ok u' =>
    exact Or.inl ⟨u', rfl, by simp only [Lens.fst, hr], by simp only [Lens.fst, hr]⟩

/-- In batch mode the edits of a pass are put in place together, or the run ends and the host stays as
it is. -/
theorem submit_all_or_nothing (hbatch : opts.verbose = false) (host : ClassPathHost ρ) (r : ρ)
    (edits : List ClassDefinition) (report : RedefineReport) :
    (submit ClassPathHost.instrumentation opts edits report).Ensures (host, r) fun res s' =>
      s'.2 = r ∧ ((∃ u', host.loaded.redefine edits = .ok u' ∧
        res = .ok { report with redefined := report.redefined + edits.length } ∧
        s'.1 = { host with loaded := u' }) ∨
      ∃ e, host.loaded.redefine edits = .error e ∧ res = .error (.batch edits.length e) ∧
        s'.1 = host) := by
  rw [submit, hbatch, if_neg Bool.false_ne_true, Act.ensures_bind]
  refine (redefine_ensures host r edits).imp fun res s' h => ?_
  obtain ⟨hr, ⟨u', hu', rfl, hs'⟩ | ⟨e, he, rfl, hs'⟩⟩ := h
  · exact ⟨hr, Or.inl ⟨u', hu', rfl, hs'⟩⟩
  · exact ⟨hr, Or.inr ⟨e, he, rfl, hs'⟩⟩

/-- A batch that is accepted has been checked and put in place. -/
theorem submit_ensures (hbatch : opts.verbose = false) (host : ClassPathHost ρ) (r : ρ)
    (edits : List ClassDefinition) (report : RedefineReport) :
    (submit ClassPathHost.instrumentation opts edits report).Ensures (host, r) fun res s' =>
      s'.2 = r ∧ ∀ report', res = .ok report' → ∃ u', host.loaded.redefine edits = .ok u' ∧
        s'.1 = { host with loaded := u' } := by
  refine (submit_all_or_nothing hbatch host r edits report).imp fun res s' h => ?_
  obtain ⟨hr, ⟨u', hu', rfl, hs'⟩ | ⟨e, -, rfl, -⟩⟩ := h
  · exact ⟨hr, fun _ _ => ⟨u', hu', hs'⟩⟩
  · exact ⟨hr, nofun⟩

/-- The passes of a run that ends well edit every class that can be edited. -/
theorem passes_ensures (hbatch : opts.verbose = false) (ht : t.Performs J f)
    {u₀ : Universe} (hn : u₀.Numbered) (limit : Nat) :
    ∀ (pass : Nat) (p : Progress) (report : RedefineReport) (host : ClassPathHost ρ) (r : ρ),
      Rewritten u₀ host.loaded f (· ∈ p.done) → p.pending = [] → J r →
      (passes ClassPathHost.instrumentation (ClassPathHost.lift t) opts limit pass p
        report).Ensures (host, r) fun res s' => ∀ report', res = .ok report' → J s'.2 ∧
          ∃ u', Rewritten u₀ u' f (fun _ => True) ∧ u'.index = host.loaded.index ∧
            s'.1 = { host with loaded := u' } := by
  induction limit with
  | zero =>
    intro pass p report host r _ _ _
    rw [passes]
    rintro report' ⟨⟩
  | succ limit ih =>
    intro pass p report host r hrewritten hp hr
    have hnumbered := hrewritten.numbered hn
    rw [passes]
    simp only [Act.ensures_bind, Act.ensures_report]
    refine (collect_ensures ht hnumbered hp hr).imp fun p' s' h => ?_
    obtain ⟨⟨hhost, hr'⟩, hcollected⟩ := h
    obtain ⟨host', r'⟩ := s'
    obtain rfl : host = host' := hhost.symm
    by_cases hempty : p'.pending.isEmpty = true
    · -- no edit came up: the run ends
      rw [if_pos hempty]
      simp only [Act.ensures_bind, Act.ensures_report, Act.ensures_pure]
      exact fun _ _ => ⟨hr', host.loaded,
        hrewritten.settled hn hcollected (List.isEmpty_iff.1 hempty), rfl, rfl⟩
    · rw [if_neg hempty]
      simp only [Act.ensures_bind, Act.ensures_report]
      refine (submit_ensures hbatch host r' p'.pending _).imp fun res s'' h => ?_
      cases res with
      | error e => rintro _ ⟨⟩
      | ok report' =>
        -- the batch is in place, and the next pass starts from it
        obtain ⟨hr'', h⟩ := h
        obtain ⟨u', hredefine, hhost⟩ := h report' rfl
        obtain ⟨host', r''⟩ := s''
        obtain rfl : { host with loaded := u' } = host' := hhost.symm
        obtain rfl : r'' = r' := hr''
        have hnext := hrewritten.redefine hn hcollected hredefine
        have hindex : u'.index = host.loaded.index := by
          rw [(Universe.redefine_eq_ok hredefine).2, Universe.index_foldl_replace]
        refine (ih (pass + 1) { p' with pending := [] } report' { host with loaded := u' } r''
          hnext rfl hr').imp fun res s''' h report'' hres => ?_
        obtain ⟨hJ, u'', hrewritten', hindex', hhost'⟩ := h report'' hres
        exact ⟨hJ, u'', hrewritten', hindex'.trans hindex, hhost'⟩

/-- A run that ends well edits every class once. -/
theorem run_ensures (hbatch : opts.verbose = false) (ht : t.Performs J f)
    {host : ClassPathHost ρ} (hn : host.loaded.Numbered) {r : ρ} (hr : J r) :
    (run ClassPathHost.instrumentation (ClassPathHost.lift t) opts).Ensures (host, r)
      fun res s' => ∀ report, res = .ok report → J s'.2 ∧
        ∃ u', Rewritten host.loaded u' f (fun _ => True) ∧ u'.index = host.loaded.index ∧
          s'.1 = { host with loaded := u' } := by
  rw [run, Act.ensures_bind]
  exact passes_ensures hbatch ht hn _ 1 {} {} host r (rewritten_refl host.loaded f) rfl hr

end Redefinition

namespace Universe

variable {u : Universe} {path : ClassPath} {i : Nat} {d : Defined}

/-- The bytes that the edits of an agent start from, of which `found` are those on the class path: a
class that has been redefined has its own. -/
def basis (u : Universe) (c : LoadedClass) (found : Bytes) : Bytes :=
  match u.classes[c.id]? with
  | some d => if d.redefinitions = 0 then found else d.bytes
  | none => found

/-- Every class has the bytes that its loader finds, or those of a redefinition. -/
def Unedited (path : ClassPath) (u : Universe) : Prop :=
  ∀ (i : Nat) (d : Defined), u.classes[i]? = some d → ∃ bytes,
    path.find d.loaded.name d.loaded.loader = .ok (some (d.loaded.loader, bytes)) ∧
      (d.redefinitions = 0 → d.bytes = bytes) ∧ (d.redefinitions ≠ 0 → d.bytes ≠ [])

theorem Unedited.define (h : u.Unedited path) {name : String} {loader : LoaderId} {bytes : Bytes}
    (hfind : path.find name loader = .ok (some (loader, bytes))) (hget : u.get? name loader = none) :
    (u.define name loader bytes).2.Unedited path := by
  intro i d hd
  rw [classes_define hget, Array.getElem?_push] at hd
  by_cases hi : i = u.classes.size
  · rw [if_pos hi] at hd
    cases hd
    exact ⟨bytes, hfind, fun _ => rfl, fun hne => absurd rfl hne⟩
  · rw [if_neg hi] at hd
    exact h i d hd

theorem Unedited.replace (h : u.Unedited path) {e : ClassDefinition} (hne : e.bytes ≠ []) :
    (u.replace e).Unedited path := by
  intro i d hd
  rw [getElem?_replace] at hd
  obtain ⟨d₀, hd₀, hd⟩ := Option.map_eq_some_iff.1 hd
  by_cases hi : e.target.id = i
  · rw [if_pos hi] at hd
    subst hd
    obtain ⟨bytes, hfind, -⟩ := h i d₀ hd₀
    exact ⟨bytes, hfind, fun hzero => absurd hzero (Nat.succ_ne_zero _), fun _ => hne⟩
  · rw [if_neg hi] at hd
    exact hd ▸ h i d₀ hd₀

/-- Accepted definitions keep a universe unedited, for they have the bytes of a class. -/
theorem Unedited.redefine (h : u.Unedited path) {ds : List ClassDefinition} {u' : Universe}
    (hredefine : u.redefine ds = .ok u') : u'.Unedited path := by
  obtain ⟨hcheck, rfl⟩ := redefine_eq_ok hredefine
  have hne : ∀ e ∈ ds, e.bytes ≠ [] := fun e he => bytes_ne_nil_of_check (hcheck e he)
  clear hcheck hredefine
  induction ds generalizing u with
  | nil => exact h
  | cons e ds ih =>
    exact ih (h.replace (hne e List.mem_cons_self)) fun e' he' =>
      hne e' (List.mem_cons_of_mem e he')

/-- What an agent finds is what its edits start from. -/
theorem Unedited.exists_basis (h : u.Unedited path) (hn : u.Numbered)
    (hd : u.classes[i]? = some d) : ∃ bytes,
      path.find d.loaded.name d.loaded.loader = .ok (some (d.loaded.loader, bytes)) ∧
        d.bytes = u.basis d.loaded bytes := by
  obtain ⟨bytes, hfind, hfound, -⟩ := h i d hd
  refine ⟨bytes, hfind, ?_⟩
  rw [basis, hn i d hd, hd]
  by_cases hzero : d.redefinitions = 0
  · simp only [if_pos hzero]
    exact hfound hzero
  · simp only [if_neg hzero]

theorem Unedited.basis_ne_nil (h : u.Unedited path) (c : LoadedClass) {bytes : Bytes}
    (hne : bytes ≠ []) : u.basis c bytes ≠ [] := by
  rw [basis]
  cases hd : u.classes[c.id]? with
  | none => exact hne
  | some d =>
    by_cases hzero : d.redefinitions = 0
    · simp only [if_pos hzero]
      exact hne
    · obtain ⟨-, -, -, hredefined⟩ := h c.id d hd
      simp only [if_neg hzero]
      exact hredefined hzero

/-- A class that is not loaded yet starts from the class path. -/
theorem basis_of_size_le {c : LoadedClass} (h : u.classes.size ≤ c.id) (bytes : Bytes) :
    u.basis c bytes = bytes := by
  rw [basis, Array.getElem?_eq_none h]

theorem Extends.size_le {u' : Universe} (h : u.Extends u') : u.classes.size ≤ u'.classes.size := by
  by_contra hlt
  obtain ⟨d', hd', -⟩ := h u'.classes.size _ (Array.getElem?_eq_getElem (Nat.not_le.1 hlt))
  rw [Array.getElem?_eq_none (Nat.le_refl _)] at hd'
  cases hd'

end Universe

namespace ClassPathHost

variable {host : ClassPathHost ρ} {path : ClassPath} {edits : List ClassEdit} {begun : Universe}

/-! ### Hosts without transformers -/

/-- The classes of the host are filed, and unedited as long as no transformer is registered. -/
structure Untransformed (path : ClassPath) (s : ClassPathHost ρ × ρ) : Prop where
  filed : s.1.Filed path
  unedited : s.1.hooks = [] → s.1.loaded.Unedited path

theorem loadClass_untransformed (path : ClassPath) (name : String) (loader : LoaderId) :
    (loadClass name loader).Preserves (Untransformed (ρ := ρ) path) := by
  rintro ⟨host, r⟩ hs
  have hkeeps := loadClass_keeps path host.loaded name loader (host, r)
    ⟨hs.filed, Universe.Extends.refl _⟩
  by_cases hhooks : host.hooks = []
  · -- the class is loaded with the bytes that are found
    have hnone : List.Forall₂ (fun t f => t.Does (fun _ => True) f) host.hooks [] :=
      hhooks ▸ List.Forall₂.nil
    refine (hkeeps.and (loadClass_ensures hnone name loader trivial)).imp fun _ s' h => ?_
    obtain ⟨hkeeps, -, hs' | ⟨defining, bytes, hfind, hget, hs'⟩⟩ := h
    · refine ⟨hkeeps.filed, fun _ => ?_⟩
      rw [hs']
      exact hs.unedited hhooks
    · refine ⟨hkeeps.filed, fun _ => ?_⟩
      rw [hs.filed.path_eq] at hfind
      rw [hs']
      exact (hs.unedited hhooks).define hfind hget
  · -- the transformers stay registered
    refine (hkeeps.and (loadClass_defines host name loader r)).imp fun _ s' h => ?_
    obtain ⟨hkeeps, ⟨-, hs'⟩ | ⟨defining, found, bytes, -, -, hs'⟩⟩ := h
    · refine ⟨hkeeps.filed, fun hnone => absurd ?_ hhooks⟩
      rw [hs'] at hnone
      exact hnone
    · refine ⟨hkeeps.filed, fun hnone => absurd ?_ hhooks⟩
      rw [hs'] at hnone
      exact hnone

theorem redefine_untransformed (path : ClassPath) (ds : List ClassDefinition) :
    (Act.zoom .fst (redefine ds)).Preserves (Untransformed (ρ := ρ) path) := by
  rintro ⟨host, r⟩ hs
  have hkeeps : (Act.zoom .fst (redefine ds)).Ensures (host, r) fun _ => Keeps path host.loaded :=
    redefine_keeps path host.loaded ds (host, r) ⟨hs.filed, Universe.Extends.refl _⟩
  show (ClassPathHost.instrumentation.redefine ds).Ensures (host, r) _
  refine (Redefinition.redefine_ensures host r ds).and hkeeps |>.imp fun _ s' h => ?_
  obtain ⟨⟨-, ⟨u', hredefine, -, hs'⟩ | ⟨e, -, -, hs'⟩⟩, hkeeps⟩ := h
  · refine ⟨hkeeps.filed, fun hnone => ?_⟩
    rw [hs'] at hnone ⊢
    exact (hs.unedited hnone).redefine hredefine
  · refine ⟨hkeeps.filed, ?_⟩
    rw [hs']
    exact hs.unedited

/-- Whatever has been done to a host that no transformer is registered with, its classes are
unedited. -/
theorem unedited_after (path : ClassPath) (r : ρ) (history : List (Operation ρ))
    (hhooks : (Operation.after history (new path, r)).1.hooks = []) :
    (Operation.after history (new path, r)).1.loaded.Unedited path := by
  have hstart : Untransformed path ((new path : ClassPathHost ρ), r) :=
    ⟨filed_new path, fun _ => by rintro i d ⟨⟩⟩
  have hadd : ∀ t : Transformer ρ,
      (Act.zoom .fst (addTransformer t)).Preserves (Untransformed path) := by
    rintro t ⟨host, r⟩ ⟨hfiled, -⟩
    refine ⟨⟨hfiled.path_eq, hfiled.numbered, hfiled.indexed, hfiled.placed⟩, fun hnone => ?_⟩
    exact absurd hnone (List.append_ne_nil_of_right_ne_nil host.hooks (List.cons_ne_nil t []))
  exact (Operation.after_preserves (loadClass_untransformed path) (redefine_untransformed path)
    hadd history hstart).unedited hhooks

/-! ### Agreement -/

/-- The loaded classes have every edit made, starting from the bytes that they had or have on the
class path when the edits began, and the registered transformers make these edits. -/
structure Agrees (path : ClassPath) (begun : Universe) (edits : List ClassEdit)
    (host : ClassPathHost ρ) : Prop where
  path_eq : host.path = path
  hooks : List.Forall₂ Transformer.Pure host.hooks edits
  numbered : host.loaded.Numbered
  later : begun.Extends host.loaded
  bytes : ∀ (i : Nat) (d : Defined), host.loaded.classes[i]? = some d → ∃ bytes,
    path.find d.loaded.name d.loaded.loader = .ok (some (d.loaded.loader, bytes)) ∧
      (bytes ≠ [] → d.loaded.isArray = false →
        d.bytes = ClassEdit.steps edits d.loaded.loader d.loaded.name (begun.basis d.loaded bytes))

/-- No edit has emptied a class. -/
def Present (path : ClassPath) (host : ClassPathHost ρ) : Prop :=
  ∀ (i : Nat) (d : Defined) (bytes : Bytes), host.loaded.classes[i]? = some d →
    path.find d.loaded.name d.loaded.loader = .ok (some (d.loaded.loader, bytes)) →
    bytes ≠ [] → d.loaded.isArray = false → d.bytes ≠ []

/-- A host without transformers agrees with itself. -/
theorem agrees_of_unedited (hfiled : host.Filed path) (hhooks : host.hooks = [])
    (h : host.loaded.Unedited path) : Agrees path host.loaded [] host where
  path_eq := hfiled.path_eq
  hooks := hhooks ▸ List.Forall₂.nil
  numbered := hfiled.numbered
  later := Universe.Extends.refl _
  bytes i d hd := by
    obtain ⟨bytes, hfind, hbytes⟩ := h.exists_basis hfiled.numbered hd
    exact ⟨bytes, hfind, fun _ _ => hbytes⟩

/-- Classes that have not been edited are there. -/
theorem present_of_unedited (hfiled : host.Filed path) (h : host.loaded.Unedited path) :
    host.Present path := by
  intro i d bytes hd hfind hne _
  obtain ⟨bytes', hfind', hbytes⟩ := h.exists_basis hfiled.numbered hd
  rw [hfind] at hfind'
  cases hfind'
  rw [hbytes]
  exact h.basis_ne_nil d.loaded hne

/-- Loading a class keeps the agreement. -/
theorem Agrees.loadClass (h : Agrees path begun edits host) (name : String) (loader : LoaderId)
    (r : ρ) :
    (ClassPathHost.loadClass name loader).Ensures (host, r) fun _ s' =>
      Agrees path begun edits s'.1 := by
  have hhooks := h.hooks.imp fun _ _ hpure => Transformer.Pure.does hpure
  refine (loadClass_ensures hhooks name loader trivial).imp fun _ s' hs' => ?_
  obtain ⟨-, hs' | ⟨defining, bytes, hfind, hget, hs'⟩⟩ := hs'
  · rw [hs']
    exact h
  · rw [hs']
    refine ⟨h.path_eq, h.hooks, h.numbered.define hget,
      h.later.trans (Universe.extends_define _ _ _ _), ?_⟩
    intro i d hd
    rw [Universe.classes_define hget, Array.getElem?_push] at hd
    by_cases hi : i = host.loaded.classes.size
    · rw [if_pos hi] at hd
      cases hd
      rw [h.path_eq] at hfind
      refine ⟨bytes, hfind, fun _ _ => ?_⟩
      -- the class is new, so it starts from the class path
      rw [Universe.basis_of_size_le h.later.size_le]
    · rw [if_neg hi] at hd
      exact h.bytes i d hd

/-- A run that ends well, with the registration after it, is one more edit. -/
theorem Agrees.install {t : Transformer ρ} {f : ClassEdit} {u' : Universe}
    (h : Agrees path begun edits host) (hpresent : host.Present path) (hpure : t.Pure f)
    (hrewritten : Redefinition.Rewritten host.loaded u' f fun _ => True) :
    Agrees path begun (edits ++ [f]) { host with loaded := u', hooks := host.hooks ++ [t] } ∧
      Present path { host with loaded := u', hooks := host.hooks ++ [t] } := by
  -- The class before the run, of which everything is known.
  have earlier : ∀ (i : Nat) (d : Defined), u'.classes[i]? = some d →
      ∃ d₀, host.loaded.classes[i]? = some d₀ ∧ d.loaded = d₀.loaded := by
    intro i d hd
    have hi := hrewritten.loaded i
    rw [hd, Option.map_some] at hi
    obtain ⟨d₀, hd₀, he⟩ := Option.map_eq_some_iff.1 hi.symm
    exact ⟨d₀, hd₀, he.symm⟩
  constructor
  · refine ⟨h.path_eq, List.rel_append h.hooks (List.Forall₂.cons hpure List.Forall₂.nil),
      hrewritten.numbered h.numbered,
      h.later.trans (Universe.extends_of_loaded hrewritten.loaded), ?_⟩
    intro i d hd
    obtain ⟨d₀, hd₀, hloaded⟩ := earlier i d hd
    obtain ⟨bytes, hfind, hbytes⟩ := h.bytes i d₀ hd₀
    rw [hloaded]
    refine ⟨bytes, hfind, ?_⟩
    intro hne harray
    have hr : Redefinition.Readable d₀ := ⟨harray, hpresent i d₀ bytes hd₀ hfind hne harray⟩
    rw [hrewritten.edited i d₀ d hd₀ hd trivial hr, ClassEdit.steps_append, ← hbytes hne harray]
    rfl
  · intro i d bytes hd hfind hne harray
    obtain ⟨d₀, hd₀, hloaded⟩ := earlier i d hd
    rw [hloaded] at hfind harray
    exact hrewritten.present i d₀ d hd₀ hd
      ⟨harray, hpresent i d₀ bytes hd₀ hfind hne harray⟩

theorem addTransformer_ensures (t : Transformer ρ) (r : ρ)
    {Q : Unit → ClassPathHost ρ × ρ → Prop} :
    (ClassPathHost.instrumentation.addTransformer t).Ensures (host, r) Q ↔
      Q () ({ host with hooks := host.hooks ++ [t] }, r) := Iff.rfl

/-- What is left of a sequence of loads, whether they succeed or not. -/
def loads (classes : List (String × LoaderId)) (s : ClassPathHost ρ × ρ) : ClassPathHost ρ × ρ :=
  classes.foldl (fun s c => ((ClassPathHost.loadClass c.1 c.2).result.run s).state) s

theorem agrees_loads (classes : List (String × LoaderId)) {s : ClassPathHost ρ × ρ}
    (h : Agrees path begun edits s.1) : Agrees path begun edits (loads classes s).1 := by
  induction classes generalizing s with
  | nil => exact h
  | cons c classes ih => exact ih (h.loadClass c.1 c.2 s.2)

end ClassPathHost

namespace Agent

variable {path : ClassPath}

/-- An agent that ends well goes on by its edits. -/
theorem install_ensures {opts : RedefineOptions} (hbatch : opts.verbose = false)
    {ts : List (Transformer ρ)} {fs : List ClassEdit} (hpure : List.Forall₂ Transformer.Pure ts fs)
    (hgated : ∀ t ∈ ts, t.Gated) {host : ClassPathHost ρ} {begun : Universe}
    {edits : List ClassEdit} (hagrees : host.Agrees path begun edits)
    (hpresent : host.Present path) (r : ρ) :
    (install ClassPathHost.instrumentation ClassPathHost.lift opts ts).Ensures (host, r)
      fun res s' => ∀ reports, res = .ok reports → s'.1.Agrees path begun (edits ++ fs) := by
  induction hpure generalizing host edits r with
  | nil =>
    rw [List.append_nil]
    exact fun _ _ => hagrees
  | @cons t f ts fs ht _ ih =>
    rw [install, Act.ensures_bind]
    have hperforms := ht.performs (hgated t List.mem_cons_self)
    refine (Redefinition.run_ensures hbatch hperforms hagrees.numbered trivial).imp
      fun res s' h => ?_
    cases res with
    | error e => rintro _ ⟨⟩
    | ok report =>
      obtain ⟨-, u', hrewritten, -, hhost⟩ := h report rfl
      obtain ⟨host', r'⟩ := s'
      obtain rfl : { host with loaded := u' } = host' := hhost.symm
      obtain ⟨hagrees', hpresent'⟩ := hagrees.install hpresent ht hrewritten
      have hrest := ih (fun t' ht' => hgated t' (List.mem_cons_of_mem t ht')) hagrees' hpresent' r'
      rw [Act.ensures_bind, ClassPathHost.addTransformer_ensures, Act.ensures_bind]
      refine hrest.imp fun res s'' h => ?_
      cases res with
      | error e => rintro _ ⟨⟩
      | ok reports =>
        have hlast := h reports rfl
        rw [List.append_assoc] at hlast
        exact fun _ _ => hlast

/-- **Redefining and loading agree.** Take a host that no transformer is registered with, after any
loads and redefinitions, and let an agent run well on it in batch mode. However many classes are
loaded afterwards, every loaded class that is no array and has bytes on the class path has every
edit of the agent made once and in order, whether it was loaded before the agent ran or after. The
edits start from its bytes on the class path, or, if it had been redefined before the agent ran, from
those that it had then. The transformers are gated, for a run asks before it applies and a load does
not; those made from an edit are (`Transformation.direct_gated`,
`CachingTransformer.transformer_gated`). -/
theorem go_agrees_with_loading (path : ClassPath) (agent : Agent (Transformer ρ))
    (edits : List ClassEdit) (hbatch : agent.options.verbose = false)
    (hpure : List.Forall₂ Transformer.Pure agent.transformers edits)
    (hgated : ∀ t ∈ agent.transformers, t.Gated)
    (history : List (ClassPathHost.Operation ρ)) (after : List (String × LoaderId)) (r : ρ)
    (hhooks : (ClassPathHost.Operation.after history (ClassPathHost.new path, r)).1.hooks = [])
    (report : AgentReport)
    (hgo : ((agent.go ClassPathHost.instrumentation ClassPathHost.lift).run
      (ClassPathHost.Operation.after history (ClassPathHost.new path, r))).value = .ok report) :
    let begun := ClassPathHost.Operation.after history (ClassPathHost.new path, r)
    let ran := (agent.go ClassPathHost.instrumentation ClassPathHost.lift).run begun
    ∀ d ∈ (ClassPathHost.loads after ran.state).1.loaded.classes, ∃ bytes,
      path.find d.loaded.name d.loaded.loader = .ok (some (d.loaded.loader, bytes)) ∧
        (bytes ≠ [] → d.loaded.isArray = false →
          d.bytes = ClassEdit.steps edits d.loaded.loader d.loaded.name
            (begun.1.loaded.basis d.loaded bytes)) := by
  intro begun ran d hd
  have hfiled : begun.1.Filed path := ClassPathHost.filed_after path r history
  have hunedited := ClassPathHost.unedited_after path r history hhooks
  have hbefore := ClassPathHost.agrees_of_unedited hfiled hhooks hunedited
  have hpresent := ClassPathHost.present_of_unedited hfiled hunedited
  have hran : (agent.go ClassPathHost.instrumentation ClassPathHost.lift).Ensures begun
      fun res s' => ∀ report, res = .ok report → s'.1.Agrees path begun.1.loaded edits := by
    rw [go, Act.ensures_within]
    simp only [Act.ensures_bind, Act.ensures_report]
    refine (install_ensures hbatch hpure hgated hbefore hpresent _).imp fun res s' h => ?_
    cases res with
    | error e => rintro _ ⟨⟩
    | ok reports =>
      have hlast := h reports rfl
      exact fun _ _ => hlast
  -- later loads pass the transformers that the agent has registered
  have hafter := ClassPathHost.agrees_loads after (hran report hgo)
  obtain ⟨i, hi⟩ := Array.mem_iff_getElem?.1 hd
  exact hafter.bytes i d hi

/-- Adds a method to a class without methods. -/
def addFirst (name : String) (_ : Bytes) : EditOutcome :=
  .done (some ((ClassSketch.new name).withMethod "first" "()V").encode)

/-- Adds a method to a class that has one. -/
def addSecond (name : String) (bytes : Bytes) : EditOutcome :=
  let sketch := (ClassSketch.new name).withMethod "first" "()V"
  .done (if bytes = sketch.encode then some (sketch.withMethod "second" "()V").encode else none)

/-- One class is loaded and edited before another, and a third is declined and has been redefined. -/
theorem go_agrees_with_loading_two_edits :
    let eligible := fun name (_ : LoaderId) => name != "p/C"
    let root := SortedMap.ofList (["p/A", "p/B", "p/C"].map fun name =>
      (name, (ClassSketch.new name).encode))
    let path : ClassPath := ⟨[⟨"root", root⟩]⟩
    let first : Transformation Unit := Transformation.ofFunctions eligible addFirst
    let second : Transformation Unit := Transformation.ofFunctions eligible addSecond
    let agent : Agent (Transformer Unit) := ⟨"methods", "1", [first.direct, second.direct], {}⟩
    let edits : List ClassEdit := [
      fun loader name bytes => answer eligible addFirst ⟨loader, name, none, bytes⟩,
      fun loader name bytes => answer eligible addSecond ⟨loader, name, none, bytes⟩]
    let history : List (ClassPathHost.Operation Unit) := [.loadClass "p/C" ⟨1⟩, .loadClass "p/A" ⟨1⟩,
      .redefine [⟨⟨0, "p/C", ⟨1⟩⟩, ((ClassSketch.new "p/C").withMethod "m" "()V").encode⟩]]
    let ran := (agent.go ClassPathHost.instrumentation ClassPathHost.lift).run
      (ClassPathHost.Operation.after history (ClassPathHost.new path, ()))
    ∀ d ∈ (ClassPathHost.loads [("p/B", ⟨1⟩)] ran.state).1.loaded.classes, ∃ bytes,
      path.find d.loaded.name d.loaded.loader = .ok (some (d.loaded.loader, bytes)) ∧
        (bytes ≠ [] → d.loaded.isArray = false →
          d.bytes = ClassEdit.steps edits d.loaded.loader d.loaded.name
            ((ClassPathHost.Operation.after history (ClassPathHost.new path, ())).1.loaded.basis
              d.loaded bytes)) := by
  intro eligible root path first second agent edits history
  have hfirst : first.Functional eligible addFirst :=
    Transformation.ofFunctions_functional eligible addFirst
  have hsecond : second.Functional eligible addSecond :=
    Transformation.ofFunctions_functional eligible addSecond
  have hgated : ∀ t ∈ agent.transformers, t.Gated := by
    intro t ht
    rcases List.mem_cons.1 ht with rfl | ht
    · exact Transformation.direct_gated first
    · rw [List.mem_singleton.1 ht]
      exact Transformation.direct_gated second
  let report : RedefineReport := { passes := 2, transformed := 1, redefined := 1 }
  have hgo : ((agent.go ClassPathHost.instrumentation ClassPathHost.lift).run
      (ClassPathHost.Operation.after history (ClassPathHost.new path, ()))).value =
        .ok ⟨"methods", "1", [report, report]⟩ := by decide +kernel
  have hpure : List.Forall₂ Transformer.Pure agent.transformers edits :=
    List.Forall₂.cons hfirst.direct_pure
      (List.Forall₂.cons hsecond.direct_pure List.Forall₂.nil)
  have hhooks : (ClassPathHost.Operation.after history
      (ClassPathHost.new path, ())).1.hooks.isEmpty = true := by decide +kernel
  exact go_agrees_with_loading path agent edits rfl hpure hgated history [("p/B", ⟨1⟩)] ()
    (List.isEmpty_iff.1 hhooks) ⟨"methods", "1", [report, report]⟩ hgo

/-- Every class has its bytes on the class path with the edits made. -/
def EditedFrom (path : ClassPath) (edits : List ClassEdit) (u : Universe) : Prop :=
  ∀ d ∈ u.classes, ∃ bytes,
    path.find d.loaded.name d.loaded.loader = .ok (some (d.loaded.loader, bytes)) ∧
      (bytes ≠ [] → d.loaded.isArray = false →
        d.bytes = ClassEdit.steps edits d.loaded.loader d.loaded.name bytes)

theorem not_editedFrom {edits : List ClassEdit} {u : Universe} {d : Defined} {bytes : Bytes}
    (hd : d ∈ u.classes)
    (hfind : path.find d.loaded.name d.loaded.loader = .ok (some (d.loaded.loader, bytes)))
    (hne : bytes ≠ []) (harray : d.loaded.isArray = false)
    (hbytes : d.bytes ≠ ClassEdit.steps edits d.loaded.loader d.loaded.name bytes) :
    ¬ EditedFrom path edits u := by
  intro h
  obtain ⟨bytes', hfind', hedited⟩ := h d hd
  rw [hfind] at hfind'
  cases hfind'
  exact hbytes (hedited hne harray)

/-- An agent that ends well on a host without transformers may leave a class other than the class path
and the edits say: when its transformer edits what it declines, and when the class had been
redefined. -/
theorem go_agrees_with_loading_ungatedOrRedefined :
    let bare := (ClassSketch.new "p/A").encode
    let edited := ((ClassSketch.new "p/A").withMethod "m" "()V").encode
    let path : ClassPath := ⟨[⟨"root", SortedMap.ofList [("p/A", bare)]⟩]⟩
    let host : ClassPathHost Unit := ClassPathHost.new path
    let loaded := ClassPathHost.Operation.after [.loadClass "p/A" ⟨1⟩] (host, ())
    let redefined := ClassPathHost.Operation.after
      [.loadClass "p/A" ⟨1⟩, .redefine [⟨⟨0, "p/A", ⟨1⟩⟩, edited⟩]] (host, ())
    let ungated : Transformer Unit := ⟨fun _ _ => pure false, fun _ => pure (some edited)⟩
    let idle : Transformer Unit := ⟨fun _ _ => pure true, fun _ => pure none⟩
    let go := fun (t : Transformer Unit) => Agent.go ⟨"methods", "1", [t], {}⟩
      ClassPathHost.instrumentation ClassPathHost.lift
    ungated.Pure (fun _ _ _ => some edited) ∧ idle.Pure (fun _ _ _ => none) ∧
      loaded.1.hooks.isEmpty ∧ redefined.1.hooks.isEmpty ∧
      ((go ungated).run loaded).value = .ok ⟨"methods", "1", [{ passes := 1 }]⟩ ∧
      ((go idle).run redefined).value = .ok ⟨"methods", "1", [{ passes := 1 }]⟩ ∧
      ¬ EditedFrom path [fun _ _ _ => some edited] ((go ungated).run loaded).state.1.loaded ∧
      ¬ EditedFrom path [fun _ _ _ => none] ((go idle).run redefined).state.1.loaded := by
  intro bare edited path host loaded redefined ungated idle go
  have hfind : path.find "p/A" ⟨1⟩ = .ok (some (⟨1⟩, bare)) := by decide +kernel
  have hne : bare ≠ [] := by decide +kernel
  have harray : (⟨0, "p/A", ⟨1⟩⟩ : LoadedClass).isArray = false := by decide +kernel
  have hdiffer : bare ≠ edited := by decide +kernel
  refine ⟨fun _ _ => rfl, fun _ _ => rfl, by decide +kernel, by decide +kernel,
    by decide +kernel, by decide +kernel, ?_, ?_⟩
  · have hkept : (⟨⟨0, "p/A", ⟨1⟩⟩, bare, 0⟩ : Defined) ∈
        ((go ungated).run loaded).state.1.loaded.classes := by decide +kernel
    exact not_editedFrom hkept hfind hne harray hdiffer
  · have hkept : (⟨⟨0, "p/A", ⟨1⟩⟩, edited, 1⟩ : Defined) ∈
        ((go idle).run redefined).state.1.loaded.classes := by decide +kernel
    exact not_editedFrom hkept hfind hne harray hdiffer.symm

end Agent

end Reclass
