import Reclass.Proofs.Redefinition.Agreement
import Reclass.Proofs.Redefinition.Record

/-!
# Runs in lockstep

A run works on a host and on what its transformer keeps beside it. Take two runs from hosts of one
class path that have loaded the same classes, with different transformers and different things kept
beside them. As long as the transformers answer alike, the runs do the same to the classes and come
to the same end (`Redefinition.run_lockstep`, `Agent.go_lockstep`), and so does loading
(`ClassPathHost.loadEach_lockstep`, `ClassPathHost.loads_lockstep`). The transformers need answer
alike only for what a run can hand to them, which are classes with the bytes that they were loaded
with: a class that has been edited is not looked at again (`Universe.Fresh`).
-/

set_option autoImplicit false

namespace Reclass

/-- Between states related by `K` the transformers answer alike, for the classes that are asked. -/
structure Transformer.Alike {ρ ρ' : Type} (t : Transformer ρ) (t' : Transformer ρ')
    (K : ρ → ρ' → Prop) (asked : LoaderId → String → Bytes → Prop) : Prop where
  accepts : ∀ name loader, (t.accepts name loader).Alike (t'.accepts name loader) K fun _ => K
  apply : ∀ q : TransformRequest, asked q.loader q.className q.bytes →
    (t.apply q).Alike (t'.apply q) K fun _ => K

/-! ### Two hosts side by side -/

/-- What two hosts have in common, and what sets them apart: the transformers that are registered
with the one and with the other. The things kept beside them are related. -/
structure HostPair (ρ ρ' : Type) where
  path : ClassPath
  hooks : List (Transformer ρ)
  hooks' : List (Transformer ρ')
  beside : ρ → ρ' → Prop

namespace HostPair

variable {ρ ρ' α β : Type} {T : HostPair ρ ρ'} {u : Universe} {P : α → Universe → Prop}
  {Q : β → Universe → Prop}

/-- Both hosts have loaded the classes `u`. -/
structure At (T : HostPair ρ ρ') (u : Universe) (s : ClassPathHost ρ × ρ)
    (s' : ClassPathHost ρ' × ρ') : Prop where
  fst_eq : s.1 = ⟨T.path, u, T.hooks⟩
  fst_eq' : s'.1 = ⟨T.path, u, T.hooks'⟩
  related : T.beside s.2 s'.2

/-- From hosts that have loaded `u` the steps end in one value, and in hosts that have loaded the
same classes; the value and the classes satisfy `Q`. -/
def Lockstep (T : HostPair ρ ρ') (x : Act (ClassPathHost ρ × ρ) α)
    (x' : Act (ClassPathHost ρ' × ρ') α) (u : Universe) (Q : α → Universe → Prop) : Prop :=
  x.Alike x' (T.At u) fun a s s' => ∃ u', T.At u' s s' ∧ Q a u'

theorem lockstep_pure (T : HostPair ρ ρ') (a : α) (hP : P a u) :
    T.Lockstep (pure a) (pure a) u P :=
  Act.alike_pure a fun _ _ hs => ⟨u, hs, hP⟩

theorem Lockstep.bind {x : Act (ClassPathHost ρ × ρ) α} {x' : Act (ClassPathHost ρ' × ρ') α}
    {f : α → Act (ClassPathHost ρ × ρ) β} {f' : α → Act (ClassPathHost ρ' × ρ') β}
    (hx : T.Lockstep x x' u P) (hf : ∀ a u', P a u' → T.Lockstep (f a) (f' a) u' Q) :
    T.Lockstep (x >>= f) (x' >>= f') u Q := by
  refine Act.Alike.bind hx fun a s s' hs => ?_
  obtain ⟨u', hs', hP⟩ := hs
  exact hf a u' hP s s' hs'

theorem Lockstep.map {x : Act (ClassPathHost ρ × ρ) α} {x' : Act (ClassPathHost ρ' × ρ') α}
    (f : α → β) (hx : T.Lockstep x x' u P) (hf : ∀ a u', P a u' → Q (f a) u') :
    T.Lockstep (f <$> x) (f <$> x') u Q := by
  rw [map_eq_pure_bind, map_eq_pure_bind]
  exact hx.bind fun a u' hP => lockstep_pure T (f a) (hf a u' hP)

/-- A look at the loaded classes. -/
theorem lockstep_gets (T : HostPair ρ ρ') (f : Universe → α) (hP : P (f u) u) :
    T.Lockstep (Act.gets fun s => f s.1.loaded) (Act.gets fun s => f s.1.loaded) u P := by
  rintro ⟨h, r⟩ ⟨h', r'⟩ hs
  obtain rfl : h = _ := hs.fst_eq
  obtain rfl : h' = _ := hs.fst_eq'
  exact ⟨rfl, u, hs, hP⟩

/-- A step on what is kept beside the hosts. -/
theorem lockstep_snd {x : Act ρ α} {x' : Act ρ' α} (hx : x.Alike x' T.beside fun _ => T.beside)
    (u : Universe) :
    T.Lockstep (Act.zoom .snd x) (Act.zoom .snd x') u fun _ u' => u' = u := by
  intro s s' hs
  obtain ⟨hvalue, hbeside⟩ := hx s.2 s'.2 hs.related
  exact ⟨hvalue, u, ⟨hs.fst_eq, hs.fst_eq', hbeside⟩, rfl⟩

theorem lockstep_foldlM {f : β → α → Act (ClassPathHost ρ × ρ) β}
    {f' : β → α → Act (ClassPathHost ρ' × ρ') β} {as : List α}
    (hf : ∀ a ∈ as, ∀ b u, Q b u → T.Lockstep (f b a) (f' b a) u Q) {b : β} (hb : Q b u) :
    T.Lockstep (as.foldlM f b) (as.foldlM f' b) u Q := by
  induction as generalizing b u with
  | nil => exact lockstep_pure T b hb
  | cons a as ih =>
    rw [List.foldlM_cons, List.foldlM_cons]
    exact (hf a List.mem_cons_self b u hb).bind fun b' u' hb' =>
      ih (fun a' ha' => hf a' (List.mem_cons_of_mem a ha')) hb'

/-- After a failure nothing more is done. -/
theorem Lockstep.attempt_bind {ε : Type} {x : Attempt (ClassPathHost ρ × ρ) ε α}
    {x' : Attempt (ClassPathHost ρ' × ρ') ε α} {f : α → Attempt (ClassPathHost ρ × ρ) ε β}
    {f' : α → Attempt (ClassPathHost ρ' × ρ') ε β} {P : Except ε α → Universe → Prop}
    {Q : Except ε β → Universe → Prop} (hx : T.Lockstep x.result x'.result u P)
    (hf : ∀ a u', P (.ok a) u' → T.Lockstep (f a).result (f' a).result u' Q)
    (he : ∀ e u', P (.error e) u' → Q (.error e) u') :
    T.Lockstep (x >>= f).result (x' >>= f').result u Q := by
  refine Attempt.alike_bind hx (fun a s s' hs => ?_) fun e s s' hs => ?_
  · obtain ⟨u', hs', hP⟩ := hs
    exact hf a u' hP s s' hs'
  · obtain ⟨u', hs', hP⟩ := hs
    exact ⟨u', hs', he e u' hP⟩

end HostPair

/-! ### Classes as they were loaded -/

section Fresh

variable {asked : LoaderId → String → Bytes → Prop} {dealt dealt' : Nat → Prop} {u : Universe}

/-- The classes are there as they were loaded, but for some that have been dealt with. -/
structure Universe.Fresh (asked : LoaderId → String → Bytes → Prop) (dealt : Nat → Prop)
    (u : Universe) : Prop where
  numbered : u.Numbered
  bytes : ∀ (i : Nat) (d : Defined), u.classes[i]? = some d → ¬ dealt i →
    asked d.loaded.loader d.loaded.name d.bytes

namespace Universe

theorem Fresh.mono (hf : Fresh asked dealt u) (hsub : ∀ i, dealt i → dealt' i) :
    Fresh asked dealt' u :=
  ⟨hf.numbered, fun i d hd hi => hf.bytes i d hd fun hi₀ => hi (hsub i hi₀)⟩

/-- Definitions of classes that have been dealt with may be replaced. -/
theorem Fresh.redefine (hf : Fresh asked dealt u) {ds : List ClassDefinition}
    (hds : ∀ d ∈ ds, dealt d.target.id) {u' : Universe} (hu' : u.redefine ds = .ok u') :
    Fresh asked dealt u' := by
  obtain ⟨-, rfl⟩ := redefine_eq_ok hu'
  refine ⟨?_, ?_⟩
  · intro i d hd
    have hloaded := loaded_foldl_replace u ds i
    rw [hd, Option.map_some] at hloaded
    obtain ⟨d₀, hd₀, he⟩ := Option.map_eq_some_iff.1 hloaded.symm
    rw [← he]
    exact hf.numbered i d₀ hd₀
  · intro i d hd hi
    -- what has not been dealt with is in no definition
    have hne : ∀ e ∈ ds, e.target.id ≠ i := by
      rintro e he rfl
      exact hi (hds e he)
    rw [getElem?_foldl_replace_of_ne hne] at hd
    exact hf.bytes i d hd hi

/-- A class that is defined has been dealt with, or it has the bytes that are asked. -/
theorem Fresh.define (hf : Fresh asked dealt u) {name : String} {loader : LoaderId}
    {bytes : Bytes} (hget : u.get? name loader = none)
    (hnew : dealt u.classes.size ∨ asked loader name bytes) :
    Fresh asked dealt (u.define name loader bytes).2 := by
  refine ⟨hf.numbered.define hget, ?_⟩
  intro i d hd hi
  rw [classes_define hget, Array.getElem?_push] at hd
  by_cases hlast : i = u.classes.size
  · rw [if_pos hlast] at hd
    cases hd
    rcases hnew with hdealt | hasked
    · exact absurd (hlast ▸ hdealt) hi
    · exact hasked
  · rw [if_neg hlast] at hd
    exact hf.bytes i d hd hi

end Universe

end Fresh

variable {ρ ρ' : Type} {T : HostPair ρ ρ'} {t : Transformer ρ} {t' : Transformer ρ'}
  {asked : LoaderId → String → Bytes → Prop} {dealt : Nat → Prop} {u : Universe}

open Universe (Fresh)

/-! ### Redefining -/

theorem ClassPathHost.redefine_lockstep (T : HostPair ρ ρ') (hf : Fresh asked dealt u)
    {ds : List ClassDefinition} (hds : ∀ d ∈ ds, dealt d.target.id) :
    T.Lockstep (instrumentation.redefine ds) (instrumentation.redefine ds) u
      fun _ u' => Fresh asked dealt u' := by
  rintro ⟨h, r⟩ ⟨h', r'⟩ hs
  obtain rfl : h = _ := hs.fst_eq
  obtain rfl : h' = _ := hs.fst_eq'
  refine (Redefinition.redefine_ensures ⟨T.path, u, T.hooks⟩ r ds).imp fun a s h =>
    (Redefinition.redefine_ensures ⟨T.path, u, T.hooks'⟩ r' ds).imp fun a' s' h' => ?_
  -- whether the definitions are taken depends on the classes
  obtain ⟨rfl, ⟨u₁, hu₁, rfl, hs₁⟩ | ⟨e, he, rfl, hs₁⟩⟩ := h
  · obtain ⟨rfl, ⟨u₂, hu₂, rfl, hs₂⟩ | ⟨e', he', -, -⟩⟩ := h'
    · obtain rfl : u₁ = u₂ := Except.ok.inj (hu₁.symm.trans hu₂)
      exact ⟨rfl, u₁, ⟨hs₁, hs₂, hs.related⟩, hf.redefine hds hu₁⟩
    · cases hu₁.symm.trans he'
  · obtain ⟨rfl, ⟨u₂, hu₂, -, -⟩ | ⟨e', he', rfl, hs₂⟩⟩ := h'
    · cases he.symm.trans hu₂
    · obtain rfl : e' = e := Except.error.inj (he'.symm.trans he)
      exact ⟨rfl, u, ⟨hs₁, hs₂, hs.related⟩, hf⟩

namespace Redefinition

variable {opts : RedefineOptions} {p : Progress}

/-- Looking at a class that has not been dealt with leaves the classes alone and comes to one
finding. -/
theorem inspect_lockstep (ht : t.Alike t' T.beside asked) (hf : Fresh asked dealt u) {d : Defined}
    (hd : u.classes[d.loaded.id]? = some d) (hfresh : ¬ dealt d.loaded.id) :
    T.Lockstep (inspect ClassPathHost.instrumentation (ClassPathHost.lift t) d.loaded)
      (inspect ClassPathHost.instrumentation (ClassPathHost.lift t') d.loaded) u
      fun _ u' => u' = u := by
  have hasked := hf.bytes _ d hd hfresh
  have hread : T.Lockstep (ClassPathHost.instrumentation.classBytes d.loaded)
      (ClassPathHost.instrumentation.classBytes d.loaded) u
      fun found u' => found = .ok (some d.bytes) ∧ u' = u := by
    refine HostPair.lockstep_gets T
      (fun u => (.ok (u.bytesOf d.loaded) : Except ReadError (Option Bytes))) ⟨?_, rfl⟩
    rw [Universe.bytesOf_of_getElem? hd]
  rw [inspect, inspect]
  refine (HostPair.lockstep_snd (ht.accepts d.loaded.name d.loaded.loader) u).bind ?_
  rintro accepted u' rfl
  cases accepted with
  | false => exact HostPair.lockstep_pure T _ rfl
  | true =>
    refine hread.bind ?_
    rintro found u' ⟨rfl, rfl⟩
    cases hb : d.bytes with
    | nil =>
      exact Act.report_bind_alike _ _ _ (HostPair.lockstep_pure T Finding.unreadable rfl)
    | cons b bs =>
      rw [hb] at hasked
      have happly := ht.apply ⟨d.loaded.loader, d.loaded.name, some d.loaded, b :: bs⟩ hasked
      refine (HostPair.lockstep_snd happly u').bind ?_
      rintro v u'' rfl
      cases v with
      | none => exact HostPair.lockstep_pure T Finding.unchanged rfl
      | some edited => exact HostPair.lockstep_pure T (Finding.edited edited) rfl

/-- What has been dealt with stays so, and what is pending has been dealt with. -/
structure Advanced (before p : Progress) : Prop where
  done : ∀ i ∈ before.done, i ∈ p.done
  pending : ∀ e ∈ p.pending, e.target.id ∈ p.done

/-- Looking at a class that has not been dealt with is an advance, whatever is found. -/
theorem Advanced.after {before : Progress} (hp : Advanced before p) {c : LoadedClass}
    (hfresh : c.id ∉ p.done) (f : Finding) : Advanced before (p.after opts c f) := by
  constructor
  · intro i hi
    refine mem_done_after.2 ⟨Or.inr (hp.done i hi), fun _ _ he => ?_⟩
    exact hfresh (he ▸ hp.done i hi)
  · intro e he
    rw [pending_after, List.mem_append] at he
    rcases he with he | he
    · -- pending before, so not the class that was looked at
      refine mem_done_after.2 ⟨Or.inr (hp.pending e he), fun _ _ heq => ?_⟩
      exact hfresh (heq ▸ hp.pending e he)
    · cases f with
      | edited bytes =>
        cases List.mem_singleton.1 he
        refine mem_done_after.2 ⟨Or.inl rfl, ?_⟩
        rintro ⟨⟩
      | declined => exact absurd he List.not_mem_nil
      | unreadable => exact absurd he List.not_mem_nil
      | unchanged => exact absurd he List.not_mem_nil

theorem consider_lockstep (ht : t.Alike t' T.beside asked) {before : Progress}
    (hf : Fresh asked (· ∈ before.done) u) (hp : Advanced before p) {d : Defined}
    (hd : u.classes[d.loaded.id]? = some d) :
    T.Lockstep (consider ClassPathHost.instrumentation (ClassPathHost.lift t) opts p d.loaded)
      (consider ClassPathHost.instrumentation (ClassPathHost.lift t') opts p d.loaded) u
      fun p' u' => Advanced before p' ∧ u' = u := by
  rw [consider_eq, consider_eq]
  by_cases hskip : (d.loaded.isArray || p.done.contains d.loaded.id) = true
  · rw [if_pos hskip, if_pos hskip]
    exact HostPair.lockstep_pure T p ⟨hp, rfl⟩
  · rw [if_neg hskip, if_neg hskip]
    rw [Bool.or_eq_true, not_or, List.contains_iff_mem] at hskip
    have hlook := inspect_lockstep ht (hf.mono hp.done) hd hskip.2
    exact hlook.map (p.after opts d.loaded) fun f u' hu => ⟨hp.after hskip.2 f, hu⟩

theorem collect_lockstep (ht : t.Alike t' T.beside asked)
    (hf : Fresh asked (· ∈ p.done) u) (hp : p.pending = []) :
    T.Lockstep (collect ClassPathHost.instrumentation (ClassPathHost.lift t) opts p)
      (collect ClassPathHost.instrumentation (ClassPathHost.lift t') opts p) u
      fun p' u' => Advanced p p' ∧ u' = u := by
  have hstart : Advanced p p := by
    refine ⟨fun _ hi => hi, fun e he => ?_⟩
    rw [hp] at he
    cases he
  rw [collect, collect]
  refine (HostPair.lockstep_gets (P := fun cs u' => cs = u.loadedClasses ∧ u' = u) T
    Universe.loadedClasses ⟨rfl, rfl⟩).bind ?_
  rintro classes u' ⟨rfl, rfl⟩
  refine HostPair.lockstep_foldlM (Q := fun p' u'' => Advanced p p' ∧ u'' = u') ?_ ⟨hstart, rfl⟩
  rintro c hc p' _ ⟨hp', rfl⟩
  obtain ⟨d, hd, rfl⟩ := List.mem_map.1 hc
  obtain ⟨i, hi⟩ := List.mem_iff_getElem?.1 hd
  rw [Array.getElem?_toList] at hi
  have hid : d.loaded.id = i := hf.numbered i d hi
  subst hid
  exact consider_lockstep ht hf hp' hi

theorem submitEach_lockstep (T : HostPair ρ ρ') {edits : List ClassDefinition}
    (hedits : ∀ e ∈ edits, dealt e.target.id) (hf : Fresh asked dealt u)
    (report : RedefineReport) :
    T.Lockstep (submitEach ClassPathHost.instrumentation edits report)
      (submitEach ClassPathHost.instrumentation edits report) u
      fun _ u' => Fresh asked dealt u' := by
  induction edits generalizing report u with
  | nil => exact HostPair.lockstep_pure T report hf
  | cons e edits ih =>
    have hrest := fun (u' : Universe) (hf' : Fresh asked dealt u') report' =>
      ih (fun e' he' => hedits e' (List.mem_cons_of_mem e he')) hf' report'
    have hone : ∀ e' ∈ [e], dealt e'.target.id := by
      intro e' he'
      rw [List.mem_singleton.1 he']
      exact hedits e List.mem_cons_self
    rw [submitEach, submitEach]
    refine Act.report_bind_alike _ _ _ ?_
    refine (ClassPathHost.redefine_lockstep T hf hone).bind fun r u' hf' => ?_
    cases r with
    | ok _ => exact hrest u' hf' _
    | error e => exact Act.report_bind_alike _ _ _ (hrest u' hf' _)

theorem submit_lockstep (T : HostPair ρ ρ') {edits : List ClassDefinition}
    (hedits : ∀ e ∈ edits, dealt e.target.id) (hf : Fresh asked dealt u)
    (report : RedefineReport) :
    T.Lockstep (submit ClassPathHost.instrumentation opts edits report)
      (submit ClassPathHost.instrumentation opts edits report) u
      fun _ u' => Fresh asked dealt u' := by
  rw [submit, submit]
  by_cases hv : opts.verbose = true
  · rw [if_pos hv, if_pos hv]
    exact (submitEach_lockstep T hedits hf report).bind fun report' u' hf' =>
      HostPair.lockstep_pure T _ hf'
  · rw [if_neg hv, if_neg hv]
    refine (ClassPathHost.redefine_lockstep T hf hedits).bind fun r u' hf' => ?_
    cases r with
    | ok _ => exact HostPair.lockstep_pure T _ hf'
    | error e => exact HostPair.lockstep_pure T _ hf'

theorem passes_lockstep (ht : t.Alike t' T.beside asked) (limit pass : Nat)
    (report : RedefineReport) (hf : Fresh asked (· ∈ p.done) u) (hp : p.pending = []) :
    T.Lockstep
      (passes ClassPathHost.instrumentation (ClassPathHost.lift t) opts limit pass p report)
      (passes ClassPathHost.instrumentation (ClassPathHost.lift t') opts limit pass p report) u
      fun _ u' => Fresh asked (fun _ => True) u' := by
  induction limit generalizing pass p report u with
  | zero => exact HostPair.lockstep_pure T _ (hf.mono fun _ _ => trivial)
  | succ limit ih =>
    rw [passes, passes]
    refine Act.report_bind_alike _ _ _ ?_
    refine (collect_lockstep ht hf hp).bind ?_
    rintro p' u' ⟨hadvanced, rfl⟩
    have hf' := hf.mono hadvanced.done
    by_cases hempty : p'.pending.isEmpty = true
    · rw [if_pos hempty, if_pos hempty]
      exact Act.report_bind_alike _ _ _
        (HostPair.lockstep_pure T _ (hf'.mono fun _ _ => trivial))
    · rw [if_neg hempty, if_neg hempty]
      refine Act.report_bind_alike _ _ _ ?_
      refine (submit_lockstep T hadvanced.pending hf' _).bind fun r u₁ hf₁ => ?_
      cases r with
      | error e => exact HostPair.lockstep_pure T _ (hf₁.mono fun _ _ => trivial)
      | ok report' => exact ih (pass + 1) report' hf₁ rfl

/-- **Runs with transformers that answer alike do one thing to the classes.** -/
theorem run_lockstep (ht : t.Alike t' T.beside asked) (opts : RedefineOptions)
    (hf : Fresh asked (fun _ => False) u) :
    T.Lockstep (run ClassPathHost.instrumentation (ClassPathHost.lift t) opts)
      (run ClassPathHost.instrumentation (ClassPathHost.lift t') opts) u
      fun _ u' => Fresh asked (fun _ => True) u' := by
  rw [run, run]
  refine (HostPair.lockstep_gets (P := fun _ u' => u' = u) T (fun u => u.size + 1) rfl).bind ?_
  rintro limit _ rfl
  exact passes_lockstep ht limit 1 {} (hf.mono fun _ hi => hi.elim) rfl

end Redefinition

/-! ### Loading -/

namespace ClassPathHost

variable {hooks : List (Transformer ρ)} {hooks' : List (Transformer ρ')} {K : ρ → ρ' → Prop}

/-- At most one transformer is registered with each of two hosts, and the two answer alike. -/
inductive Single (K : ρ → ρ' → Prop) (asked : LoaderId → String → Bytes → Prop) :
    List (Transformer ρ) → List (Transformer ρ') → Prop where
  | none : Single K asked [] []
  | one {t : Transformer ρ} {t' : Transformer ρ'} (ht : t.Alike t' K asked) :
    Single K asked [t] [t']

theorem applyHooks_alike (hhooks : Single K asked hooks hooks') {name : String}
    {loader : LoaderId} {bytes : Bytes} (hasked : asked loader name bytes) :
    (applyHooks hooks name loader bytes).Alike (applyHooks hooks' name loader bytes) K
      fun _ => K := by
  cases hhooks with
  | none => exact Act.alike_pure bytes fun _ _ hK => hK
  | one ht =>
    intro r r' hK
    obtain ⟨hvalue, hK'⟩ := ht.apply ⟨loader, name, none, bytes⟩ hasked r r' hK
    exact ⟨congrArg (fun out => out.getD bytes) hvalue, hK'⟩

/-- Loading does one thing to the classes. Without transformers the class that is loaded is there as
the class path has it. -/
theorem loadClass_lockstep (hhooks : Single T.beside asked T.hooks T.hooks')
    (hf : Fresh asked dealt u) (hnew : T.hooks = [] ∨ ∀ i, dealt i) {name : String}
    {loader : LoaderId} (hasked : ∀ found, T.path.find name loader = .ok (some found) →
      asked found.1 name found.2) :
    T.Lockstep (loadClass name loader).result (loadClass name loader).result u
      fun _ u' => Fresh asked dealt u' := by
  obtain ⟨path, hooks, hooks', K⟩ := T
  rintro ⟨h, r⟩ ⟨h', r'⟩ hs
  obtain rfl : h = _ := hs.fst_eq
  obtain rfl : h' = _ := hs.fst_eq'
  rw [loadClass, loadClass]
  simp only [Attempt.ensures_result, Attempt.ensures_bind, Attempt.ensures_act, Act.ensures_gets]
  cases hfind : path.find name loader with
  | error cause => exact ⟨rfl, u, hs, hf⟩
  | ok found =>
    cases found with
    | none => exact ⟨rfl, u, hs, hf⟩
    | some found =>
      obtain ⟨defining, bytes⟩ := found
      cases hget : u.get? name defining with
      | some c =>
        simp only [hget]
        exact ⟨rfl, u, hs, hf⟩
      | none =>
        simp only [hget, Attempt.ensures_bind, Attempt.ensures_act, Act.ensures_zoom]
        have hbytes : asked defining name bytes := hasked _ hfind
        obtain ⟨hvalue, hK'⟩ := applyHooks_alike hhooks hbytes r r' hs.related
        refine ⟨?_, _, ⟨rfl, ?_, hK'⟩, hf.define hget ?_⟩
        · exact congrArg (fun v => Except.ok (u.define name defining v).1) hvalue
        · exact congrArg (fun v => ClassPathHost.mk path (u.define name defining v).2 hooks') hvalue
        · rcases hnew with rfl | hall
          · exact Or.inr hbytes
          · exact Or.inl (hall _)

/-- So does loading a list of classes one by one. -/
theorem loadEach_lockstep (hhooks : Single T.beside asked T.hooks T.hooks')
    (hnew : T.hooks = [] ∨ ∀ i, dealt i) {classes : List (String × LoaderId)}
    (hasked : ∀ c ∈ classes, ∀ found, T.path.find c.1 c.2 = .ok (some found) →
      asked found.1 c.1 found.2) (hf : Fresh asked dealt u) :
    T.Lockstep (loadEach classes).result (loadEach classes).result u
      fun _ u' => Fresh asked dealt u' := by
  induction classes generalizing u with
  | nil => exact HostPair.lockstep_pure T (Except.ok (0 : Nat) : Except LoadError Nat) hf
  | cons c classes ih =>
    have hload := loadClass_lockstep hhooks hf hnew (hasked c List.mem_cons_self)
    have hrest := fun (u' : Universe) (hf' : Fresh asked dealt u') =>
      ih (fun c' hc' => hasked c' (List.mem_cons_of_mem c hc')) hf'
    rw [loadEach, loadEach]
    refine hload.attempt_bind (fun _ u' hf' => ?_) fun _ _ hf' => hf'
    exact (hrest u' hf').attempt_bind (fun _ u'' hf'' => HostPair.lockstep_pure T _ hf'')
      fun _ _ hf'' => hf''

/-- And so does loading a list of classes when failures are passed over. -/
theorem loads_lockstep (hhooks : Single T.beside asked T.hooks T.hooks')
    (hnew : T.hooks = [] ∨ ∀ i, dealt i) {classes : List (String × LoaderId)}
    (hasked : ∀ c ∈ classes, ∀ found, T.path.find c.1 c.2 = .ok (some found) →
      asked found.1 c.1 found.2) (hf : Fresh asked dealt u) {s : ClassPathHost ρ × ρ}
    {s' : ClassPathHost ρ' × ρ'} (hs : T.At u s s') :
    ∃ u', T.At u' (loads classes s) (loads classes s') ∧ Fresh asked dealt u' := by
  induction classes generalizing u s s' with
  | nil => exact ⟨u, hs, hf⟩
  | cons c classes ih =>
    obtain ⟨-, u', hs', hf'⟩ :=
      loadClass_lockstep hhooks hf hnew (hasked c List.mem_cons_self) s s' hs
    exact ih (fun c' hc' => hasked c' (List.mem_cons_of_mem c hc')) hf' hs'

end ClassPathHost

namespace Agent

open ClassPathHost (Single)

variable {path : ClassPath} {K : ρ → ρ' → Prop}

/-- Two hosts of a class path have loaded the same classes, and with each of them at most one
transformer has been registered. -/
def Installed (path : ClassPath) (K : ρ → ρ' → Prop)
    (asked : LoaderId → String → Bytes → Prop) (s : ClassPathHost ρ × ρ)
    (s' : ClassPathHost ρ' × ρ') : Prop :=
  ∃ hooks hooks' u, Single K asked hooks hooks' ∧ (HostPair.mk path hooks hooks' K).At u s s' ∧
    Fresh asked (fun _ => True) u

theorem install_lockstep (ht : t.Alike t' K asked) (opts : RedefineOptions)
    (hf : Fresh asked (fun _ => False) u) :
    (install ClassPathHost.instrumentation ClassPathHost.lift opts [t]).Alike
      (install ClassPathHost.instrumentation ClassPathHost.lift opts [t'])
      ((HostPair.mk path [] [] K).At u) fun _ => Installed path K asked := by
  have hrun := Redefinition.run_lockstep (T := ⟨path, [], [], K⟩) ht opts hf
  rw [install, install]
  refine Act.Alike.bind hrun fun result => ?_
  cases result with
  | error e =>
    refine Act.alike_pure _ fun s s' hs => ?_
    obtain ⟨u', hat, hf'⟩ := hs
    exact ⟨[], [], u', .none, hat, hf'⟩
  | ok report =>
    have hregister : Act.Alike (ClassPathHost.instrumentation.addTransformer t)
        (ClassPathHost.instrumentation.addTransformer t')
        (fun s s' => ∃ u', (HostPair.mk path [] [] K).At u' s s' ∧ Fresh asked (fun _ => True) u')
        fun _ => Installed path K asked := by
      rintro ⟨h, r⟩ ⟨h', r'⟩ ⟨u', hat, hf'⟩
      obtain rfl : h = _ := hat.fst_eq
      obtain rfl : h' = _ := hat.fst_eq'
      exact ⟨rfl, [t], [t'], u', .one ht, ⟨rfl, rfl, hat.related⟩, hf'⟩
    exact hregister.bind fun _ => Act.alike_pure _ fun _ _ hs => hs

/-- **Agents with one transformer each, which answer alike, do one thing to the classes.** -/
theorem go_lockstep (ht : t.Alike t' K asked) {agent : Agent (Transformer ρ)}
    {agent' : Agent (Transformer ρ')} (hname : agent'.name = agent.name)
    (hversion : agent'.version = agent.version) (hoptions : agent'.options = agent.options)
    (hagent : agent.transformers = [t]) (hagent' : agent'.transformers = [t'])
    (hf : Fresh asked (fun _ => False) u) :
    (agent.go ClassPathHost.instrumentation ClassPathHost.lift).Alike
      (agent'.go ClassPathHost.instrumentation ClassPathHost.lift)
      ((HostPair.mk path [] [] K).At u) fun _ => Installed path K asked := by
  rw [go, go, hagent, hagent', hname, hversion, hoptions]
  refine Act.Alike.within _ (Act.report_bind_alike _ _ _ ?_)
  refine (install_lockstep ht agent.options hf).bind fun result => ?_
  cases result with
  | error e => exact Act.alike_pure _ fun _ _ hs => hs
  | ok reports => exact Act.report_bind_alike _ _ _ (Act.alike_pure _ fun _ _ hs => hs)

end Agent

end Reclass
