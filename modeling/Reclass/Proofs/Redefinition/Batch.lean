import Reclass.Proofs.ClassPath.History
import Reclass.Proofs.Redefinition.Agreement

/-!
# Redefining a batch of classes

A batch of definitions is checked as a whole before the first one is put in place. Which ones are
acceptable is stated of the loaded classes (`Universe.Accepts`), and so is what is wrong with one
that is not (`Universe.Faulty`). A batch whose definitions are all acceptable is put in place in
order (`Universe.Redefined`): for a class that is named more than once the last definition stays,
and each one counts. Any other batch changes nothing, and the first definition that is not
acceptable is the one reported (`ClassPathHost.redefine_all_or_nothing`).

The check looks a class up at the place that its identity names. In a universe in which every class
has its place as its identity, that is as good as looking for it among all loaded classes.
-/

set_option autoImplicit false

namespace Reclass

namespace Universe

variable {u : Universe} {ds : List ClassDefinition} {d : ClassDefinition} {c : LoadedClass}
  {e : RedefinitionError} {i : Nat}

/-- A definition of a loaded class, with bytes that have a header under the name of that class. -/
structure Accepts (u : Universe) (d : ClassDefinition) : Prop where
  known : d.target ∈ u.loadedClasses
  named : ∃ header, ClassHeader.parse d.bytes = .ok header ∧ header.name = d.target.name

/-- What is wrong with a definition that is not acceptable. -/
inductive Faulty (u : Universe) (d : ClassDefinition) : RedefinitionError → Prop where
  | unknown (h : d.target ∉ u.loadedClasses) : Faulty u d (.unknownClass d.target.name)
  | unreadable (h : d.target ∈ u.loadedClasses) (fault : ClassFormatError)
      (hparse : ClassHeader.parse d.bytes = .error fault) :
      Faulty u d (.rejected d.target.name fault.message)
  | misnamed (h : d.target ∈ u.loadedClasses) (header : ClassHeader)
      (hparse : ClassHeader.parse d.bytes = .ok header) (hne : header.name ≠ d.target.name) :
      Faulty u d (.rejected d.target.name ("bytes define " ++ header.name))

/-- The second universe is the first one with a list of definitions put in place. -/
structure Redefined (u : Universe) (ds : List ClassDefinition) (u' : Universe) : Prop where
  loaded : u'.loadedClasses = u.loadedClasses
  index : u'.index = u.index
  spared : ∀ c ∈ u.loadedClasses, (∀ d ∈ ds, d.target ≠ c) → u'.classes[c.id]? = u.classes[c.id]?
  last : ∀ before d after, ds = before ++ d :: after → (∀ d' ∈ after, d'.target ≠ d.target) →
    u'.bytesOf d.target = some d.bytes
  counted : ∀ c ∈ u.loadedClasses, u'.redefinitionsOf c =
    u.redefinitionsOf c + (ds.map ClassDefinition.target).count c

/-! ### Checking -/

theorem mem_loadedClasses_iff (hu : u.Numbered) :
    c ∈ u.loadedClasses ↔ u.classes[c.id]?.map Defined.loaded = some c := by
  rw [loadedClasses, List.mem_map, Option.map_eq_some_iff]
  constructor
  · rintro ⟨k, hk, rfl⟩
    obtain ⟨i, hi⟩ := Array.mem_iff_getElem?.1 (Array.mem_toList_iff.1 hk)
    rw [hu i k hi]
    exact ⟨k, hi, rfl⟩
  · rintro ⟨k, hk, hc⟩
    exact ⟨k, Array.mem_toList_iff.2 (Array.mem_of_getElem? hk), hc⟩

theorem check_of_unknown (hu : u.Numbered) (h : d.target ∉ u.loadedClasses) :
    u.check d = .error (.unknownClass d.target.name) := by
  rw [mem_loadedClasses_iff hu] at h
  rw [check]
  exact if_pos h

theorem check_of_known (hu : u.Numbered) (h : d.target ∈ u.loadedClasses) :
    u.check d = match ClassHeader.parse d.bytes with
      | .error fault => .error (.rejected d.target.name fault.message)
      | .ok header =>
        if header.name ≠ d.target.name then
          .error (.rejected d.target.name ("bytes define " ++ header.name))
        else .ok () := by
  rw [check]
  exact if_neg (not_not.2 ((mem_loadedClasses_iff hu).1 h))

theorem check_eq_ok_iff (hu : u.Numbered) : u.check d = .ok () ↔ u.Accepts d := by
  by_cases h : d.target ∈ u.loadedClasses
  · rw [check_of_known hu h]
    cases hparse : ClassHeader.parse d.bytes with
    | error fault =>
      refine iff_of_false nofun ?_
      rintro ⟨-, header, hheader, -⟩
      cases hparse.symm.trans hheader
    | ok header =>
      by_cases hname : header.name = d.target.name
      · exact iff_of_true (if_neg (not_not.2 hname)) ⟨h, header, hparse, hname⟩
      · simp only [if_pos hname]
        refine iff_of_false nofun ?_
        rintro ⟨-, header', hheader', hname'⟩
        cases hparse.symm.trans hheader'
        exact hname hname'
  · rw [check_of_unknown hu h]
    exact iff_of_false nofun fun haccepts => h haccepts.known

theorem check_eq_error_iff (hu : u.Numbered) : u.check d = .error e ↔ u.Faulty d e := by
  constructor
  · intro he
    by_cases h : d.target ∈ u.loadedClasses
    · rw [check_of_known hu h] at he
      cases hparse : ClassHeader.parse d.bytes with
      | error fault =>
        rw [hparse] at he
        cases he
        exact .unreadable h fault hparse
      | ok header =>
        simp only [hparse] at he
        by_cases hname : header.name ≠ d.target.name
        · rw [if_pos hname] at he
          cases he
          exact .misnamed h header hparse hname
        · rw [if_neg hname] at he
          cases he
    · rw [check_of_unknown hu h] at he
      cases he
      exact .unknown h
  · intro hfault
    cases hfault with
    | unknown h => exact check_of_unknown hu h
    | unreadable h fault hparse => rw [check_of_known hu h, hparse]
    | misnamed h header hparse hne =>
      rw [check_of_known hu h, hparse]
      exact if_pos hne

theorem forM_check (u : Universe) (ds : List ClassDefinition) :
    ds.forM u.check = (ds.mapM u.check).map fun _ => () := by
  induction ds with
  | nil => rfl
  | cons d ds ih =>
    rw [List.mapM_cons]
    show (u.check d >>= fun _ => ds.forM u.check) = _
    rw [ih]
    cases u.check d with
    | error e => rfl
    | ok v => cases ds.mapM u.check <;> rfl

/-- A batch fails with its first definition that fails. -/
theorem redefine_eq_error_iff (u : Universe) (ds : List ClassDefinition) (e : RedefinitionError) :
    u.redefine ds = .error e ↔ ∃ before d after, ds = before ++ d :: after ∧
      (∀ b ∈ before, u.check b = .ok ()) ∧ u.check d = .error e := by
  have hforM : u.redefine ds = .error e ↔ ds.forM u.check = .error e := by
    rw [redefine, except_bind_eq_error_iff]
    refine or_iff_left ?_
    rintro ⟨_, -, ⟨⟩⟩
  rw [hforM, forM_check, except_map_eq_error_iff, except_mapM_eq_error_iff]
  have hunit (b : ClassDefinition) : (∃ v, u.check b = .ok v) ↔ u.check b = .ok () := by
    constructor
    · rintro ⟨⟨⟩, h⟩
      exact h
    · exact fun h => ⟨(), h⟩
  simp only [hunit]

/-! ### Putting in place -/

/-- Every definition for a place counts. -/
theorem redefinitions_foldl_replace (u : Universe) (ds : List ClassDefinition) (i : Nat) :
    (ds.foldl replace u).classes[i]?.map Defined.redefinitions =
      u.classes[i]?.map fun c => c.redefinitions + (ds.map fun d => d.target.id).count i := by
  induction ds generalizing u with
  | nil => rfl
  | cons d ds ih =>
    rw [List.foldl_cons, ih, getElem?_replace, Option.map_map, List.map_cons, List.count_cons]
    congr 1
    funext c
    by_cases hi : d.target.id = i
    · simp only [Function.comp_apply, hi, beq_self_eq_true, if_true]
      omega
    · simp only [Function.comp_apply, if_neg hi, beq_eq_false_iff_ne.2 hi, Bool.false_eq_true,
        if_false, Nat.add_zero]

/-- The last definition for a place stays. -/
theorem bytes_foldl_replace_of_last {before after : List ClassDefinition}
    (hlast : ∀ d' ∈ after, d'.target.id ≠ d.target.id) :
    ((before ++ d :: after).foldl replace u).classes[d.target.id]?.map Defined.bytes =
      u.classes[d.target.id]?.map fun _ => d.bytes := by
  have hloaded := loaded_foldl_replace u before d.target.id
  rw [List.foldl_append, List.foldl_cons, getElem?_foldl_replace_of_ne hlast, getElem?_replace]
  simp only [if_true, Option.map_map]
  -- whether there is such a place does not depend on what was put in place before
  cases hc : u.classes[d.target.id]? with
  | none =>
    rw [hc, Option.map_none, Option.map_eq_none_iff] at hloaded
    rw [hloaded]
    rfl
  | some c =>
    rw [hc, Option.map_some] at hloaded
    obtain ⟨c', hc', -⟩ := Option.map_eq_some_iff.1 hloaded
    rw [hc']
    rfl

/-- Loaded classes are told apart by their identities. -/
theorem id_eq_iff (hu : u.Numbered) {c c' : LoadedClass} (hc : c ∈ u.loadedClasses)
    (hc' : c' ∈ u.loadedClasses) : c.id = c'.id ↔ c = c' := by
  rw [mem_loadedClasses_iff hu] at hc hc'
  constructor
  · intro hid
    rw [hid] at hc
    exact Option.some.inj (hc.symm.trans hc')
  · rintro rfl
    rfl

theorem count_ids (hu : u.Numbered) (hds : ∀ d ∈ ds, d.target ∈ u.loadedClasses)
    (hc : c ∈ u.loadedClasses) : (ds.map fun d => d.target.id).count c.id =
      (ds.map ClassDefinition.target).count c := by
  induction ds with
  | nil => rfl
  | cons d ds ih =>
    obtain ⟨hd, hds⟩ := List.forall_mem_cons.1 hds
    rw [List.map_cons, List.map_cons, List.count_cons, List.count_cons, ih hds]
    congr 1
    simp only [beq_iff_eq, id_eq_iff hu hd hc]

/-- **Definitions of loaded classes are put in place**, and nothing else is changed. -/
theorem redefined_foldl_replace (hu : u.Numbered)
    (hds : ∀ d ∈ ds, d.target ∈ u.loadedClasses) : u.Redefined ds (ds.foldl replace u) where
  loaded := loadedClasses_foldl_replace u ds
  index := index_foldl_replace u ds
  spared c hc hne := by
    refine getElem?_foldl_replace_of_ne fun d hd hid => hne d hd ?_
    exact (id_eq_iff hu (hds d hd) hc).1 hid
  last := by
    rintro before d after rfl hlast
    obtain ⟨-, hd, hafter⟩ := List.forall_mem_append.1 hds |>.imp_right List.forall_mem_cons.1
    obtain ⟨c, hc, -⟩ := Option.map_eq_some_iff.1 ((mem_loadedClasses_iff hu).1 hd)
    rw [bytesOf, bytes_foldl_replace_of_last, hc]
    · rfl
    · intro d' hd' hid
      exact hlast d' hd' ((id_eq_iff hu (hafter d' hd') hd).1 hid)
  counted c hc := by
    obtain ⟨c₀, hc₀, -⟩ := Option.map_eq_some_iff.1 ((mem_loadedClasses_iff hu).1 hc)
    have hcount := redefinitions_foldl_replace u ds c.id
    rw [hc₀, Option.map_some, count_ids hu hds hc] at hcount
    obtain ⟨c₁, hc₁, hredefinitions⟩ := Option.map_eq_some_iff.1 hcount
    rw [redefinitionsOf, redefinitionsOf, hc₀, hc₁]
    exact hredefinitions

end Universe

namespace ClassPathHost

variable {ρ : Type}

/-- **A batch is put in place as a whole or not at all.** Whatever has been done to a host before, a
batch succeeds exactly if each of its definitions names a loaded class and has a header of that
name. It fails with what is wrong with its first definition that is not acceptable, and then
everything is as it was. When it succeeds, the loaded classes have the definitions in place, and the
rest is as it was. -/
theorem redefine_all_or_nothing (path : ClassPath) (start : ρ) (ops : List (Operation ρ))
    (ds : List ClassDefinition) :
    let s := Operation.after ops (new path, start)
    let u := s.1.loaded
    (instrumentation.redefine ds).Ensures s fun r s' =>
      (r = .ok () ↔ ∀ d ∈ ds, u.Accepts d) ∧
      (∀ e, r = .error e ↔ ∃ before d after, ds = before ++ d :: after ∧
        (∀ b ∈ before, u.Accepts b) ∧ u.Faulty d e) ∧
      (∀ e, r = .error e → s' = s) ∧
      (r = .ok () → s' = ({ s.1 with loaded := s'.1.loaded }, s.2) ∧
        u.Redefined ds s'.1.loaded) := by
  intro s u
  have hu : u.Numbered := (filed_after path start ops).numbered
  have haccepts : (∀ d ∈ ds, u.check d = .ok ()) ↔ ∀ d ∈ ds, u.Accepts d :=
    forall₂_congr fun _ _ => Universe.check_eq_ok_iff hu
  have hfaulty : ∀ e, u.redefine ds = .error e ↔ ∃ before d after, ds = before ++ d :: after ∧
      (∀ b ∈ before, u.Accepts b) ∧ u.Faulty d e := by
    intro e
    simp only [Universe.redefine_eq_error_iff, Universe.check_eq_ok_iff hu,
      Universe.check_eq_error_iff hu]
  refine (Redefinition.redefine_ensures s.1 s.2 ds).imp fun r s' h => ?_
  obtain ⟨hsource, ⟨u', hred, rfl, hhost⟩ | ⟨e, hred, rfl, hhost⟩⟩ := h
  · obtain ⟨hcheck, rfl⟩ := Universe.redefine_eq_ok hred
    have hds : ∀ d ∈ ds, u.Accepts d := haccepts.1 hcheck
    refine ⟨iff_of_true rfl hds, fun e' => ?_, nofun, fun _ => ⟨?_, ?_⟩⟩
    · rw [← hfaulty e', hred]
      exact iff_of_false nofun nofun
    · rw [hhost]
      exact Prod.ext hhost hsource
    · rw [hhost]
      exact Universe.redefined_foldl_replace hu fun d hd => (hds d hd).known
  · refine ⟨iff_of_false nofun fun hds => ?_, fun e' => ?_, fun _ _ => ?_, nofun⟩
    · cases hred.symm.trans (Universe.redefine_of_check (haccepts.2 hds))
    · rw [Except.error.injEq, ← hfaulty e', hred, Except.error.injEq]
    · exact Prod.ext hhost hsource

/-- A class is named twice in a batch that is put in place, and the same batch with a definition
more that names another class changes nothing. -/
theorem redefine_all_or_nothing_repeated_class :
    let a : ClassSketch := ClassSketch.new "p/A"
    let b : ClassSketch := ClassSketch.new "p/B"
    let s := Operation.after [.loadAll fun _ => false] ((new ⟨[⟨"root",
      .ofList [("p/A", a.encode), ("p/B", b.encode)]⟩]⟩ : ClassPathHost Unit), ())
    let first : ClassDefinition := ⟨⟨0, "p/A", ⟨1⟩⟩, (a.withMethod "m" "()V").encode⟩
    let second : ClassDefinition := ⟨⟨0, "p/A", ⟨1⟩⟩, (a.withMethod "n" "()V").encode⟩
    let misnamed : ClassDefinition := ⟨⟨1, "p/B", ⟨1⟩⟩, a.encode⟩
    (instrumentation.redefine [first, second]).Ensures s (fun r s' => r = .ok () ∧
        s'.1.loaded.bytesOf first.target = some second.bytes ∧
        s'.1.loaded.redefinitionsOf first.target = 2) ∧
      (instrumentation.redefine [first, second, misnamed]).Ensures s fun r s' =>
        r = .error (.rejected "p/B" "bytes define p/A") ∧ s' = s := by
  intro a b s first second misnamed
  let path : ClassPath := ⟨[⟨"root", .ofList [("p/A", a.encode), ("p/B", b.encode)]⟩]⟩
  have hloaded : s.1.loaded.loadedClasses = [first.target, misnamed.target] := by decide +kernel
  have hparse : ∀ d ∈ [first, second, misnamed], ∃ header,
      ClassHeader.parse d.bytes = .ok header ∧ header.name = "p/A" := by
    intro d hd
    refine (except_map_eq_ok_iff ClassHeader.name _ _).1 ?_
    revert d
    decide +kernel
  have haccepts : ∀ d ∈ [first, second], s.1.loaded.Accepts d := by
    intro d hd
    have htarget : d.target = first.target := by
      revert d
      decide
    refine ⟨?_, ?_⟩
    · rw [htarget, hloaded]
      exact List.mem_cons_self
    · rw [htarget]
      exact hparse d (List.mem_append_left [misnamed] hd)
  constructor
  · refine (redefine_all_or_nothing path () [.loadAll fun _ => false] [first, second]).imp
      fun r s' h => ?_
    have hr : r = .ok () := h.1.2 haccepts
    have hredefined := (h.2.2.2 hr).2
    refine ⟨hr, hredefined.last [first] second [] rfl nofun, ?_⟩
    rw [hredefined.counted first.target (haccepts first List.mem_cons_self).known]
    decide +kernel
  · refine (redefine_all_or_nothing path () [.loadAll fun _ => false]
      [first, second, misnamed]).imp fun r s' h => ?_
    have hmisnamed : misnamed.target ∈ s.1.loaded.loadedClasses := by
      rw [hloaded]
      exact List.mem_cons_of_mem _ List.mem_cons_self
    obtain ⟨header, hheader, hname⟩ := hparse misnamed (by simp)
    have hfaulty := Universe.Faulty.misnamed hmisnamed header hheader (by rw [hname]; decide)
    rw [hname] at hfaulty
    have hr := (h.2.1 _).2 ⟨[first, second], misnamed, [], rfl, haccepts, hfaulty⟩
    exact ⟨hr, h.2.2.1 _ hr⟩

end ClassPathHost

end Reclass
