import Reclass.Proofs.ClassPath.History
import Reclass.Proofs.Redefinition.Failure

/-!
# Batch mode and verbose mode

When a transformer is a function of the request, the definitions that a run over a class path host
submits are known beforehand: one for each class in the order of loading that is no array, is
accepted, has bytes and is edited (`ClassPathHost.editsFor`). Batch mode has all of them checked
before it puts one in place, and verbose mode has each checked after those before it have been put in
place; what the check says is the same. So verbose mode applies those that are accepted and names
the others, and batch mode does the same thing when there are no others
(`ClassPathHost.verbose_agrees_with_batch`).
-/

set_option autoImplicit false

namespace Reclass

variable {ρ : Type}

/-- The transformer is a function of the request. -/
structure Transformer.Answers (t : Transformer ρ) (eligible : String → LoaderId → Bool)
    (result : TransformRequest → Option Bytes) : Prop where
  accepts : ∀ name loader r, (t.accepts name loader).Ensures r fun v _ => v = eligible name loader
  apply : ∀ request r, (t.apply request).Ensures r fun v _ => v = result request

namespace Universe

variable {u : Universe} {d : Defined} {i : Nat}

theorem Numbered.nodup_ids (h : u.Numbered) : (u.loadedClasses.map LoadedClass.id).Nodup := by
  have hrange : u.loadedClasses.map LoadedClass.id = List.range u.size := by
    apply List.ext_getElem?
    intro i
    rw [loadedClasses, size, List.map_map, List.getElem?_map, Array.getElem?_toList]
    by_cases hi : i < u.classes.size
    · have hd := h i _ (Array.getElem?_eq_getElem hi)
      rw [Array.getElem?_eq_getElem hi, List.getElem?_range hi]
      exact congrArg some hd
    · rw [Array.getElem?_eq_none (Nat.le_of_not_lt hi),
        List.getElem?_eq_none (by rw [List.length_range]; exact Nat.le_of_not_lt hi)]
      rfl
  rw [hrange]
  exact List.nodup_range

theorem Numbered.getElem?_of_mem (h : u.Numbered) {c : LoadedClass} (hc : c ∈ u.loadedClasses) :
    ∃ d, u.classes[c.id]? = some d ∧ d.loaded = c := by
  obtain ⟨d, hd, rfl⟩ := List.mem_map.1 hc
  obtain ⟨i, hi⟩ := List.mem_iff_getElem?.1 hd
  rw [Array.getElem?_toList] at hi
  have hid : d.loaded.id = i := h i d hi
  subst hid
  exact ⟨d, hi, rfl⟩

/-- Whether a definition would be put in place. -/
def takes (u : Universe) (e : ClassDefinition) : Bool := (u.check e).isOk

theorem takes_iff {e : ClassDefinition} : u.takes e = true ↔ u.check e = .ok () := by
  unfold takes
  cases u.check e with
  | ok _ => exact iff_of_true rfl rfl
  | error _ => exact iff_of_false Bool.false_ne_true (by rintro ⟨⟩)

end Universe

namespace ClassPathHost

variable {eligible : String → LoaderId → Bool} {result : TransformRequest → Option Bytes}

section Edits

variable (u : Universe) (eligible : String → LoaderId → Bool)
  (result : TransformRequest → Option Bytes)

/-- What becomes of a loaded class when it is looked at. -/
def findingFor (c : LoadedClass) : Redefinition.Finding :=
  if !eligible c.name c.loader then .declined
  else match (u.bytesOf c).getD [] with
    | [] => .unreadable
    | b :: bs =>
      match result { loader := c.loader, className := c.name, redefining := some c,
                     bytes := b :: bs } with
      | some bytes => .edited bytes
      | none => .unchanged

/-- The new definition of a loaded class, if there is one. -/
def editFor (c : LoadedClass) : Option ClassDefinition :=
  if c.isArray then none else (findingFor u eligible result c).edit? c

/-- The new definitions of the loaded classes, in the order of loading. -/
def editsFor : List ClassDefinition := u.loadedClasses.filterMap (editFor u eligible result)

/-- A class after its new definition has been submitted by itself. -/
def settled (d : Defined) : Defined :=
  match editFor u eligible result d.loaded with
  | some e =>
    if u.takes e then { d with bytes := e.bytes, redefinitions := d.redefinitions + 1 } else d
  | none => d

end Edits

theorem target_of_editFor {u : Universe} {c : LoadedClass} {e : ClassDefinition}
    (h : editFor u eligible result c = some e) : e.target = c := by
  unfold editFor at h
  by_cases hc : c.isArray = true
  · rw [if_pos hc] at h
    cases h
  · rw [if_neg hc] at h
    cases hf : findingFor u eligible result c with
    | edited bytes =>
      rw [hf] at h
      cases h
      rfl
    | declined =>
      rw [hf] at h
      cases h
    | unreadable =>
      rw [hf] at h
      cases h
    | unchanged =>
      rw [hf] at h
      cases h

theorem mem_editsFor {u : Universe} {e : ClassDefinition} (h : e ∈ editsFor u eligible result) :
    e.target ∈ u.loadedClasses ∧ editFor u eligible result e.target = some e := by
  obtain ⟨c, hc, he⟩ := List.mem_filterMap.1 h
  obtain rfl := target_of_editFor he
  exact ⟨hc, he⟩

/-- There is one definition at most for each class. -/
theorem editsFor_sublist (u : Universe) (cs : List LoadedClass) :
    ((cs.filterMap (editFor u eligible result)).map fun e => e.target.id).Sublist
      (cs.map LoadedClass.id) := by
  induction cs with
  | nil => exact List.Sublist.slnil
  | cons c cs ih =>
    cases he : editFor u eligible result c with
    | none =>
      rw [List.filterMap_cons_none he]
      exact ih.cons c.id
    | some e =>
      rw [List.filterMap_cons_some he, List.map_cons, List.map_cons, target_of_editFor he]
      exact ih.cons_cons c.id

/-- The accepted definitions change each class by itself. -/
theorem foldl_replace_accepted {u : Universe} (hu : u.Numbered) :
    ((editsFor u eligible result).filter u.takes).foldl Universe.replace u =
      { u with classes := u.classes.map (settled u eligible result) } := by
  have hnodup : (((editsFor u eligible result).filter u.takes).map fun e => e.target.id).Nodup :=
    (hu.nodup_ids.sublist (editsFor_sublist u u.loadedClasses)).sublist
      ((List.filter_sublist).map _)
  have hclasses : (((editsFor u eligible result).filter u.takes).foldl Universe.replace u).classes =
      u.classes.map (settled u eligible result) := by
    apply Array.ext_getElem?
    intro i
    rw [Array.getElem?_map]
    cases hd : u.classes[i]? with
    | none =>
      have hnone := Universe.loaded_foldl_replace u ((editsFor u eligible result).filter u.takes) i
      rw [hd, Option.map_none, Option.map_eq_none_iff] at hnone
      exact hnone
    | some d =>
      obtain rfl := hu i d hd
      -- the definition of this class is the only one that is about its place
      have hof : ∀ e ∈ editsFor u eligible result, e.target.id = d.loaded.id →
          editFor u eligible result d.loaded = some e := by
        intro e he hid
        obtain ⟨hmem, hedit⟩ := mem_editsFor he
        obtain ⟨d', hd', htarget⟩ := hu.getElem?_of_mem hmem
        rw [hid, hd] at hd'
        cases hd'
        rw [htarget]
        exact hedit
      rw [Option.map_some, settled]
      cases he : editFor u eligible result d.loaded with
      | none =>
        rw [Universe.getElem?_foldl_replace_of_ne, hd]
        intro e hmem hid
        have hsome := hof e (List.mem_filter.1 hmem).1 hid
        rw [he] at hsome
        cases hsome
      | some e =>
        have htarget := target_of_editFor he
        have hmem : e ∈ editsFor u eligible result := by
          refine List.mem_filterMap.2 ⟨d.loaded, ?_, he⟩
          exact List.mem_map_of_mem (Array.mem_toList_iff.2 (Array.mem_of_getElem? hd))
        by_cases htakes : u.takes e = true
        · have hnew := Universe.getElem?_foldl_replace_of_mem (u := u)
            (List.mem_filter.2 ⟨hmem, htakes⟩) hnodup
          rw [htarget, hd] at hnew
          rw [hnew]
          simp only [if_pos htakes, Option.map_some]
        · rw [Universe.getElem?_foldl_replace_of_ne, hd]
          · simp only [if_neg htakes]
          · intro e' hmem' hid
            obtain ⟨hmem', htakes'⟩ := List.mem_filter.1 hmem'
            have hsome := hof e' hmem' hid
            rw [he] at hsome
            cases hsome
            exact htakes htakes'
  have hindex := Universe.index_foldl_replace u ((editsFor u eligible result).filter u.takes)
  calc ((editsFor u eligible result).filter u.takes).foldl Universe.replace u
      = ⟨(((editsFor u eligible result).filter u.takes).foldl Universe.replace u).classes,
          (((editsFor u eligible result).filter u.takes).foldl Universe.replace u).index⟩ := rfl
    _ = { u with classes := u.classes.map (settled u eligible result) } := by rw [hclasses, hindex]

end ClassPathHost

namespace Redefinition

open ClassPathHost

section Run

variable {t : Transformer ρ} {eligible : String → LoaderId → Bool}
  {result : TransformRequest → Option Bytes} {opts : RedefineOptions} {host : ClassPathHost ρ}

theorem inspect_answers (ht : t.Answers eligible result) (c : LoadedClass) (r : ρ) :
    (inspect instrumentation (lift t) c).Ensures (host, r) fun f s' =>
      f = findingFor host.loaded eligible result c ∧ s'.1 = host := by
  rw [inspect, findingFor, Act.ensures_bind]
  show ((lift t).accepts c.name c.loader).Ensures (host, r) _
  rw [lift, Transformer.zoom, Act.ensures_zoom]
  refine (ht.accepts c.name c.loader r).imp fun accepted r' haccepted => ?_
  rw [haccepted]
  by_cases heligible : (!eligible c.name c.loader) = true
  · rw [if_pos heligible, if_pos heligible]
    exact ⟨rfl, rfl⟩
  · rw [if_neg heligible, if_neg heligible, Act.ensures_bind]
    refine (ensures_classBytes c host r').2 ?_
    cases hbytes : host.loaded.bytesOf c with
    | none => exact ⟨rfl, rfl⟩
    | some bytes =>
      cases bytes with
      | nil => exact ⟨rfl, rfl⟩
      | cons b bs =>
        simp only [Option.getD_some, Act.ensures_bind, Act.ensures_zoom]
        refine (ht.apply _ r').imp fun edited r'' hedited => ?_
        rw [hedited]
        cases result _ with
        | none => exact ⟨rfl, rfl⟩
        | some bytes => exact ⟨rfl, rfl⟩

/-- The first pass finds the definitions that are known beforehand. -/
theorem collect_answers (ht : t.Answers eligible result) (hn : host.loaded.Numbered) (r : ρ) :
    (collect instrumentation (lift t) opts {}).Ensures (host, r) fun p _ =>
      p.pending = editsFor host.loaded eligible result := by
  -- in a list without repetition no class has been dealt with before it is looked at
  let I : List LoadedClass → Progress → ClassPathHost ρ × ρ → Prop := fun seen p s =>
    s.1 = host ∧ ((seen.map LoadedClass.id).Nodup →
      p.pending = seen.filterMap (editFor host.loaded eligible result) ∧
        ∀ i ∈ p.done, i ∈ seen.map LoadedClass.id)
  have hstep : ∀ c ∈ host.loaded.loadedClasses, ∀ seen p s, I seen p s →
      (consider instrumentation (lift t) opts p c).Ensures s (I (seen ++ [c])) := by
    rintro c - seen p ⟨host', r'⟩ ⟨hhost, hseen⟩
    obtain rfl : host' = host := hhost
    rw [consider_eq]
    by_cases hskip : (c.isArray || p.done.contains c.id) = true
    · rw [if_pos hskip]
      refine ⟨rfl, fun hnodup => ?_⟩
      rw [List.map_append, List.nodup_append] at hnodup
      obtain ⟨hpending, hdone⟩ := hseen hnodup.1
      rw [Bool.or_eq_true, List.contains_iff_mem] at hskip
      have harray : c.isArray = true := by
        refine hskip.resolve_right fun hin => ?_
        exact hnodup.2.2 c.id (hdone c.id hin) c.id (List.mem_singleton.2 rfl) rfl
      have hnone : editFor host'.loaded eligible result c = none := by rw [editFor, if_pos harray]
      rw [List.filterMap_append, List.filterMap_cons_none hnone, List.filterMap_nil,
        List.append_nil, List.map_append]
      exact ⟨hpending, fun i hi => List.mem_append_left _ (hdone i hi)⟩
    · rw [if_neg hskip, map_eq_pure_bind, Act.ensures_bind]
      rw [Bool.or_eq_true, not_or] at hskip
      refine (inspect_answers ht c r').imp fun f s' h => ?_
      obtain ⟨rfl, hhost⟩ := h
      rw [Act.ensures_pure]
      refine ⟨hhost, fun hnodup => ?_⟩
      rw [List.map_append, List.nodup_append] at hnodup
      obtain ⟨hpending, hdone⟩ := hseen hnodup.1
      refine ⟨?_, fun i hi => ?_⟩
      · have hedit : editFor host'.loaded eligible result c =
            (findingFor host'.loaded eligible result c).edit? c := if_neg hskip.1
        rw [pending_after, hpending, List.filterMap_append, List.filterMap_cons, hedit]
        cases (findingFor host'.loaded eligible result c).edit? c with
        | none => rfl
        | some e => rfl
      · rw [List.map_append, List.mem_append]
        rcases (mem_done_after.1 hi).1 with rfl | hi
        · exact Or.inr (List.mem_singleton.2 rfl)
        · exact Or.inl (hdone i hi)
  have hstart : I [] {} (host, r) := ⟨rfl, fun _ => ⟨rfl, fun _ hi => absurd hi List.not_mem_nil⟩⟩
  have hall : (collect instrumentation (lift t) opts {}).Ensures (host, r)
      (I host.loaded.loadedClasses) := Act.ensures_foldlM hstep hstart
  exact hall.imp fun p s' h => (h.2 hn.nodup_ids).1

/-- One at a time, the definitions that are accepted are put in place and the others are named. -/
theorem submitEach_takes {u : Universe} (edits : List ClassDefinition) (report : RedefineReport)
    (host : ClassPathHost ρ) (hu : ∀ e, host.loaded.takes e = u.takes e) (r : ρ) :
    (submitEach instrumentation edits report).Ensures (host, r) fun report' s' =>
      report' = { report with
        redefined := report.redefined + (edits.filter u.takes).length
        failed := report.failed ++ (edits.filter fun e => !u.takes e).map fun e =>
          ClassName.qualified e.target.name } ∧
      s' = ({ host with loaded := (edits.filter u.takes).foldl Universe.replace host.loaded }, r) := by
  induction edits generalizing report host with
  | nil =>
    rw [submitEach, Act.ensures_pure, List.filter_nil, List.filter_nil, List.map_nil,
      List.append_nil]
    exact ⟨rfl, rfl⟩
  | cons e edits ih =>
    rw [submitEach]
    simp only [Act.ensures_bind, Act.ensures_report]
    refine (redefine_ensures host r [e]).imp fun res s' h => ?_
    obtain ⟨host', r'⟩ := s'
    obtain ⟨hr, ⟨u', hredefine, rfl, hhost⟩ | ⟨cause, hredefine, rfl, hhost⟩⟩ := h
    · obtain rfl : r' = r := hr
      obtain rfl : host' = { host with loaded := u' } := hhost
      obtain ⟨hcheck, rfl⟩ := Universe.redefine_eq_ok hredefine
      have htakes : u.takes e = true := by
        rw [← hu]
        exact Universe.takes_iff.2 (hcheck e (List.mem_singleton.2 rfl))
      have hkept : ∀ e', (host.loaded.replace e).takes e' = u.takes e' := by
        intro e'
        rw [← hu, Universe.takes, Universe.takes]
        exact congrArg _ (Universe.check_foldl_replace host.loaded [e] e')
      refine (ih _ { host with loaded := host.loaded.replace e } hkept).imp fun report' s'' h => ?_
      obtain ⟨rfl, rfl⟩ := h
      have hnot : ¬ (!u.takes e) = true := by simp [htakes]
      rw [List.filter_cons_of_pos htakes, List.filter_cons_of_neg (p := fun e => !u.takes e) hnot,
        List.length_cons]
      refine ⟨?_, rfl⟩
      simp only [Nat.add_assoc, Nat.add_comm 1]
    · obtain rfl : r' = r := hr
      obtain rfl : host' = host := hhost
      have htakes : ¬ u.takes e = true := by
        intro htakes
        rw [← hu] at htakes
        have hcheck : ∀ e' ∈ [e], host'.loaded.check e' = .ok () := by
          rw [List.forall_mem_singleton]
          exact Universe.takes_iff.1 htakes
        rw [Universe.redefine_of_check hcheck] at hredefine
        cases hredefine
      simp only [Act.ensures_bind, Act.ensures_report]
      refine (ih _ host' hu).imp fun report' s'' h => ?_
      obtain ⟨rfl, rfl⟩ := h
      have hnot : (!u.takes e) = true := by simpa using htakes
      rw [List.filter_cons_of_neg htakes, List.filter_cons_of_pos (p := fun e => !u.takes e) hnot]
      simp only [List.map_cons, List.append_assoc, List.cons_append, List.nil_append, true_and]

/-- Which classes come up in a pass does not depend on the mode. -/
theorem collect_verbose {σ τ : Type} (host : Instrumentation σ τ) (t : Transformer σ)
    (verbose retry : Bool) (p : Progress) :
    collect host t ⟨verbose, retry⟩ p = collect host t ⟨false, retry⟩ p := rfl

/-- A pass that finds nothing is the last one, in either mode. -/
theorem passes_of_nothing {σ τ : Type} {host : Instrumentation σ τ} {t : Transformer σ}
    {retry : Bool} {p p' : Progress} {s s' : σ} (verbose : Bool)
    (hcollect : (collect host t ⟨false, retry⟩ p).Ensures s fun q s₁ => q = p' ∧ s₁ = s')
    (hnothing : p'.pending = []) (limit pass : Nat) (report : RedefineReport) :
    (passes host t ⟨verbose, retry⟩ (limit + 1) pass p report).Ensures s fun res s₁ =>
      res = .ok { report with passes := pass, unreadable := p'.unreadable } ∧ s₁ = s' := by
  rw [passes]
  simp only [Act.ensures_bind, Act.ensures_report]
  rw [collect_verbose]
  refine hcollect.imp fun q s₁ h => ?_
  obtain ⟨rfl, rfl⟩ := h
  rw [hnothing, List.isEmpty_nil, if_pos rfl]
  simp only [Act.ensures_bind, Act.ensures_report, Act.ensures_pure, and_self]

/-- A run whose first pass finds something submits it, and goes on from there. -/
theorem run_of_pending {retry : Bool} {r r₁ : ρ} {p : Progress} (verbose : Bool)
    (hcollect : (collect instrumentation (lift t) ⟨false, retry⟩ {}).Ensures (host, r)
      fun q s' => q = p ∧ s' = (host, r₁))
    (hpending : p.pending ≠ [])
    {Q : Except RedefinitionError RedefineReport → ClassPathHost ρ × ρ → Prop}
    (hsubmit : (submit instrumentation ⟨verbose, retry⟩ p.pending
      { passes := 1, transformed := p.pending.length, unreadable := p.unreadable }).Ensures
        (host, r₁) fun res s' => match res with
          | .error e => Q (.error e) s'
          | .ok report => (passes instrumentation (lift t) ⟨verbose, retry⟩ host.loaded.size 2
              { p with pending := [] } report).Ensures s' Q) :
    (run instrumentation (lift t) ⟨verbose, retry⟩).Ensures (host, r) Q := by
  rw [run, Act.ensures_bind]
  show Act.Ensures (Act.gets fun s => s.1.loaded.size + 1) (host, r) _
  rw [Act.ensures_gets, passes]
  simp only [Act.ensures_bind, Act.ensures_report]
  rw [collect_verbose]
  refine hcollect.imp fun q s' h => ?_
  obtain ⟨rfl, rfl⟩ := h
  rw [if_neg (mt List.isEmpty_iff.1 hpending)]
  simp only [Act.ensures_bind, Act.ensures_report, Nat.zero_add]
  refine hsubmit.imp fun res s' h => ?_
  cases res with
  | error e => exact h
  | ok report => exact h

/-- What the two modes come to. -/
theorem run_modes (ht : t.Answers eligible result) (hn : host.loaded.Numbered) (retry : Bool)
    (r : ρ) :
    let u := host.loaded
    let edits := editsFor u eligible result
    let accepted := edits.filter u.takes
    let rejected := edits.filter fun e => !u.takes e
    ∃ report r', report.transformed = edits.length ∧ report.redefined = accepted.length ∧
      report.failed = (rejected.map fun e => ClassName.qualified e.target.name) ∧
      (run instrumentation (lift t) ⟨true, retry⟩).Ensures (host, r) (fun res s' =>
        res = .ok report ∧ s' = ({ host with loaded := accepted.foldl Universe.replace u }, r')) ∧
      (run instrumentation (lift t) ⟨false, retry⟩).Ensures (host, r) fun res s' =>
        (rejected = [] ∧ res = .ok report ∧
          s' = ({ host with loaded := accepted.foldl Universe.replace u }, r')) ∨
        (rejected ≠ [] ∧ ∃ e, res = .error e) := by
  intro u edits accepted rejected
  have hanswers : (collect instrumentation (lift t) ⟨false, retry⟩ {}).Ensures (host, r)
      fun p _ => p.pending = edits := collect_answers ht hn r
  have hsurvey := collect_survey t ⟨false, retry⟩ (p := {}) rfl host r
  obtain ⟨p, s₁, hcollect, hpending, hhost, hsurveyed⟩ : ∃ p s₁,
      (collect instrumentation (lift t) ⟨false, retry⟩ {}).Ensures (host, r)
        (fun q s' => q = p ∧ s' = s₁) ∧ p.pending = edits ∧ s₁.1 = host ∧
          Surveyed u [] u.loadedClasses p :=
    ⟨_, _, ⟨rfl, rfl⟩, hanswers, hsurvey⟩
  obtain ⟨host', r₁⟩ := s₁
  obtain rfl : host = host' := hhost.symm
  by_cases hempty : edits = []
  · -- there is one pass, which finds nothing
    have haccepted : accepted = [] := by simp only [accepted, hempty, List.filter_nil]
    have hrejected : rejected = [] := by simp only [rejected, hempty, List.filter_nil]
    have hlast : ∀ verbose, (run instrumentation (lift t) ⟨verbose, retry⟩).Ensures (host, r)
        fun res s' => res = .ok { passes := 1, unreadable := p.unreadable } ∧ s' = (host, r₁) :=
      fun verbose => passes_of_nothing verbose hcollect (hpending.trans hempty) u.size 1 {}
    rw [hempty, haccepted, hrejected]
    exact ⟨_, r₁, rfl, rfl, rfl, hlast true, (hlast false).imp fun _ _ h => Or.inl ⟨rfl, h⟩⟩
  · -- there is a class, so that a second pass is allowed
    obtain ⟨limit, hlimit⟩ : ∃ limit, u.size = limit + 1 := by
      apply Nat.exists_eq_add_one.2
      obtain ⟨e, he⟩ := List.exists_mem_of_ne_nil edits hempty
      have hclasses := List.length_pos_of_mem (mem_editsFor he).1
      rwa [Universe.loadedClasses, List.length_map, Array.length_toList] at hclasses
    let host₂ : ClassPathHost ρ := { host with loaded := accepted.foldl Universe.replace u }
    have hspent : Spent host₂.loaded p.done := by
      refine hsurveyed.spent_foldl fun e he => ?_
      rw [hpending]
      exact (List.mem_filter.1 he).1
    have hsurvey₂ := collect_survey t ⟨false, retry⟩ (p := { p with pending := [] }) rfl host₂ r₁
    obtain ⟨p₂, s₂, hcollect₂, hhost₂, hnothing⟩ : ∃ p₂ s₂,
        (collect instrumentation (lift t) ⟨false, retry⟩ { p with pending := [] }).Ensures
          (host₂, r₁) (fun q s' => q = p₂ ∧ s' = s₂) ∧ s₂.1 = host₂ ∧ p₂.pending = [] :=
      ⟨_, _, ⟨rfl, rfl⟩, hsurvey₂.1, hsurvey₂.2.pending_eq_nil hspent⟩
    obtain ⟨host₂', r₂⟩ := s₂
    obtain rfl : host₂' = host₂ := hhost₂
    have hlast := fun verbose => passes_of_nothing verbose hcollect₂ hnothing limit 2
    have hne : p.pending ≠ [] := by
      rw [hpending]
      exact hempty
    -- what the report says in the end
    let report : RedefineReport := {
      passes := 2
      transformed := edits.length
      redefined := accepted.length
      failed := rejected.map fun e => ClassName.qualified e.target.name
      unreadable := p₂.unreadable }
    refine ⟨report, r₂, rfl, rfl, rfl, ?_, ?_⟩
    · refine run_of_pending true hcollect hne ?_
      rw [hpending, submit, if_pos rfl, Act.ensures_bind]
      refine (submitEach_takes edits _ host (fun _ => rfl) r₁).imp fun report s' h => ?_
      obtain ⟨rfl, rfl⟩ := h
      rw [Act.ensures_pure, hlimit]
      refine Act.Ensures.imp (hlast true _) fun res s' h => ?_
      obtain ⟨rfl, rfl⟩ := h
      simp only [Nat.zero_add, List.nil_append]
      exact ⟨rfl, rfl⟩
    · refine run_of_pending false hcollect hne ?_
      rw [hpending]
      refine (submit_all_or_nothing rfl host r₁ edits _).imp fun res s' h => ?_
      obtain ⟨host', r'⟩ := s'
      obtain ⟨hr, ⟨u', hredefine, rfl, hhost⟩ | ⟨e, hredefine, rfl, hhost⟩⟩ := h
      · -- every definition has been accepted
        obtain rfl : r' = r₁ := hr
        obtain ⟨hcheck, rfl⟩ := Universe.redefine_eq_ok hredefine
        have haccepted : accepted = edits :=
          List.filter_eq_self.2 fun e he => Universe.takes_iff.2 (hcheck e he)
        have hrejected : rejected = [] := by
          refine List.filter_eq_nil_iff.2 fun e he => ?_
          rw [Universe.takes_iff.2 (hcheck e he)]
          exact Bool.false_ne_true
        rw [← haccepted] at hhost
        obtain rfl : host' = host₂ := hhost
        rw [hlimit]
        refine Act.Ensures.imp (hlast false _) fun res s' h => Or.inl ⟨hrejected, ?_⟩
        obtain ⟨rfl, rfl⟩ := h
        refine ⟨?_, rfl⟩
        simp only [Nat.zero_add, report, haccepted, hrejected, List.map_nil]
      · refine Or.inr ⟨fun hrejected => ?_, _, rfl⟩
        -- with none rejected, the whole batch would have been accepted
        have hcheck : ∀ e ∈ edits, host.loaded.check e = .ok () := by
          intro e he
          have htakes := List.filter_eq_nil_iff.1 hrejected e he
          rw [Bool.not_eq_true', Bool.not_eq_false] at htakes
          exact Universe.takes_iff.1 htakes
        rw [Universe.redefine_of_check hcheck] at hredefine
        cases hredefine

end Run

end Redefinition

namespace ClassPathHost

/-- **Batch mode and verbose mode agree.**

Take a host over a class path after any history, with or without another look at unreadable
classes, and a transformer that is a function of the request. Verbose mode ends without failure. It
names the classes whose new definitions the host does not accept, in the order of loading, and puts
the others in place, each once. Batch mode ends without failure just when verbose mode names none,
and then both have the same report and leave the same host. -/
theorem verbose_agrees_with_batch (path : ClassPath) (start : ρ) (history : List (Operation ρ))
    (t : Transformer ρ) (eligible : String → LoaderId → Bool)
    (result : TransformRequest → Option Bytes) (ht : t.Answers eligible result) (retry : Bool) :
    let s := Operation.after history (new path, start)
    let u := s.1.loaded
    let rejected := (editsFor u eligible result).filter fun e => !u.takes e
    let verbose := (Redefinition.run instrumentation (lift t) ⟨true, retry⟩).run s
    let batch := (Redefinition.run instrumentation (lift t) ⟨false, retry⟩).run s
    ∃ report, verbose.value = .ok report ∧
      report.failed = (rejected.map fun e => ClassName.qualified e.target.name) ∧
      verbose.state.1 =
        { s.1 with loaded := { u with classes := u.classes.map (settled u eligible result) } } ∧
      ((∃ report', batch.value = .ok report') ↔ report.failed = []) ∧
      (report.failed = [] → batch.value = .ok report ∧ batch.state = verbose.state) := by
  intro s u rejected verbose batch
  have hn : s.1.loaded.Numbered := (filed_after path start history).numbered
  obtain ⟨report, r', -, -, hfailed, hverbose, hbatch⟩ := Redefinition.run_modes ht hn retry s.2
  obtain ⟨hvalue, hstate⟩ : verbose.value = .ok report ∧ verbose.state = _ := hverbose
  have hnone : report.failed = [] ↔ rejected = [] := by
    rw [hfailed, List.map_eq_nil_iff]
  refine ⟨report, hvalue, hfailed, ?_, ?_, fun hreport => ?_⟩
  · rw [hstate, foldl_replace_accepted hn]
  · rw [hnone]
    rcases hbatch with ⟨hrejected, hok, -⟩ | ⟨hrejected, e, herror⟩
    · exact iff_of_true ⟨report, hok⟩ hrejected
    · refine iff_of_false ?_ hrejected
      rintro ⟨report', hok⟩
      cases hok.symm.trans herror
  · rcases hbatch with ⟨-, hok, hsame⟩ | ⟨hrejected, -⟩
    · exact ⟨hok, hsame.trans hstate.symm⟩
    · exact absurd (hnone.1 hreport) hrejected

/-- What is made of a class: one is turned into a class of another name. -/
def addOrRename (r : TransformRequest) : Option Bytes :=
  let name := if r.className = "p/B" then "p/X" else r.className
  some ((ClassSketch.new name).withMethod "m" "()V").encode

/-- Edits every class but one. -/
def addOrRenameMost : Transformer Unit where
  accepts name _ := pure (name != "p/C")
  apply r := pure (addOrRename r)

def threeClasses : ClassPath :=
  ⟨[⟨"root", .ofList (["p/A", "p/B", "p/C"].map fun name => (name, (ClassSketch.new name).encode))⟩]⟩

/-- Of three classes one is edited, one is to become another class, and one is declined. -/
theorem verbose_agrees_with_batch_rejected_class :
    let s := Operation.after [.loadAll fun _ => false] (new threeClasses, ())
    let verbose := (Redefinition.run instrumentation (lift addOrRenameMost) ⟨true, true⟩).run s
    let batch := (Redefinition.run instrumentation (lift addOrRenameMost) ⟨false, true⟩).run s
    (∃ report, verbose.value = .ok report ∧ report.failed = ["p.B"]) ∧
      (∀ report', batch.value ≠ .ok report') ∧
      verbose.state.1.loaded.classes.toList.map Defined.redefinitions = [1, 0, 0] := by
  have ht : addOrRenameMost.Answers (fun name _ => name != "p/C") addOrRename :=
    ⟨fun _ _ _ => rfl, fun _ _ => rfl⟩
  obtain ⟨report, hvalue, hfailed, hstate, hbatch, -⟩ := verbose_agrees_with_batch threeClasses ()
    [.loadAll fun _ => false] addOrRenameMost _ _ ht true
  have hrejected : report.failed = ["p.B"] := hfailed.trans (by decide +kernel)
  have hcounts := congrArg (fun host : ClassPathHost Unit =>
    host.loaded.classes.toList.map Defined.redefinitions) hstate
  refine ⟨⟨report, hvalue, hrejected⟩, fun report' hok => ?_, hcounts.trans (by decide +kernel)⟩
  have hnone := hbatch.1 ⟨report', hok⟩
  rw [hrejected] at hnone
  cases hnone

end ClassPathHost

end Reclass
