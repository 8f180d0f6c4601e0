import Mathlib.Data.List.Dedup
import Mathlib.Data.List.Perm.Subperm
import Reclass.Proofs.Redefinition.Ledger

/-!
# Runs come to an end

A host can load classes whenever it is handed a batch, and classes that had no bytes may be looked
at again, so neither the loaded classes nor those dealt with say how many passes are left. What
runs out are the identities of which no definition has been submitted: each pass but the last
submits a class, and none is submitted twice. A run on a host that shows `n` identities in its
first `n + 1` passes has therefore come to its end by then, and a larger limit on the passes makes
no difference to it (`Redefinition.run_converges`).
-/

set_option autoImplicit false

namespace Reclass

/-- The host with another limit on the passes of a run. -/
def Instrumentation.allowing {σ τ : Type} (host : Instrumentation σ τ) (limit : Nat) :
    Instrumentation σ τ :=
  { host with passLimit := pure limit }

namespace Redefinition

variable {σ τ : Type}

/-- The identities of the classes, arrays apart, that were loaded in some pass; each once. -/
def identitiesOf (records : List PassRecord) : List Nat :=
  (((listedOf records).filter fun c => !c.isArray).map LoadedClass.id).dedup

/-- The passes that submitted something. -/
def busyPasses (records : List PassRecord) : List PassRecord :=
  records.filter fun r => r.submitted ≠ []

/-- How the passes end that start with pass number `pass` and are at most `limit`. -/
inductive Ends : (limit pass : Nat) → Except RedefinitionError RedefineReport → List PassRecord →
    Prop
  | exhausted (pass : Nat) : Ends 0 pass (.error (.unsettled (pass - 1))) []
  | settled {limit pass : Nat} {report : RedefineReport} {r : PassRecord}
      (hpass : report.passes = pass) (hr : r.submitted = []) :
      Ends (limit + 1) pass (.ok report) [r]
  | rejected {limit pass size : Nat} {e : RedefinitionError} {r : PassRecord}
      (hr : r.submitted ≠ []) : Ends (limit + 1) pass (.error (.batch size e)) [r]
  | next {limit pass : Nat} {result : Except RedefinitionError RedefineReport} {r : PassRecord}
      {records : List PassRecord} (hr : r.submitted ≠ [])
      (hrest : Ends limit (pass + 1) result records) :
      Ends (limit + 1) pass result (r :: records)

theorem busyPasses_cons_of_ne_nil {r : PassRecord} {records : List PassRecord}
    (hr : r.submitted ≠ []) : busyPasses (r :: records) = r :: busyPasses records := by
  rw [busyPasses, List.filter_cons_of_pos (by simpa using hr)]
  rfl

namespace Ends

variable {limit pass : Nat} {result : Except RedefinitionError RedefineReport}
  {records : List PassRecord}

/-- All passes but the last have submitted something. -/
theorem length_le (h : Ends limit pass result records) :
    records.length ≤ (busyPasses records).length + 1 := by
  induction h with
  | exhausted pass => exact Nat.zero_le _
  | settled hpass hr => exact Nat.le_add_left 1 _
  | rejected hr => exact Nat.le_add_left 1 _
  | next hr hrest ih =>
    rw [busyPasses_cons_of_ne_nil hr]
    exact Nat.succ_le_succ ih

/-- When the limit cuts a run short, each pass has submitted something. -/
theorem limit_le_of_unsettled (h : Ends limit pass result records) {count : Nat}
    (hresult : result = .error (.unsettled count)) : limit ≤ (busyPasses records).length := by
  induction h with
  | exhausted pass => exact Nat.zero_le _
  | settled hpass hr => cases hresult
  | rejected hr => cases hresult
  | next hr hrest ih =>
    rw [busyPasses_cons_of_ne_nil hr]
    exact Nat.succ_le_succ (ih hresult)

/-- A run that comes to its end by itself reports a last pass that submitted nothing. -/
theorem passes_eq (h : Ends limit pass result records) {report : RedefineReport}
    (hresult : result = .ok report) : report.passes = pass + (busyPasses records).length ∧
      records.length = (busyPasses records).length + 1 := by
  induction h with
  | exhausted pass => cases hresult
  | settled hpass hr =>
    cases hresult
    rw [busyPasses, List.filter_cons_of_neg (by simpa using hr)]
    exact ⟨hpass, rfl⟩
  | rejected hr => cases hresult
  | next hr hrest ih =>
    obtain ⟨hpasses, hlength⟩ := ih hresult
    rw [busyPasses_cons_of_ne_nil hr, hpasses, List.length_cons, List.length_cons, hlength]
    exact ⟨by omega, rfl⟩

end Ends

section Run

variable (host : Instrumentation σ τ) (t : Transformer σ) (opts : RedefineOptions)

/-- Submitting fails with a whole batch. -/
theorem submit_fails (edits : List ClassDefinition) (report : RedefineReport) (s : σ) :
    (submit host opts edits report).Ensures s fun r _ =>
      ∀ e, r = .error e → ∃ size cause, e = .batch size cause := by
  rw [submit]
  by_cases hv : opts.verbose = true
  · rw [if_pos hv, Act.ensures_bind]
    refine Act.Ensures.of_forall fun report' s' => ?_
    rw [Act.ensures_pure]
    rintro _ ⟨⟩
  · rw [if_neg hv, Act.ensures_bind]
    refine Act.Ensures.of_forall fun r s' => ?_
    cases r with
    | ok _ =>
      rw [Act.ensures_pure]
      rintro _ ⟨⟩
    | error cause =>
      rw [Act.ensures_pure]
      rintro _ ⟨⟩
      exact ⟨_, _, rfl⟩

theorem submitNoting_ends (edits : List ClassDefinition) (report : RedefineReport) (s : σ) :
    (submitNoting host opts edits report).Ensures s fun r _ =>
      r.2.flatten = edits ∧ ∀ e, r.1 = .error e → ∃ size cause, e = .batch size cause :=
  ⟨submitNoting_ensures host opts edits report s, submit_fails host.noting opts edits report (s, [])⟩

theorem passesNoting_ends (limit pass : Nat) (p : Progress) (report : RedefineReport) (s : σ) :
    (passesNoting host t opts limit pass p report).Ensures s fun r _ =>
      Ends limit pass r.1 r.2 := by
  induction limit generalizing pass p report s with
  | zero =>
    rw [passesNoting, Act.ensures_pure]
    exact .exhausted pass
  | succ limit ih =>
    rw [passesNoting]
    simp only [Act.ensures_bind, Act.ensures_report]
    refine Act.Ensures.of_forall fun r s' => ?_
    obtain ⟨p', listed, findings⟩ := r
    by_cases hempty : p'.pending.isEmpty = true
    · rw [if_pos hempty]
      simp only [Act.ensures_bind, Act.ensures_report, Act.ensures_pure]
      exact .settled rfl rfl
    · rw [if_neg hempty]
      simp only [Act.ensures_bind, Act.ensures_report]
      refine (submitNoting_ends host opts p'.pending _ s').imp fun r s'' h => ?_
      obtain ⟨result, batches⟩ := r
      obtain ⟨hflatten, hfails⟩ := h
      have hbusy : PassRecord.submitted ⟨listed, findings, batches⟩ ≠ [] := by
        intro hnil
        rw [← hflatten, List.isEmpty_iff] at hempty
        exact hempty hnil
      cases result with
      | error e =>
        obtain ⟨size, cause, rfl⟩ := hfails e rfl
        rw [Act.ensures_pure]
        exact .rejected hbusy
      | ok report' =>
        rw [Act.ensures_bind]
        refine (ih (pass + 1) _ report' s'').imp fun r _ hr => ?_
        exact .next hbusy hr

/-- A run that does not come to its limit is the same under every larger limit. -/
theorem passesNoting_add (extra limit pass : Nat) (p : Progress) (report : RedefineReport) (s : σ)
    (h : ∀ count, ((passesNoting host t opts limit pass p report).run s).value.1 ≠
      .error (.unsettled count)) :
    (passesNoting host t opts (limit + extra) pass p report).run s =
      (passesNoting host t opts limit pass p report).run s := by
  induction limit generalizing pass p report s with
  | zero => exact absurd rfl (h (pass - 1))
  | succ limit ih =>
    rw [Nat.succ_add]
    simp only [passesNoting, Act.run_bind] at h ⊢
    generalize (collectNoting host t opts p).run _ = collected at h ⊢
    obtain ⟨⟨p', listed, findings⟩, s', events⟩ := collected
    by_cases hempty : p'.pending.isEmpty = true
    · simp only [if_pos hempty]
    · simp only [if_neg hempty, Act.run_bind] at h ⊢
      generalize (submitNoting host opts p'.pending _).run _ = sent at h ⊢
      obtain ⟨⟨result, batches⟩, s'', events'⟩ := sent
      cases result with
      | error e => rfl
      | ok report' =>
        simp only [Act.run_bind] at h ⊢
        rw [ih (pass + 1) _ report' s'' h]

/-! The limit of the host is looked at when a run starts, and never again. -/

theorem submitEach_allowing (k : Nat) (edits : List ClassDefinition) (report : RedefineReport) :
    submitEach (host.allowing k) edits report = submitEach host edits report := by
  induction edits generalizing report with
  | nil => rfl
  | cons edit edits ih =>
    refine bind_congr fun _ => bind_congr fun r => ?_
    cases r with
    | ok _ => exact ih _
    | error e => exact bind_congr fun _ => ih _

theorem submitNoting_allowing (k : Nat) (edits : List ClassDefinition) (report : RedefineReport) :
    submitNoting (host.allowing k) opts edits report = submitNoting host opts edits report := by
  have hsubmit : submit (host.allowing k).noting opts edits report =
      submit host.noting opts edits report := by
    rw [submit, submit]
    by_cases hv : opts.verbose = true
    · rw [if_pos hv, if_pos hv, ← submitEach_allowing host.noting k]
      rfl
    · rw [if_neg hv, if_neg hv]
      rfl
  funext s
  simp only [submitNoting, hsubmit]

theorem passesNoting_allowing (k limit pass : Nat) (p : Progress) (report : RedefineReport) :
    passesNoting (host.allowing k) t opts limit pass p report =
      passesNoting host t opts limit pass p report := by
  induction limit generalizing pass p report with
  | zero => rfl
  | succ limit ih =>
    refine bind_congr fun _ => bind_congr fun r => ?_
    simp only [submitNoting_allowing, ih]

theorem runNoting_allowing (limit : Nat) :
    runNoting (host.allowing limit) t opts = passesNoting host t opts limit 1 {} {} :=
  passesNoting_allowing host t opts limit limit 1 {} {}

end Run

/-- A pass that submitted something submitted a definition of its own. -/
theorem length_busyPasses_le (records : List PassRecord) :
    (busyPasses records).length ≤ (submittedOf records).length := by
  induction records with
  | nil => exact Nat.le_refl 0
  | cons r records ih =>
    rw [submittedOf, List.flatMap_cons, List.length_append]
    by_cases hr : r.submitted = []
    · rw [busyPasses, List.filter_cons_of_neg (by simpa using hr)]
      exact Nat.le_add_left_of_le ih
    · rw [busyPasses_cons_of_ne_nil hr, List.length_cons, Nat.add_comm]
      exact Nat.add_le_add (List.length_pos_iff.2 hr) ih

/-- Each submission uses up one of the identities that the host has shown. -/
theorem Balanced.length_submitted_le {records : List PassRecord} {p : Progress}
    (h : Balanced records p) : (submittedOf records).length ≤ (identitiesOf records).length := by
  have hsubset : ((submittedOf records).map fun d => d.target.id) ⊆ identitiesOf records := by
    intro i hi
    obtain ⟨d, hd, rfl⟩ := List.mem_map.1 hi
    have hfound := h.ledger.mem_findings_of_mem_sent hd
    have harray := h.ledger.noArray _ hfound
    rw [identitiesOf, List.mem_dedup]
    refine List.mem_map_of_mem (List.mem_filter.2 ⟨h.listed _ hfound, ?_⟩)
    rw [harray, Bool.not_false]
  have hlength := (List.Nodup.subperm h.ledger.submitted_once hsubset).length_le
  rwa [List.length_map] at hlength

/-- **A run on a host that shows few classes ends after few passes.**

When the host shows at most `n` identities of classes other than arrays in the first `n + 1`
passes, whatever it answers and loads meanwhile and whatever the transformer does, then any limit
that allows for these passes leads to one and the same outcome. It is not that the limit was
reached: there are at most `n + 1` passes, and a run without failure reports one pass more than
those that submitted definitions. -/
theorem run_converges (host : Instrumentation σ τ) (t : Transformer σ) (opts : RedefineOptions)
    (s : σ) (n : Nat)
    (hshown : (identitiesOf ((runNoting (host.allowing (n + 1)) t opts).run s).value.2).length ≤ n)
    (limit : Nat) (hlimit : n < limit) :
    let noted := (runNoting (host.allowing limit) t opts).run s
    let records := noted.value.2
    noted = (runNoting (host.allowing (n + 1)) t opts).run s ∧
      (run (host.allowing limit) t opts).run s = ⟨noted.value.1, noted.state, noted.events⟩ ∧
      (∀ count, noted.value.1 ≠ .error (.unsettled count)) ∧
      records.length ≤ n + 1 ∧
      ∀ report, noted.value.1 = .ok report →
        report.passes = records.length ∧ report.passes = (busyPasses records).length + 1 := by
  intro noted records
  rw [runNoting_allowing] at hshown
  have hends : (passesNoting host t opts (n + 1) 1 {} {}).Ensures s fun r _ =>
      Ends (n + 1) 1 r.1 r.2 := passesNoting_ends host t opts (n + 1) 1 {} {} s
  have hstart : Balanced [] {} := ⟨rfl, Ledger.start, fun c hc => absurd hc List.not_mem_nil⟩
  have hsettles : (passesNoting host t opts (n + 1) 1 {} {}).Ensures s fun r _ =>
      Settles r.1 ([] ++ r.2) := passesNoting_ensures host t opts (n + 1) 1 {} hstart s
  obtain ⟨p, hbalanced, -⟩ := hsettles
  -- each pass that submits something uses up an identity
  have hbusy := Nat.le_trans (length_busyPasses_le _)
    (Nat.le_trans hbalanced.length_submitted_le hshown)
  have hsettled : ∀ count, ((passesNoting host t opts (n + 1) 1 {} {}).run s).value.1 ≠
      .error (.unsettled count) := by
    intro count hcount
    have hcut := hends.limit_le_of_unsettled hcount
    exact Nat.not_succ_le_self n (Nat.le_trans hcut hbusy)
  obtain ⟨extra, rfl⟩ : ∃ extra, limit = n + 1 + extra := ⟨limit - (n + 1), by omega⟩
  have hsame : noted = (passesNoting host t opts (n + 1) 1 {} {}).run s := by
    rw [← passesNoting_add host t opts extra (n + 1) 1 {} {} s hsettled, ← runNoting_allowing]
  have hrecords : records = ((passesNoting host t opts (n + 1) 1 {} {}).run s).value.2 :=
    congrArg (fun o => o.value.2) hsame
  refine ⟨?_, run_eq_runNoting _ t opts s, ?_, ?_, fun report hreport => ?_⟩
  · rw [hsame, runNoting_allowing]
  · rw [hsame]
    exact hsettled
  · rw [hrecords]
    exact Nat.le_trans hends.length_le (Nat.succ_le_succ hbusy)
  · rw [hsame] at hreport
    obtain ⟨hpasses, hlength⟩ := hends.passes_eq hreport
    rw [hrecords, hpasses, hlength]
    exact ⟨Nat.add_comm _ _, Nat.add_comm _ _⟩

/-- One class, and another that comes up when it is redefined. -/
def pairHost : MemoryHost where
  classes := #[⟨"p/A", ⟨1⟩, .ok (some (ClassSketch.new "p/A").encode)⟩]
  reveals := [("p/A", "p/B")]

/-- Two classes that come up one after the other take three passes, under the limit of the host as
under any other that allows for them. -/
theorem run_converges_pair :
    let host : Instrumentation (MemoryHost × Unit) Unit := MemoryHost.instrumentation
    let noted := (runNoting (host.allowing MemoryHost.maxPasses) addMethod {}).run (pairHost, ())
    (∀ count, noted.value.1 ≠ .error (.unsettled count)) ∧ noted.value.2.length ≤ 3 ∧
      ∃ report, noted.value.1 = .ok report ∧ report.passes = 3 ∧
        report.passes = (busyPasses noted.value.2).length + 1 := by
  intro host noted
  have hshown : (identitiesOf ((runNoting (host.allowing 3) addMethod {}).run
      (pairHost, ())).value.2).length ≤ 2 := by decide +kernel
  have hlimit : 2 < MemoryHost.maxPasses := by decide
  obtain ⟨hsame, -, hsettled, hlength, hpasses⟩ :=
    run_converges host addMethod {} (pairHost, ()) 2 hshown MemoryHost.maxPasses hlimit
  have hvalue : ((runNoting (host.allowing 3) addMethod {}).run (pairHost, ())).value.1 =
      .ok { passes := 3, transformed := 2, redefined := 2 } := by decide +kernel
  have hreport := (congrArg (fun o => o.value.1) hsame).trans hvalue
  exact ⟨hsettled, hlength, _, hreport, rfl, (hpasses _ hreport).2⟩

end Redefinition

end Reclass
