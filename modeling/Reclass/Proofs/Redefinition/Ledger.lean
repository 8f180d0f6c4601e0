import Mathlib.Data.List.Nodup
import Reclass.ClassFile.Builder
import Reclass.Proofs.Redefinition.Record
import Reclass.Redefinition.Memory

/-!
# The ledger of a redefinition run

The findings of a run and the definitions that it has submitted are kept in balance by a ledger
(`Redefinition.Ledger`): what was edited was submitted or is pending, each class is settled by one
finding at most, and a class without bytes is listed as unreadable. Looking at one more class
keeps the balance, whatever the transformer and the host answer (`Ledger.look`), so at the end of
a run no class has been submitted twice and none is missing (`run_settles`).
-/

set_option autoImplicit false

namespace Reclass.Redefinition

variable {σ τ : Type}

/-- The definitions that findings lead to, in order. -/
def editsOf (findings : List (LoadedClass × Finding)) : List ClassDefinition :=
  findings.filterMap fun n => n.2.edit? n.1

/-- The findings that close the case of a class: all but missing bytes. -/
def settledOf (findings : List (LoadedClass × Finding)) : List (LoadedClass × Finding) :=
  findings.filter fun n => n.2 ≠ .unreadable

/-- The findings of a run so far are in balance with the definitions submitted in earlier passes
and with where the pass stands. -/
structure Ledger (findings : List (LoadedClass × Finding)) (sent : List ClassDefinition)
    (p : Progress) : Prop where
  edits : sent ++ p.pending = editsOf findings
  noArray : ∀ n ∈ findings, n.1.isArray = false
  /-- A class whose case is closed is not looked at again. -/
  settled_done : ∀ n ∈ settledOf findings, n.1.id ∈ p.done
  settled_once : ((settledOf findings).map fun n => n.1.id).Nodup
  unreadable_listed : ∀ n ∈ findings, n.2 = .unreadable →
    ClassName.qualified n.1.name ∈ p.unreadable
  done_found : ∀ i ∈ p.done, ∃ n ∈ findings, n.1.id = i

theorem mem_editsOf {findings : List (LoadedClass × Finding)} {d : ClassDefinition} :
    d ∈ editsOf findings ↔ (d.target, .edited d.bytes) ∈ findings := by
  unfold editsOf
  rw [List.mem_filterMap]
  constructor
  · rintro ⟨⟨c, f⟩, hmem, he⟩
    cases f with
    | edited bytes =>
      cases he
      exact hmem
    | declined => cases he
    | unreadable => cases he
    | unchanged => cases he
  · intro h
    exact ⟨_, h, rfl⟩

theorem mem_settledOf {findings : List (LoadedClass × Finding)} {n : LoadedClass × Finding} :
    n ∈ settledOf findings ↔ n ∈ findings ∧ n.2 ≠ .unreadable := by
  rw [settledOf, List.mem_filter, decide_eq_true_eq]

theorem settledOf_concat (findings : List (LoadedClass × Finding)) (c : LoadedClass)
    (f : Finding) : settledOf (findings ++ [(c, f)]) =
      if f = .unreadable then settledOf findings else settledOf findings ++ [(c, f)] := by
  rw [settledOf, List.filter_append]
  by_cases hf : f = .unreadable
  · rw [if_pos hf, List.filter_singleton, decide_eq_false (not_not.2 hf)]
    exact List.append_nil _
  · rw [if_neg hf, List.filter_singleton, decide_eq_true hf]
    rfl

/-- Only a settled class has an edit, and one at most. -/
theorem editsOf_sublist (findings : List (LoadedClass × Finding)) :
    ((editsOf findings).map fun d => d.target.id).Sublist
      ((settledOf findings).map fun n => n.1.id) := by
  induction findings with
  | nil => exact List.Sublist.slnil
  | cons n findings ih =>
    obtain ⟨c, f⟩ := n
    cases f with
    | unreadable => exact ih
    | declined => exact ih.cons c.id
    | unchanged => exact ih.cons c.id
    | edited bytes => exact ih.cons_cons c.id

namespace Ledger

variable {findings : List (LoadedClass × Finding)} {sent : List ClassDefinition} {p : Progress}
  {c : LoadedClass} {opts : RedefineOptions}

theorem start : Ledger [] [] {} where
  edits := rfl
  noArray _ h := absurd h List.not_mem_nil
  settled_done _ h := absurd h List.not_mem_nil
  settled_once := List.nodup_nil
  unreadable_listed _ h := absurd h List.not_mem_nil
  done_found _ h := absurd h List.not_mem_nil

/-- Looking at one more class keeps the balance, whatever comes of it. -/
theorem look (h : Ledger findings sent p) (harray : c.isArray = false) (hfresh : c.id ∉ p.done)
    (f : Finding) : Ledger (findings ++ [(c, f)]) sent (p.after opts c f) where
  edits := by
    rw [pending_after, ← List.append_assoc, h.edits, editsOf, editsOf, List.filterMap_append]
    cases f with
    | edited bytes => rfl
    | declined => rfl
    | unreadable => rfl
    | unchanged => rfl
  noArray n hn := by
    rcases List.mem_append.1 hn with hn | hn
    · exact h.noArray n hn
    · rw [List.mem_singleton.1 hn]
      exact harray
  settled_done n hn := by
    obtain ⟨hn, hsettled⟩ := mem_settledOf.1 hn
    rw [mem_done_after]
    rcases List.mem_append.1 hn with hn | hn
    · have hdone := h.settled_done n (mem_settledOf.2 ⟨hn, hsettled⟩)
      exact ⟨Or.inr hdone, fun _ _ e => hfresh (e ▸ hdone)⟩
    · cases List.mem_singleton.1 hn
      exact ⟨Or.inl rfl, fun e => absurd e hsettled⟩
  settled_once := by
    rw [settledOf_concat]
    by_cases hf : f = .unreadable
    · rw [if_pos hf]
      exact h.settled_once
    · rw [if_neg hf, List.map_append, List.map_singleton, List.nodup_append]
      refine ⟨h.settled_once, List.nodup_singleton _, ?_⟩
      -- the case of the class was open
      intro i hi j hj
      obtain ⟨n, hn, rfl⟩ := List.mem_map.1 hi
      rw [List.mem_singleton.1 hj]
      intro hid
      exact hfresh (hid ▸ h.settled_done n hn)
  unreadable_listed n hn hf := by
    rw [mem_unreadable_after]
    rcases List.mem_append.1 hn with hn | hn
    · exact Or.inl (h.unreadable_listed n hn hf)
    · cases List.mem_singleton.1 hn
      exact Or.inr ⟨hf, rfl⟩
  done_found i hi := by
    rcases (mem_done_after.1 hi).1 with rfl | hi
    · exact ⟨(c, f), List.mem_append_right _ (List.mem_singleton.2 rfl), rfl⟩
    · obtain ⟨n, hn, hid⟩ := h.done_found i hi
      exact ⟨n, List.mem_append_left _ hn, hid⟩

/-- What is pending is submitted at the end of a pass. -/
theorem close (h : Ledger findings sent p) :
    Ledger findings (sent ++ p.pending) { p with pending := [] } where
  edits := by
    rw [List.append_nil]
    exact h.edits
  noArray := h.noArray
  settled_done := h.settled_done
  settled_once := h.settled_once
  unreadable_listed := h.unreadable_listed
  done_found := h.done_found

/-- One finding at most closes the case of a class. -/
theorem settled_unique (h : Ledger findings sent p) {n n' : LoadedClass × Finding}
    (hn : n ∈ findings) (hn' : n' ∈ findings) (hf : n.2 ≠ .unreadable) (hf' : n'.2 ≠ .unreadable)
    (hid : n.1.id = n'.1.id) : n = n' :=
  List.inj_on_of_nodup_map h.settled_once (mem_settledOf.2 ⟨hn, hf⟩) (mem_settledOf.2 ⟨hn', hf'⟩) hid

theorem submitted_once (h : Ledger findings sent p) :
    (sent.map fun d => d.target.id).Nodup := by
  have hedits : ((editsOf findings).map fun d => d.target.id).Nodup :=
    h.settled_once.sublist (editsOf_sublist findings)
  rw [← h.edits, List.map_append] at hedits
  exact (List.nodup_append.1 hedits).1

theorem mem_findings_of_mem_sent (h : Ledger findings sent p) {d : ClassDefinition}
    (hd : d ∈ sent) : (d.target, .edited d.bytes) ∈ findings := by
  rw [← mem_editsOf, ← h.edits]
  exact List.mem_append_left _ hd

end Ledger

/-! ### Over a run -/

/-- The findings of all passes. -/
def findingsOf (records : List PassRecord) : List (LoadedClass × Finding) :=
  records.flatMap PassRecord.findings

/-- The definitions that all passes submitted. -/
def submittedOf (records : List PassRecord) : List ClassDefinition :=
  records.flatMap PassRecord.submitted

/-- The classes that were loaded in some pass. -/
def listedOf (records : List PassRecord) : List LoadedClass := records.flatMap PassRecord.listed

/-- Every class that was loaded has been looked at, in this pass or an earlier one. -/
def Covers (findings : List (LoadedClass × Finding)) (listed : List LoadedClass) : Prop :=
  ∀ c ∈ listed, c.isArray = false → ∃ n ∈ findings, n.1.id = c.id

/-- Where a pass stands when it has gone through the classes `seen` of those that are loaded. -/
structure PassStands (findings : List (LoadedClass × Finding)) (sent : List ClassDefinition)
    (classes seen : List LoadedClass) (r : Progress × List (LoadedClass × Finding)) : Prop where
  ledger : Ledger (findings ++ r.2) sent r.1
  covers : Covers (findings ++ r.2) seen
  listed : ∀ n ∈ r.2, n.1 ∈ classes

section Run

variable (host : Instrumentation σ τ) (t : Transformer σ) (opts : RedefineOptions)
  {findings : List (LoadedClass × Finding)} {sent : List ClassDefinition}
  {classes seen : List LoadedClass}

theorem considerNoting_ensures {c : LoadedClass} (hc : c ∈ classes)
    {r : Progress × List (LoadedClass × Finding)} (h : PassStands findings sent classes seen r)
    (s : σ) : (considerNoting host t opts r c).Ensures s fun r' _ =>
      PassStands findings sent classes (seen ++ [c]) r' := by
  obtain ⟨p, new⟩ := r
  obtain ⟨hledger, hcovers, hlisted⟩ := h
  rw [considerNoting]
  by_cases hskip : (c.isArray || p.done.contains c.id) = true
  · -- an array, or looked at before
    rw [if_pos hskip, Act.ensures_pure]
    refine ⟨hledger, fun c' hc' harray => ?_, hlisted⟩
    rcases List.mem_append.1 hc' with hc' | hc'
    · exact hcovers c' hc' harray
    · rw [List.mem_singleton.1 hc'] at harray ⊢
      rw [harray, Bool.false_or, List.contains_iff_mem] at hskip
      exact hledger.done_found c.id hskip
  · rw [if_neg hskip, map_eq_pure_bind, Act.ensures_bind]
    rw [Bool.or_eq_true, not_or, List.contains_iff_mem, Bool.not_eq_true] at hskip
    refine Act.Ensures.of_forall fun f s' => ?_
    rw [Act.ensures_pure]
    constructor
    · rw [← List.append_assoc]
      exact hledger.look hskip.1 hskip.2 f
    · intro c' hc' harray
      rw [← List.append_assoc]
      rcases List.mem_append.1 hc' with hc' | hc'
      · obtain ⟨n, hn, hid⟩ := hcovers c' hc' harray
        exact ⟨n, List.mem_append_left _ hn, hid⟩
      · rw [List.mem_singleton.1 hc']
        exact ⟨(c, f), List.mem_append_right _ (List.mem_singleton.2 rfl), rfl⟩
    · intro n hn
      rcases List.mem_append.1 hn with hn | hn
      · exact hlisted n hn
      · rw [List.mem_singleton.1 hn]
        exact hc

/-- A pass goes through all classes that are loaded. -/
theorem collectNoting_ensures {p : Progress} (h : Ledger findings sent p) (s : σ) :
    (collectNoting host t opts p).Ensures s fun r _ =>
      PassStands findings sent r.2.1 r.2.1 (r.1, r.2.2) := by
  rw [collectNoting, Act.ensures_bind]
  refine Act.Ensures.of_forall fun classes s' => ?_
  have hstart : PassStands findings sent classes [] (p, []) := by
    refine ⟨?_, fun c hc => absurd hc List.not_mem_nil, fun n hn => absurd hn List.not_mem_nil⟩
    rw [List.append_nil]
    exact h
  rw [Act.ensures_bind]
  refine (Act.ensures_foldlM (I := fun seen r (_ : σ) => PassStands findings sent classes seen r)
    (fun c hc _ _ s h => considerNoting_ensures host t opts hc h s) hstart).imp fun r _ hr => ?_
  rw [Act.ensures_pure]
  exact hr

theorem submitNoting_ensures (edits : List ClassDefinition) (report : RedefineReport) (s : σ) :
    (submitNoting host opts edits report).Ensures s fun r _ => r.2.flatten = edits := by
  obtain ⟨batches, hflatten, hhands⟩ := submit_hands host opts edits report
  show ((submit host.noting opts edits report).run (s, [])).state.2.flatten = edits
  rw [hhands s []]
  exact hflatten

/-- The passes of a run so far leave a balanced ledger. -/
structure Balanced (records : List PassRecord) (p : Progress) : Prop where
  pending : p.pending = []
  ledger : Ledger (findingsOf records) (submittedOf records) p
  listed : ∀ n ∈ findingsOf records, n.1 ∈ listedOf records

/-- The ledger is balanced at the end of a run, and when the run has come to its end by itself, the
last pass found every class looked at and had nothing to submit. -/
def Settles (result : Except RedefinitionError RedefineReport) (records : List PassRecord) : Prop :=
  ∃ p, Balanced records p ∧ ∀ report, result = .ok report → report.unreadable = p.unreadable ∧
    ∃ last, records.getLast? = some last ∧ last.submitted = [] ∧
      Covers (findingsOf records) last.listed

/-- A pass keeps the ledger in balance, and so do all passes of a run. -/
theorem passesNoting_ensures (limit pass : Nat) {p : Progress} (report : RedefineReport)
    {records : List PassRecord} (h : Balanced records p) (s : σ) :
    (passesNoting host t opts limit pass p report).Ensures s fun r _ =>
      Settles r.1 (records ++ r.2) := by
  induction limit generalizing pass p report records s with
  | zero =>
    rw [passesNoting, Act.ensures_pure, List.append_nil]
    refine ⟨p, h, ?_⟩
    rintro _ ⟨⟩
  | succ limit ih =>
    rw [passesNoting]
    simp only [Act.ensures_bind, Act.ensures_report]
    refine (collectNoting_ensures host t opts h.ledger s).imp fun r s' hr => ?_
    obtain ⟨p', listed, findings⟩ := r
    obtain ⟨hledger, hcovers, hlisted⟩ := hr
    -- the ledger with the record of this pass, when the pass submits what is pending
    have hbalanced : ∀ batches : List (List ClassDefinition), batches.flatten = p'.pending →
        Balanced (records ++ [⟨listed, findings, batches⟩]) { p' with pending := [] } := by
      intro batches hbatches
      refine ⟨rfl, ?_, fun n hn => ?_⟩
      · rw [findingsOf, submittedOf, List.flatMap_append, List.flatMap_append,
          List.flatMap_singleton, List.flatMap_singleton, PassRecord.submitted, hbatches]
        exact hledger.close
      · rw [findingsOf, List.flatMap_append, List.flatMap_singleton] at hn
        rw [listedOf, List.flatMap_append, List.flatMap_singleton]
        rcases List.mem_append.1 hn with hn | hn
        · exact List.mem_append_left _ (h.listed n hn)
        · exact List.mem_append_right _ (hlisted n hn)
    by_cases hempty : p'.pending.isEmpty = true
    · rw [if_pos hempty]
      simp only [Act.ensures_bind, Act.ensures_report, Act.ensures_pure]
      refine ⟨_, hbalanced [] (List.isEmpty_iff.1 hempty).symm, ?_⟩
      rintro _ ⟨⟩
      refine ⟨rfl, ⟨listed, findings, []⟩, List.getLast?_concat, rfl, ?_⟩
      rw [findingsOf, List.flatMap_append, List.flatMap_singleton]
      exact hcovers
    · rw [if_neg hempty]
      simp only [Act.ensures_bind, Act.ensures_report]
      refine (submitNoting_ensures host opts p'.pending _ s').imp fun r s'' hbatches => ?_
      obtain ⟨result, batches⟩ := r
      cases result with
      | error e =>
        refine ⟨_, hbalanced batches hbatches, ?_⟩
        rintro _ ⟨⟩
      | ok report' =>
        rw [Act.ensures_bind]
        refine (ih (pass + 1) report' (hbalanced batches hbatches) s'').imp fun r _ hr => ?_
        rw [List.append_assoc] at hr
        exact hr

theorem runNoting_ensures (s : σ) :
    (runNoting host t opts).Ensures s fun r _ => Settles r.1 r.2 := by
  rw [runNoting, Act.ensures_bind]
  refine Act.Ensures.of_forall fun limit s' => ?_
  have hstart : Balanced [] {} := ⟨rfl, Ledger.start, fun n hn => absurd hn List.not_mem_nil⟩
  exact passesNoting_ensures host t opts limit 1 {} hstart s'

end Run

/-- When no class occurs twice, a definition occurs in one pass, and its class in no other. -/
theorem exists_pass_of_mem {records : List PassRecord}
    (hn : ((submittedOf records).map fun d => d.target.id).Nodup) {d : ClassDefinition}
    (hd : d ∈ submittedOf records) :
    ∃ (i : Nat) (r : PassRecord), records[i]? = some r ∧ d ∈ r.submitted ∧
      ∀ (j : Nat) (r' : PassRecord), records[j]? = some r' → ∀ d' ∈ r'.submitted,
        d'.target.id = d.target.id → j = i := by
  obtain ⟨r, hr, hdr⟩ := List.mem_flatMap.1 hd
  obtain ⟨i, hi⟩ := List.mem_iff_getElem?.1 hr
  refine ⟨i, r, hi, hdr, fun j r' hj d' hd' hid => ?_⟩
  rw [submittedOf, List.map_flatMap, List.nodup_flatMap, List.pairwise_iff_getElem] at hn
  obtain ⟨hilt, rfl⟩ := List.getElem?_eq_some_iff.1 hi
  obtain ⟨hjlt, rfl⟩ := List.getElem?_eq_some_iff.1 hj
  have hmem := List.mem_map_of_mem (f := fun d : ClassDefinition => d.target.id) hdr
  have hmem' := List.mem_map_of_mem (f := fun d : ClassDefinition => d.target.id) hd'
  rcases Nat.lt_trichotomy i j with hlt | heq | hlt
  · rw [hid] at hmem'
    exact absurd hmem' (hn.2 i j hilt hjlt hlt hmem)
  · exact heq.symm
  · rw [hid] at hmem'
    exact absurd hmem (hn.2 j i hjlt hilt hlt hmem')

/-- A class of which a definition has been submitted was submitted in one pass, and not in the last
one if that has submitted nothing. -/
theorem submitted_in_one_pass {records : List PassRecord} {last : PassRecord}
    (hn : ((submittedOf records).map fun d => d.target.id).Nodup)
    (hlast : records.getLast? = some last) (hnothing : last.submitted = []) {d : ClassDefinition}
    (hd : d ∈ submittedOf records) :
    ∃ i, i + 1 < records.length ∧ ∀ (j : Nat) (r : PassRecord), records[j]? = some r →
      ((∃ e ∈ r.submitted, e.target = d.target) ↔ j = i) := by
  obtain ⟨i, r, hi, hdr, hunique⟩ := exists_pass_of_mem hn hd
  obtain ⟨hlt, -⟩ := List.getElem?_eq_some_iff.1 hi
  refine ⟨i, ?_, fun j r' hj => ⟨?_, ?_⟩⟩
  · rw [List.getLast?_eq_getElem?] at hlast
    have hne : i ≠ records.length - 1 := by
      rintro rfl
      rw [hlast] at hi
      cases hi
      rw [hnothing] at hdr
      cases hdr
    omega
  · rintro ⟨e, he, htarget⟩
    exact hunique j r' hj e he (congrArg LoadedClass.id htarget)
  · rintro rfl
    rw [hi] at hj
    cases hj
    exact ⟨d, hdr, rfl⟩

/-- What has become of a class that was looked at. -/
theorem Balanced.dealt_with {records : List PassRecord} {p : Progress} (h : Balanced records p)
    {c : LoadedClass} {f : Finding} (hf : (c, f) ∈ findingsOf records) :
    (c, .declined) ∈ findingsOf records ∨ (c, .unchanged) ∈ findingsOf records ∨
      (∃ d ∈ submittedOf records, d.target = c) ∨
      ClassName.qualified c.name ∈ p.unreadable := by
  cases f with
  | declined => exact Or.inl hf
  | unchanged => exact Or.inr (Or.inl hf)
  | unreadable =>
    have hlisted := h.ledger.unreadable_listed (c, .unreadable) hf rfl
    exact Or.inr (Or.inr (Or.inr hlisted))
  | edited bytes =>
    have hedit := mem_editsOf (d := ⟨c, bytes⟩).2 hf
    rw [← h.ledger.edits, h.pending, List.append_nil] at hedit
    exact Or.inr (Or.inr (Or.inl ⟨⟨c, bytes⟩, hedit, rfl⟩))

/-- **A run submits no class twice, and misses none.**

In every run, whatever the host and the transformer do, no class is submitted twice, no array and
no class that the transformer declined is submitted at all, and what is submitted for a class are
the bytes that the transformer gave for it. If the run comes to its end by itself and an identity
belongs to one class throughout, then every class that was loaded in the last pass, arrays apart,
was declined, was left as it is, was submitted in exactly one pass before the last, or is reported
as unreadable. -/
theorem run_settles (host : Instrumentation σ τ) (t : Transformer σ) (opts : RedefineOptions)
    (s : σ) :
    let noted := (runNoting host t opts).run s
    let records := noted.value.2
    (run host t opts).run s = ⟨noted.value.1, noted.state, noted.events⟩ ∧
      ((submittedOf records).map fun d => d.target.id).Nodup ∧
      (∀ d ∈ submittedOf records, d.target.isArray = false ∧
        (∀ c, c.id = d.target.id → (c, .declined) ∉ findingsOf records) ∧
        (d.target, .edited d.bytes) ∈ findingsOf records) ∧
      ∀ report, noted.value.1 = .ok report →
        (∀ c ∈ listedOf records, ∀ c' ∈ listedOf records, c.id = c'.id → c = c') →
        ∃ last, records.getLast? = some last ∧ ∀ c ∈ last.listed, c.isArray = false →
          (c, .declined) ∈ findingsOf records ∨ (c, .unchanged) ∈ findingsOf records ∨
          (∃ i, i + 1 < records.length ∧ ∀ (j : Nat) (r : PassRecord), records[j]? = some r →
            ((∃ d ∈ r.submitted, d.target = c) ↔ j = i)) ∨
          ClassName.qualified c.name ∈ report.unreadable := by
  intro noted records
  have hsettles : Settles noted.value.1 records := runNoting_ensures host t opts s
  obtain ⟨p, hbalanced, hend⟩ := hsettles
  have hledger := hbalanced.ledger
  have honce := hledger.submitted_once
  refine ⟨run_eq_runNoting host t opts s, honce, fun d hd => ⟨?_, fun c hid hc => ?_, ?_⟩, ?_⟩
  · exact hledger.noArray (d.target, .edited d.bytes) (hledger.mem_findings_of_mem_sent hd)
  · have hedited := hledger.mem_findings_of_mem_sent hd
    have heq := hledger.settled_unique hc hedited (by simp) (by simp) hid
    cases congrArg Prod.snd heq
  · exact hledger.mem_findings_of_mem_sent hd
  · intro report hok hidentity
    obtain ⟨hunreadable, last, hlast, hnothing, hcovers⟩ := hend report hok
    refine ⟨last, hlast, fun c hc harray => ?_⟩
    obtain ⟨⟨c', f⟩, hn, hid⟩ := hcovers c hc harray
    have hmem : c ∈ listedOf records :=
      List.mem_flatMap.2 ⟨last, List.mem_of_getLast? hlast, hc⟩
    obtain rfl : c' = c := hidentity c' (hbalanced.listed _ hn) c hmem hid
    rw [hunreadable]
    rcases hbalanced.dealt_with hn with h | h | ⟨d, hd, rfl⟩ | h
    · exact Or.inl h
    · exact Or.inr (Or.inl h)
    · exact Or.inr (Or.inr (Or.inl (submitted_in_one_pass honce hlast hnothing hd)))
    · exact Or.inr (Or.inr (Or.inr h))

/-- Adds a method to every class but one, and leaves a class alone that has it. -/
def addMethod : Transformer (MemoryHost × Unit) where
  accepts name _ := pure (name != "p/C")
  apply r := pure <|
    let edited := ((ClassSketch.new r.className).withMethod "m" "()V").encode
    if r.bytes = edited then none else some edited

/-- One class comes up when another is redefined, and one has no bytes. -/
def revealingHost : MemoryHost where
  classes := #[⟨"p/A", ⟨1⟩, .ok (some (ClassSketch.new "p/A").encode)⟩,
    ⟨"[Lp/A;", ⟨1⟩, .ok none⟩, ⟨"p/C", ⟨1⟩, .ok (some (ClassSketch.new "p/C").encode)⟩,
    ⟨"p/N", ⟨1⟩, .ok none⟩]
  reveals := [("p/A", "p/B")]

/-- The class that comes up is there in the last pass, and was submitted in one pass before. -/
theorem run_settles_revealed_class :
    let host : Instrumentation (MemoryHost × Unit) Unit := MemoryHost.instrumentation
    let noted := (runNoting host addMethod ⟨true, true⟩).run (revealingHost, ())
    let records := noted.value.2
    let c : LoadedClass := ⟨4, "p/B", ⟨1⟩⟩
    (∀ last ∈ records.getLast?, c ∈ last.listed) ∧ ∃ i, i + 1 < records.length ∧
      ∀ (j : Nat) (r : PassRecord), records[j]? = some r →
        ((∃ d ∈ r.submitted, d.target = c) ↔ j = i) := by
  intro host noted records c
  have hlisted : ∀ last ∈ records.getLast?, c ∈ last.listed := by decide +kernel
  have hreport : noted.value.1 = .ok
      { passes := 3, transformed := 2, redefined := 2, unreadable := ["p.N"] } := by decide +kernel
  have hidentity : ∀ c ∈ listedOf records, ∀ c' ∈ listedOf records, c.id = c'.id → c = c' := by
    decide +kernel
  have hdeclined : (c, .declined) ∉ findingsOf records := by decide +kernel
  have hunchanged : (c, .unchanged) ∉ findingsOf records := by decide +kernel
  obtain ⟨-, -, -, hcomplete⟩ := run_settles host addMethod ⟨true, true⟩ (revealingHost, ())
  obtain ⟨last, hlast, hsettled⟩ := hcomplete _ hreport hidentity
  refine ⟨hlisted, ?_⟩
  rcases hsettled c (hlisted last hlast) (by decide +kernel) with h | h | h | h
  · exact absurd h hdeclined
  · exact absurd h hunchanged
  · exact h
  · exact absurd h (by decide +kernel)

end Reclass.Redefinition
