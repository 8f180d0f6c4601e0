import Reclass.Proofs.Redefinition.Ledger
import Reclass.Proofs.Redefinition.Lockstep

/-!
# What the report of a run adds up to

Nothing is known about the host of a run and little about its transformer: what they answer may
change from one question to the next. So the report is compared with the answers themselves. They
are written down in the order in which they are given (`Instrumentation.onRecord`,
`Transformer.onRecord`), which changes nothing else (`Redefinition.onRecord_alike`). Looking at a
class and submitting definitions each keep the report and the record in accord
(`Accounts.consider_ensures`, `Accounts.submit_ensures`), so they are when the run ends
(`Redefinition.report_adds_up`).
-/

set_option autoImplicit false

namespace Reclass

variable {σ σ' τ : Type}

/-! ### Hosts that answer alike -/

/-- From related states the two hosts give the same answers. -/
structure Instrumentation.Alike (host : Instrumentation σ τ) (host' : Instrumentation σ' τ)
    (R : σ → σ' → Prop) : Prop where
  loadedClasses : host.loadedClasses.Alike host'.loadedClasses R fun _ => R
  classBytes : ∀ c, (host.classBytes c).Alike (host'.classBytes c) R fun _ => R
  redefine : ∀ ds, (host.redefine ds).Alike (host'.redefine ds) R fun _ => R
  passLimit : host.passLimit.Alike host'.passLimit R fun _ => R

namespace Redefinition

section Alike

variable {R : σ → σ' → Prop} {host : Instrumentation σ τ} {host' : Instrumentation σ' τ}
  {t : Transformer σ} {t' : Transformer σ'}

theorem consider_alike (hhost : host.Alike host' R) (ht : t.Alike t' R fun _ _ _ => True)
    (opts : RedefineOptions) (p : Progress) (c : LoadedClass) :
    (consider host t opts p c).Alike (consider host' t' opts p c) R fun _ => R := by
  rw [consider, consider]
  by_cases hskip : (c.isArray || p.done.contains c.id) = true
  · rw [if_pos hskip, if_pos hskip]
    exact Act.alike_pure _ fun _ _ hs => hs
  · rw [if_neg hskip, if_neg hskip]
    -- both ask the transformer first, then read, then edit what they have read
    refine (ht.accepts c.name c.loader).bind fun accepted => ?_
    cases accepted with
    | false => exact Act.alike_pure _ fun _ _ hs => hs
    | true =>
      refine (hhost.classBytes c).bind fun found => ?_
      rcases found with e | _ | _ | ⟨b, bytes⟩
      · exact Act.report_bind_alike _ _ _ (Act.alike_pure _ fun _ _ hs => hs)
      · exact Act.report_bind_alike _ _ _ (Act.alike_pure _ fun _ _ hs => hs)
      · exact Act.report_bind_alike _ _ _ (Act.alike_pure _ fun _ _ hs => hs)
      · refine (ht.apply ⟨c.loader, c.name, some c, b :: bytes⟩ trivial).bind fun edited => ?_
        cases edited with
        | none => exact Act.alike_pure _ fun _ _ hs => hs
        | some edited => exact Act.alike_pure _ fun _ _ hs => hs

theorem submitEach_alike (hhost : host.Alike host' R) (edits : List ClassDefinition)
    (report : RedefineReport) :
    (submitEach host edits report).Alike (submitEach host' edits report) R fun _ => R := by
  induction edits generalizing report with
  | nil => exact Act.alike_pure _ fun _ _ hs => hs
  | cons edit edits ih =>
    rw [submitEach, submitEach]
    refine Act.report_bind_alike _ _ _ ((hhost.redefine [edit]).bind fun answer => ?_)
    cases answer with
    | ok _ => exact ih _
    | error e => exact Act.report_bind_alike _ _ _ (ih _)

theorem submit_alike (hhost : host.Alike host' R) (opts : RedefineOptions)
    (edits : List ClassDefinition) (report : RedefineReport) :
    (submit host opts edits report).Alike (submit host' opts edits report) R fun _ => R := by
  rw [submit, submit]
  by_cases hv : opts.verbose = true
  · rw [if_pos hv, if_pos hv]
    exact (submitEach_alike hhost edits report).bind fun _ => Act.alike_pure _ fun _ _ hs => hs
  · rw [if_neg hv, if_neg hv]
    refine (hhost.redefine edits).bind fun answer => ?_
    cases answer with
    | ok _ => exact Act.alike_pure _ fun _ _ hs => hs
    | error e => exact Act.alike_pure _ fun _ _ hs => hs

theorem passes_alike (hhost : host.Alike host' R) (ht : t.Alike t' R fun _ _ _ => True)
    (opts : RedefineOptions) (limit pass : Nat) (p : Progress) (report : RedefineReport) :
    (passes host t opts limit pass p report).Alike (passes host' t' opts limit pass p report) R
      fun _ => R := by
  induction limit generalizing pass p report with
  | zero => exact Act.alike_pure _ fun _ _ hs => hs
  | succ limit ih =>
    have hcollect : (collect host t opts p).Alike (collect host' t' opts p) R fun _ => R :=
      hhost.loadedClasses.bind fun classes =>
        Act.alike_foldlM (consider_alike hhost ht opts) classes p
    rw [passes, passes]
    refine Act.report_bind_alike _ _ _ (hcollect.bind fun p' => ?_)
    by_cases hempty : p'.pending.isEmpty = true
    · rw [if_pos hempty, if_pos hempty]
      exact Act.report_bind_alike _ _ _ (Act.alike_pure _ fun _ _ hs => hs)
    · rw [if_neg hempty, if_neg hempty]
      refine Act.report_bind_alike _ _ _ ((submit_alike hhost opts _ _).bind fun result => ?_)
      cases result with
      | error e => exact Act.alike_pure _ fun _ _ hs => hs
      | ok report' => exact ih _ _ _

/-- **Runs on hosts that answer alike, with transformers that do, go alike.** -/
theorem run_alike (hhost : host.Alike host' R) (ht : t.Alike t' R fun _ _ _ => True)
    (opts : RedefineOptions) : (run host t opts).Alike (run host' t' opts) R fun _ => R :=
  hhost.passLimit.bind fun limit => passes_alike hhost ht opts limit 1 {} {}

end Alike

end Redefinition

/-! ### Answers on record -/

/-- A question that a run asks, with the answer. -/
inductive Exchange where
  | decided (className : String) (loader : LoaderId) (accepted : Bool)
  | read (c : LoadedClass) (found : Except ReadError (Option Bytes))
  | submitted (ds : List ClassDefinition) (answer : Except RedefinitionError Unit)

namespace Exchange

/-- The definitions that are submitted. -/
def submissions : Exchange → List ClassDefinition
  | submitted ds _ => ds
  | _ => []

/-- The definitions that are submitted and accepted. -/
def acceptances : Exchange → List ClassDefinition
  | submitted ds (.ok _) => ds
  | _ => []

/-- The definitions that are submitted and rejected. -/
def rejections : Exchange → List ClassDefinition
  | submitted ds (.error _) => ds
  | _ => []

theorem length_submissions (e : Exchange) :
    e.submissions.length = e.acceptances.length + e.rejections.length := by
  match e with
  | decided _ _ _ | read _ _ => rfl
  | submitted ds (.ok _) => rfl
  | submitted ds (.error _) => exact (Nat.zero_add _).symm

/-- Whatever is submitted is accepted or rejected. -/
theorem length_flatMap_submissions (record : List Exchange) :
    (record.flatMap submissions).length =
      (record.flatMap acceptances).length + (record.flatMap rejections).length := by
  induction record with
  | nil => rfl
  | cons e record ih =>
    rw [List.flatMap_cons, List.flatMap_cons, List.flatMap_cons, List.length_append,
      List.length_append, List.length_append, ih, length_submissions]
    omega

end Exchange

/-- A read that brings no bytes: it fails, or there are none. -/
def bringsNothing : Except ReadError (Option Bytes) → Bool
  | .ok (some bytes) => bytes.isEmpty
  | _ => true

/-- The host, with what it is asked about classes and their definitions put on record. -/
def Instrumentation.onRecord (host : Instrumentation σ τ) :
    Instrumentation (σ × List Exchange) τ where
  loadedClasses := Act.zoom .fst host.loadedClasses
  classBytes c := (host.classBytes c).noted (.read c)
  redefine ds := (host.redefine ds).noted (.submitted ds)
  addTransformer t := Act.zoom .fst (host.addTransformer t)
  passLimit := Act.zoom .fst host.passLimit

/-- The transformer, with its decisions put on record. -/
def Transformer.onRecord (t : Transformer σ) : Transformer (σ × List Exchange) where
  accepts name loader := (t.accepts name loader).noted (.decided name loader)
  apply r := Act.zoom .fst (t.apply r)

namespace Redefinition

/-- **Putting answers on record changes nothing else.** -/
theorem onRecord_alike (host : Instrumentation σ τ) (t : Transformer σ) (opts : RedefineOptions) :
    (run host.onRecord t.onRecord opts).Alike (run host t opts) (fun w s => s = w.1)
      fun _ w s => s = w.1 := by
  have hzoom : ∀ {α : Type} (x : Act σ α),
      Act.Alike (Act.zoom .fst x : Act (σ × List Exchange) α) x (fun w s => s = w.1)
        fun _ w s => s = w.1 := by
    rintro α x w _ rfl
    exact ⟨rfl, rfl⟩
  refine run_alike ⟨hzoom _, fun _ => Act.noted_alike _ _, fun _ => Act.noted_alike _ _, hzoom _⟩
    ⟨fun _ _ => Act.noted_alike _ _, fun _ _ => hzoom _⟩ opts

/-! ### Report and record -/

/-- The report says of the record what it should, and `due` more definitions are about to be
submitted. -/
structure Accounts (opts : RedefineOptions) (due : Nat) (report : RedefineReport)
    (record : List Exchange) : Prop where
  transformed : report.transformed = (record.flatMap Exchange.submissions).length + due
  redefined : report.redefined = (record.flatMap Exchange.acceptances).length
  failed : report.failed =
    (record.flatMap Exchange.rejections).map fun d => ClassName.qualified d.target.name
  /-- A batch that is rejected ends the run. -/
  batch : opts.verbose = false → report.failed = []

/-- The names are those of the classes without bytes. -/
structure ListsUnread (names : List String) (record : List Exchange) : Prop where
  nodup : names.Nodup
  mem_iff : ∀ name, name ∈ names ↔ ∃ c found, .read c found ∈ record ∧
    bringsNothing found = true ∧ ClassName.qualified c.name = name
  /-- No array is read, and nothing that the transformer declines. -/
  eligible : ∀ c found, .read c found ∈ record →
    c.isArray = false ∧ .decided c.name c.loader true ∈ record

variable {opts : RedefineOptions} {due : Nat} {report : RedefineReport} {record : List Exchange}
  {names : List String} {p : Progress} {c : LoadedClass}

theorem Accounts.start (opts : RedefineOptions) : Accounts opts 0 {} [] :=
  ⟨rfl, rfl, rfl, fun _ => rfl⟩

theorem ListsUnread.start : ListsUnread [] [] where
  nodup := List.nodup_nil
  mem_iff name := by simp
  eligible := nofun

/-! ### Looking at a class -/

/-- What came of looking at a class, and what this has put on record. -/
inductive Look (c : LoadedClass) : Finding → List Exchange → Prop where
  | declined : Look c .declined [.decided c.name c.loader false]
  | unreadable (found : Except ReadError (Option Bytes)) (h : bringsNothing found = true) :
      Look c .unreadable [.decided c.name c.loader true, .read c found]
  | read (f : Finding) (hf : f ≠ .unreadable) (found : Except ReadError (Option Bytes))
      (h : bringsNothing found = false) :
      Look c f [.decided c.name c.loader true, .read c found]

theorem inspect_look (host : Instrumentation σ τ) (t : Transformer σ) (c : LoadedClass)
    (w : σ × List Exchange) :
    (inspect host.onRecord t.onRecord c).Ensures w fun f w' =>
      ∃ news, w'.2 = w.2 ++ news ∧ Look c f news := by
  rw [inspect, Act.ensures_bind]
  refine (Act.ensures_noted _ _ _ _).2 (Act.Ensures.of_forall fun accepted s => ?_)
  cases accepted with
  | false => exact ⟨_, rfl, .declined⟩
  | true =>
    rw [Bool.not_true, if_neg Bool.false_ne_true, Act.ensures_bind]
    refine (Act.ensures_noted _ _ _ _).2 (Act.Ensures.of_forall fun found s' => ?_)
    have hnews : (w.2 ++ [.decided c.name c.loader true]) ++ [.read c found] =
        w.2 ++ [.decided c.name c.loader true, .read c found] := List.append_assoc _ _ _
    rcases found with e | _ | _ | ⟨b, bytes⟩
    · exact ⟨_, hnews, .unreadable _ rfl⟩
    · exact ⟨_, hnews, .unreadable _ rfl⟩
    · exact ⟨_, hnews, .unreadable _ rfl⟩
    · rw [Act.ensures_bind, Transformer.onRecord, Act.ensures_zoom]
      refine Act.Ensures.of_forall fun edited s'' => ?_
      cases edited with
      | none => exact ⟨_, hnews, .read .unchanged (by rintro ⟨⟩) _ rfl⟩
      | some edited => exact ⟨_, hnews, .read (.edited edited) (by rintro ⟨⟩) _ rfl⟩

/-- A look is of no account. -/
theorem Accounts.look (h : Accounts opts due report record) {f : Finding} {news : List Exchange}
    (hlook : Look c f news) : Accounts opts due report (record ++ news) := by
  have hnone : news.flatMap Exchange.submissions = [] ∧ news.flatMap Exchange.acceptances = [] ∧
      news.flatMap Exchange.rejections = [] := by
    cases hlook <;> exact ⟨rfl, rfl, rfl⟩
  obtain ⟨hsubmissions, hacceptances, hrejections⟩ := hnone
  constructor
  · rw [List.flatMap_append, hsubmissions, List.append_nil]
    exact h.transformed
  · rw [List.flatMap_append, hacceptances, List.append_nil]
    exact h.redefined
  · rw [List.flatMap_append, hrejections, List.append_nil]
    exact h.failed
  · exact h.batch

theorem nodup_unreadable_after (h : p.unreadable.Nodup) (c : LoadedClass) (f : Finding) :
    (p.after opts c f).unreadable.Nodup := by
  cases f with
  | declined => exact h
  | unchanged => exact h
  | edited bytes => exact h
  | unreadable =>
    simp only [Progress.after, Progress.noteUnreadable]
    by_cases hmem : ClassName.qualified c.name ∈ p.unreadable
    · rw [if_pos hmem]
      exact h
    · rw [if_neg hmem]
      exact h.append (List.nodup_singleton _) (List.disjoint_singleton.2 hmem)

/-- A look reads the class, unless the transformer declines it. -/
theorem Look.read_mem_append_iff {f : Finding} {news : List Exchange} (hlook : Look c f news)
    (c' : LoadedClass) (found : Except ReadError (Option Bytes)) :
    .read c' found ∈ record ++ news ↔
      .read c' found ∈ record ∨ c' = c ∧ news = [.decided c.name c.loader true, .read c found] := by
  rw [List.mem_append]
  cases hlook with
  | declined => simp
  | unreadable found' h =>
    simp only [List.mem_cons, reduceCtorEq, Exchange.read.injEq, List.not_mem_nil, or_false,
      false_or, List.cons.injEq, and_true, true_and]
    rw [eq_comm (a := found)]
  | read f hf found' h =>
    simp only [List.mem_cons, reduceCtorEq, Exchange.read.injEq, List.not_mem_nil, or_false,
      false_or, List.cons.injEq, and_true, true_and]
    rw [eq_comm (a := found)]

/-- A class is found to be unreadable when the read brings nothing. -/
theorem Look.eq_unreadable_iff {f : Finding} {found : Except ReadError (Option Bytes)}
    (hlook : Look c f [.decided c.name c.loader true, .read c found]) :
    f = .unreadable ↔ bringsNothing found = true := by
  cases hlook with
  | unreadable found h => exact iff_of_true rfl h
  | read f hf found h =>
    rw [h]
    exact iff_of_false hf nofun

theorem Look.exists_of_unreadable {news : List Exchange} (hlook : Look c .unreadable news) :
    ∃ found, news = [.decided c.name c.loader true, .read c found] ∧
      bringsNothing found = true := by
  cases hlook with
  | unreadable found h => exact ⟨found, rfl, h⟩
  | read f hf found h => exact absurd rfl hf

/-- After a look the names are those of the classes without bytes again. -/
theorem ListsUnread.look (h : ListsUnread p.unreadable record) {f : Finding}
    {news : List Exchange} (hlook : Look c f news) (harray : c.isArray = false) :
    ListsUnread (p.after opts c f).unreadable (record ++ news) where
  nodup := nodup_unreadable_after h.nodup c f
  mem_iff name := by
    simp only [mem_unreadable_after, h.mem_iff, hlook.read_mem_append_iff]
    constructor
    · rintro (⟨c', found, hread, hrest⟩ | ⟨rfl, rfl⟩)
      · exact ⟨c', found, Or.inl hread, hrest⟩
      · obtain ⟨found, hnews, hnothing⟩ := hlook.exists_of_unreadable
        exact ⟨c, found, Or.inr ⟨rfl, hnews⟩, hnothing, rfl⟩
    · rintro ⟨c', found, hread | ⟨rfl, rfl⟩, hnothing, hname⟩
      · exact Or.inl ⟨c', found, hread, hnothing, hname⟩
      · exact Or.inr ⟨hlook.eq_unreadable_iff.2 hnothing, hname.symm⟩
  eligible c' found hread := by
    rcases (hlook.read_mem_append_iff c' found).1 hread with hread | ⟨rfl, rfl⟩
    · obtain ⟨harray', hdecided⟩ := h.eligible c' found hread
      exact ⟨harray', List.mem_append_left _ hdecided⟩
    · exact ⟨harray, List.mem_append_right _ List.mem_cons_self⟩

/-- Report and record are in accord, in the middle of a pass. -/
structure Accord (opts : RedefineOptions) (report : RedefineReport) (p : Progress)
    (record : List Exchange) : Prop where
  accounts : Accounts opts 0 report record
  lists : ListsUnread p.unreadable record

/-- **Dealing with one class keeps report and record in accord.** -/
theorem Accord.consider_ensures (host : Instrumentation σ τ) (t : Transformer σ) (c : LoadedClass)
    {w : σ × List Exchange} (h : Accord opts report p w.2) :
    (consider host.onRecord t.onRecord opts p c).Ensures w fun p' w' =>
      Accord opts report p' w'.2 := by
  rw [consider_eq]
  by_cases hskip : (c.isArray || p.done.contains c.id) = true
  · rw [if_pos hskip]
    exact h
  · rw [if_neg hskip, map_eq_pure_bind, Act.ensures_bind]
    refine (inspect_look host t c w).imp fun f w' hlook => ?_
    obtain ⟨news, hrecord, hlook⟩ := hlook
    rw [Bool.or_eq_true, not_or, Bool.not_eq_true] at hskip
    rw [Act.ensures_pure, hrecord]
    exact ⟨h.accounts.look hlook, h.lists.look hlook hskip.1⟩

theorem Accord.collect_ensures (host : Instrumentation σ τ) (t : Transformer σ)
    {w : σ × List Exchange} (h : Accord opts report p w.2) :
    (collect host.onRecord t.onRecord opts p).Ensures w fun p' w' =>
      Accord opts report p' w'.2 := by
  rw [collect, Act.ensures_bind]
  exact Act.Ensures.of_forall (x := host.loadedClasses) (s := w.1) fun classes s =>
    Act.ensures_foldlM_of_step (s := (s, w.2)) (fun c _ _ _ h' => h'.consider_ensures host t c) h

/-! ### Submitting -/

/-- One answer to a submission settles as many definitions. -/
theorem Accounts.accepted (h : Accounts opts due report record) {ds : List ClassDefinition}
    {left : Nat} (hdue : due = ds.length + left) (answer : Unit) :
    Accounts opts left { report with redefined := report.redefined + ds.length }
      (record ++ [.submitted ds (.ok answer)]) where
  transformed := by
    show report.transformed = _
    rw [h.transformed, hdue, List.flatMap_append, List.length_append]
    simp [Exchange.submissions]
    omega
  redefined := by
    show report.redefined + _ = _
    rw [h.redefined, List.flatMap_append, List.length_append]
    simp [Exchange.acceptances]
  failed := by
    show report.failed = _
    rw [h.failed, List.flatMap_append]
    simp [Exchange.rejections]
  batch := h.batch

/-- Submitting reads nothing. -/
theorem ListsUnread.submitted (h : ListsUnread names record) (ds : List ClassDefinition)
    (answer : Except RedefinitionError Unit) :
    ListsUnread names (record ++ [.submitted ds answer]) where
  nodup := h.nodup
  mem_iff name := by simp [h.mem_iff]
  eligible c found hread := by
    rw [List.mem_append] at hread
    rcases hread with hread | hread
    · obtain ⟨harray, hdecided⟩ := h.eligible c found hread
      exact ⟨harray, List.mem_append_left _ hdecided⟩
    · cases List.mem_singleton.1 hread

theorem Accounts.rejected (h : Accounts opts due report record) {d : ClassDefinition} {left : Nat}
    (hdue : due = 1 + left) (hverbose : opts.verbose = true) (e : RedefinitionError) :
    Accounts opts left
      { report with failed := report.failed ++ [ClassName.qualified d.target.name] }
      (record ++ [.submitted [d] (.error e)]) where
  transformed := by
    show report.transformed = _
    rw [h.transformed, hdue, List.flatMap_append, List.length_append]
    simp [Exchange.submissions]
    omega
  redefined := by
    show report.redefined = _
    rw [h.redefined, List.flatMap_append, List.length_append]
    simp [Exchange.acceptances]
  failed := by
    show report.failed ++ _ = _
    rw [h.failed, List.flatMap_append, List.map_append]
    simp [Exchange.rejections]
  batch hbatch := by
    rw [hverbose] at hbatch
    cases hbatch

/-- Submitting definitions one at a time settles them all. -/
theorem Accounts.submitEach_ensures (host : Instrumentation σ τ) {edits : List ClassDefinition}
    {w : σ × List Exchange} (h : Accounts opts edits.length report w.2)
    (hverbose : opts.verbose = true) (hlists : ListsUnread names w.2) :
    (submitEach host.onRecord edits report).Ensures w fun report' w' =>
      Accounts opts 0 report' w'.2 ∧ ListsUnread names w'.2 := by
  -- each answer settles one of the definitions that are due
  induction edits generalizing report w with
  | nil => exact ⟨h, hlists⟩
  | cons edit edits ih =>
    have hdue : (edit :: edits).length = [edit].length + edits.length := Nat.add_comm _ _
    rw [submitEach, Act.ensures_bind, Act.ensures_report, Act.ensures_bind]
    refine (Act.ensures_noted _ _ _ _).2 (Act.Ensures.of_forall fun answer s => ?_)
    cases answer with
    | ok answer => exact ih (h.accepted hdue answer) (hlists.submitted _ _)
    | error e =>
      rw [Act.ensures_bind, Act.ensures_report]
      exact ih (h.rejected hdue hverbose e) (hlists.submitted _ _)

/-- **Submitting the edits of a pass keeps report and record in accord**, unless it ends the run. -/
theorem Accounts.submit_ensures (host : Instrumentation σ τ) {edits : List ClassDefinition}
    {w : σ × List Exchange} (h : Accounts opts edits.length report w.2)
    (hlists : ListsUnread names w.2) :
    (submit host.onRecord opts edits report).Ensures w fun result w' => ∀ report',
      result = .ok report' → Accounts opts 0 report' w'.2 ∧ ListsUnread names w'.2 := by
  rw [submit]
  by_cases hv : opts.verbose = true
  · rw [if_pos hv, Act.ensures_bind]
    refine (h.submitEach_ensures host hv hlists).imp fun report' w' h' => ?_
    rw [Act.ensures_pure]
    rintro _ ⟨⟩
    exact h'
  · rw [if_neg hv, Act.ensures_bind]
    refine (Act.ensures_noted _ _ _ _).2 (Act.Ensures.of_forall fun answer s => ?_)
    cases answer with
    | ok answer =>
      rw [Act.ensures_pure]
      rintro _ ⟨⟩
      exact ⟨h.accepted (Nat.add_zero _).symm answer, hlists.submitted _ _⟩
    | error e =>
      rintro _ ⟨⟩

/-! ### The whole run -/

theorem Accord.passes_ensures (host : Instrumentation σ τ) (t : Transformer σ)
    (limit pass : Nat) {w : σ × List Exchange} (h : Accord opts report p w.2) :
    (passes host.onRecord t.onRecord opts limit pass p report).Ensures w fun result w' =>
      ∀ report', result = .ok report' →
        Accounts opts 0 report' w'.2 ∧ ListsUnread report'.unreadable w'.2 := by
  induction limit generalizing pass p report w with
  | zero =>
    rintro _ ⟨⟩
  | succ limit ih =>
    rw [passes, Act.ensures_bind, Act.ensures_report, Act.ensures_bind]
    refine (h.collect_ensures host t).imp fun p' w₁ h₁ => ?_
    by_cases hempty : p'.pending.isEmpty = true
    · rw [if_pos hempty, Act.ensures_bind, Act.ensures_report, Act.ensures_pure]
      rintro _ ⟨⟩
      exact ⟨⟨h₁.accounts.transformed, h₁.accounts.redefined, h₁.accounts.failed,
        h₁.accounts.batch⟩, h₁.lists⟩
    · rw [if_neg hempty, Act.ensures_bind, Act.ensures_report, Act.ensures_bind]
      -- the edits of the pass count as transformed before any of them is submitted
      have hdue : Accounts opts p'.pending.length
          { report with
            passes := pass
            unreadable := p'.unreadable
            transformed := report.transformed + p'.pending.length } w₁.2 := by
        refine ⟨?_, h₁.accounts.redefined, h₁.accounts.failed, h₁.accounts.batch⟩
        show report.transformed + _ = _
        rw [h₁.accounts.transformed, Nat.add_zero]
      refine (hdue.submit_ensures host h₁.lists).imp fun result w₂ h₂ => ?_
      cases result with
      | error e =>
        rintro _ ⟨⟩
      | ok report' =>
        obtain ⟨haccounts, hlists⟩ := h₂ report' rfl
        exact ih (pass + 1) ⟨haccounts, hlists⟩

/-- What the report of a run says of the answers that were given in it. -/
structure AddsUp (opts : RedefineOptions) (report : RedefineReport) (record : List Exchange) :
    Prop where
  transformed : report.transformed = (record.flatMap Exchange.submissions).length
  balance : report.transformed = report.redefined + report.failed.length
  redefined : report.redefined = (record.flatMap Exchange.acceptances).length
  failed : report.failed =
    (record.flatMap Exchange.rejections).map fun d => ClassName.qualified d.target.name
  batch : opts.verbose = false → report.failed = []
  nodup : report.unreadable.Nodup
  unreadable : ∀ name, name ∈ report.unreadable ↔ ∃ c found, .read c found ∈ record ∧
    c.isArray = false ∧ .decided c.name c.loader true ∈ record ∧
    bringsNothing found = true ∧ ClassName.qualified c.name = name

theorem Accounts.addsUp (h : Accounts opts 0 report record)
    (hlists : ListsUnread report.unreadable record) : AddsUp opts report record where
  transformed := h.transformed
  balance := by
    rw [h.transformed, h.redefined, h.failed, List.length_map, Nat.add_zero,
      Exchange.length_flatMap_submissions]
  redefined := h.redefined
  failed := h.failed
  batch := h.batch
  nodup := hlists.nodup
  unreadable name := by
    rw [hlists.mem_iff]
    constructor
    · rintro ⟨c, found, hread, hnothing, hname⟩
      obtain ⟨harray, hdecided⟩ := hlists.eligible c found hread
      exact ⟨c, found, hread, harray, hdecided, hnothing, hname⟩
    · rintro ⟨c, found, hread, -, -, hnothing, hname⟩
      exact ⟨c, found, hread, hnothing, hname⟩

/-- **The report of a run adds up.**

The host and the transformer may answer whatever they like, and differently each time. The run whose
answers are put on record is the same run. If it comes to a report, the report counts as transformed
the definitions submitted, as redefined those in submissions that were accepted, and lists as failed
the names of those that were rejected, in order; in batch mode there are none. As unreadable it
lists, each once, the names of the classes that are no arrays, that the transformer accepts, and
that some read brought no bytes of. -/
theorem report_adds_up (host : Instrumentation σ τ) (t : Transformer σ) (opts : RedefineOptions)
    (s : σ) :
    let ran := (run host t opts).run s
    let recorded := (run host.onRecord t.onRecord opts).run (s, [])
    recorded.value = ran.value ∧ recorded.state.1 = ran.state ∧
      ∀ report, ran.value = .ok report → AddsUp opts report recorded.state.2 := by
  intro ran recorded
  obtain ⟨hvalue, hstate⟩ : ran.value = recorded.value ∧ ran.state = recorded.state.1 :=
    onRecord_alike host t opts (s, []) s rfl
  refine ⟨hvalue.symm, hstate.symm, fun report hreport => ?_⟩
  have hrun : (run host.onRecord t.onRecord opts).Ensures (s, []) fun result w =>
      ∀ report', result = .ok report' →
        Accounts opts 0 report' w.2 ∧ ListsUnread report'.unreadable w.2 := by
    rw [run, Act.ensures_bind]
    exact Act.Ensures.of_forall (x := host.passLimit) (s := s) fun limit s' =>
      Accord.passes_ensures host t limit 1 (w := (s', [])) ⟨.start opts, .start⟩
  obtain ⟨haccounts, hlists⟩ := hrun report (hvalue.symm.trans hreport)
  exact haccounts.addsUp hlists

/-- One class is redefined, the one that comes up then is rejected, and one has no bytes. -/
theorem report_adds_up_rejected_class :
    let host : Instrumentation (MemoryHost × Unit) Unit := MemoryHost.instrumentation
    let start : MemoryHost × Unit := ({ revealingHost with refused := ["p/B"] }, ())
    AddsUp ⟨true, true⟩
      { passes := 3, transformed := 2, redefined := 1, failed := ["p.B"], unreadable := ["p.N"] }
      ((run host.onRecord addMethod.onRecord ⟨true, true⟩).run (start, [])).state.2 := by
  intro host start
  have hreport : ((run host addMethod ⟨true, true⟩).run start).value = .ok
      { passes := 3, transformed := 2, redefined := 1, failed := ["p.B"],
        unreadable := ["p.N"] } := by decide +kernel
  exact (report_adds_up host addMethod ⟨true, true⟩ start).2.2 _ hreport

end Redefinition

end Reclass
