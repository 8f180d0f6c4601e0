import Reclass.Proofs.Act
import Reclass.Redefinition.Run

/-!
# Redefinition runs on record

The report of a run does not say what happened to each class. `runNoting` is the run with a record
of every pass: the classes that were loaded, what came of each class that was looked at, and the
batches that the host was handed. Without the record it is `Redefinition.run`
(`fst_map_runNoting`).
-/

set_option autoImplicit false

namespace Reclass

/-- A step that sees through a fold: folding and then looking is folding what is seen. -/
theorem Act.map_foldlM {σ α β γ : Type} (g : β → γ) {f : β → α → Act σ β} {f' : γ → α → Act σ γ}
    (h : ∀ b a, g <$> f b a = f' (g b) a) (as : List α) (b : β) :
    g <$> as.foldlM f b = as.foldlM f' (g b) := by
  induction as generalizing b with
  | nil => simp only [List.foldlM_nil, map_pure]
  | cons a as ih => simp only [List.foldlM_cons, map_bind, ih, ← h, bind_map_left]

namespace Redefinition

variable {σ τ : Type}

/-- What came of looking at a class. -/
inductive Finding where
  /-- The transformer does not process the class. -/
  | declined
  /-- The host has no bytes for it. -/
  | unreadable
  /-- The transformer has no edit for it. -/
  | unchanged
  | edited (bytes : Bytes)
  deriving DecidableEq, Repr

/-- Looks at a class, and says what came of it. -/
def inspect (host : Instrumentation σ τ) (t : Transformer σ) (c : LoadedClass) : Act σ Finding := do
  if !(← t.accepts c.name c.loader) then return .declined
  match ← host.classBytes c with
  | .error e =>
    Act.report .redefinition .warn
      ("Failed to read class resource: " ++ c.name ++ " loaded by " ++ c.loader.text ++ ": " ++
        e.message)
    return .unreadable
  | .ok none | .ok (some []) =>
    Act.report .redefinition .warn
      ("Cannot read class resource: " ++ c.name ++ " loaded by " ++ c.loader.text)
    return .unreadable
  | .ok (some bytes) =>
    match ← t.apply { loader := c.loader, className := c.name, redefining := some c, bytes } with
    | some edited => return .edited edited
    | none => return .unchanged

/-- Where a pass stands after it has looked at a class. -/
def Progress.after (p : Progress) (opts : RedefineOptions) (c : LoadedClass) :
    Finding → Progress
  | .declined | .unchanged => { p with done := c.id :: p.done }
  | .unreadable => { p with done := c.id :: p.done }.noteUnreadable opts c
  | .edited bytes => { p with done := c.id :: p.done, pending := p.pending ++ [⟨c, bytes⟩] }

section Progress

variable {opts : RedefineOptions} {p : Progress} {c : LoadedClass} {f : Finding}

/-- Noting a class as unreadable leaves it out or marks it as dealt with. -/
theorem mem_noteUnreadable {p : Progress} {c : LoadedClass} {i : Nat} :
    i ∈ (p.noteUnreadable opts c).done ↔ i ∈ p.done ∧ (opts.retryUnreadable = true → i ≠ c.id) := by
  unfold Progress.noteUnreadable
  by_cases hr : opts.retryUnreadable = true
  · simp [hr]
  · simp [hr]

theorem mem_unreadable_noteUnreadable {name : String} : name ∈ (p.noteUnreadable opts c).unreadable ↔
    name ∈ p.unreadable ∨ name = ClassName.qualified c.name := by
  unfold Progress.noteUnreadable
  by_cases h : ClassName.qualified c.name ∈ p.unreadable
  · simp only [if_pos h]
    constructor
    · exact Or.inl
    · rintro (hn | rfl)
      · exact hn
      · exact h
  · simp only [if_neg h, List.mem_append, List.mem_singleton]

theorem mem_done_after {i : Nat} : i ∈ (p.after opts c f).done ↔
    (i = c.id ∨ i ∈ p.done) ∧ (f = .unreadable → opts.retryUnreadable = true → i ≠ c.id) := by
  cases f with
  | unreadable =>
    rw [Progress.after, mem_noteUnreadable, List.mem_cons]
    simp only [forall_const]
  | declined => simp [Progress.after]
  | unchanged => simp [Progress.after]
  | edited bytes => simp [Progress.after]

theorem mem_unreadable_after {name : String} : name ∈ (p.after opts c f).unreadable ↔
    name ∈ p.unreadable ∨ (f = .unreadable ∧ name = ClassName.qualified c.name) := by
  cases f with
  | unreadable =>
    rw [Progress.after, mem_unreadable_noteUnreadable]
    simp only [true_and]
  | declined => simp [Progress.after]
  | unchanged => simp [Progress.after]
  | edited bytes => simp [Progress.after]

/-- The definition that a finding about a class leads to. -/
def Finding.edit? (c : LoadedClass) : Finding → Option ClassDefinition
  | .edited bytes => some ⟨c, bytes⟩
  | _ => none

theorem pending_after : (p.after opts c f).pending = p.pending ++ (f.edit? c).toList := by
  cases f with
  | edited bytes => rfl
  | declined => exact (List.append_nil _).symm
  | unreadable => exact (List.append_nil _).symm
  | unchanged => exact (List.append_nil _).symm

end Progress

theorem consider_eq (host : Instrumentation σ τ) (t : Transformer σ) (opts : RedefineOptions)
    (p : Progress) (c : LoadedClass) :
    consider host t opts p c =
      if c.isArray || p.done.contains c.id then pure p
      else p.after opts c <$> inspect host t c := by
  rw [consider]
  by_cases hskip : (c.isArray || p.done.contains c.id) = true
  · rw [if_pos hskip, if_pos hskip]
  · rw [if_neg hskip, if_neg hskip, inspect, map_bind]
    refine bind_congr fun accepted => ?_
    cases accepted with
    | false => rfl
    | true =>
      simp only [Bool.not_true, Bool.false_eq_true, if_false, map_bind]
      refine bind_congr fun content => ?_
      cases content with
      | error e => rfl
      | ok found =>
        cases found with
        | none => rfl
        | some bytes =>
          cases bytes with
          | nil => rfl
          | cons b bytes =>
            simp only [transform, map_bind]
            refine bind_congr fun edited => ?_
            cases edited with
            | none => rfl
            | some edited => rfl

/-- What became of one pass. -/
structure PassRecord where
  /-- The classes that were loaded. -/
  listed : List LoadedClass
  /-- The classes that were looked at, in order. -/
  findings : List (LoadedClass × Finding)
  /-- The definitions that the host was asked to replace together, in order. -/
  batches : List (List ClassDefinition)

/-- The definitions that a pass submitted. -/
def PassRecord.submitted (r : PassRecord) : List ClassDefinition := r.batches.flatten

/-- Deals with one class and adds to the findings. -/
def considerNoting (host : Instrumentation σ τ) (t : Transformer σ) (opts : RedefineOptions)
    (p : Progress × List (LoadedClass × Finding)) (c : LoadedClass) :
    Act σ (Progress × List (LoadedClass × Finding)) :=
  if c.isArray || p.1.done.contains c.id then pure p
  else (fun f => (p.1.after opts c f, p.2 ++ [(c, f)])) <$> inspect host t c

/-- Deals with every class that is loaded now; yields the list of them and the findings, too. -/
def collectNoting (host : Instrumentation σ τ) (t : Transformer σ) (opts : RedefineOptions)
    (p : Progress) : Act σ (Progress × List LoadedClass × List (LoadedClass × Finding)) := do
  let classes ← host.loadedClasses
  let (p, findings) ← classes.foldlM (considerNoting host t opts) (p, [])
  return (p, classes, findings)

end Redefinition

namespace Instrumentation

variable {σ τ : Type}

/-- The host, which writes down each batch that it is handed. -/
def noting (host : Instrumentation σ τ) :
    Instrumentation (σ × List (List ClassDefinition)) τ where
  loadedClasses := Act.zoom .fst host.loadedClasses
  classBytes c := Act.zoom .fst (host.classBytes c)
  redefine ds := do
    Act.zoom .snd (Act.modify fun batches => batches ++ [ds])
    Act.zoom .fst (host.redefine ds)
  addTransformer t := Act.zoom .fst (host.addTransformer t)
  passLimit := Act.zoom .fst host.passLimit

end Instrumentation

namespace Redefinition

variable {σ τ : Type}

/-- Submits the edits of a pass; yields the batches that the host was handed, too. -/
def submitNoting (host : Instrumentation σ τ) (opts : RedefineOptions)
    (edits : List ClassDefinition) (report : RedefineReport) :
    Act σ (Except RedefinitionError RedefineReport × List (List ClassDefinition)) := fun s =>
  let out := (submit host.noting opts edits report).run (s, [])
  ⟨(out.value, out.state.2), out.state.1, out.events⟩

/-- The passes of a run with their records. -/
def passesNoting (host : Instrumentation σ τ) (t : Transformer σ) (opts : RedefineOptions) :
    (limit pass : Nat) → Progress → RedefineReport →
      Act σ (Except RedefinitionError RedefineReport × List PassRecord)
  | 0, pass, _, _ => return (.error (.unsettled (pass - 1)), [])
  | limit + 1, pass, p, report => do
    let number := "#" ++ Text.decimal pass
    Act.report .redefinition .debug ("Redefining classes pass " ++ number ++ "...")
    let (p, listed, findings) ← collectNoting host t opts p
    let edits := p.pending
    let report := { report with passes := pass, unreadable := p.unreadable }
    if edits.isEmpty then
      Act.report .redefinition .debug ("No more classes to redefine after pass " ++ number)
      return (.ok report, [⟨listed, findings, []⟩])
    Act.report .redefinition .debug
      ("Redefining " ++ Text.decimal edits.length ++ " classes in pass " ++ number)
    let report := { report with transformed := report.transformed + edits.length }
    match ← submitNoting host opts edits report with
    | (.error e, batches) => return (.error e, [⟨listed, findings, batches⟩])
    | (.ok report, batches) =>
      let (result, records) ←
        passesNoting host t opts limit (pass + 1) { p with pending := [] } report
      return (result, ⟨listed, findings, batches⟩ :: records)

/-- A run with its record. -/
def runNoting (host : Instrumentation σ τ) (t : Transformer σ) (opts : RedefineOptions) :
    Act σ (Except RedefinitionError RedefineReport × List PassRecord) := do
  passesNoting host t opts (← host.passLimit) 1 {} {}

/-! ### Without the record it is the run -/

theorem fst_map_considerNoting (host : Instrumentation σ τ) (t : Transformer σ)
    (opts : RedefineOptions) (p : Progress × List (LoadedClass × Finding)) (c : LoadedClass) :
    Prod.fst <$> considerNoting host t opts p c = consider host t opts p.1 c := by
  rw [consider_eq, considerNoting]
  by_cases hskip : (c.isArray || p.1.done.contains c.id) = true
  · rw [if_pos hskip, if_pos hskip, map_pure]
  · rw [if_neg hskip, if_neg hskip, Functor.map_map]

theorem fst_map_collectNoting (host : Instrumentation σ τ) (t : Transformer σ)
    (opts : RedefineOptions) (p : Progress) :
    Prod.fst <$> collectNoting host t opts p = collect host t opts p := by
  rw [collectNoting, collect, map_bind]
  refine bind_congr fun classes => ?_
  rw [← Act.map_foldlM Prod.fst (fst_map_considerNoting host t opts) classes (p, [])]
  simp only [map_eq_pure_bind, bind_assoc, pure_bind]

/-- The step `y` over a noting host does what `x` does and writes down the batches. -/
def Hands {α : Type} (batches : List (List ClassDefinition)) (x : Act σ α)
    (y : Act (σ × List (List ClassDefinition)) α) : Prop :=
  ∀ s before, y.run (s, before) =
    ⟨(x.run s).value, ((x.run s).state, before ++ batches), (x.run s).events⟩

theorem Hands.bind {α β : Type} {bs bs' : List (List ClassDefinition)} {x : Act σ α}
    {y : Act (σ × List (List ClassDefinition)) α} {f : α → Act σ β}
    {g : α → Act (σ × List (List ClassDefinition)) β} (h : Hands bs x y)
    (hf : ∀ a, Hands bs' (f a) (g a)) : Hands (bs ++ bs') (x >>= f) (y >>= g) := by
  intro s before
  have hrest := hf (x.run s).value (x.run s).state (before ++ bs)
  rw [List.append_assoc] at hrest
  simp only [Act.run_bind, h s before, hrest]

theorem hands_pure {α : Type} (a : α) : Hands [] (pure a : Act σ α) (pure a) := by
  intro s before
  rw [List.append_nil]
  rfl

theorem hands_report (topic : Topic) (level : Level) (text : String) :
    Hands [] (Act.report topic level text : Act σ Unit) (Act.report topic level text) := by
  intro s before
  rw [List.append_nil]
  rfl

theorem hands_redefine (host : Instrumentation σ τ) (ds : List ClassDefinition) :
    Hands [ds] (host.redefine ds) (host.noting.redefine ds) := fun _ _ => rfl

/-- Edits that are submitted one at a time make a batch each. -/
theorem hands_submitEach (host : Instrumentation σ τ) (edits : List ClassDefinition)
    (report : RedefineReport) :
    Hands (edits.map fun e => [e]) (submitEach host edits report)
      (submitEach host.noting edits report) := by
  induction edits generalizing report with
  | nil => exact hands_pure report
  | cons edit edits ih =>
    refine (hands_report _ _ _).bind fun _ => (hands_redefine host [edit]).bind fun r => ?_
    cases r with
    | ok _ => exact ih _
    | error e => exact (hands_report _ _ _).bind fun _ => ih _

/-- The host is handed each edit of a pass once and nothing else. -/
theorem submit_hands (host : Instrumentation σ τ) (opts : RedefineOptions)
    (edits : List ClassDefinition) (report : RedefineReport) :
    ∃ batches, batches.flatten = edits ∧
      Hands batches (submit host opts edits report) (submit host.noting opts edits report) := by
  unfold submit
  by_cases hv : opts.verbose = true
  · simp only [if_pos hv]
    refine ⟨edits.map (fun e => [e]) ++ [], ?_, (hands_submitEach host edits report).bind
      fun report => hands_pure _⟩
    rw [List.append_nil, ← List.flatMap_def]
    exact List.flatMap_singleton' edits
  · simp only [if_neg hv]
    refine ⟨[edits] ++ [], by simp, (hands_redefine host edits).bind fun r => ?_⟩
    cases r with
    | ok _ => exact hands_pure _
    | error e => exact hands_pure _

theorem fst_map_submitNoting (host : Instrumentation σ τ) (opts : RedefineOptions)
    (edits : List ClassDefinition) (report : RedefineReport) :
    Prod.fst <$> submitNoting host opts edits report = submit host opts edits report := by
  obtain ⟨batches, -, h⟩ := submit_hands host opts edits report
  funext s
  have hs := h s []
  rw [map_eq_pure_bind]
  show Outcome.mk _ _ (_ ++ []) = (submit host opts edits report).run s
  rw [List.append_nil]
  simp only [submitNoting, hs]
  rfl

theorem fst_map_passesNoting (host : Instrumentation σ τ) (t : Transformer σ)
    (opts : RedefineOptions) (limit pass : Nat) (p : Progress) (report : RedefineReport) :
    Prod.fst <$> passesNoting host t opts limit pass p report =
      passes host t opts limit pass p report := by
  induction limit generalizing pass p report with
  | zero => rfl
  | succ limit ih =>
    rw [passesNoting, passes, map_bind]
    refine bind_congr fun _ => ?_
    rw [← fst_map_collectNoting, map_bind, bind_map_left]
    refine bind_congr fun collected => ?_
    obtain ⟨p', listed, findings⟩ := collected
    by_cases hempty : p'.pending.isEmpty = true
    · simp only [if_pos hempty]
      rfl
    · simp only [if_neg hempty, map_bind]
      refine bind_congr fun _ => ?_
      rw [← fst_map_submitNoting, bind_map_left]
      refine bind_congr fun submitted => ?_
      obtain ⟨r, batches⟩ := submitted
      cases r with
      | error e => rfl
      | ok report' =>
        simp only [map_bind, map_pure, ← ih]
        rw [map_eq_pure_bind]

theorem fst_map_runNoting (host : Instrumentation σ τ) (t : Transformer σ)
    (opts : RedefineOptions) : Prod.fst <$> runNoting host t opts = run host t opts := by
  rw [runNoting, run, map_bind]
  refine bind_congr fun limit => ?_
  exact fst_map_passesNoting host t opts limit 1 {} {}

/-- A run and the run that keeps a record have one outcome, but for the record. -/
theorem run_eq_runNoting (host : Instrumentation σ τ) (t : Transformer σ) (opts : RedefineOptions)
    (s : σ) : (run host t opts).run s = ⟨((runNoting host t opts).run s).value.1,
      ((runNoting host t opts).run s).state, ((runNoting host t opts).run s).events⟩ := by
  rw [← fst_map_runNoting, map_eq_pure_bind, Act.run_bind]
  show Outcome.mk _ _ (_ ++ []) = _
  rw [List.append_nil]
  rfl

end Redefinition

end Reclass
