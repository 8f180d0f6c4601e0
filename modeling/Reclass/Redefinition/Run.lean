import Reclass.Redefinition.Host

/-!
# Redefining loaded classes

A run takes passes over the loaded classes. Each pass looks at every class that
no earlier pass of the run has dealt with, transforms it, and submits the edits.
Redefining can make the host load more classes, so passes go on until one of
them yields no edit. Array classes are never looked at.
-/

set_option autoImplicit false

namespace Reclass

/-- How a run treats failures. -/
structure RedefineOptions where
  /-- Submit edits one at a time and go on past those that are rejected, instead
  of submitting each pass as one batch. -/
  verbose : Bool := false
  /-- Look again, in later passes, at classes whose bytes could not be read. -/
  retryUnreadable : Bool := false
  deriving DecidableEq, Repr

/-- What a run has done. -/
structure RedefineReport where
  passes : Nat := 0
  transformed : Nat := 0
  redefined : Nat := 0
  /-- Qualified names of rejected classes. -/
  failed : List String := []
  /-- Qualified names of classes whose bytes could not be read, each once. -/
  unreadable : List String := []
  deriving DecidableEq, Repr

namespace Redefinition

variable {σ τ : Type}

/-- Where a run stands within a pass. -/
structure Progress where
  /-- The classes dealt with. -/
  done : List Nat := []
  /-- The edits of the pass, in order. -/
  pending : List ClassDefinition := []
  unreadable : List String := []
  deriving DecidableEq, Repr

/-- Notes that the bytes of a class could not be read. -/
def Progress.noteUnreadable (p : Progress) (opts : RedefineOptions) (c : LoadedClass) :
    Progress :=
  let name := ClassName.qualified c.name
  { p with
    unreadable := if name ∈ p.unreadable then p.unreadable else p.unreadable ++ [name]
    done := if opts.retryUnreadable then p.done.filter (· ≠ c.id) else p.done }

/-- Transforms a class whose bytes are at hand. -/
def transform (t : Transformer σ) (c : LoadedClass) (bytes : Bytes) (p : Progress) :
    Act σ Progress := do
  match ← t.apply { loader := c.loader, className := c.name, redefining := some c, bytes } with
  | some edited => return { p with pending := p.pending ++ [⟨c, edited⟩] }
  | none => return p

/-- Deals with one class of the snapshot. -/
def consider (host : Instrumentation σ τ) (t : Transformer σ) (opts : RedefineOptions)
    (p : Progress) (c : LoadedClass) : Act σ Progress := do
  if c.isArray || p.done.contains c.id then return p
  -- A class that is declined is dealt with, too.
  let p := { p with done := c.id :: p.done }
  if !(← t.accepts c.name c.loader) then return p
  match ← host.classBytes c with
  | .error e =>
    Act.report .redefinition .warn
      ("Failed to read class resource: " ++ c.name ++ " loaded by " ++ c.loader.text ++ ": " ++
        e.message)
    return p.noteUnreadable opts c
  | .ok none | .ok (some []) =>
    Act.report .redefinition .warn
      ("Cannot read class resource: " ++ c.name ++ " loaded by " ++ c.loader.text)
    return p.noteUnreadable opts c
  | .ok (some bytes) => transform t c bytes p

/-- Deals with every class that is loaded now. -/
def collect (host : Instrumentation σ τ) (t : Transformer σ) (opts : RedefineOptions)
    (p : Progress) : Act σ Progress := do
  let classes ← host.loadedClasses
  classes.foldlM (consider host t opts) p

/-- Submits edits one at a time. -/
def submitEach (host : Instrumentation σ τ) :
    List ClassDefinition → RedefineReport → Act σ RedefineReport
  | [], report => return report
  | edit :: edits, report => do
    let name := ClassName.qualified edit.target.name
    Act.report .redefinition .debug ("Redefining class " ++ name)
    match ← host.redefine [edit] with
    | .ok () => submitEach host edits { report with redefined := report.redefined + 1 }
    | .error e =>
      Act.report .redefinition .error ("Failed to redefine class " ++ name ++ ": " ++ e.message)
      submitEach host edits { report with failed := report.failed ++ [name] }

/-- Submits the edits of a pass. -/
def submit (host : Instrumentation σ τ) (opts : RedefineOptions) (edits : List ClassDefinition)
    (report : RedefineReport) : Act σ (Except RedefinitionError RedefineReport) := do
  if opts.verbose then
    return .ok (← submitEach host edits report)
  match ← host.redefine edits with
  | .ok () => return .ok { report with redefined := report.redefined + edits.length }
  | .error e => return .error (.batch edits.length e)

/-- The passes of a run from pass number `pass` on, at most `limit` of them. -/
def passes (host : Instrumentation σ τ) (t : Transformer σ) (opts : RedefineOptions) :
    (limit pass : Nat) → Progress → RedefineReport →
      Act σ (Except RedefinitionError RedefineReport)
  | 0, pass, _, _ => return .error (.unsettled (pass - 1))
  | limit + 1, pass, p, report => do
    let number := "#" ++ Text.decimal pass
    Act.report .redefinition .debug ("Redefining classes pass " ++ number ++ "...")
    let p ← collect host t opts p
    let edits := p.pending
    let report := { report with passes := pass, unreadable := p.unreadable }
    if edits.isEmpty then
      Act.report .redefinition .debug ("No more classes to redefine after pass " ++ number)
      return .ok report
    Act.report .redefinition .debug
      ("Redefining " ++ Text.decimal edits.length ++ " classes in pass " ++ number)
    let report := { report with transformed := report.transformed + edits.length }
    match ← submit host opts edits report with
    | .error e => return .error e
    | .ok report => passes host t opts limit (pass + 1) { p with pending := [] } report

/-- Redefines the loaded classes with a transformer. In batch mode a rejected
batch ends the run. -/
def run (host : Instrumentation σ τ) (t : Transformer σ) (opts : RedefineOptions) :
    Act σ (Except RedefinitionError RedefineReport) := do
  passes host t opts (← host.passLimit) 1 {} {}

end Redefinition

end Reclass
