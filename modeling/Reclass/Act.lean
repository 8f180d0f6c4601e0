import Reclass.Event

/-!
# Steps that change a state and report events

`Act σ α` is a step over a state `σ`: from every state it yields a value, the
next state and the events reported on the way. Events are an output only, so no
later step can depend on them.

A `Lens` picks out a part of a state; `Act.zoom` runs a step over the part as a
step over the whole. Components are written over a state of their own and a
state `σ` of their surroundings, and are put together by zooming.
-/

set_option autoImplicit false

namespace Reclass

/-- What a step leaves behind. -/
structure Outcome (σ α : Type) where
  value : α
  state : σ
  /-- Oldest first. -/
  events : List Event

/-- A step over a state. -/
def Act (σ α : Type) : Type := σ → Outcome σ α

namespace Act

variable {σ τ α β : Type}

/-- Runs a step from a state. -/
def run (x : Act σ α) (s : σ) : Outcome σ α := x s

protected def pure (a : α) : Act σ α := fun s => ⟨a, s, []⟩

protected def bind (x : Act σ α) (f : α → Act σ β) : Act σ β := fun s =>
  let first := x s
  let second := f first.value first.state
  ⟨second.value, second.state, first.events ++ second.events⟩

instance : Monad (Act σ) where
  pure := Act.pure
  bind := Act.bind

/-- The current state. -/
def get : Act σ σ := fun s => ⟨s, s, []⟩

/-- Replaces the state. -/
def set (s : σ) : Act σ Unit := fun _ => ⟨(), s, []⟩

/-- Changes the state. -/
def modify (f : σ → σ) : Act σ Unit := fun s => ⟨(), f s, []⟩

/-- A value of the current state. -/
def gets (f : σ → α) : Act σ α := fun s => ⟨f s, s, []⟩

/-- Changes the state and yields a value of it. -/
def modifyGet (f : σ → α × σ) : Act σ α := fun s =>
  let (a, s) := f s
  ⟨a, s, []⟩

/-- Reports an event. -/
def report (topic : Topic) (level : Level) (text : String) : Act σ Unit := fun s =>
  ⟨(), s, [{ topic, level, text }]⟩

/-- Yields the events of a step along with its value. -/
def listen (x : Act σ α) : Act σ (α × List Event) := fun s =>
  let out := x s
  ⟨(out.value, out.events), out.state, out.events⟩

/-- Runs a step inside a span of work. -/
def within (span : Span) (x : Act σ α) : Act σ α := fun s =>
  let out := x s
  { out with events := out.events.map (Event.within span) }

@[simp] theorem run_pure (a : α) (s : σ) : (pure a : Act σ α).run s = ⟨a, s, []⟩ := rfl

@[simp] theorem run_bind (x : Act σ α) (f : α → Act σ β) (s : σ) :
    (x >>= f).run s =
      let first := x.run s
      let second := (f first.value).run first.state
      ⟨second.value, second.state, first.events ++ second.events⟩ := rfl

@[simp] theorem run_get (s : σ) : (get : Act σ σ).run s = ⟨s, s, []⟩ := rfl

@[simp] theorem run_set (s t : σ) : (set t : Act σ Unit).run s = ⟨(), t, []⟩ := rfl

@[simp] theorem run_modify (f : σ → σ) (s : σ) : (modify f).run s = ⟨(), f s, []⟩ := rfl

@[simp] theorem run_gets (f : σ → α) (s : σ) : (gets f).run s = ⟨f s, s, []⟩ := rfl

@[simp] theorem run_modifyGet (f : σ → α × σ) (s : σ) :
    (modifyGet f).run s = ⟨(f s).1, (f s).2, []⟩ := rfl

@[simp] theorem run_report (topic : Topic) (level : Level) (text : String) (s : σ) :
    (report topic level text : Act σ Unit).run s = ⟨(), s, [{ topic, level, text }]⟩ := rfl

@[simp] theorem run_listen (x : Act σ α) (s : σ) :
    (listen x).run s = ⟨((x.run s).value, (x.run s).events), (x.run s).state, (x.run s).events⟩ :=
  rfl

@[simp] theorem run_within (span : Span) (x : Act σ α) (s : σ) :
    (within span x).run s =
      ⟨(x.run s).value, (x.run s).state, (x.run s).events.map (Event.within span)⟩ := rfl

theorem bind_assoc_eq {γ : Type} (x : Act σ α) (f : α → Act σ β) (g : β → Act σ γ) :
    x >>= f >>= g = x >>= fun a => f a >>= g := by
  funext s
  show Outcome.mk _ _ ((_ ++ _) ++ _) = Outcome.mk _ _ (_ ++ (_ ++ _))
  rw [List.append_assoc]
  rfl

instance : LawfulMonad (Act σ) :=
  LawfulMonad.mk' (Act σ)
    (by
      intro α x
      funext s
      show Outcome.mk (x s).value (x s).state ((x s).events ++ []) = x s
      rw [List.append_nil])
    (fun _ _ => rfl) bind_assoc_eq

end Act

/-- A part of a state that can be read and replaced. -/
structure Lens (σ τ : Type) where
  get : σ → τ
  set : τ → σ → σ
  get_set : ∀ t s, get (set t s) = t
  set_get : ∀ s, set (get s) s = s
  set_set : ∀ t t' s, set t (set t' s) = set t s

namespace Lens

variable {σ τ υ : Type}

/-- The whole state. -/
def id : Lens σ σ where
  get s := s
  set t _ := t
  get_set _ _ := rfl
  set_get _ := rfl
  set_set _ _ _ := rfl

/-- The first component of a pair. -/
def fst : Lens (σ × τ) σ where
  get s := s.1
  set a s := (a, s.2)
  get_set _ _ := rfl
  set_get _ := rfl
  set_set _ _ _ := rfl

/-- The second component of a pair. -/
def snd : Lens (σ × τ) τ where
  get s := s.2
  set b s := (s.1, b)
  get_set _ _ := rfl
  set_get _ := rfl
  set_set _ _ _ := rfl

/-- A part of a part. -/
def comp (l : Lens σ τ) (m : Lens τ υ) : Lens σ υ where
  get s := m.get (l.get s)
  set u s := l.set (m.set u (l.get s)) s
  get_set u s := by rw [l.get_set, m.get_set]
  set_get s := by rw [m.set_get, l.set_get]
  set_set u u' s := by rw [l.get_set, m.set_set, l.set_set]

end Lens

namespace Act

variable {σ τ α : Type}

/-- A step over a part as a step over the whole. -/
def zoom (l : Lens σ τ) (x : Act τ α) : Act σ α := fun s =>
  let out := x (l.get s)
  ⟨out.value, l.set out.state s, out.events⟩

@[simp] theorem run_zoom (l : Lens σ τ) (x : Act τ α) (s : σ) :
    (zoom l x).run s =
      ⟨(x.run (l.get s)).value, l.set (x.run (l.get s)).state s, (x.run (l.get s)).events⟩ := rfl

end Act

/-- A step that can fail; whatever it did before failing stays done. -/
abbrev Attempt (σ ε α : Type) : Type := ExceptT ε (Act σ) α

namespace Attempt

variable {σ ε ε' α : Type}

/-- A step that yields a result or a failure. -/
def of (x : Act σ (Except ε α)) : Attempt σ ε α := ExceptT.mk x

/-- A step that cannot fail. -/
def act (x : Act σ α) : Attempt σ ε α := ExceptT.lift x

/-- The outcome of an attempt as a value. -/
def result (x : Attempt σ ε α) : Act σ (Except ε α) := ExceptT.run x

/-- Rewords the failure. -/
def mapError (f : ε → ε') (x : Attempt σ ε α) : Attempt σ ε' α :=
  of do
    match ← x.result with
    | .ok a => pure (.ok a)
    | .error e => pure (.error (f e))

/-- Runs an attempt over a part of the state. -/
def zoom {τ : Type} (l : Lens σ τ) (x : Attempt τ ε α) : Attempt σ ε α := of (Act.zoom l x.result)

end Attempt

end Reclass
