import Reclass.Proofs.Transform.Refinement

/-!
# Transformers that are functions

A transformer is pure when the loader, the name and the bytes of a class determine what it makes
of the class, and gated when it leaves alone what it declines. Every transformer made from an
edit, with a store or without, is gated. A transformer that keeps something beside it may be a
function in the states only that it can come to: it performs an edit there.
-/

set_option autoImplicit false

namespace Reclass

variable {σ : Type}

/-- What becomes of a class, by loader, internal name and bytes; none when it stays as it is. -/
abbrev ClassEdit : Type := LoaderId → String → Bytes → Option Bytes

namespace ClassEdit

/-- The bytes of a class after an edit. -/
def step (f : ClassEdit) (loader : LoaderId) (name : String) (bytes : Bytes) : Bytes :=
  (f loader name bytes).getD bytes

/-- The bytes of a class after a list of edits, each of them taken once and in order. -/
def steps (fs : List ClassEdit) (loader : LoaderId) (name : String) (bytes : Bytes) : Bytes :=
  fs.foldl (fun bytes f => step f loader name bytes) bytes

theorem steps_append (fs : List ClassEdit) (f : ClassEdit) (loader : LoaderId) (name : String)
    (bytes : Bytes) :
    steps (fs ++ [f]) loader name bytes = step f loader name (steps fs loader name bytes) := by
  rw [steps, List.foldl_append]
  rfl

end ClassEdit

namespace Transformer

/-- The transformer does from every state what the edit says. -/
def Pure (t : Transformer σ) (f : ClassEdit) : Prop :=
  ∀ r s, (t.apply r).Ensures s fun v _ => v = f r.loader r.className r.bytes

/-- In a state in which the transformer declines a class it leaves the class as it is. -/
def Gated (t : Transformer σ) : Prop :=
  ∀ r s, (t.accepts r.className r.loader).Ensures s fun accepted _ =>
    accepted = false → (t.apply r).Ensures s fun v _ => v = none

/-- In states with the property `J` the transformer does what the edit says, and keeps the
property. -/
def Does (t : Transformer σ) (J : σ → Prop) (f : ClassEdit) : Prop :=
  ∀ r s, J s → (t.apply r).Ensures s fun v s' => v = f r.loader r.className r.bytes ∧ J s'

/-- In states with the property `J` the transformer does what the edit says, and declines only
classes that the edit leaves alone. -/
structure Performs (t : Transformer σ) (J : σ → Prop) (f : ClassEdit) : Prop where
  accepts : ∀ name loader s, J s → (t.accepts name loader).Ensures s fun accepted s' =>
    (accepted = false → ∀ bytes, f loader name bytes = none) ∧ J s'
  apply : t.Does J f

theorem Pure.does {t : Transformer σ} {f : ClassEdit} (hp : t.Pure f) :
    t.Does (fun _ => True) f :=
  fun r s _ => (hp r s).imp fun _ _ h => ⟨h, trivial⟩

theorem Pure.eq_none {t : Transformer σ} {f : ClassEdit} (hp : t.Pure f) (hg : t.Gated)
    (r : TransformRequest) (s : σ) :
    (t.accepts r.className r.loader).Ensures s fun accepted _ =>
      accepted = false → f r.loader r.className r.bytes = none := by
  refine (hg r s).imp fun accepted _ h haccepted => ?_
  have hvalue : (t.apply r).Ensures s fun v _ => v = none := h haccepted
  have hedit : (t.apply r).Ensures s fun v _ => v = f r.loader r.className r.bytes := hp r s
  exact Eq.trans (Eq.symm hedit) hvalue

theorem Pure.performs {t : Transformer σ} {f : ClassEdit} (hp : t.Pure f) (hg : t.Gated) :
    t.Performs (fun _ => True) f where
  accepts name loader s _ :=
    ⟨fun h bytes => hp.eq_none hg ⟨loader, name, none, bytes⟩ s h, trivial⟩
  apply := hp.does

end Transformer

namespace Transformation

/-- The direct transformer asks the edit first. -/
theorem direct_gated (t : Transformation σ) : t.direct.Gated := by
  intro r s
  show ((t.accepts r.className r.loader).run s).value = false →
    (t.applyDirectly r).Ensures s fun v _ => v = none
  intro h
  rw [applyDirectly, Act.ensures_bind, Act.Ensures, h]
  exact rfl

theorem Functional.direct_pure {t : Transformation σ} {eligible : String → LoaderId → Bool}
    {outcome : String → Bytes → EditOutcome} (h : t.Functional eligible outcome) :
    t.direct.Pure fun loader name bytes =>
      answer eligible outcome ⟨loader, name, none, bytes⟩ :=
  fun r s => h.applyDirectly r s

end Transformation

namespace CachingTransformer

/-- The caching transformer asks the edit before the store. -/
theorem transformer_gated (c : CachingTransformer σ) : c.transformer.Gated := by
  intro r s
  show ((c.inner.accepts r.className r.loader).run s.2).value = false →
    (c.apply r).Ensures s fun v _ => v = none
  intro h
  rw [apply, Act.ensures_bind, Act.ensures_zoom, Act.Ensures]
  show (if !((c.inner.accepts r.className r.loader).run s.2).value then _ else _ :
    Act (TransformStats × σ) (Option Bytes)).Ensures _ _
  rw [h]
  exact rfl

end CachingTransformer

end Reclass
