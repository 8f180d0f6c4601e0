import Reclass.Proofs.Act
import Reclass.Transform.Caching

/-!
# Two caching transformers side by side

Two caching transformers over different states go along with each other when their edits, their
stores and their places for showing results do (`CachingTransformer.Alike`): from related states
each call gives the same answer, counts the same and ends in related states
(`CachingTransformer.Alike.apply`).
-/

set_option autoImplicit false

namespace Reclass

variable {σ σ' : Type} {R : σ → σ' → Prop}

/-- The edits decide alike and end alike. -/
structure Transformation.Alike (t : Transformation σ) (t' : Transformation σ')
    (R : σ → σ' → Prop) : Prop where
  accepts : ∀ name loader, (t.accepts name loader).Alike (t'.accepts name loader) R fun _ => R
  edit : ∀ r, (t.edit r).Alike (t'.edit r) R fun _ => R

/-- Loads and stores end alike. -/
structure ResultStore.Alike (store : ResultStore σ) (store' : ResultStore σ')
    (R : σ → σ' → Prop) : Prop where
  load : ∀ k, (store.load k).Alike (store'.load k) R fun _ => R
  path : store'.path = store.path
  store : ∀ k result, (store.store k result).Alike (store'.store k result) R fun _ => R

/-- What is shown in the one place is shown in the other. -/
def DumpTarget.Alike (dump : DumpTarget σ) (dump' : DumpTarget σ') (R : σ → σ' → Prop) : Prop :=
  ∀ name loader bytes,
    (dump.write name loader bytes).Alike (dump'.write name loader bytes) R fun _ => R

namespace CachingTransformer

/-- The parts of the two transformers go along with each other. -/
structure Alike (c : CachingTransformer σ) (c' : CachingTransformer σ') (R : σ → σ' → Prop) :
    Prop where
  inner : c.inner.Alike c'.inner R
  store : Option.Rel (fun store store' => store.Alike store' R) c.store c'.store
  dump : Option.Rel (fun dump dump' => dump.Alike dump' R) c.dump c'.dump

/-- The same has been counted, and the rest is related. -/
def BesideCounts (R : σ → σ' → Prop) (w : TransformStats × σ) (w' : TransformStats × σ') : Prop :=
  w'.1 = w.1 ∧ R w.2 w'.2

theorem zoom_besideCounts {α : Type} {x : Act σ α} {x' : Act σ' α}
    (hx : x.Alike x' R fun _ => R) :
    Act.Alike (Act.zoom .snd x) (Act.zoom .snd x') (BesideCounts R) fun _ => BesideCounts R := by
  rintro ⟨stats, s⟩ ⟨_, s'⟩ ⟨rfl, hs⟩
  obtain ⟨hvalue, hstate⟩ := hx s s' hs
  exact ⟨hvalue, rfl, hstate⟩

theorem count_besideCounts (f : TransformStats → TransformStats) :
    Act.Alike (count f) (count f) (BesideCounts R) fun _ => BesideCounts R := by
  rintro ⟨stats, s⟩ ⟨_, s'⟩ ⟨rfl, hs⟩
  exact ⟨rfl, rfl, hs⟩

namespace Alike

variable {c : CachingTransformer σ} {c' : CachingTransformer σ'} (h : c.Alike c' R)
  (r : TransformRequest)
include h

theorem runInner : (c.runInner r).Alike (c'.runInner r) (BesideCounts R)
    fun _ => BesideCounts R :=
  zoom_besideCounts <| (h.inner.edit r).bind fun outcome =>
    Act.alike_pure outcome.guarded fun _ _ hs => hs

theorem transformAndStore {store : ResultStore σ} {store' : ResultStore σ'}
    (hstore : store.Alike store' R) (k : CacheKey) :
    (c.transformAndStore store k r).Alike (c'.transformAndStore store' k r) (BesideCounts R)
      fun _ => BesideCounts R := by
  rw [CachingTransformer.transformAndStore, CachingTransformer.transformAndStore]
  refine (count_besideCounts _).bind fun _ => (h.runInner r).bind fun result => ?_
  cases result with
  | error e => exact Act.alike_pure _ fun _ _ hs => hs
  | ok result =>
    refine (zoom_besideCounts (hstore.store k (result.getD r.bytes))).bind fun written => ?_
    cases written with
    | ok path => exact Act.report_bind_alike _ _ _ (Act.alike_pure _ fun _ _ hs => hs)
    | error e =>
      exact (count_besideCounts _).bind fun _ =>
        Act.report_bind_alike _ _ _ (Act.alike_pure _ fun _ _ hs => hs)

theorem cachedOrTransform : (c.cachedOrTransform r).Alike (c'.cachedOrTransform r)
    (BesideCounts R) fun _ => BesideCounts R := by
  have hrel := h.store
  rw [CachingTransformer.cachedOrTransform, CachingTransformer.cachedOrTransform]
  generalize c.store = store, c'.store = store' at hrel ⊢
  cases hrel with
  | none => exact h.runInner r
  | some hstore =>
    dsimp only
    rw [hstore.path]
    refine (zoom_besideCounts (hstore.load _)).bind fun loaded => ?_
    rcases loaded with e | _ | bytes
    · exact (count_besideCounts _).bind fun _ => Act.report_bind_alike _ _ _ (h.runInner r)
    · exact h.transformAndStore r hstore _
    · exact (count_besideCounts _).bind fun _ =>
        Act.report_bind_alike _ _ _ (Act.alike_pure _ fun _ _ hs => hs)

theorem dumpResult (bytes : Bytes) : (c.dumpResult r bytes).Alike (c'.dumpResult r bytes)
    (BesideCounts R) fun _ => BesideCounts R := by
  have hrel := h.dump
  rw [CachingTransformer.dumpResult, CachingTransformer.dumpResult]
  generalize c.dump = dump, c'.dump = dump' at hrel ⊢
  cases hrel with
  | none => exact Act.alike_pure _ fun _ _ hs => hs
  | some hdump =>
    refine (zoom_besideCounts (hdump r.className r.loader bytes)).bind fun written => ?_
    cases written with
    | ok path => exact (count_besideCounts _).bind fun _ => Act.report_alike _ _ _
    | error e => exact Act.report_alike _ _ _

/-- **The two answer alike**, and count the same. -/
theorem apply : (c.apply r).Alike (c'.apply r) (BesideCounts R) fun _ => BesideCounts R := by
  rw [CachingTransformer.apply, CachingTransformer.apply]
  refine (zoom_besideCounts (h.inner.accepts r.className r.loader)).bind fun accepted => ?_
  cases accepted with
  | false => exact Act.alike_pure _ fun _ _ hs => hs
  | true =>
    refine Act.report_bind_alike _ _ _
      (Act.Alike.bind (P := fun _ => BesideCounts R) ?_ fun result => ?_)
    · rw [resultOrNone, resultOrNone]
      refine (h.cachedOrTransform r).bind fun result => ?_
      cases result with
      | ok result => exact Act.alike_pure _ fun _ _ hs => hs
      | error e =>
        exact (count_besideCounts _).bind fun _ =>
          Act.report_bind_alike _ _ _ (Act.alike_pure _ fun _ _ hs => hs)
    · cases result with
      | none => exact Act.report_bind_alike _ _ _ (Act.alike_pure _ fun _ _ hs => hs)
      | some bytes =>
        exact (h.dumpResult r bytes).bind fun _ =>
          Act.report_bind_alike _ _ _ (Act.alike_pure _ fun _ _ hs => hs)

end Alike

end CachingTransformer

end Reclass
