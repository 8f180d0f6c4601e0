import Reclass.ClassPath.Host
import Reclass.Proofs.ClassPath.Universe
import Reclass.Proofs.Transform.Edit

/-!
# Loading from a class path

Loading adds at most one class, by the loader that defines it, with the bytes that the registered
transformers make of those on the class path. The defining loader finds the same bytes itself.
-/

set_option autoImplicit false

namespace Reclass

namespace ClassPath

variable {name : String}

/-- The root that comes first in a list comes first in the list up to it. -/
theorem firstDefining_take {position : Nat} {rs : List ClassPathRoot} {loader : LoaderId}
    {bytes : Bytes} (h : firstDefining name position rs = some (loader, bytes)) :
    ∃ k, k < rs.length ∧ loader = loaderAt (position + k) ∧
      firstDefining name position (rs.take (k + 1)) = some (loader, bytes) := by
  induction rs generalizing position with
  | nil => cases h
  | cons r rs ih =>
    rw [firstDefining] at h
    cases hr : r.resources.get? name with
    | some own =>
      rw [hr] at h
      cases h
      refine ⟨0, Nat.zero_lt_succ rs.length, rfl, ?_⟩
      rw [List.take_succ_cons, firstDefining, hr]
    | none =>
      rw [hr] at h
      obtain ⟨k, hk, rfl, htake⟩ := ih h
      refine ⟨k + 1, Nat.succ_lt_succ hk, ?_, ?_⟩
      · rw [Nat.add_assoc, Nat.add_comm 1 k]
      · rw [List.take_succ_cons, firstDefining, hr]
        exact htake

/-- The loader that defines a class finds it with the same bytes. -/
theorem find_defining {cp : ClassPath} {loader defining : LoaderId} {bytes : Bytes}
    (h : cp.find name loader = .ok (some (defining, bytes))) :
    cp.find name defining = .ok (some (defining, bytes)) := by
  unfold find at h ⊢
  cases hs : platformStub name with
  | some stub =>
    simp only [hs] at h ⊢
    cases h
    rfl
  | none =>
    simp only [hs] at h ⊢
    by_cases hb : loader = .bootstrap
    · rw [if_pos hb] at h
      cases h
    · rw [if_neg hb] at h
      by_cases hl : cp.roots.length < loader.number
      · rw [if_pos hl] at h
        cases h
      · rw [if_neg hl] at h
        obtain ⟨k, hk, rfl, htake⟩ := firstDefining_take (Except.ok.inj h)
        rw [List.length_take] at hk
        -- root `k` is the first one that defines the class, seen from any loader
        have hne : loaderAt (0 + k) ≠ .bootstrap := by
          intro e
          have hnumber : 0 + k + 1 = 0 := congrArg LoaderId.number e
          omega
        have hle : ¬ cp.roots.length < (loaderAt (0 + k)).number := by
          show ¬ cp.roots.length < 0 + k + 1
          omega
        rw [if_neg hne, if_neg hle, ← htake, List.take_take]
        show _ = Except.ok (firstDefining name 0 (cp.roots.take (min (k + 1) loader.number)))
        rw [Nat.min_eq_left (by omega)]
        show Except.ok (firstDefining name 0 (cp.roots.take (0 + k + 1))) = _
        rw [Nat.zero_add]

end ClassPath

namespace ClassPathHost

variable {ρ : Type} {J : ρ → Prop}

/-- Transformers make of a class what their edits say, in order. -/
theorem applyHooks_ensures {hooks : List (Transformer ρ)} {edits : List ClassEdit}
    (hhooks : List.Forall₂ (fun t f => t.Does J f) hooks edits) (name : String) (loader : LoaderId)
    (bytes : Bytes) {r : ρ} (hr : J r) :
    (applyHooks hooks name loader bytes).Ensures r fun v r' =>
      v = ClassEdit.steps edits loader name bytes ∧ J r' := by
  unfold applyHooks
  induction hhooks generalizing bytes r with
  | nil => exact ⟨rfl, hr⟩
  | @cons t f hooks edits ht _ ih =>
    rw [List.foldlM_cons, Act.ensures_bind, applyHook, Act.ensures_bind]
    have hstep : (t.apply ⟨loader, name, none, bytes⟩).Ensures r fun v r' =>
        v = f loader name bytes ∧ J r' := ht ⟨loader, name, none, bytes⟩ r hr
    refine hstep.imp fun out r' hout => ?_
    rw [hout.1, Act.ensures_pure]
    exact ih (f.step loader name bytes) hout.2

/-- A class that is loaded for the first time, or nothing. -/
theorem loadClass_ensures {host : ClassPathHost ρ} {edits : List ClassEdit}
    (hhooks : List.Forall₂ (fun t f => t.Does J f) host.hooks edits) (name : String)
    (loader : LoaderId) {r : ρ} (hr : J r) :
    (loadClass name loader).Ensures (host, r) fun _ s' => J s'.2 ∧ (s'.1 = host ∨
      ∃ defining bytes, host.path.find name defining = .ok (some (defining, bytes)) ∧
        host.loaded.get? name defining = none ∧
        s'.1 = { host with loaded :=
          (host.loaded.define name defining (ClassEdit.steps edits defining name bytes)).2 }) := by
  rw [loadClass]
  simp only [Attempt.ensures_bind, Attempt.ensures_act, Act.ensures_gets]
  cases hfind : host.path.find name loader with
  | error cause => exact ⟨hr, Or.inl rfl⟩
  | ok found =>
    cases found with
    | none => exact ⟨hr, Or.inl rfl⟩
    | some found =>
      obtain ⟨defining, bytes⟩ := found
      cases hget : host.loaded.get? name defining with
      | some c =>
        -- loaded already, and returned as it is
        simp only [hget]
        exact ⟨hr, Or.inl rfl⟩
      | none =>
        simp only [hget, Attempt.ensures_bind, Attempt.ensures_act, Act.ensures_zoom]
        refine (applyHooks_ensures hhooks name defining bytes hr).imp fun v r' hv => ?_
        rw [hv.1]
        exact ⟨hv.2, Or.inr ⟨defining, bytes, ClassPath.find_defining hfind, hget, rfl⟩⟩

end ClassPathHost

end Reclass
