import Mathlib.Data.List.Infix
import Reclass.ClassFile.Builder
import Reclass.Proofs.ClassFile.RoundTrip
import Reclass.Proofs.Text.ModifiedUtf8

/-!
# Entering constants once

A pool that constants are interned into holds no constant twice (`ConstantPool.Interned`), and only
grows at its end. So the slot of a constant stays valid in every later pool that is still small
enough for the slots to be numbered. `ConstantPool.Enters f F` says so of a step `f` whose result
stands for `F`; steps in a row enter what each of them enters (`Enters.bind`).
-/

set_option autoImplicit false

namespace Reclass

open Text.ModifiedUtf8 (decode_encode)

/-- A text or a class, as interning enters them. -/
def Constant.Plain : Constant → Prop
  | .utf8 bytes => bytes.length ≤ 65535
  | .classRef _ => True
  | .other _ _ | .unusable => False

namespace ConstantPool

variable {α β : Type} {p q r : ConstantPool} {c : Constant} {index : UInt16}

/-! ### Pools that grow -/

/-- The later pool has the slots of the former one, and maybe more behind them. -/
def GrowsTo (p q : ConstantPool) : Prop := p.slots.toList <+: q.slots.toList

theorem GrowsTo.refl (p : ConstantPool) : p.GrowsTo p := List.prefix_refl _

theorem GrowsTo.trans (hpq : p.GrowsTo q) (hqr : q.GrowsTo r) : p.GrowsTo r :=
  List.IsPrefix.trans hpq hqr

theorem GrowsTo.size_le (h : p.GrowsTo q) : p.size ≤ q.size := by
  have hlength := List.IsPrefix.length_le h
  rwa [Array.length_toList, Array.length_toList] at hlength

theorem GrowsTo.get? (h : p.GrowsTo q) (hc : p.get? index = some c) : q.get? index = some c := by
  obtain ⟨more, hmore⟩ := h
  unfold ConstantPool.get? at hc ⊢
  rw [← Array.getElem?_toList] at hc ⊢
  rw [← hmore, List.getElem?_append_left, hc]
  exact (List.getElem?_eq_some_iff.1 hc).1

/-- Behind slot 0 stand texts and classes, none of them twice. -/
def Interned (p : ConstantPool) : Prop :=
  ∃ cs, p.slots.toList = .unusable :: cs ∧ cs.Nodup ∧ ∀ c ∈ cs, c.Plain

theorem interned_empty : empty.Interned := ⟨[], rfl, List.nodup_nil, nofun⟩

theorem Interned.nodup (h : p.Interned) : p.slots.toList.Nodup := by
  obtain ⟨cs, hslots, hnodup, hplain⟩ := h
  rw [hslots]
  refine List.nodup_cons.2 ⟨fun hmem => ?_, hnodup⟩
  exact hplain _ hmem

theorem Interned.get?_zero (h : p.Interned) : p.get? 0 = some .unusable := by
  obtain ⟨cs, hslots, -⟩ := h
  unfold get?
  rw [← Array.getElem?_toList, hslots]
  rfl

theorem aligned_of_plain {cs : List Constant} (h : ∀ c ∈ cs, c.Plain) : Aligned false cs := by
  induction cs with
  | nil => rfl
  | cons c cs ih =>
    obtain ⟨hc, hcs⟩ := List.forall_mem_cons.1 h
    cases c with
    | utf8 bytes => exact ⟨iff_of_false nofun nofun, ih hcs⟩
    | classRef nameIndex => exact ⟨iff_of_false nofun nofun, ih hcs⟩
    | other tag payload => exact hc.elim
    | unusable => exact hc.elim

/-- Such a pool can be written, unless it is too large. -/
theorem Interned.representable (h : p.Interned) (hsize : p.size ≤ 65535) : p.Representable := by
  obtain ⟨cs, hslots, -, hplain⟩ := h
  refine p.representable_iff.2 ⟨hsize, cs, hslots, fun c hc => ?_, aligned_of_plain hplain⟩
  have hc := hplain c hc
  cases c with
  | utf8 bytes => exact hc
  | classRef nameIndex => trivial
  | other tag payload => exact hc.elim
  | unusable => exact hc.elim

/-! ### Entering one constant -/

theorem push_of_plain (p : ConstantPool) (hc : c.Plain) :
    p.push c = (UInt16.ofNat p.slots.size, ⟨p.slots.push c⟩) := by
  cases c with
  | utf8 bytes => rfl
  | classRef nameIndex => rfl
  | other tag payload => exact hc.elim
  | unusable => exact hc.elim

/-- Either the constant is there, in the slot that is returned, or it is appended. -/
theorem intern_cases (p : ConstantPool) (hc : c.Plain) :
    (∃ i, p.slots[i]? = some c ∧ p.intern c = (UInt16.ofNat i, p)) ∨
      c ∉ p.slots.toList ∧
        p.intern c = (UInt16.ofNat p.slots.size, ⟨p.slots.push c⟩) := by
  unfold intern
  cases hfind : p.slots.findIdx? (· = c) with
  | some i =>
    obtain ⟨hi, hslot, -⟩ := Array.findIdx?_eq_some_iff_getElem.1 hfind
    rw [decide_eq_true_iff] at hslot
    exact Or.inl ⟨i, Array.getElem?_eq_some_iff.2 ⟨hi, hslot⟩, rfl⟩
  | none =>
    refine Or.inr ⟨fun hmem => ?_, push_of_plain p hc⟩
    have hne := Array.findIdx?_eq_none_iff.1 hfind c (Array.mem_toList_iff.1 hmem)
    rw [decide_eq_false_iff_not] at hne
    exact hne rfl

/-! ### Steps that enter constants -/

/-- A step that only appends, keeps a pool interned, and yields what holds in every later pool. -/
structure Enters (f : ConstantPool → α × ConstantPool) (F : α → ConstantPool → Prop) : Prop where
  grows : ∀ p : ConstantPool, p.GrowsTo (f p).2
  interned : ∀ p : ConstantPool, p.Interned → (f p).2.Interned
  holds : ∀ p q : ConstantPool, (f p).2.GrowsTo q → q.size ≤ 65535 → F (f p).1 q

namespace Enters

variable {f : ConstantPool → α × ConstantPool} {F : α → ConstantPool → Prop}

theorem pure (a : α) : Enters (fun p => (a, p)) fun b _ => b = a where
  grows p := .refl p
  interned _ h := h
  holds _ _ _ _ := rfl

theorem imp {G : α → ConstantPool → Prop} (h : Enters f F) (hFG : ∀ a q, F a q → G a q) :
    Enters f G where
  grows := h.grows
  interned := h.interned
  holds p q hq hsize := hFG _ _ (h.holds p q hq hsize)

theorem bind {g : α → ConstantPool → β × ConstantPool} {G : α → β → ConstantPool → Prop}
    (hf : Enters f F) (hg : ∀ a, Enters (g a) (G a)) :
    Enters (fun p => g (f p).1 (f p).2) fun b q => ∃ a, F a q ∧ G a b q where
  grows p := (hf.grows p).trans ((hg _).grows _)
  interned p h := (hg _).interned _ (hf.interned p h)
  holds p q hq hsize :=
    ⟨(f p).1, hf.holds p q (((hg _).grows _).trans hq) hsize, (hg _).holds _ q hq hsize⟩

theorem map (hf : Enters f F) (k : α → β) :
    Enters (fun p => (k (f p).1, (f p).2)) fun b q => ∃ a, F a q ∧ b = k a :=
  hf.bind fun a => pure (k a)

end Enters

/-- Interning a constant yields a slot that holds it. -/
theorem enters_intern (hc : c.Plain) :
    Enters (fun p => p.intern c) fun index q => q.get? index = some c where
  grows p := by
    rcases p.intern_cases hc with ⟨i, -, h⟩ | ⟨-, h⟩
    · rw [h]
      exact .refl p
    · rw [h]
      refine ⟨[c], ?_⟩
      rw [Array.toList_push]
  interned p hp := by
    rcases p.intern_cases hc with ⟨i, -, h⟩ | ⟨hnew, h⟩
    · rw [h]
      exact hp
    · obtain ⟨cs, hslots, hnodup, hplain⟩ := hp
      rw [hslots, List.mem_cons, not_or] at hnew
      rw [h]
      refine ⟨cs ++ [c], ?_, ?_, ?_⟩
      · rw [Array.toList_push, hslots, List.cons_append]
      · exact List.nodup_append.2 ⟨hnodup, List.pairwise_singleton _ c, by
          rintro a ha b hb rfl
          exact hnew.2 (List.mem_singleton.1 hb ▸ ha)⟩
      · intro d hd
        rcases List.mem_append.1 hd with hd | hd
        · exact hplain d hd
        · exact List.mem_singleton.1 hd ▸ hc
  holds p q hq hsize := by
    refine hq.get? ?_
    have hle := Nat.le_trans hq.size_le hsize
    unfold get?
    -- sixteen bits hold the number of the slot
    rcases p.intern_cases hc with ⟨i, hi, h⟩ | ⟨-, h⟩
    · rw [h] at hle ⊢
      have hlt : i < p.slots.size := (Array.getElem?_eq_some_iff.1 hi).1
      have hsmall : p.slots.size ≤ 65535 := hle
      have hn : (UInt16.ofNat i).toNat = i := by
        rw [UInt16.toNat_ofNat']
        omega
      rw [hn, hi]
    · rw [h] at hle ⊢
      have hsmall : (p.slots.push c).size ≤ 65535 := hle
      rw [Array.size_push] at hsmall
      have hn : (UInt16.ofNat p.slots.size).toNat = p.slots.size := by
        rw [UInt16.toNat_ofNat']
        omega
      rw [hn, Array.getElem?_push_size]

theorem enters_internText {s : String} (hs : (Text.ModifiedUtf8.encode s).length ≤ 65535) :
    Enters (fun p => p.internText s) fun index q => q.text index = .ok s := by
  refine (enters_intern (c := .utf8 (Text.ModifiedUtf8.encode s)) hs).imp fun index q h => ?_
  simp only [text, h, decode_encode]

theorem enters_internClass {name : String}
    (hname : (Text.ModifiedUtf8.encode name).length ≤ 65535) :
    Enters (fun p => p.internClass name) fun index q => q.className index = .ok name := by
  refine ((enters_internText hname).bind fun i =>
    enters_intern (c := .classRef i) trivial).imp fun index q h => ?_
  obtain ⟨i, htext, hclass⟩ := h
  simp only [className, hclass, htext]

end ConstantPool

end Reclass
