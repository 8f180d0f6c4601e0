import Mathlib.Tactic.Common
import Reclass.Proofs.ClassFile.RoundTrip

/-!
# Which constant of a pool is at fault

Reading a pool stops at the first constant that is at fault: the bytes end before it does, its tag is
unknown, or it takes two slots and there is only one left. The constants in front of it fill the slots
in front of its own (`ConstantPool.readSlots_eq_error_iff`). So the slot that a fault names can be
found from the bytes alone: it begins where as many slots as there are in front of it have been filled
(`ConstantPool.Begins`), which is at one place only (`ConstantPool.Begins.unique`), and there stands
the constant that has the fault (`ConstantPool.readSlots_unknown_iff`,
`ConstantPool.readSlots_wide_iff`).
-/

set_option autoImplicit false

namespace Reclass

namespace Reader

variable {α β : Type} {r : Reader α} {c c' : Cursor} {a : α} {e : ClassFormatError}

/-- After a step that has succeeded the next one takes over. -/
theorem bind_of_ok (h : r c = .ok (a, c')) (f : α → Reader β) : (r >>= f) c = f a c' := by
  show (r c).bind (fun p => f p.1 p.2) = f a c'
  rw [h]
  rfl

/-- The only fault that the reader reports is that the bytes end too early. -/
def OnlyEnds (r : Reader α) : Prop :=
  ∀ c e, r c = .error e → ∃ offset needed, e = .truncated offset needed

theorem OnlyEnds.bind {f : α → Reader β} (hr : OnlyEnds r) (hf : ∀ a, OnlyEnds (f a)) :
    OnlyEnds (r >>= f) := by
  intro c e h
  cases hfirst : r c with
  | error fault =>
    rw [bind_eq_error hfirst] at h
    cases h
    exact hr c e hfirst
  | ok found =>
    obtain ⟨a, c'⟩ := found
    rw [bind_of_ok hfirst] at h
    exact hf a c' e h

theorem OnlyEnds.map (f : α → β) (hr : OnlyEnds r) :
    OnlyEnds (r >>= fun a => Pure.pure (f a)) := by
  apply hr.bind
  intro a c e h
  cases h

theorem onlyEnds_take (n : Nat) : OnlyEnds (take n) := by
  intro c e h
  unfold take at h
  dsimp only at h
  split at h
  · cases h
  · cases h
    exact ⟨_, _, rfl⟩

theorem onlyEnds_u1 : OnlyEnds u1 := (onlyEnds_take 1).map _

theorem onlyEnds_u2 : OnlyEnds u2 := (onlyEnds_take 2).map _

end Reader

open Reader (bind_of_ok bind_eq_error)

namespace Constant

variable {found : Constant} {tag : UInt8} {index : UInt16} {c : Cursor} {e : ClassFormatError}

/-- How many slots the constant takes. -/
def width (found : Constant) : Nat := if found.isWide then 2 else 1

theorem width_of_isWide (h : found.isWide = true) : found.width = 2 := if_pos h

theorem width_of_not_isWide (h : ¬ found.isWide = true) : found.width = 1 := if_neg h

theorem width_pos (found : Constant) : 0 < found.width := by
  rw [width]
  split
  · exact Nat.two_pos
  · exact Nat.one_pos

/-- There is no room for a constant when it is wide and one slot is left. -/
theorem lt_width_iff {left : Nat} : left + 1 < found.width ↔ found.isWide = true ∧ left = 0 := by
  by_cases hw : found.isWide = true
  · rw [width_of_isWide hw]
    constructor
    · intro h
      exact ⟨hw, by omega⟩
    · rintro ⟨-, rfl⟩
      exact Nat.one_lt_two
  · rw [width_of_not_isWide hw]
    exact iff_of_false (by omega) fun h => hw h.1

/-- No constant has the tag. -/
structure Unknown (tag : UInt8) : Prop where
  ne_utf8 : tag ≠ utf8Tag
  ne_class : tag ≠ classTag
  sizeless : payloadSize? tag = none

instance (tag : UInt8) : Decidable (Unknown tag) :=
  decidable_of_iff (tag ≠ utf8Tag ∧ tag ≠ classTag ∧ payloadSize? tag = none)
    ⟨fun h => ⟨h.1, h.2.1, h.2.2⟩, fun h => ⟨h.ne_utf8, h.ne_class, h.sizeless⟩⟩

/-- A constant that cannot be read has an unknown tag, or its bytes end too early. -/
theorem read_eq_error (h : read index c = .error e) :
    (∃ offset needed, e = .truncated offset needed) ∨
      ∃ tag, Unknown tag ∧ c.rest.head? = some tag ∧ e = .unknownConstant tag index := by
  rw [read] at h
  cases htag : Reader.u1 c with
  | error fault =>
    rw [bind_eq_error htag] at h
    cases h
    exact Or.inl (Reader.onlyEnds_u1 c e htag)
  | ok found =>
    obtain ⟨tag, c'⟩ := found
    rw [bind_of_ok htag] at h
    by_cases hutf8 : tag = utf8Tag
    · rw [if_pos hutf8] at h
      have hends := Reader.onlyEnds_u2.bind fun len =>
        (Reader.onlyEnds_take len.toNat).map utf8
      exact Or.inl (hends c' e h)
    rw [if_neg hutf8] at h
    by_cases hclass : tag = classTag
    · rw [if_pos hclass] at h
      exact Or.inl ((Reader.onlyEnds_u2.map classRef) c' e h)
    rw [if_neg hclass] at h
    cases hsize : payloadSize? tag with
    | some size =>
      rw [hsize] at h
      exact Or.inl (((Reader.onlyEnds_take size).map (other tag)) c' e h)
    | none =>
      rw [hsize] at h
      cases h
      -- the byte that was read as the tag is the next one
      obtain ⟨bs, ⟨-, rfl⟩, hrest, -⟩ := (Reader.reads_u1 c tag c').1 htag
      refine Or.inr ⟨tag, ⟨hutf8, hclass, hsize⟩, ?_, rfl⟩
      rw [hrest]
      rfl

theorem read_of_unknown (hunknown : Unknown tag) (h : c.rest.head? = some tag)
    (index : UInt16) : read index c = .error (.unknownConstant tag index) := by
  obtain ⟨rest, hrest⟩ : ∃ rest, c.rest = tag :: rest := by
    cases hc : c.rest with
    | nil =>
      rw [hc] at h
      cases h
    | cons b rest =>
      rw [hc] at h
      cases h
      exact ⟨rest, rfl⟩
  have htag : Reader.u1 c = .ok (tag, ⟨c.offset + 1, rest⟩) :=
    (Reader.reads_u1 _ _ _).2 ⟨[tag], ⟨trivial, rfl⟩, hrest, rfl⟩
  rw [read, bind_of_ok htag, if_neg hunknown.ne_utf8, if_neg hunknown.ne_class,
    hunknown.sizeless]
  rfl

end Constant

/-- No slot that is wide is cut off from the one behind it. -/
theorem Aligned.append {behind : Bool} {cs ds : List Constant} (h : Aligned behind cs)
    (h' : Aligned false ds) : Aligned behind (cs ++ ds) := by
  induction cs generalizing behind with
  | nil =>
    obtain rfl : behind = false := h
    exact h'
  | cons c cs ih => exact ⟨h.1, ih h.2⟩

namespace ConstantPool

variable {left k : Nat} {p q : ConstantPool} {bs rest : Bytes} {c : Cursor} {e : ClassFormatError}
  {tag : UInt8} {index index' : UInt16}

/-! ### The constants in front -/

theorem fills_zero_iff : Fills 0 p q bs ↔ q = p ∧ bs = [] := by
  constructor
  · rintro ⟨cs, hq, hlength, -, -, rfl⟩
    obtain rfl := List.length_eq_zero_iff.1 hlength
    rw [List.append_nil, Array.toList_inj] at hq
    cases p
    cases q
    exact ⟨congrArg _ hq, rfl⟩
  · rintro ⟨rfl, rfl⟩
    exact ⟨[], (List.append_nil _).symm, rfl, nofun, rfl, rfl⟩

/-- What fills slots of one pool, and then more slots of the pool that comes out of it. -/
theorem Fills.append {m n : Nat} {r : ConstantPool} {as : Bytes} (h : Fills m p q as)
    (h' : Fills n q r bs) : Fills (m + n) p r (as ++ bs) := by
  obtain ⟨cs, hq, rfl, hfits, haligned, rfl⟩ := h
  obtain ⟨ds, hr, rfl, hfits', haligned', rfl⟩ := h'
  refine ⟨cs ++ ds, ?_, List.length_append, ?_, haligned.append haligned',
    List.flatMap_append.symm⟩
  · rw [hr, hq, List.append_assoc]
  · intro c hc
    rcases List.mem_append.1 hc with hc | hc
    · exact hfits c hc
    · exact hfits' c hc

theorem Fills.size_eq (h : Fills k p q bs) : q.size = p.size + k := by
  obtain ⟨cs, hq, rfl, -⟩ := h
  rw [size, ← Array.length_toList, hq, List.length_append, Array.length_toList]
  rfl

/-- A constant alone fills the slots that it takes. -/
theorem fills_append (p : ConstantPool) {found : Constant} (hne : found ≠ .unusable)
    (hfits : found.Storable) : Fills found.width p (p.append found) found.encode := by
  have hrest : Fills 0 (p.append found) (p.append found) [] := fills_zero_iff.2 ⟨rfl, rfl⟩
  rw [← List.append_nil found.encode]
  by_cases hw : found.isWide = true
  · rw [Constant.width_of_isWide hw]
    exact fills_of_isWide hw hne hfits hrest
  · rw [Constant.width_of_not_isWide hw]
    exact fills_of_not_isWide hw hne hfits hrest

/-- What fills some slots begins with a constant that has room in them. -/
theorem Fills.exists_first (h : Fills (k + 1) p q bs) : ∃ (found : Constant) (bs' : Bytes),
    (found ≠ .unusable ∧ found.Storable) ∧ found.width ≤ k + 1 ∧
      Fills (k + 1 - found.width) (p.append found) q bs' ∧ bs = found.encode ++ bs' := by
  obtain ⟨found, _, bs', hfound, rfl, hrest, rfl⟩ := (fills_succ_iff k p q bs).1 h
  refine ⟨found, bs', hfound, ?_⟩
  by_cases hw : found.isWide = true
  · rw [if_pos hw] at hrest
    obtain ⟨k, rfl, hrest⟩ := hrest
    rw [Constant.width_of_isWide hw]
    exact ⟨by omega, hrest, rfl⟩
  · rw [if_neg hw] at hrest
    rw [Constant.width_of_not_isWide hw]
    exact ⟨by omega, hrest, rfl⟩

theorem readSlots_succ (left : Nat) (p : ConstantPool) :
    readSlots (left + 1) p = Constant.read (UInt16.ofNat p.size) >>= fun c =>
      if c.isWide then
        match left with
        | 0 => throw (.wideConstantAtEnd (UInt16.ofNat p.size))
        | left' + 1 => readSlots left' (p.append c)
      else readSlots left (p.append c) := by
  rw [readSlots]
  rfl

/-- A constant that there is room for is read, and then the slots that it leaves. -/
theorem readSlots_of_read {found : Constant} {c' : Cursor}
    (h : Constant.read (UInt16.ofNat p.size) c = .ok (found, c')) (hroom : found.width ≤ left + 1) :
    readSlots (left + 1) p c = readSlots (left + 1 - found.width) (p.append found) c' := by
  rw [readSlots_succ, bind_of_ok h]
  by_cases hw : found.isWide = true
  · rw [if_pos hw]
    rw [Constant.width_of_isWide hw] at hroom ⊢
    obtain ⟨left, rfl⟩ := Nat.exists_eq_add_of_le' (Nat.le_of_succ_le_succ hroom)
    rfl
  · rw [if_neg hw, Constant.width_of_not_isWide hw]
    rfl

/-- Constants that fill some of the slots are read, and then the others are left. -/
theorem readSlots_of_fills (h : Fills k p q bs) (left offset : Nat) (rest : Bytes) :
    readSlots (k + left) p ⟨offset, bs ++ rest⟩ =
      readSlots left q ⟨offset + bs.length, rest⟩ := by
  -- a wide constant takes two slots at once, so the induction is on all smaller numbers
  induction k using Nat.strongRecOn generalizing p bs offset with
  | _ k ih =>
    cases k with
    | zero =>
      obtain ⟨rfl, rfl⟩ := fills_zero_iff.1 h
      rw [Nat.zero_add]
      rfl
    | succ k =>
      obtain ⟨found, bs, hfound, hroom, hrest, rfl⟩ := h.exists_first
      have hread : Constant.read (UInt16.ofNat p.size) ⟨offset, found.encode ++ bs ++ rest⟩ =
          .ok (found, ⟨offset + found.encode.length, bs ++ rest⟩) := by
        rw [List.append_assoc]
        exact (Constant.reads_read _).spells ⟨hfound, rfl⟩ offset (bs ++ rest)
      have hpos := found.width_pos
      rw [Nat.add_right_comm, readSlots_of_read hread (by omega), List.length_append,
        ← Nat.add_assoc, show k + left + 1 - found.width = k + 1 - found.width + left by omega]
      exact ih _ (by omega) hrest _

/-! ### The constant at fault -/

/-- With `left` slots to be filled, the constant that comes next, that of slot `index`, has a fault. -/
inductive Stumbles (left : Nat) (index : UInt16) (c : Cursor) : ClassFormatError → Prop where
  /-- The constant cannot be read. -/
  | unread {e : ClassFormatError} (h : Constant.read index c = .error e) : Stumbles left index c e
  /-- It takes two slots, and one is left. -/
  | noRoom {found : Constant} {c' : Cursor} (hleft : left = 1) (hwide : found.isWide = true)
    (h : Constant.read index c = .ok (found, c')) :
    Stumbles left index c (.wideConstantAtEnd index)

theorem Stumbles.readSlots (h : Stumbles (left + 1) (UInt16.ofNat p.size) c e) :
    readSlots (left + 1) p c = .error e := by
  rw [readSlots_succ]
  cases h with
  | unread h => exact bind_eq_error h _
  | noRoom hleft hwide h =>
    obtain rfl : left = 0 := Nat.succ.inj hleft
    rw [bind_of_ok h, if_pos hwide]
    rfl

/-- The fault is that of the next constant, or of one behind it. -/
theorem readSlots_succ_eq_error (h : readSlots (left + 1) p c = .error e) :
    Stumbles (left + 1) (UInt16.ofNat p.size) c e ∨
      ∃ found c', Constant.read (UInt16.ofNat p.size) c = .ok (found, c') ∧
        found.width ≤ left + 1 ∧
        readSlots (left + 1 - found.width) (p.append found) c' = .error e := by
  cases hread : Constant.read (UInt16.ofNat p.size) c with
  | error fault =>
    have hstumbles : Stumbles (left + 1) (UInt16.ofNat p.size) c fault := .unread hread
    obtain rfl : fault = e := Except.error.inj (hstumbles.readSlots.symm.trans h)
    exact Or.inl hstumbles
  | ok found =>
    obtain ⟨found, c'⟩ := found
    by_cases hroom : found.width ≤ left + 1
    · rw [readSlots_of_read hread hroom] at h
      exact Or.inr ⟨found, c', rfl, hroom, h⟩
    · obtain ⟨hw, rfl⟩ := Constant.lt_width_iff.1 (Nat.lt_of_not_le hroom)
      have hstumbles : Stumbles 1 (UInt16.ofNat p.size) c (.wideConstantAtEnd _) :=
        .noRoom rfl hw hread
      obtain rfl := Except.error.inj (hstumbles.readSlots.symm.trans h)
      exact Or.inl hstumbles

theorem stumbles_unknown_iff : Stumbles left index c (.unknownConstant tag index') ↔
    index' = index ∧ Constant.Unknown tag ∧ c.rest.head? = some tag := by
  constructor
  · intro h
    cases h with
    | unread h =>
      rcases Constant.read_eq_error h with ⟨offset, needed, he⟩ | ⟨tag', hunknown, hnext, he⟩
      · cases he
      · cases he
        exact ⟨rfl, hunknown, hnext⟩
  · rintro ⟨rfl, hunknown, hnext⟩
    exact .unread (Constant.read_of_unknown hunknown hnext index')

theorem stumbles_wide_iff : Stumbles left index c (.wideConstantAtEnd index') ↔
    index' = index ∧ left = 1 ∧
      ∃ found : Constant, found.isWide = true ∧ found.Storable ∧ found.encode <+: c.rest := by
  constructor
  · intro h
    cases h with
    | unread h =>
      -- a constant that cannot be read is not found to be wide
      rcases Constant.read_eq_error h with ⟨offset, needed, he⟩ | ⟨tag', -, -, he⟩
      · cases he
      · cases he
    | noRoom hleft hwide h =>
      obtain ⟨-, ⟨⟨-, hfits⟩, rfl⟩, hrest, -⟩ := (Constant.reads_read _ _ _ _).1 h
      exact ⟨rfl, hleft, _, hwide, hfits, _, hrest.symm⟩
  · rintro ⟨rfl, hleft, found, hwide, hfits, rest, hrest⟩
    have hne : found ≠ .unusable := by
      rintro rfl
      cases hwide
    have hread : Constant.read index' c =
        .ok (found, ⟨c.offset + found.encode.length, rest⟩) :=
      (Constant.reads_read _ _ _ _).2 ⟨_, ⟨⟨hne, hfits⟩, rfl⟩, hrest.symm, rfl⟩
    exact .noRoom hleft hwide hread

/-- **A pool cannot be read when one of its constants has a fault**, and the constants in front of
that one fill the slots in front of its own. -/
theorem readSlots_eq_error_iff (left : Nat) (p : ConstantPool) (c : Cursor) (e : ClassFormatError) :
    readSlots left p c = .error e ↔ ∃ k q bs rest, k < left ∧ Fills k p q bs ∧
      c.rest = bs ++ rest ∧
      Stumbles (left - k) (UInt16.ofNat q.size) ⟨c.offset + bs.length, rest⟩ e := by
  constructor
  · intro h
    induction left using Nat.strongRecOn generalizing p c with
    | _ left ih =>
      cases left with
      | zero => cases h
      | succ left =>
        rcases readSlots_succ_eq_error h with hstumbles | ⟨found, c', hread, hroom, h⟩
        · exact ⟨0, p, [], c.rest, by omega, fills_zero_iff.2 ⟨rfl, rfl⟩, rfl, hstumbles⟩
        · obtain ⟨-, ⟨⟨hne, hfits⟩, rfl⟩, hrest, hoffset⟩ :=
            (Constant.reads_read _ c found c').1 hread
          have hpos := found.width_pos
          obtain ⟨k, q, bs, rest, hlt, hfills, hrest', hstumbles⟩ := ih _ (by omega) _ c' h
          refine ⟨found.width + k, q, found.encode ++ bs, rest, by omega,
            (fills_append p hne hfits).append hfills, ?_, ?_⟩
          · rw [hrest, hrest', List.append_assoc]
          · rw [List.length_append, ← Nat.add_assoc, ← hoffset, Nat.sub_add_eq]
            exact hstumbles
  · rintro ⟨k, q, bs, rest, hlt, hfills, hrest, hstumbles⟩
    obtain ⟨offset, all⟩ := c
    obtain rfl : all = bs ++ rest := hrest
    obtain ⟨more, rfl⟩ := Nat.exists_eq_add_of_lt hlt
    rw [show k + more + 1 - k = more + 1 by omega] at hstumbles
    rw [Nat.add_assoc, readSlots_of_fills hfills]
    exact hstumbles.readSlots

/-! ### Slots in a buffer -/

/-- In a buffer that has the constants of a pool from `start` on, slot number `slot` begins at
`place`: what lies between are constants that fill the slots in front of it, from slot 1 on. -/
def Begins (buf : Bytes) (start slot place : Nat) : Prop :=
  ∃ k p bs, slot = k + 1 ∧ Fills k empty p bs ∧ bs <+: buf.drop start ∧ place = start + bs.length

variable {buf : Bytes} {start : Nat} {count : UInt16}

/-- A slot begins at one place at most. -/
theorem Begins.unique {slot place place' : Nat} (h : Begins buf start slot place)
    (h' : Begins buf start slot place') : place = place' := by
  obtain ⟨k, p, bs, rfl, hfills, ⟨rest, hrest⟩, rfl⟩ := h
  obtain ⟨k', p', bs', hslot, hfills', ⟨rest', hrest'⟩, rfl⟩ := h'
  obtain rfl : k = k' := Nat.succ.inj hslot
  -- the slots in front of it are read in one way
  have hread := (reads_slots k empty).spells hfills start rest
  have hread' := (reads_slots k empty).spells hfills' start rest'
  rw [hrest] at hread
  rw [hrest', hread, Except.ok.injEq, Prod.mk.injEq, Cursor.mk.injEq] at hread'
  exact hread'.2.1

/-- A pool in a buffer cannot be read when the constant that begins some slot has a fault. -/
theorem readSlots_buffer_eq_error_iff :
    readSlots (count.toNat - 1) empty ⟨start, buf.drop start⟩ = .error e ↔
      ∃ (index : UInt16) (place : Nat), index < count ∧ Begins buf start index.toNat place ∧
        Stumbles (count.toNat - index.toNat) index ⟨place, buf.drop place⟩ e := by
  rw [readSlots_eq_error_iff]
  have hcount := count.toNat_lt
  have hafter : ∀ {bs rest : Bytes}, bs ++ rest = buf.drop start →
      buf.drop (start + bs.length) = rest := by
    intro bs rest hrest
    rw [← List.drop_drop, ← hrest, List.drop_left]
  constructor
  · rintro ⟨k, p, bs, rest, hlt, hfills, hrest, hstumbles⟩
    have hindex : (UInt16.ofNat p.size).toNat = k + 1 := by
      rw [UInt16.toNat_ofNat', hfills.size_eq, show empty.size = 1 from rfl]
      omega
    refine ⟨UInt16.ofNat p.size, start + bs.length, ?_, ?_, ?_⟩
    · rw [UInt16.lt_iff_toNat_lt, hindex]
      omega
    · exact ⟨k, p, bs, hindex, hfills, ⟨rest, hrest.symm⟩, rfl⟩
    · rw [hafter hrest.symm, hindex, Nat.sub_add_eq, Nat.sub_right_comm]
      exact hstumbles
  · rintro ⟨index, place, hlt, ⟨k, p, bs, hindex, hfills, ⟨rest, hrest⟩, rfl⟩, hstumbles⟩
    rw [UInt16.lt_iff_toNat_lt] at hlt
    have hsize : UInt16.ofNat p.size = index := by
      rw [hfills.size_eq, show empty.size = 1 from rfl, Nat.add_comm, ← hindex,
        UInt16.ofNat_toNat]
    refine ⟨k, p, bs, rest, by omega, hfills, hrest.symm, ?_⟩
    rw [hafter hrest, hindex, Nat.sub_add_eq, Nat.sub_right_comm] at hstumbles
    rw [hsize]
    exact hstumbles

/-- **The slot of an unknown constant.** -/
theorem readSlots_unknown_iff :
    readSlots (count.toNat - 1) empty ⟨start, buf.drop start⟩ =
        .error (.unknownConstant tag index) ↔
      index < count ∧ ∃ place, Begins buf start index.toNat place ∧ buf[place]? = some tag ∧
        Constant.Unknown tag := by
  rw [readSlots_buffer_eq_error_iff]
  simp only [stumbles_unknown_iff, List.head?_drop]
  constructor
  · rintro ⟨_, place, hlt, hbegins, rfl, hunknown, hnext⟩
    exact ⟨hlt, place, hbegins, hnext, hunknown⟩
  · rintro ⟨hlt, place, hbegins, hnext, hunknown⟩
    exact ⟨index, place, hlt, hbegins, rfl, hunknown, hnext⟩

/-- **The slot of a wide constant that has no room.** It is the last one. -/
theorem readSlots_wide_iff :
    readSlots (count.toNat - 1) empty ⟨start, buf.drop start⟩ =
        .error (.wideConstantAtEnd index) ↔
      index.toNat + 1 = count.toNat ∧ ∃ place, Begins buf start index.toNat place ∧
        ∃ found : Constant, found.isWide = true ∧ found.Storable ∧
          found.encode <+: buf.drop place := by
  rw [readSlots_buffer_eq_error_iff]
  simp only [stumbles_wide_iff]
  constructor
  · rintro ⟨_, place, hlt, hbegins, rfl, hleft, hfound⟩
    rw [UInt16.lt_iff_toNat_lt] at hlt
    exact ⟨by omega, place, hbegins, hfound⟩
  · rintro ⟨hlast, place, hbegins, hfound⟩
    refine ⟨index, place, ?_, hbegins, rfl, by omega, hfound⟩
    rw [UInt16.lt_iff_toNat_lt]
    omega

end ConstantPool

end Reclass
