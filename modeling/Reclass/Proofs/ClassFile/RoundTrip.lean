import Mathlib.Tactic.Common
import Reclass.Proofs.ClassFile.Reading

/-!
# Encoding and parsing class files

A class file is representable when its counts and lengths fit their fields and the slots of its
pool are laid out as a reader would lay them out. Parsing accepts exactly the written forms of
representable class files (`parse_eq_ok_iff`), so a class file comes back from its encoding
exactly when it is representable (`parse_encode_iff`).

A pool with slot 0 alone has two written forms, with the counts 1 and 0; encoding yields the first.
So bytes that parse come back from their class file exactly when they do not state the count 0
(`encode_parsed_iff`).
-/

set_option autoImplicit false

namespace Reclass

/-! ## Constants -/

namespace Constant

/-- A constant whose parts fit the fields that a file has for them. -/
def Storable : Constant → Prop
  | .utf8 bytes => bytes.length ≤ 65535
  | .classRef _ => True
  | .other tag payload => payloadSize? tag = some payload.length
  | .unusable => True

/-- The tag that a constant is written with. -/
def tag : Constant → UInt8
  | .utf8 _ => utf8Tag
  | .classRef _ => classTag
  | .other tag _ => tag
  | .unusable => 0

/-- What is written behind the tag. -/
def body (c : Constant) : Bytes := c.encode.drop 1

theorem tag_cons_body {c : Constant} (h : c ≠ .unusable) : c.tag :: c.body = c.encode := by
  cases c with
  | utf8 bytes => rfl
  | classRef nameIndex => rfl
  | other tag payload => rfl
  | unusable => exact absurd rfl h

/-- The tags of texts and classes belong to no constant of fixed size. -/
theorem Storable.tag_ne {t : UInt8} {payload : Bytes} (h : (other t payload).Storable) :
    t ≠ utf8Tag ∧ t ≠ classTag := by
  have hs : payloadSize? t = some payload.length := h
  constructor
  · rintro rfl
    exact absurd (hs.symm.trans (by decide : payloadSize? utf8Tag = none)) (by simp)
  · rintro rfl
    exact absurd (hs.symm.trans (by decide : payloadSize? classTag = none)) (by simp)

theorem tag_eq_utf8Tag_iff {c : Constant} (hne : c ≠ .unusable) (h : c.Storable) :
    c.tag = utf8Tag ↔ ∃ bytes, c = .utf8 bytes := by
  cases c with
  | utf8 bytes => exact iff_of_true rfl ⟨bytes, rfl⟩
  | classRef nameIndex =>
    exact iff_of_false (show classTag ≠ utf8Tag by decide) (by rintro ⟨bytes, e⟩; cases e)
  | other tag payload => exact iff_of_false h.tag_ne.1 (by rintro ⟨bytes, e⟩; cases e)
  | unusable => exact absurd rfl hne

theorem tag_eq_classTag_iff {c : Constant} (hne : c ≠ .unusable) (h : c.Storable) :
    c.tag = classTag ↔ ∃ nameIndex, c = .classRef nameIndex := by
  cases c with
  | utf8 bytes =>
    exact iff_of_false (show utf8Tag ≠ classTag by decide) (by rintro ⟨nameIndex, e⟩; cases e)
  | classRef nameIndex => exact iff_of_true rfl ⟨nameIndex, rfl⟩
  | other tag payload => exact iff_of_false h.tag_ne.2 (by rintro ⟨nameIndex, e⟩; cases e)
  | unusable => exact absurd rfl hne

/-- Behind the tag of a text stand its length and its bytes. -/
theorem reads_utf8 :
    Reader.Reads (do
        let len ← Reader.u2
        return utf8 (← Reader.take len.toNat))
      fun c bs => ∃ bytes : Bytes, c = .utf8 bytes ∧ bytes.length ≤ 65535 ∧ bs = c.body := by
  refine (Reader.reads_u2.bind fun len => (Reader.reads_take len.toNat).map utf8).congr
    fun c bs => ?_
  constructor
  · rintro ⟨len, -, as, ⟨-, rfl⟩, ⟨bytes, ⟨hlen, hbs⟩, rfl⟩, rfl⟩
    have hl := len.toNat_lt
    refine ⟨bytes, rfl, by omega, ?_⟩
    show _ = Bytes.ofUInt16 (UInt16.ofNat bytes.length) ++ bytes
    rw [hbs, hlen, UInt16.ofNat_toNat]
  · rintro ⟨bytes, rfl, hle, rfl⟩
    refine ⟨UInt16.ofNat bytes.length, _, bytes, ⟨trivial, rfl⟩, ⟨bytes, ⟨?_, rfl⟩, rfl⟩, rfl⟩
    rw [UInt16.toNat_ofNat']
    omega

/-- Behind a tag stands the rest of a constant with that tag. -/
theorem reads_body (index : UInt16) (t : UInt8) :
    Reader.Reads (if t = utf8Tag then do
        let len ← Reader.u2
        return utf8 (← Reader.take len.toNat)
      else if t = classTag then do
        return classRef (← Reader.u2)
      else match payloadSize? t with
        | some size => do return other t (← Reader.take size)
        | none => throw (.unknownConstant t index))
      fun c bs => c.tag = t ∧ c ≠ .unusable ∧ c.Storable ∧ bs = c.body := by
  by_cases hu : t = utf8Tag
  · rw [if_pos hu]
    refine reads_utf8.congr fun c bs => ?_
    constructor
    · rintro ⟨bytes, rfl, hle, rfl⟩
      exact ⟨hu.symm, by simp, hle, rfl⟩
    · rintro ⟨rfl, hne, hfits, rfl⟩
      obtain ⟨bytes, rfl⟩ := (tag_eq_utf8Tag_iff hne hfits).1 hu
      exact ⟨bytes, rfl, hfits, rfl⟩
  rw [if_neg hu]
  by_cases hc : t = classTag
  · rw [if_pos hc]
    refine (Reader.reads_u2.map classRef).congr fun c bs => ?_
    constructor
    · rintro ⟨nameIndex, ⟨-, rfl⟩, rfl⟩
      exact ⟨hc.symm, by simp, trivial, rfl⟩
    · rintro ⟨rfl, hne, hfits, rfl⟩
      obtain ⟨nameIndex, rfl⟩ := (tag_eq_classTag_iff hne hfits).1 hc
      exact ⟨nameIndex, ⟨trivial, rfl⟩, rfl⟩
  rw [if_neg hc]
  -- with neither of these two tags, only a constant of fixed size is left
  have other_of_tag : ∀ c : Constant, c.tag = t → c ≠ .unusable →
      ∃ payload, c = .other t payload := by
    rintro c rfl hne
    cases c with
    | utf8 bytes => exact absurd rfl hu
    | classRef nameIndex => exact absurd rfl hc
    | other tag payload => exact ⟨payload, rfl⟩
    | unusable => exact absurd rfl hne
  cases hs : payloadSize? t with
  | some size =>
    refine ((Reader.reads_take size).map (other t)).congr fun c bs => ?_
    constructor
    · rintro ⟨payload, ⟨rfl, rfl⟩, rfl⟩
      exact ⟨rfl, by simp, hs, rfl⟩
    · rintro ⟨htag, hne, hfits, rfl⟩
      obtain ⟨payload, rfl⟩ := other_of_tag c htag hne
      have hsize : payloadSize? t = some payload.length := hfits
      rw [hs, Option.some.injEq] at hsize
      exact ⟨payload, ⟨hsize.symm, rfl⟩, rfl⟩
  | none =>
    -- an unknown tag is refused, and no storable constant has it
    refine (Reader.Reads.throw _).congr fun c bs => ⟨False.elim, ?_⟩
    rintro ⟨htag, hne, hfits, -⟩
    obtain ⟨payload, rfl⟩ := other_of_tag c htag hne
    have hsize : payloadSize? t = some payload.length := hfits
    rw [hs] at hsize
    cases hsize

/-- A slot holds any storable constant that is not the unusable one. -/
theorem reads_read (index : UInt16) :
    Reader.Reads (read index) (.one encode fun c => c ≠ .unusable ∧ c.Storable) := by
  refine (Reader.reads_u1.bind fun t => reads_body index t).congr fun c bs => ?_
  constructor
  · rintro ⟨t, -, -, ⟨-, rfl⟩, ⟨rfl, hne, hfits, rfl⟩, rfl⟩
    exact ⟨⟨hne, hfits⟩, tag_cons_body hne⟩
  · rintro ⟨⟨hne, hfits⟩, rfl⟩
    exact ⟨c.tag, [c.tag], c.body, ⟨trivial, rfl⟩, ⟨rfl, hne, hfits, rfl⟩,
      (tag_cons_body hne).symm⟩

end Constant

/-! ## The pool -/

/-- The unusable slots are those behind a wide constant. For the first slot, `behind` says whether
it stands behind one. -/
def Aligned : (behind : Bool) → List Constant → Prop
  | behind, [] => behind = false
  | behind, c :: cs => (c = .unusable ↔ behind = true) ∧ Aligned c.isWide cs

theorem aligned_iff (behind : Bool) (cs : List Constant) :
    Aligned behind cs ↔ ∀ i, cs[i]? = some .unusable ↔
      (i = 0 ∧ behind = true) ∨ ∃ j c, i = j + 1 ∧ cs[j]? = some c ∧ c.isWide = true := by
  induction cs generalizing behind with
  | nil => cases behind <;> simp [Aligned]
  | cons c cs ih =>
    rw [Aligned, ih]
    constructor
    · rintro ⟨hc, hcs⟩ i
      cases i with
      | zero => simpa using hc
      | succ i =>
        -- a slot of the tail stands behind the head, or behind a slot of the tail
        rw [List.getElem?_cons_succ, hcs i]
        constructor
        · rintro (⟨rfl, hw⟩ | ⟨j, d, rfl, hd, hw⟩)
          · exact Or.inr ⟨0, c, rfl, rfl, hw⟩
          · exact Or.inr ⟨j + 1, d, rfl, hd, hw⟩
        · rintro (⟨h, -⟩ | ⟨j, d, hj, hd, hw⟩)
          · cases h
          · obtain rfl := Nat.succ.inj hj
            cases i with
            | zero =>
              cases hd
              exact Or.inl ⟨rfl, hw⟩
            | succ i => exact Or.inr ⟨i, d, rfl, hd, hw⟩
    · intro h
      refine ⟨by simpa using h 0, fun i => ?_⟩
      rw [← List.getElem?_cons_succ (a := c), h (i + 1)]
      constructor
      · rintro (⟨h, -⟩ | ⟨j, d, hj, hd, hw⟩)
        · cases h
        · obtain rfl := Nat.succ.inj hj
          cases i with
          | zero =>
            cases hd
            exact Or.inl ⟨rfl, hw⟩
          | succ i => exact Or.inr ⟨i, d, rfl, hd, hw⟩
      · rintro (⟨rfl, hw⟩ | ⟨j, d, rfl, hd, hw⟩)
        · exact Or.inr ⟨0, c, rfl, rfl, hw⟩
        · exact Or.inr ⟨j + 1, d, rfl, hd, hw⟩

namespace ConstantPool

/-- A pool that the format can hold. -/
structure Representable (p : ConstantPool) : Prop where
  size_le : p.slots.size ≤ 65535
  storable : ∀ c ∈ p.slots, c.Storable
  /-- Slot 0 is unusable, and the slot behind each wide constant, and no other. -/
  unusable_iff : ∀ i, p.slots[i]? = some .unusable ↔
    i = 0 ∨ ∃ j c, i = j + 1 ∧ p.slots[j]? = some c ∧ c.isWide = true

theorem representable_iff (p : ConstantPool) : p.Representable ↔
    p.slots.size ≤ 65535 ∧ ∃ cs, p.slots.toList = .unusable :: cs ∧
      (∀ c ∈ cs, c.Storable) ∧ Aligned false cs := by
  -- slot 0 is laid out as if it stood behind a wide constant
  have aligned : (∀ i, p.slots[i]? = some .unusable ↔
      i = 0 ∨ ∃ j c, i = j + 1 ∧ p.slots[j]? = some c ∧ c.isWide = true) ↔
      Aligned true p.slots.toList := by
    rw [aligned_iff]
    simp only [Array.getElem?_toList, and_true]
  constructor
  · rintro ⟨hsize, hstorable, hunusable⟩
    refine ⟨hsize, ?_⟩
    have h := aligned.1 hunusable
    cases e : p.slots.toList with
    | nil =>
      rw [e] at h
      cases h
    | cons c cs =>
      rw [e] at h
      obtain ⟨hc, hcs⟩ := h
      obtain rfl := hc.2 rfl
      refine ⟨cs, rfl, fun c hc => hstorable c ?_, hcs⟩
      rw [← Array.mem_toList_iff, e]
      exact List.mem_cons_of_mem _ hc
  · rintro ⟨hsize, cs, e, hstorable, hcs⟩
    refine ⟨hsize, fun c hc => ?_, aligned.2 ?_⟩
    · rw [← Array.mem_toList_iff, e] at hc
      rcases List.mem_cons.1 hc with rfl | hc
      · trivial
      · exact hstorable c hc
    · rw [e]
      exact ⟨iff_of_true rfl rfl, hcs⟩

/-- The bytes that fill `left` more slots of `p` and so lead to another pool. -/
def Fills (left : Nat) (p : ConstantPool) : Form ConstantPool := fun q bs =>
  ∃ cs : List Constant, q.slots.toList = p.slots.toList ++ cs ∧ cs.length = left ∧
    (∀ c ∈ cs, c.Storable) ∧ Aligned false cs ∧ bs = cs.flatMap Constant.encode

theorem slots_append_of_isWide {p : ConstantPool} {c : Constant} (h : c.isWide = true) :
    (p.append c).slots.toList = p.slots.toList ++ [c, .unusable] := by
  simp [append, h]

theorem slots_append_of_not_isWide {p : ConstantPool} {c : Constant} (h : ¬ c.isWide = true) :
    (p.append c).slots.toList = p.slots.toList ++ [c] := by
  simp [append, h]

/-- A wide constant fills two slots. -/
theorem fills_of_isWide {left : Nat} {p q : ConstantPool} {c : Constant} {bs : Bytes}
    (hw : c.isWide = true) (hc : c ≠ .unusable) (hs : c.Storable)
    (h : Fills left (p.append c) q bs) : Fills (left + 2) p q (c.encode ++ bs) := by
  obtain ⟨cs, hq, hlen, hstorable, haligned, rfl⟩ := h
  refine ⟨c :: .unusable :: cs, ?_, by simp [hlen], ?_, ?_, rfl⟩
  · rw [hq, slots_append_of_isWide hw]
    simp
  · rintro d (_ | ⟨_, _ | ⟨_, hd⟩⟩)
    · exact hs
    · trivial
    · exact hstorable d hd
  · refine ⟨iff_of_false hc (by simp), ?_⟩
    rw [hw]
    exact ⟨iff_of_true rfl rfl, haligned⟩

/-- Any other constant fills one. -/
theorem fills_of_not_isWide {left : Nat} {p q : ConstantPool} {c : Constant} {bs : Bytes}
    (hw : ¬ c.isWide = true) (hc : c ≠ .unusable) (hs : c.Storable)
    (h : Fills left (p.append c) q bs) : Fills (left + 1) p q (c.encode ++ bs) := by
  obtain ⟨cs, hq, hlen, hstorable, haligned, rfl⟩ := h
  refine ⟨c :: cs, ?_, by simp [hlen], List.forall_mem_cons.2 ⟨hs, hstorable⟩, ?_, rfl⟩
  · rw [hq, slots_append_of_not_isWide hw]
    simp
  · refine ⟨iff_of_false hc (by simp), ?_⟩
    rw [Bool.not_eq_true] at hw
    rwa [hw]

/-- Slots are filled one constant after the other. -/
theorem fills_succ_iff (left : Nat) (p q : ConstantPool) (bs : Bytes) :
    Fills (left + 1) p q bs ↔ ∃ c as bs', (c ≠ .unusable ∧ c.Storable) ∧ as = c.encode ∧
      (if c.isWide then ∃ left', left = left' + 1 ∧ Fills left' (p.append c) q bs'
        else Fills left (p.append c) q bs') ∧ bs = as ++ bs' := by
  constructor
  · rintro ⟨cs, hq, hlen, hstorable, haligned, rfl⟩
    obtain ⟨c, cs, rfl⟩ := List.exists_cons_of_length_eq_add_one hlen
    obtain ⟨hs, hstorable⟩ := List.forall_mem_cons.1 hstorable
    obtain ⟨hc, haligned⟩ := haligned
    have hne : c ≠ .unusable := fun e => by simpa using hc.1 e
    refine ⟨c, _, _, ⟨hne, hs⟩, rfl, ?_, rfl⟩
    by_cases hw : c.isWide = true
    · rw [if_pos hw]
      rw [hw] at haligned
      cases cs with
      | nil => cases haligned
      | cons d cs =>
        -- the slot behind the wide constant is the unusable one
        obtain ⟨hd, haligned⟩ := haligned
        obtain rfl := hd.2 rfl
        refine ⟨cs.length, by simpa using hlen.symm, cs, ?_, rfl, fun d hd => ?_, haligned, rfl⟩
        · rw [hq, slots_append_of_isWide hw]
          simp
        · exact hstorable d (List.mem_cons_of_mem _ hd)
    · rw [if_neg hw]
      rw [Bool.not_eq_true] at hw
      rw [hw] at haligned
      refine ⟨cs, ?_, Nat.succ.inj hlen, hstorable, haligned, rfl⟩
      rw [hq, slots_append_of_not_isWide (by simp [hw])]
      simp
  · rintro ⟨c, -, bs', ⟨hne, hs⟩, rfl, h, rfl⟩
    by_cases hw : c.isWide = true
    · rw [if_pos hw] at h
      obtain ⟨left', rfl, h⟩ := h
      exact fills_of_isWide hw hne hs h
    · rw [if_neg hw] at h
      exact fills_of_not_isWide hw hne hs h

/-- Reading slots reads what fills them. -/
theorem reads_slots (left : Nat) (p : ConstantPool) :
    Reader.Reads (readSlots left p) (Fills left p) := by
  -- a wide constant takes two slots at once, so the induction is on all smaller numbers
  induction left using Nat.strongRecOn generalizing p with
  | _ left ih =>
    cases left with
    | zero =>
      refine (Reader.Reads.pure p).congr fun q bs => ?_
      constructor
      · rintro ⟨rfl, rfl⟩
        exact ⟨[], by simp, rfl, by simp, rfl, rfl⟩
      · rintro ⟨cs, hq, hlen, -, -, rfl⟩
        obtain rfl := List.length_eq_zero_iff.1 hlen
        rw [List.append_nil, Array.toList_inj] at hq
        cases p
        cases q
        exact ⟨congrArg _ hq, rfl⟩
    | succ left =>
      rw [readSlots]
      refine ((Constant.reads_read _).bind (G := fun c q bs =>
        if c.isWide then ∃ left', left = left' + 1 ∧ Fills left' (p.append c) q bs
        else Fills left (p.append c) q bs) fun c => ?_).congr fun q bs => ?_
      · by_cases hw : c.isWide = true
        · simp only [if_pos hw]
          cases left with
          | zero =>
            -- no slot is left for the second half of the constant
            exact (Reader.Reads.throw _).congr fun q bs => by simp
          | succ left => exact (ih left (by omega) (p.append c)).congr fun q bs => by simp
        · simp only [if_neg hw]
          exact ih left (by omega) (p.append c)
      · rw [fills_succ_iff]
        simp only [Form.one, and_assoc]

/-- The written forms of a pool: its encoding, and for the pool with slot 0 alone the count 0. -/
def WrittenForm : Form ConstantPool := fun p bs =>
  p.Representable ∧ (bs = p.encode ∨ p = empty ∧ bs = Bytes.ofUInt16 0)

theorem reads_read : Reader.Reads read WrittenForm := by
  refine (Reader.reads_u2.bind fun count => reads_slots (count.toNat - 1) empty).congr
    fun p bs => ?_
  rw [WrittenForm, representable_iff]
  constructor
  · rintro ⟨count, -, -, ⟨-, rfl⟩, ⟨cs, hp, hlen, hstorable, haligned, rfl⟩, rfl⟩
    have hcount := count.toNat_lt
    have hsize : p.slots.size = cs.length + 1 := by
      rw [← Array.length_toList, hp]
      simp [empty]
    refine ⟨⟨by omega, cs, hp, hstorable, haligned⟩, ?_⟩
    by_cases h0 : count = 0
    · -- the count 0 stands for slot 0 alone, as the count 1 does
      subst h0
      obtain rfl := List.length_eq_zero_iff.1 hlen
      refine Or.inr ⟨?_, rfl⟩
      cases p
      rw [List.append_nil, Array.toList_inj] at hp
      exact congrArg _ hp
    · have hpos : count.toNat ≠ 0 := fun e => h0 (UInt16.toNat_inj.1 e)
      have e : count = UInt16.ofNat p.slots.size := by
        rw [hsize, hlen, Nat.sub_add_cancel (by omega), UInt16.ofNat_toNat]
      refine Or.inl ?_
      rw [encode, hp, e]
      rfl
  · rintro ⟨⟨hsize, cs, hp, hstorable, haligned⟩, h⟩
    have hlen : p.slots.size = cs.length + 1 := by
      rw [← Array.length_toList, hp, List.length_cons]
    rcases h with rfl | ⟨rfl, rfl⟩
    · refine ⟨UInt16.ofNat p.slots.size, _, _, ⟨trivial, rfl⟩,
        ⟨cs, hp, ?_, hstorable, haligned, rfl⟩, ?_⟩
      · rw [UInt16.toNat_ofNat']
        omega
      · rw [encode, hp]
        rfl
    · exact ⟨0, _, [], ⟨trivial, rfl⟩, ⟨[], by simp, rfl, by simp, rfl, rfl⟩, rfl⟩

/-- Slot 0 alone holds no text. -/
theorem text_empty (index : UInt16) :
    empty.text index = .error (.badConstantRef index .utf8) := by
  unfold text get? empty
  cases index.toNat with
  | zero => rfl
  | succ n => rfl

end ConstantPool

/-! ## Attributes and members -/

namespace Attribute

/-- An attribute whose length fits a 32-bit word. -/
def Representable (a : Attribute) : Prop := a.info.length < 4294967296

theorem reads_read : Reader.Reads read (.one encode Representable) := by
  refine (Reader.reads_u2.bind fun nameIndex => Reader.reads_u4.bind fun length =>
    (Reader.reads_take length.toNat).map (mk nameIndex)).congr fun a bs => ?_
  constructor
  · rintro ⟨nameIndex, -, -, ⟨-, rfl⟩, ⟨length, -, as, ⟨-, rfl⟩, ⟨info, ⟨hlen, has⟩, rfl⟩, rfl⟩, rfl⟩
    have hl := length.toNat_lt
    -- the length that was read is that of the blob, so it is written again
    refine ⟨?_, ?_⟩
    · show info.length < 4294967296
      omega
    · show _ = Bytes.ofUInt16 nameIndex ++ Bytes.ofUInt32 (UInt32.ofNat info.length) ++ info
      rw [has, hlen, UInt32.ofNat_toNat, List.append_assoc]
  · rintro ⟨hfits, rfl⟩
    have hlen : a.info.length < 4294967296 := hfits
    refine ⟨a.nameIndex, _, _, ⟨trivial, rfl⟩, ⟨UInt32.ofNat a.info.length, _, a.info,
      ⟨trivial, rfl⟩, ⟨a.info, ⟨?_, rfl⟩, rfl⟩, rfl⟩, List.append_assoc _ _ _⟩
    rw [UInt32.toNat_ofNat']
    omega

end Attribute

namespace Member

/-- A member whose attributes fit their table. -/
structure Representable (m : Member) : Prop where
  attributes_le : m.attributes.length ≤ 65535
  attributes : ∀ a ∈ m.attributes, a.Representable

theorem reads_read : Reader.Reads read (.one encode Representable) := by
  refine (Reader.reads_u2.bind fun access => Reader.reads_u2.bind fun nameIndex =>
    Reader.reads_u2.bind fun descriptorIndex =>
      (Reader.reads_table Attribute.reads_read).map (mk access nameIndex descriptorIndex)).congr
    fun m bs => ?_
  constructor
  · rintro ⟨access, -, -, ⟨-, rfl⟩, ⟨nameIndex, -, -, ⟨-, rfl⟩, ⟨descriptorIndex, -, -, ⟨-, rfl⟩,
      ⟨attributes, ⟨⟨hlen, hfits⟩, rfl⟩, rfl⟩, rfl⟩, rfl⟩, rfl⟩
    refine ⟨⟨hlen, hfits⟩, ?_⟩
    simp only [encode, List.append_assoc]
  · rintro ⟨⟨hlen, hfits⟩, rfl⟩
    refine ⟨m.access, _, _, ⟨trivial, rfl⟩, ⟨m.nameIndex, _, _, ⟨trivial, rfl⟩,
      ⟨m.descriptorIndex, _, _, ⟨trivial, rfl⟩,
        ⟨m.attributes, ⟨⟨hlen, hfits⟩, rfl⟩, rfl⟩, rfl⟩, rfl⟩, ?_⟩
    simp only [encode, List.append_assoc]

end Member

/-! ## Whole class files -/

namespace ClassPreamble

/-- What stands behind the magic number, with given bytes in the place of the pool. -/
def encodeRest (p : ClassPreamble) (pool : Bytes) : Bytes :=
  Bytes.ofUInt16 p.minorVersion ++ Bytes.ofUInt16 p.majorVersion ++ pool ++
    Bytes.ofUInt16 p.access.bits ++ Bytes.ofUInt16 p.thisClass ++ Bytes.ofUInt16 p.superClass ++
    encodeTable Bytes.ofUInt16 p.interfaces

/-- The encoding with given bytes in the place of the pool. -/
def encodeAround (p : ClassPreamble) (pool : Bytes) : Bytes :=
  Bytes.ofUInt32 classFileMagic ++ p.encodeRest pool

theorem encodeAround_pool (p : ClassPreamble) : p.encodeAround p.pool.encode = p.encode := by
  simp only [encodeAround, encodeRest, encode, encodeTable, List.append_assoc]

/-- The written forms of a preamble differ in the form of the pool only. -/
def WrittenForm : Form ClassPreamble := fun p bs =>
  p.interfaces.length ≤ 65535 ∧
    ∃ pool, p.pool.WrittenForm pool ∧ bs = p.encodeAround pool

/-- The reader of what follows the magic number. -/
def readRest : Reader ClassPreamble := do
  let minorVersion ← Reader.u2
  let majorVersion ← Reader.u2
  let pool ← ConstantPool.read
  let access ← Reader.u2
  let thisClass ← Reader.u2
  let superClass ← Reader.u2
  let interfaces ← Reader.table Reader.u2
  return { minorVersion, majorVersion, pool, access := ⟨access⟩, thisClass, superClass, interfaces }

theorem read_eq : read = Reader.u4 >>= fun magic =>
    if magic ≠ classFileMagic then throw (.badMagic magic) else readRest := by
  rw [read]
  congr 1

theorem reads_readRest : Reader.Reads readRest fun p bs => p.interfaces.length ≤ 65535 ∧
    ∃ pool, p.pool.WrittenForm pool ∧ bs = p.encodeRest pool := by
  refine (Reader.reads_u2.bind fun minorVersion => Reader.reads_u2.bind fun majorVersion =>
    ConstantPool.reads_read.bind fun pool => Reader.reads_u2.bind fun access =>
    Reader.reads_u2.bind fun thisClass => Reader.reads_u2.bind fun superClass =>
    (Reader.reads_table Reader.reads_u2).map
      (mk minorVersion majorVersion pool ⟨access⟩ thisClass superClass)).congr fun p bs => ?_
  constructor
  · rintro ⟨minorVersion, -, -, ⟨-, rfl⟩, ⟨majorVersion, -, -, ⟨-, rfl⟩, ⟨pool, poolBytes, -, hpool,
      ⟨access, -, -, ⟨-, rfl⟩, ⟨thisClass, -, -, ⟨-, rfl⟩, ⟨superClass, -, -, ⟨-, rfl⟩,
      ⟨interfaces, ⟨⟨hlen, -⟩, rfl⟩, rfl⟩, rfl⟩, rfl⟩, rfl⟩, rfl⟩, rfl⟩, rfl⟩
    refine ⟨hlen, poolBytes, hpool, ?_⟩
    simp only [encodeRest, List.append_assoc]
  · rintro ⟨hlen, pool, hpool, rfl⟩
    refine ⟨p.minorVersion, _, _, ⟨trivial, rfl⟩, ⟨p.majorVersion, _, _, ⟨trivial, rfl⟩,
      ⟨p.pool, pool, _, hpool, ⟨p.access.bits, _, _, ⟨trivial, rfl⟩,
        ⟨p.thisClass, _, _, ⟨trivial, rfl⟩, ⟨p.superClass, _, _, ⟨trivial, rfl⟩,
          ⟨p.interfaces, ⟨⟨hlen, fun _ _ => trivial⟩, rfl⟩, rfl⟩, rfl⟩, rfl⟩, rfl⟩, rfl⟩, rfl⟩, ?_⟩
    simp only [encodeRest, List.append_assoc]

theorem reads_read : Reader.Reads read WrittenForm := by
  rw [read_eq]
  -- behind any other magic number nothing is read
  refine (Reader.reads_u4.bind (G := fun magic p bs => magic = classFileMagic ∧
    p.interfaces.length ≤ 65535 ∧ ∃ pool, p.pool.WrittenForm pool ∧ bs = p.encodeRest pool)
    fun magic => ?_).congr fun p bs => ?_
  · by_cases hm : magic = classFileMagic
    · simp only [hm, ne_eq, not_true_eq_false, if_false, true_and]
      exact reads_readRest
    · simp only [hm, ne_eq, not_false_eq_true, if_true, false_and]
      exact Reader.Reads.throw _
  · constructor
    · rintro ⟨magic, -, -, ⟨-, rfl⟩, ⟨rfl, hlen, pool, hpool, rfl⟩, rfl⟩
      exact ⟨hlen, pool, hpool, rfl⟩
    · rintro ⟨hlen, pool, hpool, rfl⟩
      exact ⟨classFileMagic, _, _, ⟨trivial, rfl⟩, ⟨rfl, hlen, pool, hpool, rfl⟩, rfl⟩

end ClassPreamble

namespace ClassFile

/-- A class file that the format can hold: every count and length fits its field, and the pool
is laid out properly. -/
structure Representable (cf : ClassFile) : Prop where
  pool : cf.pool.Representable
  interfaces_le : cf.interfaces.length ≤ 65535
  fields_le : cf.fields.length ≤ 65535
  methods_le : cf.methods.length ≤ 65535
  attributes_le : cf.attributes.length ≤ 65535
  fields : ∀ m ∈ cf.fields, m.Representable
  methods : ∀ m ∈ cf.methods, m.Representable
  attributes : ∀ a ∈ cf.attributes, a.Representable

/-- The written forms of a class file differ in the form of the pool only. -/
def WrittenForm : Form ClassFile := fun cf bs =>
  cf.Representable ∧ ∃ pool, cf.pool.WrittenForm pool ∧
    bs = cf.toClassPreamble.encodeAround pool ++ encodeTable Member.encode cf.fields ++
      encodeTable Member.encode cf.methods ++ encodeTable Attribute.encode cf.attributes

theorem reads_read : Reader.Reads read WrittenForm := by
  refine (ClassPreamble.reads_read.bind fun preamble =>
    (Reader.reads_table Member.reads_read).bind fun fields =>
    (Reader.reads_table Member.reads_read).bind fun methods =>
    (Reader.reads_table Attribute.reads_read).map (mk preamble fields methods)).congr
    fun cf bs => ?_
  constructor
  · rintro ⟨preamble, -, -, ⟨hinterfaces, pool, hpool, rfl⟩,
      ⟨fields, -, -, ⟨⟨hfields, hf⟩, rfl⟩, ⟨methods, -, -, ⟨⟨hmethods, hm⟩, rfl⟩,
        ⟨attributes, ⟨⟨hattributes, ha⟩, rfl⟩, rfl⟩, rfl⟩, rfl⟩, rfl⟩
    refine ⟨⟨hpool.1, hinterfaces, hfields, hmethods, hattributes, hf, hm, ha⟩, pool, hpool, ?_⟩
    simp only [List.append_assoc]
  · rintro ⟨h, pool, hpool, rfl⟩
    refine ⟨cf.toClassPreamble, _, _, ⟨h.interfaces_le, pool, hpool, rfl⟩,
      ⟨cf.fields, _, _, ⟨⟨h.fields_le, h.fields⟩, rfl⟩,
        ⟨cf.methods, _, _, ⟨⟨h.methods_le, h.methods⟩, rfl⟩,
          ⟨cf.attributes, ⟨⟨h.attributes_le, h.attributes⟩, rfl⟩, rfl⟩, rfl⟩, rfl⟩, ?_⟩
    simp only [List.append_assoc]

/-- **Parsing accepts exactly the written forms of representable class files.** -/
theorem parse_eq_ok_iff (bs : Bytes) (cf : ClassFile) :
    parse bs = .ok cf ↔ WrittenForm cf bs := by
  unfold parse
  constructor
  · intro h
    cases hr : read (Reader.start bs) with
    | error fault =>
      rw [hr] at h
      cases h
    | ok p =>
      obtain ⟨cf', c⟩ := p
      obtain ⟨form, hform, hrest, -⟩ := (reads_read _ _ _).1 hr
      rw [hr] at h
      -- nothing may be left behind the class file
      cases hc : c.rest with
      | nil =>
        simp only [bind, Except.bind, hc] at h
        cases h
        have hbs : bs = form := by
          rw [hc, List.append_nil] at hrest
          exact hrest
        rwa [hbs]
      | cons b rest =>
        simp only [bind, Except.bind, hc] at h
        cases h
  · intro h
    have hr : read (Reader.start bs) = .ok (cf, ⟨bs.length, []⟩) :=
      (reads_read _ _ _).2 ⟨bs, h, (List.append_nil bs).symm, (Nat.zero_add _).symm⟩
    rw [hr]
    rfl

theorem writtenForm_encode {cf : ClassFile} (h : cf.Representable) : WrittenForm cf cf.encode := by
  refine ⟨h, cf.pool.encode, ⟨h.pool, Or.inl rfl⟩, ?_⟩
  rw [ClassPreamble.encodeAround_pool, encode]

theorem parse_encode {cf : ClassFile} (h : cf.Representable) : parse cf.encode = .ok cf :=
  (parse_eq_ok_iff _ _).2 (writtenForm_encode h)

/-- **A class file comes back from its encoding exactly when it is representable.** -/
theorem parse_encode_iff (cf : ClassFile) : parse cf.encode = .ok cf ↔ cf.Representable := by
  rw [parse_eq_ok_iff]
  exact ⟨fun h => h.1, writtenForm_encode⟩

/-- The number of pool slots that a class file states, in the word behind its versions. -/
def poolCount (bs : Bytes) : UInt16 := UInt16.ofNat (Bytes.word ((bs.drop 8).take 2))

/-- What follows the pool in a class file. -/
def encodeTail (cf : ClassFile) : Bytes :=
  Bytes.ofUInt16 cf.access.bits ++ Bytes.ofUInt16 cf.thisClass ++ Bytes.ofUInt16 cf.superClass ++
    encodeTable Bytes.ofUInt16 cf.interfaces ++ encodeTable Member.encode cf.fields ++
    encodeTable Member.encode cf.methods ++ encodeTable Attribute.encode cf.attributes

/-- What precedes the pool. -/
def encodeHead (cf : ClassFile) : Bytes :=
  Bytes.ofUInt32 classFileMagic ++ Bytes.ofUInt16 cf.minorVersion ++
    Bytes.ofUInt16 cf.majorVersion

@[simp] theorem length_encodeHead (cf : ClassFile) : cf.encodeHead.length = 8 := rfl

/-- A written form is the head, a written form of the pool and the tail. -/
theorem writtenForm_iff (cf : ClassFile) (bs : Bytes) : WrittenForm cf bs ↔
    cf.Representable ∧ ∃ pool, cf.pool.WrittenForm pool ∧
      bs = cf.encodeHead ++ (pool ++ cf.encodeTail) := by
  simp only [WrittenForm, ClassPreamble.encodeAround, ClassPreamble.encodeRest, encodeHead,
    encodeTail, List.append_assoc]

theorem encode_eq_append (cf : ClassFile) :
    cf.encode = cf.encodeHead ++ (cf.pool.encode ++ cf.encodeTail) := by
  simp only [encode, ClassPreamble.encode, encodeTable, encodeHead, encodeTail, List.append_assoc]

theorem poolCount_append (cf : ClassFile) (count : UInt16) (rest : Bytes) :
    poolCount (cf.encodeHead ++ (Bytes.ofUInt16 count ++ rest)) = count := by
  have hhead : (cf.encodeHead ++ (Bytes.ofUInt16 count ++ rest)).drop 8 =
      Bytes.ofUInt16 count ++ rest := List.drop_left' cf.length_encodeHead
  rw [poolCount, hhead, List.take_left' (Bytes.length_ofUInt16 count), Bytes.word_ofUInt16,
    UInt16.ofNat_toNat]

/-- A pool has a slot 0, so the count that its encoding states is not 0. -/
theorem poolCount_encode_ne_zero {cf : ClassFile} (h : cf.Representable) :
    poolCount cf.encode ≠ 0 := by
  obtain ⟨hsize, cs, hslots, -⟩ := (ConstantPool.representable_iff _).1 h.pool
  have hpos : cf.pool.slots.size = cs.length + 1 := by
    rw [← Array.length_toList, hslots, List.length_cons]
  rw [encode_eq_append, ConstantPool.encode, List.append_assoc, poolCount_append]
  intro e
  have h0 : cf.pool.slots.size % 65536 = 0 := by
    rw [← UInt16.toNat_ofNat', e]
    rfl
  omega

/-- **Bytes that parse are written back as they were, unless they state the pool count 0: then
the count 1 is written in its place.** -/
theorem encode_parsed_iff {bs : Bytes} {cf : ClassFile} (h : parse bs = .ok cf) :
    (cf.encode = bs ↔ poolCount bs ≠ 0) ∧
      (poolCount bs = 0 → cf.encode = bs.take 8 ++ Bytes.ofUInt16 1 ++ bs.drop 10) := by
  obtain ⟨hrep, pool, ⟨-, hpool⟩, hbs⟩ := (writtenForm_iff cf bs).1 ((parse_eq_ok_iff bs cf).1 h)
  have hne := poolCount_encode_ne_zero hrep
  rcases hpool with rfl | ⟨hempty, rfl⟩
  · -- the pool stands in the form that encoding gives it
    rw [← encode_eq_append] at hbs
    subst hbs
    exact ⟨iff_of_true rfl hne, fun h0 => absurd h0 hne⟩
  · -- slot 0 alone, under the count 0
    have h0 : poolCount bs = 0 := by rw [hbs, poolCount_append]
    refine ⟨iff_of_false (fun e => hne (e ▸ h0)) (fun hn => hn h0), fun _ => ?_⟩
    have hhead : bs.take 8 = cf.encodeHead := by
      rw [hbs]
      exact List.take_left' cf.length_encodeHead
    have htail : bs.drop 10 = cf.encodeTail := by
      rw [hbs, ← List.append_assoc]
      exact List.drop_left' rfl
    rw [encode_eq_append, hempty, hhead, htail, List.append_assoc]
    rfl

/-- A class file without constants, under the pool count 0. -/
def countZeroFile : Bytes :=
  [0xCA, 0xFE, 0xBA, 0xBE, 0, 0, 0, 0x34, 0, 0, 0, 0, 0, 0, 0, 0, 0, 0, 0, 0, 0, 0, 0, 0]

/-- The class file that it holds. -/
def countZeroClass : ClassFile :=
  { minorVersion := 0, majorVersion := 52, pool := .empty, access := ⟨0⟩, thisClass := 0,
    superClass := 0, interfaces := [], fields := [], methods := [], attributes := [] }

theorem parse_countZeroFile : parse countZeroFile = .ok countZeroClass := by
  decide +kernel

theorem encode_parsed_countZeroFile : parse countZeroFile = .ok countZeroClass ∧
    countZeroClass.encode = countZeroFile.take 8 ++ Bytes.ofUInt16 1 ++ countZeroFile.drop 10 :=
  ⟨parse_countZeroFile, (encode_parsed_iff parse_countZeroFile).2 (by decide +kernel)⟩

/-- So not all bytes that parse are written back as they were. -/
theorem not_forall_encode_parsed : ¬ ∀ bs cf, parse bs = .ok cf → cf.encode = bs := by
  intro h
  have e := h countZeroFile countZeroClass parse_countZeroFile
  exact absurd e (by decide +kernel)

end ClassFile

end Reclass
