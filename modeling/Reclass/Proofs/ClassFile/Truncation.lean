import Mathlib.Tactic.Common
import Reclass.Proofs.ClassFile.RoundTrip

/-!
# Files that are too short or too long

A reader is *measured* (`Reader.Measured`) when the value that it finds is spelled by some bytes at
the front, whatever follows them, and when it needs all of these bytes: of a part of them it says
that it ends too early, at a place inside the part, and asks for no more bytes than have been cut
off. The steps of a reader depend on nothing but the bytes behind the cursor, so the property passes
from two readers to the one that runs them in a row (`Measured.bind`); the cut may fall into the
first of them, or behind it.

The reader of class files is built of measured readers only. So no class file is the beginning of
another one, and a file that has been cut off is never taken for damaged in some other way
(`ClassFile.parse_cut_or_extended`).
-/

set_option autoImplicit false

namespace Reclass

namespace Reader

variable {α β : Type}

/-- The reader needs all of these bytes. Of a front part of them, at whatever offset it stands, it
reports that the bytes end too early: at a place that is not behind their end, and by at most as many
as have been cut off. -/
def Needs (r : Reader α) (bs : Bytes) : Prop :=
  ∀ (offset : Nat) (front cut : Bytes), bs = front ++ cut → cut ≠ [] →
    ∃ place needed, r ⟨offset, front⟩ = .error (.truncated place needed) ∧
      place ≤ offset + front.length ∧ 1 ≤ needed ∧ needed ≤ cut.length

/-- From `c` to `c'` the reader takes the bytes `bs` and finds the value `a`. These bytes alone
decide that it does. -/
structure Takes (r : Reader α) (c : Cursor) (a : α) (c' : Cursor) (bs : Bytes) : Prop where
  rest : c.rest = bs ++ c'.rest
  offset : c'.offset = c.offset + bs.length
  spells : r.Spells a bs
  needs : r.Needs bs

/-- Whenever the reader finds a value, it does so by the bytes that it takes. -/
def Measured (r : Reader α) : Prop :=
  ∀ c a c', r c = .ok (a, c') → ∃ bs, r.Takes c a c' bs

namespace Measured

/-- What needs no bytes cannot be cut off. -/
theorem pure (a : α) : Measured (Pure.pure a : Reader α) := by
  intro c b c' h
  cases h
  refine ⟨[], rfl, rfl, fun _ _ => rfl, ?_⟩
  intro offset front cut hcut hne
  exact absurd (List.append_eq_nil_iff.1 hcut.symm).2 hne

/-- What never finds a value is measured. -/
theorem throw (fault : ClassFormatError) :
    Measured (throwThe ClassFormatError fault : Reader α) := by
  intro c a c' h
  cases h

theorem bind {r : Reader α} {f : α → Reader β} (hr : Measured r) (hf : ∀ a, Measured (f a)) :
    Measured (r >>= f) := by
  intro c b c' h
  obtain ⟨a, c₁, hra, hfa⟩ := (bind_eq_ok_iff r f c c' b).1 h
  obtain ⟨as, hrest, hoffset, hspells, hneeds⟩ := hr c a c₁ hra
  obtain ⟨bs, hrest', hoffset', hspells', hneeds'⟩ := hf a c₁ b c' hfa
  refine ⟨as ++ bs, ?_, ?_, ?_, ?_⟩
  · rw [hrest, hrest', List.append_assoc]
  · rw [hoffset', hoffset, List.length_append, Nat.add_assoc]
  · -- to the first reader the bytes of the second are among those that follow
    intro offset rest
    refine (bind_eq_ok_iff r f _ _ b).2 ⟨a, ⟨offset + as.length, bs ++ rest⟩, ?_, ?_⟩
    · rw [List.append_assoc]
      exact hspells offset (bs ++ rest)
    · rw [List.length_append, ← Nat.add_assoc]
      exact hspells' _ rest
  · intro offset front cut hcut hne
    by_cases hlt : front.length < as.length
    · -- the cut falls into what the first reader needs
      obtain ⟨gone, rfl⟩ : front <+: as :=
        List.prefix_of_prefix_length_le ⟨cut, hcut.symm⟩ (List.prefix_append as bs)
          (Nat.le_of_lt hlt)
      have hgone : gone ≠ [] := by
        rintro rfl
        simp at hlt
      obtain ⟨place, needed, he, hplace, hpos, hle⟩ := hneeds offset front gone rfl hgone
      refine ⟨place, needed, bind_eq_error he f, hplace, hpos, ?_⟩
      rw [List.append_assoc, List.append_cancel_left_eq] at hcut
      rw [← hcut, List.length_append]
      omega
    · -- the first reader finds its value as before, and the second one is cut short
      obtain ⟨front', rfl⟩ : as <+: front :=
        List.prefix_of_prefix_length_le (List.prefix_append as bs) ⟨cut, hcut.symm⟩
          (Nat.not_lt.1 hlt)
      rw [List.append_assoc, List.append_cancel_left_eq] at hcut
      obtain ⟨place, needed, he, hplace, hpos, hle⟩ :=
        hneeds' (offset + as.length) front' cut hcut hne
      refine ⟨place, needed, ?_, ?_, hpos, hle⟩
      · have hfirst := hspells offset front'
        show (r ⟨offset, as ++ front'⟩).bind (fun p => f p.1 p.2) = _
        rw [hfirst]
        exact he
      · rw [List.length_append]
        omega

/-- A change of the value needs nothing. -/
theorem map {r : Reader α} (f : α → β) (hr : Measured r) :
    Measured (r >>= fun a => Pure.pure (f a)) :=
  hr.bind fun a => Measured.pure (f a)

end Measured

/-- Taking `n` bytes needs `n` bytes. -/
theorem measured_take (n : Nat) : Measured (take n) := by
  intro c bs c' h
  obtain ⟨bs, ⟨hlen, rfl⟩, hrest, hoffset⟩ := (reads_take n c bs c').1 h
  refine ⟨bs, hrest, hoffset, (reads_take n).spells ⟨hlen, rfl⟩, ?_⟩
  rintro offset front cut rfl hne
  have hcut : 1 ≤ cut.length := List.length_pos_iff.2 hne
  rw [List.length_append] at hlen
  -- there are fewer than `n` bytes, by as many as have been cut off
  have htake : front.take n = front := List.take_of_length_le (by omega)
  have hmissing : n - front.length = cut.length := by omega
  refine ⟨offset, cut.length, ?_, Nat.le_add_right _ _, hcut, Nat.le_refl _⟩
  simp only [take, List.splitAt_eq, htake, hmissing]
  rw [if_neg (Nat.pos_iff_ne_zero.1 hcut)]

theorem measured_u1 : Measured u1 := (measured_take 1).map _

theorem measured_u2 : Measured u2 := (measured_take 2).map _

theorem measured_u4 : Measured u4 := (measured_take 4).map _

theorem measured_timesFrom {item : Reader α} (h : Measured item) (n : Nat) (done : List α) :
    Measured (timesFrom item n done) := by
  induction n generalizing done with
  | zero => exact Measured.pure done.reverse
  | succ n ih => exact h.bind fun a => ih (a :: done)

theorem measured_times {item : Reader α} (h : Measured item) (n : Nat) :
    Measured (times n item) :=
  measured_timesFrom h n []

/-- The count in front of a table decides how many items it needs. -/
theorem measured_table {item : Reader α} (h : Measured item) : Measured (table item) :=
  measured_u2.bind fun count => measured_times h count.toNat

end Reader

open Reader (Measured measured_take measured_u1 measured_u2 measured_u4 measured_table)

/-- The tag of a constant decides how many bytes it needs, unless it is unknown. -/
theorem Constant.measured_read (index : UInt16) : Measured (Constant.read index) := by
  -- only texts tell their own length; other constants have a size of their kind
  refine measured_u1.bind fun tag => ?_
  by_cases hutf8 : tag = utf8Tag
  · rw [if_pos hutf8]
    exact measured_u2.bind fun len => (measured_take len.toNat).map utf8
  rw [if_neg hutf8]
  by_cases hclass : tag = classTag
  · rw [if_pos hclass]
    exact measured_u2.map classRef
  rw [if_neg hclass]
  cases payloadSize? tag with
  | some size => exact (measured_take size).map (other tag)
  | none => exact Measured.throw _

theorem ConstantPool.measured_readSlots (left : Nat) (p : ConstantPool) :
    Measured (readSlots left p) := by
  -- a wide constant takes two slots at once, so the induction is on all smaller numbers
  induction left using Nat.strongRecOn generalizing p with
  | _ left ih =>
    cases left with
    | zero => exact Measured.pure p
    | succ left =>
      rw [readSlots]
      refine (Constant.measured_read _).bind fun c => ?_
      by_cases hw : c.isWide = true
      · rw [if_pos hw]
        cases left with
        | zero => exact Measured.throw _ -- no room for its second slot
        | succ left => exact ih left (by omega) (p.append c)
      · rw [if_neg hw]
        exact ih left (by omega) (p.append c)

theorem ConstantPool.measured_read : Measured ConstantPool.read :=
  measured_u2.bind fun count => measured_readSlots (count.toNat - 1) empty

theorem Attribute.measured_read : Measured Attribute.read :=
  measured_u2.bind fun nameIndex => measured_u4.bind fun length =>
    (measured_take length.toNat).map (mk nameIndex)

theorem Member.measured_read : Measured Member.read :=
  measured_u2.bind fun access => measured_u2.bind fun nameIndex =>
    measured_u2.bind fun descriptorIndex =>
      (measured_table Attribute.measured_read).map (mk access nameIndex descriptorIndex)

theorem ClassPreamble.measured_readRest : Measured ClassPreamble.readRest :=
  measured_u2.bind fun minorVersion => measured_u2.bind fun majorVersion =>
    ConstantPool.measured_read.bind fun pool => measured_u2.bind fun access =>
      measured_u2.bind fun thisClass => measured_u2.bind fun superClass =>
        (measured_table measured_u2).map
          (mk minorVersion majorVersion pool ⟨access⟩ thisClass superClass)

theorem ClassPreamble.measured_read : Measured ClassPreamble.read := by
  rw [read_eq]
  refine measured_u4.bind fun magic => ?_
  by_cases hm : magic ≠ classFileMagic
  · rw [if_pos hm]
    exact Measured.throw _
  · rw [if_neg hm]
    exact measured_readRest

namespace ClassFile

theorem measured_read : Measured ClassFile.read :=
  ClassPreamble.measured_read.bind fun preamble =>
    (measured_table Member.measured_read).bind fun fields =>
      (measured_table Member.measured_read).bind fun methods =>
        (measured_table Attribute.measured_read).map (mk preamble fields methods)

/-- **Class files are prefix-free, and truncation is reported truthfully.** Of a file that parses,
every proper front part is reported to end too early, at an offset inside it, and to need no more
bytes than have been cut off; and when anything follows the file, the report is how much. -/
theorem parse_cut_or_extended {bs : Bytes} {cf : ClassFile} (h : parse bs = .ok cf) :
    (∀ front, front <+: bs → front ≠ bs →
      ∃ offset needed, parse front = .error (.truncated offset needed) ∧
        offset ≤ front.length ∧ 1 ≤ needed ∧ needed ≤ bs.length - front.length) ∧
      ∀ more, more ≠ [] → parse (bs ++ more) = .error (.trailingBytes more.length) := by
  have hread : read (Reader.start bs) = .ok (cf, ⟨bs.length, []⟩) :=
    (reads_read _ _ _).2 ⟨bs, (parse_eq_ok_iff bs cf).1 h, (List.append_nil bs).symm,
      (Nat.zero_add _).symm⟩
  obtain ⟨all, hrest, -, hspells, hneeds⟩ := measured_read _ _ _ hread
  -- nothing is left behind the file, so it is the whole file that is needed
  obtain rfl : bs = all := hrest.trans (List.append_nil all)
  constructor
  · rintro front ⟨cut, rfl⟩ hne
    have hcut : cut ≠ [] := by
      rintro rfl
      exact hne (List.append_nil front).symm
    obtain ⟨offset, needed, he, hoffset, hpos, hle⟩ := hneeds 0 front cut rfl hcut
    refine ⟨offset, needed, ?_, ?_, hpos, ?_⟩
    · rw [parse, Reader.start, he]
      rfl
    · rwa [Nat.zero_add] at hoffset
    · rwa [List.length_append, Nat.add_sub_cancel_left]
  · intro more hmore
    have hlonger := hspells 0 more
    rw [parse, Reader.start, hlonger]
    cases more with
    | nil => exact absurd rfl hmore
    | cons b more => rfl

/-- A class file with a constant that takes two slots, and a method with an attribute. -/
def wideConstantClass : ClassFile :=
  { minorVersion := 0, majorVersion := 52,
    pool := ⟨#[.unusable, .other Constant.longTag [0, 0, 0, 0, 0, 0, 0, 7], .unusable,
      .utf8 [0x41], .classRef 3]⟩,
    access := ⟨0x21⟩, thisClass := 4, superClass := 0, interfaces := [], fields := [],
    methods := [⟨1, 3, 3, [⟨3, [0xCA, 0xFE]⟩]⟩], attributes := [] }

/-- Cut off inside the constant, or inside the attribute, the file is reported as too short; with
two bytes more, as too long by two. -/
theorem parse_cut_or_extended_wideConstant :
    (∀ n ∈ [15, 53], ∃ offset needed,
      parse (wideConstantClass.encode.take n) = .error (.truncated offset needed) ∧
        offset ≤ (wideConstantClass.encode.take n).length ∧ 1 ≤ needed ∧
        needed ≤ wideConstantClass.encode.length - (wideConstantClass.encode.take n).length) ∧
      parse (wideConstantClass.encode ++ [0, 0]) = .error (.trailingBytes 2) := by
  have h : parse wideConstantClass.encode = .ok wideConstantClass := by decide +kernel
  obtain ⟨hcut, hmore⟩ := parse_cut_or_extended h
  refine ⟨fun n hn => hcut _ (List.take_prefix _ _) ?_, hmore [0, 0] (by decide)⟩
  revert n
  decide +kernel

end ClassFile

end Reclass
