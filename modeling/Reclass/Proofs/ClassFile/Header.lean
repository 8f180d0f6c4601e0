import Mathlib.Tactic.Common
import Reclass.ClassFile.Header
import Reclass.Proofs.Act
import Reclass.Proofs.ClassFile.RoundTrip
import Reclass.Proofs.Text.ModifiedUtf8

/-!
# What class headers state

The names in a header were read from constants, so they can be written into one
(`ClassHeader.length_encode_of_mem_names`): a text is not longer when it is encoded than what it was
decoded from. A preamble is read from the front of its encoding.
-/

set_option autoImplicit false

namespace Reclass

open Text.ModifiedUtf8 (decode)

namespace ConstantPool

variable {p : ConstantPool} {index : UInt16} {name : String}

theorem text_eq_ok (h : p.text index = .ok name) :
    ∃ bytes, p.get? index = some (.utf8 bytes) ∧ decode bytes = some name := by
  unfold text at h
  match hslot : p.get? index with
  | some (.utf8 bytes) =>
    simp only [hslot] at h
    cases hd : decode bytes with
    | none =>
      simp only [hd] at h
      cases h
    | some s =>
      simp only [hd] at h
      cases h
      exact ⟨bytes, rfl, hd⟩
  | none =>
    simp only [hslot] at h
    cases h
  | some (.classRef _) | some (.other _ _) | some .unusable =>
    simp only [hslot] at h
    cases h

theorem className_eq_ok (h : p.className index = .ok name) :
    ∃ i, p.get? index = some (.classRef i) ∧ p.text i = .ok name := by
  unfold className at h
  match hslot : p.get? index with
  | some (.classRef i) =>
    simp only [hslot] at h
    exact ⟨i, rfl, h⟩
  | none =>
    simp only [hslot] at h
    cases h
  | some (.utf8 _) | some (.other _ _) | some .unusable =>
    simp only [hslot] at h
    cases h

/-- The name of a class fits a constant. -/
theorem length_encode_className (hp : p.Representable) (h : p.className index = .ok name) :
    (Text.ModifiedUtf8.encode name).length ≤ 65535 := by
  obtain ⟨i, -, htext⟩ := className_eq_ok h
  obtain ⟨bytes, hbytes, hdecode⟩ := text_eq_ok htext
  have hstorable : bytes.length ≤ 65535 := hp.storable _ (Array.mem_of_getElem? hbytes)
  exact Nat.le_trans (Text.ModifiedUtf8.length_encode_le hdecode) hstorable

end ConstantPool

namespace ClassPreamble

/-- What is read at the front of some bytes has a pool that the format can hold. -/
theorem representable_of_value {bs : Bytes} {p : ClassPreamble} (h : read.value bs = .ok p) :
    p.pool.Representable := by
  obtain ⟨c, hread⟩ := (Reader.value_eq_ok_iff _ _ _).1 h
  obtain ⟨form, ⟨-, pool, hpool, -⟩, -, -⟩ := (reads_read _ _ _).1 hread
  exact hpool.1

/-- A preamble is read from the front of its encoding. -/
theorem value_encode {p : ClassPreamble} (hp : p.pool.Representable)
    (hinterfaces : p.interfaces.length ≤ 65535) (rest : Bytes) :
    read.value (p.encode ++ rest) = .ok p := by
  refine (Reader.value_eq_ok_iff _ _ _).2 ⟨⟨p.encode.length, rest⟩, ?_⟩
  refine (reads_read _ _ _).2 ⟨p.encode, ⟨hinterfaces, p.pool.encode, ⟨hp, Or.inl rfl⟩, ?_⟩,
    rfl, (Nat.zero_add _).symm⟩
  exact (encodeAround_pool p).symm

/-- So is the preamble of a class file from its encoding. -/
theorem value_encode_file {cf : ClassFile} (hpool : cf.pool.Representable)
    (hinterfaces : cf.interfaces.length ≤ 65535) :
    read.value cf.encode = .ok cf.toClassPreamble := by
  rw [ClassFile.encode, List.append_assoc, List.append_assoc]
  exact value_encode hpool hinterfaces _

end ClassPreamble

namespace ClassHeader

variable {p : ClassPreamble} {header : ClassHeader}

/-- The name of the super class, which slot 0 stands for if there is none. -/
def superNameOf (p : ClassPreamble) : Except ClassFormatError (Option String) :=
  if p.superClass = 0 then .ok none else some <$> p.pool.className p.superClass

theorem ofPreamble_eq (p : ClassPreamble) : ofPreamble p = (do
    let superName ← superNameOf p
    let interfaces ← p.interfaces.mapM p.pool.className
    let name ← p.pool.className p.thisClass
    return ⟨p.minorVersion, p.majorVersion, p.access, name, superName, interfaces⟩) := by
  unfold ofPreamble superNameOf
  by_cases hroot : p.superClass = 0
  · rw [if_pos hroot, if_pos hroot]
    rfl
  · rw [if_neg hroot, if_neg hroot]

theorem ofPreamble_eq_ok (h : ofPreamble p = .ok header) :
    superNameOf p = .ok header.superName ∧
      p.interfaces.mapM p.pool.className = .ok header.interfaces ∧
      p.pool.className p.thisClass = .ok header.name := by
  rw [ofPreamble_eq] at h
  obtain ⟨superName, hsuper, h⟩ := (except_bind_eq_ok_iff _ _ _).1 h
  obtain ⟨interfaces, hinterfaces, h⟩ := (except_bind_eq_ok_iff _ _ _).1 h
  obtain ⟨name, hname, h⟩ := (except_bind_eq_ok_iff _ _ _).1 h
  cases h
  exact ⟨hsuper, hinterfaces, hname⟩

/-- All names in a header: that of the class, of its super class and of its interfaces. -/
def names (header : ClassHeader) : List String :=
  header.name :: header.superName.toList ++ header.interfaces

/-- Each of them stands in the pool that the header was read from. -/
theorem exists_className_of_mem_names (h : ofPreamble p = .ok header) {name : String}
    (hname : name ∈ header.names) : ∃ index, p.pool.className index = .ok name := by
  obtain ⟨hsuper, hinterfaces, hthis⟩ := ofPreamble_eq_ok h
  rcases List.mem_append.1 hname with hname | hname
  · rcases List.mem_cons.1 hname with rfl | hname
    · exact ⟨p.thisClass, hthis⟩
    · rw [Option.mem_toList.1 hname, superNameOf] at hsuper
      by_cases hroot : p.superClass = 0
      · rw [if_pos hroot] at hsuper
        cases hsuper
      · rw [if_neg hroot] at hsuper
        obtain ⟨_, hclass, ⟨⟩⟩ := (except_bind_eq_ok_iff _ _ _).1 hsuper
        exact ⟨p.superClass, hclass⟩
  · obtain ⟨index, -, hindex⟩ := (except_mem_iff_of_mapM_eq_ok hinterfaces name).1 hname
    exact ⟨index, hindex⟩

/-- **The names in a header fit a constant.** -/
theorem length_encode_of_mem_names {bs : Bytes} (h : parse bs = .ok header) {name : String}
    (hname : name ∈ header.names) : (Text.ModifiedUtf8.encode name).length ≤ 65535 := by
  obtain ⟨p, hp, h⟩ := (except_bind_eq_ok_iff _ _ _).1 h
  obtain ⟨index, hindex⟩ := exists_className_of_mem_names h hname
  exact ConstantPool.length_encode_className (ClassPreamble.representable_of_value hp) hindex

end ClassHeader

end Reclass
