import Reclass.ClassFile.Builder
import Reclass.ClassPath.Universe
import Reclass.Proofs.ClassFile.Header
import Reclass.Proofs.ClassFile.Methods

/-!
# Two views of a class file

A class header is read from the leading part of a class file, and the class file as a whole begins
with reading the same part. So a header that can be read from the front of some bytes does not
depend on what follows, a fault of the leading part is a fault of both views, and the header of a
class file is its preamble with the names looked up in its pool (`ClassHeader.agrees_with_file`).
Dropping methods does not touch the preamble: whatever is dropped, the header stays, and with it
the answer to whether a host takes the bytes for the class.
-/

set_option autoImplicit false

namespace Reclass

/-! ### Names of a preamble -/

namespace ClassPreamble

variable {bs : Bytes}

/-- The slots of the classes that a header names, in the order in which they are looked up. -/
def references (p : ClassPreamble) : List UInt16 :=
  (if p.superClass = 0 then [] else [p.superClass]) ++ p.interfaces ++ [p.thisClass]

/-- What follows a preamble does not matter. -/
theorem value_append {p : ClassPreamble} (h : read.value bs = .ok p) (more : Bytes) :
    read.value (bs ++ more) = .ok p := by
  obtain ⟨c, hread⟩ := (Reader.value_eq_ok_iff _ _ _).1 h
  obtain ⟨form, hform, hrest, hoffset⟩ := (reads_read _ _ _).1 hread
  refine (Reader.value_eq_ok_iff _ _ _).2 ⟨⟨c.offset, c.rest ++ more⟩, ?_⟩
  refine (reads_read _ _ _).2 ⟨form, hform, ?_, hoffset⟩
  show bs ++ more = form ++ (c.rest ++ more)
  rw [← List.append_assoc, ← hrest]
  rfl

end ClassPreamble

namespace ClassFile

variable {bs : Bytes} {cf : ClassFile}

/-- A class file begins with its preamble. -/
theorem preamble_of_parse (h : parse bs = .ok cf) :
    ClassPreamble.read.value bs = .ok cf.toClassPreamble := by
  obtain ⟨⟨cf', c⟩, hread, h⟩ := (except_bind_eq_ok_iff _ _ _).1 h
  obtain ⟨p, c₁, hp, hread⟩ := (Reader.bind_eq_ok_iff _ _ _ _ _).1 hread
  obtain ⟨fields, c₂, -, hread⟩ := (Reader.bind_eq_ok_iff _ _ _ _ _).1 hread
  obtain ⟨methods, c₃, -, hread⟩ := (Reader.bind_eq_ok_iff _ _ _ _ _).1 hread
  obtain ⟨attributes, c₄, -, hread⟩ := (Reader.bind_eq_ok_iff _ _ _ _ _).1 hread
  cases hread
  refine (Reader.value_eq_ok_iff _ _ _).2 ⟨c₁, ?_⟩
  cases hrest : c.rest with
  | nil =>
    simp only [hrest] at h
    cases h
    exact hp
  | cons b rest =>
    simp only [hrest] at h
    cases h

/-- A fault of the preamble is a fault of the class file. -/
theorem parse_of_preamble_error {e : ClassFormatError}
    (h : ClassPreamble.read.value bs = .error e) : parse bs = .error e := by
  have hread : read (Reader.start bs) = .error e :=
    Reader.bind_eq_error ((Reader.value_eq_error_iff _ _ _).1 h) _
  rw [parse, hread]
  rfl

end ClassFile

namespace ClassFormatError

/-- A fault of the bytes as such, with which no pool can be read. The other faults are about a name
that is looked up, or about what follows. -/
def OfLayout : ClassFormatError → Prop
  | badMagic _ | truncated _ _ | unknownConstant _ _ | wideConstantAtEnd _ => True
  | badConstantRef _ _ | badUtf8 _ | trailingBytes _ | nameMismatch _ _ => False

end ClassFormatError

namespace ConstantPool

theorem not_ofLayout_text {p : ConstantPool} {index : UInt16} {e : ClassFormatError}
    (h : p.text index = .error e) : ¬ e.OfLayout := by
  unfold text at h
  split at h
  · split at h
    · cases h
    · cases h
      exact id
  · cases h
    exact id

/-- A name that cannot be looked up is no fault of the layout. -/
theorem not_ofLayout_className {p : ConstantPool} {index : UInt16} {e : ClassFormatError}
    (h : p.className index = .error e) : ¬ e.OfLayout := by
  unfold className at h
  split at h
  · exact not_ofLayout_text h
  · cases h
    exact id

end ConstantPool

namespace ClassHeader

variable {p : ClassPreamble} {header : ClassHeader} {e : ClassFormatError}

/-- The header has the versions and the access bits of a preamble, and the names that its pool has
for the class, for its super class unless its slot is 0, and for its interfaces in order. -/
structure Shows (header : ClassHeader) (p : ClassPreamble) : Prop where
  minorVersion : header.minorVersion = p.minorVersion
  majorVersion : header.majorVersion = p.majorVersion
  access : header.access = p.access
  name : p.pool.className p.thisClass = .ok header.name
  superName : if p.superClass = 0 then header.superName = none
    else ∃ name, header.superName = some name ∧ p.pool.className p.superClass = .ok name
  interfaces : p.interfaces.map p.pool.className = header.interfaces.map .ok

theorem shows_of_ofPreamble (h : ofPreamble p = .ok header) : header.Shows p := by
  have hversions : header.minorVersion = p.minorVersion ∧
      header.majorVersion = p.majorVersion ∧ header.access = p.access := by
    rw [ofPreamble_eq] at h
    obtain ⟨superName, -, h⟩ := (except_bind_eq_ok_iff _ _ _).1 h
    obtain ⟨interfaces, -, h⟩ := (except_bind_eq_ok_iff _ _ _).1 h
    obtain ⟨name, -, h⟩ := (except_bind_eq_ok_iff _ _ _).1 h
    cases h
    exact ⟨rfl, rfl, rfl⟩
  obtain ⟨hsuper, hinterfaces, hname⟩ := ofPreamble_eq_ok h
  refine ⟨hversions.1, hversions.2.1, hversions.2.2, hname, ?_,
    (except_mapM_eq_ok_iff _ _ _).1 hinterfaces⟩
  unfold superNameOf at hsuper
  by_cases hroot : p.superClass = 0
  · rw [if_pos hroot] at hsuper ⊢
    exact (Except.ok.inj hsuper).symm
  · rw [if_neg hroot] at hsuper ⊢
    obtain ⟨name, hclass, hsuper⟩ := (except_bind_eq_ok_iff _ _ _).1 hsuper
    exact ⟨name, (Except.ok.inj hsuper).symm, hclass⟩

/-- Looking the names up in order succeeds or fails as reading the header does. -/
theorem map_ofPreamble (p : ClassPreamble) : (ofPreamble p).map (fun _ => ()) =
    (p.references.mapM p.pool.className).map fun _ => () := by
  rw [ofPreamble_eq, ClassPreamble.references, List.mapM_append, List.mapM_append,
    List.mapM_cons, List.mapM_nil]
  unfold superNameOf
  by_cases hroot : p.superClass = 0
  · rw [if_pos hroot, if_pos hroot, List.mapM_nil]
    cases p.interfaces.mapM p.pool.className with
    | error e => rfl
    | ok interfaces =>
      cases p.pool.className p.thisClass with
      | error e => rfl
      | ok name => rfl
  · rw [if_neg hroot, if_neg hroot, List.mapM_cons, List.mapM_nil]
    cases p.pool.className p.superClass with
    | error e => rfl
    | ok superName =>
      cases p.interfaces.mapM p.pool.className with
      | error e => rfl
      | ok interfaces =>
        cases p.pool.className p.thisClass with
        | error e => rfl
        | ok name => rfl

theorem parse_of_value {bs : Bytes} (h : ClassPreamble.read.value bs = .ok p) :
    parse bs = ofPreamble p := by
  rw [parse, h]
  rfl

/-- There is a header exactly when all names can be looked up. -/
theorem exists_ofPreamble_iff (p : ClassPreamble) : (∃ header, ofPreamble p = .ok header) ↔
    ∀ i ∈ p.references, ∃ name, p.pool.className i = .ok name := by
  have h : (ofPreamble p).map (fun _ => ()) = .ok () ↔
      (p.references.mapM p.pool.className).map (fun _ => ()) = .ok () := by
    rw [map_ofPreamble]
  simpa only [except_map_eq_ok_iff, and_true, except_exists_mapM_eq_ok_iff] using h

/-- Otherwise the fault is that of the first name that cannot be looked up. -/
theorem ofPreamble_eq_error_iff : ofPreamble p = .error e ↔
    ∃ before i after, p.references = before ++ i :: after ∧
      (∀ j ∈ before, ∃ name, p.pool.className j = .ok name) ∧ p.pool.className i = .error e := by
  rw [← except_mapM_eq_error_iff, ← except_map_eq_error_iff (fun _ => ()), map_ofPreamble,
    except_map_eq_error_iff]

/-- A fault of the layout comes from the preamble. -/
theorem value_of_parse_eq_error {bs : Bytes} (he : e.OfLayout) (h : parse bs = .error e) :
    ClassPreamble.read.value bs = .error e := by
  rcases (except_bind_eq_error_iff _ _ _).1 h with hvalue | ⟨p, -, hnames⟩
  · exact hvalue
  · obtain ⟨-, i, -, -, -, hname⟩ := ofPreamble_eq_error_iff.1 hnames
    exact absurd he (ConstantPool.not_ofLayout_className hname)

/-- **The header at the front of some bytes and the class file that the bytes spell agree.** A
fault of the layout in the header is the fault of the whole. What follows a header does not change
it. The header of a class file has the versions and access bits of the class file and the names
that its pool has for the super class, the interfaces and the class; without one of these names it
fails, as the first of them does. Dropping methods leaves the header as it is, and with it whether
the host takes the bytes for the class. -/
theorem agrees_with_file (bs : Bytes) :
    (∀ e : ClassFormatError, e.OfLayout → parse bs = .error e → ClassFile.parse bs = .error e) ∧
    (∀ header, parse bs = .ok header → ∀ more, parse (bs ++ more) = .ok header) ∧
    ∀ cf, ClassFile.parse bs = .ok cf →
      ((∃ header, parse bs = .ok header) ↔
        ∀ i ∈ cf.references, ∃ name, cf.pool.className i = .ok name) ∧
      (∀ header, parse bs = .ok header → header.Shows cf.toClassPreamble) ∧
      (∀ e, parse bs = .error e ↔ ∃ before i after, cf.references = before ++ i :: after ∧
        (∀ j ∈ before, ∃ name, cf.pool.className j = .ok name) ∧
        cf.pool.className i = .error e) ∧
      ∀ names cf', cf.removeEach names = .ok cf' → parse cf'.encode = parse bs ∧
        ∀ (u : Universe) (c : LoadedClass), u.check ⟨c, cf'.encode⟩ = u.check ⟨c, bs⟩ := by
  refine ⟨fun e he h => ClassFile.parse_of_preamble_error (value_of_parse_eq_error he h),
    fun header h more => ?_, fun cf hcf => ?_⟩
  · obtain ⟨p, hvalue, h⟩ := (except_bind_eq_ok_iff _ _ _).1 h
    rw [parse_of_value (ClassPreamble.value_append hvalue more)]
    exact h
  · have hparse : parse bs = ofPreamble cf.toClassPreamble :=
      parse_of_value (ClassFile.preamble_of_parse hcf)
    refine ⟨?_, fun header h => shows_of_ofPreamble (hparse ▸ h), fun e => ?_,
      fun names cf' hedit => ?_⟩
    · rw [hparse]
      exact exists_ofPreamble_iff cf.toClassPreamble
    · rw [hparse]
      exact ofPreamble_eq_error_iff
    · obtain ⟨hpreamble, hrep⟩ :=
        ClassFile.removeEach_keeps hedit ((ClassFile.parse_eq_ok_iff _ _).1 hcf).1
      have hheader : parse cf'.encode = parse bs := by
        rw [hparse, ← hpreamble]
        exact parse_of_value (ClassPreamble.value_encode_file hrep.pool hrep.interfaces_le)
      refine ⟨hheader, fun u c => ?_⟩
      unfold Universe.check
      rw [hheader]

/-- A class with an interface and two methods. -/
def twoMethods : ClassSketch :=
  (((ClassSketch.new "p.A").implementing "p.I").withMethod "m" "()V").withMethod "n" "()V"

/-- What its header states. -/
def twoMethodsHeader : ClassHeader :=
  ⟨0, 52, .union .isPublic .isSuper, "p/A", some "java/lang/Object", ["p/I"]⟩

theorem agrees_with_file_twoMethods :
    ClassFile.parse [] = .error (.truncated 0 4) ∧
    parse (twoMethods.encode ++ [0]) = .ok twoMethodsHeader ∧
    twoMethodsHeader.Shows twoMethods.classFile.toClassPreamble ∧
    parse (twoMethods.classFile.without "m").encode = parse twoMethods.encode ∧
    parse ClassFile.countZeroFile = .error (.badConstantRef 0 .classRef) := by
  have hheader : parse twoMethods.encode = .ok twoMethodsHeader := by decide +kernel
  have hfile : ClassFile.parse twoMethods.encode = .ok twoMethods.classFile := by decide +kernel
  have hedit : twoMethods.classFile.removeEach ["m"] =
      .ok (twoMethods.classFile.without "m") := by decide +kernel
  have hfault : ClassFile.countZeroClass.pool.className 0 = .error (.badConstantRef 0 .classRef) :=
    rfl
  obtain ⟨hempty, -, -⟩ := agrees_with_file []
  obtain ⟨-, hmore, hwhole⟩ := agrees_with_file twoMethods.encode
  obtain ⟨-, hshows, -, hdrop⟩ := hwhole twoMethods.classFile hfile
  obtain ⟨-, -, hwhole₀⟩ := agrees_with_file ClassFile.countZeroFile
  obtain ⟨-, -, herror, -⟩ := hwhole₀ ClassFile.countZeroClass ClassFile.parse_countZeroFile
  refine ⟨hempty _ trivial (by decide +kernel), hmore _ hheader [0], hshows _ hheader,
    (hdrop ["m"] _ hedit).1, (herror _).2 ⟨[], 0, [], rfl, ?_, hfault⟩⟩
  rintro j ⟨⟩

end ClassHeader

end Reclass
