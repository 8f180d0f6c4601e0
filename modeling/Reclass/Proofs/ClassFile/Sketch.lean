import Mathlib.Data.List.Forall2
import Reclass.Proofs.ClassFile.Header
import Reclass.Proofs.ClassFile.Interning

/-!
# Classes as they are described

A class is described call by call: the last call that names a super class or sets the access bits
counts, and interfaces and methods add up. What is laid out from the description reads back as
described (`ClassSketch.built_reads_back`), as long as its texts, its pool and its tables fit their
counts. All names go through one pool, so the proof is about the steps that enter them: what each
of them yields holds in the pool that the last one leaves.
-/

set_option autoImplicit false

namespace Reclass

open ConstantPool (Enters)

/-- A step of describing a class. -/
inductive SketchCall where
  | asInterface
  | withSuper (name : Option String)
  | implementing (name : String)
  | withAccess (access : AccessFlags)
  | withMethod (name descriptor : String)
  deriving DecidableEq, Repr

namespace SketchCall

def perform (s : ClassSketch) : SketchCall → ClassSketch
  | asInterface => s.asInterface
  | withSuper name => s.withSuper name
  | implementing name => s.implementing name
  | withAccess access => s.withAccess access
  | withMethod name descriptor => s.withMethod name descriptor

/-- The super class that the call names, or that there is none. -/
def super? : SketchCall → Option (Option String)
  | withSuper name => some (name.map ClassName.internal)
  | _ => none

/-- The interface that the call adds. -/
def interface? : SketchCall → Option String
  | implementing name => some (ClassName.internal name)
  | _ => none

/-- The access bits that the call sets. -/
def access? : SketchCall → Option AccessFlags
  | asInterface => some (.union .isPublic (.union .isInterface .isAbstract))
  | withAccess access => some access
  | _ => none

/-- The method that the call adds. -/
def method? : SketchCall → Option (String × String)
  | withMethod name descriptor => some (name, descriptor)
  | _ => none

end SketchCall

namespace ClassSketch

/-- The description of a class by a list of calls. -/
def built (name : String) (calls : List SketchCall) : ClassSketch :=
  calls.foldl SketchCall.perform (new name)

theorem foldl_perform (calls : List SketchCall) (s : ClassSketch) :
    calls.foldl SketchCall.perform s =
      { name := s.name
        superName := (calls.filterMap SketchCall.super?).getLastD s.superName
        interfaces := s.interfaces ++ calls.filterMap SketchCall.interface?
        access := (calls.filterMap SketchCall.access?).getLastD s.access
        methods := s.methods ++ calls.filterMap SketchCall.method? } := by
  induction calls generalizing s with
  | nil => simp
  | cons call calls ih =>
    rw [List.foldl_cons, ih]
    cases call with
    | asInterface | withSuper _ | implementing _ | withAccess _ | withMethod _ _ =>
      simp only [SketchCall.perform, asInterface, withSuper, implementing, withAccess, withMethod,
        List.filterMap_cons, List.getLastD_cons, SketchCall.super?, SketchCall.interface?,
        SketchCall.access?, SketchCall.method?, List.append_assoc, List.singleton_append]

/-! ### Laying a class out -/

variable {s : ClassSketch}

/-- The texts that are written. -/
def texts (s : ClassSketch) : List String :=
  s.name :: s.superName.toList ++ s.interfaces ++ s.methods.flatMap fun m => [m.1, m.2]

/-- Every part fits the field that the format has for its length. -/
structure Fits (s : ClassSketch) : Prop where
  texts : ∀ text ∈ s.texts, (Text.ModifiedUtf8.encode text).length ≤ 65535
  pool : s.classFile.pool.size ≤ 65535
  interfaces : s.interfaces.length ≤ 65535
  methods : s.methods.length ≤ 65535

/-- The member is a public native method of that name and descriptor, as the pool has them. -/
structure Declares (pool : ConstantPool) (method : String × String) (m : Member) : Prop where
  access : m.access = publicNative
  attributes : m.attributes = []
  name : pool.text m.nameIndex = .ok method.1
  descriptor : pool.text m.descriptorIndex = .ok method.2

theorem enters_internClasses {names : List String}
    (h : ∀ name ∈ names, (Text.ModifiedUtf8.encode name).length ≤ 65535) :
    Enters (internClasses names) fun indexes q => indexes.map q.className = names.map .ok := by
  induction names with
  | nil =>
    refine (Enters.pure []).imp ?_
    rintro _ q rfl
    rfl
  | cons name names ih =>
    obtain ⟨hname, hnames⟩ := List.forall_mem_cons.1 h
    refine ((ConstantPool.enters_internClass hname).bind fun index =>
      (ih hnames).map (index :: ·)).imp ?_
    rintro _ q ⟨index, hindex, indexes, hindexes, rfl⟩
    rw [List.map_cons, List.map_cons, hindex, hindexes]

theorem enters_internMethods {methods : List (String × String)}
    (h : ∀ m ∈ methods, (Text.ModifiedUtf8.encode m.1).length ≤ 65535 ∧
      (Text.ModifiedUtf8.encode m.2).length ≤ 65535) :
    Enters (internMethods methods) fun members q =>
      List.Forall₂ (Declares q) methods members := by
  induction methods with
  | nil =>
    refine (Enters.pure []).imp ?_
    rintro _ q rfl
    exact .nil
  | cons method methods ih =>
    obtain ⟨⟨hname, hdescriptor⟩, hmethods⟩ := List.forall_mem_cons.1 h
    refine ((ConstantPool.enters_internText hname).bind fun nameIndex =>
      (ConstantPool.enters_internText hdescriptor).bind fun descriptorIndex =>
        (ih hmethods).map (⟨publicNative, nameIndex, descriptorIndex, []⟩ :: ·)).imp ?_
    rintro _ q ⟨nameIndex, hname, descriptorIndex, hdescriptor, members, hmembers, rfl⟩
    exact .cons ⟨rfl, rfl, hname, hdescriptor⟩ hmembers

/-- The super class is entered when there is one; slot 0 stands for none. -/
def internSuper (superName : Option String) (p : ConstantPool) : UInt16 × ConstantPool :=
  match superName with
  | some name => p.internClass name
  | none => (0, p)

theorem enters_internSuper {superName : Option String}
    (h : ∀ name ∈ superName, (Text.ModifiedUtf8.encode name).length ≤ 65535) :
    Enters (internSuper superName) fun index q => (superName = none → index = 0) ∧
      ∀ name ∈ superName, q.className index = .ok name := by
  cases superName with
  | none =>
    refine (Enters.pure 0).imp ?_
    rintro _ q rfl
    exact ⟨fun _ => rfl, nofun⟩
  | some name =>
    refine (ConstantPool.enters_internClass (h name rfl)).imp fun index q hindex => ⟨nofun, ?_⟩
    rintro _ ⟨⟩
    exact hindex

/-- The slots of a class, of its super class and of its interfaces, and its methods. -/
structure Layout where
  thisClass : UInt16
  superClass : UInt16
  interfaces : List UInt16
  methods : List Member

/-- Enters all that is described. -/
def layOut (s : ClassSketch) (p : ConstantPool) : Layout × ConstantPool :=
  let (thisClass, p) := p.internClass s.name
  let (superClass, p) := internSuper s.superName p
  let (interfaces, p) := internClasses s.interfaces p
  let (methods, p) := internMethods s.methods p
  (⟨thisClass, superClass, interfaces, methods⟩, p)

/-- What the parts of a class stand for in a pool. -/
structure Layout.Describes (l : Layout) (pool : ConstantPool) (s : ClassSketch) : Prop where
  name : pool.className l.thisClass = .ok s.name
  noSuper : s.superName = none → l.superClass = 0
  superName : ∀ name ∈ s.superName, pool.className l.superClass = .ok name
  interfaces : l.interfaces.map pool.className = s.interfaces.map .ok
  methods : List.Forall₂ (Declares pool) s.methods l.methods

theorem enters_layOut (h : ∀ text ∈ s.texts, (Text.ModifiedUtf8.encode text).length ≤ 65535) :
    Enters (layOut s) fun l q => l.Describes q s := by
  have hname := h s.name (by simp [texts])
  have hsuper : ∀ name ∈ s.superName, (Text.ModifiedUtf8.encode name).length ≤ 65535 :=
    fun name hname => h name (by simp [texts, Option.mem_def.1 hname])
  have hinterfaces : ∀ name ∈ s.interfaces, (Text.ModifiedUtf8.encode name).length ≤ 65535 :=
    fun name hname => h name (by simp [texts, hname])
  have hmethods : ∀ m ∈ s.methods, (Text.ModifiedUtf8.encode m.1).length ≤ 65535 ∧
      (Text.ModifiedUtf8.encode m.2).length ≤ 65535 := by
    intro m hm
    have hmem : ∀ text ∈ [m.1, m.2], text ∈ s.texts := fun text htext =>
      List.mem_append_right _ (List.mem_flatMap.2 ⟨m, hm, htext⟩)
    exact ⟨h m.1 (hmem m.1 (by simp)), h m.2 (hmem m.2 (by simp))⟩
  refine ((ConstantPool.enters_internClass hname).bind fun thisClass =>
    (enters_internSuper hsuper).bind fun superClass =>
      (enters_internClasses hinterfaces).bind fun interfaces =>
        (enters_internMethods hmethods).map (Layout.mk thisClass superClass interfaces)).imp ?_
  rintro _ q ⟨thisClass, hthis, superClass, ⟨hnone, hsome⟩, interfaces, hinterfaces, methods,
    hmethods, rfl⟩
  exact ⟨hthis, hnone, hsome, hinterfaces, hmethods⟩

theorem classFile_eq (s : ClassSketch) : s.classFile =
    { minorVersion := 0, majorVersion, pool := (s.layOut .empty).2, access := s.access,
      thisClass := (s.layOut .empty).1.thisClass, superClass := (s.layOut .empty).1.superClass,
      interfaces := (s.layOut .empty).1.interfaces, fields := [],
      methods := (s.layOut .empty).1.methods, attributes := [] } := by
  unfold classFile layOut internSuper
  cases s.superName with
  | none => rfl
  | some name => rfl

/-- What is laid out stands in its own pool for what is described. -/
theorem Fits.describes (h : s.Fits) :
    (s.layOut .empty).1.Describes s.classFile.pool s ∧ s.classFile.pool.Interned := by
  have hsize := h.pool
  rw [classFile_eq] at hsize ⊢
  exact ⟨(enters_layOut h.texts).holds _ _ (.refl _) hsize,
    (enters_layOut h.texts).interned _ ConstantPool.interned_empty⟩

/-- It can be written. -/
theorem Fits.representable (h : s.Fits) : s.classFile.Representable := by
  obtain ⟨hdescribes, hinterned⟩ := h.describes
  have hlength : (s.layOut .empty).1.interfaces.length = s.interfaces.length := by
    have hmap := congrArg List.length hdescribes.interfaces
    rwa [List.length_map, List.length_map] at hmap
  have hpool := hinterned.representable h.pool
  rw [classFile_eq] at hpool ⊢
  constructor
  case pool => exact hpool
  case interfaces_le => exact hlength ▸ h.interfaces
  case fields_le => exact Nat.zero_le _
  case methods_le => exact hdescribes.methods.length_eq ▸ h.methods
  case attributes_le => exact Nat.zero_le _
  case fields => exact nofun
  case attributes => exact nofun
  case methods =>
    have hmember : ∀ m method, Declares s.classFile.pool method m → m.Representable := by
      intro m method hdeclares
      constructor
      · rw [hdeclares.attributes]
        exact Nat.zero_le _
      · rw [hdeclares.attributes]
        exact nofun
    have hmembers := hdescribes.methods.flip.imp fun m method hdeclares =>
      And.intro (hmember m method hdeclares) hdeclares
    exact ((List.forall₂_and_left _ _).1 hmembers).1

/-- The header of the class that is laid out. -/
theorem Fits.header (h : s.Fits) : ClassHeader.ofPreamble s.classFile.toClassPreamble =
    .ok ⟨0, majorVersion, s.access, s.name, s.superName, s.interfaces⟩ := by
  obtain ⟨hdescribes, hinterned⟩ := h.describes
  have hsuper : ClassHeader.superNameOf s.classFile.toClassPreamble = .ok s.superName := by
    unfold ClassHeader.superNameOf
    cases hsome : s.superName with
    | none => exact if_pos (hdescribes.noSuper hsome)
    | some name =>
      have hclass : s.classFile.pool.className s.classFile.superClass = .ok name :=
        hdescribes.superName name hsome
      have hne : s.classFile.superClass ≠ 0 := by
        intro h0
        rw [h0, ConstantPool.className, hinterned.get?_zero] at hclass
        cases hclass
      rw [if_neg hne, hclass]
      rfl
  have hinterfaces : s.classFile.interfaces.mapM s.classFile.pool.className =
      .ok s.interfaces := by
    rw [except_mapM_eq_ok_iff]
    exact hdescribes.interfaces
  have hname : s.classFile.pool.className s.classFile.thisClass = .ok s.name := hdescribes.name
  rw [ClassHeader.ofPreamble_eq, hsuper, hinterfaces, hname]
  rfl

/-! ### Classes with nothing but a name -/

section New

variable {name : String}

/-- The two forms of a name are of one length. -/
theorem length_encode_internal (name : String) :
    (Text.ModifiedUtf8.encode (ClassName.internal name)).length =
      (Text.ModifiedUtf8.encode name).length := by
  have hname : Text.ModifiedUtf8.encode name = name.toList.flatMap Text.ModifiedUtf8.ofChar := by
    rw [← Text.ModifiedUtf8.encode_ofList, String.ofList_toList]
  rw [ClassName.internal, Text.replaceChar, Text.ModifiedUtf8.encode_ofList, hname,
    List.length_flatMap, List.length_flatMap, List.map_map]
  congr 1
  refine List.map_congr_left fun c _ => ?_
  by_cases hdot : c = '.'
  · rw [hdot]
    decide
  · simp [hdot]

/-- The pool holds the name and that of the root type, unless they are one. -/
theorem size_pool_new (name : String) : (new name).classFile.pool.size ≤ 5 := by
  by_cases heq : Text.ModifiedUtf8.encode (ClassName.internal name) =
      Text.ModifiedUtf8.encode "java/lang/Object"
  · simp [new, classFile, internClasses, internMethods, ConstantPool.internClass,
      ConstantPool.internText, ConstantPool.intern, ConstantPool.push, ConstantPool.append,
      Constant.isWide, ConstantPool.empty, ConstantPool.size, List.findIdx?_cons, heq]
  · simp [new, classFile, internClasses, internMethods, ConstantPool.internClass,
      ConstantPool.internText, ConstantPool.intern, ConstantPool.push, ConstantPool.append,
      Constant.isWide, ConstantPool.empty, ConstantPool.size, List.findIdx?_cons, heq]

theorem fits_new (hname : (Text.ModifiedUtf8.encode name).length ≤ 65535) : (new name).Fits where
  texts text htext := by
    have htexts : (new name).texts = [ClassName.internal name, "java/lang/Object"] := rfl
    rw [htexts] at htext
    rcases List.mem_pair.1 htext with rfl | rfl
    · rw [length_encode_internal]
      exact hname
    · decide +kernel
  pool := Nat.le_trans (size_pool_new name) (by decide)
  interfaces := Nat.zero_le _
  methods := Nat.zero_le _

/-- **A class that is made up** has its name, and extends the root type and nothing else. -/
theorem parse_new (hname : (Text.ModifiedUtf8.encode name).length ≤ 65535) :
    ClassHeader.parse (new name).encode = .ok ⟨0, majorVersion, .union .isPublic .isSuper,
      ClassName.internal name, some "java/lang/Object", []⟩ := by
  have hfits := fits_new hname
  rw [ClassHeader.parse, encode, ClassPreamble.value_encode_file hfits.representable.pool
    hfits.representable.interfaces_le]
  exact hfits.header

/-- What such a class states when it reads back under its name. -/
theorem header_new {header : ClassHeader} (h : ClassHeader.parse (new name).encode = .ok header)
    (hname : header.name = name) :
    header.superName = some "java/lang/Object" ∧ header.interfaces = [] := by
  have hlength := ClassHeader.length_encode_of_mem_names h List.mem_cons_self
  rw [hname] at hlength
  rw [parse_new hlength] at h
  cases h
  exact ⟨rfl, rfl⟩

end New

/-- **A class reads back as it is described.** Its bytes parse to the class file that is laid out.
The header has the internal names of the class, of the super class and of the interfaces in the
order of the calls, and the access bits that were set last. The methods come in the order of the
calls, with their names and descriptors in the pool, and no constant stands in the pool twice. -/
theorem built_reads_back (name : String) (calls : List SketchCall) (h : (built name calls).Fits) :
    ClassFile.parse (built name calls).encode = .ok (built name calls).classFile ∧
    ClassHeader.parse (built name calls).encode =
      .ok { minorVersion := 0
            majorVersion := 52
            access := (calls.filterMap SketchCall.access?).getLastD (.union .isPublic .isSuper)
            name := ClassName.internal name
            superName := (calls.filterMap SketchCall.super?).getLastD (some "java/lang/Object")
            interfaces := calls.filterMap SketchCall.interface? } ∧
    List.Forall₂ (Declares (built name calls).classFile.pool)
      (calls.filterMap SketchCall.method?) (built name calls).classFile.methods ∧
    (built name calls).classFile.pool.slots.toList.Nodup := by
  have hrep := h.representable
  have hcalls : built name calls = _ := foldl_perform calls (new name)
  refine ⟨ClassFile.parse_encode hrep, ?_, ?_, h.describes.2.nodup⟩
  · have hvalue : ClassPreamble.read.value (built name calls).encode =
        .ok (built name calls).classFile.toClassPreamble :=
      ClassPreamble.value_encode_file hrep.pool hrep.interfaces_le
    rw [ClassHeader.parse, hvalue]
    refine h.header.trans ?_
    rw [hcalls]
    rfl
  · have hmethods := h.describes.1.methods
    have hcalled : (built name calls).methods = calls.filterMap SketchCall.method? := by
      rw [hcalls]
      rfl
    rwa [hcalled] at hmethods

/-- Calls that take back what earlier ones said, and that use one text in several places. -/
def sharedTexts : List SketchCall :=
  [.asInterface, .withSuper (some "q.B"), .implementing "p.I", .withMethod "p/A" "p/I",
    .implementing "p/I", .withAccess .isFinal, .withSuper none, .withMethod "p/A" "p/A"]

theorem built_reads_back_sharedTexts :
    ClassFile.parse (built "p.A" sharedTexts).encode = .ok (built "p.A" sharedTexts).classFile ∧
    ClassHeader.parse (built "p.A" sharedTexts).encode =
      .ok ⟨0, 52, .isFinal, "p/A", none, ["p/I", "p/I"]⟩ ∧
    (built "p.A" sharedTexts).classFile.pool.size = 5 := by
  have hfits : (built "p.A" sharedTexts).Fits := by
    constructor
    case texts => decide +kernel
    case pool => decide +kernel
    case interfaces => decide +kernel
    case methods => decide +kernel
  obtain ⟨hparse, hheader, -, -⟩ := built_reads_back "p.A" sharedTexts hfits
  refine ⟨hparse, ?_, by decide +kernel⟩
  rw [hheader]
  decide +kernel

end ClassSketch

end Reclass
