import Mathlib.Data.List.Forall2
import Reclass.Proofs.Act
import Reclass.Proofs.ClassFile.RoundTrip

/-!
# Dropping methods from a class file

Methods are dropped by name (`ClassFile.without`), once all method names have been decoded. The
pool and everything else that precedes the methods stays, and what is left is representable again
(`ClassFile.removeEach_keeps`). In the bytes of the class file the count of the methods changes, and
the ranges of the methods that are dropped are cut out (`ClassFile.spliced_without`).
-/

set_option autoImplicit false

namespace Reclass.ClassFile

/-- The class file without the methods of a name; everything else stays, the constants of these
methods included. -/
def without (cf : ClassFile) (method : String) : ClassFile :=
  { cf with methods := cf.methods.filter fun m => !cf.isCalled method m }

/-- All method names can be decoded, and the name is one of them. -/
def Declares (cf : ClassFile) (method : String) : Prop :=
  ∃ names, cf.methodNames = .ok names ∧ method ∈ names

theorem isCalled_iff {cf : ClassFile} {method : String} {m : Member} :
    cf.isCalled method m = true ↔ cf.pool.text m.nameIndex = .ok method := by
  unfold isCalled
  cases cf.pool.text m.nameIndex with
  | error e =>
    constructor
    · rintro ⟨⟩
    · rintro ⟨⟩
  | ok name =>
    dsimp only
    rw [decide_eq_true_iff, Except.ok.injEq]

variable {cf cf' : ClassFile} {method : String}

/-- The method names can be decoded when each of them can. -/
theorem exists_methodNames_iff (cf : ClassFile) : (∃ names, cf.methodNames = .ok names) ↔
    ∀ m ∈ cf.methods, ∃ name, cf.pool.text m.nameIndex = .ok name :=
  except_exists_mapM_eq_ok_iff _ _

theorem declares_iff (cf : ClassFile) (method : String) : cf.Declares method ↔
    (∀ m ∈ cf.methods, ∃ name, cf.pool.text m.nameIndex = .ok name) ∧
      ∃ m ∈ cf.methods, cf.pool.text m.nameIndex = .ok method := by
  rw [← exists_methodNames_iff]
  constructor
  · rintro ⟨names, hnames, hmem⟩
    exact ⟨⟨names, hnames⟩, (except_mem_iff_of_mapM_eq_ok hnames method).1 hmem⟩
  · rintro ⟨⟨names, hnames⟩, hm⟩
    exact ⟨names, hnames, (except_mem_iff_of_mapM_eq_ok hnames method).2 hm⟩

theorem mem_without {m : Member} : m ∈ (cf.without method).methods ↔
    m ∈ cf.methods ∧ cf.pool.text m.nameIndex ≠ .ok method := by
  rw [without, List.mem_filter, Bool.not_eq_true', ← Bool.not_eq_true, isCalled_iff]

theorem Representable.without (h : cf.Representable) (method : String) :
    (cf.without method).Representable where
  pool := h.pool
  interfaces_le := h.interfaces_le
  fields_le := h.fields_le
  methods_le := Nat.le_trans (List.length_filter_le _ _) h.methods_le
  attributes_le := h.attributes_le
  fields := h.fields
  methods m hm := h.methods m (List.mem_filter.1 hm).1
  attributes := h.attributes

/-- The number of methods that are called `method`. -/
def timesCalled (cf : ClassFile) (method : String) : Nat := cf.methods.countP (cf.isCalled method)

theorem timesCalled_eq_zero_iff : cf.timesCalled method = 0 ↔
    ∀ m ∈ cf.methods, cf.pool.text m.nameIndex ≠ .ok method := by
  simp only [timesCalled, List.countP_eq_zero, isCalled_iff, ne_eq]

theorem timesCalled_pos_iff : 0 < cf.timesCalled method ↔
    ∃ m ∈ cf.methods, cf.pool.text m.nameIndex = .ok method := by
  simp only [timesCalled, List.countP_pos_iff, isCalled_iff]

theorem length_methods_without (cf : ClassFile) (method : String) :
    (cf.without method).methods.length = cf.methods.length - cf.timesCalled method := by
  have hlength : cf.methods.length =
      cf.timesCalled method + cf.methods.countP fun m => decide ¬ cf.isCalled method m = true :=
    List.length_eq_countP_add_countP _
  have hkept : (cf.without method).methods.length =
      cf.methods.countP fun m => decide ¬ cf.isCalled method m = true := by
    simp [without, List.countP_eq_length_filter]
  omega

theorem removeMethods_of_names {names : List String} (hnames : cf.methodNames = .ok names) :
    cf.removeMethods method = .ok (cf.without method, cf.timesCalled method) := by
  have hremoved : cf.methods.length - (cf.without method).methods.length =
      cf.timesCalled method := by
    rw [length_methods_without]
    exact Nat.sub_sub_self List.countP_le_length
  rw [← hremoved, removeMethods, hnames]
  rfl

theorem removeMethods_eq_ok {removed : Nat} (h : cf.removeMethods method = .ok (cf', removed)) :
    cf' = cf.without method := by
  obtain ⟨names, -, h⟩ := (except_bind_eq_ok_iff _ _ _).1 h
  cases h
  rfl

/-- Drops the methods of one name after the other. -/
def removeEach (names : List String) (cf : ClassFile) : Except ClassFormatError ClassFile :=
  names.foldlM (fun cf name => Prod.fst <$> cf.removeMethods name) cf

/-- Whatever methods are dropped, what precedes them stays, and the rest can be written. -/
theorem removeEach_keeps {names : List String} (h : cf.removeEach names = .ok cf')
    (hcf : cf.Representable) :
    cf'.toClassPreamble = cf.toClassPreamble ∧ cf'.Representable := by
  induction names generalizing cf with
  | nil =>
    cases h
    exact ⟨rfl, hcf⟩
  | cons name names ih =>
    rw [removeEach, List.foldlM_cons] at h
    obtain ⟨cf₁, h₁, h⟩ := (except_bind_eq_ok_iff _ _ _).1 h
    obtain ⟨⟨cf₂, removed⟩, h₂, hfst⟩ := (except_bind_eq_ok_iff _ _ _).1 h₁
    cases hfst
    obtain rfl := removeMethods_eq_ok h₂
    have hrest : (cf.without name).removeEach names = .ok cf' := h
    obtain ⟨hpreamble, hrepresentable⟩ := ih hrest (hcf.without name)
    exact ⟨hpreamble, hrepresentable⟩

/-! ### Where the methods stand -/

/-- What stands in front of the method table: the preamble and the fields. -/
def readFront : Reader (ClassPreamble × List Member) := do
  let preamble ← ClassPreamble.read
  let fields ← Reader.table Member.read
  return (preamble, fields)

/-- The parts of a class file: what is read before the number of methods, the ranges of the methods
in order, and the attributes behind them. -/
structure Sections (cf : ClassFile) (bs front : Bytes) (ranges : List Bytes) (back : Bytes) :
    Prop where
  layout : bs = front ++ (Bytes.ofUInt16 (UInt16.ofNat cf.methods.length) ++
    (ranges.flatten ++ back))
  count_le : cf.methods.length ≤ 65535
  front : readFront.Spells (cf.toClassPreamble, cf.fields) front
  ranges : List.Forall₂ Member.read.Spells cf.methods ranges
  back : (Reader.table Attribute.read).Spells cf.attributes back

/-- The ranges of the methods that are not called `method`. -/
def keptRanges (cf : ClassFile) (method : String) (ranges : List Bytes) : List Bytes :=
  ((cf.methods.zip ranges).filter fun p => !cf.isCalled method p.1).map Prod.snd

/-- These bytes are those of the class file with the number of methods reduced by the number of
methods of that name, and with the ranges of these methods cut out. -/
def Spliced (cf : ClassFile) (method : String) (bs out : Bytes) : Prop :=
  ∃ front ranges back, cf.Sections bs front ranges back ∧
    out = front ++ (Bytes.ofUInt16 (UInt16.ofNat (cf.methods.length - cf.timesCalled method)) ++
      ((cf.keptRanges method ranges).flatten ++ back))

theorem spells_readFront (h : cf.Representable) : readFront.Spells (cf.toClassPreamble, cf.fields)
    (cf.toClassPreamble.encode ++ encodeTable Member.encode cf.fields) := by
  have hreads := ClassPreamble.reads_read.bind fun preamble =>
    (Reader.reads_table Member.reads_read).map fun fields => (preamble, fields)
  refine hreads.spells ⟨cf.toClassPreamble, _, _, ⟨h.interfaces_le, cf.pool.encode,
    ⟨h.pool, Or.inl rfl⟩, rfl⟩, ⟨cf.fields, ⟨⟨h.fields_le, h.fields⟩, rfl⟩, rfl⟩, ?_⟩
  rw [ClassPreamble.encodeAround_pool]

theorem sections_encode (h : cf.Representable) :
    cf.Sections cf.encode (cf.toClassPreamble.encode ++ encodeTable Member.encode cf.fields)
      (cf.methods.map Member.encode) (encodeTable Attribute.encode cf.attributes) where
  layout := by
    simp only [encode, encodeTable, List.flatMap_def, List.append_assoc]
  count_le := h.methods_le
  front := spells_readFront h
  ranges := by
    refine List.forall₂_map_right_iff.2 (List.forall₂_same.2 fun m hm => ?_)
    exact Member.reads_read.spells ⟨h.methods m hm, rfl⟩
  back := (Reader.reads_table Attribute.reads_read).spells ⟨⟨h.attributes_le, h.attributes⟩, rfl⟩

theorem keptRanges_encode (cf : ClassFile) (method : String) :
    cf.keptRanges method (cf.methods.map Member.encode) =
      (cf.without method).methods.map Member.encode := by
  have hzip : cf.methods.zip (cf.methods.map Member.encode) =
      cf.methods.map fun m => (m, m.encode) := by
    conv_lhs => rw [← List.map_id cf.methods, List.map_map]
    exact List.zip_map'
  rw [keptRanges, hzip, List.filter_map, List.map_map]
  rfl

/-- A class file in whose pool some text can be decoded has one written form. -/
theorem encode_of_text {bs : Bytes} {index : UInt16} {text : String} (hparse : parse bs = .ok cf)
    (htext : cf.pool.text index = .ok text) : cf.encode = bs := by
  obtain ⟨-, pool, ⟨-, hpool⟩, hbs⟩ := (parse_eq_ok_iff _ _).1 hparse
  rcases hpool with rfl | ⟨hempty, -⟩
  · rw [hbs, ClassPreamble.encodeAround_pool]
    rfl
  · rw [hempty, ConstantPool.text_empty] at htext
    cases htext

/-- **Dropping methods cuts their ranges out of the class file.** -/
theorem spliced_without (h : cf.Representable) (method : String) :
    cf.Spliced method cf.encode (cf.without method).encode := by
  refine ⟨_, _, _, sections_encode h, ?_⟩
  rw [keptRanges_encode, ← length_methods_without]
  simp only [encode, encodeTable, List.flatMap_def, List.append_assoc]
  rfl

end Reclass.ClassFile
