import Mathlib.Tactic.Common
import Reclass.Cache.Dump
import Reclass.Proofs.Files.Paths
import Reclass.Proofs.Transform.Refinement

/-!
# What a cache directory holds

On a file system the results of a cache lie among other files: temporary ones, those of other
versions, dumped classes if the dump directory is the same. Each result has a name of its own, which
none of the others can have (`CacheKey.fileName_inj`, `CacheKey.fileName_ne_tempName`,
`CacheKey.fileName_ne_dump`). So a directory in which every result is right (`TransformCache.Sound`)
stays so when another right result is stored or a class is dumped, also when that fails half-way.
-/

set_option autoImplicit false

namespace Reclass

/-- What stands behind the last mark is determined by the whole. -/
theorem append_mark_inj {α : Type} {mark : α} {xs xs' ds ds' : List α}
    (h : xs ++ mark :: ds = xs' ++ mark :: ds') (hds : mark ∉ ds) (hds' : mark ∉ ds') :
    xs = xs' ∧ ds = ds' := by
  rcases List.append_eq_append_iff.1 h with ⟨ts, hxs, hmark⟩ | ⟨ts, hxs, hmark⟩
  · cases ts with
    | nil =>
      rw [List.nil_append, List.cons.injEq] at hmark
      exact ⟨by rw [hxs, List.append_nil], hmark.2⟩
    | cons t ts =>
      rw [List.cons_append, List.cons.injEq] at hmark
      rw [hmark.2] at hds
      exact absurd (List.mem_append_right ts List.mem_cons_self) hds
  · cases ts with
    | nil =>
      rw [List.nil_append, List.cons.injEq] at hmark
      exact ⟨by rw [hxs, List.append_nil], hmark.2.symm⟩
    | cons t ts =>
      rw [List.cons_append, List.cons.injEq] at hmark
      rw [hmark.2] at hds'
      exact absurd (List.mem_append_right ts List.mem_cons_self) hds'

namespace Text

theorem toList_decimal (n : Nat) : (decimal n).toList = Nat.toDigits 10 n := String.toList_ofList

theorem decimal_inj {m n : Nat} (h : decimal m = decimal n) : m = n := by
  have hdigits : Nat.toDigits 10 m = Nat.toDigits 10 n := by
    rw [← toList_decimal, ← toList_decimal, h]
  have hvalue := congrArg (fun ds => Nat.ofDigitChars 10 ds 0) hdigits
  simpa using hvalue

theorem isDigit_of_mem_decimal {n : Nat} {c : Char} (h : c ∈ (decimal n).toList) :
    c.isDigit = true := by
  rw [toList_decimal] at h
  exact Nat.isDigit_of_mem_toDigits (by omega) (by omega) h

theorem notMem_decimal {n : Nat} {c : Char} (h : c.isDigit = false) : c ∉ (decimal n).toList := by
  intro hc
  rw [isDigit_of_mem_decimal hc] at h
  cases h

theorem notMem_replaceChar {old new : Char} (hne : new ≠ old) (s : String) :
    old ∉ (replaceChar old new s).toList := by
  rw [replaceChar, String.toList_ofList, List.mem_map]
  rintro ⟨c, -, hc⟩
  by_cases hold : c = old
  · rw [if_pos hold] at hc
    exact hne hc
  · rw [if_neg hold] at hc
    exact hold hc

end Text

open Text (decimal)

namespace FileSystem

/-- What a temporary name adds to the name of a file. -/
def tempSuffix (process count : Nat) : String :=
  ".tmp-" ++ decimal process ++ "-" ++ decimal count

variable {leaf : Path}

theorem plain_tempName (h : leaf.Plain) (process count : Nat) :
    Path.Plain (leaf ++ tempSuffix process count) := by
  have hnumbers : '/' ∉ (tempSuffix process count).toList := by
    have hprocess : '/' ∉ (decimal process).toList := Text.notMem_decimal (by decide)
    have hcount : '/' ∉ (decimal count).toList := Text.notMem_decimal (by decide)
    simp [tempSuffix, String.toList_append] at hprocess hcount ⊢
    exact ⟨hprocess, hcount⟩
  refine Path.plain_of_length ?_ ?_
  · rw [String.toList_append, List.mem_append, not_or]
    exact ⟨h.noSlash, hnumbers⟩
  · have hmark : ".tmp-".length = 5 := rfl
    simp only [tempSuffix, String.length_append]
    omega

theorem tempBeside_fst (fs : FileSystem) (path : Path) :
    (fs.tempBeside path).1 = path ++ tempSuffix fs.process fs.tempCount := by
  simp only [tempBeside, tempSuffix, String.append_assoc]

/-- A temporary file lies beside the file that it is to replace. -/
theorem tempBeside_join (base : Path) (h : leaf.Plain) (fs : FileSystem) :
    (fs.tempBeside (Path.join base leaf)).1 =
      Path.join base (leaf ++ tempSuffix fs.process fs.tempCount) := by
  rw [tempBeside_fst, Path.join_append _ h.not_absolute
    (plain_tempName h fs.process fs.tempCount).not_absolute]

/-- A temporary name ends with a digit. -/
theorem ne_tempName {name : String} (h : name.toList.getLast? = some 's') (leaf : String)
    (process count : Nat) : name ≠ leaf ++ tempSuffix process count := by
  rintro rfl
  simp only [tempSuffix, String.toList_append, List.getLast?_append] at h
  cases hd : (decimal count).toList.getLast? with
  | none =>
    rw [Text.toList_decimal] at hd
    exact Nat.toDigits_ne_nil (List.getLast?_eq_none_iff.1 hd)
  | some c =>
    have hdigit := Text.isDigit_of_mem_decimal (List.mem_of_getLast? hd)
    rw [hd] at h
    have hc : c = 's' := Option.some.inj h
    rw [hc] at hdigit
    exact absurd hdigit (by decide)

end FileSystem

namespace CacheKey

theorem slash_notMem_qualified (name : String) : '/' ∉ (ClassName.qualified name).toList :=
  Text.notMem_replaceChar (by decide) name

theorem toList_fileName (k : CacheKey) : k.fileName.toList =
    (k.qualifiedName.toList ++ "#crc32".toList ++ '=' :: (decimal k.checksum.toNat).toList) ++
      ".class".toList := by
  simp [fileName, String.toList_append]

/-- **Different keys have different files.** -/
theorem fileName_inj {k k' : CacheKey} (h : k.fileName = k'.fileName) : k = k' := by
  have htext := congrArg String.toList h
  rw [toList_fileName, toList_fileName] at htext
  obtain ⟨hname, hsum⟩ := append_mark_inj (List.append_cancel_right htext)
    (Text.notMem_decimal (by decide)) (Text.notMem_decimal (by decide))
  have hname' := String.toList_inj.1 (List.append_cancel_right hname)
  have hsum' := UInt32.toNat_inj.1 (Text.decimal_inj (String.toList_inj.1 hsum))
  cases k
  cases k'
  cases hname'
  cases hsum'
  rfl

/-- A temporary file is not taken for a result. -/
theorem fileName_ne_tempName (k : CacheKey) (leaf : String) (process count : Nat) :
    k.fileName ≠ leaf ++ FileSystem.tempSuffix process count := by
  refine FileSystem.ne_tempName ?_ leaf process count
  rw [toList_fileName, List.getLast?_append]
  rfl

theorem toList_dumpFileName (name : String) (loader : LoaderId) : (dumpFileName name loader).toList =
    ((ClassName.qualified name).toList ++ "#loaderId".toList ++
      '=' :: (decimal loader.number).toList) ++ ".class".toList := by
  simp [dumpFileName, LoaderId.text, String.toList_append]

/-- A dumped class is not taken for a result. -/
theorem fileName_ne_dump (k : CacheKey) (name : String) (loader : LoaderId) :
    k.fileName ≠ dumpFileName name loader := by
  intro h
  have htext := congrArg String.toList h
  rw [toList_fileName, toList_dumpFileName] at htext
  obtain ⟨htag, -⟩ := append_mark_inj (List.append_cancel_right htext)
    (Text.notMem_decimal (by decide)) (Text.notMem_decimal (by decide))
  have hlast := congrArg List.getLast? htag
  rw [List.getLast?_append, List.getLast?_append] at hlast
  cases hlast

end CacheKey

namespace TransformRequest

variable {r : TransformRequest}

theorem slash_notMem_fileName (r : TransformRequest) : '/' ∉ r.key.fileName.toList := by
  have hname := CacheKey.slash_notMem_qualified r.className
  have hsum : '/' ∉ (decimal r.key.checksum.toNat).toList := Text.notMem_decimal (by decide)
  rw [CacheKey.toList_fileName]
  simp [key, CacheKey.ofInput] at hname hsum ⊢
  exact ⟨hname, hsum⟩

theorem length_fileName (r : TransformRequest) : 2 < r.key.fileName.length := by
  have hclass : ".class".length = 6 := rfl
  simp only [CacheKey.fileName, String.length_append]
  omega

theorem plain_fileName (r : TransformRequest) : Path.Plain r.key.fileName :=
  Path.plain_of_length r.slash_notMem_fileName r.length_fileName

end TransformRequest

theorem plain_dumpFileName (name : String) (loader : LoaderId) :
    Path.Plain (dumpFileName name loader) := by
  have hname := CacheKey.slash_notMem_qualified name
  have hloader : '/' ∉ (decimal loader.number).toList := Text.notMem_decimal (by decide)
  refine Path.plain_of_length ?_ ?_
  · simp [dumpFileName, LoaderId.text, String.toList_append] at hname hloader ⊢
    exact ⟨hname, hloader⟩
  · have hclass : ".class".length = 6 := rfl
    simp only [dumpFileName, String.length_append]
    omega

/-- A temporary file is not taken for a dumped class. -/
theorem dumpFileName_ne_tempName (name : String) (loader : LoaderId) (leaf : String)
    (process count : Nat) :
    dumpFileName name loader ≠ leaf ++ FileSystem.tempSuffix process count := by
  refine FileSystem.ne_tempName ?_ leaf process count
  rw [dumpFileName, String.toList_append, List.getLast?_append]
  rfl

/-- A dump has made the dump directory, and it may have written the class. -/
theorem DumpDir.write_snd_cases {d : DumpDir} {name : String} {loader : LoaderId} {bytes : Bytes}
    {fs : FileSystem} {motive : FileSystem → Prop} (hmade : motive (fs.makeDirAll d.root).2)
    (hwritten : ∀ written, (fs.makeDirAll d.root).2.writeFile (d.pathFor name loader) bytes =
      .ok written → motive written) :
    motive (d.write name loader bytes fs).2 := by
  rw [write]
  generalize fs.makeDirAll d.root = made at hmade hwritten ⊢
  obtain ⟨result, made⟩ := made
  dsimp only at hmade hwritten
  cases result with
  | error e => exact hmade
  | ok _ =>
    dsimp only
    cases hwrite : made.writeFile (d.pathFor name loader) bytes with
    | error e => exact hmade
    | ok written => exact hwritten written hwrite

/-- No two inputs of one class agree in their checksum. -/
def CollisionFree (rs : List TransformRequest) : Prop :=
  ∀ r ∈ rs, ∀ r' ∈ rs, ClassName.qualified r.className = ClassName.qualified r'.className →
    Checksum.crc32 r.bytes = Checksum.crc32 r'.bytes → r.bytes = r'.bytes

namespace TransformCache

open CachingTransformer (Output)

variable {c : TransformCache} {fs fs' : FileSystem} {outcome : String → Bytes → EditOutcome}
  {rs : List TransformRequest}

/-! ### Places -/

theorem placeOf_entryPath (c : TransformCache) (fs : FileSystem) (r : TransformRequest) :
    fs.placeOf (c.entryPath r.key) = fs.placeOf c.versionDir ++ [r.key.fileName] :=
  fs.placeOf_join c.versionDir r.plain_fileName

/-- The place is not that of a result. -/
def Apart (c : TransformCache) (fs : FileSystem) (place : Place) : Prop :=
  ∀ r : TransformRequest, fs.placeOf (c.entryPath r.key) ≠ place

theorem apart_of_ne {base leaf : Path} (hleaf : leaf.Plain)
    (h : ∀ r : TransformRequest, r.key.fileName ≠ leaf) :
    c.Apart fs (fs.placeOf (Path.join base leaf)) := by
  intro r hplace
  rw [placeOf_entryPath, fs.placeOf_join base hleaf] at hplace
  exact h r (List.append_singleton_inj.1 hplace).2

theorem apart_temp (c : TransformCache) (fs fs' : FileSystem) (r : TransformRequest) :
    c.Apart fs (fs.placeOf (fs'.tempBeside (c.entryPath r.key)).1) := by
  rw [entryPath, FileSystem.tempBeside_join _ r.plain_fileName]
  exact apart_of_ne (FileSystem.plain_tempName r.plain_fileName _ _) fun r' =>
    r'.key.fileName_ne_tempName _ _ _

/-! ### What storing and dumping leave -/

/-- A store has made the directories of the version, and it may have put the result into place. -/
theorem store_snd_cases {k : CacheKey} {output : Bytes} {motive : FileSystem → Prop}
    (hmade : motive (fs.makeDirAll c.versionDir).2)
    (hput : motive ((fs.makeDirAll c.versionDir).2.writeAtomically (c.entryPath k) output).2) :
    motive (c.store k output fs).2 := by
  unfold store
  generalize fs.makeDirAll c.versionDir = made at hmade hput ⊢
  obtain ⟨result, made⟩ := made
  dsimp only at hmade hput
  cases result with
  | error e => exact hmade
  | ok _ =>
    dsimp only
    generalize made.writeAtomically (c.entryPath k) output = written at hput ⊢
    obtain ⟨result, written⟩ := written
    cases result with
    | error e => exact hput
    | ok _ => exact hput

/-- A store adds its result, in its place, and otherwise no file in the place of a result. -/
theorem store_adds (c : TransformCache) (r : TransformRequest) (output : Bytes) (fs : FileSystem) :
    fs.Adds (c.store r.key output fs).2 fun place found =>
      (place = fs.placeOf (c.entryPath r.key) ∧ found = output) ∨ c.Apart fs place := by
  have hmade := fs.makeDirAll_adds c.versionDir fun place found =>
    (place = fs.placeOf (c.entryPath r.key) ∧ found = output) ∨ c.Apart fs place
  refine store_snd_cases (motive := fun after => fs.Adds after _) hmade ?_
  refine hmade.trans ((FileSystem.writeAtomically_adds _ _ output).mono ?_)
  intro place found h
  rcases h.1 with hplace | hplace
  · exact Or.inl ⟨hplace.trans (FileSystem.placeOf_congr hmade.cwd _), h.2⟩
  · rw [hplace, FileSystem.placeOf_congr hmade.cwd]
    exact Or.inr (c.apart_temp fs _ r)

/-- A dumped class lies apart from all results, whatever the dump directory is. -/
theorem dump_adds (c : TransformCache) (d : DumpDir) (name : String) (loader : LoaderId)
    (bytes : Bytes) (fs : FileSystem) :
    fs.Adds (d.write name loader bytes fs).2 fun place _ => c.Apart fs place := by
  have hmade := fs.makeDirAll_adds d.root fun place _ => c.Apart fs place
  refine DumpDir.write_snd_cases (motive := fun after => fs.Adds after _) hmade fun written hwrite => ?_
  refine hmade.trans ((FileSystem.writeFile_adds hwrite).mono ?_)
  intro place found h
  rw [h.1, FileSystem.placeOf_congr hmade.cwd]
  exact apart_of_ne (plain_dumpFileName name loader) fun r => r.key.fileName_ne_dump name loader

/-! ### Right results -/

/-- A file in the place of the result for one of the requests holds the output of the edit. -/
def Sound (c : TransformCache) (outcome : String → Bytes → EditOutcome)
    (rs : List TransformRequest) (fs : FileSystem) : Prop :=
  ∀ r ∈ rs, ∀ stored, fs.node? (fs.placeOf (c.entryPath r.key)) = some (.file stored) →
    Output outcome r stored

/-- No result lies in its place. -/
def Vacant (c : TransformCache) (fs : FileSystem) : Prop :=
  ∀ (r : TransformRequest) stored, fs.node? (fs.placeOf (c.entryPath r.key)) ≠ some (.file stored)

theorem vacant_of_no_entries (h : fs.entries = []) : c.Vacant fs := by
  intro r stored hnode
  rw [FileSystem.node?, h] at hnode
  by_cases hroot : fs.placeOf (c.entryPath r.key) = []
  · rw [if_pos hroot] at hnode
    cases hnode
  · rw [if_neg hroot] at hnode
    cases hnode

theorem Vacant.sound (h : c.Vacant fs) : c.Sound outcome rs fs :=
  fun r _ stored hnode => absurd hnode (h r stored)

theorem Sound.of_adds (h : c.Sound outcome rs fs) {new : Place → Bytes → Prop}
    (hadds : fs.Adds fs' new)
    (hnew : ∀ r ∈ rs, ∀ stored, new (fs.placeOf (c.entryPath r.key)) stored →
      Output outcome r stored) :
    c.Sound outcome rs fs' := by
  intro r hr stored hnode
  rw [FileSystem.placeOf_congr hadds.cwd] at hnode
  rcases hadds.file _ stored hnode with hnode | hstored
  · exact h r hr stored hnode
  · exact hnew r hr stored hstored

/-- What is loaded for a request is the output of the edit for it. -/
theorem Sound.load (h : c.Sound outcome rs fs) {r : TransformRequest} (hr : r ∈ rs)
    {stored : Bytes} (hload : c.load r.key fs = .ok (some stored)) : Output outcome r stored := by
  unfold TransformCache.load at hload
  cases hread : fs.readFile (c.entryPath r.key) with
  | ok found =>
    rw [hread] at hload
    cases hload
    exact h r hr stored (FileSystem.readFile_eq_ok hread)
  | error e =>
    rw [hread] at hload
    cases e <;> cases hload

/-- **A cache stays sound when a result is stored that is right for every request with its key**,
whether storing it succeeds or not. -/
theorem Sound.store (h : c.Sound outcome rs fs) {r : TransformRequest} {output : Bytes}
    (houtput : ∀ r' ∈ rs, r'.key = r.key → Output outcome r' output) :
    c.Sound outcome rs (c.store r.key output fs).2 := by
  refine h.of_adds (c.store_adds r output fs) fun r' hr' stored hstored => ?_
  rcases hstored with ⟨hplace, rfl⟩ | hapart
  · -- the same place means the same key
    rw [placeOf_entryPath, placeOf_entryPath] at hplace
    have hleaf := (List.append_singleton_inj.1 hplace).2
    exact houtput r' hr' (CacheKey.fileName_inj hleaf)
  · exact absurd rfl (hapart r')

theorem Sound.dump (h : c.Sound outcome rs fs) (d : DumpDir) (name : String)
    (loader : LoaderId) (bytes : Bytes) :
    c.Sound outcome rs (d.write name loader bytes fs).2 :=
  h.of_adds (c.dump_adds d name loader bytes fs) fun r _ _ hapart => absurd rfl (hapart r)

end TransformCache

end Reclass
