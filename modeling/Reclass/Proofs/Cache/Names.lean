import Reclass.Proofs.Cache.Refinement

/-!
# Names of stored files

Three kinds of file are written into the directories of a cache and of a dump: results, temporary
files that become results, and dumped classes. The name of each begins with the name of a class,
which is any text. Slashes are replaced in it, so that the file lies directly in its directory
(`Path.DirectlyIn`). Everything else may occur in it, marks and dots and whole endings of other
names; but what stands behind the last mark of a name has been written there by the store, and with
it the rest of the name is determined. So a name tells what the file is, and of which class
(`CacheKey.names_safe_and_distinct`).
-/

set_option autoImplicit false

namespace Reclass

namespace Path

variable {p p' dir dir' : Path} {name name' : String}

/-- The path leads to the file `name` in the directory, not deeper and not out of it. -/
structure DirectlyIn (p dir : Path) (name : String) : Prop where
  /-- The name has no slash, and is neither empty nor one of the two kinds of dots. -/
  plain : Path.Plain name
  steps : p.steps = dir.steps ++ [name]
  place : ∀ fs : FileSystem, fs.placeOf p = fs.placeOf dir ++ [name]

/-- A plain name is looked up in the directory that it is joined to. -/
theorem directlyIn_join (dir : Path) (h : Path.Plain name) : (join dir name).DirectlyIn dir name where
  plain := h
  steps := by rw [steps_join h.not_absolute, h.steps_eq]
  place := fun fs => fs.placeOf_join dir h

/-- Files with different names are different files, in whatever directories they lie. -/
theorem DirectlyIn.placeOf_ne (h : p.DirectlyIn dir name) (h' : p'.DirectlyIn dir' name')
    (hne : name ≠ name') (fs : FileSystem) : fs.placeOf p ≠ fs.placeOf p' := by
  intro hplace
  rw [h.place, h'.place] at hplace
  apply hne
  exact (List.append_singleton_inj.1 hplace).2

end Path

namespace CacheKey

theorem fileName_eq_iff (name name' : String) (input input' : Bytes) :
    (ofInput name input).fileName = (ofInput name' input').fileName ↔
      ClassName.qualified name = ClassName.qualified name' ∧
        Checksum.crc32 input = Checksum.crc32 input' := by
  constructor
  · intro h
    have hkey := fileName_inj h
    exact ⟨congrArg qualifiedName hkey, congrArg checksum hkey⟩
  · rintro ⟨hname, hsum⟩
    rw [ofInput, ofInput, hname, hsum]

theorem dumpFileName_eq_iff (name name' : String) (loader loader' : LoaderId) :
    dumpFileName name loader = dumpFileName name' loader' ↔
      ClassName.qualified name = ClassName.qualified name' ∧ loader = loader' := by
  constructor
  · intro h
    have htext := congrArg String.toList h
    rw [toList_dumpFileName, toList_dumpFileName] at htext
    -- no mark follows the one before the loader, since the loader is a number
    obtain ⟨hname, hloader⟩ := append_mark_inj (List.append_cancel_right htext)
      (Text.notMem_decimal (by decide)) (Text.notMem_decimal (by decide))
    have hname' := String.toList_inj.1 (List.append_cancel_right hname)
    have hnumber := Text.decimal_inj (String.toList_inj.1 hloader)
    exact ⟨hname', congrArg LoaderId.mk hnumber⟩
  · rintro ⟨hname, rfl⟩
    rw [dumpFileName, dumpFileName, hname]

theorem directlyIn_entryPath (c : TransformCache) (name : String) (input : Bytes) :
    (c.entryPath (ofInput name input)).DirectlyIn c.versionDir (ofInput name input).fileName :=
  Path.directlyIn_join c.versionDir (plain_ofInput name input)

theorem directlyIn_temp (fs : FileSystem) (c : TransformCache) (name : String) (input : Bytes) :
    (fs.tempBeside (c.entryPath (ofInput name input))).1.DirectlyIn c.versionDir
      ((ofInput name input).fileName ++ FileSystem.tempSuffix fs.process fs.tempCount) := by
  have hplain := plain_ofInput name input
  rw [TransformCache.entryPath, FileSystem.tempBeside_join _ hplain]
  apply Path.directlyIn_join
  exact FileSystem.plain_tempName hplain _ _

theorem directlyIn_pathFor (d : DumpDir) (name : String) (loader : LoaderId) :
    (d.pathFor name loader).DirectlyIn d.root (dumpFileName name loader) :=
  Path.directlyIn_join d.root (plain_dumpFileName name loader)

/-- **A name is safe, and tells what the file is.**

Whatever the class is called, a result, the temporary file for it and a dumped class lie directly in
their directories. Two results have one name exactly when their classes have one qualified name and
their inputs one checksum, and two dumped classes exactly when they have one qualified name and one
loader. No result has the name of a temporary file or of a dumped class, nor has a dumped class that
of a temporary file; so none of them is in the place of another, also when the directories are the
same. -/
theorem names_safe_and_distinct :
    (∀ (fs : FileSystem) (c : TransformCache) (d : DumpDir) (name : String) (input : Bytes)
        (loader : LoaderId),
      let key := ofInput name input
      (c.entryPath key).DirectlyIn c.versionDir key.fileName ∧
        (fs.tempBeside (c.entryPath key)).1.DirectlyIn c.versionDir
          (key.fileName ++ FileSystem.tempSuffix fs.process fs.tempCount) ∧
        (d.pathFor name loader).DirectlyIn d.root (dumpFileName name loader)) ∧
      (∀ name name' input input', (ofInput name input).fileName = (ofInput name' input').fileName ↔
        ClassName.qualified name = ClassName.qualified name' ∧
          Checksum.crc32 input = Checksum.crc32 input') ∧
      (∀ name name' loader loader', dumpFileName name loader = dumpFileName name' loader' ↔
        ClassName.qualified name = ClassName.qualified name' ∧ loader = loader') ∧
      (∀ (name name' : String) (input input' : Bytes) (loader : LoaderId) (process count : Nat),
        let temp := (ofInput name' input').fileName ++ FileSystem.tempSuffix process count
        (ofInput name input).fileName ≠ dumpFileName name' loader ∧
          (ofInput name input).fileName ≠ temp ∧ dumpFileName name loader ≠ temp) ∧
      ∀ (fs fs' : FileSystem) (c c' : TransformCache) (d : DumpDir) (name name' : String)
        (input input' : Bytes) (loader : LoaderId),
        fs.placeOf (c.entryPath (ofInput name input)) ≠ fs.placeOf (d.pathFor name' loader) ∧
          fs.placeOf (c.entryPath (ofInput name input)) ≠
            fs.placeOf (fs'.tempBeside (c'.entryPath (ofInput name' input'))).1 := by
  refine ⟨?_, fileName_eq_iff, dumpFileName_eq_iff, ?_, ?_⟩
  · intro fs c d name input loader key
    exact ⟨directlyIn_entryPath c name input, directlyIn_temp fs c name input,
      directlyIn_pathFor d name loader⟩
  · intro name name' input input' loader process count temp
    refine ⟨fileName_ne_dump _ name' loader, ?_, ?_⟩
    · exact fileName_ne_tempName _ _ process count
    · exact dumpFileName_ne_tempName name loader _ process count
  · intro fs fs' c c' d name name' input input' loader
    -- the places differ in their last steps already
    have hentry := directlyIn_entryPath c name input
    constructor
    · apply hentry.placeOf_ne (directlyIn_pathFor d name' loader)
      exact fileName_ne_dump _ name' loader
    · apply hentry.placeOf_ne (directlyIn_temp fs' c' name' input')
      exact fileName_ne_tempName _ _ _ _

end CacheKey

end Reclass
