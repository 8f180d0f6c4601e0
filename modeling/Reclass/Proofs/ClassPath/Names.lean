import Reclass.ClassPath.Read
import Reclass.Proofs.Files.Ways

/-!
# Class names as paths

The file of a class has the name of the class with `.class` behind it. When the name is a list of
plain parts (`ClassName.Regular`), the steps of that path are the parts of the name, the last one
with the ending, and the names of classes can be told from them again: by the extension
(`ClassName.Regular.extension_file`), as the class that the file defines
(`ClassName.Regular.classNameOf_file`), and because different names have different steps
(`ClassName.file_inj`).
-/

set_option autoImplicit false

namespace Reclass

namespace Text

theorem endsWith_append (s tail : String) : endsWith (s ++ tail) tail = true := by
  rw [endsWith, List.isSuffixOf_iff_suffix, String.toList_append]
  exact List.suffix_append _ _

theorem replaceChar_of_notMem {old new : Char} {s : String} (h : old ∉ s.toList) :
    replaceChar old new s = s := by
  have hsame : (s.toList.map fun c => if c = old then new else c) = s.toList := by
    refine (List.map_congr_left fun c hc => ?_).trans (List.map_id _)
    apply if_neg
    rintro rfl
    exact h hc
  rw [replaceChar, hsame, String.ofList_toList]

end Text

namespace Path

variable {p : Path} {names : List String}

/-- The path that is spelled with the parts has these parts. -/
theorem parts_intercalate (hne : names ≠ []) (h : ∀ name ∈ names, '/' ∉ name.toList) :
    parts (String.intercalate "/" names) = names := by
  apply parts_of_toList_eq hne h
  rw [String.toList_intercalate, joinWith_eq_intercalate]
  rfl

theorem intercalate_parts (p : Path) : String.intercalate "/" p.parts = p := by
  rw [← String.toList_inj, String.toList_intercalate, toList_eq_joinWith p, joinWith_eq_intercalate]
  rfl

/-- What is written behind a path without a slash belongs to its last part. -/
theorem parts_append {tail : String} (htail : '/' ∉ tail.toList) :
    ∃ before last, parts p = before ++ [last] ∧ parts (p ++ tail) = before ++ [last ++ tail] := by
  obtain ⟨before, last, hparts⟩ := (List.eq_nil_or_concat p.parts).resolve_left (parts_ne_nil p)
  rw [List.concat_eq_append] at hparts
  refine ⟨before, last, hparts, ?_⟩
  have hslash : ∀ part ∈ before ++ [last], '/' ∉ part.toList := fun part hpart =>
    slash_notMem_part (hparts ▸ hpart)
  rw [List.forall_mem_append, List.forall_mem_singleton] at hslash
  apply parts_of_toList_eq (List.append_ne_nil_of_right_ne_nil _ (List.cons_ne_nil _ _))
  · rw [List.forall_mem_append, List.forall_mem_singleton]
    refine ⟨hslash.1, ?_⟩
    rw [String.toList_append, List.mem_append, not_or]
    exact ⟨hslash.2, htail⟩
  · rw [String.toList_append, toList_eq_joinWith p, hparts]
    by_cases hbefore : before = []
    · simp [hbefore, Text.joinWith, String.toList_append]
    · have hmap : before.map String.toList ≠ [] := fun e => hbefore (List.map_eq_nil_iff.1 e)
      rw [List.map_append, List.map_append, Text.joinWith_append hmap (by simp),
        Text.joinWith_append hmap (by simp)]
      simp [Text.joinWith, String.toList_append]

/-- Plain parts are all steps. -/
theorem steps_of_plain_parts (h : ∀ part ∈ p.parts, Plain part) : p.steps = p.parts := by
  rw [steps_eq_filter, List.filter_eq_self]
  intro part hpart
  exact decide_eq_true (h part hpart).ne_empty

theorem not_absolute_of_plain_parts (h : ∀ part ∈ p.parts, Plain part) : p.isAbsolute = false := by
  obtain ⟨first, rest, hparts⟩ := List.exists_cons_of_ne_nil (parts_ne_nil p)
  exact not_absolute_of_parts hparts (h first (hparts ▸ List.mem_cons_self)).ne_empty

end Path

namespace FileSystem

variable {here place : Place} {names : List String}

/-- Plain steps lead down. -/
theorem foldl_descend_of_plain (h : ∀ name ∈ names, Path.Plain name) :
    names.foldl descend here = here ++ names := by
  induction names generalizing here with
  | nil => simp
  | cons name names ih =>
    rw [List.forall_mem_cons] at h
    rw [List.foldl_cons, ih h.2, descend, if_neg h.1.ne_self, if_neg h.1.ne_up, List.append_assoc]
    rfl

theorem mem_wayFrom_of_plain (h : ∀ name ∈ names, Path.Plain name)
    (hplace : place ∈ wayFrom here names) :
    ∃ outer rest, rest ≠ [] ∧ names = outer ++ rest ∧ place = here ++ outer := by
  induction names generalizing here with
  | nil => exact absurd hplace List.not_mem_nil
  | cons name names ih =>
    rw [List.forall_mem_cons] at h
    rw [wayFrom, List.mem_cons, descend, if_neg h.1.ne_self, if_neg h.1.ne_up] at hplace
    rcases hplace with rfl | hplace
    · exact ⟨[], name :: names, List.cons_ne_nil name names, rfl, by simp⟩
    · obtain ⟨outer, rest, hne, rfl, rfl⟩ := ih h.2 hplace
      exact ⟨name :: outer, rest, hne, rfl, by simp⟩

end FileSystem

namespace ClassName

variable {name name' : String}

/-- The path of the file of a class. -/
def file (name : String) : Path := name ++ ".class"

/-- The name is a list of plain parts with slashes between them. No part has a backslash or ends
like the name of a class file, and the name does not end like that of a description of a module or a
package. -/
structure Regular (name : String) : Prop where
  plain : ∀ part ∈ Path.parts name, Path.Plain part
  noEnding : ∀ part ∈ Path.parts name, Text.endsWith part ".class" = false
  noBackslash : '\\' ∉ name.toList
  noModule : Text.endsWith name "module-info" = false
  noPackage : Text.endsWith name "package-info" = false

instance (name : String) : Decidable (Regular name) :=
  decidable_of_iff ((∀ part ∈ Path.parts name, Path.Plain part) ∧
      (∀ part ∈ Path.parts name, Text.endsWith part ".class" = false) ∧ '\\' ∉ name.toList ∧
      Text.endsWith name "module-info" = false ∧ Text.endsWith name "package-info" = false)
    ⟨fun h => ⟨h.1, h.2.1, h.2.2.1, h.2.2.2.1, h.2.2.2.2⟩,
      fun h => ⟨h.plain, h.noEnding, h.noBackslash, h.noModule, h.noPackage⟩⟩

/-- The steps of the file of a class are the parts of its name, the last one with the ending. -/
theorem parts_file (name : String) :
    ∃ packages simple, Path.parts name = packages ++ [simple] ∧
      Path.parts (file name) = packages ++ [simple ++ ".class"] :=
  Path.parts_append (by decide)

theorem file_inj (h : file name = file name') : name = name' := by
  have htext := congrArg String.toList h
  simp only [file, String.toList_append] at htext
  exact String.toList_inj.1 (List.append_cancel_right htext)

/-- The file of a class defines the class, unless it describes a module or a package. -/
theorem classNameOf_file_of_noBackslash (hbackslash : '\\' ∉ name.toList)
    (hmodule : Text.endsWith name "module-info" = false)
    (hpackage : Text.endsWith name "package-info" = false) :
    ClassPath.classNameOf (file name) = some name := by
  have hname : String.ofList ((file name).toList.take ((file name).length - 6)) = name := by
    have hlength : (file name).length - 6 = name.toList.length := by
      have hending : ".class".length = 6 := rfl
      rw [file, String.length_append, hending, Nat.add_sub_cancel, String.length_toList]
    rw [hlength, file, String.toList_append, List.take_left, String.ofList_toList]
  have hending : Text.endsWith (file name) ".class" = true := Text.endsWith_append name ".class"
  rw [ClassPath.classNameOf, if_pos hending]
  simp only [hname, hmodule, hpackage, Text.replaceChar_of_notMem hbackslash]
  rfl

namespace Regular

variable (h : Regular name)
include h

theorem plain_file : ∀ part ∈ Path.parts (file name), Path.Plain part := by
  obtain ⟨packages, simple, hparts, hfile⟩ := parts_file name
  have hplain := h.plain
  rw [hparts, List.forall_mem_append, List.forall_mem_singleton] at hplain
  rw [hfile, List.forall_mem_append, List.forall_mem_singleton]
  refine ⟨hplain.1, Path.plain_of_length ?_ ?_⟩
  · rw [String.toList_append, List.mem_append, not_or]
    exact ⟨hplain.2.noSlash, by decide⟩
  · have hending : ".class".length = 6 := rfl
    simp only [String.length_append]
    omega

theorem steps_file : Path.steps (file name) = Path.parts (file name) :=
  Path.steps_of_plain_parts h.plain_file

theorem not_absolute_file : Path.isAbsolute (file name) = false :=
  Path.not_absolute_of_plain_parts h.plain_file

/-- The file of a class has the extension of one. -/
theorem extension_file : Path.extension (file name) = some "class" := by
  obtain ⟨packages, simple, hparts, hfile⟩ := parts_file name
  have hsimple : Path.Plain simple := h.plain simple (hparts ▸ by simp)
  have hlast : Path.Plain (simple ++ ".class") := h.plain_file _ (hfile ▸ by simp)
  have hname := Path.fileName_of_steps (h.steps_file.trans hfile) hlast
  rw [Path.extension_eq_class_iff hname]
  exact ⟨simple, hsimple.ne_empty, rfl⟩

/-- No directory that leads to the file of a class has that extension. -/
theorem extension_package {outer rest : List String} (hrest : rest ≠ [])
    (hfile : Path.parts (file name) = outer ++ rest) :
    Path.extension (String.intercalate "/" outer) ≠ some "class" := by
  rcases List.eq_nil_or_concat outer with rfl | ⟨before, last, rfl⟩
  · decide
  · rw [List.concat_eq_append] at hfile ⊢
    have hplain : ∀ part ∈ before ++ [last], Path.Plain part := fun part hpart =>
      h.plain_file part (hfile ▸ List.mem_append_left rest hpart)
    have hparts : Path.parts (String.intercalate "/" (before ++ [last])) = before ++ [last] :=
      Path.parts_intercalate (by simp) fun part hpart => (hplain part hpart).noSlash
    have hsteps : Path.steps (String.intercalate "/" (before ++ [last])) = before ++ [last] := by
      rw [Path.steps_of_plain_parts (by rwa [hparts]), hparts]
    -- the directory is a part of the name itself, as the ending belongs to the last part
    have hmem : last ∈ Path.parts name := by
      obtain ⟨packages, simple, hname, hfile'⟩ := parts_file name
      obtain ⟨others, final, rfl⟩ := (List.eq_nil_or_concat rest).resolve_left hrest
      rw [hfile', List.concat_eq_append, ← List.append_assoc] at hfile
      rw [hname, (List.append_singleton_inj.1 hfile).1]
      simp
    rw [Ne, Path.extension_eq_class_iff (Path.fileName_of_steps hsteps (hplain last (by simp)))]
    rintro ⟨stem, -, rfl⟩
    have hending := h.noEnding _ hmem
    rw [Text.endsWith_append] at hending
    cases hending

/-- The file of a class defines the class. -/
theorem classNameOf_file : ClassPath.classNameOf (file name) = some name :=
  classNameOf_file_of_noBackslash h.noBackslash h.noModule h.noPackage

end Regular

end ClassName

end Reclass
