import Reclass.Proofs.ClassPath.ReadBack

/-!
# A directory and an archive of it

An archive can have an entry for everything below a directory (`ClassPath.Archives`). The readers
choose their classes in different ways: that of a directory by the extension, directories included,
that of an archive by the end of the entry's name. So they part in two places, and in no others
(`ClassPath.roots_agree_iff`). A directory that is called like a class keeps the directory reader
from reading anything, while its entry is passed over by the archive reader; and a file that is called
`.class` has no extension, but a name that ends like that of a class file
(`ClassPath.not_roots_agree`).
-/

set_option autoImplicit false

namespace Reclass

open ClassName (file)

namespace Text

theorem mem_joinWith {sep c : Char} {parts : List (List Char)} (h : c ∈ joinWith sep parts) :
    c = sep ∨ ∃ part ∈ parts, c ∈ part := by
  induction parts with
  | nil => exact absurd h List.not_mem_nil
  | cons part parts ih =>
    cases parts with
    | nil => exact Or.inr ⟨part, List.mem_cons_self, h⟩
    | cons next parts =>
      rcases List.mem_append.1 h with h | h
      · exact Or.inr ⟨part, List.mem_cons_self, h⟩
      · rcases List.mem_cons.1 h with h | h
        · exact Or.inl h
        · refine (ih h).imp_right ?_
          rintro ⟨part', hpart', hc⟩
          exact ⟨part', List.mem_cons_of_mem part hpart', hc⟩

end Text

/-- A path whose last part is empty does not end in a text without a slash. -/
theorem Path.not_endsWith_of_empty_part {p : Path} {tail : String}
    (h : p.parts.getLast? = some "") (htail : '/' ∉ tail.toList) (hne : tail ≠ "") :
    Text.endsWith p tail = false := by
  rw [← Bool.not_eq_true, Text.endsWith, List.isSuffixOf_iff_suffix]
  rintro ⟨front, hfront⟩
  obtain ⟨before, last, -, hparts⟩ := Path.parts_append (p := String.ofList front) htail
  have htext : String.ofList front ++ tail = p := by
    rw [← String.toList_inj, String.toList_append, String.toList_ofList, hfront]
  rw [htext] at hparts
  rw [hparts, List.getLast?_concat, Option.some.injEq] at h
  exact hne (String.append_eq_empty_iff.1 h).2

namespace ClassPath

open FileSystem

variable {fs : FileSystem} {root jar : Path} {place : Place} {e e' : List String × Node}
  {entry name : String} {content : Bytes}

/-- The names on the way to something are plain and have no backslash. -/
def PlainNames (e : List String × Node) : Prop :=
  ∀ name ∈ e.1, Path.Plain name ∧ '\\' ∉ name.toList

/-- The name under which an archive stores something. -/
def storedName (e : List String × Node) : String :=
  match e.2 with
  | .file _ => String.intercalate "/" e.1
  | .dir => String.intercalate "/" e.1 ++ "/"

/-- An entry of an archive is that of a file or directory, and has the content of the file. -/
structure Holds (data : Array UInt8) (entry : ZipEntry) (e : List String × Node) : Prop where
  name : entry.name = storedName e
  content : ∃ start, Zip.dataStart data entry = .ok start ∧
    ∀ bytes, e.2 = .file bytes → Zip.content data start entry = .ok bytes

/-- The path is that of an archive with entries of all that is in the list, and of nothing else. -/
def Archives (fs : FileSystem) (jar : Path) (tree : List (List String × Node)) : Prop :=
  ∃ place bytes entries stored, fs.find jar = .ok (place, .file bytes) ∧
    Zip.entries bytes.toArray = .ok entries ∧ List.Forall₂ (Holds bytes.toArray) entries stored ∧
    ∀ e, e ∈ stored ↔ e ∈ tree

/-- What is below a directory is visible and has plain names without a backslash, and an archive has
all of it and nothing else. -/
structure Mirrored (fs : FileSystem) (root jar : Path) (place : Place) : Prop where
  wellFormed : fs.WellFormed
  find : fs.find root = .ok (place, .dir)
  visible : visible fs place = fs.contents place
  plain : ∀ e ∈ fs.contents place, PlainNames e
  archives : Archives fs jar (fs.contents place)

/-- The class that a file has in an archive. -/
def storedClass (e : List String × Node) : Option (String × Bytes) :=
  match e.2 with
  | .file content => (classNameOf (String.intercalate "/" e.1)).map fun name => (name, content)
  | .dir => none

/-- A directory that is called like the file of a class. -/
def TakenForClass (e : List String × Node) : Prop :=
  e.2 = .dir ∧ Path.extension (String.intercalate "/" e.1) = some "class" ∧
    classNameOf (String.intercalate "/" e.1) ≠ none

/-- A file whose name is nothing but the ending. -/
def Nameless (e : List String × Node) : Prop := e.2 ≠ .dir ∧ e.1.getLast? = some ".class"

/-! ### Names -/

theorem classNameOf_slash (p : String) : classNameOf (p ++ "/") = none := by
  rw [classNameOf, if_neg]
  rw [Text.endsWith, List.isSuffixOf_iff_suffix, String.toList_append]
  rintro ⟨front, hfront⟩
  have hlast := congrArg List.getLast? hfront
  simp at hlast

theorem eq_file_of_classNameOf (h : classNameOf entry = some name)
    (hbackslash : '\\' ∉ entry.toList) : entry = file name := by
  unfold classNameOf at h
  by_cases hending : Text.endsWith entry ".class" = true
  · rw [if_pos hending] at h
    rw [Text.endsWith, List.isSuffixOf_iff_suffix] at hending
    obtain ⟨front, hfront⟩ := hending
    have hlength : entry.length - 6 = front.length := by
      rw [← String.length_toList, ← hfront, List.length_append]
      exact Nat.add_sub_cancel _ 6
    have hnot : '\\' ∉ front := fun hmem => hbackslash (hfront ▸ List.mem_append_left _ hmem)
    simp only [hlength, ← hfront, List.take_left] at h
    split at h
    · cases h
    · rw [Text.replaceChar_of_notMem (by rwa [String.toList_ofList])] at h
      cases h
      rw [← String.toList_inj, file, String.toList_append, String.toList_ofList, hfront]
  · rw [if_neg hending] at h
    cases h

theorem PlainNames.parts_eq (h : PlainNames e) (hne : e.1 ≠ []) :
    Path.parts (String.intercalate "/" e.1) = e.1 :=
  Path.parts_intercalate hne fun name hname => (h name hname).1.noSlash

theorem PlainNames.backslash_notMem (h : PlainNames e) (hne : e.1 ≠ []) :
    '\\' ∉ (String.intercalate "/" e.1).toList := by
  rw [Path.toList_eq_joinWith, h.parts_eq hne]
  intro hmem
  rcases Text.mem_joinWith hmem with hslash | ⟨part, hpart, hin⟩
  · exact absurd hslash (by decide)
  · obtain ⟨name, hname, rfl⟩ := List.mem_map.1 hpart
    exact (h name hname).2 hin

/-- A class is stored in one place. -/
theorem PlainNames.eq_of_storedClass (h : PlainNames e) (hne : e.1 ≠ [])
    (hstored : storedClass e = some (name, content)) :
    e = (Path.parts (file name), .file content) ∧
      String.intercalate "/" e.1 = file name := by
  obtain ⟨names, node⟩ := e
  cases node with
  | dir => cases hstored
  | file bytes =>
    obtain ⟨n, hn, heq⟩ := Option.map_eq_some_iff.1 hstored
    cases heq
    have hfile := eq_file_of_classNameOf hn (h.backslash_notMem hne)
    refine ⟨?_, hfile⟩
    rw [← hfile, h.parts_eq hne]

/-- A directory has those classes of an archive that have something in front of the ending. -/
theorem PlainNames.definedBy_iff (h : PlainNames e) (hne : e.1 ≠ []) :
    definedBy e = some (name, content) ↔
      storedClass e = some (name, content) ∧ (Path.parts name).getLast? ≠ some "" := by
  have hextension : definedBy e = some (name, content) ↔ storedClass e = some (name, content) ∧
      Path.extension (String.intercalate "/" e.1) = some "class" := by
    obtain ⟨names, node⟩ := e
    by_cases hext : Path.extension (String.intercalate "/" names) = some "class"
    · simp only [definedBy, storedClass, hext, ne_eq, not_true_eq_false, if_false, and_true]
      cases node <;> cases classNameOf (String.intercalate "/" names) <;> simp
    · simp [definedBy, hext]
  rw [hextension, and_congr_right_iff]
  intro hstored
  obtain ⟨heq, hfile⟩ := h.eq_of_storedClass hne hstored
  obtain ⟨before, last, hparts, hparts'⟩ := ClassName.parts_file name
  have hplain : ∀ part ∈ Path.parts (file name), Path.Plain part := by
    intro part hpart
    rw [heq] at h
    exact (h part hpart).1
  have hname : Path.fileName (file name) = some (last ++ ".class") :=
    Path.fileName_of_steps ((Path.steps_of_plain_parts hplain).trans hparts')
      (hplain _ (hparts' ▸ by simp))
  rw [hfile, Path.extension_eq_class_iff hname, hparts, List.getLast?_concat]
  constructor
  · rintro ⟨stem, hstem, hlast⟩ hempty
    have hsame := ClassName.file_inj hlast
    exact hstem (hsame.symm.trans (Option.some.inj hempty))
  · intro hlast
    exact ⟨last, fun hempty => hlast (congrArg some hempty), rfl⟩

/-- A file whose name is nothing but the ending is stored as a class with nothing in front of it. -/
theorem PlainNames.nameless_iff (h : PlainNames e) (hne : e.1 ≠ []) :
    Nameless e ↔ ∃ c, storedClass e = some c ∧ (Path.parts c.1).getLast? = some "" := by
  constructor
  · rintro ⟨hfile, hlast⟩
    obtain ⟨before, last, hconcat⟩ := (List.eq_nil_or_concat e.1).resolve_left hne
    rw [List.concat_eq_append] at hconcat
    rw [hconcat, List.getLast?_concat, Option.some.injEq] at hlast
    subst hlast
    -- the name of the class is that of the directory with a slash behind it, or empty
    have hslash : ∀ part ∈ before ++ [""], '/' ∉ part.toList := by
      rw [List.forall_mem_append, List.forall_mem_singleton]
      refine ⟨fun part hpart => (h part ?_).1.noSlash, by decide⟩
      rw [hconcat]
      exact List.mem_append_left _ hpart
    have hparts : Path.parts (String.intercalate "/" (before ++ [""])) = before ++ [""] :=
      Path.parts_intercalate (by simp) hslash
    have hentry : String.intercalate "/" e.1 = file (String.intercalate "/" (before ++ [""])) := by
      obtain ⟨before', last, hname, hfile'⟩ :=
        ClassName.parts_file (String.intercalate "/" (before ++ [""]))
      rw [hparts] at hname
      obtain ⟨rfl, hlast⟩ := List.append_singleton_inj.1 hname
      rw [← hlast] at hfile'
      rw [← Path.intercalate_parts (file _), hfile', hconcat]
      rfl
    have hempty : (Path.parts (String.intercalate "/" (before ++ [""]))).getLast? = some "" := by
      rw [hparts, List.getLast?_concat]
    have hbackslash : '\\' ∉ (String.intercalate "/" (before ++ [""])).toList := by
      intro hmem
      apply h.backslash_notMem hne
      rw [hentry, file, String.toList_append]
      exact List.mem_append_left _ hmem
    have hclass := ClassName.classNameOf_file_of_noBackslash hbackslash
      (Path.not_endsWith_of_empty_part hempty (by decide) (by decide))
      (Path.not_endsWith_of_empty_part hempty (by decide) (by decide))
    obtain ⟨names, node⟩ := e
    cases node with
    | dir => exact absurd rfl hfile
    | file content =>
      refine ⟨(String.intercalate "/" (before ++ [""]), content), ?_, hempty⟩
      show (classNameOf _).map _ = _
      rw [hentry, hclass]
      rfl
  · rintro ⟨⟨name, content⟩, hstored, hlast⟩
    obtain ⟨rfl, -⟩ := h.eq_of_storedClass hne hstored
    refine ⟨by rintro ⟨⟩, ?_⟩
    obtain ⟨before, last, hparts, hparts'⟩ := ClassName.parts_file name
    rw [hparts, List.getLast?_concat, Option.some.injEq] at hlast
    rw [hparts', hlast, List.getLast?_concat]
    rfl

/-! ### Readers -/

/-- An archive is read without a failure when its entries can be read. -/
theorem foldlM_addEntry {data : Array UInt8} {entries : List ZipEntry}
    {stored : List (List String × Node)} (h : List.Forall₂ (Holds data) entries stored)
    (jar : Path) (classes : SortedMap Bytes) :
    entries.foldlM (addEntry jar data) classes =
      .ok ((stored.filterMap storedClass).foldl (fun m e => m.insert e.1 e.2) classes) := by
  induction h generalizing classes with
  | nil => rfl
  | @cons entry e entries stored hentry _ ih =>
    have hstep : addEntry jar data classes entry =
        .ok ((storedClass e).toList.foldl (fun m e => m.insert e.1 e.2) classes) := by
      obtain ⟨hname, start, hstart, hcontent⟩ := hentry
      obtain ⟨names, node⟩ := e
      rw [addEntry, hstart]
      dsimp only
      cases node with
      | dir =>
        rw [hname, storedName, classNameOf_slash]
        rfl
      | file content =>
        rw [hname, storedName, storedClass]
        dsimp only
        cases classNameOf (String.intercalate "/" names) with
        | none => rfl
        | some name =>
          dsimp only
          rw [hcontent content rfl]
          rfl
    rw [List.foldlM_cons, hstep]
    show entries.foldlM (addEntry jar data) _ = _
    rw [ih, List.filterMap_cons]
    cases storedClass e with
    | none => rfl
    | some c => rfl

/-- No two files below a directory are stored as the same class. -/
theorem functional_storedClass (hwf : fs.WellFormed)
    (hplain : ∀ e ∈ fs.contents place, PlainNames e) :
    SortedMap.Functional ((fs.contents place).filterMap storedClass) := by
  rintro ⟨name, content⟩ hc ⟨name', content'⟩ hc' hname
  obtain rfl : name = name' := hname
  obtain ⟨e, he, hstored⟩ := List.mem_filterMap.1 hc
  obtain ⟨e', he', hstored'⟩ := List.mem_filterMap.1 hc'
  have hne := (hwf.mem_contents_iff.1 he).1
  have hne' := (hwf.mem_contents_iff.1 he').1
  obtain ⟨rfl, -⟩ := (hplain e he).eq_of_storedClass hne hstored
  obtain ⟨rfl, -⟩ := (hplain e' he').eq_of_storedClass hne' hstored'
  have hnode := (hwf.mem_contents_iff.1 he).2
  have hnode' := (hwf.mem_contents_iff.1 he').2
  rw [hnode] at hnode'
  cases hnode'
  rfl

theorem Mirrored.readArchive_eq (h : Mirrored fs root jar place) :
    readArchive fs jar = .ok (.ofList ((fs.contents place).filterMap storedClass)) := by
  obtain ⟨jarPlace, bytes, entries, stored, hfind, hentries, hholds, hmem⟩ := h.archives
  rw [readArchive, hfind]
  dsimp only
  rw [hentries]
  dsimp only
  rw [foldlM_addEntry hholds]
  have hfunctional := functional_storedClass h.wellFormed h.plain
  refine congrArg Except.ok (SortedMap.ofList_eq_ofList hfunctional fun c => ?_).symm
  simp only [List.mem_filterMap, hmem]

theorem Mirrored.readDirectory_eq (h : Mirrored fs root jar place) :
    readDirectory fs root = (fs.contents place).foldlM (addFile root) .empty := by
  rw [readDirectory, h.find]
  dsimp only
  rw [h.visible]

/-- A directory that is called like the file of a class keeps everything from being read. -/
theorem Mirrored.readDirectory_of_taken (h : Mirrored fs root jar place)
    (he : e ∈ fs.contents place) (htaken : TakenForClass e) :
    ∃ failure, readDirectory fs root = .error failure := by
  obtain ⟨rest, node⟩ := e
  obtain ⟨hdir, hext, hname⟩ := htaken
  obtain rfl : node = .dir := hdir
  obtain ⟨name, hname⟩ := Option.ne_none_iff_exists'.1 hname
  cases hresult : readDirectory fs root with
  | error failure => exact ⟨failure, rfl⟩
  | ok read =>
    rw [h.readDirectory_eq] at hresult
    exact absurd hresult (foldlM_addFile_ne_ok he hext hname _ read)

theorem Mirrored.readDirectory_of_none_taken (h : Mirrored fs root jar place)
    (hnone : ∀ e ∈ fs.contents place, ¬ TakenForClass e) :
    readDirectory fs root = .ok (.ofList ((fs.contents place).filterMap definedBy)) := by
  rw [h.readDirectory_eq, foldlM_addFile root fun rest hdir hext => ?_]
  · rfl
  · by_contra hname
    exact hnone (rest, .dir) hdir ⟨rfl, hext, hname⟩

/-- The classes of a directory are those of the archive with something in front of the ending. -/
theorem Mirrored.mem_defined_iff (h : Mirrored fs root jar place) {c : String × Bytes} :
    c ∈ (fs.contents place).filterMap definedBy ↔
      c ∈ (fs.contents place).filterMap storedClass ∧ (Path.parts c.1).getLast? ≠ some "" := by
  have hne : ∀ e ∈ fs.contents place, e.1 ≠ [] := fun e he =>
    (h.wellFormed.mem_contents_iff.1 he).1
  simp only [List.mem_filterMap]
  constructor
  · rintro ⟨e, he, hdefined⟩
    obtain ⟨hstored, hlast⟩ := ((h.plain e he).definedBy_iff (hne e he)).1 hdefined
    exact ⟨⟨e, he, hstored⟩, hlast⟩
  · rintro ⟨⟨e, he, hstored⟩, hlast⟩
    exact ⟨e, he, ((h.plain e he).definedBy_iff (hne e he)).2 ⟨hstored, hlast⟩⟩

/-! ### Small archives -/

/-- A number in so many bytes, low byte first. -/
def littleEndian (width n : Nat) : Bytes :=
  (List.range width).map fun i => UInt8.ofNat (n / 256 ^ i)

/-- What both headers of an entry say about a name with its content, from the version on. -/
def headerFields (e : String × Bytes) : Bytes :=
  littleEndian 2 20 ++ littleEndian 8 0 ++ littleEndian 4 (Checksum.crc32 e.2).toNat ++
    littleEndian 4 e.2.length ++ littleEndian 4 e.2.length ++ littleEndian 2 e.1.utf8ByteSize ++
    littleEndian 2 0

/-- The bytes of an archive with one entry, which is stored as it is. -/
def archiveOf (e : String × Bytes) : Bytes :=
  let record := littleEndian 4 Zip.localSignature ++ headerFields e ++ Bytes.ofText e.1 ++ e.2
  let directory := littleEndian 4 Zip.directorySignature ++ littleEndian 2 20 ++ headerFields e ++
    littleEndian 14 0 ++ Bytes.ofText e.1
  record ++ directory ++ littleEndian 4 Zip.endSignature ++ littleEndian 4 0 ++ littleEndian 2 1 ++
    littleEndian 2 1 ++ littleEndian 4 directory.length ++ littleEndian 4 record.length ++
    littleEndian 2 0

/-- The entry of such an archive. -/
def entryOf (e : String × Bytes) : ZipEntry where
  name := e.1
  flags := 0
  method := 0
  crc32 := (Checksum.crc32 e.2).toNat
  compressedSize := e.2.length
  size := e.2.length
  headerStart := 0

/-- A directory with one thing in it, and an archive with one entry. -/
def besideArchive (e : String × Node) (stored : String × Bytes) : FileSystem where
  entries := [(["t"], .dir), (["t", e.1], e.2), (["t.jar"], .file (archiveOf stored))]
  cwd := []
  process := 1
  tempCount := 0

theorem mirrored_besideArchive {name : String} {node : Node} {stored : String × Bytes}
    (hplain : Path.Plain name ∧ '\\' ∉ name.toList) (hignore : name ≠ ".ignore")
    (hfind : (besideArchive (name, node) stored).find "t" = .ok (["t"], .dir))
    (hjar : (besideArchive (name, node) stored).find "t.jar" =
      .ok (["t.jar"], .file (archiveOf stored)))
    (hentries : Zip.entries (archiveOf stored).toArray = .ok [entryOf stored])
    (hholds : Holds (archiveOf stored).toArray (entryOf stored) ([name], node)) :
    (besideArchive (name, node) stored).contents ["t"] = [([name], node)] ∧
      Mirrored (besideArchive (name, node) stored) "t" "t.jar" ["t"] := by
  have hcontents : (besideArchive (name, node) stored).contents ["t"] = [([name], node)] := by
    simp [besideArchive, contents, below, children, node?, List.lookup_cons]
  refine ⟨hcontents, wellFormed_of_entries ?_ ?_ rfl, hfind, visible_of_no_ignore_files ?_ ["t"],
    ?_, ?_⟩
  · simp [besideArchive]
  · simp [besideArchive, node?]
  · simp [besideArchive, hignore]
  · rw [hcontents]
    simpa [PlainNames] using hplain
  · rw [hcontents]
    exact ⟨["t.jar"], _, [entryOf stored], [([name], node)], hjar, hentries, .cons hholds .nil,
      fun e => Iff.rfl⟩

/-! ### Agreement -/

/-- **Where the readers of a directory and of an archive of it agree.**

Take a directory, everything below which has a plain name without a backslash and is visible, and an
archive whose entries are that of each file and directory below it, with the names and contents that
they have. The archive can be read. The directory can be read and has the same classes just when no
directory below it is called like the file of a class, and no file is called `.class`. A directory
that is called like the file of a class makes the directory unreadable; without one, the directory
has the classes of the archive whose names do not end in an empty part, and no others. -/
theorem roots_agree_iff (h : Mirrored fs root jar place) :
    ∃ classes, readArchive fs jar = .ok classes ∧
      (readDirectory fs root = .ok classes ↔
        ∀ e ∈ fs.contents place, ¬ TakenForClass e ∧ ¬ Nameless e) ∧
      ((∃ e ∈ fs.contents place, TakenForClass e) →
        ∃ failure, readDirectory fs root = .error failure) ∧
      ((∀ e ∈ fs.contents place, ¬ TakenForClass e) →
        ∃ read, readDirectory fs root = .ok read ∧
          ∀ c, c ∈ read.entries ↔ c ∈ classes.entries ∧ (Path.parts c.1).getLast? ≠ some "") := by
  have hnameless : ∀ e ∈ fs.contents place,
      Nameless e ↔ ∃ c, storedClass e = some c ∧ (Path.parts c.1).getLast? = some "" :=
    fun e he => (h.plain e he).nameless_iff (h.wellFormed.mem_contents_iff.1 he).1
  have hstored := functional_storedClass h.wellFormed h.plain
  have hdefined : SortedMap.Functional ((fs.contents place).filterMap definedBy) :=
    fun c hc c' hc' => hstored c (h.mem_defined_iff.1 hc).1 c' (h.mem_defined_iff.1 hc').1
  refine ⟨_, h.readArchive_eq, ⟨fun hsame => ?_, fun hnone => ?_⟩,
    fun ⟨e, he, htaken⟩ => h.readDirectory_of_taken he htaken,
    fun hnone => ⟨_, h.readDirectory_of_none_taken hnone, fun c => ?_⟩⟩
  · have hnone : ∀ e ∈ fs.contents place, ¬ TakenForClass e := by
      intro e he htaken
      obtain ⟨failure, hfailure⟩ := h.readDirectory_of_taken he htaken
      cases hsame.symm.trans hfailure
    refine fun e he => ⟨hnone e he, fun hfile => ?_⟩
    -- the class of this file would be one of the directory
    obtain ⟨c, hc, hlast⟩ := (hnameless e he).1 hfile
    have hmaps := Except.ok.inj ((h.readDirectory_of_none_taken hnone).symm.trans hsame)
    have hin := ((SortedMap.entries_ofList hstored).2 c).2 (List.mem_filterMap.2 ⟨e, he, hc⟩)
    rw [← hmaps, (SortedMap.entries_ofList hdefined).2 c, h.mem_defined_iff] at hin
    exact hin.2 hlast
  · rw [h.readDirectory_of_none_taken fun e he => (hnone e he).1]
    refine congrArg Except.ok (SortedMap.ofList_eq_ofList hdefined fun c => ?_)
    rw [h.mem_defined_iff, and_iff_left_iff_imp]
    intro hc hlast
    obtain ⟨e, he, hstored⟩ := List.mem_filterMap.1 hc
    exact (hnone e he).2 ((hnameless e he).2 ⟨c, hstored, hlast⟩)
  · rw [(SortedMap.entries_ofList hdefined).2 c, (SortedMap.entries_ofList hstored).2 c,
      h.mem_defined_iff]

/-- A directory with one class and the archive of it are read alike. -/
theorem roots_agree_iff_oneClass :
    let fs := besideArchive ("A.class", .file [1, 2]) ("A.class", [1, 2])
    ∃ classes, readArchive fs "t.jar" = .ok classes ∧ readDirectory fs "t" = .ok classes := by
  intro fs
  have hfile : Holds (archiveOf ("A.class", [1, 2])).toArray (entryOf ("A.class", [1, 2]))
      (["A.class"], .file [1, 2]) := by
    refine ⟨by decide +kernel, 37, by decide +kernel, ?_⟩
    rintro _ ⟨⟩
    decide +kernel
  obtain ⟨hcontents, hmirrored⟩ := mirrored_besideArchive (by decide) (by decide)
    (by decide +kernel) (by decide +kernel) (by decide +kernel) hfile
  obtain ⟨classes, harchive, hdirectory, -, -⟩ := roots_agree_iff hmirrored
  refine ⟨classes, harchive, hdirectory.2 fun e he => ?_⟩
  rw [hcontents, List.mem_singleton] at he
  subst he
  exact ⟨fun h => (nomatch h.1), fun h => absurd h.2 (by decide)⟩

/-- A directory and its archive that are not read as the same classes. -/
structure Disagree (fs : FileSystem) (root jar : Path) (place : Place) : Prop where
  mirrored : Mirrored fs root jar place
  unlike : ∀ classes, readArchive fs jar = .ok classes → readDirectory fs root ≠ .ok classes

/-- **There are trees that are not read alike**: one has a directory that is called like the file of a
class, and one has a file that is called `.class`. -/
theorem not_roots_agree :
    Disagree (besideArchive ("x.class", .dir) ("x.class/", [])) "t" "t.jar" ["t"] ∧
      Disagree (besideArchive (".class", .file [1]) (".class", [1])) "t" "t.jar" ["t"] := by
  have hdir : Holds (archiveOf ("x.class/", [])).toArray (entryOf ("x.class/", []))
      (["x.class"], .dir) := ⟨by decide +kernel, 38, by decide +kernel, nofun⟩
  obtain ⟨hcontents, hmirrored⟩ := mirrored_besideArchive (by decide) (by decide)
    (by decide +kernel) (by decide +kernel) (by decide +kernel) hdir
  have hfile : Holds (archiveOf (".class", [1])).toArray (entryOf (".class", [1]))
      ([".class"], .file [1]) := by
    refine ⟨by decide +kernel, 36, by decide +kernel, ?_⟩
    rintro _ ⟨⟩
    decide +kernel
  obtain ⟨hcontents', hmirrored'⟩ := mirrored_besideArchive (by decide) (by decide)
    (by decide +kernel) (by decide +kernel) (by decide +kernel) hfile
  refine ⟨⟨hmirrored, fun classes _ hread => ?_⟩, ⟨hmirrored', fun classes hclasses hread => ?_⟩⟩
  · obtain ⟨failure, hfailure⟩ := hmirrored.readDirectory_of_taken
      (hcontents ▸ List.mem_singleton.2 rfl) ⟨rfl, by decide +kernel, by decide +kernel⟩
    cases hread.symm.trans hfailure
  · rw [hmirrored'.readDirectory_eq, hcontents'] at hread
    rw [hmirrored'.readArchive_eq, hcontents', ← hread] at hclasses
    exact absurd hclasses (by decide +kernel)

end ClassPath

end Reclass
