import Reclass.Proofs.ClassPath.Ancestry
import Reclass.Proofs.ClassPath.History
import Reclass.Proofs.Files.Effects

/-!
# Where exported classes go

An export writes one file for each loaded class, at the path that the name of the class makes of the
output directory. A name is taken as a path as it is: one that starts with a slash, or leads up
further than it has led down, is `Outward`, and its file is written outside the output directory.
Names come from entries of archives and from file names, where nothing keeps them from being outward
(`ClassPathHost.not_export_inside`). Outward names are all there is to it: besides the directories
that lead to the output directory an export makes and changes nothing outside for other names
(`ClassPathHost.export_of_history`).
-/

set_option autoImplicit false

namespace Reclass

namespace FileSystem

variable {fs fs' : FileSystem} {here inner place : Place} {name : String} {names : List String}

/-- The steps never lead up from where they start; `inner` is where earlier steps have led. -/
def stays : (inner : Place) → List String → Bool
  | _, [] => true
  | inner, name :: names => !(name == ".." && inner.isEmpty) && stays (descend inner name) names

theorem descend_append (h : (name == ".." && inner.isEmpty) = false) :
    descend (here ++ inner) name = here ++ descend inner name := by
  unfold descend
  by_cases hself : name = "."
  · simp [hself]
  · by_cases hup : name = ".."
    · have hne : inner ≠ [] := by simpa [hup] using h
      simp [hup, List.dropLast_append_of_ne_nil hne]
    · simp [hself, hup]

/-- Steps that never lead up from where they start pass through nothing outside. -/
theorem prefix_of_stays (h : stays inner names = true)
    (hplace : place ∈ wayFrom (here ++ inner) names ++ [names.foldl descend (here ++ inner)]) :
    here <+: place := by
  induction names generalizing inner with
  | nil =>
    rw [wayFrom, List.nil_append, List.mem_singleton] at hplace
    rw [hplace]
    exact List.prefix_append here inner
  | cons name names ih =>
    simp only [stays, Bool.and_eq_true, Bool.not_eq_true'] at h
    rw [wayFrom, List.cons_append, List.mem_cons, List.foldl_cons, descend_append h.1] at hplace
    rcases hplace with rfl | hplace
    · exact List.prefix_append here inner
    · exact ih h.2 hplace

end FileSystem

/-- The path leads away from a base that it is joined to. -/
def Path.Outward (leaf : Path) : Prop :=
  leaf.isAbsolute = true ∨ FileSystem.stays [] leaf.steps = false

instance (leaf : Path) : Decidable leaf.Outward :=
  inferInstanceAs (Decidable (leaf.isAbsolute = true ∨ FileSystem.stays [] leaf.steps = false))

namespace FileSystem

variable {fs : FileSystem} {base leaf : Path} {place : Place}

/-- What leads to a joined path leads to its base, or lies below it. -/
theorem mem_way_join (h : ¬ leaf.Outward) (hplace : place ∈ fs.way (Path.join base leaf)) :
    place ∈ fs.way base ∨ fs.placeOf base <+: place := by
  simp only [Path.Outward, not_or, Bool.not_eq_true, Bool.not_eq_false] at h
  rw [fs.way_join_steps base h.1, List.mem_append] at hplace
  refine hplace.imp_right fun hbelow => ?_
  apply prefix_of_stays h.2
  rw [List.append_nil]
  exact List.mem_append_left _ hbelow

/-- A joined path leads to a place below its base. -/
theorem prefix_placeOf_join (fs : FileSystem) (base : Path) (h : ¬ leaf.Outward) :
    fs.placeOf base <+: fs.placeOf (Path.join base leaf) := by
  simp only [Path.Outward, not_or, Bool.not_eq_true, Bool.not_eq_false] at h
  rw [fs.placeOf_join_steps base h.1]
  apply prefix_of_stays h.2
  rw [List.append_nil]
  exact List.mem_append_right _ (List.mem_singleton_self _)

end FileSystem

namespace Universe

open FileSystem

variable {fs fs' : FileSystem} {out : Path} {d : Defined} {ds : List Defined} {place : Place}

/-- An export of a class ends with the directories created, or with the file written as well. -/
theorem exportClass_snd (out : Path) (d : Defined) (fs : FileSystem) :
    (exportClass out d fs).2 = (fs.makeDirAll ((exportPath out d.loaded).parent.getD "")).2 ∨
      (fs.makeDirAll ((exportPath out d.loaded).parent.getD "")).2.writeFile
        (exportPath out d.loaded) d.bytes = .ok (exportClass out d fs).2 := by
  unfold exportClass
  generalize exportPath out d.loaded = path
  dsimp only
  generalize fs.makeDirAll (path.parent.getD "") = outcome
  obtain ⟨_ | _, made⟩ := outcome
  · exact Or.inl rfl
  · dsimp only
    cases hwrite : made.writeFile path d.bytes with
    | error e => exact Or.inl rfl
    | ok written => exact Or.inr rfl

/-- An export of a class puts its file at the place of its path, and creates the directories that
lead there. -/
theorem exportClass_confined (out : Path) (d : Defined) (fs : FileSystem) :
    Confined fs (exportClass out d fs).2 (· ∈ fs.way (exportPath out d.loaded))
      (· = fs.placeOf (exportPath out d.loaded)) := by
  have hmade : Confined fs (fs.makeDirAll ((exportPath out d.loaded).parent.getD "")).2
      (· ∈ fs.way (exportPath out d.loaded)) (· = fs.placeOf (exportPath out d.loaded)) :=
    (fs.makeDirAll_parent_grows _).confined
  rcases exportClass_snd out d fs with hend | hwrite
  · rw [hend]
    exact hmade
  · refine hmade.trans ((writeFile_confined hwrite _).mono (fun _ => Or.inl) ?_)
    intro place hplace
    rw [hplace, placeOf_congr hmade.cwd]

section

-- Lean must not try to compute which directories are created.
attribute [local irreducible] exportClass

theorem exportClasses_cons (out : Path) (d : Defined) (ds : List Defined) (fs : FileSystem) :
    exportClasses out (d :: ds) fs = match exportClass out d fs with
      | (.error e, fs) => (.error e, fs)
      | (.ok (), fs) => exportClasses out ds fs := rfl

end

/-- What the export of each class keeps, an export keeps. -/
theorem exportClasses_keeps {motive : FileSystem → Prop}
    (hclass : ∀ d fs, motive fs → motive (exportClass out d fs).2) (ds : List Defined)
    (h : motive fs) : motive (exportClasses out ds fs).2 := by
  induction ds generalizing fs with
  | nil => exact h
  | cons d ds ih =>
    have hnext := hclass d fs h
    rw [exportClasses_cons]
    generalize exportClass out d fs = outcome at hnext ⊢
    obtain ⟨_ | _, fs'⟩ := outcome
    · exact hnext
    · exact ih hnext

/-- **An export makes directories on the ways of the paths of its classes, and changes no places but
those of these paths**, also when it stops half-way. -/
theorem exportClasses_confined (out : Path) (ds : List Defined) (fs : FileSystem) :
    Confined fs (exportClasses out ds fs).2
      (fun place => ∃ d ∈ ds, place ∈ fs.way (exportPath out d.loaded))
      (fun place => ∃ d ∈ ds, place = fs.placeOf (exportPath out d.loaded)) := by
  induction ds generalizing fs with
  | nil => exact Confined.refl fs _ _
  | cons d ds ih =>
    have hclass : Confined fs (exportClass out d fs).2
        (fun place => ∃ c ∈ d :: ds, place ∈ fs.way (exportPath out c.loaded))
        (fun place => ∃ c ∈ d :: ds, place = fs.placeOf (exportPath out c.loaded)) :=
      (exportClass_confined out d fs).mono
        (fun place hplace => Or.inl ⟨d, List.mem_cons_self, hplace⟩)
        (fun place hplace => ⟨d, List.mem_cons_self, hplace⟩)
    rw [exportClasses_cons]
    generalize exportClass out d fs = outcome at hclass ⊢
    obtain ⟨result, fs'⟩ := outcome
    cases result with
    | error e => exact hclass
    | ok done =>
      refine hclass.trans ((ih fs').mono ?_ ?_)
      · rintro place ⟨c, hc, hplace⟩
        rw [way_congr hclass.cwd] at hplace
        exact Or.inl ⟨c, List.mem_cons_of_mem d hc, hplace⟩
      · rintro place ⟨c, hc, hplace⟩
        rw [placeOf_congr hclass.cwd] at hplace
        exact ⟨c, List.mem_cons_of_mem d hc, hplace⟩

theorem exportTo_snd (u : Universe) (out : Path) (fs : FileSystem) :
    (u.exportTo out fs).2 = (exportClasses out u.classes.toList fs).2 := by
  rw [exportTo]
  rcases exportClasses out u.classes.toList fs with ⟨_ | _, _⟩ <;> rfl

theorem exportTo_eq_ok {u : Universe} {n : Nat} (h : (u.exportTo out fs).1 = .ok n) :
    n = u.size ∧ (exportClasses out u.classes.toList fs).1 = .ok () := by
  rw [exportTo] at h
  rcases hclasses : exportClasses out u.classes.toList fs with ⟨_ | _, _⟩
  · simp [hclasses] at h
  · simp only [hclasses, Except.ok.injEq] at h
    exact ⟨h.symm, rfl⟩

/-- A class that is exported has its directories created and its file written. -/
theorem exportClass_eq_ok (h : exportClass out d fs = (.ok (), fs')) :
    ∃ made : FileSystem,
      fs.makeDirAll ((exportPath out d.loaded).parent.getD "") = (.ok (), made) ∧
        made.writeFile (exportPath out d.loaded) d.bytes = .ok fs' := by
  unfold exportClass at h
  generalize exportPath out d.loaded = path at h ⊢
  dsimp only at h
  rcases hdirs : fs.makeDirAll (path.parent.getD "") with ⟨_ | _, made⟩
  · simp [hdirs] at h
  · simp only [hdirs] at h
    cases hwrite : made.writeFile path d.bytes with
    | error e => simp [hwrite] at h
    | ok written =>
      simp only [hwrite, Prod.mk.injEq, true_and] at h
      exact ⟨made, rfl, h ▸ hwrite⟩

theorem cwd_of_exportClass (h : exportClass out d fs = (.ok (), fs')) : fs'.cwd = fs.cwd := by
  have hconfined := exportClass_confined out d fs
  rw [h] at hconfined
  exact hconfined.cwd

/-- A class that is exported has its bytes in its file. -/
theorem content_of_exportClass (h : exportClass out d fs = (.ok (), fs')) :
    fs'.node? (fs.placeOf (exportPath out d.loaded)) = some (.file d.bytes) := by
  obtain ⟨made, hdirs, hwrite⟩ := exportClass_eq_ok h
  have hgrows := fs.makeDirAll_parent_grows (exportPath out d.loaded)
  rw [hdirs] at hgrows
  rw [← placeOf_congr hgrows.cwd]
  exact node?_writeFile hwrite

/-- A file stays one when a class is exported, the same or another. -/
theorem file_of_exportClass (h : exportClass out d fs = (.ok (), fs')) {content : Bytes}
    (hfile : fs.node? place = some (.file content)) :
    ∃ content, fs'.node? place = some (.file content) := by
  by_cases hplace : place = fs.placeOf (exportPath out d.loaded)
  · rw [hplace]
    exact ⟨d.bytes, content_of_exportClass h⟩
  · have hconfined := exportClass_confined out d fs
    rw [h] at hconfined
    exact ⟨content, hconfined.eq_some hplace hfile⟩

/-- The classes are exported one after the other. -/
theorem exportClasses_cons_eq_ok (h : (exportClasses out (d :: ds) fs).1 = .ok ()) :
    ∃ made : FileSystem, exportClass out d fs = (.ok (), made) ∧
      (exportClasses out ds made).1 = .ok () ∧
      (exportClasses out (d :: ds) fs).2 = (exportClasses out ds made).2 := by
  rw [exportClasses_cons] at h ⊢
  rcases hclass : exportClass out d fs with ⟨_ | _, made⟩
  · simp [hclass] at h
  · simp only [hclass] at h
    exact ⟨made, rfl, h, rfl⟩

theorem file_of_exportClasses (h : (exportClasses out ds fs).1 = .ok ()) {content : Bytes}
    (hfile : fs.node? place = some (.file content)) :
    ∃ content, (exportClasses out ds fs).2.node? place = some (.file content) := by
  induction ds generalizing fs content with
  | nil => exact ⟨content, hfile⟩
  | cons d ds ih =>
    obtain ⟨made, hclass, hrest, hend⟩ := exportClasses_cons_eq_ok h
    obtain ⟨found, hfound⟩ := file_of_exportClass hclass hfile
    rw [hend]
    exact ih hrest hfound

/-- Every class has its file once all are exported. -/
theorem exported_of_exportClasses (h : (exportClasses out ds fs).1 = .ok ()) (hd : d ∈ ds) :
    ∃ content, (exportClasses out ds fs).2.node? (fs.placeOf (exportPath out d.loaded)) =
      some (.file content) := by
  induction ds generalizing fs with
  | nil => exact absurd hd List.not_mem_nil
  | cons first ds ih =>
    obtain ⟨made, hclass, hrest, hend⟩ := exportClasses_cons_eq_ok h
    have hcwd : made.cwd = fs.cwd := cwd_of_exportClass hclass
    rw [hend]
    rcases List.mem_cons.1 hd with rfl | hd
    · exact file_of_exportClasses hrest (content_of_exportClass hclass)
    · rw [← placeOf_congr hcwd]
      exact ih hrest hd

/-- When no two classes have the same file, each has the bytes of its class in the end. -/
theorem content_of_exportClasses (h : (exportClasses out ds fs).1 = .ok ())
    (hdistinct : ds.Pairwise fun d d' =>
      fs.placeOf (exportPath out d.loaded) ≠ fs.placeOf (exportPath out d'.loaded))
    (hd : d ∈ ds) :
    (exportClasses out ds fs).2.node? (fs.placeOf (exportPath out d.loaded)) =
      some (.file d.bytes) := by
  induction ds generalizing fs with
  | nil => exact absurd hd List.not_mem_nil
  | cons first ds ih =>
    obtain ⟨made, hclass, hrest, hend⟩ := exportClasses_cons_eq_ok h
    obtain ⟨hfirst, hdistinct⟩ := List.pairwise_cons.1 hdistinct
    have hcwd : made.cwd = fs.cwd := cwd_of_exportClass hclass
    rw [hend]
    rcases List.mem_cons.1 hd with rfl | hd
    · -- the file that has just been written is not that of a later class
      apply (exportClasses_confined out ds made).eq_some _ (content_of_exportClass hclass)
      rintro ⟨d', hd', hplace⟩
      rw [placeOf_congr hcwd] at hplace
      exact hfirst d' hd' hplace
    · rw [← placeOf_congr hcwd]
      apply ih hrest _ hd
      simpa only [placeOf_congr hcwd] using hdistinct

/-! ### The directories of an export -/

theorem dir_of_exportClass (out : Path) (d : Defined) (hdir : fs.node? place = some .dir) :
    (exportClass out d fs).2.node? place = some .dir := by
  have hmade := (fs.makeDirAll_parent_grows (exportPath out d.loaded)).dir hdir
  rcases exportClass_snd out d fs with hend | hwrite
  · rw [hend]
    exact hmade
  · -- a file is not written in place of a directory
    apply (writeFile_confined hwrite fun _ => False).eq_some _ hmade
    rintro rfl
    exact (writeFile_eq_ok_dir hwrite).2.2.2 hmade

theorem dir_of_exportClasses (out : Path) (ds : List Defined) (hdir : fs.node? place = some .dir) :
    (exportClasses out ds fs).2.node? place = some .dir :=
  exportClasses_keeps (motive := fun fs => fs.node? place = some .dir)
    (fun d _ => dir_of_exportClass out d) ds hdir

/-- The path of a class that has been exported leads through directories. -/
theorem passable_of_exportClasses (h : (exportClasses out ds fs).1 = .ok ()) (hd : d ∈ ds) :
    Path.Accepted (exportPath out d.loaded) ∧
      (exportClasses out ds fs).2.Passable (exportPath out d.loaded) := by
  induction ds generalizing fs with
  | nil => exact absurd hd List.not_mem_nil
  | cons first ds ih =>
    obtain ⟨made, hclass, hrest, hend⟩ := exportClasses_cons_eq_ok h
    rw [hend]
    rcases List.mem_cons.1 hd with rfl | hd
    · obtain ⟨dirs, -, hwrite⟩ := exportClass_eq_ok hclass
      obtain ⟨hacc, hpass, -, hnot⟩ := writeFile_eq_ok_dir hwrite
      have hwritten := writeFile_confined hwrite fun _ => False
      have hconfined := exportClasses_confined out ds made
      refine ⟨hacc, fun place hplace => dir_of_exportClasses out ds ?_⟩
      rw [way_congr hconfined.cwd, way_congr hwritten.cwd] at hplace
      apply hwritten.eq_some _ (hpass place hplace)
      rintro rfl
      exact hnot (hpass _ hplace)
    · exact ih hrest hd

theorem wellFormed_exportClass (out : Path) (d : Defined) (hwf : fs.WellFormed) :
    (exportClass out d fs).2.WellFormed := by
  have hmade := hwf.makeDirAll ((exportPath out d.loaded).parent.getD "")
  rcases exportClass_snd out d fs with hend | hwrite
  · rw [hend]
    exact hmade
  · exact hmade.writeFile hwrite

theorem wellFormed_exportClasses (out : Path) (ds : List Defined) (hwf : fs.WellFormed) :
    (exportClasses out ds fs).2.WellFormed :=
  exportClasses_keeps (motive := WellFormed) (fun d _ => wellFormed_exportClass out d) ds hwf

end Universe

namespace ClassPath

/-- The classes that a class path defines are of its roots, or made up. -/
theorem name_of_definition? {cp : ClassPath} {name : String} {found : LoaderId × Bytes}
    (h : cp.definition? name = some found) :
    name ∈ cp.names ∨ Text.startsWith name "java/" = true := by
  unfold definition? at h
  cases hstub : platformStub name with
  | some stub =>
    right
    unfold platformStub at hstub
    split at hstub
    · rename_i hroot
      rw [hroot]
      decide
    · split at hstub
      · assumption
      · cases hstub
  | none =>
    rw [hstub] at h
    obtain ⟨root, hroot, hname⟩ := mem_of_firstDefining h
    exact Or.inl (mem_names hroot hname)

end ClassPath

namespace ClassPathHost

open FileSystem Universe

variable {ρ : Type}

/-- The loaded classes whose files lie outside every output directory. -/
def outward (loaded : Universe) : List LoadedClass :=
  loaded.loadedClasses.filter fun c => Path.Outward (c.name ++ ".class")

/-- **What an export changes outside the output directory.**

Take any class path and anything that has been done to a host over it, any output directory and any
file system. Whether the export succeeds or stops half-way, a place that is not in the output
directory is as it was, or it is on the way there, where nothing was, and now a directory, or it
belongs to a class whose name is outward: it is the place of its file, or a directory that was
missing on the way to that. Such names are those of classes of the class path, and of classes that
are made up for what begins with `java/`. And an export that succeeds has written the files of all
loaded classes, also of those with outward names. -/
theorem export_of_history (path : ClassPath) (start : ρ) (history : List (Operation ρ))
    (out : Path) (fs : FileSystem) :
    let loaded := (Operation.after history (new path, start)).1.loaded
    let exported := loaded.exportTo out fs
    Confined fs exported.2
      (fun place => place ∈ fs.way out ∨ ∃ c ∈ outward loaded, place ∈ fs.way (exportPath out c))
      (fun place => fs.placeOf out <+: place ∨
        ∃ c ∈ outward loaded, place = fs.placeOf (exportPath out c)) ∧
      (∀ c ∈ outward loaded, c.name ∈ path.names ∨ Text.startsWith c.name "java/" = true) ∧
      ∀ n, exported.1 = .ok n → ∀ c ∈ loaded.loadedClasses,
        ∃ content, exported.2.node? (fs.placeOf (exportPath out c)) = some (.file content) := by
  intro loaded exported
  have hfiled := filed_after path start history
  refine ⟨?_, ?_, ?_⟩
  · have hcases : ∀ d ∈ loaded.classes.toList,
        d.loaded ∈ outward loaded ∨ ¬ Path.Outward (d.loaded.name ++ ".class") := by
      intro d hd
      by_cases houtward : Path.Outward (d.loaded.name ++ ".class")
      · exact Or.inl (List.mem_filter.2 ⟨List.mem_map_of_mem hd, decide_eq_true houtward⟩)
      · exact Or.inr houtward
    show Confined fs (loaded.exportTo out fs).2 _ _
    rw [exportTo_snd]
    refine (exportClasses_confined out loaded.classes.toList fs).mono ?_ ?_
    · rintro place ⟨d, hd, hplace⟩
      rcases hcases d hd with houtward | hinward
      · exact Or.inl (Or.inr ⟨d.loaded, houtward, hplace⟩)
      · exact (mem_way_join hinward hplace).imp Or.inl Or.inl
    · rintro place ⟨d, hd, rfl⟩
      rcases hcases d hd with houtward | hinward
      · exact Or.inr ⟨d.loaded, houtward, rfl⟩
      · exact Or.inl (fs.prefix_placeOf_join out hinward)
  · intro c hc
    obtain ⟨hc, -⟩ := List.mem_filter.1 hc
    obtain ⟨d, hd, rfl⟩ := List.mem_map.1 hc
    obtain ⟨i, hi⟩ := List.mem_iff_getElem?.1 hd
    obtain ⟨bytes, hplaced⟩ := hfiled.placed i d (by simpa using hi)
    exact ClassPath.name_of_definition? hplaced
  · intro n hn c hc
    obtain ⟨d, hd, rfl⟩ := List.mem_map.1 hc
    show ∃ content, (loaded.exportTo out fs).2.node? _ = _
    rw [exportTo_snd]
    exact exported_of_exportClasses (exportTo_eq_ok hn).2 hd

/-- An export writes over a file that is not in its output directory. The class comes from a file of
the class path whose name has backslashes, which count as slashes. -/
theorem not_export_inside :
    let files : FileSystem :=
      ⟨[(["cp"], .dir), (["cp", "..\\keep\\A.class"], .file [1]), (["keep"], .dir),
        (["keep", "A.class"], .file [0])], [], 1, 0⟩
    let path : ClassPath := ⟨[⟨"cp", .ofList [("../keep/A", [1])]⟩]⟩
    let loaded := (Operation.after [.loadAll fun _ => false]
      ((new path : ClassPathHost Unit), ())).1.loaded
    let exported := loaded.exportTo "out" files
    ClassPath.readDirectory files "cp" = .ok (.ofList [("../keep/A", [1])]) ∧
      exported.1 = .ok 1 ∧ ¬ files.placeOf "out" <+: ["keep", "A.class"] ∧
      files.node? ["keep", "A.class"] = some (.file [0]) ∧
      exported.2.node? ["keep", "A.class"] = some (.file [1]) := by
  decide +kernel

end ClassPathHost

end Reclass
