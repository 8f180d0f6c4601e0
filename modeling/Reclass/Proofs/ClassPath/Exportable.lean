import Reclass.Proofs.ClassPath.Export
import Reclass.Proofs.Files.Elsewhere

/-!
# When classes can be exported

An export succeeds just when the file system takes the paths of its classes, none of them leads
through a file or to a directory, and none leads through the file of another class
(`Universe.exportClasses_eq_ok_iff`). So of what has been added to a file system, directories where
nothing was and files where no directory was, just two things keep an export from succeeding that
would succeed without, or the other way round: a new file on the way of a class, and a new directory
in the place of one (`Universe.exportable_iff`). How an export fails can also depend on other places
that its paths lead through, but on no place besides (`Universe.exportTo_congr`).
-/

set_option autoImplicit false

namespace Reclass

namespace Universe

open FileSystem

variable {fs fs' : FileSystem} {out : Path} {c : LoadedClass} {d : Defined} {ds : List Defined}

/-! ### Where the path of a class ends -/

/-- The path of a class ends in a name. -/
theorem exportPath_ends (out : Path) (c : LoadedClass) :
    ∃ before last, (exportPath out c).steps = before ++ [last] ∧ 6 ≤ last.length ∧
      (exportPath out c).toList.getLast? = some 's' := by
  obtain ⟨xs, hxs⟩ := Path.suffix_join out (c.name ++ ".class")
  rw [String.toList_append, ← List.append_assoc] at hxs
  obtain ⟨before, stem, hsteps⟩ :=
    Path.steps_of_suffix (p := exportPath out c) hxs.symm (by decide) (by decide)
  refine ⟨before, _, hsteps, ?_, ?_⟩
  · rw [String.length_ofList, List.length_append]
    exact Nat.le_add_left 6 stem.length
  · rw [exportPath, ← hxs, List.getLast?_append]
    rfl

theorem lastStep_exportPath {before : List String} {last : String} (out : Path) (c : LoadedClass)
    (hsteps : (exportPath out c).steps = before ++ [last]) :
    last ≠ "." ∧ last ≠ ".." ∧ lastStep (exportPath out c) last = .name last false := by
  obtain ⟨before', last', hsteps', hlength, hend⟩ := exportPath_ends out c
  obtain rfl : last = last' := (List.append_singleton_inj.1 (hsteps.symm.trans hsteps')).2
  have hself : last ≠ "." := by
    rintro rfl
    exact absurd hlength (by decide)
  have hup : last ≠ ".." := by
    rintro rfl
    exact absurd hlength (by decide)
  refine ⟨hself, hup, ?_⟩
  rw [lastStep, if_neg hself, if_neg hup, hend]
  rfl

theorem tidy_exportPath (out : Path) (c : LoadedClass) : (exportPath out c).Tidy := by
  intro hdot
  obtain ⟨before, last, hsteps, -⟩ := exportPath_ends out c
  rw [hsteps, List.getLast?_concat, Option.some.injEq] at hdot
  exact absurd hdot (lastStep_exportPath out c hsteps).1

theorem exists_parent_exportPath (out : Path) (c : LoadedClass) :
    ∃ dir, (exportPath out c).parent = some dir := by
  obtain ⟨before, last, hsteps, -⟩ := exportPath_ends out c
  cases hparent : (exportPath out c).parent with
  | some dir => exact ⟨dir, rfl⟩
  | none =>
    rcases Path.parent_eq_none hparent with hnil | ⟨-, hdots⟩
    · rw [hsteps] at hnil
      exact absurd hnil (List.concat_ne_nil last before)
    · rw [hsteps] at hdots
      exact absurd (hdots last (List.mem_append_right _ (List.mem_singleton_self _)))
        (lastStep_exportPath out c hsteps).1

/-! ### What an export needs -/

/-- The file system takes the paths of the classes, none leads through a file or to a directory, and
none leads through the place of another. -/
structure Exportable (out : Path) (ds : List Defined) (fs : FileSystem) : Prop where
  accepted : ∀ d ∈ ds, (exportPath out d.loaded).Accepted
  unblocked : ∀ d ∈ ds, fs.Unblocked (exportPath out d.loaded)
  notDir : ∀ d ∈ ds, fs.node? (fs.placeOf (exportPath out d.loaded)) ≠ some .dir
  aside : ∀ d ∈ ds, ∀ d' ∈ ds,
    fs.placeOf (exportPath out d.loaded) ∉ fs.way (exportPath out d'.loaded)

/-- A class can be written to its path when that leads through directories, and to none. -/
theorem writeFile_exportPath (hacc : (exportPath out c).Accepted)
    (hpass : fs.Passable (exportPath out c))
    (hnot : fs.node? (fs.placeOf (exportPath out c)) ≠ some .dir) (bytes : Bytes) :
    ∃ fs' : FileSystem, fs.writeFile (exportPath out c) bytes = .ok fs' := by
  obtain ⟨before, last, hsteps, -⟩ := exportPath_ends out c
  obtain ⟨hself, hup, hname⟩ := lastStep_exportPath out c hsteps
  rw [fs.placeOf_eq hsteps, descend, if_neg hself, if_neg hup] at hnot
  rw [writeFile, approach_of_passable hacc hpass hsteps, hname]
  simp only [bind, Except.bind, Bool.false_eq_true, if_false]
  rcases hnode : fs.node? (before.foldl descend (fs.origin (exportPath out c)) ++ [last]) with
    _ | (_ | content)
  · exact ⟨_, rfl⟩
  · exact absurd hnode hnot
  · exact ⟨_, rfl⟩

theorem exportClass_eq {made : FileSystem}
    (hdirs : fs.makeDirAll ((exportPath out d.loaded).parent.getD "") = (.ok (), made))
    (hwrite : made.writeFile (exportPath out d.loaded) d.bytes = .ok fs') :
    exportClass out d fs = (.ok (), fs') := by
  unfold exportClass
  generalize exportPath out d.loaded = path at hdirs hwrite ⊢
  dsimp only
  rw [hdirs]
  dsimp only
  rw [hwrite]

/-- Classes stay exportable while no new file comes on their ways and no new directory to their
places. -/
theorem Exportable.transfer (h : Exportable out ds fs) (hcwd : fs'.cwd = fs.cwd)
    (hfile : ∀ d ∈ ds, ∀ place ∈ fs.way (exportPath out d.loaded),
      (∃ content, fs'.node? place = some (.file content)) →
        ∃ content, fs.node? place = some (.file content))
    (hdir : ∀ d ∈ ds, fs'.node? (fs.placeOf (exportPath out d.loaded)) = some .dir →
      fs.node? (fs.placeOf (exportPath out d.loaded)) = some .dir) : Exportable out ds fs' where
  accepted := h.accepted
  unblocked d hd place hplace content hcontent := by
    rw [way_congr hcwd] at hplace
    obtain ⟨content', hcontent'⟩ := hfile d hd place hplace ⟨content, hcontent⟩
    exact h.unblocked d hd place hplace content' hcontent'
  notDir d hd hnode := by
    rw [placeOf_congr hcwd] at hnode
    exact h.notDir d hd (hdir d hd hnode)
  aside d hd d' hd' := by
    rw [placeOf_congr hcwd, way_congr hcwd]
    exact h.aside d hd d' hd'

theorem exportClass_of_exportable (hwf : fs.WellFormed) (h : Exportable out ds fs) (hd : d ∈ ds) :
    ∃ made : FileSystem, exportClass out d fs = (.ok (), made) := by
  have hacc := h.accepted d hd
  obtain ⟨dir, hparent⟩ := exists_parent_exportPath out d.loaded
  obtain ⟨-, -, -, -, -, -, -, -, htidy⟩ := Path.parent_eq_some hparent
  -- nothing is in the way of the directories that lead to the class
  obtain ⟨opened, hmake, -, hgrows, hopens⟩ := makeDirAll_ok hwf (hacc.parent hparent) htidy
    fun place hplace => h.unblocked d hd place (mem_way_of_trail_parent hparent hplace)
  have hnot : opened.node? (opened.placeOf (exportPath out d.loaded)) ≠ some .dir := by
    rw [placeOf_congr hgrows.cwd]
    rcases hgrows.node (fs.placeOf (exportPath out d.loaded)) with hsame | ⟨hin, -⟩
    · rw [hsame]
      exact h.notDir d hd
    · exact absurd (mem_way_of_trail_parent hparent hin) (h.aside d hd d hd)
  obtain ⟨made, hwrite⟩ := writeFile_exportPath hacc
    (hopens.of_parent (tidy_exportPath out d.loaded) hparent) hnot d.bytes
  have hdirs : fs.makeDirAll ((exportPath out d.loaded).parent.getD "") = (.ok (), opened) := by
    rw [hparent, Option.getD_some, hmake]
  exact ⟨made, exportClass_eq hdirs hwrite⟩

/-- Exporting a class takes nothing away that other classes need. -/
theorem Exportable.after (h : Exportable out ds fs) (hd : d ∈ ds) {made : FileSystem}
    (hclass : exportClass out d fs = (.ok (), made)) : Exportable out ds made := by
  have hconfined := exportClass_confined out d fs
  rw [hclass] at hconfined
  refine h.transfer hconfined.cwd ?_ ?_
  · rintro d' hd' place hplace ⟨content, hfile⟩
    rcases hconfined.node place with hsame | rfl | ⟨-, -, hdir⟩
    · exact ⟨content, hsame ▸ hfile⟩
    · exact absurd hplace (h.aside d hd d' hd')
    · cases hdir.symm.trans hfile
  · intro d' hd' hdir
    rcases hconfined.node (fs.placeOf (exportPath out d'.loaded)) with hsame | hplace | ⟨hin, -⟩
    · exact hsame ▸ hdir
    · rw [hplace, content_of_exportClass hclass] at hdir
      cases hdir
    · exact absurd hin (h.aside d' hd' d hd)

theorem exportClasses_of_exportable (hwf : fs.WellFormed) (h : Exportable out ds fs) :
    (exportClasses out ds fs).1 = .ok () := by
  -- the classes that have been exported still count, for no later one may lead through them
  suffices ∀ rest, (∀ d ∈ rest, d ∈ ds) → (exportClasses out rest fs).1 = .ok () from
    this ds fun _ => id
  intro rest hrest
  induction rest generalizing fs with
  | nil => rfl
  | cons d rest ih =>
    rw [List.forall_mem_cons] at hrest
    obtain ⟨made, hclass⟩ := exportClass_of_exportable hwf h hrest.1
    have hwf' := wellFormed_exportClass out d hwf
    rw [hclass] at hwf'
    rw [exportClasses_cons, hclass]
    exact ih hwf' (h.after hrest.1 hclass) hrest.2

theorem exportable_of_exportClasses (h : (exportClasses out ds fs).1 = .ok ()) :
    Exportable out ds fs := by
  have hcwd := (exportClasses_confined out ds fs).cwd
  have hpass : ∀ d ∈ ds, ∀ place ∈ fs.way (exportPath out d.loaded),
      (exportClasses out ds fs).2.node? place = some .dir := by
    intro d hd place hplace
    rw [← way_congr hcwd] at hplace
    exact (passable_of_exportClasses h hd).2 place hplace
  refine ⟨fun d hd => (passable_of_exportClasses h hd).1, ?_, ?_, ?_⟩
  · intro d hd place hplace content hfile
    obtain ⟨content', hfile'⟩ := file_of_exportClasses h hfile
    cases hfile'.symm.trans (hpass d hd place hplace)
  · intro d hd hdir
    obtain ⟨content, hfile⟩ := exported_of_exportClasses h hd
    cases hfile.symm.trans (dir_of_exportClasses out ds hdir)
  · intro d hd d' hd' hplace
    obtain ⟨content, hfile⟩ := exported_of_exportClasses h hd
    cases hfile.symm.trans (hpass d' hd' _ hplace)

/-- **When an export succeeds.** -/
theorem exportClasses_eq_ok_iff (hwf : fs.WellFormed) :
    (exportClasses out ds fs).1 = .ok () ↔ Exportable out ds fs :=
  ⟨exportable_of_exportClasses, exportClasses_of_exportable hwf⟩

/-! ### What has been added beforehand -/

section Added

variable {dirs files : Place → Prop}

/-- What is added to a file system is in the way of classes: a file in a place where nothing was and
that the path of a class leads through, or a directory in one that it leads to. -/
def InTheWay (out : Path) (ds : List Defined) (fs : FileSystem) (dirs files : Place → Prop) : Prop :=
  ∃ d ∈ ds, (∃ place ∈ fs.way (exportPath out d.loaded), files place ∧ fs.node? place = none) ∨
    dirs (fs.placeOf (exportPath out d.loaded)) ∧
      fs.node? (fs.placeOf (exportPath out d.loaded)) = none

/-- What is added to a file system shows on the paths of classes: they lead through one of its places,
or to one. -/
def Shows (out : Path) (ds : List Defined) (fs : FileSystem) (dirs files : Place → Prop) : Prop :=
  ∃ d ∈ ds, ∃ place ∈ fs.trail (exportPath out d.loaded),
    dirs place ∧ fs.node? place = none ∨ files place ∧ fs.node? place ≠ some .dir

/-- **What is not in the way makes no difference to whether an export succeeds.** -/
theorem exportable_iff (h : Supplements fs fs' dirs files) (hway : ¬ InTheWay out ds fs dirs files) :
    Exportable out ds fs' ↔ Exportable out ds fs := by
  have hfile : ∀ d ∈ ds, ∀ place ∈ fs.way (exportPath out d.loaded),
      ((∃ content, fs'.node? place = some (.file content)) ↔
        ∃ content, fs.node? place = some (.file content)) :=
    fun d hd place hplace => h.file_iff fun hnew => hway ⟨d, hd, Or.inl ⟨place, hplace, hnew⟩⟩
  have hdir : ∀ d ∈ ds, fs'.node? (fs.placeOf (exportPath out d.loaded)) = some .dir ↔
      fs.node? (fs.placeOf (exportPath out d.loaded)) = some .dir :=
    fun d hd => h.dir_iff fun hnew => hway ⟨d, hd, Or.inr hnew⟩
  constructor
  · intro hexport
    refine hexport.transfer h.cwd.symm (fun d hd place hplace => ?_) fun d hd => ?_
    · rw [way_congr h.cwd] at hplace
      exact (hfile d hd place hplace).2
    · rw [placeOf_congr h.cwd]
      exact (hdir d hd).2
  · intro hexport
    exact hexport.transfer h.cwd (fun d hd place hplace => (hfile d hd place hplace).1)
      fun d hd => (hdir d hd).1

/-- When an export succeeds on one file system and not on another, and both add to the same one, then
what is added is in the way. -/
theorem inTheWay_of_exportTo {start : FileSystem} {u : Universe} {n : Nat} {cause : ExportError}
    (hwf' : fs'.WellFormed) (h : Supplements start fs dirs files)
    (h' : Supplements start fs' dirs files) (hok : (u.exportTo out fs).1 = .ok n)
    (hfail : (u.exportTo out fs').1 = .error cause) :
    InTheWay out u.classes.toList start dirs files := by
  by_contra hway
  have hexportable := exportable_of_exportClasses (exportTo_eq_ok hok).2
  rw [exportable_iff h hway, ← exportable_iff h' hway] at hexportable
  rw [exportTo] at hfail
  have hclasses := (exportClasses_eq_ok_iff hwf').2 hexportable
  generalize exportClasses out u.classes.toList fs' = ended at hfail hclasses
  obtain ⟨result, made⟩ := ended
  obtain rfl : result = .ok () := hclasses
  cases hfail

end Added

/-! ### What an export looks at -/

section Congr

variable {seen : Place → Prop}

theorem exportClass_congr (h : SameOn seen fs fs')
    (hseen : ∀ place ∈ fs.trail (exportPath out d.loaded), seen place) :
    (exportClass out d fs').1 = (exportClass out d fs).1 ∧
      SameOn seen (exportClass out d fs).2 (exportClass out d fs').2 := by
  obtain ⟨dir, hparent⟩ := exists_parent_exportPath out d.loaded
  have hmake := h.makeDirAll (p := dir) fun place hplace =>
    hseen place (List.mem_append_left _ (mem_way_of_trail_parent hparent hplace))
  have hgrows := fs.makeDirAll_grows dir
  unfold exportClass
  generalize exportPath out d.loaded = path at hparent hseen ⊢
  dsimp only
  rw [hparent, Option.getD_some]
  generalize fs.makeDirAll dir = made, fs'.makeDirAll dir = made' at hmake hgrows ⊢
  obtain ⟨result, made⟩ := made
  obtain ⟨result', made'⟩ := made'
  obtain ⟨rfl, hmade⟩ : result' = result ∧ SameOn seen made made' := hmake
  cases result' with
  | error e => exact ⟨rfl, hmade⟩
  | ok done =>
    have hwrite := hmade.writeFile (p := path) (fun place hplace => by
      rw [trail_congr hgrows.cwd] at hplace
      exact hseen place hplace) d.bytes
    dsimp only
    generalize made.writeFile path d.bytes = written, made'.writeFile path d.bytes = written'
      at hwrite ⊢
    cases hwrite with
    | ok hwritten => exact ⟨rfl, hwritten⟩
    | error e => exact ⟨rfl, hmade⟩

/-- How an export ends depends on the places that the paths of its classes lead through, and that
they lead to. -/
theorem exportClasses_congr (h : SameOn seen fs fs')
    (hseen : ∀ d ∈ ds, ∀ place ∈ fs.trail (exportPath out d.loaded), seen place) :
    (exportClasses out ds fs').1 = (exportClasses out ds fs).1 := by
  induction ds generalizing fs fs' with
  | nil => rfl
  | cons d ds ih =>
    rw [List.forall_mem_cons] at hseen
    have hclass := exportClass_congr h hseen.1
    have hcwd := (exportClass_confined out d fs).cwd
    rw [exportClasses_cons, exportClasses_cons]
    generalize exportClass out d fs = end₁, exportClass out d fs' = end₂ at hclass hcwd ⊢
    obtain ⟨result, made⟩ := end₁
    obtain ⟨result', made'⟩ := end₂
    obtain ⟨rfl, hmade⟩ : result' = result ∧ SameOn seen made made' := hclass
    cases result' with
    | error e => rfl
    | ok done =>
      refine ih hmade fun d' hd' place hplace => hseen.2 d' hd' place ?_
      rwa [trail_congr hcwd] at hplace

/-- **What does not show makes no difference to how an export ends.** -/
theorem exportTo_congr {dirs files : Place → Prop} {u : Universe}
    (h : Supplements fs fs' dirs files) (hshows : ¬ Shows out u.classes.toList fs dirs files) :
    (u.exportTo out fs').1 = (u.exportTo out fs).1 := by
  have hsame : SameOn (fun place => ∃ d ∈ u.classes.toList,
      place ∈ fs.trail (exportPath out d.loaded)) fs fs' := by
    refine ⟨h.cwd, ?_⟩
    rintro place ⟨d, hd, hplace⟩
    rcases h.node place with hsame | ⟨hin, hnone, -⟩ | ⟨hin, hnot, -⟩
    · exact hsame
    · exact absurd ⟨d, hd, place, hplace, Or.inl ⟨hin, hnone⟩⟩ hshows
    · exact absurd ⟨d, hd, place, hplace, Or.inr ⟨hin, hnot⟩⟩ hshows
  have hclasses := exportClasses_congr hsame fun d hd place hplace => ⟨d, hd, hplace⟩
  rw [exportTo, exportTo]
  generalize exportClasses out u.classes.toList fs = ended,
    exportClasses out u.classes.toList fs' = ended' at hclasses ⊢
  obtain ⟨result, made⟩ := ended
  obtain ⟨result', made'⟩ := ended'
  obtain rfl : result' = result := hclasses
  cases result' with
  | error e => rfl
  | ok done => rfl

end Congr

end Universe

end Reclass
