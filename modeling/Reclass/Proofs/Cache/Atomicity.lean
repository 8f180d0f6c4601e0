import Reclass.Proofs.Cache.Retention

/-!
# Storing is atomic

A file is put into place as a whole or not at all: when no file has the temporary name, a failure
at any point, of the write, of the renaming or of what comes before, leaves everything that was
there as it was, and a success changes nothing but the file itself
(`FileSystem.writeAtomically_confined_of_fresh`). The point that carries this is that a temporary
file which has been written can be removed again (`FileSystem.removeFile_of_writeFile`), since the
directories that led to it still do. So a store makes directories on the way to its version and does
nothing else, or puts its result into place (`TransformCache.store_confined_of_fresh`), and what has
been stored before is loaded as before when it fails (`TransformCache.store_atomic`).
-/

set_option autoImplicit false

namespace Reclass

namespace FileSystem

variable {fs fs' : FileSystem} {p : Path} {content : Bytes}

/-! ### Taking a file away again -/

/-- What a path gets to depends on the directories that it leads through and on nothing else. -/
theorem approach_of_passable_again {here : Place} {name : String} {slash : Bool}
    (h : fs.approach p = .ok (here, .name name slash)) (hcwd : fs'.cwd = fs.cwd)
    (hpass : fs'.Passable p) : fs'.approach p = .ok (here, .name name slash) := by
  obtain ⟨hacc, -, -⟩ := approach_eq_ok_passable h
  obtain ⟨-, -, ⟨-, -, -, hroot⟩ | ⟨before, last, hsteps, hwalk, -, -, hlast⟩⟩ :=
    approach_cases_of_ok h
  · cases hroot
  · rw [approach_of_passable hacc hpass hsteps, hlast, walk_eq_ok hwalk, origin, origin, hcwd]

theorem writeFile_eq_ok_approach (h : fs.writeFile p content = .ok fs') :
    ∃ here name, fs.approach p = .ok (here, .name name false) := by
  obtain ⟨⟨here, pathEnd⟩, happroach, h⟩ := (except_bind_eq_ok_iff _ _ _).1 h
  cases pathEnd with
  | root => cases h
  | self => cases h
  | up => cases h
  | name name slash =>
    cases slash with
    | true => cases h
    | false => exact ⟨here, name, happroach⟩

/-- **A file that has been written can be removed**: its path leads to it still. -/
theorem removeFile_of_writeFile (h : fs.writeFile p content = .ok fs') :
    fs'.removeFile p = .ok (fs'.erase (fs.placeOf p)) := by
  have hspares := writeFile_spares h
  obtain ⟨-, hpass, -, -⟩ := writeFile_eq_ok_dir h
  obtain ⟨here, name, happroach⟩ := writeFile_eq_ok_approach h
  have hplace : fs.placeOf p = here ++ [name] := approach_eq_ok happroach
  have hfile : fs'.node? (here ++ [name]) = some (.file content) := by
    rw [← hplace]
    exact node?_writeFile h
  have hagain := approach_of_passable_again happroach hspares.cwd (hspares.passable hpass)
  rw [removeFile, find, hagain, hplace]
  simp only [bind, Except.bind, hfile]
  rfl

/-! ### Putting a file into place -/

/-- **A file is put into place as a whole or not at all**: when no file has the temporary name,
nothing changes but the file, and that only when all went well. -/
theorem writeAtomically_confined_of_fresh (path : Path) (content : Bytes)
    (hfresh : ∀ found, fs.node? (fs.placeOf (fs.tempBeside path).1) ≠ some (.file found))
    (made : Place → Prop) :
    Confined fs (fs.writeAtomically path content).2 made fun place =>
      (fs.writeAtomically path content).1 = .ok () ∧ place = fs.placeOf path := by
  have hcwd : (fs.tempBeside path).2.cwd = fs.cwd := rfl
  have hsame : ∀ place, (fs.tempBeside path).2.node? place = fs.node? place := fun _ => rfl
  rw [writeAtomically]
  generalize fs.tempBeside path = named at hfresh hcwd hsame ⊢
  obtain ⟨temp, counted⟩ := named
  dsimp only at hfresh hcwd hsame ⊢
  rw [← placeOf_congr hcwd] at hfresh ⊢
  have hstart : ∀ touched, Confined fs counted made touched := fun _ =>
    ⟨hcwd, fun place => Or.inl (hsame place)⟩
  cases hwrite : counted.writeFile temp content with
  | error e => exact hstart _
  | ok aside =>
    obtain ⟨-, -, -, hnotDir⟩ := writeFile_eq_ok_dir hwrite
    obtain ⟨hne, rfl⟩ := writeFile_eq_ok hwrite
    -- nothing at all has the temporary name, since writing has gone well
    have hnone : counted.node? (counted.placeOf temp) = none := by
      cases hnode : counted.node? (counted.placeOf temp) with
      | none => rfl
      | some node =>
        cases node with
        | dir => exact absurd hnode hnotDir
        | file found => exact absurd ((hsame _).symm.trans hnode) (hfresh found)
    have hgone : ∀ touched, Confined fs
        ((counted.put (counted.placeOf temp) (.file content)).erase (counted.placeOf temp))
        made touched := fun _ =>
      ⟨hcwd, fun place => Or.inl ((node?_erase_put counted hne hnone _).trans (hsame place))⟩
    dsimp only
    cases hrename :
      (counted.put (counted.placeOf temp) (.file content)).renameFile temp path with
    | error e =>
      dsimp only
      rw [removeFile_of_writeFile hwrite]
      exact hgone _
    | ok renamed =>
      dsimp only
      obtain ⟨found, -, -, -, hnewNe, -, ⟨rfl, hplaces⟩ | rfl⟩ := renameFile_eq_ok hrename
      · refine (hstart _).trans ((confined_put counted hne _ made).mono (fun _ => Or.inl) ?_)
        exact fun place hplace => ⟨rfl, hplace.trans hplaces⟩
      · refine (hgone _).trans ((confined_put _ hnewNe _ made).mono (fun _ => Or.inl) ?_)
        exact fun place hplace => ⟨rfl, hplace⟩

end FileSystem

namespace TransformCache

variable {c : TransformCache} {k : CacheKey} {output : Bytes} {fs : FileSystem}

/-- **A store changes nothing but its result, and that only when it succeeds**; besides, it makes
the directories that lead to its version. -/
theorem store_confined_of_fresh (output : Bytes)
    (hfresh : ∀ content,
      fs.node? (fs.placeOf (fs.tempBeside (c.entryPath k)).1) ≠ some (.file content)) :
    FileSystem.Confined fs (c.store k output fs).2 (· ∈ fs.trail c.versionDir) fun place =>
      (c.store k output fs).1 = .ok (c.entryPath k) ∧ place = fs.placeOf (c.entryPath k) := by
  have hgrows := fs.makeDirAll_grows c.versionDir
  unfold store
  generalize fs.makeDirAll c.versionDir = made at hgrows ⊢
  obtain ⟨result, made⟩ := made
  dsimp only at hgrows
  cases result with
  | error e => exact hgrows.confined
  | ok _ =>
    -- the temporary name is the one that it would have been at first
    have hfresh' : ∀ content, made.node? (made.placeOf (made.tempBeside (c.entryPath k)).1) ≠
        some (.file content) := by
      rw [FileSystem.tempBeside_fst, hgrows.process, hgrows.tempCount,
        FileSystem.placeOf_congr hgrows.cwd]
      rw [FileSystem.tempBeside_fst] at hfresh
      exact hgrows.not_file hfresh
    have hput := FileSystem.writeAtomically_confined_of_fresh (c.entryPath k) output hfresh'
      (· ∈ fs.trail c.versionDir)
    rw [FileSystem.placeOf_congr hgrows.cwd] at hput
    dsimp only
    generalize made.writeAtomically (c.entryPath k) output = written at hput ⊢
    obtain ⟨result, written⟩ := written
    cases result with
    | error e =>
      refine hgrows.confined.trans (hput.mono (fun _ => Or.inl) ?_)
      rintro place ⟨⟨⟩, -⟩
    | ok _ =>
      refine hgrows.confined.trans (hput.mono (fun _ => Or.inl) ?_)
      exact fun place hplace => ⟨rfl, hplace.2⟩

theorem store_eq_ok_path {path : Path} (h : (c.store k output fs).1 = .ok path) :
    path = c.entryPath k := by
  unfold store at h
  generalize fs.makeDirAll c.versionDir = made at h
  obtain ⟨result, made⟩ := made
  cases result with
  | error e => cases h
  | ok _ =>
    dsimp only at h
    generalize made.writeAtomically (c.entryPath k) output = written at h
    obtain ⟨result, written⟩ := written
    cases result with
    | error e => cases h
    | ok _ => exact (Except.ok.inj h).symm

/-- **Storing is atomic.**

Let no file have the temporary name that the store is going to use; whatever else is there, files
and directories in the way among them, does not matter, and the root and the version may be any
paths. If the store succeeds, it yields the path of the result, loading gives back exactly the bytes
stored, and every other file is as it was. If it fails, at whatever point, no file has been created,
changed or removed, so a result that was stored before is loaded as before. In both cases no
temporary file is left and no directory is removed. -/
theorem store_atomic (c : TransformCache) (className : String) (input output : Bytes)
    (fs : FileSystem) (hfresh : ∀ content, fs.node? (fs.placeOf
      (fs.tempBeside (c.entryPath (.ofInput className input))).1) ≠ some (.file content)) :
    let k := CacheKey.ofInput className input
    let fs' := (c.store k output fs).2
    (match (c.store k output fs).1 with
      | .ok path => path = c.entryPath k ∧ c.load k fs' = .ok (some output) ∧
          ∀ place content, place ≠ fs.placeOf (c.entryPath k) →
            (fs'.node? place = some (.file content) ↔ fs.node? place = some (.file content))
      | .error _ =>
          (∀ place content,
            fs'.node? place = some (.file content) ↔ fs.node? place = some (.file content)) ∧
          ∀ earlier, c.load k fs = .ok (some earlier) → c.load k fs' = .ok (some earlier)) ∧
    (∀ content, fs'.node? (fs.placeOf (fs.tempBeside (c.entryPath k)).1) ≠ some (.file content)) ∧
    ∀ place, fs.node? place = some .dir → fs'.node? place = some .dir := by
  intro k
  obtain ⟨r, hr⟩ : ∃ r : TransformRequest, r.key = k := ⟨⟨.bootstrap, className, none, input⟩, rfl⟩
  have hconfined := c.store_confined_of_fresh (k := k) output hfresh
  replace hfresh : ∀ content,
      fs.node? (fs.placeOf (fs.tempBeside (c.entryPath k)).1) ≠ some (.file content) := hfresh
  clear_value k
  subst hr
  intro fs'
  have hspares := c.store_spares r output fs
  refine ⟨?_, fun content => ?_, hspares.dir⟩
  · cases hstore : (c.store r.key output fs).1 with
    | ok path =>
      have hlies : c.Lies r output fs' := lies_of_store hstore
      refine ⟨?_, load_eq_ok_iff.2 hlies, fun place content hplace => ?_⟩
      · exact store_eq_ok_path hstore
      · exact hconfined.file_iff (fun h => hplace h.2) content
    | error e =>
      -- a store that fails touches no place at all
      have hall : ∀ place content,
          fs'.node? place = some (.file content) ↔ fs.node? place = some (.file content) := by
        intro place content
        refine hconfined.file_iff ?_ content
        rw [hstore]
        exact fun h => nomatch h.1
      refine ⟨hall, fun earlier hload => ?_⟩
      have hlies : c.Lies r earlier fs := load_eq_ok_iff.1 hload
      refine load_eq_ok_iff.2 ⟨hlies.accepted, hspares.passable hlies.passable, ?_⟩
      rw [FileSystem.placeOf_congr hspares.cwd, hall]
      exact hlies.file
  · have hapart : ¬ ((c.store r.key output fs).1 = .ok (c.entryPath r.key) ∧
        fs.placeOf (fs.tempBeside (c.entryPath r.key)).1 = fs.placeOf (c.entryPath r.key)) :=
      fun h => c.apart_temp fs fs r r h.2.symm
    rw [Ne, hconfined.file_iff hapart]
    exact hfresh content

/-- A directory that has taken the place of the result stops the store after the temporary file has
been written. -/
theorem store_atomic_directoryInTheWay :
    let c : TransformCache := ⟨"cache", "1"⟩
    let k := CacheKey.ofInput "a/A" []
    let fs : FileSystem :=
      ⟨[(["cache"], .dir), (["cache", "1"], .dir), (["cache", "1", k.fileName], .dir),
        (["cache", "1", "other"], .file [7])], [], 1, 0⟩
    (c.store k [8] fs).1 = .error ⟨.rename, c.entryPath k, .isDirectory⟩ ∧
      ∀ place content, (c.store k [8] fs).2.node? place = some (.file content) ↔
        fs.node? place = some (.file content) := by
  intro c k fs
  have hfresh : fs.node? (fs.placeOf (fs.tempBeside (c.entryPath k)).1) = none := by
    decide +kernel
  have hfails : (c.store k [8] fs).1 = .error ⟨.rename, c.entryPath k, .isDirectory⟩ := by
    decide +kernel
  have hatomic := (c.store_atomic "a/A" [] [8] fs fun content h => by
    rw [hfresh] at h
    cases h).1
  rw [hfails] at hatomic
  exact ⟨hfails, hatomic.1⟩

end TransformCache

end Reclass
