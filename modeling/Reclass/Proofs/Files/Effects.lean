import Reclass.Proofs.Files.Operations

/-!
# Where operations leave their traces

Whatever an operation does, and whether it succeeds or not, it changes nothing but what is at the
places that its paths name and, when it creates the directories that lead there, at places on the
way where nothing was (`FileSystem.Confined`). This needs no condition on the file system or on the
path: `FileSystem.makeDirAll_grows`, `FileSystem.writeAtomically_confined`,
`FileSystem.removeDirAll_confined`.

Creating directories and writing files takes no directory away, and no file but one that is written
over (`FileSystem.Supplements`).
-/

set_option autoImplicit false

namespace Reclass.FileSystem

variable {fs fs' fs'' : FileSystem} {p q base leaf : Path} {here place : Place} {content : Bytes}

/-! ### Changes that are confined to places -/

/-- The second file system differs from the first at most in places that are `touched`, and in
places to be `made`, where it has a directory and the first has nothing. -/
structure Confined (fs fs' : FileSystem) (made touched : Place → Prop) : Prop where
  cwd : fs'.cwd = fs.cwd
  node : ∀ place, fs'.node? place = fs.node? place ∨ touched place ∨
    made place ∧ fs.node? place = none ∧ fs'.node? place = some .dir

section Confined

variable {made made' touched touched' : Place → Prop}

theorem Confined.refl (fs : FileSystem) (made touched : Place → Prop) :
    Confined fs fs made touched :=
  ⟨rfl, fun _ => Or.inl rfl⟩

theorem Confined.mono (h : Confined fs fs' made touched)
    (hmade : ∀ place, made place → made' place ∨ touched' place)
    (htouched : ∀ place, touched place → touched' place) : Confined fs fs' made' touched' := by
  refine ⟨h.cwd, fun place => ?_⟩
  rcases h.node place with hsame | hplace | ⟨hplace, hnew⟩
  · exact Or.inl hsame
  · exact Or.inr (Or.inl (htouched place hplace))
  · rcases hmade place hplace with hplace | hplace
    · exact Or.inr (Or.inr ⟨hplace, hnew⟩)
    · exact Or.inr (Or.inl hplace)

theorem Confined.trans (h : Confined fs fs' made touched) (h' : Confined fs' fs'' made touched) :
    Confined fs fs'' made touched := by
  refine ⟨h'.cwd.trans h.cwd, fun place => ?_⟩
  rcases h'.node place with hsame | hplace | ⟨hplace, hnone, hdir⟩
  · rw [hsame]
    exact h.node place
  · exact Or.inr (Or.inl hplace)
  · rcases h.node place with hsame | hplace' | ⟨-, -, hdir'⟩
    · rw [hsame] at hnone
      exact Or.inr (Or.inr ⟨hplace, hnone, hdir⟩)
    · exact Or.inr (Or.inl hplace')
    · rw [hdir'] at hnone
      cases hnone

/-- What is anywhere stays there, but in the places that are touched. -/
theorem Confined.eq_some (h : Confined fs fs' made touched) {node : Node}
    (hplace : ¬ touched place) (hnode : fs.node? place = some node) :
    fs'.node? place = some node := by
  rcases h.node place with hsame | hin | ⟨-, hnone, -⟩
  · rw [hsame, hnode]
  · exact absurd hin hplace
  · rw [hnone] at hnode
    cases hnode

/-- Where nothing is touched the files are the same. -/
theorem Confined.file_iff (h : Confined fs fs' made touched) (hplace : ¬ touched place)
    (content : Bytes) :
    fs'.node? place = some (.file content) ↔ fs.node? place = some (.file content) := by
  rcases h.node place with hsame | hin | ⟨-, hnone, hdir⟩
  · rw [hsame]
  · exact absurd hin hplace
  · rw [hnone, hdir]
    exact iff_of_false nofun nofun

theorem Grows.confined {places : List Place} (h : Grows fs fs' places) :
    Confined fs fs' (· ∈ places) touched :=
  ⟨h.cwd, fun place => (h.node place).imp_right Or.inr⟩

theorem confined_put (fs : FileSystem) (hne : here ≠ []) (node : Node) (made : Place → Prop) :
    Confined fs (fs.put here node) made (· = here) := by
  refine ⟨rfl, fun place => ?_⟩
  rw [node?_put fs node hne]
  by_cases hp : place = here
  · exact Or.inr (Or.inl hp)
  · rw [if_neg hp]
    exact Or.inl rfl

theorem confined_erase (fs : FileSystem) (hne : here ≠ []) (made : Place → Prop) :
    Confined fs (fs.erase here) made (· = here) := by
  refine ⟨rfl, fun place => ?_⟩
  rw [node?_erase fs hne]
  by_cases hp : place = here
  · exact Or.inr (Or.inl hp)
  · rw [if_neg hp]
    exact Or.inl rfl

theorem confined_eraseBelow (fs : FileSystem) (here : Place) (made : Place → Prop) :
    Confined fs (fs.eraseBelow here) made (here <+: ·) := by
  refine ⟨rfl, fun place => ?_⟩
  rw [node?_eraseBelow]
  by_cases hp : place ≠ here ∧ here <+: place
  · exact Or.inr (Or.inl hp.2)
  · rw [if_neg hp]
    exact Or.inl rfl

end Confined

/-! ### Additions -/

/-- The second file system is the first one with directories in places where nothing was, and files
in places where no directory was. -/
structure Supplements (fs fs' : FileSystem) (dirs files : Place → Prop) : Prop where
  cwd : fs'.cwd = fs.cwd
  node : ∀ place, fs'.node? place = fs.node? place ∨
    dirs place ∧ fs.node? place = none ∧ fs'.node? place = some .dir ∨
    files place ∧ fs.node? place ≠ some .dir ∧ ∃ content, fs'.node? place = some (.file content)

section Supplements

variable {dirs dirs' files files' : Place → Prop}

theorem Supplements.refl (fs : FileSystem) (dirs files : Place → Prop) :
    Supplements fs fs dirs files :=
  ⟨rfl, fun _ => Or.inl rfl⟩

theorem Supplements.mono (h : Supplements fs fs' dirs files)
    (hdirs : ∀ place, dirs place → dirs' place) (hfiles : ∀ place, files place → files' place) :
    Supplements fs fs' dirs' files' :=
  ⟨h.cwd, fun place => (h.node place).imp_right
    (Or.imp (And.imp_left (hdirs place)) (And.imp_left (hfiles place)))⟩

theorem Supplements.trans (h : Supplements fs fs' dirs files)
    (h' : Supplements fs' fs'' dirs files) : Supplements fs fs'' dirs files := by
  refine ⟨h'.cwd.trans h.cwd, fun place => ?_⟩
  rcases h'.node place with hsame | ⟨hin, hnone, hdir⟩ | ⟨hin, hnot, hfile⟩
  · rw [hsame]
    exact h.node place
  · rcases h.node place with hsame | ⟨-, -, hthere⟩ | ⟨-, -, _, hthere⟩
    · rw [hsame] at hnone
      exact Or.inr (Or.inl ⟨hin, hnone, hdir⟩)
    · rw [hthere] at hnone
      cases hnone
    · rw [hthere] at hnone
      cases hnone
  · rcases h.node place with hsame | ⟨-, -, hthere⟩ | ⟨-, hnot', -⟩
    · rw [hsame] at hnot
      exact Or.inr (Or.inr ⟨hin, hnot, hfile⟩)
    · exact absurd hthere hnot
    · exact Or.inr (Or.inr ⟨hin, hnot', hfile⟩)

theorem Supplements.dir_iff (h : Supplements fs fs' dirs files)
    (hnew : ¬ (dirs place ∧ fs.node? place = none)) :
    fs'.node? place = some .dir ↔ fs.node? place = some .dir := by
  rcases h.node place with hsame | ⟨hin, hnone, -⟩ | ⟨-, hnot, _, hfile⟩
  · rw [hsame]
  · exact absurd ⟨hin, hnone⟩ hnew
  · rw [hfile]
    exact iff_of_false nofun hnot

theorem Supplements.file_iff (h : Supplements fs fs' dirs files)
    (hnew : ¬ (files place ∧ fs.node? place = none)) :
    (∃ content, fs'.node? place = some (.file content)) ↔
      ∃ content, fs.node? place = some (.file content) := by
  rcases h.node place with hsame | ⟨-, hnone, hdir⟩ | ⟨hin, hnot, hfile⟩
  · rw [hsame]
  · rw [hnone, hdir]
    exact iff_of_false nofun nofun
  · refine iff_of_true hfile ?_
    rcases hnode : fs.node? place with _ | (_ | content)
    · exact absurd ⟨hin, hnode⟩ hnew
    · exact absurd hnode hnot
    · exact ⟨content, rfl⟩

theorem Grows.supplements {places : List Place} (h : Grows fs fs' places) (files : Place → Prop) :
    Supplements fs fs' (· ∈ places) files :=
  ⟨h.cwd, fun place => (h.node place).imp_right Or.inl⟩

end Supplements

/-! ### What a path that gets through has passed -/

theorem step_eq_ok_dir {name : String} {next : Place} (h : fs.step here name = .ok next) :
    fs.node? here = some .dir ∧ name.utf8ByteSize ≤ maxName := by
  unfold step at h
  cases hnode : fs.node? here with
  | none =>
    simp only [hnode] at h
    cases h
  | some node =>
    cases node with
    | file content =>
      simp only [hnode] at h
      cases h
    | dir =>
      refine ⟨rfl, ?_⟩
      simp only [hnode] at h
      by_cases hself : name = "."
      · rw [hself]
        decide
      · by_cases hup : name = ".."
        · rw [hup]
          decide
        · rw [if_neg hself, if_neg hup, except_guard_eq_ok_iff] at h
          exact Nat.not_lt.1 h.1

theorem walk_eq_ok_dir {names : List String} {last : Place} (h : fs.walk here names = .ok last) :
    (∀ place ∈ wayFrom here names, fs.node? place = some .dir) ∧
      ∀ name ∈ names, name.utf8ByteSize ≤ maxName := by
  induction names generalizing here with
  | nil => exact ⟨fun place hplace => absurd hplace List.not_mem_nil,
      fun name hname => absurd hname List.not_mem_nil⟩
  | cons name names ih =>
    obtain ⟨next, hstep, hwalk⟩ := (except_bind_eq_ok_iff _ _ _).1 h
    obtain ⟨hdir, hshort⟩ := step_eq_ok_dir hstep
    obtain rfl := step_eq_ok hstep
    obtain ⟨hdirs, hshorts⟩ := ih hwalk
    rw [wayFrom, List.forall_mem_cons, List.forall_mem_cons]
    exact ⟨⟨hdir, hdirs⟩, hshort, hshorts⟩

/-- A path that gets to its last step has taken its steps from directories, and has a text that the
file system takes. -/
theorem approach_eq_ok_passable {pathEnd : PathEnd} (h : fs.approach p = .ok (here, pathEnd)) :
    p.Accepted ∧ fs.Passable p ∧ fs.node? here = some .dir := by
  obtain ⟨hnul, hshort, ⟨hsteps, -, rfl, -⟩ | ⟨before, last, hsteps, hwalk, hdir, hlast, -⟩⟩ :=
    approach_cases_of_ok h
  · refine ⟨⟨hnul, hshort, ?_⟩, ?_, node?_nil fs⟩
    · rw [hsteps]
      exact fun s hs => absurd hs List.not_mem_nil
    · rw [Passable, way, hsteps]
      exact fun place hplace => absurd hplace List.not_mem_nil
  · obtain ⟨hdirs, hshorts⟩ := walk_eq_ok_dir hwalk
    obtain rfl := walk_eq_ok hwalk
    refine ⟨⟨hnul, hshort, ?_⟩, ?_, hdir⟩
    · rw [hsteps, List.forall_mem_append, List.forall_mem_singleton]
      exact ⟨hshorts, hlast⟩
    · rw [Passable, fs.way_eq hsteps, List.forall_mem_append, List.forall_mem_singleton]
      exact ⟨hdirs, hdir⟩

/-- Whatever a path finds lies at its place. -/
theorem find_eq_ok_place {node : Node} (h : fs.find p = .ok (here, node)) :
    here = fs.placeOf p := by
  obtain ⟨⟨dir, pathEnd⟩, happroach, h⟩ := (except_bind_eq_ok_iff _ _ _).1 h
  obtain ⟨-, -, ⟨hsteps, habsolute, rfl, rfl⟩ | ⟨before, last, hsteps, hwalk, -, -, hlast⟩⟩ :=
    approach_cases_of_ok happroach
  · cases h
    rw [fs.placeOf_of_no_steps hsteps, origin, if_pos habsolute]
  · rw [fs.placeOf_eq hsteps, ← walk_eq_ok hwalk, descend]
    rw [lastStep] at hlast
    by_cases hself : last = "."
    · rw [if_pos hself] at hlast ⊢
      subst hlast
      cases h
      rfl
    · by_cases hup : last = ".."
      · rw [if_neg hself, if_pos hup] at hlast ⊢
        subst hlast
        cases h
        rfl
      · rw [if_neg hself, if_neg hup] at hlast ⊢
        subst hlast
        cases hnode : fs.node? (dir ++ [last]) with
        | none =>
          simp only [hnode] at h
          cases h
        | some found =>
          simp only [hnode] at h
          cases found with
          | dir =>
            cases h
            rfl
          | file content =>
            obtain ⟨-, h⟩ := except_guard_eq_ok_iff.1 h
            cases h
            rfl

/-! ### Directories that are created -/

/-- A directory is created where nothing is, in a directory. -/
theorem makeDir_eq_ok (h : fs.makeDir p = .ok fs') :
    fs.placeOf p ≠ [] ∧ fs.node? (fs.placeOf p) = none ∧
      fs.node? (fs.placeOf p).dropLast = some .dir ∧ fs' = fs.put (fs.placeOf p) .dir := by
  obtain ⟨⟨here, pathEnd⟩, happroach, h⟩ := (except_bind_eq_ok_iff _ _ _).1 h
  cases pathEnd with
  | root => cases h
  | self => cases h
  | up => cases h
  | name n slash =>
    obtain ⟨-, -, hdir⟩ := approach_eq_ok_passable happroach
    rw [approach_eq_ok happroach, List.dropLast_concat]
    cases hnode : fs.node? (here ++ [n]) with
    | some node =>
      simp only [hnode] at h
      cases h
    | none =>
      simp only [hnode] at h
      cases h
      exact ⟨List.concat_ne_nil n here, rfl, hdir, rfl⟩

theorem makeDir_grows (h : fs.makeDir p = .ok fs') : Grows fs fs' [fs.placeOf p] := by
  obtain ⟨hne, hnone, -, rfl⟩ := makeDir_eq_ok h
  exact grows_put_dir hne hnone

theorem WellFormed.makeDir (hwf : fs.WellFormed) (h : fs.makeDir p = .ok fs') :
    fs'.WellFormed := by
  obtain ⟨hne, hnone, hdir, rfl⟩ := makeDir_eq_ok h
  refine hwf.put hne hdir ?_ .dir
  rw [hnone]
  exact nofun

/-- The trail of the parent lies on the way of the path. -/
theorem mem_way_of_trail_parent (h : p.parent = some q) (hplace : place ∈ fs.trail q) :
    place ∈ fs.way p := by
  obtain ⟨between, last, after, hsteps, -, -, -, habsolute, -⟩ := Path.parent_eq_some h
  have horigin : fs.origin p = fs.origin q := by
    rw [origin, origin, habsolute]
  obtain ⟨next, rest, hrest⟩ := List.exists_cons_of_ne_nil
    (List.append_ne_nil_of_right_ne_nil between (List.cons_ne_nil last after))
  rw [way, horigin, hsteps, hrest, wayFrom_append, wayFrom]
  rw [trail, List.mem_append, List.mem_singleton] at hplace
  rcases hplace with hplace | rfl
  · exact List.mem_append_left _ hplace
  · exact List.mem_append_right _ List.mem_cons_self

theorem mem_trail_of_ancestor {limit : Nat} (h : q ∈ ancestors limit p)
    (hplace : place ∈ fs.trail q) : place ∈ fs.trail p := by
  induction limit generalizing p with
  | zero => exact absurd h List.not_mem_nil
  | succ limit ih =>
    rw [ancestors] at h
    by_cases hempty : p = ""
    · rw [if_pos hempty] at h
      exact absurd h List.not_mem_nil
    · rw [if_neg hempty] at h
      cases hparent : p.parent with
      | none =>
        rw [hparent] at h
        exact absurd h List.not_mem_nil
      | some outer =>
        rw [hparent] at h
        rcases List.mem_cons.1 h with rfl | h
        · exact hplace
        · exact List.mem_append_left _ (mem_way_of_trail_parent hparent (ih h))

/-- **Creating a directory with all that lead to it** adds directories on the trail of the path and
does nothing else, also when it fails half-way. -/
theorem makeDirAll_grows (fs : FileSystem) (p : Path) :
    Grows fs (fs.makeDirAll p).2 (fs.trail p) := by
  refine makeDirAll_keeps (motive := fun made => Grows fs made (fs.trail p)) ?_ (Grows.refl fs _)
  intro q hq before after h hmake
  refine h.trans ((makeDir_grows hmake).mono fun place hplace => ?_)
  rw [List.mem_singleton, placeOf_congr h.cwd] at hplace
  refine mem_trail_of_ancestor hq ?_
  rw [hplace]
  exact List.mem_append_right _ (List.mem_singleton_self _)

/-- Nothing has to be created for a path without a parent. -/
theorem makeDirAll_empty (fs : FileSystem) : fs.makeDirAll "" = (.ok (), fs) := rfl

/-- Creating what leads to a path adds directories on its way and does nothing else. -/
theorem makeDirAll_parent_grows (fs : FileSystem) (p : Path) :
    Grows fs (fs.makeDirAll (p.parent.getD "")).2 (fs.way p) := by
  cases hparent : p.parent with
  | none =>
    rw [Option.getD_none, makeDirAll_empty]
    exact Grows.refl fs _
  | some q =>
    rw [Option.getD_some]
    exact (fs.makeDirAll_grows q).mono fun _ => mem_way_of_trail_parent hparent

theorem WellFormed.makeDirAll (hwf : fs.WellFormed) (p : Path) :
    (fs.makeDirAll p).2.WellFormed :=
  makeDirAll_keeps (fun _ _ _ _ h hmake => h.makeDir hmake) hwf

/-! ### Files that are put into place -/

/-- A file is written into a directory that the path leads to, and in place of no directory. -/
theorem writeFile_eq_ok_dir (h : fs.writeFile p content = .ok fs') :
    p.Accepted ∧ fs.Passable p ∧ fs.node? (fs.placeOf p).dropLast = some .dir ∧
      fs.node? (fs.placeOf p) ≠ some .dir := by
  obtain ⟨⟨here, pathEnd⟩, happroach, h⟩ := (except_bind_eq_ok_iff _ _ _).1 h
  obtain ⟨hacc, hpass, hdir⟩ := approach_eq_ok_passable happroach
  cases pathEnd with
  | root => cases h
  | self => cases h
  | up => cases h
  | name n slash =>
    rw [approach_eq_ok happroach, List.dropLast_concat]
    refine ⟨hacc, hpass, hdir, ?_⟩
    intro hthere
    cases slash with
    | true => cases h
    | false =>
      simp only [Bool.false_eq_true, if_false, hthere] at h
      cases h

theorem WellFormed.writeFile (hwf : fs.WellFormed) (h : fs.writeFile p content = .ok fs') :
    fs'.WellFormed := by
  obtain ⟨-, -, hdir, hnot⟩ := writeFile_eq_ok_dir h
  obtain ⟨hne, rfl⟩ := writeFile_eq_ok h
  exact hwf.put hne hdir hnot _

variable {made : Place → Prop}

theorem writeFile_confined (h : fs.writeFile p content = .ok fs') (made : Place → Prop) :
    Confined fs fs' made (· = fs.placeOf p) := by
  obtain ⟨hne, rfl⟩ := writeFile_eq_ok h
  exact confined_put fs hne _ made

theorem writeFile_supplements (h : fs.writeFile p content = .ok fs') (dirs : Place → Prop) :
    Supplements fs fs' dirs (· = fs.placeOf p) := by
  obtain ⟨-, -, -, hnot⟩ := writeFile_eq_ok_dir h
  obtain ⟨hne, rfl⟩ := writeFile_eq_ok h
  refine ⟨rfl, fun place => ?_⟩
  rw [node?_put fs _ hne]
  by_cases hplace : place = fs.placeOf p
  · rw [if_pos hplace]
    exact Or.inr (Or.inr ⟨hplace, hplace ▸ hnot, content, rfl⟩)
  · rw [if_neg hplace]
    exact Or.inl rfl

/-- No file lies at the root. -/
theorem ne_nil_of_file (h : fs.node? here = some (.file content)) : here ≠ [] := by
  rintro rfl
  rw [node?_nil] at h
  cases h

theorem removeFile_confined (h : fs.removeFile p = .ok fs') (made : Place → Prop) :
    Confined fs fs' made (· = fs.placeOf p) := by
  obtain ⟨⟨here, node⟩, hfind, h⟩ := (except_bind_eq_ok_iff _ _ _).1 h
  cases node with
  | dir => cases h
  | file content =>
    cases h
    obtain ⟨rfl, hnode⟩ := find_eq_ok hfind
    exact confined_erase fs (ne_nil_of_file hnode) made

/-- A file is renamed to a path that leads through directories, in place of no directory. -/
theorem renameFile_eq_ok {old new : Path} (h : fs.renameFile old new = .ok fs') :
    ∃ content, fs.node? (fs.placeOf old) = some (.file content) ∧ new.Accepted ∧ fs.Passable new ∧
      fs.placeOf new ≠ [] ∧ fs.node? (fs.placeOf new) ≠ some .dir ∧
      (fs' = fs ∧ fs.placeOf old = fs.placeOf new ∨
        fs' = (fs.erase (fs.placeOf old)).put (fs.placeOf new) (.file content)) := by
  obtain ⟨⟨source, node⟩, hfind, h⟩ := (except_bind_eq_ok_iff _ _ _).1 h
  cases node with
  | dir => cases h
  | file content =>
    obtain ⟨rfl, hnode⟩ := find_eq_ok hfind
    obtain ⟨⟨here, pathEnd⟩, happroach, h⟩ := (except_bind_eq_ok_iff _ _ _).1 h
    obtain ⟨hacc, hpass, -⟩ := approach_eq_ok_passable happroach
    cases pathEnd with
    | root => cases h
    | self => cases h
    | up => cases h
    | name n slash =>
      rw [approach_eq_ok happroach]
      cases slash with
      | true => cases h
      | false =>
        simp only [Bool.false_eq_true, if_false] at h
        refine ⟨content, hnode, hacc, hpass, List.concat_ne_nil n here, ?_, ?_⟩
        · intro hthere
          simp only [hthere] at h
          cases h
        · split at h
          · cases h
          · split at h
            · rename_i hsame
              exact Or.inl ⟨(Except.ok.inj h).symm, hsame⟩
            · exact Or.inr (Except.ok.inj h).symm

/-- A file that is renamed leaves its old place for the new one. -/
theorem renameFile_confined {old new : Path} (h : fs.renameFile old new = .ok fs')
    (made : Place → Prop) :
    Confined fs fs' made fun place => place = fs.placeOf old ∨ place = fs.placeOf new := by
  obtain ⟨content, hold, -, -, hne, -, ⟨rfl, -⟩ | rfl⟩ := renameFile_eq_ok h
  · exact Confined.refl fs' made _
  · apply Confined.trans
    · exact (confined_erase fs (ne_nil_of_file hold) made).mono (fun _ => Or.inl) fun _ => Or.inl
    · exact (confined_put _ hne _ made).mono (fun _ => Or.inl) fun _ => Or.inr

/-- **Putting a file into place in one go** changes nothing but the file and the temporary one. -/
theorem writeAtomically_confined (fs : FileSystem) (path : Path) (content : Bytes)
    (made : Place → Prop) :
    Confined fs (fs.writeAtomically path content).2 made fun place =>
      place = fs.placeOf path ∨ place = fs.placeOf (fs.tempBeside path).1 := by
  have hcounted : Confined fs (fs.tempBeside path).2 made fun place =>
      place = fs.placeOf path ∨ place = fs.placeOf (fs.tempBeside path).1 :=
    ⟨rfl, fun _ => Or.inl rfl⟩
  rw [writeAtomically]
  generalize fs.tempBeside path = named at hcounted ⊢
  obtain ⟨temp, counted⟩ := named
  dsimp only at hcounted ⊢
  cases hwrite : counted.writeFile temp content with
  | error e => exact hcounted
  | ok written =>
    have hwritten := hcounted.trans <| (writeFile_confined hwrite made).mono (fun _ => Or.inl)
      fun place hp => Or.inr (hp.trans (placeOf_congr hcounted.cwd temp))
    dsimp only
    cases hrename : written.renameFile temp path with
    | ok renamed =>
      refine hwritten.trans ((renameFile_confined hrename made).mono (fun _ => Or.inl) ?_)
      rintro place (hp | hp)
      · exact Or.inr (hp.trans (placeOf_congr hwritten.cwd temp))
      · exact Or.inl (hp.trans (placeOf_congr hwritten.cwd path))
    | error e =>
      dsimp only
      cases hremove : written.removeFile temp with
      | ok cleaned =>
        refine hwritten.trans ((removeFile_confined hremove made).mono (fun _ => Or.inl) ?_)
        intro place hp
        exact Or.inr (hp.trans (placeOf_congr hwritten.cwd temp))
      | error e' => exact hwritten

/-- A file is renamed into a directory. -/
theorem renameFile_eq_ok_dir {old new : Path} (h : fs.renameFile old new = .ok fs') :
    fs.node? (fs.placeOf new).dropLast = some .dir := by
  obtain ⟨⟨source, node⟩, -, h⟩ := (except_bind_eq_ok_iff _ _ _).1 h
  cases node with
  | dir => cases h
  | file content =>
    obtain ⟨⟨here, pathEnd⟩, happroach, h⟩ := (except_bind_eq_ok_iff _ _ _).1 h
    obtain ⟨-, -, hdir⟩ := approach_eq_ok_passable happroach
    cases pathEnd with
    | root => cases h
    | self => cases h
    | up => cases h
    | name n slash =>
      rw [approach_eq_ok happroach, List.dropLast_concat]
      exact hdir

theorem WellFormed.renameFile {old new : Path} (hwf : fs.WellFormed) (h : fs.renameFile old new = .ok fs') :
    fs'.WellFormed := by
  have houter := renameFile_eq_ok_dir h
  obtain ⟨content, hold, -, -, hne, hnot, ⟨rfl, -⟩ | rfl⟩ := renameFile_eq_ok h
  · exact hwf
  · -- what is renamed is a file, so it is neither the directory nor in its place
    have hgone : ∀ place, fs.node? place = some .dir →
        (fs.erase (fs.placeOf old)).node? place = some .dir := by
      intro place hdir
      rw [node?_erase fs (ne_nil_of_file hold), if_neg, hdir]
      rintro rfl
      cases hold.symm.trans hdir
    refine (hwf.erase_file hold).put hne (hgone _ houter) ?_ _
    rw [node?_erase fs (ne_nil_of_file hold)]
    by_cases hsame : fs.placeOf new = fs.placeOf old
    · rw [if_pos hsame]
      exact nofun
    · rw [if_neg hsame]
      exact hnot

theorem WellFormed.removeFile (hwf : fs.WellFormed) (h : fs.removeFile p = .ok fs') :
    fs'.WellFormed := by
  obtain ⟨⟨here, node⟩, hfind, h⟩ := (except_bind_eq_ok_iff _ _ _).1 h
  cases node with
  | dir => cases h
  | file content =>
    cases h
    exact hwf.erase_file (find_eq_ok hfind).2

theorem WellFormed.writeAtomically (hwf : fs.WellFormed) (path : Path) (content : Bytes) :
    (fs.writeAtomically path content).2.WellFormed := by
  have hcounted : (fs.tempBeside path).2.WellFormed := ⟨hwf.nodup, hwf.parent, hwf.cwd⟩
  rw [FileSystem.writeAtomically]
  generalize fs.tempBeside path = named at hcounted ⊢
  obtain ⟨temp, counted⟩ := named
  dsimp only at hcounted ⊢
  cases hwrite : counted.writeFile temp content with
  | error e => exact hcounted
  | ok aside =>
    have haside := hcounted.writeFile hwrite
    dsimp only
    cases hrename : aside.renameFile temp path with
    | ok renamed => exact haside.renameFile hrename
    | error e =>
      dsimp only
      cases hremove : aside.removeFile temp with
      | ok cleaned => exact haside.removeFile hremove
      | error e' => exact haside

/-! ### Directories that are removed -/

/-- **Removing a directory with all it holds** changes nothing but what is at its place and
below. -/
theorem removeDirAll_confined (fs : FileSystem) (p : Path) (made : Place → Prop) :
    Confined fs (fs.removeDirAll p).2 made (fs.placeOf p <+: ·) := by
  rw [removeDirAll]
  cases hfind : fs.find p with
  | error e => exact Confined.refl fs made _
  | ok found =>
    obtain ⟨here, node⟩ := found
    cases node with
    | file content => exact Confined.refl fs made _
    | dir =>
      obtain rfl := find_eq_ok_place hfind
      have hemptied := confined_eraseBelow fs (fs.placeOf p) made
      dsimp only
      cases hremove : (fs.eraseBelow (fs.placeOf p)).removeDir p with
      | ok removed =>
        obtain ⟨hne, rfl⟩ := removeDir_eq_ok hremove
        refine hemptied.trans ((confined_erase _ hne made).mono (fun _ => Or.inl) ?_)
        intro place hp
        have hsame : place = fs.placeOf p := hp.trans (placeOf_congr hemptied.cwd p)
        exact hsame ▸ List.prefix_refl place
      | error e =>
        -- what is left of the directory is empty
        cases e <;> exact hemptied

end Reclass.FileSystem
