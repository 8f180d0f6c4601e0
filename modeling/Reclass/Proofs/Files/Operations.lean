import Reclass.Proofs.Files.Ways

/-!
# Operations that succeed

What creating, replacing and removing does is told by what is at places afterwards. A directory can
be created with all that lead to it unless a file is in their places (`FileSystem.makeDirAll_ok`), a
file can be put into place in one go and leaves no temporary one (`FileSystem.writeAtomically_ok`),
and nothing stays below a directory that is removed (`FileSystem.removeDirAll_cleared`).
-/

set_option autoImplicit false

namespace Reclass.FileSystem

variable {fs fs' opened : FileSystem} {p base leaf : Path} {here place : Place} {content : Bytes}

/-! ### Creating directories -/

/-- The path leads through directories to a directory. -/
structure Opens (fs : FileSystem) (p : Path) : Prop where
  passable : fs.Passable p
  dir : fs.node? (fs.placeOf p) = some .dir

/-- The places that a path leads through, with its own. -/
def trail (fs : FileSystem) (p : Path) : List Place := fs.way p ++ [fs.placeOf p]

theorem trail_congr (h : fs'.cwd = fs.cwd) (p : Path) : fs'.trail p = fs.trail p := by
  rw [trail, trail, way_congr h, placeOf_congr h]

/-- The second file system has everything that the first has, and directories in some of the places
where the first has nothing. -/
structure Grows (fs fs' : FileSystem) (places : List Place) : Prop where
  cwd : fs'.cwd = fs.cwd
  process : fs'.process = fs.process
  tempCount : fs'.tempCount = fs.tempCount
  node : ∀ place, fs'.node? place = fs.node? place ∨
    place ∈ places ∧ fs.node? place = none ∧ fs'.node? place = some .dir

section Grows

variable {fs'' : FileSystem} {places places' : List Place}

theorem Grows.refl (fs : FileSystem) (places : List Place) : Grows fs fs places :=
  ⟨rfl, rfl, rfl, fun _ => Or.inl rfl⟩

theorem Grows.mono (h : Grows fs fs' places) (hsub : ∀ place ∈ places, place ∈ places') :
    Grows fs fs' places' :=
  ⟨h.cwd, h.process, h.tempCount, fun place => (h.node place).imp_right fun hnew =>
    ⟨hsub place hnew.1, hnew.2⟩⟩

theorem Grows.dir (h : Grows fs fs' places) (hdir : fs.node? place = some .dir) :
    fs'.node? place = some .dir := by
  rcases h.node place with hsame | ⟨-, -, hnew⟩
  · rw [hsame, hdir]
  · exact hnew

theorem Grows.trans (h : Grows fs fs' places) (h' : Grows fs' fs'' places) :
    Grows fs fs'' places where
  cwd := h'.cwd.trans h.cwd
  process := h'.process.trans h.process
  tempCount := h'.tempCount.trans h.tempCount
  node place := by
    rcases h'.node place with hsame | ⟨hmem, hnone, hnew⟩
    · rw [hsame]
      exact h.node place
    · rcases h.node place with hsame' | ⟨-, -, hnew'⟩
      · rw [hsame'] at hnone
        exact Or.inr ⟨hmem, hnone, hnew⟩
      · rw [hnew'] at hnone
        cases hnone

theorem Grows.not_file (h : Grows fs fs' places)
    (hfile : ∀ content, fs.node? place ≠ some (.file content)) (content : Bytes) :
    fs'.node? place ≠ some (.file content) := by
  rcases h.node place with hsame | ⟨-, -, hnew⟩
  · rw [hsame]
    exact hfile content
  · rw [hnew]
    exact nofun

end Grows

theorem grows_put_dir (hroot : here ≠ []) (hnone : fs.node? here = none) :
    Grows fs (fs.put here .dir) [here] := by
  refine ⟨rfl, rfl, rfl, fun place => ?_⟩
  rw [node?_put fs _ hroot]
  by_cases hp : place = here
  · rw [if_pos hp, hp]
    exact Or.inr ⟨List.mem_singleton_self _, hnone, rfl⟩
  · rw [if_neg hp]
    exact Or.inl rfl

/-- Creates the first directory of a list that can be created, and then those that have been passed
over on the way to it. -/
def createFrom (fs : FileSystem) (ps passed : List Path) : Except OsError Unit × FileSystem :=
  match fs.climb ps passed with
  | .error e => (.error e, fs)
  | .ok (passed, fs) => fs.makeDirs passed

theorem createFrom_cons (fs : FileSystem) (p : Path) (ps passed : List Path) :
    fs.createFrom (p :: ps) passed = match fs.makeDir p with
      | .ok made => made.makeDirs passed
      | .error e =>
        if e = .notFound then fs.createFrom ps (p :: passed)
        else if e = .exists ∧ fs.isDir p then fs.makeDirs passed
        else (.error e, fs) := by
  rw [createFrom, climb]
  cases fs.makeDir p with
  | ok made => rfl
  | error e =>
    by_cases hmissing : e = .notFound
    · subst hmissing
      rfl
    · dsimp only
      rw [if_neg hmissing]
      by_cases hthere : e = .exists ∧ fs.isDir p = true
      · simp only [if_pos hthere]
      · simp only [if_neg hthere]

/-- The second file system is what the first becomes when the directory is created, or the first
one, where the directory is. -/
def Makes (fs opened : FileSystem) (p : Path) : Prop :=
  fs.makeDir p = .ok opened ∨ opened = fs ∧ fs.makeDir p = .error .exists ∧ fs.isDir p = true

theorem Makes.makeDirs (h : fs.Makes opened p) (inner : List Path) :
    fs.makeDirs (p :: inner) = opened.makeDirs inner := by
  rw [FileSystem.makeDirs]
  rcases h with hmake | ⟨rfl, hmake, hisDir⟩
  · rw [hmake]
  · rw [hmake]
    exact if_pos ⟨rfl, hisDir⟩

theorem Makes.createFrom (h : fs.Makes opened p) (outer passed : List Path) :
    fs.createFrom (p :: outer) passed = opened.makeDirs passed := by
  rw [createFrom_cons]
  rcases h with hmake | ⟨rfl, hmake, hisDir⟩
  · rw [hmake]
  · rw [hmake]
    simp [hisDir]

/-- From a directory a directory is created, or is there. -/
theorem makeDir_of_passable (hwf : fs.WellFormed) (hacc : p.Accepted) (h : fs.Passable p)
    (hne : p.steps ≠ []) (hfile : ∀ content, fs.node? (fs.placeOf p) ≠ some (.file content)) :
    ∃ opened : FileSystem, opened.WellFormed ∧ Grows fs opened [fs.placeOf p] ∧ opened.Opens p ∧
      fs.Makes opened p := by
  -- a directory that is there is in the way of a new one, and fine
  have hthere : fs.node? (fs.placeOf p) = some .dir → fs.makeDir p = .error .exists →
      ∃ opened : FileSystem, opened.WellFormed ∧ Grows fs opened [fs.placeOf p] ∧
        opened.Opens p ∧ fs.Makes opened p := by
    intro hdir hmake
    refine ⟨fs, hwf, Grows.refl fs _, ⟨h, hdir⟩, Or.inr ⟨rfl, hmake, ?_⟩⟩
    rw [isDir, find_dir hacc h hne hdir]
  obtain ⟨here, hdir, hend⟩ := approach_cases hacc h hne
  rcases hend with ⟨happroach, hplace⟩ | ⟨happroach, hplace⟩ | ⟨name, slash, happroach, hplace⟩
  · refine hthere (hplace ▸ hdir) ?_
    rw [makeDir, happroach]
    rfl
  · refine hthere (hplace ▸ hwf.parent_dir hdir) ?_
    rw [makeDir, happroach]
    rfl
  · cases hnode : fs.node? (fs.placeOf p) with
    | some node =>
      have hmake : fs.makeDir p = .error .exists := by
        rw [makeDir, happroach]
        simp only [bind, Except.bind, ← hplace, hnode]
        rfl
      cases node with
      | file content => exact absurd hnode (hfile content)
      | dir => exact hthere hnode hmake
    | none =>
      have hmake : fs.makeDir p = .ok (fs.put (fs.placeOf p) .dir) := by
        rw [makeDir, happroach]
        simp only [bind, Except.bind, ← hplace, hnode]
        rfl
      have hroot : fs.placeOf p ≠ [] := by
        rw [hplace]
        exact List.concat_ne_nil name here
      have hput : (fs.put (fs.placeOf p) .dir).WellFormed := by
        rw [hplace] at hnode ⊢
        exact hwf.put_in hdir (hnode ▸ (Option.some_ne_none _).symm) .dir
      have hgrows := grows_put_dir hroot hnode
      refine ⟨fs.put (fs.placeOf p) .dir, hput, hgrows, ⟨fun place hin => ?_, ?_⟩, Or.inl hmake⟩
      · exact hgrows.dir (h place hin)
      · show (fs.put (fs.placeOf p) .dir).node? (fs.placeOf p) = some .dir
        rw [node?_put fs _ hroot, if_pos rfl]

/-- A path in whose way there is no file creates a directory, or misses something before it. -/
theorem makeDir_of_unblocked (hwf : fs.WellFormed) (hacc : p.Accepted) (h : fs.Unblocked p)
    (hne : p.steps ≠ []) : fs.makeDir p = .error .notFound ∨ fs.Passable p := by
  refine (approach_of_unblocked hwf hacc h hne).imp_left fun happroach => ?_
  rw [makeDir, happroach]
  rfl

/-! #### The way through the parents -/

theorem mem_wayFrom_dots {dots : List String} (hdots : ∀ s ∈ dots, s = ".") (last : String) :
    place ∈ wayFrom here (dots ++ [last]) ↔ place = here := by
  induction dots with
  | nil => exact List.mem_singleton
  | cons dot dots ih =>
    obtain ⟨rfl, hrest⟩ := List.forall_mem_cons.1 hdots
    rw [List.cons_append, wayFrom, List.mem_cons]
    show place = here ∨ place ∈ wayFrom here (dots ++ [last]) ↔ place = here
    rw [ih hrest, or_self]

theorem foldl_dots {dots : List String} (hdots : ∀ s ∈ dots, s = ".") (here : Place) :
    dots.foldl descend here = here := by
  induction dots with
  | nil => rfl
  | cons dot dots ih =>
    obtain ⟨rfl, hrest⟩ := List.forall_mem_cons.1 hdots
    exact ih hrest

/-- A tidy path takes its steps from where its parent leads. -/
theorem mem_way_iff (fs : FileSystem) {q : Path} (hp : p.Tidy) (hq : p.parent = some q) :
    place ∈ fs.way p ↔ place ∈ fs.trail q := by
  obtain ⟨-, -, -, -, -, -, -, habsolute, -⟩ := Path.parent_eq_some hq
  obtain ⟨between, last, hsteps, hdots⟩ := hp.parent hq
  have horigin : fs.origin p = fs.origin q := by
    rw [origin, origin, habsolute]
  rw [way, horigin, hsteps, wayFrom_append, List.mem_append, mem_wayFrom_dots hdots, trail,
    List.mem_append, List.mem_singleton]
  rfl

/-- Where there is no parent there is nothing to create. -/
theorem opens_of_parent_none (hwf : fs.WellFormed) (h : p = "" ∨ p.parent = none) :
    fs.Opens p := by
  have hsteps : p.steps = [] ∨ p.isAbsolute = true ∧ ∀ s ∈ p.steps, s = "." := by
    rcases h with rfl | h
    · exact Or.inl rfl
    · exact Path.parent_eq_none h
  rcases hsteps with hsteps | ⟨habsolute, hdots⟩
  · constructor
    · rw [Passable, way, hsteps]
      exact fun place hplace => absurd hplace List.not_mem_nil
    · rw [fs.placeOf_of_no_steps hsteps, hwf.origin_dir]
  · have horigin : fs.origin p = [] := if_pos habsolute
    constructor
    · intro place hplace
      rw [way, horigin] at hplace
      rcases List.eq_nil_or_concat p.steps with hsteps | ⟨dots, last, hsteps⟩
      · rw [hsteps] at hplace
        exact absurd hplace List.not_mem_nil
      · rw [hsteps, List.concat_eq_append] at hplace hdots
        rw [mem_wayFrom_dots fun s hs => hdots s (List.mem_append_left _ hs)] at hplace
        rw [hplace, node?_nil]
    · rw [placeOf, horigin, foldl_dots hdots, node?_nil]

theorem Opens.of_parent {q : Path} (h : fs.Opens q) (hp : p.Tidy) (hq : p.parent = some q) :
    fs.Passable p := by
  intro place hplace
  rw [fs.mem_way_iff hp hq, trail, List.mem_append, List.mem_singleton] at hplace
  rcases hplace with hplace | rfl
  · exact h.passable place hplace
  · exact h.dir

/-- Climbing up from a path and creating on the way down what was missing opens the path: it comes
to the same as going on from a file system in which the path is open already. The induction is on
the number of steps, and `passed` is what is still to be created. -/
theorem createFrom_ok {limit : Nat} (hwf : fs.WellFormed) (hacc : p.Accepted) (htidy : p.Tidy)
    (hblock : ∀ place ∈ fs.trail p, ∀ content, fs.node? place ≠ some (.file content))
    (hlimit : p.steps.length < limit) (passed : List Path) :
    ∃ opened : FileSystem, opened.WellFormed ∧ Grows fs opened (fs.trail p) ∧ opened.Opens p ∧
      fs.createFrom (ancestors limit p) passed = opened.makeDirs passed := by
  induction limit generalizing p passed with
  | zero => exact absurd hlimit (Nat.not_lt_zero _)
  | succ limit ih =>
    rw [ancestors]
    by_cases hempty : p = ""
    · rw [if_pos hempty]
      exact ⟨fs, hwf, Grows.refl fs _, opens_of_parent_none hwf (Or.inl hempty), rfl⟩
    · rw [if_neg hempty]
      cases hparent : p.parent with
      | none => exact ⟨fs, hwf, Grows.refl fs _, opens_of_parent_none hwf (Or.inr hparent), rfl⟩
      | some q =>
        obtain ⟨between, last, hsteps, -⟩ := htidy.parent hparent
        obtain ⟨-, -, -, -, -, -, -, -, htidyq⟩ := Path.parent_eq_some hparent
        have hne : p.steps ≠ [] := by
          rw [hsteps, ← List.append_assoc]
          exact List.concat_ne_nil last _
        rw [trail, List.forall_mem_append, List.forall_mem_singleton] at hblock
        dsimp only
        rcases makeDir_of_unblocked hwf hacc hblock.1 hne with hmissing | hpass
        · -- something before the last step is missing: the parent comes first
          have hblockq : ∀ place ∈ fs.trail q, ∀ content, fs.node? place ≠ some (.file content) :=
            fun place hplace => hblock.1 place ((fs.mem_way_iff htidy hparent).2 hplace)
          have hlimitq : q.steps.length < limit := by
            rw [hsteps, List.length_append, List.length_append, List.length_singleton] at hlimit
            omega
          obtain ⟨outer, hwf₁, hgrows₁, hopens, hrun⟩ :=
            ih (hacc.parent hparent) htidyq hblockq hlimitq (p :: passed)
          have hplace : outer.placeOf p = fs.placeOf p := placeOf_congr hgrows₁.cwd p
          have hfile : ∀ content, outer.node? (outer.placeOf p) ≠ some (.file content) := by
            rw [hplace]
            exact hgrows₁.not_file hblock.2
          obtain ⟨opened, hwf₂, hgrows₂, hopens₂, hmake⟩ :=
            makeDir_of_passable hwf₁ hacc (hopens.of_parent htidy hparent) hne hfile
          refine ⟨opened, hwf₂, ?_, hopens₂, ?_⟩
          · refine (hgrows₁.mono fun place hplace => ?_).trans (hgrows₂.mono fun place hp => ?_)
            · exact List.mem_append_left _ ((fs.mem_way_iff htidy hparent).2 hplace)
            · rw [hplace] at hp
              exact List.mem_append_right _ hp
          · rw [createFrom_cons, hmissing]
            exact hrun.trans (hmake.makeDirs passed)
        · obtain ⟨opened, hwf₁, hgrows, hopens, hmake⟩ :=
            makeDir_of_passable hwf hacc hpass hne hblock.2
          refine ⟨opened, hwf₁, hgrows.mono fun place => List.mem_append_right _, hopens, ?_⟩
          rw [hmake.createFrom]

/-- **A directory can be created with all that lead to it** when no file is in their places. -/
theorem makeDirAll_ok (hwf : fs.WellFormed) (hacc : p.Accepted) (htidy : p.Tidy)
    (hblock : ∀ place ∈ fs.trail p, ∀ content, fs.node? place ≠ some (.file content)) :
    ∃ opened : FileSystem, fs.makeDirAll p = (.ok (), opened) ∧ opened.WellFormed ∧
      Grows fs opened (fs.trail p) ∧ opened.Opens p := by
  obtain ⟨opened, hwf', hgrows, hopens, hrun⟩ :=
    createFrom_ok hwf hacc htidy hblock (Nat.lt_succ_self p.steps.length) []
  exact ⟨opened, hrun, hwf', hgrows, hopens⟩

/-! ### Putting files into place -/

section

variable {old new : Path} (hbase : fs.Opens base)
include hbase

theorem Opens.join_passable (hleaf : leaf.Plain) : fs.Passable (Path.join base leaf) :=
  (fs.passable_join_iff base hleaf).2 ⟨hbase.passable, hbase.dir⟩

theorem Opens.put (hroot : here ≠ []) (hnot : fs.node? here ≠ some .dir) (node : Node) :
    (fs.put here node).Opens base := by
  have hdir : ∀ place, fs.node? place = some .dir →
      (fs.put here node).node? place = some .dir := by
    intro place hdir
    rw [node?_put fs node hroot, if_neg, hdir]
    rintro rfl
    exact hnot hdir
  exact ⟨fun place hplace => hdir place (hbase.passable place hplace), hdir _ hbase.dir⟩

theorem writeFile_join (hleaf : leaf.Plain) (hacc : (Path.join base leaf).Accepted)
    (hnot : fs.node? (fs.placeOf base ++ [leaf]) ≠ some .dir) (content : Bytes) :
    fs.writeFile (Path.join base leaf) content =
      .ok (fs.put (fs.placeOf base ++ [leaf]) (.file content)) := by
  rw [writeFile, approach_join hleaf hacc (hbase.join_passable hleaf)]
  simp only [bind, Except.bind]
  cases hnode : fs.node? (fs.placeOf base ++ [leaf]) with
  | none => rfl
  | some node =>
    cases node with
    | dir => exact absurd hnode hnot
    | file found => rfl

theorem renameFile_join (hold : old.Plain) (hnew : new.Plain)
    (haccold : (Path.join base old).Accepted) (haccnew : (Path.join base new).Accepted)
    (hne : old ≠ new) (hfile : fs.node? (fs.placeOf base ++ [old]) = some (.file content))
    (hnot : fs.node? (fs.placeOf base ++ [new]) ≠ some .dir) :
    fs.renameFile (Path.join base old) (Path.join base new) =
      .ok ((fs.erase (fs.placeOf base ++ [old])).put (fs.placeOf base ++ [new])
        (.file content)) := by
  have hfind : fs.find (Path.join base old) =
      .ok (fs.placeOf base ++ [old], .file content) := by
    rw [find, approach_join hold haccold (hbase.join_passable hold)]
    simp only [bind, Except.bind, hfile]
    rfl
  have hplaces : fs.placeOf base ++ [old] ≠ fs.placeOf base ++ [new] := fun e =>
    hne (List.append_singleton_inj.1 e).2
  rw [renameFile, hfind]
  simp only [bind, Except.bind, approach_join hnew haccnew (hbase.join_passable hnew)]
  cases hnode : fs.node? (fs.placeOf base ++ [new]) with
  | none => exact if_neg hplaces
  | some node =>
    cases node with
    | dir => exact absurd hnode hnot
    | file found => exact if_neg hplaces

/-- The second file system has the file, and everything else as the first has it; one more temporary
file has been named. -/
structure Holds (fs fs' : FileSystem) (here : Place) (content : Bytes) : Prop where
  wellFormed : fs'.WellFormed
  cwd : fs'.cwd = fs.cwd
  process : fs'.process = fs.process
  tempCount : fs'.tempCount = fs.tempCount + 1
  node : ∀ place, fs'.node? place = if place = here then some (.file content) else fs.node? place

/-- **A file can be put into place in one go** when nothing has the temporary name, and afterwards
nothing has it either. -/
theorem writeAtomically_ok (hwf : fs.WellFormed) {temp : Path} (hleaf : leaf.Plain)
    (htemp : temp.Plain) (hpath : (fs.tempBeside (Path.join base leaf)).1 = Path.join base temp)
    (hacc : (Path.join base leaf).Accepted) (hacctemp : (Path.join base temp).Accepted)
    (hne : temp ≠ leaf) (hfresh : fs.node? (fs.placeOf base ++ [temp]) = none)
    (hnot : fs.node? (fs.placeOf base ++ [leaf]) ≠ some .dir) (content : Bytes) :
    ∃ written, fs.writeAtomically (Path.join base leaf) content = (.ok (), written) ∧
      Holds fs written (fs.placeOf base ++ [leaf]) content := by
  have hT : fs.placeOf base ++ [temp] ≠ [] :=
    List.concat_ne_nil temp _
  have hP : fs.placeOf base ++ [leaf] ≠ [] :=
    List.concat_ne_nil leaf _
  have hfreshDir : fs.node? (fs.placeOf base ++ [temp]) ≠ some .dir := by
    rw [hfresh]
    exact nofun
  let named : FileSystem := { fs with tempCount := fs.tempCount + 1 }
  have hnamed : fs.tempBeside (Path.join base leaf) = (Path.join base temp, named) :=
    Prod.ext hpath rfl
  have hwfNamed : named.WellFormed := ⟨hwf.nodup, hwf.parent, hwf.cwd⟩
  have hopens : named.Opens base := ⟨hbase.passable, hbase.dir⟩
  -- first the file has the temporary name
  let aside := named.put (fs.placeOf base ++ [temp]) (.file content)
  have hwrite : named.writeFile (Path.join base temp) content = .ok aside :=
    writeFile_join hopens htemp hacctemp hfreshDir content
  have haside : ∀ place, aside.node? place =
      if place = fs.placeOf base ++ [temp] then some (.file content) else fs.node? place :=
    fun place => node?_put named _ hT
  have hfile : aside.node? (fs.placeOf base ++ [temp]) = some (.file content) := by
    rw [haside, if_pos rfl]
  have hwfAside : aside.WellFormed := hwfNamed.put_in hbase.dir hfreshDir _
  -- then it takes its own name, and nothing is left under the temporary one
  let gone := aside.erase (fs.placeOf base ++ [temp])
  let moved := gone.put (fs.placeOf base ++ [leaf]) (.file content)
  have hplaces : fs.placeOf base ++ [leaf] ≠ fs.placeOf base ++ [temp] := fun e =>
    hne (List.append_singleton_inj.1 e).2.symm
  have hrename : aside.renameFile (Path.join base temp) (Path.join base leaf) = .ok moved := by
    refine renameFile_join (hopens.put hT hfreshDir _) htemp hleaf hacctemp hacc hne hfile ?_
    rw [show aside.placeOf base = fs.placeOf base from rfl, haside, if_neg hplaces]
    exact hnot
  have hgone : ∀ place, gone.node? place = fs.node? place := fun place =>
    node?_erase_put named hT hfresh _
  have hwfMoved : moved.WellFormed :=
    (hwfAside.erase_file hfile).put_in ((hgone _).trans hbase.dir) ((hgone _).symm ▸ hnot) _
  refine ⟨moved, ?_, hwfMoved, rfl, rfl, rfl, fun place => ?_⟩
  · rw [writeAtomically, hnamed]
    dsimp only
    rw [hwrite]
    dsimp only
    rw [hrename]
  · rw [node?_put gone _ hP, hgone]

end

/-! ### Removing directories -/

/-- The second file system has nothing below the place, and everything else as the first has it;
what was in the place itself may be gone. -/
structure Cleared (fs fs' : FileSystem) (here : Place) : Prop where
  wellFormed : fs'.WellFormed
  cwd : fs'.cwd = fs.cwd
  process : fs'.process = fs.process
  tempCount : fs'.tempCount = fs.tempCount
  outside : ∀ place, ¬ here <+: place → fs'.node? place = fs.node? place
  inside : ∀ rest, rest ≠ [] → fs'.node? (here ++ rest) = none
  self : fs'.node? here = fs.node? here ∨ fs'.node? here = none

theorem Cleared.node (h : Cleared fs fs' here) (place : Place) :
    fs'.node? place = fs.node? place ∨ fs'.node? place = none := by
  by_cases hbelow : here <+: place
  · obtain ⟨rest, rfl⟩ := hbelow
    by_cases hrest : rest = []
    · rw [hrest, List.append_nil]
      exact h.self
    · exact Or.inr (h.inside rest hrest)
  · exact Or.inl (h.outside place hbelow)

theorem cleared_eraseBelow (hwf : fs.WellFormed) (hcwd : ¬ here <+: fs.cwd) :
    Cleared fs (fs.eraseBelow here) here where
  wellFormed := hwf.eraseBelow fun h => hcwd h.2
  cwd := rfl
  process := rfl
  tempCount := rfl
  outside place hplace := by
    rw [node?_eraseBelow, if_neg fun h => hplace h.2]
  inside rest hne := by
    rw [node?_eraseBelow, if_pos]
    exact ⟨fun e => hne (List.append_right_eq_self.1 e), List.prefix_append here rest⟩
  self := by
    left
    rw [node?_eraseBelow, if_neg fun h => h.1 rfl]

theorem Cleared.erase (h : Cleared fs fs' here) (hne : here ≠ []) (hcwd : ¬ here <+: fs.cwd) :
    Cleared fs (fs'.erase here) here where
  wellFormed := by
    refine h.wellFormed.erase hne (fun name => h.inside [name] (List.cons_ne_nil name [])) ?_
    rw [h.cwd]
    rintro rfl
    exact hcwd (List.prefix_refl _)
  cwd := h.cwd
  process := h.process
  tempCount := h.tempCount
  outside place hplace := by
    rw [node?_erase fs' hne, if_neg, h.outside place hplace]
    rintro rfl
    exact hplace (List.prefix_refl _)
  inside rest hrest := by
    rw [node?_erase fs' hne, if_neg fun e => hrest (List.append_right_eq_self.1 e),
      h.inside rest hrest]
  self := by
    right
    rw [node?_erase fs' hne, if_pos rfl]

theorem removeDir_eq_ok (h : fs.removeDir p = .ok fs') :
    fs.placeOf p ≠ [] ∧ fs' = fs.erase (fs.placeOf p) := by
  obtain ⟨⟨here, pathEnd⟩, happroach, h⟩ := (except_bind_eq_ok_iff _ _ _).1 h
  cases pathEnd with
  | root => cases h
  | self => cases h
  | up => cases h
  | name n slash =>
    rw [approach_eq_ok happroach]
    refine ⟨List.concat_ne_nil n here, ?_⟩
    cases hnode : fs.node? (here ++ [n]) with
    | none =>
      simp only [hnode] at h
      cases h
    | some node =>
      simp only [hnode] at h
      cases node with
      | file content => cases h
      | dir =>
        dsimp only at h
        by_cases hempty : (fs.children (here ++ [n])).isEmpty = true
        · rw [if_pos hempty] at h
          exact (Except.ok.inj h).symm
        · rw [if_neg hempty] at h
          cases h

/-- Where no directory is, nothing is removed. -/
theorem removeDirAll_of_not_dir (hwf : fs.WellFormed) (h : fs.node? (fs.placeOf p) ≠ some .dir) :
    (fs.removeDirAll p).2 = fs := by
  rw [removeDirAll]
  cases hfind : fs.find p with
  | error e => rfl
  | ok found =>
    obtain ⟨here, node⟩ := found
    cases node with
    | file content => rfl
    | dir => exact absurd (find_eq_ok_dir hwf hfind) h

/-- **Nothing stays below a directory that is removed**, also if the directory itself cannot be
removed. -/
theorem removeDirAll_cleared (hwf : fs.WellFormed) (hfind : fs.find p = .ok (fs.placeOf p, .dir))
    (hcwd : ¬ fs.placeOf p <+: fs.cwd) :
    Cleared fs (fs.removeDirAll p).2 (fs.placeOf p) := by
  have hcleared := cleared_eraseBelow hwf hcwd
  rw [removeDirAll, hfind]
  dsimp only
  cases hremove : (fs.eraseBelow (fs.placeOf p)).removeDir p with
  | ok removed =>
    obtain ⟨hne, rfl⟩ := removeDir_eq_ok hremove
    exact hcleared.erase hne hcwd
  | error e =>
    cases e <;> exact hcleared

/-- A directory that is named in another one is removed itself, unless the way to it leads through
what is below it. -/
theorem removeDirAll_join (hwf : fs.WellFormed) (hleaf : leaf.Plain)
    (hacc : (Path.join base leaf).Accepted) (hopens : fs.Opens (Path.join base leaf))
    (hway : ∀ place ∈ fs.way (Path.join base leaf),
      ¬ fs.placeOf (Path.join base leaf) <+: place)
    (hcwd : ¬ fs.placeOf (Path.join base leaf) <+: fs.cwd) :
    (fs.removeDirAll (Path.join base leaf)).2.node? (fs.placeOf (Path.join base leaf)) = none := by
  have hne : (Path.join base leaf).steps ≠ [] := by
    rw [Path.steps_join hleaf.not_absolute, hleaf.steps_eq]
    exact List.concat_ne_nil leaf _
  have hcleared := cleared_eraseBelow hwf hcwd
  have hplace := fs.placeOf_join base hleaf
  rw [removeDirAll, find_dir hacc hopens.passable hne hopens.dir]
  dsimp only
  generalize hempty : fs.eraseBelow (fs.placeOf (Path.join base leaf)) = emptied at hcleared ⊢
  have hpass : emptied.Passable (Path.join base leaf) := by
    intro place hin
    rw [way_congr hcleared.cwd] at hin
    rw [hcleared.outside place (hway place hin)]
    exact hopens.passable place hin
  have hself : emptied.node? (emptied.placeOf base ++ [leaf]) = some .dir := by
    rw [placeOf_congr hcleared.cwd, ← hplace, ← hempty, node?_eraseBelow, if_neg fun h => h.1 rfl]
    exact hopens.dir
  have hchildren : emptied.children (emptied.placeOf base ++ [leaf]) = [] := by
    refine List.eq_nil_iff_forall_not_mem.2 fun name hname => ?_
    rw [mem_children_iff, placeOf_congr hcleared.cwd, ← hplace] at hname
    exact hname (hcleared.inside [name] (List.cons_ne_nil name []))
  have hremove : emptied.removeDir (Path.join base leaf) =
      .ok (emptied.erase (fs.placeOf (Path.join base leaf))) := by
    rw [removeDir, approach_join hleaf hacc hpass]
    simp only [bind, Except.bind, hself, hchildren]
    rw [placeOf_congr hcleared.cwd, ← hplace]
    rfl
  rw [hremove]
  dsimp only
  have hroot : fs.placeOf (Path.join base leaf) ≠ [] := by
    rw [hplace]
    exact List.concat_ne_nil leaf _
  rw [node?_erase emptied hroot, if_pos rfl]

/-! ### What passes with time -/

/-- The second file system is the first one some time later: the process and where relative paths
start are the same, and so many temporary files have been named at most. -/
structure Later (fs fs' : FileSystem) (named : Nat) : Prop where
  cwd : fs'.cwd = fs.cwd
  process : fs'.process = fs.process
  tempCount : fs'.tempCount ≤ fs.tempCount + named

theorem Later.trans {fs'' : FileSystem} {m n : Nat} (h : fs.Later fs' m)
    (h' : fs'.Later fs'' n) : fs.Later fs'' (m + n) where
  cwd := h'.cwd.trans h.cwd
  process := h'.process.trans h.process
  tempCount := by
    have hfirst := h.tempCount
    have hsecond := h'.tempCount
    omega

theorem Later.refl (fs : FileSystem) : fs.Later fs 0 := ⟨rfl, rfl, Nat.le_refl _⟩

theorem Later.mono {m n : Nat} (h : fs.Later fs' m) (hmn : m ≤ n) :
    fs.Later fs' n :=
  ⟨h.cwd, h.process, Nat.le_trans h.tempCount (Nat.add_le_add_left hmn _)⟩

theorem Cleared.later (h : fs.Cleared fs' here) :
    fs.Later fs' 0 :=
  ⟨h.cwd, h.process, Nat.le_of_eq h.tempCount⟩

end Reclass.FileSystem
