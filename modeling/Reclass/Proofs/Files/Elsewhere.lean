import Reclass.Proofs.Files.Effects

/-!
# What a path finds after changes elsewhere

A path finds what is at the places of its trail, and nothing else matters to it
(`FileSystem.find_congr`). Nor does anything else matter when a file is written at the path, or the
directories are created that lead there (`FileSystem.SameOn.writeFile`,
`FileSystem.SameOn.makeDirAll`). It may even have directories created on its trail, as long as it
still stops at the first place that is no directory (`FileSystem.obstacle`): one that is missing
there has to have nothing behind it (`FileSystem.Tapers`), and the directories have to end in front
of the last two places of the path (`FileSystem.Confined.find_join`).
-/

set_option autoImplicit false

namespace Reclass.FileSystem

variable {fs fs' : FileSystem} {p base leaf : Path} {here place : Place}

/-! ### Reading depends on the trail -/

theorem step_congr {name : String} (hhere : fs'.node? here = fs.node? here)
    (hnext : fs'.node? (descend here name) = fs.node? (descend here name)) :
    fs'.step here name = fs.step here name := by
  unfold step
  unfold descend at hnext
  by_cases hself : name = "."
  · simp [hhere, hself]
  · by_cases hup : name = ".."
    · simp [hhere, hup]
    · simp only [hself, hup, if_false] at hnext
      simp [hhere, hself, hup, hnext]

theorem walk_congr {names : List String}
    (h : ∀ place ∈ wayFrom here names ++ [names.foldl descend here],
      fs'.node? place = fs.node? place) : fs'.walk here names = fs.walk here names := by
  induction names generalizing here with
  | nil => rfl
  | cons name names ih =>
    rw [wayFrom, List.cons_append, List.forall_mem_cons] at h
    have hnext : fs'.node? (descend here name) = fs.node? (descend here name) := by
      cases names with
      | nil => exact h.2 _ (List.mem_singleton_self _)
      | cons next names => exact h.2 _ List.mem_cons_self
    rw [walk, walk, step_congr h.1 hnext]
    cases hstep : fs.step here name with
    | error e => rfl
    | ok next =>
      obtain rfl := step_eq_ok hstep
      exact ih h.2

/-- Where a path gets to depends on the places that it leads through. -/
theorem approach_congr (hcwd : fs'.cwd = fs.cwd)
    (h : ∀ place ∈ fs.way p, fs'.node? place = fs.node? place) : fs'.approach p = fs.approach p := by
  have horigin : fs'.origin p = fs.origin p := by
    rw [origin, origin, hcwd]
  by_cases hsteps : p.steps = []
  · rw [approach, approach, hsteps]
    rfl
  · obtain ⟨before, last, hlast⟩ := exists_last_step hsteps
    rw [fs.way_eq hlast] at h
    have hend := h _ (List.mem_append_right _ (List.mem_singleton_self _))
    rw [fs'.approach_split hlast, fs.approach_split hlast, horigin, walk_congr h]
    congr 2
    cases hwalk : fs.walk (fs.origin p) before with
    | error e => rfl
    | ok here =>
      rw [← walk_eq_ok hwalk] at hend
      show fs'.arrive p last here = fs.arrive p last here
      rw [arrive, arrive, hend]

/-- **What a path finds depends on the places of its trail only.** -/
theorem find_congr (hcwd : fs'.cwd = fs.cwd)
    (h : ∀ place ∈ fs.trail p, fs'.node? place = fs.node? place) : fs'.find p = fs.find p := by
  rw [trail, List.forall_mem_append, List.forall_mem_singleton] at h
  unfold find
  rw [approach_congr hcwd h.1]
  cases hend : fs.approach p with
  | error e => rfl
  | ok reached =>
    obtain ⟨here, pathEnd⟩ := reached
    cases pathEnd with
    | root => rfl
    | self => rfl
    | up => rfl
    | name n slash =>
      have hnode := h.2
      rw [approach_eq_ok hend] at hnode
      simp only [bind, Except.bind, hnode]

/-! ### Changes depend on the trail -/

/-- Two file systems are the same in some places, and relative paths start at the same place. -/
structure SameOn (seen : Place → Prop) (fs fs' : FileSystem) : Prop where
  cwd : fs'.cwd = fs.cwd
  node : ∀ place, seen place → fs'.node? place = fs.node? place

/-- Two attempts at a change fail for the same reason, or the results are the same in some places. -/
inductive SameChange (seen : Place → Prop) :
    Except OsError FileSystem → Except OsError FileSystem → Prop where
  | ok {fs fs' : FileSystem} (h : SameOn seen fs fs') : SameChange seen (.ok fs) (.ok fs')
  | error (e : OsError) : SameChange seen (.error e) (.error e)

section SameOn

variable {seen : Place → Prop}

theorem SameOn.put (h : SameOn seen fs fs') (hne : here ≠ []) (node : Node) :
    SameOn seen (fs.put here node) (fs'.put here node) := by
  refine ⟨h.cwd, fun place hplace => ?_⟩
  rw [node?_put fs' node hne, node?_put fs node hne, h.node place hplace]

section Path

variable (h : SameOn seen fs fs') (hseen : ∀ place ∈ fs.trail p, seen place)
include h hseen

theorem SameOn.approach_eq : fs'.approach p = fs.approach p :=
  approach_congr h.cwd fun place hplace => h.node place (hseen place (List.mem_append_left _ hplace))

theorem SameOn.isDir_eq : fs'.isDir p = fs.isDir p := by
  rw [isDir, isDir, find_congr h.cwd fun place hplace => h.node place (hseen place hplace)]

/-- What is at the end of a path is the same. -/
theorem SameOn.node?_end {n : String} {slash : Bool}
    (happroach : fs.approach p = .ok (here, .name n slash)) :
    fs'.node? (here ++ [n]) = fs.node? (here ++ [n]) := by
  rw [← FileSystem.approach_eq_ok happroach]
  exact h.node _ (hseen _ (List.mem_append_right _ (List.mem_singleton_self _)))

theorem SameOn.makeDir : SameChange seen (fs.makeDir p) (fs'.makeDir p) := by
  rw [FileSystem.makeDir, FileSystem.makeDir, h.approach_eq hseen]
  cases happroach : fs.approach p with
  | error e => exact .error e
  | ok reached =>
    obtain ⟨here, pathEnd⟩ := reached
    cases pathEnd with
    | root => exact .error .exists
    | self => exact .error .exists
    | up => exact .error .exists
    | name n slash =>
      simp only [bind, Except.bind, h.node?_end hseen happroach]
      cases fs.node? (here ++ [n]) with
      | some node => exact .error .exists
      | none => exact .ok (h.put (List.concat_ne_nil n here) .dir)

theorem SameOn.writeFile (content : Bytes) :
    SameChange seen (fs.writeFile p content) (fs'.writeFile p content) := by
  rw [FileSystem.writeFile, FileSystem.writeFile, h.approach_eq hseen]
  cases happroach : fs.approach p with
  | error e => exact .error e
  | ok reached =>
    obtain ⟨here, pathEnd⟩ := reached
    cases pathEnd with
    | root => exact .error .isDirectory
    | self => exact .error .isDirectory
    | up => exact .error .isDirectory
    | name n slash =>
      cases slash with
      | true => exact .error .isDirectory
      | false =>
        simp only [bind, Except.bind, h.node?_end hseen happroach]
        have hput := h.put (List.concat_ne_nil n here) (.file content)
        rcases fs.node? (here ++ [n]) with _ | (_ | found)
        · exact .ok hput
        · exact .error .isDirectory
        · exact .ok hput

end Path

variable {ps : List Path}

theorem SameOn.makeDirs (h : SameOn seen fs fs')
    (hseen : ∀ p ∈ ps, ∀ place ∈ fs.trail p, seen place) :
    (fs'.makeDirs ps).1 = (fs.makeDirs ps).1 ∧
      SameOn seen (fs.makeDirs ps).2 (fs'.makeDirs ps).2 := by
  induction ps generalizing fs fs' with
  | nil => exact ⟨rfl, h⟩
  | cons p ps ih =>
    rw [List.forall_mem_cons] at hseen
    have hmake := h.makeDir hseen.1
    have hgrows : ∀ made, fs.makeDir p = .ok made → Grows fs made [fs.placeOf p] := fun _ =>
      makeDir_grows
    rw [FileSystem.makeDirs, FileSystem.makeDirs, h.isDir_eq hseen.1]
    generalize fs.makeDir p = made, fs'.makeDir p = made' at hmake hgrows ⊢
    cases hmake with
    | ok hmade =>
      refine ih hmade fun q hq place hplace => hseen.2 q hq place ?_
      rwa [trail_congr (hgrows _ rfl).cwd] at hplace
    | error e =>
      by_cases hthere : e = .exists ∧ fs.isDir p = true
      · simp only [if_pos hthere]
        exact ih h hseen.2
      · simp only [if_neg hthere]
        exact ⟨trivial, h⟩

theorem SameOn.createFrom {passed : List Path} (h : SameOn seen fs fs')
    (hseen : ∀ p ∈ ps ++ passed, ∀ place ∈ fs.trail p, seen place) :
    (fs'.createFrom ps passed).1 = (fs.createFrom ps passed).1 ∧
      SameOn seen (fs.createFrom ps passed).2 (fs'.createFrom ps passed).2 := by
  induction ps generalizing passed with
  | nil => exact h.makeDirs hseen
  | cons p ps ih =>
    have hrest : ∀ q ∈ ps ++ p :: passed, ∀ place ∈ fs.trail q, seen place := by
      intro q hq
      apply hseen
      simp only [List.mem_append, List.mem_cons] at hq ⊢
      tauto
    rw [List.cons_append, List.forall_mem_cons, List.forall_mem_append] at hseen
    have hmake := h.makeDir hseen.1
    have hgrows : ∀ made, fs.makeDir p = .ok made → Grows fs made [fs.placeOf p] := fun _ =>
      makeDir_grows
    rw [createFrom_cons, createFrom_cons, h.isDir_eq hseen.1]
    generalize fs.makeDir p = made, fs'.makeDir p = made' at hmake hgrows ⊢
    cases hmake with
    | ok hmade =>
      refine hmade.makeDirs fun q hq place hplace => hseen.2.2 q hq place ?_
      rwa [trail_congr (hgrows _ rfl).cwd] at hplace
    | error e =>
      dsimp only
      by_cases hmissing : e = .notFound
      · rw [if_pos hmissing, if_pos hmissing]
        exact ih hrest
      · rw [if_neg hmissing, if_neg hmissing]
        by_cases hthere : e = .exists ∧ fs.isDir p = true
        · rw [if_pos hthere, if_pos hthere]
          exact h.makeDirs hseen.2.2
        · rw [if_neg hthere, if_neg hthere]
          exact ⟨rfl, h⟩

/-- **Creating a directory with all that lead to it** looks at the trail of its path only. -/
theorem SameOn.makeDirAll (h : SameOn seen fs fs') (hseen : ∀ place ∈ fs.trail p, seen place) :
    (fs'.makeDirAll p).1 = (fs.makeDirAll p).1 ∧
      SameOn seen (fs.makeDirAll p).2 (fs'.makeDirAll p).2 := by
  refine h.createFrom fun q hq place hplace => hseen place ?_
  rw [List.append_nil] at hq
  exact mem_trail_of_ancestor hq hplace

end SameOn

/-! ### What is in the way of a path -/

/-- What stops a path that leads through the places: the first of them that is no directory. -/
def obstacle (fs : FileSystem) : List Place → Option OsError
  | [] => none
  | place :: places =>
    match fs.node? place with
    | some .dir => fs.obstacle places
    | some (.file _) => some .notDirectory
    | none => some .notFound

theorem obstacle_eq_none_iff {places : List Place} :
    fs.obstacle places = none ↔ ∀ place ∈ places, fs.node? place = some .dir := by
  induction places with
  | nil => simp [obstacle]
  | cons place places ih =>
    rw [obstacle, List.forall_mem_cons]
    rcases fs.node? place with _ | (_ | content) <;> simp [ih]

/-- A step to where nothing is fails, unless it leads up. -/
theorem step_to_missing {name : String} (hdir : fs.node? here = some .dir)
    (hshort : name.utf8ByteSize ≤ maxName) (hnext : fs.node? (descend here name) = none) :
    fs.step here name = .error .notFound ∨ fs.step here name = .ok (descend here name) := by
  unfold step
  unfold descend at hnext ⊢
  rw [hdir]
  by_cases hself : name = "."
  · simp [hself]
  · by_cases hup : name = ".."
    · simp [hup]
    · simp only [hself, hup, if_false] at hnext
      simp [hself, hup, hnext, Nat.not_lt.2 hshort]

/-- A walk with its last step fails as the first obstacle says. -/
theorem walk_arrive_of_obstacle {names : List String} {last : String} {e : OsError}
    (hshort : ∀ name ∈ names, name.utf8ByteSize ≤ maxName)
    (h : fs.obstacle (wayFrom here names ++ [names.foldl descend here]) = some e) :
    (fs.walk here names).bind (fs.arrive p last) = .error e := by
  induction names generalizing here with
  | nil =>
    show fs.arrive p last here = .error e
    rw [wayFrom, List.nil_append, List.foldl_nil, obstacle] at h
    unfold arrive
    rcases hnode : fs.node? here with _ | (_ | content)
    all_goals simp_all [obstacle]
  | cons name names ih =>
    rw [List.forall_mem_cons] at hshort
    rw [wayFrom, List.cons_append, obstacle, List.foldl_cons] at h
    rw [walk]
    cases hnode : fs.node? here with
    | none =>
      simp only [hnode, Option.some.injEq] at h
      rw [step, hnode, ← h]
      rfl
    | some node =>
      cases node with
      | file content =>
        simp only [hnode, Option.some.injEq] at h
        rw [step, hnode, ← h]
        rfl
      | dir =>
        simp only [hnode] at h
        have hrest := ih hshort.2 h
        have hstep : fs.step here name = .ok (descend here name) ∨
            fs.step here name = .error .notFound ∧ e = .notFound := by
          cases hnext : fs.node? (descend here name) with
          | some next => exact Or.inl (step_of_dir hnode hshort.1 (by simp [hnext]))
          | none =>
            refine (step_to_missing hnode hshort.1 hnext).symm.imp_right fun hmissing => ?_
            refine ⟨hmissing, ?_⟩
            -- what is missing is the first place of the rest of the walk
            cases names <;> simp_all [wayFrom, obstacle]
        rcases hstep with hstep | ⟨hstep, rfl⟩
        · rw [hstep]
          exact hrest
        · rw [hstep]
          rfl

/-- Where a path gets to depends on its text and on the first obstacle, if there is one. -/
theorem approach_of_obstacle {before : List String} {last : String} {e : OsError}
    (hsteps : p.steps = before ++ [last])
    (hshort : ∀ name ∈ before, name.utf8ByteSize ≤ maxName)
    (h : fs.obstacle (fs.way p) = some e) :
    fs.approach p = if p.toList.contains '\x00' then .error .nulInPath
      else if p.utf8ByteSize > maxPath then .error .nameTooLong
      else .error e := by
  rw [fs.way_eq hsteps] at h
  rw [fs.approach_split hsteps, walk_arrive_of_obstacle hshort h]

section

variable {made touched : Place → Prop} {places : List Place} {e : OsError}

theorem Confined.obstacle_of_missing (h : Confined fs fs' made touched)
    (huntouched : ∀ place ∈ places ++ [here], ¬ touched place) (hlast : ¬ made here)
    (hmissing : ∀ place ∈ places ++ [here], fs.node? place = none) :
    fs'.obstacle (places ++ [here]) = some .notFound := by
  induction places with
  | nil =>
    rw [List.nil_append, List.forall_mem_singleton] at huntouched hmissing
    rcases h.node here with hsame | hin | ⟨hin, -⟩
    · simp [obstacle, hsame, hmissing]
    · exact absurd hin huntouched
    · exact absurd hin hlast
  | cons place places ih =>
    rw [List.cons_append, List.forall_mem_cons] at huntouched hmissing
    rw [List.cons_append, obstacle]
    rcases h.node place with hsame | hin | ⟨-, -, hnew⟩
    · rw [hsame, hmissing.1]
    · exact absurd hin huntouched.1
    · rw [hnew]
      exact ih huntouched.2 hmissing.2

/-- An obstacle stays the first one when directories are made at most where places are missing one
after the other, and the last place is not among them. -/
theorem Confined.obstacle_eq (h : Confined fs fs' made touched)
    (huntouched : ∀ place ∈ places ++ [here], ¬ touched place) (hlast : ¬ made here)
    (htapers : (places ++ [here]).Pairwise fun outer inner =>
      fs.node? outer = none → fs.node? inner = none)
    (hobstacle : fs.obstacle (places ++ [here]) = some e) :
    fs'.obstacle (places ++ [here]) = some e := by
  induction places with
  | nil =>
    rw [List.nil_append] at hobstacle ⊢
    rw [List.nil_append, List.forall_mem_singleton] at huntouched
    rcases h.node here with hsame | hin | ⟨hin, -⟩
    · rw [← hobstacle, obstacle, obstacle, hsame]
      rfl
    · exact absurd hin huntouched
    · exact absurd hin hlast
  | cons place places ih =>
    have huntouched' := huntouched
    rw [List.cons_append, List.forall_mem_cons] at huntouched
    rw [List.cons_append, List.pairwise_cons] at htapers
    rw [List.cons_append, obstacle] at hobstacle
    rw [List.cons_append, obstacle]
    cases hnode : fs.node? place with
    | some node =>
      rw [h.eq_some huntouched.1 hnode]
      rw [hnode] at hobstacle
      cases node with
      | dir => exact ih huntouched.2 htapers.2 hobstacle
      | file content => exact hobstacle
    | none =>
      rw [hnode] at hobstacle
      have hrest := h.obstacle_of_missing huntouched.2 hlast fun inner hinner =>
        htapers.1 inner hinner hnode
      rcases h.node place with hsame | hin | ⟨-, -, hnew⟩
      · rw [hsame, hnode]
        exact hobstacle
      · exact absurd hin huntouched.1
      · rw [hnew, ← hobstacle]
        exact hrest

end

/-- A place where nothing is has nothing behind it on the trail of the path. -/
def Tapers (fs : FileSystem) (p : Path) : Prop :=
  (fs.trail p).Pairwise fun outer inner => fs.node? outer = none → fs.node? inner = none

/-- **What a path finds stays the same** when nothing on its trail is touched, and directories are
made at most in front of its last two places. -/
theorem Confined.find_join {made touched : Place → Prop} (h : Confined fs fs' made touched)
    (hleaf : leaf.Plain) (hacc : base.Accepted) (htapers : fs.Tapers base)
    (htrail : ∀ place ∈ fs.trail (Path.join base leaf), ¬ touched place)
    (hbase : ¬ made (fs.placeOf base)) (hplace : ¬ made (fs.placeOf base ++ [leaf])) :
    fs'.find (Path.join base leaf) = fs.find (Path.join base leaf) := by
  have hsteps : (Path.join base leaf).steps = base.steps ++ [leaf] := by
    rw [Path.steps_join hleaf.not_absolute, hleaf.steps_eq]
  rw [trail, fs.way_join base hleaf, List.forall_mem_append] at htrail
  cases hobstacle : fs.obstacle (fs.way (Path.join base leaf)) with
  | none =>
    refine find_congr h.cwd fun place hin => ?_
    rw [trail, List.mem_append, List.mem_singleton] at hin
    rcases hin with hin | rfl
    · have hdir := obstacle_eq_none_iff.1 hobstacle place hin
      rw [fs.way_join base hleaf] at hin
      rw [hdir, h.eq_some (htrail.1 place hin) hdir]
    · rcases h.node (fs.placeOf (Path.join base leaf)) with hsame | hin | ⟨hin, -⟩
      · exact hsame
      · exact absurd hin (htrail.2 _ (List.mem_singleton_self _))
      · rw [fs.placeOf_join base hleaf] at hin
        exact absurd hin hplace
  | some e =>
    have hobstacle' : fs'.obstacle (fs'.way (Path.join base leaf)) = some e := by
      rw [way_congr h.cwd]
      rw [fs.way_join base hleaf] at hobstacle ⊢
      exact h.obstacle_eq htrail.1 hbase htapers hobstacle
    rw [find, find, approach_of_obstacle hsteps hacc.names hobstacle,
      approach_of_obstacle hsteps hacc.names hobstacle']
    split
    · rfl
    · split
      · rfl
      · rfl

end Reclass.FileSystem
