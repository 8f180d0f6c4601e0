import Reclass.Proofs.Files.Paths
import Reclass.Proofs.Files.Trees

/-!
# The ways that paths take

A path takes its steps from certain places (`FileSystem.way`). When all of them are directories the
path leads to its place, whatever is there (`FileSystem.approach_of_passable`); when no file is
among them it leads there or misses something (`FileSystem.approach_of_unblocked`). So what a path
finds is told by what is at places (`FileSystem.find_dir`, `FileSystem.find_absent`, `FileSystem.find_join`).
-/

set_option autoImplicit false

namespace Reclass.FileSystem

variable {fs fs' : FileSystem} {p base leaf : Path} {here place : Place} {names : List String}
  {content : Bytes}

/-! ### Ways -/

/-- The places from which steps are taken. -/
def wayFrom : Place → List String → List Place
  | _, [] => []
  | here, name :: names => here :: wayFrom (descend here name) names

/-- The places from which the steps of a path are taken. -/
def way (fs : FileSystem) (p : Path) : List Place := wayFrom (fs.origin p) p.steps

/-- The path takes all its steps from directories. -/
def Passable (fs : FileSystem) (p : Path) : Prop := ∀ place ∈ fs.way p, fs.node? place = some .dir

/-- The path takes no step from a file. -/
def Unblocked (fs : FileSystem) (p : Path) : Prop :=
  ∀ place ∈ fs.way p, ∀ content, fs.node? place ≠ some (.file content)

theorem wayFrom_append (here : Place) (xs ys : List String) :
    wayFrom here (xs ++ ys) = wayFrom here xs ++ wayFrom (xs.foldl descend here) ys := by
  induction xs generalizing here with
  | nil => rfl
  | cons x xs ih =>
    rw [List.cons_append, wayFrom, wayFrom, ih, List.cons_append, List.foldl_cons]

theorem origin_join (fs : FileSystem) (base : Path) (h : leaf.isAbsolute = false) :
    fs.origin (Path.join base leaf) = fs.origin base := by
  rw [origin, origin, Path.isAbsolute_join h]

/-- The steps of a leaf are taken on from the place of the base. -/
theorem way_join_steps (fs : FileSystem) (base : Path) (h : leaf.isAbsolute = false) :
    fs.way (Path.join base leaf) = fs.way base ++ wayFrom (fs.placeOf base) leaf.steps := by
  rw [way, fs.origin_join base h, Path.steps_join h, wayFrom_append]
  rfl

theorem placeOf_join_steps (fs : FileSystem) (base : Path) (h : leaf.isAbsolute = false) :
    fs.placeOf (Path.join base leaf) = leaf.steps.foldl descend (fs.placeOf base) := by
  rw [placeOf, fs.origin_join base h, Path.steps_join h, List.foldl_append]
  rfl

/-- The last step is taken from the place of the base. -/
theorem way_join (fs : FileSystem) (base : Path) (h : leaf.Plain) :
    fs.way (Path.join base leaf) = fs.way base ++ [fs.placeOf base] := by
  rw [fs.way_join_steps base h.not_absolute, h.steps_eq]
  rfl

theorem way_congr (h : fs'.cwd = fs.cwd) (p : Path) : fs'.way p = fs.way p := by
  rw [way, way, origin, origin, h]

theorem passable_join_iff (fs : FileSystem) (base : Path) (h : leaf.Plain) :
    fs.Passable (Path.join base leaf) ↔
      fs.Passable base ∧ fs.node? (fs.placeOf base) = some .dir := by
  rw [Passable, fs.way_join base h, List.forall_mem_append, List.forall_mem_singleton]
  rfl

theorem unblocked_join_iff (fs : FileSystem) (base : Path) (h : leaf.Plain) :
    fs.Unblocked (Path.join base leaf) ↔ fs.Unblocked base ∧
      ∀ content, fs.node? (fs.placeOf base) ≠ some (.file content) := by
  rw [Unblocked, fs.way_join base h, List.forall_mem_append, List.forall_mem_singleton]
  rfl

/-- Steps that never lead up lead further in. -/
theorem prefix_foldl_descend (here : Place) (hup : ".." ∉ names) :
    here <+: names.foldl descend here := by
  induction names generalizing here with
  | nil => exact List.prefix_rfl
  | cons name names ih =>
    rw [List.mem_cons, not_or] at hup
    have hstep : here <+: descend here name := by
      unfold descend
      by_cases hself : name = "."
      · simp [hself]
      · rw [if_neg hself, if_neg (Ne.symm hup.1)]
        exact List.prefix_append here [name]
    exact hstep.trans (ih (descend here name) hup.2)

theorem prefix_of_mem_wayFrom (hup : ".." ∉ names) (hplace : place ∈ wayFrom here names) :
    place <+: names.foldl descend here := by
  induction names generalizing here with
  | nil => cases hplace
  | cons name names ih =>
    rw [wayFrom, List.mem_cons] at hplace
    rcases hplace with rfl | hplace
    · exact prefix_foldl_descend place hup
    · exact ih (fun hmem => hup (List.mem_cons_of_mem name hmem)) hplace

/-- When something lies where a path leads that has no step up, its way is one of directories. -/
theorem WellFormed.passable_join (hwf : fs.WellFormed) (hleaf : leaf.Plain)
    (hup : ".." ∉ base.steps)
    (hthere : fs.node? (fs.placeOf (Path.join base leaf)) ≠ none) :
    fs.Passable (Path.join base leaf) := by
  intro place hplace
  rw [fs.placeOf_join base hleaf] at hthere
  rw [fs.way_join base hleaf, List.mem_append, List.mem_singleton] at hplace
  have hprefix : place <+: fs.placeOf base := by
    rcases hplace with hplace | rfl
    · exact prefix_of_mem_wayFrom hup hplace
    · exact List.prefix_rfl
  obtain ⟨rest, hrest⟩ := hprefix
  rw [← hrest, List.append_assoc] at hthere
  exact hwf.dir_of_prefix (List.concat_ne_nil leaf rest) hthere

/-! ### Where a walk ends -/

theorem step_of_dir {name : String} (hdir : fs.node? here = some .dir)
    (hshort : name.utf8ByteSize ≤ maxName) (hnext : fs.node? (descend here name) ≠ none) :
    fs.step here name = .ok (descend here name) := by
  unfold step
  rw [hdir]
  dsimp only
  unfold descend at hnext ⊢
  by_cases hself : name = "."
  · rw [if_pos hself, if_pos hself]
  · rw [if_neg hself, if_neg hself] at *
    by_cases hup : name = ".."
    · rw [if_pos hup, if_pos hup]
    · rw [if_neg hup, if_neg (Nat.not_lt.2 hshort), if_neg hup] at *
      obtain ⟨node, hnode⟩ := Option.ne_none_iff_exists'.1 hnext
      rw [hnode]

theorem step_of_missing {name : String} (hdir : fs.node? here = some .dir)
    (hwf : fs.WellFormed) (hshort : name.utf8ByteSize ≤ maxName)
    (hnext : fs.node? (descend here name) = none) : fs.step here name = .error .notFound := by
  unfold step
  rw [hdir]
  dsimp only
  unfold descend at hnext
  by_cases hself : name = "."
  · rw [if_pos hself, hdir] at hnext
    cases hnext
  · rw [if_neg hself] at hnext ⊢
    by_cases hup : name = ".."
    · rw [if_pos hup, hwf.parent_dir hdir] at hnext
      cases hnext
    · rw [if_neg hup] at hnext ⊢
      rw [if_neg (Nat.not_lt.2 hshort), hnext]

/-- A walk from directories leads to its place. -/
theorem walk_of_passable (hshort : ∀ name ∈ names, name.utf8ByteSize ≤ maxName)
    (h : ∀ place ∈ wayFrom here names, fs.node? place = some .dir)
    (hlast : fs.node? (names.foldl descend here) ≠ none) :
    fs.walk here names = .ok (names.foldl descend here) := by
  induction names generalizing here with
  | nil => rfl
  | cons name names ih =>
    rw [wayFrom, List.forall_mem_cons] at h
    rw [List.forall_mem_cons] at hshort
    have hnext : fs.node? (descend here name) ≠ none := by
      cases names with
      | nil => exact hlast
      | cons next names =>
        rw [h.2 _ List.mem_cons_self]
        exact Option.some_ne_none _
    rw [walk, step_of_dir h.1 hshort.1 hnext]
    exact ih hshort.2 h.2 hlast

/-- A walk in whose way there is no file leads to its place, or to nothing. -/
theorem walk_of_unblocked (hwf : fs.WellFormed)
    (hshort : ∀ name ∈ names, name.utf8ByteSize ≤ maxName)
    (h : ∀ place ∈ wayFrom here names, ∀ content, fs.node? place ≠ some (.file content)) :
    fs.walk here names = .error .notFound ∨
      fs.walk here names = .ok (names.foldl descend here) ∧
        ∀ place ∈ wayFrom here names, fs.node? place = some .dir := by
  induction names generalizing here with
  | nil => exact Or.inr ⟨rfl, fun place hplace => absurd hplace List.not_mem_nil⟩
  | cons name names ih =>
    rw [wayFrom, List.forall_mem_cons] at h
    rw [List.forall_mem_cons] at hshort
    rw [walk, wayFrom]
    cases hnode : fs.node? here with
    | none =>
      left
      rw [step, hnode]
      rfl
    | some node =>
      cases node with
      | file content => exact absurd hnode (h.1 content)
      | dir =>
        cases hnext : fs.node? (descend here name) with
        | none =>
          left
          rw [step_of_missing hnode hwf hshort.1 hnext]
          rfl
        | some next =>
          have hne : fs.node? (descend here name) ≠ none := by
            rw [hnext]
            exact Option.some_ne_none next
          rw [step_of_dir hnode hshort.1 hne]
          refine (ih hshort.2 h.2).imp id fun hrest => ⟨hrest.1, ?_⟩
          rw [List.forall_mem_cons]
          exact ⟨hnode, hrest.2⟩

/-! ### Where a path ends -/

/-- What the last step of a path is. -/
def lastStep (p : Path) (last : String) : PathEnd :=
  if last = "." then .self
  else if last = ".." then .up
  else .name last (p.toList.getLast? = some '/')

theorem exists_last_step (h : p.steps ≠ []) : ∃ before last, p.steps = before ++ [last] := by
  obtain ⟨before, last, hsteps⟩ := (List.eq_nil_or_concat p.steps).resolve_left h
  exact ⟨before, last, by rw [hsteps, List.concat_eq_append]⟩

/-- Takes the last step of a path, from where the others have led. -/
def arrive (fs : FileSystem) (p : Path) (last : String) (here : Place) :
    Except OsError (Place × PathEnd) :=
  match fs.node? here with
  | some .dir =>
    if last.utf8ByteSize > maxName then .error .nameTooLong else .ok (here, lastStep p last)
  | some (.file _) => .error .notDirectory
  | none => .error .notFound

/-- The last step is taken after a walk along the others. -/
theorem approach_split (fs : FileSystem) {before : List String} {last : String}
    (hsteps : p.steps = before ++ [last]) :
    fs.approach p = if p.toList.contains '\x00' then .error .nulInPath
      else if p.utf8ByteSize > maxPath then .error .nameTooLong
      else (fs.walk (fs.origin p) before).bind (fs.arrive p last) := by
  rw [approach, hsteps, List.reverse_append]
  congr 2
  show (fs.walk (fs.origin p) before.reverse.reverse).bind _ = _
  rw [List.reverse_reverse]
  congr 1
  funext here
  unfold arrive
  cases fs.node? here with
  | none => rfl
  | some node =>
    cases node with
    | file content => rfl
    | dir =>
      -- a step to the place itself or up from it is short
      unfold lastStep
      by_cases hself : last = "."
      · rw [hself]
        rfl
      · by_cases hup : last = ".."
        · rw [hup]
          rfl
        · simp [hself, hup]

theorem arrive_eq_ok {last : String} {pathEnd : PathEnd} {outer : Place}
    (h : fs.arrive p last outer = .ok (here, pathEnd)) :
    here = outer ∧ fs.node? outer = some .dir ∧ last.utf8ByteSize ≤ maxName ∧
      pathEnd = lastStep p last := by
  unfold arrive at h
  cases hnode : fs.node? outer with
  | none => simp [hnode] at h
  | some node =>
    cases node with
    | file content => simp [hnode] at h
    | dir =>
      simp only [hnode, except_guard_eq_ok_iff, Except.ok.injEq, Prod.mk.injEq] at h
      exact ⟨h.2.1.symm, rfl, Nat.not_lt.1 h.1, h.2.2.symm⟩

/-- What a path that gets to its last step is like: it has no step, or its last step is taken from
the directory that the others lead to. -/
theorem approach_cases_of_ok {pathEnd : PathEnd} (h : fs.approach p = .ok (here, pathEnd)) :
    '\x00' ∉ p.toList ∧ p.utf8ByteSize ≤ maxPath ∧
      (p.steps = [] ∧ p.isAbsolute = true ∧ here = [] ∧ pathEnd = .root ∨
        ∃ before last, p.steps = before ++ [last] ∧ fs.walk (fs.origin p) before = .ok here ∧
          fs.node? here = some .dir ∧ last.utf8ByteSize ≤ maxName ∧ pathEnd = lastStep p last) := by
  by_cases hsteps : p.steps = []
  · rw [approach, hsteps, except_guard_eq_ok_iff, except_guard_eq_ok_iff] at h
    obtain ⟨hnul, hshort, h⟩ := h
    refine ⟨fun hmem => hnul (List.contains_iff_mem.2 hmem), Nat.not_lt.1 hshort, Or.inl ?_⟩
    by_cases habsolute : p.isAbsolute = true
    · simp only [List.reverse_nil, if_pos habsolute] at h
      cases h
      exact ⟨hsteps, habsolute, rfl, rfl⟩
    · simp only [List.reverse_nil, if_neg habsolute] at h
      cases h
  · obtain ⟨before, last, hlast⟩ := exists_last_step hsteps
    rw [fs.approach_split hlast, except_guard_eq_ok_iff, except_guard_eq_ok_iff] at h
    obtain ⟨hnul, hshort, h⟩ := h
    obtain ⟨outer, hwalk, harrive⟩ := (except_bind_eq_ok_iff _ _ _).1 h
    obtain ⟨rfl, hdir, hshortLast, hend⟩ := arrive_eq_ok harrive
    exact ⟨fun hmem => hnul (List.contains_iff_mem.2 hmem), Nat.not_lt.1 hshort,
      Or.inr ⟨before, last, hlast, hwalk, hdir, hshortLast, hend⟩⟩

theorem approach_eq (fs : FileSystem) (hacc : p.Accepted) {before : List String} {last : String}
    (hsteps : p.steps = before ++ [last]) :
    fs.approach p = (fs.walk (fs.origin p) before).bind fun here =>
      match fs.node? here with
      | some .dir => .ok (here, lastStep p last)
      | some (.file _) => .error .notDirectory
      | none => .error .notFound := by
  have hnul : ¬ p.toList.contains '\x00' = true := fun h => hacc.noNul (List.contains_iff_mem.1 h)
  have hlast : last.utf8ByteSize ≤ maxName :=
    hacc.names last (hsteps ▸ List.mem_append_right before List.mem_cons_self)
  rw [fs.approach_split hsteps, if_neg hnul, if_neg (Nat.not_lt.2 hacc.short)]
  congr 1
  funext here
  unfold arrive
  rw [if_neg (Nat.not_lt.2 hlast)]

theorem way_eq (fs : FileSystem) {before : List String} {last : String}
    (hsteps : p.steps = before ++ [last]) :
    fs.way p = wayFrom (fs.origin p) before ++ [before.foldl descend (fs.origin p)] := by
  rw [way, hsteps, wayFrom_append]
  rfl

theorem placeOf_eq (fs : FileSystem) {before : List String} {last : String}
    (hsteps : p.steps = before ++ [last]) :
    fs.placeOf p = descend (before.foldl descend (fs.origin p)) last := by
  rw [placeOf, hsteps, List.foldl_append]
  rfl

/-- A path that takes its steps from directories gets to its last one. -/
theorem approach_of_passable (hacc : p.Accepted) (h : fs.Passable p) {before : List String}
    {last : String} (hsteps : p.steps = before ++ [last]) :
    fs.approach p = .ok (before.foldl descend (fs.origin p), lastStep p last) := by
  rw [Passable, fs.way_eq hsteps, List.forall_mem_append, List.forall_mem_singleton] at h
  have hshort : ∀ name ∈ before, name.utf8ByteSize ≤ maxName := fun name hname =>
    hacc.names name (hsteps ▸ List.mem_append_left [last] hname)
  have hlast : fs.node? (before.foldl descend (fs.origin p)) ≠ none := by
    rw [h.2]
    exact Option.some_ne_none _
  rw [fs.approach_eq hacc hsteps, walk_of_passable hshort h.1 hlast]
  simp only [Except.bind, h.2]

/-- The last step stays in a directory, leads up from it, or is a name in it. -/
theorem approach_cases (hacc : p.Accepted) (h : fs.Passable p) (hne : p.steps ≠ []) :
    ∃ here, fs.node? here = some .dir ∧
      (fs.approach p = .ok (here, .self) ∧ fs.placeOf p = here ∨
        fs.approach p = .ok (here, .up) ∧ fs.placeOf p = here.dropLast ∨
        ∃ name slash, fs.approach p = .ok (here, .name name slash) ∧
          fs.placeOf p = here ++ [name]) := by
  obtain ⟨before, last, hsteps⟩ := exists_last_step hne
  have happroach := approach_of_passable hacc h hsteps
  rw [Passable, fs.way_eq hsteps, List.forall_mem_append, List.forall_mem_singleton] at h
  rw [fs.placeOf_eq hsteps]
  generalize before.foldl descend (fs.origin p) = here at happroach h ⊢
  refine ⟨here, h.2, ?_⟩
  unfold lastStep at happroach
  unfold descend
  by_cases hself : last = "."
  · rw [if_pos hself] at happroach ⊢
    exact Or.inl ⟨happroach, rfl⟩
  · by_cases hup : last = ".."
    · rw [if_neg hself, if_pos hup] at happroach ⊢
      exact Or.inr (Or.inl ⟨happroach, rfl⟩)
    · rw [if_neg hself, if_neg hup] at happroach ⊢
      exact Or.inr (Or.inr ⟨last, _, happroach, rfl⟩)

/-- A path in whose way there is no file gets to its last step, or misses something before it. -/
theorem approach_of_unblocked (hwf : fs.WellFormed) (hacc : p.Accepted) (h : fs.Unblocked p)
    (hne : p.steps ≠ []) : fs.approach p = .error .notFound ∨ fs.Passable p := by
  obtain ⟨before, last, hsteps⟩ := exists_last_step hne
  rw [Unblocked, fs.way_eq hsteps, List.forall_mem_append, List.forall_mem_singleton] at h
  have hshort : ∀ name ∈ before, name.utf8ByteSize ≤ maxName := fun name hname =>
    hacc.names name (hsteps ▸ List.mem_append_left [last] hname)
  rw [fs.approach_eq hacc hsteps]
  rcases walk_of_unblocked hwf hshort h.1 with hwalk | ⟨hwalk, hdirs⟩
  · left
    rw [hwalk]
    rfl
  · rw [hwalk]
    cases hnode : fs.node? (before.foldl descend (fs.origin p)) with
    | none =>
      left
      simp only [Except.bind, hnode]
    | some node =>
      cases node with
      | file content => exact absurd hnode (h.2 content)
      | dir =>
        right
        rw [Passable, fs.way_eq hsteps, List.forall_mem_append, List.forall_mem_singleton]
        exact ⟨hdirs, hnode⟩

/-! ### What a path finds -/

theorem placeOf_of_no_steps (fs : FileSystem) (h : p.steps = []) : fs.placeOf p = fs.origin p := by
  rw [placeOf, h]
  rfl

theorem WellFormed.origin_dir (hwf : fs.WellFormed) (p : Path) :
    fs.node? (fs.origin p) = some .dir := by
  rw [origin]
  by_cases h : p.isAbsolute = true
  · rw [if_pos h, node?_nil]
  · rw [if_neg h, hwf.cwd]

/-- A path that leads up to a directory leads to its place. -/
theorem approach_eq_ok_dir (hwf : fs.WellFormed) {pathEnd : PathEnd}
    (h : fs.approach p = .ok (here, pathEnd)) (hname : ∀ n slash, pathEnd ≠ .name n slash) :
    fs.node? (fs.placeOf p) = some .dir := by
  obtain ⟨-, -, ⟨hsteps, -⟩ | ⟨before, last, hsteps, hwalk, hdir, -, hlast⟩⟩ :=
    approach_cases_of_ok h
  · rw [fs.placeOf_of_no_steps hsteps]
    exact hwf.origin_dir p
  · rw [walk_eq_ok hwalk] at hdir
    rw [fs.placeOf_eq hsteps, descend]
    by_cases hself : last = "."
    · rw [if_pos hself, hdir]
    · by_cases hup : last = ".."
      · rw [if_neg hself, if_pos hup]
        exact hwf.parent_dir hdir
      · rw [lastStep, if_neg hself, if_neg hup] at hlast
        exact absurd hlast (hname last _)

/-- A directory that a path finds is at the place of the path. -/
theorem find_eq_ok_dir (hwf : fs.WellFormed) (h : fs.find p = .ok (here, .dir)) :
    fs.node? (fs.placeOf p) = some .dir := by
  obtain ⟨⟨dir, pathEnd⟩, happroach, h⟩ := (except_bind_eq_ok_iff _ _ _).1 h
  cases pathEnd with
  | root => exact approach_eq_ok_dir hwf happroach nofun
  | self => exact approach_eq_ok_dir hwf happroach nofun
  | up => exact approach_eq_ok_dir hwf happroach nofun
  | name n slash =>
    rw [approach_eq_ok happroach]
    cases hnode : fs.node? (dir ++ [n]) with
    | none =>
      simp only [hnode] at h
      cases h
    | some node =>
      cases node with
      | dir => rfl
      | file content =>
        simp only [hnode] at h
        cases slash with
        | true => cases h
        | false => cases h

/-- A directory is found by every path that leads to it and has a step. -/
theorem find_dir (hacc : p.Accepted) (h : fs.Passable p) (hne : p.steps ≠ [])
    (hdir : fs.node? (fs.placeOf p) = some .dir) : fs.find p = .ok (fs.placeOf p, .dir) := by
  obtain ⟨here, -, hend⟩ := approach_cases hacc h hne
  rcases hend with ⟨happroach, hplace⟩ | ⟨happroach, hplace⟩ | ⟨name, slash, happroach, hplace⟩
  · rw [find, happroach, hplace]
    rfl
  · rw [find, happroach, hplace]
    rfl
  · rw [hplace] at hdir ⊢
    rw [find, happroach]
    simp only [bind, Except.bind, hdir]
    rfl

/-- Nothing is found where nothing is, and nothing else goes wrong on the way there. -/
theorem find_absent (hwf : fs.WellFormed) (hacc : p.Accepted) (h : fs.Unblocked p)
    (hnone : fs.node? (fs.placeOf p) = none) : fs.find p = .error .notFound := by
  have hne : p.steps ≠ [] := by
    intro hsteps
    rw [fs.placeOf_of_no_steps hsteps, hwf.origin_dir p] at hnone
    cases hnone
  rcases approach_of_unblocked hwf hacc h hne with happroach | hpass
  · rw [find, happroach]
    rfl
  · obtain ⟨here, hdir, hend⟩ := approach_cases hacc hpass hne
    rcases hend with ⟨-, hplace⟩ | ⟨-, hplace⟩ | ⟨name, slash, happroach, hplace⟩
    · rw [hplace, hdir] at hnone
      cases hnone
    · rw [hplace, hwf.parent_dir hdir] at hnone
      cases hnone
    · rw [hplace] at hnone
      rw [find, happroach]
      simp only [bind, Except.bind, hnone]
      rfl

/-- A path whose place a directory is leads to it, and no path of its beginning is a file. -/
structure Clear (fs : FileSystem) (p : Path) : Prop where
  unblocked : fs.Unblocked p
  passable : fs.node? (fs.placeOf p) = some .dir → fs.Passable p

theorem approach_join (hleaf : leaf.Plain) (hacc : (Path.join base leaf).Accepted)
    (h : fs.Passable (Path.join base leaf)) :
    fs.approach (Path.join base leaf) = .ok (fs.placeOf base, .name leaf false) := by
  have hsteps : (Path.join base leaf).steps = base.steps ++ [leaf] := by
    rw [Path.steps_join hleaf.not_absolute, hleaf.steps_eq]
  have hslash : decide ((Path.join base leaf).toList.getLast? = some '/') = false :=
    decide_eq_false (Path.getLast?_join_ne_slash hleaf)
  rw [approach_of_passable hacc h hsteps, lastStep, if_neg hleaf.ne_self, if_neg hleaf.ne_up,
    hslash, fs.origin_join base hleaf.not_absolute]
  rfl

section

variable (hwf : fs.WellFormed) (hleaf : leaf.Plain) (hacc : (Path.join base leaf).Accepted)
  (hbase : fs.Clear base) (hfile : ∀ content, fs.node? (fs.placeOf base) ≠ some (.file content))
include hwf hleaf

include hbase hfile in
theorem Clear.join : fs.Clear (Path.join base leaf) where
  unblocked := (fs.unblocked_join_iff base hleaf).2 ⟨hbase.unblocked, hfile⟩
  passable hdir := by
    have houter : fs.node? (fs.placeOf base) = some .dir := by
      refine hwf.parent _ leaf ?_
      rw [← fs.placeOf_join base hleaf, hdir]
      exact Option.some_ne_none _
    exact (fs.passable_join_iff base hleaf).2 ⟨hbase.passable houter, houter⟩

include hacc hbase hfile

/-- What a joined path finds. -/
theorem find_join : fs.find (Path.join base leaf) =
    match fs.node? (fs.placeOf base ++ [leaf]) with
    | some node => .ok (fs.placeOf base ++ [leaf], node)
    | none => .error .notFound := by
  cases hnode : fs.node? (fs.placeOf base ++ [leaf]) with
  | none =>
    rw [← fs.placeOf_join base hleaf] at hnode
    exact find_absent hwf hacc ((fs.unblocked_join_iff base hleaf).2 ⟨hbase.unblocked, hfile⟩) hnode
  | some node =>
    have houter : fs.node? (fs.placeOf base) = some .dir := by
      refine hwf.parent _ leaf ?_
      rw [hnode]
      exact Option.some_ne_none _
    have hpass := (fs.passable_join_iff base hleaf).2 ⟨hbase.passable houter, houter⟩
    rw [find, approach_join hleaf hacc hpass]
    simp only [bind, Except.bind, hnode]
    cases node with
    | dir => rfl
    | file content => rfl

theorem isDir_join :
    fs.isDir (Path.join base leaf) = true ↔ fs.node? (fs.placeOf base ++ [leaf]) = some .dir := by
  rw [isDir, find_join hwf hleaf hacc hbase hfile]
  cases fs.node? (fs.placeOf base ++ [leaf]) with
  | none => exact ⟨nofun, nofun⟩
  | some node =>
    cases node with
    | dir => exact ⟨fun _ => rfl, fun _ => rfl⟩
    | file content => exact ⟨nofun, nofun⟩

end

end Reclass.FileSystem
