import Mathlib.Tactic.Common
import Reclass.Cache.Store
import Reclass.Proofs.Act

/-!
# Where paths lead, and what operations leave there

A path names one place, whatever files there are (`FileSystem.placeOf`), and an operation that gets
through to the end of a path has come to that place. An operation that creates or replaces a file
does so at the place that its path names; all other files that are there afterwards were there
before, with the same content (`FileSystem.Adds`).
-/

set_option autoImplicit false

namespace Reclass

/-- A guard that does not hold lets a result through. -/
theorem except_guard_eq_ok_iff {ε α : Type} {c : Prop} [Decidable c] {e : ε} {x : Except ε α} {a : α} :
    (if c then .error e else x) = .ok a ↔ ¬ c ∧ x = .ok a := by
  by_cases hc : c
  · simp [hc]
  · simp [hc]

namespace Text

theorem splitOn_append_sep (sep : Char) (xs ys : List Char) :
    splitOn sep (xs ++ sep :: ys) = splitOn sep xs ++ splitOn sep ys := by
  induction xs with
  | nil => simp [splitOn]
  | cons x xs ih =>
    rw [List.cons_append, splitOn, splitOn, ih]
    by_cases hx : x = sep
    · rw [if_pos hx, if_pos hx, List.cons_append]
    · rw [if_neg hx, if_neg hx]
      cases hxs : splitOn sep xs with
      | nil => exact absurd hxs (splitOn_ne_nil sep xs)
      | cons part parts => rfl

theorem splitOn_of_notMem {sep : Char} {xs : List Char} (h : sep ∉ xs) : splitOn sep xs = [xs] := by
  induction xs with
  | nil => rfl
  | cons x xs ih =>
    rw [List.mem_cons, not_or] at h
    rw [splitOn, if_neg (Ne.symm h.1), ih h.2]

end Text

namespace Path

variable {base leaf : Path}

/-- The path is a single step that leads to something of its own name. -/
structure Plain (leaf : Path) : Prop where
  noSlash : '/' ∉ leaf.toList
  ne_empty : leaf ≠ ""
  ne_self : leaf ≠ "."
  ne_up : leaf ≠ ".."

theorem Plain.steps_eq (h : Plain leaf) : leaf.steps = [leaf] := by
  rw [steps, parts, Text.splitOn_of_notMem h.noSlash]
  simp [h.ne_empty]

theorem Plain.not_absolute (h : Plain leaf) : leaf.isAbsolute = false := by
  rw [isAbsolute, decide_eq_false_iff_not]
  intro hhead
  exact h.noSlash (List.mem_of_mem_head? hhead)

/-- A slash separates steps. -/
theorem steps_of_toList_eq {p : Path} {xs ys : List Char} (h : p.toList = xs ++ '/' :: ys) :
    p.steps = steps (String.ofList xs) ++ steps (String.ofList ys) := by
  simp only [steps, parts, h, Text.splitOn_append_sep, List.map_append, List.filter_append,
    String.toList_ofList]

theorem steps_join (h : leaf.isAbsolute = false) :
    (join base leaf).steps = base.steps ++ leaf.steps := by
  rw [join, h, if_neg Bool.false_ne_true]
  by_cases hbase : base = "" ∨ base.toList.getLast? = some '/'
  · rw [if_pos hbase]
    rcases hbase with rfl | hlast
    · rw [String.empty_append]
      rfl
    · -- the base ends with the slash that separates the two
      obtain ⟨xs, hxs⟩ := List.getLast?_eq_some_iff.1 hlast
      have hjoined : (base ++ leaf).toList = xs ++ '/' :: leaf.toList := by
        rw [String.toList_append, hxs, List.append_assoc, List.singleton_append]
      rw [steps_of_toList_eq hjoined, steps_of_toList_eq hxs, String.ofList_toList]
      simp [steps, parts, Text.splitOn]
  · rw [if_neg hbase]
    have hjoined : (base ++ "/" ++ leaf).toList = base.toList ++ '/' :: leaf.toList := by
      simp [String.toList_append]
    rw [steps_of_toList_eq hjoined, String.ofList_toList, String.ofList_toList]

theorem isAbsolute_join (h : leaf.isAbsolute = false) :
    (join base leaf).isAbsolute = base.isAbsolute := by
  rw [join, h, if_neg Bool.false_ne_true]
  by_cases hempty : base = ""
  · rw [if_pos (Or.inl hempty), hempty, String.empty_append, h]
    rfl
  · have hne : base.toList ≠ [] := fun hnil => hempty (String.toList_eq_nil_iff.1 hnil)
    unfold isAbsolute
    obtain ⟨c, cs, hbase⟩ := List.exists_cons_of_ne_nil hne
    by_cases hlast : base.toList.getLast? = some '/'
    · rw [if_pos (Or.inr hlast), String.toList_append, hbase]
      rfl
    · rw [if_neg (not_or.2 ⟨hempty, hlast⟩), String.toList_append, String.toList_append, hbase]
      rfl

/-- What is added to the leaf of a path is added to the path. -/
theorem join_append (suffix : String) (h : leaf.isAbsolute = false)
    (hsuffix : (leaf ++ suffix).isAbsolute = false) :
    join base leaf ++ suffix = join base (leaf ++ suffix) := by
  rw [join, join, h, hsuffix, if_neg Bool.false_ne_true, if_neg Bool.false_ne_true]
  by_cases hbase : base = "" ∨ base.toList.getLast? = some '/'
  · rw [if_pos hbase, if_pos hbase, String.append_assoc]
  · rw [if_neg hbase, if_neg hbase, String.append_assoc]

end Path

namespace FileSystem

variable {fs fs' fs'' : FileSystem} {p : Path} {here place : Place} {content : Bytes}

/-! ### Places -/

/-- A step that does not look at what is there. -/
def descend (here : Place) (name : String) : Place :=
  if name = "." then here else if name = ".." then here.dropLast else here ++ [name]

/-- The place that a path names. -/
def placeOf (fs : FileSystem) (p : Path) : Place := p.steps.foldl descend (fs.origin p)

theorem placeOf_congr (h : fs'.cwd = fs.cwd) (p : Path) : fs'.placeOf p = fs.placeOf p := by
  rw [placeOf, placeOf, origin, origin, h]

/-- A leaf lies in the place of its base. -/
theorem placeOf_join (fs : FileSystem) (base : Path) {leaf : Path} (h : leaf.Plain) :
    fs.placeOf (Path.join base leaf) = fs.placeOf base ++ [leaf] := by
  have habsolute := h.not_absolute
  rw [placeOf, placeOf, Path.steps_join habsolute, List.foldl_append, h.steps_eq, origin, origin,
    Path.isAbsolute_join habsolute, List.foldl_cons, List.foldl_nil, descend, if_neg h.ne_self,
    if_neg h.ne_up]

theorem step_eq_ok {name : String} {next : Place} (h : fs.step here name = .ok next) :
    next = descend here name := by
  unfold step at h
  unfold descend
  match hnode : fs.node? here with
  | none =>
    simp only [hnode] at h
    cases h
  | some (.file content) =>
    simp only [hnode] at h
    cases h
  | some .dir =>
    simp only [hnode] at h
    by_cases hself : name = "."
    · rw [if_pos hself] at h ⊢
      exact (Except.ok.inj h).symm
    · rw [if_neg hself] at h ⊢
      by_cases hup : name = ".."
      · rw [if_pos hup] at h ⊢
        exact (Except.ok.inj h).symm
      · rw [if_neg hup, except_guard_eq_ok_iff] at h
        rw [if_neg hup]
        cases hnext : fs.node? (here ++ [name]) with
        | none =>
          simp only [hnext] at h
          cases h.2
        | some _ =>
          simp only [hnext] at h
          exact (Except.ok.inj h.2).symm

theorem walk_eq_ok {names : List String} {last : Place} (h : fs.walk here names = .ok last) :
    last = names.foldl descend here := by
  induction names generalizing here with
  | nil => exact (Except.ok.inj h).symm
  | cons name names ih =>
    obtain ⟨next, hstep, hwalk⟩ := (except_bind_eq_ok_iff _ _ _).1 h
    rw [ih hwalk, step_eq_ok hstep]
    rfl

/-- A path that leads up to a name leads to the place of that name. -/
theorem approach_eq_ok {n : String} {slash : Bool} (h : fs.approach p = .ok (here, .name n slash)) :
    fs.placeOf p = here ++ [n] := by
  unfold approach at h
  rw [except_guard_eq_ok_iff, except_guard_eq_ok_iff] at h
  obtain ⟨-, -, h⟩ := h
  cases hsteps : p.steps.reverse with
  | nil =>
    simp only [hsteps] at h
    by_cases habsolute : p.isAbsolute = true
    · rw [if_pos habsolute] at h
      cases h
    · rw [if_neg habsolute] at h
      cases h
  | cons last before =>
    simp only [hsteps] at h
    obtain ⟨dir, hwalk, h⟩ := (except_bind_eq_ok_iff _ _ _).1 h
    have hsplit : p.steps = before.reverse ++ [last] := by
      rw [← List.reverse_reverse p.steps, hsteps, List.reverse_cons]
    rw [placeOf, hsplit, List.foldl_append, ← walk_eq_ok hwalk, List.foldl_cons, List.foldl_nil,
      descend]
    match hnode : fs.node? dir with
    | none =>
      simp only [hnode] at h
      cases h
    | some (.file content) =>
      simp only [hnode] at h
      cases h
    | some .dir =>
      simp only [hnode] at h
      by_cases hself : last = "."
      · rw [if_pos hself] at h
        cases h
      · by_cases hup : last = ".."
        · rw [if_neg hself, if_pos hup] at h
          cases h
        · rw [if_neg hself, if_neg hup, except_guard_eq_ok_iff] at h
          rw [if_neg hself, if_neg hup]
          cases h.2
          rfl

/-- A file that a path leads to lies at the place of the path. -/
theorem find_eq_ok (h : fs.find p = .ok (here, .file content)) :
    here = fs.placeOf p ∧ fs.node? here = some (.file content) := by
  obtain ⟨⟨dir, pathEnd⟩, happroach, h⟩ := (except_bind_eq_ok_iff _ _ _).1 h
  cases pathEnd with
  | root => cases h
  | self => cases h
  | up => cases h
  | name n slash =>
    cases hnode : fs.node? (dir ++ [n]) with
    | none =>
      simp only [hnode] at h
      cases h
    | some node =>
      cases node with
      | dir =>
        simp only [hnode] at h
        cases h
      | file found =>
        simp only [hnode] at h
        cases slash with
        | true => cases h
        | false =>
          cases h
          exact ⟨(approach_eq_ok happroach).symm, hnode⟩

/-- What is read from a path lies at its place. -/
theorem readFile_eq_ok (h : fs.readFile p = .ok content) :
    fs.node? (fs.placeOf p) = some (.file content) := by
  obtain ⟨⟨here, node⟩, hfind, h⟩ := (except_bind_eq_ok_iff _ _ _).1 h
  cases node with
  | dir => cases h
  | file found =>
    cases h
    obtain ⟨rfl, hnode⟩ := find_eq_ok hfind
    exact hnode

/-! ### What is at a place after a change -/

theorem lookup_map_replace (es : List (Place × Node)) (n : Node) :
    (es.map fun e => if e.1 = here then (here, n) else e).lookup place =
      if place = here then (es.lookup here).map fun _ => n else es.lookup place := by
  induction es with
  | nil =>
    by_cases hp : place = here
    · rw [if_pos hp]
      rfl
    · rw [if_neg hp]
      rfl
  | cons e es ih =>
    obtain ⟨at', node⟩ := e
    rw [List.map_cons]
    by_cases hp : place = here
    · subst hp
      rw [if_pos rfl] at ih ⊢
      by_cases he : at' = place
      · simp [he]
      · have he' : (place == at') = false := beq_eq_false_iff_ne.2 (Ne.symm he)
        simp only [if_neg he, List.lookup_cons, he']
        exact ih
    · rw [if_neg hp] at ih ⊢
      by_cases he : at' = here
      · have hp' : (place == here) = false := beq_eq_false_iff_ne.2 hp
        simp only [he, if_true, List.lookup_cons, hp']
        exact ih
      · simp only [if_neg he, List.lookup_cons, ih]

theorem node?_put (fs : FileSystem) (n : Node) (hne : here ≠ []) :
    (fs.put here n).node? place = if place = here then some n else fs.node? place := by
  unfold node? put
  by_cases hroot : place = []
  · rw [if_pos hroot, if_pos hroot, if_neg]
    rintro rfl
    exact hne hroot
  · simp only [if_neg hroot]
    by_cases hthere : (fs.entries.lookup here).isSome = true
    · obtain ⟨old, hold⟩ := Option.isSome_iff_exists.1 hthere
      rw [if_pos hthere, lookup_map_replace, hold]
      rfl
    · rw [if_neg hthere, List.lookup_append]
      rw [Option.not_isSome_iff_eq_none] at hthere
      by_cases hp : place = here
      · rw [if_pos hp, hp, hthere]
        simp
      · have hp' : (place == here) = false := beq_eq_false_iff_ne.2 hp
        rw [if_neg hp, List.lookup_cons, hp']
        simp

theorem lookup_filter_ne (es : List (Place × Node)) :
    (es.filter fun e => e.1 ≠ here).lookup place = if place = here then none else es.lookup place := by
  induction es with
  | nil =>
    by_cases hp : place = here
    · rw [if_pos hp]
      rfl
    · rw [if_neg hp]
      rfl
  | cons e es ih =>
    obtain ⟨at', node⟩ := e
    by_cases he : at' = here
    · rw [List.filter_cons_of_neg (by simpa using he), ih]
      by_cases hp : place = here
      · rw [if_pos hp, if_pos hp]
      · have hp' : (place == at') = false := beq_eq_false_iff_ne.2 (he ▸ hp)
        rw [if_neg hp, if_neg hp, List.lookup_cons, hp']
    · rw [List.filter_cons_of_pos (by simpa using he), List.lookup_cons, List.lookup_cons, ih]
      by_cases hp : place = here
      · have hp' : (place == at') = false := beq_eq_false_iff_ne.2 fun e => he (e ▸ hp)
        rw [if_pos hp, if_pos hp, hp']
      · rw [if_neg hp, if_neg hp]

/-- What is there after a removal was there before. -/
theorem node?_of_erase {node : Node} (h : (fs.erase here).node? place = some node) :
    fs.node? place = some node := by
  unfold node? erase at *
  by_cases hroot : place = []
  · rw [if_pos hroot] at h ⊢
    exact h
  · rw [if_neg hroot] at h ⊢
    rw [lookup_filter_ne] at h
    by_cases hp : place = here
    · rw [if_pos hp] at h
      cases h
    · rw [if_neg hp] at h
      exact h

/-! ### Creating directories one after the other -/

section

variable {motive : FileSystem → Prop} {ps : List Path}

/-- What creating any one directory of a list keeps, creating all of them keeps. -/
theorem makeDirs_keeps
    (hmake : ∀ q ∈ ps, ∀ before after, motive before → before.makeDir q = .ok after → motive after)
    (h : motive fs) : motive (fs.makeDirs ps).2 := by
  induction ps generalizing fs with
  | nil => exact h
  | cons p ps ih =>
    rw [List.forall_mem_cons] at hmake
    rw [makeDirs]
    cases hp : fs.makeDir p with
    | ok fs' => exact ih hmake.2 (hmake.1 fs fs' h hp)
    | error e =>
      dsimp only
      by_cases hthere : e = .exists ∧ fs.isDir p = true
      · rw [if_pos hthere]
        exact ih hmake.2 h
      · rw [if_neg hthere]
        exact h

/-- A climb creates at most one directory, and passes over others of its list. -/
theorem climb_keeps {passed passed' : List Path}
    (hmake : ∀ q ∈ ps, ∀ before after, motive before → before.makeDir q = .ok after → motive after)
    (h : motive fs) (hclimb : fs.climb ps passed = .ok (passed', fs')) :
    motive fs' ∧ ∀ q ∈ passed', q ∈ ps ∨ q ∈ passed := by
  induction ps generalizing passed with
  | nil =>
    cases hclimb
    exact ⟨h, fun q hq => Or.inr hq⟩
  | cons p ps ih =>
    rw [List.forall_mem_cons] at hmake
    rw [climb] at hclimb
    cases hp : fs.makeDir p with
    | ok made =>
      rw [hp] at hclimb
      cases hclimb
      exact ⟨hmake.1 fs _ h hp, fun q hq => Or.inr hq⟩
    | error e =>
      rw [hp] at hclimb
      by_cases hnone : e = .notFound
      · subst hnone
        obtain ⟨hkept, hpassed⟩ := ih hmake.2 hclimb
        refine ⟨hkept, fun q hq => ?_⟩
        rcases hpassed q hq with hq | hq
        · exact Or.inl (List.mem_cons_of_mem p hq)
        · rcases List.mem_cons.1 hq with rfl | hq
          · exact Or.inl List.mem_cons_self
          · exact Or.inr hq
      · have hend : (if e = .exists ∧ fs.isDir p = true then Except.ok (passed, fs) else .error e) =
            .ok (passed', fs') := by
          cases e with
          | notFound => exact absurd rfl hnone
          | _ => exact hclimb
        by_cases hthere : e = .exists ∧ fs.isDir p = true
        · rw [if_pos hthere] at hend
          cases hend
          exact ⟨h, fun q hq => Or.inr hq⟩
        · rw [if_neg hthere] at hend
          cases hend

/-- What creating any one of the directories on the way to a path keeps, creating all of them keeps,
also when it fails half-way. -/
theorem makeDirAll_keeps
    (hmake : ∀ q ∈ ancestors (p.steps.length + 1) p, ∀ before after, motive before →
      before.makeDir q = .ok after → motive after)
    (h : motive fs) : motive (fs.makeDirAll p).2 := by
  rw [makeDirAll]
  cases hclimb : fs.climb (ancestors (p.steps.length + 1) p) [] with
  | error e => exact h
  | ok climbed =>
    obtain ⟨passed, fs'⟩ := climbed
    obtain ⟨hkept, hpassed⟩ := climb_keeps hmake h hclimb
    refine makeDirs_keeps (fun q hq => ?_) hkept
    exact hmake q ((hpassed q hq).resolve_right List.not_mem_nil)

end

/-! ### Files that operations add -/

/-- The second file system starts paths where the first does, and has no files but those of the
first and some of which `new` holds. -/
structure Adds (fs fs' : FileSystem) (new : Place → Bytes → Prop) : Prop where
  cwd : fs'.cwd = fs.cwd
  file : ∀ place content, fs'.node? place = some (.file content) →
    fs.node? place = some (.file content) ∨ new place content

section Adds

variable {new : Place → Bytes → Prop}

theorem Adds.refl (fs : FileSystem) (new : Place → Bytes → Prop) : Adds fs fs new :=
  ⟨rfl, fun _ _ h => Or.inl h⟩

theorem Adds.trans (h : Adds fs fs' new) (h' : Adds fs' fs'' new) : Adds fs fs'' new where
  cwd := h'.cwd.trans h.cwd
  file place content hnode := by
    rcases h'.file place content hnode with hnode | hnew
    · exact h.file place content hnode
    · exact Or.inr hnew

theorem Adds.mono {new' : Place → Bytes → Prop} (h : Adds fs fs' new)
    (hnew : ∀ place content, new place content → new' place content) : Adds fs fs' new' :=
  ⟨h.cwd, fun place content hnode => (h.file place content hnode).imp_right (hnew place content)⟩

theorem adds_put_file (fs : FileSystem) (hne : here ≠ []) (hnew : new here content) :
    Adds fs (fs.put here (.file content)) new := by
  refine ⟨rfl, fun place found hnode => ?_⟩
  rw [node?_put fs _ hne] at hnode
  by_cases hp : place = here
  · rw [if_pos hp] at hnode
    cases hnode
    rw [hp]
    exact Or.inr hnew
  · rw [if_neg hp] at hnode
    exact Or.inl hnode

theorem adds_put_dir (fs : FileSystem) (hne : here ≠ []) (new : Place → Bytes → Prop) :
    Adds fs (fs.put here .dir) new := by
  refine ⟨rfl, fun place found hnode => ?_⟩
  rw [node?_put fs _ hne] at hnode
  by_cases hp : place = here
  · rw [if_pos hp] at hnode
    cases hnode
  · rw [if_neg hp] at hnode
    exact Or.inl hnode

theorem adds_erase (fs : FileSystem) (here : Place) (new : Place → Bytes → Prop) :
    Adds fs (fs.erase here) new :=
  ⟨rfl, fun _ _ hnode => Or.inl (node?_of_erase hnode)⟩

theorem makeDir_adds (new : Place → Bytes → Prop) (h : fs.makeDir p = .ok fs') :
    Adds fs fs' new := by
  obtain ⟨⟨here, pathEnd⟩, -, h⟩ := (except_bind_eq_ok_iff _ _ _).1 h
  cases pathEnd with
  | root => cases h
  | self => cases h
  | up => cases h
  | name n slash =>
    cases hnode : fs.node? (here ++ [n]) with
    | some node =>
      simp only [hnode] at h
      cases h
    | none =>
      simp only [hnode] at h
      cases h
      exact adds_put_dir fs (List.append_ne_nil_of_right_ne_nil here (List.cons_ne_nil n [])) new

theorem makeDirAll_adds (fs : FileSystem) (p : Path) (new : Place → Bytes → Prop) :
    Adds fs (fs.makeDirAll p).2 new :=
  makeDirAll_keeps (motive := fun made => Adds fs made new)
    (fun _ _ _ _ h hmake => h.trans (makeDir_adds new hmake)) (Adds.refl fs new)

theorem writeFile_eq_ok (h : fs.writeFile p content = .ok fs') :
    fs.placeOf p ≠ [] ∧ fs' = fs.put (fs.placeOf p) (.file content) := by
  obtain ⟨⟨here, pathEnd⟩, happroach, h⟩ := (except_bind_eq_ok_iff _ _ _).1 h
  cases pathEnd with
  | root => cases h
  | self => cases h
  | up => cases h
  | name n slash =>
    rw [approach_eq_ok happroach]
    refine ⟨List.append_ne_nil_of_right_ne_nil here (List.cons_ne_nil n []), ?_⟩
    cases slash with
    | true => cases h
    | false =>
      simp only [Bool.false_eq_true, if_false] at h
      cases hnode : fs.node? (here ++ [n]) with
      | none =>
        simp only [hnode] at h
        exact (Except.ok.inj h).symm
      | some node =>
        simp only [hnode] at h
        cases node with
        | dir => cases h
        | file found => exact (Except.ok.inj h).symm

/-- A file is written to the place of its path. -/
theorem writeFile_adds (h : fs.writeFile p content = .ok fs') :
    Adds fs fs' fun place found => place = fs.placeOf p ∧ found = content := by
  obtain ⟨hne, rfl⟩ := writeFile_eq_ok h
  exact adds_put_file fs hne ⟨rfl, rfl⟩

theorem node?_writeFile (h : fs.writeFile p content = .ok fs') :
    fs'.node? (fs.placeOf p) = some (.file content) := by
  obtain ⟨hne, rfl⟩ := writeFile_eq_ok h
  rw [node?_put fs _ hne, if_pos rfl]

/-- A file that is renamed appears at the place of its new path. -/
theorem renameFile_adds {old new : Path} (hold : fs.node? (fs.placeOf old) = some (.file content))
    (h : fs.renameFile old new = .ok fs') :
    Adds fs fs' fun place found => place = fs.placeOf new ∧ found = content := by
  obtain ⟨⟨source, node⟩, hfind, h⟩ := (except_bind_eq_ok_iff _ _ _).1 h
  cases node with
  | dir => cases h
  | file found =>
    -- what is moved is what lies at the old path
    obtain ⟨rfl, hnode⟩ := find_eq_ok hfind
    rw [hold] at hnode
    cases hnode
    obtain ⟨⟨here, pathEnd⟩, happroach, h⟩ := (except_bind_eq_ok_iff _ _ _).1 h
    cases pathEnd with
    | root => cases h
    | self => cases h
    | up => cases h
    | name n slash =>
      have hplace := approach_eq_ok happroach
      have hne : here ++ [n] ≠ [] := List.append_ne_nil_of_right_ne_nil here (List.cons_ne_nil n [])
      have hmoved : Adds fs ((fs.erase (fs.placeOf old)).put (here ++ [n]) (.file content))
          fun place found => place = fs.placeOf new ∧ found = content :=
        (adds_erase fs _ _).trans (adds_put_file _ hne ⟨hplace.symm, rfl⟩)
      cases slash with
      | true => cases h
      | false =>
        simp only [Bool.false_eq_true, if_false] at h
        have hlast : (if fs.placeOf old = here ++ [n] then Except.ok fs
            else .ok ((fs.erase (fs.placeOf old)).put (here ++ [n]) (.file content))) =
              (.ok fs' : Except OsError FileSystem) := by
          cases htarget : fs.node? (here ++ [n]) with
          | none =>
            simp only [htarget] at h
            exact h
          | some node =>
            simp only [htarget] at h
            cases node with
            | dir => cases h
            | file _ => exact h
        by_cases hsame : fs.placeOf old = here ++ [n]
        · rw [if_pos hsame] at hlast
          cases hlast
          exact Adds.refl fs _
        · rw [if_neg hsame] at hlast
          cases hlast
          exact hmoved

theorem removeFile_adds (new : Place → Bytes → Prop) (h : fs.removeFile p = .ok fs') :
    Adds fs fs' new := by
  obtain ⟨⟨here, node⟩, -, h⟩ := (except_bind_eq_ok_iff _ _ _).1 h
  cases node with
  | dir => cases h
  | file content =>
    cases h
    exact adds_erase fs here new

theorem tempBeside_adds (fs : FileSystem) (path : Path) (new : Place → Bytes → Prop) :
    Adds fs (fs.tempBeside path).2 new :=
  ⟨rfl, fun _ _ hnode => Or.inl hnode⟩

/-- A file that is put into place in one go appears at its place, and before that under a
temporary name. -/
theorem writeAtomically_adds (fs : FileSystem) (path : Path) (content : Bytes) :
    Adds fs (fs.writeAtomically path content).2 fun place found =>
      (place = fs.placeOf path ∨ place = fs.placeOf (fs.tempBeside path).1) ∧ found = content := by
  have hcounted := tempBeside_adds fs path fun place found =>
    (place = fs.placeOf path ∨ place = fs.placeOf (fs.tempBeside path).1) ∧ found = content
  rw [writeAtomically]
  generalize fs.tempBeside path = named at hcounted ⊢
  obtain ⟨temp, counted⟩ := named
  dsimp only at hcounted ⊢
  cases hwrite : counted.writeFile temp content with
  | error e => exact hcounted
  | ok written =>
    have hwritten := hcounted.trans ((writeFile_adds hwrite).mono fun place found h =>
      ⟨Or.inr (h.1.trans (placeOf_congr hcounted.cwd temp)), h.2⟩)
    have hnode : written.node? (written.placeOf temp) = some (.file content) := by
      rw [placeOf_congr (writeFile_adds hwrite).cwd]
      exact node?_writeFile hwrite
    dsimp only
    cases hrename : written.renameFile temp path with
    | ok renamed =>
      exact hwritten.trans ((renameFile_adds hnode hrename).mono fun place found h =>
        ⟨Or.inl (h.1.trans (placeOf_congr hwritten.cwd path)), h.2⟩)
    | error e =>
      dsimp only
      cases hremove : written.removeFile temp with
      | ok cleaned => exact hwritten.trans (removeFile_adds _ hremove)
      | error e' => exact hwritten

end Adds

end FileSystem

end Reclass
