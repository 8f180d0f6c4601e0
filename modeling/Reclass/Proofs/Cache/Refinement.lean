import Reclass.Proofs.Cache.FiniteMap
import Reclass.Proofs.Files.Operations

/-!
# The cache refines a finite map

Below the root of a cache lies the tree of a finite map (`TransformCache.Mirrors`). Each operation
does to the directory what it does to the map, whatever versions share the root, so each reply is
that of the map, and no temporary file is left (`TransformCache.refines_map`).

It takes a root at whose place nothing is and whose path leads neither through a file nor through a
place below the root itself. `TransformCache.not_refines_map` shows three roots that are absent when
they are looked up and on which the replies are others.
-/

set_option autoImplicit false

namespace Reclass

/-! ### The directory of a map -/

namespace FileSystem

/-- Nothing is at the place of the path, and the path leads there neither through a file nor through
what would be below. -/
structure Free (fs : FileSystem) (p : Path) : Prop where
  absent : fs.find p = .error .notFound
  vacant : fs.node? (fs.placeOf p) = none
  unblocked : fs.Unblocked p
  outside : ∀ place ∈ fs.way p, fs.placeOf p <+: place → place = fs.placeOf p

end FileSystem

theorem CacheKey.extension_join {key : CacheKey} (base : Path) (h : Path.Plain key.fileName) :
    Path.extension (Path.join base key.fileName) = some "class" := by
  rw [Path.extension_eq_class_iff (Path.fileName_join h)]
  refine ⟨key.qualifiedName ++ "#crc32=" ++ Text.decimal key.checksum.toNat, ?_, rfl⟩
  intro hempty
  have hlength := congrArg String.length hempty
  simp only [String.length_append] at hlength
  have hmark : "#crc32=".length = 7 := rfl
  have hnone : "".length = 0 := rfl
  omega

namespace TransformCache

/-- The results of a version and a key have paths that the file system takes. -/
structure Fits (root : Path) (version : String) (key : CacheKey) : Prop where
  plainVersion : Path.Plain version
  plainName : Path.Plain key.fileName
  accepted : (entryPath ⟨root, version⟩ key).Accepted

/-- Below the root lies the tree of the map, and the way to the root is clear. -/
structure Mirrors (root : Path) (fs : FileSystem) (m : CacheMap) : Prop where
  wellFormed : fs.WellFormed
  clear : fs.Clear root
  outside : ∀ place ∈ fs.way root, fs.placeOf root <+: place → place = fs.placeOf root
  cwd : ¬ fs.placeOf root <+: fs.cwd
  notFile : ∀ content, fs.node? (fs.placeOf root) ≠ some (.file content)
  absent : fs.node? (fs.placeOf root) = none → fs.find root = .error .notFound
  accepted : fs.node? (fs.placeOf root) ≠ none → root.Accepted
  below : ∀ rest, rest ≠ [] → ∀ node,
    fs.node? (fs.placeOf root ++ rest) = some node ↔ m.Shows rest node
  fits : ∀ e ∈ m.entries, Fits root e.1.1 e.1.2

/-- The second file system is the first one with the directory of a version and what leads
there. -/
structure Prepared (root : Path) (version : String) (fs opened : FileSystem) : Prop where
  wellFormed : opened.WellFormed
  grows : fs.Grows opened (fs.trail (versionDir ⟨root, version⟩))
  opens : opened.Opens (versionDir ⟨root, version⟩)
  below : ∀ rest, rest ≠ [] → opened.node? (fs.placeOf root ++ rest) =
    if rest = [version] then some .dir else fs.node? (fs.placeOf root ++ rest)

variable {root : Path} {fs fs' : FileSystem} {m : CacheMap} {version : String} {key : CacheKey}
  {result : Bytes}

/-- An absent root mirrors the map without results. -/
theorem mirrors_empty (hwf : fs.WellFormed) (hfree : fs.Free root) :
    Mirrors root fs .empty where
  wellFormed := hwf
  clear := ⟨hfree.unblocked, fun hdir => by
    rw [hfree.vacant] at hdir
    cases hdir⟩
  outside := hfree.outside
  cwd := by
    rintro ⟨rest, hrest⟩
    have hcwd := hwf.cwd
    rw [← hrest] at hcwd
    by_cases hnil : rest = []
    · rw [hnil, List.append_nil, hfree.vacant] at hcwd
      cases hcwd
    · have hdir := hwf.dir_of_prefix hnil (by rw [hcwd]; exact nofun)
      rw [hfree.vacant] at hdir
      cases hdir
  notFile content := by
    rw [hfree.vacant]
    exact nofun
  absent _ := hfree.absent
  accepted h := absurd hfree.vacant h
  below rest hne node := by
    refine ⟨fun hnode => ?_, fun h => absurd h CacheMap.not_shows_empty⟩
    have hdir := hwf.dir_of_prefix hne (by rw [hnode]; exact nofun)
    rw [hfree.vacant] at hdir
    cases hdir
  fits e he := absurd he List.not_mem_nil

namespace Mirrors

variable (h : Mirrors root fs m)
include h

theorem steps_ne_nil : root.steps ≠ [] := by
  intro hsteps
  refine h.cwd ?_
  rw [fs.placeOf_of_no_steps hsteps, FileSystem.origin]
  split
  · exact List.nil_prefix
  · exact List.prefix_refl fs.cwd

theorem node_version (version : String) (node : Node) :
    fs.node? (fs.placeOf root ++ [version]) = some node ↔
      node = .dir ∧ version ∈ m.versions :=
  (h.below [version] (List.cons_ne_nil version []) node).trans CacheMap.shows_version_iff

theorem node_result (version name : String) (node : Node) :
    fs.node? (fs.placeOf root ++ [version] ++ [name]) = some node ↔
      ∃ e ∈ m.results version, name = e.1.2.fileName ∧ node = .file e.2 := by
  rw [List.append_assoc]
  exact (h.below [version, name] (List.cons_ne_nil version [name]) node).trans
    CacheMap.shows_result_iff

theorem notFile_version (hversion : Path.Plain version) (content : Bytes) :
    fs.node? (fs.placeOf (Path.join root version)) ≠ some (.file content) := by
  rw [fs.placeOf_join root hversion, Ne, h.node_version]
  rintro ⟨⟨⟩, -⟩

theorem clear_version (hversion : Path.Plain version) : fs.Clear (Path.join root version) :=
  h.clear.join h.wellFormed hversion h.notFile

/-- What a path to a result finds. -/
theorem find_entry (hfits : Fits root version key) :
    fs.find (entryPath ⟨root, version⟩ key) = match m.load version key with
      | some result => .ok (fs.placeOf root ++ [version] ++ [key.fileName], .file result)
      | none => .error .notFound := by
  have hfind := FileSystem.find_join h.wellFormed hfits.plainName hfits.accepted
    (h.clear_version hfits.plainVersion) (h.notFile_version hfits.plainVersion)
  have hplace : fs.placeOf (versionDir ⟨root, version⟩) = fs.placeOf root ++ [version] :=
    fs.placeOf_join root hfits.plainVersion
  rw [hplace] at hfind
  rw [entryPath, hfind]
  cases hload : m.load version key with
  | some result =>
    have hmem := CacheMap.mem_results_iff.2 ⟨CacheMap.load_eq_some_iff.1 hload, rfl⟩
    rw [(h.node_result version key.fileName _).2 ⟨_, hmem, rfl, rfl⟩]
  | none =>
    have hnone : fs.node? (fs.placeOf root ++ [version] ++ [key.fileName]) = none := by
      refine Option.eq_none_iff_forall_ne_some.2 fun node hnode => ?_
      obtain ⟨⟨⟨version', key'⟩, result⟩, he, hname, -⟩ := (h.node_result _ _ _).1 hnode
      obtain ⟨hmem, hversion⟩ := CacheMap.mem_results_iff.1 he
      obtain rfl : version' = version := hversion
      obtain rfl : key = key' := CacheKey.fileName_inj hname
      exact CacheMap.load_eq_none_iff.1 hload result hmem
    rw [hnone]

/-- **Loading is looking up.** -/
theorem load_eq (hfits : Fits root version key) :
    load ⟨root, version⟩ key fs = .ok (m.load version key) := by
  unfold load
  rw [FileSystem.readFile, h.find_entry hfits]
  cases m.load version key with
  | some result => rfl
  | none => rfl

theorem shownLength_entry {e : (String × CacheKey) × Bytes} (he : e ∈ m.entries) :
    shownLength fs (entryPath ⟨root, e.1.1⟩ e.1.2) = e.2.length := by
  rw [shownLength, h.find_entry (h.fits e he), CacheMap.load_eq_some_iff.2 he]

theorem children_root : (fs.children (fs.placeOf root)).Perm m.versions := by
  refine (List.perm_ext_iff_of_nodup (h.wellFormed.nodup_children _) (List.nodup_dedup _)).2 ?_
  intro version
  rw [fs.mem_children_iff, Option.ne_none_iff_exists']
  simp only [h.node_version]
  exact ⟨fun ⟨_, _, hmem⟩ => hmem, fun hmem => ⟨.dir, rfl, hmem⟩⟩

theorem children_version (version : String) :
    (fs.children (fs.placeOf root ++ [version])).Perm
      ((m.results version).map fun e => e.1.2.fileName) := by
  refine (List.perm_ext_iff_of_nodup (h.wellFormed.nodup_children _) (m.nodup_names version)).2 ?_
  intro name
  rw [fs.mem_children_iff, Option.ne_none_iff_exists', List.mem_map]
  simp only [h.node_result]
  constructor
  · rintro ⟨node, e, he, rfl, -⟩
    exact ⟨e, he, rfl⟩
  · rintro ⟨e, he, rfl⟩
    exact ⟨.file e.2, e, he, rfl, rfl⟩

theorem accepted_version (hversion : version ∈ m.versions) :
    Path.Plain version ∧ (Path.join root version).Accepted := by
  obtain ⟨e, he, rfl⟩ := CacheMap.mem_versions_iff.1 hversion
  have hfits := h.fits e he
  exact ⟨hfits.plainVersion, hfits.accepted.of_join hfits.plainName.not_absolute⟩

/-- The statistics of a version count the results it has. -/
theorem versionStats_eq (current : String) (hversion : version ∈ m.versions) :
    versionStats ⟨root, current⟩ fs version = .ok (m.versionStats version) := by
  obtain ⟨hplain, haccepted⟩ := h.accepted_version hversion
  have hfind : fs.find (Path.join root version) = .ok (fs.placeOf root ++ [version], .dir) := by
    rw [FileSystem.find_join h.wellFormed hplain haccepted h.clear h.notFile,
      (h.node_version version .dir).2 ⟨rfl, hversion⟩]
  have hread : fs.readDir (Path.join root version) =
      .ok (fs.children (fs.placeOf root ++ [version])) := by
    rw [FileSystem.readDir, hfind]
    rfl
  have hperm := (h.children_version version).map (Path.join (Path.join root version))
  rw [List.map_map] at hperm
  have hfiles : ((fs.children (fs.placeOf root ++ [version])).map
      (Path.join (Path.join root version))).filter (fun p => Path.extension p = some "class") =
        (fs.children (fs.placeOf root ++ [version])).map (Path.join (Path.join root version)) := by
    refine List.filter_eq_self.2 fun p hp => ?_
    obtain ⟨e, he, rfl⟩ := List.mem_map.1 (hperm.mem_iff.1 hp)
    have hname := (h.fits e (CacheMap.mem_results_iff.1 he).1).plainName
    exact decide_eq_true (CacheKey.extension_join _ hname)
  have hsize : ((fs.children (fs.placeOf root ++ [version])).map
      (Path.join (Path.join root version))).foldl (fun n p => n + shownLength fs p) 0 =
        ((m.results version).map fun e => e.2.length).sum := by
    have hshown : ((m.results version).map
        (Path.join (Path.join root version) ∘ fun e => e.1.2.fileName)).map (shownLength fs) =
          (m.results version).map fun e => e.2.length := by
      rw [List.map_map]
      refine List.map_congr_left fun e he => ?_
      obtain ⟨hmem, rfl⟩ := CacheMap.mem_results_iff.1 he
      exact h.shownLength_entry hmem
    rw [← hshown, ← (hperm.map (shownLength fs)).sum_nat, List.sum_eq_foldl_nat]
    simp only [List.foldl_map]
  unfold versionStats
  dsimp only
  rw [hread]
  dsimp only
  rw [hfiles, hsize, List.length_map, (h.children_version version).length_eq, List.length_map]
  rfl

/-- **The statistics are those of the map.** -/
theorem stats_eq (version : String) :
    stats ⟨root, version⟩ fs = .ok ⟨root, version, m.stats⟩ := by
  cases hroot : fs.node? (fs.placeOf root) with
  | none =>
    have hversions : m.versions = [] := by
      have hnone : fs.children (fs.placeOf root) = [] := by
        refine List.eq_nil_iff_forall_not_mem.2 fun name hname => ?_
        rw [fs.mem_children_iff] at hname
        rw [h.wellFormed.parent _ name hname] at hroot
        cases hroot
      have hperm := h.children_root
      rw [hnone] at hperm
      exact hperm.nil_eq.symm
    have hread : fs.readDir root = .error .notFound := by
      rw [FileSystem.readDir, h.absent hroot]
      rfl
    rw [stats, hread, CacheMap.stats, hversions, List.mergeSort_nil]
    rfl
  | some node =>
    cases node with
    | file content => exact absurd hroot (h.notFile content)
    | dir =>
      have haccepted : root.Accepted := h.accepted (by rw [hroot]; exact nofun)
      have hread : fs.readDir root = .ok (fs.children (fs.placeOf root)) := by
        rw [FileSystem.readDir,
          FileSystem.find_dir haccepted (h.clear.passable hroot) h.steps_ne_nil hroot]
        rfl
      have hperm := h.children_root
      have hdirs : (fs.children (fs.placeOf root)).filter
          (fun name => fs.isDir (Path.join root name)) = fs.children (fs.placeOf root) := by
        refine List.filter_eq_self.2 fun name hname => ?_
        have hversion := hperm.mem_iff.1 hname
        obtain ⟨hplain, haccepted⟩ := h.accepted_version hversion
        exact (FileSystem.isDir_join h.wellFormed hplain haccepted h.clear h.notFile).2
          ((h.node_version name .dir).2 ⟨rfl, hversion⟩)
      have hrows : (m.versions.mergeSort fun a b => a ≤ b).mapM (versionStats ⟨root, version⟩ fs) =
          .ok m.stats := by
        refine except_mapM_eq_ok fun name hname => h.versionStats_eq version ?_
        exact (List.mergeSort_perm _ _).mem_iff.1 hname
      rw [stats, hread]
      dsimp only
      rw [hdirs, mergeSort_eq_of_perm hperm, hrows]
      rfl

/-- The directory of a version can be created. -/
theorem makeVersionDir (hfits : Fits root version key) :
    ∃ opened : FileSystem, fs.makeDirAll (versionDir ⟨root, version⟩) = (.ok (), opened) ∧
      Prepared root version fs opened := by
  have haccepted : (versionDir ⟨root, version⟩).Accepted :=
    hfits.accepted.of_join hfits.plainName.not_absolute
  have hplace : fs.placeOf (versionDir ⟨root, version⟩) = fs.placeOf root ++ [version] :=
    fs.placeOf_join root hfits.plainVersion
  have htrail : fs.trail (versionDir ⟨root, version⟩) =
      fs.way root ++ [fs.placeOf root] ++ [fs.placeOf root ++ [version]] := by
    rw [FileSystem.trail, hplace]
    exact congrArg (· ++ _) (fs.way_join root hfits.plainVersion)
  have hblock : ∀ place ∈ fs.trail (versionDir ⟨root, version⟩), ∀ content,
      fs.node? place ≠ some (.file content) := by
    rw [FileSystem.trail, List.forall_mem_append, List.forall_mem_singleton]
    exact ⟨(h.clear_version hfits.plainVersion).unblocked, h.notFile_version hfits.plainVersion⟩
  obtain ⟨opened, hrun, hwf, hgrows, hopens⟩ := FileSystem.makeDirAll_ok h.wellFormed haccepted
    (Path.tidy_join hfits.plainVersion) hblock
  refine ⟨opened, hrun, hwf, hgrows, hopens, fun rest hrest => ?_⟩
  by_cases hversion : rest = [version]
  · rw [if_pos hversion, hversion, ← hplace, ← FileSystem.placeOf_congr hgrows.cwd]
    exact hopens.dir
  · rw [if_neg hversion]
    refine (hgrows.node _).resolve_right fun hnew => hversion ?_
    -- of the places on the trail only that of the version is below the root
    have hmem := hnew.1
    rw [htrail, List.mem_append, List.mem_append, List.mem_singleton, List.mem_singleton] at hmem
    rcases hmem with (hway | hroot) | hplace
    · exact absurd (List.append_right_eq_self.1 (h.outside _ hway (List.prefix_append _ _))) hrest
    · exact absurd (List.append_right_eq_self.1 hroot) hrest
    · exact List.append_cancel_left hplace

/-- A result put into the directory of a version is not on the way to the root. -/
theorem opens_of_holds {opened written : FileSystem} (hversion : Path.Plain version)
    (hprepared : Prepared root version fs opened)
    (hholds : opened.Holds written (fs.placeOf root ++ [version] ++ [key.fileName]) result) :
    written.Opens root := by
  have hcwd : written.cwd = fs.cwd := hholds.cwd.trans hprepared.grows.cwd
  have hsame : ∀ place, (fs.placeOf root <+: place → place = fs.placeOf root) →
      written.node? place = opened.node? place := by
    intro place houtside
    rw [hholds.node, if_neg]
    rintro rfl
    rw [List.append_assoc] at houtside
    exact List.cons_ne_nil version _
      (List.append_right_eq_self.1 (houtside (List.prefix_append _ _)))
  obtain ⟨hpass, hdir⟩ := (opened.passable_join_iff root hversion).1 hprepared.opens.passable
  constructor
  · intro place hin
    rw [FileSystem.way_congr hcwd] at hin
    rw [hsame place (h.outside place hin)]
    exact hpass place (FileSystem.way_congr hprepared.grows.cwd root ▸ hin)
  · rw [FileSystem.placeOf_congr hcwd, hsame _ fun _ => rfl,
      ← FileSystem.placeOf_congr hprepared.grows.cwd]
    exact hdir

/-- Where the directory of a version has been created and a result put into it, the root mirrors the
map with the result. -/
theorem of_holds {opened written : FileSystem} (hfits : Fits root version key)
    (hprepared : Prepared root version fs opened)
    (hholds : opened.Holds written (fs.placeOf root ++ [version] ++ [key.fileName]) result) :
    Mirrors root written (m.store version key result) := by
  have hcwd : written.cwd = fs.cwd := hholds.cwd.trans hprepared.grows.cwd
  have hplace : written.placeOf root = fs.placeOf root := FileSystem.placeOf_congr hcwd root
  have hopens := h.opens_of_holds hfits.plainVersion hprepared hholds
  exact {
    wellFormed := hholds.wellFormed
    clear := by
      refine ⟨fun place hin content => ?_, fun _ => hopens.passable⟩
      rw [hopens.passable place hin]
      exact nofun
    outside := by
      rw [FileSystem.way_congr hcwd, hplace]
      exact h.outside
    cwd := by
      rw [hcwd, hplace]
      exact h.cwd
    notFile := by
      rw [hopens.dir]
      exact nofun
    absent := by
      rw [hopens.dir]
      exact nofun
    accepted := fun _ =>
      (hfits.accepted.of_join hfits.plainName.not_absolute).of_join hfits.plainVersion.not_absolute
    below := by
      intro rest hrest node
      have hentry : fs.placeOf root ++ [version] ++ [key.fileName] =
          fs.placeOf root ++ [version, key.fileName] := List.append_assoc _ _ _
      rw [hplace, hholds.node, CacheMap.shows_store_iff, hentry]
      by_cases hresult : rest = [version, key.fileName]
      · rw [if_pos hresult, if_pos (congrArg (fs.placeOf root ++ ·) hresult), Option.some.injEq,
          eq_comm]
      · rw [if_neg hresult, if_neg fun e => hresult (List.append_cancel_left e),
          hprepared.below rest hrest]
        by_cases hversion : rest = [version]
        · rw [if_pos hversion, Option.some.injEq, hversion, CacheMap.shows_version_iff]
          exact ⟨fun e => Or.inl ⟨rfl, e.symm⟩, fun h => h.elim (·.2.symm) (·.1.symm)⟩
        · rw [if_neg hversion, h.below rest hrest, or_iff_right fun e => hversion e.1]
    fits := by
      intro e he
      rcases CacheMap.mem_store_iff.1 he with ⟨he, -⟩ | rfl
      · exact h.fits e he
      · exact hfits }

/-- **Storing succeeds, and puts the result into the map.** -/
theorem store_ok (hfits : Fits root version key)
    (htemp : (fs.tempBeside (entryPath ⟨root, version⟩ key)).1.Accepted) (result : Bytes) :
    ∃ stored : FileSystem, store ⟨root, version⟩ key result fs =
        (.ok (entryPath ⟨root, version⟩ key), stored) ∧
      Mirrors root stored (m.store version key result) ∧ fs.Later stored 1 := by
  obtain ⟨opened, hmake, hprepared⟩ := h.makeVersionDir hfits
  have hplace : opened.placeOf (versionDir ⟨root, version⟩) = fs.placeOf root ++ [version] := by
    rw [FileSystem.placeOf_congr hprepared.grows.cwd]
    exact fs.placeOf_join root hfits.plainVersion
  have hresult : ∀ name, opened.node? (opened.placeOf (versionDir ⟨root, version⟩) ++ [name]) =
      fs.node? (fs.placeOf root ++ [version] ++ [name]) := by
    intro name
    rw [hplace, List.append_assoc]
    exact (hprepared.below [version, name] (List.cons_ne_nil _ _)).trans (if_neg nofun)
  -- nothing has the temporary name, and no directory the other one
  have htempName : (opened.tempBeside (entryPath ⟨root, version⟩ key)).1 =
      Path.join (versionDir ⟨root, version⟩)
        (key.fileName ++ FileSystem.tempSuffix fs.process fs.tempCount) := by
    rw [← hprepared.grows.process, ← hprepared.grows.tempCount]
    exact FileSystem.tempBeside_join _ hfits.plainName opened
  have hacctemp : (Path.join (versionDir ⟨root, version⟩)
      (key.fileName ++ FileSystem.tempSuffix fs.process fs.tempCount)).Accepted := by
    have hsame := FileSystem.tempBeside_join (versionDir ⟨root, version⟩) hfits.plainName fs
    exact hsame ▸ htemp
  have hfresh : opened.node? (opened.placeOf (versionDir ⟨root, version⟩) ++
      [key.fileName ++ FileSystem.tempSuffix fs.process fs.tempCount]) = none := by
    rw [hresult]
    refine Option.eq_none_iff_forall_ne_some.2 fun node hnode => ?_
    obtain ⟨e, -, hname, -⟩ := (h.node_result _ _ _).1 hnode
    exact e.1.2.fileName_ne_tempName _ _ _ hname.symm
  have hnot : opened.node? (opened.placeOf (versionDir ⟨root, version⟩) ++ [key.fileName]) ≠
      some .dir := by
    rw [hresult]
    intro hdir
    obtain ⟨e, -, -, ⟨⟩⟩ := (h.node_result _ _ _).1 hdir
  have hne : key.fileName ++ FileSystem.tempSuffix fs.process fs.tempCount ≠ key.fileName :=
    fun e => key.fileName_ne_tempName _ _ _ e.symm
  obtain ⟨written, hwrite, hholds⟩ := FileSystem.writeAtomically_ok hprepared.opens
    hprepared.wellFormed hfits.plainName (FileSystem.plain_tempName hfits.plainName _ _) htempName
    hfits.accepted hacctemp hne hfresh hnot result
  refine ⟨written, ?_, h.of_holds hfits hprepared (hplace ▸ hholds), ?_⟩
  · unfold store
    rw [hmake]
    dsimp only
    rw [entryPath, hwrite]
  · refine ⟨hholds.cwd.trans hprepared.grows.cwd,
      hholds.process.trans hprepared.grows.process, ?_⟩
    exact Nat.le_of_eq (hholds.tempCount.trans (congrArg (· + 1) hprepared.grows.tempCount))

/-- Where a place below the root, or the root itself, has been cleared, the root mirrors a map with
fewer results. -/
theorem of_cleared {place : Place} (hcleared : fs.Cleared fs' place)
    (hroot : fs.node? (fs.placeOf root) = some .dir) (hplace : fs.placeOf root <+: place)
    {left : CacheMap} (hleft : ∀ e ∈ left.entries, e ∈ m.entries)
    (hbelow : ∀ rest, rest ≠ [] → ∀ node,
      fs'.node? (fs.placeOf root ++ rest) = some node ↔ left.Shows rest node) :
    Mirrors root fs' left := by
  have hplaceOf : fs'.placeOf root = fs.placeOf root := FileSystem.placeOf_congr hcleared.cwd root
  have hway : fs'.way root = fs.way root := FileSystem.way_congr hcleared.cwd root
  have haccepted : root.Accepted := h.accepted (by rw [hroot]; exact nofun)
  have hblock : ∀ {there : Place}, (∀ content, fs.node? there ≠ some (.file content)) →
      ∀ content, fs'.node? there ≠ some (.file content) := by
    intro there hfile content
    rcases hcleared.node there with hsame | hnone
    · rw [hsame]
      exact hfile content
    · rw [hnone]
      exact nofun
  have hunblocked : fs'.Unblocked root := fun there hin =>
    hblock (h.clear.unblocked there (hway ▸ hin))
  exact {
    wellFormed := hcleared.wellFormed
    clear := by
      refine ⟨hunblocked, fun hdir there hin => ?_⟩
      rw [hway] at hin
      rw [hplaceOf] at hdir
      by_cases hin' : place <+: there
      · -- of what has been cleared only the root can be on the way
        rw [h.outside there hin (hplace.trans hin')]
        exact hdir
      · rw [hcleared.outside there hin']
        exact h.clear.passable hroot there hin
    outside := by
      rw [hway, hplaceOf]
      exact h.outside
    cwd := by
      rw [hcleared.cwd, hplaceOf]
      exact h.cwd
    notFile := by
      rw [hplaceOf]
      exact hblock h.notFile
    absent := FileSystem.find_absent hcleared.wellFormed haccepted hunblocked
    accepted := fun _ => haccepted
    below := by
      rw [hplaceOf]
      exact hbelow
    fits := fun e he => h.fits e (hleft e he) }

/-- Where the tree of the map is also that of one with fewer results, the root mirrors that one. -/
theorem of_shows {left : CacheMap} (hleft : ∀ e ∈ left.entries, e ∈ m.entries)
    (hshows : ∀ e ∈ m.entries, e ∈ left.entries) : Mirrors root fs left :=
  { h with
    below := by
      intro rest hrest node
      refine (h.below rest hrest node).trans ⟨fun hm => ?_, fun hm => ?_⟩
      · cases hm with
        | version he => exact .version (hshows _ he)
        | result he => exact .result (hshows _ he)
      · cases hm with
        | version he => exact .version (hleft _ he)
        | result he => exact .result (hleft _ he)
    fits := fun e he => h.fits e (hleft e he) }

/-- A version that has a result has a directory, in the directory of the root. -/
theorem dir_of_mem {e : (String × CacheKey) × Bytes} (he : e ∈ m.entries) :
    fs.node? (fs.placeOf root) = some .dir := by
  have hversion := CacheMap.mem_versions_iff.2 ⟨e, he, rfl⟩
  refine h.wellFormed.parent _ e.1.1 ?_
  rw [(h.node_version e.1.1 .dir).2 ⟨rfl, hversion⟩]
  exact nofun

/-- Clearing all drops every result. -/
theorem removeDirAll_root : Mirrors root (fs.removeDirAll root).2 .empty ∧
    fs.Later (fs.removeDirAll root).2 0 := by
  by_cases hroot : fs.node? (fs.placeOf root) = some .dir
  · have hfind := FileSystem.find_dir (h.accepted (by rw [hroot]; exact nofun))
      (h.clear.passable hroot) h.steps_ne_nil hroot
    have hcleared := FileSystem.removeDirAll_cleared h.wellFormed hfind h.cwd
    refine ⟨h.of_cleared hcleared hroot (List.prefix_refl _)
      (fun e he => absurd he List.not_mem_nil) fun rest hrest node => ?_, hcleared.later⟩
    rw [hcleared.inside rest hrest]
    exact ⟨nofun, fun hm => absurd hm CacheMap.not_shows_empty⟩
  · rw [FileSystem.removeDirAll_of_not_dir h.wellFormed hroot]
    exact ⟨h.of_shows (fun e he => absurd he List.not_mem_nil)
      fun e he => absurd (h.dir_of_mem he) hroot, FileSystem.Later.refl fs⟩

/-- Removing the directory of a version leaves nothing of it. -/
theorem cleared_version (hversion : Path.Plain version) (hthere : version ∈ m.versions) :
    fs.Cleared (fs.removeDirAll (Path.join root version)).2 (fs.placeOf root ++ [version]) ∧
      (fs.removeDirAll (Path.join root version)).2.node? (fs.placeOf root ++ [version]) = none := by
  have hplace := fs.placeOf_join root hversion
  rw [← hplace]
  have hdir : fs.node? (fs.placeOf (Path.join root version)) = some .dir := by
    rw [hplace]
    exact (h.node_version version .dir).2 ⟨rfl, hthere⟩
  obtain ⟨-, haccepted⟩ := h.accepted_version hthere
  have hopens : fs.Opens (Path.join root version) :=
    ⟨(h.clear_version hversion).passable hdir, hdir⟩
  have hne : (Path.join root version).steps ≠ [] := by
    rw [Path.steps_join hversion.not_absolute, hversion.steps_eq]
    exact List.concat_ne_nil version _
  have hfind := FileSystem.find_dir haccepted hopens.passable hne hdir
  -- neither relative paths nor the way to the version start or lead below it
  have hbelow : ∀ there, (fs.placeOf root <+: there → there = fs.placeOf root) →
      ¬ fs.placeOf (Path.join root version) <+: there := by
    intro there houtside hbegins
    rw [hplace] at hbegins
    rw [houtside ((List.prefix_append _ _).trans hbegins)] at hbegins
    have hlength := hbegins.length_le
    rw [List.length_append, List.length_singleton] at hlength
    omega
  have hcwd : ¬ fs.placeOf (Path.join root version) <+: fs.cwd :=
    hbelow fs.cwd fun hin => absurd hin h.cwd
  have hway : ∀ there ∈ fs.way (Path.join root version),
      ¬ fs.placeOf (Path.join root version) <+: there := by
    rw [fs.way_join root hversion, List.forall_mem_append, List.forall_mem_singleton]
    exact ⟨fun there hin => hbelow there (h.outside there hin), hbelow _ fun _ => rfl⟩
  exact ⟨FileSystem.removeDirAll_cleared h.wellFormed hfind hcwd,
    FileSystem.removeDirAll_join h.wellFormed hversion haccepted hopens hway hcwd⟩

/-- Clearing a version drops its results. -/
theorem removeDirAll_version (hversion : Path.Plain version) :
    Mirrors root (fs.removeDirAll (Path.join root version)).2 (m.clear version) ∧
      fs.Later (fs.removeDirAll (Path.join root version)).2 0 := by
  have hleft : ∀ e ∈ (m.clear version).entries, e ∈ m.entries := fun e he =>
    (CacheMap.mem_clear_iff.1 he).1
  by_cases hthere : version ∈ m.versions
  · obtain ⟨hcleared, hgone⟩ := h.cleared_version hversion hthere
    obtain ⟨e, he, -⟩ := CacheMap.mem_versions_iff.1 hthere
    refine ⟨h.of_cleared hcleared (h.dir_of_mem he) (List.prefix_append _ _) hleft
      fun rest hrest node => ?_, hcleared.later⟩
    rw [CacheMap.shows_clear_iff]
    by_cases hin : [version] <+: rest
    · obtain ⟨more, rfl⟩ := hin
      have hnone : (fs.removeDirAll (Path.join root version)).2.node?
          (fs.placeOf root ++ ([version] ++ more)) = none := by
        rw [← List.append_assoc]
        by_cases hmore : more = []
        · rw [hmore, List.append_nil, hgone]
        · exact hcleared.inside more hmore
      rw [hnone]
      exact ⟨nofun, fun hm => absurd (List.prefix_append [version] more) hm.2⟩
    · have houtside : ¬ fs.placeOf root ++ [version] <+: fs.placeOf root ++ rest :=
        fun hbegins => hin ((List.prefix_append_right_inj _).1 hbegins)
      rw [hcleared.outside _ houtside, h.below rest hrest, and_iff_left hin]
  · have hdir : fs.node? (fs.placeOf (Path.join root version)) ≠ some .dir := by
      rw [fs.placeOf_join root hversion, Ne, h.node_version]
      exact fun hnode => hthere hnode.2
    rw [FileSystem.removeDirAll_of_not_dir h.wellFormed hdir]
    refine ⟨h.of_shows hleft fun e he => CacheMap.mem_clear_iff.2 ⟨he, fun hv => ?_⟩,
      FileSystem.Later.refl fs⟩
    exact hthere (CacheMap.mem_versions_iff.2 ⟨e, he, hv⟩)

end Mirrors

theorem clear_snd (c : TransformCache) (all : Bool) (fs : FileSystem) :
    (c.clear all fs).2 = (fs.removeDirAll (if all then c.root else c.versionDir)).2 := by
  rw [clear]
  generalize fs.removeDirAll (if all then c.root else c.versionDir) = removed
  obtain ⟨result, after⟩ := removed
  cases result with
  | ok _ => rfl
  | error e => cases e <;> rfl

end TransformCache

/-! ### Calls -/

/-- A call of one of the caches over a root. -/
inductive CacheCall where
  | store (version className : String) (input result : Bytes)
  | load (version className : String) (input : Bytes)
  | clear (version : String) (all : Bool)
  | stats (version : String)
  deriving DecidableEq

/-- What a call yields. -/
inductive CacheReply where
  | stored (reply : Except StorageError Path)
  | loaded (reply : Except StorageError (Option Bytes))
  | cleared (reply : Except StorageError Unit)
  | counted (reply : Except StorageError CacheStats)
  deriving DecidableEq

namespace CacheCall

/-- Makes the call. -/
def perform (root : Path) : CacheCall → FileSystem → CacheReply × FileSystem
  | store version className input result, fs =>
    let (reply, fs) := TransformCache.store ⟨root, version⟩ (.ofInput className input) result fs
    (.stored reply, fs)
  | load version className input, fs =>
    (.loaded (TransformCache.load ⟨root, version⟩ (.ofInput className input) fs), fs)
  | clear version all, fs =>
    let (reply, fs) := TransformCache.clear ⟨root, version⟩ all fs
    (.cleared reply, fs)
  | stats version, fs => (.counted (TransformCache.stats ⟨root, version⟩ fs), fs)

/-- The file system after calls. -/
def after (root : Path) (calls : List CacheCall) (fs : FileSystem) : FileSystem :=
  calls.foldl (fun fs call => (call.perform root fs).2) fs

/-- What the call does to the map. -/
def update : CacheCall → CacheMap → CacheMap
  | store version className input result, m => m.store version (.ofInput className input) result
  | load _ _ _, m => m
  | clear _ true, _ => .empty
  | clear version false, m => m.clear version
  | stats _, m => m

/-- What the call yields by the map. It does not tell whether what was cleared could be removed
itself. -/
def reply? (root : Path) (m : CacheMap) : CacheCall → Option CacheReply
  | store version className input _ =>
    some (.stored (.ok (TransformCache.entryPath ⟨root, version⟩ (.ofInput className input))))
  | load version className input =>
    some (.loaded (.ok (m.load version (.ofInput className input))))
  | clear _ _ => none
  | stats version => some (.counted (.ok ⟨root, version, m.stats⟩))

/-- The version is a plain step, and the file system takes the path of the result, and those of the
temporary files for it that a process names before it has named `bound`. -/
def Accepted (root : Path) (process bound : Nat) : CacheCall → Prop
  | store version className input _ => Path.Plain version ∧
    (TransformCache.entryPath ⟨root, version⟩ (.ofInput className input)).Accepted ∧
    ∀ count < bound, Path.Accepted (TransformCache.entryPath ⟨root, version⟩
      (.ofInput className input) ++ FileSystem.tempSuffix process count)
  | load version className input => Path.Plain version ∧
    (TransformCache.entryPath ⟨root, version⟩ (.ofInput className input)).Accepted
  | clear version _ => Path.Plain version
  | stats version => Path.Plain version

instance (root : Path) (process bound : Nat) :
    (call : CacheCall) → Decidable (call.Accepted root process bound)
  | .store _ _ _ _ => inferInstanceAs (Decidable (_ ∧ _ ∧ _))
  | .load _ _ _ => inferInstanceAs (Decidable (_ ∧ _))
  | .clear version _ => inferInstanceAs (Decidable (Path.Plain version))
  | .stats version => inferInstanceAs (Decidable (Path.Plain version))

end CacheCall

/-- The map after calls. -/
def CacheMap.ofCalls (calls : List CacheCall) : CacheMap :=
  calls.foldl (fun m call => call.update m) .empty

theorem CacheKey.plain_ofInput (className : String) (input : Bytes) :
    Path.Plain (CacheKey.ofInput className input).fileName :=
  TransformRequest.plain_fileName ⟨⟨0⟩, className, none, input⟩

namespace TransformCache

variable {root : Path} {fs : FileSystem} {m : CacheMap}

/-- **One call.** It yields what the map says, and does to the directory what it does to the map. -/
theorem Mirrors.perform (h : Mirrors root fs m) {call : CacheCall} {bound : Nat}
    (hcall : call.Accepted root fs.process bound) (hbound : fs.tempCount < bound) :
    Mirrors root (call.perform root fs).2 (call.update m) ∧ fs.Later (call.perform root fs).2 1 ∧
      ∀ reply ∈ call.reply? root m, (call.perform root fs).1 = reply := by
  have hsame := (FileSystem.Later.refl fs).mono (Nat.zero_le 1)
  cases call with
  | store version className input result =>
    obtain ⟨hversion, haccepted, htemp⟩ := hcall
    have htemp' := htemp fs.tempCount hbound
    rw [← fs.tempBeside_fst] at htemp'
    obtain ⟨stored, hstore, hmirrors, hlater⟩ := h.store_ok
      ⟨hversion, CacheKey.plain_ofInput className input, haccepted⟩ htemp' result
    rw [CacheCall.perform, hstore]
    refine ⟨hmirrors, hlater, ?_⟩
    rintro reply ⟨⟩
    rfl
  | load version className input =>
    refine ⟨h, hsame, ?_⟩
    rintro reply ⟨⟩
    exact congrArg CacheReply.loaded
      (h.load_eq ⟨hcall.1, CacheKey.plain_ofInput className input, hcall.2⟩)
  | clear version all =>
    have hstate : ((CacheCall.clear version all).perform root fs).2 =
        (fs.removeDirAll (if all then root else Path.join root version)).2 :=
      clear_snd ⟨root, version⟩ all fs
    rw [hstate]
    cases all with
    | false =>
      obtain ⟨hmirrors, hlater⟩ := h.removeDirAll_version hcall
      exact ⟨hmirrors, hlater.mono (Nat.zero_le 1), nofun⟩
    | true =>
      obtain ⟨hmirrors, hlater⟩ := h.removeDirAll_root
      exact ⟨hmirrors, hlater.mono (Nat.zero_le 1), nofun⟩
  | stats version =>
    refine ⟨h, hsame, ?_⟩
    rintro reply ⟨⟩
    exact congrArg CacheReply.counted (h.stats_eq version)

/-- **Any calls.** They do to the directory what they do to the map. -/
theorem Mirrors.after (h : Mirrors root fs m) {calls : List CacheCall} {bound : Nat}
    (hcalls : ∀ call ∈ calls, call.Accepted root fs.process bound)
    (hbound : fs.tempCount + calls.length ≤ bound) :
    Mirrors root (CacheCall.after root calls fs) (calls.foldl (fun m call => call.update m) m) ∧
      fs.Later (CacheCall.after root calls fs) calls.length := by
  induction calls generalizing fs m with
  | nil => exact ⟨h, FileSystem.Later.refl fs⟩
  | cons call calls ih =>
    rw [List.forall_mem_cons] at hcalls
    rw [List.length_cons] at hbound ⊢
    obtain ⟨hstep, hlater, -⟩ := h.perform hcalls.1 (by omega)
    have hcount := hlater.tempCount
    obtain ⟨hrest, hlater'⟩ := ih hstep
      (fun other hother => hlater.process ▸ hcalls.2 other hother) (by omega)
    exact ⟨hrest, (hlater.trans hlater').mono (by omega)⟩

/-- Every file below the root is a result of the map. -/
theorem Mirrors.file_below (h : Mirrors root fs m) {place : Place} {content : Bytes}
    (hbelow : fs.placeOf root <+: place) (hfile : fs.node? place = some (.file content)) :
    ∃ e ∈ m.entries, place = fs.placeOf (entryPath ⟨root, e.1.1⟩ e.1.2) ∧ content = e.2 := by
  obtain ⟨rest, rfl⟩ := hbelow
  have hrest : rest ≠ [] := by
    rintro rfl
    rw [List.append_nil] at hfile
    exact h.notFile content hfile
  have hshows := (h.below rest hrest _).1 hfile
  cases hshows with
  | @result e he =>
    have hfits := h.fits e he
    have hplace : fs.placeOf (versionDir ⟨root, e.1.1⟩) = fs.placeOf root ++ [e.1.1] :=
      fs.placeOf_join root hfits.plainVersion
    refine ⟨e, he, ?_, rfl⟩
    rw [entryPath, fs.placeOf_join _ hfits.plainName, hplace, List.append_assoc]
    rfl

/-- **A cache is a finite map.** After any calls of caches over one root, of whatever versions, the
next call yields what the map says; as the calls are any, so did each of them. Below the root there
is no file but the results of the map, so no temporary file is left. -/
theorem refines_map (root : Path) (fs : FileSystem) (hwf : fs.WellFormed) (hfree : fs.Free root)
    (calls : List CacheCall) (next : CacheCall)
    (hcalls : ∀ call ∈ calls ++ [next],
      call.Accepted root fs.process (fs.tempCount + calls.length + 1)) :
    (∀ reply ∈ next.reply? root (.ofCalls calls),
        (next.perform root (CacheCall.after root calls fs)).1 = reply) ∧
      ∀ place content, fs.placeOf root <+: place →
        (CacheCall.after root calls fs).node? place = some (.file content) →
          ∃ e ∈ (CacheMap.ofCalls calls).entries,
            place = fs.placeOf (entryPath ⟨root, e.1.1⟩ e.1.2) ∧ content = e.2 := by
  rw [List.forall_mem_append, List.forall_mem_singleton] at hcalls
  obtain ⟨hmirrors, hlater⟩ := (mirrors_empty hwf hfree).after hcalls.1 (Nat.le_succ _)
  constructor
  · have hnext := hcalls.2
    rw [← hlater.process] at hnext
    exact (hmirrors.perform hnext (Nat.lt_succ_of_le hlater.tempCount)).2.2
  · intro place content hbelow hfile
    have hplaces := FileSystem.placeOf_congr hlater.cwd
    rw [← hplaces] at hbelow
    obtain ⟨e, he, hplace, hcontent⟩ := hmirrors.file_below hbelow hfile
    exact ⟨e, he, hplace.trans (hplaces _), hcontent⟩

/-- Two versions share a root; one result is replaced, and one version is cleared. -/
def twoVersions : List CacheCall :=
  [.store "1" "a/A" [1] [1, 2, 3], .store "2" "a/A" [1] [4], .store "1" "a.A" [1] [5, 6],
    .clear "2" false]

theorem refines_map_twoVersions :
    ((CacheCall.stats "2").perform "cache" (CacheCall.after "cache" twoVersions ⟨[], [], 1, 0⟩)).1 =
      .counted (.ok ⟨"cache", "2", [⟨"1", 1, 2⟩]⟩) := by
  have hwf : FileSystem.WellFormed ⟨[], [], 1, 0⟩ := FileSystem.wellFormed_of_no_entries rfl rfl
  have hfree : FileSystem.Free ⟨[], [], 1, 0⟩ "cache" := by
    refine ⟨by decide +kernel, by decide +kernel, fun place _ content hfile => ?_,
      by decide +kernel⟩
    rw [FileSystem.node?_of_no_entries rfl] at hfile
    by_cases hroot : place = []
    · rw [if_pos hroot] at hfile
      cases hfile
    · rw [if_neg hroot] at hfile
      cases hfile
  have hcalls : ∀ call ∈ twoVersions ++ [.stats "2"], call.Accepted "cache" 1 5 := by
    decide +kernel
  refine (refines_map "cache" ⟨[], [], 1, 0⟩ hwf hfree twoVersions (.stats "2") hcalls).1 _ ?_
  decide +kernel

/-- The root is absent when it is looked up, the calls are accepted, and yet the last of them does
not yield what the map says. -/
structure Departs (root : Path) (fs : FileSystem) (calls : List CacheCall) (next : CacheCall) :
    Prop where
  wellFormed : fs.WellFormed
  absent : fs.find root = .error .notFound
  accepted : ∀ call ∈ calls ++ [next],
    call.Accepted root fs.process (fs.tempCount + calls.length + 1)
  reply : ∃ reply ∈ next.reply? root (.ofCalls calls),
    (next.perform root (CacheCall.after root calls fs)).1 ≠ reply

/-- **Not every root that is absent will do.** One path leads through a place below the root, which
is then listed as a version. One is empty and names the directory where relative paths start. One
leads through a file, once the directory before it has been created. -/
theorem not_refines_map :
    Departs "x/y/.." ⟨[], [], 1, 0⟩ [.store "1" "a/A" [] [1, 2, 3], .clear "1" false]
        (.stats "1") ∧
      Departs "" ⟨[], [], 1, 0⟩ [.store "1" "a/A" [] [1, 2, 3]] (.stats "1") ∧
      Departs "x/../f/r" ⟨[(["f"], .file [])], [], 1, 0⟩ [.store "1" "a/A" [] [1, 2, 3]]
        (.load "1" "a/A" []) := by
  have hempty : FileSystem.WellFormed ⟨[], [], 1, 0⟩ := FileSystem.wellFormed_of_no_entries rfl rfl
  have hfile : FileSystem.WellFormed ⟨[(["f"], .file [])], [], 1, 0⟩ :=
    hempty.put (List.cons_ne_nil "f" []) (by decide +kernel) (by decide +kernel) (.file [])
  exact ⟨⟨hempty, by decide +kernel, by decide +kernel, by decide +kernel⟩,
    ⟨hempty, by decide +kernel, by decide +kernel, by decide +kernel⟩,
    ⟨hfile, by decide +kernel, by decide +kernel, by decide +kernel⟩⟩

end TransformCache

end Reclass
