import Reclass.Proofs.Cache.Refinement
import Reclass.Proofs.Files.Elsewhere

/-!
# Versions of a cache

A cache keeps the results of a version in a directory that has the name of the version. When that
name is a single step of a path, storing results of the version and clearing it changes nothing but
what is in that directory, and makes at most the directories that lead to it
(`CacheCall.after_confined`); so what is loaded through another version stays as it is
(`TransformCache.versions_isolated`). A version is any text, though, and it is joined to the root as
it is. One that is empty, or has a slash, or leads up, names a directory that other versions share,
or that holds the whole cache or what lies beside it (`TransformCache.not_versions_isolated`).
-/

set_option autoImplicit false

namespace Reclass

open FileSystem (Confined)

variable {root : Path} {fs : FileSystem} {v w : String}

namespace FileSystem

variable {fs' : FileSystem} {p : Path} {here place : Place} {name other : String}

/-- The path comes from outside: what it leads through does not lie below its own place. -/
def FromOutside (fs : FileSystem) (p : Path) : Prop :=
  ∀ place ∈ fs.way p, fs.placeOf p <+: place → place = fs.placeOf p

theorem FromOutside.eq_of_mem_trail (h : fs.FromOutside p) (hplace : place ∈ fs.trail p)
    (hbelow : fs.placeOf p <+: place) : place = fs.placeOf p := by
  rcases List.mem_append.1 hplace with hway | hend
  · exact h place hway hbelow
  · exact List.mem_singleton.1 hend

/-- What lies in a directory is not on the trail of its path. -/
theorem FromOutside.notMem_trail (h : fs.FromOutside p) {rest : List String} (hne : rest ≠ []) :
    fs.placeOf p ++ rest ∉ fs.trail p := by
  intro hplace
  have hsame := h.eq_of_mem_trail hplace (List.prefix_append _ rest)
  exact hne (List.append_right_eq_self.1 hsame)

theorem FromOutside.not_prefix (h : fs.FromOutside p) (hplace : place ∈ fs.trail p) :
    ¬ fs.placeOf p ++ [name] <+: place := by
  intro hbelow
  have hsame := h.eq_of_mem_trail hplace ((List.prefix_append _ [name]).trans hbelow)
  have hlength := hbelow.length_le
  simp only [hsame, List.length_append, List.length_singleton] at hlength
  omega

theorem not_prefix_of_ne (hne : name ≠ other) (rest : List String) :
    ¬ here ++ [name] <+: here ++ other :: rest := by
  intro hbelow
  rw [List.prefix_append_right_inj, List.cons_prefix_cons] at hbelow
  exact hne hbelow.1

end FileSystem

namespace TransformCache

/-- A store touches its result and the temporary file, and makes directories on the way. -/
theorem store_touches {c : TransformCache} (k : CacheKey) (output : Bytes) :
    FileSystem.Confined fs (c.store k output fs).2 (· ∈ fs.trail c.versionDir) fun place =>
      place = fs.placeOf (c.entryPath k) ∨
        place = fs.placeOf (fs.tempBeside (c.entryPath k)).1 := by
  have hgrows := fs.makeDirAll_grows c.versionDir
  have htemp : (fs.makeDirAll c.versionDir).2.placeOf
      ((fs.makeDirAll c.versionDir).2.tempBeside (c.entryPath k)).1 =
        fs.placeOf (fs.tempBeside (c.entryPath k)).1 := by
    rw [FileSystem.tempBeside_fst, FileSystem.tempBeside_fst, hgrows.process, hgrows.tempCount,
      FileSystem.placeOf_congr hgrows.cwd]
  have hput := (fs.makeDirAll c.versionDir).2.writeAtomically_confined (c.entryPath k) output
    (· ∈ fs.trail c.versionDir)
  rw [htemp, FileSystem.placeOf_congr hgrows.cwd] at hput
  exact store_snd_cases (motive := fun after => FileSystem.Confined fs after
    (· ∈ fs.trail c.versionDir) fun place => place = fs.placeOf (c.entryPath k) ∨
      place = fs.placeOf (fs.tempBeside (c.entryPath k)).1)
    hgrows.confined (hgrows.confined.trans hput)

/-- Storing a result changes nothing outside the directory of the version, but makes the directories
that lead there, also when it fails half-way. -/
theorem store_confined (hv : Path.Plain v) {key : CacheKey} (hname : Path.Plain key.fileName)
    (root : Path) (result : Bytes) (fs : FileSystem) :
    Confined fs (store ⟨root, v⟩ key result fs).2 (· ∈ fs.trail root)
      (fs.placeOf root ++ [v] <+: ·) := by
  have hversion : fs.placeOf (Path.join root v) = fs.placeOf root ++ [v] := fs.placeOf_join root hv
  -- the result and its temporary file lie in the directory of the version
  have hbelow : ∀ leaf : Path, leaf.Plain →
      fs.placeOf root ++ [v] <+: fs.placeOf (Path.join (Path.join root v) leaf) := by
    intro leaf hleaf
    rw [fs.placeOf_join _ hleaf, hversion]
    exact List.prefix_append _ [leaf]
  refine (store_touches key result).mono ?_ ?_
  · intro place hplace
    rw [versionDir, FileSystem.trail, fs.way_join root hv, List.mem_append,
      List.mem_singleton] at hplace
    rcases hplace with hplace | rfl
    · exact Or.inl hplace
    · exact Or.inr (hversion ▸ List.prefix_refl _)
  · rintro place (hplace | hplace)
    · rw [hplace]
      exact hbelow _ hname
    · rw [hplace, entryPath, FileSystem.tempBeside_join _ hname]
      exact hbelow _ (FileSystem.plain_tempName hname _ _)

end TransformCache

namespace CacheCall

variable {call : CacheCall} {calls : List CacheCall}

/-- The call stores a result of the version, or clears the version. -/
inductive Within (v : String) : CacheCall → Prop where
  | store (className : String) (input result : Bytes) : Within v (.store v className input result)
  | clear : Within v (.clear v false)

/-- **One call** changes nothing outside the directory of its version, but makes the directories
that lead there. -/
theorem perform_confined (hv : Path.Plain v) (h : call.Within v) (root : Path) (fs : FileSystem) :
    Confined fs (call.perform root fs).2 (· ∈ fs.trail root) (fs.placeOf root ++ [v] <+: ·) := by
  cases h with
  | store className input result =>
    exact TransformCache.store_confined hv (CacheKey.plain_ofInput className input) root result fs
  | clear =>
    show Confined fs (TransformCache.clear ⟨root, v⟩ false fs).2 _ _
    rw [TransformCache.clear_snd, ← fs.placeOf_join root hv]
    exact fs.removeDirAll_confined (Path.join root v) _

/-- **A run of calls** changes nothing outside the directory of its version either. -/
theorem after_confined (hv : Path.Plain v) (hcalls : ∀ call ∈ calls, call.Within v) (root : Path)
    (fs : FileSystem) :
    Confined fs (after root calls fs) (· ∈ fs.trail root) (fs.placeOf root ++ [v] <+: ·) := by
  induction calls generalizing fs with
  | nil => exact Confined.refl fs _ _
  | cons call calls ih =>
    rw [List.forall_mem_cons] at hcalls
    have hfirst := perform_confined hv hcalls.1 root fs
    have hrest := ih hcalls.2 (call.perform root fs).2
    rw [FileSystem.trail_congr hfirst.cwd, FileSystem.placeOf_congr hfirst.cwd] at hrest
    exact hfirst.trans hrest

end CacheCall

namespace TransformCache

theorem load_congr {c : TransformCache} {key : CacheKey} {fs' : FileSystem}
    (h : fs'.find (c.entryPath key) = fs.find (c.entryPath key)) :
    c.load key fs' = c.load key fs := by
  unfold load FileSystem.readFile
  rw [h]

/-- **Versions do not disturb each other.**

Take two versions whose names are different single steps of a path, and any list of calls that store
results of the one or clear it, whether they succeed or not. Every load through the other version
yields what it would have yielded before them. Outside the root no file is created, changed or
removed; nothing but the directory of the first version changes at all, and the directories that
lead to the root, which are made where nothing was. About the path of the root, the loads need that
the file system takes it, that it does not lead through places below its own, and that it leads
through nothing that is there behind something that is missing. -/
theorem versions_isolated (root : Path) (fs : FileSystem) (hv : Path.Plain v) (hw : Path.Plain w)
    (hne : v ≠ w) (hacc : (Path.join root w).Accepted) (htapers : fs.Tapers (Path.join root w))
    (houtside : fs.FromOutside root) (calls : List CacheCall)
    (hcalls : ∀ call ∈ calls, call.Within v) :
    let fs' := CacheCall.after root calls fs
    (∀ className input, load ⟨root, w⟩ (.ofInput className input) fs' =
        load ⟨root, w⟩ (.ofInput className input) fs) ∧
      (∀ place content, ¬ fs.placeOf root <+: place →
        (fs'.node? place = some (.file content) ↔ fs.node? place = some (.file content))) ∧
      Confined fs fs' (· ∈ fs.trail root) (fs.placeOf root ++ [v] <+: ·) := by
  intro fs'
  have hconfined : Confined fs fs' (· ∈ fs.trail root) (fs.placeOf root ++ [v] <+: ·) :=
    CacheCall.after_confined hv hcalls root fs
  have hversion : fs.placeOf (Path.join root w) = fs.placeOf root ++ [w] := fs.placeOf_join root hw
  refine ⟨fun className input => load_congr ?_, fun place content hplace => ?_, hconfined⟩
  · have hname := CacheKey.plain_ofInput className input
    apply hconfined.find_join hname hacc htapers
    · intro place hplace
      rw [FileSystem.trail, fs.way_join _ hname, fs.way_join _ hw, fs.placeOf_join _ hname,
        hversion] at hplace
      simp only [List.mem_append, List.mem_singleton] at hplace
      rcases hplace with ((hplace | rfl) | rfl) | rfl
      · exact houtside.not_prefix (List.mem_append_left _ hplace)
      · exact houtside.not_prefix (List.mem_append_right _ (List.mem_singleton_self _))
      · exact FileSystem.not_prefix_of_ne hne []
      · rw [List.append_assoc]
        exact FileSystem.not_prefix_of_ne hne _
    · show ¬ fs.placeOf (Path.join root w) ∈ fs.trail root
      rw [hversion]
      exact houtside.notMem_trail (List.cons_ne_nil w [])
    · show ¬ fs.placeOf (Path.join root w) ++ _ ∈ fs.trail root
      rw [hversion, List.append_assoc]
      exact houtside.notMem_trail (List.cons_ne_nil w _)
  · have houtside' : ¬ fs.placeOf root ++ [v] <+: place := fun h =>
      hplace ((List.prefix_append _ [v]).trans h)
    exact hconfined.file_iff houtside' content

/-- One version is stored into and cleared while the other has a result of the same class. -/
theorem versions_isolated_sameClass :
    let fs := CacheCall.after "cache" [.store "2" "a/A" [] [7]] ⟨[], [], 1, 0⟩
    let fs' := CacheCall.after "cache" [.store "1" "a/A" [] [8], .clear "1" false] fs
    load ⟨"cache", "2"⟩ (.ofInput "a/A" []) fs' = .ok (some [7]) := by
  intro fs fs'
  have htapers : fs.Tapers (Path.join "cache" "2") := by
    unfold FileSystem.Tapers
    decide +kernel
  have houtside : fs.FromOutside "cache" := by
    unfold FileSystem.FromOutside
    decide +kernel
  have hcalls : ∀ call ∈ [CacheCall.store "1" "a/A" [] [8], .clear "1" false],
      call.Within "1" := by
    intro call hcall
    simp only [List.mem_cons, List.not_mem_nil, or_false] at hcall
    rcases hcall with rfl | rfl
    · exact .store "a/A" [] [8]
    · exact .clear
  have hisolated := (versions_isolated "cache" fs (by decide +kernel) (by decide +kernel)
    (by decide) (by decide +kernel) htapers houtside _ hcalls).1 "a/A" []
  refine hisolated.trans ?_
  decide +kernel

/-- **Not every version is isolated from the others.** Clearing the empty version removes the whole
cache. Clearing one that leads up removes what lies beside it. One with a slash behind it is the
version without the slash. -/
theorem not_versions_isolated :
    let key := CacheKey.ofInput "a/A" []
    let fs := CacheCall.after "cache" [.store "1" "a/A" [] [7]] ⟨[], [], 1, 0⟩
    let beside : FileSystem :=
      ⟨[(["d"], .dir), (["d", "cache"], .dir), (["d", "keep"], .file [7])], [], 1, 0⟩
    (load ⟨"cache", "1"⟩ key fs = .ok (some [7]) ∧
        load ⟨"cache", "1"⟩ key (CacheCall.after "cache" [.clear "" false] fs) = .ok none) ∧
      (¬ beside.placeOf "d/cache" <+: ["d", "keep"] ∧
        beside.node? ["d", "keep"] = some (.file [7]) ∧
        (CacheCall.after "d/cache" [.clear ".." false] beside).node? ["d", "keep"] = none) ∧
      load ⟨"cache", "1"⟩ key (CacheCall.after "cache" [.store "1/" "a/A" [] [8]] fs) =
        .ok (some [8]) := by
  decide +kernel

end TransformCache

end Reclass
