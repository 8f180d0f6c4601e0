import Reclass.Proofs.Cache.Disk
import Reclass.Proofs.Files.Effects

/-!
# What a cache keeps

A result that has been stored lies in its place and is loaded from there
(`TransformCache.lies_of_store`). It stays there when other results are stored and classes are
dumped, whether that succeeds or fails half-way (`TransformCache.Lies.store`,
`TransformCache.Lies.dump`), for what these operations do spares what is there already: every
directory stays one, and every file stays as it is but those in the places that are written to
(`FileSystem.Spares`). All that a dump adds is directories that lead to the dump directory and the
file of its class (`DumpDir.supplements_write`). A sound cache in which the results for a list of
requests lie gives these results for them and nothing else (`TransformCache.load_eq_ok_iff_output`).
-/

set_option autoImplicit false

namespace Reclass

namespace FileSystem

variable {fs fs' fs'' : FileSystem} {p : Path} {content : Bytes} {written written' : Place → Prop}

/-- The files as a process finds them, which has made some temporary files. -/
def inProcess (fs : FileSystem) (process tempCount : Nat) : FileSystem :=
  { fs with process := process, tempCount := tempCount }

theorem WellFormed.inProcess (h : fs.WellFormed) (process tempCount : Nat) :
    (fs.inProcess process tempCount).WellFormed :=
  ⟨h.nodup, h.parent, h.cwd⟩

/-! ### What is spared -/

/-- Every directory of the first file system is one in the second, and every file is there with its
content, but for those in the places that are `written`. -/
structure Spares (fs fs' : FileSystem) (written : Place → Prop) : Prop where
  cwd : fs'.cwd = fs.cwd
  dir : ∀ place, fs.node? place = some .dir → fs'.node? place = some .dir
  file : ∀ place content, ¬ written place → fs.node? place = some (.file content) →
    fs'.node? place = some (.file content)

theorem Spares.trans (h : fs.Spares fs' written) (h' : fs'.Spares fs'' written) :
    fs.Spares fs'' written where
  cwd := h'.cwd.trans h.cwd
  dir place hdir := h'.dir place (h.dir place hdir)
  file place content hplace hfile :=
    h'.file place content hplace (h.file place content hplace hfile)

theorem Spares.mono (h : fs.Spares fs' written) (hsub : ∀ place, written place → written' place) :
    fs.Spares fs' written' :=
  ⟨h.cwd, h.dir, fun place content hplace =>
    h.file place content fun hin => hplace (hsub place hin)⟩

theorem Spares.passable (h : fs.Spares fs' written) (hpass : fs.Passable p) : fs'.Passable p := by
  rw [Passable, way_congr h.cwd]
  exact fun place hplace => h.dir place (hpass place hplace)

/-- What touches no directory spares everything but the files that it touches. -/
theorem Confined.spares {made : Place → Prop} (h : Confined fs fs' made written)
    (hnot : ∀ place, written place → fs.node? place ≠ some .dir) : fs.Spares fs' written where
  cwd := h.cwd
  dir place hdir := h.eq_some (fun hplace => hnot place hplace hdir) hdir
  file _ _ hplace hfile := h.eq_some hplace hfile

theorem makeDirAll_spares (fs : FileSystem) (p : Path) (written : Place → Prop) :
    fs.Spares (fs.makeDirAll p).2 written := by
  have hspares : fs.Spares (fs.makeDirAll p).2 fun _ => False :=
    (fs.makeDirAll_grows p).confined.spares nofun
  exact hspares.mono nofun

theorem writeFile_spares (h : fs.writeFile p content = .ok fs') :
    fs.Spares fs' (· = fs.placeOf p) := by
  obtain ⟨-, -, -, hnot⟩ := writeFile_eq_ok_dir h
  refine (writeFile_confined h fun _ => False).spares ?_
  rintro _ rfl
  exact hnot

theorem removeFile_spares (h : fs.removeFile p = .ok fs') :
    fs.Spares fs' (· = fs.placeOf p) := by
  refine (removeFile_confined h fun _ => False).spares ?_
  rintro _ rfl hdir
  obtain ⟨⟨here, node⟩, hfind, h⟩ := (except_bind_eq_ok_iff _ _ _).1 h
  cases node with
  | dir => cases h
  | file content =>
    obtain ⟨rfl, hnode⟩ := find_eq_ok hfind
    cases hnode.symm.trans hdir

theorem renameFile_spares {old new : Path} (h : fs.renameFile old new = .ok fs') :
    fs.Spares fs' fun place => place = fs.placeOf old ∨ place = fs.placeOf new := by
  obtain ⟨content, hold, -, -, -, hnew, -⟩ := renameFile_eq_ok h
  refine (renameFile_confined h fun _ => False).spares ?_
  rintro _ (rfl | rfl) hdir
  · cases hold.symm.trans hdir
  · exact hnew hdir

/-- Putting a file into place in one go spares everything but the file and the temporary one. -/
theorem writeAtomically_spares (fs : FileSystem) (path : Path) (content : Bytes) :
    fs.Spares (fs.writeAtomically path content).2 fun place =>
      place = fs.placeOf path ∨ place = fs.placeOf (fs.tempBeside path).1 := by
  have hcounted : fs.Spares (fs.tempBeside path).2 fun place =>
      place = fs.placeOf path ∨ place = fs.placeOf (fs.tempBeside path).1 :=
    ⟨rfl, fun _ => id, fun _ _ _ => id⟩
  rw [writeAtomically]
  generalize fs.tempBeside path = named at hcounted ⊢
  obtain ⟨temp, counted⟩ := named
  dsimp only at hcounted ⊢
  cases hwrite : counted.writeFile temp content with
  | error e => exact hcounted
  | ok aside =>
    have haside := hcounted.trans <| (writeFile_spares hwrite).mono fun place hp =>
      Or.inr (hp.trans (placeOf_congr hcounted.cwd temp))
    dsimp only
    cases hrename : aside.renameFile temp path with
    | ok renamed =>
      refine haside.trans ((renameFile_spares hrename).mono ?_)
      rintro place (hp | hp)
      · exact Or.inr (hp.trans (placeOf_congr haside.cwd temp))
      · exact Or.inl (hp.trans (placeOf_congr haside.cwd path))
    | error e =>
      dsimp only
      cases hremove : aside.removeFile temp with
      | ok cleaned =>
        refine haside.trans ((removeFile_spares hremove).mono ?_)
        intro place hp
        exact Or.inr (hp.trans (placeOf_congr haside.cwd temp))
      | error e' => exact haside

/-- A file that has been put into place lies there, and its path leads to it. -/
theorem writeAtomically_eq_ok {path : Path}
    (h : fs.writeAtomically path content = (.ok (), fs')) :
    path.Accepted ∧ fs'.Passable path ∧ fs'.node? (fs'.placeOf path) = some (.file content) := by
  rw [writeAtomically] at h
  generalize fs.tempBeside path = named at h
  obtain ⟨temp, counted⟩ := named
  dsimp only at h
  cases hwrite : counted.writeFile temp content with
  | error e =>
    rw [hwrite] at h
    cases h
  | ok aside =>
    rw [hwrite] at h
    dsimp only at h
    cases hrename : aside.renameFile temp path with
    | error e =>
      rw [hrename] at h
      dsimp only at h
      cases hremove : aside.removeFile temp with
      | ok cleaned =>
        rw [hremove] at h
        cases h
      | error e' =>
        rw [hremove] at h
        cases h
    | ok renamed =>
      rw [hrename] at h
      obtain rfl : renamed = fs' := (Prod.mk.inj h).2
      have hspares := renameFile_spares hrename
      obtain ⟨found, hfound, hacc, hpass, hne, -, hends⟩ := renameFile_eq_ok hrename
      -- what is renamed is what has been written aside
      have haside : aside.node? (aside.placeOf temp) = some (.file content) := by
        rw [placeOf_congr (writeFile_spares hwrite).cwd]
        exact node?_writeFile hwrite
      obtain rfl : found = content := Node.file.inj (Option.some.inj (hfound.symm.trans haside))
      refine ⟨hacc, hspares.passable hpass, ?_⟩
      rw [placeOf_congr hspares.cwd]
      rcases hends with ⟨rfl, hsame⟩ | rfl
      · rw [← hsame, hfound]
      · rw [node?_put _ _ hne, if_pos rfl]

end FileSystem

namespace DumpDir

variable {fs : FileSystem}

theorem wellFormed_write (hwf : fs.WellFormed) (d : DumpDir) (name : String) (loader : LoaderId)
    (bytes : Bytes) : (d.write name loader bytes fs).2.WellFormed :=
  write_snd_cases (hwf.makeDirAll _) fun _ hwrite => (hwf.makeDirAll _).writeFile hwrite

/-- A dump adds directories that lead to the dump directory, and the file of the class. -/
theorem supplements_write (d : DumpDir) (name : String) (loader : LoaderId) (bytes : Bytes)
    (fs : FileSystem) :
    fs.Supplements (d.write name loader bytes fs).2 (· ∈ fs.trail d.root)
      (· = fs.placeOf (d.pathFor name loader)) := by
  have hgrows := fs.makeDirAll_grows d.root
  have hmade := hgrows.supplements (· = fs.placeOf (d.pathFor name loader))
  refine write_snd_cases (motive := fun after => fs.Supplements after _ _) hmade
    fun written hwrite => hmade.trans ?_
  have hwritten := FileSystem.writeFile_supplements hwrite (· ∈ fs.trail d.root)
  rwa [FileSystem.placeOf_congr hgrows.cwd] at hwritten

end DumpDir

namespace TransformCache

variable {c : TransformCache} {r r' : TransformRequest} {stored output : Bytes}
  {fs fs' : FileSystem}

/-! ### Results that lie in their places -/

/-- A result for the request lies in its place, and its path leads there. -/
structure Lies (c : TransformCache) (r : TransformRequest) (stored : Bytes) (fs : FileSystem) :
    Prop where
  accepted : (c.entryPath r.key).Accepted
  passable : fs.Passable (c.entryPath r.key)
  file : fs.node? (fs.placeOf (c.entryPath r.key)) = some (.file stored)

/-- What lies in its place is loaded, and nothing else is. -/
theorem load_eq_ok_iff : c.load r.key fs = .ok (some stored) ↔ c.Lies r stored fs := by
  constructor
  · intro hload
    unfold load at hload
    cases hread : fs.readFile (c.entryPath r.key) with
    | error e =>
      rw [hread] at hload
      cases e <;> cases hload
    | ok found =>
      rw [hread] at hload
      cases hload
      obtain ⟨⟨here, node⟩, hfind, -⟩ := (except_bind_eq_ok_iff _ _ _).1 hread
      obtain ⟨⟨dir, pathEnd⟩, happroach, -⟩ := (except_bind_eq_ok_iff _ _ _).1 hfind
      obtain ⟨hacc, hpass, -⟩ := FileSystem.approach_eq_ok_passable happroach
      exact ⟨hacc, hpass, FileSystem.readFile_eq_ok hread⟩
  · intro h
    have hfile := h.file
    rw [placeOf_entryPath] at hfile
    have hread : fs.readFile (c.entryPath r.key) = .ok stored := by
      rw [FileSystem.readFile, FileSystem.find, entryPath,
        FileSystem.approach_join r.plain_fileName h.accepted h.passable]
      simp only [bind, Except.bind, hfile]
      rfl
    unfold load
    rw [hread]

/-- A result stays in its place when that is not written to. -/
theorem Lies.of_spares {written : Place → Prop} (h : c.Lies r stored fs)
    (hspares : fs.Spares fs' written) (hnot : ¬ written (fs.placeOf (c.entryPath r.key))) :
    c.Lies r stored fs' where
  accepted := h.accepted
  passable := hspares.passable h.passable
  file := by
    rw [FileSystem.placeOf_congr hspares.cwd]
    exact hspares.file _ stored hnot h.file

/-- Neither the process nor the number of temporary files matters. -/
theorem Lies.inProcess (h : c.Lies r stored fs) (process tempCount : Nat) :
    c.Lies r stored (fs.inProcess process tempCount) :=
  ⟨h.accepted, h.passable, h.file⟩

/-! ### Storing and dumping -/

theorem wellFormed_store (hwf : fs.WellFormed) (k : CacheKey) (output : Bytes) :
    (c.store k output fs).2.WellFormed :=
  store_snd_cases (hwf.makeDirAll _) ((hwf.makeDirAll _).writeAtomically _ _)

/-- A store spares everything but its own result and what lies apart from all results. -/
theorem store_spares (c : TransformCache) (r : TransformRequest) (output : Bytes)
    (fs : FileSystem) :
    fs.Spares (c.store r.key output fs).2 fun place =>
      place = fs.placeOf (c.entryPath r.key) ∨ c.Apart fs place := by
  have hmade := fs.makeDirAll_spares c.versionDir fun place =>
    place = fs.placeOf (c.entryPath r.key) ∨ c.Apart fs place
  refine store_snd_cases (motive := fun after => fs.Spares after _) hmade ?_
  refine hmade.trans ((FileSystem.writeAtomically_spares _ _ output).mono ?_)
  rintro place (hplace | hplace)
  · exact Or.inl (hplace.trans (FileSystem.placeOf_congr hmade.cwd _))
  · rw [hplace, FileSystem.placeOf_congr hmade.cwd]
    exact Or.inr (c.apart_temp fs _ r)

/-- A dumped class spares everything but what lies apart from all results. -/
theorem dump_spares (c : TransformCache) (d : DumpDir) (name : String) (loader : LoaderId)
    (bytes : Bytes) (fs : FileSystem) :
    fs.Spares (d.write name loader bytes fs).2 (c.Apart fs) := by
  have hmade := fs.makeDirAll_spares d.root (c.Apart fs)
  refine DumpDir.write_snd_cases (motive := fun after => fs.Spares after _) hmade fun written hwrite => ?_
  refine hmade.trans ((FileSystem.writeFile_spares hwrite).mono ?_)
  intro place hplace
  rw [hplace, FileSystem.placeOf_congr hmade.cwd]
  exact apart_of_ne (plain_dumpFileName name loader) fun r => r.key.fileName_ne_dump name loader

/-- **What has been stored lies in its place.** -/
theorem lies_of_store {path : Path} (h : (c.store r.key output fs).1 = .ok path) :
    c.Lies r output (c.store r.key output fs).2 := by
  unfold store at h ⊢
  generalize fs.makeDirAll c.versionDir = made at h ⊢
  obtain ⟨result, made⟩ := made
  cases result with
  | error e =>
    dsimp only at h
    cases h
  | ok _ =>
    dsimp only at h ⊢
    cases hwrite : made.writeAtomically (c.entryPath r.key) output with
    | mk result written =>
      rw [hwrite] at h
      cases result with
      | error e =>
        dsimp only at h
        cases h
      | ok _ =>
        obtain ⟨hacc, hpass, hfile⟩ := FileSystem.writeAtomically_eq_ok hwrite
        exact ⟨hacc, hpass, hfile⟩

/-- **A result stays in its place when another one is stored**, or when storing it fails. -/
theorem Lies.store (h : c.Lies r stored fs) (hne : r'.key ≠ r.key) (output : Bytes) :
    c.Lies r stored (c.store r'.key output fs).2 := by
  refine h.of_spares (c.store_spares r' output fs) ?_
  rintro (hplace | hapart)
  · rw [placeOf_entryPath, placeOf_entryPath] at hplace
    have hleaf := (List.append_singleton_inj.1 hplace).2
    exact hne (CacheKey.fileName_inj hleaf).symm
  · exact hapart r rfl

/-- **A result stays in its place when a class is dumped**, whatever the dump directory is. -/
theorem Lies.dump (h : c.Lies r stored fs) (d : DumpDir) (name : String) (loader : LoaderId)
    (bytes : Bytes) : c.Lies r stored (d.write name loader bytes fs).2 :=
  h.of_spares (c.dump_spares d name loader bytes fs) fun hapart => hapart r rfl

/-! ### Caches that hold all results -/

section Holds

open CachingTransformer (Output)

variable {outcome : String → Bytes → EditOutcome} {rs rs' : List TransformRequest}

theorem Sound.inProcess (h : c.Sound outcome rs fs) (process tempCount : Nat) :
    c.Sound outcome rs (fs.inProcess process tempCount) :=
  fun r hr stored hnode => h r hr stored hnode

/-- The outputs of the edit for the requests lie in their places. -/
def Holds (c : TransformCache) (outcome : String → Bytes → EditOutcome)
    (rs : List TransformRequest) (fs : FileSystem) : Prop :=
  ∀ r ∈ rs, ∀ output, Output outcome r output → c.Lies r output fs

theorem Holds.mono (h : c.Holds outcome rs fs) (hsub : ∀ r ∈ rs', r ∈ rs) :
    c.Holds outcome rs' fs :=
  fun r hr => h r (hsub r hr)

theorem Holds.inProcess (h : c.Holds outcome rs fs) (process tempCount : Nat) :
    c.Holds outcome rs (fs.inProcess process tempCount) :=
  fun r hr output houtput => (h r hr output houtput).inProcess process tempCount

theorem Holds.dump (h : c.Holds outcome rs fs) (d : DumpDir) (name : String) (loader : LoaderId)
    (bytes : Bytes) : c.Holds outcome rs (d.write name loader bytes fs).2 :=
  fun r hr output houtput => (h r hr output houtput).dump d name loader bytes

/-- A request for which the edit fails has no result. -/
theorem Holds.cons_of_error (h : c.Holds outcome rs fs) {e : TransformError}
    (he : editResult outcome r = .error e) : c.Holds outcome (r :: rs) fs := by
  intro r' hr' output houtput
  rcases List.mem_cons.1 hr' with rfl | hr'
  · obtain ⟨result, hresult, -⟩ := houtput
    cases he.symm.trans hresult
  · exact h r' hr' output houtput

/-- A request whose result is loaded is one more for which the cache holds the result. -/
theorem Holds.cons_of_load (h : c.Holds outcome rs fs)
    (hload : c.load r.key fs = .ok (some stored)) (hright : Output outcome r stored) :
    c.Holds outcome (r :: rs) fs := by
  intro r' hr' output houtput
  rcases List.mem_cons.1 hr' with rfl | hr'
  · rw [houtput.unique hright]
    exact load_eq_ok_iff.1 hload
  · exact h r' hr' output houtput

/-- So is one whose result has been stored, when it is the result for every request with its key. -/
theorem Holds.store (h : c.Holds outcome rs fs) {path : Path}
    (hstored : (c.store r.key output fs).1 = .ok path)
    (hone : ∀ r' ∈ r :: rs, r'.key = r.key → Output outcome r' output) :
    c.Holds outcome (r :: rs) (c.store r.key output fs).2 := by
  intro r' hr' output' houtput'
  by_cases hkey : r'.key = r.key
  · rw [houtput'.unique (hone r' hr' hkey)]
    rw [← hkey] at hstored ⊢
    exact lies_of_store hstored
  · rcases List.mem_cons.1 hr' with rfl | hr'
    · exact absurd rfl hkey
    · exact (h r' hr' output' houtput').store (Ne.symm hkey) output

/-- **A sound cache that holds all results loads them, and nothing else.** -/
theorem load_eq_ok_iff_output (hsound : c.Sound outcome rs fs) (hholds : c.Holds outcome rs fs)
    (hr : r ∈ rs) : c.load r.key fs = .ok (some stored) ↔ Output outcome r stored :=
  ⟨hsound.load hr, fun houtput => load_eq_ok_iff.2 (hholds r hr stored houtput)⟩

end Holds

end TransformCache

end Reclass
