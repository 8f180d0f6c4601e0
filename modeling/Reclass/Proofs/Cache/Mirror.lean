import Reclass.Proofs.Cache.Isolation
import Reclass.Proofs.Cache.Retention

/-!
# What a cache does to the dump

A transformer shows its results in a dump directory, and it may have a cache besides. Storing a
result touches the file of the result and a temporary one, and makes directories on the way to them;
if these places are out of the way of the dump, a class is dumped afterwards as it would have been
before (`DumpDir.shown_write_store`). So for an edit that is a function of the request, what is in
the dump directory after a call depends on the cache in one case only: an edit that declines leaves
nothing to be dumped, but over a cache its input is taken for its output, and is dumped
(`CachingTransformer.dump_over_cache`). That case does occur
(`CachingTransformer.dump_over_cache_declined`).
-/

set_option autoImplicit false

namespace Reclass

/-! ### What is shown of a class -/

/-- The content of a file. -/
def Node.content? : Node → Option Bytes
  | .file content => some content
  | .dir => none

namespace DumpDir

variable {d : DumpDir} {name : String} {loader : LoaderId} {bytes : Bytes} {fs fs' : FileSystem}

/-- The file of a class in the dump directory, if it is there. -/
def shown (d : DumpDir) (name : String) (loader : LoaderId) (fs : FileSystem) : Option Bytes :=
  (fs.node? (fs.placeOf (d.pathFor name loader))).bind Node.content?

/-- The file system takes the path of the class, no file is in the way to it and no directory in its
place, and the way does not lead through its place. -/
structure Receives (d : DumpDir) (name : String) (loader : LoaderId) (fs : FileSystem) : Prop where
  accepted : (d.pathFor name loader).Accepted
  free : ∀ place ∈ fs.trail d.root, ∀ content, fs.node? place ≠ some (.file content)
  notDir : fs.node? (fs.placeOf (d.pathFor name loader)) ≠ some .dir
  aside : fs.placeOf (d.pathFor name loader) ∉ fs.trail d.root

theorem placeOf_pathFor (d : DumpDir) (name : String) (loader : LoaderId) (fs : FileSystem) :
    fs.placeOf (d.pathFor name loader) = fs.placeOf d.root ++ [dumpFileName name loader] :=
  fs.placeOf_join d.root (plain_dumpFileName name loader)

theorem shown_of_file (h : fs.node? (fs.placeOf (d.pathFor name loader)) = some (.file bytes)) :
    d.shown name loader fs = some bytes := by
  rw [shown, h]
  rfl

/-- Directories that are made where nothing was do not show. -/
theorem shown_of_confined {made touched : Place → Prop}
    (h : FileSystem.Confined fs fs' made touched)
    (hnot : ¬ touched (fs.placeOf (d.pathFor name loader))) :
    d.shown name loader fs' = d.shown name loader fs := by
  rw [shown, shown, FileSystem.placeOf_congr h.cwd]
  rcases h.node (fs.placeOf (d.pathFor name loader)) with hsame | hin | ⟨-, hnone, hdir⟩
  · rw [hsame]
  · exact absurd hin hnot
  · rw [hnone, hdir]
    rfl

/-- A class that can be received is shown once it has been dumped. -/
theorem shown_write_of_receives (hwf : fs.WellFormed) (htidy : d.root.Tidy)
    (h : d.Receives name loader fs) (bytes : Bytes) :
    d.shown name loader (d.write name loader bytes fs).2 = some bytes := by
  have hplain := plain_dumpFileName name loader
  -- nothing is in the way to the dump directory, so it opens
  obtain ⟨opened, hmake, -, hgrows, hopens⟩ :=
    FileSystem.makeDirAll_ok hwf (h.accepted.of_join hplain.not_absolute) htidy h.free
  have hplace : opened.placeOf (d.pathFor name loader) = fs.placeOf (d.pathFor name loader) :=
    FileSystem.placeOf_congr hgrows.cwd _
  have hnot : opened.node? (opened.placeOf d.root ++ [dumpFileName name loader]) ≠ some .dir := by
    rw [← placeOf_pathFor, hplace]
    rcases hgrows.node (fs.placeOf (d.pathFor name loader)) with hsame | ⟨hin, -, -⟩
    · rw [hsame]
      exact h.notDir
    · exact absurd hin h.aside
  have hwrite : opened.writeFile (d.pathFor name loader) bytes = _ :=
    FileSystem.writeFile_join hopens hplain h.accepted hnot bytes
  have hwritten := FileSystem.node?_writeFile hwrite
  rw [write, hmake]
  dsimp only
  rw [hwrite]
  exact shown_of_file hwritten

/-- What can be written could be received. -/
theorem receives_of_writeFile {written : FileSystem}
    (h : (fs.makeDirAll d.root).2.writeFile (d.pathFor name loader) bytes = .ok written) :
    d.Receives name loader fs := by
  have hgrows := fs.makeDirAll_grows d.root
  obtain ⟨hacc, hpass, -, hnot⟩ := FileSystem.writeFile_eq_ok_dir h
  rw [FileSystem.placeOf_congr hgrows.cwd] at hnot
  -- the class has been reached through directories
  have hdirs : ∀ place ∈ fs.trail d.root, (fs.makeDirAll d.root).2.node? place = some .dir := by
    intro place hplace
    refine hpass place ?_
    rw [FileSystem.way_congr hgrows.cwd, pathFor,
      fs.way_join d.root (plain_dumpFileName name loader)]
    exact hplace
  refine ⟨hacc, fun place hplace content hfile => ?_, fun hdir => hnot (hgrows.dir hdir),
    fun hplace => hnot (hdirs _ hplace)⟩
  have hconfined : FileSystem.Confined fs (fs.makeDirAll d.root).2 _ fun _ => False :=
    hgrows.confined
  cases (hdirs place hplace).symm.trans ((hconfined.file_iff id content).2 hfile)

/-- A class that cannot be received is not dumped, and what was shown of it stays. -/
theorem shown_write_of_not (h : ¬ d.Receives name loader fs) (bytes : Bytes) :
    d.shown name loader (d.write name loader bytes fs).2 = d.shown name loader fs := by
  have hconfined : FileSystem.Confined fs (fs.makeDirAll d.root).2 (· ∈ fs.trail d.root)
      fun _ => False := (fs.makeDirAll_grows d.root).confined
  exact write_snd_cases
    (motive := fun after => d.shown name loader after = d.shown name loader fs)
    (shown_of_confined hconfined id) fun written hwrite => absurd (receives_of_writeFile hwrite) h

/-- Whether a class can be received depends on the way to it and on its place. -/
theorem receives_iff_of_confined {made touched : Place → Prop}
    (h : FileSystem.Confined fs fs' made touched)
    (hway : ∀ place ∈ fs.trail d.root, ¬ touched place)
    (hmade : ¬ made (fs.placeOf (d.pathFor name loader)))
    (htouched : ¬ touched (fs.placeOf (d.pathFor name loader))) :
    d.Receives name loader fs' ↔ d.Receives name loader fs := by
  have hplace := FileSystem.placeOf_congr h.cwd (d.pathFor name loader)
  have htrail := FileSystem.trail_congr h.cwd d.root
  have hself : fs'.node? (fs.placeOf (d.pathFor name loader)) =
      fs.node? (fs.placeOf (d.pathFor name loader)) := by
    rcases h.node (fs.placeOf (d.pathFor name loader)) with hsame | hin | ⟨hin, -, -⟩
    · exact hsame
    · exact absurd hin htouched
    · exact absurd hin hmade
  have hfile : ∀ place ∈ fs.trail d.root, ∀ content,
      fs'.node? place = some (.file content) ↔ fs.node? place = some (.file content) := by
    intro place hin content
    exact h.file_iff (hway place hin) content
  constructor
  · rintro ⟨hacc, hfree, hnot, haside⟩
    rw [hplace, hself] at hnot
    rw [hplace, htrail] at haside
    rw [htrail] at hfree
    refine ⟨hacc, fun place hin content hf => ?_, hnot, haside⟩
    exact hfree place hin content ((hfile place hin content).2 hf)
  · rintro ⟨hacc, hfree, hnot, haside⟩
    refine ⟨hacc, ?_, ?_, ?_⟩
    · rw [htrail]
      exact fun place hin content hf => hfree place hin content ((hfile place hin content).1 hf)
    · rw [hplace, hself]
      exact hnot
    · rw [hplace, htrail]
      exact haside

/-- What is out of the way of the dump makes no difference to it. -/
theorem shown_write_of_confined {made touched : Place → Prop} (hwf : fs.WellFormed)
    (hwf' : fs'.WellFormed) (htidy : d.root.Tidy) (h : FileSystem.Confined fs fs' made touched)
    (hway : ∀ place ∈ fs.trail d.root, ¬ touched place)
    (hmade : ¬ made (fs.placeOf (d.pathFor name loader)))
    (htouched : ¬ touched (fs.placeOf (d.pathFor name loader))) (bytes : Bytes) :
    d.shown name loader (d.write name loader bytes fs').2 =
      d.shown name loader (d.write name loader bytes fs).2 := by
  have hiff : d.Receives name loader fs' ↔ d.Receives name loader fs :=
    receives_iff_of_confined h hway hmade htouched
  by_cases hreceives : d.Receives name loader fs
  · rw [shown_write_of_receives hwf htidy hreceives,
      shown_write_of_receives hwf' htidy (hiff.2 hreceives)]
  · rw [shown_write_of_not hreceives, shown_write_of_not fun h' => hreceives (hiff.1 h'),
      shown_of_confined h htouched]

/-- What is on the way to the class and in its place is the same. -/
structure SameWay (d : DumpDir) (name : String) (loader : LoaderId) (fs fs' : FileSystem) :
    Prop where
  cwd : fs'.cwd = fs.cwd
  node : ∀ place, place ∈ fs.trail d.root ∨ place = fs.placeOf (d.pathFor name loader) →
    fs'.node? place = fs.node? place

theorem SameWay.confined (h : d.SameWay name loader fs fs') :
    FileSystem.Confined fs fs' (fun _ => False) fun place =>
      ¬ (place ∈ fs.trail d.root ∨ place = fs.placeOf (d.pathFor name loader)) := by
  refine ⟨h.cwd, fun place => ?_⟩
  by_cases hplace : place ∈ fs.trail d.root ∨ place = fs.placeOf (d.pathFor name loader)
  · exact Or.inl (h.node place hplace)
  · exact Or.inr (Or.inl hplace)

theorem SameWay.shown_eq (h : d.SameWay name loader fs fs') :
    d.shown name loader fs' = d.shown name loader fs :=
  shown_of_confined h.confined fun hnot => hnot (Or.inr rfl)

theorem SameWay.shown_write_eq (h : d.SameWay name loader fs fs') (hwf : fs.WellFormed)
    (hwf' : fs'.WellFormed) (htidy : d.root.Tidy) (bytes : Bytes) :
    d.shown name loader (d.write name loader bytes fs').2 =
      d.shown name loader (d.write name loader bytes fs).2 :=
  shown_write_of_confined hwf hwf' htidy h.confined (fun _ hplace hnot => hnot (Or.inl hplace)) id
    (fun hnot => hnot (Or.inr rfl)) bytes

end DumpDir

/-! ### A store out of the way of the dump -/

/-- The result for the request and its temporary file do not lie on the way to the dump directory,
and the dumped class does not lie on the way to the results. -/
structure TransformCache.ClearOf (c : TransformCache) (d : DumpDir) (r : TransformRequest)
    (fs : FileSystem) : Prop where
  entry : fs.placeOf (c.entryPath r.key) ∉ fs.trail d.root
  temp : fs.placeOf (fs.tempBeside (c.entryPath r.key)).1 ∉ fs.trail d.root
  dump : fs.placeOf (d.pathFor r.className r.loader) ∉ fs.trail c.versionDir

namespace DumpDir

variable {c : TransformCache} {d : DumpDir} {r : TransformRequest} {fs : FileSystem}

/-- A dumped class has a name that neither a result nor a temporary file has. -/
theorem placeOf_pathFor_ne_touched (c : TransformCache) (d : DumpDir) (r : TransformRequest)
    (fs : FileSystem) :
    ¬ (fs.placeOf (d.pathFor r.className r.loader) = fs.placeOf (c.entryPath r.key) ∨
      fs.placeOf (d.pathFor r.className r.loader) =
        fs.placeOf (fs.tempBeside (c.entryPath r.key)).1) := by
  rw [placeOf_pathFor, TransformCache.placeOf_entryPath, TransformCache.entryPath,
    FileSystem.tempBeside_join _ r.plain_fileName,
    fs.placeOf_join _ (FileSystem.plain_tempName r.plain_fileName _ _)]
  rintro (hplace | hplace)
  · exact r.key.fileName_ne_dump _ _ (List.append_singleton_inj.1 hplace).2.symm
  · exact dumpFileName_ne_tempName _ _ _ _ _ (List.append_singleton_inj.1 hplace).2

/-- A store does not show. -/
theorem shown_store (c : TransformCache) (d : DumpDir) (r : TransformRequest) (output : Bytes)
    (fs : FileSystem) :
    d.shown r.className r.loader (c.store r.key output fs).2 = d.shown r.className r.loader fs :=
  shown_of_confined (TransformCache.store_touches r.key output)
    (placeOf_pathFor_ne_touched c d r fs)

/-- **A class is dumped as before after a store that is out of its way**, whether the store
succeeds or fails. -/
theorem shown_write_store (hwf : fs.WellFormed) (htidy : d.root.Tidy) (hclear : c.ClearOf d r fs)
    (output bytes : Bytes) :
    d.shown r.className r.loader
        (d.write r.className r.loader bytes (c.store r.key output fs).2).2 =
      d.shown r.className r.loader (d.write r.className r.loader bytes fs).2 := by
  have htouches : FileSystem.Confined fs (c.store r.key output fs).2 _ _ :=
    TransformCache.store_touches r.key output
  have hway : ∀ place ∈ fs.trail d.root, ¬ (place = fs.placeOf (c.entryPath r.key) ∨
      place = fs.placeOf (fs.tempBeside (c.entryPath r.key)).1) := by
    rintro place hplace (hentry | htemp)
    · rw [hentry] at hplace
      exact hclear.entry hplace
    · rw [htemp] at hplace
      exact hclear.temp hplace
  exact shown_write_of_confined hwf (TransformCache.wellFormed_store hwf r.key output) htidy htouches
    hway hclear.dump (placeOf_pathFor_ne_touched c d r fs) bytes

/-- The files once the result of a call has been shown; no result, and no failure, is shown. -/
def showing (d : DumpDir) (r : TransformRequest) (result : EditResult) (fs : FileSystem) :
    FileSystem :=
  match result with
  | .ok (some bytes) => (d.write r.className r.loader bytes fs).2
  | .ok none => fs
  | .error _ => fs

theorem SameWay.shown_showing {fs' : FileSystem} (h : d.SameWay r.className r.loader fs fs')
    (hwf : fs.WellFormed) (hwf' : fs'.WellFormed) (htidy : d.root.Tidy) (result : EditResult) :
    d.shown r.className r.loader (d.showing r result fs') =
      d.shown r.className r.loader (d.showing r result fs) := by
  rcases result with e | _ | bytes
  · exact h.shown_eq
  · exact h.shown_eq
  · exact h.shown_write_eq hwf hwf' htidy bytes

theorem shown_showing_store (hwf : fs.WellFormed) (htidy : d.root.Tidy)
    (hclear : c.ClearOf d r fs) (output : Bytes) (result : EditResult) :
    d.shown r.className r.loader (d.showing r result (c.store r.key output fs).2) =
      d.shown r.className r.loader (d.showing r result fs) := by
  rcases result with e | _ | bytes
  · exact shown_store c d r output fs
  · exact shown_store c d r output fs
  · exact shown_write_store hwf htidy hclear output bytes

end DumpDir

/-! ### One call -/

variable {σ : Type}

/-- An edit that is a function of the request, and leaves the files alone. -/
structure Transformation.OfRequest (t : Transformation σ) (files : Lens σ FileSystem)
    (eligible : String → LoaderId → Bool) (outcome : TransformRequest → EditOutcome) : Prop where
  accepts : ∀ name loader s, (t.accepts name loader).Ensures s fun accepted s' =>
    accepted = eligible name loader ∧ files.get s' = files.get s
  edit : ∀ r s, (t.edit r).Ensures s fun o s' => o = outcome r ∧ files.get s' = files.get s

namespace CachingTransformer

variable {t : Transformation σ} {files : Lens σ FileSystem} {eligible : String → LoaderId → Bool}
  {outcome : TransformRequest → EditOutcome} {store : Option (ResultStore σ)} {d : DumpDir}
  {r : TransformRequest}

/-- The transformer around `t` that shows its results in the directory. -/
def dumping (t : Transformation σ) (store : Option (ResultStore σ)) (d : DumpDir)
    (files : Lens σ FileSystem) : CachingTransformer σ :=
  ⟨t, store, some (d.target files)⟩

theorem dumpResult_dumping (t : Transformation σ) (store : Option (ResultStore σ)) (d : DumpDir)
    (files : Lens σ FileSystem) (r : TransformRequest) (bytes : Bytes) (w : TransformStats × σ) :
    ((dumping t store d files).dumpResult r bytes).Ensures w fun _ w' =>
      files.get w'.2 = (d.write r.className r.loader bytes (files.get w.2)).2 := by
  show ((Act.zoom .snd ((d.target files).write r.className r.loader bytes)) >>= _).Ensures w _
  rw [Act.ensures_bind, Act.ensures_zoom, DumpDir.target, Act.ensures_zoom, Act.ensures_modifyGet]
  dsimp only [Lens.snd]
  have hset := files.get_set (d.write r.className r.loader bytes (files.get w.2)).2 w.2
  generalize d.write r.className r.loader bytes (files.get w.2) = written at hset ⊢
  obtain ⟨result, written⟩ := written
  cases result with
  | ok path => exact hset
  | error e => exact hset

section Dumping

variable (ht : t.OfRequest files eligible outcome)
include ht

theorem runInner_dumping (w : TransformStats × σ) :
    ((dumping t store d files).runInner r).Ensures w fun result w' =>
      result = (outcome r).guarded ∧ files.get w'.2 = files.get w.2 := by
  rw [runInner, Act.ensures_zoom, Transformation.guarded, Act.ensures_bind]
  refine (ht.edit r w.2).imp fun o s ho => ?_
  rw [Act.ensures_pure, ho.1]
  exact ⟨rfl, ho.2⟩

/-- For a class that is not eligible nothing is shown. -/
theorem shown_apply_ineligible (he : eligible r.className r.loader = false) (w : TransformStats × σ) :
    ((dumping t store d files).apply r).Ensures w fun _ w' =>
      d.shown r.className r.loader (files.get w'.2) =
        d.shown r.className r.loader (files.get w.2) := by
  rw [apply, Act.ensures_bind, Act.ensures_zoom]
  refine (ht.accepts r.className r.loader w.2).imp fun accepted s haccepted => ?_
  obtain ⟨rfl, hs⟩ := haccepted
  rw [he]
  show d.shown r.className r.loader (files.get s) = _
  rw [hs]

/-- A call shows the result that it comes to. -/
theorem shown_apply (he : eligible r.className r.loader = true) {w : TransformStats × σ}
    {left : Option Bytes}
    (h : ∀ w', files.get w'.2 = files.get w.2 →
      ((dumping t store d files).cachedOrTransform r).Ensures w' fun result w'' =>
        d.shown r.className r.loader (d.showing r result (files.get w''.2)) = left) :
    ((dumping t store d files).apply r).Ensures w fun _ w' =>
      d.shown r.className r.loader (files.get w'.2) = left := by
  rw [apply, Act.ensures_bind, Act.ensures_zoom]
  refine (ht.accepts r.className r.loader w.2).imp fun accepted s haccepted => ?_
  obtain ⟨rfl, hs⟩ := haccepted
  rw [he, Bool.not_true, if_neg Bool.false_ne_true, Act.ensures_bind, Act.ensures_report,
    Act.ensures_bind, resultOrNone, Act.ensures_bind]
  refine (h (w.1, s) hs).imp fun result w' hleft => ?_
  rcases result with e | _ | bytes
  · exact hleft
  · exact hleft
  · rw [Act.ensures_pure, Act.ensures_bind]
    refine (dumpResult_dumping t store d files r bytes w').imp fun _ w'' hwritten => ?_
    show d.shown r.className r.loader (files.get w''.2) = left
    rw [hwritten]
    exact hleft

end Dumping

/-- What a call over a cache comes to: a result that is found or stored is shown, be it the
input. -/
def overCache (input : Bytes) (loaded : Except StorageError (Option Bytes)) (result : EditResult) :
    EditResult :=
  match loaded with
  | .ok _ => result.map fun result => some (result.getD input)
  | .error _ => result

theorem overCache_eq_self {input : Bytes} {loaded : Except StorageError (Option Bytes)}
    {result : EditResult} (h : ¬ (result = .ok none ∧ ∃ found, loaded = .ok found)) :
    overCache input loaded result = result := by
  cases loaded with
  | error e => rfl
  | ok found =>
    rcases result with e | _ | bytes
    · rfl
    · exact absurd ⟨rfl, found, rfl⟩ h
    · rfl

/-- The files are those before the call, or something has been stored. -/
def Stored (c : TransformCache) (r : TransformRequest) (fs fs' : FileSystem) : Prop :=
  fs' = fs ∨ ∃ output, fs' = (c.store r.key output fs).2

section Cached

variable (ht : t.OfRequest files eligible outcome) {c : TransformCache}
include ht

theorem transformAndStore_dumping (w : TransformStats × σ) :
    ((dumping t store d files).transformAndStore (c.resultStore files) r.key r).Ensures w
      fun result w' =>
        result = (outcome r).guarded.map (fun result => some (result.getD r.bytes)) ∧
          Stored c r (files.get w.2) (files.get w'.2) := by
  rw [transformAndStore, Act.ensures_bind, count_ensures, Act.ensures_bind]
  refine (runInner_dumping ht (w.1.miss, w.2)).imp fun result w' hresult => ?_
  obtain ⟨rfl, hfiles⟩ := hresult
  dsimp only at hfiles
  cases hguarded : (outcome r).guarded with
  | error e => exact ⟨rfl, Or.inl hfiles⟩
  | ok result =>
    dsimp only
    rw [Act.ensures_bind, Act.ensures_zoom, TransformCache.resultStore, Act.ensures_zoom,
      Act.ensures_modifyGet]
    dsimp only [Lens.snd]
    have hset := files.get_set (c.store r.key (result.getD r.bytes) (files.get w'.2)).2 w'.2
    rw [hfiles] at hset ⊢
    have hstored : Stored c r (files.get w.2)
        (files.get (files.set (c.store r.key (result.getD r.bytes) (files.get w.2)).2 w'.2)) :=
      Or.inr ⟨_, hset⟩
    cases (c.store r.key (result.getD r.bytes) (files.get w.2)).1 with
    | ok path => exact ⟨rfl, hstored⟩
    | error e => exact ⟨rfl, hstored⟩

/-- **Over a cache a call comes to the result of the edit**, but for an input that is taken for the
output. -/
theorem cachedOrTransform_dumping {w : TransformStats × σ}
    (hentry : ∀ entry, c.load r.key (files.get w.2) = .ok (some entry) →
      ∃ result, (outcome r).guarded = .ok result ∧ entry = result.getD r.bytes) :
    ((dumping t (some (c.resultStore files)) d files).cachedOrTransform r).Ensures w
      fun result w' =>
        result = overCache r.bytes (c.load r.key (files.get w.2)) (outcome r).guarded ∧
          Stored c r (files.get w.2) (files.get w'.2) := by
  rw [cachedOrTransform]
  show ((Act.zoom .snd ((c.resultStore files).load r.key)) >>= _).Ensures w _
  rw [Act.ensures_bind, Act.ensures_zoom, TransformCache.resultStore, Act.ensures_zoom,
    Act.ensures_gets, files.set_get]
  dsimp only [Lens.snd]
  rcases hloaded : c.load r.key (files.get w.2) with e | _ | entry
  · rw [Act.ensures_bind, count_ensures, Act.ensures_bind, Act.ensures_report]
    exact (runInner_dumping ht (w.1.storageFailure, w.2)).imp fun result w' hresult =>
      ⟨hresult.1, Or.inl hresult.2⟩
  · exact transformAndStore_dumping ht w
  · -- a hit: the entry is what a miss would have stored
    obtain ⟨result, hresult, rfl⟩ := hentry entry hloaded
    rw [hresult]
    exact ⟨rfl, Or.inl rfl⟩

/-- What is in the dump directory after a call without a store. -/
theorem shown_apply_direct (he : eligible r.className r.loader = true) (w : TransformStats × σ) :
    ((dumping t none d files).apply r).Ensures w fun _ w' =>
      d.shown r.className r.loader (files.get w'.2) =
        d.shown r.className r.loader (d.showing r (outcome r).guarded (files.get w.2)) := by
  refine shown_apply ht he fun w' hfiles => ?_
  refine (runInner_dumping ht w').imp fun result w'' hresult => ?_
  rw [hresult.1, hresult.2, hfiles]

/-- What is in the dump directory after a call over a cache that is out of its way. -/
theorem shown_apply_cached (he : eligible r.className r.loader = true) {w : TransformStats × σ}
    (hwf : (files.get w.2).WellFormed) (htidy : d.root.Tidy)
    (hclear : c.ClearOf d r (files.get w.2))
    (hentry : ∀ entry, c.load r.key (files.get w.2) = .ok (some entry) →
      ∃ result, (outcome r).guarded = .ok result ∧ entry = result.getD r.bytes) :
    ((dumping t (some (c.resultStore files)) d files).apply r).Ensures w fun _ w' =>
      d.shown r.className r.loader (files.get w'.2) =
        d.shown r.className r.loader (d.showing r
          (overCache r.bytes (c.load r.key (files.get w.2)) (outcome r).guarded)
          (files.get w.2)) := by
  refine shown_apply ht he fun w' hfiles => ?_
  rw [← hfiles] at hwf hclear hentry ⊢
  refine (cachedOrTransform_dumping ht hentry).imp fun result w'' hresult => ?_
  rw [hresult.1]
  rcases hresult.2 with hsame | ⟨output, hstored⟩
  · rw [hsame]
  · rw [hstored, DumpDir.shown_showing_store hwf htidy hclear]

end Cached

/-- **What is in the dump directory after a call depends on the cache in one case only.**

Take an edit that is a function of the request, a request, and two states that do not differ on the
way to the class in the dump directory and in its place. In the first the request is taken without a
cache: if the class is eligible and the edit changes it, the new bytes are dumped, otherwise
nothing. In the second it is taken over a cache, which may hold an entry for the request, and then
the right one; loading and storing may succeed or fail. If the class is eligible but the edit
declines to change it, and the load does not fail, then the input is dumped over the cache. In all
other cases the file of the class is afterwards the same in both, with the same bytes, or missing in
both.

About the paths, the places that a store touches must not be on the way to the dump directory, the
dumped class must not be on the way to the results, and the dump directory must not be written with
a dot behind it. -/
theorem dump_over_cache {t : Transformation σ} {files : Lens σ FileSystem}
    {eligible : String → LoaderId → Bool} {outcome : TransformRequest → EditOutcome}
    (ht : t.OfRequest files eligible outcome) (c : TransformCache) (d : DumpDir)
    (r : TransformRequest) (stats stats' : TransformStats) (s s' : σ)
    (hwf : (files.get s).WellFormed) (hwf' : (files.get s').WellFormed) (htidy : d.root.Tidy)
    (hway : d.SameWay r.className r.loader (files.get s) (files.get s'))
    (hclear : c.ClearOf d r (files.get s'))
    (hentry : ∀ entry, c.load r.key (files.get s') = .ok (some entry) →
      ∃ result, (outcome r).guarded = .ok result ∧ entry = result.getD r.bytes) :
    let left (store : Option (ResultStore σ)) (w : TransformStats × σ) :=
      d.shown r.className r.loader
        (files.get (((dumping t store d files).apply r).run w).state.2)
    let shows (result : EditResult) :=
      d.shown r.className r.loader (d.showing r result (files.get s))
    let direct := left none (stats, s)
    let cached := left (some (c.resultStore files)) (stats', s')
    let declined := eligible r.className r.loader = true ∧ outcome r = .done none ∧
      ∃ found, c.load r.key (files.get s') = .ok found
    direct = shows (if eligible r.className r.loader then (outcome r).guarded else .ok none) ∧
      (¬ declined → cached = direct) ∧ (declined → cached = shows (.ok (some r.bytes))) := by
  intro left shows direct cached declined
  cases he : eligible r.className r.loader with
  | false =>
    have hdirect : direct = d.shown r.className r.loader (files.get s) :=
      shown_apply_ineligible ht he (stats, s)
    have hcached : cached = d.shown r.className r.loader (files.get s') :=
      shown_apply_ineligible ht he (stats', s')
    refine ⟨hdirect, fun _ => ?_, fun hdeclined => ?_⟩
    · rw [hdirect, hcached, hway.shown_eq]
    · cases he.symm.trans hdeclined.1
  | true =>
    have hdirect : direct = shows (outcome r).guarded := shown_apply_direct ht he (stats, s)
    have hcached : cached =
        shows (overCache r.bytes (c.load r.key (files.get s')) (outcome r).guarded) := by
      -- what is shown of it does not depend on which of the two states it is shown in
      refine Eq.trans ?_ (hway.shown_showing hwf hwf' htidy _)
      exact shown_apply_cached ht he (w := (stats', s')) hwf' htidy hclear hentry
    refine ⟨hdirect, fun hnot => ?_, ?_⟩
    · rw [hdirect, hcached, overCache_eq_self]
      rintro ⟨hresult, hfound⟩
      exact hnot ⟨he, (outcome r).eq_done_of_guarded hresult, hfound⟩
    · rintro ⟨-, hnone, found, hfound⟩
      rw [hcached, hnone, hfound]
      rfl

/-- A changed class is dumped on a hit as it is without a cache. -/
theorem dump_over_cache_hit :
    let c : TransformCache := ⟨"c", "1"⟩
    let d : DumpDir := ⟨"d"⟩
    let r : TransformRequest := ⟨⟨1⟩, "a/A", none, [7]⟩
    let t : Transformation FileSystem :=
      .ofFunctions (fun _ _ => true) fun _ bytes => .done (some (bytes ++ [8]))
    let fs : FileSystem := ⟨[], [], 1, 0⟩
    let filled := (c.store r.key [7, 8] fs).2
    let left (store : Option (ResultStore FileSystem)) (fs : FileSystem) :=
      d.shown r.className r.loader
        (Lens.id.get (((dumping t store d .id).apply r).run ({}, fs)).state.2)
    c.load r.key filled = .ok (some [7, 8]) ∧
      left (some (c.resultStore .id)) filled = left none fs ∧ left none fs = some [7, 8] := by
  intro c d r t fs filled left
  have ht : t.OfRequest .id (fun _ _ => true) fun r => .done (some (r.bytes ++ [8])) :=
    ⟨fun _ _ _ => ⟨rfl, rfl⟩, fun _ _ => ⟨rfl, rfl⟩⟩
  have hwf : fs.WellFormed := FileSystem.wellFormed_of_no_entries rfl rfl
  have hwf' : filled.WellFormed := TransformCache.wellFormed_store hwf _ _
  have htidy : d.root.Tidy := by
    unfold Path.Tidy
    decide +kernel
  have hway : d.SameWay r.className r.loader fs filled := by
    refine ⟨by decide +kernel, fun place hplace => ?_⟩
    have hplaces : fs.trail d.root = [[], ["d"]] := by decide +kernel
    have hdump : fs.placeOf (d.pathFor r.className r.loader) = ["d", "a.A#loaderId=1.class"] := by
      decide +kernel
    simp only [hplaces, hdump, List.mem_cons, List.not_mem_nil, or_false] at hplace
    rcases hplace with (rfl | rfl) | rfl
    · decide +kernel
    · decide +kernel
    · decide +kernel
  have hclear : c.ClearOf d r filled :=
    ⟨by decide +kernel, by decide +kernel, by decide +kernel⟩
  have hload : c.load r.key filled = .ok (some [7, 8]) := by decide +kernel
  have hleft : left none fs = some [7, 8] := by decide +kernel
  -- from here on it does not matter how the cache has been filled
  clear_value filled
  have hentry : ∀ entry, c.load r.key filled = .ok (some entry) →
      ∃ result, (EditOutcome.done (some (r.bytes ++ [8]))).guarded = .ok result ∧
        entry = result.getD r.bytes := by
    intro entry h
    rw [hload] at h
    cases h
    exact ⟨some [7, 8], rfl, rfl⟩
  have hdump := dump_over_cache ht c d r {} {} fs filled hwf hwf' htidy hway hclear hentry
  exact ⟨hload, hdump.2.1 (fun h => nomatch h.2.1), hleft⟩

/-- **The dump depends on the cache.** An edit that declines leaves nothing in the dump directory
without a cache, and nothing if the cache cannot be read. Its input is dumped when the cache has no
entry for it, also if none can be stored, and when it has one. -/
theorem dump_over_cache_declined :
    let c : TransformCache := ⟨"c", "1"⟩
    let d : DumpDir := ⟨"d"⟩
    let r : TransformRequest := ⟨⟨1⟩, "a/A", none, [7]⟩
    let t : Transformation FileSystem := .ofFunctions (fun _ _ => true) fun _ _ => .done none
    let left (store : Option (ResultStore FileSystem)) (fs : FileSystem) :=
      d.shown r.className r.loader (((dumping t store d .id).apply r).run ({}, fs)).state.2
    let cached := left (some (c.resultStore .id))
    let empty : FileSystem := ⟨[], [], 1, 0⟩
    let unreadable : FileSystem :=
      ⟨[(["c"], .dir), (["c", "1"], .dir), (["c", "1", r.key.fileName], .dir)], [], 1, 0⟩
    let unwritable : FileSystem :=
      ⟨[(["c"], .dir), (["c", "1"], .dir),
        (["c", "1", r.key.fileName ++ ".tmp-1-0"], .dir)], [], 1, 0⟩
    left none empty = none ∧ cached empty = some [7] ∧
      cached (c.store r.key [7] empty).2 = some [7] ∧ cached unreadable = none ∧
      cached unwritable = some [7] := by
  decide +kernel

end CachingTransformer

end Reclass
