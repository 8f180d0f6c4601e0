import Reclass.Proofs.Cache.Retention
import Reclass.Proofs.Transform.Once

/-!
# One output for each key of a cache on disk

A cache to which only caching transformers write gets one output for each key
(`TransformCache.one_output_per_key`). What is there is loaded (`TransformCache.Settled`), and a
store or a dump makes no difference to the results of other keys (`TransformCache.Settled.store`,
`TransformCache.Settled.dump`), so the transformers are alone with their store
(`TransformCache.alone_around`).
-/

set_option autoImplicit false

namespace Reclass

variable {σ ι : Type}

namespace TransformCache

open CachingTransformer (Agree)

variable {c : TransformCache} {files : Lens σ FileSystem} {fs fs' : FileSystem}
  {r q : TransformRequest} {stored output : Bytes}

/-! ### What is there is loaded -/

/-- Every result that is there is loaded, unless the operating system refuses its path. It is so
when there is none, as it is in the beginning if nobody else writes to the cache
(`Vacant.settled`), or when the path to the version does not lead up (`settled_of_no_up`). -/
def Settled (c : TransformCache) (fs : FileSystem) : Prop :=
  ∀ (r : TransformRequest) stored, (c.entryPath r.key).Accepted →
    fs.node? (fs.placeOf (c.entryPath r.key)) = some (.file stored) → c.Lies r stored fs

theorem Vacant.settled (h : c.Vacant fs) : c.Settled fs :=
  fun r stored _ hfile => absurd hfile (h r stored)

theorem settled_of_no_up (hwf : fs.WellFormed) (hup : ".." ∉ c.versionDir.steps) :
    c.Settled fs := by
  intro r stored hacc hfile
  refine ⟨hacc, hwf.passable_join r.plain_fileName hup ?_, hfile⟩
  rw [← entryPath, hfile]
  exact Option.some_ne_none _

/-- A result that is there after no file has been made in its place was there before. -/
theorem Settled.lies_of_adds (h : c.Settled fs) {new : Place → Bytes → Prop}
    (hadds : fs.Adds fs' new)
    (hnew : ∀ found, ¬ new (fs.placeOf (c.entryPath r.key)) found)
    (hacc : (c.entryPath r.key).Accepted)
    (hfile : fs'.node? (fs'.placeOf (c.entryPath r.key)) = some (.file stored)) :
    c.Lies r stored fs := by
  rw [FileSystem.placeOf_congr hadds.cwd] at hfile
  exact h r stored hacc ((hadds.file _ stored hfile).resolve_right (hnew stored))

/-! ### What the cache holds -/

/-- What the cache gives for a key. -/
def contents (c : TransformCache) (fs : FileSystem) : StoreContents :=
  fun k => (c.load k fs).toOption.join

/-- What is to be seen of the results: for each request what is in the place of its result, and
what is loaded. -/
def results (c : TransformCache) (fs : FileSystem) (r : TransformRequest) :
    Option Node × Except StorageError (Option Bytes) :=
  (fs.node? (fs.placeOf (c.entryPath r.key)), c.load r.key fs)

theorem contents_of_load {found : Option Bytes} (h : c.load r.key fs = .ok found) :
    c.contents fs r.key = found := by
  rw [contents, h]
  rfl

theorem contents_eq_some_iff : c.contents fs r.key = some stored ↔ c.Lies r stored fs := by
  rw [← load_eq_ok_iff, contents]
  cases c.load r.key fs with
  | error e => exact iff_of_false nofun nofun
  | ok found => exact (Except.ok.injEq ..).symm.to_iff

theorem contents_congr (h : ∀ stored, c.Lies r stored fs' ↔ c.Lies r stored fs) :
    c.contents fs' r.key = c.contents fs r.key :=
  Option.ext fun stored => by
    rw [contents_eq_some_iff, contents_eq_some_iff, h]

/-! ### Storing and showing results -/

/-- **A result that has been stored is the only change.** -/
theorem Settled.store (h : c.Settled fs) {path : Path}
    (hok : (c.store r.key output fs).1 = .ok path) :
    c.Settled (c.store r.key output fs).2 ∧ ∀ q : TransformRequest,
      c.contents (c.store r.key output fs).2 q.key =
        if q.key = r.key then some output else c.contents fs q.key := by
  have hstored := lies_of_store hok
  have hadds := c.store_adds r output fs
  have hnew {q : TransformRequest} (hne : q.key ≠ r.key) (found : Bytes) :
      ¬ (fs.placeOf (c.entryPath q.key) = fs.placeOf (c.entryPath r.key) ∧ found = output ∨
        c.Apart fs (fs.placeOf (c.entryPath q.key))) := by
    rintro (⟨hplace, -⟩ | hapart)
    · rw [placeOf_entryPath, placeOf_entryPath] at hplace
      exact hne (CacheKey.fileName_inj (List.append_singleton_inj.1 hplace).2)
    · exact hapart q rfl
  constructor
  · intro q stored hacc hfile
    by_cases hkey : q.key = r.key
    · rw [hkey] at hfile
      cases hstored.file.symm.trans hfile
      rw [← load_eq_ok_iff, hkey, load_eq_ok_iff]
      exact hstored
    · exact (h.lies_of_adds hadds (hnew hkey) hacc hfile).store (Ne.symm hkey) output
  · intro q
    by_cases hkey : q.key = r.key
    · rw [if_pos hkey, hkey]
      exact contents_eq_some_iff.2 hstored
    · rw [if_neg hkey]
      refine contents_congr fun stored => ⟨fun hlies => ?_, fun hlies => ?_⟩
      · exact h.lies_of_adds hadds (hnew hkey) hlies.accepted hlies.file
      · exact hlies.store (Ne.symm hkey) output

/-- **Showing a class changes no result.** -/
theorem Settled.dump (h : c.Settled fs) (d : DumpDir) (name : String) (loader : LoaderId)
    (bytes : Bytes) :
    c.Settled (d.write name loader bytes fs).2 ∧ ∀ q : TransformRequest,
      c.contents (d.write name loader bytes fs).2 q.key = c.contents fs q.key := by
  have hbefore {q : TransformRequest} {stored : Bytes} (hacc : (c.entryPath q.key).Accepted)
      (hfile : (d.write name loader bytes fs).2.node?
        ((d.write name loader bytes fs).2.placeOf (c.entryPath q.key)) = some (.file stored)) :
      c.Lies q stored fs :=
    h.lies_of_adds (c.dump_adds d name loader bytes fs) (fun _ hapart => hapart q rfl) hacc hfile
  constructor
  · exact fun q stored hacc hfile => (hbefore hacc hfile).dump d name loader bytes
  · refine fun q => contents_congr fun stored => ⟨fun hlies => ?_, fun hlies => ?_⟩
    · exact hbefore hlies.accepted hlies.file
    · exact hlies.dump d name loader bytes

/-- Files with the same results are settled alike, and the cache holds the same. -/
theorem Settled.of_results (h : c.Settled fs) (hsame : c.results fs' = c.results fs) :
    c.Settled fs' ∧ ∀ q : TransformRequest, c.contents fs' q.key = c.contents fs q.key := by
  have hseen (q : TransformRequest) :
      fs'.node? (fs'.placeOf (c.entryPath q.key)) = fs.node? (fs.placeOf (c.entryPath q.key)) ∧
        c.load q.key fs' = c.load q.key fs :=
    Prod.mk.inj (congrFun hsame q)
  constructor
  · intro q stored hacc hfile
    rw [(hseen q).1] at hfile
    rw [← load_eq_ok_iff, (hseen q).2]
    exact load_eq_ok_iff.2 (h q stored hacc hfile)
  · intro q
    rw [contents, contents, (hseen q).2]

/-! ### Transformers around one edit -/

/-- The caching transformer around an edit that keeps its results in the cache, and shows them if
there is a directory for that. -/
def around (c : TransformCache) (files : Lens σ FileSystem) (dump : Option DumpDir)
    (t : Transformation σ) : CachingTransformer σ where
  inner := t
  store := some (c.resultStore files)
  dump := dump.map fun d => d.target files

theorem alone_around {t : Transformation σ} (hkeeps : t.Keeps fun s => c.results (files.get s))
    (dump : Option DumpDir) :
    (c.around files dump t).Alone (fun s => c.results (files.get s))
      (fun s => c.Settled (files.get s)) (fun s => c.contents (files.get s)) where
  inner := hkeeps
  seen s s' hview hs := hs.of_results hview
  load := by
    rintro store ⟨⟩ r s hs
    rw [resultStore, Act.ensures_zoom, Act.ensures_gets, files.set_get]
    exact ⟨rfl, fun found hfound => (contents_of_load hfound).symm⟩
  store := by
    rintro store ⟨⟩ r output s hs
    rw [resultStore, Act.ensures_zoom, Act.ensures_modifyGet, files.get_set]
    exact fun path hok => hs.store hok
  dump := by
    intro target htarget name loader bytes s hs
    obtain ⟨d, -, rfl⟩ := Option.map_eq_some_iff.1 htarget
    simp only [DumpDir.target, Act.ensures_zoom, Act.ensures_modifyGet, Agree, files.get_set]
    exact hs.dump d name loader bytes

/-- **One output for each key.** Around one edit, whatever it answers, several caching transformers
keep their results in one cache, to which nobody else writes, the edit included. What is there in
the beginning is loaded. The transformers are called in any order, one call after another: each is
over before the next one begins. Unless storage fails, the edit comes to one output at most for each
key. A call for which it fails changes no result, so the next request with the key calls it again.
Once there is an output, it is the answer to every later request with the key. -/
theorem one_output_per_key [DecidableEq ι] (c : TransformCache) (files : Lens σ FileSystem)
    (dumps : ι → Option DumpDir) (t : Transformation σ)
    (hkeeps : t.Keeps fun s => c.results (files.get s)) (start : σ)
    (hstart : c.Settled (files.get start)) (stats : ι → TransformStats)
    (calls : List (ι × TransformRequest)) :
    (CachingTransformer.watchEach (fun i => c.around files (dumps i) t) calls).Ensures
      (stats, start) fun turns _ => (∀ turn ∈ turns, turn.Stored) →
        OncePerKey (fun s => c.results (files.get s)) turns := by
  have halone (i : ι) := c.alone_around hkeeps (dumps i)
  refine (CachingTransformer.Alone.watchEach_ensures halone (fun _ => Option.some_ne_none _) calls
    stats hstart).imp fun turns _ hcourse hstored => ?_
  exact (hcourse hstored).oncePerKey

/-- An edit that passes over one class. Of its calls the first is aborted, the second has an output,
and the others decline. -/
def fickle : Transformation (FileSystem × Nat) where
  accepts name _ := pure (name != "C")
  edit _ := do
    let n ← Act.gets Prod.snd
    Act.zoom .snd (Act.modify (· + 1))
    return match n with
      | 0 => .aborted .other
      | 1 => .done (some [1])
      | _ => .done none

/-- What two instances are called for: a class for which the edit is aborted at first, one that is
passed over, and one that is declined. -/
def fickleCalls : List (Bool × TransformRequest) :=
  [(false, ⟨⟨1⟩, "p/A", none, [7]⟩), (true, ⟨⟨1⟩, "C", none, [7]⟩),
    (true, ⟨⟨1⟩, "p/A", none, [7]⟩), (false, ⟨⟨2⟩, "p/A", none, [7]⟩),
    (true, ⟨⟨1⟩, "B", none, [7]⟩), (false, ⟨⟨1⟩, "B", none, [7]⟩)]

/-- How the calls proceed, from no files on. One of the instances shows its results. -/
def fickleTurns : List (Turn (FileSystem × Nat)) :=
  ((CachingTransformer.watchEach (fun shows => around ⟨"cache", "1"⟩ .fst
    (if shows then some ⟨"dump"⟩ else none) fickle) fickleCalls).run
      (fun _ => {}, ⟨[], [], 1, 0⟩, 0)).value

theorem one_output_per_key_fickle :
    (fickle.Keeps fun s => results ⟨"cache", "1"⟩ s.1) ∧
      Settled ⟨"cache", "1"⟩ ⟨[], [], 1, 0⟩ ∧
      (∀ turn ∈ fickleTurns, turn.Stored) ∧
      OncePerKey (fun s => results ⟨"cache", "1"⟩ s.1) fickleTurns ∧
      fickleTurns.map (fun turn => (turn.calls.length, turn.answer)) =
        [(1, none), (0, none), (1, some [1]), (0, some [1]), (1, none), (0, none)] := by
  have hkeeps : fickle.Keeps fun s => results ⟨"cache", "1"⟩ s.1 :=
    ⟨fun _ _ _ => rfl, fun _ _ => rfl⟩
  have hsettled : Settled ⟨"cache", "1"⟩ ⟨[], [], 1, 0⟩ := (vacant_of_no_entries rfl).settled
  have hturns : (∀ turn ∈ fickleTurns, turn.Stored) ∧
      fickleTurns.map (fun turn => (turn.calls.length, turn.answer)) =
        [(1, none), (0, none), (1, some [1]), (0, some [1]), (1, none), (0, none)] := by
    decide +kernel
  have honce := one_output_per_key ⟨"cache", "1"⟩ .fst
    (fun shows => if shows then some ⟨"dump"⟩ else none) fickle hkeeps (⟨[], [], 1, 0⟩, 0)
    hsettled (fun _ => {}) fickleCalls
  exact ⟨hkeeps, hsettled, hturns.1, honce hturns.1, hturns.2⟩

end TransformCache

end Reclass
