import Mathlib.Algebra.GroupWithZero.Nat
import Mathlib.Data.List.Dedup
import Reclass.Proofs.Cache.Disk

/-!
# A finite map of results

What caches over one root hold is a map from versions and keys to results (`CacheMap`). Its tree has
a directory for each version that has a result, and in it a file for each key (`CacheMap.Shows`);
storing and clearing change the tree in one place only (`CacheMap.shows_store_iff`,
`CacheMap.shows_clear_iff`).
-/

set_option autoImplicit false

namespace Reclass

/-! ### The map -/

/-- What a cache holds: results by version and key. -/
structure CacheMap where
  entries : List ((String × CacheKey) × Bytes)
  /-- Each version has one result under a key. -/
  nodup : (entries.map Prod.fst).Nodup

/-- The order in which texts are given does not matter for sorting them. -/
theorem mergeSort_eq_of_perm {xs ys : List String} (h : xs.Perm ys) :
    xs.mergeSort (fun a b => a ≤ b) = ys.mergeSort fun a b => a ≤ b := by
  have hsorted : ∀ zs : List String,
      (zs.mergeSort fun a b => a ≤ b).Pairwise fun a b => decide (a ≤ b) = true := by
    refine List.pairwise_mergeSort (fun a b c hab hbc => ?_) fun a b => ?_
    · exact decide_eq_true (String.le_trans (of_decide_eq_true hab) (of_decide_eq_true hbc))
    · rw [Bool.or_eq_true, decide_eq_true_iff, decide_eq_true_iff]
      exact String.le_total a b
  refine List.Perm.eq_of_pairwise (fun a b _ _ hab hba => ?_) (hsorted xs) (hsorted ys) ?_
  · exact String.le_antisymm (of_decide_eq_true hab) (of_decide_eq_true hba)
  · exact (xs.mergeSort_perm _).trans (h.trans (ys.mergeSort_perm _).symm)

namespace CacheMap

def empty : CacheMap := ⟨[], List.nodup_nil⟩

variable (m : CacheMap) (version : String) (key : CacheKey)

/-- The result of a version under a key. -/
def load : Option Bytes := m.entries.lookup (version, key)

/-- Puts a result under a key in place of any that was there. -/
def store (result : Bytes) : CacheMap where
  entries := m.entries.filter (·.1 ≠ (version, key)) ++ [((version, key), result)]
  nodup := by
    have hrest : ((m.entries.filter (·.1 ≠ (version, key))).map Prod.fst).Nodup :=
      m.nodup.sublist (List.filter_sublist.map Prod.fst)
    rw [List.map_append]
    refine List.nodup_append.2 ⟨hrest, List.nodup_singleton _, fun k hk k' hk' he => ?_⟩
    obtain ⟨e, hmem, rfl⟩ := List.mem_map.1 hk
    rw [List.mem_singleton.1 hk'] at he
    exact of_decide_eq_true (List.mem_filter.1 hmem).2 he

/-- Drops the results of a version. -/
def clear : CacheMap where
  entries := m.entries.filter (·.1.1 ≠ version)
  nodup := m.nodup.sublist (List.filter_sublist.map Prod.fst)

/-- The results of a version. -/
def results : List ((String × CacheKey) × Bytes) := m.entries.filter (·.1.1 = version)

/-- The versions that have a result. -/
def versions : List String := (m.entries.map fun e => e.1.1).dedup

/-- What a version holds: the number of its keys, and the size of their results together. -/
def versionStats : VersionStats :=
  ⟨version, (m.results version).length, ((m.results version).map fun e => e.2.length).sum⟩

/-- What each version holds, sorted by version. -/
def stats : List VersionStats := (m.versions.mergeSort fun a b => a ≤ b).map m.versionStats

variable {m version key} {result : Bytes} {e : (String × CacheKey) × Bytes}

theorem mem_store_iff : e ∈ (m.store version key result).entries ↔
    e ∈ m.entries ∧ e.1 ≠ (version, key) ∨ e = ((version, key), result) := by
  rw [store, List.mem_append, List.mem_filter, List.mem_singleton, decide_eq_true_iff]

theorem mem_clear_iff : e ∈ (m.clear version).entries ↔ e ∈ m.entries ∧ e.1.1 ≠ version := by
  rw [clear, List.mem_filter, decide_eq_true_iff]

theorem mem_results_iff : e ∈ m.results version ↔ e ∈ m.entries ∧ e.1.1 = version := by
  rw [results, List.mem_filter, decide_eq_true_iff]

theorem mem_versions_iff : version ∈ m.versions ↔ ∃ e ∈ m.entries, e.1.1 = version := by
  rw [versions, List.mem_dedup, List.mem_map]

/-- What is loaded is the entry there is. -/
theorem load_eq_some_iff : m.load version key = some result ↔
    ((version, key), result) ∈ m.entries := by
  rw [load, List.lookup_eq_some_iff]
  constructor
  · rintro ⟨before, after, hentries, -⟩
    rw [hentries]
    exact List.mem_append_right before List.mem_cons_self
  · intro hmem
    obtain ⟨before, after, hentries⟩ := List.append_of_mem hmem
    refine ⟨before, after, hentries, fun e he => bne_iff_ne.2 fun hkey => ?_⟩
    have hnodup := m.nodup
    rw [hentries, List.map_append, List.nodup_append] at hnodup
    exact hnodup.2.2 e.1 (List.mem_map_of_mem he) _ List.mem_cons_self hkey.symm

theorem load_eq_none_iff : m.load version key = none ↔
    ∀ result, ((version, key), result) ∉ m.entries := by
  simp only [Option.eq_none_iff_forall_ne_some, Ne, load_eq_some_iff]

/-- The results of a version have different names. -/
theorem nodup_names (m : CacheMap) (version : String) :
    ((m.results version).map fun e => e.1.2.fileName).Nodup := by
  have hnodup : (m.results version).Nodup := m.nodup.of_map.filter _
  refine hnodup.map_on fun e he e' he' hname => ?_
  obtain ⟨hmem, hversion⟩ := mem_results_iff.1 he
  obtain ⟨hmem', hversion'⟩ := mem_results_iff.1 he'
  exact List.inj_on_of_nodup_map m.nodup hmem hmem'
    (Prod.ext (hversion.trans hversion'.symm) (CacheKey.fileName_inj hname))

/-! ### The tree of a map -/

/-- What lies below the root: a directory for each version, and the results in it. -/
inductive Shows (m : CacheMap) : Place → Node → Prop
  | version {e : (String × CacheKey) × Bytes} (he : e ∈ m.entries) : Shows m [e.1.1] .dir
  | result {e : (String × CacheKey) × Bytes} (he : e ∈ m.entries) :
    Shows m [e.1.1, e.1.2.fileName] (.file e.2)

theorem shows_version_iff {node : Node} :
    m.Shows [version] node ↔ node = .dir ∧ version ∈ m.versions := by
  rw [mem_versions_iff]
  constructor
  · intro h
    cases h with
    | version he => exact ⟨rfl, _, he, rfl⟩
  · rintro ⟨rfl, e, he, rfl⟩
    exact .version he

theorem shows_result_iff {name : String} {node : Node} : m.Shows [version, name] node ↔
    ∃ e ∈ m.results version, name = e.1.2.fileName ∧ node = .file e.2 := by
  constructor
  · intro h
    cases h with
    | result he => exact ⟨_, mem_results_iff.2 ⟨he, rfl⟩, rfl, rfl⟩
  · rintro ⟨e, he, rfl, rfl⟩
    obtain ⟨hmem, rfl⟩ := mem_results_iff.1 he
    exact .result hmem

theorem not_shows_empty {place : Place} {node : Node} : ¬ empty.Shows place node := by
  rintro (⟨⟨⟩⟩ | ⟨⟨⟩⟩)

theorem shows_clear_iff {place : Place} {node : Node} :
    (m.clear version).Shows place node ↔ m.Shows place node ∧ ¬ [version] <+: place := by
  constructor
  · intro h
    cases h with
    | version he =>
      obtain ⟨he, hne⟩ := mem_clear_iff.1 he
      refine ⟨.version he, fun hbegins => hne (List.cons_prefix_cons.1 hbegins).1.symm⟩
    | result he =>
      obtain ⟨he, hne⟩ := mem_clear_iff.1 he
      refine ⟨.result he, fun hbegins => hne (List.cons_prefix_cons.1 hbegins).1.symm⟩
  · rintro ⟨h, hbegins⟩
    cases h with
    | @version e he =>
      refine .version (mem_clear_iff.2 ⟨he, fun hversion => hbegins ?_⟩)
      subst hversion
      exact List.prefix_refl [e.1.1]
    | @result e he =>
      refine .result (mem_clear_iff.2 ⟨he, fun hversion => hbegins ?_⟩)
      rw [hversion]
      exact List.prefix_append [version] _

theorem shows_store_iff {place : Place} {node : Node} :
    (m.store version key result).Shows place node ↔
      if place = [version, key.fileName] then node = .file result
      else place = [version] ∧ node = .dir ∨ m.Shows place node := by
  have hnew : ((version, key), result) ∈ (m.store version key result).entries :=
    mem_store_iff.2 (Or.inr rfl)
  constructor
  · intro h
    cases h with
    | @version e he =>
      rw [if_neg nofun]
      rcases mem_store_iff.1 he with ⟨he, -⟩ | rfl
      · exact Or.inr (.version he)
      · exact Or.inl ⟨rfl, rfl⟩
    | @result e he =>
      by_cases hplace : [e.1.1, e.1.2.fileName] = [version, key.fileName]
      · -- the file of the key is that of the new entry
        rw [if_pos hplace]
        obtain ⟨hversion, hname⟩ := List.cons_eq_cons.1 hplace
        have hkey : e.1 = (version, key) :=
          Prod.ext hversion (CacheKey.fileName_inj (List.cons_eq_cons.1 hname).1)
        rcases mem_store_iff.1 he with ⟨-, hne⟩ | rfl
        · exact absurd hkey hne
        · rfl
      · rw [if_neg hplace]
        rcases mem_store_iff.1 he with ⟨he, -⟩ | rfl
        · exact Or.inr (.result he)
        · exact absurd rfl hplace
  · intro h
    by_cases hplace : place = [version, key.fileName]
    · rw [if_pos hplace] at h
      rw [hplace, h]
      exact .result hnew
    · rw [if_neg hplace] at h
      rcases h with ⟨rfl, rfl⟩ | h
      · exact .version hnew
      · cases h with
        | @version e he =>
          by_cases hkey : e.1 = (version, key)
          · rw [hkey]
            exact .version hnew
          · exact .version (mem_store_iff.2 (Or.inl ⟨he, hkey⟩))
        | @result e he =>
          refine .result (mem_store_iff.2 (Or.inl ⟨he, fun hkey => hplace ?_⟩))
          rw [hkey]

end CacheMap

end Reclass
