import Mathlib.Data.List.Nodup
import Mathlib.Data.List.Perm.Subperm
import Reclass.Proofs.Files.Trees

/-!
# What lies below a place

A listing goes down as many levels as there are entries, which is enough: every name on the way to
something has an entry of its own (`FileSystem.WellFormed.length_le`). So it has everything that is
below the place, and nothing else (`FileSystem.WellFormed.mem_contents_iff`).
-/

set_option autoImplicit false

namespace Reclass.FileSystem

variable {fs : FileSystem} {here : Place} {rest : List String} {node : Node}

/-- What is listed at most so many levels deep. -/
theorem mem_below_iff (h : fs.WellFormed) {depth : Nat} :
    (rest, node) ∈ fs.below depth here ↔
      rest ≠ [] ∧ rest.length ≤ depth ∧ fs.node? (here ++ rest) = some node := by
  induction depth generalizing here rest with
  | zero =>
    rw [below]
    constructor
    · exact fun hmem => absurd hmem List.not_mem_nil
    · rintro ⟨hne, hlength, -⟩
      exact absurd (List.length_eq_zero_iff.1 (Nat.le_zero.1 hlength)) hne
  | succ depth ih =>
    simp only [below, List.mem_flatMap, List.mem_mergeSort, mem_children_iff]
    constructor
    · rintro ⟨name, -, hmem⟩
      cases hnode : fs.node? (here ++ [name]) with
      | none => simp [hnode] at hmem
      | some found =>
        simp only [hnode, List.mem_cons, Prod.mk.injEq, List.mem_map, Prod.exists] at hmem
        rcases hmem with ⟨rfl, rfl⟩ | ⟨inner, node', hinner, rfl, rfl⟩
        · exact ⟨List.cons_ne_nil name [], by simp, hnode⟩
        · obtain ⟨-, hlength, hthere⟩ := ih.1 hinner
          refine ⟨List.cons_ne_nil name inner, by simpa using hlength, ?_⟩
          simpa using hthere
    · rintro ⟨hne, hlength, hthere⟩
      obtain ⟨name, inner, rfl⟩ := List.exists_cons_of_ne_nil hne
      rw [List.append_cons] at hthere
      -- what comes first on the way is listed, as itself or as the directory of the rest
      by_cases hinner : inner = []
      · subst hinner
        rw [List.append_nil] at hthere
        exact ⟨name, by simp [hthere], by simp [hthere]⟩
      · have hdir : fs.node? (here ++ [name]) = some .dir :=
          h.dir_of_prefix hinner (by rw [hthere]; exact Option.some_ne_none node)
        refine ⟨name, by simp [hdir], ?_⟩
        simp only [hdir, List.mem_cons, Prod.mk.injEq, List.mem_map, Prod.exists]
        refine Or.inr ⟨inner, node, ih.2 ⟨hinner, by simpa using hlength, hthere⟩, rfl, rfl⟩

/-- Every name on the way to something has an entry. -/
theorem WellFormed.length_le (h : fs.WellFormed) (hthere : fs.node? (here ++ rest) ≠ none) :
    rest.length ≤ fs.entries.length := by
  -- the places on the way, from the first name below `here` on
  have hplaces : ((List.range rest.length).map fun i => here ++ rest.take (i + 1)).Nodup := by
    refine List.Nodup.map_on ?_ List.nodup_range
    intro i hi j hj hij
    rw [List.mem_range] at hi hj
    have hlength := congrArg List.length (List.append_cancel_left hij)
    simp only [List.length_take] at hlength
    omega
  have hsub : ((List.range rest.length).map fun i => here ++ rest.take (i + 1)) ⊆
      fs.entries.map Prod.fst := by
    intro place hplace
    obtain ⟨i, hi, rfl⟩ := List.mem_map.1 hplace
    rw [List.mem_range] at hi
    have hne : rest.take (i + 1) ≠ [] := by
      rw [Ne, List.take_eq_nil_iff, not_or]
      exact ⟨Nat.succ_ne_zero i, List.ne_nil_of_length_pos (by omega)⟩
    have hsome : fs.node? (here ++ rest.take (i + 1)) ≠ none := by
      by_cases hlast : rest.drop (i + 1) = []
      · rwa [List.take_of_length_le (List.drop_eq_nil_iff.1 hlast)]
      · have hdir : fs.node? (here ++ rest.take (i + 1)) = some .dir := by
          refine h.dir_of_prefix hlast ?_
          rwa [List.append_assoc, List.take_append_drop]
        simp [hdir]
    rwa [node?_of_ne_nil fs (List.append_ne_nil_of_right_ne_nil here hne), lookup_ne_none_iff]
      at hsome
  have hlength := (List.subperm_of_subset hplaces hsub).length_le
  simpa using hlength

/-- **A listing has everything that is below the place**, and nothing else. -/
theorem WellFormed.mem_contents_iff (h : fs.WellFormed) :
    (rest, node) ∈ fs.contents here ↔ rest ≠ [] ∧ fs.node? (here ++ rest) = some node := by
  rw [contents, mem_below_iff h]
  constructor
  · rintro ⟨hne, -, hthere⟩
    exact ⟨hne, hthere⟩
  · rintro ⟨hne, hthere⟩
    have hsome : fs.node? (here ++ rest) ≠ none := by
      rw [hthere]
      exact Option.some_ne_none node
    exact ⟨hne, Nat.le_succ_of_le (h.length_le hsome), hthere⟩

end Reclass.FileSystem
