import Mathlib.Data.List.Nodup
import Reclass.Proofs.Files.Places

/-!
# File systems as trees

What lies anywhere lies in a directory, each place is listed once, and relative paths start in a
directory (`FileSystem.WellFormed`). The operations below keep this, and what they do is told by
what is at each place afterwards. A directory lists each name in it once
(`FileSystem.mem_children_iff`, `FileSystem.WellFormed.nodup_children`).
-/

set_option autoImplicit false

namespace Reclass.FileSystem

variable {fs : FileSystem} {here place : Place} {name : String} {node : Node}

/-- The entries form a tree in which relative paths start in a directory. -/
structure WellFormed (fs : FileSystem) : Prop where
  /-- Each place has one entry. -/
  nodup : (fs.entries.map Prod.fst).Nodup
  /-- What has a name has it in a directory. -/
  parent : ∀ here name, fs.node? (here ++ [name]) ≠ none → fs.node? here = some .dir
  cwd : fs.node? fs.cwd = some .dir

theorem node?_of_no_entries (h : fs.entries = []) :
    fs.node? place = if place = [] then some .dir else none := by
  rw [node?, h]
  rfl

theorem wellFormed_of_no_entries (h : fs.entries = []) (hcwd : fs.cwd = []) : fs.WellFormed where
  nodup := by
    rw [h]
    exact List.nodup_nil
  parent here name hthere := by
    rw [node?_of_no_entries h,
      if_neg (List.concat_ne_nil name here)] at hthere
    exact absurd rfl hthere
  cwd := by
    rw [hcwd]
    exact if_pos rfl

/-! ### What is at a place after an operation -/

theorem node?_nil (fs : FileSystem) : fs.node? [] = some .dir := if_pos rfl

theorem node?_of_ne_nil (fs : FileSystem) (h : place ≠ []) :
    fs.node? place = fs.entries.lookup place := if_neg h

theorem lookup_filter_key (es : List (Place × Node)) (keep : Place → Bool) :
    (es.filter fun e => keep e.1).lookup place = if keep place then es.lookup place else none := by
  induction es with
  | nil =>
    rw [List.filter_nil, List.lookup_nil, ite_self]
  | cons e es ih =>
    obtain ⟨at', n⟩ := e
    rw [List.filter_cons, List.lookup_cons]
    by_cases hp : place = at'
    · subst hp
      by_cases hk : keep place = true
      · rw [if_pos hk, List.lookup_cons, beq_self_eq_true, if_pos hk]
      · rw [if_neg hk, ih, if_neg hk, if_neg hk]
    · have hp' : (place == at') = false := beq_eq_false_iff_ne.2 hp
      rw [hp']
      dsimp only
      by_cases hk : keep at' = true
      · rw [if_pos hk, List.lookup_cons, hp']
        exact ih
      · rw [if_neg hk]
        exact ih

theorem node?_erase (fs : FileSystem) (hne : here ≠ []) :
    (fs.erase here).node? place = if place = here then none else fs.node? place := by
  by_cases hroot : place = []
  · subst hroot
    rw [if_neg (Ne.symm hne), node?_nil, node?_nil]
  · rw [node?_of_ne_nil _ hroot, node?_of_ne_nil _ hroot, erase]
    exact lookup_filter_ne fs.entries

/-- What is put where nothing is can be taken away again. -/
theorem node?_erase_put (fs : FileSystem) (hne : here ≠ []) (hnone : fs.node? here = none)
    (node : Node) : ((fs.put here node).erase here).node? place = fs.node? place := by
  rw [node?_erase _ hne, node?_put fs node hne]
  by_cases hp : place = here
  · rw [if_pos hp, hp, hnone]
  · rw [if_neg hp, if_neg hp]

/-- Below the place nothing is left; the rest is as it was. -/
theorem node?_eraseBelow (fs : FileSystem) (here place : Place) :
    (fs.eraseBelow here).node? place =
      if place ≠ here ∧ here <+: place then none else fs.node? place := by
  by_cases hroot : place = []
  · subst hroot
    rw [node?_nil, node?_nil, if_neg]
    rintro ⟨hne, hbegins⟩
    exact hne (List.prefix_nil.1 hbegins).symm
  · rw [node?_of_ne_nil _ hroot, node?_of_ne_nil _ hroot, eraseBelow]
    refine (lookup_filter_key fs.entries fun p => decide (p = here) || !here.isPrefixOf p).trans ?_
    by_cases hbelow : place ≠ here ∧ here <+: place
    · have hdrop : (decide (place = here) || !here.isPrefixOf place) = false := by
        rw [decide_eq_false hbelow.1, List.isPrefixOf_iff_prefix.2 hbelow.2]
        rfl
      rw [if_pos hbelow, hdrop, if_neg Bool.false_ne_true]
    · have hstay : (decide (place = here) || !here.isPrefixOf place) = true := by
        rw [Bool.or_eq_true, decide_eq_true_iff, Bool.not_eq_true', ← Bool.not_eq_true,
          List.isPrefixOf_iff_prefix]
        by_contra h
        rw [not_or, not_not] at h
        exact hbelow h
      rw [if_neg hbelow, if_pos hstay]

theorem lookup_ne_none_iff (es : List (Place × Node)) :
    es.lookup place ≠ none ↔ place ∈ es.map Prod.fst := by
  rw [Ne, List.lookup_eq_none_iff, List.mem_map]
  simp only [bne_iff_ne, not_forall, not_not]
  constructor
  · rintro ⟨e, he, rfl⟩
    exact ⟨e, he, rfl⟩
  · rintro ⟨e, he, rfl⟩
    exact ⟨e, he, rfl⟩

/-- The entries of a tree, each once and with that of its directory. -/
theorem wellFormed_of_entries (hnodup : (fs.entries.map Prod.fst).Nodup)
    (hparent : ∀ e ∈ fs.entries, fs.node? e.1.dropLast = some .dir)
    (hcwd : fs.node? fs.cwd = some .dir) : fs.WellFormed where
  nodup := hnodup
  parent here name hthere := by
    rw [node?_of_ne_nil fs (List.concat_ne_nil name here), lookup_ne_none_iff] at hthere
    obtain ⟨e, he, heq⟩ := List.mem_map.1 hthere
    have hdir := hparent e he
    rwa [heq, List.dropLast_concat] at hdir
  cwd := hcwd

/-! ### Operations keep the tree -/

theorem WellFormed.parent_dir (h : fs.WellFormed) (hdir : fs.node? here = some .dir) :
    fs.node? here.dropLast = some .dir := by
  rcases List.eq_nil_or_concat here with rfl | ⟨outer, name, rfl⟩
  · exact hdir
  · rw [List.concat_eq_append, List.dropLast_concat]
    refine h.parent outer name ?_
    rw [← List.concat_eq_append, hdir]
    exact Option.some_ne_none _

/-- Every place on the way to something is a directory. -/
theorem WellFormed.dir_of_prefix (h : fs.WellFormed) {rest : List String} (hne : rest ≠ [])
    (hthere : fs.node? (here ++ rest) ≠ none) : fs.node? here = some .dir := by
  induction rest generalizing here with
  | nil => exact absurd rfl hne
  | cons name rest ih =>
    refine h.parent here name fun hnone => ?_
    cases rest with
    | nil => exact hthere hnone
    | cons next rest =>
      have hdir : fs.node? (here ++ [name]) = some .dir := by
        refine ih (List.cons_ne_nil next rest) ?_
        rw [List.append_assoc]
        exact hthere
      rw [hnone] at hdir
      cases hdir

/-- Something may be put where there is no directory, into a directory. -/
theorem WellFormed.put (h : fs.WellFormed) (hne : here ≠ [])
    (houter : fs.node? here.dropLast = some .dir) (hnot : fs.node? here ≠ some .dir) (node : Node) :
    (fs.put here node).WellFormed where
  nodup := by
    rw [FileSystem.put]
    by_cases hthere : (fs.entries.lookup here).isSome = true
    · have hkeys : (fs.entries.map fun e => if e.1 = here then (here, node) else e).map Prod.fst =
          fs.entries.map Prod.fst := by
        rw [List.map_map]
        refine List.map_congr_left fun e _ => ?_
        by_cases he : e.1 = here
        · rw [Function.comp_apply, if_pos he, he]
        · rw [Function.comp_apply, if_neg he]
      rw [if_pos hthere, hkeys]
      exact h.nodup
    · have hfresh : here ∉ fs.entries.map Prod.fst := by
        rw [← lookup_ne_none_iff, not_not, ← Option.not_isSome_iff_eq_none]
        exact hthere
      rw [if_neg hthere, List.map_append, List.map_singleton]
      refine List.nodup_append.2 ⟨h.nodup, List.nodup_singleton here, fun p hp q hq hpq => ?_⟩
      rw [hpq, List.mem_singleton.1 hq] at hp
      exact hfresh hp
  parent := by
    intro p name hthere
    rw [node?_put fs node hne] at hthere ⊢
    have hdir : fs.node? p = some .dir := by
      by_cases hlast : p ++ [name] = here
      · rw [← hlast, List.dropLast_concat] at houter
        exact houter
      · rw [if_neg hlast] at hthere
        exact h.parent p name hthere
    rw [if_neg, hdir]
    rintro rfl
    exact hnot hdir
  cwd := by
    show (fs.put here node).node? fs.cwd = some .dir
    rw [node?_put fs node hne, if_neg, h.cwd]
    intro e
    exact hnot (e ▸ h.cwd)

theorem WellFormed.put_in (h : fs.WellFormed) (hdir : fs.node? here = some .dir)
    (hnot : fs.node? (here ++ [name]) ≠ some .dir) (node : Node) :
    (fs.put (here ++ [name]) node).WellFormed :=
  h.put (List.concat_ne_nil name here) (List.dropLast_concat.symm ▸ hdir) hnot node

/-- What holds nothing may be removed, unless relative paths start there. -/
theorem WellFormed.erase (h : fs.WellFormed) (hne : here ≠ [])
    (hleaf : ∀ name, fs.node? (here ++ [name]) = none) (hcwd : fs.cwd ≠ here) :
    (fs.erase here).WellFormed where
  nodup := h.nodup.sublist (List.filter_sublist.map Prod.fst)
  parent := by
    intro p name hthere
    rw [node?_erase fs hne] at hthere ⊢
    have hother : p ++ [name] ≠ here := by
      intro e
      rw [if_pos e] at hthere
      exact hthere rfl
    rw [if_neg hother] at hthere
    rw [if_neg, h.parent p name hthere]
    rintro rfl
    exact hthere (hleaf name)
  cwd := by
    show (fs.erase here).node? fs.cwd = some .dir
    rw [node?_erase fs hne, if_neg hcwd, h.cwd]

/-- A file may be removed. -/
theorem WellFormed.erase_file (h : fs.WellFormed) {content : Bytes}
    (hfile : fs.node? here = some (.file content)) : (fs.erase here).WellFormed := by
  refine h.erase ?_ (fun name => ?_) ?_
  · rintro rfl
    rw [node?_nil] at hfile
    cases hfile
  · by_contra hthere
    rw [h.parent here name hthere] at hfile
    cases hfile
  · intro e
    rw [← e, h.cwd] at hfile
    cases hfile

/-- A directory may be emptied, unless relative paths start below it. -/
theorem WellFormed.eraseBelow (h : fs.WellFormed) (hcwd : ¬ (fs.cwd ≠ here ∧ here <+: fs.cwd)) :
    (fs.eraseBelow here).WellFormed where
  nodup := h.nodup.sublist (List.filter_sublist.map Prod.fst)
  parent := by
    intro p name hthere
    rw [node?_eraseBelow] at hthere ⊢
    have hother : ¬ (p ++ [name] ≠ here ∧ here <+: p ++ [name]) := by
      intro hbelow
      rw [if_pos hbelow] at hthere
      exact hthere rfl
    rw [if_neg hother] at hthere
    rw [if_neg, h.parent p name hthere]
    rintro ⟨hne, hbegins⟩
    refine hother ⟨?_, hbegins.trans (List.prefix_append p [name])⟩
    -- the child of something below the place is longer than the place
    intro e
    have hlength := hbegins.length_le
    rw [← e, List.length_append, List.length_singleton] at hlength
    omega
  cwd := by
    show (fs.eraseBelow here).node? fs.cwd = some .dir
    rw [node?_eraseBelow, if_neg hcwd, h.cwd]

/-! ### Directories -/

/-- The name of a place in a directory. -/
def nameIn (here place : Place) : Option String :=
  match place.getLast? with
  | some name => if place.dropLast = here then some name else none
  | none => none

theorem nameIn_eq_some_iff : nameIn here place = some name ↔ place = here ++ [name] := by
  unfold nameIn
  constructor
  · intro h
    cases hlast : place.getLast? with
    | none =>
      rw [hlast] at h
      cases h
    | some last =>
      obtain ⟨outer, rfl⟩ := List.getLast?_eq_some_iff.1 hlast
      rw [hlast, List.dropLast_concat] at h
      by_cases houter : outer = here
      · rw [houter]
        exact congrArg (here ++ [·]) (Option.some.inj ((if_pos houter).symm.trans h))
      · cases (if_neg houter).symm.trans h
  · rintro rfl
    rw [List.getLast?_append, List.dropLast_concat]
    exact if_pos rfl

theorem children_eq (fs : FileSystem) (here : Place) :
    fs.children here = (fs.entries.map Prod.fst).filterMap (nameIn here) := by
  rw [children, List.filterMap_map]
  rfl

theorem mem_children_iff (fs : FileSystem) (here : Place) (name : String) :
    name ∈ fs.children here ↔ fs.node? (here ++ [name]) ≠ none := by
  have hne : here ++ [name] ≠ [] :=
    List.concat_ne_nil name here
  rw [node?_of_ne_nil fs hne, lookup_ne_none_iff, children_eq, List.mem_filterMap]
  constructor
  · rintro ⟨place, hplace, hname⟩
    rw [nameIn_eq_some_iff.1 hname] at hplace
    exact hplace
  · exact fun hplace => ⟨here ++ [name], hplace, nameIn_eq_some_iff.2 rfl⟩

theorem WellFormed.nodup_children (h : fs.WellFormed) (here : Place) :
    (fs.children here).Nodup := by
  rw [children_eq]
  refine h.nodup.filterMap fun place place' name hname hname' => ?_
  rw [nameIn_eq_some_iff.1 hname, nameIn_eq_some_iff.1 hname']

end Reclass.FileSystem
