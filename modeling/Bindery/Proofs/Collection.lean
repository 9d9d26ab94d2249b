import Bindery.Collection.Ordered
import Bindery.Collection.Sorted
import Mathlib.Data.List.Induction
import Mathlib.Data.List.Nodup
import Mathlib.Data.String.Basic

/-!
# Theory of maps

A map is its list of entries: looking a key up finds exactly the entries of the list, because
no key stands in it twice.
-/

namespace Bindery

universe u

variable {V : Type u}

theorem lookup_eq_some_iff_mem {entries : List (String × V)}
    (hdistinct : (entries.map Prod.fst).Nodup) {key : String} {value : V} :
    entries.lookup key = some value ↔ (key, value) ∈ entries := by
  rw [List.lookup_eq_some_iff]
  constructor
  · rintro ⟨before, behind, rfl, -⟩
    simp
  · intro hin
    obtain ⟨before, behind, rfl⟩ := List.append_of_mem hin
    refine ⟨before, behind, rfl, fun entry hentry => ?_⟩
    rw [List.map_append, List.nodup_append] at hdistinct
    have hne := hdistinct.2.2 entry.1 (List.mem_map_of_mem hentry) key (by simp)
    simpa using hne.symm

theorem lookup_isSome_iff_mem_keys {entries : List (String × V)} {key : String} :
    (entries.lookup key).isSome = true ↔ key ∈ entries.map Prod.fst := by
  rw [List.lookup_isSome_iff, List.mem_map]
  simp only [beq_iff_eq]
  exact ⟨fun ⟨entry, hin, heq⟩ => ⟨entry, hin, heq.symm⟩,
    fun ⟨entry, hin, heq⟩ => ⟨entry, hin, heq.symm⟩⟩

theorem lookup_eq_some_iff_of_agree {entries : List (String × V)} {key : String}
    (hagree : ∀ value value', (key, value) ∈ entries → (key, value') ∈ entries → value = value')
    {value : V} : entries.lookup key = some value ↔ (key, value) ∈ entries := by
  have hmem : ∀ found, entries.lookup key = some found → (key, found) ∈ entries := by
    intro found hfound
    obtain ⟨before, behind, rfl, -⟩ := List.lookup_eq_some_iff.mp hfound
    simp
  constructor
  · exact hmem value
  · intro hin
    have hsome : (entries.lookup key).isSome = true :=
      lookup_isSome_iff_mem_keys.mpr (List.mem_map_of_mem hin)
    obtain ⟨found, hfound⟩ := Option.isSome_iff_exists.mp hsome
    rw [hfound, hagree found value (hmem found hfound) hin]

theorem lookup_eq_of_perm {entries entries' : List (String × V)} (hperm : entries.Perm entries')
    {key : String}
    (hagree : ∀ value value', (key, value) ∈ entries → (key, value') ∈ entries → value = value') :
    entries.lookup key = entries'.lookup key := by
  apply Option.ext
  intro value
  have hagree' : ∀ value value', (key, value) ∈ entries' → (key, value') ∈ entries' →
      value = value' := by
    intro value value' hvalue hvalue'
    exact hagree value value' (hperm.mem_iff.mpr hvalue) (hperm.mem_iff.mpr hvalue')
  rw [lookup_eq_some_iff_of_agree hagree, lookup_eq_some_iff_of_agree hagree', hperm.mem_iff]

theorem find?_reverse_of_distinct {α β : Type*} [DecidableEq β] {key : α → β} {xs : List α}
    (hdistinct : (xs.map key).Nodup) {x : α} (hx : x ∈ xs) :
    (xs.reverse.find? fun y => key y = key x) = some x := by
  have hsome : (xs.reverse.find? fun y => key y = key x).isSome = true := by
    rw [List.find?_isSome]
    exact ⟨x, List.mem_reverse.mpr hx, by simp⟩
  obtain ⟨y, hy⟩ := Option.isSome_iff_exists.mp hsome
  have hin : y ∈ xs := List.mem_reverse.mp (List.mem_of_find?_eq_some hy)
  have hkey : key y = key x := by simpa using List.find?_some hy
  rw [hy, List.inj_on_of_nodup_map hdistinct hin hx hkey]

namespace OrderedMap

theorem eq_of_entries {map map' : OrderedMap V} (h : map.entries = map'.entries) : map = map' := by
  cases map
  cases map'
  cases h
  rfl

theorem put_of_not_mem {key : String} {value : V} {entries : List (String × V)}
    (h : key ∉ entries.map Prod.fst) : put key value entries = entries ++ [(key, value)] := by
  induction entries with
  | nil => rfl
  | cons entry rest ih =>
    have hne : entry.1 ≠ key := fun heq => h (by simp [heq])
    rw [put, if_neg hne, ih fun hin => h (by simp [hin]), List.cons_append]

theorem find?_eq_some_iff {map : OrderedMap V} {key : String} {value : V} :
    map.find? key = some value ↔ (key, value) ∈ map.entries :=
  lookup_eq_some_iff_mem map.distinct

theorem contains_iff {map : OrderedMap V} {key : String} :
    map.contains key = true ↔ key ∈ map.keys :=
  lookup_isSome_iff_mem_keys

theorem find?_empty (key : String) : (empty : OrderedMap V).find? key = none := rfl

theorem find?_insertAll (map : OrderedMap V) (entries : List (String × V))
    (key : String) :
    (map.insertAll entries).find? key = (entries.reverse.lookup key).or (map.find? key) := by
  induction entries generalizing map with
  | nil => simp [insertAll]
  | cons entry entries ih =>
    obtain ⟨name, value⟩ := entry
    have hstep : map.insertAll ((name, value) :: entries) =
        (map.insert name value).insertAll entries := rfl
    rw [hstep, ih, find?_insert, List.reverse_cons, List.lookup_append, Option.or_assoc,
      List.lookup_cons]
    by_cases hkey : key = name
    · simp [hkey]
    · simp [hkey, beq_false_of_ne hkey]

theorem nodup_map_values {map : OrderedMap V} {name : V → String}
    (h : ∀ entry ∈ map.entries, name entry.2 = entry.1) : (map.values.map name).Nodup := by
  have hkeys : map.values.map name = map.keys := by
    rw [values, keys, List.map_map]
    exact List.map_congr_left h
  rw [hkeys]
  exact map.distinct

theorem entries_insertAll_of_fresh {map : OrderedMap V} {entries : List (String × V)}
    (h : (map.keys ++ entries.map Prod.fst).Nodup) :
    (map.insertAll entries).entries = map.entries ++ entries := by
  induction entries generalizing map with
  | nil => simp [insertAll]
  | cons entry entries ih =>
    have hfresh : entry.1 ∉ map.keys := by
      intro hin
      exact (List.nodup_append.mp h).2.2 _ hin _ (by simp) rfl
    have hput : (map.insert entry.1 entry.2).entries = map.entries ++ [entry] :=
      put_of_not_mem hfresh
    have hnext : ((map.insert entry.1 entry.2).keys ++ entries.map Prod.fst).Nodup := by
      simpa [keys, hput] using h
    have hstep : map.insertAll (entry :: entries) =
        (map.insert entry.1 entry.2).insertAll entries := rfl
    rw [hstep, ih hnext, hput, List.append_assoc, List.singleton_append]

theorem mem_of_mem_ofList {entries : List (String × V)} {entry : String × V}
    (h : entry ∈ (ofList entries).entries) : entry ∈ entries := by
  have hfind := find?_eq_some_iff.mpr h
  rw [ofList, find?_insertAll, find?_empty, Option.or_none] at hfind
  obtain ⟨before, behind, hsplit, -⟩ := List.lookup_eq_some_iff.mp hfind
  rw [← List.mem_reverse, hsplit]
  exact List.mem_append_right _ List.mem_cons_self

theorem keys_ofList (entries : List (String × V)) :
    (ofList entries).keys = (entries.map Prod.fst).eraseDups := by
  induction entries using List.reverseRecOn with
  | nil => rfl
  | append_singleton entries entry ih =>
    have hinsert : ofList (entries ++ [entry]) = (ofList entries).insert entry.1 entry.2 := by
      rw [ofList, insertAll, List.foldl_append]
      rfl
    have hkeys : (ofList (entries ++ [entry])).keys =
        if entry.1 ∈ (ofList entries).keys then (ofList entries).keys
        else (ofList entries).keys ++ [entry.1] := by
      rw [hinsert]
      exact keys_put _ _ _
    rw [hkeys, ih, List.map_append, List.eraseDups_append]
    by_cases hin : entry.1 ∈ entries.map Prod.fst
    · rw [if_pos (List.mem_eraseDups.mpr hin)]
      simp [List.removeAll, hin]
    · rw [if_neg (mt List.mem_eraseDups.mp hin)]
      simp [List.removeAll, hin, List.eraseDups_cons]

theorem ofList_entries (map : OrderedMap V) : ofList map.entries = map := by
  have hfresh : ((empty : OrderedMap V).keys ++ map.entries.map Prod.fst).Nodup := map.distinct
  apply eq_of_entries
  rw [ofList, entries_insertAll_of_fresh hfresh]
  rfl

end OrderedMap

namespace SortedMap

theorem distinct (map : SortedMap V) : (map.entries.map Prod.fst).Nodup := by
  refine map.sorted.imp ?_
  rintro key _ hlt rfl
  exact String.lt_irrefl key hlt

theorem find?_eq_some_iff {map : SortedMap V} {key : String} {value : V} :
    map.find? key = some value ↔ (key, value) ∈ map.entries :=
  lookup_eq_some_iff_mem map.distinct

theorem contains_iff {map : SortedMap V} {key : String} :
    map.contains key = true ↔ key ∈ map.keys :=
  lookup_isSome_iff_mem_keys

theorem find?_insertNew (map : SortedMap V) (key k : String) (value : V) :
    (map.insertNew key value).find? k =
      (map.find? k).or (if k = key then some value else none) := by
  rw [insertNew]
  split
  · rename_i hcontains
    by_cases hk : k = key
    · subst hk
      rw [contains] at hcontains
      rw [Option.or_of_isSome hcontains]
    · simp [hk]
  · rename_i hcontains
    rw [find?_insert]
    by_cases hk : k = key
    · subst hk
      simp [contains] at hcontains
      simp [hcontains]
    · simp [hk]

theorem ext_of_find? {map map' : SortedMap V} (h : ∀ key, map.find? key = map'.find? key) :
    map = map' := by
  have hmem : ∀ entry, entry ∈ map.entries ↔ entry ∈ map'.entries := by
    intro entry
    rw [← find?_eq_some_iff, h, find?_eq_some_iff]
  have hperm : map.entries.Perm map'.entries :=
    (List.perm_ext_iff_of_nodup map.distinct.of_map map'.distinct.of_map).mpr hmem
  have hentries : map.entries = map'.entries := by
    apply hperm.eq_of_pairwise _ (List.pairwise_map.mp map.sorted)
      (List.pairwise_map.mp map'.sorted)
    intro entry entry' _ _ hlt hgt
    exact absurd (String.lt_trans hlt hgt) (String.lt_irrefl entry.1)
  cases map
  cases map'
  cases hentries
  rfl

theorem find?_ofList (entries : List (String × V)) (key : String) :
    (ofList entries).find? key = entries.reverse.lookup key := by
  have hfold : ∀ map : SortedMap V,
      (entries.foldl (fun map entry => map.insert entry.1 entry.2) map).find? key =
        (entries.reverse.lookup key).or (map.find? key) := by
    induction entries with
    | nil => simp
    | cons entry entries ih =>
      intro map
      obtain ⟨name, value⟩ := entry
      rw [List.foldl_cons, ih, find?_insert, List.reverse_cons, List.lookup_append,
        Option.or_assoc, List.lookup_cons]
      by_cases hkey : key = name
      · simp [hkey]
      · simp [hkey, beq_false_of_ne hkey]
  exact (hfold empty).trans Option.or_none

theorem ofList_entries (map : SortedMap V) : ofList map.entries = map := by
  apply ext_of_find?
  intro key
  rw [find?_ofList]
  apply lookup_eq_of_perm (List.reverse_perm map.entries)
  intro value value' hin hin'
  have hfound := find?_eq_some_iff.mpr (List.mem_reverse.mp hin)
  exact Option.some.inj (hfound.symm.trans (find?_eq_some_iff.mpr (List.mem_reverse.mp hin')))

end SortedMap

end Bindery
