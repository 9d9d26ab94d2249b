/-!
# Maps in key order

A `SortedMap` holds one value per text key, in the order of the keys. The order is
part of the type, so two maps with the same content are equal.
-/

namespace Bindery

universe u

structure SortedMap (V : Type u) where
  entries : List (String × V)
  sorted : (entries.map Prod.fst).Pairwise (· < ·)
  deriving DecidableEq

namespace SortedMap

variable {V : Type u}

def place (key : String) (value : V) : List (String × V) → List (String × V)
  | [] => [(key, value)]
  | entry :: rest =>
    if key < entry.1 then (key, value) :: entry :: rest
    else if key = entry.1 then (key, value) :: rest
    else entry :: place key value rest

theorem mem_keys_place {key k : String} {value : V} {entries : List (String × V)} :
    k ∈ (place key value entries).map Prod.fst ↔ k = key ∨ k ∈ entries.map Prod.fst := by
  induction entries with
  | nil => simp [place]
  | cons entry rest ih =>
    rw [place]
    split
    · simp
    · split
      · simp_all
      · simp only [List.map_cons, List.mem_cons, ih]
        exact or_left_comm

theorem sorted_place {key : String} {value : V} {entries : List (String × V)}
    (h : (entries.map Prod.fst).Pairwise (· < ·)) :
    ((place key value entries).map Prod.fst).Pairwise (· < ·) := by
  induction entries with
  | nil => simp [place]
  | cons entry rest ih =>
    rw [List.map_cons, List.pairwise_cons] at h
    rw [place]
    split
    case isTrue lower =>
      simp only [List.map_cons, List.pairwise_cons, List.mem_cons, forall_eq_or_imp]
      exact ⟨⟨lower, fun k hk => String.lt_trans lower (h.1 k hk)⟩, h⟩
    case isFalse notLower =>
      split
      case isTrue same => simpa [same] using h
      case isFalse other =>
        rw [List.map_cons, List.pairwise_cons]
        refine ⟨fun k hk => ?_, ih h.2⟩
        rcases mem_keys_place.mp hk with rfl | inRest
        · exact Decidable.byContradiction fun notUpper =>
            other (String.le_antisymm (String.not_lt.mp notUpper) (String.not_lt.mp notLower))
        · exact h.1 k inRest

theorem lookup_place (key k : String) (value : V) (entries : List (String × V)) :
    (place key value entries).lookup k = if k = key then some value else entries.lookup k := by
  induction entries with
  | nil => grind [place]
  | cons entry rest ih =>
    rw [place]
    split
    · grind
    · split <;> grind

def empty : SortedMap V := ⟨[], by simp⟩

instance : Inhabited (SortedMap V) := ⟨empty⟩

def find? (map : SortedMap V) (key : String) : Option V := map.entries.lookup key

def contains (map : SortedMap V) (key : String) : Bool := (map.find? key).isSome

def insert (map : SortedMap V) (key : String) (value : V) : SortedMap V :=
  ⟨place key value map.entries, sorted_place map.sorted⟩

theorem find?_insert (map : SortedMap V) (key k : String) (value : V) :
    (map.insert key value).find? k = if k = key then some value else map.find? k :=
  lookup_place key k value map.entries

def insertNew (map : SortedMap V) (key : String) (value : V) : SortedMap V :=
  if map.contains key then map else map.insert key value

/-- Later entries win over earlier ones of the same key. -/
def ofList (entries : List (String × V)) : SortedMap V :=
  entries.foldl (fun map (key, value) => map.insert key value) empty

def keys (map : SortedMap V) : List String := map.entries.map Prod.fst

def values (map : SortedMap V) : List V := map.entries.map Prod.snd

def size (map : SortedMap V) : Nat := map.entries.length

def isEmpty (map : SortedMap V) : Bool := map.entries.isEmpty

end SortedMap

end Bindery
