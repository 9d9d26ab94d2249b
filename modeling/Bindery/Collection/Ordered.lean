/-!
# Maps in insertion order

An `OrderedMap` holds one value per text key, in the order in which the keys first
came. A new value for a known key takes the place of the old one.
-/

namespace Bindery

universe u

structure OrderedMap (V : Type u) where
  entries : List (String × V)
  distinct : (entries.map Prod.fst).Nodup
  deriving DecidableEq

namespace OrderedMap

variable {V : Type u}

def put (key : String) (value : V) : List (String × V) → List (String × V)
  | [] => [(key, value)]
  | entry :: rest =>
    if entry.1 = key then (key, value) :: rest else entry :: put key value rest

theorem keys_put (key : String) (value : V) (entries : List (String × V)) :
    (put key value entries).map Prod.fst =
      if key ∈ entries.map Prod.fst then entries.map Prod.fst
      else entries.map Prod.fst ++ [key] := by
  induction entries with
  | nil => simp [put]
  | cons entry rest ih =>
    by_cases h : entry.1 = key
    · simp [put, h]
    · by_cases inRest : key ∈ rest.map Prod.fst
      · simp_all [put, Ne.symm h]
      · simp_all [put, Ne.symm h]

theorem distinct_put {key : String} {value : V} {entries : List (String × V)}
    (h : (entries.map Prod.fst).Nodup) : ((put key value entries).map Prod.fst).Nodup := by
  rw [keys_put]
  split
  · exact h
  case isFalse absent =>
    rw [List.nodup_append]
    refine ⟨h, by simp, ?_⟩
    rintro a ha b hb rfl
    exact absent (List.mem_singleton.mp hb ▸ ha)

theorem lookup_put (key k : String) (value : V) (entries : List (String × V)) :
    (put key value entries).lookup k = if k = key then some value else entries.lookup k := by
  induction entries with
  | nil => grind [put]
  | cons entry rest ih =>
    rw [put]
    split <;> grind

def empty : OrderedMap V := ⟨[], by simp⟩

instance : Inhabited (OrderedMap V) := ⟨empty⟩

def find? (map : OrderedMap V) (key : String) : Option V := map.entries.lookup key

def contains (map : OrderedMap V) (key : String) : Bool := (map.find? key).isSome

/-- Sets the value of a key, at the end if the key is new. -/
def insert (map : OrderedMap V) (key : String) (value : V) : OrderedMap V :=
  ⟨put key value map.entries, distinct_put map.distinct⟩

theorem find?_insert (map : OrderedMap V) (key k : String) (value : V) :
    (map.insert key value).find? k = if k = key then some value else map.find? k :=
  lookup_put key k value map.entries

def insertAll (map : OrderedMap V) (entries : List (String × V)) : OrderedMap V :=
  entries.foldl (fun map (key, value) => map.insert key value) map

def ofList (entries : List (String × V)) : OrderedMap V := empty.insertAll entries

def keys (map : OrderedMap V) : List String := map.entries.map Prod.fst

def values (map : OrderedMap V) : List V := map.entries.map Prod.snd

def size (map : OrderedMap V) : Nat := map.entries.length

def isEmpty (map : OrderedMap V) : Bool := map.entries.isEmpty

end OrderedMap

end Bindery
