/-!
Tables of keys. A key leads to one position; set again, it leads to its new position.
-/

namespace Reservoir

/-- Positions by key, each key once. -/
structure KeyTable where
  entries : List (String × Nat)
  distinct : (entries.map Prod.fst).Nodup

namespace KeyTable

def empty : KeyTable := ⟨[], .nil⟩

def keys (t : KeyTable) : List String := t.entries.map Prod.fst

def position? (t : KeyTable) (key : String) : Option Nat := t.entries.lookup key

def without (t : KeyTable) (key : String) : List (String × Nat) :=
  t.entries.filter (·.1 != key)

theorem distinct_cons_without (t : KeyTable) (key : String) (position : Nat) :
    (((key, position) :: t.without key).map Prod.fst).Nodup := by
  rw [List.map_cons, List.nodup_cons]
  constructor
  · simp [without]
  · exact List.Nodup.sublist (List.Sublist.map _ List.filter_sublist) t.distinct

def set (t : KeyTable) (key : String) (position : Nat) : KeyTable :=
  ⟨(key, position) :: t.without key, t.distinct_cons_without key position⟩

def setAll (t : KeyTable) (keys : List String) (position : Nat) : KeyTable :=
  keys.foldl (fun t key => t.set key position) t

def ofRows (rows : List (List String)) : KeyTable :=
  rows.zipIdx.foldl (fun t (keys, position) => t.setAll keys position) empty

end KeyTable

end Reservoir
