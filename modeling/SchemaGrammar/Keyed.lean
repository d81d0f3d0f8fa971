/-!
# Values under keys, in order of insertion

A list of pairs in which each key stands once. Setting a key that is there keeps its place, and
setting a new one puts it at the end.
-/

namespace SchemaGrammar

/-- Values under keys, in order of insertion. -/
abbrev Keyed (α : Type) := List (String × α)

namespace Keyed

/-- Sets the value of a key: in place if the key is there, else at the end. -/
def set (entries : Keyed α) (key : String) (value : α) : Keyed α :=
  match entries with
  | [] => [(key, value)]
  | (k, v) :: rest => if k == key then (k, value) :: rest else (k, v) :: set rest key value

/-- Sets the keys of a list one after the other, so that of equal keys the last one counts. -/
def extend (entries : Keyed α) (pairs : List (String × α)) : Keyed α :=
  pairs.foldl (fun done p => done.set p.1 p.2) entries

/-- A key that has been set gives the value last set; the other keys keep theirs. -/
theorem lookup_set (entries : Keyed α) (key other : String) (value : α) :
    (entries.set key value).lookup other =
      if other == key then some value else entries.lookup other := by
  induction entries with
  | nil => by_cases h : other == key <;> simp [set, List.lookup_cons, h]
  | cons p rest ih =>
    obtain ⟨k, v⟩ := p
    by_cases hk : k == key
    · have hk' : k = key := by simpa using hk
      subst hk'
      by_cases h : other == k <;> simp [set, List.lookup_cons, h]
    · by_cases h : other == k
      · have h' : other = k := by simpa using h
        subst h'
        simp [set, hk]
      · have hk' : (k == key) = false := by simpa using hk
        have h' : (other == k) = false := by simpa using h
        simp [set, List.lookup_cons, hk', h', ih]

end Keyed

end SchemaGrammar
