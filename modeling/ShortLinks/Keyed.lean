/-!
# Keyed tables

A table with one value for each key, in the order in which the keys came. Setting a
key changes what is found under this key and under no other.
-/

namespace ShortLinks

set_option autoImplicit false

structure Keyed (κ ν : Type) where
  entries : List (κ × ν)
  deriving DecidableEq, Repr

namespace Keyed

variable {κ ν : Type} [DecidableEq κ]

def empty : Keyed κ ν := ⟨[]⟩

def find? (table : Keyed κ ν) (key : κ) : Option ν :=
  (table.entries.find? fun entry => entry.1 = key).map Prod.snd

def contains (table : Keyed κ ν) (key : κ) : Bool :=
  (table.find? key).isSome

/-- Changes the value of a key; a table without the key stays as it is. -/
def modify (table : Keyed κ ν) (key : κ) (change : ν → ν) : Keyed κ ν :=
  ⟨table.entries.map fun entry =>
    if entry.1 = key then (entry.1, change entry.2) else entry⟩

/-- Sets the value of a key, which goes to the end if it is new. -/
def insert (table : Keyed κ ν) (key : κ) (value : ν) : Keyed κ ν :=
  if table.contains key then table.modify key fun _ => value
  else ⟨table.entries ++ [(key, value)]⟩

def keys (table : Keyed κ ν) : List κ := table.entries.map Prod.fst

def size (table : Keyed κ ν) : Nat := table.entries.length

theorem find_modify (table : Keyed κ ν) (key wanted : κ) (change : ν → ν) :
    (table.modify key change).find? wanted =
      if wanted = key then (table.find? wanted).map change else table.find? wanted := by
  obtain ⟨entries⟩ := table
  simp only [modify, find?]
  induction entries with
  | nil => simp
  | cons entry later ih =>
    simp only [List.map_cons, List.find?_cons]
    by_cases same : entry.1 = key
    · by_cases hit : entry.1 = wanted
      · have both : wanted = key := hit ▸ same
        simp [same, both]
      · have other : ¬ key = wanted := fun equal => hit (same.trans equal)
        simp only [same, if_true, other, decide_false]
        exact ih
    · by_cases hit : entry.1 = wanted
      · have other : ¬ wanted = key := fun equal => same (hit.trans equal)
        simp [hit, other]
      · simp only [same, if_false, hit, decide_false]
        exact ih

theorem find_insert (table : Keyed κ ν) (key wanted : κ) (value : ν) :
    (table.insert key value).find? wanted =
      if wanted = key then some value else table.find? wanted := by
  unfold insert
  by_cases held : table.contains key = true
  · rw [if_pos held, find_modify]
    by_cases same : wanted = key
    · subst same
      obtain ⟨before, found⟩ := Option.isSome_iff_exists.1 held
      simp [found]
    · simp [same]
  · rw [if_neg held]
    have missing : table.find? key = none := by
      simpa [contains] using held
    unfold find? at missing ⊢
    simp only [List.find?_append, Option.map_or]
    by_cases same : wanted = key
    · subst same
      simp [missing]
    · have other : ¬ key = wanted := fun equal => same equal.symm
      simp [same, other]

end Keyed

end ShortLinks
