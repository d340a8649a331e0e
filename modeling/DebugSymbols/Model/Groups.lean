/-!
# Groups

Entries grouped by a key, in the order in which the keys first came. A
`Catalog` is an ordered list of entries with such groups beside it.
-/

namespace DebugSymbols

structure Groups (κ ι : Type) where
  entries : List (κ × List ι) := []
  deriving DecidableEq

namespace Groups

variable {κ ι : Type} [DecidableEq κ]

instance : Inhabited (Groups κ ι) := ⟨{}⟩

def get (g : Groups κ ι) (k : κ) : List ι :=
  (g.entries.lookup k).getD []

def keys (g : Groups κ ι) : List κ :=
  g.entries.map (·.1)

def addTo (k : κ) (i : ι) : List (κ × List ι) → List (κ × List ι)
  | [] => [(k, [i])]
  | (l, is) :: rest => if l = k then (l, is ++ [i]) :: rest else (l, is) :: addTo k i rest

/-- Puts an entry at the end of its group, and a new group at the end. -/
def add (g : Groups κ ι) (k : κ) (i : ι) : Groups κ ι :=
  ⟨addTo k i g.entries⟩

/-- Only the entries that `keep` holds of; a group that loses all goes. -/
def retain (keep : ι → Bool) (g : Groups κ ι) : Groups κ ι :=
  ⟨(g.entries.map fun e => (e.1, e.2.filter keep)).filter fun e => !e.2.isEmpty⟩

def ofList (key : ι → κ) (is : List ι) : Groups κ ι :=
  is.foldl (fun g i => g.add (key i) i) {}

end Groups

/-- An ordered list of entries, and the same entries by key. -/
structure Catalog (κ ι : Type) where
  listed : List ι := []
  groups : Groups κ ι := {}
  deriving DecidableEq

namespace Catalog

variable {κ ι : Type} [DecidableEq κ]

instance : Inhabited (Catalog κ ι) := ⟨{}⟩

def add (c : Catalog κ ι) (k : κ) (i : ι) : Catalog κ ι :=
  { listed := c.listed ++ [i], groups := c.groups.add k i }

def retain (keep : ι → Bool) (c : Catalog κ ι) : Catalog κ ι :=
  { listed := c.listed.filter keep, groups := c.groups.retain keep }

def regroup (key : ι → κ) (c : Catalog κ ι) : Catalog κ ι :=
  { c with groups := .ofList key c.listed }

end Catalog

end DebugSymbols
