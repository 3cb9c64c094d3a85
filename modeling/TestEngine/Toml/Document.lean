import TestEngine.Dictionary
import TestEngine.Toml.Parser

/-!
The table that the sections of a configuration file make up. A heading leads from the root through tables
and through the last items of arrays of tables, and makes those that are missing.
-/

namespace TestEngine.Toml

mutual
/-- A table that headings make. -/
inductive Branch where
  /-- Whether a heading of its own has been read, the pairs below it, and what longer headings add. -/
  | branch (defined : Bool) (pairs : List (String × Written)) (limbs : List (String × Limb))
/-- What a heading leads to under one key. -/
inductive Limb where
  | table (b : Branch)
  /-- An array of tables: the items before the last one, the last of these first, and the last one. -/
  | items (before : List Branch) (last : Branch)
end

namespace Branch

def limbs : Branch → List (String × Limb)
  | .branch _ _ limbs => limbs

/-- Changes the limb under a key, or makes it. -/
def update? (key : String) (change : Option Limb → Option Limb) :
    List (String × Limb) → Option (List (String × Limb))
  | [] => (change none).map fun l => [(key, l)]
  | (k, l) :: rest =>
    if k = key then (change (some l)).map fun l => (k, l) :: rest
    else (update? key change rest).map fun rest => (k, l) :: rest

/-- The limb that a heading ends at. A table has one heading at most; each heading of an array of tables
adds an item. -/
def place? (s : Section) : Option Limb → Option Limb
  | none => some (if s.isItem then .items [] (.branch true s.pairs []) else .table (.branch true s.pairs []))
  | some (.table (.branch defined _ below)) =>
    if s.isItem || defined then none else some (.table (.branch true s.pairs below))
  | some (.items before last) =>
    if s.isItem then some (.items (last :: before) (.branch true s.pairs [])) else none

/-- Adds a section at a path below a table. -/
def add? (s : Section) : List String → Branch → Option Branch
  | [], _ => none
  | [key], .branch defined pairs below =>
    (update? key (place? s) below).map (.branch defined pairs)
  | key :: keys, .branch defined pairs below =>
    let enter : Option Limb → Option Limb
      | none => (add? s keys (.branch false [] [])).map .table
      | some (.table b) => (add? s keys b).map .table
      | some (.items before last) => (add? s keys last).map (.items before)
    (update? key enter below).map (.branch defined pairs)

end Branch

mutual
/-- The value that is written. Within a table no key may be there twice. -/
def Written.value? : Written → Option Toml
  | .scalar s => some (.scalar s)
  | .array items => (valuesOf? items).map .array
  | .table _ pairs => do
    let entries ← pairsOf? pairs
    if (entries.map (·.1)).Nodup then return .table (Dictionary.ofList entries).entries else none
def valuesOf? : List Written → Option (List Toml)
  | [] => some []
  | w :: ws => do return (← w.value?) :: (← valuesOf? ws)
def pairsOf? : List (String × Written) → Option (List (String × Toml))
  | [] => some []
  | (key, w) :: rest => do return (key, ← w.value?) :: (← pairsOf? rest)
end

mutual
def Branch.value? : Branch → Option Toml
  | .branch _ pairs below => do
    let entries := (← pairsOf? pairs) ++ (← limbsOf? below)
    if (entries.map (·.1)).Nodup then return .table (Dictionary.ofList entries).entries else none
def Limb.value? : Limb → Option Toml
  | .table b => b.value?
  | .items before last => do
    let first ← branchesOf? before
    return .array (first.reverse ++ [← last.value?])
def branchesOf? : List Branch → Option (List Toml)
  | [] => some []
  | b :: bs => do return (← b.value?) :: (← branchesOf? bs)
def limbsOf? : List (String × Limb) → Option (List (String × Toml))
  | [] => some []
  | (key, l) :: rest => do return (key, ← l.value?) :: (← limbsOf? rest)
end

/-- The pairs of the whole file, in which a key may come more than once: first those in front of all
headings, and then those that headings make. -/
def pairs? (text : String) : Option (List (String × Toml)) := do
  match ← read? text with
  | [] => return []
  | root :: sections =>
    let all ← sections.foldlM (fun b s => Branch.add? s s.path b) (Branch.branch true [] [])
    return (← pairsOf? root.pairs) ++ (← limbsOf? all.limbs)

end TestEngine.Toml
