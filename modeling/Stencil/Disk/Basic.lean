import Stencil.Keyed
import Stencil.Text.Order
import Stencil.Text.Utf8

/-!
# Disks

A disk is a tree of folders. It is kept as the list of its nodes with their locations; the folder at
the top is always there.

* `node?_put_self`, `node?_put_of_ne`: a change at one location leaves all others alone.
* `Disk.Sound`: the list describes a tree.
-/

namespace Stencil

namespace Disk

/-- The name of a node in its folder. It need not be text. -/
abbrev Name := Bytes

/-- Where a node is: its name and those of the folders around it, outwards. -/
abbrev Location := List Name

/-- What can be at a location. -/
inductive Node where
  | file (content : Bytes)
  | folder
  /-- A place to go on from instead, as a path seen from the folder of the link. -/
  | link (target : Bytes)
  deriving DecidableEq, Repr

end Disk

/-- The nodes below the folder at the top. -/
structure Disk where
  entries : List (Disk.Location × Disk.Node)
  deriving DecidableEq, Repr

namespace Disk

/-- The disk on which there is only the folder at the top. -/
def empty : Disk := ⟨[]⟩

/-- The node at a location. -/
def node? (disk : Disk) (location : Location) : Option Node :=
  if location = [] then some .folder else disk.entries.lookup location

/-- The disk with the node at the location, instead of what was there. -/
def put (disk : Disk) (location : Location) (node : Node) : Disk :=
  ⟨putKey location node disk.entries⟩

/-- Whether there is a folder at the location. -/
def hasFolder (disk : Disk) (location : Location) : Bool :=
  disk.node? location == some .folder

/-- The nodes in a folder by their names, in the order in which the disk lists them. -/
def children (disk : Disk) (folder : Location) : List (Name × Node) :=
  disk.entries.filterMap fun (location, node) =>
    match location with
    | name :: around => if around = folder then some (name, node) else none
    | [] => none

/-- Every location is listed once, and what is around it is a folder. -/
structure Sound (disk : Disk) : Prop where
  nodup : (disk.entries.map Prod.fst).Nodup
  below_top : ∀ location ∈ disk.entries.map Prod.fst, location ≠ []
  closed : ∀ name folder, (name :: folder) ∈ disk.entries.map Prod.fst →
    disk.node? folder = some .folder

/-- A disk on which no path leads elsewhere than it says. -/
def Plain (disk : Disk) : Prop := ∀ location target, disk.node? location ≠ some (.link target)

theorem node?_nil (disk : Disk) : disk.node? [] = some .folder := rfl

theorem node?_put_self (disk : Disk) {location : Location} (node : Node) (h : location ≠ []) :
    (disk.put location node).node? location = some node := by
  rw [node?, if_neg h]
  exact lookup_putKey_self location node disk.entries

theorem node?_put_of_ne (disk : Disk) {location other : Location} (node : Node)
    (h : other ≠ location) : (disk.put location node).node? other = disk.node? other := by
  unfold node? put
  split
  · rfl
  · exact lookup_putKey_of_ne node disk.entries h

/-- A disk whose nodes are no links is one without links. -/
theorem plain_of_entries {disk : Disk}
    (h : ∀ entry ∈ disk.entries, ∀ target, entry.2 ≠ .link target) : disk.Plain := by
  intro location target hlink
  unfold node? at hlink
  split at hlink
  · cases hlink
  · obtain ⟨before, after, hentries, -⟩ := List.lookup_eq_some_iff.1 hlink
    exact h (location, .link target) (by simp [hentries]) target rfl

/-- A disk is sound if every node has its own location, in a folder of the disk. -/
theorem sound_of_entries {disk : Disk} (nodup : (disk.entries.map Prod.fst).Nodup)
    (inFolder : ∀ location ∈ disk.entries.map Prod.fst, location ≠ [] ∧
      disk.node? location.tail = some .folder) : disk.Sound where
  nodup := nodup
  below_top location hmem := (inFolder location hmem).1
  closed name folder hmem := (inFolder (name :: folder) hmem).2

theorem empty_sound : empty.Sound where
  nodup := by simp [empty]
  below_top := by simp [empty]
  closed := by simp [empty]

end Disk

end Stencil
