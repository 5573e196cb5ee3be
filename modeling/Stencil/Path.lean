import Stencil.Split
import Stencil.Text.Utf8

/-!
# Paths

A path is kept as it is written, byte by byte; it need not be text. It is taken apart at its slashes
only to find its last name or its parent; a part that is empty or a single dot is no part of it,
except a dot at the very start.

* `Path.ofText`, `Path.text`: the path that a text spells, and a path as it is shown.
* `join_absolute`: an absolute path is not placed below another.
* `join_bytes_of_relative`: a relative one is written after the other, with one slash between.
-/

namespace Stencil

/-- A path, as it is written. -/
structure Path where
  bytes : Bytes
  deriving DecidableEq, Repr

namespace Path

/-- The path that a text spells. -/
def ofText (text : Text) : Path := ⟨Utf8.encode text⟩

/-- The path as it is shown. Pieces that are no text become U+FFFD. -/
def text (path : Path) : Text := Utf8.decodeLossy path.bytes

/-- The byte between the parts of a path. -/
def slash : UInt8 := 0x2F

/-- The byte of a part that stays, and twice that of a part that leads up. -/
def dot : UInt8 := 0x2E

/-- Whether the path starts at the top of the file system. -/
def isAbsolute (path : Path) : Bool := path.bytes.head? == some slash

/-- The path `other` as seen from the folder `base`. -/
def join (base other : Path) : Path :=
  if other.isAbsolute then other
  else if base.bytes.isEmpty || base.bytes.getLast? == some slash then ⟨base.bytes ++ other.bytes⟩
  else ⟨base.bytes ++ slash :: other.bytes⟩

/-- The parts between the slashes, the last one first. The slash at the start of an absolute path
stands before the first part. -/
def parts (path : Path) : List Bytes :=
  let pieces := splitAt slash path.bytes
  (if path.isAbsolute then pieces.tail else pieces).reverse

/-- Whether a part with these parts before it is passed over. -/
def isIdle (absolute : Bool) (part : Bytes) (before : List Bytes) : Bool :=
  part.isEmpty || (part == [dot] && (absolute || !before.isEmpty))

/-- The parts from the last one that is not idle. -/
def trimParts (absolute : Bool) : List Bytes → List Bytes
  | [] => []
  | part :: before =>
    if isIdle absolute part before then trimParts absolute before else part :: before

/-- The path with these parts, the last one first. -/
def ofParts (absolute : Bool) (parts : List Bytes) : Path :=
  let bytes := [slash].intercalate parts.reverse
  ⟨if absolute then slash :: bytes else bytes⟩

/-- The name at the end of the path. A path that ends in a dot or two dots has none. -/
def fileName? (path : Path) : Option Bytes :=
  match trimParts path.isAbsolute path.parts with
  | [] => none
  | part :: _ => if part = [dot] ∨ part = [dot, dot] then none else some part

/-- The folders above the path given by its parts, the nearest first. -/
def parentsOfParts (absolute : Bool) : List Bytes → List Path
  | [] => []
  | part :: before =>
    if isIdle absolute part before then parentsOfParts absolute before
    else ofParts absolute (trimParts absolute before) :: parentsOfParts absolute before

/-- The folders above the path, the nearest first. -/
def parents (path : Path) : List Path := parentsOfParts path.isAbsolute path.parts

/-- The folder that holds the path. -/
def parent? (path : Path) : Option Path := path.parents.head?

theorem text_ofText (text : Text) : (ofText text).text = text := Utf8.decodeLossy_encode text

theorem join_absolute {base other : Path} (h : other.isAbsolute = true) :
    base.join other = other := by
  simp [join, h]

theorem join_bytes_of_relative {base other : Path} (h : other.isAbsolute = false)
    (hbase : base.bytes ≠ []) (hslash : base.bytes.getLast? ≠ some slash) :
    (base.join other).bytes = base.bytes ++ slash :: other.bytes := by
  simp [join, h, hbase, hslash]

end Path

end Stencil
