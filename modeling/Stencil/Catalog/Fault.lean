import Stencil.Text.Basic

/-!
# Faults of a catalog

Why an options document is no catalog: it cannot be read, or the id of one of its options cannot
be used.

* `Fault.message`: the fault in words.
-/

namespace Stencil.Catalog

/-- Why a document cannot be read. -/
inductive DocumentFault where
  | malformed
  | missingField (name : Text)
  | duplicateField (name : Text)
  deriving DecidableEq, Repr

def DocumentFault.message : DocumentFault → Text
  | .malformed => "the document is malformed"
  | .missingField name => .concat ["missing field `", name, "`"]
  | .duplicateField name => .concat ["duplicate field `", name, "`"]

/-- Why the id of an option cannot be used. -/
inductive IdFault where
  /-- The option of this name has no id. -/
  | empty (name : Text)
  /-- The id stands for cancelling. -/
  | reserved (id : Text)
  /-- The id belongs to an option before. -/
  | duplicate (id : Text)
  deriving DecidableEq, Repr

def IdFault.message : IdFault → Text
  | .empty name => .concat ["option '", name, "' has an empty Id"]
  | .reserved id => .concat ["option id '", id, "' is reserved for Cancel"]
  | .duplicate id => .concat ["duplicate option id '", id, "'"]

/-- Why a document is no catalog. -/
inductive Fault where
  | document (fault : DocumentFault)
  | id (fault : IdFault)
  deriving DecidableEq, Repr

def Fault.message : Fault → Text
  | .document fault => fault.message
  | .id fault => fault.message

end Stencil.Catalog
