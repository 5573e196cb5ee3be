import Stencil.Text.Order
import Stencil.Text.Utf8
import Stencil.Workspace.Basic

/-!
# Storage

Storage holds bytes and knows nothing of text or patterns. A workspace is built on it: bytes are
read as text whatever they are, and a folder is searched for the files that fit a pattern.

* `textOf_encode`: a text without a mark at its start is read as it was written.
* `sortEntries_pairwise`: the entries of a folder are taken in the order of their names.
-/

namespace Stencil

/-- Something in a folder: its name as bytes, and whether it is itself a file. -/
structure Entry where
  name : Bytes
  isFile : Bool
  deriving DecidableEq, Repr

/-- Files and folders, in the monad `m`. -/
structure Storage (m : Type → Type) where
  readBytes : Path → m (Except IoError Bytes)
  writeBytes : Path → Bytes → m (Except IoError Unit)
  listEntries : Path → m (Except IoError (List Entry))
  isPresent : Path → m Bool
  isFolder : Path → m Bool
  createFolders : Path → m (Except IoError Unit)

namespace Storage

/-- The bytes of a file as text. Pieces that are no text become U+FFFD. -/
def textOf (content : Bytes) : Text := (Utf8.decodeLossy content).dropMark

/-- What the log says when the bytes of a file are read as text. -/
def decodingRemarks (file : Path) (content : Bytes) : List Record :=
  if (Utf8.decode? content).isSome then []
  else [⟨.warn, .files,
    .concat [file.text, " is not valid UTF-8, invalid bytes replaced with U+FFFD"]⟩]

/-- The entries in the order of their names. -/
def sortEntries (entries : List Entry) : List Entry :=
  entries.foldr (insertBy fun a b => decide (a.name < b.name)) []

/-- Whether the entry is a file whose name is text that fits the pattern. -/
def isFitting (pattern : Glob.Pattern) (entry : Entry) : Bool :=
  entry.isFile && (Utf8.decode? entry.name).any pattern.fits

/-- The files among the entries of a folder that fit the pattern, in the order of their names. -/
def selectFiles (folder : Path) (pattern : Glob.Pattern) (entries : List Entry) : List Path :=
  ((sortEntries entries).filter (isFitting pattern)).map fun entry => folder.join ⟨entry.name⟩

/-- What the log says about a folder: which files are passed over for their names. -/
def listingRemarks (folder : Path) (entries : List Entry) : List Record :=
  (sortEntries entries).flatMap fun entry =>
    if entry.isFile && (Utf8.decode? entry.name).isNone then
      [⟨.warn, .files, .concat ["Skipping ", (folder.join ⟨entry.name⟩).text,
        ": file name is not valid UTF-8"]⟩]
    else []

theorem textOf_encode {text : Text} (h : text.head? ≠ some byteOrderMark) :
    textOf (Utf8.encode text) = text := by
  rw [textOf, Utf8.decodeLossy_encode]
  cases text with
  | nil => rfl
  | cons c rest => rw [Text.dropMark, if_neg (by simpa using h)]

theorem sortEntries_pairwise (entries : List Entry) :
    (sortEntries entries).Pairwise fun a b => decide (a.name < b.name) = true := by
  induction entries with
  | nil => simp [sortEntries]
  | cons entry entries ih =>
    refine pairwise_insertBy ?_ ?_ ih
    · intro a b c hab hbc
      simp only [decide_eq_true_eq] at *
      exact List.lt_trans hab hbc
    · intro a b c hab hba hbc
      simp only [decide_eq_true_eq, decide_eq_false_iff_not, List.not_lt] at *
      -- Names of one rank are equal.
      have he : a.name = b.name := List.le_antisymm hba hab
      rwa [he]

variable {m : Type → Type} [Monad m]

/-- The workspace on the storage, with the given engine and the given log. -/
def workspace (storage : Storage m) (engine : Engine) (note : Record → m Unit) : Workspace m where
  engine := engine
  readText file := do
    match ← storage.readBytes file with
    | .error cause => return .error cause
    | .ok content =>
      (decodingRemarks file content).forM note
      return .ok (textOf content)
  writeText file text := storage.writeBytes file (Utf8.encode text)
  listFiles folder pattern := do
    match ← storage.listEntries folder with
    | .error cause => return .error cause
    | .ok entries =>
      (listingRemarks folder entries).forM note
      return .ok (selectFiles folder pattern entries)
  isPresent := storage.isPresent
  isFolder := storage.isFolder
  createFolders := storage.createFolders
  note := note

end Storage

end Stencil
