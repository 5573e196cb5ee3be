import Stencil.Console
import Stencil.Workspace.Storage

/-!
# The program at the system

The console of the program is connected with the files, the streams and the environment of the
system. All that is decided is decided elsewhere.
-/

namespace Stencil.Main

/-- A path as the system takes it. -/
def systemPath (path : Path) := (IO.FS.DirEntry.mk ⟨String.ofList path.text⟩ "").root

/-- The cause with the number that the system gives it, of either sign. -/
def causeOf (number : UInt32) (words : String) : IoError :=
  match min number.toNat (-number).toNat with
  | 2 => .notFound
  | 17 => .alreadyExists
  | 20 => .notFolder
  | 21 => .isFolder
  | 36 => .nameTooLong
  | 40 => .tooManyLinks
  | n => .other (.concat [words, " (os error ", .number n, ")"])

/-- An error of the system as the program sees it. -/
def ofSystem : IO.Error → IoError
  | .alreadyExists _ number words | .invalidArgument _ number words
  | .permissionDenied _ number words | .resourceExhausted _ number words
  | .inappropriateType _ number words | .noSuchThing _ number words
  | .interrupted _ number words | .noFileOrDirectory _ number words
  | .otherError number words | .resourceBusy number words | .resourceVanished number words
  | .unsupportedOperation number words | .hardwareFault number words
  | .unsatisfiedConstraints number words | .illegalOperation number words
  | .protocolError number words | .timeExpired number words => causeOf number words
  | .unexpectedEof => .other "unexpected end of file"
  | .userError words => .other words

/-- A call of the system, with its error as a value. -/
def called {α : Type} (call : IO α) : IO (Except IoError α) := do
  match ← call.toBaseIO with
  | .ok value => return .ok value
  | .error cause => return .error (ofSystem cause)

/-- The entries of a folder. -/
def entriesIn (path : Path) : IO (List Entry) := do
  let entries ← (systemPath path).readDir
  entries.toList.mapM fun entry => do
    let found ← entry.path.symlinkMetadata
    return ⟨Utf8.encode entry.fileName.toList, found.type == .file⟩

/-- The files of the system. -/
def storage : Storage IO where
  readBytes path := called do return (← IO.FS.readBinFile (systemPath path)).toList
  writeBytes path content := called (IO.FS.writeBinFile (systemPath path) content.toByteArray)
  listEntries path := called (entriesIn path)
  isPresent path := (systemPath path).pathExists
  isFolder path := (systemPath path).isDir
  createFolders path :=
    if path.bytes.isEmpty then return .ok () else called (IO.FS.createDirAll (systemPath path))

/-- Shows a text at once. -/
def put (stream : IO.FS.Stream) (text : Text) : IO Unit := do
  stream.putStr (String.ofList text)
  stream.flush

/-- The next line of a stream, after the bytes `before` of it, the last one first. -/
partial def nextLine (stream : IO.FS.Stream) (before : Bytes) : IO Bytes := do
  match (← stream.read 1).toList with
  | [] => return before.reverse
  | b :: _ =>
    if b = Menu.lineFeed then return (b :: before).reverse else nextLine stream (b :: before)

/-- Shows the menu and reads lines, until one of them decides. -/
partial def choose (options : List NamedJob) (afterUnknown : Bool) :
    IO (Except IoError Selection) := do
  let errors ← IO.getStderr
  put errors (Menu.screen options afterUnknown)
  put errors Menu.prompt
  match Menu.decision? options (← nextLine (← IO.getStdin) []) with
  | some result => return result
  | none => choose options true

/-- The catalog beside the program. -/
def ownCatalog : IO Path := do
  return .ofText ((← IO.appPath).withFileName "Options.xml").toString.toList

/-- The console of the program, which shows the records down to a level. -/
def console (shown : Level) : Console IO where
  -- the matchers of this program have no bound
  workspace := storage.workspace .unbounded fun record => do
    if shown.shows record.level then put (← IO.getStderr) record.line
  print text := do put (← IO.getStdout) text
  complain text := do put (← IO.getStderr) text
  choose options := choose options false
  ownCatalog := ownCatalog

/-- How the program is called. -/
def usage : Text :=
  .concat [
    "Usage: xdtemplates [--verbose] gen direct -t <FOLDER> -o <FOLDER> -v <FILE> -p <PATTERN>\n",
    "       xdtemplates [--verbose] gen menu [--options <FILE>]\n",
    "       xdtemplates [--verbose] list [--options <FILE>]\n"]

end Stencil.Main

open Stencil in
def main (words : List String) : IO UInt32 := do
  let environment ← IO.getEnv "XDTEMPLATES_OPTIONS"
  match CommandLine.Invocation.ofWords (environment.map String.toList)
      (words.map String.toList) with
  | .error refusal =>
    let stream ← if refusal.exitCode = 0 then IO.getStdout else IO.getStderr
    Main.put stream Main.usage
    return refusal.exitCode.toUInt32
  | .ok invocation =>
    let code ← (Main.console invocation.shownLevel).perform invocation.command
    return code.toUInt32
