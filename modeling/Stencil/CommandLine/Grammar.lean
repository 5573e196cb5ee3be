import Stencil.Text.Basic

/-!
# Grammar of the command line

A command line names a command by one word or two. Every level of commands has its own options,
each with a long name, some with a letter too.

* `Level.optionNamed?`, `Level.optionLettered?`: the option of a level by its name or letter.
* `Level.sub_ne_self`: no command is below itself.
-/

namespace Stencil.CommandLine

/-- A command, or the words before one. -/
inductive Level where
  | top
  | generate
  | list
  | menu
  | direct
  deriving DecidableEq, Repr

/-- The options of all levels. -/
inductive Key where
  | help
  | version
  | verbose
  | catalog
  | json
  | denyUnresolved
  | templateFolder
  | outputFolder
  | variableFile
  | pattern
  | plainOpening
  | plainClosing
  | encodedOpening
  | encodedClosing
  deriving DecidableEq, Repr

/-- What an option takes. -/
inductive Operand where
  /-- Nothing: the option is there or not. -/
  | nothing
  | text
  /-- A text that is not empty. -/
  | path
  deriving DecidableEq, Repr

/-- The long name of an option. -/
def Key.name : Key → Text
  | .help => "help"
  | .version => "version"
  | .verbose => "verbose"
  | .catalog => "options"
  | .json => "json"
  | .denyUnresolved => "deny-unresolved"
  | .templateFolder => "template-folder"
  | .outputFolder => "output-folder"
  | .variableFile => "vars"
  | .pattern => "pattern"
  | .plainOpening => "prefix"
  | .plainClosing => "postfix"
  | .encodedOpening => "html-prefix"
  | .encodedClosing => "html-postfix"

/-- The letter of an option. -/
def Key.letter? : Key → Option Char
  | .help => 'h'
  | .version => 'V'
  | .templateFolder => 't'
  | .outputFolder => 'o'
  | .variableFile => 'v'
  | .pattern => 'p'
  | _ => none

def Key.operand : Key → Operand
  | .catalog | .templateFolder | .outputFolder | .variableFile => .path
  | .pattern | .plainOpening | .plainClosing | .encodedOpening | .encodedClosing => .text
  | .help | .version | .verbose | .json | .denyUnresolved => .nothing

namespace Level

/-- The options of a level. -/
def options : Level → List Key
  | .top => [.help, .version, .verbose]
  | .generate => [.help, .verbose]
  | .list => [.help, .verbose, .catalog]
  | .menu => [.help, .verbose, .catalog, .json, .denyUnresolved]
  | .direct => [.help, .verbose, .templateFolder, .outputFolder, .variableFile, .pattern,
      .plainOpening, .plainClosing, .encodedOpening, .encodedClosing, .json, .denyUnresolved]

/-- The levels below a level, by the words for them. -/
def subs : Level → List (Text × Level)
  | .top => [("gen", .generate), ("list", .list)]
  | .generate => [("direct", .direct), ("menu", .menu)]
  | .list | .menu | .direct => []

/-- The level that the word leads to. -/
def sub? (level : Level) (word : Text) : Option Level := level.subs.lookup word

/-- The word that asks for help about the levels below. -/
def helpWord : Text := "help"

/-- Whether a command is still to be named after the level. -/
def needsCommand (level : Level) : Bool := !level.subs.isEmpty

/-- Whether the word leads on from the level, to a level below or to help. -/
def leadsOn (level : Level) (word : Text) : Bool :=
  level.needsCommand && (word == helpWord || (level.sub? word).isSome)

/-- The option of the level with the long name. -/
def optionNamed? (level : Level) (name : Text) : Option Key :=
  level.options.find? (·.name == name)

/-- The option of the level with the letter. -/
def optionLettered? (level : Level) (letter : Char) : Option Key :=
  level.options.find? (·.letter? == some letter)

theorem sub_ne_self {level next : Level} {word : Text} (h : level.sub? word = some next) :
    next ≠ level := by
  cases level <;> simp only [sub?, subs, List.lookup_cons, List.lookup_nil] at h
  · split at h
    · cases h
      decide
    · split at h
      · cases h
        decide
      · cases h
  · split at h
    · cases h
      decide
    · split at h
      · cases h
        decide
      · cases h
  all_goals cases h

end Level

end Stencil.CommandLine
