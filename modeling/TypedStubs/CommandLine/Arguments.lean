import TypedStubs.Text.Blank
import TypedStubs.Text.Cut

/-! # Reading the command line

Options stand before the command or after it; each belongs to one of the two places, and may be given
once.  The value of an option is the next argument, or stands behind an equals sign, or directly behind
the letter of the option.  After two dashes no argument is an option.
-/
namespace TypedStubs.CommandLine

/-- An option. -/
inductive OptionName where
  /-- How much is logged. -/
  | logLevel
  /-- Says the version and nothing else. -/
  | version
  /-- The directory for the stubs. -/
  | out
  /-- A tree of stubs to start from. -/
  | seed
  /-- A file with settings. -/
  | config
  /-- The name of the root package. -/
  | rootPackage
  /-- The form of the report. -/
  | format
  deriving DecidableEq

namespace OptionName

/-- The options that stand before the command. -/
def general : List OptionName := [.logLevel, .version]

/-- The options of the command that makes stubs. -/
def ofGenerate : List OptionName := [.out, .seed, .config, .rootPackage, .format]

/-- The name of an option behind two dashes. -/
def long : OptionName → String
  | .logLevel => "log-level"
  | .version => "version"
  | .out => "out"
  | .seed => "seed"
  | .config => "config"
  | .rootPackage => "root-package"
  | .format => "format"

/-- The letter of an option behind one dash, if it has one. -/
def letter? : OptionName → Option Char
  | .logLevel => some 'l'
  | .version => some 'V'
  | .out => some 'o'
  | .config => some 'c'
  | .format => some 'f'
  | .seed | .rootPackage => none

/-- Whether a value belongs to an option. -/
def takesValue : OptionName → Bool
  | .version => false
  | _ => true

/-- Whether a text can be the value of an option.  Paths are not empty, and a form of report has its
name. -/
def allows : OptionName → String → Bool
  | .out, value | .seed, value | .config, value => !value.isEmpty
  | .format, value => value == "text" || value == "json"
  | _, _ => true

end OptionName

/-- An argument on its own. -/
inductive Argument where
  /-- The end of the options. -/
  | separator
  /-- An option, with a value that stands in the same argument. -/
  | option (name : OptionName) (value : Option String)
  /-- An option that is not known. -/
  | unknown
  /-- Anything else. -/
  | plain (text : String)
  deriving DecidableEq

/-- An argument among which `known` are options. -/
def Argument.ofText (known : List OptionName) (text : String) : Argument :=
  match text.toList with
  | ['-', '-'] => .separator
  | '-' :: '-' :: rest =>
    let (name, value) := match Text.cutChars ['='] rest with
      | some (name, value) => (name, some (String.ofList value))
      | none => (rest, none)
    match known.find? (·.long == String.ofList name) with
    | some found => .option found value
    | none => .unknown
  | '-' :: letter :: rest =>
    match known.find? (·.letter? == some letter) with
    | some found =>
      if rest.isEmpty || !found.takesValue then .option found none
      else .option found (some (String.ofList (if rest.head? == some '=' then rest.tail else rest)))
    | none => .unknown
  | _ => .plain text

/-- What was read off arguments: options with their values, and the other arguments. -/
structure Given where
  /-- The options, each with its value. -/
  options : List (OptionName × String)
  /-- The other arguments, in order. -/
  plain : List String
  deriving DecidableEq

namespace Given

/-- Nothing was given. -/
def none : Given := ⟨[], []⟩

/-- What was given, with one more option, unless it was given before or cannot have the value. -/
def withOption (g : Given) (name : OptionName) (value : String) : Option Given :=
  if g.options.any (·.1 == name) || !name.allows value then Option.none
  else some { g with options := g.options ++ [(name, value)] }

/-- The value of an option. -/
def value? (g : Given) (name : OptionName) : Option String := g.options.lookup name

end Given

/-- Options read off the front of arguments, among which `known` are options, and the arguments from
the first other one on. -/
def readOptions (known : List OptionName) (g : Given) :
    List String → Option (Given × List String)
  | [] => some (g, [])
  | text :: rest =>
    match Argument.ofText known text with
    | .unknown => none
    | .separator | .plain _ => some (g, text :: rest)
    | .option name (some value) =>
      if name.takesValue then (g.withOption name value).bind (readOptions known · rest) else none
    | .option name none =>
      if name.takesValue then
        match rest with
        | value :: rest =>
          match Argument.ofText known value with
          | .plain value => (g.withOption name value).bind (readOptions known · rest)
          | _ => none
        | [] => none
      else some ({ g with options := g.options ++ [(name, "")] }, rest)

/-- All arguments after a command, among which `known` are options. -/
def readAll (known : List OptionName) : Nat → Given → List String → Option Given
  | 0, g, rest => if rest.isEmpty then some g else none
  | n + 1, g, arguments => do
    match ← readOptions known g arguments with
    | (g, []) => some g
    | (g, "--" :: rest) => some { g with plain := g.plain ++ rest }
    | (g, text :: rest) => readAll known n { g with plain := g.plain ++ [text] } rest

/-- The form of a report. -/
inductive ReportForm where
  /-- Lines of text. -/
  | text
  /-- A JSON value. -/
  | json
  deriving DecidableEq

/-- What stubs are asked for. -/
structure Request where
  /-- Path of the source tree. -/
  source : String
  /-- Path of the tree of stubs. -/
  out : String
  /-- Path of a tree of stubs to start from. -/
  seed : Option String
  /-- Path of a file with settings. -/
  config : Option String
  /-- Name of the root package. -/
  rootPackage : Option String
  /-- The form of the report. -/
  form : ReportForm
  deriving DecidableEq

/-- What is asked for. -/
inductive Command where
  /-- The version. -/
  | version
  /-- The standard settings. -/
  | config
  /-- Stubs for a source tree. -/
  | generate (request : Request)
  deriving DecidableEq

/-- The request that arguments after the command make. -/
def readRequest (arguments : List String) : Option Request := do
  let g ← readAll OptionName.ofGenerate (arguments.length + 1) .none arguments
  match g.plain with
  | [source] =>
    if source.isEmpty then none
    else return {
      source
      out := ← g.value? .out
      seed := g.value? .seed
      config := g.value? .config
      rootPackage := g.value? .rootPackage
      form := if g.value? .format == some "json" then .json else .text }
  | _ => none

/-- The command that arguments give, if they are well formed. -/
def Command.read? (arguments : List String) : Option Command := do
  let (g, rest) ← readOptions OptionName.general .none arguments
  if (g.value? .version).isSome then return .version
  else
    match rest with
    | ["config"] => return .config
    | "generate" :: rest => return .generate (← readRequest rest)
    | _ => none

end TypedStubs.CommandLine
