import Introspect.Settings.Check

/-! What the words of a command line ask for. -/
namespace Introspect.Command

/-- An option by its long name with dashes; some have a letter as well, and some take a value. -/
structure OptionSpec where
  name : String
  letter : Option Char
  takesValue : Bool

/-- Why there is nothing to be done: help was asked for, or the words make no sense. -/
inductive Refusal where
  | help
  | usage
deriving DecidableEq, Repr

/-- What was found among words: values of options, options without values, and the other words. -/
structure Scan where
  values : Table String String
  flags : List String
  positional : List String

/-- What one word is. -/
inductive Word where
  | positional
  | unknown
  | flag (name : String)
  | awaiting (name : String)
  | value (name value : String)

/-- The option that asks for help, known to every command. -/
def helpSpec : OptionSpec := ⟨"--help", none, false⟩

/-- A word that begins with a dash and has more behind it. -/
def isOption (word : String) : Bool :=
  match word.toList with
  | '-' :: _ :: _ => true
  | _ => false

/-- What a long option is, with the value behind its equals sign where there is one. -/
def longWord (specs : List OptionSpec) (word : String) : Word :=
  let cut := Text.cutAt '=' word.toList
  let name := String.ofList cut.1
  match specs.find? (fun s => s.name == name), cut.2 with
  | none, _ => .unknown
  | some s, none => if s.takesValue then .awaiting name else .flag name
  | some s, some v => if s.takesValue then .value name (String.ofList v) else .unknown

/-- What a word that begins with a single dash is. What follows the letter is the value. -/
def shortWord (specs : List OptionSpec) (letter : Char) (behind : List Char) : Word :=
  match specs.find? fun s => s.letter == some letter with
  | none => .unknown
  | some s =>
    if !s.takesValue then if behind.isEmpty then .flag s.name else .unknown
    else if behind.isEmpty then .awaiting s.name
    else .value s.name (String.ofList behind)

/-- What a word is, for a command with the given options. -/
def classify (specs : List OptionSpec) (word : String) : Word :=
  match word.toList with
  | '-' :: '-' :: _ => longWord specs word
  | '-' :: c :: r => shortWord specs c r
  | _ => .positional

/-- Goes through the words. Options and other words may come in any order; behind `--` no word
is an option; the last value of an option counts. -/
def scan (specs : List OptionSpec) (s : Scan) : List String → Except Refusal Scan
  | [] => .ok s
  | [word] =>
    if word = "--" then .ok s
    else match classify specs word with
      | .positional => .ok { s with positional := s.positional ++ [word] }
      | .flag name => .ok { s with flags := name :: s.flags }
      | .value name v => .ok { s with values := s.values.insert name v }
      | .unknown | .awaiting _ => .error .usage
  | word :: next :: rest =>
    if word = "--" then .ok { s with positional := s.positional ++ next :: rest }
    else match classify specs word with
      | .positional => scan specs { s with positional := s.positional ++ [word] } (next :: rest)
      | .flag name => scan specs { s with flags := name :: s.flags } (next :: rest)
      | .value name v => scan specs { s with values := s.values.insert name v } (next :: rest)
      | .awaiting name => scan specs { s with values := s.values.insert name next } rest
      | .unknown => .error .usage

/-- What is to be done. Changes of settings are given as data. -/
inductive Request where
  | file (entry : Path) (config : Option Path) (changes : List (String × Json))
      (compilerArguments : List String)
  | module (config : Option Path) (changes : List (String × Json))
  | show (file : Path)

/-- The items of a list written with semicolons; empty ones do not count. -/
def split (s : String) : List String := (Text.pieces ';' s).filter fun p => !p.isEmpty

def configSpec : OptionSpec := ⟨"--config", some 'c', true⟩

/-- Options whose values are settings as they are, with the names of the settings. -/
def textOptions : List (String × String) :=
  [("--module-name", "module_name"), ("--module-directory", "module_directory"),
    ("--output-directory", "output_directory")]

/-- Options whose values are lists of settings, with the names of the settings. -/
def listOptions : List (String × String) :=
  [("--include-paths", "include_paths"), ("--definitions", "definitions")]

def changesOf (s : Scan) (flags : List (String × String × Bool)) : List (String × Json) :=
  textOptions.filterMap (fun o => (s.values.find? o.1).map fun v => (o.2, .text v)) ++
    listOptions.filterMap (fun o =>
      (s.values.find? o.1).map fun v => (o.2, Json.texts (split v))) ++
    flags.filterMap fun o => if s.flags.contains o.1 then some (o.2.1, .bool o.2.2) else none

/-- Options that take a value, by their long names. -/
def valued (names : List String) : List OptionSpec := names.map fun n => ⟨n, none, true⟩

/-- Options that take none, by their long names. -/
def bare (names : List String) : List OptionSpec := names.map fun n => ⟨n, none, false⟩

def pathOptions : List String :=
  ["--entry", "--module-directory", "--output-directory", configSpec.name]

/-- A path. One that the system cannot know makes no sense. -/
def pathOf (word : String) : Except Refusal Path :=
  let path := Path.ofString word
  if path.hasNull then .error .usage else .ok path

/-- Goes through the words of a command. Help goes before everything but an option that makes no
sense by itself. -/
def scanned (specs : List OptionSpec) (words : List String) : Except Refusal Scan := do
  let s ← scan (helpSpec :: specs) ⟨.empty, [], []⟩ words
  if s.flags.contains helpSpec.name then throw .help
  (pathOptions.filterMap s.values.find?).forM fun word => discard (pathOf word)
  return s

/-- The options that give settings for one file only, and what they set. -/
def fileFlags : List (String × String × Bool) :=
  [("--no-raise-clang-warnings", "raise_warnings", false),
    ("--no-raise-clang-errors", "raise_errors", false)]

/-- The option of the module command that gives a setting. -/
def moduleFlags : List (String × String × Bool) := [("--strict", "strict_merge", true)]

/-- The words behind `file`. The entry is needed. -/
def fileRequest (words : List String) : Except Refusal Request := do
  let names := textOptions.map Prod.fst ++ listOptions.map Prod.fst
  let s ← scanned
    (configSpec :: valued (["--entry", "--clang-args"] ++ names) ++ bare (fileFlags.map (·.1)))
    words
  match s.values.find? "--entry", s.positional with
  | some entry, [] =>
    return .file (Path.ofString entry) ((s.values.find? configSpec.name).map Path.ofString)
      (changesOf s fileFlags) (((s.values.find? "--clang-args").map split).getD [])
  | _, _ => throw .usage

def moduleRequest (words : List String) : Except Refusal Request := do
  let s ← scanned
    (configSpec :: valued (textOptions.map Prod.fst) ++ bare (moduleFlags.map (·.1))) words
  match s.positional with
  | [] =>
    return .module ((s.values.find? configSpec.name).map Path.ofString) (changesOf s moduleFlags)
  | _ => throw .usage

def showRequest (words : List String) : Except Refusal Request := do
  let s ← scanned [] words
  match s.positional with
  | [file] => return .show (← pathOf file)
  | _ => throw .usage

/-- The command that a name stands for, with the words behind it. -/
def named (words : List String) : Except Refusal Request :=
  match words with
  | "file" :: rest => fileRequest rest
  | "module" :: rest => moduleRequest rest
  | "show" :: rest => showRequest rest
  | _ => .error .usage

/-- What a command line asks for. In front of the command only help can be asked for. -/
def parse (help : Bool) : List String → Except Refusal Request
  | [] => .error (if help then .help else .usage)
  | word :: rest =>
    if word = helpSpec.name then parse true rest
    else if word = "--" then if help then .error .help else named rest
    else if isOption word then .error .usage
    else if help then .error .help
    else named (word :: rest)

end Introspect.Command
