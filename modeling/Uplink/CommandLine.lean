import Uplink.Config.Printing
import Uplink.Config.Reading

/-!
# The command line

Which configuration is used and what is done with it. `interpret` reads the arguments, and `run`
says what comes of them. The arguments are gone through from left to right, so that a request for
help counts only if nothing before it is wrong.
-/

namespace Uplink.CommandLine

inductive Command where
  | run
  /-- Check the configuration, and show it if wanted. -/
  | config (showIt : Bool)
deriving DecidableEq, Repr

inductive HelpTopic where
  | program
  | run
  | config
  | help
deriving DecidableEq, Repr

/-- What the arguments ask for. -/
inductive Request where
  | version
  | help (topic : HelpTopic)
  | command (file : Option String) (command : Command)
  | misuse
deriving DecidableEq, Repr

def fileVariable : String := "CLOUDLINK_CONFIG"

/-! ## Reading arguments -/

def interpretRun (file : Option String) : List String → Request
  | [] | ["--"] => .command file .run
  | arg :: _ => if arg = "--help" ∨ arg.startsWith "-h" then .help .run else .misuse

def interpretConfig (file : Option String) (showIt : Bool) : List String → Request
  | [] | ["--"] => .command file (.config showIt)
  | arg :: args =>
    if arg = "--show" ∧ !showIt then interpretConfig file true args
    else if arg = "--help" ∨ arg.startsWith "-h" then .help .config
    else .misuse

def interpretHelp : List String → Request
  | [] => .help .program
  | ["run"] => .help .run
  | ["config"] => .help .config
  | ["help"] => .help .help
  | _ => .misuse

/-- An argument that may be the value of an option. -/
def isValue (arg : String) : Bool := !arg.isEmpty && (arg == "-" || !arg.startsWith "-")

def after? (mark text : String) : Option String :=
  if text.startsWith mark then some (String.ofList (text.toList.drop mark.length)) else none

/-- The file in an argument that holds both the option and its value. -/
def attached (arg : String) : Option String :=
  -- The short option is read with an equals sign first, which is no part of the value then.
  after? "--config=" arg <|> after? "-c=" arg <|> after? "-c" arg

/-- Arguments in front of the command. -/
def interpretFrom (file : Option String) : List String → Request
  | [] => .misuse
  | "run" :: args => interpretRun file args
  | "config" :: args => interpretConfig file false args
  | "help" :: args => interpretHelp args
  | "--help" :: _ => .help .program
  | "--version" :: _ => .version
  -- The file may be named once.
  | "--config" :: value :: args =>
    if isValue value ∧ file.isNone then interpretFrom (some value) args else .misuse
  | "-c" :: value :: args =>
    if isValue value ∧ file.isNone then interpretFrom (some value) args else .misuse
  | arg :: args =>
    if arg.startsWith "-h" then .help .program
    else if arg.startsWith "-V" then .version
    else
      match attached arg with
      | some value =>
        if value ≠ "" ∧ file.isNone then interpretFrom (some value) args else .misuse
      | none => .misuse

/-- What the arguments and the environment ask for. -/
def interpret (env : Environment) (args : List String) : Request :=
  match interpretFrom none args with
  -- A file named by an argument goes before one that the environment names.
  | .command none command =>
    match env.get? fileVariable with
    | some "" => .misuse
    | file => .command file command
  | request => request

/-! ## Answers -/

def programHelp (env : Environment) : String :=
  "Cloud connection core for IoT edge gateways\n\n" ++
  "Usage: cloudlink [OPTIONS] <COMMAND>\n\n" ++
  "Commands:\n" ++
  "  run     Connect to the cloud and run until signalled\n" ++
  "  config  Validate configuration\n" ++
  "  help    Print this message or the help of the given subcommand(s)\n\n" ++
  "Options:\n" ++
  s!"  -c, --config <FILE>  Configuration file path [env: {fileVariable}=" ++
  (env.get? fileVariable).getD "" ++ "]\n" ++
  "  -h, --help           Print help\n" ++
  "  -V, --version        Print version\n"

def helpText (env : Environment) : HelpTopic → String
  | .program => programHelp env
  | .run =>
    "Connect to the cloud and run until signalled\n\nUsage: cloudlink run\n\n" ++
    "Options:\n  -h, --help  Print help\n"
  | .config =>
    "Validate configuration\n\nUsage: cloudlink config [OPTIONS]\n\n" ++
    "Options:\n      --show  Show current configuration\n  -h, --help  Print help\n"
  | .help =>
    "Print this message or the help of the given subcommand(s)\n\n" ++
    "Usage: cloudlink help [COMMAND]...\n\n" ++
    "Arguments:\n  [COMMAND]...  Print help for the subcommand(s)\n"

/-- How a run of the program ends. -/
inductive Ending where
  | finished (exitCode : Nat) (output : String)
  /-- The program stays up with this configuration. -/
  | serving (config : Config)
deriving Repr

abbrev Files := String → Option (List UInt8)

/-- The files that are looked for if none is named. -/
def defaultFiles : List String := ["cloudlink.toml", "config/cloudlink.toml"]

/-- The configuration to use: that of the named file, or of the first default file there is. -/
def loadConfig (files : Files) : Option String → Except ConfigError Config
  | some path => Config.load (files path)
  | none => Config.load ((defaultFiles.findSome? files))

/-- What comes of a request. A wrong use ends with 2 and a configuration that cannot be used
with 1. -/
def run (env : Environment) (files : Files) (args : List String) : Ending :=
  match interpret env args with
  | .misuse => .finished 2 ""
  | .version => .finished 0 (softwareVersion ++ "\n")
  | .help topic => .finished 0 (helpText env topic)
  | .command file command =>
    match loadConfig files file, command with
    | .error _, _ => .finished 1 ""
    | .ok config, .run => .serving config
    | .ok config, .config showIt =>
      .finished 0 (if showIt then "Current configuration:\n" ++ config.write ++ "\n" else "")

/-! ## Paths -/

def pathParts (path : String) : List String :=
  (Levels.split "/" path).foldl (fun parts part =>
    if part.isEmpty ∨ part = "." then parts
    else if part = ".." then parts.dropLast
    else parts ++ [part]) []

/-- The files of a directory, to which relative paths lead. -/
def filesOf (directory : List (String × List UInt8)) : Files := fun path =>
  if path.startsWith "/" then none
  else (directory.find? fun f => pathParts f.1 == pathParts path).map (·.2)

end Uplink.CommandLine
