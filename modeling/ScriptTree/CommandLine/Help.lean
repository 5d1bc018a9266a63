/-!
The texts that the command line prints about itself.
-/

namespace ScriptTree.CommandLine

inductive Verb where
  | tokens
  | ast
  | generate
deriving DecidableEq

namespace Verb

def name : Verb → String
  | tokens => "tokens"
  | ast => "ast"
  | generate => "generate"

def ofName? (s : String) : Option Verb :=
  [tokens, ast, generate].find? (·.name == s)

end Verb

/-- What help can be asked for: the program, one of its verbs, or `help` itself. -/
inductive Topic where
  | program
  | verb (verb : Verb)
  | help
deriving DecidableEq

namespace Topic

/-- The whole program, unless a verb was named. -/
def ofVerb : Option Verb → Topic
  | none => program
  | some v => verb v

def ofName? (s : String) : Option Topic :=
  if s == "help" then some help else (Verb.ofName? s).map verb

end Topic

def versionText : String :=
  "jsfront 0.1.0-alpha.1"

def programHelp : String :=
  "Tokenize, parse and regenerate JavaScript-like source

Usage: jsfront [OPTIONS] <COMMAND>

Commands:
  tokens    Dump the token stream
  ast       Dump the parsed tree as JSON
  generate  Parse and print the program back as source
  help      Print this message or the help of the given subcommand(s)

Options:
  -o, --out <PATH>  Write output to this file instead of stdout
  -h, --help        Print help
  -V, --version     Print version"

def verbHelp : Verb → String
  | .tokens => "Dump the token stream

Usage: jsfront tokens [OPTIONS] <FILE>

Arguments:
  <FILE>  Source file

Options:
      --no-trivia   Leave out comments, whitespace and newlines
  -o, --out <PATH>  Write output to this file instead of stdout
  -h, --help        Print help"
  | .ast => "Dump the parsed tree as JSON

Usage: jsfront ast [OPTIONS] <FILE>

Arguments:
  <FILE>  Source file

Options:
  -o, --out <PATH>  Write output to this file instead of stdout
  -h, --help        Print help"
  | .generate => "Parse and print the program back as source

Usage: jsfront generate [OPTIONS] <FILE>

Arguments:
  <FILE>  Source file

Options:
  -f, --format           Spaced, indented output with one statement per line
      --computed <MODE>  Member access style: default, on or off [default: default]
      --bracket          Wrap every expression statement in parentheses
  -o, --out <PATH>       Write output to this file instead of stdout
  -h, --help             Print help"

def helpHelp : String :=
  "Print this message or the help of the given subcommand(s)

Usage: jsfront help [COMMAND]...

Arguments:
  [COMMAND]...  Print help for the subcommand(s)"

def helpText : Topic → String
  | .program => programHelp
  | .verb v => verbHelp v
  | .help => helpHelp

end ScriptTree.CommandLine
