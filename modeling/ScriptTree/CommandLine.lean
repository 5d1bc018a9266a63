import ScriptTree.CommandLine.Arguments
import ScriptTree.Node.Json
import ScriptTree.Parse
import ScriptTree.Print

/-!
The command line: reads a source file, and writes its tokens, its tree or the program printed anew.

Files are reached through a `Host`, so that the same program runs on any of them.
-/

namespace ScriptTree

/-- One line for each token of a source. -/
def tokenListing (source : String) (keepTrivia : Bool) : String :=
  "\n".intercalate ((Token.ofSource source keepTrivia).map Token.listing)

/-- The tree of a source as JSON. -/
def treeListing (source : String) : Except ParseError String :=
  (parseSource source).map fun program => program.toJson.render

/-- The program of a source printed anew. -/
def reprint (options : PrintOptions) (source : String) : Except ParseError String :=
  (parseSource source).map (Node.print options)

namespace CommandLine

/-- Files by name. What goes wrong is told in the words of the system. -/
structure Host (m : Type → Type) where
  read : String → m (Except String ByteArray)
  write : String → String → m (Except String Unit)

/-- What a run leaves beside files. -/
structure Report where
  exitCode : Nat
  output : String := ""
  errors : String := ""

namespace Report

/-- Exit codes: done, failed, and not understood. The last is for arguments and for scripts. -/
def done (output : String) : Report :=
  { exitCode := 0, output }

def failed (message : String) : Report :=
  { exitCode := 1, errors := message ++ "\n" }

def misunderstood (message : String) : Report :=
  { exitCode := 2, errors := message ++ "\n" }

end Report

namespace Request

def perform (r : Request) (source : String) : Except ParseError String :=
  match r.task with
  | .tokens keepTrivia => .ok (tokenListing source keepTrivia)
  | .ast => treeListing source
  | .generate options => reprint options source

/-- The source in a file, or why it cannot be had. -/
def decode (bytes : Except String ByteArray) : Except String String := do
  match String.fromUTF8? (← bytes) with
  | some source => .ok source
  | none => .error "stream did not contain valid UTF-8"

def run {m : Type → Type} [Monad m] (host : Host m) (r : Request) : m Report := do
  match decode (← host.read r.file) with
  | .error reason => return .failed ("Cannot read '" ++ r.file ++ "': " ++ reason)
  | .ok source =>
    match r.perform source, r.out with
    | .error error, _ => return .misunderstood error.render
    | .ok output, none => return .done (output ++ "\n")
    | .ok output, some path =>
      match ← host.write path output with
      | .error reason => return .failed ("Cannot write '" ++ path ++ "': " ++ reason)
      | .ok () => return .done ""

end Request

/-- Runs a whole command line. -/
def run {m : Type → Type} [Monad m] (host : Host m) (arguments : List String) : m Report :=
  match readArguments arguments with
  | .request r => r.run host
  | .help topic => return .done (helpText topic ++ "\n")
  | .version => return .done (versionText ++ "\n")
  | .misuse => return .misunderstood programHelp

end CommandLine

end ScriptTree
