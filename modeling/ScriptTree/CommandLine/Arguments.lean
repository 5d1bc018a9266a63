import ScriptTree.CommandLine.Help
import ScriptTree.Print.Options

/-!
What the arguments of the command line ask for.

Arguments are read from left to right. The first one that is wrong, or that asks for help or for the
version, decides; what is missing shows at the end.
-/

namespace ScriptTree.CommandLine

/-- What is to be done with a source file. -/
inductive Task where
  | tokens (keepTrivia : Bool)
  | ast
  | generate (options : PrintOptions)
deriving DecidableEq

structure Request where
  task : Task
  file : String
  /-- The file to write to, in place of the standard output. -/
  out : Option String
deriving DecidableEq

/-- What a command line comes to. -/
inductive Reading where
  | request (request : Request)
  | help (topic : Topic)
  | version
  | misuse
deriving DecidableEq

/-- The options that take a value. -/
inductive ValueOption where
  | out
  | computed
deriving DecidableEq

/-- What was read so far. -/
structure Arguments where
  verb : Option Verb := none
  file : Option String := none
  /-- The output file; one that is named behind the verb counts more than one before it. -/
  out : Option String := none
  outBefore : Option String := none
  computed : Option MemberStyle := none
  noTrivia : Bool := false
  format : Bool := false
  bracket : Bool := false
  /-- The option whose value comes next. -/
  pending : Option ValueOption := none
  /-- After `--` nothing is an option. -/
  isLiteral : Bool := false
  /-- What help is asked for, once `help` was read in place of a verb. -/
  topic : Option Topic := none
deriving DecidableEq

namespace Arguments

/-- A step of the reading: what was read, or what the command line comes to at once. -/
abbrev Step := Except Reading Arguments

def misuse : Step :=
  .error .misuse

/-- Gives an option its value. No option takes two. -/
def setValue (a : Arguments) (option : ValueOption) (value : String) : Step :=
  match option with
  | .out =>
    if a.out.isSome || value.isEmpty then misuse
    else .ok { a with out := some value, pending := none }
  | .computed =>
    match a.computed, MemberStyle.ofName? value with
    | none, some style => .ok { a with computed := some style, pending := none }
    | _, _ => misuse

/-- Sets a flag of a verb, once. -/
def setFlag (a : Arguments) (verb : Verb) (isSet : Bool) (set : Arguments → Arguments) : Step :=
  if a.verb == some verb && !isSet then .ok (set a) else misuse

/-- An option by its long name, with the value behind its equals sign. -/
def readLong (a : Arguments) (name : String) (value : Option String) : Step :=
  match name, value with
  | "out", some value => a.setValue .out value
  | "out", none => .ok { a with pending := some .out }
  | "computed", some value =>
    if a.verb == some .generate then a.setValue .computed value else misuse
  | "computed", none =>
    if a.verb == some .generate then .ok { a with pending := some .computed } else misuse
  | "no-trivia", none => a.setFlag .tokens a.noTrivia ({ · with noTrivia := true })
  | "format", none => a.setFlag .generate a.format ({ · with format := true })
  | "bracket", none => a.setFlag .generate a.bracket ({ · with bracket := true })
  | "help", none => .error (.help (.ofVerb a.verb))
  | "version", none => if a.verb.isNone then .error .version else misuse
  | _, _ => misuse

/-- Options by their short names, one behind the other. The rest of the argument is the value of one
that takes a value. -/
def readShort (a : Arguments) : List Char → Step
  | [] => .ok a
  | 'o' :: [] => .ok { a with pending := some .out }
  | 'o' :: '=' :: value => a.setValue .out (String.ofList value)
  | 'o' :: value => a.setValue .out (String.ofList value)
  | 'h' :: _ => .error (.help (.ofVerb a.verb))
  | 'V' :: _ => if a.verb.isNone then .error .version else misuse
  | 'f' :: names => do
    readShort (← a.setFlag .generate a.format ({ · with format := true })) names
  | _ => misuse

/-- An argument that is no option: the verb, then the file. -/
def readPlain (a : Arguments) (value : String) : Step :=
  if a.verb.isNone then
    if a.isLiteral then misuse
    else if value == "help" then .ok { a with topic := some .program }
    else
      match Verb.ofName? value with
      | some verb => .ok { a with verb := some verb, out := none, outBefore := a.out }
      | none => misuse
  else if a.file.isNone && !value.isEmpty then .ok { a with file := some value }
  else misuse

/-- An argument behind `help`. No option stands there, and no verb has verbs of its own. -/
def readTopic (a : Arguments) (topic : Topic) (value : String) : Step :=
  match topic, Topic.ofName? value with
  | .program, some named => .ok { a with topic := some named }
  | _, _ => misuse

/-- An argument where `help` was not read. -/
def readArgument (a : Arguments) (argument : String) : Step :=
  if a.isLiteral then a.readPlain argument
  else
    match argument.toList, a.pending with
    | ['-', '-'], none => .ok { a with isLiteral := true }
    | '-' :: '-' :: text, none =>
      let name := text.takeWhile (· != '=')
      let value := (text.drop name.length).tail?
      a.readLong (String.ofList name) (value.map String.ofList)
    | ['-'], none => a.readPlain argument
    | '-' :: names, none => a.readShort names
    | _, none => a.readPlain argument
    -- No value starts with a dash, unless it is one.
    | '-' :: _ :: _, some _ => misuse
    | _, some option => a.setValue option argument

def read (a : Arguments) (argument : String) : Step :=
  match a.topic with
  | some topic => a.readTopic topic argument
  | none => a.readArgument argument

/-- What the arguments come to after the last one. -/
def finish (a : Arguments) : Reading :=
  match a.topic, a.pending, a.verb, a.file with
  | some topic, _, _, _ => .help topic
  | none, none, some verb, some file =>
    let task := match verb with
      | .tokens => Task.tokens !a.noTrivia
      | .ast => .ast
      | .generate =>
        .generate
          { isSpaced := a.format
            memberStyle := a.computed.getD .asIs
            encloses := a.bracket }
    .request ⟨task, file, a.out.or a.outBefore⟩
  | _, _, _, _ => .misuse

end Arguments

/-- Reads a whole command line. -/
def readArguments (arguments : List String) : Reading :=
  match arguments.foldlM Arguments.read {} with
  | .ok a => a.finish
  | .error reading => reading

end ScriptTree.CommandLine
