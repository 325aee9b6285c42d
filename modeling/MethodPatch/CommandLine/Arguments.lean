set_option autoImplicit false

namespace MethodPatch.CommandLine

/-- Options with a value. -/
inductive Setting where
  | input
  | plan
  | output
  /-- Where the classes go after the overrides. -/
  | classes
deriving DecidableEq, Repr

/-- Options without a value. -/
inductive Switch where
  | quiet
  | timing
deriving DecidableEq, Repr

structure Arguments where
  input : String
  plan : String
  output : Option String
  classes : Option String
  quiet : Bool
  timing : Bool
deriving DecidableEq, Repr

/-- What a command line asks for. -/
inductive Request where
  | run (arguments : Arguments)
  | help
  | version
  | rejected
deriving DecidableEq, Repr

/-- What one word of a command line is, seen by itself. -/
inductive Word where
  | setting (name : Setting) (attached : Option String)
  | switch (name : Switch)
  | help
  | version
  /-- Every word after it is a plain one. -/
  | terminator
  /-- A word that no option begins with, or one of no meaning. -/
  | other
deriving DecidableEq, Repr

/-- The name of a long option and the value attached to it by an equals sign. -/
def splitAttached (body : List Char) : String × Option String :=
  let name := String.ofList (body.takeWhile (· != '='))
  match body.dropWhile (· != '=') with
  | _ :: value => (name, some (String.ofList value))
  | [] => (name, none)

/-- What a long option is. Only settings may have a value attached. -/
def longOption (body : List Char) : Word :=
  match splitAttached body with
  | ("input", attached) => .setting .input attached
  | ("plan", attached) => .setting .plan attached
  | ("output", attached) => .setting .output attached
  | ("rewritten", attached) => .setting .classes attached
  | ("quiet", none) => .switch .quiet
  | ("timing", none) => .switch .timing
  | ("help", none) => .help
  | ("version", none) => .version
  | _ => .other

def Word.of (word : String) : Word :=
  match word.toList with
  | ['-', '-'] => .terminator
  | '-' :: '-' :: body => longOption body
  | '-' :: 'h' :: _ => .help
  | '-' :: 'V' :: _ => .version
  | _ => .other

/-- A word can be the value of the setting before it unless it looks like an option; a lone dash
does not. -/
def isValue (word : String) : Bool :=
  match word.toList with
  | [] => false
  | ['-'] => true
  | '-' :: _ => false
  | _ => true

/-- The settings and switches met so far. -/
structure Given where
  settings : List (Setting × String)
  switches : List Switch
deriving DecidableEq, Repr

namespace Given

def empty : Given := ⟨[], []⟩

/-- Takes a setting; none may be empty or given twice. -/
def set (given : Given) (name : Setting) (value : String) : Option Given :=
  if value = "" ∨ (given.settings.lookup name).isSome then none
  else some { given with settings := (name, value) :: given.settings }

/-- Takes a switch; none may be given twice. -/
def switchOn (given : Given) (name : Switch) : Option Given :=
  if name ∈ given.switches then none else some { given with switches := name :: given.switches }

/-- All words are taken: input and plan have to be among them. -/
def complete (given : Given) : Request :=
  match given.settings.lookup .input, given.settings.lookup .plan with
  | some input, some plan =>
      .run ⟨input, plan, given.settings.lookup .output, given.settings.lookup .classes,
        given.switches.contains .quiet, given.switches.contains .timing⟩
  | _, _ => .rejected

/-- Takes the words that follow, from left to right. A request for help or for the version counts as
soon as it is reached. -/
def take (given : Given) : List String → Request
  | [] => given.complete
  | word :: rest =>
      match Word.of word with
      | .help => .help
      | .version => .version
      | .other => .rejected
      | .terminator => if rest.isEmpty then given.complete else .rejected
      | .switch name =>
          match given.switchOn name with
          | some given => given.take rest
          | none => .rejected
      | .setting name (some value) =>
          match given.set name value with
          | some given => given.take rest
          | none => .rejected
      | .setting name none =>
          match rest with
          | [] => .rejected
          | value :: rest =>
              if isValue value then
                match given.set name value with
                | some given => given.take rest
                | none => .rejected
              else .rejected

end Given

/-- What the words of a command line ask for, the program's name not among them. -/
def Request.of (words : List String) : Request := Given.empty.take words

end MethodPatch.CommandLine
