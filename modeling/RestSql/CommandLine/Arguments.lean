import RestSql.Config.Setting

/-!
The arguments of the command line: options that set settings, a command, and its operand. Options may
stand before the command and after it; the later value of a setting wins.
-/

namespace RestSql

/-- What the program can do. -/
inductive Command
  | exec
  | shell
  | explain
  deriving DecidableEq, Repr

/-- What the program is to do. -/
inductive Task
  | exec (statements : Option String)
  | shell
  | explain (statements : String)
  deriving DecidableEq, Repr

/-- Arguments that make no sense. -/
inductive UsageError
  | unknownOption (name : String)
  | repeatedOption (name : String)
  | missingValue (name : String)
  | unneededValue (name : String)
  | badValue (name value : String)
  | unknownCommand (name : String)
  | unexpectedOperand (text : String)
  | noCommand
  | noStatements
  deriving DecidableEq, Repr

def UsageError.message : UsageError → String
  | unknownOption name => "unknown option '" ++ name ++ "'"
  | repeatedOption name => "option '" ++ name ++ "' is given twice"
  | missingValue name => "option '" ++ name ++ "' needs a value"
  | unneededValue name => "option '" ++ name ++ "' takes no value"
  | badValue name value => "invalid value '" ++ value ++ "' for option '" ++ name ++ "'"
  | unknownCommand name => "unknown command '" ++ name ++ "'"
  | unexpectedOperand text => "unexpected argument '" ++ text ++ "'"
  | noCommand => "no command given"
  | noStatements => "no statements given"

/-- Why the program ends before it has done anything. -/
inductive Halt
  | usage (e : UsageError)
  /-- Help is asked for, about a command or about all of them, in many words or in few. -/
  | help (command : Option Command) (long : Bool)
  | version
  deriving DecidableEq, Repr

namespace Command

def all : List Command := [exec, shell, explain]

def name : Command → String
  | exec => "exec"
  | shell => "shell"
  | explain => "explain"

def named? (name : String) : Option Command :=
  all.find? (·.name == name)

/-- How many operands the command takes. -/
def operandLimit : Command → Nat
  | exec => 1
  | shell => 0
  | explain => 1

end Command

/-- What the arguments mean. -/
structure Invocation where
  task : Task
  /-- Settings with their texts, in order. -/
  given : List (Setting × String)

/-- What is known after some arguments. -/
structure Arguments where
  command : Option Command
  /-- Settings with their texts, the latest first. -/
  given : List (Setting × String)
  /-- The settings among them that are given on this side of the command. -/
  here : List String
  operands : List String
  /-- The setting the value of which is to follow. -/
  pending : Option Setting
  /-- All that follows is operands. -/
  ended : Bool
  /-- Help is asked for; a command may follow. -/
  helping : Bool

namespace Arguments

def empty : Arguments :=
  { command := none, given := [], here := [], operands := [], pending := none, ended := false
    helping := false }

/-- The word that asks for help in the place of a command. -/
def helpWord : String := "help"

/-- The settings that are options of every command. -/
def commonKeys : List String :=
  ["configfile", "provider", "keyfilepath", "output", "outfile", "delimiter", "hideheaders", "dryrun",
   "errorpresentation", "loglevel", "offline", "providerroot", "usenonpreferredapis", "pollinterval",
   "maxresults", "pagelimit", "apirequesttimeout", "querycachesize", "verbose"]

/-- The settings that are options at this place. -/
def optionKeys (a : Arguments) : List String :=
  if a.command = some .exec then commonKeys ++ ["infile"] else commonKeys

/-- The letters that stand for settings. -/
def letters : List (Char × String) :=
  [('o', "output"), ('v', "verbose"), ('i', "infile")]

/-- The option with the given name. -/
def option? (a : Arguments) (key : String) : Option Setting :=
  if a.optionKeys.contains key then Setting.named? key else none

def optionOfLetter? (a : Arguments) (c : Char) : Option Setting :=
  ((letters.find? (·.1 == c)).map Prod.snd).bind a.option?

/-- The arguments with a value for a setting. -/
def give (a : Arguments) (s : Setting) (value : String) : Except Halt Arguments :=
  if a.here.contains s.key then .error (.usage (.repeatedOption s.key))
  else if (s.kind.ofArgument? value).isNone then .error (.usage (.badValue s.key value))
  else .ok { a with given := (s, value) :: a.given, here := s.key :: a.here, pending := none }

/-- The option is a switch, which takes no value. -/
def isSwitch (s : Setting) : Bool :=
  match s.kind with
  | .flag _ _ => true
  | _ => false

/-- The name and the value of a long option; the value may follow an equals sign. -/
def cutValue (text : List Char) : String × Option String :=
  match Text.cutFirst (· == '=') text with
  | some (name, value) => (String.ofList name, some (String.ofList value))
  | none => (String.ofList text, none)

/-- Takes a long option, without its dashes. -/
def takeLong (a : Arguments) (text : List Char) : Except Halt Arguments :=
  let (name, value) := cutValue text
  match a.option? name with
  | some s =>
    if isSwitch s then
      if value.isSome then .error (.usage (.unneededValue name)) else a.give s "true"
    else
      match value with
      | some v => a.give s v
      | none => .ok { a with pending := some s }
  | none =>
    if name = helpWord then
      if value.isSome then .error (.usage (.unneededValue name)) else .error (.help a.command true)
    else if name = "version" ∧ a.command = none then
      if value.isSome then .error (.usage (.unneededValue name)) else .error .version
    else .error (.usage (.unknownOption name))

/-- Takes letters after a dash. A letter that needs a value takes the rest, or the next argument. -/
def takeLetters (a : Arguments) : List Char → Except Halt Arguments
  | [] => .ok a
  | c :: rest =>
    match a.optionOfLetter? c with
    | some s =>
      if isSwitch s then do
        takeLetters (← a.give s "true") rest
      else
        match rest with
        | [] => .ok { a with pending := some s }
        | '=' :: value => a.give s (String.ofList value)
        | value => a.give s (String.ofList value)
    | none =>
      if c = 'h' then .error (.help a.command false)
      else if c = 'V' ∧ a.command = none then .error .version
      else .error (.usage (.unknownOption c.toString))

/-- Takes an operand: the command, or what the command is about. -/
def takeOperand (a : Arguments) (text : String) : Except Halt Arguments :=
  match a.command with
  | none =>
    if a.ended then .error (.usage (.unexpectedOperand text))
    else if text = helpWord then .ok { a with helping := true }
    else
      match Command.named? text with
      | some c => .ok { a with command := some c, here := [] }
      | none => .error (.usage (.unknownCommand text))
  | some c =>
    if a.operands.length < c.operandLimit then .ok { a with operands := a.operands ++ [text] }
    else .error (.usage (.unexpectedOperand text))

/-- Takes the command that help is asked about. -/
def takeHelp (text : String) : Except Halt Arguments :=
  match Command.named? text with
  | some c => .error (.help (some c) true)
  | none => .error (.usage (.unknownCommand text))

/-- Takes an argument. -/
def take (a : Arguments) (text : String) : Except Halt Arguments :=
  if a.helping then takeHelp text
  else if a.ended then a.takeOperand text
  else
    match text.toList, a.pending with
    | '-' :: _ :: _, some s => .error (.usage (.missingValue s.key))
    | ['-', '-'], none => .ok { a with ended := true }
    | '-' :: '-' :: rest, none => a.takeLong rest
    | '-' :: c :: rest, none => a.takeLetters (c :: rest)
    | _, some s => a.give s text
    | _, none => a.takeOperand text

/-- What all arguments mean. -/
def invocation (a : Arguments) : Except Halt Invocation :=
  if a.helping then .error (.help none true)
  else match a.pending with
  | some s => .error (.usage (.missingValue s.key))
  | none =>
    let given := a.given.reverse
    match a.command, a.operands with
    | none, _ => .error (.usage .noCommand)
    | some .exec, operands => .ok ⟨.exec operands.head?, given⟩
    | some .shell, _ => .ok ⟨.shell, given⟩
    | some .explain, text :: _ => .ok ⟨.explain text, given⟩
    | some .explain, [] => .error (.usage .noStatements)

end Arguments

namespace Invocation

/-- What a list of arguments means. -/
def ofArguments (texts : List String) : Except Halt Invocation := do
  (← texts.foldlM Arguments.take .empty).invocation

/-- The text given for a setting. -/
def given? (i : Invocation) (key : String) : Option String :=
  (i.given.reverse.find? (·.1.key == key)).map Prod.snd

/-- The settings with those that are given. -/
def apply (i : Invocation) (c : Config) : Config :=
  i.given.foldl (fun c (s, text) => ((s.kind.ofArgument? text).getD id) c) c

end Invocation
end RestSql
