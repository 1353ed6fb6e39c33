/-! Command lines: what a user asks for, and how the arguments say it. -/

namespace Slideshow

/-- What is to be done. -/
inductive Command
  | build (paths : List String) (out : Option String) (watch : Bool)
  | render (file : String) (raw : Bool)
  | validate (files : List String)
  deriving DecidableEq, Repr

/-- A command with the options that every command has. -/
structure Invocation where
  quiet : Bool := false
  verbose : Bool := false
  settings : String := "slidedeck.json"
  command : Command
  deriving DecidableEq, Repr

/-- Why arguments are no invocation: they are wrong, or they ask for a text instead. -/
inductive Stop
  | usage
  | help
  | version
  deriving DecidableEq, Repr

namespace CommandLine

/-- The options of a command, or of what comes before it, and how many other arguments there may be
if they are limited. -/
structure Options where
  switches : List String
  valued : List String
  hasVersion : Bool := false
  maxOthers : Option Nat := none

/-- Options and other arguments as they were given. -/
structure Given where
  switches : List String := []
  values : List (String × String) := []
  others : List String := []

namespace Given

/-- A switch can be given once. -/
def addSwitch (g : Given) (name : String) : Except Stop Given :=
  if g.switches.contains name then .error .usage
  else .ok { g with switches := name :: g.switches }

/-- An option can be given once, and the path of the settings is not empty. -/
def addValue (g : Given) (name value : String) : Except Stop Given :=
  if (g.values.lookup name).isSome then .error .usage
  else if name = "config" ∧ value = "" then .error .usage
  else .ok { g with values := (name, value) :: g.values }

/-- An argument past the limit is wrong, whatever comes after it. -/
def addOther (g : Given) (limit : Option Nat) (text : String) : Except Stop Given :=
  if limit.any (· ≤ g.others.length) then .error .usage
  else .ok { g with others := g.others ++ [text] }

end Given

/-- The name and, after an equals sign, the value of a long option. -/
def splitOption (cs : List Char) : String × Option String :=
  match cs.dropWhile (· ≠ '=') with
  | [] => (String.ofList cs, none)
  | _ :: value => (String.ofList (cs.takeWhile (· ≠ '=')), some (String.ofList value))

/-- Whether an argument can be the value of the option in front of it: a lone dash can. -/
def isValue (text : String) : Bool :=
  match text.toList with
  | '-' :: _ :: _ => false
  | _ => true

/-- What a cluster of short options asks for. -/
def Options.short (o : Options) : Char → Stop
  | 'h' => .help
  | 'V' => if o.hasVersion then .version else .usage
  | _ => .usage

/-- Reads arguments from left to right up to the first one that is wrong or asks for a text. At the
top level the first one that is no option ends them, with what follows; two dashes end the
options. -/
def Options.read (o : Options) (top : Bool) (g : Given) :
    List String → Except Stop (Given × List String)
  | [] => .ok (g, [])
  | arg :: rest =>
    match arg.toList with
    | ['-', '-'] =>
      if top then .error .usage
      else do return (← rest.foldlM (·.addOther o.maxOthers ·) g, [])
    | '-' :: '-' :: body =>
      let (name, value?) := splitOption body
      match value? with
      | none =>
        if name = "help" then .error .help
        else if name = "version" ∧ o.hasVersion then .error .version
        else if o.switches.contains name then do o.read top (← g.addSwitch name) rest
        else if o.valued.contains name then
          match rest with
          | value :: rest =>
            if isValue value then do o.read top (← g.addValue name value) rest
            else .error .usage
          | [] => .error .usage
        else .error .usage
      | some value =>
        if o.valued.contains name then do o.read top (← g.addValue name value) rest
        else .error .usage
    | '-' :: letter :: _ => .error (o.short letter)
    | _ =>
      if top then .ok (g, arg :: rest)
      else do o.read top (← g.addOther o.maxOthers arg) rest

/-- The options that can stand anywhere. -/
def globalOptions : Options where
  switches := ["quiet", "verbose"]
  valued := ["config"]

/-- The options in front of the command. -/
def topOptions : Options := { globalOptions with hasVersion := true }

/-- The options of the command with the given name. -/
def optionsOf? (command : String) : Option Options :=
  if command = "build" then
    some { globalOptions with switches := "watch" :: globalOptions.switches,
                              valued := "out" :: globalOptions.valued }
  else if command = "render" then
    some { globalOptions with switches := "raw" :: globalOptions.switches, maxOthers := some 1 }
  else if command = "validate" then some globalOptions
  else none

/-- The command that is meant by its name and by what is given after it. -/
def commandOf (name : String) (g : Given) : Except Stop Command :=
  if name = "build" then
    let paths := if g.others.isEmpty then ["."] else g.others
    .ok (.build paths (g.values.lookup "out") (g.switches.contains "watch"))
  else if name = "render" then
    match g.others with
    | [file] => .ok (.render file (g.switches.contains "raw"))
    | _ => .error .usage
  else .ok (.validate g.others)

/-- Whether arguments after `help` name a command or nothing. -/
def isHelpTopic : List String → Bool
  | [] => true
  | [name] => name == "help" || (optionsOf? name).isSome
  | _ => false

/-- The invocation that arguments write. An option given after the command counts more than the same
one in front of it. -/
def parse (arguments : List String) : Except Stop Invocation := do
  let (before, rest) ← topOptions.read true {} arguments
  match rest with
  | [] => throw .usage
  | name :: rest =>
    if name = "help" then throw (if isHelpTopic rest then .help else .usage)
    match optionsOf? name with
    | none => throw .usage
    | some options =>
      let (after, _) ← options.read false {} rest
      let command ← commandOf name after
      let defaults : Invocation := { command }
      return {
        quiet := before.switches.contains "quiet" || after.switches.contains "quiet"
        verbose := before.switches.contains "verbose" || after.switches.contains "verbose"
        settings :=
          ((after.values.lookup "config").or (before.values.lookup "config")).getD
            defaults.settings
        command }

end CommandLine

end Slideshow
