import TinyLang.Text.Integer
import TinyLang.Text.Quoted

/-!
# Flags of commands

Flags stand before the other arguments of a command, with one dash or two. A switch may have a value
behind an equality sign; any other flag has its value there or in the argument that follows. Two
dashes alone end the flags. Switches of one letter may be written together behind one dash. A flag
that is given more than once has its last value, but may not be given in both of its forms.
-/

namespace TinyLang.Command

/-- What values a flag takes. -/
inductive FlagKind
  | switch
  | text (byDefault : Text)
  | integer
  | texts
deriving DecidableEq, Repr

/-- A flag of a command. -/
structure Flag where
  name : Text
  /-- The short form. -/
  short : Option Text
  usage : Text
  kind : FlagKind
  /-- Whether the help tells what the flag is if it is not given. -/
  tellsDefault : Bool := true
deriving DecidableEq, Repr

namespace Flag

/-- The forms of a flag. -/
def names (f : Flag) : List Text := f.name :: f.short.toList

/-- Whether a flag needs a value. -/
def takesValue (f : Flag) : Bool := f.kind != .switch

end Flag

/-- A form of a flag as it is typed: behind two dashes, or behind one if it is a single letter. -/
def typedForm (name : Text) : Text := (if name.length = 1 then "-" else "--" : Text) ++ name

/-- The flag of a name. -/
def flagNamed? (flags : List Flag) (name : Text) : Option Flag :=
  flags.find? fun f => f.names.contains name

/-! ## Errors -/

/-- What is wrong with the flags of a command. -/
inductive UsageError
  | badSyntax (argument : Text)
  | unknownFlag (name : Text)
  | missingValue (name : Text)
  | badSwitch (value name : Text)
  | badInteger (value name : Text) (fault : IntegerFault)
  | twoForms (second first : Text)
deriving DecidableEq, Repr

/-- The wording of an error. -/
def UsageError.message : UsageError → Text
  | badSyntax a => "bad flag syntax: " ++ a
  | unknownFlag n => "flag provided but not defined: -" ++ n
  | missingValue n => "flag needs an argument: -" ++ n
  | badSwitch v n => "invalid boolean value " ++ v.quoted ++ " for -" ++ n ++ ": parse error"
  | badInteger v n .malformed => "invalid value " ++ v.quoted ++ " for flag -" ++ n ++ ": parse error"
  | badInteger v n .outOfRange =>
    "invalid value " ++ v.quoted ++ " for flag -" ++ n ++ ": value out of range"
  | twoForms second first => "Cannot use two forms of the same flag: " ++ second ++ " " ++ first

/-! ## Values -/

/-- The value of a flag. -/
inductive FlagValue
  | switch (on : Bool)
  | text (t : Text)
  | integer (n : Int)
deriving DecidableEq, Repr

/-- The words for a truth value. -/
def switchOf? (t : Text) : Option Bool :=
  if ["1", "t", "T", "TRUE", "true", "True"].any fun w => Text.ofString w = t then some true
  else if ["0", "f", "F", "FALSE", "false", "False"].any fun w => Text.ofString w = t then some false
  else none

/-- The value that a text gives a flag, which was called by `name`. -/
def readValue (kind : FlagKind) (name t : Text) : Except UsageError FlagValue :=
  match kind with
  | .switch =>
    match switchOf? t with
    | some on => .ok (.switch on)
    | none => .error (.badSwitch t name)
  | .integer =>
    match t.readInt64 true with
    | .ok n => .ok (.integer n.toInt)
    | .error fault => .error (.badInteger t name fault)
  | .text _ => .ok (.text t)
  | .texts => .ok (.text t)

/-- A flag as it was given: the flag's name, the form that was used, and the value. -/
structure Use where
  flag : Text
  form : Text
  value : FlagValue
deriving DecidableEq, Repr

/-- The flags that were given, newest first. -/
abbrev Given := List Use

namespace Given

/-- The value that counts. -/
def value? (g : Given) (flag : Text) : Option FlagValue :=
  (g.find? fun u => u.flag = flag).map Use.value

/-- Whether a switch is on. -/
def isOn (g : Given) (flag : Text) : Bool := g.value? flag == some (.switch true)

/-- The text given for a flag, or else one that stands for it. -/
def textOr (g : Given) (flag byDefault : Text) : Text :=
  match g.value? flag with
  | some (.text t) => t
  | _ => byDefault

/-- The text given for a flag, empty if there is none. -/
def text (g : Given) (flag : Text) : Text := g.textOr flag []

/-- The integer given for a flag. -/
def integer? (g : Given) (flag : Text) : Option Int :=
  match g.value? flag with
  | some (.integer n) => some n
  | _ => none

end Given

/-! ## Reading arguments -/

/-- What the first argument turns out to be. -/
inductive Taken
  /-- No flag: the arguments from here on are not flags. -/
  | finished (rest : List Text)
  | flag (use : Use) (rest : List Text)
  | failed (e : UsageError)

/-- The name of a flag in an argument without its dashes, and the value behind an equality sign. -/
def cutValue : Text → Text × Option Text
  | [] => ([], none)
  | b :: r =>
    match Text.cut? (Text.byte '=') r with
    | some (name, value) => (b :: name, some value)
    | none => (b :: r, none)

/-- Takes a flag with the name and value that stand in its argument. -/
def takeNamed (flags : List Flag) (name : Text) (value : Option Text) (rest : List Text) : Taken :=
  match flagNamed? flags name with
  | none => .failed (.unknownFlag name)
  | some f =>
    let finish := fun (t : Text) (rest : List Text) =>
      match readValue f.kind name t with
      | .ok v => .flag ⟨f.name, name, v⟩ rest
      | .error e => .failed e
    match value, f.takesValue, rest with
    | some t, _, _ => finish t rest
    | none, false, _ => finish "true" rest
    | none, true, t :: rest => finish t rest
    | none, true, [] => .failed (.missingValue name)

/-- Takes the first argument. -/
def takeFlag (flags : List Flag) : List Text → Taken
  | [] => .finished []
  | arg :: rest =>
    match arg with
    | dash :: second :: more =>
      if dash != Text.byte '-' then .finished (arg :: rest)
      else if second = dash && more.isEmpty then .finished rest
      else
        let body : Text := if second = dash then more else second :: more
        if body.head?.all fun b => b = dash || b = Text.byte '=' then .failed (.badSyntax arg)
        else
          let (name, value) := cutValue body
          takeNamed flags name value rest
    | _ => .finished (arg :: rest)

/-- Reads flags until there is none left. -/
def takeFlags (flags : List Flag) :
    (fuel : Nat) → Given → List Text → Given × Except UsageError (List Text)
  | 0, given, args => (given, .ok args)
  | fuel + 1, given, args =>
    match takeFlag flags args with
    | .finished rest => (given, .ok rest)
    | .failed e => (given, .error e)
    | .flag use rest => takeFlags flags fuel (use :: given) rest

/-- The short flags that an argument with one dash joins, if all of them exist. -/
def splitShort? (flags : List Flag) (arg : Text) : Option (List Text) :=
  match arg with
  | dash :: second :: _ :: _ =>
    if dash != Text.byte '-' || second = dash then none
    else
      let letters := (Text.runes (arg.drop 1)).map Rune.bytes
      if letters.all fun l => (flagNamed? flags l).isSome then
        some (letters.map fun l => Text.byte '-' :: l)
      else none
  | _ => none

/-- Splits the first argument that reads as an unknown flag, and gives the arguments from there. -/
def resplit? (flags : List Flag) (name : Text) : List Text → Option (List Text)
  | [] => none
  | arg :: rest =>
    if arg.dropWhile (· = Text.byte '-') = name then (splitShort? flags arg).map (· ++ rest)
    else resplit? flags name rest

/-- Reads flags, splitting joined ones when they are met. -/
def takeSplitting (flags : List Flag) :
    (fuel : Nat) → Given → List Text → Except UsageError (Given × List Text)
  | 0, given, args => .ok (given, args)
  | fuel + 1, given, args =>
    match takeFlags flags (args.length + 1) given args with
    | (given, .ok rest) => .ok (given, rest)
    | (given, .error (.unknownFlag name)) =>
      match resplit? flags name args with
      | some args => takeSplitting flags fuel given args
      | none => .error (.unknownFlag name)
    | (_, .error e) => .error e

/-- The first flag that is given in both of its forms. -/
def twoForms? (flags : List Flag) (given : Given) : Option UsageError :=
  flags.findSome? fun f =>
    let used := fun (form : Text) => given.any fun u => u.form = form
    match f.short with
    | some short => if used f.name && used short then some (.twoForms short f.name) else none
    | none => none

/-- Reads the flags of a command, and gives the arguments behind them. -/
def readFlags (flags : List Flag) (args : List Text) : Except UsageError (Given × List Text) :=
  match takeSplitting flags (args.flatten.length + 1) [] args with
  | .error e => .error e
  | .ok (given, rest) =>
    match twoForms? flags given with
    | some e => .error e
    | none => .ok (given, rest)

end TinyLang.Command
