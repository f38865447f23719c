import SolidModel.Numeral.Reading

/-!
# The command line of the demonstration

Options are `--m`, `--length`, `--segments` and `--output`, each followed by its value or joined
to it by `=`, and `--help` or `-h`, which have none. A long option may be cut short where only one
begins like that. What looks like a negative number is a value. The last of several values for an
option counts.

A lone `--` ends the options. There are no arguments other than options and their values, so it is
one too many itself, like everything behind it, and no option finds its value there.

Arguments are first sorted into tokens and then taken from left to right, so a request for help
wins over whatever follows it.
-/

namespace SolidModel.CommandLine

/-- The options with their long names. -/
inductive Setting where
  | help
  | m
  | length
  | segments
  | output
  deriving DecidableEq

/-- What the demonstration is asked for. -/
structure Settings where
  m : Int := 8
  length : Float := 20.0
  segments : Int := 32
  output : Option String := none

/-- What the arguments ask for. -/
inductive Request where
  | run (settings : Settings)
  | help
  | unusable

/-- What an argument is taken for. -/
inductive Token where
  | option (name : Setting) (attached : Option String)
  /-- The letters behind a single minus, of which the first is `h`. -/
  | letters (cs : List Char)
  | word (text : String)
  | separator
  /-- An option that begins like none or like several of those there are. -/
  | unknown
  | ambiguous

/-- The long names. -/
def names : List (String × Setting) :=
  [("--help", .help), ("--m", .m), ("--length", .length), ("--segments", .segments),
    ("--output", .output)]

/-- The text before the first `=` and, if there is one, the text behind it. -/
def splitAtEquals (cs : List Char) : List Char × Option (List Char) :=
  match cs.dropWhile (· != '=') with
  | [] => (cs, none)
  | _ :: behind => (cs.takeWhile (· != '='), some behind)

/-- A minus, then digits, or digits around a point with at least one behind it; the line may be
ended. -/
def looksNegative (cs : List Char) : Bool :=
  let isDigit (c : Char) : Bool := (Text.digitValue? c).isSome
  let line := if cs.getLast? = some '\n' then cs.dropLast else cs
  match line with
  | '-' :: rest =>
    match rest.dropWhile isDigit with
    | [] => !rest.isEmpty
    | '.' :: places => !places.isEmpty && places.all isDigit
    | _ => false
  | _ => false

/-- The options that a name stands for: the one that is called so, or else all that begin so. -/
def candidates (name : List Char) : List Setting :=
  match names.lookup (String.ofList name) with
  | some option => [option]
  | none => (names.filter fun (long, _) => name.isPrefixOf long.toList).map Prod.snd

/-- Sorts one argument that stands before any separator. -/
def token (argument : String) : Token :=
  let cs := argument.toList
  match cs with
  | ['-', '-'] => .separator
  | '-' :: '-' :: _ =>
    let (name, attached) := splitAtEquals cs
    match candidates name with
    | [option] => .option option (attached.map String.ofList)
    | [] => if cs.contains ' ' then .word argument else .unknown
    | _ => .ambiguous
  | '-' :: 'h' :: more => .letters ('h' :: more)
  | '-' :: _ :: _ => if looksNegative cs || cs.contains ' ' then .word argument else .unknown
  | _ => .word argument

/-- Sorts all arguments; behind a separator there are only words. -/
def tokens : List String → List Token
  | [] => []
  | argument :: rest =>
    match token argument with
    | .separator => .separator :: rest.map .word
    | t => t :: tokens rest

/-- The settings with one option given, if its value can be read. -/
def Settings.assign (s : Settings) (option : Setting) (value : String) : Option Settings :=
  match option with
  | .help => none
  | .m => (Numeral.readInt? value).map fun m => { s with m }
  | .length => (Numeral.readFloat? value).map fun length => { s with length }
  | .segments => (Numeral.readInt? value).map fun segments => { s with segments }
  | .output => some { s with output := some value }

/-- Do letters behind a single minus ask for help? Each `h` does; another letter is one too many,
but help is given before that is noticed. A value or another option must not be joined to them. -/
def asksForHelp : List Char → Bool
  | [] => true
  | 'h' :: '=' :: _ => false
  | 'h' :: rest => asksForHelp rest
  | c :: _ => c != '-'

/-- Takes the tokens from left to right; `stray` says that one was left over. -/
def Settings.take (s : Settings) (stray : Bool) : List Token → Request
  | [] => if stray then .unusable else .run s
  | .letters cs :: _ => if asksForHelp cs then .help else .unusable
  | .option .help none :: _ => .help
  | .option .help (some _) :: _ => .unusable
  | .option name (some value) :: rest
  | .option name none :: .word value :: rest =>
    match s.assign name value with
    | some given => given.take stray rest
    | none => .unusable
  | .option _ none :: _ => .unusable
  | _ :: rest => s.take true rest

/-- What the arguments ask for. -/
def parse (arguments : List String) : Request :=
  let ts := tokens arguments
  if ts.any fun t => match t with | .ambiguous => true | _ => false then .unusable
  else Settings.take {} false ts

end SolidModel.CommandLine
