/-!
# Words of a command line

The words after the name of a command are operands and options.  An option has a name,
and perhaps a letter, by which it is given; some options take a value, which is the next
word or is attached to the option.  `Signature.scan` sorts out the words that a
`Signature` allows, and looks at the value of an option when the option is complete and
something follows it.
-/

namespace CorpusAudit.Command

/-- Why a command line is not run. -/
inductive Refusal where
  /-- It asks for help. -/
  | help
  /-- It asks for the version. -/
  | version
  /-- Its words make no command. -/
  | usage
deriving DecidableEq, Repr

/-- What an option does. -/
inductive Effect where
  /-- It is either given or not. -/
  | switch
  /-- It takes a value, but not every text. -/
  | value (accepts : String → Bool)
  /-- It ends the reading of the command line. -/
  | stop (refusal : Refusal)

/-- An option that a command line may have. -/
structure OptionRule where
  name : String
  letter : Option Char
  effect : Effect

/-- What may follow the name of a command. -/
structure Signature where
  /-- How many operands there may be. -/
  operands : Nat
  options : List OptionRule

/-- The words that were given: operands in their order, and options with their values; a
switch has the empty value. -/
structure Given where
  operands : List String
  options : List (String × String)
deriving DecidableEq, Repr

namespace Given

/-- Nothing was given. -/
def empty : Given :=
  ⟨[], []⟩

/-- Whether an option was given. -/
def has (g : Given) (name : String) : Bool :=
  g.options.any (·.1 = name)

/-- The value that was given for an option. -/
def find? (g : Given) (name : String) : Option String :=
  (g.options.find? (·.1 = name)).map (·.2)

/-- One option more; none is given twice. -/
def addOption (g : Given) (name value : String) : Except Refusal Given :=
  if g.has name then .error .usage
  else .ok { g with options := g.options ++ [(name, value)] }

/-- An option with its value. -/
def addValue (g : Given) (rule : OptionRule) (value : String) : Except Refusal Given :=
  match rule.effect with
  | .value accepts => if accepts value then g.addOption rule.name value else .error .usage
  | _ => .error .usage

/-- One operand more; no operand is empty. -/
def addOperand (g : Given) (word : String) : Except Refusal Given :=
  if word = "" then .error .usage else .ok { g with operands := g.operands ++ [word] }

end Given

/-! ### Typed options -/

/-- An option whose value is read as a value of some type. -/
structure Setting (α : Type) where
  name : String
  letter : Option Char := none
  read : String → Option α

namespace Setting

variable {α : Type}

/-- The option of a setting takes the texts that can be read. -/
def rule (s : Setting α) : OptionRule :=
  ⟨s.name, s.letter, .value fun text => (s.read text).isSome⟩

/-- The value of a setting, if it was given. -/
def value? (s : Setting α) (g : Given) : Option α :=
  (g.find? s.name).bind s.read

end Setting

/-! ### Kinds of words -/

/-- A word by the hyphens it starts with. -/
inductive Word where
  /-- Two hyphens and nothing else: only operands follow. -/
  | separator
  /-- Two hyphens and a name, and a value behind an equals sign, if there is one. -/
  | long (name : String) (value : Option String)
  /-- A hyphen and letters. -/
  | letters (cs : List Char)
  | plain
deriving DecidableEq, Repr

/-- The kind of a word; a single hyphen is plain. -/
def Word.of (word : String) : Word :=
  match word.toList with
  | ['-', '-'] => .separator
  | '-' :: '-' :: cs =>
    let name := String.ofList (cs.takeWhile (· ≠ '='))
    match cs.dropWhile (· ≠ '=') with
    | [] => .long name none
    | _ :: value => .long name (some (String.ofList value))
  | '-' :: c :: cs => .letters (c :: cs)
  | _ => .plain

/-! ### Scanning -/

/-- How far a command line was read. -/
structure Progress where
  given : Given
  /-- The option that came last, with its value once that has come; both have still to
  be looked at. -/
  last : Option (OptionRule × Option String)
  /-- Whether only operands may follow. -/
  closed : Bool

namespace Progress

/-- Nothing was read. -/
def start : Progress :=
  ⟨.empty, none, false⟩

/-- What was given, the last option included. -/
def settle (p : Progress) : Except Refusal Given :=
  match p.last with
  | none => .ok p.given
  | some (rule, some value) => p.given.addValue rule value
  | some (_, none) => .error .usage

end Progress

namespace Signature

/-- The option with the given name. -/
def named (s : Signature) (name : String) : Except Refusal OptionRule :=
  match s.options.find? (·.name = name) with
  | some rule => .ok rule
  | none => .error .usage

/-- The option with the given letter. -/
def lettered (s : Signature) (letter : Char) : Except Refusal OptionRule :=
  match s.options.find? (·.letter = some letter) with
  | some rule => .ok rule
  | none => .error .usage

/-- An option that is given by its name, perhaps with a value. -/
def takeLong (s : Signature) (g : Given) (name : String) (value : Option String) :
    Except Refusal Progress := do
  let rule ← s.named name
  match rule.effect, value with
  | .stop refusal, none => .error refusal
  | .switch, none => return ⟨← g.addOption rule.name "", none, false⟩
  | .value _, some value => return ⟨← g.addValue rule value, none, false⟩
  | .value _, none => return ⟨g, some (rule, none), false⟩
  | _, some _ => .error .usage

/-- Options that are given by their letters; what follows the letter of an option with a
value is the value. -/
def takeLetters (s : Signature) (g : Given) : List Char → Except Refusal Progress
  | [] => .ok ⟨g, none, false⟩
  | c :: cs => do
    let rule ← s.lettered c
    match rule.effect, cs with
    | .stop refusal, _ => .error refusal
    | .switch, cs => takeLetters s (← g.addOption rule.name "") cs
    | .value _, [] => return ⟨g, some (rule, none), false⟩
    | .value _, '=' :: cs => return ⟨← g.addValue rule (String.ofList cs), none, false⟩
    | .value _, cs => return ⟨← g.addValue rule (String.ofList cs), none, false⟩

/-- Read words up to one that is an operand too many; the result is how far they were
read, and the words that are left. -/
def scan (s : Signature) : Progress → List String → Except Refusal (Progress × List String)
  | p, [] => .ok (p, [])
  | p, word :: words =>
    let operand : Except Refusal (Progress × List String) :=
      if p.given.operands.length < s.operands then do
        let g ← (← p.settle).addOperand word
        scan s ⟨g, none, p.closed⟩ words
      else .ok (p, word :: words)
    if p.closed then operand
    else match Word.of word with
      | .separator => scan s { p with closed := true } words
      | .long name value => do
        scan s (← s.takeLong (← p.settle) name value) words
      | .letters cs => do
        scan s (← s.takeLetters (← p.settle) cs) words
      | .plain => match p.last with
        | some (rule, none) => scan s { p with last := some (rule, some word) } words
        | _ => operand

/-- Read all words. -/
def read (s : Signature) (words : List String) : Except Refusal Given := do
  let (p, rest) ← s.scan .start words
  if rest.isEmpty then p.settle else .error .usage

end Signature

end CorpusAudit.Command
