import SdkCatalog.Text.Basic
import SdkCatalog.Text.Quoted

/-! The grammar of a command line: options with and without a value, which may stand anywhere and
may be shortened, and at most one operand. Words are marked as options, operands or the double
dash first, and taken one after another then; words that nothing takes are left over. -/

namespace SdkCatalog.Command

inductive Operand where
  /-- One word, which must be there. -/
  | one (name : String)
  | optional
  /-- A word and everything after it, which must be there. -/
  | everything (name : String)
  deriving DecidableEq

/-- A grammar: the program that it belongs to, the spellings of its options, which options take a
value, which end the reading at once, and the operand. -/
structure Grammar (κ : Type) where
  program : String
  spellings : List (String × κ)
  takesValue : κ → Bool
  stops : κ → Bool
  operand : Option Operand

/-- Why a command line is refused. -/
inductive Reason where
  | ambiguous (word : String) (candidates : List String)
  /-- An option without a value is given one. -/
  | ignoredValue (option value : String)
  | missingValue (option : String)
  | missingOperand (name : String)
  /-- An operand is none of the words that are allowed. -/
  | notAmong (name word : String) (allowed : List String)
  | leftOver (words : List String)
  deriving DecidableEq

def Reason.message : Reason → String
  | ambiguous word candidates =>
    s!"ambiguous option: {word} could match " ++ ", ".intercalate candidates
  | ignoredValue option value =>
    s!"argument {option}: ignored explicit argument {Text.quoted value}"
  | missingValue option => s!"argument {option}: expected one argument"
  | missingOperand name => s!"the following arguments are required: {name}"
  | notAmong name word allowed =>
    s!"argument {name}: invalid choice: {Text.quoted word} (choose from " ++
      ", ".intercalate (allowed.map Text.quoted) ++ ")"
  | leftOver words => "unrecognized arguments: " ++ " ".intercalate words

/-- A refused command line, and the program that refuses it. -/
structure Refusal where
  program : String
  reason : Reason
  deriving DecidableEq

def Refusal.message (refusal : Refusal) : String :=
  s!"{refusal.program}: error: {refusal.reason.message}"

/-- The value attached to an option in one word. -/
structure Attached where
  /-- It stands after an equals sign. -/
  afterEquals : Bool
  text : List Char
  deriving DecidableEq

inductive Reading (κ : Type) where
  | unknown
  /-- An option, as it is spelled in full, with the value attached to it. -/
  | option (key : κ) (spelling : String) (attached : Option Attached)

/-- What a word of a command line counts as. -/
inductive Mark (κ : Type) where
  | option (reading : Reading κ)
  | operand
  | doubleDash

/-- A word and its mark. -/
structure Word (κ : Type) where
  text : String
  mark : Mark κ

def Word.isOption {κ : Type} (word : Word κ) : Bool :=
  word.mark matches .option _

namespace Grammar

variable {κ : Type}

def find? (grammar : Grammar κ) (spelling : String) : Option κ :=
  (grammar.spellings.find? (·.1 = spelling)).map (·.2)

def splitAtEquals (cs : List Char) : List Char × Option (List Char) :=
  match cs.dropWhile (· != '=') with
  | [] => (cs, none)
  | _ :: rest => (cs.takeWhile (· != '='), some rest)

/-- The options that a word starting with two dashes may stand for: those that the text before an
equals sign is the beginning of. -/
def longCandidates (grammar : Grammar κ) (cs : List Char) : List (String × Reading κ) :=
  let (start, value?) := splitAtEquals cs
  (grammar.spellings.filter fun (spelling, _) => Text.startsWith start spelling.toList).map
    fun (spelling, key) => (spelling, .option key spelling (value?.map (⟨true, ·⟩)))

/-- The options that a word starting with one dash may stand for: the one of its first letter, with
the rest attached, and those that it is the beginning of. -/
def shortCandidates (grammar : Grammar κ) (cs : List Char) : List (String × Reading κ) :=
  grammar.spellings.filterMap fun (spelling, key) =>
    if spelling.toList = cs.take 2 then
      some (spelling, .option key spelling (some ⟨false, cs.drop 2⟩))
    else if Text.startsWith cs spelling.toList then some (spelling, .option key spelling none)
    else none

def candidates (grammar : Grammar κ) (cs : List Char) : List (String × Reading κ) :=
  match cs with
  | _ :: '-' :: _ => grammar.longCandidates cs
  | _ => grammar.shortCandidates cs

def allDigits (cs : List Char) : Bool :=
  !cs.isEmpty && cs.all Text.isDigit

/-- The word is a negative number: a dash and digits, or a dash and a decimal with digits after the
point. One line feed at the end is overlooked. -/
def isNegativeNumber (cs : List Char) : Bool :=
  match if cs.getLast? = some '\n' then cs.dropLast else cs with
  | '-' :: rest =>
    allDigits rest ||
      match rest.dropWhile Text.isDigit with
      | '.' :: decimals => allDigits decimals
      | _ => false
  | _ => false

/-- The mark of a word before any double dash. A word with a dash in front is an operand only if it
is a single dash, a negative number or holds a space, and is no option. -/
def markOf (grammar : Grammar κ) (word : String) : Except Refusal (Mark κ) :=
  let cs := word.toList
  match cs with
  | '-' :: _ :: _ =>
    match grammar.find? word with
    | some key => .ok (.option (.option key word none))
    | none =>
      let (start, value?) := splitAtEquals cs
      match value?, grammar.find? (String.ofList start) with
      | some value, some key =>
        .ok (.option (.option key (String.ofList start) (some ⟨true, value⟩)))
      | _, _ =>
        match grammar.candidates cs with
        | [(_, reading)] => .ok (.option reading)
        | [] =>
          if isNegativeNumber cs || cs.contains ' ' then .ok .operand
          else .ok (.option .unknown)
        | several => .error ⟨grammar.program, .ambiguous word (several.map (·.1))⟩
  | _ => .ok .operand

/-- The words of a command line with their marks. After a double dash all are operands. -/
def marks (grammar : Grammar κ) : List String → Except Refusal (List (Word κ))
  | [] => .ok []
  | word :: rest =>
    if word = "--" then .ok (⟨word, .doubleDash⟩ :: rest.map (⟨·, .operand⟩))
    else do
      let mark ← grammar.markOf word
      let marked ← grammar.marks rest
      return ⟨word, mark⟩ :: marked

/-- The name of an option in messages: its spellings. -/
def optionName [BEq κ] (grammar : Grammar κ) (key : κ) : String :=
  "/".intercalate ((grammar.spellings.filter (·.2 == key)).map (·.1))

/-- What the words of a command line have given so far. -/
structure Taken (κ : Type) where
  /-- The options and their values, in order. -/
  options : List (κ × Option String) := []
  operand : Option (List String) := none
  leftOver : List String := []

/-- What an option word gives: options, words left over, and how many of the words after it are
taken as a value. -/
abbrev Given (κ : Type) := List (κ × Option String) × List String × Nat

section Option

variable [BEq κ]

/-- An option without a value attached. -/
def plainOption (grammar : Grammar κ) (key : κ) (following : List (Word κ)) :
    Except Refusal (Given κ) :=
  if grammar.takesValue key then
    match following with
    | ⟨value, .operand⟩ :: _ => .ok ([(key, some value)], [], 1)
    | _ => .error ⟨grammar.program, .missingValue (grammar.optionName key)⟩
  else .ok ([(key, none)], [], 0)

/-- An option with a text attached. When it takes no value and is a letter, the text names further
letters. -/
def attachedOption (grammar : Grammar κ) (following : List (Word κ)) (key : κ)
    (letter afterEquals : Bool) (text : List Char) : Except Refusal (Given κ) :=
  if grammar.takesValue key then .ok ([(key, some (String.ofList text))], [], 0)
  else
    match text with
    | [] => .error ⟨grammar.program, .ignoredValue (grammar.optionName key) ""⟩
    | next :: rest =>
      if !letter || afterEquals || next == '-' then
        .error
          ⟨grammar.program, .ignoredValue (grammar.optionName key) (String.ofList (next :: rest))⟩
      else
        match grammar.find? (String.ofList ['-', next]) with
        | none => .ok ([(key, none)], [String.ofList ('-' :: next :: rest)], 0)
        | some other => do
          let (options, leftOver, count) ←
            if rest.isEmpty then grammar.plainOption other following
            else if rest.head? = some '=' then
              grammar.attachedOption following other true true (rest.drop 1)
            else grammar.attachedOption following other true false rest
          return ((key, none) :: options, leftOver, count)
termination_by text.length
decreasing_by all_goals simp only [List.length_drop, List.length_cons]; omega

def optionWord (grammar : Grammar κ) (word : String) (reading : Reading κ)
    (following : List (Word κ)) : Except Refusal (Given κ) :=
  match reading with
  | .unknown => .ok ([], [word], 0)
  | .option key _ none => grammar.plainOption key following
  | .option key spelling (some attached) =>
    let letter := spelling.toList[1]? != some '-'
    grammar.attachedOption following key letter attached.afterEquals attached.text

end Option

/-- How many of the words an operand takes; a double dash before or after it is taken along. -/
def operandSize (operand : Operand) (words : List (Word κ)) : Option Nat :=
  let before := (words.takeWhile (·.mark matches .doubleDash)).length
  let rest := words.drop before
  let after := fun (words : List (Word κ)) =>
    (words.takeWhile (·.mark matches .doubleDash)).length
  match operand, rest with
  | .everything _, ⟨_, .operand⟩ :: _ => some words.length
  | .one _, ⟨_, .operand⟩ :: more => some (before + 1 + after more)
  | .optional, ⟨_, .operand⟩ :: more => some (before + 1 + after more)
  | .optional, _ => some before
  | _, _ => none

/-- The words that an operand stands for: a double dash that goes with it is left out, unless the
operand is everything. -/
def operandWords (operand : Operand) (words : List String) : List String :=
  match operand with
  | .everything _ => words
  | _ => words.erase "--"

/-- What the operand takes from words, if it is not yet taken. -/
def takeOperand (grammar : Grammar κ) (taken : Taken κ) (words : List (Word κ)) :
    Taken κ × Nat :=
  match grammar.operand, taken.operand with
  | some operand, none =>
    match operandSize operand words with
    | some size =>
      let texts := (words.take size).map (·.text)
      ({ taken with operand := some (operandWords operand texts) }, size)
    | none => (taken, 0)
  | _, _ => (taken, 0)

/-- An option that ends the reading is taken. -/
def isStopped (grammar : Grammar κ) (taken : Taken κ) : Bool :=
  taken.options.any fun (key, _) => grammar.stops key

/-- Takes the words of a command line one after another. -/
def walk [BEq κ] (grammar : Grammar κ) (taken : Taken κ) :
    List (Word κ) → Except Refusal (Taken κ)
  | [] => .ok (grammar.takeOperand taken []).1
  | word :: rest =>
    if (word :: rest).any Word.isOption then
      match word.mark with
      | .option reading => do
        let (options, leftOver, count) ← grammar.optionWord word.text reading rest
        let taken := { taken with
          options := taken.options ++ options
          leftOver := taken.leftOver ++ leftOver }
        if grammar.isStopped taken then return taken else grammar.walk taken (rest.drop count)
      | _ =>
        match grammar.takeOperand taken (word :: rest) with
        | (taken, size + 1) => grammar.walk taken (rest.drop size)
        | (taken, 0) =>
          grammar.walk { taken with leftOver := taken.leftOver ++ [word.text] } rest
    else
      let (taken, size) := grammar.takeOperand taken (word :: rest)
      .ok { taken with
        leftOver := taken.leftOver ++ ((word :: rest).drop size).map (·.text) }
termination_by words => words.length
decreasing_by all_goals simp only [List.length_drop, List.length_cons]; omega

def requiredOperand (grammar : Grammar κ) : Option String :=
  match grammar.operand with
  | some (.one name) | some (.everything name) => some name
  | _ => none

/-- What a command line gives. An operand that must be there is missed only at the end. -/
def take [BEq κ] (grammar : Grammar κ) (words : List String) : Except Refusal (Taken κ) := do
  let taken ← grammar.walk {} (← grammar.marks words)
  if grammar.isStopped taken || taken.operand.isSome then return taken
  else
    match grammar.requiredOperand with
    | some name => .error ⟨grammar.program, .missingOperand name⟩
    | none => return taken

end Grammar

end SdkCatalog.Command
