import SdkCatalog.Number.Basic
import SdkCatalog.Text.Basic

/-! What a line of a source declares, with the documentation comment that is attached to it. -/

namespace SdkCatalog

/-! ### Documentation comments

The documentation comment of a declaration: the block comment that closes on the line directly
above it and opens at the nearest line above that begins one. -/

namespace DocComment

open Text

/-- A line that begins a documentation comment. -/
def opens (line : List Char) : Bool :=
  startsWith "/**".toList (trim line)

/-- A line that ends a comment. -/
def closes (line : List Char) : Bool :=
  endsWith "*/".toList (trim line)

/-- The lines, listed upwards, as far as the nearest one that begins a comment. -/
def upToOpening? : List (List Char) → Option (List (List Char))
  | [] => none
  | line :: above => if opens line then some [line] else (upToOpening? above).map (line :: ·)

/-- The comment that ends on the first of the lines, which are listed upwards. -/
def above? : List (List Char) → Option (List Char)
  | [] => none
  | line :: rest =>
    if closes line then
      (upToOpening? (line :: rest)).map fun block => trim (joinLines block.reverse)
    else none

/-- The comment attached to the line of an index. It closes on the line directly above; a blank
line or code in between means that there is none, and so does a comment that opens nowhere. -/
def find (lines : List (List Char)) (index : Int) : Option (List Char) :=
  if 1 ≤ index ∧ index ≤ lines.length then above? (lines.take index.toNat).reverse else none

/-- Each line of a text together with the comment attached to it, if any. -/
def attach (lines : List (List Char)) : List (List Char × Option String) :=
  lines.zipIdx.map fun (line, index) => (line, (find lines index).map String.ofList)

end DocComment

/-! ### Interfaces

The interfaces of a client class: methods declared on one line, each with its parameter names
and the comment attached to it. Of several declarations of one name the first counts. -/

/-- A method of the client class. -/
structure Interface where
  name : String
  params : List String
  doc : Option String
  deriving DecidableEq

namespace Interface

open Text

/-- The name and the parameter text of a method declared at the head of a line: a name, the
parameters between round brackets, and an opening brace. -/
def signature? (line : List Char) : Option (List Char × List Char) := do
  let (name, rest) ← identifier? (trimStart line)
  let rest ← after? ['('] (trimStart rest)
  let rest' ← after? [')'] (rest.dropWhile (· != ')'))
  let _ ← after? ['{'] (trimStart rest')
  some (name, rest.takeWhile (· != ')'))

/-- The name of the method that builds an object, which is no interface. -/
def reservedName : List Char := "constructor".toList

/-- The parameters between commas, without the blanks around them; blank ones do not count. -/
def splitParams (text : List Char) : List String :=
  (((pieces ',' text).map trim).filter (!·.isEmpty)).map String.ofList

def ofLine? (line : List Char) (doc : Option String) : Option Interface := do
  let (name, params) ← signature? line
  if name = reservedName then none
  else some ⟨String.ofList name, splitParams params, doc⟩

/-- The interfaces without those whose name an earlier one has. -/
def dedupe (interfaces : List Interface) : List Interface :=
  interfaces.foldl (fun kept next =>
    if kept.any (·.name = next.name) then kept else kept ++ [next]) []

def declarations (source : List Char) : List Interface :=
  (DocComment.attach (lines source)).filterMap fun (line, doc) => ofLine? line doc

/-- The interfaces of a source, in the order of their first declarations. -/
def ofSource (source : String) : List Interface :=
  dedupe (declarations source.toList)

end Interface

/-! ### Constants

The numeric constants of a source: static fields whose initializer is one clean numeral. The
content types and the persistence flags are both declared so. -/

structure Constant where
  name : String
  value : Number
  doc : Option String
  deriving DecidableEq

namespace Constant

open Text

/-- The name and the initializer of a static field declared at the head of a text. The initializer
ends before the first semicolon and must not be empty. -/
def field? (cs : List Char) : Option (List Char × List Char) := do
  let rest ← afterString? "static" cs
  let rest ← afterBlanks? rest
  let (name, rest) ← run? isWordChar rest
  let rest ← after? ['='] (trimStart rest)
  let (initializer, _) ← run? (· != ';') rest
  some (name, initializer)

/-- The constant of the leftmost static field of a line, if its initializer is a numeral. -/
def ofLine (line : List Char) (doc : Option String) : Except Numeral.TooLong (Option Constant) :=
  match leftmost? field? line with
  | none => .ok none
  | some (name, initializer) =>
    (Numeral.parse initializer).map fun value? => value?.map (⟨String.ofList name, ·, doc⟩)

/-- The constants of a source in order; a name may occur more than once, and lines without a clean
numeral are passed over. A whole number too long to be read is an error. -/
def ofSource (source : String) : Except Numeral.TooLong (List Constant) := do
  let found ← (DocComment.attach (lines source.toList)).mapM fun (line, doc) => ofLine line doc
  return found.filterMap id

end Constant

/-! ### Classes

The classes that message files export by default, with the class they extend, if any. -/

/-- A class exported by default. -/
structure ClassDeclaration where
  file : String
  name : String
  base : Option String
  doc : Option String
  deriving DecidableEq

namespace ClassDeclaration

open Text

/-- The class name exported by default at the head of a text, and the rest. -/
def exported? (cs : List Char) : Option (List Char × List Char) := do
  let rest ← afterString? "export" cs
  let rest ← afterBlanks? rest
  let rest ← afterString? "default" rest
  let rest ← afterBlanks? rest
  let rest ← afterString? "class" rest
  let rest ← afterBlanks? rest
  run? isWordChar rest

/-- The class name and the base name of an exported class that extends another. -/
def extending? (cs : List Char) : Option (List Char × List Char) := do
  let (name, rest) ← exported? cs
  let rest ← afterBlanks? rest
  let rest ← afterString? "extends" rest
  let rest ← afterBlanks? rest
  let (base, _) ← run? isWordChar rest
  some (name, base)

/-- The class name and the base name that a line declares: those of the leftmost class that
extends another, and otherwise the leftmost class name. -/
def names? (line : List Char) : Option (List Char × Option (List Char)) :=
  match leftmost? extending? line with
  | some (name, base) => some (name, some base)
  | none => (leftmost? exported? line).map fun (name, _) => (name, none)

def ofLine? (file : String) (line : List Char) (doc : Option String) : Option ClassDeclaration :=
  (names? line).map fun (name, base) =>
    ⟨file, String.ofList name, base.map String.ofList, doc⟩

def ofSource (file source : String) : List ClassDeclaration :=
  (DocComment.attach (lines source.toList)).filterMap fun (line, doc) => ofLine? file line doc

end ClassDeclaration

end SdkCatalog
