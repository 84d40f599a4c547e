import Tegenaria.LibStr.Tokenize
import Tegenaria.QCBuild.SourceInfo
import Mathlib.Data.Finset.Lattice.Lemmas
import Mathlib.Logic.Function.Basic

/-!
# Reading a component from its file

`SourceInfo::loadFromFile` walks through the text of a `qcbuild.src` file.  The text is
one buffer that ends with a zero.  The helpers cut it in place: a pointer into the buffer
is modelled by the part of the buffer from there on, with the zeros that were written.
-/

namespace Tegenaria.QCBuild

open LibStr

/-! ## Helpers on the buffer -/

/-- `*p` -/
def letterAt (p : Text) : Char := p.headD '\x00'

def skipWhites (p : Text) : Text := p.dropWhile isSpace

/-- White space at the end of the string is overwritten with zeros. -/
def cleanToken (p : Text) : Text :=
  let p := skipWhites p
  let kept := (cStr p).rdropWhile isSpace
  kept ++ List.replicate ((cStr p).length - kept.length) '\x00' ++ p.drop (cStr p).length

def isEol (letter : Char) : Bool := letter = '\r' ∨ letter = '\n'

/-- The line and the next one; the last character between the two is overwritten. -/
def skipLine (p : Text) : Text × Text :=
  let line := p.takeWhile fun letter => letter ≠ '\x00' ∧ isEol letter = false
  let eols := (p.drop line.length).takeWhile isEol
  let next := p.drop (line.length + eols.length)
  if letterAt next ≠ '\x00' then (line ++ eols.dropLast ++ '\x00' :: next, next) else (p, next)

/-- The loop in `loadFromFile` that removes the end of a line.  It keeps the first
letter. -/
def removeEol (p : Text) : Text :=
  match cStr p with
  | [] => p
  | first :: line =>
      let kept := line.rdropWhile isEol
      first :: kept ++ List.replicate (line.length - kept.length) '\x00' ++ p.drop (line.length + 1)

/-- The parts of a line before and after the first `+=`, as `strstr` finds it. -/
def cutAtCat : Text → Option (Text × Text)
  | [] => none
  | first :: rest =>
      if first = '+' ∧ rest.head? = some '=' then some ([], rest.tail)
      else (cutAtCat rest).map fun parts => (first :: parts.1, parts.2)

/-! ## Paths -/

/-- How often `..` is found in a path. -/
@[grind =] def countParents : Text → Nat
  | '.' :: '.' :: rest => countParents rest + 1
  | _ :: rest => countParents rest
  | [] => 0

def isSlash (letter : Char) : Bool := letter = '\\' ∨ letter = '/'

/-- The last slash at or before a position, or the start of the path. -/
def backToSlash (path : Text) : Nat → Nat
  | 0 => 0
  | position + 1 =>
      if isSlash ((path.drop (position + 1)).headD '\x00') then position + 1
      else backToSlash path position

/-- Leaves the path when it is at its start. -/
def goUp (path : Text) : Nat → Nat → Option Nat
  | 0, position => some position
  | _ + 1, 0 => none
  | count + 1, position + 1 => goUp path count (backToSlash path position)

/-- `CreateRelativePath`.  The result is undefined where the pointer leaves the path. -/
def createRelativePath (path relRoot : Text) : Option Text :=
  if path = [] then none
  else
    (goUp path (countParents relRoot) (path.length - 1)).map fun position =>
      (path.drop (position + 1)).map fun letter => if letter = '\\' then '/' else letter

def filePathGetTopDir (path : Text) : Text :=
  let top := path.takeWhile fun letter => !isSlash letter
  if top.length < path.length ∧ top.length < 1000000 then top else path

/-- How reading a file ends without a result: the file cannot be loaded, a line has no
operator, the program is left through `Fatal`, or a string is read outside its bounds. -/
inductive LoadFailure where
  | notLoaded
  | operatorExpected (info : SourceInfo)
  | fatal
  | outsideString
  | unfinished

namespace SourceInfo

/-! ## Variables -/

def typeName : Text := ['T', 'Y', 'P', 'E']

def dependsName : Text := ['D', 'E', 'P', 'E', 'N', 'D', 'S']

def privateDirsName : Text :=
  ['A', 'U', 'T', 'O', 'D', 'O', 'C', '_', 'P', 'R', 'I', 'V', 'A', 'T', 'E', '_', 'D', 'I', 'R', 'S']

def topSubdirName : Text := ['T', 'O', 'P', '_', 'S', 'U', 'B', 'D', 'I', 'R']

/-- The type that a value of `TYPE` stands for. -/
def typeOf (rvalue : Text) : SourceType :=
  if sameNoCase rvalue ['P', 'R', 'O', 'J', 'E', 'C', 'T'] then .project
  else if sameNoCase rvalue ['P', 'R', 'O', 'G', 'R', 'A', 'M'] then .program
  else if sameNoCase rvalue ['L', 'I', 'B', 'R', 'A', 'R', 'Y'] then .library
  else if sameNoCase rvalue ['S', 'I', 'M', 'P', 'L', 'E', '_', 'L', 'I', 'B', 'R', 'A', 'R', 'Y'] then
    .simpleLibrary
  else if sameNoCase rvalue ['S', 'I', 'M', 'P', 'L', 'E', '_', 'P', 'R', 'O', 'G', 'R', 'A', 'M'] then
    .simpleProgram
  else if sameNoCase rvalue ['M', 'U', 'L', 'T', 'I', '_', 'L', 'I', 'B', 'R', 'A', 'R', 'Y'] then
    .multiLibrary
  else .unknown

/-- `vars_[lvalue] = value` -/
def setVar (info : SourceInfo) (lvalue value : Text) : SourceInfo :=
  { info with vars := Function.update info.vars lvalue (some value) }

/-- `vars_.erase(lvalue)` -/
def eraseVar (info : SourceInfo) (lvalue : Text) : SourceInfo :=
  { info with vars := Function.update info.vars lvalue none }

theorem get_setVar (info : SourceInfo) (lvalue value name : Text) :
    (info.setVar lvalue value).get name = if name = lvalue then value else info.get name := by
  rw [get, setVar]
  by_cases same : name = lvalue
  · subst same
    simp
  · simp [same, get]

theorem get_eraseVar (info : SourceInfo) (lvalue name : Text) :
    (info.eraseVar lvalue).get name = if name = lvalue then [] else info.get name := by
  rw [get, eraseVar]
  by_cases same : name = lvalue
  · subst same
    simp
  · simp [same, get]

theorem isset_eq_true (info : SourceInfo) (lvalue : Text) : info.isset lvalue = true ↔ info.get lvalue ≠ [] := by
  simp [isset]

/-- The first part of `SourceInfo::set`.  An empty value erases the variable whose name
is the value. -/
def assign (info : SourceInfo) (lvalue rvalue : Text) (concat : Bool) : SourceInfo :=
  if sameNoCase lvalue typeName then { info.setVar lvalue rvalue with type := typeOf rvalue }
  else if concat then
    if info.isset lvalue then info.setVar lvalue (info.get lvalue ++ ' ' :: rvalue)
    else info.setVar lvalue rvalue
  else if rvalue = [] then info.eraseVar rvalue
  else info.setVar lvalue rvalue

/-- The titles in a list of components. -/
def titles (rvalue : Text) : Finset Text := strTokenize rvalue [' ', '\t'] ['"']

/-- The set for `DEPENDS`. -/
def setDepends (info : SourceInfo) (rvalue : Text) (concat : Bool) : SourceInfo :=
  let depends := if concat then info.dependsSet ∪ titles rvalue else titles rvalue
  { info with dependsSet := depends, dependsResolved := depends = ∅ }

/-- The set for `AUTODOC_PRIVATE_DIRS`. -/
def setPrivateDirs (info : SourceInfo) (rvalue : Text) (concat : Bool) : SourceInfo :=
  { info with
    privateDirsSet := if concat then info.privateDirsSet ∪ titles rvalue else titles rvalue }

/-- The component belongs to a project. -/
def isPart (info : SourceInfo) : Bool :=
  info.type = .program ∨ info.type = .library ∨ info.type = .multiLibrary

/-- Makes `COMP_DIR` relative to `ROOT`.  The two calls of `set` it makes take none of the
special branches. -/
def setRoot (info : SourceInfo) : Except LoadFailure SourceInfo :=
  match createRelativePath (info.get compDirName) (info.get rootName) with
  | none => .error .outsideString
  | some path =>
      let info := info.assign compDirName path false
      .ok (info.assign topSubdirName (filePathGetTopDir (info.get compDirName)) false)

/-- `SourceInfo::set` -/
def set (info : SourceInfo) (lvalue rvalue : Text) (concat : Bool) :
    Except LoadFailure SourceInfo :=
  let info := info.assign lvalue rvalue concat
  if sameNoCase lvalue dependsName then .ok (info.setDepends rvalue concat)
  else if sameNoCase lvalue privateDirsName then
    if info.type = .project then .ok (info.setPrivateDirs rvalue concat) else .error .fatal
  else if info.isPart ∧ sameNoCase lvalue rootName then info.setRoot
  else .ok info

/-- The variables that `SourceInfo::clear` leaves. -/
def defaults (lvalue : Text) : Option Text :=
  if lvalue = titleName then some ['U', 'n', 't', 'i', 't', 'l', 'e', 'd']
  else if lvalue = ['L', 'I', 'C', 'E', 'N', 'S', 'E'] then some ['U', 'n', 'k', 'n', 'o', 'w', 'n']
  else if lvalue = ['A', 'U', 'T', 'H', 'O', 'R'] then some ['U', 'n', 'k', 'n', 'o', 'w', 'n']
  else if lvalue = ['D', 'E', 'S', 'C'] then some ['-']
  else if lvalue = ['P', 'U', 'R', 'P', 'O', 'S', 'E'] then some ['-']
  else none

def clear (info : SourceInfo) : SourceInfo :=
  { info with type := .unknown, vars := defaults, dependsSet := ∅, dependsResolved := false }

end SourceInfo

/-! ## Lines -/

/-- The object and the local variables of `loadFromFile`. -/
structure Reader where
  info : SourceInfo
  currentSection : Text
  currentSectionsSet : Finset Text

namespace Reader

def commonName : Text := ['C', 'O', 'M', 'M', 'O', 'N']

def sectionTag : Text := ['.', 's', 'e', 'c', 't', 'i', 'o', 'n']

def endSectionTag : Text := ['.', 'e', 'n', 'd', 's', 'e', 'c', 't', 'i', 'o', 'n']

/-- The string behind the tag and one more letter.  Its own end is cleaned and its start is
not. -/
def sectionString (p : Text) : Text :=
  let text := cStr (p.drop (sectionTag.length + 1))
  text.takeWhile isSpace ++ trim text

/-- A section adds its names to those of the sections before it. -/
def enterSection (reader : Reader) (p : Text) : Except LoadFailure Reader :=
  if p.length ≤ sectionTag.length + 1 then .error .outsideString
  else
    let names := (strtok [','] (sectionString p)).map trim
    .ok { reader with
      currentSection := sectionString p
      currentSectionsSet := reader.currentSectionsSet ∪ names.toFinset }

def leaveSection (reader : Reader) : Reader :=
  { reader with currentSection := commonName, currentSectionsSet := ∅ }

/-- The line is meant for the target machine. -/
def targeted (reader : Reader) (targetMachine : Text) : Bool :=
  reader.currentSection = commonName ∨ targetMachine ∈ reader.currentSectionsSet

/-- Splits a line at its operator. -/
def execute (reader : Reader) (line : Text) : Except LoadFailure Reader :=
  match cutAtCat line, cutAt '=' line with
  | some (lvalue, rvalue), _ =>
      (reader.info.set (trim lvalue) (trim rvalue) true).map fun info => { reader with info }
  | none, some (lvalue, rvalue) =>
      (reader.info.set (trim lvalue) (trim rvalue) false).map fun info => { reader with info }
  | none, none => .error (.operatorExpected reader.info)

/-- The body of the loop for a line that has been cut out of the buffer. -/
def parseLine (targetMachine : Text) (reader : Reader) (p : Text) : Except LoadFailure Reader :=
  match cStr p with
  | [] => .ok reader
  | first :: line =>
      if first = '#' ∨ isEol first then .ok reader
      else if first = '.' then
        if sectionTag <+: first :: line then reader.enterSection p
        else if endSectionTag <+: first :: line then .ok reader.leaveSection
        else .ok reader
      else if reader.targeted targetMachine then reader.execute (first :: line)
      else .ok reader

/-- The loop of `loadFromFile`. -/
def loadLines (targetMachine : Text) : Nat → Reader → Text → Except LoadFailure Reader
  | 0, _, _ => .error .unfinished
  | fuel + 1, reader, p =>
      if letterAt p = '\x00' then .ok reader
      else
        let cut := skipLine (cleanToken p)
        (parseLine targetMachine reader (removeEol cut.1)).bind fun reader =>
          loadLines targetMachine fuel reader cut.2

end Reader

/-- `SourceInfo::loadFromFile` for what `FileLoad` returns. -/
def SourceInfo.loadFromFile (info : SourceInfo) (targetMachine currentDir : Text) :
    Option Text → Except LoadFailure SourceInfo
  | none => .error .notLoaded
  | some text =>
      (Reader.loadLines targetMachine (text.length + 1)
        { info := info.clear, currentSection := Reader.commonName, currentSectionsSet := ∅ }
        (text ++ ['\x00'])).bind fun reader => reader.info.set compDirName currentDir false

end Tegenaria.QCBuild
