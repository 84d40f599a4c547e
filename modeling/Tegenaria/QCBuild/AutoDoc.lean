import Mathlib.Logic.Function.Basic
import Tegenaria.Foundation.Outcome
import Tegenaria.LibStr.HtmlText
import Tegenaria.LibStr.Tokenize
import Tegenaria.QCBuild.PrivateDirs
import Tegenaria.QCBuild.Scan

/-!
# Functions in C sources

`CollectFunctionsFromCSource` goes through the tokens of a C file once and notes every
function definition with the comment in front of it.  It does not parse the language: a
block at the top level of the file or of a namespace is a function if an identifier and
parentheses came before it.  What it knows about the open blocks stands in three arrays
that are indexed by the number of open braces.

An access outside of the arrays, a `substr` behind the end of a string and a call of
`Fatal` end the program; they are a `Stop` here.
-/

namespace Tegenaria.QCBuild

open LibStr PrivateDirs

/-- `MAX_DEEP`; the arrays have one place more. -/
def maxDeep : Nat := 16

structure FunctionInfo where
  name_ : Stream
  fname_ : Text
  comment_ : Stream
  return_ : Stream
  args_ : Stream
  deriving DecidableEq

structure SourceFile where
  name_ : Text
  title_ : Text
  functions_ : List FunctionInfo
  deriving DecidableEq

structure QCBuildPragma where
  cmd_ : Text
  args_ : List Text

namespace AutoDoc

/-- The bytes of a token as the letters of a string. -/
def letters (bytes : Stream) : Text := bytes.map fun byte => Char.ofNat byte.toNat

def pragmaWord : Text := ['#', 'p', 'r', 'a', 'g', 'm', 'a']

def qcbuildWord : Text := ['q', 'c', 'b', 'u', 'i', 'l', 'd', '_']

def setPrivateName : Text := qcbuildWord ++ ['s', 'e', 't', '_', 'p', 'r', 'i', 'v', 'a', 't', 'e']

def setFileTitleName : Text :=
  qcbuildWord ++ ['s', 'e', 't', '_', 'f', 'i', 'l', 'e', '_', 't', 'i', 't', 'l', 'e']

/-- The bytes of `namespace`. -/
def namespaceWord : Stream := [110, 97, 109, 101, 115, 112, 97, 99, 101]

/-- The last place of a letter. -/
def strrchr (text : Text) (letter : Char) : Option Nat :=
  (text.reverse.idxOf? letter).map fun behind => text.length - 1 - behind

/-- `AutoDocParseQCBuildPragma`: both parentheses are overwritten with zeros, and the command is what
stands between its name and the next zero. -/
def autoDocParseQCBuildPragma (line : Text) : Option QCBuildPragma :=
  match strstr line qcbuildWord, line.idxOf? '(', strrchr line ')' with
  | some cmd, some argsBegin, some argsEnd =>
      let buf := (line.set argsBegin '\x00').set argsEnd '\x00'
      some { cmd_ := cStr (buf.drop cmd)
             args_ := strTokenizeStrings (buf.drop (argsBegin + 1)) [','] ['"'] }
  | _, _, _ => none

/-- What a macro asks for. -/
inductive Command where
  | nothing
  | malformed
  | unknown
  | setPrivate
  | setFileTitle (title : Text)
  deriving DecidableEq

/-- The command of a pragma; one with other arguments than expected does nothing. -/
def QCBuildPragma.command (pragma : QCBuildPragma) : Command :=
  if pragma.cmd_ = setPrivateName then
    if pragma.args_ = [['1']] then .setPrivate else .nothing
  else if pragma.cmd_ = setFileTitleName then
    match pragma.args_ with
    | [title] => .setFileTitle title
    | _ => .nothing
  else .unknown

/-- The command of a token. -/
def commandOf (token : Token) : Command :=
  let line := cStr (letters token.2)
  if token.1 = .directive ∧ (strstr line pragmaWord).isSome ∧ (strstr line qcbuildWord).isSome then
    match autoDocParseQCBuildPragma line with
    | none => .malformed
    | some pragma => QCBuildPragma.command pragma
  else .nothing

/-- The ways in which the scan ends early; a pragma that cannot be parsed makes the function return -1
with what it has collected. -/
inductive Stop where
  | outOfBounds
  | outOfRange
  | fatal
  | failed (sourceFile : SourceFile)
  deriving DecidableEq

/-- The variables of the loop.  An empty namespace is none, and so is the function id -1. -/
structure Collector where
  sourceFile : SourceFile
  deep : Int
  lastTokenId : Option TokenId
  eolTriggered : Bool
  namespaceAtDeep : Nat → Stream
  lastToken : Stream
  lastComment : Stream
  lastIdent : Stream
  lastLastIdent : Stream
  returnType : Stream
  args : Stream
  privateAtDeep : Nat → Bool
  functionIdAtDeep : Nat → Option Nat
  fiEntry : FunctionInfo

/-- An index of an array over the open blocks. -/
def atDeep (deep : Int) : Except Stop Nat :=
  if 0 ≤ deep ∧ deep ≤ maxDeep then .ok deep.toNat else .error .outOfBounds

namespace Collector

/-- The variables before the first token; the loop that clears the function ids leaves out the last one. -/
def start (sourceFile : SourceFile) (fname : Text) : Collector where
  sourceFile := { sourceFile with name_ := fname }
  deep := 0
  lastTokenId := none
  eolTriggered := false
  namespaceAtDeep _ := []
  lastToken := []
  lastComment := []
  lastIdent := []
  lastLastIdent := []
  returnType := []
  args := []
  privateAtDeep _ := false
  functionIdAtDeep deep := if deep < maxDeep then none else some 0
  fiEntry := { name_ := [], fname_ := fname, comment_ := [], return_ := [], args_ := [] }

variable (collector : Collector)

def functions : List FunctionInfo := collector.sourceFile.functions_

def setFunctions (functions : List FunctionInfo) : Collector :=
  { collector with sourceFile := { collector.sourceFile with functions_ := functions } }

def collectComment (token : Stream) : Except Stop Collector :=
  if token.length < 2 then .error .outOfRange
  else
    let lastComment := if collector.eolTriggered then [] else collector.lastComment
    let behind : Stream :=
      if collector.lastTokenId ∈ [some .comment, some .white, some .eol] then [lineFeed, blank] else [blank]
    .ok { collector with eolTriggered := false, lastComment := lastComment ++ behind ++ token.drop 2 }

def beginArguments (isTopLevel : Bool) : Collector :=
  if isTopLevel ∧ collector.fiEntry.return_ = [] ∧ collector.fiEntry.name_ = [] then
    { collector with
      fiEntry := { collector.fiEntry with return_ := collector.returnType, name_ := collector.lastToken }
      returnType := []
      args := [40] }
  else collector

def endArguments : Collector :=
  { collector with
    fiEntry :=
      if collector.fiEntry.args_ = [] then { collector.fiEntry with args_ := collector.args }
      else collector.fiEntry
    args := [] }

/-- The last identifier but one is `namespace`. -/
def opensNamespace : Bool := collector.lastLastIdent = namespaceWord

/-- The name, the arguments and no other block are there for a function. -/
def opensFunction (isTopLevel : Bool) : Bool :=
  !collector.opensNamespace && isTopLevel && collector.fiEntry.name_ ≠ [] && collector.fiEntry.args_ ≠ []

/-- The function that is about to begin. -/
def declared : FunctionInfo :=
  { collector.fiEntry with comment_ := strEncodeToHtml collector.lastComment HtmlText.nonBreakSpaces }

/-- The function is added to the list. -/
def pushFunction : Except Stop Collector := do
  let inner ← atDeep (collector.deep + 1)
  pure { collector.setFunctions (collector.functions ++ [collector.declared]) with
    functionIdAtDeep := Function.update collector.functionIdAtDeep inner (some collector.functions.length) }

/-- The description of the function is cleared. -/
def clearFunction : Collector :=
  { collector with
    lastComment := []
    fiEntry := { collector.fiEntry with return_ := [], args_ := [], comment_ := [], name_ := [] } }

def beginFunction (visible : Bool) : Except Stop Collector := do
  let listed ← if visible then collector.pushFunction else pure collector
  pure listed.clearFunction

def enterNamespace : Except Stop Collector := do
  let inner ← atDeep (collector.deep + 1)
  pure { collector with
    namespaceAtDeep := Function.update collector.namespaceAtDeep inner collector.lastIdent }

/-- The body of a namespace, of a function or of something else. -/
def enterBlock (visible isTopLevel : Bool) : Except Stop Collector :=
  if collector.opensNamespace then collector.enterNamespace
  else if collector.opensFunction isTopLevel then collector.beginFunction visible
  else pure collector

def beginBlock (visible isTopLevel : Bool) : Except Stop Collector := do
  let entered ← collector.enterBlock visible isTopLevel
  pure { entered with deep := entered.deep + 1, returnType := [] }

def endBlock (deep : Nat) : Collector :=
  { collector with
    lastComment := []
    returnType := []
    functionIdAtDeep := Function.update collector.functionIdAtDeep deep none
    namespaceAtDeep := Function.update collector.namespaceAtDeep deep []
    privateAtDeep := fun i => if deep ≤ i ∧ i < maxDeep then false else collector.privateAtDeep i
    deep := collector.deep - 1 }

/-- The innermost block is the body of the last function in the list. -/
def inLastFunction (deep : Nat) : Bool :=
  match collector.functionIdAtDeep deep with
  | some id => id + 1 = collector.functions.length
  | none => false

/-- The body of the loop over the places from the current one on.  The function around the pragma is
removed. -/
def setPrivateAt (deep : Nat) (collector : Collector) (i : Nat) : Collector :=
  let marked := { collector with privateAtDeep := Function.update collector.privateAtDeep i true }
  if collector.inLastFunction deep then marked.setFunctions collector.functions.dropLast else marked

def setPrivate (deep : Nat) : Collector :=
  (List.range' deep (maxDeep - deep)).foldl (setPrivateAt deep) collector

/-- The case of `;` and of a macro. -/
def endStatement (deep : Nat) (token : Token) : Except Stop Collector :=
  let cleared := { collector with
    fiEntry := { collector.fiEntry with name_ := [], args_ := [], return_ := [] }
    args := []
    returnType := []
    lastComment := [] }
  match commandOf token with
  | .nothing => .ok cleared
  | .malformed => .error (.failed collector.sourceFile)
  | .unknown => .error .fatal
  | .setPrivate => .ok (cleared.setPrivate deep)
  | .setFileTitle title => .ok { cleared with sourceFile := { cleared.sourceFile with title_ := title } }

def isTopLevel (deep : Nat) : Bool := deep = 0 || collector.namespaceAtDeep deep ≠ []

/-- The switch. -/
def dispatch (deep : Nat) (token : Token) : Except Stop Collector :=
  match token.1 with
  | .ident => .ok { collector with lastLastIdent := collector.lastIdent, lastIdent := token.2 }
  | .eol => .ok { collector with eolTriggered := true }
  | .comment => collector.collectComment token.2
  | .parentBegin => .ok (collector.beginArguments (collector.isTopLevel deep))
  | .parentEnd => .ok collector.endArguments
  | .blockBegin => collector.beginBlock (!collector.privateAtDeep deep) (collector.isTopLevel deep)
  | .blockEnd => .ok (collector.endBlock deep)
  | .semicolon => collector.endStatement deep token
  | .directive => collector.endStatement deep token
  | _ => .ok collector

/-- The text of the token belongs to the arguments if they have begun. -/
def appendArgs (token : Token) : Collector :=
  if collector.args = [] then collector else { collector with args := collector.args ++ token.2 }

/-- The return type is collected, and the token is the last one. -/
def saveToken (token : Token) : Collector :=
  { collector with
    returnType :=
      if token.1 ≠ .semicolon ∧ collector.lastTokenId ∉
          [some .comment, some .semicolon, some .blockEnd, some .blockBegin, some .directive] then
        collector.returnType ++ collector.lastToken
      else collector.returnType
    lastToken := token.2
    lastTokenId := some token.1 }

/-- A round of the loop. -/
def step (token : Token) : Except Stop Collector := do
  let deep ← atDeep collector.deep
  let next ← (collector.appendArgs token).dispatch deep token
  pure (next.saveToken token)

/-- Without a title the file gets its name up to the first dot, in the public mode. -/
def finish (privateMode : Int) : SourceFile :=
  if privateMode = 0 ∧ collector.sourceFile.title_ = [] then
    { collector.sourceFile with title_ := collector.sourceFile.name_.takeWhile (· ≠ '.') }
  else collector.sourceFile

end Collector

/-- The loop over the tokens of a stream.  It has no result if the scanner does not return. -/
def collectFrom : Nat → Collector → Stream → Option (Except Stop Collector)
  | 0, _, _ => none
  | fuel + 1, collector, stream =>
      (scanPopToken stream).bind fun found =>
        match collector.step (found.1, found.2.1) with
        | .error stop => some (.error stop)
        | .ok next => if found.1 = .eof then some (.ok next) else collectFrom fuel next found.2.2

end AutoDoc

open AutoDoc

/-- `CollectFunctionsFromCSource`; without a stream the file cannot be opened. -/
def collectFunctionsFromCSource (sourceFile : SourceFile) (fname : Text) (file : Option Stream)
    (privateMode : Int) : Option (Except Stop (Int × SourceFile)) :=
  match file with
  | none => some (.ok (-1, { sourceFile with name_ := fname }))
  | some stream =>
      (collectFrom (stream.length + 1) (.start sourceFile fname) stream).map fun outcome =>
        match outcome with
        | .ok collector => .ok (0, collector.finish privateMode)
        | .error (.failed collected) => .ok (-1, collected)
        | .error stop => .error stop

end Tegenaria.QCBuild
