import EngineUpkeep.Shell.Script

/-!
# Sources

A source is the text of a script while it is read: the characters that are left, the line, and the
last token, which can be put back. A script is read command by command, so that what it says first
is done before what comes later is looked at.

A backslash at the end of a line joins it with the next one. Where that holds, characters are looked
at with `Source.peek` and taken with `takeJoined`.
-/

namespace EngineUpkeep

namespace Shell

/-- A token of a script. -/
inductive Token where
  /-- The end of the script. -/
  | ending
  /-- The end of a line. -/
  | newline
  /-- An operator. -/
  | operator (text : Text)
  /-- A redirection of a stream by an operator. What it leads to comes next. -/
  | redirection (stream : Nat) (operator : Text)
  /-- A word. -/
  | word (word : Word)
  /-- A word that has a meaning of its own where a command can begin. -/
  | keyword (text : Text)

namespace Token

/-- How complaints speak of a token. -/
def label : Token → Text
  | ending => "end of file".toList
  | newline => "newline".toList
  | operator text => '"' :: text ++ ['"']
  | redirection _ _ => "redirection".toList
  | word _ => "word".toList
  | keyword text => '"' :: text ++ ['"']

/-- The token is a given operator. -/
def isOperator (text : Text) : Token → Bool
  | operator other => text = other
  | _ => false

/-- The token is a given keyword. -/
def isKeyword (text : Text) : Token → Bool
  | keyword other => text = other
  | _ => false

end Token

/-- The keywords. -/
def keywords : List Text :=
  ["!", "case", "do", "done", "elif", "else", "esac", "fi", "for", "if", "in", "then", "until",
    "while", "\x7b", "\x7d"]

/-- The token ends a list of commands inside a command. -/
def Token.isCloser : Token → Bool
  | ending => true
  | operator text => [")", ";;"].contains (String.ofList text)
  | keyword text =>
    ["do", "done", "elif", "else", "esac", "fi", "then", "\x7d"].contains (String.ofList text)
  | _ => false

/-- What is wrong with a script. -/
inductive ScriptCause where
  /-- A token stands where it cannot, perhaps in place of another one. -/
  | unexpected (token : Text) (wanted? : Option Text)
  /-- A quote is not closed. -/
  | openQuote
  /-- A sum is not closed. -/
  | openSum
  /-- A brace is not closed. -/
  | openBrace
  /-- A back quote is not closed. -/
  | openBackQuote
  /-- The name after `for` is none. -/
  | badVariable
  /-- The name of a function is none. -/
  | badFunction
  /-- Commands are nested too deep. -/
  | tooDeep
deriving DecidableEq, Repr

/-- The complaint about what is wrong. -/
def ScriptCause.message : ScriptCause → Text
  | unexpected token none => token ++ " unexpected".toList
  | unexpected token (some wanted) =>
    token ++ " unexpected (expecting ".toList ++ wanted ++ [')']
  | openQuote => "Unterminated quoted string".toList
  | openSum => "Missing '))'".toList
  | openBrace => "Missing '\x7d'".toList
  | openBackQuote => "EOF in backquote substitution".toList
  | badVariable => "Bad for loop variable".toList
  | badFunction => "Bad function name".toList
  | tooDeep => "too many levels".toList

/-- What is wrong with a script, and the line on which that is noticed. -/
structure ScriptFault where
  /-- The line. -/
  line : Nat
  /-- What is wrong. -/
  cause : ScriptCause
deriving DecidableEq, Repr

/-- A here-document whose text comes after the line that is read. -/
structure Pending where
  /-- Its number. -/
  number : Nat
  /-- The line that ends it. -/
  mark : Text
  /-- Nothing in it is expanded. -/
  isLiteral : Bool
  /-- Tabs at the beginning of its lines are left out. -/
  dropsTabs : Bool
deriving DecidableEq, Repr

/-- The text of a script while it is read. -/
structure Source where
  /-- The characters that are left. -/
  rest : Text
  /-- The line that is read. -/
  line : Nat := 1
  /-- The token that was read last. -/
  last : Token := .ending
  /-- That token was put back. -/
  isBack : Bool := false
  /-- The words that stand for other texts. -/
  aliases : List (Text × Text) := []
  /-- Such words that have been replaced, each with the number of characters that are left after
  the text in its place. -/
  replaced : List (Text × Nat) := []
  /-- The here-documents whose texts come after the line that is read. -/
  pending : List Pending := []
  /-- The here-documents that have been read, by their numbers. -/
  documents : List (Nat × Word) := []
  /-- The number of the next here-document. -/
  nextDocument : Nat := 0
  /-- The here-document whose text is read, if one is. -/
  document? : Option Pending := none
  /-- What comes after that document, once its end has been seen. -/
  behind : Text := []
  /-- What is read is the mark of a here-document, in which nothing is expanded. -/
  inMark : Bool := false

/-- An action that reads from a source and may find it faulty. -/
abbrev Reading := StateT Source (Except ScriptFault)

namespace Reading

/-- Stops with a fault on the line that is read. -/
def fault {α : Type} (cause : ScriptCause) : Reading α := do
  throw ⟨(← get).line, cause⟩

/-- Goes on after some characters, of which line feeds begin a new line. -/
def skip (count : Nat) : Reading Unit :=
  modify fun source =>
    { source with
      rest := source.rest.drop count
      line := source.line + (source.rest.take count).count '\n' }

/-- The next character. -/
def peekRaw : Reading (Option Char) := do
  return (← get).rest.head?

/-- Takes the next character. -/
def nextRaw : Reading (Option Char) := do
  let c? ← peekRaw
  skip 1
  return c?

/-- The characters after line ends with a backslash in front, and the number of these. -/
def afterJoins : Text → Nat × Text
  | '\\' :: '\n' :: rest =>
    let (count, after) := afterJoins rest
    (count + 1, after)
  | rest => (0, rest)

/-- The next character after joined lines. -/
def peek : Reading (Option Char) := do
  let (count, after) := afterJoins (← get).rest
  modify fun source => { source with rest := after, line := source.line + count }
  return after.head?

/-- Takes the next character after joined lines. -/
def next : Reading (Option Char) := do
  let c? ← peek
  skip 1
  return c?

/-- Takes the next character after joined lines if it is a given one, and says whether it is. -/
def takeIf (c : Char) : Reading Bool := do
  if (← peek) = some c then
    skip 1
    return true
  return false

/-- The characters of a kind at the front of a text with joined lines, what comes after them, and
the number of joins. -/
def splitJoined (isKind : Char → Bool) : Text → Text × Text × Nat
  | '\\' :: '\n' :: rest =>
    let (taken, after, count) := splitJoined isKind rest
    (taken, after, count + 1)
  | c :: rest =>
    if isKind c then
      let (taken, after, count) := splitJoined isKind rest
      (c :: taken, after, count)
    else ([], c :: rest, 0)
  | [] => ([], [], 0)

/-- Takes characters of a kind from joined lines. -/
def takeJoined (isKind : Char → Bool) : Reading Text := do
  let (taken, after, count) := splitJoined isKind (← get).rest
  modify fun source => { source with rest := after, line := source.line + count }
  return taken

/-- Puts the token back that was read last. -/
def putBack : Reading Unit :=
  modify fun source => { source with isBack := true }

/-- Stops since the last token stands where it cannot. -/
def unexpected {α : Type} (wanted? : Option Text) : Reading α := do
  fault (.unexpected (← get).last.label wanted?)

end Reading

end Shell

end EngineUpkeep
