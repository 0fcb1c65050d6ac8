import EngineUpkeep.Shell.Word

/-!
# Reading scripts

A script is read one line of commands at a time (`readLine`); a command that is not finished takes
further lines. A word such as `if` or `done` is a keyword only where a command can begin, and only
there and after an alias that ends in a blank can a word be an alias. Here-documents are read at the
end of the line on which their commands stand.
-/

namespace EngineUpkeep

namespace Shell

/-- What is looked for when a token is read. -/
structure Lookout where
  /-- Line feeds are passed over. -/
  breaks : Bool := false
  /-- A word may be a keyword. -/
  keywords : Bool := false
  /-- A word may be an alias. -/
  aliases : Bool := false

/-- At the beginning of a command. -/
def Lookout.command : Lookout := { keywords := true, aliases := true }

/-- At the beginning of a command, perhaps some lines below. -/
def Lookout.furtherCommand : Lookout := { breaks := true, keywords := true, aliases := true }

/-- How a list of commands is read. -/
inductive ListKind where
  /-- Up to the end of a line. -/
  | line
  /-- Up to a token that ends it. There has to be a command. -/
  | full
  /-- Up to a token that ends it. -/
  | open
deriving DecidableEq, Repr

namespace Reading

/-- Takes blanks and a comment. -/
def skipBlanks : Nat → Reading Unit
  | 0 => return
  | fuel + 1 => do
    match ← peek with
    | some ' ' =>
      skip 1
      skipBlanks fuel
    | some '\t' =>
      skip 1
      skipBlanks fuel
    | some '#' => skip ((← get).rest.takeWhile (· ≠ '\n')).length
    | _ => return

/-- Takes what is left of a redirection after its sign. -/
def takeRedirection (sign : Char) (stream? : Option Nat) : Reading Token := do
  let stream := stream?.getD (if sign = '<' then 0 else 1)
  let second? ← peek
  let isLonger := match sign, second? with
    | '>', some c => ['>', '|', '&'].contains c
    | _, some c => ['<', '&', '>'].contains c
    | _, none => false
  if !isLonger then return .redirection stream [sign]
  skip 1
  let operator := sign :: second?.toList
  if operator = ['<', '<'] then
    let dropsTabs ← takeIf '-'
    return .redirection stream (if dropsTabs then ['<', '<', '-'] else operator)
  else return .redirection stream operator

/-- The number that a word in front of a redirection gives to it, if there is one. -/
def streamNumber? : Word → Option (Option Nat)
  | [] => some none
  | [.chars [digit] false] =>
    if Text.isAsciiDigit digit then some (some (digit.toNat - 48)) else none
  | _ => none

/-- Takes a new token. -/
def takeToken (nested : Bool → Reading (List Command)) (fuel : Nat) : Reading Token := do
  skipBlanks fuel
  match ← peek with
  | none => return .ending
  | some '\n' =>
    skip 1
    return .newline
  | some c =>
    if ['&', '|', ';'].contains c then
      skip 1
      return .operator (if ← takeIf c then [c, c] else [c])
    else if c = '(' || c = ')' then
      skip 1
      return .operator [c]
    else
      let word ← takeParts nested fuel .bare []
      match ← peekRaw, streamNumber? word with
      | some sign, some stream? =>
        if sign = '<' || sign = '>' then
          skip 1
          takeRedirection sign stream?
        else return .word word
      | _, _ => return .word word

/-- Takes a token that was put back, or a new one. -/
def currentToken (nested : Bool → Reading (List Command)) (fuel : Nat) : Reading Token := do
  let source ← get
  if source.isBack then
    set { source with isBack := false }
    return source.last
  else
    let token ← takeToken nested fuel
    modify fun source => { source with last := token }
    return token

/-- The text that stands for a word, unless it is being replaced already. -/
def aliasOf? (word : Word) : Reading (Option (Text × Text)) := do
  let source ← get
  let inUse := source.replaced.filter fun item => item.2 ≤ source.rest.length
  match plain? word with
  | some name =>
    return if (inUse.lookup name).isSome then none
      else (source.aliases.lookup name).map fun text => (name, text)
  | none => return none

/-- The token that has been read comes after a text that stood for a word and ends in a blank, where
so many characters were left in front of the token. -/
def followsBlankAlias (before : Nat) : Reading Bool := do
  let source ← get
  return source.replaced.any fun (name, length) =>
    length < before && source.rest.length ≤ length &&
      ((source.aliases.lookup name).getD []).getLast?.any fun c => c = ' ' || c = '\t'

/-- Takes a token. -/
def readToken (nested : Bool → Reading (List Command)) : Nat → Lookout → Reading Token
  | 0, _ => fault .tooDeep
  | fuel + 1, lookout => do
    let start ← get
    match ← currentToken nested fuel with
    | .newline =>
      if lookout.breaks then
        takeDocuments nested fuel
        readToken nested fuel lookout
      else return .newline
    | .word word =>
      let follows ← followsBlankAlias start.rest.length
      let afterBlank := !start.isBack && follows
      -- An alias that was in use before this token is one no more.
      modify fun source =>
        { source with
          replaced := source.replaced.filter fun item => item.2 ≤ source.rest.length }
      let keyword? := if lookout.keywords then (plain? word).filter keywords.contains else none
      match keyword? with
      | some keyword =>
        modify fun source => { source with last := .keyword keyword }
        return .keyword keyword
      | none =>
        let alias? ← if lookout.aliases || afterBlank then aliasOf? word else pure none
        match alias? with
        | some (name, text) =>
          modify fun source =>
            { source with
              rest := text ++ source.rest
              replaced := (name, source.rest.length) :: source.replaced }
          readToken nested fuel { lookout with aliases := true }
        | none => return .word word
    | token => return token

/-- Takes a given operator. -/
def expectOperator (text : Text) (token : Token) : Reading Unit := do
  if !token.isOperator text then unexpected (some (Token.operator text).label)

/-- Takes a given keyword. -/
def expectKeyword (text : Text) (token : Token) : Reading Unit := do
  if !token.isKeyword text then unexpected (some (Token.keyword text).label)

/-- Takes what a redirection leads to. -/
def readTarget (nested : Bool → Reading (List Command)) (fuel stream : Nat) (operator : Text) :
    Reading Redirection := do
  let isDocument := operator.take 2 = ['<', '<']
  modify fun source => { source with inMark := isDocument }
  let token ← readToken nested fuel {}
  modify fun source => { source with inMark := false }
  match token with
  | .word word =>
    if isDocument then
      let source ← get
      let document : Pending :=
        { number := source.nextDocument
          mark := charsIn word
          isLiteral := word.any Part.isQuoted
          dropsTabs := operator.length = 3 }
      set { source with
        pending := source.pending ++ [document], nextDocument := source.nextDocument + 1 }
      return .document stream document.number
    else match String.ofList operator with
      | ">" => return .file stream .write word
      | ">>" => return .file stream .append word
      | ">|" => return .file stream .overwrite word
      | "<" => return .file stream .read word
      | "<>" => return .file stream .readWrite word
      | _ => return .stream stream word
  | _ => unexpected none

/-- Takes redirections, after what is known of a token that may be one. -/
def readRedirections (nested : Bool → Reading (List Command)) :
    Nat → Lookout → Reading (List Redirection)
  | 0, _ => fault .tooDeep
  | fuel + 1, lookout => do
    match ← readToken nested fuel lookout with
    | .redirection stream operator =>
      let first ← readTarget nested fuel stream operator
      return first :: (← readRedirections nested fuel {})
    | _ =>
      putBack
      return []

/-- Takes words up to another token. -/
def readWords (nested : Bool → Reading (List Command)) : Nat → Reading (List Word)
  | 0 => fault .tooDeep
  | fuel + 1 => do
    match ← readToken nested fuel {} with
    | .word word => return word :: (← readWords nested fuel)
    | _ => return []

/-- The word of a pattern. Keywords are words there. -/
def patternWord : Token → Word
  | .word word => word
  | .keyword text => [.chars text false]
  | _ => []

/-- Takes patterns with bars between them up to a closing parenthesis, after the first token. -/
def readPatterns (nested : Bool → Reading (List Command)) : Nat → Token → Reading (List Word)
  | 0, _ => fault .tooDeep
  | fuel + 1, first => do
    let token ← readToken nested fuel {}
    if token.isOperator ['|'] then
      let second ← readToken nested fuel {}
      return patternWord first :: (← readPatterns nested fuel second)
    else
      expectOperator [')'] token
      return [patternWord first]

/-- A command with redirections behind it. If it is a group of a single command that carries its
redirections itself, the new ones take their place. -/
def redirect (line : Nat) (redirections : List Redirection) : Command → Command
  | .group [command] =>
    match command with
    | .nested inner body _ => .nested inner body redirections
    | .group commands => redirect line redirections (.group commands)
    | command => .redirected line (.group [command]) redirections
  | command => .redirected line command redirections

/-- What a simple command is made of, as far as it is read. -/
structure SimpleDraft where
  /-- The assignments. -/
  assignments : List (Text × Word) := []
  /-- The name and the arguments. -/
  words : List Word := []
  /-- The redirections. -/
  redirections : List Redirection := []

mutual

/-- Takes commands, as nested ones or up to the end of a line, after those that are given. -/
def readList : Nat → ListKind → List Command → Reading (List Command)
  | 0, _, _ => fault .tooDeep
  | fuel + 1, kind, before => do
    let nested (closed : Bool) : Reading (List Command) := readNested fuel closed
    let token ← readToken nested fuel { Lookout.command with breaks := kind ≠ .line }
    match token with
    | .newline =>
      takeDocuments nested fuel
      return before
    | .ending =>
      takeDocuments nested fuel
      modify fun source => { source with last := .ending, isBack := true }
      return before
    | _ =>
      putBack
      let mayEnd := kind = .open || (kind = .full && before.length ≠ 0)
      if mayEnd && token.isCloser then return before
      let command ← readChain fuel {}
      let token ← readToken nested fuel {}
      let isStarted := token.isOperator ['&']
      let commands := before ++ [if isStarted then .started command else command]
      match token with
      | .ending =>
        takeDocuments nested fuel
        modify fun source => { source with last := .ending, isBack := true }
        return commands
      | .newline =>
        putBack
        readList fuel kind commands
      | _ =>
        if isStarted || token.isOperator [';'] then readList fuel kind commands
        else
          if kind = .line then unexpected none
          putBack
          return commands

/-- Takes commands inside a word, and the parenthesis that closes them. -/
def readNested : Nat → Bool → Reading (List Command)
  | 0, _ => fault .tooDeep
  | fuel + 1, closed => do
    modify fun source => { source with isBack := false }
    let commands ← readList fuel .open []
    if closed then
      expectOperator [')'] (← readToken (readNested fuel) fuel {})
    return commands

/-- Takes commands with `&&` and `||` between them. -/
def readChain : Nat → Lookout → Reading Command
  | 0, _ => fault .tooDeep
  | fuel + 1, lookout => do
    let first ← readPipes fuel lookout
    readMore fuel first

/-- Takes what follows a command after `&&` and `||`. -/
def readMore : Nat → Command → Reading Command
  | 0, _ => fault .tooDeep
  | fuel + 1, first => do
    let token ← readToken (readNested fuel) fuel {}
    if token.isOperator ['&', '&'] || token.isOperator ['|', '|'] then
      let second ← readPipes fuel .furtherCommand
      readMore fuel (.chain first (token.isOperator ['&', '&']) second)
    else
      putBack
      return first

/-- Takes commands with pipes between them, perhaps negated. -/
def readPipes : Nat → Lookout → Reading Command
  | 0, _ => fault .tooDeep
  | fuel + 1, lookout => do
    let isNegated := (← readToken (readNested fuel) fuel lookout).isKeyword ['!']
    if !isNegated then putBack
    let first ← readCommand fuel (if isNegated then .command else {})
    let others ← readPiped fuel
    let command := if others.length = 0 then first else .pipe (first :: others)
    return if isNegated then .negated command else command

/-- Takes commands with a pipe in front of each. -/
def readPiped : Nat → Reading (List Command)
  | 0 => fault .tooDeep
  | fuel + 1 => do
    if (← readToken (readNested fuel) fuel {}).isOperator ['|'] then
      let command ← readCommand fuel .furtherCommand
      return command :: (← readPiped fuel)
    else
      putBack
      return []

/-- Takes a command. -/
def readCommand : Nat → Lookout → Reading Command
  | 0, _ => fault .tooDeep
  | fuel + 1, lookout => do
    let nested := readNested fuel
    let line := (← get).line
    match ← readToken nested fuel lookout with
    | .word _ =>
      putBack
      readSimple fuel (← get).line {} true
    | .redirection _ _ =>
      putBack
      readSimple fuel (← get).line {} true
    | .keyword keyword =>
      let command ← readCompound fuel line keyword
      let redirections ← readRedirections nested fuel .command
      return if redirections.length = 0 then command
        else redirect line redirections command
    | .operator ['('] =>
      let body ← readList fuel .full []
      expectOperator [')'] (← readToken nested fuel {})
      return .nested line body (← readRedirections nested fuel .command)
    | _ => unexpected none

/-- Takes a command after the keyword that begins it. -/
def readCompound : Nat → Nat → Text → Reading Command
  | 0, _, _ => fault .tooDeep
  | fuel + 1, line, keyword => do
    let nested := readNested fuel
    match String.ofList keyword with
    | "if" =>
      let command ← readBranches fuel
      expectKeyword "fi".toList (← readToken nested fuel {})
      return command
    | "\x7b" =>
      let body ← readList fuel .full []
      expectKeyword ['\x7d'] (← readToken nested fuel {})
      return .group body
    | "for" =>
      match ← readToken nested fuel {} with
      | .word word =>
        match (plain? word).filter isName with
        | none => fault .badVariable
        | some name =>
          let token ← readToken nested fuel .furtherCommand
          let mut words? : Option (List Word) := none
          if token.isKeyword "in".toList then
            words? := some (← readWords nested fuel)
            let last := (← get).last
            match last with
            | .newline => pure ()
            | _ => if !last.isOperator [';'] then unexpected none
          else if !token.isOperator [';'] then putBack
          let body ← readBody fuel
          return .each line name words? body
      | _ => fault .badVariable
    | "case" =>
      match ← readToken nested fuel {} with
      | .word subject =>
        expectKeyword "in".toList (← readToken nested fuel .furtherCommand)
        return .select line subject (← readItems fuel)
      | _ => unexpected (some "word".toList)
    | "while" =>
      let condition ← readList fuel .full []
      return .loop true condition (← readBody fuel)
    | "until" =>
      let condition ← readList fuel .full []
      return .loop false condition (← readBody fuel)
    | _ => unexpected none

/-- Takes the body of a loop. -/
def readBody : Nat → Reading (List Command)
  | 0 => fault .tooDeep
  | fuel + 1 => do
    expectKeyword "do".toList (← readToken (readNested fuel) fuel .furtherCommand)
    let body ← readList fuel .full []
    expectKeyword "done".toList (← readToken (readNested fuel) fuel {})
    return body

/-- Takes a condition, what is run if it holds, and the other branches. -/
def readBranches : Nat → Reading Command
  | 0 => fault .tooDeep
  | fuel + 1 => do
    let condition ← readList fuel .full []
    expectKeyword "then".toList (← readToken (readNested fuel) fuel {})
    let yes ← readList fuel .full []
    let token ← readToken (readNested fuel) fuel {}
    if token.isKeyword "elif".toList then return .choose condition yes [← readBranches fuel]
    else if token.isKeyword "else".toList then
      return .choose condition yes (← readList fuel .full [])
    else
      putBack
      return .choose condition yes []

/-- Takes the items of a selection up to its end. -/
def readItems : Nat → Reading (List (List Word × List Command))
  | 0 => fault .tooDeep
  | fuel + 1 => do
    let nested := readNested fuel
    let lookout : Lookout := { breaks := true, keywords := true }
    let token ← readToken nested fuel lookout
    if token.isKeyword "esac".toList then return []
    let first ← if token.isOperator ['('] then readToken nested fuel {} else pure token
    let patterns ← readPatterns nested fuel first
    let body ← readList fuel .open []
    let token ← readToken nested fuel lookout
    if token.isKeyword "esac".toList then return [(patterns, body)]
    expectOperator [';', ';'] token
    return (patterns, body) :: (← readItems fuel)

/-- Takes a simple command after what is read of it. Before its name a word may be an alias. -/
def readSimple : Nat → Nat → SimpleDraft → Bool → Reading Command
  | 0, _, _, _ => fault .tooDeep
  | fuel + 1, line, draft, atStart => do
    let nested := readNested fuel
    let finish : Reading Command := do
      putBack
      return .simple line draft.assignments draft.words draft.redirections
    match ← readToken nested fuel { aliases := atStart } with
    | .word word =>
      match if atStart then assignment? word else none with
      | some assignment =>
        readSimple fuel line { draft with assignments := draft.assignments ++ [assignment] } true
      | none => readSimple fuel line { draft with words := draft.words ++ [word] } false
    | .redirection stream operator =>
      let redirection ← readTarget nested fuel stream operator
      readSimple fuel line { draft with redirections := draft.redirections ++ [redirection] } atStart
    | .operator ['('] =>
      match draft with
      | ⟨[], [word], []⟩ =>
        -- A name with empty parentheses begins a function.
        expectOperator [')'] (← readToken nested fuel {})
        match (plain? word).filter fun name => isName name && !specialNames.contains name with
        | some name => return .define name (← readCommand fuel .furtherCommand)
        | none => fault .badFunction
      | _ => finish
    | _ => finish

end

end Reading

/-- How deep commands can be nested, and how long lists can be. -/
def readingDepth : Nat := 1000000

/-- Reads the commands up to the end of a line; nothing at the end of the script. -/
def Source.readLine (source : Source) : Except ScriptFault (Option (List Command) × Source) := do
  let start := { source with isBack := false }
  let (commands, after) ← (Reading.readList readingDepth .line []).run start
  -- Only at the end of the script is the last token put back.
  let isEnd := commands.length = 0 && after.isBack
  return (if isEnd then none else some commands, { after with isBack := false })

end Shell

end EngineUpkeep
