import StoryEngine.Text.Blank
import StoryEngine.Text.Quoted
/-!
# StoryEngine.Argument.Token

The tokens of a tag's arguments: quoted strings, backquoted expressions, markup in square
brackets, and barewords, which go on to the next blank. Nothing but a bareword may contain what
is not closed on the same line; what is not closed becomes a bad token, which ends the scan.
-/

namespace StoryEngine

/-- The two kinds of markup in square brackets. -/
inductive MarkupKind where
  | link
  | image
deriving Repr, DecidableEq

/-- The word for the kind of markup in messages. -/
def MarkupKind.word : MarkupKind → String
  | link => "link"
  | image => "image"

/-- What is wrong with the spelling of an argument. -/
inductive ArgumentFault where
  | openBackquote
  | openDouble
  | openSingle
  /-- The second opening bracket is missing. -/
  | malformedMarkup (kind : MarkupKind)
  /-- The closing brackets are missing. -/
  | openMarkup (kind : MarkupKind)
  /-- A bracket closes that was not opened. -/
  | strayBracket
  /-- The text between the brackets is no markup. -/
  | malformedBrackets
deriving Repr, DecidableEq

/-- The wording of the fault. -/
def ArgumentFault.message : ArgumentFault → String
  | openBackquote => "unterminated backquote expression"
  | openDouble => "unterminated double quoted string"
  | openSingle => "unterminated single quoted string"
  | malformedMarkup kind => "malformed " ++ kind.word ++ " markup"
  | openMarkup kind => "unterminated " ++ kind.word ++ " markup"
  | strayBracket => "unexpected right square bracket ']'"
  | malformedBrackets => "malformed square bracket markup"

/-- What an argument token is. -/
inductive ArgumentKind where
  | bareword
  | expression
  | string
  | brackets
  /-- No argument at all. -/
  | bad (fault : ArgumentFault)
deriving Repr, DecidableEq

/-- An argument token with its place in the arguments, counted in characters. -/
structure ArgumentToken where
  kind : ArgumentKind
  text : String
  start : Nat
  stop : Nat
deriving Repr, DecidableEq

/-- How the text after a token's first character is divided: what belongs to the token, and what
is left. -/
structure ArgumentLexeme where
  kind : ArgumentKind
  more : List Char
  rest : List Char

/-- The lexeme with a character in front of what belongs to the token. -/
def ArgumentLexeme.behind (c : Char) (l : ArgumentLexeme) : ArgumentLexeme :=
  { l with more := c :: l.more }

/-- A line feed, on which an argument must be closed. -/
def isLineFeed (c : Char) : Bool :=
  c == '\n'

/-- What follows the opening quote. Without a closing one on the line, everything up to and with
the line's end is bad. -/
def quotedLexeme (quote : Char) (kind : ArgumentKind) (fault : ArgumentFault) :
    List Char → ArgumentLexeme
  | [] => ⟨.bad fault, [], []⟩
  | ['\\'] => ⟨.bad fault, ['\\'], []⟩
  | '\\' :: c :: cs =>
    if isLineFeed c then ⟨.bad fault, ['\\', c], cs⟩
    else ((quotedLexeme quote kind fault cs).behind c).behind '\\'
  | c :: cs =>
    if isLineFeed c then ⟨.bad fault, [c], cs⟩
    else if c == quote then ⟨kind, [c], cs⟩
    else (quotedLexeme quote kind fault cs).behind c

/-- What follows the opening brackets of markup, of which `depth` are still open. The markup ends
where two closing brackets in a row leave none open. -/
def bracketLexeme (kind : MarkupKind) : Nat → List Char → ArgumentLexeme
  | _, [] => ⟨.bad (.openMarkup kind), [], []⟩
  | _, ['\\'] => ⟨.bad (.openMarkup kind), ['\\'], []⟩
  | depth, '\\' :: c :: cs =>
    if isLineFeed c then ⟨.bad (.openMarkup kind), ['\\', c], cs⟩
    else ((bracketLexeme kind depth cs).behind c).behind '\\'
  | depth, '[' :: cs => (bracketLexeme kind (depth + 1) cs).behind '['
  | 0, ']' :: cs => ⟨.bad .strayBracket, [']'], cs⟩
  | 2, ']' :: ']' :: cs => ⟨.brackets, [']', ']'], cs⟩
  | depth + 1, ']' :: cs => (bracketLexeme kind depth cs).behind ']'
  | depth, c :: cs =>
    if isLineFeed c then ⟨.bad (.openMarkup kind), [c], cs⟩
    else (bracketLexeme kind depth cs).behind c

/-- The characters between the two opening brackets of image markup. -/
def isImageMark (c : Char) : Bool :=
  "<>IiMmGg".toList.contains c

/-- What follows the first opening bracket. -/
def markupLexeme (cs : List Char) : ArgumentLexeme :=
  let marks := cs.takeWhile isImageMark
  let kind : MarkupKind := if marks.isEmpty then .link else .image
  match cs.dropWhile isImageMark with
  | '[' :: rest =>
    let inside := bracketLexeme kind 2 rest
    { inside with more := marks ++ '[' :: inside.more }
  | rest => ⟨.bad (.malformedMarkup kind), marks, rest⟩

/-- The token that begins with the character, which is no blank. -/
def argumentLexeme (c : Char) (cs : List Char) : ArgumentLexeme :=
  if c == '\x60' then quotedLexeme c .expression .openBackquote cs
  else if c == '"' then quotedLexeme c .string .openDouble cs
  else if c == '\'' then quotedLexeme c .string .openSingle cs
  else if c == '[' then markupLexeme cs
  else ⟨.bareword, cs.takeWhile (!isBlank ·), cs.dropWhile (!isBlank ·)⟩

/-! ### A token and the rest are all there is -/

theorem quotedLexeme_append (quote : Char) (kind : ArgumentKind) (fault : ArgumentFault)
    (cs : List Char) :
    (quotedLexeme quote kind fault cs).more ++ (quotedLexeme quote kind fault cs).rest = cs := by
  fun_induction quotedLexeme quote kind fault cs <;>
    simp_all [ArgumentLexeme.behind]

theorem bracketLexeme_append (kind : MarkupKind) (depth : Nat) (cs : List Char) :
    (bracketLexeme kind depth cs).more ++ (bracketLexeme kind depth cs).rest = cs := by
  fun_induction bracketLexeme kind depth cs <;>
    simp_all [ArgumentLexeme.behind]

theorem markupLexeme_append (cs : List Char) :
    (markupLexeme cs).more ++ (markupLexeme cs).rest = cs := by
  have whole : cs.takeWhile isImageMark ++ cs.dropWhile isImageMark = cs :=
    List.takeWhile_append_dropWhile
  simp only [markupLexeme]
  split
  · rename_i h
    rw [h] at whole
    simp only [List.append_assoc, List.cons_append, bracketLexeme_append]
    exact whole
  · rename_i h
    exact whole

/-- Nothing is lost: a token's characters and the rest are what was there. -/
theorem argumentLexeme_append (c : Char) (cs : List Char) :
    (argumentLexeme c cs).more ++ (argumentLexeme c cs).rest = cs := by
  simp only [argumentLexeme]
  repeat' split
  all_goals
    first
      | exact quotedLexeme_append _ _ _ cs
      | exact markupLexeme_append cs
      | simp

theorem length_argumentLexeme_rest_lt {cs rest : List Char} {c : Char}
    (h : dropBlanks cs = c :: rest) : (argumentLexeme c rest).rest.length < cs.length := by
  have h₁ := congrArg List.length (argumentLexeme_append c rest)
  have h₂ := length_dropBlanks_le cs
  rw [h] at h₂
  simp only [List.length_append, List.length_cons] at h₁ h₂
  omega

/-! ### The scan -/

/-- The argument tokens of the characters, which begin at the position. A bad token is the
last. -/
def scanArguments (position : Nat) (cs : List Char) : List ArgumentToken :=
  match _ : dropBlanks cs with
  | [] => []
  | c :: rest =>
    let start := position + (cs.takeWhile isBlank).length
    let next := argumentLexeme c rest
    let stop := start + 1 + next.more.length
    let token : ArgumentToken := ⟨next.kind, String.ofList (c :: next.more), start, stop⟩
    match next.kind with
    | .bad _ => [token]
    | _ => token :: scanArguments stop next.rest
termination_by cs.length
decreasing_by all_goals exact length_argumentLexeme_rest_lt ‹_›

end StoryEngine
