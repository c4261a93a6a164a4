/-!
# StoryEngine.Name

The grammars of names. A macro is named by a letter followed by letters, digits, underscores and
hyphens, or by one of the signs `=` and `-`. A variable is a sigil, `$` for story variables and
`_` for temporary ones, followed by at least one more character and with no digit right after
the sigil. Only ASCII letters and digits take part.
-/

namespace StoryEngine

/-- A letter, digit, underscore or hyphen. -/
def isMacroNameChar (c : Char) : Bool :=
  c.isAlphanum || c == '_' || c == '-'

/-- The text is a valid macro name. -/
def isMacroName (name : String) : Bool :=
  match name.toList with
  | [] => false
  | ['='] => true
  | ['-'] => true
  | c :: cs => c.isAlpha && cs.all isMacroNameChar

/-- The characters that variables begin with. -/
def isSigil (c : Char) : Bool :=
  c == '$' || c == '_'

/-- The characters that may follow the sigil of a variable. -/
def isVariableStart (c : Char) : Bool :=
  c.isAlpha || c == '_' || c == '$'

/-- The characters that may stand further on in a variable. -/
def isVariablePart (c : Char) : Bool :=
  c.isAlphanum || c == '_' || c == '$'

/-- The characters are a variable. -/
def isVariableChars : List Char → Bool
  | sigil :: c :: cs => isSigil sigil && isVariableStart c && cs.all isVariablePart
  | _ => false

/-- The text is a variable. -/
def isVariable (name : String) : Bool :=
  isVariableChars name.toList

/-- The variables in a text: from left to right, each as long as possible, the search going on
right after each of them. -/
def variablesInChars : List Char → List (List Char)
  | sigil :: c :: cs =>
    if isSigil sigil && isVariableStart c then
      (sigil :: c :: cs.takeWhile isVariablePart) ::
        variablesInChars (cs.dropWhile isVariablePart)
    else variablesInChars (c :: cs)
  | _ => []
termination_by cs => cs.length
decreasing_by
  · have := (List.dropWhile_sublist isVariablePart (l := cs)).length_le
    simp only [List.length_cons]
    omega
  · simp

/-- The variables in a text, from left to right. -/
def variablesIn (text : String) : List String :=
  (variablesInChars text.toList).map String.ofList

end StoryEngine
