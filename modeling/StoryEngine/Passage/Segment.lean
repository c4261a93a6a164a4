import StoryEngine.Text.Blank
import StoryEngine.Text.Quoted
/-!
# StoryEngine.Passage.Segment

Passage source, divided into text and tags. A tag is `<<`, a name, arguments and `>>`; quoted
strings, backquoted expressions, comments and link markup among the arguments may contain `>>`. A
`<<` that opens no tag is text by itself, and the text between tags is as long as it can be. The
segments tile the source.
-/

namespace StoryEngine

/-- A tag with its place in the source, counted in UTF-8 bytes. -/
structure Tag where
  name : String
  /-- The arguments as written, without the blanks before them. -/
  args : String
  /-- The whole tag as written. -/
  source : String
  start : Nat
  stop : Nat
deriving Repr, DecidableEq

/-- A piece of passage source. -/
inductive Segment where
  | text (s : String)
  | tag (t : Tag)
deriving Repr, DecidableEq

/-- The source that the segment was read from. -/
def Segment.source : Segment → String
  | .text s => s
  | .tag t => t.source

/-- The tag closes a macro of the name: `/name` or `endname`. -/
def Tag.closes (tag : Tag) (name : String) : Bool :=
  match tag.name.toList with
  | '/' :: rest => rest == name.toList
  | 'e' :: 'n' :: 'd' :: rest => rest == name.toList
  | _ => false

/-! ### The parts of a tag -/

/-- The characters that tag names go on with. -/
def isTagNameChar (c : Char) : Bool :=
  c.isAlphanum || c == '_' || c == '-'

/-- A name of letters, with what follows it. -/
def spanWordName? : List Char → Option (List Char × List Char)
  | [] => none
  | c :: cs =>
    if c.isAlpha then some (c :: cs.takeWhile isTagNameChar, cs.dropWhile isTagNameChar)
    else none

/-- The name of a tag, with what follows it: a word, a word behind a slash, `=` or `-`. -/
def spanTagName? : List Char → Option (List Char × List Char)
  | '/' :: cs => (spanWordName? cs).map fun (name, rest) => ('/' :: name, rest)
  | '=' :: cs => some (['='], cs)
  | '-' :: cs => some (['-'], cs)
  | cs => spanWordName? cs

/-- A line end, which may not stand unescaped between quotes. -/
def isLineEnd (c : Char) : Bool :=
  c == '\n' || c == '\r'

/-- The characters up to and with the two closing ones, and those after them. -/
def spanUntilPair? (first second : Char) : List Char → Option (List Char × List Char)
  | [] => none
  | [_] => none
  | a :: b :: cs =>
    if a == first && b == second then some ([a, b], cs)
    else (spanUntilPair? first second (b :: cs)).map fun (inside, rest) => (a :: inside, rest)

/-- What follows the opening character of a piece of arguments that may contain `>>`, up to the
end of the piece. -/
def spanPiece? (c : Char) (cs : List Char) : Option (List Char × List Char) :=
  if c == '"' || c == '\'' then spanQuoted? c isLineEnd noChar cs
  else if c == '\x60' then spanQuoted? c noChar noChar cs
  else
    match cs with
    | d :: rest =>
      if c == '/' && d == '*' then
        (spanUntilPair? '*' '/' rest).map fun (inside, rest) => (d :: inside, rest)
      else if c == '[' && d == '[' then
        (spanUntilPair? ']' ']' rest).map fun (inside, rest) => (d :: inside, rest)
      else none
    | [] => none

theorem spanUntilPair?_append {first second : Char} {cs inside rest : List Char}
    (h : spanUntilPair? first second cs = some (inside, rest)) : inside ++ rest = cs := by
  fun_induction spanUntilPair? first second cs generalizing inside rest with
  | case1 => simp at h
  | case2 => simp at h
  | case3 =>
    simp only [Option.some.injEq, Prod.mk.injEq] at h
    obtain ⟨rfl, rfl⟩ := h
    rfl
  | case4 a b cs _ ih =>
    simp only [Option.map_eq_some_iff] at h
    obtain ⟨⟨x, y⟩, hxy, heq⟩ := h
    simp only [Prod.mk.injEq] at heq
    obtain ⟨rfl, rfl⟩ := heq
    simp [ih hxy]

theorem spanPiece?_append {c : Char} {cs inside rest : List Char}
    (h : spanPiece? c cs = some (inside, rest)) : inside ++ rest = cs := by
  unfold spanPiece? at h
  split at h
  · exact spanQuoted?_append h
  · split at h
    · exact spanQuoted?_append h
    · split at h
      · repeat' split at h
        all_goals
          first
            | (simp only [Option.map_eq_some_iff] at h
               obtain ⟨⟨x, y⟩, hxy, heq⟩ := h
               simp only [Prod.mk.injEq] at heq
               obtain ⟨rfl, rfl⟩ := heq
               simp [spanUntilPair?_append hxy])
            | simp at h
      · simp at h

theorem length_spanPiece?_le {c : Char} {cs inside rest : List Char}
    (h : spanPiece? c cs = some (inside, rest)) : rest.length ≤ cs.length := by
  have := congrArg List.length (spanPiece?_append h)
  simp only [List.length_append] at this
  omega

/-- The arguments of a tag up to its end, and what follows the tag. -/
def spanArguments? (cs : List Char) : Option (List Char × List Char) :=
  match cs with
  | [] => none
  | '>' :: '>' :: rest => some ([], rest)
  | c :: rest =>
    match _ : spanPiece? c rest with
    | some (inside, after) =>
      (spanArguments? after).map fun (args, final) => (c :: inside ++ args, final)
    | none => (spanArguments? rest).map fun (args, final) => (c :: args, final)
termination_by cs.length
decreasing_by
  · have := length_spanPiece?_le ‹_›
    simp only [List.length_cons]
    omega
  · simp

theorem spanArguments?_append {cs args rest : List Char}
    (h : spanArguments? cs = some (args, rest)) : args ++ '>' :: '>' :: rest = cs := by
  fun_induction spanArguments? cs generalizing args rest with
  | case1 => simp at h
  | case2 =>
    simp only [Option.some.injEq, Prod.mk.injEq] at h
    obtain ⟨rfl, rfl⟩ := h
    rfl
  | case3 c cs _ inside after hp ih =>
    simp only [Option.map_eq_some_iff] at h
    obtain ⟨⟨x, y⟩, hxy, heq⟩ := h
    simp only [Prod.mk.injEq] at heq
    obtain ⟨rfl, rfl⟩ := heq
    simp [ih hxy, spanPiece?_append hp]
  | case4 c cs _ _ ih =>
    simp only [Option.map_eq_some_iff] at h
    obtain ⟨⟨x, y⟩, hxy, heq⟩ := h
    simp only [Prod.mk.injEq] at heq
    obtain ⟨rfl, rfl⟩ := heq
    simp [ih hxy]

/-- The name and the arguments of the tag that the characters behind a `<<` make, and what
follows the tag. -/
def spanTag? (cs : List Char) : Option (List Char × List Char × List Char) :=
  match spanTagName? cs with
  | none => none
  | some (name, afterName) =>
    match spanArguments? afterName with
    | none => none
    | some (args, rest) => some (name, args, rest)

theorem spanWordName?_append {cs name rest : List Char}
    (h : spanWordName? cs = some (name, rest)) : name ++ rest = cs := by
  cases cs with
  | nil => simp [spanWordName?] at h
  | cons c cs =>
    simp only [spanWordName?] at h
    split at h
    · simp only [Option.some.injEq, Prod.mk.injEq] at h
      obtain ⟨rfl, rfl⟩ := h
      simp
    · simp at h

theorem spanTagName?_append {cs name rest : List Char}
    (h : spanTagName? cs = some (name, rest)) : name ++ rest = cs := by
  unfold spanTagName? at h
  split at h
  · simp only [Option.map_eq_some_iff] at h
    obtain ⟨⟨x, y⟩, hxy, heq⟩ := h
    simp only [Prod.mk.injEq] at heq
    obtain ⟨rfl, rfl⟩ := heq
    simp [spanWordName?_append hxy]
  · simp only [Option.some.injEq, Prod.mk.injEq] at h
    obtain ⟨rfl, rfl⟩ := h
    rfl
  · simp only [Option.some.injEq, Prod.mk.injEq] at h
    obtain ⟨rfl, rfl⟩ := h
    rfl
  · exact spanWordName?_append h

theorem spanTag?_append {cs name args rest : List Char}
    (h : spanTag? cs = some (name, args, rest)) : name ++ args ++ '>' :: '>' :: rest = cs := by
  unfold spanTag? at h
  split at h
  · simp at h
  · rename_i name' afterName hn
    split at h
    · simp at h
    · rename_i args' rest' ha
      simp only [Option.some.injEq, Prod.mk.injEq] at h
      obtain ⟨rfl, rfl, rfl⟩ := h
      rw [List.append_assoc, spanArguments?_append ha, spanTagName?_append hn]

/-! ### Segments -/

/-- The characters up to the next `<<`, and those from there on. -/
def spanText : List Char → List Char × List Char
  | [] => ([], [])
  | '<' :: '<' :: cs => ([], '<' :: '<' :: cs)
  | c :: cs =>
    let (run, rest) := spanText cs
    (c :: run, rest)

theorem spanText_append (cs : List Char) : (spanText cs).1 ++ (spanText cs).2 = cs := by
  fun_induction spanText cs with
  | case1 => rfl
  | case2 => rfl
  | case3 c cs _ run rest h ih =>
    rw [h] at ih
    simp [ih]

/-- How many bytes the characters take in UTF-8. -/
def utf8Length (cs : List Char) : Nat :=
  cs.foldl (fun n c => n + c.utf8Size) 0

theorem length_spanTag?_lt {cs name args rest : List Char}
    (h : spanTag? cs = some (name, args, rest)) : rest.length < cs.length := by
  have := congrArg List.length (spanTag?_append h)
  simp only [List.length_append, List.length_cons] at this
  omega

theorem length_spanText_le (cs : List Char) : (spanText cs).2.length ≤ cs.length := by
  have := congrArg List.length (spanText_append cs)
  simp only [List.length_append] at this
  omega

/-- The segments of the characters, which begin at the byte offset. -/
def segmentsFrom (start : Nat) (cs : List Char) : List Segment :=
  match cs with
  | [] => []
  | '<' :: '<' :: inner =>
    match _ : spanTag? inner with
    | some (name, args, rest) =>
      let source := '<' :: '<' :: name ++ args ++ ['>', '>']
      let stop := start + utf8Length source
      .tag ⟨String.ofList name, String.ofList (dropBlanks args), String.ofList source, start, stop⟩
        :: segmentsFrom stop rest
    | none => .text "<<" :: segmentsFrom (start + 2) inner
  | c :: rest =>
    let run := c :: (spanText rest).1
    .text (String.ofList run) :: segmentsFrom (start + utf8Length run) (spanText rest).2
termination_by cs.length
decreasing_by
  · have := length_spanTag?_lt ‹_›
    simp only [List.length_cons]
    omega
  · simp only [List.length_cons]
    omega
  · have := length_spanText_le rest
    simp only [List.length_cons]
    omega

/-- The segments of a passage source. -/
def segmentsOf (source : String) : List Segment :=
  segmentsFrom 0 source.toList

end StoryEngine
