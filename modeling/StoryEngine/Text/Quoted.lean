/-!
# StoryEngine.Text.Quoted

Text between quotes, in which a backslash takes the next character with it. `spanQuoted?` finds
the closing quote and `readEscapes` gives the characters that the inside stands for.
-/

namespace StoryEngine

/-- The characters up to and with the closing quote, and those after it. A backslash and the
character behind it stay together. There is no closing quote beyond a character that may not
stand there: `bare` for one of its own, `escaped` for one behind a backslash. -/
def spanQuoted? (quote : Char) (bare escaped : Char → Bool) :
    List Char → Option (List Char × List Char)
  | [] => none
  | ['\\'] => none
  | '\\' :: c :: cs =>
    if escaped c then none
    else (spanQuoted? quote bare escaped cs).map fun (inside, rest) => ('\\' :: c :: inside, rest)
  | c :: cs =>
    if c == quote then some ([c], cs)
    else if bare c then none
    else (spanQuoted? quote bare escaped cs).map fun (inside, rest) => (c :: inside, rest)

/-- No character is refused. -/
def noChar (_ : Char) : Bool := false

theorem spanQuoted?_append {quote : Char} {bare escaped : Char → Bool} {cs inside rest : List Char}
    (h : spanQuoted? quote bare escaped cs = some (inside, rest)) : inside ++ rest = cs := by
  fun_induction spanQuoted? quote bare escaped cs generalizing inside rest with
  | case1 => simp at h
  | case2 => simp at h
  | case3 => simp at h
  | case4 c cs _ ih =>
    simp only [Option.map_eq_some_iff] at h
    obtain ⟨⟨a, b⟩, hab, heq⟩ := h
    simp only [Prod.mk.injEq] at heq
    obtain ⟨rfl, rfl⟩ := heq
    simp [ih hab]
  | case5 =>
    simp only [Option.some.injEq, Prod.mk.injEq] at h
    obtain ⟨rfl, rfl⟩ := h
    rfl
  | case6 => simp at h
  | case7 c cs _ _ _ _ ih =>
    simp only [Option.map_eq_some_iff] at h
    obtain ⟨⟨a, b⟩, hab, heq⟩ := h
    simp only [Prod.mk.injEq] at heq
    obtain ⟨rfl, rfl⟩ := heq
    simp [ih hab]

/-- The character that an escape stands for: `n`, `t`, `r` and `0` have a meaning, any other
character stands for itself. -/
def escapeMeaning (c : Char) : Char :=
  if c == 'n' then '\n'
  else if c == 't' then '\t'
  else if c == 'r' then '\r'
  else if c == '0' then Char.ofNat 0
  else c

/-- The characters that the inside of a quoted text stands for. A backslash at the very end
stands for itself. -/
def readEscapes : List Char → List Char
  | [] => []
  | ['\\'] => ['\\']
  | '\\' :: c :: cs => escapeMeaning c :: readEscapes cs
  | c :: cs => c :: readEscapes cs

end StoryEngine
