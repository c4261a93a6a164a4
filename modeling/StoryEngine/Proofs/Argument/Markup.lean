import Mathlib.Data.List.Infix
import StoryEngine.Proofs.Argument.Scan
import StoryEngine.Text.Cut
/-!
# StoryEngine.Proofs.Argument.Markup

Markup in square brackets among the arguments of a call. Link markup is one argument, and it is read
as the object that says what was written (`link_markup_read`). Image markup is one argument as well,
but no object is made of it, whatever its marks and its source are (`image_markup_refused`): what
is looked for is an opening bracket right behind the first one, and where that stands the markup is
that of a link.

Markup is cut at its marks. Where a character of a mark is missing the mark does not occur, so the
first place at which the mark occurs, or the last, is known from one of its characters.
-/

namespace StoryEngine

/-! ### Texts that are cut at a mark -/

section Cut

variable {mark before after cs : List Char} {c : Char}

theorem stripStart?_append (mark cs : List Char) : stripStart? mark (mark ++ cs) = some cs := by
  rw [stripStart?, if_pos (List.isPrefixOf_iff_prefix.2 (List.prefix_append mark cs)),
    List.drop_left]

theorem stripEnd?_append (cs mark : List Char) : stripEnd? mark (cs ++ mark) = some cs := by
  rw [stripEnd?, if_pos (List.isSuffixOf_iff_suffix.2 (List.suffix_append cs mark)),
    List.length_append, Nat.add_sub_cancel, List.take_left]

/-- A text that begins otherwise than with the mark. -/
theorem stripStart?_eq_none (h : ¬ mark <+: cs) : stripStart? mark cs = none := by
  rw [stripStart?, if_neg (fun hbegins => h (List.isPrefixOf_iff_prefix.1 hbegins))]

/-! ### The first place -/

theorem cutFirst?_start (mark : List Char) (h : mark ≠ []) (after : List Char) :
    cutFirst? mark (mark ++ after) = some ([], after) := by
  obtain ⟨c, mark, rfl⟩ := List.exists_cons_of_ne_nil h
  rw [List.cons_append, cutFirst?, ← List.cons_append,
    if_pos (List.isPrefixOf_iff_prefix.2 (List.prefix_append (c :: mark) after)), List.drop_left]

/-- The mark occurs nowhere in a text without one of its characters. -/
theorem cutFirst?_eq_none (hmark : c ∈ mark) (hcs : c ∉ cs) : cutFirst? mark cs = none := by
  induction cs with
  | nil => rfl
  | cons d ds ih =>
      have hbegins : ¬ mark.isPrefixOf (d :: ds) = true := fun hbegins =>
        hcs ((List.isPrefixOf_iff_prefix.1 hbegins).subset hmark)
      rw [cutFirst?, if_neg hbegins, ih fun hmem => hcs (List.mem_cons_of_mem d hmem)]
      rfl

/-- It is found behind a text without its first character. -/
theorem cutFirst?_append (hbefore : c ∉ before) (mark after : List Char) :
    cutFirst? (c :: mark) (before ++ (c :: mark) ++ after) = some (before, after) := by
  induction before with
  | nil => exact cutFirst?_start (c :: mark) (List.cons_ne_nil c mark) after
  | cons d ds ih =>
      have hne : c ≠ d := fun h => hbefore (h ▸ List.mem_cons_self)
      have hbegins : ¬ (c :: mark).isPrefixOf (d :: (ds ++ (c :: mark) ++ after)) = true := by
        simp [hne]
      rw [List.cons_append, List.cons_append, cutFirst?, if_neg hbegins,
        ih fun hmem => hbefore (List.mem_cons_of_mem d hmem)]
      rfl

/-- A mark is found exactly if it occurs somewhere. -/
theorem hasMark_iff (h : mark ≠ []) : hasMark mark cs = true ↔ mark <:+: cs := by
  induction cs with
  | nil => simpa [hasMark, cutFirst?] using h
  | cons d ds ih =>
      rw [hasMark, Option.isSome_iff_ne_none] at ih
      rw [List.infix_cons_iff, ← List.isPrefixOf_iff_prefix, hasMark, cutFirst?]
      split
      · rename_i hbegins
        simp [hbegins]
      · rename_i hbegins
        simp [hbegins, ← ih, Option.ne_none_iff_isSome]

/-! ### The last place -/

theorem cutLast?_eq_none (hmark : c ∈ mark) (hcs : c ∉ cs) : cutLast? mark cs = none := by
  induction cs with
  | nil => rfl
  | cons d ds ih =>
      have hbegins : ¬ mark.isPrefixOf (d :: ds) = true := fun hbegins =>
        hcs ((List.isPrefixOf_iff_prefix.1 hbegins).subset hmark)
      rw [cutLast?, ih fun hmem => hcs (List.mem_cons_of_mem d hmem)]
      exact if_neg hbegins

/-- What stands before the last place may hold anything. -/
theorem cutLast?_append (h : cutLast? mark cs = some (before, after)) (front : List Char) :
    cutLast? mark (front ++ cs) = some (front ++ before, after) := by
  induction front with
  | nil => exact h
  | cons d ds ih => rw [List.cons_append, cutLast?, ih, List.cons_append]

/-- A mark of two characters is found before a text without the second. -/
theorem cutLast?_pair {d : Char} (hne : c ≠ d) (hafter : d ∉ after) (front : List Char) :
    cutLast? [c, d] (front ++ c :: d :: after) = some (front, after) := by
  have hmem : d ∈ [c, d] := by simp
  have hsecond : cutLast? [c, d] (d :: after) = none := by
    rw [cutLast?, cutLast?_eq_none hmem hafter]
    simp [hne]
  have hfirst : cutLast? [c, d] (c :: d :: after) = some ([], after) := by
    rw [cutLast?, hsecond]
    simp
  simpa using cutLast?_append hfirst front

end Cut

/-! ### What stands between brackets -/

/-- None of the signs occurs in the text. -/
def Avoids (signs s : String) : Prop :=
  ∀ c ∈ s.toList, c ∉ signs.toList

instance (signs s : String) : Decidable (Avoids signs s) :=
  decidable_of_iff (s.toList.all fun c => !signs.toList.contains c) (by simp [Avoids])

/-- The signs that the scan of markup takes notice of. -/
def bracketSigns : String :=
  "[]\\\n"

/-- These, and the signs at which link markup is divided. -/
def linkSigns : String :=
  "[]<>|\\\n"

section Avoids

variable {signs more s t : String}

theorem Avoids.not_mem {c : Char} (h : Avoids signs s) (hc : c ∈ signs.toList) : c ∉ s.toList :=
  fun hmem => h c hmem hc

theorem Avoids.mono (h : Avoids more s) (hsub : signs.toList ⊆ more.toList) : Avoids signs s :=
  fun c hc hsign => h c hc (hsub hsign)

theorem Avoids.brackets (h : Avoids linkSigns s) : Avoids bracketSigns s :=
  h.mono (by decide)

theorem Avoids.append (hs : Avoids signs s) (ht : Avoids signs t) : Avoids signs (s ++ t) := by
  intro c hc
  rw [String.toList_append, List.mem_append] at hc
  exact hc.elim (hs c) (ht c)

end Avoids

section Brackets

variable {markup : MarkupKind} {depth : Nat} {s : String}

/-- Characters of markup that neither open nor close a bracket. -/
theorem bracketLexeme_plain (h : Avoids bracketSigns s) (rest : List Char) :
    bracketLexeme markup depth (s.toList ++ rest) =
      let behind := bracketLexeme markup depth rest
      { behind with more := s.toList ++ behind.more } := by
  unfold Avoids at h
  generalize s.toList = cs at h ⊢
  induction cs with
  | nil => rfl
  | cons c cs ih =>
      obtain ⟨hc, hcs⟩ := List.forall_mem_cons.1 h
      have hsigns : c ≠ '[' ∧ c ≠ ']' ∧ c ≠ '\\' ∧ c ≠ '\n' := by
        simpa [bracketSigns] using hc
      obtain ⟨hopen, hclose, hslash, hfeed⟩ := hsigns
      have hline : ¬ isLineFeed c = true := by simpa [isLineFeed] using hfeed
      rw [List.cons_append, bracketLexeme_cons hslash hopen hclose, if_neg hline, ih hcs]
      rfl

/-- Markup ends with the brackets that close it. -/
theorem bracketLexeme_end (h : Avoids bracketSigns s) (after : List Char) :
    bracketLexeme markup 2 (s.toList ++ ']' :: ']' :: after) =
      ⟨.brackets, s.toList ++ [']', ']'], after⟩ := by
  rw [bracketLexeme_plain h]
  rfl

/-- A closing and an opening bracket in the middle cancel out. -/
theorem bracketLexeme_middle (h : Avoids bracketSigns s) (rest : List Char) :
    bracketLexeme markup 2 (s.toList ++ ']' :: '[' :: rest) =
      let behind := bracketLexeme markup 2 rest
      { behind with more := s.toList ++ ']' :: '[' :: behind.more } := by
  rw [bracketLexeme_plain h, bracketLexeme_close (by simp)]
  rfl

end Brackets

/-! ### Markup among arguments -/

/-- The text is one argument in square brackets, whatever follows. -/
def IsMarkup (text : String) : Prop :=
  ∃ cs, text.toList = '[' :: cs ∧ ∀ after, markupLexeme (cs ++ after) = ⟨.brackets, cs, after⟩

/-- Where an argument may begin, it is one of the arguments. -/
theorem scanArguments_isMarkup {text before : String} (h : IsMarkup text)
    (hbefore : EndsBetweenArguments before.toList) (after : String) :
    let stop := before.length + text.length
    scanArguments 0 (before ++ text ++ after).toList =
      scanArguments 0 before.toList ++
        ⟨.brackets, text, before.length, stop⟩ :: scanArguments stop after.toList := by
  intro stop
  obtain ⟨cs, htext, hlexeme⟩ := h
  have hdrop : dropBlanks ('[' :: (cs ++ after.toList)) = '[' :: (cs ++ after.toList) := rfl
  have hblanks : ('[' :: (cs ++ after.toList)).takeWhile isBlank = [] := rfl
  have hmarkup : argumentLexeme '[' (cs ++ after.toList) = ⟨.brackets, cs, after.toList⟩ :=
    hlexeme after.toList
  have htoken : ArgumentLexeme.token ⟨.brackets, cs, after.toList⟩ '[' before.length =
      ⟨.brackets, text, before.length, stop⟩ := by
    have hlength : text.length = 1 + cs.length := by
      rw [← String.length_toList, htext, List.length_cons, Nat.add_comm]
    rw [ArgumentLexeme.token, ← htext, String.ofList_toList, Nat.add_assoc, ← hlength]
  rw [String.toList_append, String.toList_append, List.append_assoc, htext, List.cons_append,
    scanArguments_append hbefore, scanArguments_of_lexeme hdrop, hmarkup, hblanks,
    String.length_toList, List.length_nil, Nat.add_zero, htoken]
  rfl

section Reading

variable {text before : String}

/-- If something is made of it, this stands between the values of the other arguments. -/
theorem readArguments_isMarkup (h : IsMarkup text) {value : Value}
    (hvalue : markupValue? text.toList = some value)
    (hbefore : EndsBetweenArguments before.toList) (after : String) :
    readArguments (before ++ text ++ after) = do
      let front ← tokenValues (scanArguments 0 before.toList)
      let back ← tokenValues
        (scanArguments (before.length + text.length) after.toList)
      return ⟨front ++ value :: back, before ++ text ++ after⟩ := by
  have hread (start stop : Nat) :
      ArgumentToken.value ⟨.brackets, text, start, stop⟩ = pure value := by
    simp only [ArgumentToken.value, hvalue]
  rw [readArguments, scanArguments_isMarkup h hbefore, tokenValues_append]
  simp [tokenValues, hread]

/-- If nothing is made of it, the arguments cannot be read. -/
theorem readArguments_isMarkup_none (h : IsMarkup text) (hvalue : markupValue? text.toList = none)
    (hbefore : EndsBetweenArguments before.toList) (after : String) :
    readArguments (before ++ text ++ after) = (do
      let _ ← tokenValues (scanArguments 0 before.toList)
      throw (.unreadable text .malformedBrackets)) := by
  have hread (start stop : Nat) : ArgumentToken.value ⟨.brackets, text, start, stop⟩ =
      throw (.unreadable text .malformedBrackets) := by
    simp only [ArgumentToken.value, hvalue]
  rw [readArguments, scanArguments_isMarkup h hbefore, tokenValues_append]
  simp [tokenValues, hread]

end Reading

/-- Markup is an opening bracket, marks, another opening bracket, and what is closed by two more. -/
theorem isMarkup_of_body {text : String} {marks body : List Char}
    (htext : text.toList = '[' :: (marks ++ '[' :: (body ++ [']', ']'])))
    (hmarks : ∀ c ∈ marks, isImageMark c = true)
    (hbody : ∀ markup after, bracketLexeme markup 2 (body ++ ']' :: ']' :: after) =
      ⟨.brackets, body ++ [']', ']'], after⟩) : IsMarkup text := by
  refine ⟨_, htext, fun after => ?_⟩
  have hwhole : marks ++ '[' :: (body ++ [']', ']']) ++ after =
      marks ++ '[' :: (body ++ ']' :: ']' :: after) := by
    simp
  rw [hwhole, markupLexeme_marks hmarks, hbody]

/-- Behind an opening bracket only a second one makes markup of the rest, and it is that of a
link. -/
theorem markupValue?_cons (cs : List Char) :
    markupValue? ('[' :: cs) =
      (stripStart? ['['] cs).bind fun rest => (stripEnd? [']', ']'] rest).map linkValue := by
  rw [markupValue?]
  by_cases hsecond : ['['] <+: cs
  · obtain ⟨rest, rfl⟩ := hsecond
    have hboth : stripStart? ['[', '['] ('[' :: (['['] ++ rest)) = some rest :=
      stripStart?_append ['[', '['] rest
    rw [hboth, stripStart?_append]
    rfl
  · -- the first bracket is found again, and no second one behind it
    have hboth : ¬ ['[', '['] <+: '[' :: cs := by
      rwa [List.prefix_cons_inj]
    have hfirst : cutFirst? ['['] ('[' :: cs) = some ([], cs) :=
      cutFirst?_start ['['] (List.cons_ne_nil _ _) cs
    rw [stripStart?_eq_none hboth, hfirst]
    simp [stripStart?_eq_none hsecond]

/-! ### Links -/

/-- The text and the link of link markup, as they are written. -/
inductive LinkTarget where
  /-- The link alone. -/
  | alone (link : String)
  /-- The text, a bar and the link. -/
  | bar (text link : String)
  /-- The text and an arrow to the link. -/
  | arrow (text link : String)
  /-- The link and an arrow from the text. -/
  | backArrow (link text : String)

namespace LinkTarget

/-- What is written. -/
def written : LinkTarget → String
  | alone link => link
  | bar text link => text ++ "|" ++ link
  | arrow text link => text ++ "->" ++ link
  | backArrow link text => link ++ "<-" ++ text

/-- Where it leads. -/
def link : LinkTarget → String
  | alone link | bar _ link | arrow _ link | backArrow link _ => link

/-- What is shown, if this is written. -/
def text? : LinkTarget → Option String
  | alone _ => none
  | bar text _ | arrow text _ | backArrow _ text => some text

/-- The signs of markup are not used for anything else. -/
def IsPlain (target : LinkTarget) : Prop :=
  Avoids linkSigns target.link ∧ ∀ text ∈ target.text?, Avoids linkSigns text

variable {target : LinkTarget}

theorem IsPlain.written (h : target.IsPlain) : Avoids bracketSigns target.written := by
  obtain ⟨hlink, htext⟩ := h
  cases target with
  | alone link => exact hlink.brackets
  | bar text link =>
      exact ((htext text rfl).brackets.append (by decide)).append hlink.brackets
  | arrow text link =>
      exact ((htext text rfl).brackets.append (by decide)).append hlink.brackets
  | backArrow link text =>
      exact (hlink.brackets.append (by decide)).append (htext text rfl).brackets

/-- The parts are found again. -/
theorem linkParts_written (h : target.IsPlain) :
    linkParts target.written.toList = (target.text?.map String.toList, target.link.toList) := by
  obtain ⟨hlink, htext⟩ := h
  have hbar : "|".toList ⊆ linkSigns.toList := by decide
  have hgreater : ">".toList ⊆ linkSigns.toList := by decide
  have hless : '<' ∈ linkSigns.toList := by decide
  have hnobar {s : String} (h : Avoids "|" s) : cutFirst? ['|'] s.toList = none :=
    cutFirst?_eq_none List.mem_cons_self (h.not_mem List.mem_cons_self)
  have hnoarrow {s : String} (h : Avoids ">" s) : cutLast? ['-', '>'] s.toList = none :=
    cutLast?_eq_none (by decide) (h.not_mem List.mem_cons_self)
  cases target with
  | alone link =>
      have hnoback : cutFirst? ['<', '-'] link.toList = none :=
        cutFirst?_eq_none List.mem_cons_self (hlink.not_mem hless)
      have hbars : Avoids "|" link := hlink.mono hbar
      have harrows : Avoids ">" link := hlink.mono hgreater
      rw [linkParts, written, hnobar hbars, hnoarrow harrows, hnoback]
      rfl
  | bar text link =>
      have hcut : cutFirst? ['|'] (text ++ "|" ++ link).toList =
          some (text.toList, link.toList) := by
        rw [String.toList_append, String.toList_append]
        exact cutFirst?_append ((htext text rfl).not_mem (by decide)) [] link.toList
      rw [linkParts, written, hcut]
      rfl
  | arrow text link =>
      have hbars : Avoids "|" (text ++ "->" ++ link) :=
        (((htext text rfl).mono hbar).append (by decide)).append (hlink.mono hbar)
      -- a sign of the arrow is missing in the link, so this is the last arrow
      have hcut : cutLast? ['-', '>'] (text ++ "->" ++ link).toList =
          some (text.toList, link.toList) := by
        rw [String.toList_append, String.toList_append, List.append_assoc]
        exact cutLast?_pair (by decide) (hlink.not_mem (by decide)) text.toList
      rw [linkParts, written, hnobar hbars, hcut]
      rfl
  | backArrow link text =>
      have hbars : Avoids "|" (link ++ "<-" ++ text) :=
        ((hlink.mono hbar).append (by decide)).append ((htext text rfl).mono hbar)
      have harrows : Avoids ">" (link ++ "<-" ++ text) :=
        ((hlink.mono hgreater).append (by decide)).append ((htext text rfl).mono hgreater)
      have hcut : cutFirst? ['<', '-'] (link ++ "<-" ++ text).toList =
          some (link.toList, text.toList) := by
        rw [String.toList_append, String.toList_append]
        exact cutFirst?_append (hlink.not_mem hless) ['-'] text.toList
      rw [linkParts, written, hnobar hbars, hnoarrow harrows, hcut]
      rfl

end LinkTarget

/-- Link markup, by its parts. -/
structure LinkMarkup where
  target : LinkTarget
  setter : Option String

namespace LinkMarkup

/-- What is written between the double brackets. -/
def body (markup : LinkMarkup) : String :=
  match markup.setter with
  | none => markup.target.written
  | some setter => markup.target.written ++ "][" ++ setter

/-- What is written. -/
def written (markup : LinkMarkup) : String :=
  "[[" ++ markup.body ++ "]]"

/-- The signs of markup are not used for anything else. -/
def IsPlain (markup : LinkMarkup) : Prop :=
  markup.target.IsPlain ∧ ∀ setter ∈ markup.setter, Avoids bracketSigns setter

/-- What the object that describes the link says under a name. -/
def member? (markup : LinkMarkup) : String → Option Value
  | "isLink" => some (.bool true)
  | "link" => some (.string markup.target.link)
  | "text" => some (.string (markup.target.text?.getD markup.target.link))
  | "count" => some (.int (if markup.target.text?.isSome then 2 else 1))
  | "external" => some (.bool (decide ("://".toList <:+: markup.target.link.toList)))
  | "setter" => markup.setter.map .string
  | _ => none

variable {markup : LinkMarkup}

theorem isMarkup_written (h : markup.IsPlain) : IsMarkup markup.written := by
  obtain ⟨htarget, hsetter⟩ := h
  have htext : markup.written.toList =
      '[' :: ([] ++ '[' :: (markup.body.toList ++ [']', ']'])) := by
    simp [written]
  refine isMarkup_of_body htext nofun fun kind after => ?_
  unfold body
  split
  · exact bracketLexeme_end htarget.written after
  · rename_i setter hset
    have hplain : Avoids bracketSigns setter := hsetter setter hset
    have hbody : (markup.target.written ++ "][" ++ setter).toList =
        markup.target.written.toList ++ ']' :: '[' :: setter.toList := by
      simp
    rw [hbody, List.append_assoc, List.cons_append, List.cons_append,
      bracketLexeme_middle htarget.written, bracketLexeme_end hplain]
    simp

/-- The members of the object, in the order in which they are put into it. -/
def pairs (markup : LinkMarkup) : List (String × Value) :=
  [("isLink", .bool true),
    ("count", .int (if markup.target.text?.isSome then 2 else 1)),
    ("link", .string markup.target.link),
    ("text", .string (markup.target.text?.getD markup.target.link)),
    ("external", .bool (decide ("://".toList <:+: markup.target.link.toList)))] ++
  (markup.setter.map fun setter => ("setter", Value.string setter)).toList

theorem linkValue_body (h : markup.IsPlain) :
    linkValue markup.body.toList = .object (Entries.ofPairs markup.pairs) := by
  obtain ⟨htarget, -⟩ := h
  have hparts := LinkTarget.linkParts_written htarget
  have hclose : ']' ∉ markup.target.written.toList := htarget.written.not_mem (by decide)
  have hexternal : hasMark [':', '/', '/'] markup.target.link.toList =
      decide ("://".toList <:+: markup.target.link.toList) := by
    rw [Bool.eq_iff_iff, hasMark_iff (by decide), decide_eq_true_iff]
    rfl
  unfold linkValue pairs
  cases hset : markup.setter with
  | none =>
      have hbody : markup.body = markup.target.written := by rw [body, hset]
      rw [hbody, cutFirst?_eq_none List.mem_cons_self hclose]
      simp [hparts, hexternal, Option.getD_map]
  | some setter =>
      have hbody : markup.body.toList =
          markup.target.written.toList ++ [']', '['] ++ setter.toList := by
        simp [body, hset]
      rw [hbody, cutFirst?_append hclose]
      simp [hparts, hexternal, Option.getD_map]

/-- The object says under every name what it should. -/
theorem find?_pairs (markup : LinkMarkup) (name : String) :
    Entries.find? name (Entries.ofPairs markup.pairs) = markup.member? name := by
  rw [Entries.find?_ofPairs, pairs, member?.eq_def]
  generalize Value.int (if markup.target.text?.isSome then 2 else 1) = count
  cases markup.setter with
  | none =>
      split
      case h_7 hisLink hlink htext hcount hexternal _ =>
        rw [List.lookup_eq_none_iff]
        simpa using ⟨hexternal, htext, hlink, hcount, hisLink⟩
      all_goals rfl
  | some setter =>
      split
      case h_7 hisLink hlink htext hcount hexternal hsetter =>
        rw [List.lookup_eq_none_iff]
        simpa using ⟨hsetter, hexternal, htext, hlink, hcount, hisLink⟩
      all_goals rfl

end LinkMarkup

/-- Link markup is one argument wherever an argument may begin, and is read as the object that says
what was written. The other arguments are read as if it were not there. -/
theorem link_markup_read {markup : LinkMarkup} (h : markup.IsPlain) {before : String}
    (hbefore : EndsBetweenArguments before.toList) (after : String) :
    let text := markup.written
    let raw := before ++ text ++ after
    let stop := before.length + text.length
    let front := scanArguments 0 before.toList
    let back := scanArguments stop after.toList
    scanArguments 0 raw.toList = front ++ ⟨.brackets, text, before.length, stop⟩ :: back ∧
      ∃ members, (∀ name, Entries.find? name members = markup.member? name) ∧
        readArguments raw = do
          let first ← tokenValues front
          let last ← tokenValues back
          return ⟨first ++ .object members :: last, raw⟩ := by
  intro text raw stop front back
  have hmarkup := LinkMarkup.isMarkup_written h
  have hvalue : markupValue? text.toList = some (.object (Entries.ofPairs markup.pairs)) := by
    have htext : text.toList = '[' :: (['['] ++ (markup.body.toList ++ [']', ']'])) := by
      simp [text, LinkMarkup.written]
    rw [htext, markupValue?_cons, stripStart?_append, Option.bind_some, stripEnd?_append,
      Option.map_some, LinkMarkup.linkValue_body h]
  exact ⟨scanArguments_isMarkup hmarkup hbefore after, _, markup.find?_pairs,
    readArguments_isMarkup hmarkup hvalue hbefore after⟩

/-- A link out of the story, with a setter, between two other arguments. -/
theorem link_markup_read_setter :
    let markup : LinkMarkup := ⟨.arrow "a-" "http://b", some "$c to 1"⟩
    markup.IsPlain ∧ EndsBetweenArguments "x ".toList ∧
      ∃ members, (∀ name, Entries.find? name members = markup.member? name) ∧
        ∀ s, readArguments "x [[a-->http://b][$c to 1]] y" s =
          (.ok ⟨[.string "x", .object members, .string "y"], "x [[a-->http://b][$c to 1]] y"⟩,
            s) := by
  intro markup
  have hplain : markup.IsPlain := by
    refine ⟨⟨by decide, ?_⟩, ?_⟩
    · rintro _ ⟨⟩
      decide
    · rintro _ ⟨⟩
      decide
  have hbefore : EndsBetweenArguments "x ".toList := by decide +kernel
  obtain ⟨-, members, hmembers, hread⟩ := link_markup_read hplain hbefore " y"
  refine ⟨hplain, hbefore, members, hmembers, fun s => ?_⟩
  have hfront : scanArguments 0 "x ".toList = [⟨.bareword, "x", 0, 1⟩] := by decide +kernel
  have hback : scanArguments ("x ".length + markup.written.length) " y".toList =
      [⟨.bareword, "y", 28, 29⟩] := by
    decide +kernel
  rw [hfront, hback] at hread
  exact congrFun hread s

/-! ### Images -/

/-- Image markup, by its marks and its source. -/
def imageMarkup (marks source : String) : String :=
  "[" ++ marks ++ "[" ++ source ++ "]]"

/-- Image markup is one argument wherever an argument may begin, but it is never read: after the
arguments before it, it is refused as malformed. -/
theorem image_markup_refused {marks source before : String} (hsome : marks ≠ "")
    (hmarks : marks.toList.all isImageMark = true) (hsource : Avoids bracketSigns source)
    (hbefore : EndsBetweenArguments before.toList) (after : String) :
    let text := imageMarkup marks source
    let raw := before ++ text ++ after
    let stop := before.length + text.length
    let front := scanArguments 0 before.toList
    scanArguments 0 raw.toList =
        front ++ ⟨.brackets, text, before.length, stop⟩ :: scanArguments stop after.toList ∧
      readArguments raw = (do
        let _ ← tokenValues front
        throw (.unreadable text .malformedBrackets)) := by
  intro text raw stop front
  have htext : text.toList = '[' :: (marks.toList ++ '[' :: (source.toList ++ [']', ']'])) := by
    simp [text, imageMarkup]
  have hmarkup : IsMarkup text :=
    isMarkup_of_body htext (List.all_eq_true.1 hmarks) fun _ => bracketLexeme_end hsource
  -- the first mark stands where the second bracket is looked for
  have hsecond : ¬ ['['] <+: marks.toList ++ '[' :: (source.toList ++ [']', ']']) := by
    obtain ⟨c, cs, hcs⟩ := List.exists_cons_of_ne_nil (mt String.toList_eq_nil_iff.1 hsome)
    have hmark := List.all_eq_true.1 hmarks c (hcs ▸ List.mem_cons_self)
    rw [hcs, List.cons_append, List.cons_prefix_cons]
    rintro ⟨rfl, -⟩
    cases hmark
  have hvalue : markupValue? text.toList = none := by
    rw [htext, markupValue?_cons, stripStart?_eq_none hsecond]
    rfl
  exact ⟨scanArguments_isMarkup hmarkup hbefore after,
    readArguments_isMarkup_none hmarkup hvalue hbefore after⟩

/-- The usual mark. -/
theorem image_markup_refused_img :
    "img" ≠ "" ∧ "img".toList.all isImageMark = true ∧ Avoids bracketSigns "a.png" ∧
      EndsBetweenArguments "x ".toList ∧
      ∀ s, readArguments "x [img[a.png]] y" s =
        (.error (.unreadable "[img[a.png]]" .malformedBrackets), s) := by
  have hmarks : "img".toList.all isImageMark = true := by decide
  have hsource : Avoids bracketSigns "a.png" := by decide
  have hbefore : EndsBetweenArguments "x ".toList := by decide +kernel
  have hread := (image_markup_refused (by decide) hmarks hsource hbefore " y").2
  have hfront : scanArguments 0 "x ".toList = [⟨.bareword, "x", 0, 1⟩] := by decide +kernel
  rw [hfront] at hread
  exact ⟨by decide, hmarks, hsource, hbefore, congrFun hread⟩

/-- An image alone. -/
theorem image_unread :
    scanArguments 0 "[img[a.png]]".toList = [⟨.brackets, "[img[a.png]]", 0, 12⟩] ∧
      ∀ s, readArguments "[img[a.png]]" s =
        (.error (.unreadable "[img[a.png]]" .malformedBrackets), s) := by
  have hscan : scanArguments 0 "[img[a.png]]".toList = [⟨.brackets, "[img[a.png]]", 0, 12⟩] := by
    decide +kernel
  refine ⟨hscan, fun s => ?_⟩
  rw [readArguments, hscan]
  rfl

end StoryEngine
