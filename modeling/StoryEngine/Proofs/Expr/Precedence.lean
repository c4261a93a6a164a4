import StoryEngine.Proofs.Expr.Spelled
/-!
# StoryEngine.Proofs.Expr.Precedence

The parser implements the table of levels: what is written with parentheses only where they are
needed is read back as the expression that was written (`parseStatements_spelledText`), as far as it
does not nest too deep. How much room an expression needs can be told from its tree (`Expr.room`),
and is at most the number of operators and parentheses it is written with.

Room is counted along the way that the parser takes. A unary operator, an assignment and a
parenthesis pass on what is left. Of a chain, every link has one level less than the one before, but
the first operand has all the room that the chain has.
-/

namespace StoryEngine

/-! ### The room that an expression needs -/

namespace Expr

/-- The number of links that the chain of the level has at the root of the expression. -/
def links (level : Nat) : Expr → Nat
  | binary op l _ => if op.level = level then l.links level + 1 else 0
  | _ => 0

/-- The room that parentheses around the expression take in a place of the level. -/
def parensRoom (level : Nat) (e : Expr) : Nat :=
  if level < e.level then 1 else 0

/-- The levels of room that it takes to read the expression. -/
def room : Expr → Nat
  | literal _ => 0
  | var _ => 0
  | not e => e.room + parensRoom 0 e + 1
  | neg e => e.room + parensRoom 0 e + 1
  | defined _ e => e.room + parensRoom 0 e + 1
  | binary op l r =>
    max (l.room + parensRoom op.level l)
      (l.links op.level + 1 + (r.room + parensRoom (op.level - 1) r))
  | assign _ _ e => e.room + 1

theorem links_eq_zero {level : Nat} {e : Expr} (h : e.level ≠ level) : e.links level = 0 := by
  cases e with
  | binary op l r => exact if_neg h
  | _ => rfl

theorem links_le_room (level : Nat) (e : Expr) : e.links level ≤ e.room := by
  cases e with
  | binary op l r =>
      rw [links]
      split
      · rename_i hlevel
        subst hlevel
        rw [room]
        omega
      · exact Nat.zero_le _
  | _ => exact Nat.zero_le _

@[simp] theorem parensRoom_assignmentLevel (e : Expr) : parensRoom assignmentLevel e = 0 :=
  if_neg e.level_le.not_gt

end Expr

/-! ### Spellings of operators -/

theorem BinaryOp.eq_of_spelling {op op' : BinaryOp} {spelling : String}
    (h : spelling ∈ op.spellings) (h' : spelling ∈ op'.spellings) : op = op' := by
  have hall : ∀ op ∈ all, ∀ op' ∈ all, ∀ spelling ∈ op.spellings, spelling ∈ op'.spellings →
      op = op' := by decide
  exact hall op op.mem_all op' op'.mem_all spelling h h'

theorem BinaryOp.ofSpelling?_of_mem {op : BinaryOp} {spelling : String}
    (h : spelling ∈ op.spellings) : ofSpelling? op.level spelling = some op := by
  have hall : ∀ op ∈ all, ∀ spelling ∈ op.spellings, ofSpelling? op.level spelling = some op := by
    decide
  exact hall op op.mem_all spelling h

theorem BinaryOp.ofSpelling?_of_ne {op : BinaryOp} {spelling : String} {level : Nat}
    (h : spelling ∈ op.spellings) (hlevel : level ≠ op.level) :
    ofSpelling? level spelling = none := by
  rw [ofSpelling?, List.find?_eq_none]
  intro op' _ hop'
  simp only [Bool.and_eq_true, beq_iff_eq, List.contains_iff_mem] at hop'
  exact hlevel (eq_of_spelling h hop'.2 ▸ hop'.1.symm)

theorem BinaryOp.ofSpelling?_zero (spelling : String) : ofSpelling? 0 spelling = none := by
  rw [ofSpelling?, List.find?_eq_none]
  intro op _ hop
  simp only [Bool.and_eq_true, beq_iff_eq] at hop
  have := op.one_le_level
  omega

theorem UnaryOp.ofSpelling?_of_mem {op : UnaryOp} {spelling : String}
    (h : spelling ∈ op.spellings) : ofSpelling? spelling = some op := by
  have hall : ∀ op ∈ all, ∀ spelling ∈ op.spellings, ofSpelling? spelling = some op := by decide
  exact hall op op.mem_all spelling h

theorem AssignOp.ofSpelling?_of_mem {op : AssignOp} {spelling : String}
    (h : spelling ∈ op.spellings) : ofSpelling? spelling = some op := by
  have hall : ∀ op ∈ all, ∀ spelling ∈ op.spellings, ofSpelling? spelling = some op := by decide
  exact hall op op.mem_all spelling h

/-- No spelling is one of an assignment and of a binary operator. -/
theorem AssignOp.ofSpelling?_binary {op : AssignOp} {spelling : String}
    (h : spelling ∈ op.spellings) (level : Nat) : BinaryOp.ofSpelling? level spelling = none := by
  have hall : ∀ op ∈ all, ∀ spelling ∈ op.spellings, ∀ op' ∈ BinaryOp.all,
      spelling ∉ op'.spellings := by decide
  rw [BinaryOp.ofSpelling?, List.find?_eq_none]
  intro op' hmem hop'
  simp only [Bool.and_eq_true, List.contains_iff_mem] at hop'
  exact hall op op.mem_all spelling h op' hmem hop'.2

namespace Token

variable {α : Type} {find? : String → Option α} {token : Token}

theorem spelled?_operator {spelling : String} (h : token.piece = .operator spelling) :
    token.spelled? find? = find? spelling := by
  obtain ⟨hkind, htext⟩ : token.kind = (Piece.operator spelling).kind ∧ token.text = spelling :=
    Piece.mk.injEq .. ▸ h
  rw [spelled?, hkind, htext, Piece.operator]
  by_cases hsign : headIs isOperatorSign spelling.toList
  · simp [hsign]
  · simp [hsign]

theorem spelled?_of_kind (hoperator : token.kind ≠ .operator) (hword : token.kind ≠ .word) :
    token.spelled? find? = none := by
  rw [spelled?]
  split <;> simp_all

end Token

/-! ### Reading in a place -/

namespace Grammar

/-- What is left for the parts of what is read with the room. -/
def below : Nat → Grammar
  | 0 => noRoom
  | room + 1 => withRoom room

theorem withRoom_eq_deepen (room : Nat) : withRoom room = deepen (below room) := by
  cases room <;> rfl

/-- No binary operator of a level tighter than the given one follows. -/
def Stops (level : Nat) (rest : List Token) : Prop :=
  ∀ token ∈ rest.head?, ∀ j < level, token.spelled? (BinaryOp.ofSpelling? j) = none

/-- No binary operator and no assignment operator follows. -/
def Ends (rest : List Token) : Prop :=
  ∀ token ∈ rest.head?, (∀ level, token.spelled? (BinaryOp.ofSpelling? level) = none) ∧
    token.spelled? AssignOp.ofSpelling? = none

theorem Ends.stops {rest : List Token} (h : Ends rest) (level : Nat) : Stops level rest :=
  fun token htoken j _ => (h token htoken).1 j

theorem Stops.mono {level level' : Nat} {rest : List Token} (h : Stops level rest)
    (hle : level' ≤ level) : Stops level' rest :=
  fun token htoken j hj => h token htoken j (hj.trans_le hle)

theorem stops_one (rest : List Token) : Stops 1 rest := by
  intro token _ j hj
  obtain rfl : j = 0 := by omega
  rw [Token.spelled?]
  split <;> simp only [BinaryOp.ofSpelling?_zero]

theorem stops_operator {op : BinaryOp} {spelling : String} (hspelling : spelling ∈ op.spellings)
    {token : Token} (htoken : token.piece = .operator spelling) (rest : List Token) :
    Stops op.level (token :: rest) := by
  intro token' htoken' j hj
  obtain rfl : token = token' := by simpa using htoken'
  rw [Token.spelled?_operator htoken, BinaryOp.ofSpelling?_of_ne hspelling hj.ne]

theorem stops_assignOp {op : AssignOp} {spelling : String} (hspelling : spelling ∈ op.spellings)
    {token : Token} (htoken : token.piece = .operator spelling) (level : Nat) (rest : List Token) :
    Stops level (token :: rest) := by
  intro token' htoken' j _
  obtain rfl : token = token' := by simpa using htoken'
  rw [Token.spelled?_operator htoken, AssignOp.ofSpelling?_binary hspelling]

theorem ends_closeParen {token : Token} (htoken : token.piece = .closeParen) (rest : List Token) :
    Ends (token :: rest) := by
  intro token' htoken'
  obtain rfl : token = token' := by simpa using htoken'
  have hkind : token.kind = .closeParen := congrArg Piece.kind htoken
  have hnone {α : Type} (find? : String → Option α) : token.spelled? find? = none :=
    Token.spelled?_of_kind (by rw [hkind]; nofun) (by rw [hkind]; nofun)
  exact ⟨fun _ => hnone _, hnone _⟩

theorem chain_of_stops {level j : Nat} {rest : List Token} (h : Stops level rest) (hj : j < level)
    (room : Nat) (e : Expr) : (withRoom room).chain j e rest = .ok (e, rest) := by
  rw [withRoom_eq_deepen]
  show Grammar.links (below room) j e rest = _
  cases rest with
  | nil => rfl
  | cons token rest => rw [Grammar.links, h token rfl j hj]

/-- As an operand of the level, the tokens are read as the expression if there is the room. What
follows is read as more links of the chain of the level, with one level less for each of those that
the expression begins with. -/
def ReadsOperand (level room : Nat) (e : Expr) (tokens : List Token) : Prop :=
  ∀ given rest, Stops level rest →
    (withRoom given).operand level (tokens ++ rest) =
      if room ≤ given then (withRoom (given - e.links level)).chain level e rest
      else .error .tooDeep

/-- As a statement or between parentheses, the tokens are read as the expression if there is the
room. -/
def ReadsAssignment (room : Nat) (e : Expr) (tokens : List Token) : Prop :=
  ∀ given rest, Ends rest →
    (withRoom given).assignment (tokens ++ rest) =
      if room ≤ given then .ok (e, rest) else .error .tooDeep

variable {level room : Nat} {e : Expr} {tokens : List Token}

/-- What is read in a tight place is read in a looser one. -/
theorem ReadsOperand.lift {level' : Nat} (h : ReadsOperand level room e tokens)
    (hle : level ≤ level') (hlinks : ∀ j, level < j → j ≤ level' → e.links j = 0) :
    ReadsOperand level' room e tokens := by
  induction level', hle using Nat.le_induction with
  | base => exact h
  | succ level' hle ih =>
      have htight := ih fun j hlow hhigh => hlinks j hlow (Nat.le_succ_of_le hhigh)
      intro given rest hrest
      have hread := htight given rest (hrest.mono (Nat.le_succ _))
      rw [withRoom_eq_deepen] at hread
      replace hread : operandOf (below given) level' (tokens ++ rest) = _ := hread
      rw [hlinks (level' + 1) (by omega) le_rfl, Nat.sub_zero, withRoom_eq_deepen]
      show operandOf (below given) (level' + 1) (tokens ++ rest) = _
      simp only [operandOf, hread]
      split_ifs with hroom
      · rw [chain_of_stops hrest (Nat.lt_succ_self level')]
        rfl
      · rfl

theorem ReadsOperand.assignment (h : ReadsOperand loosest room e tokens) :
    ReadsAssignment room e tokens := by
  intro given rest hrest
  have hread := h given rest (hrest.stops loosest)
  rw [withRoom_eq_deepen] at hread
  replace hread : operandOf (below given) loosest (tokens ++ rest) = _ := hread
  rw [withRoom_eq_deepen]
  show assignmentOf (below given) (tokens ++ rest) = _
  rw [assignmentOf, hread]
  split_ifs with hroom
  · rw [chain_of_stops (hrest.stops (loosest + 1)) (Nat.lt_succ_self loosest)]
    cases rest with
    | nil => rfl
    | cons token rest =>
        dsimp only
        rw [(hrest token rfl).2]
  · rfl

/-- The tokens are read as the expression wherever one of the level may stand. -/
structure Reads (level : Nat) (e : Expr) (tokens : List Token) : Prop where
  operand : level ≤ loosest → ReadsOperand level (e.room + Expr.parensRoom level e) e tokens
  assignment : level = Expr.assignmentLevel → ReadsAssignment e.room e tokens

/-- What is read in its own place is read wherever it may stand. -/
theorem Reads.of_own (h : ReadsOperand e.level e.room e tokens) (hloosest : e.level ≤ loosest)
    (hle : e.level ≤ level) : Reads level e tokens := by
  have hlinks (j : Nat) (hlow : e.level < j) : e.links j = 0 := Expr.links_eq_zero hlow.ne
  constructor
  · intro _
    rw [Expr.parensRoom, if_neg hle.not_gt]
    exact h.lift hle fun j hlow _ => hlinks j hlow
  · intro _
    exact (h.lift hloosest fun j hlow _ => hlinks j hlow).assignment

/-! ### One case for each way of writing -/

/-- A token that is an expression of its own. -/
theorem readsOperand_token {token : Token} (hspelled : token.spelled? UnaryOp.ofSpelling? = none)
    (h : ∀ below rest, primary below (token :: rest) = .ok (e, rest)) :
    ReadsOperand 0 0 e [token] := by
  intro given rest _
  rw [if_pos (Nat.zero_le _), chain_of_stops (stops_one rest) Nat.zero_lt_one, withRoom_eq_deepen]
  show unary (below given) (token :: rest) = _
  rw [unary, hspelled]
  exact h _ rest

/-- A unary operator in front of its operand. -/
theorem readsOperand_unary {op : UnaryOp} {spelling : String} (hspelling : spelling ∈ op.spellings)
    {token : Token} (htoken : token.piece = .operator spelling)
    (h : ReadsOperand 0 room e tokens) :
    ReadsOperand 0 (room + 1) (op.apply e) (token :: tokens) := by
  intro given rest _
  rw [chain_of_stops (stops_one rest) Nat.zero_lt_one, withRoom_eq_deepen]
  show unary (below given) (token :: (tokens ++ rest)) = _
  rw [unary, Token.spelled?_operator htoken, UnaryOp.ofSpelling?_of_mem hspelling]
  cases given with
  | zero => rfl
  | succ given =>
      have hread := h given rest fun _ _ _ hj => absurd hj (Nat.not_lt_zero _)
      simp only [below, hread, chain_of_stops (stops_one rest) Nat.zero_lt_one]
      by_cases hroom : room ≤ given
      · rw [if_pos hroom, if_pos (Nat.succ_le_succ hroom)]
      · rw [if_neg hroom, if_neg (by omega)]

/-- An assignment in parentheses. -/
theorem readsOperand_parens {first last : Token} (hfirst : first.piece = .openParen)
    (hlast : last.piece = .closeParen) (h : ReadsAssignment room e tokens) :
    ReadsOperand 0 (room + 1) e (first :: tokens ++ [last]) := by
  intro given rest _
  have hkind : first.kind = .openParen := congrArg Piece.kind hfirst
  have hnone : first.spelled? UnaryOp.ofSpelling? = none :=
    Token.spelled?_of_kind (by rw [hkind]; nofun) (by rw [hkind]; nofun)
  have hclose : last.kind = .closeParen := congrArg Piece.kind hlast
  rw [chain_of_stops (stops_one rest) Nat.zero_lt_one, withRoom_eq_deepen]
  show unary (below given) (first :: (tokens ++ [last]) ++ rest) = _
  rw [List.cons_append, List.append_assoc, List.singleton_append, unary, hnone]
  simp only [primary, hkind]
  cases given with
  | zero => rfl
  | succ given =>
      have hread := h given (last :: rest) (ends_closeParen hlast rest)
      simp only [below, hread]
      by_cases hroom : room ≤ given
      · rw [if_pos hroom, if_pos (Nat.succ_le_succ hroom)]
        simp only [closing, hclose, if_true]
      · rw [if_neg hroom, if_neg (by omega)]

/-- A binary operator between its operands. The left operand may begin with links of the same
chain. -/
theorem readsOperand_binary {op : BinaryOp} {spelling : String}
    (hspelling : spelling ∈ op.spellings) {token : Token}
    (htoken : token.piece = .operator spelling) {l r : Expr} {left right : List Token}
    {leftRoom rightRoom : Nat} (hl : ReadsOperand op.level leftRoom l left)
    (hr : ReadsOperand (op.level - 1) rightRoom r right) :
    ReadsOperand op.level (max leftRoom (l.links op.level + 1 + rightRoom)) (.binary op l r)
      (left ++ token :: right) := by
  intro given rest hrest
  have hchain (room : Nat) : (withRoom room).chain op.level l (token :: (right ++ rest)) =
      ((below room).operand (op.level - 1) (right ++ rest)).bind fun next =>
        (below room).chain op.level (.binary op l next.1) next.2 := by
    rw [withRoom_eq_deepen]
    show Grammar.links (below room) op.level l (token :: (right ++ rest)) = _
    rw [Grammar.links, Token.spelled?_operator htoken, BinaryOp.ofSpelling?_of_mem hspelling]
    rcases (below room).operand (op.level - 1) (right ++ rest) with e | ⟨r, rest⟩ <;> rfl
  have hread := hl given (token :: (right ++ rest)) (stops_operator hspelling htoken _)
  rw [List.append_assoc, List.cons_append, hread]
  by_cases hleft : leftRoom ≤ given
  · rw [if_pos hleft, hchain]
    cases hgiven : given - l.links op.level with
    | zero =>
        rw [if_neg (by omega)]
        rfl
    | succ given' =>
        have hone := op.one_le_level
        have hread := hr given' rest (hrest.mono (Nat.sub_le _ _))
        rw [chain_of_stops hrest (by omega)] at hread
        simp only [below, hread]
        by_cases hright : rightRoom ≤ given'
        · have hlinks : given - Expr.links op.level (.binary op l r) = given' := by
            rw [Expr.links, if_pos rfl]
            omega
          rw [if_pos hright, if_pos (by omega), hlinks]
          rfl
        · rw [if_neg hright, if_neg (by omega)]
          rfl
  · rw [if_neg hleft, if_neg (by omega)]

/-- A variable in front of an assignment operator and the value. -/
theorem readsAssignment_assign {op : AssignOp} {name spelling : String}
    (hspelling : spelling ∈ op.spellings) {target token : Token}
    (htoken : token.piece = .operator spelling)
    (hname : ReadsOperand loosest 0 (.var name) [target]) (h : ReadsAssignment room e tokens) :
    ReadsAssignment (room + 1) (.assign op name e) (target :: token :: tokens) := by
  intro given rest hrest
  have hread := hname given (token :: (tokens ++ rest)) (stops_assignOp hspelling htoken _ _)
  rw [if_pos (Nat.zero_le _), chain_of_stops (stops_assignOp hspelling htoken (loosest + 1) _)
    (Nat.lt_succ_self _), withRoom_eq_deepen] at hread
  replace hread : operandOf (below given) loosest (target :: token :: (tokens ++ rest)) = _ := hread
  rw [withRoom_eq_deepen]
  show assignmentOf (below given) (target :: token :: (tokens ++ rest)) = _
  rw [assignmentOf, hread]
  dsimp only
  rw [Token.spelled?_operator htoken, AssignOp.ofSpelling?_of_mem hspelling]
  cases given with
  | zero => rfl
  | succ given =>
      have hread := h given rest hrest
      simp only [below, hread]
      by_cases hroom : room ≤ given
      · rw [if_pos hroom, if_pos (Nat.succ_le_succ hroom)]
      · rw [if_neg hroom, if_neg (by omega)]

end Grammar

open Grammar

theorem Expr.level_unary (op : UnaryOp) (hplus : op ≠ .plus) (e : Expr) :
    (op.apply e).level = 0 := by
  cases op with
  | plus => exact absurd rfl hplus
  | _ => rfl

theorem Expr.room_unary (op : UnaryOp) (hplus : op ≠ .plus) (e : Expr) :
    (op.apply e).room = e.room + parensRoom 0 e + 1 := by
  cases op with
  | plus => exact absurd rfl hplus
  | _ => rfl

theorem readsOperand_var {token : Token} {name : String} (h : token.piece = ⟨.variable, name⟩) :
    ReadsOperand 0 0 (.var name) [token] := by
  obtain ⟨hkind, htext⟩ := Piece.mk.inj h
  apply readsOperand_token
  · exact Token.spelled?_of_kind (by rw [hkind]; nofun) (by rw [hkind]; nofun)
  · intro below rest
    simp only [primary, hkind, htext]

theorem readsOperand_word {token : Token} {word : String} {value : Value}
    (h : token.piece = .word word) (hword : wordValue? word = some value)
    (hnot : UnaryOp.ofSpelling? word = none) : ReadsOperand 0 0 (.literal value) [token] := by
  obtain ⟨hkind, htext⟩ := Piece.mk.inj h
  apply readsOperand_token
  · rw [Token.spelled?, hkind, htext, hnot]
  · intro below rest
    simp only [primary, hkind, htext, hword]

theorem readsOperand_int {token : Token} {n : Nat} (hlt : n < 2 ^ 53)
    (h : token.piece = ⟨.number, toString n⟩) : ReadsOperand 0 0 (.literal (.int n)) [token] := by
  obtain ⟨hkind, htext⟩ := Piece.mk.inj h
  have hvalue : numberLiteral token = .ok (.int n) := by
    obtain ⟨x, hx, hofFloat⟩ := Option.bind_eq_some_iff.1 (ofFloat?_readFloat? hlt)
    rw [numberLiteral, htext, hx]
    dsimp only
    rw [hofFloat]
  apply readsOperand_token
  · exact Token.spelled?_of_kind (by rw [hkind]; nofun) (by rw [hkind]; nofun)
  · intro below rest
    simp only [primary, hkind, hvalue]

theorem readsOperand_string {token : Token} {q : QuoteMark} {s : String}
    (h : token.piece = ⟨.string, q.literal s⟩) :
    ReadsOperand 0 0 (.literal (.string s)) [token] := by
  obtain ⟨hkind, htext⟩ := Piece.mk.inj h
  apply readsOperand_token
  · exact Token.spelled?_of_kind (by rw [hkind]; nofun) (by rw [hkind]; nofun)
  · intro below rest
    simp only [primary, hkind, htext, QuoteMark.unquote_literal]

theorem map_piece_singleton {tokens : List Token} {piece : Piece}
    (h : tokens.map Token.piece = [piece]) : ∃ token, token.piece = piece ∧ tokens = [token] := by
  obtain ⟨token, rest, rfl, htoken, hrest⟩ := List.map_eq_cons_iff.1 h
  obtain rfl := List.map_eq_nil_iff.1 hrest
  exact ⟨token, htoken, rfl⟩

/-- Tokens that spell an expression are read as that expression, and the room that this takes is the
expression's. -/
theorem Spelled.reads {level : Nat} {e : Expr} {pieces : List Piece} (h : Spelled level e pieces) :
    ∀ tokens : List Token, tokens.map Token.piece = pieces → Reads level e tokens := by
  induction h with
  | null =>
      intro tokens htokens
      obtain ⟨token, htoken, rfl⟩ := map_piece_singleton htokens
      exact Reads.of_own (readsOperand_word htoken rfl (by decide)) (Nat.zero_le _) (Nat.zero_le _)
  | bool b =>
      intro tokens htokens
      obtain ⟨token, htoken, rfl⟩ := map_piece_singleton htokens
      have hword : wordValue? (toString b) = some (.bool b) := by cases b <;> rfl
      have hnot : UnaryOp.ofSpelling? (toString b) = none := by cases b <;> decide
      exact Reads.of_own (readsOperand_word htoken hword hnot) (Nat.zero_le _) (Nat.zero_le _)
  | int n hlt =>
      intro tokens htokens
      obtain ⟨token, htoken, rfl⟩ := map_piece_singleton htokens
      exact Reads.of_own (readsOperand_int hlt htoken) (Nat.zero_le _) (Nat.zero_le _)
  | string q s =>
      intro tokens htokens
      obtain ⟨token, htoken, rfl⟩ := map_piece_singleton htokens
      exact Reads.of_own (readsOperand_string htoken) (Nat.zero_le _) (Nat.zero_le _)
  | var hname =>
      intro tokens htokens
      obtain ⟨token, htoken, rfl⟩ := map_piece_singleton htokens
      exact Reads.of_own (readsOperand_var htoken) (Nat.zero_le _) (Nat.zero_le _)
  | @unary level e pieces spelling op hplus hspelling _ ih =>
      intro tokens htokens
      obtain ⟨token, operand, rfl, htoken, hoperand⟩ := List.map_eq_cons_iff.1 htokens
      have hread :=
        readsOperand_unary hspelling htoken ((ih operand hoperand).operand (Nat.zero_le _))
      have hlevel := Expr.level_unary op hplus e
      rw [← Expr.room_unary op hplus] at hread
      rw [← hlevel] at hread
      exact Reads.of_own hread (hlevel ▸ Nat.zero_le _) (hlevel ▸ Nat.zero_le _)
  | @binary level l r left right spelling op hlevel hspelling _ _ ihl ihr =>
      intro tokens htokens
      obtain ⟨left, more, rfl, hleft, hmore⟩ := List.map_eq_append_iff.1 htokens
      obtain ⟨token, right, rfl, htoken, hright⟩ := List.map_eq_cons_iff.1 hmore
      have hl := (ihl left hleft).operand op.level_le
      have hr := (ihr right hright).operand ((Nat.sub_le _ _).trans op.level_le)
      exact Reads.of_own (readsOperand_binary hspelling htoken hl hr) op.level_le hlevel
  | @assign name e pieces spelling op hname hspelling _ ih =>
      intro tokens htokens
      obtain ⟨target, more, rfl, htarget, hmore⟩ := List.map_eq_cons_iff.1 htokens
      obtain ⟨token, value, rfl, htoken, hvalue⟩ := List.map_eq_cons_iff.1 hmore
      have hvar : ReadsOperand loosest 0 (.var name) [target] :=
        (readsOperand_var htarget).lift (Nat.zero_le _) fun _ _ _ => rfl
      constructor
      · intro hloosest
        exact absurd hloosest (by decide)
      · intro _
        exact readsAssignment_assign hspelling htoken hvar ((ih value hvalue).assignment rfl)
  | @parens level e pieces hlevel _ ih =>
      intro tokens htokens
      obtain ⟨first, more, rfl, hfirst, hmore⟩ := List.map_eq_cons_iff.1 htokens
      obtain ⟨inner, close, rfl, hinner, hclose⟩ := List.map_eq_append_iff.1 hmore
      obtain ⟨last, hlast, rfl⟩ := map_piece_singleton hclose
      have hread := readsOperand_parens hfirst hlast ((ih inner hinner).assignment rfl)
      constructor
      · intro _
        rw [Expr.parensRoom, if_pos hlevel]
        refine hread.lift (Nat.zero_le _) ?_
        intro j _ hj
        exact Expr.links_eq_zero (hj.trans_lt hlevel).ne'
      · intro hassignment
        exact absurd (hassignment ▸ hlevel) e.level_le.not_gt

/-! ### Whole texts -/

theorem Spelled.exists_first {level : Nat} {e : Expr} {pieces : List Piece}
    (h : Spelled level e pieces) :
    ∃ piece more, pieces = piece :: more ∧ piece.kind ≠ .semicolon := by
  have hoperator (spelling : String) : (Piece.operator spelling).kind ≠ .semicolon := by
    rw [Piece.operator]
    dsimp only
    split <;> nofun
  induction h with
  | unary op _ _ _ _ => exact ⟨_, _, rfl, hoperator _⟩
  | binary op _ _ _ _ ihl _ =>
      obtain ⟨piece, more, rfl, hkind⟩ := ihl
      exact ⟨piece, _, rfl, hkind⟩
  | _ => exact ⟨_, _, rfl, nofun⟩

/-- The text of a spelling is read as the expression if there is the room, and refused otherwise. -/
theorem Spelled.parseStatements_eq {e : Expr} {pieces : List Piece}
    (h : Spelled Expr.assignmentLevel e pieces) :
    parseStatements (spelledText pieces) =
      if e.room ≤ maxNesting then .ok [e] else .error .tooDeep := by
  obtain ⟨tokens, htokens, hpieces⟩ := tokenize_spelledText h.lexes
  have hread := (h.reads tokens hpieces).assignment rfl maxNesting [] fun _ => nofun
  obtain ⟨piece, more, rfl, hkind⟩ := h.exists_first
  obtain ⟨token, rest, rfl, rfl, -⟩ := List.map_eq_cons_iff.1 hpieces
  have hfirst : (token :: rest).dropWhile (fun token => token.kind = .semicolon) = token :: rest :=
    List.dropWhile_cons_of_neg (by simpa [Token.piece] using hkind)
  rw [List.append_nil] at hread
  rw [parseStatements, htokens]
  dsimp only
  rw [List.length_cons, statementsUpTo, hfirst]
  dsimp only
  rw [hread]
  split_ifs <;> rfl

theorem takesRoom_operator {spelling : String} (h : spelling ∈ operatorSpellings) :
    (Piece.operator spelling).takesRoom = true := by
  have hall : ∀ spelling ∈ operatorSpellings, (Piece.operator spelling).takesRoom = true := by
    decide
  exact hall spelling h

/-- Every level of room that an expression needs has an operator or a parenthesis in its text. -/
theorem Spelled.room_le {level : Nat} {e : Expr} {pieces : List Piece}
    (h : Spelled level e pieces) :
    e.room + Expr.parensRoom level e ≤ pieces.countP Piece.takesRoom := by
  have hown {level : Nat} {e : Expr} (hle : e.level ≤ level) : Expr.parensRoom level e = 0 :=
    if_neg hle.not_gt
  induction h with
  | unary op hplus hspelling _ ih =>
      have hlevel := Expr.level_unary op hplus
      rw [hown (by rw [hlevel]; exact Nat.zero_le _), Expr.room_unary op hplus,
        List.countP_cons_of_pos (takesRoom_operator (op.mem_operatorSpellings hspelling))]
      omega
  | @binary level l r left right spelling op hlevel hspelling _ _ ihl ihr =>
      have hlinks := Expr.links_le_room op.level l
      rw [hown (e := .binary op l r) hlevel, Expr.room, List.countP_append,
        List.countP_cons_of_pos (takesRoom_operator (op.mem_operatorSpellings hspelling))]
      omega
  | assign op _ hspelling _ ih =>
      rw [Expr.parensRoom_assignmentLevel] at ih ⊢
      rw [Expr.room, List.countP_cons,
        List.countP_cons_of_pos (takesRoom_operator (op.mem_operatorSpellings hspelling))]
      omega
  | @parens level e pieces hlevel _ ih =>
      rw [Expr.parensRoom_assignmentLevel] at ih
      rw [Expr.parensRoom, if_pos hlevel, List.cons_append, List.countP_cons_of_pos rfl,
        List.countP_append]
      omega
  | _ => exact Nat.zero_le _

/-- Every expression that can be written has a text with parentheses only where they are needed; and
however the spellings of its operators are chosen, the tokens of the text are those that it is put
together from, and they are read as the expression, or refused as too deep. They are not refused if
there are no more operators and parentheses among them than there are levels of room. -/
theorem expr_spelled_reads_back {e : Expr} (h : e.Writable) :
    (∃ pieces, Spelled Expr.assignmentLevel e pieces) ∧
      ∀ pieces, Spelled Expr.assignmentLevel e pieces →
        (∃ tokens, tokenize (spelledText pieces) = .ok tokens ∧
          tokens.map Token.piece = pieces) ∧
        (parseStatements (spelledText pieces) = .ok [e] ∨
          parseStatements (spelledText pieces) = .error .tooDeep) ∧
        (pieces.countP Piece.takesRoom ≤ maxNesting →
          parseStatements (spelledText pieces) = .ok [e]) := by
  refine ⟨h.exists_spelled Expr.assignmentLevel le_rfl, ?_⟩
  intro pieces hspelled
  have hroom := hspelled.room_le
  rw [Expr.parensRoom_assignmentLevel, Nat.add_zero] at hroom
  refine ⟨tokenize_spelledText hspelled.lexes, ?_, ?_⟩
  · rw [hspelled.parseStatements_eq]
    split_ifs
    · exact .inl rfl
    · exact .inr rfl
  · intro hcount
    rw [hspelled.parseStatements_eq, if_pos (hroom.trans hcount)]

/-- A sum stands between parentheses as a factor, and a product needs none behind an assignment. -/
theorem expr_product_reads_back :
    let product : Expr := .binary .mul (.binary .add (.literal (.int (1 : Nat))) (.var "_y"))
      (.not (.literal .null))
    Expr.Writable (.assign .set "$x" product) ∧
      parseStatements "$x to ( 1 + _y ) * not null" = .ok [.assign .set "$x" product] := by
  intro product
  have hx : IsVariable "$x" := ⟨'$', 'x', [], rfl, .inl rfl, List.forall_mem_singleton.mpr rfl⟩
  have hy : IsVariable "_y" := ⟨'_', 'y', [], rfl, .inr rfl, List.forall_mem_singleton.mpr rfl⟩
  have hwritable : Expr.Writable (.assign .set "$x" product) :=
    ⟨hx, ⟨⟨by decide, by decide⟩, hy⟩, trivial⟩
  have hsum : Spelled Expr.assignmentLevel (.binary .add (.literal (.int (1 : Nat))) (.var "_y"))
      [⟨.number, "1"⟩, .operator "+", ⟨.variable, "_y"⟩] :=
    .binary .add (by decide) (by decide) (.int 1 (by decide)) (.var hy)
  have hproduct : Spelled Expr.assignmentLevel product
      [.openParen, ⟨.number, "1"⟩, .operator "+", ⟨.variable, "_y"⟩, .closeParen, .operator "*",
        .operator "not", .word "null"] :=
    .binary .mul (by decide) (by decide) (.parens (by decide) hsum)
      (.unary .not (by decide) (by decide) .null)
  have hto : "to" ∈ AssignOp.set.spellings := by decide
  have hspelled := Spelled.assign .set hx hto hproduct
  exact ⟨hwritable, ((expr_spelled_reads_back hwritable).2 _ hspelled).2.2 (by decide)⟩

end StoryEngine
