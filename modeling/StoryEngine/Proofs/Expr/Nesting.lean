import StoryEngine.Proofs.Expr.Precedence
/-!
# StoryEngine.Proofs.Expr.Nesting

How tall the trees are that the parser makes. What a successful reading did is a derivation by the
rules of the grammar (`Parsed`), and both bounds on the height of the tree are read off it: no tree
is taller than the operators and parentheses of its source allow, and `n` levels of room allow a
height of `3 · n · (n + 1) + 2` (`height_of_statement`).

The height is not bounded by the number of levels, since a chain counts its links from the left
while its tree is deepest on the left: the first operand has all the room of the chain, and every
link goes on top of it. Each of the six levels of binary operators can add a chain in this way, and
the next parenthesis starts anew (`tower`).
-/

namespace StoryEngine

open Grammar

/-! ### The rules of the grammar -/

/-- A part of the grammar: an operand of a level, the rest of a chain whose links so far are given,
or an assignment. -/
inductive Part where
  | operand (level : Nat)
  | chain (level : Nat) (left : Expr)
  | assignment

/-- The grammar with the room reads the tokens as the expression, in its part. -/
inductive Parsed : Nat → Part → List Token → Expr → Prop
  | leaf {room token e} : e.height = 1 → Parsed room (.operand 0) [token] e
  | parens {room first last used e} : first.kind = .openParen →
      Parsed room .assignment used e →
      Parsed (room + 1) (.operand 0) (first :: used ++ [last]) e
  | unary {room token used e} (op : UnaryOp) : token.spelled? UnaryOp.ofSpelling? = some op →
      Parsed room (.operand 0) used e →
      Parsed (room + 1) (.operand 0) (token :: used) (op.apply e)
  | operand {room level front back left e} : Parsed room (.operand level) front left →
      Parsed room (.chain (level + 1) left) back e →
      Parsed room (.operand (level + 1)) (front ++ back) e
  | last {room level left} : Parsed room (.chain level left) [] left
  | link {room level token used more left right e} (op : BinaryOp) :
      token.spelled? (BinaryOp.ofSpelling? level) = some op →
      Parsed room (.operand (level - 1)) used right →
      Parsed room (.chain level (.binary op left right)) more e →
      Parsed (room + 1) (.chain level left) (token :: used ++ more) e
  | expression {room used e} : Parsed room (.operand loosest) used e →
      Parsed room .assignment used e
  | assign {room front token used name e} (op : AssignOp) :
      Parsed (room + 1) (.operand loosest) front (.var name) →
      token.spelled? AssignOp.ofSpelling? = some op → Parsed room .assignment used e →
      Parsed (room + 1) .assignment (front ++ token :: used) (.assign op name e)

/-- What the grammar reads in the part. -/
def Grammar.at (g : Grammar) : Part → Parse Expr
  | .operand level => g.operand level
  | .chain level left => g.chain level left
  | .assignment => g.assignment

/-- What the parts of the grammar read is derived with one level of room less. -/
def Grammar.Derives (g : Grammar) (room : Nat) : Prop :=
  ∀ part tokens e rest, g.at part tokens = .ok (e, rest) →
    ∃ room', room = room' + 1 ∧ ∃ used, tokens = used ++ rest ∧ Parsed room' part used e

namespace Grammar

variable {below : Grammar} {room : Nat} {tokens rest : List Token} {e : Expr}

theorem parsed_of_primary (hbelow : below.Derives room)
    (h : primary below tokens = .ok (e, rest)) :
    ∃ used, tokens = used ++ rest ∧ Parsed room (.operand 0) used e := by
  cases tokens with
  | nil => cases h
  | cons token more =>
      have hleaf {e' : Expr} (hheight : e'.height = 1)
          (heq : (Except.ok (e', more) : Except ExprError _) = .ok (e, rest)) :
          ∃ used, token :: more = used ++ rest ∧ Parsed room (.operand 0) used e := by
        obtain ⟨rfl, rfl⟩ := Prod.mk.inj (Except.ok.inj heq)
        exact ⟨[token], rfl, .leaf hheight⟩
      rw [primary] at h
      split at h
      · split at h
        · cases h
        · exact hleaf rfl h
      · split at h
        · cases h
        · exact hleaf rfl h
      · exact hleaf rfl h
      · split at h
        · exact hleaf rfl h
        · cases h
      · rename_i hopen
        split at h
        · cases h
        · rename_i inner after hinner
          obtain ⟨room', rfl, used, rfl, hparsed⟩ := hbelow .assignment more inner after hinner
          cases after with
          | nil => cases h
          | cons last after =>
              rw [closing] at h
              split at h
              · obtain ⟨rfl, rfl⟩ := Prod.mk.inj (Except.ok.inj h)
                exact ⟨token :: used ++ [last], by simp, .parens hopen hparsed⟩
              · cases h
      · cases h

theorem parsed_of_unary (hbelow : below.Derives room) (h : unary below tokens = .ok (e, rest)) :
    ∃ used, tokens = used ++ rest ∧ Parsed room (.operand 0) used e := by
  cases tokens with
  | nil => exact parsed_of_primary hbelow h
  | cons token more =>
      rw [unary] at h
      split at h
      · exact parsed_of_primary hbelow h
      · rename_i op hop
        split at h
        · cases h
        · rename_i operand after hoperand
          obtain ⟨rfl, rfl⟩ := Prod.mk.inj (Except.ok.inj h)
          obtain ⟨room', rfl, used, rfl, hparsed⟩ := hbelow (.operand 0) more operand after hoperand
          exact ⟨token :: used, rfl, .unary op hop hparsed⟩

theorem parsed_of_links (hbelow : below.Derives room) {level : Nat} {left : Expr}
    (h : Grammar.links below level left tokens = .ok (e, rest)) :
    ∃ used, tokens = used ++ rest ∧ Parsed room (.chain level left) used e := by
  have hlast (heq : (Except.ok (left, tokens) : Except ExprError _) = .ok (e, rest)) :
      ∃ used, tokens = used ++ rest ∧ Parsed room (.chain level left) used e := by
    obtain ⟨rfl, rfl⟩ := Prod.mk.inj (Except.ok.inj heq)
    exact ⟨[], rfl, .last⟩
  cases tokens with
  | nil => exact hlast h
  | cons token more =>
      rw [Grammar.links] at h
      split at h
      · exact hlast h
      · rename_i op hop
        split at h
        · cases h
        · rename_i right after hright
          obtain ⟨room', rfl, used, rfl, hparsed⟩ :=
            hbelow (.operand (level - 1)) more right after hright
          obtain ⟨room'', hroom, used', rfl, hmore⟩ :=
            hbelow (.chain level (.binary op left right)) after e rest h
          obtain rfl := Nat.succ.inj hroom
          exact ⟨token :: used ++ used', by simp, .link op hop hparsed hmore⟩

theorem parsed_of_operand (hbelow : below.Derives room) {level : Nat}
    (h : operandOf below level tokens = .ok (e, rest)) :
    ∃ used, tokens = used ++ rest ∧ Parsed room (.operand level) used e := by
  induction level generalizing tokens e rest with
  | zero => exact parsed_of_unary hbelow h
  | succ level ih =>
      rw [operandOf] at h
      dsimp only at h
      split at h
      · cases h
      · rename_i left after hleft
        obtain ⟨front, rfl, hfront⟩ := ih hleft
        obtain ⟨back, rfl, hback⟩ := parsed_of_links hbelow h
        exact ⟨front ++ back, by simp, .operand hfront hback⟩

theorem parsed_of_assignment (hbelow : below.Derives room)
    (h : assignmentOf below tokens = .ok (e, rest)) :
    ∃ used, tokens = used ++ rest ∧ Parsed room .assignment used e := by
  rw [assignmentOf] at h
  split at h
  · cases h
  · rename_i target htarget
    obtain ⟨rfl, rfl⟩ := Prod.mk.inj (Except.ok.inj h)
    obtain ⟨used, hused, hparsed⟩ := parsed_of_operand hbelow htarget
    exact ⟨used, hused, .expression hparsed⟩
  · rename_i target token after htarget
    obtain ⟨front, rfl, hfront⟩ := parsed_of_operand hbelow htarget
    split at h
    · obtain ⟨rfl, rfl⟩ := Prod.mk.inj (Except.ok.inj h)
      exact ⟨front, rfl, .expression hfront⟩
    · rename_i op hop
      split at h
      · split at h
        · cases h
        · rename_i name value after' hvalue
          obtain ⟨rfl, rfl⟩ := Prod.mk.inj (Except.ok.inj h)
          obtain ⟨room', rfl, used, rfl, hparsed⟩ := hbelow .assignment after value after' hvalue
          exact ⟨front ++ token :: used, by simp, .assign op hfront hop hparsed⟩
      · cases h

theorem derives_noRoom (room : Nat) : noRoom.Derives room := by
  intro part tokens e rest h
  cases part <;> cases h

theorem derives_deepen (hbelow : below.Derives room) : (deepen below).Derives (room + 1) := by
  intro part tokens e rest h
  cases part with
  | operand level => exact ⟨room, rfl, parsed_of_operand hbelow h⟩
  | chain level left => exact ⟨room, rfl, parsed_of_links hbelow h⟩
  | assignment => exact ⟨room, rfl, parsed_of_assignment hbelow h⟩

/-- Whatever is read is derived by the rules, with the room that there is. -/
theorem derives_withRoom (room : Nat) : (withRoom room).Derives (room + 1) := by
  induction room with
  | zero => exact derives_deepen (derives_noRoom 0)
  | succ room ih => exact derives_deepen ih

end Grammar

/-! ### The height that the operators allow -/

theorem Expr.height_pos (e : Expr) : 1 ≤ e.height := by
  cases e <;> simp [Expr.height]

theorem UnaryOp.height_apply_le (op : UnaryOp) (e : Expr) : (op.apply e).height ≤ e.height + 1 := by
  cases op <;> simp [UnaryOp.apply, Expr.height]

/-- The token is an operator or a parenthesis. -/
def Token.takesRoom (token : Token) : Bool :=
  token.piece.takesRoom

theorem Token.takesRoom_of_spelled? {α : Type} {find? : String → Option α} {token : Token} {op : α}
    (h : token.spelled? find? = some op)
    (hfind : ∀ spelling, find? spelling = some op → spelling ∈ operatorSpellings) :
    token.takesRoom = true := by
  have hword : ∀ spelling ∈ operatorSpellings, (wordValue? spelling).isNone := by decide
  rw [spelled?] at h
  rw [takesRoom, Piece.takesRoom, piece]
  split at h
  · rename_i hkind
    simp only [hkind]
  · rename_i hkind
    simp only [hkind]
    exact hword _ (hfind _ h)
  · cases h

theorem UnaryOp.mem_of_ofSpelling? {op : UnaryOp} {spelling : String}
    (h : ofSpelling? spelling = some op) : spelling ∈ operatorSpellings :=
  op.mem_operatorSpellings (by simpa using List.find?_some h)

theorem AssignOp.mem_of_ofSpelling? {op : AssignOp} {spelling : String}
    (h : ofSpelling? spelling = some op) : spelling ∈ operatorSpellings :=
  op.mem_operatorSpellings (by simpa using List.find?_some h)

theorem BinaryOp.mem_of_ofSpelling? {op : BinaryOp} {level : Nat} {spelling : String}
    (h : ofSpelling? level spelling = some op) : spelling ∈ operatorSpellings := by
  have hfound := List.find?_some h
  simp only [Bool.and_eq_true, List.contains_iff_mem] at hfound
  exact op.mem_operatorSpellings hfound.2

/-- The height of what is there before the part is read. -/
def Part.base : Part → Nat
  | .operand _ => 1
  | .chain _ left => left.height
  | .assignment => 1

/-- Every operator makes the tree taller by one at most, and nothing else does. -/
theorem Parsed.height_le_operators {room : Nat} {part : Part} {used : List Token} {e : Expr}
    (h : Parsed room part used e) : e.height ≤ part.base + used.countP Token.takesRoom := by
  induction h with
  | leaf hheight => exact hheight.le.trans (Nat.le_add_right _ _)
  | parens hfirst _ ih =>
      simp only [Part.base, List.cons_append, List.countP_cons, List.countP_append] at ih ⊢
      omega
  | unary op hop _ ih =>
      have htoken := Token.takesRoom_of_spelled? hop fun _ => UnaryOp.mem_of_ofSpelling?
      have happly := op.height_apply_le
      simp only [Part.base, List.countP_cons_of_pos htoken] at ih ⊢
      exact (happly _).trans (by omega)
  | operand _ _ ihfront ihback =>
      simp only [Part.base, List.countP_append] at ihfront ihback ⊢
      omega
  | last => exact Nat.le_add_right _ _
  | @link room level token used more left right e op hop _ _ ihright ihmore =>
      have htoken := Token.takesRoom_of_spelled? hop fun _ => BinaryOp.mem_of_ofSpelling?
      have hleft := left.height_pos
      simp only [Part.base, Expr.height, List.cons_append, List.countP_cons_of_pos htoken,
        List.countP_append] at ihright ihmore ⊢
      omega
  | expression _ ih => exact ih
  | assign op _ hop _ _ ih =>
      have htoken := Token.takesRoom_of_spelled? hop fun _ => AssignOp.mem_of_ofSpelling?
      simp only [Part.base, Expr.height, List.countP_append, List.countP_cons_of_pos htoken]
        at ih ⊢
      omega

/-! ### The height that the room allows -/

/-- The height of the tallest tree that one operand has, which is a unary operator with its operand
or stands between parentheses. -/
def tallestOperand : Nat → Nat
  | 0 => 1
  | room + 1 => 3 * room * (room + 1) + 2

/-- The height of the tallest tree that can be read in the part. Every level of binary operators
adds a chain with as many links as there is room. -/
def Part.tallest (room : Nat) : Part → Nat
  | .operand level => tallestOperand room + level * room
  | .chain level left => max left.height (tallestOperand room + (level - 1) * room) + room
  | .assignment => tallestOperand room + loosest * room

theorem one_le_tallestOperand (room : Nat) : 1 ≤ tallestOperand room := by
  cases room with
  | zero => exact le_rfl
  | succ room => exact Nat.le_add_left _ _

theorem tallestOperand_succ_ge (room : Nat) :
    tallestOperand room + 1 ≤ tallestOperand (room + 1) := by
  cases room with
  | zero => exact le_rfl
  | succ room =>
      simp only [tallestOperand]
      ring_nf
      omega

theorem tallestOperand_parens (room : Nat) :
    tallestOperand room + loosest * room ≤ tallestOperand (room + 1) := by
  cases room with
  | zero => exact Nat.le_succ _
  | succ room =>
      simp only [tallestOperand, loosest]
      ring_nf
      omega

theorem Parsed.height_le_tallest {room : Nat} {part : Part} {used : List Token} {e : Expr}
    (h : Parsed room part used e) : e.height ≤ part.tallest room := by
  induction h with
  | leaf hheight =>
      have := one_le_tallestOperand
      simp only [Part.tallest, hheight]
      exact (this _).trans (Nat.le_add_right _ _)
  | @parens room _ _ _ _ _ _ ih =>
      have := tallestOperand_parens room
      simp only [Part.tallest] at ih ⊢
      omega
  | @unary room _ _ e op _ _ ih =>
      have := tallestOperand_succ_ge room
      have := op.height_apply_le e
      simp only [Part.tallest] at ih ⊢
      omega
  | @operand room level _ _ _ _ _ _ ihfront ihback =>
      simp only [Part.tallest, Nat.add_sub_cancel, Nat.add_mul] at ihfront ihback ⊢
      omega
  | last => exact (le_max_left _ _).trans (Nat.le_add_right _ _)
  | @link room level token used more left right e op hop _ _ ihright ihmore =>
      have := tallestOperand_succ_ge room
      have : (level - 1) * (room + 1) = (level - 1) * room + (level - 1) := Nat.mul_succ _ _
      simp only [Part.tallest, Expr.height] at ihright ihmore ⊢
      omega
  | expression _ ih => exact ih
  | @assign room _ _ _ _ _ op _ _ _ _ ih =>
      have := tallestOperand_succ_ge room
      simp only [Part.tallest, Expr.height, loosest] at ih ⊢
      omega

/-! ### Statements -/

theorem parsed_of_statementsUpTo {room n : Nat} {tokens : List Token} {statements : List Expr}
    (h : statementsUpTo (withRoom room) n tokens = .ok statements) :
    ∀ e ∈ statements, ∃ used, used.Sublist tokens ∧ Parsed room .assignment used e := by
  induction n generalizing tokens statements with
  | zero =>
      cases h
      intro e he
      cases he
  | succ n ih =>
      have hdrop : (tokens.dropWhile fun token => token.kind = .semicolon).Sublist tokens :=
        List.dropWhile_sublist _
      rw [statementsUpTo] at h
      split at h
      · cases h
        intro e he
        cases he
      · rename_i first more hfirst
        rw [hfirst] at hdrop
        have hparsed {e : Expr} {rest : List Token}
            (hread : (withRoom room).assignment (first :: more) = .ok (e, rest)) :
            ∃ used, first :: more = used ++ rest ∧ Parsed room .assignment used e := by
          obtain ⟨room', hroom, used, hused, hparsed⟩ :=
            derives_withRoom room .assignment (first :: more) e rest hread
          obtain rfl := Nat.succ.inj hroom
          exact ⟨used, hused, hparsed⟩
        split at h
        · cases h
        · rename_i statement hread
          cases h
          intro e he
          obtain rfl := List.mem_singleton.1 he
          obtain ⟨used, hused, hstatement⟩ := hparsed hread
          rw [List.append_nil] at hused
          exact ⟨used, hused ▸ hdrop, hstatement⟩
        · rename_i statement token rest hread
          obtain ⟨used, hused, hstatement⟩ := hparsed hread
          rw [hused] at hdrop
          split at h
          · split at h
            · cases h
            · rename_i others hothers
              cases h
              intro e he
              rcases List.mem_cons.1 he with rfl | he
              · exact ⟨used, (List.sublist_append_left _ _).trans hdrop, hstatement⟩
              · obtain ⟨used', hsublist, hother⟩ := ih hothers e he
                have hrest : rest.Sublist tokens :=
                  ((List.sublist_cons_self token rest).trans (List.sublist_append_right _ _)).trans
                    hdrop
                exact ⟨used', hsublist.trans hrest, hother⟩
          · cases h

/-! ### The tallest tree -/

/-- A chain of operands with `n` links, of which the first operand is given. -/
def chainOf (op : BinaryOp) : Nat → Expr → Expr
  | 0, e => e
  | n + 1, e => .binary op (chainOf op n e) (.literal .null)

/-- A chain of every given operator, each of them the first operand of the next. -/
def chainsOf (n : Nat) (ops : List BinaryOp) (e : Expr) : Expr :=
  ops.foldl (fun e op => chainOf op n e) e

/-- One operator of each level, the tightest first. -/
def ladder : List BinaryOp := [.mul, .add, .lt, .eq, .and, .or]

/-- A tree as tall as the room allows: six chains with as many links as there is room, around the
tree for one level less in parentheses. -/
def tower : Nat → Expr
  | 0 => .not (.literal .null)
  | room + 1 => chainsOf (room + 1) ladder (tower room)

theorem height_chainOf (op : BinaryOp) (n : Nat) (e : Expr) :
    (chainOf op n e).height = e.height + n := by
  induction n with
  | zero => rfl
  | succ n ih =>
      have := e.height_pos
      rw [chainOf, Expr.height, ih]
      simp only [Expr.height]
      omega

theorem height_chainsOf (n : Nat) (ops : List BinaryOp) (e : Expr) :
    (chainsOf n ops e).height = e.height + ops.length * n := by
  induction ops generalizing e with
  | nil => simp [chainsOf]
  | cons op ops ih =>
      have hmore := ih (chainOf op n e)
      rw [chainsOf] at hmore ⊢
      rw [List.foldl_cons, hmore, height_chainOf, List.length_cons, Nat.succ_mul]
      omega

theorem height_tower (room : Nat) : (tower room).height = 3 * room * (room + 1) + 2 := by
  induction room with
  | zero => rfl
  | succ room ih =>
      rw [tower, height_chainsOf, ih]
      simp only [ladder, List.length_cons, List.length_nil]
      ring

theorem level_chainOf (op : BinaryOp) (e : Expr) {n : Nat} (hn : 0 < n) :
    (chainOf op n e).level = op.level := by
  obtain ⟨n, rfl⟩ := Nat.exists_eq_succ_of_ne_zero hn.ne'
  rfl

theorem parensRoom_antitone {level level' : Nat} (hle : level ≤ level') (e : Expr) :
    Expr.parensRoom level' e ≤ Expr.parensRoom level e := by
  simp only [Expr.parensRoom]
  split_ifs <;> omega

theorem links_chainOf {op : BinaryOp} {e : Expr} (hlevel : e.level ≠ op.level) (n : Nat) :
    (chainOf op n e).links op.level = n := by
  induction n with
  | zero => exact Expr.links_eq_zero hlevel
  | succ n ih => rw [chainOf, Expr.links, if_pos rfl, ih]

/-- A chain needs no more room than its first operand, if it has no more links than that. -/
theorem room_chainOf {op : BinaryOp} {e : Expr} {n room : Nat} (hlevel : e.level ≠ op.level)
    (he : e.room + Expr.parensRoom op.level e ≤ room) (hn : n ≤ room) :
    (chainOf op n e).room + Expr.parensRoom op.level (chainOf op n e) ≤ room := by
  induction n with
  | zero => exact he
  | succ n ih =>
      have hroom := ih (Nat.le_of_succ_le hn)
      have hlinks := links_chainOf hlevel n
      have hown : Expr.parensRoom op.level (chainOf op (n + 1) e) = 0 := if_neg (lt_irrefl _)
      have hnull : Expr.parensRoom (op.level - 1) (.literal .null) = 0 := if_neg (Nat.not_lt_zero _)
      rw [hown, chainOf, Expr.room, hlinks, hnull, Expr.room]
      omega

theorem room_chainsOf {ops : List BinaryOp} {e : Expr} {n : Nat} (hn : 0 < n)
    (hops : ops.Pairwise fun op op' => op.level < op'.level) (hroom : e.room ≤ n)
    (hfirst : ∀ op ∈ ops.head?, e.level ≠ op.level ∧ e.room + Expr.parensRoom op.level e ≤ n) :
    (chainsOf n ops e).room ≤ n := by
  induction ops generalizing e with
  | nil => exact hroom
  | cons op ops ih =>
      obtain ⟨hlevel, he⟩ := hfirst op rfl
      obtain ⟨hlater, hops⟩ := List.pairwise_cons.1 hops
      have hchain := room_chainOf hlevel he le_rfl
      rw [chainsOf, List.foldl_cons]
      refine ih hops (Nat.le_of_add_right_le hchain) ?_
      intro op' hop'
      have hlt := hlater op' (List.mem_of_mem_head? hop')
      have hparens := parensRoom_antitone hlt.le (chainOf op n e)
      rw [level_chainOf op e hn]
      exact ⟨hlt.ne, by omega⟩

theorem level_chainsOf_ladder (e : Expr) {n : Nat} (hn : 0 < n) :
    (chainsOf n ladder e).level = loosest :=
  level_chainOf .or _ hn

theorem room_tower (room : Nat) : (tower (room + 1)).room ≤ room + 1 := by
  have hladder : ladder.Pairwise fun op op' => op.level < op'.level := by decide
  induction room with
  | zero =>
      refine room_chainsOf Nat.zero_lt_one hladder le_rfl ?_
      intro op hop
      obtain rfl : BinaryOp.mul = op := by simpa [ladder] using hop
      exact ⟨by decide, le_rfl⟩
  | succ room ih =>
      have hlevel : (tower (room + 1)).level = loosest :=
        level_chainsOf_ladder (tower room) (Nat.succ_pos room)
      have hparens : Expr.parensRoom BinaryOp.mul.level (tower (room + 1)) ≤ 1 := by
        rw [Expr.parensRoom]
        split_ifs <;> omega
      refine room_chainsOf (Nat.succ_pos _) hladder (Nat.le_succ_of_le ih) ?_
      intro op hop
      obtain rfl : BinaryOp.mul = op := by simpa [ladder] using hop
      rw [hlevel]
      exact ⟨by decide, by omega⟩

theorem writable_chainOf {op : BinaryOp} {e : Expr} (he : e.Writable) (n : Nat) :
    (chainOf op n e).Writable := by
  induction n with
  | zero => exact he
  | succ n ih => exact ⟨ih, trivial⟩

theorem writable_chainsOf {e : Expr} (he : e.Writable) (n : Nat) (ops : List BinaryOp) :
    (chainsOf n ops e).Writable := by
  induction ops generalizing e with
  | nil => exact he
  | cons op ops ih => exact ih (writable_chainOf he n)

theorem writable_tower (room : Nat) : (tower room).Writable := by
  induction room with
  | zero => trivial
  | succ room ih => exact writable_chainsOf ih _ _

/-- How tall a statement's tree can be: it has no more than one level for each operator and each
parenthesis of the source and one for a leaf, and never more than the six levels of binary operators
allow within the room. -/
theorem height_of_statement {source : String} {tokens : List Token} {statements : List Expr}
    {e : Expr} (htokens : tokenize source = .ok tokens)
    (hstatements : parseStatements source = .ok statements) (he : e ∈ statements) :
    e.height ≤ tokens.countP Token.takesRoom + 1 ∧
      e.height ≤ 3 * maxNesting * (maxNesting + 1) + 2 := by
  rw [parseStatements, htokens] at hstatements
  obtain ⟨used, hsublist, hparsed⟩ := parsed_of_statementsUpTo hstatements e he
  have hcount := hsublist.countP_le (p := Token.takesRoom)
  have hheight := hparsed.height_le_operators
  simp only [Part.base] at hheight
  exact ⟨by omega, hparsed.height_le_tallest⟩

theorem height_of_sum :
    ∃ tokens e, tokenize "1 + 1" = .ok tokens ∧ parseStatements "1 + 1" = .ok [e] ∧
      e.height ≤ tokens.countP Token.takesRoom + 1 := by
  have hone (level : Nat) : Spelled level (.literal (.int (1 : Nat))) [⟨.number, "1"⟩] :=
    .int 1 (by decide)
  have hspelled : Spelled Expr.assignmentLevel
      (.binary .add (.literal (.int (1 : Nat))) (.literal (.int (1 : Nat))))
      ([⟨.number, "1"⟩] ++ [.operator "+", ⟨.number, "1"⟩]) :=
    .binary .add (by decide) (by decide) (hone _) (hone _)
  obtain ⟨tokens, htokens, -⟩ := tokenize_spelledText hspelled.lexes
  have hstatements := hspelled.parseStatements_eq.trans (if_pos (by decide))
  have hheight := height_of_statement htokens hstatements List.mem_cons_self
  exact ⟨tokens, _, htokens, hstatements, hheight.1⟩

/-- There is a source whose tree is as tall as a tree can be. -/
theorem exists_tallest_statement : ∃ source e, parseStatements source = .ok [e] ∧
    e.height = 3 * maxNesting * (maxNesting + 1) + 2 := by
  obtain ⟨pieces, hspelled⟩ :=
    (writable_tower maxNesting).exists_spelled Expr.assignmentLevel le_rfl
  have hroom : (tower maxNesting).room ≤ maxNesting := room_tower 99
  refine ⟨spelledText pieces, tower maxNesting, ?_, height_tower maxNesting⟩
  rw [hspelled.parseStatements_eq, if_pos hroom]

/-! ### A first operand that takes all the room -/

/-- A number behind as many minus signs. -/
def negated : Nat → Expr
  | 0 => .literal (.int (1 : Nat))
  | n + 1 => .neg (negated n)

theorem room_negated (n : Nat) : (negated n).room = n ∧ (negated n).level = 0 := by
  induction n with
  | zero => exact ⟨rfl, rfl⟩
  | succ n ih =>
      obtain ⟨hroom, hlevel⟩ := ih
      refine ⟨?_, rfl⟩
      rw [negated, Expr.room, hroom, Expr.parensRoom, hlevel, if_neg (lt_irrefl 0)]

theorem height_negated (n : Nat) : (negated n).height = n + 1 := by
  induction n with
  | zero => rfl
  | succ n ih => rw [negated, Expr.height, ih]

theorem spelled_negated (level n : Nat) :
    Spelled level (negated n) (List.replicate n (.operator "-") ++ [⟨.number, "1"⟩]) := by
  induction n generalizing level with
  | zero => exact .int 1 (by decide)
  | succ n ih => exact .unary .neg (by decide) (by decide) (ih 0)

/-- A hundred minus signs and then a sum: the signs take all the room, which the sum has again, and
the tree is one taller than a nesting of a hundred levels. -/
theorem sum_behind_signs_too_tall :
    ∃ e, parseStatements (String.join (List.replicate 100 "- ") ++ "1 + 1") = .ok [e] ∧
      e.height = maxNesting + 2 := by
  have hplus : "+" ∈ BinaryOp.add.spellings := by decide
  have hspelled : Spelled Expr.assignmentLevel (.binary .add (negated 100) (negated 0)) _ :=
    .binary .add (by decide) hplus (spelled_negated BinaryOp.add.level 100)
      (spelled_negated (BinaryOp.add.level - 1) 0)
  have htext : String.join (List.replicate 100 "- ") ++ "1 + 1" = spelledText
      ((List.replicate 100 (.operator "-") ++ [⟨.number, "1"⟩]) ++
        .operator "+" :: (List.replicate 0 (.operator "-") ++ [⟨.number, "1"⟩])) := by
    decide +kernel
  have hroom : (Expr.binary .add (negated 100) (negated 0)).room ≤ maxNesting := by
    obtain ⟨hsigns, hlevel⟩ := room_negated 100
    rw [Expr.room, hsigns, Expr.parensRoom, hlevel, Expr.links_eq_zero (by rw [hlevel]; decide)]
    decide
  refine ⟨.binary .add (negated 100) (negated 0), ?_, ?_⟩
  · rw [htext, hspelled.parseStatements_eq, if_pos hroom]
  · rw [Expr.height, height_negated, height_negated]
    rfl

end StoryEngine
