import StoryEngine.Proofs.Expr.Quoted
/-!
# StoryEngine.Proofs.Expr.Failing

What reading and evaluating a text fails with. The evaluation of an expression fails for a value, for
a result or for a variable, and never for the spelling; the spelling is never at fault for a literal
that is not closed (`failsWith_evaluate`), and no argument for a string that stands for nothing
(`failsWith_readArguments`).
-/

namespace StoryEngine

/-! ### Work that can fail -/

/-- If the work fails, then with such an error. -/
def FailsWith {ε α : Type} (P : ε → Prop) (x : ExceptT ε (StateM State) α) : Prop :=
  ∀ s e, (x s).1 = .error e → P e

section Failing

variable {ε ε' α β : Type} {P : ε → Prop} {Q : ε' → Prop} {x : ExceptT ε (StateM State) α}

theorem failsWith_pure (a : α) : FailsWith P (pure a : ExceptT ε (StateM State) α) :=
  fun _ _ h => by cases h

theorem failsWith_throw {e : ε} (h : P e) :
    FailsWith P (throw e : ExceptT ε (StateM State) α) :=
  fun _ _ heq => by cases heq; exact h

theorem failsWith_get : FailsWith P (get : ExceptT ε (StateM State) State) :=
  fun _ _ h => by cases h

theorem FailsWith.bind {f : α → ExceptT ε (StateM State) β} (hx : FailsWith P x)
    (hf : ∀ a, FailsWith P (f a)) : FailsWith P (x >>= f) := by
  intro s e h
  rw [bind_state_apply] at h
  cases hrun : x s with
  | mk result t =>
      rw [hrun] at h
      cases result with
      | ok a => exact hf a t e h
      | error e' =>
          cases h
          exact hx s e (by rw [hrun])

theorem FailsWith.adapt {f : ε → ε'} (hx : FailsWith P x) (h : ∀ e, P e → Q (f e)) :
    FailsWith Q (ExceptT.adapt f x) := by
  intro s e heq
  have hadapt : ((ExceptT.adapt f x) s).1 = (x s).1.mapError f := rfl
  rw [hadapt] at heq
  cases hrun : (x s).1 with
  | ok a => rw [hrun] at heq; cases heq
  | error e' => rw [hrun] at heq; cases heq; exact h e' (hx s e' hrun)

theorem FailsWith.mono {P' : ε → Prop} (hx : FailsWith P x) (h : ∀ e, P e → P' e) :
    FailsWith P' x :=
  fun s e heq => h e (hx s e heq)

end Failing

/-- What the evaluation of an expression, once it is read, fails with. -/
def ExprError.IsOfEvaluation : ExprError → Prop
  | .notNumeric _ => True
  | .notFinite => True
  | .badVariable _ => True
  | _ => False

/-! ### Evaluation -/

section Evaluation

variable {e : ExprError}

theorem failsWith_liftExcept {α : Type} {P : ExprError → Prop} {result : Except ExprError α}
    (h : ∀ e, result = .error e → P e) : FailsWith P (Expr.eval.liftExcept result) := by
  cases result with
  | ok a => exact failsWith_pure a
  | error e => exact failsWith_throw (h e rfl)

theorem toFloat_error {v : Value} (h : v.toFloat = .error e) : e.IsOfEvaluation := by
  unfold Value.toFloat at h
  split at h
  all_goals try cases h
  · split at h
    · cases h
    · split at h
      · cases h
      · cases h
        trivial
  · trivial

theorem ofFloat_error {x : Float} (h : Value.ofFloat x = .error e) : e.IsOfEvaluation := by
  unfold Value.ofFloat at h
  split at h
  · cases h
  · cases h
    trivial

/-- The error is that of the first or of the second step. -/
theorem bind_error {α β : Type} {x : Except ExprError α} {f : α → Except ExprError β}
    (h : (x >>= f) = .error e) : x = .error e ∨ ∃ a, x = .ok a ∧ f a = .error e := by
  cases x with
  | ok a => exact .inr ⟨a, rfl, h⟩
  | error e' =>
      cases h
      exact .inl rfl

theorem arithmetic_error {op : BinaryOp} {a b : Value} (h : op.arithmetic a b = .error e) :
    e.IsOfEvaluation := by
  unfold BinaryOp.arithmetic at h
  split at h
  · cases h
  · rcases bind_error h with ha | ⟨x, -, h⟩
    · exact toFloat_error ha
    · rcases bind_error h with hb | ⟨y, -, h⟩
      · exact toFloat_error hb
      · exact ofFloat_error h

theorem order?_error {a b : Value} (h : a.order? b = .error e) : e.IsOfEvaluation := by
  unfold Value.order? at h
  split at h
  · cases h
  · rcases bind_error h with ha | ⟨x, -, h⟩
    · exact toFloat_error ha
    · rcases bind_error h with hb | ⟨y, -, h⟩
      · exact toFloat_error hb
      · cases h

theorem comparison_error {op : BinaryOp} {a b : Value}
    (h : (do
      match ← a.order? b with
      | some order => Except.ok (Value.bool (op.holds order))
      | none => Except.ok (Value.bool false)) = .error e) : e.IsOfEvaluation := by
  rcases bind_error h with ha | ⟨order, -, h⟩
  · exact order?_error ha
  · cases order <;> cases h

theorem apply_error {op : BinaryOp} {a b : Value} (h : op.apply a b = .error e) :
    e.IsOfEvaluation := by
  cases op with
  | eq | ne | same | notSame => cases h
  | lt | le | gt | ge => exact comparison_error h
  | _ => exact arithmetic_error h

theorem newValue_error {op : AssignOp} {old right : Value} (h : op.newValue old right = .error e) :
    e.IsOfEvaluation := by
  unfold AssignOp.newValue at h
  split at h
  · cases h
  · exact arithmetic_error h

theorem failsWith_assign (name : String) (value : Value) :
    FailsWith ExprError.IsOfEvaluation (assign name value) := by
  intro s e h
  cases hset : s.set name value with
  | ok t => rw [assign_of_ok hset] at h; cases h
  | error error => rw [assign_of_error hset] at h; cases h; trivial

theorem failsWith_eval (expr : Expr) : FailsWith ExprError.IsOfEvaluation expr.eval := by
  induction expr using Expr.eval.induct with
  | case1 value => exact failsWith_pure value
  | case2 name => exact failsWith_get.bind fun s => failsWith_pure _
  | case3 operand ih => exact ih.bind fun value => failsWith_pure _
  | case4 operand ih =>
      exact ih.bind fun value => (failsWith_liftExcept fun _ => toFloat_error).bind fun x =>
        failsWith_liftExcept fun _ => ofFloat_error
  | case5 wanted name => exact failsWith_get.bind fun s => failsWith_pure _
  | case6 wanted operand hvar ih =>
      rw [Expr.eval_defined fun name heq => hvar name heq]
      exact ih.bind fun value => failsWith_pure _
  | case7 left right ihl ihr =>
      refine ihl.bind fun value => ?_
      split
      · exact ihr
      · exact failsWith_pure value
  | case8 left right ihl ihr =>
      refine ihl.bind fun value => ?_
      split
      · exact failsWith_pure value
      · exact ihr
  | case9 op left right hand hor ihl ihr =>
      rw [Expr.eval_binary hand hor]
      exact ihl.bind fun a => ihr.bind fun b => failsWith_liftExcept fun _ => apply_error
  | case10 op target right ih =>
      refine ih.bind fun b => failsWith_get.bind fun s => ?_
      refine (failsWith_liftExcept fun _ => newValue_error).bind fun value => ?_
      exact (failsWith_assign target value).bind fun _ => failsWith_pure value

theorem failsWith_evalStatements (statements : List Expr) (last : Value) :
    FailsWith ExprError.IsOfEvaluation (evalStatements statements last) := by
  induction statements generalizing last with
  | nil => exact failsWith_pure last
  | cons statement rest ih => exact (failsWith_eval statement).bind ih

end Evaluation

/-! ### Reading -/

theorem operatorLexeme_ne_openLiteral (c : Char) (cs : List Char) :
    (operatorLexeme c cs).kind ≠ .bad .openLiteral := by
  unfold operatorLexeme
  split
  · split
    · split <;> simp
    · simp
  · split <;> simp

theorem stringLexeme_ne_openLiteral {quote : Char} {fault : SpellingFault}
    (h : fault ≠ .openLiteral) (cs : List Char) :
    (stringLexeme quote fault cs).kind ≠ .bad .openLiteral := by
  rw [stringLexeme]
  split
  · simp
  · simpa using h

/-- A literal is not closed by the fault of its quotes, and the scan tells them apart. -/
theorem lexeme_ne_openLiteral (c : Char) (cs : List Char) :
    (lexeme c cs).kind ≠ .bad .openLiteral := by
  unfold lexeme
  repeat' split
  all_goals
    first
      | exact stringLexeme_ne_openLiteral (by simp) cs
      | exact operatorLexeme_ne_openLiteral c cs
      | simp

theorem badToken?_scanTokens (position : Nat) (cs : List Char) {e : ExprError}
    (h : badToken? (scanTokens position cs) = some e) : ¬ e.IsOpenLiteral := by
  fun_induction scanTokens position cs with
  | case1 => cases h
  | case2 position cs c rest hcs start next stop token fault hkind =>
      rw [badToken?, show token.kind = .bad fault from hkind] at h
      cases h
      rintro ⟨position, heq⟩
      rw [(ExprError.misspelled.inj heq).1] at hkind
      exact lexeme_ne_openLiteral c rest hkind
  | case3 position cs c rest hcs start next stop token hkind ih =>
      rw [badToken?] at h
      split at h
      · rename_i fault hbad
        exact absurd hbad (hkind fault)
      · exact ih h

theorem areQuoted_of_tokenize {source : String} {tokens : List Token}
    (h : tokenize source = .ok tokens) : AreQuoted tokens := by
  rw [tokenize] at h
  split at h
  · cases h
  · cases h
    exact unquote_of_scanTokens 0 source.toList

/-- A text that is refused is not refused for a literal that is not closed. -/
theorem parseStatements_refused {source : String} {e : ExprError}
    (h : parseStatements source = .error e) : ¬ e.IsOpenLiteral := by
  rw [parseStatements] at h
  split at h
  · rename_i error htokens
    cases h
    rw [tokenize] at htokens
    split at htokens
    · rename_i error hbad
      cases htokens
      exact badToken?_scanTokens 0 _ hbad
    · cases htokens
  · rename_i tokens htokens
    have hquoted : AreQuoted tokens := areQuoted_of_tokenize htokens
    exact (statements_refused (Grammar.spells_withRoom maxNesting) hquoted h).1

theorem failsWith_evaluate (source : String) :
    FailsWith (fun e => ¬ e.IsOpenLiteral) (evaluate source) := by
  rw [evaluate]
  split
  · rename_i e hparse
    exact failsWith_throw (parseStatements_refused hparse)
  · refine (failsWith_evalStatements _ _).mono fun e he => ?_
    rintro ⟨position, rfl⟩
    exact he

/-! ### Arguments -/

/-- The error says that a quoted string stands for none, here or in an expression. -/
def ArgumentError.IsBadString (e : ArgumentError) : Prop :=
  ∃ text error, e = .badString text error ∨ e = .badExpression text error ∧ error.IsOpenLiteral

theorem not_isBadString_unreadable {text : String} {fault : ArgumentFault} :
    ¬ (ArgumentError.unreadable text fault).IsBadString := by
  rintro ⟨text, error, heq | ⟨heq, -⟩⟩ <;> cases heq

theorem failsWith_value {token : ArgumentToken}
    (h : token.kind = .string → ∃ s, unquote token.text = .ok s) :
    FailsWith (fun e => ¬ e.IsBadString) token.value := by
  unfold ArgumentToken.value
  split
  · exact failsWith_throw not_isBadString_unreadable
  · split
    · exact failsWith_get.bind fun s => failsWith_pure _
    · exact failsWith_pure _
  · dsimp only
    split
    · exact failsWith_pure _
    · refine (failsWith_evaluate _).adapt fun e he => ?_
      rintro ⟨text, error, heq | ⟨heq, hopen⟩⟩
      · cases heq
      · cases heq
        exact he hopen
  · rename_i hstring
    obtain ⟨s, hs⟩ := h hstring
    rw [hs]
    exact failsWith_pure _
  · split
    · exact failsWith_pure _
    · exact failsWith_throw not_isBadString_unreadable

theorem failsWith_tokenValues {tokens : List ArgumentToken}
    (h : ∀ token ∈ tokens, token.kind = .string → ∃ s, unquote token.text = .ok s) :
    FailsWith (fun e => ¬ e.IsBadString) (tokenValues tokens) := by
  induction tokens with
  | nil => exact failsWith_pure []
  | cons token rest ih =>
      obtain ⟨htoken, hrest⟩ := List.forall_mem_cons.mp h
      exact (failsWith_value htoken).bind fun value => (ih hrest).bind fun values =>
        failsWith_pure _

/-- An argument is not refused for a string that stands for nothing. -/
theorem failsWith_readArguments (raw : String) :
    FailsWith (fun e => ¬ e.IsBadString) (readArguments raw) :=
  (failsWith_tokenValues (unquote_of_scanArguments 0 raw.toList)).bind fun _ => failsWith_pure _

end StoryEngine
