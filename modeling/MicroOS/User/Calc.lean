import MicroOS.User.CalcParser

/-!
Arithmetic expressions, and what the calculator makes of them.

* `Factor`, `Term`, `Expr`: the grammar, whose operators associate to the left, and the values in
  32 bits;
* `Rendering`: an expression as a text, with blanks anywhere between its lexemes;
* `Expr.Paired`: in parentheses there is exactly one addition or subtraction;
* `calculate_rendering`: an expression of at most one sum on each level is evaluated correctly;
* `calculate_threeDigits`: a chain of two sums is not.
-/

namespace MicroOS

open Checked

/-! ### Expressions -/

/-- The operators between terms. -/
inductive AddOperator where
  | plus
  | minus
  deriving DecidableEq

/-- The operators between factors. -/
inductive MulOperator where
  | multiply
  | divide
  | modulo
  deriving DecidableEq

mutual

/-- `factor := number | 'test' | '(' expr ')'`. -/
inductive Factor where
  | number (n : Numeral)
  | test
  | paren (e : Expr)

/-- `term := factor (('*'|'/'|'%') factor)*`. -/
inductive Term where
  | factor (f : Factor)
  | op (t : Term) (o : MulOperator) (f : Factor)

/-- `expr := term (('+'|'-') term)*`. -/
inductive Expr where
  | term (t : Term)
  | op (e : Expr) (o : AddOperator) (t : Term)

end

/-- Addition and subtraction wrap around. -/
def AddOperator.value (a b : Int32) : AddOperator → Int32
  | plus => a + b
  | minus => a - b

/-- Division rounds to zero, and a remainder has the sign of the dividend. -/
def MulOperator.value (a b : Int32) : MulOperator → Int32
  | multiply => a * b
  | divide => a / b
  | modulo => a % b

mutual

/-- The value of a factor. -/
def Factor.value : Factor → Int32
  | .number n => Int32.ofNat n.value
  | .test => 3
  | .paren e => e.value

/-- The value of a term. -/
def Term.value : Term → Int32
  | .factor f => f.value
  | .op t o f => o.value t.value f.value

/-- The value of an expression. -/
def Expr.value : Expr → Int32
  | .term t => t.value
  | .op e o t => o.value e.value t.value

end

mutual

/-- Every dividend and its divisor in a factor are related. -/
def Factor.Divisions (p : Int32 → Int32 → Prop) : Factor → Prop
  | .number _ => True
  | .test => True
  | .paren e => e.Divisions p

/-- Every dividend and its divisor in a term are related. -/
def Term.Divisions (p : Int32 → Int32 → Prop) : Term → Prop
  | .factor f => f.Divisions p
  | .op t o f => t.Divisions p ∧ f.Divisions p ∧ (o ≠ .multiply → p t.value f.value)

/-- Every dividend and its divisor in an expression are related. -/
def Expr.Divisions (p : Int32 → Int32 → Prop) : Expr → Prop
  | .term t => t.Divisions p
  | .op e _ t => e.Divisions p ∧ t.Divisions p

end

/-- No divisor is zero. -/
def Expr.NoZeroDivisor (e : Expr) : Prop := e.Divisions fun _ b => b ≠ 0

/-- No quotient is `2 ^ 31`. -/
def Expr.QuotientsFit (e : Expr) : Prop :=
  e.Divisions fun a b => ¬(a = Int32.minValue ∧ b = -1)

/-- The number of additions and subtractions outside all parentheses. -/
def Expr.sums : Expr → ℕ
  | .term _ => 0
  | .op e _ _ => e.sums + 1

mutual

/-- Every parenthesised expression in a factor has one addition or subtraction. -/
def Factor.Paired : Factor → Prop
  | .number _ => True
  | .test => True
  | .paren e => e.sums = 1 ∧ e.Paired

/-- Every parenthesised expression in a term has one addition or subtraction. -/
def Term.Paired : Term → Prop
  | .factor f => f.Paired
  | .op t _ f => t.Paired ∧ f.Paired

/-- Every parenthesised expression in an expression has one addition or subtraction. -/
def Expr.Paired : Expr → Prop
  | .term t => t.Paired
  | .op e _ t => e.Paired ∧ t.Paired

end

/-! ### Texts -/

/-- How an operator is written. -/
def AddOperator.lexeme : AddOperator → Lexeme
  | plus => .plus
  | minus => .minus

/-- How an operator is written. -/
def MulOperator.lexeme : MulOperator → Lexeme
  | multiply => .multiply
  | divide => .divide
  | modulo => .modulo

mutual

/-- How a factor is written. -/
def Factor.lexemes : Factor → List Lexeme
  | .number n => [.numeral n]
  | .test => [.test]
  | .paren e => .lparen :: (e.lexemes ++ [.rparen])

/-- How a term is written. -/
def Term.lexemes : Term → List Lexeme
  | .factor f => f.lexemes
  | .op t o f => t.lexemes ++ o.lexeme :: f.lexemes

/-- How an expression is written. -/
def Expr.lexemes : Expr → List Lexeme
  | .term t => t.lexemes
  | .op e o t => e.lexemes ++ o.lexeme :: t.lexemes

end

/-- An expression with blanks between its lexemes and around it. -/
structure Rendering (e : Expr) where
  spaced : List (List UInt8 × Lexeme)
  tail : List UInt8
  lexemes_eq : spaced.map Prod.snd = e.lexemes
  blanks : ∀ x ∈ spaced, ∀ c ∈ x.1, isBlank c = true
  tail_blanks : ∀ c ∈ tail, isBlank c = true

/-- The text of a rendering. -/
def Rendering.text {e : Expr} (r : Rendering e) : List UInt8 := spell r.spaced r.tail

/-- An expression without blanks. -/
def Rendering.tight (e : Expr) : Rendering e where
  spaced := e.lexemes.map fun x => ([], x)
  tail := []
  lexemes_eq := by
    rw [List.map_map]
    exact List.map_id _
  blanks := by
    intro x hx c hc
    obtain ⟨y, -, rfl⟩ := List.mem_map.mp hx
    exact absurd hc List.not_mem_nil
  tail_blanks := nofun

/-- The calculator evaluates an expression, however it is rendered. -/
def Evaluated (e : Expr) : Prop :=
  ∀ r : Rendering e, Settles (fun fuel => calculate fuel r.text) e.value

/-! ### The lexemes are told apart -/

/-- An operator may stand between any two lists. -/
lemma isChain_operator {o : Lexeme} (ho : o.isWord = false) {xs ys : List Lexeme}
    (hxs : xs.IsChain Apart) (hys : ys.IsChain Apart) : (xs ++ o :: ys).IsChain Apart := by
  have ho' {x : Lexeme} : Apart x o ∧ Apart o x :=
    ⟨fun h => Bool.noConfusion (ho.symm.trans h.2), fun h => Bool.noConfusion (ho.symm.trans h.1)⟩
  refine List.isChain_append.mpr ⟨hxs, List.isChain_cons.mpr ⟨fun y _ => ho'.2, hys⟩, ?_⟩
  rintro x - y hy
  obtain rfl : o = y := Option.some.inj hy
  exact ho'.1

lemma AddOperator.isWord_lexeme (o : AddOperator) : o.lexeme.isWord = false := by
  cases o <;> rfl

lemma MulOperator.isWord_lexeme (o : MulOperator) : o.lexeme.isWord = false := by
  cases o <;> rfl

mutual

/-- No two words of a factor stand next to each other. -/
lemma Factor.isChain_lexemes : (f : Factor) → f.lexemes.IsChain Apart
  | .number n => .singleton _
  | .test => .singleton _
  | .paren e => by
      have h := isChain_operator (o := .rparen) rfl e.isChain_lexemes .nil
      exact isChain_operator (o := .lparen) rfl .nil h

lemma Term.isChain_lexemes : (t : Term) → t.lexemes.IsChain Apart
  | .factor f => f.isChain_lexemes
  | .op t o f => isChain_operator o.isWord_lexeme t.isChain_lexemes f.isChain_lexemes

lemma Expr.isChain_lexemes : (e : Expr) → e.lexemes.IsChain Apart
  | .term t => t.isChain_lexemes
  | .op e o t => isChain_operator o.isWord_lexeme e.isChain_lexemes t.isChain_lexemes

end

/-! ### The tree that is parsed -/

/-- The node of an operator. -/
def AddOperator.node : AddOperator → BinaryNode
  | plus => .add
  | minus => .substract

/-- The node of an operator. -/
def MulOperator.node : MulOperator → BinaryNode
  | multiply => .multiply
  | divide => .divide
  | modulo => .modulo

mutual

/-- The tree of a factor. -/
def Factor.node : Factor → ParserNode
  | .number n => .number (Int32.ofNat n.value)
  | .test => .number 3
  | .paren e => e.node

/-- The tree of a term. -/
def Term.node : Term → ParserNode
  | .factor f => f.node
  | .op t o f => .binary o.node t.node f.node

/-- The tree of an expression. -/
def Expr.node : Expr → ParserNode
  | .term t => t.node
  | .op e o t => .binary o.node e.node t.node

end

/-- The tokens of lexemes. -/
def tokens (lexemes : List Lexeme) : List LexerToken := lexemes.map Lexeme.token

@[simp] lemma tokens_cons (x : Lexeme) (xs : List Lexeme) :
    tokens (x :: xs) = x.token :: tokens xs := rfl

@[simp] lemma tokens_append (xs ys : List Lexeme) : tokens (xs ++ ys) = tokens xs ++ tokens ys :=
  List.map_append

lemma AddOperator.exprNode_token (o : AddOperator) : exprNode o.lexeme.token = some o.node := by
  cases o <;> rfl

lemma AddOperator.termNode_token (o : AddOperator) : termNode o.lexeme.token = none := by
  cases o <;> rfl

lemma MulOperator.termNode_token (o : MulOperator) : termNode o.lexeme.token = some o.node := by
  cases o <;> rfl

/-- What ends a term. -/
def EndsTerm (after : List LexerToken) : Prop := ∀ token, after.head? = some token →
  termNode token = none

/-- What ends an expression. -/
def EndsExpr (after : List LexerToken) : Prop := ∀ token, after.head? = some token →
  termNode token = none ∧ exprNode token = none

section Parsing

variable {before after : List LexerToken} {node : ParserNode}

open Iterator

/-- The loop of `parser_term` ends in front of anything else. -/
lemma termLoop_end (h : EndsTerm after) : Settles
    (fun n => termLoop n after.head? node (between before after))
    (node, between before after) := by
  refine (settles_const (ε := CalcFault) (node, between before after)).succ fun n => ?_
  cases after with
  | nil =>
    rw [List.head?_nil, termLoop, between_hasNext_nil]
    rfl
  | cons token after =>
    rw [List.head?_cons, termLoop, between_hasNext_cons, if_pos rfl, h token rfl]
    rfl

/-- So does that of `parser_expr`. -/
lemma exprLoop_end (h : EndsExpr after) : Settles
    (fun n => exprLoop n after.head? node (between before after))
    (node, between before after) := by
  refine (settles_const (ε := CalcFault) (node, between before after)).succ fun n => ?_
  cases after with
  | nil =>
    rw [List.head?_nil, exprLoop, between_hasNext_nil]
    rfl
  | cons token after =>
    rw [List.head?_cons, exprLoop, between_hasNext_cons, if_pos rfl, (h token rfl).2]
    rfl

/-- The loop ends too where its last turn has taken a token. -/
lemma exprLoop_next (h : EndsExpr after) : Settles
    (fun n => exprLoop n (between before after).next.1 node (between before after).next.2)
    (node, (between before after).next.2) := by
  refine (settles_const (ε := CalcFault) (node, (between before after).next.2)).succ
    fun n => ?_
  cases after with
  | nil =>
    rw [between_next_nil, exprLoop, between_hasNext_nil]
    rfl
  | cons token after =>
    rw [between_next_cons, exprLoop, (h token rfl).2]
    split <;> rfl

lemma append_cons_append (before xs ys : List LexerToken) (x : LexerToken) :
    before ++ (xs ++ x :: ys) = before ++ xs ++ [x] ++ ys := by
  simp only [List.append_assoc, List.singleton_append]

/-- A factor is parsed wherever it stands. -/
def Factor.Parsed (f : Factor) : Prop := ∀ before after,
  Settles (fun n => parserFactor n (between before (tokens f.lexemes ++ after)))
    (f.node, between (before ++ tokens f.lexemes) after)

/-- A term is parsed as far as it goes, and then the loop looks at what follows. -/
def Term.Parsed (t : Term) : Prop := ∀ before after r,
  Settles (fun n => termLoop n after.head? t.node (between (before ++ tokens t.lexemes) after)) r →
  Settles (fun n => parserTerm n (between before (tokens t.lexemes ++ after))) r

/-- A turn of the loop of a term. -/
lemma termLoop_turn {o : MulOperator} {f : Factor} {r : ParserNode × Iterator} (hf : f.Parsed)
    (hr : Settles (fun n => termLoop n after.head? (.binary o.node node f.node)
      (between (before ++ [o.lexeme.token] ++ tokens f.lexemes) after)) r) :
    Settles (fun n => termLoop n (some o.lexeme.token) node
      (between before (o.lexeme.token :: (tokens f.lexemes ++ after)))) r := by
  have hloop := (hf (before ++ [o.lexeme.token]) after).bind
    (g := fun n p => termLoop n p.2.getNext (.binary o.node node p.1) p.2)
    (by simpa only [between_getNext] using hr)
  refine hloop.succ fun n => ?_
  rw [termLoop, between_hasNext_cons, if_pos rfl, o.termNode_token, between_next_cons]

/-- A term of one factor. -/
lemma Factor.Parsed.term {f : Factor} (hf : f.Parsed) : (Term.factor f).Parsed := by
  intro before after r hr
  rw [Term.lexemes, Term.node] at hr
  rw [Term.lexemes]
  have hterm := (hf before after).bind (g := fun n p => termLoop n p.2.getNext p.1 p.2)
    (by simpa only [between_getNext] using hr)
  refine hterm.succ fun n => ?_
  rw [parserTerm]

/-- A term with one more factor. -/
lemma Term.Parsed.op {t : Term} {f : Factor} (ht : t.Parsed) (o : MulOperator) (hf : f.Parsed) :
    (Term.op t o f).Parsed := by
  intro before after r hr
  rw [Term.lexemes, tokens_append, tokens_cons] at hr ⊢
  rw [append_cons_append] at hr
  rw [List.append_assoc, List.cons_append]
  exact ht before _ r (termLoop_turn hf hr)

/-- A term is parsed where something ends it. -/
lemma Term.Parsed.ended {t : Term} (ht : t.Parsed) (before : List LexerToken)
    (h : EndsTerm after) :
    Settles (fun n => parserTerm n (between before (tokens t.lexemes ++ after)))
      (t.node, between (before ++ tokens t.lexemes) after) :=
  ht before after _ (termLoop_end h)

/-- **An expression without a sum is parsed.** -/
lemma parserExpr_term (before : List LexerToken) {t : Term} (ht : t.Parsed) (h : EndsExpr after) :
    Settles (fun n => parserExpr n (between before (tokens t.lexemes ++ after)))
      (t.node, between (before ++ tokens t.lexemes) after) := by
  have hexpr := (ht.ended before fun token htoken => (h token htoken).1).bind
    (g := fun n p => exprLoop n p.2.getNext p.1 p.2)
    (by simpa only [between_getNext] using exprLoop_end h)
  refine hexpr.succ fun n => ?_
  rw [parserExpr]

/-- **A sum of two terms is parsed**, and what follows it is passed over. -/
lemma parserExpr_pair (before : List LexerToken) {t₁ t₂ : Term} (h₁ : t₁.Parsed)
    (o : AddOperator) (h₂ : t₂.Parsed) (h : EndsExpr after) :
    Settles (fun n => parserExpr n
        (between before (tokens (Expr.op (.term t₁) o t₂).lexemes ++ after)))
      ((Expr.op (.term t₁) o t₂).node,
        (between (before ++ tokens (Expr.op (.term t₁) o t₂).lexemes) after).next.2) := by
  rw [Expr.lexemes, Expr.lexemes, tokens_append, tokens_cons, append_cons_append,
    List.append_assoc, List.cons_append, Expr.node, Expr.node]
  have hterm : EndsTerm (o.lexeme.token :: (tokens t₂.lexemes ++ after)) := by
    rintro token htoken
    obtain rfl := Option.some.inj htoken
    exact o.termNode_token
  have hloop := (h₂.ended (before ++ tokens t₁.lexemes ++ [o.lexeme.token])
    fun token htoken => (h token htoken).1).bind
    (g := fun n p => exprLoop n p.2.next.1 (.binary o.node t₁.node p.1) p.2.next.2)
    (exprLoop_next h)
  have hexpr := (h₁.ended before hterm).bind
    (g := fun n p => exprLoop n p.2.getNext p.1 p.2)
    (hloop.succ fun n => by
      dsimp only
      rw [between_getNext, List.head?_cons, exprLoop, between_hasNext_cons, if_pos rfl,
        o.exprNode_token, between_next_cons])
  refine hexpr.succ fun n => ?_
  rw [parserExpr]

/-- **A sum in parentheses is parsed**: the step back finds the parenthesis again. -/
lemma parserFactor_paren {t₁ t₂ : Term} (h₁ : t₁.Parsed) (o : AddOperator) (h₂ : t₂.Parsed) :
    (Factor.paren (.op (.term t₁) o t₂)).Parsed := by
  intro before after
  have hends : EndsExpr (.rparen :: after) := by
    rintro token htoken
    obtain rfl := Option.some.inj htoken
    exact ⟨rfl, rfl⟩
  have hexpr := parserExpr_pair (before ++ [.lparen]) h₁ o h₂ hends
  rw [between_next_cons] at hexpr
  have hfactor := hexpr.bind (g := fun _ p => parserClose p.1 p.2.back) (by
    dsimp only
    rw [between_back, parserClose, between_getNext, List.head?_cons, between_next_cons]
    exact settles_const _)
  have hbefore : before ++ tokens (Factor.paren (.op (.term t₁) o t₂)).lexemes =
      before ++ [.lparen] ++ tokens (Expr.op (.term t₁) o t₂).lexemes ++ [.rparen] := by
    rw [Factor.lexemes, tokens_cons, tokens_append, List.append_assoc, List.append_assoc]
    rfl
  rw [hbefore, Factor.node, Factor.lexemes, tokens_cons, tokens_append, List.cons_append,
    List.append_assoc]
  refine hfactor.succ fun n => ?_
  rw [parserFactor, between_getNext, List.head?_cons, Lexeme.token, between_next_cons]
  rfl

/-- A factor of one token. -/
lemma Factor.parsed_token {f : Factor} {x : Lexeme} (hf : f.lexemes = [x])
    (h : ∀ n iterator, iterator.getNext = some x.token →
      parserFactor (n + 1) iterator = .ok (f.node, iterator.next.2)) : f.Parsed := by
  intro before after
  refine (settles_const _).succ fun n => ?_
  rw [hf, tokens_cons, List.cons_append, h n _ between_getNext, between_next_cons]
  rfl

/-- A number is parsed. -/
lemma Factor.parsed_number (n : Numeral) : (Factor.number n).Parsed := by
  refine Factor.parsed_token (x := .numeral n) rfl fun k iterator h => ?_
  rw [parserFactor, h]
  rfl

/-- So is `test`. -/
lemma Factor.parsed_test : Factor.test.Parsed := by
  refine Factor.parsed_token (x := .test) rfl fun k iterator h => ?_
  rw [parserFactor, h]
  rfl

mutual

/-- **Factors are parsed.** -/
lemma Factor.parsed : (f : Factor) → f.Paired → f.Parsed
  | .number n, _ => Factor.parsed_number n
  | .test, _ => Factor.parsed_test
  | .paren (.op (.term t₁) o t₂), h =>
    parserFactor_paren (t₁.parsed h.2.1) o (t₂.parsed h.2.2)
  | .paren (.term _), h => absurd h.1 nofun
  | .paren (.op (.op _ _ _) _ _), h => absurd h.1 nofun

/-- **Terms are parsed.** -/
lemma Term.parsed : (t : Term) → t.Paired → t.Parsed
  | .factor f, h => (f.parsed h).term
  | .op t o f, h => (t.parsed h.1).op o (f.parsed h.2)

end

end Parsing

/-- **An expression of at most one sum on each level is parsed.** -/
theorem parserParse_tokens {e : Expr} (hsums : e.sums ≤ 1) (h : e.Paired) :
    Settles (fun fuel => parserParse fuel (tokens e.lexemes)) e.node := by
  have hend : EndsExpr [] := nofun
  have hexpr : ∃ iterator, Settles (fun n => parserExpr n (Iterator.between [] (tokens e.lexemes)))
      (e.node, iterator) := by
    match e, hsums, h with
    | .term t, _, h =>
      have hparse := parserExpr_term [] (t.parsed h) hend
      rw [List.append_nil] at hparse
      exact ⟨_, hparse⟩
    | .op (.term t₁) o t₂, _, h =>
      have hparse := parserExpr_pair [] (t₁.parsed h.1) o (t₂.parsed h.2) hend
      rw [List.append_nil] at hparse
      exact ⟨_, hparse⟩
  obtain ⟨iterator, hexpr⟩ := hexpr
  exact hexpr.bind (g := fun _ p => .ok p.1) (settles_const _)

/-! ### The value -/

section Values

lemma divides_of {a b : Int32} (h₀ : b ≠ 0) (h₁ : ¬(a = Int32.minValue ∧ b = -1)) :
    divides a b = true := decide_eq_true ⟨h₀, h₁⟩

lemma AddOperator.apply_node (o : AddOperator) (a b : Int32) :
    o.node.apply a b = .ok (o.value a b) := by
  cases o <;> rfl

/-- The node of another operator does, where the division is defined. -/
lemma MulOperator.apply_node (o : MulOperator) {a b : Int32}
    (h : o ≠ .multiply → divides a b = true) : o.node.apply a b = .ok (o.value a b) := by
  cases o with
  | multiply => rfl
  | divide => exact if_pos (h nofun)
  | modulo => exact if_pos (h nofun)

/-- A node is evaluated from its two sides. -/
lemma eval_binary {type : BinaryNode} {x y : ParserNode} {a b c : Int32} (hx : eval x = .ok a)
    (hy : eval y = .ok b) (h : type.apply a b = .ok c) : eval (.binary type x y) = .ok c := by
  rw [eval, hx, hy]
  exact h

mutual

/-- **The tree of a factor** is evaluated to its value, when every division is defined. -/
lemma Factor.eval_node : (f : Factor) → f.Divisions (fun _ b => b ≠ 0) →
    f.Divisions (fun a b => ¬(a = Int32.minValue ∧ b = -1)) → eval f.node = .ok f.value
  | .number _, _, _ => rfl
  | .test, _, _ => rfl
  | .paren e, h₀, h₁ => e.eval_node h₀ h₁

/-- So is that of a term. -/
lemma Term.eval_node : (t : Term) → t.Divisions (fun _ b => b ≠ 0) →
    t.Divisions (fun a b => ¬(a = Int32.minValue ∧ b = -1)) → eval t.node = .ok t.value
  | .factor f, h₀, h₁ => f.eval_node h₀ h₁
  | .op t o f, h₀, h₁ =>
    eval_binary (t.eval_node h₀.1 h₁.1) (f.eval_node h₀.2.1 h₁.2.1)
      (o.apply_node fun ho => divides_of (h₀.2.2 ho) (h₁.2.2 ho))

/-- **The tree of an expression has its value.** -/
lemma Expr.eval_node : (e : Expr) → e.NoZeroDivisor → e.QuotientsFit → eval e.node = .ok e.value
  | .term t, h₀, h₁ => t.eval_node h₀ h₁
  | .op e o t, h₀, h₁ =>
    eval_binary (e.eval_node h₀.1 h₁.1) (t.eval_node h₀.2 h₁.2) (o.apply_node _ _)

end

end Values

/-! ### The calculator -/

mutual

/-- A factor has a lexeme. -/
lemma Factor.lexemes_ne_nil : (f : Factor) → f.lexemes ≠ []
  | .number _ => List.cons_ne_nil _ _
  | .test => List.cons_ne_nil _ _
  | .paren _ => List.cons_ne_nil _ _

lemma Term.lexemes_ne_nil : (t : Term) → t.lexemes ≠ []
  | .factor f => f.lexemes_ne_nil
  | .op _ _ _ => List.append_ne_nil_of_right_ne_nil _ (List.cons_ne_nil _ _)

end

/-- And an expression. -/
lemma Expr.lexemes_ne_nil (e : Expr) : e.lexemes ≠ [] := by
  cases e with
  | term t => exact t.lexemes_ne_nil
  | op e o t => exact List.append_ne_nil_of_right_ne_nil _ (List.cons_ne_nil _ _)

/-- **A rendering is taken apart into the tokens of its expression.** -/
lemma Rendering.lexerTokenize_text {e : Expr} (r : Rendering e) :
    lexerTokenize r.text = .ok (tokens e.lexemes) := by
  have hne : r.spaced ≠ [] := by
    intro hnil
    have hlexemes := r.lexemes_eq
    rw [hnil] at hlexemes
    exact e.lexemes_ne_nil hlexemes.symm
  have hapart : (r.spaced.map Prod.snd).IsChain Apart := by
    rw [r.lexemes_eq]
    exact e.isChain_lexemes
  rw [Rendering.text, lexerTokenize_spell hne hapart r.blanks r.tail_blanks, ← r.lexemes_eq, tokens,
    List.map_map]
  rfl

/-- **An expression is evaluated correctly** if every parenthesised expression in it has exactly
one addition or subtraction, the expression itself has at most one, and no quotient overflows. -/
theorem calculate_rendering (e : Expr) (hzero : e.NoZeroDivisor) (hsums : e.sums ≤ 1)
    (hpaired : e.Paired) (hfit : e.QuotientsFit) : Evaluated e := by
  intro r
  have heval : Settles (fun _ => eval e.node) e.value := ⟨0, fun _ => e.eval_node hzero hfit⟩
  have hparse := (parserParse_tokens hsums hpaired).bind (g := fun _ node => eval node) heval
  have hcalculate (fuel : ℕ) :
      calculate fuel r.text = parserParse fuel (tokens e.lexemes) >>= eval := by
    rw [calculate, r.lexerTokenize_text]
    rfl
  simpa only [hcalculate] using hparse

lemma digitValue_ofNat : ∀ d : Fin 10, digitValue (UInt8.ofNat (48 + d)) = some d.val := by
  decide

/-- A decimal digit. -/
def digit (d : Fin 10) : Numeral where
  base := .decimal
  digits := [UInt8.ofNat (48 + d)]
  ne_nil := List.cons_ne_nil _ _
  valid := by
    intro c hc
    obtain rfl := List.mem_singleton.mp hc
    exact ⟨d, d.isLt, digitValue_ofNat d⟩
  value_lt := by
    rw [digitsValue, List.foldl_cons, digitValue_ofNat, List.foldl_nil, Option.getD_some]
    omega

/-- The factor of a digit. -/
def digitTerm (d : Fin 10) : Term := .factor (.number (digit d))

/-- `9/(3+1)-2` is evaluated. -/
theorem calculate_quotient : Evaluated (.op (.term (.op (digitTerm 9) .divide
    (.paren (.op (.term (digitTerm 3)) .plus (digitTerm 1))))) .minus (digitTerm 2)) :=
  calculate_rendering _ ⟨⟨trivial, ⟨trivial, trivial⟩, fun _ => by decide⟩, trivial⟩ le_rfl
    ⟨⟨trivial, rfl, trivial, trivial⟩, trivial⟩
    ⟨⟨trivial, ⟨trivial, trivial⟩, fun _ => by decide⟩, trivial⟩

/-- `1+2+3`. -/
def threeDigits : Expr :=
  .op (.op (.term (digitTerm 1)) .plus (digitTerm 2)) .plus (digitTerm 3)

/-- Behind the second term of `1+2+3` the loop takes the second sign, at once takes the last number
in place of that sign, and reads the next factor behind the end. -/
theorem calculate_threeDigits : ¬∀ e : Expr, e.NoZeroDivisor → Evaluated e := by
  intro h
  have hzero : threeDigits.NoZeroDivisor := ⟨⟨trivial, trivial⟩, trivial⟩
  refine not_settles (e := .nullDereference) 20 (fun k => ?_)
    (h threeDigits hzero (.tight threeDigits))
  rw [Nat.add_comm]
  rfl

end MicroOS
