import MicroOS.User.CalcLexer

/-!
The parser and the interpreter of the calculator, `user/calc/parser.c`, `interpreter.c` and the
iterator of `dynamic_array.c`.

* `Iterator`: the tokens and the place that has been reached;
* `parserFactor`, `parserTerm`, `parserExpr`: the recursive descent, with fuel;
* `eval`: the value of a tree, where the processor divides;
* `calculate`: what `main` prints.
-/

namespace MicroOS

open Checked

/-! ### The tree -/

/-- The nodes with two operands. -/
inductive BinaryNode where
  | add
  | substract
  | multiply
  | divide
  | modulo
  deriving DecidableEq

/-- The nodes with one operand. -/
inductive UnaryNode where
  | plus
  | minus
  deriving DecidableEq

/-- `parser_node_t`. -/
inductive ParserNode where
  | number (value : Int32)
  | binary (type : BinaryNode) (a b : ParserNode)
  | unary (type : UnaryNode) (a : ParserNode)
  deriving DecidableEq

/-! ### The iterator -/

/-- `dynamic_array_iterator_t`. -/
structure Iterator where
  tokens : List LexerToken
  idx : ℕ
  deriving DecidableEq

namespace Iterator

/-- `dynamic_array_iterator_next`: the token, and the iterator behind it. -/
def next (iterator : Iterator) : Option LexerToken × Iterator :=
  if iterator.idx < iterator.tokens.length then
    (iterator.tokens[iterator.idx]?, { iterator with idx := iterator.idx + 1 })
  else (none, iterator)

/-- `dynamic_array_iterator_get_next`. -/
def getNext (iterator : Iterator) : Option LexerToken := iterator.tokens[iterator.idx]?

/-- `dynamic_array_iterator_has_next`. -/
def hasNext (iterator : Iterator) : Bool := iterator.idx < iterator.tokens.length

/-- One step back, as `__parser_factor` takes it. -/
def back (iterator : Iterator) : Iterator := { iterator with idx := iterator.idx - 1 }

/-- The iterator that has passed over `before`. -/
def between (before after : List LexerToken) : Iterator := ⟨before ++ after, before.length⟩

variable {before after : List LexerToken} {token : LexerToken}

@[simp] lemma between_getNext : (between before after).getNext = after.head? := by
  rw [between, getNext, List.getElem?_append_right le_rfl, Nat.sub_self, List.head?_eq_getElem?]

@[simp] lemma between_hasNext_cons : (between before (token :: after)).hasNext = true := by
  simp [between, hasNext]

@[simp] lemma between_hasNext_nil : (between before []).hasNext = false := by
  simp [between, hasNext]

/-- A token moves from one side to the other. -/
lemma between_cons_of_append :
    between (before ++ [token]) after = ⟨before ++ token :: after, before.length + 1⟩ := by
  rw [between, List.append_assoc, List.length_append, List.singleton_append, List.length_singleton]

/-- Taking the next token. -/
@[simp] lemma between_next_cons :
    (between before (token :: after)).next = (some token, between (before ++ [token]) after) := by
  have hlt : before.length < (before ++ token :: after).length := by simp
  have htoken : (before ++ token :: after)[before.length]? = some token := by simp
  rw [between_cons_of_append, between, next]
  dsimp only
  rw [if_pos hlt, htoken]

@[simp] lemma between_next_nil : (between before []).next = (none, between before []) := by
  simp [between, next]

/-- Putting the last token back. -/
@[simp] lemma between_back :
    (between (before ++ [token]) after).back = between before (token :: after) := by
  rw [between_cons_of_append]
  rfl

end Iterator

/-! ### The parser -/

/-- `__parser_constant`. -/
def parserConstant (name : List UInt8) : Except CalcFault Int32 :=
  if name = [116, 101, 115, 116] then .ok 3 else .error .abort

/-- The nodes of the operators that `__parser_term` takes. -/
def termNode : LexerToken → Option BinaryNode
  | .multiply => some .multiply
  | .divide => some .divide
  | .modulo => some .modulo
  | _ => none

/-- The nodes of the operators that `__parser_expr` takes. -/
def exprNode : LexerToken → Option BinaryNode
  | .plus => some .add
  | .minus => some .substract
  | _ => none

/-- The closing parenthesis in `__parser_factor`. -/
def parserClose (node : ParserNode) (iterator : Iterator) :
    Except CalcFault (ParserNode × Iterator) :=
  match iterator.getNext with
  | none => .error .nullDereference
  | some token => if token = .rparen then .ok (node, iterator.next.2) else .error .abort

mutual

/-- `__parser_factor`. The numbers of `plus_node` and `minus_node` are those of `lparen` and
`rparen`, so that a closing parenthesis is taken for a sign. -/
def parserFactor : ℕ → Iterator → Except CalcFault (ParserNode × Iterator)
  | 0, _ => .error .outOfFuel
  | fuel + 1, iterator =>
    match iterator.getNext with
    | none => .error .nullDereference
    | some .lparen => do
        let (node, iterator) ← parserExpr fuel iterator.next.2
        parserClose node iterator.back
    | some (.number value) => return (.number value, iterator.next.2)
    | some .rparen => do
        let (node, iterator) ← parserFactor fuel iterator.next.2
        return (.unary .minus node, iterator)
    | some (.id name) => do
        let constant ← parserConstant name
        return (.number constant, iterator.next.2)
    | some .plus | some .minus | some .multiply | some .divide | some .modulo | some .comma =>
      .error .abort

/-- `__parser_term`. -/
def parserTerm : ℕ → Iterator → Except CalcFault (ParserNode × Iterator)
  | 0, _ => .error .outOfFuel
  | fuel + 1, iterator => do
      let (node, iterator) ← parserFactor fuel iterator
      termLoop fuel iterator.getNext node iterator

/-- The loop of `__parser_term`, with `current_token`. -/
def termLoop : ℕ → Option LexerToken → ParserNode → Iterator →
    Except CalcFault (ParserNode × Iterator)
  | 0, _, _, _ => .error .outOfFuel
  | fuel + 1, current, node, iterator =>
    if iterator.hasNext then
      match current with
      | none => .error .nullDereference
      | some token =>
        match termNode token with
        | none => return (node, iterator)
        | some type => do
            let (factor, iterator) ← parserFactor fuel iterator.next.2
            termLoop fuel iterator.getNext (.binary type node factor) iterator
    else return (node, iterator)

/-- `__parser_expr`. -/
def parserExpr : ℕ → Iterator → Except CalcFault (ParserNode × Iterator)
  | 0, _ => .error .outOfFuel
  | fuel + 1, iterator => do
      let (node, iterator) ← parserTerm fuel iterator
      exprLoop fuel iterator.getNext node iterator

/-- The loop of `__parser_expr`. It takes the token that it looks at after a term. -/
def exprLoop : ℕ → Option LexerToken → ParserNode → Iterator →
    Except CalcFault (ParserNode × Iterator)
  | 0, _, _, _ => .error .outOfFuel
  | fuel + 1, current, node, iterator =>
    if iterator.hasNext then
      match current with
      | none => .error .nullDereference
      | some token =>
        match exprNode token with
        | none => return (node, iterator)
        | some type => do
            let (term, iterator) ← parserTerm fuel iterator.next.2
            exprLoop fuel iterator.next.1 (.binary type node term) iterator.next.2
    else return (node, iterator)

end

/-- `parser_parse`. -/
def parserParse (fuel : ℕ) (tokens : List LexerToken) : Except CalcFault ParserNode := do
  return (← parserExpr fuel ⟨tokens, 0⟩).1

/-! ### The interpreter -/

/-- A signed division faults on zero and where the quotient does not fit. -/
def divides (a b : Int32) : Bool := b ≠ 0 ∧ ¬(a = Int32.minValue ∧ b = -1)

/-- The operators of `eval`. -/
def BinaryNode.apply (a b : Int32) : BinaryNode → Except CalcFault Int32
  | add => .ok (a + b)
  | substract => .ok (a - b)
  | multiply => .ok (a * b)
  | divide => if divides a b then .ok (a / b) else .error .divideError
  | modulo => if divides a b then .ok (a % b) else .error .divideError

/-- `eval`. -/
def eval : ParserNode → Except CalcFault Int32
  | .number value => .ok value
  | .binary type a b => do type.apply (← eval a) (← eval b)
  | .unary _ _ => .error .abort

/-- What `main` prints for its input. -/
def calculate (fuel : ℕ) (input : List UInt8) : Except CalcFault Int32 := do
  let tokens ← lexerTokenize input
  let node ← parserParse fuel tokens
  eval node

end MicroOS
