import MicroOS.User.Calc

/-!
What `parser_parse` does with any list of tokens. The recursive descent is a machine that reads the
tokens once from the left, with a flag for every open parenthesis; an expression in parentheses is
left when the machine finds a token that does not go on, and not when it finds the parenthesis.

* `Reading.step`: the machine, one token;
* `parserFactor_reads` to `exprLoop_reads`: each function of the parser passes over the tokens as
  the machine does, with three steps of fuel for a token;
* `parserParse_reading`: the parser returns where the machine accepts, aborts where it refuses, and
  dereferences `NULL` where it is left waiting;
* `failsCleanly_iff`: the lists that are accepted only if they are sentences;
* `IsProduct.failsCleanly`, `failsCleanly_sum`, `failsCleanly_operator`: kinds of such lists.
-/

namespace MicroOS

open Checked

/-! ### The grammar -/

mutual

/-- `factor := number | id | '(' expr ')' | ('+'|'-') factor`. -/
inductive IsFactor : List LexerToken → Prop where
  | number (value : Int32) : IsFactor [.number value]
  | id (name : List UInt8) : IsFactor [.id name]
  | paren {xs : List LexerToken} (h : IsExpr xs) : IsFactor (.lparen :: (xs ++ [.rparen]))
  | plus {xs : List LexerToken} (h : IsFactor xs) : IsFactor (.plus :: xs)
  | minus {xs : List LexerToken} (h : IsFactor xs) : IsFactor (.minus :: xs)

/-- `term := factor (('*'|'/'|'%') factor)*`. -/
inductive IsTerm : List LexerToken → Prop where
  | factor {xs : List LexerToken} (h : IsFactor xs) : IsTerm xs
  | op {xs ys : List LexerToken} {t : LexerToken} (hxs : IsTerm xs)
      (ht : t = .multiply ∨ t = .divide ∨ t = .modulo) (hys : IsFactor ys) : IsTerm (xs ++ t :: ys)

/-- `expr := term (('+'|'-') term)*`. -/
inductive IsExpr : List LexerToken → Prop where
  | term {xs : List LexerToken} (h : IsTerm xs) : IsExpr xs
  | op {xs ys : List LexerToken} {t : LexerToken} (hxs : IsExpr xs) (ht : t = .plus ∨ t = .minus)
      (hys : IsTerm ys) : IsExpr (xs ++ t :: ys)

end

/-! ### The machine -/

/-- What becomes of a list of tokens. -/
inductive Verdict where
  | accepted
  | refused
  | starved
  deriving DecidableEq

/-- The state between two tokens. `sum` is set when the innermost expression has had a sign, and
`outer` has the flags of those around it, one for each open parenthesis. -/
inductive Reading where
  | awaits (sum : Bool) (outer : List Bool)
  | behind (closing sum : Bool) (outer : List Bool)
  | skips (outer : List Bool)
  | ended (verdict : Verdict)

namespace Reading

/-- A token where a factor has to begin. -/
def factorStep (sum : Bool) (outer : List Bool) : LexerToken → Reading
  | .number _ => behind false sum outer
  | .id name => if name = [116, 101, 115, 116] then behind false sum outer else ended .refused
  | .lparen => awaits false (sum :: outer)
  | .rparen => awaits sum outer
  | .plus | .minus | .multiply | .divide | .modulo | .comma => ended .refused

/-- A token behind a factor, where `closing` says that the token before it was a parenthesis. An
expression that has had its sign takes the token, whatever it is. -/
def behindStep (closing sum : Bool) (t : LexerToken) : List Bool → Reading
  | [] =>
    if (termNode t).isSome then awaits sum []
    else if (exprNode t).isSome then if sum then skips [] else awaits true []
    else ended .accepted
  | s :: outer =>
    if (termNode t).isSome then awaits sum (s :: outer)
    else if (exprNode t).isSome then if sum then skips (s :: outer) else awaits true (s :: outer)
    else if sum then if t = .rparen then behind true s outer else ended .refused
    else if closing then behindStep true s t outer else ended .refused

/-- One token. -/
def step : Reading → LexerToken → Reading
  | awaits sum outer, t => factorStep sum outer t
  | behind closing sum outer, t => behindStep closing sum t outer
  | skips outer, _ => awaits true outer
  | ended verdict, _ => ended verdict

/-- The end of the tokens. -/
def verdict : Reading → Verdict
  | awaits _ _ => .starved
  | behind closing _ outer => if outer = [] ∨ closing = true then .accepted else .refused
  | skips outer => if outer = [] then .accepted else .refused
  | ended verdict => verdict

/-- The rest of the tokens. -/
def run (r : Reading) (tokens : List LexerToken) : Verdict := (tokens.foldl step r).verdict

@[simp] lemma run_nil (r : Reading) : r.run [] = r.verdict := rfl

@[simp] lemma run_cons (r : Reading) (t : LexerToken) (tokens : List LexerToken) :
    r.run (t :: tokens) = (r.step t).run tokens := rfl

/-- A verdict stays. -/
@[simp] lemma run_ended (v : Verdict) (tokens : List LexerToken) : (ended v).run tokens = v := by
  induction tokens with
  | nil => rfl
  | cons t tokens ih => simpa [step] using ih

/-- Behind an expression: an inner one needs the parenthesis as its last token. -/
def leave (closing : Bool) (rest : List LexerToken) : List Bool → Verdict
  | [] => .accepted
  | s :: outer => if closing then (behind true s outer).run rest else .refused

/-- Whether the last token is a closing parenthesis. -/
def closing (c : Bool) (used : List LexerToken) : Bool := used.foldl (fun _ t => t = .rparen) c

@[simp] lemma closing_nil (c : Bool) : closing c [] = c := rfl

@[simp] lemma closing_cons (c : Bool) (t : LexerToken) (used : List LexerToken) :
    closing c (t :: used) = closing (t = .rparen) used := rfl

/-- The last of two lists decides, unless it is empty. -/
@[simp] lemma closing_append (c : Bool) (xs ys : List LexerToken) :
    closing c (xs ++ ys) = closing (closing c xs) ys :=
  List.foldl_append

/-- What was before does not count behind a token. -/
lemma closing_eq {c d : Bool} {used : List LexerToken} (h : used ≠ []) :
    closing c used = closing d used := by
  cases used with
  | nil => exact absurd rfl h
  | cons t used => rfl

/-- The operators go on with the expression. -/
lemma step_behind_of_termNode {t : LexerToken} {type : BinaryNode} (h : termNode t = some type)
    (c sum : Bool) (outer : List Bool) : (behind c sum outer).step t = awaits sum outer := by
  cases outer <;> simp [step, behindStep, h]

/-- A sign behind a term begins the next one, or is skipped in a sum. -/
lemma step_behind_of_exprNode {t : LexerToken} {type : BinaryNode} (h : exprNode t = some type)
    (c sum : Bool) (outer : List Bool) :
    (behind c sum outer).step t = if sum then skips outer else awaits true outer := by
  have hterm : termNode t = none := by cases t <;> first | rfl | simp [exprNode] at h
  cases outer <;> simp [step, behindStep, h, hterm]

/-- An operator of a term is no parenthesis. -/
lemma ne_rparen_of_termNode {t : LexerToken} {type : BinaryNode} (h : termNode t = some type) :
    t ≠ .rparen := by
  rintro rfl
  simp [termNode] at h

/-- Nor is one of an expression. -/
lemma ne_rparen_of_exprNode {t : LexerToken} {type : BinaryNode} (h : exprNode t = some type) :
    t ≠ .rparen := by
  rintro rfl
  simp [exprNode] at h

/-- At the end of the tokens, all open expressions are left. -/
lemma run_behind_nil (c sum : Bool) (outer : List Bool) :
    (behind c sum outer).run [] = leave c [] outer := by
  cases outer with
  | nil => simp [leave, verdict]
  | cons s outer => cases c <;> simp [leave, verdict]

/-- A token that is no operator ends an expression without a sign. -/
lemma run_behind_false {c : Bool} {outer : List Bool} {t : LexerToken} (rest : List LexerToken)
    (hterm : termNode t = none) (hexpr : exprNode t = none) :
    (behind c false outer).run (t :: rest) = leave c (t :: rest) outer := by
  cases outer with
  | nil => simp [step, behindStep, hterm, hexpr, leave]
  | cons s outer =>
    cases c with
    | false => simp [step, behindStep, hterm, hexpr, leave]
    | true => simp [step, behindStep, hterm, hexpr, leave]

/-- With a sign, it is taken. -/
lemma run_behind_true {c : Bool} {outer : List Bool} {t : LexerToken} (rest : List LexerToken)
    (hterm : termNode t = none) (hexpr : exprNode t = none) :
    (behind c true outer).run (t :: rest) = leave (t = .rparen) rest outer := by
  cases outer with
  | nil => simp [step, behindStep, hterm, hexpr, leave]
  | cons s outer =>
    by_cases ht : t = .rparen
    · subst ht
      rfl
    · simp [step, behindStep, hterm, hexpr, leave, ht]

end Reading

open Reading Iterator

/-! ### The parser passes over the tokens -/

/-- **A function of the parser, between `before` and `after`**: it returns behind the tokens that it
has used, with `P` for them and the rest, or stops with the verdict of its fault, or it has not
had enough fuel. -/
inductive PassesOver (before after : List LexerToken) (enough : Prop)
    (P : List LexerToken → List LexerToken → Prop) (Q : Verdict → Prop) :
    Except CalcFault (ParserNode × Iterator) → Prop where
  | returns (node : ParserNode) {used rest : List LexerToken} (h : after = used ++ rest)
      (hP : P used rest) :
      PassesOver before after enough P Q (.ok (node, between (before ++ used) rest))
  | aborts (hQ : Q .refused) : PassesOver before after enough P Q (.error .abort)
  | dereferences (hQ : Q .starved) : PassesOver before after enough P Q (.error .nullDereference)
  | stops (h : ¬enough) : PassesOver before after enough P Q (.error .outOfFuel)

section Passing

variable {before after : List LexerToken} {enough enough' : Prop}
  {P P' : List LexerToken → List LexerToken → Prop} {Q Q' : Verdict → Prop}
  {x : Except CalcFault (ParserNode × Iterator)}

/-- No token is used. -/
lemma PassesOver.here (node : ParserNode) (h : P [] after) :
    PassesOver before after enough P Q (.ok (node, between before after)) := by
  have hreturns : PassesOver before after enough P Q (.ok (node, between (before ++ []) after)) :=
    .returns node (List.nil_append after).symm h
  rwa [List.append_nil] at hreturns

/-- One function behind another. -/
lemma PassesOver.bind {f : ParserNode × Iterator → Except CalcFault (ParserNode × Iterator)}
    (hx : PassesOver before after enough P Q x) (henough : enough' → enough)
    (hQ : ∀ v, Q v → Q' v)
    (hf : ∀ node used rest, after = used ++ rest → P used rest →
      PassesOver before after enough' P' Q' (f (node, between (before ++ used) rest))) :
    PassesOver before after enough' P' Q' (x >>= f) := by
  cases hx with
  | returns node h hP => exact hf node _ _ h hP
  | aborts h => exact .aborts (hQ _ h)
  | dereferences h => exact .dereferences (hQ _ h)
  | stops h => exact .stops fun h' => h (henough h')

/-- Tokens that have been used before. -/
lemma PassesOver.behind {used rest : List LexerToken} (h : after = used ++ rest)
    (hx : PassesOver (before ++ used) rest enough P Q x) (henough : enough' → enough)
    (hP : ∀ used' rest', P used' rest' → P' (used ++ used') rest') (hQ : ∀ v, Q v → Q' v) :
    PassesOver before after enough' P' Q' x := by
  cases hx with
  | returns node h' hP' =>
    rw [List.append_assoc]
    exact .returns node (by rw [h, h', List.append_assoc]) (hP _ _ hP')
  | aborts h' => exact .aborts (hQ _ h')
  | dereferences h' => exact .dereferences (hQ _ h')
  | stops h' => exact .stops fun h => h' (henough h)

lemma PassesOver.node {f : ParserNode → ParserNode} (hx : PassesOver before after enough P Q x) :
    PassesOver before after enough P Q (x >>= fun p => pure (f p.1, p.2)) :=
  hx.bind id (fun _ h => h) fun node _ _ h hP => .returns (f node) h hP

/-- `__parser_factor` and `__parser_term`, where a factor is awaited. -/
def FactorPasses (n : ℕ) : Prop := ∀ before after : List LexerToken,
  PassesOver before after (3 * after.length + 1 ≤ n)
    (fun used rest => used ≠ [] ∧ ∀ sum outer,
      (awaits sum outer).run after = (behind (closing false used) sum outer).run rest)
    (fun v => ∀ sum outer, (awaits sum outer).run after = v)
    (parserFactor n (between before after))

/-- `parser_term` with so much fuel passes over what the reading takes for a term. -/
def TermPasses (n : ℕ) : Prop := ∀ before after : List LexerToken,
  PassesOver before after (3 * after.length + 2 ≤ n)
    (fun used rest => used ≠ [] ∧ EndsTerm rest ∧ ∀ sum outer,
      (awaits sum outer).run after = (behind (closing false used) sum outer).run rest)
    (fun v => ∀ sum outer, (awaits sum outer).run after = v)
    (parserTerm n (between before after))

/-- The loop of `__parser_term`, behind a factor. -/
def TermLoopPasses (n : ℕ) : Prop := ∀ (before after : List LexerToken) node c,
  PassesOver before after (3 * after.length + 1 ≤ n)
    (fun used rest => EndsTerm rest ∧ ∀ sum outer,
      (behind c sum outer).run after = (behind (closing c used) sum outer).run rest)
    (fun v => ∀ sum outer, (behind c sum outer).run after = v)
    (termLoop n after.head? node (between before after))

/-- `__parser_expr`, and what stands around it. -/
def ExprPasses (n : ℕ) : Prop := ∀ before after : List LexerToken,
  PassesOver before after (3 * after.length + 3 ≤ n)
    (fun used rest => used ≠ [] ∧ ∀ outer,
      (awaits false outer).run after = leave (closing false used) rest outer)
    (fun v => ∀ outer, (awaits false outer).run after = v)
    (parserExpr n (between before after))

/-- The loop of `__parser_expr` behind the first term, -/
def ExprLoopPasses (n : ℕ) : Prop := ∀ (before after : List LexerToken) node c, EndsTerm after →
  PassesOver before after (3 * after.length + 1 ≤ n)
    (fun used rest => ∀ outer,
      (behind c false outer).run after = leave (closing c used) rest outer)
    (fun v => ∀ outer, (behind c false outer).run after = v)
    (exprLoop n after.head? node (between before after))

/-- and behind a later one, where the token is taken. -/
def ExprLoopTakes (n : ℕ) : Prop := ∀ (before after : List LexerToken) node c, EndsTerm after →
  PassesOver before after (3 * after.length + 1 ≤ n)
    (fun used rest => ∀ outer,
      (behind c true outer).run after = leave (closing c used) rest outer)
    (fun v => ∀ outer, (behind c true outer).run after = v)
    (exprLoop n (between before after).next.1 node (between before after).next.2)

/-- The step back and the test of the parenthesis. -/
lemma parserClose_back (node : ParserNode) {used : List LexerToken} (hused : used ≠ []) :
    parserClose node (between (before ++ used) after).back =
      if closing false used then .ok (node, between (before ++ used) after) else .error .abort := by
  obtain ⟨front, t, rfl⟩ : ∃ front t, used = front ++ [t] :=
    ⟨_, _, (List.dropLast_append_getLast hused).symm⟩
  rw [← List.append_assoc, between_back, parserClose, between_getNext, List.head?_cons,
    between_next_cons]
  simp

/-- The expression in parentheses, up to the step back. -/
lemma paren_reads {n : ℕ} (hexpr : ExprPasses n) (before after : List LexerToken) :
    PassesOver before after (3 * after.length + 3 ≤ n)
      (fun used rest => closing false used = true ∧ ∀ sum outer,
        (awaits false (sum :: outer)).run after = (behind true sum outer).run rest)
      (fun v => ∀ sum outer, (awaits false (sum :: outer)).run after = v)
      (parserExpr n (between before after) >>= fun p => parserClose p.1 p.2.back) := by
  refine (hexpr before after).bind id (fun v h sum outer => h (sum :: outer)) ?_
  rintro node used rest rfl ⟨hused, hrun⟩
  dsimp only
  rw [parserClose_back node hused]
  by_cases hclosing : closing false used = true
  · rw [if_pos hclosing]
    refine .returns node rfl ⟨hclosing, fun sum outer => ?_⟩
    rw [hrun, leave, if_pos hclosing]
  · rw [if_neg hclosing]
    refine .aborts fun sum outer => ?_
    rw [hrun, leave, if_neg hclosing]

/-- **`parser_factor` agrees with the reading** with one more unit of fuel, when the parsers below
it do. -/
lemma parserFactor_reads {n : ℕ} (hfactor : FactorPasses n) (hexpr : ExprPasses n) :
    FactorPasses (n + 1) := by
  intro before after
  cases after with
  | nil =>
    rw [parserFactor, between_getNext]
    exact .dereferences fun sum outer => rfl
  | cons t after =>
    have hword : t :: after = [t] ++ after := rfl
    rw [parserFactor, between_getNext, between_next_cons]
    cases t with
    | number value =>
      exact .returns _ hword ⟨List.cons_ne_nil _ _, fun sum outer => rfl⟩
    | id name =>
      by_cases hname : name = [116, 101, 115, 116]
      · subst hname
        exact .returns _ hword ⟨List.cons_ne_nil _ _, fun sum outer => rfl⟩
      · simp only [List.head?_cons, parserConstant, if_neg hname]
        exact .aborts fun sum outer => by simp [step, factorStep, hname]
    | lparen =>
      refine (paren_reads hexpr (before ++ [.lparen]) after).behind hword ?_ ?_ ?_
      · simp
        omega
      · rintro used rest ⟨hclosing, hrun⟩
        refine ⟨List.cons_ne_nil _ _, fun sum outer => ?_⟩
        rw [run_cons, step, factorStep, hrun, closing_append]
        simp [hclosing]
      · intro v hv sum outer
        rw [run_cons, step, factorStep, hv]
    | rparen =>
      refine (hfactor (before ++ [.rparen]) after).node.behind hword ?_ ?_ ?_
      · simp
        omega
      · rintro used rest ⟨hused, hrun⟩
        refine ⟨List.cons_ne_nil _ _, fun sum outer => ?_⟩
        rw [run_cons, step, factorStep, hrun, closing_append, closing_eq hused]
      · intro v hv sum outer
        rw [run_cons, step, factorStep, hv]
    | plus => exact .aborts fun sum outer => by simp [step, factorStep]
    | minus => exact .aborts fun sum outer => by simp [step, factorStep]
    | multiply => exact .aborts fun sum outer => by simp [step, factorStep]
    | divide => exact .aborts fun sum outer => by simp [step, factorStep]
    | modulo => exact .aborts fun sum outer => by simp [step, factorStep]
    | comma => exact .aborts fun sum outer => by simp [step, factorStep]

/-- So does `parser_term`. -/
lemma parserTerm_reads {n : ℕ} (hfactor : FactorPasses n) (hloop : TermLoopPasses n) :
    TermPasses (n + 1) := by
  intro before after
  rw [parserTerm]
  refine (hfactor before after).bind (by omega) (fun v h => h) ?_
  rintro node used rest rfl ⟨hused, hrun⟩
  have hlength : 0 < used.length := List.length_pos_of_ne_nil hused
  dsimp only
  rw [between_getNext]
  refine (hloop (before ++ used) rest node (closing false used)).behind rfl ?_ ?_ ?_
  · simp
    omega
  · rintro used' rest' ⟨hends, hloop⟩
    refine ⟨by simp [hused], hends, fun sum outer => ?_⟩
    rw [hrun, hloop, closing_append]
  · intro v hv sum outer
    rw [hrun, hv]

/-- A turn of the loop of `__parser_term`, behind the operator. -/
lemma termLoop_turn_reads {n : ℕ} (hfactor : FactorPasses n) (hloop : TermLoopPasses n)
    (before after : List LexerToken) (node : ParserNode) (type : BinaryNode) :
    PassesOver before after (3 * after.length + 1 ≤ n)
      (fun used rest => EndsTerm rest ∧ ∀ sum outer,
        (awaits sum outer).run after = (behind (closing false used) sum outer).run rest)
      (fun v => ∀ sum outer, (awaits sum outer).run after = v)
      (parserFactor n (between before after) >>= fun p =>
        termLoop n p.2.getNext (.binary type node p.1) p.2) := by
  refine (hfactor before after).bind id (fun v h => h) ?_
  rintro factor used rest rfl ⟨hused, hrun⟩
  have hlength : 0 < used.length := List.length_pos_of_ne_nil hused
  dsimp only
  rw [between_getNext]
  refine (hloop (before ++ used) rest _ (closing false used)).behind rfl ?_ ?_ ?_
  · simp
    omega
  · rintro used' rest' ⟨hends, hloop⟩
    refine ⟨hends, fun sum outer => ?_⟩
    rw [hrun, hloop, closing_append]
  · intro v hv sum outer
    rw [hrun, hv]

/-- And its loop. -/
lemma termLoop_reads {n : ℕ} (hfactor : FactorPasses n) (hloop : TermLoopPasses n) :
    TermLoopPasses (n + 1) := by
  intro before after node c
  cases after with
  | nil =>
    rw [List.head?_nil, termLoop, between_hasNext_nil, if_neg Bool.false_ne_true]
    exact .here node ⟨by simp [EndsTerm], fun sum outer => rfl⟩
  | cons t after =>
    rw [List.head?_cons, termLoop, between_hasNext_cons, if_pos rfl, between_next_cons]
    cases ht : termNode t with
    | none => exact .here node ⟨by simp [EndsTerm, ht], fun sum outer => rfl⟩
    | some type =>
      have hstep := step_behind_of_termNode ht c
      refine (termLoop_turn_reads hfactor hloop (before ++ [t]) after node type).behind rfl
        ?_ ?_ ?_
      · simp
        omega
      · rintro used rest ⟨hends, hrun⟩
        refine ⟨hends, fun sum outer => ?_⟩
        rw [run_cons, hstep, hrun, closing_append]
        simp [ne_rparen_of_termNode ht]
      · intro v hv sum outer
        rw [run_cons, hstep, hv]

/-- And `parser_expr`. -/
lemma parserExpr_reads {n : ℕ} (hterm : TermPasses n) (hloop : ExprLoopPasses n) :
    ExprPasses (n + 1) := by
  intro before after
  rw [parserExpr]
  refine (hterm before after).bind (by omega) (fun v h outer => h false outer) ?_
  rintro node used rest rfl ⟨hused, hends, hrun⟩
  have hlength : 0 < used.length := List.length_pos_of_ne_nil hused
  dsimp only
  rw [between_getNext]
  refine (hloop (before ++ used) rest node (closing false used) hends).behind rfl ?_ ?_ ?_
  · simp
    omega
  · intro used' rest' hloop
    refine ⟨by simp [hused], fun outer => ?_⟩
    rw [hrun, hloop, closing_append]
  · intro v hv outer
    rw [hrun, hv]

/-- A turn of the loop of `__parser_expr`, behind the sign. -/
lemma exprLoop_turn_reads {n : ℕ} (hterm : TermPasses n) (htakes : ExprLoopTakes n)
    (before after : List LexerToken) (node : ParserNode) (type : BinaryNode) :
    PassesOver before after (3 * after.length + 2 ≤ n)
      (fun used rest => used ≠ [] ∧ ∀ outer,
        (awaits true outer).run after = leave (closing false used) rest outer)
      (fun v => ∀ outer, (awaits true outer).run after = v)
      (parserTerm n (between before after) >>= fun p =>
        exprLoop n p.2.next.1 (.binary type node p.1) p.2.next.2) := by
  refine (hterm before after).bind id (fun v h outer => h true outer) ?_
  rintro term used rest rfl ⟨hused, hends, hrun⟩
  refine (htakes (before ++ used) rest _ (closing false used) hends).behind rfl ?_ ?_ ?_
  · simp
    omega
  · intro used' rest' hloop
    refine ⟨by simp [hused], fun outer => ?_⟩
    rw [hrun, hloop, closing_append]
  · intro v hv outer
    rw [hrun, hv]

/-- And its loop. -/
lemma exprLoop_reads {n : ℕ} (hterm : TermPasses n) (htakes : ExprLoopTakes n) :
    ExprLoopPasses (n + 1) := by
  intro before after node c hends
  cases after with
  | nil =>
    rw [List.head?_nil, exprLoop, between_hasNext_nil, if_neg Bool.false_ne_true]
    exact .here node fun outer => run_behind_nil c false outer
  | cons t after =>
    rw [List.head?_cons, exprLoop, between_hasNext_cons, if_pos rfl, between_next_cons]
    cases ht : exprNode t with
    | none => exact .here node fun outer => run_behind_false after (hends t rfl) ht
    | some type =>
      have hstep := step_behind_of_exprNode ht c false
      refine (exprLoop_turn_reads hterm htakes (before ++ [t]) after node type).behind rfl
        ?_ ?_ ?_
      · simp
        omega
      · rintro used rest ⟨hused, hrun⟩ outer
        rw [run_cons, hstep, if_neg Bool.false_ne_true, hrun, closing_append, closing_eq hused]
      · intro v hv outer
        rw [run_cons, hstep, if_neg Bool.false_ne_true, hv]

/-- And that loop behind a sign. -/
lemma exprLoop_takes {n : ℕ} (hterm : TermPasses n) (htakes : ExprLoopTakes n) :
    ExprLoopTakes (n + 1) := by
  intro before after node c hends
  cases after with
  | nil =>
    rw [between_next_nil, exprLoop, between_hasNext_nil, if_neg Bool.false_ne_true]
    exact .here node fun outer => run_behind_nil c true outer
  | cons t after =>
    rw [between_next_cons]
    cases ht : exprNode t with
    | none =>
      have hloop : exprLoop (n + 1) (some t) node (between (before ++ [t]) after) =
          .ok (node, between (before ++ [t]) after) := by
        rw [exprLoop, ht]
        split <;> rfl
      dsimp only
      rw [hloop]
      exact .returns node rfl fun outer => run_behind_true after (hends t rfl) ht
    | some type =>
      have hstep := step_behind_of_exprNode ht c true
      have hne := ne_rparen_of_exprNode ht
      cases after with
      | nil =>
        dsimp only
        rw [exprLoop, between_hasNext_nil, if_neg Bool.false_ne_true]
        refine .returns node rfl fun outer => ?_
        rw [run_cons, hstep, if_pos rfl]
        cases outer <;> simp [verdict, leave, hne]
      | cons skipped after =>
        -- the token behind the second sign is passed over
        dsimp only
        rw [exprLoop, between_hasNext_cons, if_pos rfl, ht, between_next_cons,
          List.append_assoc]
        refine (exprLoop_turn_reads hterm htakes _ after node type).behind rfl ?_ ?_ ?_
        · simp
          omega
        · rintro used rest ⟨hused, hrun⟩ outer
          rw [run_cons, hstep, if_pos rfl, run_cons, step, hrun, closing_append,
            closing_eq hused]
        · intro v hv outer
          rw [run_cons, hstep, if_pos rfl, run_cons, step, hv]

/-- **Every function of the parser passes over the tokens as the machine does**, by induction on
the fuel. -/
theorem parser_reads (n : ℕ) : FactorPasses n ∧ TermPasses n ∧ TermLoopPasses n ∧ ExprPasses n ∧
    ExprLoopPasses n ∧ ExprLoopTakes n := by
  induction n with
  | zero =>
    exact ⟨fun _ _ => .stops (by omega), fun _ _ => .stops (by omega),
      fun _ _ _ _ => .stops (by omega), fun _ _ => .stops (by omega),
      fun _ _ _ _ _ => .stops (by omega), fun _ _ _ _ _ => .stops (by omega)⟩
  | succ n ih =>
    obtain ⟨hfactor, hterm, htermLoop, hexpr, hexprLoop, htakes⟩ := ih
    exact ⟨parserFactor_reads hfactor hexpr, parserTerm_reads hfactor htermLoop,
      termLoop_reads hfactor htermLoop, parserExpr_reads hterm hexprLoop,
      exprLoop_reads hterm htakes, exprLoop_takes hterm htakes⟩

end Passing

/-! ### The parser -/

/-- What the machine makes of the tokens. -/
def reading (tokens : List LexerToken) : Verdict := (awaits false []).run tokens

/-- What `parser_parse` does with the fuel that it has. -/
lemma parserParse_cases (fuel : ℕ) (tokens : List LexerToken) :
    (reading tokens = .accepted ∧ ∃ node, parserParse fuel tokens = .ok node) ∨
      (reading tokens = .refused ∧ parserParse fuel tokens = .error .abort) ∨
      (reading tokens = .starved ∧ parserParse fuel tokens = .error .nullDereference) ∨
      (¬3 * tokens.length + 3 ≤ fuel ∧ parserParse fuel tokens = .error .outOfFuel) := by
  have hpasses := (parser_reads fuel).2.2.2.1 [] tokens
  have hstart : (⟨tokens, 0⟩ : Iterator) = between [] tokens := rfl
  rw [parserParse, hstart]
  generalize parserExpr fuel (between [] tokens) = x at hpasses ⊢
  cases hpasses with
  | returns node h hP => exact .inl ⟨hP.2 [], node, rfl⟩
  | aborts hQ => exact .inr (.inl ⟨hQ [], rfl⟩)
  | dereferences hQ => exact .inr (.inr (.inl ⟨hQ [], rfl⟩))
  | stops h => exact .inr (.inr (.inr ⟨h, rfl⟩))

/-- What a run of the parser comes to where the machine comes to a verdict. -/
def Verdict.Outcome : Verdict → Except CalcFault ParserNode → Prop
  | accepted, x => ∃ node, x = .ok node
  | refused, x => x = .error .abort
  | starved, x => x = .error .nullDereference

/-- **`parser_parse` does what the machine does**, with three steps of fuel for a token. -/
theorem parserParse_reading {tokens : List LexerToken} {fuel : ℕ}
    (hfuel : 3 * tokens.length + 3 ≤ fuel) :
    (reading tokens).Outcome (parserParse fuel tokens) := by
  obtain ⟨hv, h⟩ | ⟨hv, h⟩ | ⟨hv, h⟩ | ⟨hv, -⟩ := parserParse_cases fuel tokens
  · rw [hv]
    exact h
  · rw [hv]
    exact h
  · rw [hv]
    exact h
  · exact absurd hfuel hv

/-- **The parser fails cleanly**: what is no sentence ends in `abort`, the `NULL` at the end of the
tokens is never dereferenced, the parser ends, and the iterator has passed over a token of the
expression where it steps back. -/
structure FailsCleanly (tokens : List LexerToken) : Prop where
  refuses : ¬IsExpr tokens → ∃ enough, ∀ fuel ≥ enough, parserParse fuel tokens = .error .abort
  noNull : ∀ fuel, parserParse fuel tokens ≠ .error .nullDereference
  ends : ∃ enough, ∀ fuel ≥ enough, parserParse fuel tokens ≠ .error .outOfFuel
  index : ∀ fuel before after node iterator, before ++ after = tokens →
    parserExpr fuel (between before after) = .ok (node, iterator) → before.length < iterator.idx

/-- An expression passes over a token. -/
lemma idx_of_parserExpr {fuel : ℕ} {before after : List LexerToken} {node : ParserNode}
    {iterator : Iterator} (h : parserExpr fuel (between before after) = .ok (node, iterator)) :
    before.length < iterator.idx := by
  have hpasses := (parser_reads fuel).2.2.2.1 before after
  rw [h] at hpasses
  cases hpasses with
  | returns node hafter hP =>
    have hlength := List.length_pos_of_ne_nil hP.1
    simp [between]
    omega

/-- What is refused, or is accepted and a sentence, fails cleanly. -/
lemma FailsCleanly.of_reading {tokens : List LexerToken}
    (h : reading tokens = .refused ∨ (reading tokens = .accepted ∧ IsExpr tokens)) :
    FailsCleanly tokens := by
  have hstarved : reading tokens ≠ .starved := by
    rintro hv
    simp [hv] at h
  refine ⟨fun hno => ⟨3 * tokens.length + 3, fun fuel hfuel => ?_⟩, fun fuel hparse => ?_,
    ⟨3 * tokens.length + 3, fun fuel hfuel hparse => ?_⟩,
    fun _ _ _ _ _ _ hparse => idx_of_parserExpr hparse⟩
  · have hv : reading tokens = .refused := h.resolve_right fun h => hno h.2
    have hparse := parserParse_reading hfuel
    rwa [hv] at hparse
  · obtain ⟨-, node, h'⟩ | ⟨-, h'⟩ | ⟨hv, -⟩ | ⟨-, h'⟩ := parserParse_cases fuel tokens
    · simp [h'] at hparse
    · simp [h'] at hparse
    · exact hstarved hv
    · simp [h'] at hparse
  · obtain ⟨-, node, h'⟩ | ⟨-, h'⟩ | ⟨-, h'⟩ | ⟨hv, -⟩ := parserParse_cases fuel tokens
    · simp [h'] at hparse
    · simp [h'] at hparse
    · simp [h'] at hparse
    · exact hv hfuel

/-- **Which lists are parsed or refused cleanly.** -/
theorem failsCleanly_iff (tokens : List LexerToken) :
    FailsCleanly tokens ↔
      reading tokens = .refused ∨ (reading tokens = .accepted ∧ IsExpr tokens) := by
  constructor
  · intro h
    have hnull := h.noNull (3 * tokens.length + 3)
    obtain ⟨hv, -⟩ | ⟨hv, -⟩ | ⟨-, hparse⟩ | ⟨hv, -⟩ :=
      parserParse_cases (3 * tokens.length + 3) tokens
    · refine .inr ⟨hv, by_contra fun hno => ?_⟩
      obtain ⟨enough, henough⟩ := h.refuses hno
      have habort := henough (max enough (3 * tokens.length + 3)) (le_max_left ..)
      have hreturns := parserParse_reading (le_max_right enough (3 * tokens.length + 3))
      rw [hv, habort] at hreturns
      obtain ⟨node, hnode⟩ := hreturns
      simp at hnode
    · exact .inl hv
    · exact absurd hparse hnull
    · exact absurd le_rfl hv
  · exact FailsCleanly.of_reading

/-- Of no token the parser reads the first. -/
theorem empty_dereferences : ¬∀ tokens, FailsCleanly tokens := by
  intro h
  exact (h []).noNull 3 rfl

/-! ### Lists that fail cleanly -/

/-- Numbers with the operators of `__parser_term` between them. -/
inductive IsProduct : List LexerToken → Prop where
  | number (value : Int32) : IsProduct [.number value]
  | op {xs : List LexerToken} {t : LexerToken} (hxs : IsProduct xs)
      (ht : t = .multiply ∨ t = .divide ∨ t = .modulo) (value : Int32) :
      IsProduct (xs ++ [t, .number value])

/-- A product is a term. -/
lemma IsProduct.isTerm {xs : List LexerToken} (h : IsProduct xs) : IsTerm xs := by
  induction h with
  | number value => exact .factor (.number value)
  | op _ ht value ih => exact .op ih ht (.number value)

/-- The machine passes over a product. -/
lemma IsProduct.run_append {xs : List LexerToken} (h : IsProduct xs) (sum : Bool)
    (outer : List Bool) (rest : List LexerToken) :
    (awaits sum outer).run (xs ++ rest) = (behind false sum outer).run rest := by
  induction h generalizing rest with
  | number value => rfl
  | @op xs t _ ht value ih =>
    rw [List.append_assoc, ih]
    rcases ht with rfl | rfl | rfl <;> cases outer <;> rfl

/-- A product is parsed. -/
theorem IsProduct.failsCleanly {xs : List LexerToken} (h : IsProduct xs) : FailsCleanly xs := by
  have hrun := h.run_append false [] []
  rw [List.append_nil] at hrun
  exact .of_reading (.inr ⟨hrun, .term h.isTerm⟩)

/-- So is a sum of two; it is the second sign that the parser passes over a token for. -/
theorem failsCleanly_sum {xs ys : List LexerToken} {t : LexerToken} (hxs : IsProduct xs)
    (hys : IsProduct ys) (ht : t = .plus ∨ t = .minus) : FailsCleanly (xs ++ t :: ys) := by
  refine .of_reading (.inr ⟨?_, .op (.term hxs.isTerm) ht hys.isTerm⟩)
  have hsign : (behind false false []).run (t :: ys) = (awaits true []).run ys := by
    rcases ht with rfl | rfl <;> rfl
  have hrun := hys.run_append true [] []
  rw [List.append_nil] at hrun
  rw [reading, hxs.run_append, hsign, hrun]
  rfl

/-- Behind parentheses of either kind an operator or a comma is refused. -/
theorem failsCleanly_operator {parens rest : List LexerToken} {t : LexerToken}
    (hparens : ∀ o ∈ parens, o = .lparen ∨ o = .rparen)
    (ht : t ∈ [.plus, .minus, .multiply, .divide, .modulo, .comma]) :
    FailsCleanly (parens ++ t :: rest) := by
  refine .of_reading (.inl ?_)
  rw [reading]
  generalize false = sum
  generalize ([] : List Bool) = outer
  induction parens generalizing sum outer with
  | nil =>
    have hstep : (awaits sum outer).step t = ended .refused := by
      simp only [List.mem_cons, List.not_mem_nil, or_false] at ht
      rcases ht with rfl | rfl | rfl | rfl | rfl | rfl <;> rfl
    rw [List.nil_append, run_cons, hstep, run_ended]
  | cons o parens ih =>
    have ih := ih fun o ho => hparens o (List.mem_cons_of_mem _ ho)
    rcases hparens o List.mem_cons_self with rfl | rfl
    · exact ih false (sum :: outer)
    · exact ih sum outer

end MicroOS
