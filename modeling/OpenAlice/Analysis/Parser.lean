import OpenAlice.Analysis.Indicators
import OpenAlice.Analysis.Tokens
import OpenAlice.Data.Checked

/-!
# The parser

`ast.ts` and `parser.ts` of the quant calculator.  The parser goes down the grammar and its state is
the list of the tokens that are left; the token at the end is kept apart and never taken.

The methods call each other, and a call counts against a number of steps (`fuel`), so that each of
them is a structural recursion.  A parser that runs out of steps stops with `Stop.unfinished`;
`parse` gives it enough of them for every script (`parse_finishes`).  The depth of the calls is
not bounded otherwise: there is no limit to the stack.
-/

namespace OpenAlice.Analysis

inductive Stop where
  /-- A `CalcError` -/
  | diagnostic (d : CalcDiagnostic)
  | exception (fault : Fault)
  | unfinished

/-! ## `ast.ts` -/

inductive BinaryOp where
  | add | sub | mul | div

def BinaryOp.text : BinaryOp → String
  | .add => "+"
  | .sub => "-"
  | .mul => "*"
  | .div => "/"

mutual

inductive Expr (K : Type) where
  | num (value : K) (pos : Pos)
  | str (value : String) (pos : Pos)
  | name (id : String) (pos : Pos)
  | call (callee : String) (args : Items K) (pos : Pos)
  | attr (obj : Expr K) (name : String) (pos : Pos)
  | index (obj index : Expr K) (pos : Pos)
  | binary (op : BinaryOp) (left right : Expr K) (pos : Pos)
  | unary (operand : Expr K) (pos : Pos)
  | list (elements : Items K) (pos : Pos)
  | dict (entries : Items K) (pos : Pos)

/-- The expressions of a call, a list or a dict, each with the name or the key before it. -/
inductive Items (K : Type) where
  | nil
  | cons (name : Option String) (value : Expr K) (rest : Items K)

end

variable {K : Type}

def Expr.pos : Expr K → Pos
  | .num _ pos | .str _ pos | .name _ pos | .call _ _ pos | .attr _ _ pos | .index _ _ pos
  | .binary _ _ _ pos | .unary _ pos | .list _ pos | .dict _ pos => pos

def Items.length : Items K → Nat
  | .nil => 0
  | .cons _ _ rest => rest.length + 1

structure Program (K : Type) where
  bindings : List (String × Expr K)
  result : Expr K

/-! ## `parser.ts` -/

def KEYWORDS : List String :=
  ["if", "else", "elif", "and", "or", "not", "for", "while", "in", "lambda"]

def TokenType.text : TokenType → String
  | .num => "num"
  | .str => "str"
  | .name => "name"
  | .plus => "+"
  | .minus => "-"
  | .star => "*"
  | .slash => "/"
  | .equals => "="
  | .lparen => "("
  | .rparen => ")"
  | .lbracket => "["
  | .rbracket => "]"
  | .lbrace => "\x7b"
  | .rbrace => "\x7d"
  | .comma => ","
  | .dot => "."
  | .colon => ":"
  | .newline => "newline"
  | .eof => "eof"

def describe (t : TokenType) (value : Option String := none) : String :=
  match t, value with
  | .eof, _ => "end of input"
  | .newline, _ => "a new line"
  | .name, some value => if value = "" then "a name" else "\"" ++ value ++ "\""
  | .name, none => "a name"
  | .num, some value | .str, some value => "\"" ++ value ++ "\""
  | .num, none | .str, none => t.text
  | _, _ => "\"" ++ t.text ++ "\""

def additiveOp : TokenType → Option BinaryOp
  | .plus => some .add
  | .minus => some .sub
  | _ => none

def multiplicativeOp : TokenType → Option BinaryOp
  | .star => some .mul
  | .slash => some .div
  | _ => none

/-- The exact number that digits with at most one point between them stand for. -/
def numberOf [Field K] (text : String) : K :=
  let whole := text.toList.takeWhile (· ≠ '.')
  let decimals := (text.toList.dropWhile (· ≠ '.')).tail
  (natOf (whole ++ decimals) : K) / 10 ^ decimals.length

section Parser

-- The token at the end.
variable (eof : Token)

def peek (toks : List Token) : Token := toks.headD eof

def failAt {α : Type} (t : Token) (kind : CalcErrorKind) (message : String)
    (suggestion : Option String := none) : Except Stop α :=
  .error (.diagnostic
    { kind, message, line := some t.pos.line, col := some t.pos.col, suggestion })

def eat (t : TokenType) (toks : List Token) : Except Stop (Token × List Token) :=
  if (peek eof toks).type = t then .ok (peek eof toks, toks.tail)
  else failAt (peek eof toks) .syntaxError ("Expected " ++ describe t ++ " but got " ++
    describe (peek eof toks).type (some (peek eof toks).value))

def skipNewlines (toks : List Token) : List Token := toks.dropWhile (·.type = .newline)

def parseDictKey (toks : List Token) : Except Stop (String × List Token) :=
  let t := peek eof toks
  if t.type = .str ∨ t.type = .name ∨ t.type = .num then .ok (t.value, toks.tail)
  else failAt t .syntaxError ("Dict key must be a string or name, got " ++
    describe t.type (some t.value))

variable [Field K]

mutual

def parseAdditive : Nat → List Token → Except Stop (Expr K × List Token)
  | 0, _ => .error .unfinished
  | fuel + 1, toks => do
    let (left, toks) ← parseMultiplicative fuel toks
    additiveLoop fuel left toks

/-- The loop of `parseAdditive`. -/
def additiveLoop : Nat → Expr K → List Token → Except Stop (Expr K × List Token)
  | 0, _, _ => .error .unfinished
  | fuel + 1, left, toks =>
    match additiveOp (peek eof toks).type with
    | some op => do
      let (right, toks) ← parseMultiplicative fuel toks.tail
      additiveLoop fuel (.binary op left right left.pos) toks
    | none => .ok (left, toks)

def parseMultiplicative : Nat → List Token → Except Stop (Expr K × List Token)
  | 0, _ => .error .unfinished
  | fuel + 1, toks => do
    let (left, toks) ← parseUnary fuel toks
    multiplicativeLoop fuel left toks

/-- The loop of `parseMultiplicative`. -/
def multiplicativeLoop : Nat → Expr K → List Token → Except Stop (Expr K × List Token)
  | 0, _, _ => .error .unfinished
  | fuel + 1, left, toks =>
    match multiplicativeOp (peek eof toks).type with
    | some op => do
      let (right, toks) ← parseUnary fuel toks.tail
      multiplicativeLoop fuel (.binary op left right left.pos) toks
    | none => .ok (left, toks)

def parseUnary : Nat → List Token → Except Stop (Expr K × List Token)
  | 0, _ => .error .unfinished
  | fuel + 1, toks =>
    if (peek eof toks).type = .minus then do
      let (operand, rest) ← parseUnary fuel toks.tail
      return (.unary operand (peek eof toks).pos, rest)
    else parsePostfix fuel toks

def parsePostfix : Nat → List Token → Except Stop (Expr K × List Token)
  | 0, _ => .error .unfinished
  | fuel + 1, toks => do
    let (e, toks) ← parsePrimary fuel toks
    postfixLoop fuel e toks

/-- The loop of `parsePostfix`. -/
def postfixLoop : Nat → Expr K → List Token → Except Stop (Expr K × List Token)
  | 0, _, _ => .error .unfinished
  | fuel + 1, e, toks =>
    match (peek eof toks).type with
    | .dot => do
      let (name, toks) ← eat eof .name toks.tail
      postfixLoop fuel (.attr e name.value name.pos) toks
    | .lbracket => do
      let (index, rest) ← parseAdditive fuel toks.tail
      if (peek eof rest).type = .colon then
        failAt (peek eof rest) .reflex "Slices are not supported"
          (some ("Use count= on bars(...) to limit the window; " ++
            "index a single value with [-1] / [-n]."))
      else
        let (_, rest) ← eat eof .rbracket rest
        postfixLoop fuel (.index e index (peek eof toks).pos) rest
    | .lparen =>
      failAt (peek eof toks) .reflex "Method chaining is not supported here"
        (some ("Use the function form, e.g. `sma(s.close, 50)` instead of " ++
          "`s.close.rolling(50).mean()`"))
    | _ => .ok (e, toks)

def parsePrimary : Nat → List Token → Except Stop (Expr K × List Token)
  | 0, _ => .error .unfinished
  | fuel + 1, toks =>
    let t := peek eof toks
    match t.type with
    | .num => .ok (.num (numberOf t.value) t.pos, toks.tail)
    | .str => .ok (.str t.value t.pos, toks.tail)
    | .lparen => do
      let (e, toks) ← parseAdditive fuel toks.tail
      let (_, toks) ← eat eof .rparen toks
      return (e, toks)
    | .lbracket => parseList fuel toks
    | .lbrace => parseDict fuel toks
    | .name =>
      if (peek eof toks.tail).type = .lparen then parseCall fuel toks
      else .ok (.name t.value t.pos, toks.tail)
    | _ => failAt t .syntaxError ("Unexpected " ++ describe t.type (some t.value))

def parseList : Nat → List Token → Except Stop (Expr K × List Token)
  | 0, _ => .error .unfinished
  | fuel + 1, toks => do
    let (bracket, toks) ← eat eof .lbracket toks
    let (elements, toks) ← listLoop fuel (skipNewlines toks)
    let (_, toks) ← eat eof .rbracket (skipNewlines toks)
    return (.list elements bracket.pos, toks)

/-- The loop of `parseList`. -/
def listLoop : Nat → List Token → Except Stop (Items K × List Token)
  | 0, _ => .error .unfinished
  | fuel + 1, toks =>
    if (peek eof toks).type = .rbracket then .ok (.nil, toks)
    else do
      let (e, toks) ← parseAdditive fuel toks
      if (peek eof (skipNewlines toks)).type = .comma then
        let (rest, toks) ← listLoop fuel (skipNewlines (skipNewlines toks).tail)
        return (.cons none e rest, toks)
      else return (.cons none e .nil, skipNewlines toks)

def parseDict : Nat → List Token → Except Stop (Expr K × List Token)
  | 0, _ => .error .unfinished
  | fuel + 1, toks => do
    let (brace, toks) ← eat eof .lbrace toks
    let (entries, toks) ← dictLoop fuel (skipNewlines toks)
    let (_, toks) ← eat eof .rbrace (skipNewlines toks)
    return (.dict entries brace.pos, toks)

/-- The loop of `parseDict`. -/
def dictLoop : Nat → List Token → Except Stop (Items K × List Token)
  | 0, _ => .error .unfinished
  | fuel + 1, toks =>
    if (peek eof toks).type = .rbrace then .ok (.nil, toks)
    else do
      let (key, toks) ← parseDictKey eof toks
      let (_, toks) ← eat eof .colon toks
      let (value, toks) ← parseAdditive fuel toks
      if (peek eof (skipNewlines toks)).type = .comma then
        let (rest, toks) ← dictLoop fuel (skipNewlines (skipNewlines toks).tail)
        return (.cons (some key) value rest, toks)
      else return (.cons (some key) value .nil, skipNewlines toks)

def parseCall : Nat → List Token → Except Stop (Expr K × List Token)
  | 0, _ => .error .unfinished
  | fuel + 1, toks => do
    let (callee, toks) ← eat eof .name toks
    let (_, toks) ← eat eof .lparen toks
    if (peek eof toks).type = .rparen then
      return (.call callee.value .nil callee.pos, toks.tail)
    else
      let (args, toks) ← argsLoop fuel toks
      let (_, toks) ← eat eof .rparen toks
      return (.call callee.value args callee.pos, toks)

/-- The loop of `parseCall`. -/
def argsLoop : Nat → List Token → Except Stop (Items K × List Token)
  | 0, _ => .error .unfinished
  | fuel + 1, toks => do
    let ((name, value), toks) ← parseArg fuel toks
    if (peek eof toks).type = .comma then
      let (rest, toks) ← argsLoop fuel toks.tail
      return (.cons name value rest, toks)
    else return (.cons name value .nil, toks)

def parseArg : Nat → List Token → Except Stop ((Option String × Expr K) × List Token)
  | 0, _ => .error .unfinished
  | fuel + 1, toks =>
    if (peek eof toks).type = .name ∧ (peek eof toks.tail).type = .equals then do
      let (value, rest) ← parseAdditive fuel toks.tail.tail
      return ((some (peek eof toks).value, value), rest)
    else do
      let (value, rest) ← parseAdditive fuel toks
      return ((none, value), rest)

end

def endStatement (toks : List Token) : Except Stop (List Token) :=
  let t := peek eof toks
  if t.type = .name ∧ t.value ∈ KEYWORDS then
    failAt t .reflex ("`" ++ t.value ++ "` is not supported — v2 is a pure expression language " ++
        "(no if/else/and/or/loops)")
      (some ("Compute the values you need and compare them in your own reasoning, " ++
        "not inside the script."))
  else if t.type = .eof then .ok toks
  else do
    let (_, toks) ← eat eof .newline toks
    return skipNewlines toks

/-- The loop of `parseProgram`, with the steps that each expression has. -/
def statements (fuel : Nat) :
    Nat → List (String × Expr K) → Option (Expr K) → List Token → Except Stop (Program K)
  | 0, _, _, _ => .error .unfinished
  | turns + 1, bindings, result, toks =>
    if (peek eof toks).type = .eof then
      match result with
      | some result => .ok ⟨bindings, result⟩
      | none => .error (.diagnostic
          { kind := .syntaxError
            message := "Script must end with a result expression (e.g. `sma(s.close, 50)`)"
            line := some eof.pos.line })
    else if result.isSome then
      failAt (peek eof toks) .syntaxError ("Only the final line may be a bare result expression; " ++
        "earlier lines must be `name = ...` bindings")
    else if (peek eof toks).type = .name ∧ (peek eof toks.tail).type = .equals then do
      let (value, rest) ← parseAdditive eof fuel toks.tail.tail
      let rest ← endStatement eof rest
      statements fuel turns (bindings ++ [((peek eof toks).value, value)]) none rest
    else do
      let (value, rest) ← parseAdditive eof fuel toks
      let rest ← endStatement eof rest
      statements fuel turns bindings (some value) rest

end Parser

def parse [Field K] (src : List Char) : Except Stop (Program K) :=
  match tokenize src with
  | .error d => .error (.diagnostic d)
  | .ok (toks, eof) =>
    statements eof (8 * toks.length + 8) (toks.length + 1) [] none (skipNewlines toks)

/-! ## The parser ends

Each method takes at least one token before it calls itself, so eight steps for a token and a few
more are enough: the level of the grammar is what is added. -/

section Finishes

variable {α β : Type} {eof : Token} {bound bound' : Nat}

def Answered : Except Stop α → Prop
  | .ok _ => True
  | .error (.diagnostic _) => True
  | .error _ => False

theorem Answered.bind {x : Except Stop α} {f : α → Except Stop β} (hx : Answered x)
    (hf : ∀ a, x = .ok a → Answered (f a)) : Answered (x >>= f) := by
  rcases x with (d | e | -) | a
  · exact trivial
  · exact hx.elim
  · exact hx.elim
  · exact hf a rfl

def Leaves (bound : Nat) : Except Stop (α × List Token) → Prop
  | .ok (_, rest) => rest.length < bound
  | .error (.diagnostic _) => True
  | .error _ => False

theorem Leaves.bind {x : Except Stop (α × List Token)}
    {f : α × List Token → Except Stop (β × List Token)} (hx : Leaves bound x)
    (hf : ∀ a rest, rest.length < bound → Leaves bound' (f (a, rest))) :
    Leaves bound' (x >>= f) := by
  rcases x with (d | e | -) | ⟨a, rest⟩
  · exact trivial
  · exact hx.elim
  · exact hx.elim
  · exact hf a rest hx

theorem Leaves.mono {x : Except Stop (α × List Token)} (hx : Leaves bound x)
    (h : bound ≤ bound') : Leaves bound' x := by
  rcases x with (d | e | -) | ⟨a, rest⟩
  · exact trivial
  · exact hx
  · exact hx
  · exact lt_of_lt_of_le hx h

theorem leaves_failAt {t : Token} {kind : CalcErrorKind} {message : String}
    {suggestion : Option String} :
    Leaves bound (failAt t kind message suggestion : Except Stop (α × List Token)) := trivial

variable {toks : List Token}

theorem tail_lt (heof : eof.type = .eof) (h : (peek eof toks).type ≠ .eof) :
    toks.tail.length < toks.length := by
  cases toks with
  | nil => exact absurd heof h
  | cons t toks => exact Nat.lt_succ_self _

theorem tail_lt_of_eq (heof : eof.type = .eof) {t : TokenType} (h : (peek eof toks).type = t)
    (ht : t ≠ .eof) : toks.tail.length < toks.length :=
  tail_lt heof fun heq ↦ ht (h.symm.trans heq)

theorem leaves_eat (heof : eof.type = .eof) {t : TokenType} (ht : t ≠ .eof) :
    Leaves toks.length (eat eof t toks) := by
  rw [eat]
  split_ifs with h
  · exact tail_lt_of_eq heof h ht
  · exact leaves_failAt

theorem leaves_parseDictKey (heof : eof.type = .eof) :
    Leaves toks.length (parseDictKey eof toks) := by
  rw [parseDictKey]
  split_ifs with h
  · refine tail_lt heof fun heq ↦ ?_
    rw [heq] at h
    simp at h
  · exact leaves_failAt

theorem skipNewlines_le (toks : List Token) : (skipNewlines toks).length ≤ toks.length :=
  (List.dropWhile_sublist _).length_le

variable [Field K]

/-- What each method does with enough steps. -/
structure Finish (K : Type) [Field K] (eof : Token) (fuel : Nat) : Prop where
  additive : ∀ toks : List Token, 8 * toks.length + 6 ≤ fuel →
    Leaves toks.length (parseAdditive (K := K) eof fuel toks)
  additiveLoop : ∀ (left : Expr K) (toks : List Token), 8 * toks.length + 1 ≤ fuel →
    Leaves (toks.length + 1) (additiveLoop eof fuel left toks)
  multiplicative : ∀ toks : List Token, 8 * toks.length + 5 ≤ fuel →
    Leaves toks.length (parseMultiplicative (K := K) eof fuel toks)
  multiplicativeLoop : ∀ (left : Expr K) (toks : List Token), 8 * toks.length + 1 ≤ fuel →
    Leaves (toks.length + 1) (multiplicativeLoop eof fuel left toks)
  unary : ∀ toks : List Token, 8 * toks.length + 4 ≤ fuel →
    Leaves toks.length (parseUnary (K := K) eof fuel toks)
  postfix' : ∀ toks : List Token, 8 * toks.length + 3 ≤ fuel →
    Leaves toks.length (parsePostfix (K := K) eof fuel toks)
  postfixLoop : ∀ (e : Expr K) (toks : List Token), 8 * toks.length + 1 ≤ fuel →
    Leaves (toks.length + 1) (postfixLoop eof fuel e toks)
  primary : ∀ toks : List Token, 8 * toks.length + 2 ≤ fuel →
    Leaves toks.length (parsePrimary (K := K) eof fuel toks)
  list : ∀ toks : List Token, 8 * toks.length + 1 ≤ fuel →
    Leaves toks.length (parseList (K := K) eof fuel toks)
  listLoop : ∀ toks : List Token, 8 * toks.length + 7 ≤ fuel →
    Leaves (toks.length + 1) (listLoop (K := K) eof fuel toks)
  dict : ∀ toks : List Token, 8 * toks.length + 1 ≤ fuel →
    Leaves toks.length (parseDict (K := K) eof fuel toks)
  dictLoop : ∀ toks : List Token, 8 * toks.length + 7 ≤ fuel →
    Leaves (toks.length + 1) (dictLoop (K := K) eof fuel toks)
  call : ∀ toks : List Token, 8 * toks.length + 1 ≤ fuel →
    Leaves toks.length (parseCall (K := K) eof fuel toks)
  argsLoop : ∀ toks : List Token, 8 * toks.length + 8 ≤ fuel →
    Leaves toks.length (argsLoop (K := K) eof fuel toks)
  arg : ∀ toks : List Token, 8 * toks.length + 7 ≤ fuel →
    Leaves toks.length (parseArg (K := K) eof fuel toks)

theorem additiveOp_eof : additiveOp .eof = none := rfl

theorem multiplicativeOp_eof : multiplicativeOp .eof = none := rfl

theorem Finish.succ {fuel : Nat} (heof : eof.type = .eof) (ih : Finish K eof fuel) :
    Finish K eof (fuel + 1) where
  additive toks h := by
    rw [parseAdditive]
    refine (ih.multiplicative toks (by omega)).bind fun left rest hrest ↦ ?_
    exact (ih.additiveLoop left rest (by omega)).mono (by omega)
  additiveLoop left toks h := by
    rw [OpenAlice.Analysis.additiveLoop]
    cases hop : additiveOp (peek eof toks).type with
    | none => exact Nat.lt_succ_self _
    | some op =>
      have htail : toks.tail.length < toks.length := tail_lt heof fun heq ↦ by
        rw [heq, additiveOp_eof] at hop
        cases hop
      refine (ih.multiplicative toks.tail (by omega)).bind fun right rest hrest ↦ ?_
      exact (ih.additiveLoop _ rest (by omega)).mono (by omega)
  multiplicative toks h := by
    rw [parseMultiplicative]
    refine (ih.unary toks (by omega)).bind fun left rest hrest ↦ ?_
    exact (ih.multiplicativeLoop left rest (by omega)).mono (by omega)
  multiplicativeLoop left toks h := by
    rw [OpenAlice.Analysis.multiplicativeLoop]
    cases hop : multiplicativeOp (peek eof toks).type with
    | none => exact Nat.lt_succ_self _
    | some op =>
      have htail : toks.tail.length < toks.length := tail_lt heof fun heq ↦ by
        rw [heq, multiplicativeOp_eof] at hop
        cases hop
      refine (ih.unary toks.tail (by omega)).bind fun right rest hrest ↦ ?_
      exact (ih.multiplicativeLoop _ rest (by omega)).mono (by omega)
  unary toks h := by
    rw [parseUnary]
    split_ifs with hminus
    · have htail := tail_lt_of_eq heof hminus (by decide)
      refine (ih.unary toks.tail (by omega)).bind fun operand rest hrest ↦ ?_
      exact hrest.trans htail
    · exact ih.postfix' toks (by omega)
  postfix' toks h := by
    rw [parsePostfix]
    refine (ih.primary toks (by omega)).bind fun e rest hrest ↦ ?_
    exact (ih.postfixLoop e rest (by omega)).mono (by omega)
  postfixLoop e toks h := by
    rw [OpenAlice.Analysis.postfixLoop]
    split
    next hdot =>
      have htail := tail_lt_of_eq heof hdot (by decide)
      refine (leaves_eat heof (by decide)).bind fun name rest hrest ↦ ?_
      exact (ih.postfixLoop _ rest (by omega)).mono (by omega)
    next hbracket =>
      have htail := tail_lt_of_eq heof hbracket (by decide)
      refine (ih.additive toks.tail (by omega)).bind fun index rest hrest ↦ ?_
      dsimp only
      split_ifs with hcolon
      · exact leaves_failAt
      · refine (leaves_eat heof (by decide)).bind fun bracket rest' hrest' ↦ ?_
        exact (ih.postfixLoop _ rest' (by omega)).mono (by omega)
    next => exact leaves_failAt
    next => exact Nat.lt_succ_self _
  primary toks h := by
    rw [parsePrimary]
    dsimp only
    split
    next hnum => exact tail_lt_of_eq heof hnum (by decide)
    next hstr => exact tail_lt_of_eq heof hstr (by decide)
    next hparen =>
      have htail := tail_lt_of_eq heof hparen (by decide)
      refine (ih.additive toks.tail (by omega)).bind fun e rest hrest ↦ ?_
      refine (leaves_eat heof (by decide)).bind fun paren rest' hrest' ↦ ?_
      exact lt_trans hrest' (lt_trans hrest htail)
    next => exact ih.list toks (by omega)
    next => exact ih.dict toks (by omega)
    next hname =>
      split_ifs with hcall
      · exact ih.call toks (by omega)
      · exact tail_lt_of_eq heof hname (by decide)
    next => exact leaves_failAt
  list toks h := by
    rw [parseList]
    refine (leaves_eat heof (by decide)).bind fun bracket rest hrest ↦ ?_
    have hskip := skipNewlines_le rest
    refine (ih.listLoop (skipNewlines rest) (by omega)).bind fun elements rest' hrest' ↦ ?_
    have hskip' := skipNewlines_le rest'
    refine (leaves_eat heof (by decide)).bind fun bracket' rest'' hrest'' ↦ ?_
    exact lt_of_lt_of_le hrest'' (by omega)
  listLoop toks h := by
    rw [OpenAlice.Analysis.listLoop]
    split_ifs with hbracket
    · exact Nat.lt_succ_self _
    refine (ih.additive toks (by omega)).bind fun e rest hrest ↦ ?_
    have hskip := skipNewlines_le rest
    dsimp only
    split_ifs with hcomma
    · have htail := tail_lt_of_eq heof hcomma (by decide)
      have hskip' := skipNewlines_le (skipNewlines rest).tail
      refine (ih.listLoop _ (by omega)).bind fun items rest' hrest' ↦ ?_
      exact lt_of_lt_of_le hrest' (by omega)
    · exact lt_of_le_of_lt hskip (by omega)
  dict toks h := by
    rw [parseDict]
    refine (leaves_eat heof (by decide)).bind fun brace rest hrest ↦ ?_
    have hskip := skipNewlines_le rest
    refine (ih.dictLoop (skipNewlines rest) (by omega)).bind fun entries rest' hrest' ↦ ?_
    have hskip' := skipNewlines_le rest'
    refine (leaves_eat heof (by decide)).bind fun brace' rest'' hrest'' ↦ ?_
    exact lt_of_lt_of_le hrest'' (by omega)
  dictLoop toks h := by
    rw [OpenAlice.Analysis.dictLoop]
    split_ifs with hbrace
    · exact Nat.lt_succ_self _
    refine (leaves_parseDictKey heof).bind fun key rest hrest ↦ ?_
    refine (leaves_eat heof (by decide)).bind fun colon rest₁ hrest₁ ↦ ?_
    refine (ih.additive rest₁ (by omega)).bind fun e rest₂ hrest₂ ↦ ?_
    have hskip := skipNewlines_le rest₂
    dsimp only
    split_ifs with hcomma
    · have htail := tail_lt_of_eq heof hcomma (by decide)
      have hskip' := skipNewlines_le (skipNewlines rest₂).tail
      refine (ih.dictLoop _ (by omega)).bind fun items rest' hrest' ↦ ?_
      exact lt_of_lt_of_le hrest' (by omega)
    · exact lt_of_le_of_lt hskip (by omega)
  call toks h := by
    rw [parseCall]
    refine (leaves_eat heof (by decide)).bind fun callee rest hrest ↦ ?_
    refine (leaves_eat heof (by decide)).bind fun paren rest₁ hrest₁ ↦ ?_
    dsimp only
    split_ifs with hclose
    · have htail := tail_lt_of_eq heof hclose (by decide)
      exact lt_trans htail (lt_trans hrest₁ hrest)
    refine (ih.argsLoop rest₁ (by omega)).bind fun args rest₂ hrest₂ ↦ ?_
    refine (leaves_eat heof (by decide)).bind fun paren' rest₃ hrest₃ ↦ ?_
    exact lt_trans hrest₃ (lt_trans hrest₂ (lt_trans hrest₁ hrest))
  argsLoop toks h := by
    rw [OpenAlice.Analysis.argsLoop]
    refine (ih.arg toks (by omega)).bind fun ⟨name, value⟩ rest hrest ↦ ?_
    dsimp only
    split_ifs with hcomma
    · have htail := tail_lt_of_eq heof hcomma (by decide)
      refine (ih.argsLoop rest.tail (by omega)).bind fun items rest' hrest' ↦ ?_
      exact lt_trans hrest' (by omega)
    · exact hrest
  arg toks h := by
    rw [parseArg]
    split_ifs with hname
    · have htail := tail_lt_of_eq heof hname.1 (by decide)
      have htail' := tail_lt_of_eq heof hname.2 (by decide)
      refine (ih.additive _ (by omega)).bind fun value rest hrest ↦ ?_
      exact lt_trans hrest (by omega)
    · refine (ih.additive toks (by omega)).bind fun value rest hrest ↦ ?_
      exact hrest

theorem Finish.zero : Finish K eof 0 := by
  constructor <;> intros <;> omega

theorem finish (heof : eof.type = .eof) (fuel : Nat) : Finish K eof fuel := by
  induction fuel with
  | zero => exact Finish.zero
  | succ fuel ih => exact ih.succ heof

theorem endStatement_cases (eof : Token) (toks : List Token) :
    (∃ d, endStatement eof toks = .error (.diagnostic d)) ∨
      ∃ rest, endStatement eof toks = .ok rest ∧ rest.length ≤ toks.length := by
  rw [endStatement]
  dsimp only
  split_ifs with hkeyword hend
  · exact .inl ⟨_, rfl⟩
  · exact .inr ⟨toks, rfl, le_rfl⟩
  · rw [eat]
    split_ifs with hnewline
    · refine .inr ⟨_, rfl, (skipNewlines_le _).trans ?_⟩
      rw [List.length_tail]
      exact Nat.sub_le _ _
    · exact .inl ⟨_, rfl⟩

theorem answered_statements (heof : eof.type = .eof) {fuel : Nat} (turns : Nat)
    (bindings : List (String × Expr K)) (result : Option (Expr K)) (toks : List Token)
    (hfuel : 8 * toks.length + 6 ≤ fuel) (hturns : toks.length < turns) :
    Answered (statements eof fuel turns bindings result toks) := by
  induction turns generalizing bindings result toks with
  | zero => exact absurd hturns (Nat.not_lt_zero _)
  | succ turns ih =>
    -- What follows an expression that leaves fewer tokens.
    have hnext (read : List Token) (next : Expr K → List (String × Expr K) × Option (Expr K))
        (hread : Leaves toks.length (parseAdditive (K := K) eof fuel read)) :
        Answered (do
          let (value, rest) ← parseAdditive eof fuel read
          let rest ← endStatement eof rest
          statements eof fuel turns (next value).1 (next value).2 rest) := by
      rcases hvalue : parseAdditive (K := K) eof fuel read with (d | e | -) | ⟨value, rest⟩
      · exact trivial
      · rw [hvalue] at hread
        exact hread.elim
      · rw [hvalue] at hread
        exact hread.elim
      · rw [hvalue] at hread
        have hread' : rest.length < toks.length := hread
        rcases endStatement_cases eof rest with ⟨d, hend⟩ | ⟨rest', hend, hle⟩
        · change Answered (endStatement eof rest >>= _)
          rw [hend]
          exact trivial
        change Answered (endStatement eof rest >>= _)
        rw [hend]
        exact ih _ _ rest' (by omega) (by omega)
    rw [statements.eq_def]
    dsimp only
    split_ifs with hend hresult hbinding
    · cases result with
      | none => exact trivial
      | some result => exact trivial
    · exact trivial
    · have htail := tail_lt_of_eq heof hbinding.1 (by decide)
      have htail' := tail_lt_of_eq heof hbinding.2 (by decide)
      exact hnext toks.tail.tail (fun value ↦ (bindings ++ [((peek eof toks).value, value)], none))
        (((finish heof fuel).additive _ (by omega)).mono (by omega))
    · exact hnext toks (fun value ↦ (bindings, some value)) ((finish heof fuel).additive toks hfuel)

/-- **Every script is parsed**, to a program or to a diagnostic. -/
theorem parse_finishes (src : List Char) : Answered (parse (K := K) src) := by
  rw [parse]
  cases htokens : tokenize src with
  | error d => exact trivial
  | ok tokens =>
    obtain ⟨toks, eof⟩ := tokens
    have heof : eof.type = .eof := by
      rw [tokenize] at htokens
      obtain ⟨s, -, hfinish⟩ := Data.map_ok htokens
      rw [← (Prod.mk.inj hfinish).2]
    have hskip := skipNewlines_le toks
    exact answered_statements heof _ _ _ _ (by omega) (by omega)

end Finishes

end OpenAlice.Analysis
