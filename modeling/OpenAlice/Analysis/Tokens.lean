/-!
# Diagnostics and tokens

`errors.ts` and `lexer.ts` of the quant calculator.  A script is a list of characters, each of which
is one unit of the source's strings.  The lexer goes through them one by one: what a token or a
comment takes after its first character is skipped.
-/

namespace OpenAlice.Analysis

/-! ## `errors.ts` -/

inductive CalcErrorKind where
  | syntaxError | unknownFunction | undeclaredName | arity | type | insufficientBars | reflex | dataSource
deriving DecidableEq

structure CalcDiagnostic where
  kind : CalcErrorKind
  message : String
  line : Option Nat := none
  col : Option Nat := none
  suggestion : Option String := none
deriving DecidableEq

/-- One row of the table of distances between the prefixes of two texts. -/
def nextRow (x : Char) (b : List Char) (prev : List Nat) : List Nat :=
  match prev with
  | [] => []
  | corner :: above =>
    ((b.zip above).foldl (fun (row, left, corner) (y, up) ↦
      let cost := if x = y then 0 else 1
      let here := min (min (up + 1) (left + 1)) (corner + cost)
      (row ++ [here], here, up)) ([corner + 1], corner + 1, corner)).1

def editDistance (a b : List Char) : Nat :=
  if a = [] then b.length
  else if b = [] then a.length
  else ((a.foldl (fun prev x ↦ nextRow x b prev) (List.range (b.length + 1))).getLast?).getD 0

def didYouMean (name : String) (candidates : List String) : Option String :=
  let lower (text : String) := text.toList.map Char.toLower
  let closest := candidates.foldl (fun best c ↦
    let d := editDistance (lower name) (lower c)
    match best with
    | some (_, bestDist) => if d < bestDist then some (c, d) else best
    | none => some (c, d)) none
  let threshold := max 2 (name.toList.length / 3)
  closest.bind fun (best, bestDist) ↦ if bestDist ≤ threshold then some best else none

def suggest (name : String) (candidates : List String) : Option String :=
  (didYouMean name candidates).map fun s ↦ "did you mean \"" ++ s ++ "\"?"

/-! ## `lexer.ts` -/

structure Pos where
  line : Nat
  col : Nat
deriving DecidableEq

inductive TokenType where
  | num | str | name
  | plus | minus | star | slash | equals
  | lparen | rparen | lbracket | rbracket | lbrace | rbrace
  | comma | dot | colon
  | newline | eof
deriving DecidableEq

structure Token where
  type : TokenType
  value : String
  pos : Pos
deriving DecidableEq

def SINGLE : List (Char × TokenType) :=
  [('+', .plus), ('-', .minus), ('*', .star), ('/', .slash), ('=', .equals),
    ('(', .lparen), (')', .rparen), ('[', .lbracket), (']', .rbracket),
    (Char.ofNat 123, .lbrace), (Char.ofNat 125, .rbrace), (',', .comma), ('.', .dot), (':', .colon)]

def isDigit (c : Char) : Bool := '0' ≤ c && c ≤ '9'

def isIdentStart (c : Char) : Bool := ('A' ≤ c && c ≤ 'Z') || ('a' ≤ c && c ≤ 'z') || c = '_'

def isIdentPart (c : Char) : Bool := isIdentStart c || isDigit c

def quotes : List Char := [Char.ofNat 34, Char.ofNat 39]

structure Lexer where
  tokens : List Token := []
  line : Nat := 1
  col : Nat := 1

namespace Lexer

def here (s : Lexer) : Pos := ⟨s.line, s.col⟩

def advance (s : Lexer) (n : Nat) : Lexer := { s with col := s.col + n }

def push (s : Lexer) (type : TokenType) (value : List Char) (width : Nat) : Lexer :=
  { s with tokens := ⟨type, String.ofList value, s.here⟩ :: s.tokens, col := s.col + width }

/-- Ends a line; blank lines count once. -/
def newline (s : Lexer) : Lexer :=
  { tokens := match s.tokens with
      | [] => []
      | last :: tokens =>
        if last.type = .newline then last :: tokens
        else ⟨.newline, "\n", s.here⟩ :: last :: tokens
    line := s.line + 1
    col := 1 }

def fail (s : Lexer) (message : String) : CalcDiagnostic :=
  { kind := .syntaxError, message, line := some s.line, col := some s.col }

/-- The characters of a script, less those `skipped` that belong to the token before. -/
def scan : List Char → (skipped : Nat) → Lexer → Except CalcDiagnostic Lexer
  | [], _, s => .ok s
  | _ :: src, skipped + 1, s => scan src skipped s
  | c :: src, 0, s =>
    if c = '\n' then scan src 0 s.newline
    else if c = ' ' ∨ c = '\t' ∨ c = '\r' then scan src 0 (s.advance 1)
    else if c = '#' then
      let comment := src.takeWhile (· ≠ '\n')
      scan src comment.length (s.advance (comment.length + 1))
    else if c ∈ quotes then
      let body := src.takeWhile fun d ↦ d ≠ c && d ≠ '\n'
      if (src.drop body.length).head? = some c then
        scan src (body.length + 1) (s.push .str body (body.length + 2))
      else .error (s.fail "Unterminated string")
    else if isDigit c || (c = '.' && src.head?.any isDigit) then
      let n := (c :: src).takeWhile fun d ↦ isDigit d || d = '.'
      if 1 < n.count '.' then .error (s.fail ("Invalid number \"" ++ String.ofList n ++ "\""))
      else scan src (n.length - 1) (s.push .num n n.length)
    else if isIdentStart c then
      let id := (c :: src).takeWhile isIdentPart
      scan src (id.length - 1) (s.push .name id id.length)
    else
      match SINGLE.lookup c with
      | some t => scan src 0 (s.push t [c] 1)
      | none => .error (s.fail ("Unexpected character \"" ++ String.ofList [c] ++ "\""))

/-- The tokens in their order, without a newline at the end, and the end of the input. -/
def finish (s : Lexer) : List Token × Token :=
  let tokens := match s.tokens with
    | [] => []
    | last :: tokens => if last.type = TokenType.newline then tokens else last :: tokens
  (tokens.reverse, ⟨.eof, "", s.here⟩)

end Lexer

/-- `tokenize`, with the token at the end apart. -/
def tokenize (src : List Char) : Except CalcDiagnostic (List Token × Token) :=
  (Lexer.scan src 0 {}).map Lexer.finish

def natOf (digits : List Char) : Nat := digits.foldl (fun n c ↦ 10 * n + (c.toNat - '0'.toNat)) 0

end OpenAlice.Analysis
