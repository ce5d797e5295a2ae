import Mathlib.Data.List.DropRight
import OpenAlice.Analysis.Parser

/-!
# The grammar of scripts

The grammar at the head of `parser.ts`, in the form that the code has: a minus may be repeated,
there are lists and dicts, whose lines may be broken and whose last item may have a comma behind it,
and any name may be used.  `Spells` says which tokens spell an expression, `Spelled` which spell a
program.

The parser accepts what the grammar spells and nothing else, and gives the tree that is spelled
(`parse_iff`).  So no script has two readings (`spelled_unique`).
-/

namespace OpenAlice.Analysis

/-! ## Spellings -/

/-- How tightly an expression binds. -/
inductive Level where
  | primary | suffixed | unary | multiplicative | additive

inductive ItemsKind where
  | list | dict | call
deriving DecidableEq

/-- What tokens can spell. -/
inductive Phrase (K : Type) where
  | expr (level : Level) (e : Expr K)
  | items (kind : ItemsKind) (items : Items K)

/-- The tokens before an item, which give it its name or key. -/
inductive Label : ItemsKind → Option String → List Token → Prop
  | element : Label .list none []
  | entry {k d : Token} : k.type = .str ∨ k.type = .name ∨ k.type = .num → d.type = .colon →
      Label .dict (some k.value) [k, d]
  | arg : Label .call none []
  | named {n q : Token} : n.type = .name → q.type = .equals → Label .call (some n.value) [n, q]

def Lines (toks : List Token) : Prop := ∀ t ∈ toks, t.type = .newline

/-- The lines of a list or a dict may be broken behind an item and a comma. -/
def Breaks (kind : ItemsKind) (toks : List Token) : Prop :=
  Lines toks ∧ (kind = .call → toks = [])

section Spellings

variable {K : Type} [Field K]

inductive Spells : Phrase K → List Token → Prop
  | num {t} : t.type = .num → Spells (.expr .primary (.num (numberOf t.value) t.pos)) [t]
  | str {t} : t.type = .str → Spells (.expr .primary (.str t.value t.pos)) [t]
  | name {t} : t.type = .name → Spells (.expr .primary (.name t.value t.pos)) [t]
  | group {e l r toks} : l.type = .lparen → Spells (.expr .additive e) toks → r.type = .rparen →
      Spells (.expr .primary e) (l :: (toks ++ [r]))
  | list {items l r lines toks} : l.type = .lbracket → Lines lines →
      Spells (.items .list items) toks → r.type = .rbracket →
      Spells (.expr .primary (.list items l.pos)) (l :: (lines ++ (toks ++ [r])))
  | dict {items l r lines toks} : l.type = .lbrace → Lines lines →
      Spells (.items .dict items) toks → r.type = .rbrace →
      Spells (.expr .primary (.dict items l.pos)) (l :: (lines ++ (toks ++ [r])))
  | call {items n l r toks} : n.type = .name → l.type = .lparen → Spells (.items .call items) toks →
      r.type = .rparen →
      Spells (.expr .primary (.call n.value items n.pos)) (n :: l :: (toks ++ [r]))
  | suffixed {e toks} : Spells (.expr .primary e) toks → Spells (.expr .suffixed e) toks
  | attr {e d n toks} : Spells (.expr .suffixed e) toks → d.type = .dot → n.type = .name →
      Spells (.expr .suffixed (.attr e n.value n.pos)) (toks ++ [d, n])
  | index {e i l r toks inner} : Spells (.expr .suffixed e) toks → l.type = .lbracket →
      Spells (.expr .additive i) inner → r.type = .rbracket →
      Spells (.expr .suffixed (.index e i l.pos)) (toks ++ l :: (inner ++ [r]))
  | unary {e toks} : Spells (.expr .suffixed e) toks → Spells (.expr .unary e) toks
  | minus {e t toks} : t.type = .minus → Spells (.expr .unary e) toks →
      Spells (.expr .unary (.unary e t.pos)) (t :: toks)
  | multiplicative {e toks} : Spells (.expr .unary e) toks → Spells (.expr .multiplicative e) toks
  | times {l r op t left right} : Spells (.expr .multiplicative l) left →
      multiplicativeOp t.type = some op → Spells (.expr .unary r) right →
      Spells (.expr .multiplicative (.binary op l r l.pos)) (left ++ t :: right)
  | additive {e toks} : Spells (.expr .multiplicative e) toks → Spells (.expr .additive e) toks
  | plus {l r op t left right} : Spells (.expr .additive l) left → additiveOp t.type = some op →
      Spells (.expr .multiplicative r) right →
      Spells (.expr .additive (.binary op l r l.pos)) (left ++ t :: right)
  | none {kind} : Spells (.items kind .nil) []
  | last {kind key e label toks lines} : Label kind key label → Spells (.expr .additive e) toks →
      Breaks kind lines → Spells (.items kind (.cons key e .nil)) (label ++ (toks ++ lines))
  | more {kind key e items label toks lines c lines' rest} : Label kind key label →
      Spells (.expr .additive e) toks → Breaks kind lines → c.type = .comma → Breaks kind lines' →
      (kind = .call → rest ≠ []) → Spells (.items kind items) rest →
      Spells (.items kind (.cons key e items)) (label ++ (toks ++ (lines ++ c :: (lines' ++ rest))))

/-- The bindings of a program and its result. -/
inductive Body : List (String × Expr K) → Expr K → List Token → Prop
  | result {e toks lines} : Spells (.expr .additive e) toks → Lines lines →
      Body [] e (toks ++ lines)
  | assign {e value bindings n q l toks lines more} : n.type = .name → q.type = .equals →
      Spells (.expr .additive value) toks → l.type = .newline → Lines lines →
      Body bindings e more →
      Body ((n.value, value) :: bindings) e (n :: q :: (toks ++ l :: (lines ++ more)))

/-- The tokens of a script spell a program. -/
def Spelled (program : Program K) (toks : List Token) : Prop :=
  Body program.bindings program.result (skipNewlines toks)

theorem lines_nil : Lines [] := fun _ h ↦ absurd h List.not_mem_nil

theorem breaks_nil {kind : ItemsKind} : Breaks kind [] := ⟨lines_nil, fun _ ↦ rfl⟩

end Spellings

/-! ## Steps of the parser -/

section Brackets

variable {K : Type} (eof : Token) (loop : List Token → Except Stop (Items K × List Token))

/-- `parseList` and `parseDict` -/
def inBrackets (l r : TokenType) (make : Items K → Pos → Expr K) (toks : List Token) :
    Except Stop (Expr K × List Token) := do
  let (bracket, toks) ← eat eof l toks
  let (items, toks) ← loop (skipNewlines toks)
  let (_, toks) ← eat eof r (skipNewlines toks)
  return (make items bracket.pos, toks)

/-- What their loops do behind an item. -/
def itemsTail (key : Option String) : Expr K × List Token → Except Stop (Items K × List Token)
  | (e, toks) =>
    if (peek eof (skipNewlines toks)).type = .comma then do
      let (rest, toks) ← loop (skipNewlines (skipNewlines toks).tail)
      return (.cons key e rest, toks)
    else return (.cons key e .nil, skipNewlines toks)

variable {eof loop} {toks rest lines lines' more : List Token} {α β : Type} {key : Option String}
variable {e : Expr K} {items : Items K}

theorem peek_cons (t : Token) (toks : List Token) : peek eof (t :: toks) = t := rfl

theorem bind_of_eq {x : Except Stop α} {a : α} (h : x = .ok a) (f : α → Except Stop β) :
    (x >>= f) = f a := by
  rw [h]
  rfl

theorem skipNewlines_split (toks : List Token) :
    ∃ lines, toks = lines ++ skipNewlines toks ∧ Lines lines :=
  ⟨toks.takeWhile (·.type = .newline), List.takeWhile_append_dropWhile.symm,
    fun t ht ↦ of_decide_eq_true (List.all_eq_true.mp List.all_takeWhile t ht)⟩

theorem skipNewlines_lines (eof : Token) (h : Lines lines)
    (hrest : (peek eof rest).type ≠ .newline) : skipNewlines (lines ++ rest) = rest := by
  rw [skipNewlines, List.dropWhile_append_of_pos fun t ht ↦ decide_eq_true (h t ht)]
  cases rest with
  | nil => rfl
  | cons t rest => exact List.dropWhile_cons_of_neg fun h ↦ hrest (of_decide_eq_true h)

theorem skipNewlines_cons {t : Token} (h : t.type ≠ .newline) :
    skipNewlines (t :: toks) = t :: toks :=
  List.dropWhile_cons_of_neg fun heq ↦ h (of_decide_eq_true heq)

theorem itemsTail_last (hlines : Lines lines) (hrest : (peek eof rest).type ≠ .newline)
    (hcomma : (peek eof rest).type ≠ .comma) :
    itemsTail eof loop key (e, lines ++ rest) = .ok (.cons key e .nil, rest) := by
  rw [itemsTail, skipNewlines_lines eof hlines hrest, if_neg hcomma]
  rfl

theorem itemsTail_more (hlines : Lines lines) {c : Token} (hc : c.type = .comma)
    (hlines' : Lines lines') (hmore : (peek eof (more ++ rest)).type ≠ .newline)
    (hloop : loop (more ++ rest) = .ok (items, rest)) :
    itemsTail eof loop key (e, lines ++ c :: (lines' ++ (more ++ rest))) =
      .ok (.cons key e items, rest) := by
  have hskip : (peek eof (c :: (lines' ++ (more ++ rest)))).type ≠ .newline :=
    ne_of_eq_of_ne hc (by decide)
  rw [itemsTail, skipNewlines_lines eof hlines hskip]
  refine (if_pos hc).trans ?_
  rw [List.tail_cons, skipNewlines_lines eof hlines' hmore]
  exact bind_of_eq hloop _

end Brackets

variable {K : Type} [Field K]

theorem parseList_succ (eof : Token) (fuel : Nat) : parseList (K := K) eof (fuel + 1) =
    inBrackets eof (listLoop eof fuel) .lbracket .rbracket .list := rfl

theorem parseDict_succ (eof : Token) (fuel : Nat) : parseDict (K := K) eof (fuel + 1) =
    inBrackets eof (dictLoop eof fuel) .lbrace .rbrace .dict := rfl

/-! ## Where an expression begins -/

/-- Whether an expression can begin with a minus. -/
def Level.signed : Level → Bool
  | .primary | .suffixed => false
  | _ => true

/-- The tokens that an expression can begin with. -/
def opening (signed : Bool) : TokenType → Bool
  | .num | .str | .name | .lparen | .lbracket | .lbrace => true
  | .minus => signed
  | _ => false

/-- What begins like an expression, and not like a binding or a named argument. -/
def Opens (signed : Bool) (toks : List Token) : Prop :=
  ∃ t more, toks = t :: more ∧ opening signed t.type = true ∧
    (t.type = .name → ∀ u ∈ more.head?, u.type ≠ .equals)

theorem opens_cons {signed : Bool} {t : Token} {type : TokenType} (ht : t.type = type)
    (h : opening signed type = true) (hname : type ≠ .name) (toks : List Token) :
    Opens signed (t :: toks) :=
  ⟨t, toks, rfl, ht ▸ h, fun heq ↦ absurd (ht.symm.trans heq) hname⟩

theorem Opens.append {signed : Bool} {toks : List Token} (h : Opens signed toks) {u : Token}
    (hu : u.type ≠ .equals) (more : List Token) : Opens signed (toks ++ u :: more) := by
  obtain ⟨t, rest, rfl, ht, hrest⟩ := h
  refine ⟨t, rest ++ u :: more, rfl, ht, fun hname v hv ↦ ?_⟩
  cases rest with
  | nil =>
    cases hv
    exact hu
  | cons v' rest => exact hrest hname v hv

def Phrase.Opens : Phrase K → List Token → Prop
  | .expr level _, toks => Analysis.Opens level.signed toks
  | .items _ _, _ => True

theorem Spells.phrase_opens {phrase : Phrase K} {toks : List Token} (h : Spells phrase toks) :
    phrase.Opens toks := by
  induction h with
  | num h | str h | group h | list h | dict h | minus h => exact opens_cons h rfl (by decide) _
  | name h => exact ⟨_, [], rfl, h ▸ rfl, fun _ u hu ↦ absurd hu (Option.not_mem_none u)⟩
  | call hn hl =>
    refine ⟨_, _, rfl, hn ▸ rfl, fun _ u hu ↦ ?_⟩
    cases hu
    exact hl ▸ by decide
  | suffixed _ ih | multiplicative _ ih | additive _ ih => exact ih
  | unary _ ih =>
    obtain ⟨t, more, rfl, ht, hmore⟩ := ih
    refine ⟨t, more, rfl, ?_, hmore⟩
    cases htype : t.type <;> rw [htype] at ht <;> first | rfl | cases ht
  | attr _ hd _ ih => exact ih.append (hd ▸ by decide) _
  | index _ hl _ _ ih => exact ih.append (hl ▸ by decide) _
  | times _ hop _ ih => exact ih.append (fun heq ↦ by rw [heq] at hop; cases hop) _
  | plus _ hop _ ih => exact ih.append (fun heq ↦ by rw [heq] at hop; cases hop) _
  | none | last | more => trivial

theorem Spells.opens {level : Level} {e : Expr K} {toks : List Token}
    (h : Spells (.expr level e) toks) : Analysis.Opens level.signed toks :=
  h.phrase_opens

/-! ## What is taken has been spelled -/

section Soundness

variable {eof : Token} {toks rest middle label : List Token} {α : Type} {type : TokenType}
variable {level level' : Level} {e e' : Expr K} {kind : ItemsKind} {items : Items K}
variable {key : Option String} {loop : List Token → Except Stop (Items K × List Token)}

theorem of_peek (heof : eof.type = .eof) (h : (peek eof toks).type = type)
    (htype : type ≠ .eof) : ∃ t rest, toks = t :: rest ∧ t.type = type := by
  cases toks with
  | nil => exact absurd (h.symm.trans heof) htype
  | cons t rest => exact ⟨t, rest, rfl, h⟩

theorem head_of_ne (heof : eof.type = .eof) (h : (peek eof toks).type ≠ .eof)
    (htail : toks.tail = rest) : toks = peek eof toks :: rest := by
  cases toks with
  | nil => exact absurd heof h
  | cons t toks => exact congrArg (t :: ·) htail

theorem of_bind_eat (heof : eof.type = .eof) {f : Token × List Token → Except Stop α}
    {a : α} (h : (eat eof type toks >>= f) = .ok a) (htype : type ≠ .eof) :
    ∃ t rest, toks = t :: rest ∧ t.type = type ∧ f (t, rest) = .ok a := by
  rw [eat] at h
  split_ifs at h with hpeek
  · obtain ⟨t, rest, rfl, ht⟩ := of_peek heof hpeek htype
    exact ⟨t, rest, rfl, ht, h⟩
  · cases h

theorem of_parseDictKey (heof : eof.type = .eof) {name : String}
    (h : parseDictKey eof toks = .ok (name, rest)) : ∃ k : Token, toks = k :: rest ∧
      (k.type = .str ∨ k.type = .name ∨ k.type = .num) ∧ name = k.value := by
  rw [parseDictKey] at h
  split_ifs at h with hkey
  · cases toks with
    | nil => simp [peek, heof] at hkey
    | cons t toks =>
      cases h
      exact ⟨t, rfl, hkey, rfl⟩
  · cases h

/-- The tokens in front of the rest spell a phrase. -/
def Took (phrase : Phrase K) (toks rest : List Token) : Prop :=
  ∃ used, toks = used ++ rest ∧ Spells phrase used

/-- The tokens in front of the rest go on with an expression. -/
def Extends (level : Level) (e e' : Expr K) (toks rest : List Token) : Prop :=
  ∃ used, toks = used ++ rest ∧
    ∀ before, Spells (.expr level e) before → Spells (.expr level e') (before ++ used)

def Gets (p : List Token → Except Stop (α × List Token))
    (post : α → List Token → List Token → Prop) : Prop :=
  ∀ toks a rest, p toks = .ok (a, rest) → post a toks rest

theorem Gets.of_bind {β : Type} {p : List Token → Except Stop (α × List Token)}
    {post : α → List Token → List Token → Prop} {f : α × List Token → Except Stop β} {b : β}
    (hp : Gets p post) (h : (p toks >>= f) = .ok b) :
    ∃ a middle, post a toks middle ∧ f (a, middle) = .ok b := by
  obtain ⟨⟨a, middle⟩, ha, hf⟩ := Data.bind_ok h
  exact ⟨a, middle, hp _ _ _ ha, hf⟩

theorem Extends.refl (level : Level) (e : Expr K) (toks : List Token) :
    Extends level e e toks toks :=
  ⟨[], rfl, fun before h ↦ (List.append_nil before).symm ▸ h⟩

theorem Extends.trans {e₁ e₂ : Expr K} (h : Extends level e e₁ toks middle)
    (hmore : Extends level e₁ e₂ middle rest) : Extends level e e₂ toks rest := by
  obtain ⟨used, rfl, hused⟩ := h
  obtain ⟨more, rfl, hspells⟩ := hmore
  refine ⟨used ++ more, (List.append_assoc ..).symm, fun before hbefore ↦ ?_⟩
  rw [← List.append_assoc]
  exact hspells _ (hused before hbefore)

theorem Took.extends (h : Took (.expr level e) toks middle)
    (hmore : Extends level e e' middle rest) : Took (.expr level e') toks rest := by
  obtain ⟨used, rfl, hused⟩ := h
  obtain ⟨more, rfl, hspells⟩ := hmore
  exact ⟨used ++ more, (List.append_assoc ..).symm, hspells used hused⟩

theorem Took.lift (h : Took (.expr level e) toks rest)
    (hlift : ∀ {used}, Spells (.expr level e) used → Spells (.expr level' e) used) :
    Took (.expr level' e) toks rest := by
  obtain ⟨used, hsplit, hused⟩ := h
  exact ⟨used, hsplit, hlift hused⟩

/-- The loop of a list or a dict takes its items, and the newlines behind them. -/
def TakesItems (kind : ItemsKind) (loop : List Token → Except Stop (Items K × List Token)) : Prop :=
  Gets loop fun items toks rest ↦ Took (.items kind items) toks rest ∧ skipNewlines rest = rest

theorem TakesItems.tail (heof : eof.type = .eof) (hloop : TakesItems kind loop)
    (hkind : kind ≠ .call) (hlabel : Label kind key label)
    (he : Took (.expr .additive e) toks middle)
    (h : itemsTail eof loop key (e, middle) = .ok (items, rest)) :
    Took (.items kind items) (label ++ toks) rest ∧ skipNewlines rest = rest := by
  have hbreaks {lines : List Token} (h : Lines lines) : Breaks kind lines :=
    ⟨h, fun hcall ↦ absurd hcall hkind⟩
  obtain ⟨used, rfl, hused⟩ := he
  obtain ⟨lines, hlines, hbreak⟩ := skipNewlines_split middle
  rw [itemsTail] at h
  split_ifs at h with hcomma
  · obtain ⟨c, after, hmiddle, hc⟩ := of_peek heof hcomma (by decide)
    obtain ⟨others, rest', ⟨⟨more, hmore, hspells⟩, hskip⟩, hreturn⟩ := hloop.of_bind h
    cases hreturn
    obtain ⟨lines', hlines', hbreak'⟩ := skipNewlines_split after
    refine ⟨⟨_, ?_, .more hlabel hused (hbreaks hbreak) hc (hbreaks hbreak')
      (fun hcall ↦ absurd hcall hkind) hspells⟩, hskip⟩
    rw [hmiddle, List.tail_cons] at hmore
    rw [hlines, hmiddle, hlines', hmore]
    simp
  · cases h
    refine ⟨⟨_, ?_, .last hlabel hused (hbreaks hbreak)⟩, List.dropWhile_idempotent ..⟩
    rw [List.append_assoc, List.append_assoc, ← hlines]

theorem TakesItems.inBrackets (heof : eof.type = .eof) (hloop : TakesItems kind loop)
    {l r : TokenType} (hl : l ≠ .eof) (hr : r ≠ .eof) {make : Items K → Pos → Expr K}
    (h : inBrackets eof loop l r make toks = .ok (e, rest)) :
    ∃ (o c : Token) (items : Items K) (lines used : List Token), o.type = l ∧ c.type = r ∧
      Lines lines ∧ Spells (.items kind items) used ∧ e = make items o.pos ∧
      toks = o :: (lines ++ (used ++ [c])) ++ rest := by
  obtain ⟨o, inner, rfl, ho, hinside⟩ := of_bind_eat heof h hl
  obtain ⟨items, middle, ⟨⟨used, hused, hspells⟩, hskip⟩, hafter⟩ := hloop.of_bind hinside
  obtain ⟨c, after, hmiddle, hc, hreturn⟩ := of_bind_eat heof hafter hr
  cases hreturn
  obtain ⟨lines, hinner, hlines⟩ := skipNewlines_split inner
  refine ⟨o, c, items, lines, used, ho, hc, hlines, hspells, rfl, ?_⟩
  rw [hinner, hused, ← hskip, hmiddle]
  simp

/-- What the methods have taken when they succeed. -/
structure Taken (K : Type) [Field K] (eof : Token) (fuel : Nat) : Prop where
  additive : Gets (parseAdditive (K := K) eof fuel) fun e ↦ Took (.expr .additive e)
  additiveLoop : ∀ left : Expr K, Gets (additiveLoop eof fuel left) (Extends .additive left)
  multiplicative : Gets (parseMultiplicative (K := K) eof fuel) fun e ↦
    Took (.expr .multiplicative e)
  multiplicativeLoop : ∀ left : Expr K,
    Gets (multiplicativeLoop eof fuel left) (Extends .multiplicative left)
  unary : Gets (parseUnary (K := K) eof fuel) fun e ↦ Took (.expr .unary e)
  suffixed : Gets (parsePostfix (K := K) eof fuel) fun e ↦ Took (.expr .suffixed e)
  suffixes : ∀ e : Expr K, Gets (postfixLoop eof fuel e) (Extends .suffixed e)
  primary : Gets (parsePrimary (K := K) eof fuel) fun e ↦ Took (.expr .primary e)
  list : Gets (parseList (K := K) eof fuel) fun e ↦ Took (.expr .primary e)
  elements : TakesItems .list (listLoop (K := K) eof fuel)
  dict : Gets (parseDict (K := K) eof fuel) fun e ↦ Took (.expr .primary e)
  entries : TakesItems .dict (dictLoop (K := K) eof fuel)
  call : Gets (parseCall (K := K) eof fuel) fun e ↦ Took (.expr .primary e)
  args : Gets (argsLoop (K := K) eof fuel) fun items toks rest ↦
    ∃ used, toks = used ++ rest ∧ Spells (.items .call items) used ∧ used ≠ []
  arg : Gets (parseArg (K := K) eof fuel) fun arg toks rest ↦
    ∃ label middle, toks = label ++ middle ∧ Label .call arg.1 label ∧
      Took (.expr .additive arg.2) middle rest

variable {fuel : Nat}

theorem Taken.suffixes_succ (heof : eof.type = .eof) (ih : Taken K eof fuel) (e : Expr K) :
    Gets (postfixLoop eof (fuel + 1) e) (Extends .suffixed e) := by
  intro toks e' rest h
  rw [postfixLoop] at h
  split at h
  next hdot =>
    obtain ⟨d, toks, rfl, hd⟩ := of_peek heof hdot (by decide)
    obtain ⟨n, middle, hname, hn, hloop⟩ := of_bind_eat heof h (by decide)
    refine .trans ⟨[d, n], congrArg (d :: ·) hname, fun before hbefore ↦ ?_⟩
      (ih.suffixes _ _ _ _ hloop)
    exact .attr hbefore hd hn
  next hbracket =>
    obtain ⟨l, toks, rfl, hl⟩ := of_peek heof hbracket (by decide)
    obtain ⟨i, middle, ⟨inner, hinner, hspells⟩, hafter⟩ := ih.additive.of_bind h
    dsimp only at hafter
    split_ifs at hafter with hcolon
    · cases hafter
    obtain ⟨r, after, rfl, hr, hloop⟩ := of_bind_eat heof hafter (by decide)
    refine .trans ⟨l :: (inner ++ [r]), ?_, fun before hbefore ↦ ?_⟩ (ih.suffixes _ _ _ _ hloop)
    · rw [List.tail_cons] at hinner
      simp [hinner]
    · exact .index hbefore hl hspells hr
  next => cases h
  next =>
    cases h
    exact .refl ..

theorem Taken.primary_succ (heof : eof.type = .eof) (ih : Taken K eof fuel) :
    Gets (parsePrimary (K := K) eof (fuel + 1)) fun e ↦ Took (.expr .primary e) := by
  intro toks e rest h
  rw [parsePrimary] at h
  dsimp only at h
  split at h
  next hnum =>
    obtain ⟨t, toks, rfl, ht⟩ := of_peek heof hnum (by decide)
    cases h
    exact ⟨[t], rfl, .num ht⟩
  next hstr =>
    obtain ⟨t, toks, rfl, ht⟩ := of_peek heof hstr (by decide)
    cases h
    exact ⟨[t], rfl, .str ht⟩
  next hparen =>
    obtain ⟨l, toks, rfl, hl⟩ := of_peek heof hparen (by decide)
    obtain ⟨e', middle, ⟨used, hused, hspells⟩, hafter⟩ := ih.additive.of_bind h
    obtain ⟨r, after, rfl, hr, hreturn⟩ := of_bind_eat heof hafter (by decide)
    cases hreturn
    rw [List.tail_cons] at hused
    exact ⟨l :: (used ++ [r]), by simp [hused], .group hl hspells hr⟩
  next => exact ih.list _ _ _ h
  next => exact ih.dict _ _ _ h
  next hname =>
    split_ifs at h with hcall
    · exact ih.call _ _ _ h
    · obtain ⟨t, toks, rfl, ht⟩ := of_peek heof hname (by decide)
      cases h
      exact ⟨[t], rfl, .name ht⟩
  next => cases h

theorem Taken.args_succ (heof : eof.type = .eof) (ih : Taken K eof fuel) :
    Gets (argsLoop (K := K) eof (fuel + 1)) fun items toks rest ↦
      ∃ used, toks = used ++ rest ∧ Spells (.items .call items) used ∧ used ≠ [] := by
  intro toks items rest h
  rw [argsLoop] at h
  obtain ⟨⟨key, e⟩, middle, ⟨label, inner, rfl, hlabel, used, rfl, hspells⟩, hafter⟩ :=
    ih.arg.of_bind h
  dsimp only at hafter
  split_ifs at hafter with hcomma
  · obtain ⟨c, toks, rfl, hc⟩ := of_peek heof hcomma (by decide)
    obtain ⟨others, rest', ⟨more, hmore, hothers, hne⟩, hreturn⟩ := ih.args.of_bind hafter
    cases hreturn
    rw [List.tail_cons] at hmore
    have hitems := Spells.more hlabel hspells breaks_nil hc breaks_nil (fun _ ↦ hne) hothers
    exact ⟨_, by simp [hmore], hitems, by simp⟩
  · cases hafter
    obtain ⟨t, more, rfl, -⟩ := hspells.opens
    exact ⟨_, by simp, .last hlabel hspells breaks_nil, by simp⟩

/-- With one step more, the methods call each other with one step less. -/
theorem Taken.succ (heof : eof.type = .eof) (ih : Taken K eof fuel) :
    Taken K eof (fuel + 1) where
  additive toks e rest h := by
    rw [parseAdditive] at h
    obtain ⟨left, middle, hleft, hloop⟩ := ih.multiplicative.of_bind h
    exact (hleft.lift .additive).extends (ih.additiveLoop _ _ _ _ hloop)
  additiveLoop left toks e rest h := by
    rw [Analysis.additiveLoop] at h
    split at h
    next op hop =>
      obtain ⟨right, middle, ⟨used, hused, hspells⟩, hloop⟩ := ih.multiplicative.of_bind h
      refine .trans ⟨peek eof toks :: used, ?_, fun before hbefore ↦ .plus hbefore hop hspells⟩
        (ih.additiveLoop _ _ _ _ hloop)
      exact head_of_ne heof (fun heq ↦ by rw [heq] at hop; cases hop) hused
    next =>
      cases h
      exact .refl ..
  multiplicative toks e rest h := by
    rw [parseMultiplicative] at h
    obtain ⟨left, middle, hleft, hloop⟩ := ih.unary.of_bind h
    exact (hleft.lift .multiplicative).extends (ih.multiplicativeLoop _ _ _ _ hloop)
  multiplicativeLoop left toks e rest h := by
    rw [Analysis.multiplicativeLoop] at h
    split at h
    next op hop =>
      obtain ⟨right, middle, ⟨used, hused, hspells⟩, hloop⟩ := ih.unary.of_bind h
      refine .trans ⟨peek eof toks :: used, ?_, fun before hbefore ↦ .times hbefore hop hspells⟩
        (ih.multiplicativeLoop _ _ _ _ hloop)
      exact head_of_ne heof (fun heq ↦ by rw [heq] at hop; cases hop) hused
    next =>
      cases h
      exact .refl ..
  unary toks e rest h := by
    rw [parseUnary] at h
    split_ifs at h with hminus
    · obtain ⟨t, toks, rfl, ht⟩ := of_peek heof hminus (by decide)
      obtain ⟨operand, middle, ⟨used, hused, hspells⟩, hreturn⟩ := ih.unary.of_bind h
      cases hreturn
      exact ⟨t :: used, congrArg (t :: ·) hused, .minus ht hspells⟩
    · exact (ih.suffixed _ _ _ h).lift .unary
  suffixed toks e rest h := by
    rw [parsePostfix] at h
    obtain ⟨e', middle, hprimary, hloop⟩ := ih.primary.of_bind h
    exact (hprimary.lift .suffixed).extends (ih.suffixes _ _ _ _ hloop)
  suffixes := ih.suffixes_succ heof
  primary := ih.primary_succ heof
  list toks e rest h := by
    rw [parseList_succ] at h
    obtain ⟨o, c, items, lines, used, ho, hc, hlines, hspells, rfl, rfl⟩ :=
      ih.elements.inBrackets heof (by decide) (by decide) h
    exact ⟨_, rfl, .list ho hlines hspells hc⟩
  elements toks items rest h := by
    rw [listLoop] at h
    split_ifs at h with hclose
    · cases h
      obtain ⟨t, toks, rfl, ht⟩ := of_peek heof hclose (by decide)
      exact ⟨⟨[], rfl, .none⟩, by simp [skipNewlines, ht]⟩
    obtain ⟨e, middle, hfirst, hafter⟩ := ih.additive.of_bind h
    exact ih.elements.tail heof (by decide) .element hfirst hafter
  dict toks e rest h := by
    rw [parseDict_succ] at h
    obtain ⟨o, c, items, lines, used, ho, hc, hlines, hspells, rfl, rfl⟩ :=
      ih.entries.inBrackets heof (by decide) (by decide) h
    exact ⟨_, rfl, .dict ho hlines hspells hc⟩
  entries toks items rest h := by
    rw [dictLoop] at h
    split_ifs at h with hclose
    · cases h
      obtain ⟨t, toks, rfl, ht⟩ := of_peek heof hclose (by decide)
      exact ⟨⟨[], rfl, .none⟩, by simp [skipNewlines, ht]⟩
    obtain ⟨⟨key, after⟩, hkey, hcolon⟩ := Data.bind_ok h
    obtain ⟨k, rfl, hk, rfl⟩ := of_parseDictKey heof hkey
    obtain ⟨d, inner, rfl, hd, hvalue⟩ := of_bind_eat heof hcolon (by decide)
    obtain ⟨e, middle, hfirst, hafter⟩ := ih.additive.of_bind hvalue
    exact ih.entries.tail heof (by decide) (.entry hk hd) hfirst hafter
  call toks e rest h := by
    rw [parseCall] at h
    obtain ⟨n, after, rfl, hn, hopen⟩ := of_bind_eat heof h (by decide)
    obtain ⟨l, inner, rfl, hl, hinside⟩ := of_bind_eat heof hopen (by decide)
    dsimp only at hinside
    split_ifs at hinside with hclose
    · obtain ⟨r, toks, rfl, hr⟩ := of_peek heof hclose (by decide)
      cases hinside
      exact ⟨_, rfl, .call hn hl .none hr⟩
    obtain ⟨items, middle, ⟨used, rfl, hspells, -⟩, hafter⟩ := ih.args.of_bind hinside
    obtain ⟨r, after, rfl, hr, hreturn⟩ := of_bind_eat heof hafter (by decide)
    cases hreturn
    exact ⟨n :: l :: (used ++ [r]), by simp, .call hn hl hspells hr⟩
  args := ih.args_succ heof
  arg toks arg rest h := by
    rw [parseArg] at h
    split_ifs at h with hnamed
    · obtain ⟨n, after, rfl, hn⟩ := of_peek heof hnamed.1 (by decide)
      obtain ⟨q, inner, rfl, hq⟩ := of_peek heof hnamed.2 (by decide)
      obtain ⟨e, middle, hvalue, hreturn⟩ := ih.additive.of_bind h
      cases hreturn
      exact ⟨[n, q], inner, rfl, .named hn hq, hvalue⟩
    · obtain ⟨e, middle, hvalue, hreturn⟩ := ih.additive.of_bind h
      cases hreturn
      exact ⟨[], toks, rfl, .arg, hvalue⟩

theorem taken (heof : eof.type = .eof) (fuel : Nat) : Taken K eof fuel := by
  induction fuel with
  | zero => constructor <;> intros <;> intro _ _ _ h <;> cases h
  | succ fuel ih => exact ih.succ heof

end Soundness

/-! ## What is spelled is taken -/

section Complete

variable {eof : Token} {toks rest lines lines' more label : List Token} {α β : Type}
variable {type : TokenType} {level : Level} {e : Expr K} {kind : ItemsKind} {items : Items K}
variable {key : Option String} {loop : List Token → Except Stop (Items K × List Token)}

/-- The tokens that an expression goes on with, and the bracket that is refused behind it. -/
def Level.goesOn : Level → TokenType → Bool
  | _, .lparen => true
  | .primary, _ => false
  | _, .dot | _, .lbracket => true
  | .suffixed, _ | .unary, _ => false
  | _, .star | _, .slash => true
  | .multiplicative, _ => false
  | .additive, .plus | .additive, .minus => true
  | .additive, _ => false

/-- What a method returns for some tokens, with eight steps for each of them and a few more. -/
def Gives (c : Nat) (p : Nat → List Token → Except Stop α) (toks : List Token) (x : Except Stop α) :
    Prop :=
  ∀ fuel, 8 * toks.length + c ≤ fuel → p fuel toks = x

theorem gives_succ {c : Nat} {p : Nat → List Token → Except Stop α} {x : Except Stop α}
    (h : ∀ fuel, 8 * toks.length + c ≤ fuel → p (fuel + 1) toks = x) : Gives (c + 1) p toks x := by
  rintro (_ | fuel) hfuel
  · exact absurd hfuel (by omega)
  · exact h fuel (by omega)

/-- Tokens that spell a phrase are taken.  Behind an expression that can still go on, the loop of
its level decides. -/
def Completes (eof : Token) : Phrase K → List Token → Prop
  | .expr .primary e, toks => ∀ rest, Level.primary.goesOn (peek eof rest).type = false →
      Gives 2 (parsePrimary eof) (toks ++ rest) (.ok (e, rest))
  | .expr .suffixed e, toks => ∀ rest x, Level.primary.goesOn (peek eof rest).type = false →
      Gives 1 (postfixLoop eof · e) rest x → Gives 3 (parsePostfix eof) (toks ++ rest) x
  | .expr .unary e, toks => ∀ rest, Level.unary.goesOn (peek eof rest).type = false →
      Gives 4 (parseUnary eof) (toks ++ rest) (.ok (e, rest))
  | .expr .multiplicative e, toks => ∀ rest x, Level.unary.goesOn (peek eof rest).type = false →
      Gives 1 (multiplicativeLoop eof · e) rest x →
      Gives 5 (parseMultiplicative eof) (toks ++ rest) x
  | .expr .additive e, toks => ∀ rest x,
      Level.multiplicative.goesOn (peek eof rest).type = false →
      Gives 1 (additiveLoop eof · e) rest x → Gives 6 (parseAdditive eof) (toks ++ rest) x
  | .items .list items, toks => ∀ rest, (peek eof rest).type = .rbracket →
      Gives 7 (listLoop eof) (toks ++ rest) (.ok (items, rest))
  | .items .dict items, toks => ∀ rest, (peek eof rest).type = .rbrace →
      Gives 7 (dictLoop eof) (toks ++ rest) (.ok (items, rest))
  | .items .call items, toks => toks ≠ [] → ∀ rest, (peek eof rest).type = .rparen →
      Gives 8 (argsLoop eof) (toks ++ rest) (.ok (items, rest))

theorem bind_eat {t : Token} (ht : t.type = type) (f : Token × List Token → Except Stop α) :
    (eat eof type (t :: toks) >>= f) = f (t, toks) :=
  bind_of_eq (if_pos ht) f

/-- A token that an expression does not go on with ends the loops. -/
theorem Level.stops : (Level.additive.goesOn type = false → additiveOp type = none ∧
      Level.multiplicative.goesOn type = false) ∧
    (Level.multiplicative.goesOn type = false → multiplicativeOp type = none ∧
      Level.unary.goesOn type = false) := by
  cases type <;> simp [Level.goesOn, additiveOp, multiplicativeOp]

theorem postfixLoop_stops (hrest : Level.unary.goesOn (peek eof rest).type = false) (e : Expr K)
    (fuel : Nat) : postfixLoop eof (fuel + 1) e rest = .ok (e, rest) := by
  rw [postfixLoop]
  cases htype : (peek eof rest).type <;> rw [htype] at hrest <;> first | rfl | cases hrest

theorem Completes.multiplicative (h : Completes eof (.expr .multiplicative e) toks)
    (rest : List Token) (hrest : Level.multiplicative.goesOn (peek eof rest).type = false) :
    Gives 5 (parseMultiplicative eof) (toks ++ rest) (.ok (e, rest)) := by
  obtain ⟨hop, hgoes⟩ := Level.stops.2 hrest
  exact h rest _ hgoes (gives_succ fun fuel _ ↦ by rw [multiplicativeLoop, hop])

/-- An expression is taken where nothing follows that it could go on with. -/
theorem Completes.additive (h : Completes eof (.expr .additive e) toks) (rest : List Token)
    (hrest : Level.additive.goesOn (peek eof rest).type = false) :
    Gives 6 (parseAdditive eof) (toks ++ rest) (.ok (e, rest)) := by
  obtain ⟨hop, hgoes⟩ := Level.stops.1 hrest
  exact h rest _ hgoes (gives_succ fun fuel _ ↦ by rw [additiveLoop, hop])

/-- The first token of an expression is none that ends a list of items. -/
theorem Spells.peek_ne (h : Spells (.expr level e) toks)
    (htype : opening level.signed type = false) (rest : List Token) :
    (peek eof (toks ++ rest)).type ≠ type := by
  obtain ⟨t, more, rfl, ht, -⟩ := h.opens
  rintro rfl
  cases ht.symm.trans htype

theorem Spells.items_peek_ne (h : Spells (.items kind items) toks) (rest : List Token)
    (hrest : (peek eof rest).type ≠ .newline) : (peek eof (toks ++ rest)).type ≠ .newline := by
  cases h with
  | none => exact hrest
  | last hlabel he | more hlabel he =>
    rw [List.append_assoc, List.append_assoc]
    cases hlabel with
    | element | arg => exact he.peek_ne rfl _
    | entry hk =>
      show Token.type _ ≠ _
      rcases hk with hk | hk | hk <;> exact hk ▸ by decide
    | named hn => exact ne_of_eq_of_ne hn (by decide)

theorem Spells.args_peek_ne (h : Spells (.items .call items) toks)
    (htoks : toks ≠ []) (rest : List Token) : (peek eof (toks ++ rest)).type ≠ .rparen := by
  cases h with
  | none => exact absurd rfl htoks
  | last hlabel he | more hlabel he =>
    rw [List.append_assoc, List.append_assoc]
    cases hlabel with
    | arg => exact he.peek_ne rfl _
    | named hn => exact ne_of_eq_of_ne hn (by decide)

theorem Spells.args_nil (h : Spells (.items .call items) toks) (htoks : toks = []) :
    items = .nil := by
  cases h with
  | none => rfl
  | last _ he | more _ he =>
    obtain ⟨t, more, rfl, -⟩ := he.opens
    simp at htoks

theorem not_goesOn_lines (h : Lines lines)
    (hrest : Level.additive.goesOn (peek eof rest).type = false) :
    Level.additive.goesOn (peek eof (lines ++ rest)).type = false := by
  cases lines with
  | nil => exact hrest
  | cons t lines =>
    show Level.additive.goesOn t.type = false
    rw [h t (List.mem_cons_self ..)]
    rfl

/-- An expression does not look like the beginning of a binding. -/
theorem Spells.not_named (h : Spells (.expr level e) toks)
    (hrest : (peek eof rest).type ≠ .equals) : ¬((peek eof (toks ++ rest)).type = .name ∧
      (peek eof (toks ++ rest).tail).type = .equals) := by
  obtain ⟨t, more, rfl, -, hmore⟩ := h.opens
  rintro ⟨hname, hequals⟩
  cases more with
  | nil => exact hrest hequals
  | cons u more => exact hmore hname u rfl hequals

theorem Completes.arg (h : Completes eof (.expr .additive e) toks) (hlabel : Label .call key label)
    (he : Spells (.expr .additive e) toks)
    (hrest : Level.additive.goesOn (peek eof rest).type = false)
    (hequals : (peek eof rest).type ≠ .equals) :
    Gives 7 (parseArg eof) (label ++ (toks ++ rest)) (.ok ((key, e), rest)) := by
  refine gives_succ fun fuel hfuel ↦ ?_
  rw [parseArg]
  cases hlabel with
  | arg =>
    exact (if_neg (he.not_named hequals)).trans (bind_of_eq (h.additive _ hrest fuel hfuel) _)
  | named hn hq =>
    refine (if_pos ⟨hn, hq⟩).trans (bind_of_eq (h.additive _ hrest fuel ?_) _)
    simp at hfuel ⊢
    omega

theorem Spells.inBrackets (h : Spells (.items kind items) toks)
    {l r : TokenType} {o c : Token} (ho : o.type = l) (hlines : Lines lines) (hc : c.type = r)
    (hr : r ≠ .newline) {make : Items K → Pos → Expr K}
    (hloop : loop (toks ++ c :: rest) = .ok (items, c :: rest)) :
    inBrackets eof loop l r make (o :: (lines ++ (toks ++ c :: rest))) =
      .ok (make items o.pos, rest) := by
  have hskip : c.type ≠ .newline := hc ▸ hr
  rw [← skipNewlines_lines eof hlines (h.items_peek_ne (c :: rest) hskip)] at hloop
  refine (bind_eat ho _).trans ((bind_of_eq hloop _).trans ?_)
  show (eat eof r (skipNewlines (c :: rest)) >>= _) = _
  rw [skipNewlines_cons hskip, bind_eat hc]
  rfl

theorem Completes.last (ih : Completes eof (.expr .additive e) toks) (hlabel : Label kind key label)
    (he : Spells (.expr .additive e) toks) (hlines : Breaks kind lines) :
    Completes eof (.items kind (.cons key e .nil)) (label ++ (toks ++ lines)) := by
  have hgives {rest : List Token} {fuel : Nat}
      (hrest : Level.additive.goesOn (peek eof rest).type = false)
      (hfuel : 8 * (toks ++ (lines ++ rest)).length + 6 ≤ fuel) :=
    ih.additive _ (not_goesOn_lines hlines.1 hrest) fuel hfuel
  cases kind with
  | list =>
    cases hlabel
    refine fun rest hrest ↦ gives_succ fun fuel hfuel ↦ ?_
    rw [List.nil_append, List.append_assoc] at hfuel ⊢
    refine (if_neg (he.peek_ne rfl _)).trans
      ((bind_of_eq (hgives (by rw [hrest]; rfl) hfuel) _).trans ?_)
    exact itemsTail_last hlines.1 (hrest ▸ by decide) (hrest ▸ by decide)
  | dict =>
    obtain _ | ⟨hk, hd⟩ := hlabel
    refine fun rest hrest ↦ gives_succ fun fuel hfuel ↦ ?_
    simp only [List.cons_append, List.append_assoc, List.nil_append] at hfuel ⊢
    refine (if_neg ?_).trans ((bind_of_eq (if_pos hk) _).trans ((bind_eat hd _).trans
      ((bind_of_eq (hgives (by rw [hrest]; rfl) (by simp at hfuel ⊢; omega)) _).trans ?_)))
    · rcases hk with hk | hk | hk <;> exact ne_of_eq_of_ne hk (by decide)
    · exact itemsTail_last hlines.1 (hrest ▸ by decide) (hrest ▸ by decide)
  | call =>
    cases hlines.2 rfl
    refine fun _ rest hrest ↦ gives_succ fun fuel hfuel ↦ ?_
    rw [List.append_nil, List.append_assoc] at hfuel ⊢
    refine (bind_of_eq (ih.arg hlabel he (by rw [hrest]; rfl) (hrest ▸ by decide) fuel hfuel)
      _).trans ?_
    exact if_neg (hrest ▸ by decide)

theorem Completes.cons {c : Token} (ih : Completes eof (.expr .additive e) toks)
    (hlabel : Label kind key label) (he : Spells (.expr .additive e) toks)
    (hlines : Breaks kind lines) (hc : c.type = .comma) (hlines' : Breaks kind lines')
    (hmore : kind = .call → more ≠ []) (hitems : Spells (.items kind items) more)
    (ih' : Completes eof (.items kind items) more) : Completes eof (.items kind (.cons key e items))
      (label ++ (toks ++ (lines ++ c :: (lines' ++ more)))) := by
  have hcomma (rest : List Token) : (peek eof (c :: rest)).type = .comma := hc
  have hgives {rest : List Token} {fuel : Nat}
      (hfuel : 8 * (toks ++ (lines ++ c :: rest)).length + 6 ≤ fuel) :=
    ih.additive _ (not_goesOn_lines hlines.1 (by rw [hcomma]; rfl)) fuel hfuel
  cases kind with
  | list =>
    cases hlabel
    refine fun rest hrest ↦ gives_succ fun fuel hfuel ↦ ?_
    simp only [List.cons_append, List.append_assoc, List.nil_append] at hfuel ⊢
    refine (if_neg (he.peek_ne rfl _)).trans ((bind_of_eq (hgives hfuel) _).trans ?_)
    exact itemsTail_more hlines.1 hc hlines'.1 (hitems.items_peek_ne rest (hrest ▸ by decide))
      (ih' rest hrest fuel (by simp at hfuel ⊢; omega))
  | dict =>
    obtain _ | ⟨hk, hd⟩ := hlabel
    refine fun rest hrest ↦ gives_succ fun fuel hfuel ↦ ?_
    simp only [List.cons_append, List.append_assoc, List.nil_append] at hfuel ⊢
    refine (if_neg ?_).trans ((bind_of_eq (if_pos hk) _).trans ((bind_eat hd _).trans
      ((bind_of_eq (hgives (by simp at hfuel ⊢; omega)) _).trans ?_)))
    · rcases hk with hk | hk | hk <;> exact ne_of_eq_of_ne hk (by decide)
    · exact itemsTail_more hlines.1 hc hlines'.1 (hitems.items_peek_ne rest (hrest ▸ by decide))
        (ih' rest hrest fuel (by simp at hfuel ⊢; omega))
  | call =>
    cases hlines.2 rfl
    cases hlines'.2 rfl
    refine fun _ rest hrest ↦ gives_succ fun fuel hfuel ↦ ?_
    simp only [List.cons_append, List.append_assoc, List.nil_append] at hfuel ⊢
    refine (bind_of_eq (ih.arg hlabel he (by rw [hcomma]; rfl) (hcomma _ ▸ by decide) fuel hfuel)
      _).trans ((if_pos hc).trans ?_)
    exact bind_of_eq (ih' (hmore rfl) rest hrest fuel (by simp at hfuel ⊢; omega)) _

theorem Spells.completes {phrase : Phrase K} {toks : List Token} (h : Spells phrase toks)
    (eof : Token) : Completes eof phrase toks := by
  induction h with
  | num ht | str ht =>
    refine fun rest _ ↦ gives_succ fun fuel _ ↦ ?_
    rw [parsePrimary, List.singleton_append, peek_cons, ht]
    rfl
  | name ht =>
    refine fun rest hrest ↦ gives_succ fun fuel _ ↦ ?_
    rw [parsePrimary, List.singleton_append, peek_cons, ht]
    exact if_neg fun heq ↦ by rw [List.tail_cons] at heq; rw [heq] at hrest; cases hrest
  | @group e l r toks hl _ hr ih =>
    refine fun rest _ ↦ gives_succ fun fuel hfuel ↦ ?_
    simp only [List.cons_append, List.append_assoc, List.nil_append] at hfuel ⊢
    have hinner := ih.additive (r :: rest) (by rw [peek_cons, hr]; rfl) fuel
      (by simp at hfuel ⊢; omega)
    rw [parsePrimary, peek_cons, hl]
    exact (bind_of_eq hinner _).trans (bind_eat hr _)
  | @list items l r lines toks hl hlines h hr ih | @dict items l r lines toks hl hlines h hr ih =>
    refine fun rest _ ↦ gives_succ fun fuel hfuel ↦ ?_
    simp only [List.cons_append, List.append_assoc, List.nil_append] at hfuel ⊢
    rw [parsePrimary, peek_cons, hl]
    obtain _ | fuel := fuel
    · exact absurd hfuel (by simp)
    exact h.inBrackets hl hlines hr (by decide) (ih (r :: rest) hr fuel (by simp at hfuel ⊢; omega))
  | @call items n l r toks hn hl h hr ih =>
    refine fun rest _ ↦ gives_succ fun fuel hfuel ↦ ?_
    simp only [List.cons_append, List.append_assoc, List.nil_append] at hfuel ⊢
    rw [parsePrimary, peek_cons, hn]
    refine (if_pos hl).trans ?_
    obtain _ | fuel := fuel
    · exact absurd hfuel (by simp)
    refine (bind_eat hn _).trans ((bind_eat hl _).trans ?_)
    by_cases htoks : toks = []
    · cases h.args_nil htoks
      subst htoks
      exact if_pos hr
    refine (if_neg (h.args_peek_ne htoks _)).trans ?_
    have hinner := ih htoks (r :: rest) hr fuel (by simp at hfuel ⊢; omega)
    exact (bind_of_eq hinner _).trans (bind_eat hr _)
  | attr _ hd hn ih =>
    refine fun rest x hrest hloop ↦ ?_
    rw [List.append_assoc]
    refine ih _ x (by rw [List.cons_append, peek_cons, hd]; rfl) (gives_succ fun fuel hfuel ↦ ?_)
    simp only [List.cons_append, List.nil_append] at hfuel ⊢
    rw [postfixLoop, peek_cons, hd]
    exact (bind_eat hn _).trans (hloop fuel (by simp at hfuel ⊢; omega))
  | @index e i l r toks inner _ hl _ hr ih ihi =>
    refine fun rest x hrest hloop ↦ ?_
    rw [List.append_assoc]
    refine ih _ x (by rw [List.cons_append, peek_cons, hl]; rfl) (gives_succ fun fuel hfuel ↦ ?_)
    simp only [List.cons_append, List.append_assoc, List.nil_append] at hfuel ⊢
    have hinner := ihi.additive (r :: rest) (by rw [peek_cons, hr]; rfl) fuel
      (by simp at hfuel ⊢; omega)
    rw [postfixLoop, peek_cons, hl]
    refine (bind_of_eq hinner _).trans ((if_neg ?_).trans ((bind_eat hr _).trans ?_))
    · exact ne_of_eq_of_ne hr (by decide)
    · exact hloop fuel (by simp at hfuel ⊢; omega)
  | suffixed _ ih =>
    refine fun rest x hrest hloop ↦ gives_succ fun fuel hfuel ↦ ?_
    rw [parsePostfix, bind_of_eq (ih rest hrest fuel hfuel)]
    exact hloop fuel (by simp at hfuel; omega)
  | unary h ih =>
    refine fun rest hrest ↦ gives_succ fun fuel hfuel ↦ ?_
    rw [parseUnary, if_neg (h.peek_ne rfl rest)]
    refine ih rest _ ?_ (gives_succ fun fuel _ ↦ postfixLoop_stops hrest _ fuel) fuel hfuel
    cases htype : (peek eof rest).type <;> rw [htype] at hrest <;> first | rfl | cases hrest
  | minus ht _ ih =>
    refine fun rest hrest ↦ gives_succ fun fuel hfuel ↦ ?_
    rw [List.cons_append] at hfuel ⊢
    rw [parseUnary]
    exact (if_pos ht).trans (bind_of_eq (ih rest hrest fuel (by simp at hfuel ⊢; omega)) _)
  | multiplicative _ ih =>
    refine fun rest x hrest hloop ↦ gives_succ fun fuel hfuel ↦ ?_
    rw [parseMultiplicative, bind_of_eq (ih rest hrest fuel hfuel)]
    exact hloop fuel (by simp at hfuel; omega)
  | @times l r op t left right _ hop _ ih ihr =>
    refine fun rest x hrest hloop ↦ ?_
    rw [List.append_assoc]
    refine ih _ x ?_ (gives_succ fun fuel hfuel ↦ ?_)
    · rw [List.cons_append, peek_cons]
      cases htype : t.type <;> rw [htype] at hop <;> first | rfl | cases hop
    · rw [List.cons_append] at hfuel ⊢
      rw [multiplicativeLoop, peek_cons, hop]
      refine (bind_of_eq (ihr rest hrest fuel (by simp at hfuel ⊢; omega)) _).trans ?_
      exact hloop fuel (by simp at hfuel ⊢; omega)
  | additive _ ih =>
    refine fun rest x hrest hloop ↦ gives_succ fun fuel hfuel ↦ ?_
    rw [parseAdditive, bind_of_eq (ih.multiplicative _ hrest fuel hfuel)]
    exact hloop fuel (by simp at hfuel; omega)
  | @plus l r op t left right _ hop _ ih ihr =>
    refine fun rest x hrest hloop ↦ ?_
    rw [List.append_assoc]
    refine ih _ x ?_ (gives_succ fun fuel hfuel ↦ ?_)
    · rw [List.cons_append, peek_cons]
      cases htype : t.type <;> rw [htype] at hop <;> first | rfl | cases hop
    · rw [List.cons_append] at hfuel ⊢
      rw [additiveLoop, peek_cons, hop]
      refine (bind_of_eq (ihr.multiplicative _ hrest fuel (by simp at hfuel ⊢; omega)) _).trans ?_
      exact hloop fuel (by simp at hfuel ⊢; omega)
  | @none kind =>
    cases kind with
    | list => exact fun rest hrest ↦ gives_succ fun fuel _ ↦ if_pos hrest
    | dict => exact fun rest hrest ↦ gives_succ fun fuel _ ↦ if_pos hrest
    | call => exact fun hne ↦ absurd rfl hne
  | last hlabel he hlines ih => exact .last ih hlabel he hlines
  | more hlabel he hlines hc hlines' hmore hitems ih ih' =>
    exact .cons ih hlabel he hlines hc hlines' hmore hitems ih'

end Complete

/-! ## Scripts -/

section Scripts

variable {eof : Token} {toks rest : List Token}

/-- The end of the input is kept apart. -/
def NoEnd (toks : List Token) : Prop := ∀ t ∈ toks, t.type ≠ .eof

theorem noEnd_nil : NoEnd [] := fun _ h ↦ absurd h List.not_mem_nil

theorem scan_noEnd {src : List Char} : ∀ {skipped : Nat} {s s' : Lexer}, NoEnd s.tokens →
    Lexer.scan src skipped s = .ok s' → NoEnd s'.tokens := by
  induction src with
  | nil =>
    intro skipped s s' hs h
    cases h
    exact hs
  | cons c src ih =>
    intro skipped s s' hs h
    have hpush (type : TokenType) (htype : type ≠ .eof) (value : List Char) (width : Nat) :
        NoEnd (s.push type value width).tokens := List.forall_mem_cons.mpr ⟨htype, hs⟩
    cases skipped with
    | succ skipped => exact ih hs h
    | zero =>
      rw [Lexer.scan] at h
      dsimp only at h
      split_ifs at h
      · refine ih ?_ h
        rw [Lexer.newline]
        dsimp only
        split
        · exact noEnd_nil
        next last tokens heq =>
          rw [heq] at hs
          split_ifs
          · exact hs
          · exact List.forall_mem_cons.mpr ⟨(by decide : TokenType.newline ≠ .eof), hs⟩
      · exact ih (s := s.advance 1) hs h
      · exact ih (s := s.advance _) hs h
      · exact ih (hpush .str (by decide) _ _) h
      · exact ih (hpush .num (by decide) _ _) h
      · exact ih (hpush .name (by decide) _ _) h
      · split at h
        next type hlookup =>
          refine ih (hpush type ?_ _ _) h
          rintro rfl
          obtain ⟨before, after, hsplit, -⟩ := List.lookup_eq_some_iff.mp hlookup
          have hmem : (c, TokenType.eof) ∈ SINGLE := hsplit ▸ List.mem_append_right _
            (List.mem_cons_self ..)
          simp [SINGLE] at hmem
        next => cases h

theorem tokenize_noEnd {src : List Char} (h : tokenize src = .ok (toks, eof)) :
    NoEnd toks ∧ eof.type = .eof := by
  obtain ⟨s, hscan, hfinish⟩ := Data.map_ok h
  have hs := scan_noEnd (s := {}) noEnd_nil hscan
  obtain ⟨rfl, rfl⟩ := Prod.mk.inj hfinish
  refine ⟨fun t ht ↦ ?_, rfl⟩
  rw [List.mem_reverse] at ht
  split at ht
  · cases ht
  next last tokens heq =>
    rw [heq] at hs
    split_ifs at ht
    · exact hs t (List.mem_cons_of_mem _ ht)
    · exact hs t ht

theorem endStatement_ok (heof : eof.type = .eof) (hnone : NoEnd toks)
    (h : endStatement eof toks = .ok rest) : toks = [] ∧ rest = [] ∨
      ∃ l lines, toks = l :: (lines ++ rest) ∧ l.type = .newline ∧ Lines lines := by
  rw [endStatement] at h
  dsimp only at h
  split_ifs at h with hkeyword hend
  · cases h
  · cases toks with
    | nil =>
      cases h
      exact .inl ⟨rfl, rfl⟩
    | cons t toks => exact absurd hend (hnone t (List.mem_cons_self ..))
  · obtain ⟨l, after, rfl, hl, hreturn⟩ := of_bind_eat heof h (by decide)
    cases hreturn
    obtain ⟨lines, hafter, hlines⟩ := skipNewlines_split after
    exact .inr ⟨l, lines, congrArg (l :: ·) hafter, hl, hlines⟩

variable {fuel : Nat}

theorem statements_result (heof : eof.type = .eof) (hnone : NoEnd toks) {turns : Nat}
    {bindings : List (String × Expr K)} {e : Expr K} {program : Program K}
    (h : statements eof fuel turns bindings (some e) toks = .ok program) :
    toks = [] ∧ program = ⟨bindings, e⟩ := by
  cases turns with
  | zero => cases h
  | succ turns =>
    rw [statements] at h
    cases toks with
    | nil =>
      cases (if_pos heof).symm.trans h
      exact ⟨rfl, rfl⟩
    | cons t toks =>
      have hend : (peek eof (t :: toks)).type ≠ .eof := hnone t (List.mem_cons_self ..)
      rw [if_neg hend, if_pos (Option.isSome_some)] at h
      cases h

theorem statements_sound (heof : eof.type = .eof) {turns : Nat} : ∀ {toks : List Token}
    {bindings : List (String × Expr K)} {program : Program K}, NoEnd toks →
    statements eof fuel turns bindings none toks = .ok program →
    ∃ more, program.bindings = bindings ++ more ∧ Body more program.result toks := by
  induction turns with
  | zero =>
    intro toks bindings program hnone h
    cases h
  | succ turns ih =>
    intro toks bindings program hnone h
    rw [statements] at h
    split_ifs at h with hend hresult hbinding
    · cases h
    · obtain ⟨n, after, rfl, hn⟩ := of_peek heof hbinding.1 (by decide)
      obtain ⟨q, toks, rfl, hq⟩ := of_peek heof hbinding.2 (by decide)
      obtain ⟨value, rest, ⟨used, rfl, hvalue⟩, hafter⟩ := (taken heof fuel).additive.of_bind h
      obtain ⟨rest', hstatement, hnext⟩ := Data.bind_ok hafter
      have hrest : NoEnd rest := fun t ht ↦ hnone t (by simp [ht])
      rcases endStatement_ok heof hrest hstatement with ⟨rfl, rfl⟩ | ⟨l, lines, rfl, hl, hlines⟩
      · obtain _ | turns := turns
        · cases hnext
        · cases (if_pos heof).symm.trans hnext
      · obtain ⟨more, hmore, hbody⟩ := ih (fun t ht ↦ hrest t (by simp [ht])) hnext
        refine ⟨(n.value, value) :: more, ?_, .assign hn hq hvalue hl hlines hbody⟩
        rw [hmore, List.append_assoc]
        rfl
    · obtain ⟨e, rest, ⟨used, rfl, he⟩, hafter⟩ := (taken heof fuel).additive.of_bind h
      obtain ⟨rest', hstatement, hnext⟩ := Data.bind_ok hafter
      have hrest : NoEnd rest := fun t ht ↦ hnone t (by simp [ht])
      rcases endStatement_ok heof hrest hstatement with ⟨rfl, rfl⟩ | ⟨l, lines, rfl, hl, hlines⟩
      · obtain ⟨-, rfl⟩ := statements_result heof hrest hnext
        exact ⟨[], (List.append_nil _).symm, .result he lines_nil⟩
      · obtain ⟨rfl, rfl⟩ := statements_result heof (fun t ht ↦ hrest t (by simp [ht])) hnext
        rw [List.append_nil]
        exact ⟨[], (List.append_nil _).symm, .result he (List.forall_mem_cons.mpr ⟨hl, hlines⟩)⟩

theorem Body.peek_ne {bindings : List (String × Expr K)} {e : Expr K} (h : Body bindings e toks)
    {type : TokenType} (htype : opening true type = false) : (peek eof toks).type ≠ type := by
  cases h with
  | result he => exact he.peek_ne htype _
  | assign hn =>
    rintro rfl
    rw [peek_cons, hn] at htype
    cases htype

theorem Body.completes {more : List (String × Expr K)} {e : Expr K} {toks : List Token}
    (h : Body more e toks) (eof : Token) (heof : eof.type = .eof) :
    ∀ {turns : Nat} (bindings : List (String × Expr K)), toks.length < turns →
    8 * toks.length + 6 ≤ fuel →
    statements eof fuel turns bindings none toks = .ok ⟨bindings ++ more, e⟩ := by
  induction h with
  | @result e toks lines he hlines =>
    intro turns bindings hturns hfuel
    have hrest : (peek eof lines).type = .eof ∧ lines = [] ∨ (peek eof lines).type = .newline := by
      cases lines with
      | nil => exact .inl ⟨heof, rfl⟩
      | cons t lines => exact .inr (hlines t (List.mem_cons_self ..))
    have hgives := (he.completes eof).additive lines
      (by rcases hrest with ⟨h, -⟩ | h <;> rw [h] <;> rfl) fuel hfuel
    obtain _ | _ | turns := turns
    · exact absurd hturns (Nat.not_lt_zero _)
    · obtain ⟨t, more, rfl, -⟩ := he.opens
      simp at hturns
    rw [statements, if_neg (he.peek_ne rfl _), if_neg (Option.isSome_none ▸ Bool.false_ne_true),
      if_neg (he.not_named (by rcases hrest with ⟨h, -⟩ | h <;> rw [h] <;> decide))]
    refine (bind_of_eq hgives _).trans ((bind_of_eq (a := []) ?_ _).trans ?_)
    · rw [endStatement]
      rcases hrest with ⟨h, rfl⟩ | h
      · simp [h]
      · obtain ⟨l, lines, rfl⟩ := List.exists_cons_of_ne_nil (l := lines) (by
          rintro rfl
          exact absurd (heof.symm.trans h) (by decide))
        have hl : l.type = .newline := h
        rw [peek_cons, hl, if_neg (by simp), if_neg (by simp), bind_eat hl]
        have hend : (peek eof []).type ≠ .newline := heof ▸ by decide
        have hskip := skipNewlines_lines eof (fun t ht ↦ hlines t (List.mem_cons_of_mem _ ht)) hend
        rw [List.append_nil] at hskip
        exact congrArg Except.ok hskip
    · rw [List.append_nil]
      exact if_pos heof
  | @assign e value bindings' n q l toks lines more hn hq hvalue hl hlines hbody ih =>
    intro turns bindings hturns hfuel
    obtain _ | turns := turns
    · exact absurd hturns (Nat.not_lt_zero _)
    simp only [List.length_cons, List.length_append] at hturns hfuel
    have hgives := (hvalue.completes eof).additive (l :: (lines ++ more))
      (by rw [peek_cons, hl]; rfl) fuel (by simp; omega)
    rw [statements, if_neg (by rw [peek_cons, hn]; decide),
      if_neg (Option.isSome_none ▸ Bool.false_ne_true), if_pos ⟨hn, hq⟩]
    refine (bind_of_eq hgives _).trans ((bind_of_eq (a := more) ?_ _).trans ?_)
    · rw [endStatement, peek_cons, hl]
      rw [if_neg (by simp), if_neg (by simp), bind_eat hl]
      exact congrArg Except.ok (skipNewlines_lines eof hlines (hbody.peek_ne rfl))
    · refine (ih _ (by omega) (by omega)).trans ?_
      rw [List.append_assoc]
      rfl

/-- **The parser implements the grammar**: it accepts a script exactly if its tokens spell a
program, and then returns that program. -/
theorem parse_iff (src : List Char) (program : Program K) : parse src = .ok program ↔
    ∃ toks eof, tokenize src = .ok (toks, eof) ∧ Spelled program toks := by
  rw [parse]
  constructor
  · intro h
    split at h
    next => cases h
    next toks eof htokens =>
      obtain ⟨hnone, heof⟩ := tokenize_noEnd htokens
      obtain ⟨more, hmore, hbody⟩ := statements_sound heof
        (fun t ht ↦ hnone t ((List.dropWhile_sublist _).subset ht)) h
      rw [List.nil_append] at hmore
      refine ⟨toks, eof, htokens, ?_⟩
      rw [Spelled, hmore]
      exact hbody
  · rintro ⟨toks, eof, htokens, hspelled⟩
    have hskip := skipNewlines_le toks
    rw [htokens]
    exact Body.completes hspelled eof (tokenize_noEnd htokens).2 [] (by omega) (by omega)

/-- **No script has two readings.** -/
theorem spelled_unique (toks : List Token) :
    { program : Program K | Spelled program toks }.Subsingleton := by
  intro program h program' h'
  have hread := h.completes ⟨.eof, "", ⟨1, 1⟩⟩ rfl [] (Nat.lt_succ_self _) le_rfl
  have hread' := h'.completes ⟨.eof, "", ⟨1, 1⟩⟩ rfl [] (Nat.lt_succ_self _) le_rfl
  obtain ⟨bindings, e⟩ := program
  obtain ⟨bindings', e'⟩ := program'
  exact Except.ok.inj (hread.symm.trans hread')

end Scripts

end OpenAlice.Analysis
