import GoErp.Domain.Spelling

/-!
# `Domain.Template` — expressions with places for values

The grammar of `domain/parser.go` with one more operand, the place `?`: a token that stands where a number may stand
(`parseTemplate`). `Expr.fill` puts values in the places, in the order in which they are written.

Filling commutes with parsing (`parseTokens_fills`). The levels of the grammar are taken one by one: `Sim` is what a
level guarantees, `LoopSim` what the loop of a level does.
-/

namespace GoErp.Domain

open Lib

/-- The literal that stands for a place in the tree of a template. -/
def place : LitValue := .number "?"

/-- A literal, filled if it is a place, and the values left over. -/
def LitValue.fill (value : LitValue) : List LitValue → LitValue × List LitValue
  | [] => (value, [])
  | v :: vs => if value = place then (v, vs) else (value, v :: vs)

mutual

/-- The tree with its places filled from left to right, and the values left over. -/
def Expr.fill : Expr → List LitValue → Expr × List LitValue
  | .literal value, vs => (.literal (value.fill vs).1, (value.fill vs).2)
  | .binary op left right, vs =>
    let (l, vs) := left.fill vs
    let (r, vs) := right.fill vs
    (.binary op l r, vs)
  | .not operand, vs =>
    let (x, vs) := operand.fill vs
    (.not x, vs)
  | .isNull operand n, vs =>
    let (x, vs) := operand.fill vs
    (.isNull x n, vs)
  | .inList operand values, vs =>
    let (x, vs) := operand.fill vs
    let (xs, vs) := Expr.fillList values vs
    (.inList x xs, vs)
  | .tree op target, vs =>
    let (x, vs) := target.fill vs
    (.tree op x, vs)
  | e, vs => (e, vs)

def Expr.fillList : List Expr → List LitValue → List Expr × List LitValue
  | [], vs => ([], vs)
  | e :: es, vs =>
    let (x, vs) := e.fill vs
    let (xs, vs) := Expr.fillList es vs
    (x :: xs, vs)

end

/-! ## Reading a template -/

/-- The lexer of templates: `?` is a number token of its own. -/
def nextTemplateAt (pos : Nat) : List Char → Except LexError Lexed
  | '?' :: cs => symbol .number "?" pos cs
  | cs => nextAt pos cs

/-- The lexer's loop, for templates. -/
def tokenizeTemplateFrom : Nat → Nat → List Char → Except LexError (List Token)
  | 0, _, _ => .error .outOfFuel
  | fuel + 1, pos, src =>
    match nextTemplateAt (pos + (src.takeWhile isSpace).length) (src.dropWhile isSpace) with
    | .error e => .error e
    | .ok (tok, pos', rest) =>
      if tok.kind = .eof then .ok [tok]
      else match tokenizeTemplateFrom fuel pos' rest with
        | .error e => .error e
        | .ok toks => .ok (tok :: toks)

/-- `Parse` after the lexer. -/
def parseTokens (toks : List Token) : Except ParseError Expr := do
  let (e, toks) ← parseOr toks.length toks
  if (cur toks).kind = .eof then .ok e
  else .error (.unexpectedToken (cur toks).text (cur toks).pos)

variable {toks : List Token}

theorem parse_eq_parseTokens {src : String} (h : tokenize src = .ok toks) : parse src = parseTokens toks := by
  rw [parse, h]
  rfl

/-- A template's tree. -/
def parseTemplate (template : String) : Except ParseError Expr :=
  match tokenizeTemplateFrom (template.length + 1) 0 template.toList with
  | .error e => .error (.lex e)
  | .ok toks => parseTokens toks

/-! ## Tokens with their places filled -/

/-- The token is a place. -/
def Token.IsPlace (t : Token) : Prop := t.kind = .number ∧ t.text = "?"

/-- The token is that of a literal. -/
def Token.Denotes (t : Token) : LitValue → Prop
  | .null => t.kind = .null
  | .bool b => t.kind = if b then .true_ else .false_
  | .string s => t.kind = .string ∧ t.text = s
  | .number text => t.kind = .number ∧ t.text = text

/-- The tokens of the second list are those of the first, up to positions, with a literal's token for each place. -/
inductive Fills : List LitValue → List Token → List Token → Prop where
  | eof {t t'} : t.kind = .eof → t'.kind = .eof → Fills [] [t] [t']
  | keep {vs t t' ts ts'} : ¬ t.IsPlace → t'.kind = t.kind → t'.text = t.text → Fills vs ts ts' →
      Fills vs (t :: ts) (t' :: ts')
  | place {v vs t t' ts ts'} : t.IsPlace → t'.Denotes v → Fills vs ts ts' → Fills (v :: vs) (t :: ts) (t' :: ts')

/-- The kinds of token that are a literal by themselves. -/
def TokenKind.isLiteral : TokenKind → Bool
  | .null | .true_ | .false_ | .string | .number => true
  | _ => false

variable {t : Token} {v : LitValue}

/-- What denotes a value is a literal's token. -/
theorem Token.Denotes.isLiteral (h : t.Denotes v) : t.kind.isLiteral = true := by
  cases v with
  | null => rw [show t.kind = .null from h]; rfl
  | bool b =>
    rw [show t.kind = if b then .true_ else .false_ from h]
    cases b <;> rfl
  | string s => rw [h.1]; rfl
  | number text => rw [h.1]; rfl

theorem Token.denotes_of_isLiteral (h : t.kind.isLiteral = true) : ∃ v, t.Denotes v := by
  cases hk : t.kind with
  | null => exact ⟨.null, hk⟩
  | true_ => exact ⟨.bool true, hk⟩
  | false_ => exact ⟨.bool false, hk⟩
  | string => exact ⟨.string t.text, hk, rfl⟩
  | number => exact ⟨.number t.text, hk, rfl⟩
  | _ =>
    rw [hk] at h
    cases h

theorem Token.Denotes.of_lexeme {t' : Token} (h : t.Denotes v) (hk : t'.kind = t.kind) (htext : t'.text = t.text) :
    t'.Denotes v := by
  cases v with
  | null => exact hk.trans h
  | bool b => exact hk.trans h
  | string s => exact ⟨hk.trans h.1, htext.trans h.2⟩
  | number text => exact ⟨hk.trans h.1, htext.trans h.2⟩

section

variable {vs : List LitValue} {toks toks' : List Token}

section

variable (h : Fills vs toks toks')

include h

/-- Filling keeps the number of tokens. -/
theorem Fills.length_eq : toks'.length = toks.length := by
  induction h with
  | eof => rfl
  | keep _ _ _ _ ih => rw [List.length_cons, List.length_cons, ih]
  | place _ _ _ ih => rw [List.length_cons, List.length_cons, ih]

theorem Fills.ne_nil : toks ≠ [] ∧ toks' ≠ [] := by
  cases h <;> simp

theorem Fills.kind : (cur toks').kind = (cur toks).kind ∨
    ((cur toks).kind.isLiteral = true ∧ (cur toks').kind.isLiteral = true) := by
  cases h with
  | eof ht ht' => exact .inl (ht'.trans ht.symm)
  | keep _ hk _ _ => exact .inl hk
  | place hp hd _ => exact .inr ⟨by rw [show (cur (_ :: _)).kind = _ from hp.1]; rfl, hd.isLiteral⟩

/-- The two lists agree on the tokens that are not literals. -/
theorem Fills.kind_eq_iff {k : TokenKind} (hk : k.isLiteral = false) : (cur toks').kind = k ↔ (cur toks).kind = k := by
  rcases h.kind with heq | ⟨hl, hl'⟩
  · rw [heq]
  constructor
  · intro he
    rw [he, hk] at hl'
    cases hl'
  intro he
  rw [he, hk] at hl
  cases hl

/-- An operator of the grammar is no literal. -/
theorem Fills.ops_eq {β : Type} {ops : TokenKind → Option β} (hops : ∀ k, k.isLiteral = true → ops k = none) :
    ops (cur toks').kind = ops (cur toks).kind := by
  rcases h.kind with heq | ⟨hl, hl'⟩
  · rw [heq]
  · rw [hops _ hl, hops _ hl']

/-- A token that is no place is the same in both lists. -/
theorem Fills.kept_of_not_place (hp : ¬ (cur toks).IsPlace) (he : (cur toks).kind ≠ .eof) :
    (cur toks').kind = (cur toks).kind ∧ (cur toks').text = (cur toks).text ∧
      Fills vs (advance toks) (advance toks') := by
  cases h with
  | eof ht ht' => exact absurd ht he
  | @keep vs t t' ts ts' _ hk ht hrest =>
    refine ⟨hk, ht, ?_⟩
    obtain ⟨hne, hne'⟩ := hrest.ne_nil
    cases ts with
    | nil => exact absurd rfl hne
    | cons u us =>
      cases ts' with
      | nil => exact absurd rfl hne'
      | cons u' us' => exact hrest
  | place hplace _ _ => exact absurd hplace hp

/-- A token that is no number is not a place. -/
theorem Fills.kept (hp : (cur toks).kind ≠ .number) (he : (cur toks).kind ≠ .eof) :
    (cur toks').kind = (cur toks).kind ∧ (cur toks').text = (cur toks).text ∧
      Fills vs (advance toks) (advance toks') :=
  h.kept_of_not_place (fun hplace => hp hplace.1) he

/-- `expect` accepts the same tokens. -/
theorem Fills.expect {k : TokenKind} {what : String} {t : Token} {rest : List Token} (hk : k ≠ .number ∧ k ≠ .eof)
    (hx : expect k what toks = .ok (t, rest)) :
    ∃ t' rest', expect k what toks' = .ok (t', rest') ∧ t'.text = t.text ∧ Fills vs rest rest' := by
  obtain ⟨rfl, hkind, rfl⟩ := expect_ok hx
  obtain ⟨hkind', htext, hadv⟩ := h.kept (by rw [hkind]; exact hk.1) (by rw [hkind]; exact hk.2)
  refine ⟨cur toks', advance toks', ?_, htext, hadv⟩
  rw [Domain.expect, if_pos (hkind'.trans hkind)]

end

end

/-! ## Levels of the grammar -/

/-- A level reads filled tokens as the filled tree. -/
def Sim (p : Parser Expr) : Prop :=
  ∀ ⦃toks e rest⦄, p toks = .ok (e, rest) → ∀ ⦃vs toks'⦄, Fills vs toks toks' →
    ∃ rest', p toks' = .ok ((e.fill vs).1, rest') ∧ Fills (e.fill vs).2 rest rest'

/-- A loop extends a filled tree as it extends the tree; `vs` are the values before those of `left`. -/
def LoopSim (loop : Nat → Expr → Parser Expr) : Prop :=
  ∀ ⦃fuel left toks e rest⦄, loop fuel left toks = .ok (e, rest) →
    ∀ ⦃vs toks'⦄, Fills (left.fill vs).2 toks toks' →
      ∃ rest', loop fuel (left.fill vs).1 toks' = .ok ((e.fill vs).1, rest') ∧ Fills (e.fill vs).2 rest rest'

variable {operand : Parser Expr}

/-- A level is simulated if its operands and its loop are. -/
theorem level_sim {loop : Nat → Expr → Parser Expr} (ho : Sim operand) (hl : LoopSim loop) : Sim (fun toks => do
      let (left, toks) ← operand toks
      loop toks.length left toks) := by
  intro toks e rest h vs toks' hf
  obtain ⟨⟨left, t1⟩, h1, h⟩ := bind_eq_ok.mp h
  obtain ⟨t1', h1', hf1⟩ := ho h1 hf
  obtain ⟨rest', h', hfr⟩ := hl h hf1
  refine ⟨rest', bind_eq_ok.mpr ⟨_, h1', ?_⟩, hfr⟩
  show loop t1'.length (left.fill vs).1 t1' = _
  rw [hf1.length_eq]
  exact h'

/-- The loop of a binary level: operators are never places. -/
theorem binaryLoop_sim {ops : TokenKind → Option BinOp} (hops : ∀ k, k.isLiteral = true → ops k = none)
    (heof : ops .eof = none) (ho : Sim operand) : LoopSim (binaryLoop ops operand) := by
  intro fuel
  induction fuel with
  | zero =>
    intro left toks e rest h
    cases h
  | succ fuel ih =>
    intro left toks e rest h vs toks' hf
    rw [binaryLoop] at h ⊢
    rw [hf.ops_eq hops]
    split at h
    · cases h
      exact ⟨toks', rfl, hf⟩
    rename_i op hop
    obtain ⟨⟨right, t1⟩, h1, h⟩ := bind_eq_ok.mp h
    -- an operator is neither a place nor the end of input
    have hne : (cur toks).kind ≠ .number ∧ (cur toks).kind ≠ .eof := by
      constructor <;> intro hk <;> rw [hk] at hop
      · rw [hops _ rfl] at hop
        cases hop
      · rw [heof] at hop
        cases hop
    obtain ⟨-, -, hadv⟩ := hf.kept hne.1 hne.2
    obtain ⟨t1', h1', hf1⟩ := ho h1 hadv
    obtain ⟨rest', h', hfr⟩ := @ih (.binary op left right) _ _ _ h _ _ hf1
    exact ⟨rest', bind_eq_ok.mpr ⟨_, h1', h'⟩, hfr⟩

theorem binaryLevel_sim {ops : TokenKind → Option BinOp}
    (hops : ∀ k, k.isLiteral = true → ops k = none) (heof : ops .eof = none) (ho : Sim operand) :
    Sim (binaryLevel ops operand) := level_sim ho (binaryLoop_sim hops heof ho)

theorem isNullLoop_sim : LoopSim isNullLoop := by
  intro fuel
  induction fuel with
  | zero =>
    intro left toks e rest h
    cases h
  | succ fuel ih =>
    intro left toks e rest h vs toks' hf
    rw [isNullLoop] at h ⊢
    split at h
    · rename_i hk
      rw [if_pos ((hf.kind_eq_iff rfl).mpr hk)]
      obtain ⟨⟨t, t1⟩, h1, h⟩ := bind_eq_ok.mp h
      obtain ⟨-, -, hadv⟩ := hf.kept (by rw [hk]; simp) (by rw [hk]; simp)
      have hnot : decide ((cur (advance toks')).kind = .not) = decide ((cur (advance toks)).kind = .not) :=
        decide_eq_decide.mpr (hadv.kind_eq_iff rfl)
      have hadv2 : Fills (left.fill vs).2
          (if decide ((cur (advance toks)).kind = .not) then advance (advance toks) else advance toks)
          (if decide ((cur (advance toks)).kind = .not) then advance (advance toks') else advance toks') := by
        by_cases hn : (cur (advance toks)).kind = .not
        · rw [if_pos (decide_eq_true hn), if_pos (decide_eq_true hn)]
          exact (hadv.kept (by rw [hn]; simp) (by rw [hn]; simp)).2.2
        · rw [if_neg (by simpa using hn), if_neg (by simpa using hn)]
          exact hadv
      obtain ⟨t', t1', h1', -, hf1⟩ := hadv2.expect (by simp) h1
      obtain ⟨rest', h', hfr⟩ := @ih (.isNull left _) _ _ _ h _ _ hf1
      refine ⟨rest', ?_, hfr⟩
      dsimp only
      rw [hnot]
      exact bind_eq_ok.mpr ⟨_, h1', h'⟩
    · rename_i hk
      cases h
      rw [if_neg fun hk' => hk ((hf.kind_eq_iff rfl).mp hk')]
      exact ⟨toks', rfl, hf⟩

variable {primary : Parser Expr}

theorem parseIsNull_sim (hp : Sim primary) : Sim (parseIsNull primary) := by
  have hcmp : ∀ k, k.isLiteral = true → comparisonOps k = none := by
    intro k hk
    cases k <;> first | rfl | cases hk
  have hlike : ∀ k, k.isLiteral = true → likeOps k = none := by
    intro k hk
    cases k <;> first | rfl | cases hk
  exact level_sim (binaryLevel_sim hlike rfl (binaryLevel_sim hcmp rfl hp)) isNullLoop_sim

theorem Expr.fillList_append (xs ys : List Expr) (vs : List LitValue) : Expr.fillList (xs ++ ys) vs =
      ((Expr.fillList xs vs).1 ++ (Expr.fillList ys (Expr.fillList xs vs).2).1,
        (Expr.fillList ys (Expr.fillList xs vs).2).2) := by
  induction xs generalizing vs with
  | nil => rfl
  | cons x xs ih => simp only [List.cons_append, Expr.fillList, ih]

variable {rest : List Token} {vs : List LitValue} {toks' : List Token}

/-- The members of a list are filled in order. -/
theorem parseValues_sim {value : Parser Expr} (hv : Sim value) {fuel : Nat} (acc : List Expr) {es : List Expr}
    (h : parseValues value fuel acc toks = .ok (es, rest)) (hf : Fills (Expr.fillList acc vs).2 toks toks') :
    ∃ rest', parseValues value fuel (Expr.fillList acc vs).1 toks' = .ok ((Expr.fillList es vs).1, rest') ∧
      Fills (Expr.fillList es vs).2 rest rest' := by
  induction fuel generalizing acc toks toks' with
  | zero => cases h
  | succ fuel ih =>
    obtain ⟨⟨v, t1⟩, h1, h⟩ := bind_eq_ok.mp h
    obtain ⟨t1', h1', hf1⟩ := hv h1 hf
    have hacc : Expr.fillList (acc ++ [v]) vs =
        ((Expr.fillList acc vs).1 ++ [(v.fill (Expr.fillList acc vs).2).1], (v.fill (Expr.fillList acc vs).2).2) := by
      rw [Expr.fillList_append]
      rfl
    dsimp only at h
    split at h
    · rename_i hk
      obtain ⟨-, -, hadv⟩ := hf1.kept (by rw [hk]; simp) (by rw [hk]; simp)
      obtain ⟨rest', h', hfr⟩ := ih (acc ++ [v]) h (by rw [hacc]; exact hadv)
      refine ⟨rest', bind_eq_ok.mpr ⟨_, h1', ?_⟩, hfr⟩
      rw [hacc] at h'
      dsimp only
      rw [if_pos ((hf1.kind_eq_iff rfl).mpr hk)]
      exact h'
    · rename_i hk
      cases h
      refine ⟨t1', bind_eq_ok.mpr ⟨_, h1', ?_⟩, by rw [hacc]; exact hf1⟩
      dsimp only
      rw [if_neg fun hk' => hk ((hf1.kind_eq_iff rfl).mp hk'), hacc]

theorem inLoop_sim {value : Parser Expr} (hv : Sim value) : LoopSim (inLoop value) := by
  intro fuel
  induction fuel with
  | zero =>
    intro left toks e rest h
    cases h
  | succ fuel ih =>
    intro left toks e rest h vs toks' hf
    rw [inLoop] at h ⊢
    split at h
    · rename_i hk
      rw [if_pos ((hf.kind_eq_iff rfl).mpr hk)]
      obtain ⟨⟨_, t1⟩, h1, h⟩ := bind_eq_ok.mp h
      obtain ⟨⟨es, t2⟩, h2, h⟩ := bind_eq_ok.mp h
      obtain ⟨⟨_, t3⟩, h3, h⟩ := bind_eq_ok.mp h
      obtain ⟨-, -, hadv⟩ := hf.kept (by rw [hk]; simp) (by rw [hk]; simp)
      obtain ⟨_, t1', h1', -, hf1⟩ := hadv.expect (by simp) h1
      obtain ⟨t2', h2', hf2⟩ := parseValues_sim hv [] h2 hf1
      obtain ⟨_, t3', h3', -, hf3⟩ := hf2.expect (by simp) h3
      obtain ⟨rest', h', hfr⟩ := @ih (.inList left es) _ _ _ h _ _ hf3
      rw [← hf1.length_eq] at h2'
      exact ⟨rest', bind_eq_ok.mpr ⟨_, h1', bind_eq_ok.mpr ⟨_, h2', bind_eq_ok.mpr ⟨_, h3', h'⟩⟩⟩, hfr⟩
    · rename_i hk
      cases h
      rw [if_neg fun hk' => hk ((hf.kind_eq_iff rfl).mp hk')]
      exact ⟨toks', rfl, hf⟩

/-- A place is no bare record. -/
theorem isBareRecord_fill (e : Expr) (vs : List LitValue) : isBareRecord (e.fill vs).1 = isBareRecord e := by
  cases e <;> rfl

theorem childOfLoop_sim (ho : Sim operand) : LoopSim (childOfLoop operand) := by
  have hops : ∀ k, k.isLiteral = true → treeOps k = none := by
    intro k hk
    cases k <;> first | rfl | cases hk
  intro fuel
  induction fuel with
  | zero =>
    intro left toks e rest h
    cases h
  | succ fuel ih =>
    intro left toks e rest h vs toks' hf
    rw [childOfLoop] at h ⊢
    rw [hf.ops_eq hops, isBareRecord_fill]
    split at h
    · cases h
      exact ⟨toks', rfl, hf⟩
    rename_i op hop
    have hne : (cur toks).kind ≠ .number ∧ (cur toks).kind ≠ .eof := by
      constructor <;> intro hk <;> rw [hk] at hop <;> cases hop
    obtain ⟨-, -, hadv⟩ := hf.kept hne.1 hne.2
    split at h
    · rename_i hbare
      obtain ⟨⟨target, t1⟩, h1, h⟩ := bind_eq_ok.mp h
      -- a bare `record` holds no place
      have hleft : left.fill vs = (left, vs) := by
        cases left with
        | recordField field => rfl
        | _ => cases hbare
      rw [hleft] at hadv
      obtain ⟨t1', h1', hf1⟩ := ho h1 hadv
      obtain ⟨rest', h', hfr⟩ := @ih (.tree op target) _ _ _ h _ _ hf1
      refine ⟨rest', ?_, hfr⟩
      rw [if_pos hbare]
      exact bind_eq_ok.mpr ⟨_, h1', h'⟩
    · cases h

theorem parseChildOf_sim (hp : Sim primary) : Sim (parseChildOf primary) :=
  have hin : Sim (parseIn primary) := level_sim (parseIsNull_sim hp) (inLoop_sim (parseIsNull_sim hp))
  level_sim hin (childOfLoop_sim hin)

theorem parseNot_sim (hp : Sim primary) : Sim (parseNot primary) := by
  have hfrom : ∀ fuel, Sim (parseNotFrom (parseChildOf primary) fuel) := by
    intro fuel
    induction fuel with
    | zero =>
      intro toks e rest h
      cases h
    | succ fuel ih =>
      intro toks e rest h vs toks' hf
      rw [parseNotFrom] at h ⊢
      split at h
      · rename_i hk
        rw [if_pos fun hk' => hk ((hf.kind_eq_iff rfl).mp hk')]
        exact parseChildOf_sim hp h hf
      rename_i hk
      rw [ne_eq, not_not] at hk
      obtain ⟨⟨e', t1⟩, h1, h⟩ := bind_eq_ok.mp h
      cases h
      obtain ⟨hk', -, hadv⟩ := hf.kept (by rw [hk]; simp) (by rw [hk]; simp)
      obtain ⟨t1', h1', hf1⟩ := ih h1 hadv
      refine ⟨t1', ?_, hf1⟩
      rw [if_neg (not_not.mpr (hk'.trans hk))]
      exact bind_eq_ok.mpr ⟨_, h1', rfl⟩
  intro toks e rest h vs toks' hf
  obtain ⟨rest', h', hfr⟩ := hfrom _ h hf
  refine ⟨rest', ?_, hfr⟩
  show parseNotFrom _ toks'.length toks' = _
  rw [hf.length_eq]
  exact h'

/-! ### Primaries -/

/-- A reading that yields a leaf without a place. -/
def LeafSim (p : Parser Expr) : Prop :=
  ∀ ⦃toks e rest⦄, p toks = .ok (e, rest) → ∀ ⦃vs toks'⦄, Fills vs toks toks' →
    e.fill vs = (e, vs) ∧ ∃ rest', p toks' = .ok (e, rest') ∧ Fills vs rest rest'

theorem parseCall_sim {build : String → Expr} (hb : ∀ s vs, (build s).fill vs = (build s, vs)) :
    LeafSim (parseCall build) := by
  intro toks e rest h vs toks' hf
  obtain ⟨⟨_, t1⟩, h1, h⟩ := bind_eq_ok.mp h
  obtain ⟨⟨arg, t2⟩, h2, h⟩ := bind_eq_ok.mp h
  obtain ⟨⟨_, t3⟩, h3, h⟩ := bind_eq_ok.mp h
  cases h
  obtain ⟨_, t1', h1', -, hf1⟩ := hf.expect (by simp) h1
  obtain ⟨arg', t2', h2', htext, hf2⟩ := hf1.expect (by simp) h2
  obtain ⟨_, t3', h3', -, hf3⟩ := hf2.expect (by simp) h3
  refine ⟨hb _ _, t3', ?_, hf3⟩
  rw [← htext]
  exact bind_eq_ok.mpr ⟨_, h1', bind_eq_ok.mpr ⟨_, h2', bind_eq_ok.mpr ⟨_, h3', rfl⟩⟩⟩

theorem parseAttr_sim {what : String} {build : String → Expr} (hb : ∀ s vs, (build s).fill vs = (build s, vs)) :
    LeafSim (parseAttr what build) := by
  intro toks e rest h vs toks' hf
  obtain ⟨⟨_, t1⟩, h1, h⟩ := bind_eq_ok.mp h
  obtain ⟨⟨attr, t2⟩, h2, h⟩ := bind_eq_ok.mp h
  cases h
  obtain ⟨_, t1', h1', -, hf1⟩ := hf.expect (by simp) h1
  obtain ⟨attr', t2', h2', htext, hf2⟩ := hf1.expect (by simp) h2
  refine ⟨hb _ _, t2', ?_, hf2⟩
  rw [← htext]
  exact bind_eq_ok.mpr ⟨_, h1', bind_eq_ok.mpr ⟨_, h2', rfl⟩⟩

variable {e : Expr}

/-- What begins with an identifier holds no place. -/
theorem parseIdentExpr_sim (hk : (cur toks).kind = .ident) (h : parseIdentExpr toks = .ok (e, rest))
    (hf : Fills vs toks toks') :
    e.fill vs = (e, vs) ∧ ∃ rest', parseIdentExpr toks' = .ok (e, rest') ∧ Fills vs rest rest' := by
  obtain ⟨-, htext, hadv⟩ := hf.kept (by rw [hk]; simp) (by rw [hk]; simp)
  unfold parseIdentExpr at h ⊢
  dsimp only at h ⊢
  rw [htext]
  split at h
  · split at h
    · rename_i hdot
      rw [if_pos ((hadv.kind_eq_iff rfl).mpr hdot)]
      exact parseAttr_sim (fun _ _ => rfl) h hadv
    rename_i hdot
    rw [if_neg fun hd => hdot ((hadv.kind_eq_iff rfl).mp hd)]
    split at h
    · cases h
    rename_i htree
    cases h
    refine ⟨rfl, advance toks', ?_, hadv⟩
    rw [if_neg]
    rintro ⟨hc, hp⟩
    exact htree ⟨fun hk => hc ((hadv.kind_eq_iff rfl).mpr hk), fun hk => hp ((hadv.kind_eq_iff rfl).mpr hk)⟩
  iterate 3 exact parseAttr_sim (fun _ _ => rfl) h hadv
  iterate 2 exact parseCall_sim (fun _ _ => rfl) h hadv
  · cases h

theorem LitValue.fill_of_ne_place {value : LitValue} (h : value ≠ Domain.place) (vs : List LitValue) :
    value.fill vs = (value, vs) := by
  cases vs with
  | nil => rfl
  | cons v vs => rw [LitValue.fill, if_neg h]

variable {inner : Parser Expr}

/-- The token of a literal is read as the literal. -/
theorem parsePrimary_denotes (h : (cur toks).Denotes v) : parsePrimary inner toks = .ok (.literal v, advance toks) := by
  cases v with
  | null => simp [parsePrimary, show (cur toks).kind = .null from h]
  | bool b =>
    have hk : (cur toks).kind = if b then .true_ else .false_ := h
    cases b <;> simp [parsePrimary, hk]
  | string s => simp [parsePrimary, h.1, h.2]
  | number text => simp [parsePrimary, h.1, h.2]

/-- A place is read as the literal that fills it. -/
theorem parsePrimary_place (hplace : (cur toks).IsPlace) (hf : Fills vs toks toks')
    (h : parsePrimary inner toks = .ok (e, rest)) :
    ∃ rest', parsePrimary inner toks' = .ok ((e.fill vs).1, rest') ∧ Fills (e.fill vs).2 rest rest' := by
  have hnumber : (cur toks).Denotes Domain.place := hplace
  rw [parsePrimary_denotes hnumber] at h
  cases h
  cases hf with
  | eof ht _ => exact absurd (hplace.1.symm.trans ht) (by simp)
  | keep hp _ _ _ => exact absurd hplace hp
  | @place v vs t t' ts ts' hp hd hrest =>
    obtain ⟨hne, hne'⟩ := hrest.ne_nil
    cases ts with
    | nil => exact absurd rfl hne
    | cons u us =>
      cases ts' with
      | nil => exact absurd rfl hne'
      | cons u' us' => exact ⟨u' :: us', parsePrimary_denotes hd, hrest⟩

/-- A primary of the template is the primary of the text, filled. -/
theorem parsePrimary_sim (hi : Sim inner) : Sim (parsePrimary inner) := by
  intro toks e rest h vs toks' hf
  by_cases hplace : (cur toks).IsPlace
  · exact parsePrimary_place hplace hf h
  cases hlit : (cur toks).kind.isLiteral with
  | true =>
    -- a literal of the template itself
    obtain ⟨v, hv⟩ := Token.denotes_of_isLiteral hlit
    have hne : v ≠ Domain.place := by
      rintro rfl
      exact hplace hv
    have heof : (cur toks).kind ≠ .eof := by
      intro hk
      rw [hk] at hlit
      cases hlit
    obtain ⟨hk, htext, hadv⟩ := hf.kept_of_not_place hplace heof
    rw [parsePrimary_denotes hv] at h
    cases h
    have hleaf : (Expr.literal v).fill vs = (.literal v, vs) := by rw [Expr.fill, LitValue.fill_of_ne_place hne]
    rw [hleaf]
    exact ⟨advance toks', parsePrimary_denotes (hv.of_lexeme hk htext), hadv⟩
  | false =>
    unfold parsePrimary at h
    dsimp only at h
    split at h
    · rename_i hk
      obtain ⟨⟨e', t1⟩, h1, h⟩ := bind_eq_ok.mp h
      obtain ⟨⟨_, t2⟩, h2, h⟩ := bind_eq_ok.mp h
      cases h
      obtain ⟨hk', -, hadv⟩ := hf.kept (by rw [hk]; simp) (by rw [hk]; simp)
      obtain ⟨t1', h1', hf1⟩ := hi h1 hadv
      obtain ⟨_, t2', h2', -, hf2⟩ := hf1.expect (by simp) h2
      refine ⟨t2', ?_, hf2⟩
      unfold parsePrimary
      dsimp only
      rw [hk'.trans hk]
      exact bind_eq_ok.mpr ⟨_, h1', bind_eq_ok.mpr ⟨_, h2', rfl⟩⟩
    iterate 5 rename_i hk; rw [hk] at hlit; cases hlit
    · rename_i hk
      obtain ⟨hk', -, -⟩ := hf.kept (by rw [hk]; simp) (by rw [hk]; simp)
      obtain ⟨hleaf, rest', h', hfr⟩ := parseIdentExpr_sim hk h hf
      rw [hleaf]
      refine ⟨rest', ?_, hfr⟩
      unfold parsePrimary
      dsimp only
      rw [hk'.trans hk]
      exact h'
    · cases h

/-- The text parses as its template does, with the values in the places. -/
theorem parseOr_sim (n : Nat) : Sim (parseOr n) := by
  have hand : ∀ k, k.isLiteral = true → andOps k = none := by
    intro k hk
    cases k <;> first | rfl | cases hk
  have hor : ∀ k, k.isLiteral = true → orOps k = none := by
    intro k hk
    cases k <;> first | rfl | cases hk
  induction n with
  | zero =>
    intro toks e rest h
    cases h
  | succ n ih => exact binaryLevel_sim hor rfl (binaryLevel_sim hand rfl (parseNot_sim (parsePrimary_sim ih)))

/-- **Filling commutes with parsing.** -/
theorem parseTokens_fills (hf : Fills vs toks toks') (h : parseTokens toks = .ok e) :
    parseTokens toks' = .ok (e.fill vs).1 := by
  obtain ⟨⟨e', rest⟩, h1, h⟩ := bind_eq_ok.mp h
  dsimp only at h
  split at h
  · rename_i hk
    cases h
    obtain ⟨rest', h1', hfr⟩ := parseOr_sim _ h1 hf
    rw [← hf.length_eq] at h1'
    refine bind_eq_ok.mpr ⟨_, h1', ?_⟩
    dsimp only
    rw [if_pos ((hfr.kind_eq_iff rfl).mpr hk)]
  · cases h

end GoErp.Domain
