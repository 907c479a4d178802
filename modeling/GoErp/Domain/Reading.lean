import GoErp.Domain.Template

/-!
# `Domain.Reading` — how the parser reads a printed expression

The counterpart of `Domain.Spelling` for the parser. `Reads p ls e stop` says that the level `p` of the grammar reads
the lexemes `ls` as the tree `e` whenever a token that `stop` accepts follows. One rule for each construct builds the
reading of a printed expression from those of its parts, and `parse_of_reads` puts lexer and parser together. Trees
carry no positions, so tokens are taken at position 0 (`parse_eq_ok_iff`).
-/

namespace GoErp.Domain

open Lib List

/-- The token at position 0. -/
def Lexeme.token (l : Lexeme) : Token := ⟨l.1, l.2, 0⟩

/-- The tokens of a whole text. -/
def sourceTokens (ls : List Lexeme) : List Token := ls.map Lexeme.token ++ [⟨.eof, "", 0⟩]

/-! ## Positions do not matter -/

mutual

theorem Expr.fill_nil : ∀ e : Expr, e.fill [] = (e, [])
  | .recordField _ | .userAttr _ | .tenantAttr _ | .roleCheck _ | .permCheck _ | .literal _ => rfl
  | .binary op left right => by rw [Expr.fill, Expr.fill_nil left]; dsimp only; rw [Expr.fill_nil right]
  | .not operand => by rw [Expr.fill, Expr.fill_nil operand]
  | .isNull operand n => by rw [Expr.fill, Expr.fill_nil operand]
  | .inList operand values => by rw [Expr.fill, Expr.fill_nil operand]; dsimp only; rw [Expr.fillList_nil values]
  | .tree op target => by rw [Expr.fill, Expr.fill_nil target]

theorem Expr.fillList_nil : ∀ es : List Expr, Expr.fillList es [] = (es, [])
  | [] => rfl
  | e :: es => by rw [Expr.fillList, Expr.fill_nil e]; dsimp only; rw [Expr.fillList_nil es]

end

variable {ls : List Lexeme}

/-- Tokens without a place, with the same lexemes. -/
theorem fills_of_lexemes (hls : ∀ l ∈ ls, l.1 ≠ .number) {toks toks' : List Token}
    (h : toks.map Token.lexeme = ls ++ [(.eof, "")]) (h' : toks'.map Token.lexeme = ls ++ [(.eof, "")]) :
    Fills [] toks toks' := by
  induction ls generalizing toks toks' with
  | nil =>
    obtain ⟨t, rfl, ht⟩ := map_eq_singleton_iff.mp h
    obtain ⟨t', rfl, ht'⟩ := map_eq_singleton_iff.mp h'
    exact .eof (congrArg Prod.fst ht) (congrArg Prod.fst ht')
  | cons l ls ih =>
    obtain ⟨t, ts, rfl, ht, hts⟩ := map_eq_cons_iff.mp h
    obtain ⟨t', ts', rfl, ht', hts'⟩ := map_eq_cons_iff.mp h'
    have hlex : t'.lexeme = t.lexeme := ht'.trans ht.symm
    refine .keep (fun hp => ?_) (congrArg Prod.fst hlex) (congrArg Prod.snd hlex)
      (ih (fun m hm => hls m (mem_cons_of_mem l hm)) hts hts')
    exact hls l mem_cons_self (ht ▸ hp.1)

theorem sourceTokens_lexemes (ls : List Lexeme) : (sourceTokens ls).map Token.lexeme = ls ++ [(.eof, "")] := by
  rw [sourceTokens, map_append, List.map_map]
  have hid : Token.lexeme ∘ Lexeme.token = id := rfl
  rw [hid, map_id]
  rfl

/-- A text that spells `ls` parses as its tokens do, wherever they stand. -/
theorem parse_eq_ok_iff {src : String} (h : Spells src.toList ls) (hls : ∀ l ∈ ls, l.1 ≠ .number) {e : Expr} :
    parse src = .ok e ↔ parseTokens (sourceTokens ls) = .ok e := by
  obtain ⟨toks, htoks, hlex⟩ := tokenize_of_spells h
  have hsrc := sourceTokens_lexemes ls
  rw [parse_eq_parseTokens htoks]
  constructor
  · intro hp
    have hq := parseTokens_fills (fills_of_lexemes hls hlex hsrc) hp
    rwa [Expr.fill_nil] at hq
  intro hp
  have hq := parseTokens_fills (fills_of_lexemes hls hsrc hlex) hp
  rwa [Expr.fill_nil] at hq

/-! ## Readings -/

/-- The level reads `ls` as `e` if a token that `stop` accepts comes next. -/
def Reads (p : Parser Expr) (ls : List Lexeme) (e : Expr) (stop : TokenKind → Bool) : Prop :=
  ∀ u us, stop u.kind = true → p (ls.map Lexeme.token ++ u :: us) = .ok (e, u :: us)

theorem Reads.mono {p : Parser Expr} {e : Expr} {stop stop' : TokenKind → Bool} (h : Reads p ls e stop)
    (hs : ∀ k, stop' k = true → stop k = true) : Reads p ls e stop' :=
  fun u us hu => h u us (hs _ hu)

/-- A token before others is passed. -/
theorem advance_append (t : Token) (xs : List Token) (u : Token) (us : List Token) :
    advance (t :: (xs ++ u :: us)) = xs ++ u :: us := by
  cases xs <;> rfl

section

variable {p : Parser Expr} {ls rs : List Lexeme} {e r : Expr} {stop : TokenKind → Bool}
  {u : Token} {ops : TokenKind → Option BinOp}

theorem binaryLoop_stop (hu : ops u.kind = none) (n : Nat) (left : Expr)
    (us : List Token) : binaryLoop ops p (n + 1) left (u :: us) = .ok (left, u :: us) := by
  rw [binaryLoop, show (cur (u :: us)).kind = u.kind from rfl, hu]

/-- An operand alone. -/
theorem Reads.binaryLevel (h : Reads p ls e stop)
    (hops : ∀ k, stop k = true → ops k = none) : Reads (binaryLevel ops p) ls e stop := by
  intro u us hu
  refine bind_eq_ok.mpr ⟨_, h u us hu, ?_⟩
  exact binaryLoop_stop (hops _ hu) us.length e us

variable {stop' : TokenKind → Bool} {l : Lexeme}

/-- Two operands and the operator between them. -/
theorem Reads.binary {op : BinOp} (hl : Reads p ls e stop') (hr : Reads p rs r stop) (hop : ops l.1 = some op)
    (hstop : stop' l.1 = true) (hops : ∀ k, stop k = true → ops k = none) :
    Reads (Domain.binaryLevel ops p) (ls ++ l :: rs) (.binary op e r) stop := by
  intro u us hu
  rw [map_append, map_cons, append_assoc, cons_append]
  refine bind_eq_ok.mpr ⟨_, hl l.token _ hstop, ?_⟩
  show binaryLoop ops p ((rs.map Lexeme.token ++ u :: us).length + 1) e _ = _
  rw [binaryLoop, show (cur (l.token :: (rs.map Lexeme.token ++ u :: us))).kind = l.1 from rfl, hop]
  refine bind_eq_ok.mpr ⟨(r, u :: us), by rw [advance_append]; exact hr u us hu, ?_⟩
  obtain ⟨n, hn⟩ : ∃ n, (rs.map Lexeme.token ++ u :: us).length = n + 1 :=
    ⟨(rs.map Lexeme.token ++ us).length, by simp; omega⟩
  rw [hn]
  exact binaryLoop_stop (hops _ hu) n _ us

theorem isNullLoop_stop (hu : u.kind ≠ .is) (n : Nat) (left : Expr) (us : List Token) :
    isNullLoop (n + 1) left (u :: us) = .ok (left, u :: us) := by
  exact if_neg hu

theorem Reads.isNullLevel (h : Reads (parseLikeIlike p) ls e stop) (hs : ∀ k, stop k = true → k ≠ .is) :
    Reads (parseIsNull p) ls e stop := by
  intro u us hu
  exact bind_eq_ok.mpr ⟨_, h u us hu, isNullLoop_stop (hs _ hu) us.length e us⟩

/-- The lexemes of `IS [NOT] NULL`. -/
def isNullLexemes (n : Bool) : List Lexeme :=
  if n then [(.is, "IS"), (.not, "NOT"), (.null, "NULL")] else [(.is, "IS"), (.null, "NULL")]

theorem Reads.isNull (h : Reads (parseLikeIlike p) ls e stop') (his : stop' .is = true)
    (hs : ∀ k, stop k = true → k ≠ .is) (n : Bool) :
    Reads (parseIsNull p) (ls ++ isNullLexemes n) (.isNull e n) stop := by
  intro u us hu
  have hstop := fun fuel left => isNullLoop_stop (hs _ hu) fuel left us
  rw [map_append, append_assoc]
  cases n with
  | false | true => exact bind_eq_ok.mpr ⟨_, h ⟨.is, "IS", 0⟩ _ his, hstop _ _⟩

theorem inLoop_stop {value : Parser Expr} (hu : u.kind ≠ .in_) (n : Nat) (left : Expr) (us : List Token) :
    inLoop value (n + 1) left (u :: us) = .ok (left, u :: us) := by
  exact if_neg hu

theorem Reads.inLevel (h : Reads (parseIsNull p) ls e stop) (hs : ∀ k, stop k = true → k ≠ .in_) :
    Reads (parseIn p) ls e stop := by
  intro u us hu
  exact bind_eq_ok.mpr ⟨_, h u us hu, inLoop_stop (hs _ hu) us.length e us⟩

/-- The lexemes of the members of a list, with commas between them. -/
def memberLexemes : List (List Lexeme) → List Lexeme
  | [] => []
  | [m] => m
  | m :: ms => m ++ (.comma, ",") :: memberLexemes ms

theorem length_le_memberLexemes (ms : List (List Lexeme)) : ms.length ≤ (memberLexemes ms).length + 1 := by
  induction ms with
  | nil => simp
  | cons m ms ih =>
    cases ms with
    | nil => simp
    | cons m' ms =>
      rw [memberLexemes, length_append]
      · rw [length_cons, length_cons (a := (TokenKind.comma, ","))]
        omega
      · simp

theorem mem_memberLexemes {ms : List (List Lexeme)} (h : l ∈ memberLexemes ms) :
    l = (.comma, ",") ∨ ∃ m ∈ ms, l ∈ m := by
  induction ms with
  | nil => cases h
  | cons m ms ih =>
    cases ms with
    | nil => exact .inr ⟨m, mem_cons_self, h⟩
    | cons m' ms =>
      rw [memberLexemes, mem_append, mem_cons] at h
      · rcases h with h | h | h
        · exact .inr ⟨m, mem_cons_self, h⟩
        · exact .inl h
        · exact (ih h).imp_right fun ⟨x, hx, hlx⟩ => ⟨x, mem_cons_of_mem m hx, hlx⟩
      · simp

/-- The lexemes of `IN` and its list. -/
def inLexemes (members : List (List Lexeme)) : List Lexeme :=
  (.in_, "IN") :: (.lparen, "(") :: (memberLexemes members ++ [(.rparen, ")")])

variable {items : List (List Lexeme × Expr)}

theorem parseValues_reads {value : Parser Expr} (hcomma : stop' .comma = true) (hrparen : stop' .rparen = true)
    (hne : items ≠ []) (hitems : ∀ i ∈ items, Reads value i.1 i.2 stop') (hu : u.kind = .rparen) (us : List Token)
    {fuel : Nat} (hfuel : items.length ≤ fuel) (acc : List Expr) :
    parseValues value fuel acc ((memberLexemes (items.map Prod.fst)).map Lexeme.token ++ u :: us) =
      .ok (acc ++ items.map Prod.snd, u :: us) := by
  induction items generalizing fuel acc with
  | nil => exact absurd rfl hne
  | cons i items ih =>
    obtain ⟨n, rfl⟩ : ∃ n, fuel = n + 1 := ⟨fuel - 1, by simp at hfuel; omega⟩
    have hi := hitems i mem_cons_self
    cases items with
    | nil =>
      refine bind_eq_ok.mpr ⟨_, hi u us (by rw [hu]; exact hrparen), ?_⟩
      dsimp only
      rw [if_neg]
      · rfl
      · rw [show (cur (u :: us)).kind = .rparen from hu]
        simp
    | cons j items =>
      have hstep := ih (by simp) (fun x hx => hitems x (mem_cons_of_mem i hx))
        (Nat.le_of_succ_le_succ hfuel) (acc ++ [i.2])
      rw [map_cons, map_cons, memberLexemes, map_append, append_assoc, map_cons,
        cons_append]
      · refine bind_eq_ok.mpr ⟨_, hi ⟨.comma, ",", 0⟩ _ hcomma, ?_⟩
        refine (if_pos rfl).trans ?_
        rw [advance_append]
        rw [append_assoc] at hstep
        exact hstep
      · simp

/-- A list with members. -/
theorem Reads.inList (h : Reads (parseIsNull p) ls e stop') (hin : stop' .in_ = true) (hcomma : stop' .comma = true)
    (hrparen : stop' .rparen = true) (hne : items ≠ []) (hitems : ∀ i ∈ items, Reads (parseIsNull p) i.1 i.2 stop')
    (hs : ∀ k, stop k = true → k ≠ .in_) :
    Reads (parseIn p) (ls ++ inLexemes (items.map Prod.fst)) (.inList e (items.map Prod.snd)) stop := by
  intro u us hu
  -- the tokens between the parentheses, and the closing one
  obtain ⟨members, hmembers⟩ : ∃ ms, (memberLexemes (items.map Prod.fst)).map Lexeme.token = ms := ⟨_, rfl⟩
  have htoks : (ls ++ inLexemes (items.map Prod.fst)).map Lexeme.token ++ u :: us =
      ls.map Lexeme.token ++ ⟨.in_, "IN", 0⟩ :: ⟨.lparen, "(", 0⟩ :: (members ++ ⟨.rparen, ")", 0⟩ :: u :: us) := by
    rw [← hmembers]
    simp [inLexemes, Lexeme.token]
  rw [htoks]
  refine bind_eq_ok.mpr ⟨_, h ⟨.in_, "IN", 0⟩ _ hin, ?_⟩
  show inLoop (parseIsNull p) ((members ++ ⟨.rparen, ")", 0⟩ :: u :: us).length + 1 + 1) e _ = _
  refine (if_pos rfl).trans ?_
  have hopen : expect .lparen "'('" (advance (⟨.in_, "IN", 0⟩ :: ⟨.lparen, "(", 0⟩ ::
      (members ++ ⟨.rparen, ")", 0⟩ :: u :: us))) =
        .ok (⟨.lparen, "(", 0⟩, members ++ ⟨.rparen, ")", 0⟩ :: u :: us) := by
    show Except.ok (_, advance (⟨.lparen, "(", 0⟩ :: (members ++ ⟨.rparen, ")", 0⟩ :: u :: us))) = _
    rw [advance_append]
    rfl
  refine bind_eq_ok.mpr ⟨_, hopen, ?_⟩
  have hfuel : items.length ≤ (members ++ ⟨.rparen, ")", 0⟩ :: u :: us).length := by
    have hlen := length_le_memberLexemes (items.map Prod.fst)
    rw [length_map, ← length_map (f := Lexeme.token), hmembers] at hlen
    rw [length_append, length_cons]
    omega
  have hvalues := parseValues_reads hcomma hrparen hne hitems (u := ⟨.rparen, ")", 0⟩) rfl (u :: us) hfuel []
  rw [hmembers] at hvalues
  refine bind_eq_ok.mpr ⟨_, hvalues, bind_eq_ok.mpr ⟨(⟨.rparen, ")", 0⟩, u :: us), rfl, ?_⟩⟩
  exact inLoop_stop (hs _ hu) _ _ us

theorem childOfLoop_stop (hu : treeOps u.kind = none) (n : Nat) (left : Expr) (us : List Token) :
    childOfLoop p (n + 1) left (u :: us) = .ok (left, u :: us) := by
  rw [childOfLoop, show (cur (u :: us)).kind = u.kind from rfl, hu]

theorem Reads.childOfLevel (h : Reads (parseIn p) ls e stop) (hs : ∀ k, stop k = true → treeOps k = none) :
    Reads (parseChildOf p) ls e stop := by
  intro u us hu
  exact bind_eq_ok.mpr ⟨_, h u us hu, childOfLoop_stop (hs _ hu) us.length e us⟩

/-- What does not start with `NOT`. -/
theorem Reads.notLevel (h : Reads (parseChildOf p) (l :: ls) e stop) (hl : l.1 ≠ .not) :
    Reads (parseNot p) (l :: ls) e stop := by
  intro u us hu
  show parseNotFrom (parseChildOf p) (((ls.map Lexeme.token) ++ u :: us).length + 1) _ = _
  exact (if_pos hl).trans (h u us hu)

end

/-! ## Operands -/

/-- The tokens that end an operand. -/
def endsOperand : TokenKind → Bool
  | .and | .or | .eof | .rparen | .comma => true
  | _ => false

theorem endsOperand_ops {k : TokenKind} (h : endsOperand k = true) :
    comparisonOps k = none ∧ likeOps k = none ∧ k ≠ .is ∧ k ≠ .in_ ∧ treeOps k = none := by
  cases k <;> cases h <;> simp [comparisonOps, likeOps, treeOps]

section

variable {inner p : Parser Expr} {l : Lexeme} {ls : List Lexeme} {e : Expr}

/-- The lexemes of `record.f`, for a field name of the given kind. -/
def fieldLexemes (kind : TokenKind) (field : String) : List Lexeme := [(.ident, "record"), (.dot, "."), (kind, field)]

theorem reads_recordField (inner : Parser Expr) (field : String) :
    Reads (parsePrimary inner) (fieldLexemes .ident field) (.recordField field) fun _ => true := fun _ _ _ => rfl

theorem reads_string (inner : Parser Expr) (s : String) :
    Reads (parsePrimary inner) [(.string, s)] (.literal (.string s)) fun _ => true := fun _ _ _ => rfl

theorem Reads.not_of_in (h : Reads (parseIn p) (l :: ls) e endsOperand) (hl : l.1 ≠ .not) :
    Reads (parseNot p) (l :: ls) e endsOperand :=
  (h.childOfLevel fun _ hk => (endsOperand_ops hk).2.2.2.2).notLevel hl

theorem Reads.not_of_isNull (h : Reads (parseIsNull p) (l :: ls) e endsOperand) (hl : l.1 ≠ .not) :
    Reads (parseNot p) (l :: ls) e endsOperand :=
  (h.inLevel fun _ hk => (endsOperand_ops hk).2.2.2.1).not_of_in hl

theorem Reads.not_of_like (h : Reads (parseLikeIlike p) (l :: ls) e endsOperand) (hl : l.1 ≠ .not) :
    Reads (parseNot p) (l :: ls) e endsOperand :=
  (h.isNullLevel fun _ hk => (endsOperand_ops hk).2.2.1).not_of_isNull hl

theorem Reads.not_of_comparison (h : Reads (parseComparison p) (l :: ls) e endsOperand) (hl : l.1 ≠ .not) :
    Reads (parseNot p) (l :: ls) e endsOperand :=
  Reads.not_of_like (h.binaryLevel fun _ hk => (endsOperand_ops hk).2.1) hl

/-- A primary alone, up to the level of `IS NULL`. -/
theorem Reads.isNull_of_primary {stop : TokenKind → Bool} (h : Reads p ls e fun _ => true)
    (hs : ∀ k, stop k = true → comparisonOps k = none ∧ likeOps k = none ∧ k ≠ .is) : Reads (parseIsNull p) ls e stop :=
  Reads.isNullLevel (Reads.binaryLevel (Reads.binaryLevel (h.mono fun _ _ => rfl) fun _ hk => (hs _ hk).1)
    fun _ hk => (hs _ hk).2.1) fun _ hk => (hs _ hk).2.2

end

/-! ## Conjunctions -/

/-- The level reads nothing that starts with `ls`. -/
def Fails (p : Parser Expr) (ls : List Lexeme) : Prop := ∀ us r, p (ls.map Lexeme.token ++ us) ≠ .ok r

theorem bind_ne_ok {ε α β : Type} {x : Except ε α} {f : α → Except ε β} (h : ∀ a, x ≠ .ok a) (b : β) :
    (x >>= f) ≠ .ok b := by
  intro hb
  obtain ⟨a, ha, -⟩ := bind_eq_ok.mp hb
  exact h a ha

/-- A key word is no field name. -/
theorem fails_field {inner : Parser Expr} {kind : TokenKind} (hk : kind ≠ .ident) (field : String)
    (ls : List Lexeme) : Fails (parseNot (parsePrimary inner)) (fieldLexemes kind field ++ ls) := by
  intro us r
  have hprimary : ∀ ts r, parsePrimary inner (⟨.ident, "record", 0⟩ :: ⟨.dot, ".", 0⟩ :: ⟨kind, field, 0⟩ :: ts) ≠
      .ok r := by
    intro ts r hr
    have hattr : parseAttr "field name" .recordField (⟨.dot, ".", 0⟩ :: ⟨kind, field, 0⟩ :: ts) = .ok r := hr
    obtain ⟨⟨_, t1⟩, h1, hattr⟩ := bind_eq_ok.mp hattr
    obtain ⟨⟨_, t2⟩, h2, -⟩ := bind_eq_ok.mp hattr
    obtain ⟨-, -, rfl⟩ := expect_ok h1
    obtain ⟨-, hkind, -⟩ := expect_ok h2
    exact hk hkind
  show parseNotFrom (parseChildOf (parsePrimary inner)) ((_ :: _ :: (ls.map Lexeme.token ++ us)).length + 1) _ ≠ _
  exact bind_ne_ok (bind_ne_ok (bind_ne_ok (bind_ne_ok (bind_ne_ok (hprimary _))))) r

/-- The conjunction of the trees after `left`. -/
def andAll (left : Expr) (es : List Expr) : Expr := es.foldl (.binary .and) left

/-- The lexemes of operands, each after an `AND`. -/
def andLexemes (items : List (List Lexeme × Expr)) : List Lexeme := items.flatMap fun i => (.and, "AND") :: i.1

section

variable {p : Parser Expr} {u : Token} {e : Expr}

/-- What follows an operand of a conjunction ends it. -/
theorem Reads.before_and {ls : List Lexeme} (h : Reads p ls e endsOperand) (items : List (List Lexeme × Expr))
    (hu : u.kind = .eof) (us : List Token) :
    p (ls.map Lexeme.token ++ ((andLexemes items).map Lexeme.token ++ u :: us)) =
      .ok (e, (andLexemes items).map Lexeme.token ++ u :: us) := by
  cases items with
  | nil => exact h u us (by rw [hu]; rfl)
  | cons i items =>
    have hcons : (andLexemes (i :: items)).map Lexeme.token ++ u :: us =
        ⟨.and, "AND", 0⟩ :: (i.1.map Lexeme.token ++ ((andLexemes items).map Lexeme.token ++ u :: us)) := by
      simp [andLexemes, Lexeme.token]
    exact h _ _ rfl

/-- One round of the loop: an `AND` and its operand. -/
theorem binaryLoop_and (items : List (List Lexeme × Expr)) (i : List Lexeme × Expr) (us : List Token)
    (fuel : Nat) (left : Expr) :
    binaryLoop andOps p (fuel + 1) left ((andLexemes (i :: items)).map Lexeme.token ++ u :: us) = (do
      let (right, toks) ← p (i.1.map Lexeme.token ++ ((andLexemes items).map Lexeme.token ++ u :: us))
      binaryLoop andOps p fuel (.binary .and left right) toks) := by
  have hcons : (andLexemes (i :: items)).map Lexeme.token ++ u :: us =
      ⟨.and, "AND", 0⟩ :: ((i.1 ++ andLexemes items).map Lexeme.token ++ u :: us) := by
    simp [andLexemes, Lexeme.token]
  show (do
      let (right, toks) ← p (advance (⟨.and, "AND", 0⟩ :: ((i.1 ++ andLexemes items).map Lexeme.token ++ u :: us)))
      binaryLoop andOps p fuel (.binary .and left right) toks) = _
  rw [advance_append, map_append, append_assoc]

variable {items : List (List Lexeme × Expr)}

theorem binaryLoop_reads (hitems : ∀ i ∈ items, Reads p i.1 i.2 endsOperand)
    (hu : u.kind = .eof) (us : List Token) {fuel : Nat} (hfuel : items.length < fuel) (left : Expr) :
    binaryLoop andOps p fuel left ((andLexemes items).map Lexeme.token ++ u :: us) =
      .ok (andAll left (items.map Prod.snd), u :: us) := by
  induction items generalizing fuel left with
  | nil =>
    obtain ⟨n, rfl⟩ : ∃ n, fuel = n + 1 := ⟨fuel - 1, by omega⟩
    exact binaryLoop_stop (by rw [hu]; rfl) n left us
  | cons i items ih =>
    obtain ⟨n, rfl⟩ : ∃ n, fuel = n + 1 := ⟨fuel - 1, by omega⟩
    rw [binaryLoop_and]
    refine bind_eq_ok.mpr ⟨_, (hitems i mem_cons_self).before_and items hu us, ?_⟩
    exact ih (fun j hj => hitems j (mem_cons_of_mem i hj)) (by simpa using hfuel) _

/-- If the loop succeeds, it reads every operand. -/
theorem binaryLoop_ok (hitems : ∀ i ∈ items, Reads p i.1 i.2 endsOperand ∨ Fails p i.1) (hu : u.kind = .eof)
    (us : List Token) {fuel : Nat} {left : Expr} {r : Expr × List Token}
    (h : binaryLoop andOps p fuel left ((andLexemes items).map Lexeme.token ++ u :: us) = .ok r) :
    ∀ i ∈ items, Reads p i.1 i.2 endsOperand := by
  induction items generalizing fuel left with
  | nil => nofun
  | cons i items ih =>
    cases fuel with
    | zero => cases h
    | succ n =>
      rw [binaryLoop_and] at h
      obtain ⟨⟨right, toks⟩, h1, h⟩ := bind_eq_ok.mp h
      rcases hitems i mem_cons_self with hi | hi
      · rw [hi.before_and items hu us] at h1
        cases h1
        intro j hj
        rcases mem_cons.mp hj with rfl | hj
        · exact hi
        · exact ih (fun j hj => hitems j (mem_cons_of_mem i hj)) h j hj
      · exact absurd h1 (hi _ _)

theorem sourceTokens_append (ls : List Lexeme) (items : List (List Lexeme × Expr)) :
    sourceTokens (ls ++ andLexemes items) =
      ls.map Lexeme.token ++ ((andLexemes items).map Lexeme.token ++ [⟨.eof, "", 0⟩]) := by
  rw [sourceTokens, map_append, append_assoc]

theorem length_le_andLexemes (items : List (List Lexeme × Expr)) : items.length ≤ (andLexemes items).length := by
  induction items with
  | nil => exact Nat.le_refl 0
  | cons i items ih =>
    rw [andLexemes, flatMap_cons, length_append, length_cons, length_cons]
    rw [andLexemes] at ih
    omega

/-- The top level, on a whole text: the level of `AND` decides. -/
theorem parseTokens_eq_ok_iff {ls : List Lexeme} (n : Nat) (hn : ls.length = n) :
    parseTokens (sourceTokens ls) = .ok e ↔
      ∃ rest, parseOr (n + 1) (sourceTokens ls) = .ok (e, rest) ∧ (cur rest).kind = .eof := by
  have hlen : (sourceTokens ls).length = n + 1 := by simp [sourceTokens, hn]
  constructor
  · intro h
    obtain ⟨⟨e', rest⟩, h1, h⟩ := bind_eq_ok.mp h
    dsimp only at h
    split at h
    · rename_i hk
      cases h
      exact ⟨rest, hlen ▸ h1, hk⟩
    · cases h
  · rintro ⟨rest, h1, hk⟩
    rw [← hlen] at h1
    exact bind_eq_ok.mpr ⟨_, h1, if_pos hk⟩

/-- **A printed conjunction is read as the conjunction of its operands.** -/
theorem parseTokens_reads {first : List Lexeme × Expr}
    (hall : ∀ n, ∀ i ∈ first :: items, Reads (parseNot (parsePrimary (parseOr n))) i.1 i.2 endsOperand) :
    parseTokens (sourceTokens (first.1 ++ andLexemes items)) = .ok (andAll first.2 (items.map Prod.snd)) := by
  refine (parseTokens_eq_ok_iff _ rfl).mpr ⟨[⟨.eof, "", 0⟩], ?_, rfl⟩
  generalize (first.1 ++ andLexemes items).length = n
  rw [sourceTokens_append]
  have hfuel : items.length < ((andLexemes items).map Lexeme.token ++ [(⟨.eof, "", 0⟩ : Token)]).length := by
    rw [length_append, length_map, length_singleton]
    exact Nat.lt_succ_of_le (length_le_andLexemes items)
  have hand := binaryLoop_reads (fun i hi => hall n i (mem_cons_of_mem first hi)) (u := ⟨.eof, "", 0⟩) rfl []
    hfuel first.2
  refine bind_eq_ok.mpr ⟨_, bind_eq_ok.mpr ⟨_, (hall n first mem_cons_self).before_and items rfl [], hand⟩, ?_⟩
  exact binaryLoop_stop rfl 0 _ []

/-- A text of operands that parses has only operands that are read. -/
theorem reads_of_parseTokens {first : List Lexeme × Expr}
    (hall : ∀ n, ∀ i ∈ first :: items, Reads (parseNot (parsePrimary (parseOr n))) i.1 i.2 endsOperand ∨
      Fails (parseNot (parsePrimary (parseOr n))) i.1)
    (h : parseTokens (sourceTokens (first.1 ++ andLexemes items)) = .ok e) :
    ∃ n, ∀ i ∈ first :: items, Reads (parseNot (parsePrimary (parseOr n))) i.1 i.2 endsOperand := by
  obtain ⟨rest, h, -⟩ := (parseTokens_eq_ok_iff _ rfl).mp h
  generalize (first.1 ++ andLexemes items).length = n at h
  rw [sourceTokens_append] at h
  obtain ⟨⟨left, t1⟩, h1, -⟩ := bind_eq_ok.mp h
  obtain ⟨⟨left', t2⟩, h2, h1⟩ := bind_eq_ok.mp h1
  refine ⟨n, fun i hi => ?_⟩
  rcases hall n first mem_cons_self with hfirst | hfirst
  · rw [hfirst.before_and items rfl []] at h2
    cases h2
    rcases mem_cons.mp hi with rfl | hi
    · exact hfirst
    · exact binaryLoop_ok (fun j hj => hall n j (mem_cons_of_mem first hj)) rfl [] h1 i hi
  · exact absurd h2 (hfirst _ _)

end

end GoErp.Domain
