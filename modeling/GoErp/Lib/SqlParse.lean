import GoErp.Lib.Number
import GoErp.Lib.SqlLex

/-!
# `Lib.SqlParse` — SQL expressions

Scalar SQL expressions over the tokens of `Lib.SqlLex`: `::` binds tightest, then `IN`, the comparisons (which do not
associate), `IS`, `NOT`, `AND` and `OR`. Each level is a function of the level below it; `expr n` may open `n` nested
parentheses.

`follow` ranks the token after an expression by the level it would continue. An operand that one level reads is read
alike by every level above whose operators do not follow it.
-/

namespace GoErp.Lib.Sql

open List

/-- The comparison operators. -/
inductive CmpOp where
  | eq | ne | lt | gt | le | ge
  deriving DecidableEq, Repr

/-- The terms that the fragments use; `AND` and `OR` associate to the left. -/
inductive Term where
  | col (name : String)
  | str (s : String)
  | num (text : String)
  | bool (b : Bool)
  | null
  | param (n : Nat)
  | call (f : String) (args : List Term)
  | cast (e : Term) (ty : String)
  | inList (e : Term) (vs : List Term)
  | cmp (op : CmpOp) (l r : Term)
  /-- `l op ANY (arr)` -/
  | any (op : CmpOp) (l arr : Term)
  | isNull (e : Term) (neg : Bool)
  | not (e : Term)
  | and (l r : Term)
  | or (l r : Term)
  deriving Repr

/-- A reader: the unread tokens to a result and the tokens it leaves. -/
abbrev Reader (α : Type) := List Tok → Option (α × List Tok)

def cmpOp? : Tok → Option CmpOp
  | .eq => some .eq
  | .ne => some .ne
  | .lt => some .lt
  | .gt => some .gt
  | .le => some .le
  | .ge => some .ge
  | _ => none

/-- Words that are never the name of a column or function. -/
def isReserved (w : String) : Bool := w ∈ ["and", "or", "not", "is", "in", "any"]

/-- Comma-separated expressions up to the closing parenthesis, which is passed. -/
def exprList (expr : Reader Term) : Nat → Reader (List Term)
  | 0, _ => none
  | fuel + 1, toks =>
    match expr toks with
    | some (e, .comma :: toks) => (exprList expr fuel toks).map fun (es, toks) => (e :: es, toks)
    | some (e, .rparen :: toks) => some ([e], toks)
    | _ => none

/-- A word: a constant, a function's name before its arguments, or a column. -/
def wordTerm (expr : Reader Term) (w : String) (toks : List Tok) : Option (Term × List Tok) :=
  if w = "null" then some (.null, toks)
  else if w = "true" then some (.bool true, toks)
  else if w = "false" then some (.bool false, toks)
  else if isReserved w then none
  else match toks with
    | .lparen :: toks => (exprList expr toks.length toks).map fun (args, toks) => (.call w args, toks)
    | _ => some (.col w, toks)

/-- A literal, a name, a call or an expression in parentheses. -/
def primary (expr : Reader Term) : Reader Term
  | .ident s :: toks => some (.col s, toks)
  | .str s :: toks => some (.str s, toks)
  | .num s :: toks => some (.num s, toks)
  | .param d :: toks => some (.param (Number.digitsVal d.toList), toks)
  | .word w :: toks => wordTerm expr w toks
  | .lparen :: toks =>
    match expr toks with
    | some (e, .rparen :: toks) => some (e, toks)
    | _ => none
  | _ => none

/-- `e::ty::…` -/
def castLoop : Nat → Term → Reader Term
  | 0, _, _ => none
  | fuel + 1, e, toks =>
    match toks with
    | .cast :: .word ty :: toks => castLoop fuel (.cast e ty) toks
    | .cast :: _ => none
    | _ => some (e, toks)

def castLevel (expr : Reader Term) : Reader Term := fun toks =>
  match primary expr toks with
  | some (e, toks) => castLoop (toks.length + 1) e toks
  | none => none

/-- `e IN (…)` -/
def inLevel (expr : Reader Term) : Reader Term := fun toks =>
  match castLevel expr toks with
  | some (e, .word w :: .lparen :: toks) =>
    if w = "in" then (exprList expr toks.length toks).map fun (vs, toks) => (.inList e vs, toks)
    else some (e, .word w :: .lparen :: toks)
  | r => r

/-- The right side of a comparison: `ANY (array)` or an operand. -/
def cmpRight (expr : Reader Term) (op : CmpOp) (l : Term) : Reader Term
  | .word w :: .lparen :: toks =>
    if w = "any" then
      match expr toks with
      | some (arr, .rparen :: toks) => some (.any op l arr, toks)
      | _ => none
    else (inLevel expr (.word w :: .lparen :: toks)).map fun (r, toks) => (.cmp op l r, toks)
  | toks => (inLevel expr toks).map fun (r, toks) => (.cmp op l r, toks)

/-- A comparison, which does not associate. -/
def cmpLevel (expr : Reader Term) : Reader Term := fun toks =>
  match inLevel expr toks with
  | some (l, t :: toks) =>
    match cmpOp? t with
    | some op => cmpRight expr op l toks
    | none => some (l, t :: toks)
  | r => r

/-- `e IS [NOT] NULL …` -/
def isLoop : Nat → Term → Reader Term
  | 0, _, _ => none
  | fuel + 1, e, toks =>
    match toks with
    | .word w :: rest =>
      if w = "is" then
        match rest with
        | .word "null" :: toks => isLoop fuel (.isNull e false) toks
        | .word "not" :: .word "null" :: toks => isLoop fuel (.isNull e true) toks
        | _ => none
      else some (e, toks)
    | _ => some (e, toks)

def isLevel (expr : Reader Term) : Reader Term := fun toks =>
  match cmpLevel expr toks with
  | some (e, toks) => isLoop (toks.length + 1) e toks
  | none => none

/-- `NOT` in front of any number of `NOT`s. -/
def notLevel (expr : Reader Term) : Nat → Reader Term
  | 0, _ => none
  | fuel + 1, toks =>
    match toks with
    | .word w :: rest =>
      if w = "not" then (notLevel expr fuel rest).map fun (e, toks) => (.not e, toks)
      else isLevel expr toks
    | _ => isLevel expr toks

/-- The left-associative loop of `AND` and `OR`: the word `w`, then an operand. -/
def wordLoop (w : String) (node : Term → Term → Term) (operand : Reader Term) : Nat → Term → Reader Term
  | 0, _, _ => none
  | fuel + 1, e, toks =>
    match toks with
    | .word w' :: rest =>
      if w' = w then
        match operand rest with
        | some (r, toks) => wordLoop w node operand fuel (node e r) toks
        | none => none
      else some (e, toks)
    | _ => some (e, toks)

/-- Operands joined by a word, from the left. -/
def wordLevel (w : String) (node : Term → Term → Term) (operand : Reader Term) : Reader Term := fun toks =>
  match operand toks with
  | some (e, toks) => wordLoop w node operand (toks.length + 1) e toks
  | none => none

def andLevel (expr : Reader Term) : Reader Term :=
  wordLevel "and" .and fun toks => notLevel expr (toks.length + 1) toks

def orLevel (expr : Reader Term) : Reader Term := wordLevel "or" .or (andLevel expr)

/-- An expression with at most `n` nested parentheses. -/
def expr : Nat → Reader Term
  | 0, _ => none
  | n + 1, toks => orLevel (expr n) toks

/-- The term a text denotes; the whole text must be read. -/
def read (lax : Bool) (t : String) : Option Term :=
  match lex lax t with
  | none => none
  | some toks =>
    match expr (toks.length + 1) toks with
    | some (e, []) => some e
    | _ => none

/-! ## Where a level stops -/

/-- The level the next token would continue; `0` if it continues none. -/
def follow : List Tok → Nat
  | .cast :: _ => 7
  | .word w :: _ =>
    if w = "in" then 6 else if w = "is" then 4 else if w = "and" then 2 else if w = "or" then 1 else 0
  | t :: _ => if (cmpOp? t).isSome then 5 else 0
  | [] => 0

section

variable {p : Reader Term} {toks rest : List Tok} {e : Term} (fuel : Nat)

/-- No level goes on before a token of a lower level; so too for the levels below. -/
theorem castLoop_stop (e : Term) (h : follow rest < 7) : castLoop (fuel + 1) e rest = some (e, rest) := by
  unfold castLoop
  split
  · simp [follow] at h
  · simp [follow] at h
  · rfl

theorem castLevel_of_primary (h : primary p toks = some (e, rest)) (hf : follow rest < 7) :
    castLevel p toks = some (e, rest) := by
  unfold castLevel
  rw [h]
  exact castLoop_stop _ e hf

theorem inLevel_of_castLevel (h : castLevel p toks = some (e, rest)) (hf : follow rest < 6) :
    inLevel p toks = some (e, rest) := by
  unfold inLevel
  rw [h]
  split
  · rename_i e' w toks' heq
    cases heq
    have hw : w ≠ "in" := by
      rintro rfl
      simp [follow] at hf
    rw [if_neg hw]
  · rfl

theorem cmpLevel_of_inLevel (h : inLevel p toks = some (e, rest)) (hf : follow rest < 5) :
    cmpLevel p toks = some (e, rest) := by
  unfold cmpLevel
  rw [h]
  split
  · rename_i l t toks' heq
    cases heq
    have hop : cmpOp? t = none := by
      cases t <;> simp [follow, cmpOp?] at hf ⊢
    rw [hop]
  · rfl

theorem isLoop_stop (e : Term) (h : follow rest < 4) : isLoop (fuel + 1) e rest = some (e, rest) := by
  unfold isLoop
  split
  · rename_i w toks'
    have hw : w ≠ "is" := by
      rintro rfl
      simp [follow] at h
    rw [if_neg hw]
  · rfl

theorem isLevel_of_cmpLevel (h : cmpLevel p toks = some (e, rest)) (hf : follow rest < 4) :
    isLevel p toks = some (e, rest) := by
  unfold isLevel
  rw [h]
  exact isLoop_stop _ e hf

variable {w : String}

theorem notLevel_of_isLevel (h : isLevel p toks = some (e, rest)) : notLevel p (fuel + 1) toks = some (e, rest) := by
  unfold notLevel
  split
  · rename_i w toks'
    have hw : w ≠ "not" := by
      rintro rfl
      cases h
    rw [if_neg hw, h]
  · exact h

theorem wordLoop_stop {node : Term → Term → Term} {operand : Reader Term} (e : Term)
    (h : ∀ toks, rest ≠ .word w :: toks) : wordLoop w node operand (fuel + 1) e rest = some (e, rest) := by
  unfold wordLoop
  split
  · rename_i w' toks'
    have hw : w' ≠ w := by
      rintro rfl
      exact h toks' rfl
    rw [if_neg hw]
  · rfl

theorem wordLevel_of_operand {node : Term → Term → Term} {operand : Reader Term} (h : operand toks = some (e, rest))
    (hf : ∀ toks, rest ≠ .word w :: toks) : wordLevel w node operand toks = some (e, rest) := by
  unfold wordLevel
  rw [h]
  exact wordLoop_stop _ e hf

theorem follow_ne_and (h : follow rest < 2) (toks : List Tok) : rest ≠ .word "and" :: toks := by
  rintro rfl
  simp [follow] at h

theorem follow_ne_or (h : follow rest < 1) (toks : List Tok) : rest ≠ .word "or" :: toks := by
  rintro rfl
  simp [follow] at h

theorem andLevel_of_notLevel (h : notLevel p (toks.length + 1) toks = some (e, rest))
    (hf : follow rest < 2) : andLevel p toks = some (e, rest) :=
  wordLevel_of_operand h (follow_ne_and hf)

theorem orLevel_of_andLevel (h : andLevel p toks = some (e, rest)) (hf : follow rest < 1) :
    orLevel p toks = some (e, rest) :=
  wordLevel_of_operand h (follow_ne_or hf)

theorem orLevel_of_notLevel (h : notLevel p (toks.length + 1) toks = some (e, rest))
    (hf : follow rest < 1) : orLevel p toks = some (e, rest) :=
  orLevel_of_andLevel (andLevel_of_notLevel h (by omega)) hf

theorem orLevel_of_isLevel (h : isLevel p toks = some (e, rest)) (hf : follow rest < 1) :
    orLevel p toks = some (e, rest) :=
  orLevel_of_notLevel (notLevel_of_isLevel _ h) hf

theorem isLevel_of_castLevel (h : castLevel p toks = some (e, rest)) (hf : follow rest < 4) :
    isLevel p toks = some (e, rest) :=
  isLevel_of_cmpLevel (cmpLevel_of_inLevel (inLevel_of_castLevel h (by omega)) (by omega)) hf

/-- An operand before a token that ends the expression is the expression. -/
theorem orLevel_of_castLevel (h : castLevel p toks = some (e, rest)) (hf : follow rest < 1) :
    orLevel p toks = some (e, rest) :=
  orLevel_of_isLevel (isLevel_of_castLevel h (by omega)) hf

end

/-! ## One lemma for each construct -/

/-- With parentheses nested at most `n` deep, `toks` is an operand that denotes `e`, whatever follows it
    but a cast. -/
def Reads (n : Nat) (toks : List Tok) (e : Term) : Prop :=
  ∀ rest, follow rest < 7 → castLevel (expr n) (toks ++ rest) = some (e, rest)

/-- `toks` is the inside of parentheses: followed by a token that continues nothing it denotes `e`. -/
def ReadsInside (n : Nat) (toks : List Tok) (e : Term) : Prop :=
  ∀ rest, follow rest < 1 → expr n (toks ++ rest) = some (e, rest)

section

variable {n : Nat} {a b : List Tok} {l r : Term}

/-- An operand is an expression, one nesting further in. -/
theorem Reads.inside (h : Reads n a l) : ReadsInside (n + 1) a l :=
  fun rest hf => orLevel_of_castLevel (h rest (by omega)) hf

/-- What `primary` reads, every level reads. -/
theorem reads_of_primary {t : List Tok} {e : Term}
    (h : ∀ rest, follow rest < 7 → primary (expr n) (t ++ rest) = some (e, rest)) : Reads n t e :=
  fun rest hf => castLevel_of_primary (h rest hf) hf

theorem reads_ident (n : Nat) (s : String) : Reads n [.ident s] (.col s) :=
  reads_of_primary fun _ _ => rfl

theorem reads_str (n : Nat) (s : String) : Reads n [.str s] (.str s) :=
  reads_of_primary fun _ _ => rfl

theorem reads_num (n : Nat) (s : String) : Reads n [.num s] (.num s) :=
  reads_of_primary fun _ _ => rfl

theorem reads_param (n : Nat) (d : String) : Reads n [.param d] (.param (Number.digitsVal d.toList)) :=
  reads_of_primary fun _ _ => rfl

theorem reads_null (n : Nat) : Reads n [.word "null"] .null :=
  reads_of_primary fun _ _ => rfl

theorem reads_true (n : Nat) : Reads n [.word "true"] (.bool true) :=
  reads_of_primary fun _ _ => rfl

theorem reads_false (n : Nat) : Reads n [.word "false"] (.bool false) :=
  reads_of_primary fun _ _ => rfl

/-- An expression in parentheses is an operand. -/
theorem ReadsInside.paren (h : ReadsInside n a l) : Reads n (.lparen :: (a ++ [.rparen])) l :=
  reads_of_primary fun rest _ => by
    have := h (.rparen :: rest) (by simp [follow, cmpOp?])
    simp [primary, this]

variable {op : CmpOp} {rest toks : List Tok}

theorem cmpRight_operand {p : Reader Term} (h : inLevel p toks = some (r, rest)) :
    cmpRight p op l toks = some (.cmp op l r, rest) := by
  unfold cmpRight
  split
  · rename_i w toks'
    have hw : w ≠ "any" := by
      rintro rfl
      have hp : primary p (.word "any" :: .lparen :: toks') = none := rfl
      simp [inLevel, castLevel, hp] at h
    rw [if_neg hw, h]
    rfl
  · rw [h]
    rfl

variable {t : Tok}

theorem cmpLevel_op {p : Reader Term} {u : List Tok} (ht : cmpOp? t = some op) (h : inLevel p toks = some (l, t :: u)) :
    cmpLevel p toks = cmpRight p op l u := by
  unfold cmpLevel
  rw [h]
  dsimp only
  rw [ht]

theorem follow_cmpOp (ht : cmpOp? t = some op) (toks : List Tok) : follow (t :: toks) = 5 := by
  cases t <;> simp_all [follow, cmpOp?]

/-- `l op r`, for two operands. -/
theorem Reads.cmp (ht : cmpOp? t = some op) (hl : Reads n a l) (hr : Reads n b r) :
    ReadsInside (n + 1) (a ++ t :: b) (.cmp op l r) := by
  intro rest hf
  have hleft := inLevel_of_castLevel (hl (t :: (b ++ rest)) (by rw [follow_cmpOp ht]; omega))
    (by rw [follow_cmpOp ht]; omega)
  have hright := inLevel_of_castLevel (hr rest (by omega)) (by omega)
  have hcmp := (cmpLevel_op ht hleft).trans (cmpRight_operand hright)
  rw [append_assoc, cons_append]
  exact orLevel_of_isLevel (isLevel_of_cmpLevel hcmp (by omega)) hf

/-- `l op ANY (arr)`. -/
theorem Reads.any (ht : cmpOp? t = some op) (hl : Reads n a l) (hr : ReadsInside n b r) :
    ReadsInside (n + 1) (a ++ t :: .word "any" :: .lparen :: (b ++ [.rparen])) (.any op l r) := by
  intro rest hf
  have hleft := inLevel_of_castLevel
    (hl (t :: .word "any" :: .lparen :: (b ++ .rparen :: rest)) (by rw [follow_cmpOp ht]; omega))
    (by rw [follow_cmpOp ht]; omega)
  have hright : cmpRight (expr n) op l (.word "any" :: .lparen :: (b ++ .rparen :: rest)) =
      some (.any op l r, rest) := by
    have := hr (.rparen :: rest) (by simp [follow, cmpOp?])
    simp [cmpRight, this]
  have hcmp := (cmpLevel_op ht hleft).trans hright
  have hshape : a ++ t :: .word "any" :: .lparen :: (b ++ [.rparen]) ++ rest =
      a ++ t :: .word "any" :: .lparen :: (b ++ .rparen :: rest) := by simp
  rw [hshape]
  exact orLevel_of_isLevel (isLevel_of_cmpLevel hcmp (by omega)) hf

/-- `l IS [NOT] NULL`. -/
theorem Reads.isNull (hl : Reads n a l) (neg : Bool) :
    ReadsInside (n + 1) (a ++ .word "is" :: ((if neg then [.word "not"] else []) ++ [.word "null"]))
      (.isNull l neg) := by
  intro rest hf
  have hlevel : ∀ u, cmpLevel (expr n) (a ++ .word "is" :: u) = some (l, .word "is" :: u) := fun u =>
    cmpLevel_of_inLevel (inLevel_of_castLevel (hl _ (by simp [follow])) (by simp [follow]))
      (by simp [follow])
  have his : isLevel (expr n)
      (a ++ .word "is" :: ((if neg then [.word "not"] else []) ++ [.word "null"]) ++ rest) =
      some (.isNull l neg, rest) := by
    unfold isLevel
    rw [append_assoc, cons_append, hlevel]
    have hstop : follow rest < 4 := by omega
    cases neg with
    | false => exact isLoop_stop _ _ hstop
    | true => exact isLoop_stop _ _ hstop
  exact orLevel_of_isLevel his hf

/-- What `AND` reads on each side. -/
theorem Reads.notLevel (hl : Reads n a l) (hf : follow rest < 4) :
    Sql.notLevel (expr n) ((a ++ rest).length + 1) (a ++ rest) = some (l, rest) :=
  notLevel_of_isLevel _ (isLevel_of_castLevel (hl rest (by omega)) hf)

/-- What `OR` reads on each side. -/
theorem Reads.andLevel (hl : Reads n a l) (hf : follow rest < 2) : Sql.andLevel (expr n) (a ++ rest) = some (l, rest) :=
  andLevel_of_notLevel (hl.notLevel (by omega)) hf

theorem Reads.not (hl : Reads n a l) : ReadsInside (n + 1) (.word "not" :: a) (.not l) := by
  intro rest hf
  refine orLevel_of_notLevel ?_ hf
  have hop := hl.notLevel (show follow rest < 4 by omega)
  show (Sql.notLevel (expr n) ((a ++ rest).length + 1) (a ++ rest)).map _ = _
  rw [hop]
  rfl

/-- A chain of operands joined by a word, after the first operand. -/
def wordChain (w : String) (items : List (List Tok)) : List Tok :=
  items.flatMap fun t => .word w :: t

variable {items : List (List Tok × Term)}

/-- The loop of `AND` or `OR` reads a whole chain, associating to the left. -/
theorem wordLoop_chain {w : String} {node : Term → Term → Term} {operand : Reader Term} {fuel : Nat}
    (hitem : ∀ i ∈ items, ∀ u, (u = rest ∨ ∃ v, u = .word w :: v) → operand (i.1 ++ u) = some (i.2, u))
    (hrest : ∀ toks, rest ≠ .word w :: toks) (hfuel : items.length < fuel) (e : Term) :
    wordLoop w node operand fuel e (wordChain w (items.map Prod.fst) ++ rest) =
      some ((items.map Prod.snd).foldl node e, rest) := by
  induction items generalizing fuel e with
  | nil =>
    obtain ⟨fuel, rfl⟩ : ∃ k, fuel = k + 1 := ⟨fuel - 1, by simp at hfuel; omega⟩
    exact wordLoop_stop fuel e hrest
  | cons i is ih =>
    obtain ⟨fuel, rfl⟩ : ∃ k, fuel = k + 1 := ⟨fuel - 1, by simp at hfuel; omega⟩
    have hnext : wordChain w (is.map Prod.fst) ++ rest = rest ∨
        ∃ v, wordChain w (is.map Prod.fst) ++ rest = .word w :: v := by
      cases is with
      | nil => exact .inl rfl
      | cons j js => exact .inr ⟨_, rfl⟩
    have hhead := hitem i (by simp) _ hnext
    have hlt : is.length < fuel := by simp at hfuel; omega
    have htail := ih (fun j hj => hitem j (mem_cons_of_mem i hj)) hlt (node e i.2)
    have hshape : wordChain w ((i :: is).map Prod.fst) ++ rest =
        .word w :: (i.1 ++ (wordChain w (is.map Prod.fst) ++ rest)) := by
      simp [wordChain]
    rw [hshape]
    simp only [wordLoop, if_true]
    rw [hhead]
    exact htail

theorem wordChain_length (w : String) (items : List (List Tok)) : items.length ≤ (wordChain w items).length := by
  induction items with
  | nil => exact Nat.le_refl _
  | cons t ts ih => simp [wordChain] at ih ⊢; omega

/-- A whole chain, if every operand is read up to the next word or the end. -/
theorem wordLevel_chain {w : String} {node : Term → Term → Term} {operand : Reader Term}
    (hl : ∀ u, (u = rest ∨ ∃ v, u = .word w :: v) → operand (a ++ u) = some (l, u))
    (hitem : ∀ i ∈ items, ∀ u, (u = rest ∨ ∃ v, u = .word w :: v) → operand (i.1 ++ u) = some (i.2, u))
    (hrest : ∀ toks, rest ≠ .word w :: toks) :
    wordLevel w node operand (a ++ wordChain w (items.map Prod.fst) ++ rest) =
      some ((items.map Prod.snd).foldl node l, rest) := by
  have hhead : operand (a ++ (wordChain w (items.map Prod.fst) ++ rest)) =
      some (l, wordChain w (items.map Prod.fst) ++ rest) := by
    apply hl
    cases items with
    | nil => exact .inl rfl
    | cons i is => exact .inr ⟨_, rfl⟩
  have hlen := wordChain_length w (items.map Prod.fst)
  unfold wordLevel
  rw [append_assoc, hhead]
  refine wordLoop_chain hitem hrest ?_ l
  rw [length_map] at hlen
  rw [length_append]
  omega

/-- `a OR b OR …` -/
theorem Reads.orChain (hl : Reads n a l) (hitems : ∀ i ∈ items, Reads n i.1 i.2) :
    ReadsInside (n + 1) (a ++ wordChain "or" (items.map Prod.fst)) ((items.map Prod.snd).foldl .or l) := by
  intro rest hf
  have hstop : ∀ u, (u = rest ∨ ∃ v, u = .word "or" :: v) → follow u < 2 := by
    rintro u (rfl | ⟨v, rfl⟩)
    · omega
    · simp [follow]
  exact wordLevel_chain (fun u hu => hl.andLevel (hstop u hu))
    (fun i hi u hu => (hitems i hi).andLevel (hstop u hu)) (follow_ne_or hf)

/-- `a AND b AND …` -/
theorem Reads.andChain (hl : Reads n a l) (hitems : ∀ i ∈ items, Reads n i.1 i.2) :
    ReadsInside (n + 1) (a ++ wordChain "and" (items.map Prod.fst)) ((items.map Prod.snd).foldl .and l) := by
  intro rest hf
  have hstop : ∀ u, (u = rest ∨ ∃ v, u = .word "and" :: v) → follow u < 4 := by
    rintro u (rfl | ⟨v, rfl⟩)
    · omega
    · simp [follow]
  refine orLevel_of_andLevel ?_ hf
  exact wordLevel_chain (fun u hu => hl.notLevel (hstop u hu))
    (fun i hi u hu => (hitems i hi).notLevel (hstop u hu)) (follow_ne_and (by omega))

theorem Reads.or (hl : Reads n a l) (hr : Reads n b r) : ReadsInside (n + 1) (a ++ .word "or" :: b) (.or l r) := by
  have h : ReadsInside (n + 1) (a ++ wordChain "or" ([(b, r)].map Prod.fst)) _ :=
    hl.orChain (by simpa using hr)
  simpa [wordChain] using h

theorem Reads.and (hl : Reads n a l) (hr : Reads n b r) : ReadsInside (n + 1) (a ++ .word "and" :: b) (.and l r) := by
  have h : ReadsInside (n + 1) (a ++ wordChain "and" ([(b, r)].map Prod.fst)) _ :=
    hl.andChain (by simpa using hr)
  simpa [wordChain] using h

/-- Comma-separated expressions and the closing parenthesis. -/
def commaList : List (List Tok) → List Tok
  | [] => [.rparen]
  | [t] => t ++ [.rparen]
  | t :: u :: ts => t ++ .comma :: commaList (u :: ts)

/-- The loop over a list reads item by item; the fuel is the number of items. -/
theorem exprList_reads (hne : items ≠ []) (hitems : ∀ i ∈ items, ReadsInside n i.1 i.2) {fuel : Nat}
    (hfuel : items.length ≤ fuel) (rest : List Tok) :
    exprList (expr n) fuel (commaList (items.map Prod.fst) ++ rest) =
      some (items.map Prod.snd, rest) := by
  induction items generalizing fuel with
  | nil => exact absurd rfl hne
  | cons i is ih =>
    obtain ⟨fuel, rfl⟩ : ∃ k, fuel = k + 1 := ⟨fuel - 1, by simp at hfuel; omega⟩
    have hi := hitems i (by simp)
    cases is with
    | nil =>
      have hread := hi (.rparen :: rest) (by simp [follow, cmpOp?])
      simp [commaList, exprList, hread]
    | cons j js =>
      have hread := hi (.comma :: (commaList ((j :: js).map Prod.fst) ++ rest)) (by simp [follow, cmpOp?])
      have hle : (j :: js).length ≤ fuel := by simp at hfuel ⊢; omega
      have htail := ih (by simp) (fun k hk => hitems k (mem_cons_of_mem i hk)) hle
      have hshape : commaList ((i :: j :: js).map Prod.fst) ++ rest =
          i.1 ++ .comma :: (commaList ((j :: js).map Prod.fst) ++ rest) := by
        simp [commaList]
      rw [hshape, exprList, hread]
      dsimp only
      rw [htail]
      rfl

theorem commaList_length {items : List (List Tok)} (hne : items ≠ []) : items.length ≤ (commaList items).length := by
  induction items with
  | nil => exact absurd rfl hne
  | cons t ts ih =>
    cases ts with
    | nil => simp [commaList]
    | cons u us =>
      have := ih (by simp)
      simp [commaList] at this ⊢
      omega

theorem exprList_commaList (hne : items ≠ []) (hitems : ∀ i ∈ items, ReadsInside n i.1 i.2) (rest : List Tok) :
    exprList (expr n) (commaList (items.map Prod.fst) ++ rest).length
      (commaList (items.map Prod.fst) ++ rest) = some (items.map Prod.snd, rest) := by
  have hlen : (items.map Prod.fst).length ≤ (commaList (items.map Prod.fst)).length :=
    commaList_length (by simpa using hne)
  rw [length_map] at hlen
  refine exprList_reads hne hitems ?_ rest
  rw [length_append]
  omega

/-- `a IN (…)` -/
theorem Reads.inList (hl : Reads n a l) (hne : items ≠ []) (hitems : ∀ i ∈ items, ReadsInside n i.1 i.2) :
    ReadsInside (n + 1) (a ++ .word "in" :: .lparen :: commaList (items.map Prod.fst))
      (.inList l (items.map Prod.snd)) := by
  intro rest hf
  have hcast := hl (.word "in" :: .lparen :: (commaList (items.map Prod.fst) ++ rest)) (by simp [follow])
  have hin : inLevel (expr n)
      (a ++ .word "in" :: .lparen :: (commaList (items.map Prod.fst) ++ rest)) =
      some (.inList l (items.map Prod.snd), rest) := by
    unfold inLevel
    rw [hcast]
    show (exprList (expr n) _ _).map _ = _
    rw [exprList_commaList hne hitems]
    rfl
  rw [append_assoc]
  exact orLevel_of_isLevel (isLevel_of_cmpLevel (cmpLevel_of_inLevel hin (by omega)) (by omega)) hf

/-- `f(…)`, for a name that is not a key word. -/
theorem primary_call {f : String} (hf : isReserved f = false) (hc : f ≠ "null" ∧ f ≠ "true" ∧ f ≠ "false")
    (hne : items ≠ []) (hitems : ∀ i ∈ items, ReadsInside n i.1 i.2) (rest : List Tok) :
    primary (expr n) (.word f :: .lparen :: commaList (items.map Prod.fst) ++ rest) =
      some (.call f (items.map Prod.snd), rest) := by
  obtain ⟨hnull, htrue, hfalse⟩ := hc
  show wordTerm (expr n) f (.lparen :: (commaList (items.map Prod.fst) ++ rest)) = _
  unfold wordTerm
  rw [if_neg hnull, if_neg htrue, if_neg hfalse, hf]
  show (exprList (expr n) _ _).map _ = _
  rw [exprList_commaList hne hitems]
  rfl

/-- `a::ty` -/
theorem reads_cast {ty : String} (h : ∀ rest, primary (expr n) (a ++ rest) = some (l, rest)) :
    Reads n (a ++ [.cast, .word ty]) (.cast l ty) := by
  intro rest hf
  unfold castLevel
  rw [append_assoc, h]
  exact castLoop_stop _ _ hf

/-- A text whose tokens denote a term is read as that term. -/
theorem read_of_readsInside {lax : Bool} {t : String} {e : Term} (ht : LexesTo lax t.toList toks)
    (h : ReadsInside (toks.length + 1) toks e) : read lax t = some e := by
  have hexpr := h [] (by simp [follow])
  rw [append_nil] at hexpr
  unfold read
  rw [ht.lex]
  dsimp only
  rw [hexpr]

end

/-! ## Where the numerals of a term come from -/

mutual

/-- The numerals of a term. -/
def Term.nums : Term → List String
  | .num text => [text]
  | .call _ args => numsList args
  | .cast e _ => e.nums
  | .inList e vs => e.nums ++ numsList vs
  | .cmp _ l r => l.nums ++ r.nums
  | .any _ l arr => l.nums ++ arr.nums
  | .isNull e _ => e.nums
  | .not e => e.nums
  | .and l r => l.nums ++ r.nums
  | .or l r => l.nums ++ r.nums
  | _ => []

def numsList : List Term → List String
  | [] => []
  | t :: ts => t.nums ++ numsList ts

end

/-- A result read from `toks`: its numerals are tokens of `toks`, and what is left is the end of `toks`. -/
structure Drawn (toks rest : List Tok) (nums : List String) : Prop where
  nums : ∀ s ∈ nums, .num s ∈ toks
  rest : rest <:+ toks

/-- Every result of the reader is drawn from its tokens. -/
def Draws (p : Reader Term) : Prop := ∀ ⦃toks e rest⦄, p toks = some (e, rest) → Drawn toks rest e.nums

namespace Drawn

variable {toks mid rest : List Tok} {xs ys : List String}

theorem refl (toks : List Tok) : Drawn toks toks [] := ⟨by simp, suffix_refl _⟩

/-- What is drawn before and what is drawn after, in order. -/
theorem trans (h1 : Drawn toks mid xs) (h2 : Drawn mid rest ys) : Drawn toks rest (xs ++ ys) := by
  refine ⟨fun s hs => ?_, h2.rest.trans h1.rest⟩
  rcases mem_append.mp hs with hs | hs
  · exact h1.nums s hs
  · exact h1.rest.subset (h2.nums s hs)

theorem skip {t : Tok} (h : Drawn toks rest xs) : Drawn (t :: toks) rest xs :=
  ⟨fun s hs => mem_cons_of_mem t (h.nums s hs), h.rest.trans (suffix_cons t toks)⟩

theorem drop {t : Tok} (h : Drawn toks (t :: rest) xs) : Drawn toks rest xs :=
  ⟨h.nums, (suffix_cons t rest).trans h.rest⟩

end Drawn

section

variable {p : Reader Term} {fuel : Nat} {toks rest : List Tok}

theorem exprList_draws (hp : Draws p) {es : List Term} (h : exprList p fuel toks = some (es, rest)) :
    Drawn toks rest (numsList es) := by
  induction fuel generalizing toks es with
  | zero => cases h
  | succ fuel ih =>
    unfold exprList at h
    split at h
    · rename_i e toks' he
      obtain ⟨⟨es', rest'⟩, htail, heq⟩ := Option.map_eq_some_iff.mp h
      cases heq
      exact (hp he).drop.trans (ih htail)
    · rename_i e toks' he
      cases h
      simpa [numsList] using (hp he).drop
    · cases h

/-- The numerals of a primary are taken from the tokens it has passed. -/
theorem primary_draws (hp : Draws p) : Draws (primary p) := by
  intro toks e rest h
  unfold primary at h
  split at h
  iterate 2
    cases h; exact (Drawn.refl _).skip
  · cases h; exact ⟨by simp [Term.nums], suffix_cons _ _⟩
  · cases h; exact (Drawn.refl _).skip
  · refine Drawn.skip ?_
    unfold wordTerm at h
    split at h
    · cases h; exact Drawn.refl _
    split at h
    · cases h; exact Drawn.refl _
    split at h
    · cases h; exact Drawn.refl _
    split at h
    · cases h
    split at h
    · obtain ⟨⟨args, rest'⟩, hargs, heq⟩ := Option.map_eq_some_iff.mp h
      cases heq
      exact (exprList_draws hp hargs).skip
    · cases h; exact Drawn.refl _
  · split at h
    · rename_i e' toks' he
      cases h
      exact (hp he).drop.skip
    · cases h
  · cases h

variable {e' : Term} {start : List Tok} {e : Term}

theorem castLoop_draws (hs : Drawn start toks e.nums) (h : castLoop fuel e toks = some (e', rest)) :
    Drawn start rest e'.nums := by
  induction fuel generalizing e toks with
  | zero => cases h
  | succ fuel ih =>
    unfold castLoop at h
    split at h
    · rename_i ty toks'
      have hc : Drawn start toks' (Term.cast e ty).nums := hs.drop.drop
      exact ih hc h
    · cases h
    · cases h
      exact hs

theorem castLevel_draws (hp : Draws p) : Draws (castLevel p) := by
  intro toks e rest h
  unfold castLevel at h
  split at h
  · rename_i e' toks' he
    exact castLoop_draws (primary_draws hp he) h
  · cases h

theorem inLevel_draws (hp : Draws p) : Draws (inLevel p) := by
  intro toks e rest h
  unfold inLevel at h
  split at h
  · rename_i e' w toks' he
    have hd := castLevel_draws hp he
    split at h
    · obtain ⟨⟨vs, rest'⟩, hvs, heq⟩ := Option.map_eq_some_iff.mp h
      cases heq
      exact hd.drop.drop.trans (exprList_draws hp hvs)
    · cases h
      exact hd
  · exact castLevel_draws hp h

/-- The right side of a comparison draws its own numerals, after those of the left. -/
theorem cmpRight_draws (hp : Draws p) {op : CmpOp} {l : Term} (h : cmpRight p op l toks = some (e, rest)) :
    ∃ r : List String, e.nums = l.nums ++ r ∧ Drawn toks rest r := by
  unfold cmpRight at h
  split at h
  · split at h
    · split at h
      · rename_i arr toks' harr
        cases h
        exact ⟨arr.nums, rfl, (hp harr).drop.skip.skip⟩
      · cases h
    obtain ⟨⟨r, rest'⟩, hr, heq⟩ := Option.map_eq_some_iff.mp h
    cases heq
    exact ⟨r.nums, rfl, inLevel_draws hp hr⟩
  · obtain ⟨⟨r, rest'⟩, hr, heq⟩ := Option.map_eq_some_iff.mp h
    cases heq
    exact ⟨r.nums, rfl, inLevel_draws hp hr⟩

theorem cmpLevel_draws (hp : Draws p) : Draws (cmpLevel p) := by
  intro toks e rest h
  unfold cmpLevel at h
  split at h
  · rename_i l t toks' hl
    have hd := inLevel_draws hp hl
    split at h
    · obtain ⟨r, hnums, hr⟩ := cmpRight_draws hp h
      rw [hnums]
      exact hd.drop.trans hr
    · cases h
      exact hd
  · exact inLevel_draws hp h

theorem isLoop_draws (hs : Drawn start toks e.nums) (h : isLoop fuel e toks = some (e', rest)) :
    Drawn start rest e'.nums := by
  induction fuel generalizing e toks with
  | zero => cases h
  | succ fuel ih =>
    unfold isLoop at h
    split at h
    · split at h
      · split at h
        · rename_i toks'
          have hc : Drawn start toks' (Term.isNull e false).nums := hs.drop.drop
          exact ih hc h
        · rename_i toks'
          have hc : Drawn start toks' (Term.isNull e true).nums := hs.drop.drop.drop
          exact ih hc h
        · cases h
      · cases h
        exact hs
    · cases h
      exact hs

theorem isLevel_draws (hp : Draws p) : Draws (isLevel p) := by
  intro toks e rest h
  unfold isLevel at h
  split at h
  · rename_i e' toks' he
    exact isLoop_draws (cmpLevel_draws hp he) h
  · cases h

theorem notLevel_draws (hp : Draws p) (fuel : Nat) : Draws (notLevel p fuel) := by
  induction fuel with
  | zero =>
    intro toks e rest h
    cases h
  | succ fuel ih =>
    intro toks e rest h
    unfold notLevel at h
    split at h
    · split at h
      · obtain ⟨⟨e', rest'⟩, he, heq⟩ := Option.map_eq_some_iff.mp h
        cases heq
        exact (ih he).skip
      · exact isLevel_draws hp h
    · exact isLevel_draws hp h

/-- The loop of a binary level draws what its operands draw. -/
theorem wordLoop_draws {w : String} {node : Term → Term → Term} {operand : Reader Term}
    (hn : ∀ l r, (node l r).nums = l.nums ++ r.nums) (ho : Draws operand) (hs : Drawn start toks e.nums)
    (h : wordLoop w node operand fuel e toks = some (e', rest)) : Drawn start rest e'.nums := by
  induction fuel generalizing e toks with
  | zero => cases h
  | succ fuel ih =>
    unfold wordLoop at h
    split at h
    · split at h
      · split at h
        · rename_i r toks' hr
          refine ih ?_ h
          rw [hn]
          exact hs.drop.trans (ho hr)
        · cases h
      · cases h
        exact hs
    · cases h
      exact hs

theorem wordLevel_draws {w : String} {node : Term → Term → Term} {operand : Reader Term}
    (hn : ∀ l r, (node l r).nums = l.nums ++ r.nums) (ho : Draws operand) : Draws (wordLevel w node operand) := by
  intro toks e rest h
  unfold wordLevel at h
  split at h
  · rename_i e' toks' he
    exact wordLoop_draws hn ho (ho he) h
  · cases h

/-- At every nesting an expression draws its numerals from the tokens it has passed. -/
theorem expr_draws (n : Nat) : Draws (expr n) := by
  induction n with
  | zero =>
    intro toks e rest h
    cases h
  | succ n ih =>
    have hnot : Draws fun toks => notLevel (expr n) (toks.length + 1) toks :=
      fun _ _ _ h => notLevel_draws ih _ h
    have hand : Draws (andLevel (expr n)) := wordLevel_draws (fun _ _ => by rfl) hnot
    have hor : Draws (orLevel (expr n)) := wordLevel_draws (fun _ _ => by rfl) hand
    exact hor

end

/-- The numerals of a term that was read are number tokens of the text. -/
theorem read_nums {lax : Bool} {t : String} {e : Term} (h : read lax t = some e) :
    ∃ toks, lex lax t = some toks ∧ ∀ s ∈ e.nums, .num s ∈ toks := by
  unfold read at h
  split at h
  · cases h
  rename_i toks htoks
  split at h
  · rename_i e' he
    cases h
    exact ⟨toks, htoks, (expr_draws _ he).nums⟩
  · cases h

end GoErp.Lib.Sql
