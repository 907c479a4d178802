import GoErp.Domain.CompileRls

/-!
# `Domain.RlsRead` — reading a policy text back

`rlsReader` reads a policy text with SQL's tokens and precedences and takes the term apart again. On a
compiled condition it returns the condition, so the text holds nothing but the condition
(`rlsReader_compileRLS`). SQL's numerals have one point at most while the lexer lets any number through:
a condition with such a literal compiles to a text SQL does not read at all.
-/

namespace GoErp.Domain

open Lib Lib.Sql List

def CmpOp.binOp : CmpOp → BinOp
  | .eq => .eq
  | .ne => .ne
  | .lt => .lt
  | .gt => .gt
  | .le => .le
  | .ge => .ge

/-- The session variable a `current_setting` call reads. -/
def decodeSetting : Term → Option String
  | .call "current_setting" [.str setting, .bool true] => some setting
  | _ => none

/-- `NULLIF(current_setting(…), '')`. -/
def decodeAttr : Term → Option Expr
  | .call "nullif" [s, .str ""] =>
    match decodeSetting s with
    | some "app.current_user_id" => some (.userAttr "id")
    | some "app.current_user_contact_id" => some (.userAttr "contact_id")
    | _ => none
  | _ => none

/-- `string_to_array(COALESCE(current_setting(…), ''), ',')`, for the name that is looked up. -/
def decodeMembers (name : String) : Term → Option Expr
  | .call "string_to_array" [.call "coalesce" [s, .str ""], .str ","] =>
    match decodeSetting s with
    | some "app.current_user_roles" => some (.roleCheck name)
    | some "app.current_user_permissions" => some (.permCheck name)
    | _ => none
  | _ => none

def decodeAny : CmpOp → Term → Term → Option Expr
  | .eq, .str name, arr => decodeMembers name arr
  | _, _, _ => none

mutual

/-- The condition a term was compiled from. -/
def decode : Term → Option Expr
  | .col name => some (.recordField name)
  | .str s => some (.literal (.string s))
  | .num text => some (.literal (.number text))
  | .bool b => some (.literal (.bool b))
  | .null => some (.literal .null)
  | .cast e ty => if ty = "uuid" then decodeAttr e else none
  | .any op l arr => decodeAny op l arr
  | .inList e vs => do
    let operand ← decode e
    let values ← decodeList vs
    some (.inList operand values)
  | .cmp op l r => do
    let left ← decode l
    let right ← decode r
    some (.binary (CmpOp.binOp op) left right)
  | .isNull e neg => do
    let operand ← decode e
    some (.isNull operand neg)
  | .not e => do
    let operand ← decode e
    some (.not operand)
  | .and l r => do
    let left ← decode l
    let right ← decode r
    some (.binary .and left right)
  | .or l r => do
    let left ← decode l
    let right ← decode r
    some (.binary .or left right)
  | .call _ _ => none
  | .param _ => none

def decodeList : List Term → Option (List Expr)
  | [] => some []
  | t :: ts => do
    let v ← decode t
    let vs ← decodeList ts
    some (v :: vs)

end

/-- The condition a policy text stands for, read with SQL's tokens; `lax` lets numerals run over all
    their points. -/
def rlsReader (lax : Bool) (t : String) : Option Expr := (read lax t).bind decode

/-! ## A compiled condition is its own term, taken apart -/

theorem decode_binaryTerm {op : BinOp} {l r : Term} {left right : Expr} (hop : op ≠ .like ∧ op ≠ .ilike)
    (hl : decode l = some left) (hr : decode r = some right) :
    decode (binaryTerm op l r) = some (.binary op left right) := by
  cases op with
  | like => exact absurd rfl hop.1
  | ilike => exact absurd rfl hop.2
  | _ => simp [binaryTerm, BinOp.cmp?, decode, hl, hr, CmpOp.binOp]

theorem decodeList_rlsTerms {values : List Expr} (h : ∀ v ∈ values, decode (rlsTerm v) = some v) :
    decodeList (rlsTerms values) = some values := by
  induction values with
  | nil => rfl
  | cons v vs ih =>
    have hv := h v (by simp)
    have hvs := ih fun w hw => h w (mem_cons_of_mem v hw)
    simp [rlsTerms, decodeList, hv, hvs]

variable {e : Expr} {t : String}

theorem decode_rlsTerm (h : compileRLS e = .ok t) : decode (rlsTerm e) = some e := by
  induction e generalizing t with
  | recordField field => rfl
  | userAttr attr =>
    unfold compileRLS at h
    split at h
    · rfl
    · rfl
    · cases h
  | tenantAttr field => cases h
  | roleCheck role => rfl
  | permCheck perm => rfl
  | literal value => cases value <;> rfl
  | binary op left right ihl ihr =>
    obtain ⟨hop, l, r, hl, hr, -⟩ := compileRLS_binary h
    exact decode_binaryTerm hop (ihl hl) (ihr hr)
  | not operand ih | isNull operand n ih =>
    obtain ⟨x, hx, -⟩ := bind_eq_ok.mp h
    simp [rlsTerm, decode, ih hx]
  | inList operand values ih ihv =>
    obtain ⟨x, hx, h⟩ := bind_eq_ok.mp h
    obtain ⟨vs, hvs, -⟩ := bind_eq_ok.mp h
    have hlist := decodeList_rlsTerms fun v hv => by
      obtain ⟨t, ht⟩ := compileRLSList_ok hvs v hv
      exact ihv v hv ht
    simp [rlsTerm, decode, ih hx, hlist]
  | tree op target _ => cases h

/-- **The text of a condition reads back as the condition.** -/
theorem rlsReader_compileRLS {lax : Bool} (hw : WellFormed e) (hnum : ∀ text ∈ numerals e, NumeralOk lax text)
    (h : compileRLS e = .ok t) : rlsReader lax t = some e := by
  unfold rlsReader
  rw [(compileRLS_operand hw hnum h).inside.read]
  exact decode_rlsTerm h

/-! ## A condition that reads back has SQL's numerals -/

theorem decodeAttr_numerals {t : Term} (h : decodeAttr t = some e) : numerals e = [] := by
  unfold decodeAttr at h
  split at h
  · split at h
    · cases h; rfl
    · cases h; rfl
    · cases h
  · cases h

theorem decodeMembers_numerals {name : String} {t : Term} (h : decodeMembers name t = some e) : numerals e = [] := by
  unfold decodeMembers at h
  split at h
  · split at h
    · cases h; rfl
    · cases h; rfl
    · cases h
  · cases h

/-- Two decoded operands put together. -/
theorem numerals_pair {op : BinOp} {left right : Expr} {xs ys : List String} (hl : ∀ text ∈ numerals left, text ∈ xs)
    (hr : ∀ text ∈ numerals right, text ∈ ys) : ∀ text ∈ numerals (.binary op left right), text ∈ xs ++ ys := by
  intro text ht
  rw [numerals, mem_append] at ht
  rw [mem_append]
  exact ht.imp (hl text) (hr text)

mutual

/-- The numerals of a decoded condition are the term's. -/
theorem decode_numerals : ∀ (t : Term) {e : Expr}, decode t = some e →
    ∀ text ∈ numerals e, text ∈ t.nums
  | .col name, e, h => by cases h; simp [numerals]
  | .str s, e, h => by cases h; simp [numerals]
  | .num text, e, h => by cases h; simp [numerals, Term.nums]
  | .bool b, e, h => by cases h; simp [numerals]
  | .null, e, h => by cases h; simp [numerals]
  | .cast t ty, e, h => by
      rw [decode] at h
      split at h
      · simp [decodeAttr_numerals h]
      · cases h
  | .any op l arr, e, h => by
      rw [decode] at h
      unfold decodeAny at h
      split at h
      · simp [decodeMembers_numerals h]
      · cases h
  | .inList t vs, e, h => by
      obtain ⟨operand, ht, h⟩ := Option.bind_eq_some_iff.mp h
      obtain ⟨values, hvs, h⟩ := Option.bind_eq_some_iff.mp h
      cases h
      intro text hx
      rw [numerals, mem_append] at hx
      rw [Term.nums, mem_append]
      exact hx.imp (decode_numerals t ht text) (decodeList_numerals vs hvs text)
  | .cmp op l r, e, h | .and l r, e, h | .or l r, e, h => by
      obtain ⟨left, hl, h⟩ := Option.bind_eq_some_iff.mp h
      obtain ⟨right, hr, h⟩ := Option.bind_eq_some_iff.mp h
      cases h
      exact numerals_pair (decode_numerals l hl) (decode_numerals r hr)
  | .isNull t neg, e, h | .not t, e, h => by
      obtain ⟨operand, ht, h⟩ := Option.bind_eq_some_iff.mp h
      cases h
      have hnums := decode_numerals t ht
      exact hnums
  | .call f args, e, h => by cases h
  | .param n, e, h => by cases h

theorem decodeList_numerals : ∀ (ts : List Term) {es : List Expr}, decodeList ts = some es →
    ∀ text ∈ numeralsList es, text ∈ numsList ts
  | [], es, h => by cases h; simp [numeralsList]
  | t :: ts, es, h => by
      obtain ⟨v, hv, h⟩ := Option.bind_eq_some_iff.mp h
      obtain ⟨vs, hvs, h⟩ := Option.bind_eq_some_iff.mp h
      cases h
      intro text hx
      rw [numeralsList, mem_append] at hx
      rw [numsList, mem_append]
      exact hx.imp (decode_numerals t hv text) (decodeList_numerals ts hvs text)

end

theorem rlsReader_numerals (h : rlsReader false t = some e) : ∀ text ∈ numerals e, text.toList.count '.' ≤ 1 := by
  obtain ⟨term, hread, hdecode⟩ := Option.bind_eq_some_iff.mp h
  obtain ⟨toks, hlex, hnums⟩ := read_nums hread
  intro text ht
  exact lex_numToksOk hlex text (hnums text (decode_numerals term hdecode text ht))

/-! ## Injection safety -/

/-- **Reading a policy text back.** SQL reads the text compiled from a parsed condition as exactly that condition if
and only if no numeral in it has two points; with numerals that run over all their points every text gives its
condition back, so no two conditions compile to one text. -/
theorem compileToRLS_reads_back {src : String} {e : Expr} {t : String} (hp : parse src = .ok e)
    (hc : CompileToRLS e = .ok t) : (rlsReader false t = some e ↔ ∀ text ∈ numerals e, text.toList.count '.' ≤ 1) ∧
      rlsReader true t = some e ∧
      ∀ {src' : String} {e' : Expr}, parse src' = .ok e' → CompileToRLS e' = .ok t → e' = e := by
  have hlax : ∀ {src' : String} {e' : Expr}, parse src' = .ok e' → CompileToRLS e' = .ok t →
      rlsReader true t = some e' := fun hp' hc' =>
    rlsReader_compileRLS (parse_wellFormed hp') (fun _ _ => .inl rfl) hc'
  refine ⟨⟨rlsReader_numerals, fun hnum => ?_⟩, hlax hp hc, fun hp' hc' => ?_⟩
  · exact rlsReader_compileRLS (parse_wellFormed hp) (fun text ht => .inr (hnum text ht)) hc
  · exact Option.some.inj ((hlax hp' hc').symm.trans (hlax hp hc))

/-- A string that tries to close its quote. -/
theorem compileToRLS_reads_back_quote : rlsReader false "(\"name\" = ''') OR (true')" =
      some (.binary .eq (.recordField "name") (.literal (.string "') OR (true"))) := by
  have hp : parse "record.name = ''') OR (true'" =
      .ok (.binary .eq (.recordField "name") (.literal (.string "') OR (true"))) := by decide +kernel
  exact (compileToRLS_reads_back hp (by decide +kernel)).1.mpr (by simp [numerals])

/-- `1.2.3` is a number to the lexer and compiles, but SQL has no such numeral. -/
theorem compileToRLS_two_points :
    ¬ ∀ (src : String) (e : Expr) (t : String), parse src = .ok e → CompileToRLS e = .ok t →
      rlsReader false t = some e := by
  intro h
  have hp : parse "record.x = 1.2.3" =
      .ok (.binary .eq (.recordField "x") (.literal (.number "1.2.3"))) := by decide +kernel
  have hc : CompileToRLS (.binary .eq (.recordField "x") (.literal (.number "1.2.3"))) =
      .ok "(\"x\" = 1.2.3)" := by decide +kernel
  have hread := rlsReader_numerals (h _ _ _ hp hc) "1.2.3" (by simp [numerals])
  revert hread
  decide

end GoErp.Domain
