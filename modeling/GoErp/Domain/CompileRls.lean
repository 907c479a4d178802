import GoErp.Domain.Parser
import GoErp.Lib.SqlText

/-!
# `Domain.CompileRls` — conditions as the text of a row security policy

`domain/compile_rls.go`, with `pgx.Identifier.Sanitize` as it documents itself: double quotes doubled, NUL
removed. `rlsTerm e` is the SQL term the text of `e` is meant to denote, and `compileRLS_operand` is the
reason the text is safe to splice: it is one operand, and it denotes that term whatever the string
literals, names and identifiers in `e` hold.
-/

namespace GoErp.Domain

open Lib Lib.Sql List

/-- The compilation errors, with the data their messages print. -/
inductive CompileError where
  /-- `domain: bare record has no SQL representation outside child_of/parent_of` -/
  | bareRecord
  /-- `domain: current_user.%s has no session variable to compile against in the RLS context yet` -/
  | attrNotBound (attr : String)
  /-- `domain: tenant.%s is only bound in tenant-only contexts …, not in an ABAC policy condition` -/
  | tenantAttr (field : String)
  /-- `domain: %s is not yet supported …` -/
  | treeUnsupported (op : TreeOp)
  /-- `domain: %s is search-domain only and is rejected in ABAC policy conditions` -/
  | searchOnly (op : BinOp)
  /-- `domain: invalid numeric literal %q: %w` -/
  | invalidNumber (text : String)
  /-- `domain: user_has_permission('%s') has no permission resolver bound` -/
  | noResolver (perm : String)
  deriving DecidableEq, Repr

/-- `strings.ReplaceAll(s, "'", "''")` -/
def escapeSQLString (s : String) : String := String.ofList (escapeQuote '\'' s.toList)

/-- `pgx.Identifier{name}.Sanitize()`. -/
def quoteColumn (name : String) : String :=
  String.ofList ('"' :: (escapeQuote '"' (name.toList.filter (· ≠ '\x00')) ++ ['"']))

/-- A literal in the text of a policy; numerals stand as they were written. -/
def compileLiteral : LitValue → String
  | .null => "NULL"
  | .bool true => "true"
  | .bool false => "false"
  | .number text => text
  | .string s => "'" ++ escapeSQLString s ++ "'"

/-- Membership of `name` in the comma-joined session variable `setting`. -/
def memberOfSetting (setting name : String) : String :=
  "('" ++ escapeSQLString name ++ "' = ANY(string_to_array(COALESCE(current_setting('" ++ setting ++
    "', true), ''), ',')))"

mutual

/-- `compileRLS`: the text of a condition, in parentheses where it is composed. -/
def compileRLS : Expr → Except CompileError String
  | .recordField field => if field = "" then .error .bareRecord else .ok (quoteColumn field)
  | .userAttr attr =>
    match attr with
    | "id" => .ok "NULLIF(current_setting('app.current_user_id', true), '')::uuid"
    | "contact_id" => .ok "NULLIF(current_setting('app.current_user_contact_id', true), '')::uuid"
    | _ => .error (.attrNotBound attr)
  | .tenantAttr field => .error (.tenantAttr field)
  | .roleCheck role => .ok (memberOfSetting "app.current_user_roles" role)
  | .permCheck perm => .ok (memberOfSetting "app.current_user_permissions" perm)
  | .literal value => .ok (compileLiteral value)
  | .not operand => do
    let x ← compileRLS operand
    .ok ("(" ++ ("NOT " ++ x) ++ ")")
  | .isNull operand not => do
    let x ← compileRLS operand
    .ok ("(" ++ (x ++ (if not then " IS NOT NULL" else " IS NULL")) ++ ")")
  | .inList operand values => do
    let x ← compileRLS operand
    let vs ← compileRLSList values
    .ok ("(" ++ (x ++ " IN (" ++ (", ".intercalate vs ++ ")")) ++ ")")
  | .binary op left right =>
    match op with
    | .like => .error (.searchOnly .like)
    | .ilike => .error (.searchOnly .ilike)
    | op => do
      let l ← compileRLS left
      let r ← compileRLS right
      .ok ("(" ++ (l ++ (" " ++ op.text ++ " ") ++ r) ++ ")")
  | .tree op _ => .error (.treeUnsupported op)

/-- The loop over the members of an `IN` list. -/
def compileRLSList : List Expr → Except CompileError (List String)
  | [] => .ok []
  | v :: vs => do
    let x ← compileRLS v
    let xs ← compileRLSList vs
    .ok (x :: xs)

end

def CompileToRLS (expr : Expr) : Except CompileError String := compileRLS expr

/-! ## The term a text denotes -/

/-- The term of `current_setting(…, true)`. -/
def settingTerm (setting : String) : Term := .call "current_setting" [.str setting, .bool true]

/-- The term of an attribute of the user, `NULL` where the setting is empty. -/
def attrTerm (setting : String) : Term := .cast (.call "nullif" [settingTerm setting, .str ""]) "uuid"

/-- The term of a setting that holds a list. -/
def membersTerm (setting : String) : Term :=
  .call "string_to_array" [.call "coalesce" [settingTerm setting, .str ""], .str ","]

/-- The comparison an operator stands for; `none` for the others. -/
def BinOp.cmp? : BinOp → Option CmpOp
  | .eq => some .eq
  | .ne => some .ne
  | .lt => some .lt
  | .gt => some .gt
  | .le => some .le
  | .ge => some .ge
  | _ => none

def literalTerm : LitValue → Term
  | .null => .null
  | .bool b => .bool b
  | .number text => .num text
  | .string s => .str s

def binaryTerm (op : BinOp) (l r : Term) : Term :=
  match op.cmp? with
  | some c => .cmp c l r
  | none => if op = .and then .and l r else .or l r

mutual

/-- The term that a condition denotes in SQL. -/
def rlsTerm : Expr → Term
  | .recordField field => .col field
  | .userAttr attr =>
    attrTerm (if attr = "id" then "app.current_user_id" else "app.current_user_contact_id")
  | .tenantAttr _ => .null
  | .roleCheck role => .any .eq (.str role) (membersTerm "app.current_user_roles")
  | .permCheck perm => .any .eq (.str perm) (membersTerm "app.current_user_permissions")
  | .literal value => literalTerm value
  | .not operand => .not (rlsTerm operand)
  | .isNull operand not => .isNull (rlsTerm operand) not
  | .inList operand values => .inList (rlsTerm operand) (rlsTerms values)
  | .binary op left right => binaryTerm op (rlsTerm left) (rlsTerm right)
  | .tree _ _ => .null

def rlsTerms : List Expr → List Term
  | [] => []
  | v :: vs => rlsTerm v :: rlsTerms vs

end

mutual

/-- The texts of the numeric literals. -/
def numerals : Expr → List String
  | .literal (.number text) => [text]
  | .not operand => numerals operand
  | .isNull operand _ => numerals operand
  | .inList operand values => numerals operand ++ numeralsList values
  | .binary _ left right => numerals left ++ numerals right
  | .tree _ target => numerals target
  | _ => []

def numeralsList : List Expr → List String
  | [] => []
  | v :: vs => numerals v ++ numeralsList vs

end

/-! ## Leaves -/

/-- A numeral SQL reads as one token: every numeral if `lax`, those with one point at most otherwise. -/
def NumeralOk (lax : Bool) (text : String) : Prop := lax = true ∨ text.toList.count '.' ≤ 1

/-- A lexer's numeral with at most one point splits there. -/
theorem numberParts_split {cs : List Char} (hall : cs.all isNumberPart = true) (hdot : cs.count '.' ≤ 1) :
    cs.all Sql.isDigit = true ∨ ∃ ds fs, ds.all Sql.isDigit = true ∧ fs.all Sql.isDigit = true ∧
      cs = ds ++ '.' :: fs := by
  induction cs with
  | nil => exact .inl rfl
  | cons c cs ih =>
    rw [all_cons, Bool.and_eq_true] at hall
    by_cases hc : c = '.'
    · -- the point: only digits may follow
      subst hc
      have hnone : cs.count '.' = 0 := by simpa using hdot
      refine .inr ⟨[], cs, rfl, ?_, rfl⟩
      rw [all_eq_true]
      intro x hx
      have hne : x ≠ '.' := fun he => count_eq_zero.mp hnone (he ▸ hx)
      have hpart := all_eq_true.mp hall.2 x hx
      have hdigit : isDigit x = true := by simpa [isNumberPart, hne] using hpart
      exact hdigit
    · have hdigit : isDigit c = true := by simpa [isNumberPart, hc] using hall.1
      have hd : Sql.isDigit c = true := hdigit
      rcases ih hall.2 (by simpa [hc] using hdot) with h | ⟨ds, fs, hds, hfs, rfl⟩
      · exact .inl (by simp [hd, h])
      · exact .inr ⟨c :: ds, fs, by simp [hd, hds], hfs, rfl⟩

variable {lax : Bool}

/-- A numeral is one token, if SQL reads it as one. -/
theorem operand_numeral {text : String} (h : IsNumeral text) (hok : NumeralOk lax text) :
    Operand lax text (.num text) := by
  obtain ⟨c, cs, ht, hc, hcs⟩ := h
  have hdigit : Sql.isDigit c = true := hc
  rcases hok with rfl | hdot
  · exact operand_num_lax hdigit hcs ht
  have hne : c ≠ '.' := isDigit_ne_dot hdigit
  rw [ht] at hdot
  refine operand_num ?_
  rw [ht]
  rcases numberParts_split hcs (by simpa [hne] using hdot) with hds | ⟨ds, fs, hds, hfs, rfl⟩
  · exact ⟨c, cs, hdigit, hds, .inl rfl⟩
  · exact ⟨c, ds, hdigit, hds, .inr ⟨fs, hfs, rfl⟩⟩

/-- A quoted text is one token, whatever it holds. -/
theorem operand_string (lax : Bool) (s : String) : Operand lax ("'" ++ escapeSQLString s ++ "'") (.str s) := by
  have h : Operand lax _ (.str (String.ofList s.toList)) := operand_str s.toList
  rw [String.ofList_toList] at h
  convert h using 1
  apply String.ext
  simp [escapeSQLString]

theorem operand_quoteColumn (lax : Bool) {field : String} (h : IsIdent field) :
    Operand lax (quoteColumn field) (.col field) := by
  have hnul : field.toList.filter (· ≠ '\x00') = field.toList := by
    rw [List.filter_eq_self]
    intro c hc
    have hpart := all_eq_true.mp h c hc
    by_cases hz : c = '\x00'
    · subst hz
      revert hpart
      decide
    · simp [hz]
  have hident : Operand lax _ (.col (String.ofList field.toList)) := operand_ident field.toList
  rw [String.ofList_toList] at hident
  unfold quoteColumn
  rw [hnul]
  exact hident

theorem operand_compileLiteral {value : LitValue} (hw : WellFormed (.literal value))
    (hok : ∀ text ∈ numerals (.literal value), NumeralOk lax text) :
    Operand lax (compileLiteral value) (literalTerm value) := by
  cases value with
  | null => exact operand_null
  | bool b =>
    cases b with
    | false => exact operand_false
    | true => exact operand_true
  | string s => exact operand_string lax s
  | number text =>
    cases hw with
    | number hnum => exact operand_numeral hnum (hok text (by simp [numerals]))

/-! ## Session variables -/

section

variable {lax : Bool} {setting : String}

theorem word_lexesTo {f w : String} {st : List Char} (hrun : run lax .start f.toList = (.word st, []))
    (hw : String.ofList (st.reverse.map Char.toLower) = w) : LexesTo lax f.toList [.word w] :=
  ⟨.word st, [], _, hrun, ends_word st, by rw [hw]; rfl⟩

section

variable (hq : escapeSQLString setting = setting)

include hq

theorem operand_setting : Operand lax ("current_setting('" ++ setting ++ "', true)") (settingTerm setting) := by
  have hf : LexesTo lax "current_setting".toList [.word "current_setting"] := word_lexesTo rfl rfl
  have hname : Operand lax ("'" ++ setting ++ "'") (.str setting) := by
    have h := operand_string lax setting
    rwa [hq] at h
  have h : Operand lax _ (settingTerm setting) :=
    (prim_call_pair hf (by decide) (by decide) hname.inside operand_true.inside).operand
  convert h using 1
  apply String.ext
  simp

/-- The text of a user's attribute is an operand, up to its cast. -/
theorem operand_attr :
    Operand lax ("NULLIF(current_setting('" ++ setting ++ "', true), '')::uuid") (attrTerm setting) := by
  have hf : LexesTo lax "NULLIF".toList [.word "nullif"] := word_lexesTo rfl rfl
  have hcast : LexesTo lax "::uuid".toList [.cast, .word "uuid"] :=
    ⟨_, [.cast], _, rfl, ends_word _, rfl⟩
  have h : Operand lax _ (attrTerm setting) :=
    (prim_call_pair hf (by decide) (by decide) (operand_setting hq).inside
      (operand_string lax "").inside).cast hcast
  convert h using 1
  apply String.ext
  simp [escapeSQLString, escapeQuote]

theorem operand_members :
    Operand lax ("string_to_array(COALESCE(current_setting('" ++ setting ++ "', true), ''), ',')")
      (membersTerm setting) := by
  have hf : LexesTo lax "COALESCE".toList [.word "coalesce"] := word_lexesTo rfl rfl
  have hg : LexesTo lax "string_to_array".toList [.word "string_to_array"] := word_lexesTo rfl rfl
  have hcoalesce := prim_call_pair hf (by decide) (by decide) (operand_setting hq).inside
    (operand_string lax "").inside
  have h : Operand lax _ (membersTerm setting) :=
    (prim_call_pair hg (by decide) (by decide) hcoalesce.operand.inside
      (operand_string lax ",").inside).operand
  convert h using 1
  apply String.ext
  simp [escapeSQLString, escapeQuote]

theorem operand_memberOfSetting (name : String) :
    Operand lax (memberOfSetting setting name) (.any .eq (.str name) (membersTerm setting)) := by
  have hany : Closed lax " = ANY(".toList [.eq, .word "any", .lparen] := rfl
  have h := (Operand.any (show cmpOp? .eq = some .eq from rfl) (by exact rfl) hany
    (operand_string lax name) (operand_members hq).inside).paren
  convert h using 1
  apply String.ext
  simp [memberOfSetting]

end

end

/-! ## Every text denotes its term -/

/-- Two operands under an operator, in parentheses. -/
theorem operand_binary {op : BinOp} {l r : String} {a b : Term} (hl : Operand lax l a) (hr : Operand lax r b)
    (hop : op ≠ .like ∧ op ≠ .ilike) :
    Operand lax ("(" ++ (l ++ (" " ++ op.text ++ " ") ++ r) ++ ")") (binaryTerm op a b) := by
  refine Inside.paren ?_
  cases op with
  | eq => exact Operand.cmp (show cmpOp? .eq = some .eq from rfl) rfl rfl hl hr
  | ne => exact Operand.cmp (show cmpOp? .ne = some .ne from rfl) rfl rfl hl hr
  | lt => exact Operand.cmp (show cmpOp? .lt = some .lt from rfl) rfl rfl hl hr
  | gt => exact Operand.cmp (show cmpOp? .gt = some .gt from rfl) rfl rfl hl hr
  | le => exact Operand.cmp (show cmpOp? .le = some .le from rfl) rfl rfl hl hr
  | ge => exact Operand.cmp (show cmpOp? .ge = some .ge from rfl) rfl rfl hl hr
  | and => exact hl.and hr
  | or => exact hl.or hr
  | like => exact absurd rfl hop.1
  | ilike => exact absurd rfl hop.2

/-- What the text of a binary condition is made of; patterns are refused. -/
theorem compileRLS_binary {op : BinOp} {left right : Expr} {t : String}
    (h : compileRLS (.binary op left right) = .ok t) :
    (op ≠ .like ∧ op ≠ .ilike) ∧ ∃ l r, compileRLS left = .ok l ∧ compileRLS right = .ok r ∧
      t = "(" ++ (l ++ (" " ++ op.text ++ " ") ++ r) ++ ")" := by
  have hop : op ≠ .like ∧ op ≠ .ilike := by
    constructor <;> rintro rfl <;> simp [compileRLS] at h
  refine ⟨hop, ?_⟩
  have hdo : compileRLS (.binary op left right) = (do
      let l ← compileRLS left
      let r ← compileRLS right
      .ok ("(" ++ (l ++ (" " ++ op.text ++ " ") ++ r) ++ ")")) := by
    cases op <;> first | rfl | simp at hop
  rw [hdo] at h
  obtain ⟨l, hl, h⟩ := bind_eq_ok.mp h
  obtain ⟨r, hr, h⟩ := bind_eq_ok.mp h
  cases h
  exact ⟨l, r, hl, hr, rfl⟩

variable {values : List Expr}

theorem compileRLSList_ok {ts : List String} (h : compileRLSList values = .ok ts) :
    ∀ v ∈ values, ∃ t, compileRLS v = .ok t := by
  induction values generalizing ts with
  | nil => simp
  | cons v vs ih =>
    obtain ⟨x, hx, h⟩ := bind_eq_ok.mp h
    obtain ⟨xs, hxs, -⟩ := bind_eq_ok.mp h
    intro w hw
    rcases mem_cons.mp hw with rfl | hw
    · exact ⟨x, hx⟩
    · exact ih hxs w hw

/-- The members of an `IN` list, text by text. -/
theorem compileRLSList_operands {ts : List String}
    (hall : ∀ v ∈ values, ∀ t, compileRLS v = .ok t → Operand lax t (rlsTerm v)) (h : compileRLSList values = .ok ts) :
    ∃ items : List (String × Term), items.map Prod.fst = ts ∧ items.map Prod.snd = rlsTerms values ∧
      ∀ i ∈ items, Operand lax i.1 i.2 := by
  induction values generalizing ts with
  | nil =>
    cases h
    exact ⟨[], rfl, rfl, by simp⟩
  | cons v vs ih =>
    obtain ⟨x, hx, h⟩ := bind_eq_ok.mp h
    obtain ⟨xs, hxs, h⟩ := bind_eq_ok.mp h
    cases h
    obtain ⟨items, hfst, hsnd, hitems⟩ := ih (fun w hw => hall w (mem_cons_of_mem v hw)) hxs
    refine ⟨(x, rlsTerm v) :: items, by simp [hfst], by simp [rlsTerms, hsnd], fun i hi => ?_⟩
    rcases mem_cons.mp hi with rfl | hi
    · exact hall v (by simp) x hx
    · exact hitems i hi

theorem mem_numeralsList {v : Expr} {text : String} (hv : v ∈ values) (ht : text ∈ numerals v) :
    text ∈ numeralsList values := by
  induction values with
  | nil => cases hv
  | cons w ws ih =>
    rw [numeralsList, mem_append]
    rcases mem_cons.mp hv with rfl | hv
    · exact .inl ht
    · exact .inr (ih hv)

/-- **A compiled condition is one SQL operand, and denotes its term**: no literal, name or identifier in
    it ends its quotes or changes the tree. -/
theorem compileRLS_operand {e : Expr} {t : String} (hw : WellFormed e)
    (hnum : ∀ text ∈ numerals e, NumeralOk lax text) (h : compileRLS e = .ok t) : Operand lax t (rlsTerm e) := by
  induction e generalizing t with
  | recordField field =>
    unfold compileRLS at h
    split at h
    · cases h
    cases h
    cases hw with
    | recordField hident => exact operand_quoteColumn lax hident
  | userAttr attr =>
    unfold compileRLS at h
    split at h
    · cases h
      show Operand lax ("NULLIF(current_setting('" ++ "app.current_user_id" ++ "', true), '')::uuid")
        (attrTerm "app.current_user_id")
      exact operand_attr rfl
    · cases h
      show Operand lax ("NULLIF(current_setting('" ++ "app.current_user_contact_id" ++ "', true), '')::uuid")
        (attrTerm "app.current_user_contact_id")
      exact operand_attr rfl
    · cases h
  | tenantAttr field => cases h
  | roleCheck role =>
    cases h
    exact operand_memberOfSetting rfl role
  | permCheck perm =>
    cases h
    exact operand_memberOfSetting rfl perm
  | literal value =>
    cases h
    exact operand_compileLiteral hw hnum
  | binary op left right ihl ihr =>
    obtain ⟨hop, l, r, hl, hr, rfl⟩ := compileRLS_binary h
    cases hw with
    | binary hwl hwr =>
      have hleft := ihl hwl (fun x hx => hnum x (by simp [numerals, hx])) hl
      have hright := ihr hwr (fun x hx => hnum x (by simp [numerals, hx])) hr
      exact operand_binary hleft hright hop
  | not operand ih =>
    obtain ⟨x, hx, h⟩ := bind_eq_ok.mp h
    cases h
    cases hw with
    | not hwo => exact (ih hwo hnum hx).not.paren
  | isNull operand n ih =>
    obtain ⟨x, hx, h⟩ := bind_eq_ok.mp h
    cases h
    cases hw with
    | isNull hwo => exact ((ih hwo hnum hx).isNull n).paren
  | inList operand values ih ihv =>
    obtain ⟨x, hx, h⟩ := bind_eq_ok.mp h
    obtain ⟨vs, hvs, h⟩ := bind_eq_ok.mp h
    cases h
    cases hw with
    | inList hwo hne hwv =>
      have hop := ih hwo (fun y hy => hnum y (by simp [numerals, hy])) hx
      obtain ⟨items, hfst, hsnd, hitems⟩ := compileRLSList_operands
        (fun v hv t ht => ihv v hv (hwv v hv)
          (fun y hy => hnum y (by simp [numerals, mem_numeralsList hv hy])) ht) hvs
      have hine : items ≠ [] := by
        rintro rfl
        cases values with
        | nil => exact hne rfl
        | cons v vs => simp [rlsTerms] at hsnd
      have hin := hop.inList hine fun i hi => (hitems i hi).inside
      rw [hfst, hsnd] at hin
      exact hin.paren
  | tree op target _ => cases h

end GoErp.Domain
