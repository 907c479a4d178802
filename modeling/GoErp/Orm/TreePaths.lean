import GoErp.Lib.Run
import GoErp.Orm.TreeForest

/-!
# `Orm.TreePaths` — stored paths agree with parent links

The operations of `Lib.PathForest` say what each call does to a forest: a create adds a leaf, a write moves a
subtree, an unlink removes rows. So every call that leaves the engine's columns to the engine keeps paths and
links in agreement, along whole runs (`treePaths_of_run`).

The ORM accepts calls that do not: a path column is an ordinary column to `buildAssignment`.
-/

namespace GoErp.Orm

open Lib List

/-! ## Create adds a leaf -/

section

variable {env : Env} {tm : TreeModel} {t : Rows} {c : String}

theorem fillIfOmitted_get? {md : Model} {field value : String} {x : Record × List String}
    (hc : c ≠ field) : (fillIfOmitted md field value x).1.get? c = x.1.get? c := by
  unfold fillIfOmitted
  split
  · rfl
  split
  iterate 2 exact Record.get?_set_of_ne _ hc
  · rfl

variable {record : Record}

/-- The server's fields are none of the tree's columns. -/
theorem fillCreateServerFields_get? {ids : RequestIds} {etag : String} (hc : tm.TreeCol c) :
    (fillCreateServerFields tm.md ids etag record).1.get? c = record.get? c := by
  unfold fillCreateServerFields
  rw [fillIfOmitted_get? (hc.ne_of_engine (by decide)), fillIfOmitted_get? (hc.ne_of_engine (by decide)),
    fillIfOmitted_get? (hc.ne_of_engine (by decide))]

theorem acquireSequenceFields_get? {next : String → String} (hc : tm.TreeCol c) :
    ∀ (fs : List Field) (record : Record), (∀ g ∈ fs, g ∈ tm.md.fields) →
      (acquireSequenceFields next record fs).get? c = record.get? c := by
  intro fs
  induction fs with
  | nil => intro record _; rfl
  | cons g fs ih =>
    intro record hfs
    rw [acquireSequenceFields]
    have hrest : ∀ g' ∈ fs, g' ∈ tm.md.fields := fun g' hg' => hfs g' (by simp [hg'])
    split
    · rename_i hseq
      rw [ih _ hrest, Record.get?_set_of_ne _ (hc.notSequence (hfs g (by simp)) hseq.1)]
    · exact ih record hrest

/-- What the injected paths are, and that nothing else changes. -/
theorem injectPaths_ok {label : String} :
    ∀ {fs : List String} {record record' : Record}, fs.Nodup → (∀ f ∈ fs, f ∈ tm.treeFields) →
      tm.injectPaths env t label record fs = .ok record' →
      (∀ c, (∀ f ∈ fs, c ≠ pathCol f) → record'.get? c = record.get? c) ∧
      ∀ f ∈ fs, ∃ path, tm.pathUnder env t f label (record.get? f) = .ok path ∧
        record'.get? (pathCol f) = some (.ltree path) := by
  intro fs
  induction fs with
  | nil =>
    intro record record' _ _ h
    cases h
    exact ⟨fun c _ => rfl, fun f hf => absurd hf (by simp)⟩
  | cons g fs ih =>
    intro record record' hnodup hfs h
    obtain ⟨path, hpath, h⟩ := bind_eq_ok.mp h
    obtain ⟨hg, hnodup⟩ := nodup_cons.mp hnodup
    obtain ⟨hframe, hinj⟩ := ih hnodup (fun f hf => hfs f (by simp [hf])) h
    refine ⟨?_, ?_⟩
    · intro c hc
      rw [hframe c fun f hf => hc f (by simp [hf]), Record.get?_set_of_ne _ (hc g (by simp))]
    intro f hf
    rcases mem_cons.mp hf with rfl | hf
    · refine ⟨path, hpath, ?_⟩
      have hne : ∀ f' ∈ fs, pathCol f ≠ pathCol f' := by
        intro f' hf' heq
        rw [pathCol_inj heq] at hg
        exact hg hf'
      rw [hframe _ hne, Record.get?_set_self]
    · -- the path set for another field is not the parent this one reads
      obtain ⟨path', hpath', hset⟩ := hinj f hf
      have hne : f ≠ pathCol g :=
        Ne.symm (pathCol_ne_tree (hfs g (by simp)) (hfs f (by simp [hf])))
      rw [Record.get?_set_of_ne _ hne] at hpath'
      exact ⟨path', hpath', hset⟩

theorem treeFields_nodup : tm.treeFields.Nodup :=
  (nodup_append.mp tm.distinct).1.sublist (List.Sublist.map Field.name filter_sublist)

variable {filled : List String}

/-- The primary key of the injected record, and its paths by that key's label. -/
theorem injectTreePathOnCreate_ok {genPK : String} {record' : Record}
    (h : tm.injectTreePathOnCreate env t genPK record = .ok (record', filled)) :
    ∃ v, record'.get? tm.pkCol = some v ∧ (record.get? tm.pkCol = some v ∨ v = .text genPK) ∧
      ∀ f ∈ tm.treeFields, record'.get? f = record.get? f ∧
        ∃ path, tm.pathUnder env t f (ltreeLabel (sprint v)) (record.get? f) = .ok path ∧
          record'.get? (pathCol f) = some (.ltree path) := by
  have hpkFrame : ∀ f ∈ tm.treeFields, tm.pkCol ≠ pathCol f := fun f hf => Ne.symm (pathCol_ne_pk hf)
  have hfFrame : ∀ f ∈ tm.treeFields, ∀ g ∈ tm.treeFields, f ≠ pathCol g :=
    fun f hf g hg => Ne.symm (pathCol_ne_tree hg hf)
  unfold TreeModel.injectTreePathOnCreate at h
  rw [if_neg (show tm.treeFields ≠ [] from tm.isTree)] at h
  split at h
  · -- a generated key is written into the record first
    obtain ⟨record₂, hinj, h⟩ := bind_eq_ok.mp h
    obtain ⟨rfl, -⟩ := Prod.mk.inj (Except.ok.inj h)
    obtain ⟨hframe, hpaths⟩ := injectPaths_ok treeFields_nodup (fun f hf => hf) hinj
    refine ⟨.text genPK, ?_, .inr rfl, ?_⟩
    · rw [hframe _ hpkFrame, Record.get?_set_self]
    intro f hf
    have hset : (record.set tm.pkCol (.text genPK)).get? f = record.get? f :=
      Record.get?_set_of_ne _ (tree_ne_pk hf)
    refine ⟨(hframe f (hfFrame f hf)).trans hset, ?_⟩
    rw [← hset]
    exact hpaths f hf
  · rename_i v hv
    obtain ⟨record₂, hinj, h⟩ := bind_eq_ok.mp h
    obtain ⟨rfl, -⟩ := Prod.mk.inj (Except.ok.inj h)
    obtain ⟨hframe, hpaths⟩ := injectPaths_ok treeFields_nodup (fun f hf => hf) hinj
    refine ⟨v, ?_, .inl hv, ?_⟩
    · rw [hframe _ hpkFrame, hv]
    · intro f hf
      exact ⟨hframe f (hfFrame f hf), hpaths f hf⟩

/-- The path under a parent value is the one of the forest, for the parent the column stores. -/
theorem pathUnder_ok {f label : String} {v : Option Value} {path : List String}
    (h : tm.pathUnder env t f label v = .ok path) : ((v = none ∨ v = some .null) ∧ path = [label]) ∨
    ∃ w p q ppath, v = some w ∧ keyValue env.keys w = some (.text p) ∧
      tm.forestOf f t p = some (q, ppath) ∧ path = ppath ++ [label] := by
  unfold TreeModel.pathUnder at h
  split at h
  · exact .inl ⟨.inl rfl, (Except.ok.inj h).symm⟩
  · exact .inl ⟨.inr rfl, (Except.ok.inj h).symm⟩
  rename_i w _
  obtain ⟨ppath, hlook, h⟩ := bind_eq_ok.mp h
  split at h
  · cases h
  rename_i hne
  obtain ⟨p, q, hkey, hforest⟩ := lookupTreePath_ok hlook hne
  exact .inr ⟨w, p, q, ppath, rfl, hkey, hforest, (Except.ok.inj h).symm⟩

variable {row : Row} {assigned : List (String × Value)}

/-- A tree column of the new row is what the record says of it. -/
theorem storeCols_kept {denied : Denials} {uuid : String → Bool} {base : Row}
    (hassign : buildAssignment tm.md denied uuid filled record = .ok assigned)
    (hstore : tm.storeCols env base assigned = .ok row) (hkept : dropped tm.md denied c = false) :
    match record.get? c with
    | none => row c = base c
    | some v => tm.coerce env c v = some (row c) := by
  have hcol := storeCols_ok hstore c
  rw [buildAssignment_get? hassign, if_neg (by simp [hkept])] at hcol
  exact hcol

/-- **The row a create prepares is a leaf of every forest**: under the key it is stored by, its path is the one
    its parent gives it. -/
theorem prepareCreate_ok {call : Call} {k : String} (hsafe : tm.CreateSafe env call record)
    (h : tm.prepareCreate env t call record = .ok (assigned, row, filled)) (hkey : tm.keyOf row = some k) :
    env.keys.parse k = some k ∧ ∀ f ∈ tm.treeFields,
      Forest.prefixFor ltreeLabel (tm.forestOf f t) k (parentOf row f) = some (pathOf row f) := by
  obtain ⟨_, -, h⟩ := bind_eq_ok.mp h
  obtain ⟨_, -, h⟩ := bind_eq_ok.mp h
  obtain ⟨⟨record₂, filledPK⟩, hinj, h⟩ := bind_eq_ok.mp h
  obtain ⟨assigned', hassign, h⟩ := bind_eq_ok.mp h
  split at h
  · cases h
  obtain ⟨row', hstore, h⟩ := bind_eq_ok.mp h
  obtain ⟨rfl, hrow⟩ := Prod.mk.inj (Except.ok.inj h)
  obtain ⟨rfl, -⟩ := Prod.mk.inj hrow
  obtain ⟨v, hv, hsource, hfields⟩ := injectTreePathOnCreate_ok hinj
  -- the tree's columns of the row, from the record before the sequences
  have hcol : ∀ {c}, tm.TreeCol c → tm.Kept call c →
      match record₂.get? c with
      | none => row' c = tm.defaultRow call.dbPK c
      | some v => tm.coerce env c v = some (row' c) := by
    intro c hc hkept
    have hstored := storeCols_kept hassign hstore hkept
    rwa [acquireSequenceFields_get? hc _ _ fun g hg => hg] at hstored
  -- the key: the caller's spelling is canonical, so its label is the stored key's
  have hpk : keyValue env.keys v = some (row' tm.pkCol) := by
    have hpkCol := hcol treeCol_pk (hsafe.kept (.inl rfl))
    rw [hv] at hpkCol
    exact (coerce_pk v).symm.trans hpkCol
  have hcanon : v = .text k ∧ env.keys.parse k = some k := by
    rw [refKey_eq_some.mp hkey] at hpk
    cases v with
    | text s =>
      obtain ⟨k', hparse, heq⟩ := Option.map_eq_some_iff.mp (show (env.keys.parse s).map Value.text = _ from hpk)
      cases heq
      have hs : env.keys.parse s = some s := by
        rcases hsource with hrec | hgen
        · rw [fillCreateServerFields_get? treeCol_pk] at hrec
          exact hsafe.pk hrec
        · cases hgen
          exact hsafe.genPK
      cases hs.symm.trans hparse
      exact ⟨rfl, hs⟩
    | _ => cases hpk
  obtain ⟨rfl, hcanon⟩ := hcanon
  refine ⟨hcanon, fun f hf => ?_⟩
  obtain ⟨hsame, path, hunder, hpath⟩ := hfields f hf
  have hpathOf : pathOf row' f = path := by
    have hpathCol := hcol (treeCol_path hf) (hsafe.kept (.inr (.inr (mem_map_of_mem hf))))
    rw [hpath] at hpathCol
    obtain ⟨-, hval⟩ := Option.ite_none_right_eq_some.mp ((coerce_path hf _).symm.trans hpathCol)
    unfold pathOf
    rw [← Option.some.inj hval]
  have hparentCol := hcol (treeCol_field hf) (hsafe.kept (.inr (.inl hf)))
  rw [hsame] at hparentCol
  rw [hpathOf]
  rcases pathUnder_ok hunder with ⟨hnone | hnull, rfl⟩ | ⟨w, p, q, ppath, hw, hkeyw, hforest, rfl⟩
  · -- no parent named: the column keeps its default, which is null
    rw [hnone] at hparentCol
    have hdefault := hsafe.noDefault hf (by rwa [fillCreateServerFields_get? (treeCol_field hf)] at hnone)
    have hparent : parentOf row' f = none := by
      unfold parentOf
      rw [show row' f = .null from hparentCol.trans hdefault]
      rfl
    rw [hparent]
    rfl
  · rw [hnull] at hparentCol
    have hparent : parentOf row' f = none := by
      unfold parentOf
      rw [← Option.some.inj ((coerce_field hf .null).symm.trans hparentCol)]
      rfl
    rw [hparent]
    rfl
  · rw [hw] at hparentCol
    have hparent : parentOf row' f = some p := by
      unfold parentOf
      rw [← Option.some.inj (hkeyw.symm.trans ((coerce_field hf w).symm.trans hparentCol))]
      rfl
    rw [hparent, Forest.prefixFor, hforest]
    rfl

/-- Inserting a leaf keeps the invariant. -/
theorem insertRow_treeInv (hinv : tm.TreeInv env t) {t' : Rows} (h : tm.insertRow t row = .ok t')
    (hleaf : ∀ k, tm.keyOf row = some k → env.keys.parse k = some k ∧ ∀ f ∈ tm.treeFields,
      Forest.prefixFor ltreeLabel (tm.forestOf f t) k (parentOf row f) = some (pathOf row f)) :
    tm.TreeInv env t' := by
  unfold TreeModel.insertRow at h
  split at h
  · cases h
  rename_i k hkey
  obtain ⟨hcanon, hunder⟩ := hleaf k hkey
  split at h
  · cases h
  rename_i hnew
  split at h <;> cases h
  rename_i hfk
  have habsent : t.get? k = none := by simpa using hnew
  refine ⟨hinv.toKeyed.insert hkey hcanon hfk, fun {f} hf => ?_⟩
  by_cases hact : tm.active row = true
  · refine (hinv.paths hf).add (hunder f hf) ?_ ?_ fun j => ?_
    · -- a row that refers to the new key would refer to a row there is not
      intro j path hj
      obtain ⟨r, hr, -, hparent, -⟩ := forestOf_eq_some.mp hj
      have hsome := hinv.fk hr hf hparent
      rw [habsent] at hsome
      cases hsome
    · intro hself
      have hpre := hunder f hf
      rw [hself, Forest.prefixFor] at hpre
      obtain ⟨x, hx, -⟩ := Option.map_eq_some_iff.mp hpre
      obtain ⟨r, hr, -⟩ := forestOf_eq_some.mp (show tm.forestOf f t k = some (x.1, x.2) from hx)
      rw [habsent] at hr
      cases hr
    · rw [forestOf_insert, if_pos hact]
  · refine (hinv.paths hf).restrict fun j => ?_
    rw [forestOf_insert, if_neg hact]
    by_cases hj : j = k
    · exact .inr (if_pos hj)
    · exact .inl (if_neg hj)

/-- **A create keeps the invariant.** -/
theorem create_treeInv (hinv : tm.TreeInv env t) {call : Call} {onConflict : Option OnConflict} {t' : Rows}
    (hsafe : tm.CreateSafe env call record) (hins : tm.Inserts env t call record onConflict)
    (h : tm.create env t call record onConflict = .ok t') : tm.TreeInv env t' := by
  obtain ⟨⟨assigned, row, filled⟩, hprep, h⟩ := bind_eq_ok.mp h
  obtain ⟨⟨t₁, created⟩, hstmt, h⟩ := bind_eq_ok.mp h
  obtain ⟨_, -, h⟩ := bind_eq_ok.mp h
  cases h
  have hinsert : ∀ {t₂}, tm.insertRow t row = .ok t₂ → tm.TreeInv env t₂ :=
    fun hrow => insertRow_treeInv hinv hrow fun k hk => prepareCreate_ok hsafe hprep hk
  cases onConflict with
  | none =>
    obtain ⟨t₂, hrow, hres⟩ := bind_eq_ok.mp hstmt
    cases hres
    exact hinsert hrow
  | some oc =>
    obtain ⟨_, -, hstmt⟩ := bind_eq_ok.mp hstmt
    split at hstmt
    · cases hstmt
    · obtain ⟨t₂, hrow, hres⟩ := bind_eq_ok.mp hstmt
      cases hres
      exact hinsert hrow
    · cases hstmt
      exact hinv
    rename_i k old hpolicy hconflict
    rw [hins oc rfl hpolicy assigned row filled hprep] at hconflict
    cases hconflict

end


/-! ## Write moves a subtree -/

section

variable {env : Env} {tm : TreeModel} {t : Rows}

theorem withEtag_get? {call : Call} {record : Record} {c : String} (hc : tm.TreeCol c) :
    (tm.withEtag call record).get? c = record.get? c := by
  unfold TreeModel.withEtag
  split
  · exact Record.get?_set_of_ne _ (hc.ne_of_engine (by decide))
  · rfl

/-- Setting `updated_at` is no matter of the tree's columns. -/
theorem touch_treeCol {now : String} {r : Row} {c : String} (hc : tm.TreeCol c) : tm.touch now r c = r c := by
  unfold TreeModel.touch
  split
  · exact Row.set_of_ne _ _ (hc.ne_of_engine (by decide))
  · rfl

theorem activeRow_ok {id k : String} {r : Row} (h : tm.activeRow env t id = .ok (some (k, r))) :
    env.keys.parse id = some k ∧ t.get? k = some r ∧ tm.active r = true := by
  unfold TreeModel.activeRow at h
  split at h
  · cases h
  rename_i k' hparse
  split at h
  · rename_i r' hr'
    by_cases hact : tm.active r' = true
    · rw [if_pos hact] at h
      cases h
      exact ⟨hparse, hr', hact⟩
    · rw [if_neg hact] at h
      cases h
  · cases h

/-- A column of the updated row: the one a kept entry of the record sets, or as it was. -/
structure Updated (env : Env) (tm : TreeModel) (call : Call) (record : Record) (r row : Row) : Prop where
  frame : ∀ {c}, tm.TreeCol c → record.get? c = none → row c = r c
  stored : ∀ {c v}, tm.TreeCol c → tm.Kept call c → record.get? c = some v → tm.coerce env c v = some (row c)

/-- What the statement of a write does, when the record does not name the key. -/
theorem writeOneRecordTx_ok {call : Call} {id : String} {record : Record} {expectedEtag : Option String}
    {t' : Rows} {row : Row} (hinv : tm.TreeInv env t) (hpk : record.get? tm.pkCol = none)
    (h : tm.writeOneRecordTx env t call id record expectedEtag = .ok (t', row)) :
    ∃ k r, env.keys.parse id = some k ∧ t.get? k = some r ∧ tm.active r = true ∧ t' = t.insert k row ∧
      tm.keyOf row = some k ∧ tm.fkOk t' row = true ∧ Updated env tm call record r row := by
  obtain ⟨assigned, hassign, h⟩ := bind_eq_ok.mp h
  split at h
  · cases h
  obtain ⟨found, hfound, h⟩ := bind_eq_ok.mp h
  split at h
  · cases h
  rename_i k r
  obtain ⟨hid, hr, hact⟩ := activeRow_ok hfound
  split at h
  · cases h
  obtain ⟨row₀, hstore, h⟩ := bind_eq_ok.mp h
  obtain ⟨t₁, hreplace, h⟩ := bind_eq_ok.mp h
  obtain ⟨rfl, rfl⟩ := Prod.mk.inj (Except.ok.inj h)
  -- `updated_at` is set apart, and is no column of a tree
  have hcol : ∀ {c}, tm.TreeCol c →
      match Record.get? assigned c with
      | none => row₀ c = r c
      | some v => tm.coerce env c v = some (row₀ c) := by
    intro c hc
    have hstored := storeCols_ok hstore c
    rwa [Record.get?_filter fun x => x ≠ "updated_at", if_pos] at hstored
    simpa using hc.ne_of_engine (by decide)
  have hupdated : Updated env tm call record r (tm.touch call.now row₀) := by
    refine ⟨fun {c} hc hnone => ?_, fun {c v} hc hkept hv => ?_⟩
    · have hassigned : Record.get? assigned c = none := by
        rw [buildAssignment_get? hassign, hnone, ite_self]
      have hcol := hcol hc
      rw [hassigned] at hcol
      rw [touch_treeCol hc, hcol]
    have hassigned : Record.get? assigned c = some v := by
      rw [buildAssignment_get? hassign, if_neg (by simp [show dropped _ _ _ = false from hkept]), hv]
    have hcol := hcol hc
    rw [hassigned] at hcol
    rw [touch_treeCol hc, hcol]
  -- the primary key is not written, so the row keeps its place
  have hkey : tm.keyOf (tm.touch call.now row₀) = some k := by
    rw [← (hinv.key hr).1, TreeModel.keyOf, TreeModel.keyOf, hupdated.frame treeCol_pk hpk]
  unfold TreeModel.replaceRow at hreplace
  rw [hkey] at hreplace
  dsimp only at hreplace
  rw [if_pos rfl] at hreplace
  split at hreplace
  · rename_i hfk
    cases hreplace
    exact ⟨k, r, hid, hr, hact, rfl, hkey, hfk, hupdated⟩
  · cases hreplace

end


section

variable {env : Env} {tm : TreeModel} {t : Rows} {f : String} (old new : List String) (r : Row)

/-- Rewriting touches the path column only. -/
theorem rewriteRow_of_ne {c : String} (hc : c ≠ pathCol f) : tm.rewriteRow f old new r c = r c := by
  unfold TreeModel.rewriteRow
  split
  · exact Row.set_of_ne _ _ hc
  · rfl

theorem active_rewriteRow (hf : f ∈ tm.treeFields) : tm.active (tm.rewriteRow f old new r) = tm.active r := by
  unfold TreeModel.active
  rw [rewriteRow_of_ne old new r (Ne.symm ((treeCol_path hf).ne_of_engine (by decide)))]

variable {g : String}

theorem parentOf_rewriteRow (hf : f ∈ tm.treeFields) (hg : g ∈ tm.treeFields) :
    parentOf (tm.rewriteRow f old new r) g = parentOf r g := by
  unfold parentOf
  rw [rewriteRow_of_ne old new r (Ne.symm (pathCol_ne_tree hf hg))]

theorem pathOf_rewriteRow_of_ne (hne : g ≠ f) : pathOf (tm.rewriteRow f old new r) g = pathOf r g := by
  unfold pathOf
  rw [rewriteRow_of_ne old new r fun heq => hne (pathCol_inj heq)]

/-- The `CASE` of the rewrite is a rebase. -/
theorem pathOf_rewriteRow (hact : tm.active r = true) :
    pathOf (tm.rewriteRow f old new r) f = Forest.rebase old new (pathOf r f) := by
  unfold TreeModel.rewriteRow Forest.rebase
  rw [hact, Bool.true_and]
  by_cases hpre : old <+: pathOf r f
  · rw [if_pos (List.isPrefixOf_iff_prefix.mpr hpre), if_pos hpre]
    rw [pathOf_set_self]
    split
    · rename_i heq
      rw [heq, drop_length, append_nil]
    · rfl
  · rw [if_neg fun h => hpre (List.isPrefixOf_iff_prefix.mp h), if_neg hpre]

theorem forestOf_rewritePaths (hf : f ∈ tm.treeFields) (j : String) : tm.forestOf f (tm.rewritePaths t f old new) j =
      (tm.forestOf f t j).map fun x => (x.1, Forest.rebase old new x.2) := by
  unfold TreeModel.forestOf TreeModel.rewritePaths
  rw [Table.get?_update]
  cases t.get? j with
  | none => rfl
  | some r =>
    simp only [Option.map_some, Option.bind_some, active_rewriteRow old new r hf]
    by_cases hact : tm.active r = true
    · rw [if_pos hact, if_pos hact, parentOf_rewriteRow old new r hf hf, pathOf_rewriteRow old new r hact]
      rfl
    · rw [if_neg hact, if_neg hact]
      rfl

theorem forestOf_rewritePaths_of_ne (hf : f ∈ tm.treeFields) (hg : g ∈ tm.treeFields) (hne : g ≠ f) :
    tm.forestOf g (tm.rewritePaths t f old new) = tm.forestOf g t := by
  funext j
  unfold TreeModel.forestOf TreeModel.rewritePaths
  rw [Table.get?_update]
  cases t.get? j with
  | none => rfl
  | some r =>
    simp only [Option.map_some, Option.bind_some, active_rewriteRow old new r hf,
      parentOf_rewriteRow old new r hf hg, pathOf_rewriteRow_of_ne old new r hne]

end

section

variable {env : Env} {tm : TreeModel} {t : Rows} {f id : String} {record : Record}

theorem newPrefix_ok {old new : List String} {v : Value} (h : tm.newPrefix env t f id old v = .ok new) :
    (v = .null ∧ new = [ltreeLabel id]) ∨
    ∃ p q ppath, keyValue env.keys v = some (.text p) ∧ tm.forestOf f t p = some (q, ppath) ∧
      ¬ old <+: ppath ∧ new = ppath ++ [ltreeLabel id] := by
  unfold TreeModel.newPrefix at h
  split at h
  · exact .inl ⟨rfl, (Except.ok.inj h).symm⟩
  obtain ⟨ppath, hlook, h⟩ := bind_eq_ok.mp h
  split at h
  · cases h
  rename_i hne
  obtain ⟨p, q, hkey, hforest⟩ := lookupTreePath_ok hlook hne
  split at h
  · cases h
  rename_i hcycle
  refine .inr ⟨p, q, ppath, hkey, hforest, ?_, (Except.ok.inj h).symm⟩
  exact fun hpre => hcycle (List.isPrefixOf_iff_prefix.mpr hpre)

variable {t' : Rows}

/-- The two results of maintaining a field: nothing, or a rewrite. -/
theorem maintainField_ok (h : tm.maintainField env t id record f = .ok t') :
    (t' = t ∧ ∀ v, record.get? f = some v → tm.lookupTreePath env t f (.text id) = .ok []) ∨
    ∃ v old new, record.get? f = some v ∧ tm.lookupTreePath env t f (.text id) = .ok old ∧ old ≠ [] ∧
      tm.newPrefix env t f id old v = .ok new ∧ t' = tm.rewritePaths t f old new := by
  unfold TreeModel.maintainField at h
  split at h
  · rename_i hnone
    refine .inl ⟨(Except.ok.inj h).symm, fun v hv => ?_⟩
    rw [hnone] at hv
    cases hv
  rename_i v hv
  obtain ⟨old, hold, h⟩ := bind_eq_ok.mp h
  split at h
  · rename_i hempty
    exact .inl ⟨(Except.ok.inj h).symm, fun _ _ => hempty ▸ hold⟩
  rename_i hne
  obtain ⟨new, hnew, h⟩ := bind_eq_ok.mp h
  split at h
  · exact .inr ⟨v, old, new, hv, hold, hne, hnew, (Except.ok.inj h).symm⟩
  · cases h

/-- Maintaining a field leaves the other forests, the keys and the foreign keys. -/
theorem maintainField_frame (hf : f ∈ tm.treeFields) (h : tm.maintainField env t id record f = .ok t') {g : String}
    (hg : g ∈ tm.treeFields) (hne : g ≠ f) : tm.forestOf g t' = tm.forestOf g t := by
  rcases maintainField_ok h with ⟨rfl, -⟩ | ⟨v, old, new, -, -, -, -, rfl⟩
  · rfl
  · exact forestOf_rewritePaths_of_ne old new hf hg hne

/-- The forest of a field after the statement of a write: the row under `k` has its new parent and the path it
    had, or is gone. -/
structure AfterUpdate (env : Env) (record : Record) (id f k : String) (F₀ F : Forest String String) : Prop where
  other : ∀ {j}, j ≠ k → F j = F₀ j
  own : ∃ p old, F₀ k = some (p, old) ∧ (F k = none ∨ ∃ parent, F k = some (parent, old) ∧
    (record.get? f = none → parent = p) ∧
    ∀ {v}, record.get? f = some v → id = k ∧ ∃ w, keyValue env.keys v = some w ∧ parent = refKey w)

/-- **Maintaining a field moves the row and the subtree below it.** -/
theorem maintainField_pathInv {k : String} {F₀ : Forest String String} (hf : f ∈ tm.treeFields)
    (hinv : Forest.PathInv ltreeLabel F₀)
    (hinj : ∀ {i j x y}, F₀ i = some x → F₀ j = some y → ltreeLabel i = ltreeLabel j → i = j)
    (hid : env.keys.parse id = some k) (hafter : AfterUpdate env record id f k F₀ (tm.forestOf f t))
    (h : tm.maintainField env t id record f = .ok t') : Forest.PathInv ltreeLabel (tm.forestOf f t') := by
  obtain ⟨p, old, hF₀k, hown⟩ := hafter.own
  have hlook : tm.lookupTreePath env t f (.text id) = .ok (((tm.forestOf f t k).map Prod.snd).getD []) :=
    lookupTreePath_text hid
  rcases maintainField_ok h with ⟨rfl, hempty⟩ | ⟨v, old', new, hv, hold, hne, hnew, rfl⟩
  · -- nothing rewritten: the row is gone, or its parent was not touched
    refine hinv.restrict fun j => ?_
    by_cases hj : j = k
    · subst hj
      rcases hown with hgone | ⟨parent, hk, hframe, -⟩
      · exact .inr hgone
      left
      cases hrec : record.get? f with
      | none => rw [hk, hF₀k, hframe hrec]
      | some v =>
        have hnil := hlook.symm.trans (hempty v hrec)
        rw [hk] at hnil
        obtain ⟨pre, hpre⟩ := hinv.ends hF₀k
        rw [hpre] at hnil
        simpa using Except.ok.inj hnil
    · exact .inl (hafter.other hj)
  · rcases hown with hgone | ⟨parent, hk, -, htouched⟩
    · rw [hgone] at hlook
      exact absurd (Except.ok.inj (hold.symm.trans hlook)) hne
    obtain ⟨rfl, w, hw, hparent⟩ := htouched hv
    -- the old path read is the stored one
    rw [hk] at hlook
    obtain rfl : old' = old := Except.ok.inj (hold.symm.trans hlook)
    have hmoved : tm.forestOf f (tm.rewritePaths t f old' new) = Forest.moved F₀ id parent old' new := by
      funext j
      rw [forestOf_rewritePaths old' new hf, Forest.moved]
      by_cases hj : j = id
      · subst hj
        rw [hk, hF₀k]
        simp
      · rw [hafter.other hj]
        simp [hj]
    rw [hmoved]
    rcases newPrefix_ok hnew with ⟨rfl, rfl⟩ | ⟨q, x, qpath, hq, hforest, hcycle, rfl⟩
    · obtain rfl : parent = none := by
        rw [hparent, ← Option.some.inj hw]
        rfl
      exact hinv.move hinj hF₀k rfl fun _ _ h _ => by cases h
    obtain rfl : parent = some q := by
      rw [hparent, Option.some.inj (hw.symm.trans hq)]
      rfl
    -- the new parent is another row, whose node the statement left alone
    have hqk : q ≠ id := by
      rintro rfl
      rw [hk] at hforest
      cases hforest
      exact hcycle (prefix_refl _)
    rw [hafter.other hqk] at hforest
    refine hinv.move hinj hF₀k (by rw [Forest.prefixFor, hforest]; rfl) ?_
    intro q' y hq' hy
    cases hq'
    rw [hforest] at hy
    cases hy
    exact hcycle

theorem maintainField_keyed (hf : f ∈ tm.treeFields) (hkeyed : tm.Keyed env t)
    (h : tm.maintainField env t id record f = .ok t') : tm.Keyed env t' := by
  rcases maintainField_ok h with ⟨rfl, -⟩ | ⟨v, old, new, -, -, -, -, rfl⟩
  · exact hkeyed
  -- a rewritten row has the key and the parents it had
  unfold TreeModel.rewritePaths
  refine ⟨fun {k r'} hk => ?_, fun {k r' g p} hk hg hp => ?_⟩
  · rw [Table.get?_update] at hk
    obtain ⟨r, hr, rfl⟩ := Option.map_eq_some_iff.mp hk
    refine ⟨?_, (hkeyed.key hr).2⟩
    rw [TreeModel.keyOf, rewriteRow_of_ne old new r (Ne.symm (pathCol_ne_pk hf))]
    exact (hkeyed.key hr).1
  rw [Table.get?_update] at hk
  obtain ⟨r, hr, rfl⟩ := Option.map_eq_some_iff.mp hk
  rw [parentOf_rewriteRow old new r hf hg] at hp
  rw [Table.get?_update, Option.isSome_map]
  exact hkeyed.fk hr hg hp

/-- The loop over the tree fields: the forests already maintained are right, the others are as the statement
    left them. -/
theorem maintainFields_treeInv {k : String} (F₀ : String → Forest String String)
    (hinv : ∀ f ∈ tm.treeFields, Forest.PathInv ltreeLabel (F₀ f))
    (hinj : ∀ f ∈ tm.treeFields, ∀ {i j x y}, F₀ f i = some x → F₀ f j = some y →
      ltreeLabel i = ltreeLabel j → i = j) (hid : env.keys.parse id = some k) :
    ∀ {fs : List String} {t t' : Rows}, fs.Nodup → (∀ f ∈ fs, f ∈ tm.treeFields) → tm.Keyed env t →
      (∀ g ∈ tm.treeFields, g ∉ fs → Forest.PathInv ltreeLabel (tm.forestOf g t)) →
      (∀ f ∈ fs, AfterUpdate env record id f k (F₀ f) (tm.forestOf f t)) →
      tm.maintainFields env id record t fs = .ok t' → tm.TreeInv env t' := by
  intro fs
  induction fs with
  | nil =>
    intro t t' _ _ hkeyed hdone _ h
    cases h
    exact ⟨hkeyed, fun {f} hf => hdone f hf (by simp)⟩
  | cons f fs ih =>
    intro t t' hnodup hfs hkeyed hdone hafter h
    obtain ⟨t₁, hstep, h⟩ := bind_eq_ok.mp h
    obtain ⟨hnotMem, hnodup⟩ := nodup_cons.mp hnodup
    have hf : f ∈ tm.treeFields := hfs f (by simp)
    refine ih hnodup (fun g hg => hfs g (by simp [hg])) (maintainField_keyed hf hkeyed hstep) ?_ ?_ h
    · intro g hg hgfs
      by_cases hgf : g = f
      · subst hgf
        exact maintainField_pathInv hf (hinv g hf) (hinj g hf) hid (hafter g (by simp)) hstep
      · rw [maintainField_frame hf hstep hg hgf]
        exact hdone g hg (by simp [hgf, hgfs])
    · intro g hg
      have hgf : g ≠ f := fun heq => hnotMem (heq ▸ hg)
      rw [maintainField_frame hf hstep (hfs g (by simp [hg])) hgf]
      exact hafter g (by simp [hg])

end

section

variable {env : Env} {tm : TreeModel} {t t' : Rows}

theorem TreeModel.TreeInv.label_inj (hinv : tm.TreeInv env t) {f i j : String} {x y : Option String × List String}
    (hi : tm.forestOf f t i = some x) (hj : tm.forestOf f t j = some y) (h : ltreeLabel i = ltreeLabel j) : i = j := by
  obtain ⟨r, hr, -⟩ := forestOf_eq_some.mp (show tm.forestOf f t i = some (x.1, x.2) from hi)
  obtain ⟨s, hs, -⟩ := forestOf_eq_some.mp (show tm.forestOf f t j = some (y.1, y.2) from hj)
  exact env.keys.label_inj (hinv.key hr).2 (hinv.key hs).2 h

variable {call : Call} {record : Record}

/-- **One record written keeps the invariant.** -/
theorem writeRecord_treeInv (hinv : tm.TreeInv env t) {id : String} {touched : Record} {expectedEtag : Option String}
    (hsafe : tm.WriteSafe env call [id] record) (hsame : ∀ f ∈ tm.treeFields, touched.get? f = record.get? f)
    (h : tm.writeRecord env t call id record touched expectedEtag = .ok t') : tm.TreeInv env t' := by
  obtain ⟨⟨t₁, row⟩, hwrite, h⟩ := bind_eq_ok.mp h
  obtain ⟨t₂, hmaintain, h⟩ := bind_eq_ok.mp h
  obtain ⟨_, -, h⟩ := bind_eq_ok.mp h
  cases h
  obtain ⟨k, r, hid, hr, hact, rfl, hkey, hfk, hupdated⟩ := writeOneRecordTx_ok hinv hsafe.1 hwrite
  refine maintainFields_treeInv (fun f => tm.forestOf f t) (fun f hf => hinv.paths hf)
    (fun f _ => hinv.label_inj) hid treeFields_nodup (fun f hf => hf)
    (hinv.toKeyed.insert hkey (hinv.key hr).2 hfk) (fun g hg hng => absurd hg hng) (fun f hf => ?_) hmaintain
  -- the statement gave the row its new parent and left its path
  obtain ⟨hnoPath, htouch⟩ := hsafe.2 f hf
  have hpath : pathOf row f = pathOf r f := by
    unfold pathOf
    rw [hupdated.frame (treeCol_path hf) hnoPath]
  refine ⟨fun {j} hj => by rw [forestOf_insert, if_neg hj],
    parentOf r f, pathOf r f, forestOf_eq_some.mpr ⟨r, hr, hact, rfl, rfl⟩, ?_⟩
  rw [forestOf_insert, if_pos rfl]
  by_cases hrow : tm.active row = true
  · rw [if_pos hrow]
    refine .inr ⟨parentOf row f, by rw [hpath], fun hnone => ?_, fun {v} hv => ?_⟩
    · rw [parentOf, parentOf, hupdated.frame (treeCol_field hf) ((hsame f hf).symm.trans hnone)]
    rw [hsame f hf] at hv
    obtain ⟨hkept, hcanon⟩ := htouch (by rw [hv]; simp)
    have hidk : id = k := Option.some.inj ((hcanon id (by simp)).symm.trans hid)
    refine ⟨hidk, row f, ?_, rfl⟩
    exact (coerce_field hf v).symm.trans (hupdated.stored (treeCol_field hf) hkept hv)
  · exact .inl (if_neg hrow)

/-- The loop of write_many. -/
theorem writeIds_treeInv : ∀ {ids : List String} {t : Rows}, tm.TreeInv env t → tm.WriteSafe env call ids record →
      tm.writeIds env call record t ids = .ok t' → tm.TreeInv env t' := by
  intro ids
  induction ids with
  | nil =>
    intro t hinv _ h
    cases h
    exact hinv
  | cons id ids ih =>
    intro t hinv hsafe h
    obtain ⟨t₁, hone, h⟩ := bind_eq_ok.mp h
    refine ih (writeRecord_treeInv hinv ?_ (fun _ _ => rfl) hone) ?_ h
    · refine ⟨hsafe.1, fun f hf => ⟨(hsafe.2 f hf).1, fun hne => ?_⟩⟩
      obtain ⟨hkept, hcanon⟩ := (hsafe.2 f hf).2 hne
      exact ⟨hkept, fun id' hid' => hcanon id' (by simpa using .inl (mem_singleton.mp hid'))⟩
    refine ⟨hsafe.1, fun f hf => ⟨(hsafe.2 f hf).1, fun hne => ?_⟩⟩
    obtain ⟨hkept, hcanon⟩ := (hsafe.2 f hf).2 hne
    exact ⟨hkept, fun id' hid' => hcanon id' (by simp [hid'])⟩

/-- The etag the engine adds is no column of the tree. -/
theorem writeSafe_withEtag {ids : List String} (h : tm.WriteSafe env call ids record) :
    tm.WriteSafe env call ids (tm.withEtag call record) := by
  refine ⟨(withEtag_get? treeCol_pk).trans h.1, fun f hf => ?_⟩
  rw [withEtag_get? (treeCol_path hf), withEtag_get? (treeCol_field hf)]
  exact h.2 f hf

/-- A table with fewer rows, whose rows refer to rows that are left. -/
theorem TreeModel.TreeInv.shrink (hinv : tm.TreeInv env t) (hsub : ∀ k r, t'.get? k = some r → t.get? k = some r)
    (hfk : ∀ k r f p, t'.get? k = some r → f ∈ tm.treeFields → parentOf r f = some p →
      (t'.get? p).isSome = true) : tm.TreeInv env t' := by
  refine ⟨⟨fun {k r} hk => hinv.key (hsub k r hk), fun {k r f p} hk hf hp => hfk k r f p hk hf hp⟩, fun {f} hf => ?_⟩
  refine (hinv.paths hf).restrict fun k => ?_
  unfold TreeModel.forestOf
  cases hk : t'.get? k with
  | none => exact .inr rfl
  | some r => exact .inl (by rw [hsub k r hk])

theorem markDeleted_treeCol {r : Row} {c : String} (hc : tm.TreeCol c) : tm.markDeleted call r c = r c := by
  have htouch : tm.touch call.now (r.set "deleted_at" (.text call.now)) c = r c := by
    rw [touch_treeCol hc, Row.set_of_ne _ _ (hc.ne_of_engine (by decide))]
  unfold TreeModel.markDeleted
  split
  · rw [Row.set_of_ne _ _ (hc.ne_of_engine (by decide)), htouch]
  · exact htouch

theorem active_markDeleted {r : Row} (h : tm.md.hasField "deleted_at" = true) :
    tm.active (tm.markDeleted call r) = false := by
  have hcol : tm.markDeleted call r "deleted_at" = .text call.now := by
    unfold TreeModel.markDeleted TreeModel.touch
    split <;> split <;> simp [Row.set]
  unfold TreeModel.active
  rw [h, hcol]
  rfl

/-- **An unlinked row keeps the invariant.** A soft delete takes the row out of the forests, a hard delete that
    sets no parent to null takes out the row and what cascades from it. -/
theorem unlinkOne_treeInv (hinv : tm.TreeInv env t) {id : String}
    (hsafe : tm.md.hasField "deleted_at" = true ∨ tm.treeFieldsWith .setNull = [])
    (h : tm.unlinkOne env t call id = .ok t') : tm.TreeInv env t' := by
  obtain ⟨found, hfound, h⟩ := bind_eq_ok.mp h
  split at h
  · cases h
  rename_i k r
  obtain ⟨-, hr, -⟩ := activeRow_ok hfound
  obtain ⟨_, -, h⟩ := bind_eq_ok.mp h
  by_cases hsoft : tm.md.hasField "deleted_at" = true
  · rw [if_pos hsoft] at h
    cases h
    have hkey : tm.keyOf (tm.markDeleted call r) = some k := by
      rw [TreeModel.keyOf, markDeleted_treeCol treeCol_pk]
      exact (hinv.key hr).1
    have hfk : tm.fkOk (t.insert k (tm.markDeleted call r)) (tm.markDeleted call r) = true := by
      refine fkOk_iff.mpr fun f hf p hp => ?_
      rw [parentOf, markDeleted_treeCol (treeCol_field hf)] at hp
      rw [Table.get?_insert]
      split
      · rfl
      · exact hinv.fk hr hf hp
    refine ⟨hinv.toKeyed.insert hkey (hinv.key hr).2 hfk, fun {f} hf => ?_⟩
    refine (hinv.paths hf).restrict fun j => ?_
    rw [forestOf_insert, active_markDeleted hsoft]
    by_cases hj : j = k
    · exact .inr (by rw [if_pos hj]; rfl)
    · exact .inl (if_neg hj)
  · rw [if_neg hsoft] at h
    have hnull : tm.treeFieldsWith .setNull = [] := hsafe.resolve_left hsoft
    unfold TreeModel.deleteRow at h
    dsimp only at h
    split at h
    · rename_i hleft
      cases h
      have hid : ∀ keys (r : Row), tm.setNull keys r = r := by
        intro keys r
        funext c
        rw [TreeModel.setNull, if_neg (by simp [hnull])]
      have hget : ∀ j s, ((t.filter fun j _ => j ∉ tm.cascade t t.rows.length [k]).update fun _ r =>
          tm.setNull (tm.cascade t t.rows.length [k]) r).get? j = some s →
          t.get? j = some s ∧ j ∉ tm.cascade t t.rows.length [k] := by
        intro j s hj
        rw [Table.get?_update, Table.get?_filter] at hj
        obtain ⟨s', hs', rfl⟩ := Option.map_eq_some_iff.mp hj
        obtain ⟨hs', hkeep⟩ := Option.filter_eq_some_iff.mp hs'
        rw [hid]
        exact ⟨hs', by simpa using hkeep⟩
      refine hinv.shrink (fun j s hj => (hget j s hj).1) fun j s f p hj hf hp => ?_
      -- no row that is left refers to a deleted one
      have hkept : p ∉ tm.cascade t t.rows.length [k] := by
        intro hmem
        have hrefers : j ∈ referring ((t.filter fun j _ => j ∉ tm.cascade t t.rows.length [k]).update fun _ r =>
            tm.setNull (tm.cascade t t.rows.length [k]) r) tm.treeFields (tm.cascade t t.rows.length [k]) := by
          refine mem_map.mpr ⟨(j, s), mem_filter.mpr ⟨Table.mem_rows.mpr hj, ?_⟩, rfl⟩
          refine List.any_eq_true.mpr ⟨f, hf, ?_⟩
          rw [hp]
          simpa using hmem
        rw [hleft] at hrefers
        cases hrefers
      obtain ⟨q, hq⟩ := Option.isSome_iff_exists.mp (hinv.fk (hget j s hj).1 hf hp)
      rw [Table.get?_update, Table.get?_filter, hq, Option.isSome_map]
      simp [hkept]
    · cases h

theorem unlink_treeInv (hsafe : tm.md.hasField "deleted_at" = true ∨ tm.treeFieldsWith .setNull = []) :
    ∀ {ids : List String} {t : Rows}, tm.TreeInv env t → tm.unlink env call t ids = .ok t' →
      tm.TreeInv env t' := by
  intro ids
  induction ids with
  | nil =>
    intro t hinv h
    cases h
    exact hinv
  | cons id ids ih =>
    intro t hinv h
    obtain ⟨t₁, hone, h⟩ := bind_eq_ok.mp h
    exact ih (unlinkOne_treeInv hinv hsafe hone) h

/-- **Every call that leaves the engine's columns alone keeps the invariant.** -/
theorem step_treeInv (op : Op) (hinv : tm.TreeInv env t) (hsafe : tm.PathSafe env t op)
    (h : tm.step env t op = some t') : tm.TreeInv env t' := by
  unfold TreeModel.step at h
  split at h <;> cases h
  rename_i t₁ hexec
  cases op with
  | create call record onConflict => exact create_treeInv hinv hsafe.1 hsafe.2 hexec
  | write call id record expectedEtag =>
    obtain ⟨_, -, h⟩ := bind_eq_ok.mp hexec
    obtain ⟨_, -, h⟩ := bind_eq_ok.mp h
    refine writeRecord_treeInv hinv (writeSafe_withEtag hsafe) (fun f hf => ?_) h
    exact (withEtag_get? (treeCol_field hf)).symm
  | writeMany call ids record =>
    obtain ⟨_, -, h⟩ := bind_eq_ok.mp hexec
    obtain ⟨_, -, h⟩ := bind_eq_ok.mp h
    exact writeIds_treeInv hinv (writeSafe_withEtag hsafe) h
  | unlink call ids => exact unlink_treeInv hsafe hinv hexec

/-- The invariant is what the engine promises of each tree field. -/
theorem TreeModel.TreeInv.treePaths (hinv : tm.TreeInv env t) {f : String} (hf : f ∈ tm.treeFields) :
    tm.TreePaths f t := by
  refine ⟨(hinv.paths hf).acyclic, fun k r hk hact hp => ?_, fun k r p q hk hact hp hq hqact => ?_⟩
  · exact (hinv.paths hf).root (forestOf_eq_some.mpr ⟨r, hk, hact, hp, rfl⟩)
  · exact (hinv.paths hf).child (forestOf_eq_some.mpr ⟨r, hk, hact, hp, rfl⟩)
      (forestOf_eq_some.mpr ⟨q, hq, hqact, rfl, rfl⟩)

end

/-- **Paths agree with links along every run of safe calls**: as long as each call meets `PathSafe` in the table it
runs on, the parent links of active rows have no cycle, and the path of every active row is its label under its
parent's path. -/
theorem treePaths_of_run (env : Env) (tm : TreeModel) (ops : List Op) (t t' : Rows) (hinv : tm.TreeInv env t)
    (hsafe : Run.Along (tm.step env) (fun t op => tm.PathSafe env t op) t ops)
    (hrun : Run.run (tm.step env) t ops = some t') : ∀ f ∈ tm.treeFields, tm.TreePaths f t' := by
  have hend : tm.TreeInv env t' :=
    Run.run_invariant (fun _ op _ hinv hsafe hstep => step_treeInv op hinv hsafe hstep) hinv hsafe hrun
  intro f hf
  exact hend.treePaths hf


/-! ## A table of categories -/

/-- The canonical text of a UUID, from its 32 digits. -/
def uuidText (hex : List Char) : List Char :=
  hex.take 8 ++ '-' :: (hex.drop 8).take 4 ++ '-' :: (hex.drop 12).take 4 ++ '-' :: (hex.drop 16).take 4 ++
    '-' :: hex.drop 20

/-- The digits of a text that Postgres reads as a UUID. -/
def uuidDigits (s : String) : List Char := (s.toList.filter fun c => c ≠ '-').map Char.toLower

def isHexDigit (c : Char) : Bool := 48 ≤ c.toNat && c.toNat ≤ 57 || 97 ≤ c.toNat && c.toNat ≤ 102

theorem isHexDigit_spec {c : Char} (h : isHexDigit c = true) : c ≠ '-' ∧ c.toLower = c := by
  simp only [isHexDigit, Bool.or_eq_true, Bool.and_eq_true, decide_eq_true_eq] at h
  constructor
  · rintro rfl
    exact absurd h (by decide)
  · have hupper : ¬ (c.val ≥ 'A'.val ∧ c.val ≤ 'Z'.val) := by
      rintro ⟨hA, hZ⟩
      have hA' : 65 ≤ c.toNat := hA
      have hZ' : c.toNat ≤ 90 := hZ
      omega
    exact dif_neg hupper

theorem uuidDigits_uuidText {hex : List Char} (hhex : hex.all isHexDigit = true) :
    uuidDigits (String.ofList (uuidText hex)) = hex := by
  have hdigit (c) (hc : c ∈ hex) := isHexDigit_spec (all_eq_true.mp hhex c hc)
  have hkeep : ∀ {l : List Char}, l ⊆ hex → l.filter (fun c => c ≠ '-') = l := fun hl =>
    filter_eq_self.mpr fun c hc => decide_eq_true (hdigit c (hl hc)).1
  have hparts : (uuidText hex).filter (fun c => c ≠ '-') = hex := by
    have hdash : ∀ l : List Char, ('-' :: l).filter (fun c => c ≠ '-') = l.filter fun c => c ≠ '-' := fun l => rfl
    simp only [uuidText, cons_append, append_assoc, filter_append, hdash]
    have hgroup (i : ℕ) : (hex.drop i).take 4 ⊆ hex := fun c hc => mem_of_mem_drop (mem_of_mem_take hc)
    rw [hkeep (take_subset _ _), hkeep (hgroup 8), hkeep (hgroup 12), hkeep (hgroup 16),
      hkeep (drop_subset _ _), show hex.drop 20 = (hex.drop 16).drop 4 by rw [drop_drop], take_append_drop,
      show hex.drop 16 = (hex.drop 12).drop 4 by rw [drop_drop], take_append_drop,
      show hex.drop 12 = (hex.drop 8).drop 4 by rw [drop_drop], take_append_drop, take_append_drop]
  rw [uuidDigits, String.toList_ofList, hparts]
  exact (map_congr_left fun c hc => (hdigit c hc).2).trans (map_id _)

/-- UUIDs; capitals and hyphens in other places are read too. -/
def uuidKeys : KeyType where
  parse s :=
    if (uuidDigits s).length = 32 ∧ (uuidDigits s).all isHexDigit = true then
      some (String.ofList (uuidText (uuidDigits s)))
    else none
  parse_canonical := by
    intro s k h
    split at h
    · rename_i hs
      rw [← Option.some.inj h, uuidDigits_uuidText hs.2, if_pos hs]
    · cases h
  label_inj := by
    have hcanonical : ∀ {k : String}, (if (uuidDigits k).length = 32 ∧ (uuidDigits k).all isHexDigit = true then
        some (String.ofList (uuidText (uuidDigits k))) else none) = some k →
        String.ofList (uuidText (uuidDigits k)) = k := by
      intro k hk
      split at hk
      · exact Option.some.inj hk
      · cases hk
    intro k l hk hl heq
    have hdigits : uuidDigits k = uuidDigits l := congrArg (map Char.toLower) (String.ofList_injective heq)
    rw [← hcanonical hk, ← hcanonical hl, hdigits]

def uuidEnv : Env where
  keys := uuidKeys
  uuid _ := true
  precheck _ := .ok ()
  hook _ _ := .ok ()
  next _ := "1"

def categoryModel : Model where
  name := "testmodule.category"
  fields := [{ name := "id", kind := .uuid, isPrimaryKey := true },
    { name := "parent_id", kind := .many2One, isTree := true }, { name := "name", kind := .text },
    { name := "deleted_at", kind := .timestampTZ }]

def category : TreeModel where
  md := categoryModel
  isTree := by decide
  pkCol := "id"
  hasPk := rfl
  distinct := by decide
  pkKind := by decide
  treeKind := by decide
  reserved := by decide

theorem parse_uuid {s : String} (h : (uuidDigits s).length = 32 ∧ (uuidDigits s).all isHexDigit = true) :
    uuidKeys.parse s = some (String.ofList (uuidText (uuidDigits s))) :=
  if_pos h

/-- A UUID, by its last digit. -/
def key (digit : Char) : String := String.ofList (uuidText (List.replicate 31 '0' ++ [digit]))

theorem parse_key {digit : Char} (h : isHexDigit digit = true) : uuidKeys.parse (key digit) = some (key digit) := by
  have hall : (List.replicate 31 '0' ++ [digit]).all isHexDigit = true := by
    simp only [all_append, all_cons, all_nil, h]
    decide
  have hdigits : uuidDigits (key digit) = List.replicate 31 '0' ++ [digit] := uuidDigits_uuidText hall
  have hparse : (uuidDigits (key digit)).length = 32 ∧ (uuidDigits (key digit)).all isHexDigit = true := by
    rw [hdigits]
    exact ⟨by simp, hall⟩
  rw [parse_uuid hparse, hdigits, key]

def anyone : Call := ⟨fun _ => none, ⟨"", none⟩, key '0', key '1', "e1", "now"⟩

/-- A create of a category, below another or at the root. -/
def createCategory (id : String) (parent : Value) : Op :=
  .create anyone [("id", .text id), ("parent_id", parent)] none

/-- A category moved. -/
def moveCategory (id : String) (parent : Value) : Op := .write anyone id [("parent_id", parent)] none

/-- `a` with `b` and `c` below it, `d` below `c`; then `c` moves to the root, and `a` below `d`. -/
def categoryOps : List Op :=
  [createCategory (key 'a') .null, createCategory (key 'b') (.text (key 'a')),
    createCategory (key 'c') (.text (key 'a')), createCategory (key 'd') (.text (key 'c')),
    moveCategory (key 'c') .null, moveCategory (key 'a') (.text (key 'd')), .unlink anyone [key 'b']]

theorem treeInv_empty : category.TreeInv uuidEnv Table.empty := by
  refine ⟨⟨?_, ?_⟩, fun {f} _ => ⟨?_, ?_, ?_⟩⟩
  · intro k r h
    cases h
  · intro k r f p h
    cases h
  · intro k p path h
    cases h
  · intro k path h
    cases h
  · intro k p path q qpath h
    cases h

theorem createCategory_safe {id : String} {parent : Value} (hid : uuidKeys.parse id = some id) (t : Rows) :
    category.PathSafe uuidEnv t (createCategory id parent) := by
  refine ⟨⟨by decide, ?_, ?_, ?_⟩, ?_⟩
  · intro s hs
    cases (show some (Value.text id) = some (.text s) from hs)
    exact hid
  · rintro c (rfl | hc | hc)
    · rfl
    · rw [show c = "parent_id" from mem_singleton.mp hc]
      exact (by decide : dropped categoryModel anyone.denied "parent_id" = false)
    · rw [show c = "parent_id_path" from mem_singleton.mp hc]
      exact (by decide : dropped categoryModel anyone.denied "parent_id_path" = false)
  · intro f hf _
    rw [show f = "parent_id" from mem_singleton.mp hf]
    rfl
  · intro oc hoc
    cases hoc

theorem moveCategory_safe {id : String} {parent : Value} (hid : uuidKeys.parse id = some id) (t : Rows) :
    category.PathSafe uuidEnv t (moveCategory id parent) := by
  refine ⟨rfl, fun f hf => ?_⟩
  rw [show f = "parent_id" from mem_singleton.mp hf]
  have hkept : dropped categoryModel anyone.denied "parent_id" = false := by decide
  refine ⟨rfl, fun _ => ⟨hkept, fun id' hid' => ?_⟩⟩
  rw [mem_singleton.mp hid']
  exact hid

theorem treePaths_of_run_moves : ∃ t', Run.run (category.step uuidEnv) Table.empty categoryOps = some t' ∧
    (t'.get? (key 'a')).map (fun r => pathOf r "parent_id") = some (['c', 'd', 'a'].map fun c => ltreeLabel (key c)) ∧
    ∀ f ∈ category.treeFields, category.TreePaths f t' := by
  have hpath : ((Run.run (category.step uuidEnv) Table.empty categoryOps).bind fun t => t.get? (key 'a')).map
      (fun r => pathOf r "parent_id") = some (['c', 'd', 'a'].map fun c => ltreeLabel (key c)) := by decide +kernel
  obtain ⟨r, hr, hlabels⟩ := Option.map_eq_some_iff.mp hpath
  obtain ⟨t', ht', hget⟩ := Option.bind_eq_some_iff.mp hr
  refine ⟨t', ht', by rw [hget, Option.map_some, hlabels], ?_⟩
  refine treePaths_of_run uuidEnv category categoryOps Table.empty t' treeInv_empty ?_ ht'
  refine Run.along_of_forall (fun op hop t => ?_) _
  simp only [categoryOps, mem_cons, not_mem_nil, or_false] at hop
  rcases hop with rfl | rfl | rfl | rfl | rfl | rfl | rfl
  iterate 4 exact createCategory_safe (parse_key rfl) t
  iterate 2 exact moveCategory_safe (parse_key rfl) t
  · exact .inl rfl

/-- The table after `a` is created. -/
def oneCategory : Rows := (category.step uuidEnv Table.empty (createCategory (key 'a') .null)).getD Table.empty

/-- **A write can name the path column**: it succeeds on a table with the invariant, and the root's path is no
    longer its label. -/
theorem write_names_path : category.TreeInv uuidEnv oneCategory ∧
    ∃ t', category.step uuidEnv oneCategory (.write anyone (key 'a') [("parent_id_path", .text "x")] none) = some t' ∧
      ¬ category.TreePaths "parent_id" t' := by
  constructor
  · have hstep : (category.step uuidEnv Table.empty (createCategory (key 'a') .null)).isSome = true := by decide
    obtain ⟨t, ht⟩ := Option.isSome_iff_exists.mp hstep
    rw [show oneCategory = t by rw [oneCategory, ht]; rfl]
    exact step_treeInv _ treeInv_empty (createCategory_safe (parse_key rfl) _) ht
  have hrow : ((category.step uuidEnv oneCategory
      (.write anyone (key 'a') [("parent_id_path", .text "x")] none)).bind fun t => t.get? (key 'a')).map
      (fun r => (category.active r, parentOf r "parent_id", pathOf r "parent_id")) = some (true, none, ["x"]) := by
    decide
  obtain ⟨r, hr, hfacts⟩ := Option.map_eq_some_iff.mp hrow
  obtain ⟨t', ht', hget⟩ := Option.bind_eq_some_iff.mp hr
  refine ⟨t', ht', fun hpaths => ?_⟩
  obtain ⟨hact, hparent, hpath⟩ : category.active r = true ∧ parentOf r "parent_id" = none ∧
      pathOf r "parent_id" = ["x"] := by simpa using hfacts
  have hroot := hpaths.root (key 'a') r hget hact hparent
  rw [hpath] at hroot
  exact absurd hroot (by decide)

end GoErp.Orm
