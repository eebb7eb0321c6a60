import HashJoin.Execute
import HashJoin.JoinProof
import HashJoin.MaterializeProof

/-!
# What a plan computes

The columns of each node have the rows that the plan means, up to their order and to what NULLs
leave behind.
-/

namespace HashJoin

open Bytes Chunks Relational

/-! ## Plans -/

/-- The values of a column of an input, as a scan finds them. -/
def scannedColumn (input : ColumnarTable) (tableId a : Nat) : List Value :=
  match input.columns[a]? with
  | none => []
  | some column =>
    (buildColumnInserter tableId a column column.type fun _ _ => 0).values.map Value.erase

/-- The rows of some columns of an input. -/
def scannedRows (inputs : List ColumnarTable) (tableId : Nat) (attrs : List Nat) :
    List (List Value) :=
  match inputs[tableId]? with
  | none => []
  | some input => transpose input.numRows (attrs.map (scannedColumn input tableId))

namespace Plan

variable (plan : Plan)

/-- The rows that a node means. -/
def rows (nodeIdx : Nat) : List (List Value) :=
  evalNode Value.key (scannedRows plan.inputs) plan.nodes nodeIdx

/-- The number of columns of a node. -/
def width (nodeIdx : Nat) : Nat :=
  match plan.nodes[nodeIdx]? with
  | none => 0
  | some node => node.outputAttrs.length

/-- Children come before their parents, and all indices are in range. -/
structure WellFormed : Prop where
  root : plan.root < plan.nodes.length
  scan : ∀ (idx : Nat) (node : PlanNode) (tableId : Nat), plan.nodes[idx]? = some node →
    node.data = .scan tableId →
      ∃ input, plan.inputs[tableId]? = some input ∧ ∀ a ∈ node.attrs, a < input.columns.length
  join : ∀ (idx : Nat) (node : PlanNode) (l r a b : Nat), plan.nodes[idx]? = some node →
    node.data = .join l r a b → l < idx ∧ r < idx ∧ a < plan.width l ∧ b < plan.width r ∧
      ∀ c ∈ node.attrs, c < plan.width l + plan.width r

/-- Every column that is scanned has the rows of its table, and is valid. -/
def InputsScan : Prop :=
  ∀ (idx : Nat) (node : PlanNode) (tableId : Nat) (input : ColumnarTable),
    plan.nodes[idx]? = some node → node.data = .scan tableId →
      plan.inputs[tableId]? = some input → ∀ a ∈ node.attrs, ∀ column,
        input.columns[a]? = some column → ∀ junk,
          (buildColumnInserter tableId a column column.type junk).Valid ∧
            (buildColumnInserter tableId a column column.type junk).numRows = input.numRows

/-- The build side of every join is one that a table can be made for. -/
def BuildsFit : Prop :=
  ∀ (idx : Nat) (node : PlanNode) (l r a b : Nat), plan.nodes[idx]? = some node →
    node.data = .join l r a b → min (plan.rows l).length (plan.rows r).length < 2 ^ 30

/-- The columns of a node. -/
structure IsResult (nodeIdx numRows : Nat) (results : List ColumnT) : Prop where
  length : results.length = plan.width nodeIdx
  aligned : Aligned numRows results
  rows : ((rowsOf numRows results).map (List.map Value.erase)).Perm (plan.rows nodeIdx)

end Plan

theorem Plan.IsResult.numRows {plan : Plan} {nodeIdx numRows : Nat} {results : List ColumnT}
    (h : plan.IsResult nodeIdx numRows results) : (plan.rows nodeIdx).length = numRows := by
  rw [← h.rows.length_eq, List.length_map, HashJoin.rowsOf, length_transpose]

/-! ## Scans -/

theorem Plan.executeScan_result {plan : Plan} (hplan : plan.WellFormed) (hinputs : plan.InputsScan)
    {idx tableId : Nat} {node : PlanNode} (hnode : plan.nodes[idx]? = some node)
    (hdata : node.data = .scan tableId) (junk : Nat → Nat → Nat → Int32) :
    ∃ results numRows, executeScan plan.inputs junk tableId node.outputAttrs = .ok results ∧
      plan.IsResult idx numRows results := by
  obtain ⟨input, hinput, hcolumns⟩ := hplan.scan idx node tableId hnode hdata
  have hcolumn : ∀ x ∈ node.outputAttrs.zipIdx, ∃ col, (do
      let column ← at? input.columns x.1.1
      .ok (buildColumnInserter tableId x.1.1 column column.type (junk x.2)) :
        Except Fault ColumnT) = .ok col ∧
      ∃ column, input.columns[x.1.1]? = some column ∧
        col = buildColumnInserter tableId x.1.1 column column.type (junk x.2) := by
    rintro ⟨attr, i⟩ hx
    have hattr : attr.1 ∈ node.attrs := List.mem_map_of_mem (List.fst_mem_of_mem_zipIdx hx)
    have hget := List.getElem?_eq_getElem (hcolumns attr.1 hattr)
    exact ⟨_, by rw [at?_eq_ok hget, ok_bind], _, hget, rfl⟩
  obtain ⟨results, hresults, hall⟩ := mapM_ok hcolumn
  refine ⟨results, input.numRows, ?_, ?_, ?_, ?_⟩
  · unfold executeScan
    rw [at?_eq_ok hinput, ok_bind]
    exact hresults
  · rw [← hall.length_eq, List.length_zipIdx, width, hnode]
  · intro col hcol
    obtain ⟨i, hi, rfl⟩ := List.mem_iff_getElem.mp hcol
    have hi' : i < node.outputAttrs.zipIdx.length := hall.length_eq ▸ hi
    obtain ⟨column, hget, hcol⟩ := hall.get hi' hi
    rw [List.get_eq_getElem] at hcol
    rw [hcol]
    exact hinputs idx node tableId input hnode hdata hinput _
      (List.mem_map_of_mem (List.fst_mem_of_mem_zipIdx (List.getElem_mem hi'))) column hget _
  · have hvalues : List.Forall₂
        (fun x col => scannedColumn input tableId x.1.1 = col.values.map Value.erase)
        node.outputAttrs.zipIdx results := by
      refine hall.imp fun x col ⟨column, hget, hcol⟩ => ?_
      unfold scannedColumn
      rw [hget, hcol]
      exact buildColumnInserter_erase _ _ _ _ _ _
    have hcols := List.forall₂_map_left_iff.mpr (List.forall₂_map_right_iff.mpr hvalues)
    rw [List.forall₂_eq_eq_eq] at hcols
    have hattrs : node.outputAttrs.zipIdx.map (fun x => scannedColumn input tableId x.1.1) =
        node.attrs.map (scannedColumn input tableId) := by
      unfold PlanNode.attrs
      rw [← List.zipIdx_map_fst 0 node.outputAttrs, List.map_map, List.map_map,
        List.zipIdx_map_fst]
      rfl
    rw [hattrs] at hcols
    apply List.Perm.of_eq
    unfold rows
    rw [evalNode_scan hnode hdata, scannedRows, hinput]
    show _ = transpose input.numRows (node.attrs.map (scannedColumn input tableId))
    rw [hcols, HashJoin.rowsOf, ← transpose_map, List.map_map]
    rfl

/-! ## Joins -/

section

variable {plan : Plan} {idx l r a b : Nat} {node : PlanNode} {nl nr : Nat}
  {left right : List ColumnT}

theorem Plan.WellFormed.joinOk (hplan : plan.WellFormed) (hnode : plan.nodes[idx]? = some node)
    (hdata : node.data = .join l r a b) (hl : plan.IsResult l nl left)
    (hr : plan.IsResult r nr right) :
    JoinAlgorithm.Ok ⟨left, right, a, b, node.outputAttrs⟩ nl nr := by
  obtain ⟨-, -, ha, hb, hattrs⟩ := hplan.join idx node l r a b hnode hdata
  refine ⟨hl.aligned, hr.aligned, ?_, ?_, fun c hc => ?_⟩
  · show a < left.length
    rwa [hl.length]
  · show b < right.length
    rwa [hr.length]
  · show c < left.length + right.length
    rw [hl.length, hr.length]
    exact hattrs c hc

/-- What the NULLs of the two sides leave behind does not reach the keys. -/
theorem Plan.WellFormed.isResult_join (hplan : plan.WellFormed)
    (hnode : plan.nodes[idx]? = some node) (hdata : node.data = .join l r a b)
    (hl : plan.IsResult l nl left) (hr : plan.IsResult r nr right) {results : List ColumnT}
    {rows : List (List Value)} (hresults : HoldsRows node.outputAttrs.length results rows)
    (hrows : rows.Perm (JoinAlgorithm.joined ⟨left, right, a, b, node.outputAttrs⟩ nl nr)) :
    plan.IsResult idx rows.length results := by
  obtain ⟨hlt, hrt, -, -, -⟩ := hplan.join idx node l r a b hnode hdata
  refine ⟨?_, hresults.aligned, ?_⟩
  · rw [hresults.columns.length_eq, length_transpose, width, hnode]
  · have hkey : Value.key ∘ Value.erase = Value.key := funext Value.key_erase
    have hmap := equiJoin_map Value.key a b Value.erase (rowsOf nl left) (rowsOf nr right)
    rw [hkey] at hmap
    have hproject : (JoinAlgorithm.joined ⟨left, right, a, b, node.outputAttrs⟩ nl nr).map
          (List.map Value.erase) =
        ((equiJoin Value.key a b (rowsOf nl left) (rowsOf nr right)).map
          (List.map Value.erase)).map (project node.attrs) := by
      unfold JoinAlgorithm.joined
      rw [List.map_map, List.map_map]
      exact List.map_congr_left fun row _ => (project_map Value.erase _ row).symm
    rw [hresults.rowsOf, Plan.rows, evalNode_join hnode hdata hlt hrt]
    apply (hrows.map _).trans
    rw [hproject, ← hmap]
    exact (equiJoin_perm Value.key a b hl.rows hr.rows).map _

end

/-- A table can only be made for fewer rows. -/
theorem JoinAlgorithm.size_of_run {j : JoinAlgorithm} {nl nr : Nat} (h : j.Ok nl nr)
    {env : JoinEnv} {numThreads : Nat} {global global' : GlobalAllocator} {results : List ColumnT}
    (hrun : j.run env numThreads global = .ok (results, global')) : min nl nr < 2 ^ 30 := by
  have hsize : ∀ {buildLeft build probe}, j.buildAndProbe env numThreads global buildLeft build
      probe = .ok (results, global') → build.numRows < 2 ^ 30 := fun hbuild => by
    obtain ⟨table, hnew, -⟩ := bind_eq_ok.mp hbuild
    obtain ⟨shiftVal, hshift, -⟩ := bind_eq_ok.mp hnew
    obtain ⟨-, hle, hlt⟩ := findShift_spec hshift
    exact hlt.trans_le (Nat.pow_le_pow_right Nat.two_pos hle)
  have hnl := (h.left _ (List.getElem_mem h.leftCol)).2
  have hnr := (h.right _ (List.getElem_mem h.rightCol)).2
  unfold run at hrun
  rw [at?_eq_ok (List.getElem?_eq_getElem h.leftCol), ok_bind,
    at?_eq_ok (List.getElem?_eq_getElem h.rightCol), ok_bind] at hrun
  split at hrun
  · omega
  · split at hrun
    · have := hsize hrun
      omega
    · have := hsize hrun
      omega

/-! ## The executor -/

section

variable {plan : Plan} {numThreads : Nat}

/-- Where the executor succeeds, it has computed what the node means. -/
theorem Plan.WellFormed.executeImpl_result (hplan : plan.WellFormed) (hinputs : plan.InputsScan)
    (hT : 0 < numThreads) {fuel : Nat} {env : List Bool → NodeEnv} {idx : Nat}
    {global global' : GlobalAllocator} {results : List ColumnT}
    (h : executeImpl plan numThreads fuel env idx global = .ok (results, global')) :
    ∃ n, plan.IsResult idx n results := by
  induction fuel generalizing env idx global results global' with
  | zero => cases h
  | succ fuel ih =>
    obtain ⟨node, hat, h⟩ := bind_eq_ok.mp h
    have hnode : plan.nodes[idx]? = some node := eq_some_of_at? hat
    cases hdata : node.data with
    | scan tableId =>
      rw [hdata] at h
      obtain ⟨results', hscan, h⟩ := bind_eq_ok.mp h
      obtain ⟨results'', n, hscan', hresult⟩ :=
        executeScan_result hplan hinputs hnode hdata (env []).junk
      have heq : results'' = results' := Except.ok.inj (hscan'.symm.trans hscan)
      have hret : (results', global) = (results, global') := Except.ok.inj h
      rw [heq, (Prod.mk.inj hret).1] at hresult
      exact ⟨n, hresult⟩
    | join l r a b =>
      rw [hdata] at h
      obtain ⟨⟨left, global₁⟩, hleft, h⟩ := bind_eq_ok.mp h
      obtain ⟨⟨right, global₂⟩, hright, h⟩ := bind_eq_ok.mp h
      obtain ⟨nl, hl⟩ := ih hleft
      obtain ⟨nr, hr⟩ := ih hright
      have hok := hplan.joinOk hnode hdata hl hr
      obtain ⟨results', global'', rows, hrun, hholds, hrows⟩ :=
        JoinAlgorithm.run_rows hok (JoinAlgorithm.size_of_run hok h) hT (env []).join global₂
      have heq : (results', global'') = (results, global') := Except.ok.inj (hrun.symm.trans h)
      rw [← (Prod.mk.inj heq).1]
      exact ⟨_, hplan.isResult_join hnode hdata hl hr hholds hrows⟩

/-- The executor succeeds when the build sides fit: a child has a smaller index, so that fewer
calls are inside each other than there are nodes. -/
theorem Plan.WellFormed.executeImpl_ok (hplan : plan.WellFormed) (hinputs : plan.InputsScan)
    (hbuilds : plan.BuildsFit) (hT : 0 < numThreads) {fuel : Nat} (env : List Bool → NodeEnv)
    (global : GlobalAllocator) {idx : Nat} (hidx : idx < plan.nodes.length) (hfuel : idx < fuel) :
    ∃ results global' n, executeImpl plan numThreads fuel env idx global = .ok (results, global') ∧
      plan.IsResult idx n results := by
  induction fuel generalizing env idx global with
  | zero => exact absurd hfuel (Nat.not_lt_zero idx)
  | succ fuel ih =>
    have hnode : plan.nodes[idx]? = some plan.nodes[idx] := List.getElem?_eq_getElem hidx
    unfold executeImpl
    rw [at?_eq_ok hnode, ok_bind]
    generalize plan.nodes[idx] = node at hnode
    cases hdata : node.data with
    | scan tableId =>
      obtain ⟨results, n, hscan, hresult⟩ :=
        executeScan_result hplan hinputs hnode hdata (env []).junk
      refine ⟨results, global, n, ?_, hresult⟩
      show (executeScan _ _ _ _ >>= _) = _
      rw [hscan, ok_bind]
    | join l r a b =>
      obtain ⟨hlt, hrt, -, -, -⟩ := hplan.join idx node l r a b hnode hdata
      obtain ⟨left, global₁, nl, hleft, hl⟩ :=
        ih (fun path => env (false :: path)) global (hlt.trans hidx) (by omega)
      obtain ⟨right, global₂, nr, hright, hr⟩ :=
        ih (fun path => env (true :: path)) global₁ (hrt.trans hidx) (by omega)
      have hsize := hbuilds idx node l r a b hnode hdata
      rw [hl.numRows, hr.numRows] at hsize
      obtain ⟨results, global', rows, hrun, hholds, hrows⟩ :=
        JoinAlgorithm.run_rows (hplan.joinOk hnode hdata hl hr) hsize hT (env []).join global₂
      refine ⟨results, global', rows.length, ?_,
        hplan.isResult_join hnode hdata hl hr hholds hrows⟩
      show (executeImpl _ _ _ _ _ _ >>= _) = _
      rw [hleft, ok_bind]
      show (executeImpl _ _ _ _ _ _ >>= _) = _
      rw [hright, ok_bind]
      exact hrun

end

/-! ## The columns of the table -/

theorem slicePages_nil (fresh : Nat → Nat → Page) (k n : Nat) : slicePages fresh k n [] = [] := by
  have hwrite : ∀ f : Nat → Page, ColumnInserter.write f ([] : List (Option Int32)) = [] :=
    fun _ => rfl
  simp [slicePages, slice, hwrite]

/-- An `INT32` column of a result, also one without rows. -/
theorem materializeColumn_valid {col : ColumnT} (hcol : col.Valid) (inputs : List ColumnarTable)
    (fresh : Nat → Nat → Page) (numThreads : Nat) :
    materializeColumn inputs .int32 fresh numThreads col.numRows col =
      .ok ⟨.int32, slicePages fresh (rowsPerThread col.numRows numThreads) numThreads
        (col.values.map int32Call)⟩ := by
  by_cases hzero : col.numRows = 0
  · have hnil : col.values = [] := List.length_eq_zero_iff.mp (hcol.numRows ▸ hzero)
    unfold materializeColumn
    rw [if_pos hzero, hnil, List.map_nil, slicePages_nil, hzero]
    rfl
  · exact materializeColumn_int32 hzero hcol.reads

/-- The number of rows of a result, by its first column. -/
def headRows : List ColumnT → Nat
  | [] => 0
  | col :: _ => col.numRows

theorem materialize_eq (inputs : List ColumnarTable) (results : List ColumnT)
    (types : List DataType) (fresh : Nat → Nat → Nat → Page) (numThreads : Nat) :
    materialize inputs results types fresh numThreads = (do
      let columns ← types.zipIdx.mapM fun (type, colIdx) => do
        let col ← at? results colIdx
        materializeColumn inputs type (fresh colIdx) numThreads (headRows results) col
      .ok { numRows := headRows results, columns := columns }) := by
  cases results <;> rfl

theorem headRows_eq {results : List ColumnT} {n : Nat} (h : Aligned n results)
    (hne : results ≠ []) : headRows results = n := by
  cases results with
  | nil => exact absurd rfl hne
  | cons col results => exact (h col (by simp)).2

/-- The columns of a table that was written for a result. -/
theorem materialize_columns {inputs : List ColumnarTable} {results : List ColumnT}
    {types : List DataType} {fresh : Nat → Nat → Nat → Page} {numThreads n : Nat}
    {table : ColumnarTable} (hresults : Aligned n results) (hlen : results.length = types.length)
    (h : materialize inputs results types fresh numThreads = .ok table) :
    table.columns.length = types.length ∧ (types ≠ [] → table.numRows = n) ∧
      ∀ (c : Nat) (type : DataType), types[c]? = some type →
        ∃ col column, results[c]? = some col ∧ table.columns[c]? = some column ∧
          materializeColumn inputs type (fresh c) numThreads n col = .ok column := by
  rw [materialize_eq] at h
  obtain ⟨columns, hcolumns, htable⟩ := bind_eq_ok.mp h
  have hall := mapM_eq_ok_iff.mp hcolumns
  have hrows : types ≠ [] → headRows results = n := fun hne =>
    headRows_eq hresults fun hnil => hne (by simpa [hnil] using hlen.symm)
  rw [← Except.ok.inj htable]
  refine ⟨by simpa using hall.length_eq.symm, hrows, fun c type htype => ?_⟩
  obtain ⟨hc, htype⟩ := List.getElem?_eq_some_iff.mp htype
  have hc' : c < columns.length := by rwa [← hall.length_eq, List.length_zipIdx]
  have hcolumn := hall.get (by simpa using hc) hc'
  simp only [List.get_eq_getElem, List.getElem_zipIdx, Nat.zero_add, htype] at hcolumn
  obtain ⟨col, hcol, hcolumn⟩ := bind_eq_ok.mp hcolumn
  rw [hrows (List.ne_nil_of_length_pos (by omega))] at hcolumn
  exact ⟨col, columns[c], eq_some_of_at? hcol, List.getElem?_eq_getElem hc', hcolumn⟩

/-- Whether a result can be written does not depend on what the new pages contain. -/
theorem materialize_fresh {inputs : List ColumnarTable} {results : List ColumnT}
    {types : List DataType} {fresh : Nat → Nat → Nat → Page} {numThreads : Nat}
    {table : ColumnarTable} (h : materialize inputs results types fresh numThreads = .ok table)
    (fresh' : Nat → Nat → Nat → Page) :
    ∃ table', materialize inputs results types fresh' numThreads = .ok table' := by
  have hslice : ∀ {type fresh₁ fresh₂ col rows pages},
      materializeSlice inputs type fresh₁ col rows = .ok pages →
      ∃ pages', materializeSlice inputs type fresh₂ col rows = .ok pages' := by
    intro type fresh₁ fresh₂ col rows pages h
    obtain ⟨values, hvalues, h⟩ := bind_eq_ok.mp h
    unfold materializeSlice
    rw [hvalues, ok_bind]
    cases type with
    | varchar =>
      obtain ⟨calls, hcalls, -⟩ := bind_eq_ok.mp h
      exact ⟨_, by rw [hcalls, ok_bind]⟩
    | int32 => exact ⟨_, rfl⟩
    | int64 => exact ⟨_, rfl⟩
    | fp64 => exact ⟨_, rfl⟩
  have hcolumn : ∀ {type fresh₁ numRows col column} (fresh₂ : Nat → Nat → Page),
      materializeColumn inputs type fresh₁ numThreads numRows col = .ok column →
      ∃ column', materializeColumn inputs type fresh₂ numThreads numRows col = .ok column' := by
    intro type fresh₁ numRows col column fresh₂ h
    unfold materializeColumn at h ⊢
    split
    · cases type <;> exact ⟨_, rfl⟩
    · next hne =>
      rw [if_neg hne] at h
      obtain ⟨threadPages, hpages, -⟩ := bind_eq_ok.mp h
      obtain ⟨threadPages', hpages', -⟩ := mapM_ok (P := fun _ _ => True)
        (f := fun t => materializeSlice inputs type (fresh₂ t) col (sliceRows numRows numThreads t))
        fun t ht => by
          obtain ⟨pages, -, hp⟩ := exists_of_forall₂ (mapM_eq_ok_iff.mp hpages) ht
          exact (hslice hp).imp fun _ h => ⟨h, trivial⟩
      exact ⟨_, by rw [hpages', ok_bind]⟩
  rw [materialize_eq] at h ⊢
  obtain ⟨columns, hcolumns, -⟩ := bind_eq_ok.mp h
  obtain ⟨columns', hcolumns', -⟩ := mapM_ok (P := fun _ _ => True) (l := types.zipIdx)
    (f := fun x => do
      let col ← at? results x.2
      materializeColumn inputs x.1 (fresh' x.2) numThreads (headRows results) col) fun x hx => by
      obtain ⟨column, -, hc⟩ := exists_of_forall₂ (mapM_eq_ok_iff.mp hcolumns) hx
      obtain ⟨col, hcol, hc⟩ := bind_eq_ok.mp hc
      obtain ⟨column', hc'⟩ := hcolumn (fresh' x.2) hc
      exact ⟨column', by rw [hcol, ok_bind]; exact hc', trivial⟩
  exact ⟨_, by rw [hcolumns', ok_bind]⟩

/-- A successful run has computed the rows of the root and then written them. -/
theorem Plan.WellFormed.execute_inv {plan : Plan} (hplan : plan.WellFormed)
    (hinputs : plan.InputsScan) {numThreads : Nat} (hT : 0 < numThreads)
    {env : List Bool → NodeEnv} {fresh : Nat → Nat → Nat → Page} {global global' : GlobalAllocator}
    {table : ColumnarTable} {root : PlanNode} (hroot : plan.nodes[plan.root]? = some root)
    (h : execute plan numThreads env fresh global = .ok (table, global')) :
    ∃ results n, plan.IsResult plan.root n results ∧
      materialize plan.inputs results (root.outputAttrs.map Prod.snd) fresh numThreads =
        .ok table ∧
      ∀ fresh' table', materialize plan.inputs results (root.outputAttrs.map Prod.snd) fresh'
        numThreads = .ok table' →
          execute plan numThreads env fresh' global = .ok (table', global') := by
  obtain ⟨⟨results, global₁⟩, himpl, h⟩ := bind_eq_ok.mp h
  obtain ⟨node, hnode, h⟩ := bind_eq_ok.mp h
  obtain ⟨table₁, hmaterialize, h⟩ := bind_eq_ok.mp h
  obtain ⟨n, hresult⟩ := hplan.executeImpl_result hinputs hT himpl
  have heq : node = root := Option.some.inj ((eq_some_of_at? hnode).symm.trans hroot)
  have hret : (table₁, global₁) = (table, global') := Except.ok.inj h
  obtain ⟨htable, hglobal⟩ := Prod.mk.inj hret
  rw [heq, htable] at hmaterialize
  refine ⟨results, n, hresult, hmaterialize, fun fresh' table' h' => ?_⟩
  unfold execute
  rw [himpl, ok_bind]
  show (at? _ _ >>= _) = _
  rw [hnode, ok_bind, heq, h', ok_bind, hglobal]

end HashJoin
