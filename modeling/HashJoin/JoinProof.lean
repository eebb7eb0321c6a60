import HashJoin.HashTableProof
import HashJoin.Join
import HashJoin.Lib.Relational

/-!
# The rows of a join

In whatever order the threads take their work, the rows of the result are those of the inner
equi-join of the two sides.
-/

namespace HashJoin

open Bytes Chunks Relational

/-! ## Result columns -/

/-- The column has the values in buffers of its own. -/
structure ColumnT.Holds (col : ColumnT) (vs : List Value) : Prop where
  original : col.originalCol = none
  buffers : Uniform 1024 col.buffers
  values : col.buffers.flatten = vs
  numRows : col.numRows = vs.length

theorem ColumnT.holds_empty : ({} : ColumnT).Holds [] := ⟨rfl, .nil, rfl, rfl⟩

theorem ColumnT.Holds.emplace {col : ColumnT} {vs : List Value} (h : col.Holds vs)
    (val : Value) : (col.emplace val).Holds (vs ++ [val]) where
  original := h.original
  buffers := h.buffers.pushBack (by decide) val
  values := by rw [ColumnT.emplace, flatten_pushBack, h.values]
  numRows := by rw [ColumnT.emplace, h.numRows, List.length_append, List.length_singleton]

theorem ColumnT.Holds.values_eq {col : ColumnT} {vs : List Value} (h : col.Holds vs) :
    col.values = vs := by
  unfold ColumnT.values
  rw [h.original]
  exact h.values

theorem ColumnT.Holds.valid {col : ColumnT} {vs : List Value} (h : col.Holds vs) :
    col.Valid where
  numRows := by rw [h.values_eq, h.numRows]
  buffers := fun _ => h.buffers
  pages := fun original ho => by simp [h.original] at ho

/-- Result columns of the given rows. -/
structure HoldsRows (width : Nat) (results : List ColumnT) (rows : List (List Value)) : Prop where
  length : ∀ row ∈ rows, row.length = width
  columns : List.Forall₂ ColumnT.Holds results (transpose width rows)

theorem holdsRows_empty (width : Nat) : HoldsRows width (List.replicate width {}) [] := by
  refine ⟨by simp, ?_⟩
  have hnil : transpose width ([] : List (List Value)) = List.replicate width [] := by
    simp [transpose, List.map_const']
  rw [hnil]
  exact List.forall₂_iff_get.mpr ⟨by simp, by simp [ColumnT.holds_empty]⟩

theorem HoldsRows.emplace {width : Nat} {results : List ColumnT} {rows : List (List Value)}
    (h : HoldsRows width results rows) {row : List Value} (hrow : row.length = width) :
    HoldsRows width (List.zipWith ColumnT.emplace results row) (rows ++ [row]) := by
  refine ⟨fun r hr => ?_, ?_⟩
  · rcases List.mem_append.mp hr with hr | hr
    · exact h.length r hr
    · rwa [List.mem_singleton.mp hr]
  · rw [transpose_concat rows hrow]
    have hcols := h.columns
    generalize transpose width rows = cols at hcols
    clear h hrow
    induction hcols generalizing row with
    | nil => exact .nil
    | cons hcol _ ih =>
      cases row with
      | nil => exact .nil
      | cons v row => exact .cons (hcol.emplace v) ih

/-! ## The rows of a side -/

/-- All columns are valid and have the same number of rows. -/
def Aligned (numRows : Nat) (cols : List ColumnT) : Prop :=
  ∀ col ∈ cols, col.Valid ∧ col.numRows = numRows

/-- Row `i` of a list of columns. -/
def rowAt (cols : List ColumnT) (i : Nat) : List Value :=
  (cols.map ColumnT.values).filterMap (·[i]?)

/-- The rows of a list of columns. -/
def rowsOf (numRows : Nat) (cols : List ColumnT) : List (List Value) :=
  transpose numRows (cols.map ColumnT.values)

section

variable {numRows : Nat} {cols : List ColumnT}

theorem Aligned.length_values (h : Aligned numRows cols) :
    ∀ values ∈ cols.map ColumnT.values, values.length = numRows := by
  intro values hvalues
  obtain ⟨col, hcol, rfl⟩ := List.mem_map.mp hvalues
  obtain ⟨hvalid, hrows⟩ := h col hcol
  rw [← hvalid.numRows, hrows]

theorem Aligned.getElem?_rowAt (h : Aligned numRows cols) {i : Nat} (hi : i < numRows) (a : Nat) :
    (rowAt cols i)[a]? = cols[a]?.bind fun col => col.values[i]? := by
  unfold rowAt
  rw [getElem?_transpose h.length_values hi, List.getElem?_map, Option.bind_map]
  rfl

theorem Aligned.length_rowAt (h : Aligned numRows cols) {i : Nat} (hi : i < numRows) :
    (rowAt cols i).length = cols.length := by
  have := congrArg List.length (filterMap_getElem? hi h.length_values)
  rwa [List.length_map, List.length_map, List.length_map] at this

/-- `get_value` finds the values of a row. -/
theorem Aligned.getValue (h : Aligned numRows cols) {i : Nat} (hi : i < numRows) {a : Nat}
    (ha : a < cols.length) : ∃ v, (do
      let col ← at? cols a
      col.getValue i) = .ok v ∧ (rowAt cols i)[a]? = some v := by
  obtain ⟨hvalid, hrows⟩ := h cols[a] (List.getElem_mem ha)
  have hcol : cols[a]? = some cols[a] := List.getElem?_eq_getElem ha
  have hi' : i < cols[a].values.length := by rwa [← hvalid.numRows, hrows]
  refine ⟨cols[a].values[i], ?_, ?_⟩
  · rw [at?_eq_ok hcol, ok_bind, hvalid.getValue hi']
  · rw [h.getElem?_rowAt hi, hcol, Option.bind_some, List.getElem?_eq_getElem hi']

end

/-! ## One row of the result -/

theorem mapM_zip {ε α β γ δ : Type} {f : α → Except ε β} {g : γ → β → δ} {as : List α} {bs : List β}
    (h : List.Forall₂ (fun a b => f a = .ok b) as bs) (cs : List γ) :
    ((as.zip cs).mapM fun (a, c) => do
      let b ← f a
      .ok (g c b)) = .ok (List.zipWith g cs bs) := by
  induction h generalizing cs with
  | nil => simp; rfl
  | cons hab _ ih =>
    cases cs with
    | nil => rfl
    | cons c cs =>
      rw [List.zip_cons_cons, List.mapM_cons, ih]
      simp only [hab, ok_bind]
      rfl

namespace JoinAlgorithm

variable {j : JoinAlgorithm} {nl nr : Nat}

/-- The columns of the output, in the rows that are put together from both sides. -/
def attrs (j : JoinAlgorithm) : List Nat := j.outputAttrs.map Prod.fst

/-- The row of the result for a row of each side. -/
def outputRow (j : JoinAlgorithm) (leftRowIdx rightRowIdx : Nat) : List Value :=
  project j.attrs (rowAt j.left leftRowIdx ++ rowAt j.right rightRowIdx)

/-- What the callers of `run` promise. -/
structure Ok (j : JoinAlgorithm) (nl nr : Nat) : Prop where
  left : Aligned nl j.left
  right : Aligned nr j.right
  leftCol : j.leftCol < j.left.length
  rightCol : j.rightCol < j.right.length
  inRange : ∀ a ∈ j.attrs, a < j.left.length + j.right.length

theorem Ok.outputValue (h : j.Ok nl nr) {l r : Nat} (hl : l < nl) (hr : r < nr)
    {attr : Nat × DataType}
    (hattr : attr.1 < j.left.length + j.right.length) :
    ∃ v, j.outputValue l r (j.mapping attr) = .ok v ∧
      (rowAt j.left l ++ rowAt j.right r)[attr.1]? = some v := by
  have hlen := h.left.length_rowAt hl
  unfold mapping
  split
  · next hlt =>
    obtain ⟨v, hv, hrow⟩ := h.left.getValue hl hlt
    exact ⟨v, hv, by rw [List.getElem?_append_left (by omega), hrow]⟩
  · next hge =>
    obtain ⟨v, hv, hrow⟩ := h.right.getValue (a := attr.1 - j.left.length) hr (by omega)
    exact ⟨v, hv, by rw [List.getElem?_append_right (by omega), hlen, hrow]⟩

theorem Ok.length_outputRow (h : j.Ok nl nr) {l r : Nat} (hl : l < nl) (hr : r < nr) :
    (j.outputRow l r).length = j.outputAttrs.length := by
  unfold outputRow
  rw [length_project, attrs, List.length_map]
  intro a ha
  rw [List.length_append, h.left.length_rowAt hl, h.right.length_rowAt hr]
  exact h.inRange a ha

theorem Ok.emit (h : j.Ok nl nr) {l r : Nat} (hl : l < nl) (hr : r < nr) {results : List ColumnT}
    {rows : List (List Value)} (hresults : HoldsRows j.outputAttrs.length results rows) :
    ∃ results', j.emit l r results = .ok results' ∧
      HoldsRows j.outputAttrs.length results' (rows ++ [j.outputRow l r]) := by
  refine ⟨_, ?_, hresults.emplace (h.length_outputRow hl hr)⟩
  have hvalues : List.Forall₂ (fun m v => j.outputValue l r m = .ok v)
      (j.outputAttrs.map j.mapping) (j.outputRow l r) := by
    have hattrs := h.inRange
    unfold outputRow attrs at *
    generalize j.outputAttrs = out at hattrs
    induction out with
    | nil => exact .nil
    | cons attr out ih =>
      rw [List.map_cons, List.forall_mem_cons] at hattrs
      obtain ⟨v, hv, hrow⟩ := h.outputValue hl hr hattrs.1
      rw [List.map_cons, List.map_cons, project, List.filterMap_cons, hrow]
      exact .cons hv (ih hattrs.2)
  exact mapM_zip hvalues results

/-! ## Probing -/

/-- The rows that a key finds. -/
def found (table : HashTable) (key : Int32) : List Nat :=
  ((table.entriesIn (table.lookup key)).filter (·.key = key)).map (·.rowIdx.toNat)

/-- The row of the result for a row of the build side and one of the probe side. -/
def outputRow' (j : JoinAlgorithm) (buildLeft : Bool) (probeIdx buildIdx : Nat) : List Value :=
  j.outputRow (if buildLeft then buildIdx else probeIdx) (if buildLeft then probeIdx else buildIdx)

/-- The rows of the result for a row of the probe side. -/
def probeRows (j : JoinAlgorithm) (buildLeft : Bool) (table : HashTable) (x : Value × Nat) :
    List (List Value) :=
  match x.1.key with
  | some key => (found table key).map (j.outputRow' buildLeft x.2)
  | none => []

/-- The number of rows of the two sides by their use. -/
def buildSize (buildLeft : Bool) (nl nr : Nat) : Nat := if buildLeft then nl else nr

def probeSize (buildLeft : Bool) (nl nr : Nat) : Nat := if buildLeft then nr else nl

section

variable {buildLeft : Bool} {table : HashTable}

theorem Ok.probeKey (h : j.Ok nl nr)
    (hfound : ∀ key, ∀ i ∈ found table key, i < buildSize buildLeft nl nr) (key : Int32)
    {probeIdx : Nat} (hprobe : probeIdx < probeSize buildLeft nl nr)
    {results : List ColumnT} {rows : List (List Value)}
    (hresults : HoldsRows j.outputAttrs.length results rows) :
    ∃ results', j.probeKey buildLeft table key probeIdx results = .ok results' ∧
      HoldsRows j.outputAttrs.length results'
        (rows ++ (found table key).map (j.outputRow' buildLeft probeIdx)) := by
  have hmap : (found table key).map (j.outputRow' buildLeft probeIdx) =
      (table.entriesIn (table.lookup key)).flatMap fun entry =>
        if entry.key = key then [j.outputRow' buildLeft probeIdx entry.rowIdx.toNat] else [] := by
    unfold found
    rw [List.map_map]
    generalize table.entriesIn (table.lookup key) = entries
    induction entries with
    | nil => rfl
    | cons entry entries ih =>
      by_cases hkey : entry.key = key <;> simp [hkey, ← ih]
  rw [hmap]
  refine foldlM_append (fun entry hentry results rows hresults => ?_) hresults
  by_cases hkey : entry.key = key
  · have hbuild := hfound key entry.rowIdx.toNat
      (List.mem_map_of_mem (List.mem_filter.mpr ⟨hentry, by simpa using hkey⟩))
    rw [if_neg (by simpa using hkey), if_pos hkey]
    cases buildLeft with
    | true => exact h.emit hbuild hprobe hresults
    | false => exact h.emit hprobe hbuild hresults
  · rw [if_pos hkey, if_neg hkey]
    exact ⟨results, rfl, by simpa using hresults⟩

/-- The pages or buffers of a column. -/
def chunksOf (col : ColumnT) : List (List Value) :=
  match col.originalCol with
  | none => col.buffers
  | some original => original.pages.map pageValues

theorem flatten_chunksOf (col : ColumnT) : (chunksOf col).flatten = col.values := by
  unfold chunksOf ColumnT.values
  cases col.originalCol <;> rfl

theorem numChunks_eq (col : ColumnT) : numChunks col = (chunksOf col).length := by
  unfold numChunks chunksOf
  cases col.originalCol with
  | none => rfl
  | some original => exact (List.length_map _).symm

/-- The rows of a page or buffer, numbered. -/
def chunkRows (col : ColumnT) (idx : Nat) : List (Value × Nat) :=
  ((chunksOf col).getD idx []).zipIdx ((chunksOf col).take idx).flatten.length

theorem flatMap_chunkRows (col : ColumnT) :
    (List.range (numChunks col)).flatMap (chunkRows col) = col.values.zipIdx := by
  rw [numChunks_eq, ← flatten_chunksOf, zipIdx_flatten]
  simp only [Nat.zero_add]
  rfl

theorem snd_lt_of_mem_chunkRows {col : ColumnT} {idx : Nat} (hidx : idx < numChunks col)
    {x : Value × Nat} (hx : x ∈ chunkRows col idx) : x.2 < col.values.length := by
  have hmem : x ∈ col.values.zipIdx := by
    rw [← flatMap_chunkRows]
    exact List.mem_flatMap.mpr ⟨idx, List.mem_range.mpr hidx, hx⟩
  simpa using List.snd_lt_of_mem_zipIdx hmem

theorem chunkRows_buffer {col : ColumnT} (hcol : col.Valid) (ho : col.originalCol = none)
    {idx : Nat}
    {buffer : List Value} (hget : col.buffers[idx]? = some buffer) :
    chunkRows col idx = buffer.zipIdx.map fun x => (x.1, idx * 1024 + x.2) := by
  obtain ⟨hidx, -⟩ := List.getElem?_eq_some_iff.mp hget
  have hchunks : chunksOf col = col.buffers := by rw [chunksOf, ho]
  unfold chunkRows
  rw [hchunks, (hcol.buffers ho).length_flatten_take hidx, List.zipIdx_eq_map_add,
    List.getD_eq_getElem?_getD, hget]
  exact List.map_congr_left fun _ _ => rfl

theorem chunkRows_page {col : ColumnT} {original : Column} (ho : col.originalCol = some original)
    {idx : Nat} {page : Page} (hget : original.pages[idx]? = some page) :
    chunkRows col idx = (List.range (page.u16 0)).map fun i =>
      (Value.int32 (page.read Int32 (4 + 4 * i)),
        ((original.pages.take idx).map pageValues).flatten.length + i) := by
  have hchunks : chunksOf col = original.pages.map pageValues := by rw [chunksOf, ho]
  unfold chunkRows
  rw [hchunks, ← List.map_take, List.getD_eq_getElem?_getD, List.getElem?_map, hget]
  apply List.ext_getElem (by simp [length_pageValues])
  intro i hi hi'
  simp [pageValues]

theorem Ok.probeChunk (h : j.Ok nl nr)
    (hfound : ∀ key, ∀ i ∈ found table key, i < buildSize buildLeft nl nr) {col : ColumnT}
    (hcol : col.Valid) (hsize : col.numRows = probeSize buildLeft nl nr)
    {idx : Nat} (hidx : idx < numChunks col)
    {results : List ColumnT} {rows : List (List Value)}
    (hresults : HoldsRows j.outputAttrs.length results rows) :
    ∃ results', j.probeChunk buildLeft table col idx results = .ok results' ∧
      HoldsRows j.outputAttrs.length results'
        (rows ++ (chunkRows col idx).flatMap (j.probeRows buildLeft table)) := by
  have hlt : ∀ x ∈ chunkRows col idx, x.2 < probeSize buildLeft nl nr := fun x hx => by
    rw [← hsize, hcol.numRows]
    exact snd_lt_of_mem_chunkRows hidx hx
  unfold JoinAlgorithm.probeChunk
  cases ho : col.originalCol with
  | none =>
    have hidx' : idx < col.buffers.length := by simpa [numChunks, ho] using hidx
    have hget : col.buffers[idx]? = some col.buffers[idx] := List.getElem?_eq_getElem hidx'
    have hrows := chunkRows_buffer hcol ho hget
    rw [hrows] at hlt ⊢
    simp only [at?_eq_ok hget, ok_bind]
    rw [List.flatMap_map]
    refine foldlM_append (fun x hx results rows hresults => ?_) hresults
    have hx' := hlt _ (List.mem_map_of_mem hx)
    obtain ⟨val, i⟩ := x
    by_cases hstatus : val.status ≠ 0
    · have hkey : val.key = some val.val := if_pos hstatus
      simp only [if_pos hstatus, probeRows, hkey]
      exact h.probeKey hfound val.val hx' hresults
    · have hkey : val.key = none := if_neg hstatus
      simp only [if_neg hstatus, probeRows, hkey]
      exact ⟨results, rfl, by simpa using hresults⟩
  | some original =>
    obtain ⟨hpos, huni, hfits, hrowids⟩ := hcol.pages original ho
    have hidx' : idx < original.pages.length := by simpa [numChunks, ho] using hidx
    have hget : original.pages[idx]? = some original.pages[idx] := List.getElem?_eq_getElem hidx'
    have hbase := getElem?_rowids original.pages 0 idx hidx'.le
    rw [← hrowids, Nat.zero_add] at hbase
    have hrows := chunkRows_page ho hget
    rw [hrows] at hlt ⊢
    simp only [at?_eq_ok hget, at?_eq_ok hbase, ok_bind]
    rw [List.flatMap_map]
    refine foldlM_append (fun i hi results rows hresults => ?_) hresults
    have hi' := hlt _ (List.mem_map_of_mem hi)
    have hfit := hfits _ (List.getElem_mem hidx')
    have hread : 4 + 4 * i + Pod.size Int32 ≤ 8192 := by
      have := List.mem_range.mp hi
      have : Pod.size Int32 = 4 := rfl
      omega
    have hkey : Page.readAt Int32 original.pages[idx] (4 + 4 * i) =
        .ok (original.pages[idx].read Int32 (4 + 4 * i)) := if_pos hread
    rw [hkey, ok_bind]
    exact h.probeKey hfound _ hi' hresults

end

end JoinAlgorithm

/-! ## The work counter -/

/-- A row list of one thread grows. -/
theorem flatMap_update_perm {α : Type} {ts : List Nat} (hts : ts.Nodup) {t : Nat} (ht : t ∈ ts)
    (rows : Nat → List α) (new : List α) :
    (ts.flatMap (Function.update rows t (rows t ++ new))).Perm (ts.flatMap rows ++ new) := by
  induction ts with
  | nil => simp at ht
  | cons u ts ih =>
    obtain ⟨hu, hts⟩ := List.nodup_cons.mp hts
    rw [List.flatMap_cons, List.flatMap_cons]
    by_cases htu : t = u
    · subst htu
      have hrest : ts.flatMap (Function.update rows t (rows t ++ new)) = ts.flatMap rows :=
        List.flatMap_congr fun v hv => Function.update_of_ne (ne_of_mem_of_not_mem hv hu) _ _
      rw [Function.update_self, hrest, List.append_assoc, List.append_assoc]
      exact List.perm_append_comm.append_left _
    · have hmem : t ∈ ts := (List.mem_cons.mp ht).resolve_left htu
      rw [Function.update_of_ne (Ne.symm htu), List.append_assoc]
      exact (ih hts hmem).append_left _

/-- What the threads have found so far: the rows of the chunks that the counter has passed. -/
structure ProbeState.Inv (width numThreads numChunks : Nat) (chunk : Nat → List (List Value))
    (s : ProbeState) (rows : Nat → List (List Value)) : Prop where
  results : ∀ t < numThreads, HoldsRows width (s.threadResults t) (rows t)
  rows : ((List.range numThreads).flatMap rows).Perm
    ((List.range (min s.workCounter numChunks)).flatMap chunk)

section

variable {width numThreads numChunks : Nat} {chunk : Nat → List (List Value)}
  {probe : Nat → List ColumnT → Except Fault (List ColumnT)}

theorem ProbeState.Inv.step (hprobe : ∀ idx < numChunks, ∀ results rows,
      HoldsRows width results rows → ∃ results', probe idx results = .ok results' ∧
        HoldsRows width results' (rows ++ chunk idx))
    {s : ProbeState} {rows : Nat → List (List Value)}
    (h : s.Inv width numThreads numChunks chunk rows)
    {t : Nat} (ht : t < numThreads) : ∃ s' rows', s.step numChunks probe t = .ok s' ∧
      s'.workCounter = s.workCounter + 1 ∧ s'.Inv width numThreads numChunks chunk rows' := by
  unfold ProbeState.step
  by_cases hidx : s.workCounter < numChunks
  · obtain ⟨results, hresults, hholds⟩ := hprobe _ hidx _ _ (h.results t ht)
    refine ⟨⟨s.workCounter + 1, Function.update s.threadResults t results⟩,
      Function.update rows t (rows t ++ chunk s.workCounter), ?_, rfl, ?_, ?_⟩
    · rw [if_pos hidx, hresults]
      rfl
    · intro u hu
      by_cases hut : u = t
      · subst hut
        simpa using hholds
      · simpa [hut] using h.results u hu
    · have hnext : min (s.workCounter + 1) numChunks = s.workCounter + 1 := by omega
      have hrows := h.rows
      rw [Nat.min_eq_left hidx.le] at hrows
      apply (flatMap_update_perm List.nodup_range (List.mem_range.mpr ht) rows _).trans
      rw [hnext, List.range_succ, List.flatMap_append, List.flatMap_singleton]
      exact hrows.append_right _
  · refine ⟨{ s with workCounter := s.workCounter + 1 }, rows, if_neg hidx, rfl, h.results, ?_⟩
    have hsame : min (s.workCounter + 1) numChunks = min s.workCounter numChunks := by omega
    rw [hsame]
    exact h.rows

theorem ProbeState.Inv.run (hprobe : ∀ idx < numChunks, ∀ results rows,
      HoldsRows width results rows → ∃ results', probe idx results = .ok results' ∧
        HoldsRows width results' (rows ++ chunk idx))
    {ts : List Nat} (hts : ∀ t ∈ ts, t < numThreads) {s : ProbeState}
    {rows : Nat → List (List Value)} (h : s.Inv width numThreads numChunks chunk rows) :
    ∃ s' rows', ts.foldlM (ProbeState.step numChunks probe) s = .ok s' ∧
      s'.workCounter = s.workCounter + ts.length ∧
        s'.Inv width numThreads numChunks chunk rows' := by
  induction ts generalizing s rows with
  | nil => exact ⟨s, rows, rfl, rfl, h⟩
  | cons t ts ih =>
    rw [List.forall_mem_cons] at hts
    obtain ⟨s₁, rows₁, hs₁, hcount₁, h₁⟩ := h.step hprobe hts.1
    obtain ⟨s₂, rows₂, hs₂, hcount₂, h₂⟩ := ih hts.2 h₁
    refine ⟨s₂, rows₂, by rw [List.foldlM_cons, hs₁, ok_bind, hs₂], ?_, h₂⟩
    rw [hcount₂, hcount₁, List.length_cons]
    omega

/-- In whatever order the threads take the chunks, they find the rows of all of them. -/
theorem runProbe_ok (hT : 0 < numThreads) (hprobe : ∀ idx < numChunks, ∀ results rows,
      HoldsRows width results rows → ∃ results', probe idx results = .ok results' ∧
        HoldsRows width results' (rows ++ chunk idx)) (order : List Nat) :
    ∃ s rows, runProbe numThreads numChunks order probe
        ⟨0, fun _ => List.replicate width {}⟩ = .ok s ∧
      (∀ t < numThreads, HoldsRows width (s.threadResults t) (rows t)) ∧
      ((List.range numThreads).flatMap rows).Perm ((List.range numChunks).flatMap chunk) := by
  have hinit : ProbeState.Inv width numThreads numChunks chunk
      ⟨0, fun _ => List.replicate width {}⟩ fun _ => [] :=
    ⟨fun _ _ => holdsRows_empty width, by simp⟩
  have hts : ∀ t ∈ order.filter (· < numThreads) ++ List.replicate numChunks 0, t < numThreads := by
    intro t ht
    rcases List.mem_append.mp ht with ht | ht
    · exact of_decide_eq_true (List.mem_filter.mp ht).2
    · rwa [(List.mem_replicate.mp ht).2]
  obtain ⟨s, rows, hs, hcount, h⟩ := hinit.run hprobe hts
  refine ⟨s, rows, hs, h.results, ?_⟩
  have hall : min s.workCounter numChunks = numChunks := by
    rw [hcount, List.length_append, List.length_replicate]
    omega
  rw [← hall]
  exact hall ▸ h.rows

end

/-! ## Putting the results together -/

/-- The buffers of a result column while it is filled. -/
structure Copied (b : List (List Value) × List Value) (vs : List Value) : Prop where
  full : ∀ buf ∈ b.1, buf.length = 1024
  le : b.2.length ≤ 1024
  values : b.1.flatten ++ b.2 = vs

theorem Copied.copyValue {b : List (List Value) × List Value} {vs : List Value} (h : Copied b vs)
    (val : Value) : Copied (copyValue b val) (vs ++ [val]) := by
  have hle := h.le
  unfold HashJoin.copyValue
  split
  · next hfull =>
    refine ⟨fun buf hbuf => ?_, by simp, by simp [← h.values]⟩
    rcases List.mem_append.mp hbuf with hbuf | hbuf
    · exact h.full buf hbuf
    · rw [List.mem_singleton.mp hbuf, hfull]
  · next hfull =>
    refine ⟨h.full, ?_, by simp [← h.values]⟩
    rw [List.length_append, List.length_singleton]
    omega

theorem Copied.copyAll {b : List (List Value) × List Value} {vs : List Value} (h : Copied b vs)
    (ws : List Value) : Copied (ws.foldl HashJoin.copyValue b) (vs ++ ws) := by
  induction ws generalizing b vs with
  | nil => simpa using h
  | cons w ws ih =>
    rw [List.foldl_cons, List.append_cons]
    exact ih (h.copyValue w)

theorem mergeColumn_holds {threadCols : List ColumnT} {vss : List (List Value)}
    (h : List.Forall₂ ColumnT.Holds threadCols vss) :
    (mergeColumn threadCols).Holds vss.flatten := by
  have hrows : (threadCols.map ColumnT.numRows).sum = vss.flatten.length := by
    induction h with
    | nil => rfl
    | cons hcol _ ih =>
      rw [List.map_cons, List.sum_cons, ih, hcol.numRows, List.flatten_cons, List.length_append]
  have hcopied : ∀ b vs, Copied b vs → Copied (threadCols.foldl
      (fun b col => col.buffers.foldl (fun b buf => buf.foldl copyValue b) b) b)
      (vs ++ vss.flatten) := by
    clear hrows
    induction h with
    | nil => exact fun b vs hb => by simpa using hb
    | cons hcol _ ih =>
      intro b vs hb
      rw [List.foldl_cons, List.flatten_cons, ← List.append_assoc,
        ← List.foldl_flatten, hcol.values]
      exact ih _ _ (hb.copyAll _)
  unfold mergeColumn
  simp only [hrows]
  split
  · next hzero =>
    rw [List.length_eq_zero_iff.mp hzero]
    exact ColumnT.holds_empty
  · have hall := hcopied ([], []) [] ⟨by simp, by simp, rfl⟩
    refine ⟨rfl, uniform_close hall.full hall.le, ?_, rfl⟩
    rw [flatten_close, hall.values, List.nil_append]

theorem JoinAlgorithm.merge_ok (j : JoinAlgorithm) {numThreads : Nat}
    {threadResults : Nat → List ColumnT} {rows : Nat → List (List Value)}
    (h : ∀ t < numThreads, HoldsRows j.outputAttrs.length (threadResults t) (rows t)) :
    ∃ results, j.merge numThreads threadResults = .ok results ∧
      HoldsRows j.outputAttrs.length results ((List.range numThreads).flatMap rows) := by
  have hcolumn : ∀ outIdx ∈ List.range j.outputAttrs.length, ∃ col, (do
      let threadCols ← (List.range numThreads).mapM fun t => at? (threadResults t) outIdx
      .ok (mergeColumn threadCols) : Except Fault ColumnT) = .ok col ∧
      col.Holds (((List.range numThreads).flatMap rows).filterMap (·[outIdx]?)) := by
    intro o ho
    rw [List.mem_range] at ho
    obtain ⟨threadCols, hmapM, hcols⟩ := mapM_ok
      (f := fun t => at? (threadResults t) o) (l := List.range numThreads)
      (P := fun t col => col.Holds ((rows t).filterMap (·[o]?))) fun t ht => by
        have hcols := (h t (List.mem_range.mp ht)).columns
        have hlen : o < (threadResults t).length := by
          rw [hcols.length_eq, length_transpose]
          exact ho
        refine ⟨(threadResults t)[o], at?_eq_ok (List.getElem?_eq_getElem hlen), ?_⟩
        have := hcols.get hlen (by rwa [length_transpose])
        simpa [transpose] using this
    refine ⟨_, by rw [hmapM, ok_bind], ?_⟩
    have hcols' : List.Forall₂ ColumnT.Holds threadCols
        ((List.range numThreads).map fun t => (rows t).filterMap (·[o]?)) :=
      List.forall₂_map_right_iff.mpr hcols.flip
    rw [List.filterMap_flatMap]
    exact mergeColumn_holds hcols'
  obtain ⟨results, hresults, hcols⟩ := mapM_ok hcolumn
  refine ⟨results, hresults, fun row hrow => ?_, ?_⟩
  · obtain ⟨t, ht, hrow⟩ := List.mem_flatMap.mp hrow
    exact (h t (List.mem_range.mp ht)).length row hrow
  · exact List.forall₂_map_right_iff.mpr hcols.flip

/-! ## The join -/

theorem HoldsRows.aligned {width : Nat} {results : List ColumnT} {rows : List (List Value)}
    (h : HoldsRows width results rows) : Aligned rows.length results := by
  intro col hcol
  obtain ⟨i, hi, rfl⟩ := List.mem_iff_getElem.mp hcol
  have hcols := h.columns
  have hholds := hcols.get hi (hcols.length_eq ▸ hi)
  refine ⟨hholds.valid, hholds.numRows.trans ?_⟩
  exact length_mem_transpose h.length _ (List.get_mem _ _)

theorem HoldsRows.rowsOf {width : Nat} {results : List ColumnT} {rows : List (List Value)}
    (h : HoldsRows width results rows) : rowsOf rows.length results = rows := by
  have hvalues : results.map ColumnT.values = transpose width rows := by
    have hcols := h.columns
    generalize transpose width rows = cols at hcols
    clear h
    induction hcols with
    | nil => rfl
    | cons hcol _ ih => rw [List.map_cons, hcol.values_eq, ih]
  unfold HashJoin.rowsOf
  rw [hvalues, transpose_transpose h.length]

namespace JoinAlgorithm

variable {j : JoinAlgorithm} {nl nr : Nat}

/-- The key of a row of a side. -/
def keyAt (cols : List ColumnT) (a i : Nat) : Option Int32 := (rowAt cols i)[a]?.bind Value.key

theorem rowsWith_eq {cols : List ColumnT} {n : Nat} (h : Aligned n cols) {a : Nat}
    (ha : a < cols.length) (key : Int32) :
    rowsWith cols[a].values key = (List.range n).filter fun i => keyAt cols a i = some key := by
  obtain ⟨hvalid, hrows⟩ := h cols[a] (List.getElem_mem ha)
  unfold rowsWith
  rw [← hvalid.numRows, hrows]
  apply List.filter_congr
  intro i hi
  unfold keyAt
  rw [h.getElem?_rowAt (List.mem_range.mp hi), List.getElem?_eq_getElem ha, Option.bind_some]

/-- The rows of the inner equi-join. -/
def joined (j : JoinAlgorithm) (nl nr : Nat) : List (List Value) :=
  (equiJoin Value.key j.leftCol j.rightCol (rowsOf nl j.left) (rowsOf nr j.right)).map
    (project j.attrs)

theorem joined_eq (j : JoinAlgorithm) (nl nr : Nat) : j.joined nl nr =
    (List.range nl).flatMap fun l => ((List.range nr).filter fun r =>
      Matches Value.key j.leftCol j.rightCol (rowAt j.left l) (rowAt j.right r)).map
        (j.outputRow l) := by
  have hrows : ∀ n cols, rowsOf n cols = (List.range n).map (rowAt cols) := fun _ _ => rfl
  unfold joined
  rw [equiJoin, hrows, hrows, List.flatMap_map, List.map_flatMap]
  apply List.flatMap_congr
  intro l _
  rw [List.filter_map, List.map_map, List.map_map]
  rfl

/-- What probing with all rows of one side finds on the other. -/
theorem probe_perm {probe build : List ColumnT} {np nb p b : Nat} (hprobe : Aligned np probe)
    (hbuild : Aligned nb build) (hp : p < probe.length) (hb : b < build.length) {table : HashTable}
    (hfound : ∀ key, (found table key).Perm (rowsWith build[b].values key))
    (f : Nat → Nat → List Value) :
    (probe[p].values.zipIdx.flatMap fun x =>
      match x.1.key with
      | some key => (found table key).map (f x.2)
      | none => []).Perm
    ((List.range np).flatMap fun i => ((List.range nb).filter fun k =>
      (keyAt probe p i).isSome ∧ keyAt probe p i = keyAt build b k).map (f i)) := by
  obtain ⟨hvalid, hrows⟩ := hprobe probe[p] (List.getElem_mem hp)
  have hindex : probe[p].values.zipIdx.map Prod.snd = List.range np := by
    rw [List.zipIdx_map_snd, ← hvalid.numRows, hrows, List.range_eq_range']
  rw [← hindex, List.flatMap_map]
  apply List.Perm.flatMap_left _
  intro x hx
  have hget := List.mem_zipIdx_iff_getElem?.mp hx
  have hlt : x.2 < np := by
    rw [← hrows, hvalid.numRows]
    exact (List.getElem?_eq_some_iff.mp hget).1
  have hkeyAt : keyAt probe p x.2 = x.1.key := by
    unfold keyAt
    rw [hprobe.getElem?_rowAt hlt, List.getElem?_eq_getElem hp, Option.bind_some, hget,
      Option.bind_some]
  rw [hkeyAt]
  cases x.1.key with
  | none => simp
  | some key =>
    refine ((hfound key).trans (List.Perm.of_eq ?_)).map (f x.2)
    rw [rowsWith_eq hbuild hb]
    apply List.filter_congr
    intro k _
    simp [eq_comm]

/-- The rows of the result are those that probing finds. -/
theorem buildAndProbe_rows (h : j.Ok nl nr) (buildLeft : Bool) {build probe : ColumnT}
    (hbuild : build.Valid) (hb : build.numRows = buildSize buildLeft nl nr) (hprobe : probe.Valid)
    (hp : probe.numRows = probeSize buildLeft nl nr) (hsize : buildSize buildLeft nl nr < 2 ^ 30)
    {numThreads : Nat} (hT : 0 < numThreads) (env : JoinEnv) (global : GlobalAllocator) :
    ∃ table results global' rows,
      j.buildAndProbe env numThreads global buildLeft build probe = .ok (results, global') ∧
      HoldsRows j.outputAttrs.length results rows ∧
      rows.Perm (probe.values.zipIdx.flatMap (j.probeRows buildLeft table)) ∧
      ∀ key, (found table key).Perm (rowsWith build.values key) := by
  obtain ⟨table, table', global', hnew, hbuilt, hentries⟩ :=
    buildParallel_entries hbuild le_rfl (hb ▸ hsize) hT env.build global
  have hlen := hbuild.numRows
  have hfound : ∀ key, (found table' key).Perm (rowsWith build.values key) := fun key => by
    rw [← map_rowIdx_columnEntries (by omega) key]
    exact (hentries key).map (·.rowIdx.toNat)
  have hbound : ∀ key, ∀ i ∈ found table' key, i < buildSize buildLeft nl nr := fun key i hi => by
    have hi := (List.mem_filter.mp ((hfound key).mem_iff.mp hi)).1
    rwa [List.mem_range, ← hlen, hb] at hi
  obtain ⟨s, rows, hrun, hresults, hrows⟩ := runProbe_ok hT
    (fun idx hidx results rows hr => h.probeChunk hbound hprobe hp hidx hr) env.order
  obtain ⟨results, hmerge, hholds⟩ := j.merge_ok hresults
  refine ⟨table', results, global', _, ?_, hholds, ?_, hfound⟩
  · unfold buildAndProbe
    rw [hnew, ok_bind, hbuilt, ok_bind]
    show (runProbe _ _ _ _ _ >>= _) = _
    rw [hrun, ok_bind, hmerge]
    rfl
  · rw [← flatMap_chunkRows, List.flatMap_assoc]
    exact hrows

/-- The rows of the result are those of the inner equi-join. -/
theorem run_rows (h : j.Ok nl nr) (hsize : min nl nr < 2 ^ 30) {numThreads : Nat}
    (hT : 0 < numThreads) (env : JoinEnv) (global : GlobalAllocator) :
    ∃ results global' rows, j.run env numThreads global = .ok (results, global') ∧
      HoldsRows j.outputAttrs.length results rows ∧ rows.Perm (j.joined nl nr) := by
  obtain ⟨hleft, hnl⟩ := h.left _ (List.getElem_mem h.leftCol)
  obtain ⟨hright, hnr⟩ := h.right _ (List.getElem_mem h.rightCol)
  unfold run
  rw [at?_eq_ok (List.getElem?_eq_getElem h.leftCol),
    at?_eq_ok (List.getElem?_eq_getElem h.rightCol)]
  rw [ok_bind, ok_bind, hnl, hnr, joined_eq]
  by_cases hempty : nl = 0 ∨ nr = 0
  · refine ⟨_, global, [], if_pos hempty, holdsRows_empty _, ?_⟩
    rcases hempty with rfl | rfl <;> simp
  rw [if_neg hempty]
  by_cases hle : nl ≤ nr
  · rw [Nat.min_eq_left hle] at hsize
    obtain ⟨table, results, global', rows, hrun, hholds, hrows, hfound⟩ :=
      buildAndProbe_rows h true hleft hnl hright hnr hsize hT env global
    refine ⟨results, global', rows, by rw [if_pos hle, hrun], hholds, hrows.trans ?_⟩
    refine (probe_perm h.right h.left h.rightCol h.leftCol hfound
      fun r l => j.outputRow l r).trans ?_
    refine (flatMap_filter_comm _ _ _ _).trans (List.Perm.of_eq ?_)
    refine List.flatMap_congr fun l _ => congrArg (List.map _) (List.filter_congr fun r _ => ?_)
    have hswap : ∀ x y : Option Int32, x.isSome ∧ x = y ↔ y.isSome ∧ y = x := fun x y =>
      ⟨fun ⟨hsome, heq⟩ => ⟨heq ▸ hsome, heq.symm⟩, fun ⟨hsome, heq⟩ => ⟨heq ▸ hsome, heq.symm⟩⟩
    exact decide_eq_decide.mpr (hswap _ _)
  · rw [Nat.min_eq_right (by omega)] at hsize
    obtain ⟨table, results, global', rows, hrun, hholds, hrows, hfound⟩ :=
      buildAndProbe_rows h false hright hnr hleft hnl hsize hT env global
    refine ⟨results, global', rows, by rw [if_neg hle, hrun], hholds, hrows.trans ?_⟩
    exact probe_perm h.left h.right h.leftCol h.rightCol hfound j.outputRow

/-- Whatever the order in which the threads build and probe, the rows of the result are those of
the inner equi-join, with all result columns of one length and full buffers but the last. -/
theorem run_equiJoin (h : j.Ok nl nr) (hsize : min nl nr < 2 ^ 30) {numThreads : Nat}
    (hT : 0 < numThreads)
    (env : JoinEnv) (global : GlobalAllocator) :
    ∃ results global' n, j.run env numThreads global = .ok (results, global') ∧
      results.length = j.outputAttrs.length ∧ Aligned n results ∧
      (∀ col ∈ results, col.originalCol = none ∧ Uniform 1024 col.buffers) ∧
      (rowsOf n results).Perm
        ((equiJoin Value.key j.leftCol j.rightCol (rowsOf nl j.left) (rowsOf nr j.right)).map
          (project j.attrs)) := by
  obtain ⟨results, global', rows, hrun, hholds, hrows⟩ := run_rows h hsize hT env global
  refine ⟨results, global', rows.length, hrun, ?_, hholds.aligned, fun col hcol => ?_, ?_⟩
  · rw [hholds.columns.length_eq, length_transpose]
  · obtain ⟨i, hi, rfl⟩ := List.mem_iff_getElem.mp hcol
    have hcols := hholds.columns
    have hcol := hcols.get hi (hcols.length_eq ▸ hi)
    exact ⟨hcol.original, hcol.buffers⟩
  · rw [hholds.rowsOf]
    exact hrows

/-- The NULL row of the left side finds no partner. -/
theorem run_equiJoin_one : ∃ results global' n,
    (JoinAlgorithm.mk [{ buffers := [[.int32 7, .null 7]], numRows := 2 }]
      [{ buffers := [[.int32 7]], numRows := 1 }] 0 0 [(1, .int32), (0, .int32)]).run
        ⟨⟨4096, by decide, fun _ => ⟨0, 0⟩, [], []⟩, [1, 0]⟩ 2 {} = .ok (results, global') ∧
      Aligned n results ∧ (rowsOf n results).Perm [[.int32 7, .int32 7]] := by
  have hok : (JoinAlgorithm.mk [{ buffers := [[.int32 7, .null 7]], numRows := 2 }]
      [{ buffers := [[.int32 7]], numRows := 1 }] 0 0 [(1, .int32), (0, .int32)]).Ok 2 1 :=
    { left := fun col hcol => by
        obtain rfl := List.mem_singleton.mp hcol
        exact ⟨⟨rfl, fun _ => ⟨by simp, by simp⟩, nofun⟩, rfl⟩
      right := fun col hcol => by
        obtain rfl := List.mem_singleton.mp hcol
        exact ⟨⟨rfl, fun _ => ⟨by simp, by simp⟩, nofun⟩, rfl⟩
      leftCol := by decide
      rightCol := by decide
      inRange := by decide }
  obtain ⟨results, global', n, hrun, -, haligned, -, hrows⟩ :=
    run_equiJoin hok (by decide) Nat.two_pos
    ⟨⟨4096, by decide, fun _ => ⟨0, 0⟩, [], []⟩, [1, 0]⟩ {}
  exact ⟨results, global', n, hrun, haligned, hrows⟩

end JoinAlgorithm

end HashJoin
