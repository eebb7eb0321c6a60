import HashJoin.JoinUnion
import HashJoin.LoadPipelineProof
import HashJoin.ParseExprProof

/-!
# The join graph of a query

`parse_sql` gives a join graph unless two tables have two pairs of equal columns. Whether it does,
and the graph, are determined by the equalities of the query, in whatever order the classes of
equal columns are gone through.
-/

namespace HashJoin

open UnionFind

/-! ## The classes -/

/-- `joined_columns` of the first `size` columns: a class for each representative, with its columns
in order. -/
structure Grouped (rep : Nat → Nat) (size : Nat) (classes : List (Nat × List Nat)) : Prop where
  keys : (classes.map Prod.fst).Nodup
  items : ∀ cls ∈ classes, cls.2 = (List.range size).filter fun i => rep i = cls.1
  all : ∀ i < size, ∃ cls ∈ classes, cls.1 = rep i

section

variable {rep depth : Nat → Nat} {size : Nat} {classes : List (Nat × List Nat)}

theorem Grouped.addToClass (h : Grouped rep size classes) :
    Grouped rep (size + 1) (addToClass classes (rep size) size) := by
  have hfilter : ∀ k, (List.range (size + 1)).filter (fun i => rep i = k) =
      (List.range size).filter (fun i => rep i = k) ++ if rep size = k then [size] else [] := by
    intro k
    rw [List.range_succ, List.filter_append, List.filter_singleton]
    by_cases hk : rep size = k <;> simp [hk]
  unfold HashJoin.addToClass
  split
  · next hany =>
    obtain ⟨cls₀, hcls₀, hkey₀⟩ := List.any_eq_true.mp hany
    have hfst : ∀ cls : Nat × List Nat,
        (if cls.1 = rep size then (rep size, cls.2 ++ [size]) else cls).1 = cls.1 := fun cls => by
      split
      · next hset => exact hset.symm
      · rfl
    refine ⟨?_, ?_, fun i hi => ?_⟩
    · rw [List.map_map]
      exact (List.map_congr_left fun cls _ => hfst cls) ▸ h.keys
    · intro cls hcls
      obtain ⟨old, hold, rfl⟩ := List.mem_map.mp hcls
      rw [hfst, hfilter, ← h.items old hold]
      split
      · next hset => rw [if_pos hset.symm]
      · next hset => rw [if_neg (Ne.symm hset), List.append_nil]
    · have hold : ∃ cls ∈ classes, cls.1 = rep i := by
        rcases Nat.lt_succ_iff_lt_or_eq.mp hi with hlt | rfl
        · exact h.all i hlt
        · exact ⟨cls₀, hcls₀, of_decide_eq_true hkey₀⟩
      obtain ⟨cls, hcls, hkey⟩ := hold
      exact ⟨_, List.mem_map_of_mem hcls, (hfst cls).trans hkey⟩
  · next hany =>
    have hnew : ∀ cls ∈ classes, cls.1 ≠ rep size := fun cls hcls hset =>
      hany (List.any_eq_true.mpr ⟨cls, hcls, decide_eq_true hset⟩)
    refine ⟨?_, ?_, fun i hi => ?_⟩
    · rw [List.map_append, List.map_singleton, List.nodup_append]
      refine ⟨h.keys, List.nodup_singleton _, ?_⟩
      rintro k hk k' hk' rfl
      obtain ⟨cls, hcls, rfl⟩ := List.mem_map.mp hk
      exact hnew cls hcls (List.mem_singleton.mp hk')
    · intro cls hcls
      rw [hfilter]
      rcases List.mem_append.mp hcls with hold | hlast
      · rw [if_neg (Ne.symm (hnew cls hold)), List.append_nil]
        exact h.items cls hold
      · have hnone : (List.range size).filter (fun i => rep i = rep size) = [] := by
          rw [List.filter_eq_nil_iff]
          intro i hi hrep
          obtain ⟨cls', hcls', hkey⟩ := h.all i (List.mem_range.mp hi)
          exact hnew cls' hcls' (hkey.trans (of_decide_eq_true hrep))
        rw [List.mem_singleton.mp hlast, hnone, if_pos rfl]
        rfl
    · rcases Nat.lt_succ_iff_lt_or_eq.mp hi with hlt | rfl
      · obtain ⟨cls, hcls, hkey⟩ := h.all i hlt
        exact ⟨cls, List.mem_append_left _ hcls, hkey⟩
      · exact ⟨_, List.mem_append_right _ List.mem_cons_self, rfl⟩

theorem joinedColumns_ok {dsu : DSU} (h : dsu.Represents rep depth) :
    ∀ size ≤ dsu.pa.length, ∃ classes dsu', joinedColumns dsu size = .ok (classes, dsu') ∧
      Grouped rep size classes ∧ dsu'.pa.length = dsu.pa.length ∧ dsu'.Represents rep depth
  | 0, _ => ⟨[], dsu, rfl, ⟨by simp, by simp, by simp⟩, rfl, h⟩
  | size + 1, hle => by
    obtain ⟨classes, dsu₁, heq, hgrouped, hlen, h₁⟩ := joinedColumns_ok h size (by omega)
    obtain ⟨dsu₂, hfind, hlen₂, h₂⟩ := h₁.find (x := size) (by omega)
    refine ⟨_, dsu₂, ?_, hgrouped.addToClass, hlen₂.trans hlen, h₂⟩
    unfold joinedColumns at heq ⊢
    rw [List.range_succ, List.foldlM_append, heq, ok_bind, List.foldlM_cons]
    simp only [hfind, ok_bind]
    rfl

theorem Grouped.perm {classes' : List (Nat × List Nat)} (h : Grouped rep size classes)
    (hperm : classes'.Perm classes) : Grouped rep size classes' :=
  ⟨(hperm.map Prod.fst).nodup_iff.mpr h.keys, fun cls hcls => h.items cls (hperm.mem_iff.mp hcls),
    fun i hi => by
      obtain ⟨cls, hcls, hkey⟩ := h.all i hi
      exact ⟨cls, hperm.mem_iff.mpr hcls, hkey⟩⟩

/-! ## The pairs of equal columns -/

theorem mem_laterPairs_iff {l : List Nat} (hl : l.Pairwise (· < ·)) {i j : Nat} :
    (i, j) ∈ laterPairs l ↔ i ∈ l ∧ j ∈ l ∧ i < j := by
  induction l with
  | nil => simp [laterPairs]
  | cons a l ih =>
    obtain ⟨hfirst, htail⟩ := List.pairwise_cons.mp hl
    rw [laterPairs, List.mem_append, ih htail]
    constructor
    · rintro (h | ⟨hi, hj, hlt⟩)
      · obtain ⟨b, hb, heq⟩ := List.mem_map.mp h
        obtain ⟨rfl, rfl⟩ := Prod.mk.inj heq
        exact ⟨by simp, by simp [hb], hfirst b hb⟩
      · exact ⟨by simp [hi], by simp [hj], hlt⟩
    · rintro ⟨hi, hj, hlt⟩
      rcases List.mem_cons.mp hi with rfl | hi'
      · rcases List.mem_cons.mp hj with rfl | hj'
        · exact absurd hlt (lt_irrefl _)
        · exact .inl (List.mem_map.mpr ⟨j, hj', rfl⟩)
      · rcases List.mem_cons.mp hj with rfl | hj'
        · exact absurd (hfirst i hi') (lt_asymm hlt)
        · exact .inr ⟨hi', hj', hlt⟩

theorem nodup_laterPairs {l : List Nat} (hl : l.Nodup) : (laterPairs l).Nodup := by
  induction l with
  | nil => exact List.nodup_nil
  | cons a l ih =>
    obtain ⟨hfirst, htail⟩ := List.nodup_cons.mp hl
    rw [laterPairs, List.nodup_append]
    refine ⟨htail.map fun b c h => (Prod.mk.inj h).2, ih htail, ?_⟩
    rintro pair hpair pair' hpair' rfl
    obtain ⟨b, -, rfl⟩ := List.mem_map.mp hpair
    exact hfirst (mem_laterPairs hpair').1

/-- The pairs for which the join graph gets an edge, in order. -/
def classPairs (classes : List (Nat × List Nat)) : List (Nat × Nat) :=
  classes.flatMap fun cls => laterPairs cls.2

theorem Grouped.mem_classPairs (h : Grouped rep size classes) {i j : Nat} :
    (i, j) ∈ classPairs classes ↔ i < j ∧ j < size ∧ rep i = rep j := by
  have hsorted : ∀ k, ((List.range size).filter fun i => rep i = k).Pairwise (· < ·) := fun k =>
    List.pairwise_lt_range.filter _
  unfold classPairs
  rw [List.mem_flatMap]
  constructor
  · rintro ⟨cls, hcls, hpair⟩
    rw [h.items cls hcls, mem_laterPairs_iff (hsorted _)] at hpair
    simp only [List.mem_filter, List.mem_range, decide_eq_true_eq] at hpair
    obtain ⟨⟨-, hi⟩, ⟨hlt, hj⟩, hij⟩ := hpair
    exact ⟨hij, hlt, hi.trans hj.symm⟩
  · rintro ⟨hij, hj, hrep⟩
    obtain ⟨cls, hcls, hkey⟩ := h.all j hj
    refine ⟨cls, hcls, ?_⟩
    rw [h.items cls hcls, mem_laterPairs_iff (hsorted _)]
    simp only [List.mem_filter, List.mem_range, decide_eq_true_eq]
    exact ⟨⟨by omega, hrep.trans hkey.symm⟩, ⟨hj, hkey.symm⟩, hij⟩

theorem Grouped.nodup_classPairs (h : Grouped rep size classes) :
    (classPairs classes).Nodup := by
  refine List.nodup_flatMap.mpr ⟨fun cls hcls => ?_, ?_⟩
  · rw [h.items cls hcls]
    exact nodup_laterPairs (List.nodup_range.filter _)
  · refine (List.pairwise_map.mp h.keys).imp_of_mem fun {cls cls'} hcls hcls' hne => ?_
    -- The columns of a class tell its representative.
    have hrep : ∀ cls ∈ classes, ∀ pair ∈ laterPairs cls.2, rep pair.1 = cls.1 := by
      intro cls hcls pair hpair
      have hmem := (mem_laterPairs hpair).1
      rw [h.items cls hcls, List.mem_filter] at hmem
      exact of_decide_eq_true hmem.2
    intro pair hpair hpair'
    exact hne ((hrep cls hcls pair hpair).symm.trans (hrep cls' hcls' pair hpair'))

end

/-! ## The edges -/

/-- The tables of two columns, in no order. -/
def tablesOf (columnVec : List (TableEntity × String)) (pair : Nat × Nat) :
    Sym2 (Option TableEntity) :=
  s(columnVec[pair.1]?.map Prod.fst, columnVec[pair.2]?.map Prod.fst)

/-- The graph has the edges of the pairs. An edge of a table to itself is there once, from the
first of its columns. -/
def EdgesOf (columnVec : List (TableEntity × String)) (pairs : List (Nat × Nat))
    (graph : JoinGraph) : Prop :=
  ∀ left right columns, graph (left, right) = some columns ↔ ∃ pair ∈ pairs,
    columnVec[pair.1]? = some (left, columns.1) ∧ columnVec[pair.2]? = some (right, columns.2) ∨
      left ≠ right ∧ columnVec[pair.1]? = some (right, columns.2) ∧
        columnVec[pair.2]? = some (left, columns.1)

section

variable {columnVec : List (TableEntity × String)} {pairs : List (Nat × Nat)} {graph : JoinGraph}

/-- Two tables have an edge if some pair links them. -/
theorem EdgesOf.isSome_iff (h : EdgesOf columnVec pairs graph) {left right : TableEntity} :
    (graph (left, right)).isSome ↔
      s(some left, some right) ∈ pairs.map (tablesOf columnVec) := by
  constructor
  · intro hsome
    obtain ⟨columns, hcolumns⟩ := Option.isSome_iff_exists.mp hsome
    obtain ⟨pair, hpair, ⟨hl, hr⟩ | ⟨-, hl, hr⟩⟩ := (h left right columns).mp hcolumns
    · exact List.mem_map.mpr ⟨pair, hpair, by simp [tablesOf, hl, hr]⟩
    · exact List.mem_map.mpr ⟨pair, hpair, by simp [tablesOf, hl, hr]⟩
  · intro hmem
    obtain ⟨pair, hpair, htables⟩ := List.mem_map.mp hmem
    obtain ⟨hl, hr⟩ | ⟨hl, hr⟩ := Sym2.eq_iff.mp htables
    · obtain ⟨⟨_, c⟩, hgetl, rfl⟩ := Option.map_eq_some_iff.mp hl
      obtain ⟨⟨_, d⟩, hgetr, rfl⟩ := Option.map_eq_some_iff.mp hr
      exact Option.isSome_iff_exists.mpr
        ⟨(c, d), (h _ _ _).mpr ⟨pair, hpair, .inl ⟨hgetl, hgetr⟩⟩⟩
    · obtain ⟨⟨table, d⟩, hgetl, heql⟩ := Option.map_eq_some_iff.mp hl
      obtain ⟨⟨table', c⟩, hgetr, heqr⟩ := Option.map_eq_some_iff.mp hr
      obtain rfl : table = right := heql
      obtain rfl : table' = left := heqr
      rw [Option.isSome_iff_exists]
      by_cases hne : table' = table
      · subst hne
        exact ⟨(d, c), (h _ _ _).mpr ⟨pair, hpair, .inl ⟨hgetl, hgetr⟩⟩⟩
      · exact ⟨(c, d), (h _ _ _).mpr ⟨pair, hpair, .inr ⟨hne, hgetl, hgetr⟩⟩⟩

/-- The graph after the two directions of a new edge. -/
theorem emplace_both {left right : TableEntity} {leftColumn rightColumn : String}
    (hnone : graph (left, right) = none) (hnone' : graph (right, left) = none)
    (a b : TableEntity) (columns : String × String) :
    emplace (emplace graph (left, right) (leftColumn, rightColumn)) (right, left)
        (rightColumn, leftColumn) (a, b) = some columns ↔
      graph (a, b) = some columns ∨
        ((left, leftColumn) = (a, columns.1) ∧ (right, rightColumn) = (b, columns.2) ∨
          a ≠ b ∧ (left, leftColumn) = (b, columns.2) ∧
            (right, rightColumn) = (a, columns.1)) := by
  rw [emplace_of_none hnone]
  by_cases hne : left = right
  · subst hne
    have hself : (Function.update graph (left, left) (some (leftColumn, rightColumn))
        (left, left)).isSome := by simp
    rw [emplace, if_pos hself]
    by_cases hab : (a, b) = (left, left)
    · obtain ⟨rfl, rfl⟩ := Prod.mk.inj hab
      simp [hnone, Prod.ext_iff]
    · rw [Function.update_of_ne hab]
      rw [Prod.mk.injEq] at hab
      simp only [Prod.mk.injEq]
      grind
  · have hswap : (right, left) ≠ (left, right) := fun heq => hne (Prod.mk.inj heq).2
    rw [emplace_of_none ((Function.update_of_ne hswap _ _).trans hnone')]
    by_cases hab : (a, b) = (left, right)
    · obtain ⟨rfl, rfl⟩ := Prod.mk.inj hab
      rw [Function.update_of_ne hswap.symm, Function.update_self]
      simp [hnone, hne, Prod.ext_iff]
    · by_cases hba : (a, b) = (right, left)
      · obtain ⟨rfl, rfl⟩ := Prod.mk.inj hba
        rw [Function.update_self]
        simp [hnone', hne, Ne.symm hne, Prod.ext_iff, and_comm]
      · rw [Function.update_of_ne hba, Function.update_of_ne hab]
        rw [Prod.mk.injEq] at hab hba
        simp only [Prod.mk.injEq]
        grind

theorem EdgesOf.addEdge_ok (h : EdgesOf columnVec pairs graph) {pair : Nat × Nat}
    (hlt : pair.1 < columnVec.length ∧ pair.2 < columnVec.length)
    (hnew : tablesOf columnVec pair ∉ pairs.map (tablesOf columnVec)) :
    ∃ graph', addEdge columnVec graph pair = .ok graph' ∧
      EdgesOf columnVec (pairs ++ [pair]) graph' := by
  obtain ⟨⟨left, leftColumn⟩, hl⟩ : ∃ col, columnVec[pair.1]? = some col :=
    ⟨_, List.getElem?_eq_getElem hlt.1⟩
  obtain ⟨⟨right, rightColumn⟩, hr⟩ : ∃ col, columnVec[pair.2]? = some col :=
    ⟨_, List.getElem?_eq_getElem hlt.2⟩
  have htables : tablesOf columnVec pair = s(some left, some right) := by simp [tablesOf, hl, hr]
  rw [htables] at hnew
  have hnone : graph (left, right) = none := by simpa [← h.isSome_iff] using hnew
  have hnone' : graph (right, left) = none := by
    rw [Sym2.eq_swap] at hnew
    simpa [← h.isSome_iff] using hnew
  have hadd : addEdge columnVec graph pair = .ok (emplace
      (emplace graph (left, right) (leftColumn, rightColumn)) (right, left)
      (rightColumn, leftColumn)) := by
    simp [addEdge, at?_eq_ok hl, at?_eq_ok hr, hnone]
  refine ⟨_, hadd, fun a b columns => ?_⟩
  have hsplit : (∃ p ∈ pairs ++ [pair],
      columnVec[p.1]? = some (a, columns.1) ∧ columnVec[p.2]? = some (b, columns.2) ∨
        a ≠ b ∧ columnVec[p.1]? = some (b, columns.2) ∧ columnVec[p.2]? = some (a, columns.1)) ↔
      graph (a, b) = some columns ∨
        ((left, leftColumn) = (a, columns.1) ∧ (right, rightColumn) = (b, columns.2) ∨
          a ≠ b ∧ (left, leftColumn) = (b, columns.2) ∧
            (right, rightColumn) = (a, columns.1)) := by
    rw [h a b columns]
    simp only [List.mem_append, List.mem_singleton, or_and_right, exists_or, exists_eq_left, hl, hr,
      Option.some.injEq]
  rw [hsplit]
  exact emplace_both hnone hnone' a b columns

theorem EdgesOf.addEdge_error (h : EdgesOf columnVec pairs graph) {pair : Nat × Nat}
    (hlt : pair.1 < columnVec.length ∧ pair.2 < columnVec.length)
    (hold : tablesOf columnVec pair ∈ pairs.map (tablesOf columnVec)) :
    addEdge columnVec graph pair =
      .error (.runtimeError "At least two conditions between a same pair of tables.") := by
  obtain ⟨⟨left, leftColumn⟩, hl⟩ : ∃ col, columnVec[pair.1]? = some col :=
    ⟨_, List.getElem?_eq_getElem hlt.1⟩
  obtain ⟨⟨right, rightColumn⟩, hr⟩ : ∃ col, columnVec[pair.2]? = some col :=
    ⟨_, List.getElem?_eq_getElem hlt.2⟩
  have htables : tablesOf columnVec pair = s(some left, some right) := by simp [tablesOf, hl, hr]
  rw [htables] at hold
  have hsome := h.isSome_iff.mpr hold
  simp [addEdge, at?_eq_ok hl, at?_eq_ok hr, hsome]

theorem EdgesOf.foldlM_ok (h : EdgesOf columnVec pairs graph) {more : List (Nat × Nat)}
    (hlt : ∀ pair ∈ more, pair.1 < columnVec.length ∧ pair.2 < columnVec.length)
    (hnodup : ((pairs ++ more).map (tablesOf columnVec)).Nodup) :
    ∃ graph', more.foldlM (addEdge columnVec) graph = .ok graph' ∧
      EdgesOf columnVec (pairs ++ more) graph' := by
  induction more generalizing pairs graph with
  | nil => exact ⟨graph, rfl, by rwa [List.append_nil]⟩
  | cons pair more ih =>
    rw [List.forall_mem_cons] at hlt
    have hnew : tablesOf columnVec pair ∉ pairs.map (tablesOf columnVec) := fun hmem => by
      rw [List.map_append, List.map_cons] at hnodup
      exact (List.nodup_append.mp hnodup).2.2 _ hmem _ List.mem_cons_self rfl
    obtain ⟨graph₁, hadd, h₁⟩ := h.addEdge_ok hlt.1 hnew
    rw [List.append_cons] at hnodup ⊢
    obtain ⟨graph', hfold, h'⟩ := ih h₁ hlt.2 hnodup
    exact ⟨graph', by rw [List.foldlM_cons, hadd, ok_bind, hfold], h'⟩

theorem EdgesOf.foldlM_error (h : EdgesOf columnVec pairs graph) {more : List (Nat × Nat)}
    (hlt : ∀ pair ∈ more, pair.1 < columnVec.length ∧ pair.2 < columnVec.length)
    (hpairs : (pairs.map (tablesOf columnVec)).Nodup)
    (hdup : ¬ ((pairs ++ more).map (tablesOf columnVec)).Nodup) :
    more.foldlM (addEdge columnVec) graph =
      .error (.runtimeError "At least two conditions between a same pair of tables.") := by
  induction more generalizing pairs graph with
  | nil => exact absurd (by rwa [List.append_nil]) hdup
  | cons pair more ih =>
    rw [List.forall_mem_cons] at hlt
    rw [List.foldlM_cons]
    by_cases hold : tablesOf columnVec pair ∈ pairs.map (tablesOf columnVec)
    · rw [h.addEdge_error hlt.1 hold]
      rfl
    · obtain ⟨graph₁, hadd, h₁⟩ := h.addEdge_ok hlt.1 hold
      rw [hadd, ok_bind]
      rw [List.append_cons] at hdup
      refine ih h₁ hlt.2 ?_ hdup
      rw [List.map_append, List.map_singleton, ← List.concat_eq_append]
      exact hpairs.concat hold

end

theorem joinGraph_eq_foldlM (columnVec : List (TableEntity × String))
    (classes : List (Nat × List Nat)) : joinGraph columnVec classes =
      (classPairs classes).foldlM (addEdge columnVec) fun _ => none := by
  unfold joinGraph
  generalize (fun _ => none : JoinGraph) = graph
  induction classes generalizing graph with
  | nil => rfl
  | cons cls classes ih =>
    rw [classPairs, List.flatMap_cons, List.foldlM_append, List.foldlM_cons]
    exact congrArg _ (funext ih)

/-! ## The columns of a condition -/

/-- The union is handed numbers of columns only. -/
def ParseState.InRange (state : ParseState) (size : Nat) : Prop :=
  ∀ pair ∈ state.united, pair.1 < size ∧ pair.2 < size

theorem ParseState.insertOut_united (state : ParseState) (out : ParseOut) :
    (state.insertOut out).united = state.united := by
  unfold insertOut
  split
  · unfold insertFilter
    split <;> rfl
  · rfl

section

variable {scope : Scope} {columnToTables : String → Option (List String)}
  {junk : List Bool → Int} {state : ParseState} {result : ParseOut × ParseState}

theorem parseCompare_inRange (h : scope.Sound) {op : CompareOp} {expr expr2 : Operand}
    (hparse : parseCompare scope columnToTables junk op expr expr2 state = .ok result)
    (hstate : state.InRange scope.columnVec.length) :
    result.2.InRange scope.columnVec.length := by
  obtain ⟨left, -, h₁⟩ := bind_eq_ok.mp hparse
  obtain ⟨⟨leftColumn, leftEntity⟩, -, h₂⟩ := bind_eq_ok.mp h₁
  cases expr2 with
  | columnRef right =>
    obtain ⟨⟨rightColumn, rightEntity⟩, -, h₃⟩ := bind_eq_ok.mp h₂
    simp only at h₃
    split at h₃
    · cases h₃
    · obtain ⟨leftIdx, hleft, h₄⟩ := bind_eq_ok.mp h₃
      obtain ⟨rightIdx, hright, h₅⟩ := bind_eq_ok.mp h₄
      rw [← Except.ok.inj h₅]
      intro pair hpair
      rcases List.mem_append.mp hpair with hpair | hpair
      · exact hstate pair hpair
      · rw [List.mem_singleton.mp hpair]
        exact ⟨(List.getElem?_eq_some_iff.mp (h.columnNumber hleft).2.1).1,
          (List.getElem?_eq_some_iff.mp (h.columnNumber hright).2.1).1⟩
  | _ =>
    obtain ⟨value, -, h₃⟩ := bind_eq_ok.mp h₂
    obtain ⟨idx, -, h₄⟩ := bind_eq_ok.mp h₃
    rw [← Except.ok.inj h₄]
    exact hstate

theorem parseExprImpl_inRange (h : scope.Sound) {expr : Expr} {level : Nat}
    (hparse : parseExprImpl scope columnToTables junk level expr state = .ok result)
    (hstate : state.InRange scope.columnVec.length) :
    result.2.InRange scope.columnVec.length := by
  induction expr generalizing junk level state result with
  | and l r ihl ihr =>
    rw [parseExprImpl] at hparse
    obtain ⟨⟨outl, state₁⟩, hl, h₁⟩ := bind_eq_ok.mp hparse
    obtain ⟨⟨outr, state₂⟩, hr, h₂⟩ := bind_eq_ok.mp h₁
    have hboth := ihr hr (ihl hl hstate)
    simp only at h₂
    split at h₂
    · rw [← Except.ok.inj h₂]
      unfold ParseState.InRange
      rw [ParseState.insertOut_united, ParseState.insertOut_united]
      exact hboth
    · obtain ⟨out, -, h₃⟩ := bind_eq_ok.mp h₂
      rw [← Except.ok.inj h₃]
      exact hboth
  | or l r ihl ihr =>
    rw [parseExprImpl] at hparse
    obtain ⟨⟨outl, state₁⟩, hl, h₁⟩ := bind_eq_ok.mp hparse
    obtain ⟨⟨outr, state₂⟩, hr, h₂⟩ := bind_eq_ok.mp h₁
    obtain ⟨out, -, h₃⟩ := bind_eq_ok.mp h₂
    have hboth := ihr hr (ihl hl hstate)
    rw [← Except.ok.inj h₃]
    exact hboth
  | not child ih =>
    rw [parseExprImpl] at hparse
    obtain ⟨⟨out, state₁⟩, hchild, h₁⟩ := bind_eq_ok.mp hparse
    have hrange := ih hchild hstate
    rw [← Except.ok.inj h₁]
    exact hrange
  | compare op expr expr2 => exact parseCompare_inRange h hparse hstate
  | otherOperator opType => cases hparse
  | other exprType => cases hparse
  | _ =>
    obtain ⟨out, -, h₁⟩ := bind_eq_ok.mp hparse
    rw [← Except.ok.inj h₁]
    exact hstate

theorem parseExpr_inRange (h : scope.Sound) {expr : Expr} {state' : ParseState}
    (hparse : parseExpr scope columnToTables junk expr {} = .ok state') :
    state'.InRange scope.columnVec.length := by
  obtain ⟨⟨top, state₁⟩, himpl, h₁⟩ := bind_eq_ok.mp hparse
  rw [← Except.ok.inj h₁]
  unfold ParseState.InRange
  rw [ParseState.insertOut_united]
  exact parseExprImpl_inRange h himpl fun pair hpair => by cases hpair

end

/-! ## The query -/

theorem DSU.Represents.unites_ok {dsu : DSU} {rep depth : Nat → Nat} (h : dsu.Represents rep depth)
    {united : List (Nat × Nat)}
    (hlt : ∀ pair ∈ united, pair.1 < dsu.pa.length ∧ pair.2 < dsu.pa.length) :
    ∃ dsu' depth', united.foldlM (fun dsu pair => dsu.unite pair.1 pair.2) dsu = .ok dsu' ∧
      dsu'.pa.length = dsu.pa.length ∧ dsu'.Represents (uniteAll rep united) depth' := by
  induction united generalizing dsu rep depth with
  | nil => exact ⟨dsu, depth, rfl, rfl, h⟩
  | cons pair united ih =>
    rw [List.forall_mem_cons] at hlt
    obtain ⟨dsu₁, depth₁, hunite, hlen, h₁⟩ := h.unite hlt.1.1 hlt.1.2
    rw [← hlen] at hlt
    obtain ⟨dsu', depth', hunites, hlen', h'⟩ := ih h₁ hlt.2
    exact ⟨dsu', depth', by rw [List.foldlM_cons, hunite, ok_bind, hunites], hlen'.trans hlen, h'⟩

/-- The equalities of a query make two columns equal. -/
def Equal (united : List (Nat × Nat)) : Nat → Nat → Prop :=
  Relation.EqvGen fun i j => (i, j) ∈ united

/-- No two tables, and no table with itself, have two pairs of columns that are equal. -/
def LinkedOnce (columnVec : List (TableEntity × String)) (united : List (Nat × Nat)) : Prop :=
  ∀ i j i' j', i < j → j < columnVec.length → i' < j' → j' < columnVec.length →
    Equal united i j → Equal united i' j' →
    tablesOf columnVec (i, j) = tablesOf columnVec (i', j') → i = i' ∧ j = j'

/-- Two tables are joined by their columns that are equal. A table is joined to itself from the
first of the two. -/
def Links (columnVec : List (TableEntity × String)) (united : List (Nat × Nat))
    (graph : JoinGraph) : Prop :=
  ∀ left right columns, graph (left, right) = some columns ↔ ∃ i j : Nat,
    columnVec[i]? = some (left, columns.1) ∧ columnVec[j]? = some (right, columns.2) ∧
      i ≠ j ∧ (left = right → i < j) ∧ Equal united i j

section

variable {columnVec : List (TableEntity × String)} {united : List (Nat × Nat)}
  {classes : List (Nat × List Nat)}
  (h : Grouped (uniteAll id united) columnVec.length classes)
include h

theorem Grouped.mem_pairs_iff {i j : Nat} : (i, j) ∈ classPairs classes ↔
    i < j ∧ j < columnVec.length ∧ Equal united i j := by
  rw [h.mem_classPairs, uniteAll_id_iff]
  rfl

theorem Grouped.nodup_tables_iff : ((classPairs classes).map (tablesOf columnVec)).Nodup ↔
    LinkedOnce columnVec united := by
  rw [List.nodup_map_iff_inj_on h.nodup_classPairs]
  constructor
  · intro hinj i j i' j' hij hj hij' hj' hequal hequal' htables
    exact Prod.mk.inj (hinj (i, j) (h.mem_pairs_iff.mpr ⟨hij, hj, hequal⟩) (i', j')
      (h.mem_pairs_iff.mpr ⟨hij', hj', hequal'⟩) htables)
  · rintro honce ⟨i, j⟩ hpair ⟨i', j'⟩ hpair' htables
    obtain ⟨hij, hj, hequal⟩ := h.mem_pairs_iff.mp hpair
    obtain ⟨hij', hj', hequal'⟩ := h.mem_pairs_iff.mp hpair'
    obtain ⟨rfl, rfl⟩ := honce i j i' j' hij hj hij' hj' hequal hequal' htables
    rfl

theorem Grouped.links {graph : JoinGraph} (hedges : EdgesOf columnVec (classPairs classes) graph) :
    Links columnVec united graph := by
  intro left right columns
  rw [hedges left right columns]
  constructor
  · rintro ⟨⟨i, j⟩, hpair, ⟨hi, hj⟩ | ⟨hne, hi, hj⟩⟩
    · obtain ⟨hij, -, hequal⟩ := h.mem_pairs_iff.mp hpair
      exact ⟨i, j, hi, hj, hij.ne, fun _ => hij, hequal⟩
    · obtain ⟨hij, -, hequal⟩ := h.mem_pairs_iff.mp hpair
      exact ⟨j, i, hj, hi, hij.ne', fun heq => absurd heq hne, hequal.symm⟩
  · rintro ⟨i, j, hi, hj, hij, hself, hequal⟩
    rcases Nat.lt_or_gt_of_ne hij with hlt | hgt
    · have hlen := (List.getElem?_eq_some_iff.mp hj).1
      exact ⟨(i, j), h.mem_pairs_iff.mpr ⟨hlt, hlen, hequal⟩, .inl ⟨hi, hj⟩⟩
    · have hlen := (List.getElem?_eq_some_iff.mp hi).1
      have hne : left ≠ right := fun heq => absurd (hself heq) (Nat.lt_asymm hgt)
      exact ⟨(j, i), h.mem_pairs_iff.mpr ⟨hgt, hlen, hequal.symm⟩, .inr ⟨hne, hj, hi⟩⟩

theorem Grouped.joinGraph :
    (LinkedOnce columnVec united →
      ∃ graph, joinGraph columnVec classes = .ok graph ∧ Links columnVec united graph) ∧
    (¬ LinkedOnce columnVec united → joinGraph columnVec classes =
      .error (.runtimeError "At least two conditions between a same pair of tables.")) := by
  have hlt : ∀ pair ∈ classPairs classes,
      pair.1 < columnVec.length ∧ pair.2 < columnVec.length := by
    rintro ⟨i, j⟩ hpair
    obtain ⟨hij, hj, -⟩ := h.mem_pairs_iff.mp hpair
    exact ⟨hij.trans hj, hj⟩
  have hempty : EdgesOf columnVec [] fun _ => none := fun left right columns => by simp
  rw [joinGraph_eq_foldlM]
  constructor
  · intro honce
    obtain ⟨graph, hfold, hedges⟩ := hempty.foldlM_ok hlt (h.nodup_tables_iff.mpr honce)
    exact ⟨graph, hfold, h.links hedges⟩
  · intro honce
    exact hempty.foldlM_error hlt List.nodup_nil fun hnodup =>
      honce (h.nodup_tables_iff.mp hnodup)

end

/-- When the `FROM` list, the select list and the `WHERE` clause of a query are accepted,
`parse_sql` accepts the query exactly if no two tables have two pairs of equal columns, and joins in
its graph all tables by their equal columns, in whatever order it goes through the classes. -/
theorem parseSQL_links (columnToTables : String → Option (List String)) (env : ParseEnv)
    (query : Query) {scope : Scope} {attrs : List (TableEntity × String)} {state : ParseState}
    (hscope : fromClause query.fromTable = .ok scope)
    (hattrs : query.selectList.foldlM (selectItem scope columnToTables env.selectJunk) [] =
      .ok attrs)
    (hstate : parseExpr scope columnToTables env.whereJunk query.whereClause {} = .ok state) :
    (LinkedOnce scope.columnVec state.united → ∃ union graph,
      parseSQL columnToTables env query =
        .ok ⟨scope, attrs, state.filters, state.united, union, graph⟩ ∧
      (∀ i < scope.columnVec.length, ∀ j < scope.columnVec.length,
        union.Same i j ↔ Equal state.united i j) ∧
      Links scope.columnVec state.united graph) ∧
    (¬ LinkedOnce scope.columnVec state.united → parseSQL columnToTables env query =
      .error (.runtimeError "At least two conditions between a same pair of tables.")) := by
  have hrange : ∀ pair ∈ state.united, pair.1 < (DSU.new scope.columnVec.length).pa.length ∧
      pair.2 < (DSU.new scope.columnVec.length).pa.length := by
    intro pair hpair
    rw [DSU.new, List.length_range]
    exact parseExpr_inRange (fromClause_sound hscope) hstate pair hpair
  obtain ⟨union₁, depth, hunites, hlen, hrep⟩ :=
    (DSU.Represents.new scope.columnVec.length).unites_ok hrange
  rw [DSU.new, List.length_range] at hlen
  obtain ⟨classes, union, hjoined, hgrouped, hlen', hrep'⟩ :=
    joinedColumns_ok hrep scope.columnVec.length hlen.ge
  have hparse : parseSQL columnToTables env query =
      (joinGraph scope.columnVec (env.classes.order [] classes)).map fun graph =>
        ⟨scope, attrs, state.filters, state.united, union, graph⟩ := by
    unfold parseSQL
    simp only [hscope, hattrs, hstate, Except.mapError, ok_bind, hunites, hjoined]
    cases joinGraph scope.columnVec (env.classes.order [] classes) <;> rfl
  obtain ⟨haccepts, hrejects⟩ := (hgrouped.perm (env.classes.perm [] classes)).joinGraph
  rw [hparse]
  constructor
  · intro honce
    obtain ⟨graph, hgraph, hlinks⟩ := haccepts honce
    refine ⟨union, graph, by rw [hgraph]; rfl, fun i hi j hj => ?_, hlinks⟩
    rw [hrep'.same_iff (by omega) (by omega), uniteAll_id_iff]
    rfl
  · intro honce
    rw [hrejects honce]
    rfl

/-- `k.id = l.id AND k.keyword = l.link` -/
def keywordTwice : Expr :=
  .and keywordId
    (.compare .equals (.columnRef ⟨some "k", "keyword"⟩) (.columnRef ⟨some "l", "link"⟩))

theorem parseSQL_links_keywordLink :
    (∃ sql, parseSQL (fun _ => none) parseInOrder (keywordLink keywordId) = .ok sql ∧
      sql.joinGraph (⟨"keyword", 0⟩, ⟨"link_type", 0⟩) = some ("id", "id")) ∧
    parseSQL (fun _ => none) parseInOrder (keywordLink keywordTwice) =
      .error (.runtimeError "At least two conditions between a same pair of tables.") := by
  constructor
  · obtain ⟨haccepts, -⟩ := parseSQL_links (fun _ => none) parseInOrder (keywordLink keywordId)
      rfl rfl rfl
    obtain ⟨union, graph, hparse, -, hlinks⟩ := haccepts fun i j i' j' hij hj hij' hj' h h' _ => by
      have honly : ∀ j < 5, ∀ i < j,
          uniteAll id [(0, 3)] i = uniteAll id [(0, 3)] j → i = 0 ∧ j = 3 := by decide
      have hpair := honly j hj i hij (uniteAll_id_iff.mpr h)
      have hpair' := honly j' hj' i' hij' (uniteAll_id_iff.mpr h')
      omega
    exact ⟨_, hparse, (hlinks _ _ ("id", "id")).mpr
      ⟨0, 3, rfl, rfl, by decide, fun h => absurd h (by decide), .rel _ _ (by decide)⟩⟩
  · obtain ⟨-, hrejects⟩ := parseSQL_links (fun _ => none) parseInOrder (keywordLink keywordTwice)
      rfl rfl rfl
    refine hrejects fun honce => ?_
    have hsame := honce 0 3 1 4 (by decide) (by decide) (by decide) (by decide)
      (.rel _ _ (by decide)) (.rel _ _ (by decide)) (by decide)
    exact absurd hsame.1 (by decide)

end HashJoin
