import HashJoin.Lib.UnionFind
import HashJoin.ParseSQL

/-!
# The union of the join columns

`DSU` keeps for each number a path to the representative of its class. `find` shortens the paths and
`unite` joins two of them, so the classes are those of the united pairs. Each edge of the join graph
is between two columns of one class.
-/

namespace HashJoin

open UnionFind

/-! ## Disjoint sets -/

namespace DSU

/-- The parents lead each number to its representative, nearer with every step. -/
structure Represents (dsu : DSU) (rep depth : Nat → Nat) : Prop where
  idempotent : Idempotent rep
  inside : ∀ x < dsu.pa.length, rep x < dsu.pa.length
  parent : ∀ x < dsu.pa.length, ∃ p, dsu.pa[x]? = some p ∧ p < dsu.pa.length ∧ rep p = rep x ∧
    (p = x → rep x = x) ∧ (p ≠ x → depth p < depth x)

theorem Represents.new (size : Nat) : (new size).Represents id fun _ => 0 := by
  refine ⟨fun _ => rfl, fun x hx => hx, fun x hx => ?_⟩
  rw [DSU.new, List.length_range] at hx
  exact ⟨x, by simp [DSU.new, hx], by simpa [DSU.new] using hx, rfl, fun _ => rfl,
    fun h => absurd rfl h⟩

section

variable {dsu : DSU} {rep depth : Nat → Nat}

/-- The representative is not farther than the number. -/
theorem Represents.depth_rep (h : dsu.Represents rep depth) {x : Nat} (hx : x < dsu.pa.length) :
    rep x = x ∨ depth (rep x) < depth x := by
  obtain ⟨d, hd⟩ : ∃ d, depth x = d := ⟨_, rfl⟩
  induction d using Nat.strong_induction_on generalizing x with
  | _ d ih =>
    obtain ⟨p, -, hp, hrep, hroot, hdepth⟩ := h.parent x hx
    by_cases hpx : p = x
    · exact .inl (hroot hpx)
    · have hlt := hdepth hpx
      rw [← hrep]
      rcases ih (depth p) (hd ▸ hlt) hp rfl with hself | hless
      · right
        rw [hself]
        exact hlt
      · exact .inr (hless.trans hlt)

/-- A number may be led to its representative directly. -/
theorem Represents.compress (h : dsu.Represents rep depth) {x : Nat} (hx : x < dsu.pa.length) :
    DSU.Represents ⟨dsu.pa.set x (rep x)⟩ rep depth := by
  refine ⟨h.idempotent, by simpa using h.inside, fun y hy => ?_⟩
  rw [List.length_set] at hy ⊢
  by_cases hyx : x = y
  · subst hyx
    refine ⟨rep x, by simp [hx], h.inside x hx, h.idempotent x, fun heq => heq, fun hne => ?_⟩
    exact (h.depth_rep hx).resolve_left hne
  · simpa [List.getElem?_set_ne hyx] using h.parent y hy

/-- `find` gives the representative. The numbers on its path are all different, so they are not more
than the vector has. -/
theorem Represents.findFuel (h : dsu.Represents rep depth) {x : Nat} (hx : x < dsu.pa.length)
    {fuel : Nat} {path : Finset Nat} (hpath : path ⊆ Finset.range dsu.pa.length)
    (hdepth : ∀ y ∈ path, depth x < depth y) (hfuel : dsu.pa.length ≤ fuel + path.card) :
    ∃ dsu', findFuel fuel dsu x = .ok (rep x, dsu') ∧ dsu'.pa.length = dsu.pa.length ∧
      dsu'.Represents rep depth := by
  have hnew : x ∉ path := fun hmem => lt_irrefl _ (hdepth x hmem)
  have hinsert : insert x path ⊆ Finset.range dsu.pa.length :=
    Finset.insert_subset (Finset.mem_range.mpr hx) hpath
  induction fuel generalizing x path with
  | zero =>
    have hcard := Finset.card_le_card hinsert
    rw [Finset.card_insert_of_notMem hnew, Finset.card_range] at hcard
    omega
  | succ fuel ih =>
    obtain ⟨p, hp, hlt, hrep, hroot, hless⟩ := h.parent x hx
    unfold DSU.findFuel
    rw [at?_eq_ok hp, ok_bind]
    by_cases hpx : p = x
    · rw [if_pos hpx, hroot hpx]
      exact ⟨dsu, rfl, rfl, h⟩
    · have hnext : ∀ y ∈ insert x path, depth p < depth y := by
        intro y hy
        rcases Finset.mem_insert.mp hy with rfl | hy
        · exact hless hpx
        · exact (hless hpx).trans (hdepth y hy)
      have hpnew : p ∉ insert x path := fun hmem => lt_irrefl _ (hnext p hmem)
      have hcard := Finset.card_insert_of_notMem hnew
      obtain ⟨dsu', hfind, hlen, h'⟩ := ih hlt hinsert hnext (by omega) hpnew
        (Finset.insert_subset (Finset.mem_range.mpr hlt) hinsert)
      rw [if_neg hpx, hfind, ok_bind]
      have hx' : x < dsu'.pa.length := hlen ▸ hx
      exact ⟨⟨dsu'.pa.set x (rep x)⟩, by rw [hrep], by rw [List.length_set, hlen],
        h'.compress hx'⟩

theorem Represents.find (h : dsu.Represents rep depth) {x : Nat} (hx : x < dsu.pa.length) :
    ∃ dsu', dsu.find x = .ok (rep x, dsu') ∧ dsu'.pa.length = dsu.pa.length ∧
      dsu'.Represents rep depth :=
  h.findFuel hx (Finset.empty_subset _) (by simp) (by simp)

/-- `unite` merges the two classes. -/
theorem Represents.unite (h : dsu.Represents rep depth) {x y : Nat} (hx : x < dsu.pa.length)
    (hy : y < dsu.pa.length) : ∃ dsu' depth', dsu.unite x y = .ok dsu' ∧
      dsu'.pa.length = dsu.pa.length ∧ dsu'.Represents (UnionFind.unite rep x y) depth' := by
  obtain ⟨dsu₁, hfindy, hlen₁, h₁⟩ := h.find hy
  obtain ⟨dsu₂, hfindx, hlen₂, h₂⟩ := h₁.find (hlen₁ ▸ hx)
  have hlen : dsu₂.pa.length = dsu.pa.length := hlen₂.trans hlen₁
  refine ⟨⟨dsu₂.pa.set (rep x) (rep y)⟩,
    fun z => if rep z = rep x ∧ rep x ≠ rep y then depth z + depth (rep y) + 1 else depth z,
    ?_, by rw [List.length_set, hlen], h.idempotent.unite x y, ?_, ?_⟩
  · unfold DSU.unite
    rw [hfindy, ok_bind]
    simp only
    rw [hfindx, ok_bind]
  · intro z hz
    rw [List.length_set, hlen] at hz ⊢
    rcases unite_eq_or rep x y z with heq | heq
    · rw [heq]
      exact h.inside y hy
    · rw [heq]
      exact h.inside z hz
  · intro z hz
    rw [List.length_set, hlen] at hz ⊢
    by_cases hroot : rep x = z
    · -- the root of the first class gets that of the second as its parent
      subst hroot
      have hself : UnionFind.unite rep x y (rep x) = rep y := unite_of_eq (h.idempotent x)
      refine ⟨rep y, by simp [hlen, h.inside x hx], h.inside y hy, ?_, fun heq => ?_, fun hne => ?_⟩
      · rw [hself]
        by_cases heq : rep (rep y) = rep x
        · exact unite_of_eq heq
        · rw [unite_of_ne heq, h.idempotent y]
      · rw [hself, heq]
      · have hy' : ¬ (rep (rep y) = rep x ∧ rep x ≠ rep y) := by
          rintro ⟨heq, -⟩
          exact hne ((h.idempotent y).symm.trans heq)
        rw [if_neg hy', if_pos ⟨h.idempotent x, fun heq => hne heq.symm⟩]
        omega
    · obtain ⟨p, hp, hlt, hrep, hpz, hdepth⟩ := h₂.parent z (hlen ▸ hz)
      refine ⟨p, by rw [List.getElem?_set_ne hroot, hp], hlen ▸ hlt, unite_congr hrep,
        fun heq => ?_, fun hne => ?_⟩
      · have hz' := hpz heq
        rw [unite_of_ne (by rw [hz']; exact fun heq => hroot heq.symm), hz']
      · have hless := hdepth hne
        simp only [hrep]
        split <;> omega

/-- `find` does not succeed outside the vector. -/
theorem lt_of_find {x : Nat} {result : Nat × DSU} (h : dsu.find x = .ok result) :
    x < dsu.pa.length := by
  unfold DSU.find at h
  cases hlen : dsu.pa.length with
  | zero =>
    rw [hlen] at h
    cases h
  | succ fuel =>
    rw [hlen, DSU.findFuel] at h
    obtain ⟨p, hp, -⟩ := bind_eq_ok.mp h
    rw [← hlen]
    exact (List.getElem?_eq_some_iff.mp (eq_some_of_at? hp)).1

theorem lt_of_unite {x y : Nat} {dsu' : DSU} (h : dsu.unite x y = .ok dsu')
    (hrep : dsu.Represents rep depth) : x < dsu.pa.length ∧ y < dsu.pa.length := by
  obtain ⟨⟨rootY, dsu₁⟩, hfindy, h₁⟩ := bind_eq_ok.mp h
  obtain ⟨⟨rootX, dsu₂⟩, hfindx, -⟩ := bind_eq_ok.mp h₁
  have hy := lt_of_find hfindy
  obtain ⟨dsu₁', hfindy', hlen, -⟩ := hrep.find hy
  obtain ⟨-, rfl⟩ := Prod.mk.inj (Except.ok.inj (hfindy.symm.trans hfindy'))
  exact ⟨hlen ▸ lt_of_find hfindx, hy⟩

/-- The classes after any calls of `unite` are those of their pairs. -/
theorem Represents.unites (h : dsu.Represents rep depth) {united : List (Nat × Nat)} {dsu' : DSU}
    (hunites : united.foldlM (fun dsu pair => dsu.unite pair.1 pair.2) dsu = .ok dsu') :
    (∀ pair ∈ united, pair.1 < dsu.pa.length ∧ pair.2 < dsu.pa.length) ∧
      dsu'.pa.length = dsu.pa.length ∧ ∃ depth', dsu'.Represents (uniteAll rep united) depth' := by
  induction united generalizing dsu rep depth with
  | nil =>
    obtain rfl := Except.ok.inj hunites
    exact ⟨by simp, rfl, depth, h⟩
  | cons pair united ih =>
    rw [List.foldlM_cons] at hunites
    obtain ⟨dsu₁, hunite, hunites⟩ := bind_eq_ok.mp hunites
    obtain ⟨hx, hy⟩ := lt_of_unite hunite h
    obtain ⟨dsu₁', depth₁, hunite', hlen, h₁⟩ := h.unite hx hy
    obtain rfl := Except.ok.inj (hunite.symm.trans hunite')
    obtain ⟨hpairs, hlen', hrep⟩ := ih h₁ hunites
    rw [hlen] at hpairs
    exact ⟨List.forall_mem_cons.mpr ⟨⟨hx, hy⟩, hpairs⟩, hlen'.trans hlen, hrep⟩

theorem Represents.same_iff (h : dsu.Represents rep depth) {x y : Nat} (hx : x < dsu.pa.length)
    (hy : y < dsu.pa.length) : dsu.Same x y ↔ rep x = rep y := by
  obtain ⟨dsux, hfindx, -⟩ := h.find hx
  obtain ⟨dsuy, hfindy, -⟩ := h.find hy
  unfold Same
  rw [hfindx, hfindy]
  simp [Except.map, eq_comm]

end

end DSU

/-! ## The join graph -/

/-- All items of a class have its number as representative. -/
def ClassesOf (rep : Nat → Nat) (size : Nat) (classes : List (Nat × List Nat)) : Prop :=
  ∀ cls ∈ classes, ∀ i ∈ cls.2, rep i = cls.1 ∧ i < size

theorem ClassesOf.addToClass {rep : Nat → Nat} {size : Nat} {classes : List (Nat × List Nat)}
    (h : ClassesOf rep size classes) {i : Nat} (hi : i < size) :
    ClassesOf rep size (addToClass classes (rep i) i) := by
  intro cls hcls
  unfold HashJoin.addToClass at hcls
  split at hcls
  · obtain ⟨old, hold, rfl⟩ := List.mem_map.mp hcls
    split
    · next hset =>
      rw [List.forall_mem_append, List.forall_mem_singleton]
      exact ⟨fun j hj => by rw [← hset]; exact h old hold j hj, rfl, hi⟩
    · exact h old hold
  · rcases List.mem_append.mp hcls with hold | hnew
    · exact h cls hold
    · rw [List.mem_singleton.mp hnew, List.forall_mem_singleton]
      exact ⟨rfl, hi⟩

theorem foldlM_invariant {ε σ α : Type} {f : σ → α → Except ε σ} {P : σ → Prop} {l : List α}
    (hstep : ∀ a ∈ l, ∀ s s', P s → f s a = .ok s' → P s') {s s' : σ} (hs : P s)
    (h : l.foldlM f s = .ok s') : P s' := by
  induction l generalizing s with
  | nil => exact Except.ok.inj h ▸ hs
  | cons a l ih =>
    rw [List.foldlM_cons] at h
    obtain ⟨s₁, hs₁, h⟩ := bind_eq_ok.mp h
    rw [List.forall_mem_cons] at hstep
    exact ih hstep.2 (hstep.1 s s₁ hs hs₁) h

theorem joinedColumns_spec {dsu dsu' : DSU} {rep depth : Nat → Nat}
    (h : dsu.Represents rep depth) {classes : List (Nat × List Nat)}
    (hjoined : joinedColumns dsu dsu.pa.length = .ok (classes, dsu')) :
    ClassesOf rep dsu.pa.length classes ∧ dsu'.pa.length = dsu.pa.length ∧
      dsu'.Represents rep depth := by
  refine foldlM_invariant (P := fun state => ClassesOf rep dsu.pa.length state.1 ∧
    state.2.pa.length = dsu.pa.length ∧ state.2.Represents rep depth) ?_
    ⟨by simp [ClassesOf], rfl, h⟩ hjoined
  rintro i hi ⟨classes₁, dsu₁⟩ state ⟨hclasses, hlen, h₁⟩ hstep
  simp only at hclasses hlen h₁
  have hi : i < dsu.pa.length := List.mem_range.mp hi
  obtain ⟨dsu₂, hfind, hlen₂, h₂⟩ := h₁.find (hlen ▸ hi)
  simp only [hfind, ok_bind] at hstep
  rw [← Except.ok.inj hstep]
  exact ⟨hclasses.addToClass hi, hlen₂.trans hlen, h₂⟩

theorem mem_laterPairs {α : Type} {l : List α} {pair : α × α} (h : pair ∈ laterPairs l) :
    pair.1 ∈ l ∧ pair.2 ∈ l := by
  induction l with
  | nil => cases h
  | cons a l ih =>
    rcases List.mem_append.mp h with hfirst | hlater
    · obtain ⟨b, hb, rfl⟩ := List.mem_map.mp hfirst
      exact ⟨by simp, by simp [hb]⟩
    · obtain ⟨h₁, h₂⟩ := ih hlater
      exact ⟨by simp [h₁], by simp [h₂]⟩

/-- Each edge joins two columns of one class. -/
def GraphOf (columnVec : List (TableEntity × String)) (rep : Nat → Nat) (graph : JoinGraph) :
    Prop :=
  ∀ left right columns, graph (left, right) = some columns → ∃ i j : Nat,
    columnVec[i]? = some (left, columns.1) ∧ columnVec[j]? = some (right, columns.2) ∧
      rep i = rep j

theorem GraphOf.addEdge {columnVec : List (TableEntity × String)} {rep : Nat → Nat}
    {graph graph' : JoinGraph} (h : GraphOf columnVec rep graph) {items : Nat × Nat}
    (hitems : rep items.1 = rep items.2) (hadd : addEdge columnVec graph items = .ok graph') :
    GraphOf columnVec rep graph' := by
  obtain ⟨⟨left, leftColumn⟩, hl, h₁⟩ := bind_eq_ok.mp hadd
  obtain ⟨⟨right, rightColumn⟩, hr, h₂⟩ := bind_eq_ok.mp h₁
  simp only at h₂
  split at h₂
  · cases h₂
  · obtain rfl := Except.ok.inj h₂
    intro e e' columns hget
    rcases emplace_eq_some hget with hget | ⟨-, hkey, rfl⟩
    · rcases emplace_eq_some hget with hget | ⟨-, hkey, rfl⟩
      · exact h e e' columns hget
      · obtain ⟨rfl, rfl⟩ := Prod.mk.inj hkey
        exact ⟨items.1, items.2, eq_some_of_at? hl, eq_some_of_at? hr, hitems⟩
    · obtain ⟨rfl, rfl⟩ := Prod.mk.inj hkey
      exact ⟨items.2, items.1, eq_some_of_at? hr, eq_some_of_at? hl, hitems.symm⟩

theorem joinGraph_spec {columnVec : List (TableEntity × String)} {rep : Nat → Nat} {size : Nat}
    {classes : List (Nat × List Nat)} (hclasses : ClassesOf rep size classes) {graph : JoinGraph}
    (h : joinGraph columnVec classes = .ok graph) : GraphOf columnVec rep graph := by
  refine foldlM_invariant (P := GraphOf columnVec rep) (fun cls hcls g g' hg hfold => ?_)
    (fun _ _ _ hget => by cases hget) h
  refine foldlM_invariant (P := GraphOf columnVec rep) (fun pair hpair g g' hg hadd => ?_) hg hfold
  obtain ⟨h₁, h₂⟩ := mem_laterPairs hpair
  exact hg.addEdge ((hclasses cls hcls _ h₁).1.trans (hclasses cls hcls _ h₂).1.symm) hadd

/-! ## Parsed queries -/

theorem mapError_eq_ok {ε ε' α : Type} {f : ε → ε'} {x : Except ε α} {a : α}
    (h : x.mapError f = .ok a) : x = .ok a := by
  cases x with
  | ok b => exact congrArg Except.ok (Except.ok.inj h)
  | error e => cases h

/-- What holds of a parsed query: the union has the classes of the equalities, and the join graph
has edges inside them only. -/
structure ParsedSQL.Sound (query : Query) (sql : ParsedSQL) : Prop where
  scope : fromClause query.fromTable = .ok sql.scope
  united : ∀ pair ∈ sql.united,
    pair.1 < sql.scope.columnVec.length ∧ pair.2 < sql.scope.columnVec.length
  length : sql.joinUnion.pa.length = sql.scope.columnVec.length
  classes : ∃ depth, sql.joinUnion.Represents (uniteAll id sql.united) depth
  graph : GraphOf sql.scope.columnVec (uniteAll id sql.united) sql.joinGraph

theorem parseSQL_sound {columnToTables : String → Option (List String)} {env : ParseEnv}
    {query : Query} {sql : ParsedSQL} (h : parseSQL columnToTables env query = .ok sql) :
    sql.Sound query := by
  obtain ⟨scope, hscope, h₁⟩ := bind_eq_ok.mp h
  obtain ⟨attrs, -, h₂⟩ := bind_eq_ok.mp h₁
  obtain ⟨state, -, h₃⟩ := bind_eq_ok.mp h₂
  obtain ⟨union, hunion, h₄⟩ := bind_eq_ok.mp h₃
  obtain ⟨⟨classes, union'⟩, hjoined, h₅⟩ := bind_eq_ok.mp h₄
  obtain ⟨graph, hgraph, h₆⟩ := bind_eq_ok.mp h₅
  obtain ⟨hpairs, hlen, depth, hrep⟩ := (DSU.Represents.new _).unites hunion
  have hnew : (DSU.new scope.columnVec.length).pa.length = scope.columnVec.length :=
    List.length_range
  rw [hnew] at hpairs hlen
  rw [← hlen] at hjoined
  obtain ⟨hclasses, hlen', hrep'⟩ := joinedColumns_spec hrep hjoined
  have hperm : ClassesOf (uniteAll id state.united) union.pa.length
      (env.classes.order [] classes) :=
    fun cls hcls => hclasses cls ((env.classes.perm [] classes).mem_iff.mp hcls)
  obtain rfl := Except.ok.inj h₆
  exact ⟨mapError_eq_ok hscope, hpairs, hlen'.trans hlen, ⟨depth, hrep'⟩,
    joinGraph_spec hperm hgraph⟩

end HashJoin
