import HashJoin.Lib.Owners
import HashJoin.Plan

/-!
# Who owns mapped memory

The columns of a cached table share the mapping of the file, which counts them by hand. A `Column`
owns pages from `new`, or a share of a mapping. Its destructor tells the two apart; its move
assignment does not, and `assign_mapped_memory` forgets the mapping that a column had before.
-/

namespace HashJoin.Ownership

open Owners

/-- What a `Page*` points to. -/
inductive PagePtr where
  | heap (id : Nat)
  /-- Page `i` of a mapping. -/
  | mapped (m i : Nat)

structure Column where
  type : DataType
  pages : List PagePtr := []
  /-- The number of the `MappedMemory`, unless the pointer is null. -/
  mappedMemory : Option Nat := none

/-- The live objects, and what was given to `delete`. A released mapping is one whose
`MappedMemory` was deleted. -/
structure State where
  columns : Nat → Option Column := fun _ => none
  nextColumn : Nat := 0
  /-- The `refs` of each live `MappedMemory`. -/
  mappings : Nat → Option Nat := fun _ => none
  nextMapping : Nat := 0
  nextPage : Nat := 0
  deleted : List PagePtr := []
  released : List Nat := []
  /-- The mappings to which a column was assigned. -/
  assigned : List Nat := []

inductive Op where
  /-- `new MappedMemory(addr, length)`. -/
  | map
  | construct (type : DataType)
  | newPage (c : Nat)
  /-- `pages.push_back` of a page in the column's mapping, as in `from_cache`. -/
  | pushMapped (c i : Nat)
  | assignMappedMemory (c m : Nat)
  | moveConstruct (other : Nat)
  | moveAssign (c other : Nat)
  | destruct (c : Nat)

namespace State

def setColumn (s : State) (c : Nat) (col : Option Column) : State :=
  { s with columns := Function.update s.columns c col }

def addColumn (s : State) (col : Column) : State :=
  { s.setColumn s.nextColumn (some col) with nextColumn := s.nextColumn + 1 }

/-- What a move leaves of a column. -/
def movedFrom (other : Column) : Column := { type := other.type }

/-- One operation, which names live objects. -/
def step (s : State) : Op → Option State
  | .map => some { s with
      mappings := Function.update s.mappings s.nextMapping (some 0)
      nextMapping := s.nextMapping + 1 }
  | .construct type => some (s.addColumn { type := type })
  | .newPage c => do
    let col ← s.columns c
    some { s.setColumn c (some { col with pages := col.pages ++ [.heap s.nextPage] }) with
      nextPage := s.nextPage + 1 }
  | .pushMapped c i => do
    let col ← s.columns c
    let m ← col.mappedMemory
    some (s.setColumn c (some { col with pages := col.pages ++ [.mapped m i] }))
  | .assignMappedMemory c m => do
    let col ← s.columns c
    let refs ← s.mappings m
    some { s.setColumn c (some { col with mappedMemory := some m }) with
      mappings := Function.update s.mappings m (some (refs + 1))
      assigned := m :: s.assigned }
  | .moveConstruct other => do
    let col ← s.columns other
    some ((s.addColumn col).setColumn other (some (movedFrom col)))
  | .moveAssign c other => do
    let this ← s.columns c
    let col ← s.columns other
    if c = other then some s
    else some { (s.setColumn c (some col)).setColumn other (some (movedFrom col)) with
      deleted := s.deleted ++ this.pages }
  | .destruct c => do
    let col ← s.columns c
    match col.mappedMemory with
    | some m =>
      -- a column that points to the mapping is counted, so that `refs` is not 0 here
      let refs ← s.mappings m
      if refs - 1 = 0 then some { s.setColumn c none with
        mappings := Function.update s.mappings m none
        released := s.released ++ [m] }
      else some { s.setColumn c none with
        mappings := Function.update s.mappings m (some (refs - 1)) }
    | none => some { s.setColumn c none with deleted := s.deleted ++ col.pages }

/-- The mapping of a live column. -/
def mappingOf (s : State) (c : Nat) : Option Nat := (s.columns c).bind Column.mappedMemory

/-- The number of live columns whose `mapped_memory` points to the mapping. -/
def pointers (s : State) (m : Nat) : Nat := references (Finset.range s.nextColumn) s.mappingOf m

/-- Every count is right, a mapping that had a column is released once and only when it has none
left, and no page of a mapping was deleted. -/
structure Owned (s : State) : Prop where
  refs : ∀ m refs, s.mappings m = some refs → refs = s.pointers m
  released : ∀ m ∈ s.assigned, s.released.count m = if s.pointers m = 0 then 1 else 0
  deleted : ∀ m i, .mapped m i ∉ s.deleted

/-- The operation does not overwrite the mapping of a column. -/
def Spares (s : State) : Op → Prop
  | .assignMappedMemory c _ => s.mappingOf c = none
  | .moveAssign c other => c = other ∨ s.mappingOf c = none
  | _ => True

end State

/-! ## The counts -/

/-- The mappings and the columns that point to them. -/
structure Ledger (n : Nat) (points : Nat → Option Nat) (mappings : Nat → Option Nat) (next : Nat)
    (released assigned : List Nat) : Prop where
  inside : ∀ c m, points c = some m → c < n ∧ m ∈ assigned
  below : ∀ m ∈ assigned, m < next
  live : ∀ m < next, m ∉ released → mappings m = some (references (Finset.range n) points m)
  bound : ∀ m refs, mappings m = some refs → m < next ∧ m ∉ released
  used : ∀ m ∈ assigned, m ∉ released → 0 < references (Finset.range n) points m
  unused : ∀ m ∈ released, m ∈ assigned ∧ references (Finset.range n) points m = 0
  nodup : released.Nodup

section

variable {n next : Nat} {points mappings : Nat → Option Nat} {released assigned : List Nat}

theorem Ledger.refs (h : Ledger n points mappings next released assigned) {m refs : Nat}
    (hm : mappings m = some refs) : refs = references (Finset.range n) points m := by
  obtain ⟨hlt, hnot⟩ := h.bound m refs hm
  exact Option.some.inj (hm.symm.trans (h.live m hlt hnot))

theorem Ledger.count (h : Ledger n points mappings next released assigned) {m : Nat}
    (hm : m ∈ assigned) :
    released.count m = if references (Finset.range n) points m = 0 then 1 else 0 := by
  by_cases hrel : m ∈ released
  · rw [if_pos (h.unused m hrel).2]
    exact List.count_eq_one_of_mem h.nodup hrel
  · have := h.used m hm hrel
    rw [if_neg (by omega), List.count_eq_zero_of_not_mem hrel]

/-- A mapping to which a column points is not released. -/
theorem Ledger.not_released (h : Ledger n points mappings next released assigned) {c m : Nat}
    (hc : points c = some m) : m ∉ released := by
  intro hrel
  have hpos : 0 < references (Finset.range n) points m :=
    references_pos_iff.mpr ⟨c, Finset.mem_range.mpr (h.inside c m hc).1, hc⟩
  have := (h.unused m hrel).2
  omega

theorem Ledger.map (h : Ledger n points mappings next released assigned) :
    Ledger n points (Function.update mappings next (some 0)) (next + 1) released assigned := by
  have hnext : next ∉ assigned := fun hm => absurd (h.below next hm) (lt_irrefl _)
  have hzero : references (Finset.range n) points next = 0 := by
    by_contra hne
    obtain ⟨c, -, hc⟩ := references_pos_iff.mp (Nat.pos_of_ne_zero hne)
    exact hnext (h.inside c next hc).2
  refine ⟨h.inside, fun m hm => (h.below m hm).trans (Nat.lt_succ_self _), fun m hm hrel => ?_,
    fun m refs hm => ?_, h.used, h.unused, h.nodup⟩
  · by_cases heq : m = next
    · rw [heq, Function.update_self, hzero]
    · rw [Function.update_of_ne heq]
      exact h.live m (by omega) hrel
  · by_cases heq : m = next
    · refine ⟨by omega, fun hrel => ?_⟩
      exact hnext (heq ▸ (h.unused m hrel).1)
    · rw [Function.update_of_ne heq] at hm
      exact ⟨(h.bound m refs hm).1.trans (Nat.lt_succ_self _), (h.bound m refs hm).2⟩

theorem Ledger.grow (h : Ledger n points mappings next released assigned) :
    Ledger (n + 1) points mappings next released assigned := by
  have hnone : points n = none := by
    cases hp : points n with
    | none => rfl
    | some m => exact absurd (h.inside n m hp).1 (lt_irrefl _)
  have hcount : ∀ m, references (Finset.range (n + 1)) points m =
      references (Finset.range n) points m := fun m => by
    rw [Finset.range_add_one, references_insert hnone]
  refine ⟨fun c m hc => ⟨(h.inside c m hc).1.trans (Nat.lt_succ_self _), (h.inside c m hc).2⟩,
    h.below, ?_, h.bound, ?_, ?_, h.nodup⟩
  · simpa only [hcount] using h.live
  · simpa only [hcount] using h.used
  · simpa only [hcount] using h.unused

theorem Ledger.move (h : Ledger n points mappings next released assigned) {c other : Nat}
    (hc : c < n) (hother : other < n) (hne : other ≠ c) (hfree : points c = none) :
    Ledger n (Function.update (Function.update points c (points other)) other none) mappings next
      released assigned := by
  have hcount : ∀ m, references (Finset.range n)
      (Function.update (Function.update points c (points other)) other none) m =
        references (Finset.range n) points m :=
    references_move (Finset.mem_range.mpr hc) (Finset.mem_range.mpr hother) hne hfree
  refine ⟨fun d m hd => ?_, h.below, ?_, h.bound, ?_, ?_, h.nodup⟩
  · by_cases hdo : d = other
    · simp [hdo] at hd
    · rw [Function.update_of_ne hdo] at hd
      by_cases hdc : d = c
      · rw [hdc, Function.update_self] at hd
        exact ⟨hdc ▸ hc, (h.inside other m hd).2⟩
      · rw [Function.update_of_ne hdc] at hd
        exact h.inside d m hd
  · simpa only [hcount] using h.live
  · simpa only [hcount] using h.used
  · simpa only [hcount] using h.unused

theorem Ledger.assign (h : Ledger n points mappings next released assigned) {c m refs : Nat}
    (hc : c < n) (hfree : points c = none) (hm : mappings m = some refs) :
    Ledger n (Function.update points c (some m)) (Function.update mappings m (some (refs + 1)))
      next released (m :: assigned) := by
  obtain ⟨hlt, hnot⟩ := h.bound m refs hm
  have hcount : ∀ m', references (Finset.range n) (Function.update points c (some m)) m' =
      references (Finset.range n) points m' + if m = m' then 1 else 0 := by
    intro m'
    have hupdate := references_update points (Finset.mem_range.mpr hc) (some m) m'
    rw [hfree] at hupdate
    simpa using hupdate
  refine ⟨fun d m' hd => ?_, fun m' hm' => ?_, fun m' hlt' hnot' => ?_, fun m' refs' hm' => ?_,
    fun m' hm' hnot' => ?_, fun m' hrel => ?_, h.nodup⟩
  · by_cases hdc : d = c
    · rw [hdc, Function.update_self] at hd
      obtain rfl := Option.some.inj hd
      exact ⟨hdc ▸ hc, List.mem_cons_self⟩
    · rw [Function.update_of_ne hdc] at hd
      exact ⟨(h.inside d m' hd).1, List.mem_cons_of_mem _ (h.inside d m' hd).2⟩
  · rcases List.mem_cons.mp hm' with rfl | hm'
    · exact hlt
    · exact h.below m' hm'
  · rw [hcount]
    by_cases heq : m' = m
    · subst heq
      rw [Function.update_self, if_pos rfl, ← h.refs hm]
    · rw [Function.update_of_ne heq, if_neg (Ne.symm heq)]
      exact h.live m' hlt' hnot'
  · by_cases heq : m' = m
    · exact heq ▸ ⟨hlt, hnot⟩
    · rw [Function.update_of_ne heq] at hm'
      exact h.bound m' refs' hm'
  · rw [hcount]
    rcases List.mem_cons.mp hm' with rfl | hm'
    · rw [if_pos rfl]
      omega
    · have := h.used m' hm' hnot'
      omega
  · have hne : m ≠ m' := by
      rintro rfl
      exact hnot hrel
    rw [hcount, if_neg hne]
    exact ⟨List.mem_cons_of_mem _ (h.unused m' hrel).1, (h.unused m' hrel).2⟩

theorem Ledger.references_drop (h : Ledger n points mappings next released assigned) {c m : Nat}
    (hc : points c = some m) (m' : Nat) :
    references (Finset.range n) (Function.update points c none) m' + (if m = m' then 1 else 0) =
      references (Finset.range n) points m' := by
  have hupdate := references_update points (Finset.mem_range.mpr (h.inside c m hc).1) none m'
  rw [hc] at hupdate
  simpa using hupdate

theorem Ledger.references_drop_of_ne (h : Ledger n points mappings next released assigned)
    {c m m' : Nat} (hc : points c = some m) (hne : m' ≠ m) :
    references (Finset.range n) (Function.update points c none) m' =
      references (Finset.range n) points m' := by
  have := h.references_drop hc m'
  rwa [if_neg (Ne.symm hne), Nat.add_zero] at this

theorem Ledger.inside_drop (h : Ledger n points mappings next released assigned) {c d m : Nat}
    (hd : Function.update points c none d = some m) : d < n ∧ m ∈ assigned := by
  by_cases hdc : d = c
  · simp [hdc] at hd
  · rw [Function.update_of_ne hdc] at hd
    exact h.inside d m hd

/-- A column gives its share back, and others keep theirs. -/
theorem Ledger.drop (h : Ledger n points mappings next released assigned) {c m refs : Nat}
    (hc : points c = some m) (hm : mappings m = some refs) (hrefs : 1 < refs) :
    Ledger n (Function.update points c none) (Function.update mappings m (some (refs - 1))) next
      released assigned := by
  have hself := h.references_drop hc m
  rw [if_pos rfl, ← h.refs hm] at hself
  refine ⟨fun d m' hd => h.inside_drop hd, h.below, fun m' hlt hnot => ?_, fun m' refs' hm' => ?_,
    fun m' hm' hnot => ?_, fun m' hrel => ?_, h.nodup⟩
  · by_cases heq : m' = m
    · subst heq
      rw [Function.update_self, ← hself, Nat.add_sub_cancel]
    · rw [Function.update_of_ne heq, h.references_drop_of_ne hc heq]
      exact h.live m' hlt hnot
  · by_cases heq : m' = m
    · exact heq ▸ h.bound m refs hm
    · rw [Function.update_of_ne heq] at hm'
      exact h.bound m' refs' hm'
  · by_cases heq : m' = m
    · subst heq
      omega
    · rw [h.references_drop_of_ne hc heq]
      exact h.used m' hm' hnot
  · have hne : m' ≠ m := by
      rintro rfl
      exact h.not_released hc hrel
    rw [h.references_drop_of_ne hc hne]
    exact h.unused m' hrel

/-- The last column gives its share back. -/
theorem Ledger.dropLast (h : Ledger n points mappings next released assigned) {c m refs : Nat}
    (hc : points c = some m) (hm : mappings m = some refs) (hrefs : refs ≤ 1) :
    Ledger n (Function.update points c none) (Function.update mappings m none) next
      (released ++ [m]) assigned := by
  have hself := h.references_drop hc m
  rw [if_pos rfl, ← h.refs hm] at hself
  have hmem : ∀ m', m' ∉ released ++ [m] → m' ≠ m ∧ m' ∉ released := by
    intro m' hnot
    rw [List.mem_append, List.mem_singleton, not_or] at hnot
    exact ⟨hnot.2, hnot.1⟩
  refine ⟨fun d m' hd => h.inside_drop hd, h.below, fun m' hlt hnot => ?_, fun m' refs' hm' => ?_,
    fun m' hm' hnot => ?_, fun m' hrel => ?_, ?_⟩
  · obtain ⟨hne, hnot⟩ := hmem m' hnot
    rw [Function.update_of_ne hne, h.references_drop_of_ne hc hne]
    exact h.live m' hlt hnot
  · by_cases heq : m' = m
    · simp [heq] at hm'
    · rw [Function.update_of_ne heq] at hm'
      obtain ⟨hlt, hnot⟩ := h.bound m' refs' hm'
      exact ⟨hlt, by simp [hnot, heq]⟩
  · obtain ⟨hne, hnot⟩ := hmem m' hnot
    rw [h.references_drop_of_ne hc hne]
    exact h.used m' hm' hnot
  · rcases List.mem_append.mp hrel with hold | hnew
    · have hne : m' ≠ m := fun heq => h.not_released hc (heq ▸ hold)
      rw [h.references_drop_of_ne hc hne]
      exact h.unused m' hold
    · obtain rfl := List.mem_singleton.mp hnew
      exact ⟨(h.inside c m' hc).2, by omega⟩
  · exact List.nodup_append.mpr ⟨h.nodup, List.nodup_singleton m, by
      rintro a ha b hb rfl
      exact h.not_released hc (List.mem_singleton.mp hb ▸ ha)⟩

/-- A column that gets another mapping leaves the count of the old one too high. -/
theorem Ledger.reassign (h : Ledger n points mappings next released assigned) {c m m' refs : Nat}
    (hc : points c = some m') (hm : mappings m = some refs) :
    ∃ x r, Function.update mappings m (some (refs + 1)) x = some r ∧
      r ≠ references (Finset.range n) (Function.update points c (some m)) x := by
  obtain ⟨hlt, hassigned⟩ := h.inside c m' hc
  have hcount := references_update points (Finset.mem_range.mpr hlt) (some m) m'
  rw [hc, if_pos rfl] at hcount
  by_cases heq : m = m'
  · -- the column is counted twice
    subst heq
    refine ⟨m, refs + 1, Function.update_self .., ?_⟩
    rw [if_pos rfl] at hcount
    have := h.refs hm
    omega
  · have hlive := h.live m' (h.below m' hassigned) (h.not_released hc)
    refine ⟨m', _, (Function.update_of_ne (Ne.symm heq) _ _).trans hlive, ?_⟩
    have hne : (some m : Option Nat) ≠ some m' := fun h => heq (Option.some.inj h)
    rw [if_neg hne] at hcount
    omega

/-- So does a column over which another one is moved. -/
theorem Ledger.overwrite (h : Ledger n points mappings next released assigned) {c other m : Nat}
    (hc : points c = some m) (hother : other < n) (hne : other ≠ c) :
    ∃ r, mappings m = some r ∧ r ≠ references (Finset.range n)
      (Function.update (Function.update points c (points other)) other none) m := by
  obtain ⟨hlt, hassigned⟩ := h.inside c m hc
  have htake := references_update points (Finset.mem_range.mpr hlt) (points other) m
  have hgive := references_update (Function.update points c (points other))
    (Finset.mem_range.mpr hother) none m
  rw [Function.update_of_ne hne] at hgive
  rw [hc, if_pos rfl] at htake
  simp only [reduceCtorEq, if_false] at hgive
  refine ⟨_, h.live m (h.below m hassigned) (h.not_released hc), ?_⟩
  omega

end

/-! ## One operation -/

/-- Only mapped columns have pages of mappings. -/
def Clean (n : Nat) (columns : Nat → Option Column) : Prop :=
  ∀ c col, columns c = some col →
    c < n ∧ (col.mappedMemory = none → ∀ m i, .mapped m i ∉ col.pages)

theorem Clean.grow {n : Nat} {columns : Nat → Option Column} (h : Clean n columns) :
    Clean (n + 1) columns :=
  fun c col hc => ⟨(h c col hc).1.trans (Nat.lt_succ_self n), (h c col hc).2⟩

theorem Clean.update {n c : Nat} {columns : Nat → Option Column} (h : Clean n columns)
    (hc : c < n) {col : Option Column}
    (hcol : ∀ x, col = some x → x.mappedMemory = none → ∀ m i, .mapped m i ∉ x.pages) :
    Clean n (Function.update columns c col) := by
  intro d x hd
  by_cases hdc : d = c
  · rw [hdc, Function.update_self] at hd
    exact ⟨hdc ▸ hc, hcol x hd⟩
  · rw [Function.update_of_ne hdc] at hd
    exact h d x hd

namespace State

structure Inv (s : State) : Prop where
  ledger : Ledger s.nextColumn s.mappingOf s.mappings s.nextMapping s.released s.assigned
  clean : Clean s.nextColumn s.columns
  deleted : ∀ m i, .mapped m i ∉ s.deleted

theorem Inv.empty : Inv {} where
  ledger := ⟨by simp [mappingOf], by simp, by simp, by simp, by simp, by simp, List.nodup_nil⟩
  clean c col hc := by simp at hc
  deleted m i := by simp

theorem Inv.owned {s : State} (h : s.Inv) : s.Owned where
  refs _ _ hm := h.ledger.refs hm
  released _ hm := h.ledger.count hm
  deleted := h.deleted

theorem mappingOf_update {s s' : State} {c : Nat} {col : Option Column}
    (h : s'.columns = Function.update s.columns c col) :
    s'.mappingOf = Function.update s.mappingOf c (col.bind Column.mappedMemory) := by
  funext d
  unfold mappingOf
  rw [h]
  by_cases hdc : d = c
  · rw [hdc, Function.update_self, Function.update_self]
  · rw [Function.update_of_ne hdc, Function.update_of_ne hdc]

theorem mappingOf_eq {s : State} {c : Nat} {col : Column} (h : s.columns c = some col) :
    s.mappingOf c = col.mappedMemory := by
  unfold mappingOf
  rw [h]
  rfl

variable {s s' : State}

theorem mappingOf_move {c other : Nat} {col : Column} (hother : s.columns other = some col)
    (h : s'.columns =
      Function.update (Function.update s.columns c (some col)) other (some (movedFrom col))) :
    s'.mappingOf =
      Function.update (Function.update s.mappingOf c (s.mappingOf other)) other none := by
  have hset : (s.setColumn c (some col)).mappingOf =
      Function.update s.mappingOf c (s.mappingOf other) := by
    rw [mappingOf_update (s := s) rfl, mappingOf_eq hother]
    rfl
  rw [mappingOf_update (s := s.setColumn c (some col)) h, hset]
  rfl

/-- There is no column yet where the next one will be. -/
theorem Inv.columns_next (h : s.Inv) : s.columns s.nextColumn = none := by
  cases hc : s.columns s.nextColumn with
  | none => rfl
  | some col => exact absurd (h.clean _ _ hc).1 (lt_irrefl _)

/-- A column gets a page of its own kind. -/
theorem Inv.addPage (h : s.Inv) {c : Nat} {col : Column} (hc : s.columns c = some col)
    {page : PagePtr} (hpage : col.mappedMemory = none → ∀ m i, page ≠ .mapped m i)
    (nextPage : Nat) : Inv { s.setColumn c (some { col with pages := col.pages ++ [page] }) with
      nextPage := nextPage } := by
  have hsame : ({ s.setColumn c (some { col with pages := col.pages ++ [page] }) with
      nextPage := nextPage } : State).mappingOf = s.mappingOf := by
    rw [mappingOf_update (s := s) rfl]
    exact Function.update_eq_self_iff.mpr (mappingOf_eq hc).symm
  refine ⟨?_, h.clean.update (h.clean c col hc).1 ?_, h.deleted⟩
  · rw [hsame]
    exact h.ledger
  · intro x hx hnone m i hmem
    rw [← Option.some.inj hx] at hnone hmem
    rcases List.mem_append.mp hmem with hold | hnew
    · exact (h.clean c col hc).2 hnone m i hold
    · exact hpage hnone m i (List.mem_singleton.mp hnew).symm

theorem Inv.construct (h : s.Inv) (type : DataType) : Inv (s.addColumn { type := type }) := by
  have hsame : (s.addColumn { type := type }).mappingOf = s.mappingOf := by
    rw [mappingOf_update (s := s) rfl]
    refine Function.update_eq_self_iff.mpr ?_
    unfold mappingOf
    rw [h.columns_next]
    rfl
  refine ⟨?_, h.clean.grow.update (Nat.lt_succ_self _) ?_, h.deleted⟩
  · rw [hsame]
    exact h.ledger.grow
  · rintro x hx -
    rw [← Option.some.inj hx]
    simp

/-- A move into a place without a mapping. -/
theorem Inv.of_move {n c other : Nat} {col : Column}
    (hledger : Ledger n s.mappingOf s.mappings s.nextMapping s.released s.assigned)
    (hclean : Clean n s.columns) (hc : c < n) (hother : s.columns other = some col)
    (hne : other ≠ c) (hfree : s.mappingOf c = none) {deleted : List PagePtr}
    (hdeleted : ∀ m i, .mapped m i ∉ deleted) :
    Inv { (s.setColumn c (some col)).setColumn other (some (movedFrom col)) with
      nextColumn := n
      deleted := deleted } := by
  have hlt := (hclean other col hother).1
  refine ⟨?_, (hclean.update hc ?_).update hlt ?_, hdeleted⟩
  · rw [mappingOf_move hother rfl]
    exact hledger.move hc hlt hne hfree
  · rintro x hx
    rw [← Option.some.inj hx]
    exact (hclean other col hother).2
  · rintro x hx -
    rw [← Option.some.inj hx]
    simp [movedFrom]

theorem Inv.assign (h : s.Inv) {c m refs : Nat} {col : Column} (hc : s.columns c = some col)
    (hm : s.mappings m = some refs) (hfree : s.mappingOf c = none) :
    Inv { s.setColumn c (some { col with mappedMemory := some m }) with
      mappings := Function.update s.mappings m (some (refs + 1))
      assigned := m :: s.assigned } := by
  have hlt := (h.clean c col hc).1
  refine ⟨?_, h.clean.update hlt ?_, h.deleted⟩
  · rw [mappingOf_update (s := s) rfl]
    exact h.ledger.assign hlt hfree hm
  · rintro x hx hnone
    rw [← Option.some.inj hx] at hnone
    cases hnone

/-- The destructor. -/
theorem Inv.destruct (h : s.Inv) {c : Nat} (hs : s.step (.destruct c) = some s') : s'.Inv := by
  obtain ⟨col, hc, hs⟩ := Option.bind_eq_some_iff.mp hs
  have hlt := (h.clean c col hc).1
  have hclean : Clean s.nextColumn (Function.update s.columns c none) :=
    h.clean.update hlt (by simp)
  cases hm : col.mappedMemory with
  | some m =>
    rw [hm] at hs
    obtain ⟨refs, hrefs, hs⟩ := Option.bind_eq_some_iff.mp hs
    have hpoints : s.mappingOf c = some m := (mappingOf_eq hc).trans hm
    split at hs
    · next hlast =>
      cases hs
      refine ⟨?_, hclean, h.deleted⟩
      rw [mappingOf_update (s := s) rfl]
      exact h.ledger.dropLast hpoints hrefs (by omega)
    · next hmore =>
      cases hs
      refine ⟨?_, hclean, h.deleted⟩
      rw [mappingOf_update (s := s) rfl]
      exact h.ledger.drop hpoints hrefs (by omega)
  | none =>
    rw [hm] at hs
    cases hs
    have hsame : Function.update s.mappingOf c none = s.mappingOf :=
      Function.update_eq_self_iff.mpr ((mappingOf_eq hc).trans hm).symm
    refine ⟨?_, hclean, fun m i hmem => ?_⟩
    · rw [mappingOf_update (s := s) rfl]
      show Ledger _ (Function.update s.mappingOf c none) _ _ _ _
      rw [hsame]
      exact h.ledger
    · rcases List.mem_append.mp hmem with hmem | hmem
      · exact h.deleted m i hmem
      · exact (h.clean c col hc).2 hm m i hmem

theorem Inv.step (h : s.Inv) {op : Op} (hs : s.step op = some s') (hop : s.Spares op) :
    s'.Inv := by
  cases op with
  | map =>
    cases hs
    exact ⟨h.ledger.map, h.clean, h.deleted⟩
  | construct type =>
    cases hs
    exact h.construct type
  | newPage c =>
    obtain ⟨col, hc, hs⟩ := Option.bind_eq_some_iff.mp hs
    cases hs
    exact h.addPage hc (by simp) _
  | pushMapped c i =>
    obtain ⟨col, hc, hs⟩ := Option.bind_eq_some_iff.mp hs
    obtain ⟨m, hm, hs⟩ := Option.bind_eq_some_iff.mp hs
    cases hs
    exact h.addPage hc (by simp [hm]) s.nextPage
  | assignMappedMemory c m =>
    obtain ⟨col, hc, hs⟩ := Option.bind_eq_some_iff.mp hs
    obtain ⟨refs, hm, hs⟩ := Option.bind_eq_some_iff.mp hs
    cases hs
    exact h.assign hc hm hop
  | moveConstruct other =>
    obtain ⟨col, hother, hs⟩ := Option.bind_eq_some_iff.mp hs
    cases hs
    have hlt := (h.clean other col hother).1
    have hfree : s.mappingOf s.nextColumn = none := by
      unfold mappingOf
      rw [h.columns_next]
      rfl
    exact Inv.of_move h.ledger.grow h.clean.grow (Nat.lt_succ_self _) hother (by omega) hfree
      h.deleted
  | moveAssign c other =>
    obtain ⟨this, hc, hs⟩ := Option.bind_eq_some_iff.mp hs
    obtain ⟨col, hother, hs⟩ := Option.bind_eq_some_iff.mp hs
    split at hs
    · cases hs
      exact h
    · next hne =>
      cases hs
      have hfree : s.mappingOf c = none := hop.resolve_left hne
      refine Inv.of_move h.ledger h.clean (h.clean c this hc).1 hother (Ne.symm hne) hfree ?_
      intro m i hmem
      rcases List.mem_append.mp hmem with hmem | hmem
      · exact h.deleted m i hmem
      · exact (h.clean c this hc).2 ((mappingOf_eq hc).symm.trans hfree) m i hmem
  | destruct c => exact h.destruct hs

/-- An operation that overwrites a mapping leaves a wrong count. -/
theorem Inv.not_owned (h : s.Inv) {op : Op} (hs : s.step op = some s') (hop : ¬ s.Spares op) :
    ¬ s'.Owned := by
  intro howned
  have hrefs := howned.refs
  unfold pointers at hrefs
  cases op with
  | map | construct type | newPage c | pushMapped c i | moveConstruct other | destruct c =>
    exact hop trivial
  | assignMappedMemory c m =>
    obtain ⟨col, hc, hs⟩ := Option.bind_eq_some_iff.mp hs
    obtain ⟨refs, hm, hs⟩ := Option.bind_eq_some_iff.mp hs
    cases hs
    obtain ⟨m', hm'⟩ := Option.ne_none_iff_exists'.mp hop
    obtain ⟨x, r, hx, hr⟩ := h.ledger.reassign hm' hm
    apply hr
    rw [hrefs x r hx, mappingOf_update (s := s) rfl]
    rfl
  | moveAssign c other =>
    obtain ⟨this, hc, hs⟩ := Option.bind_eq_some_iff.mp hs
    obtain ⟨col, hother, hs⟩ := Option.bind_eq_some_iff.mp hs
    obtain ⟨hne, hmapped⟩ := not_or.mp hop
    rw [if_neg hne] at hs
    cases hs
    obtain ⟨m, hm⟩ := Option.ne_none_iff_exists'.mp hmapped
    obtain ⟨r, hr, hcount⟩ := h.ledger.overwrite hm (h.clean other col hother).1 (Ne.symm hne)
    apply hcount
    rw [hrefs m r hr, mappingOf_move hother rfl]
    rfl

/-! ## Runs -/

/-- From a state that keeps the invariant, all states of a run are right if and only if no operation
overwrites a mapping. -/
theorem Inv.run (h : s.Inv) {ops : List Op} (hrun : ops.foldlM State.step s = some s') :
    (∀ done rest mid, ops = done ++ rest → done.foldlM State.step s = some mid → mid.Owned) ↔
      ∀ done op rest mid, ops = done ++ op :: rest → done.foldlM State.step s = some mid →
        mid.Spares op := by
  induction ops generalizing s with
  | nil =>
    constructor
    · intro _ done op rest mid hsplit
      simp at hsplit
    · intro _ done rest mid hsplit hmid
      obtain ⟨rfl, rfl⟩ := List.append_eq_nil_iff.mp hsplit.symm
      cases hmid
      exact h.owned
  | cons op ops ih =>
    obtain ⟨s₁, hs₁, hrun⟩ := Option.bind_eq_some_iff.mp hrun
    have hcons : ∀ done, (op :: done).foldlM State.step s = done.foldlM State.step s₁ := by
      intro done
      rw [List.foldlM_cons, hs₁]
      rfl
    constructor
    · intro howned
      have hspares : s.Spares op := by
        by_contra hop
        exact h.not_owned hs₁ hop (howned [op] ops s₁ rfl (hcons []))
      have hrest := (ih (h.step hs₁ hspares) hrun).mp fun done rest mid hsplit hmid =>
        howned (op :: done) rest mid (congrArg (op :: ·) hsplit) ((hcons done).trans hmid)
      intro done op' rest mid hsplit hmid
      cases done with
      | nil =>
        cases hsplit
        cases hmid
        exact hspares
      | cons _ done =>
        obtain ⟨rfl, htail⟩ := List.cons.inj hsplit
        exact hrest done op' rest mid htail ((hcons done).symm.trans hmid)
    · intro hall
      have hspares : s.Spares op := hall [] op ops s rfl rfl
      have hrest := (ih (h.step hs₁ hspares) hrun).mpr fun done op' rest mid hsplit hmid =>
        hall (op :: done) op' rest mid (congrArg (op :: ·) hsplit) ((hcons done).trans hmid)
      intro done rest mid hsplit hmid
      cases done with
      | nil =>
        cases hmid
        exact h.owned
      | cons _ done =>
        obtain ⟨rfl, htail⟩ := List.cons.inj hsplit
        exact hrest done rest mid htail ((hcons done).symm.trans hmid)

/-- Mapped memory is owned rightly at every point of a run if and only if no column that points to a
mapping is assigned another one, or has another column moved over it. -/
theorem owned_iff {ops : List Op} (hrun : ops.foldlM State.step {} = some s) :
    (∀ done rest mid, ops = done ++ rest → done.foldlM State.step {} = some mid → mid.Owned) ↔
      ∀ done op rest mid, ops = done ++ op :: rest → done.foldlM State.step {} = some mid →
        mid.Spares op :=
  Inv.empty.run hrun

/-- The column of a mapping moves as a vector of columns grows, and is destroyed. -/
theorem owned_iff_moved :
    ∃ s, [Op.map, .construct .int32, .assignMappedMemory 0 0, .pushMapped 0 0, .moveConstruct 0,
        .destruct 0, .destruct 1].foldlM State.step {} = some s ∧ s.released = [0] ∧
      ((∀ done rest mid, [Op.map, .construct .int32, .assignMappedMemory 0 0, .pushMapped 0 0,
          .moveConstruct 0, .destruct 0, .destruct 1] = done ++ rest →
          done.foldlM State.step {} = some mid → mid.Owned) ↔
        ∀ done op rest mid, [Op.map, .construct .int32, .assignMappedMemory 0 0, .pushMapped 0 0,
          .moveConstruct 0, .destruct 0, .destruct 1] = done ++ op :: rest →
          done.foldlM State.step {} = some mid → mid.Spares op) :=
  ⟨_, rfl, rfl, owned_iff rfl⟩

/-- A move over the only column of a mapping: its page goes to `delete`, and the count stays. -/
theorem not_owned_overwritten :
    ∃ s, [Op.map, .construct .int32, .assignMappedMemory 0 0, .pushMapped 0 0, .construct .int32,
        .moveAssign 0 1].foldlM State.step {} = some s ∧
      s.mappings 0 = some 1 ∧ s.pointers 0 = 0 ∧ s.deleted = [.mapped 0 0] ∧ ¬ s.Owned := by
  refine ⟨_, rfl, rfl, by decide, rfl, fun howned => ?_⟩
  exact howned.deleted 0 0 List.mem_cons_self

end State

end HashJoin.Ownership
