import Mathlib.Tactic

/-!
# Relations

Bags of rows over any type of values: projection, the inner equi-join, and a relation stored column
by column.
-/

namespace HashJoin.Relational

variable {α β K : Type}

/-! ## Rows and columns -/

/-- The `n` lists that have the first, the second, ... values of the given ones. -/
def transpose (n : Nat) (lists : List (List α)) : List (List α) :=
  (List.range n).map fun i => lists.filterMap (·[i]?)

@[simp] theorem length_transpose (n : Nat) (lists : List (List α)) :
    (transpose n lists).length = n := by
  simp [transpose]

theorem filterMap_getElem? {n i : Nat} (hi : i < n) {lists : List (List α)}
    (h : ∀ l ∈ lists, l.length = n) :
    (lists.filterMap (·[i]?)).map some = lists.map (·[i]?) := by
  induction lists with
  | nil => rfl
  | cons l lists ih =>
    rw [List.forall_mem_cons] at h
    have hl : i < l.length := by rw [h.1]; exact hi
    rw [List.filterMap_cons, List.map_cons, List.getElem?_eq_getElem hl, ← ih h.2]
    rfl

theorem length_mem_transpose {n : Nat} {lists : List (List α)} (h : ∀ l ∈ lists, l.length = n) :
    ∀ row ∈ transpose n lists, row.length = lists.length := by
  intro row hrow
  obtain ⟨i, hi, rfl⟩ := List.mem_map.mp hrow
  have := congrArg List.length (filterMap_getElem? (List.mem_range.mp hi) h)
  rwa [List.length_map, List.length_map] at this

/-- A value of a row. -/
theorem getElem?_transpose {n : Nat} {lists : List (List α)} (h : ∀ l ∈ lists, l.length = n)
    {i : Nat} (hi : i < n) (j : Nat) :
    (lists.filterMap (·[i]?))[j]? = lists[j]?.bind (·[i]?) := by
  have hmap := congrArg (·[j]?) (filterMap_getElem? hi h)
  simp only [List.getElem?_map] at hmap
  cases hj : lists[j]? with
  | none =>
    rw [hj] at hmap
    simpa using hmap
  | some l =>
    rw [hj] at hmap
    obtain ⟨v, hv, hvi⟩ := Option.map_eq_some_iff.mp hmap
    rw [hv, Option.bind_some]
    exact hvi

/-- Each value of a list is in a row. -/
theorem exists_mem_transpose {n : Nat} {lists : List (List α)} {l : List α} (hl : l ∈ lists)
    (hlen : l.length = n) {v : α} (hv : v ∈ l) : ∃ row ∈ transpose n lists, v ∈ row := by
  obtain ⟨i, hi, rfl⟩ := List.mem_iff_getElem.mp hv
  refine ⟨_, List.mem_map_of_mem (List.mem_range.mpr (hlen ▸ hi)), ?_⟩
  exact List.mem_filterMap.mpr ⟨l, hl, List.getElem?_eq_getElem hi⟩

theorem transpose_eq_getD {n : Nat} {lists : List (List α)} (h : ∀ l ∈ lists, l.length = n)
    (d : α) : transpose n lists = (List.range n).map fun i => lists.map fun l => l.getD i d := by
  apply List.map_congr_left
  intro i hi
  rw [← List.filterMap_eq_map]
  apply List.filterMap_congr
  intro l hl
  have hi : i < l.length := by rw [h l hl]; exact List.mem_range.mp hi
  rw [Function.comp_apply, List.getElem?_eq_getElem hi, List.getD_eq_getElem?_getD,
    List.getElem?_eq_getElem hi, Option.getD_some]

/-- The columns of the rows of columns are the columns. -/
theorem transpose_transpose {w : Nat} {rows : List (List α)} (h : ∀ row ∈ rows, row.length = w) :
    transpose rows.length (transpose w rows) = rows := by
  refine List.ext_getElem (by simp) fun i hi hi' => List.ext_getElem? fun j => ?_
  have hcols : ∀ col ∈ transpose w rows, col.length = rows.length := length_mem_transpose h
  simp only [transpose, List.getElem_map, List.getElem_range]
  rw [← transpose, getElem?_transpose hcols hi']
  by_cases hj : j < w
  · unfold transpose
    rw [List.getElem?_map, List.getElem?_range hj, Option.map_some, Option.bind_some,
      getElem?_transpose h hj, List.getElem?_eq_getElem hi', Option.bind_some]
  · have hlen := h rows[i] (List.getElem_mem hi')
    rw [List.getElem?_eq_none (by simpa using hj), List.getElem?_eq_none (by omega)]
    rfl

theorem transpose_map (f : α → β) (n : Nat) (lists : List (List α)) :
    transpose n (lists.map (List.map f)) = (transpose n lists).map (List.map f) := by
  simp [transpose, List.filterMap_map, List.map_filterMap, Function.comp_def]

/-- A new row adds a value to each column. -/
theorem transpose_concat {w : Nat} (rows : List (List α)) {row : List α} (h : row.length = w) :
    transpose w (rows ++ [row]) =
      List.zipWith (fun col v => col ++ [v]) (transpose w rows) row := by
  apply List.ext_getElem (by simp [h])
  intro i hi hi'
  have hirow : i < row.length := by simpa [h] using hi
  simp [transpose, hirow]

/-! ## Projection -/

/-- The values of a row at the given places. -/
def project (attrs : List Nat) (row : List α) : List α := attrs.filterMap (row[·]?)

theorem project_map (f : α → β) (attrs : List Nat) (row : List α) :
    project attrs (row.map f) = (project attrs row).map f := by
  simp [project, List.map_filterMap]

theorem length_project {attrs : List Nat} {row : List α} (h : ∀ a ∈ attrs, a < row.length) :
    (project attrs row).length = attrs.length := by
  induction attrs with
  | nil => rfl
  | cons a attrs ih =>
    rw [List.forall_mem_cons] at h
    unfold project
    rw [List.filterMap_cons, List.getElem?_eq_getElem h.1, List.length_cons,
      List.length_cons, ← ih h.2]
    rfl

theorem getElem?_project {attrs : List Nat} {row : List α} (h : ∀ a ∈ attrs, a < row.length)
    (i : Nat) : (project attrs row)[i]? = attrs[i]?.bind (row[·]?) := by
  induction attrs generalizing i with
  | nil => rfl
  | cons a attrs ih =>
    rw [List.forall_mem_cons] at h
    unfold project
    rw [List.filterMap_cons, List.getElem?_eq_getElem h.1]
    cases i with
    | zero => simp [h.1]
    | succ i => exact ih h.2 i

/-- Some columns of rows that have all of them. -/
theorem map_project_eq_transpose {attrs : List Nat} {rows : List (List α)}
    (h : ∀ row ∈ rows, ∀ a ∈ attrs, a < row.length) (d : α) : rows.map (project attrs) =
      transpose rows.length (attrs.map fun a => rows.map fun row => row.getD a d) := by
  apply List.ext_getElem (by simp)
  intro i hi hi'
  have hi : i < rows.length := by simpa using hi
  simp only [transpose, List.getElem_map, List.getElem_range, List.filterMap_map]
  apply List.filterMap_congr
  intro a ha
  have hrow := h rows[i] (List.getElem_mem hi) a ha
  simp [hi, hrow]

theorem mem_of_mem_project {attrs : List Nat} {row : List α} {v : α} (h : v ∈ project attrs row) :
    v ∈ row := by
  obtain ⟨a, -, ha⟩ := List.mem_filterMap.mp h
  exact List.mem_of_getElem? ha

/-- Places that all exist have the values of the row. -/
theorem project_full {attrs : List (Nat × β)} {row : List α} {f : α → β}
    (h : attrs.map Prod.snd = (project (attrs.map Prod.fst) row).map f) :
    ∀ attr ∈ attrs, row[attr.1]?.map f = some attr.2 := by
  have hle : ∀ attrs : List (Nat × β), (project (attrs.map Prod.fst) row).length ≤ attrs.length :=
    fun attrs => (List.length_filterMap_le _ _).trans (by simp)
  induction attrs with
  | nil => simp
  | cons attr attrs ih =>
    rw [List.forall_mem_cons]
    unfold project at h ih
    rw [List.map_cons, List.map_cons, List.filterMap_cons] at h
    cases hget : row[attr.1]? with
    | none =>
      have hlen := congrArg List.length h
      have := hle attrs
      unfold project at this
      rw [hget] at hlen
      simp only [List.length_cons, List.length_map] at hlen this
      omega
    | some x =>
      rw [hget] at h
      obtain ⟨hx, hrest⟩ := List.cons.inj h
      exact ⟨by rw [Option.map_some, hx], ih hrest⟩

/-! ## The equi-join -/

section

variable [DecidableEq K] (key : α → Option K) (a b : Nat)

/-- The keys of a left and a right row are there and equal. -/
def Matches (l r : List α) : Prop :=
  (l[a]?.bind key).isSome ∧ l[a]?.bind key = r[b]?.bind key

instance (l r : List α) : Decidable (Matches key a b l r) :=
  inferInstanceAs (Decidable (_ ∧ _))

/-- One row for each pair of a left and a right row with the same key. -/
def equiJoin (left right : List (List α)) : List (List α) :=
  left.flatMap fun l => (right.filter fun r => Matches key a b l r).map (l ++ ·)

theorem mem_equiJoin {left right : List (List α)} {row : List α} :
    row ∈ equiJoin key a b left right ↔
      ∃ l ∈ left, ∃ r ∈ right, Matches key a b l r ∧ row = l ++ r := by
  simp only [equiJoin, List.mem_flatMap, List.mem_map, List.mem_filter, decide_eq_true_eq]
  constructor
  · rintro ⟨l, hl, r, ⟨hr, hm⟩, rfl⟩
    exact ⟨l, hl, r, hr, hm, rfl⟩
  · rintro ⟨l, hl, r, hr, hm, rfl⟩
    exact ⟨l, hl, r, ⟨hr, hm⟩, rfl⟩

/-- The order of the rows of the two sides does not matter. -/
theorem equiJoin_perm {left left' right right' : List (List α)} (hl : left.Perm left')
    (hr : right.Perm right') :
    (equiJoin key a b left right).Perm (equiJoin key a b left' right') :=
  hl.flatMap fun l _ => (hr.filter _).map (l ++ ·)

theorem equiJoin_map (f : β → α) (left right : List (List β)) :
    equiJoin key a b (left.map (List.map f)) (right.map (List.map f)) =
      (equiJoin (key ∘ f) a b left right).map (List.map f) := by
  have hmatches : ∀ l r : List β,
      Matches key a b (l.map f) (r.map f) ↔ Matches (key ∘ f) a b l r := fun l r => by
    have hbind : ∀ (row : List β) (i : Nat),
        (row.map f)[i]?.bind key = row[i]?.bind (key ∘ f) := fun row i => by
      rw [List.getElem?_map, Option.bind_map]
    rw [Matches, hbind, hbind]
    rfl
  simp only [equiJoin, List.flatMap_map, List.map_flatMap, List.filter_map, List.map_map,
    Function.comp_def, hmatches, List.map_append]

end

/-- The pairs of two lists that are in a relation, taken from either side. -/
theorem flatMap_filter_comm {γ : Type} (p : α → β → Bool) (f : α → β → γ) (l : List α)
    (m : List β) :
    (l.flatMap fun a => (m.filter (p a)).map (f a)).Perm
      (m.flatMap fun b => (l.filter (p · b)).map (f · b)) := by
  induction l with
  | nil => simp
  | cons a l ih =>
    have hcons : ∀ b, ((a :: l).filter (p · b)).map (f · b) =
        (if p a b then [f a b] else []) ++ (l.filter (p · b)).map (f · b) := fun b => by
      by_cases h : p a b <;> simp [h]
    have hfirst : (m.filter (p a)).map (f a) =
        m.flatMap fun b => if p a b then [f a b] else [] := by
      clear ih
      induction m with
      | nil => rfl
      | cons b m ih =>
        by_cases h : p a b <;> simp [h, ih]
    simp only [hcons]
    rw [List.flatMap_cons, hfirst]
    exact (ih.append_left _).trans (List.flatMap_append_perm m _ _)

/-! ## Rows that are related -/

section

variable {τ : Type} {R : τ → α → β → Prop} {types types' : List τ} {row row₁ : List α}
  {row' row₁' : List β}

/-- The values of two rows are related place by place, as the type of the place says. -/
structure Related (R : τ → α → β → Prop) (types : List τ) (row : List α) (row' : List β) :
    Prop where
  left : row.length = types.length
  right : row'.length = types.length
  value : ∀ (i : Nat) (t : τ) (x : α) (y : β), types[i]? = some t → row[i]? = some x →
    row'[i]? = some y → R t x y

theorem Related.append (h : Related R types row row') (h' : Related R types' row₁ row₁') :
    Related R (types ++ types') (row ++ row₁) (row' ++ row₁') := by
  have hleft := h.left
  have hright := h.right
  refine ⟨by simp [hleft, h'.left], by simp [hright, h'.right], fun i t x y ht hx hy => ?_⟩
  by_cases hi : i < types.length
  · rw [List.getElem?_append_left hi] at ht
    rw [List.getElem?_append_left (by omega)] at hx hy
    exact h.value i t x y ht hx hy
  · rw [List.getElem?_append_right (by omega)] at ht hx hy
    rw [hleft] at hx
    rw [hright] at hy
    exact h'.value _ t x y ht hx hy

theorem Related.project (h : Related R types row row') {attrs : List Nat}
    (hattrs : ∀ a ∈ attrs, a < types.length) :
    Related R (project attrs types) (project attrs row) (project attrs row') := by
  have hrow : ∀ a ∈ attrs, a < row.length := fun a ha => by rw [h.left]; exact hattrs a ha
  have hrow' : ∀ a ∈ attrs, a < row'.length := fun a ha => by rw [h.right]; exact hattrs a ha
  refine ⟨?_, ?_, fun i t x y ht hx hy => ?_⟩
  · rw [length_project hrow, length_project hattrs]
  · rw [length_project hrow', length_project hattrs]
  · rw [getElem?_project hattrs] at ht
    rw [getElem?_project hrow] at hx
    rw [getElem?_project hrow'] at hy
    obtain ⟨a, ha, ht⟩ := Option.bind_eq_some_iff.mp ht
    rw [ha, Option.bind_some] at hx hy
    exact h.value a t x y ht hx hy

/-- Related columns have related rows. -/
theorem Related.transpose {n : Nat} {cols : List (List α)} {cols' : List (List β)}
    (h : Related (fun t => List.Forall₂ (R t)) types cols cols') (hlen : ∀ c ∈ cols, c.length = n)
    (hlen' : ∀ c ∈ cols', c.length = n) :
    List.Forall₂ (Related R types) (transpose n cols) (transpose n cols') := by
  unfold Relational.transpose
  rw [List.forall₂_map_left_iff, List.forall₂_map_right_iff, List.forall₂_same]
  intro i hi
  have hi := List.mem_range.mp hi
  refine ⟨?_, ?_, fun j t x y ht hx hy => ?_⟩
  · have := congrArg List.length (filterMap_getElem? hi hlen)
    rwa [List.length_map, List.length_map, h.left] at this
  · have := congrArg List.length (filterMap_getElem? hi hlen')
    rwa [List.length_map, List.length_map, h.right] at this
  · rw [getElem?_transpose hlen hi] at hx
    rw [getElem?_transpose hlen' hi] at hy
    obtain ⟨c, hc, hx⟩ := Option.bind_eq_some_iff.mp hx
    obtain ⟨c', hc', hy⟩ := Option.bind_eq_some_iff.mp hy
    obtain ⟨hxi, rfl⟩ := List.getElem?_eq_some_iff.mp hx
    obtain ⟨hyi, rfl⟩ := List.getElem?_eq_some_iff.mp hy
    exact (h.value j t c c' ht hc hc').get hxi hyi

/-- Related rows have related columns. -/
theorem related_columns {rows : List (List α)} {rows' : List (List β)}
    (h : List.Forall₂ (Related R types) rows rows') :
    Related (fun t => List.Forall₂ (R t)) types (transpose types.length rows)
      (transpose types.length rows') := by
  refine ⟨length_transpose _ _, length_transpose _ _, fun j t c c' ht hc hc' => ?_⟩
  have hj : j < types.length := (List.getElem?_eq_some_iff.mp ht).1
  unfold Relational.transpose at hc hc'
  rw [List.getElem?_map, List.getElem?_range hj, Option.map_some] at hc hc'
  obtain rfl := Option.some.inj hc
  obtain rfl := Option.some.inj hc'
  clear hc hc'
  induction h with
  | nil => exact .nil
  | @cons row row' rows rows' hrow _ ih =>
    have hx := List.getElem?_eq_getElem (hrow.left ▸ hj : j < row.length)
    have hy := List.getElem?_eq_getElem (hrow.right ▸ hj : j < row'.length)
    rw [List.filterMap_cons, List.filterMap_cons, hx, hy]
    exact .cons (hrow.value j t _ _ ht hx hy) ih

/-- Joins of related rows are related, when the keys match on the same pairs. -/
theorem forall₂_equiJoin [DecidableEq K] {key : α → Option K} {key' : β → Option K} {a b : Nat}
    {P Q S : List α → List β → Prop} {left right : List (List α)} {left' right' : List (List β)}
    (hl : List.Forall₂ P left left') (hr : List.Forall₂ Q right right')
    (hmatches : ∀ l l' r r', P l l' → Q r r' → (Matches key a b l r ↔ Matches key' a b l' r'))
    (happend : ∀ l l' r r', P l l' → Q r r' → S (l ++ r) (l' ++ r')) :
    List.Forall₂ S (equiJoin key a b left right) (equiJoin key' a b left' right') := by
  have hone : ∀ l l', P l l' → List.Forall₂ S
      ((right.filter fun r => Matches key a b l r).map (l ++ ·))
      ((right'.filter fun r => Matches key' a b l' r).map (l' ++ ·)) := by
    intro l l' hll
    clear hl
    induction hr with
    | nil => exact .nil
    | @cons r r' right right' hrr _ ih =>
      have hiff := hmatches l l' r r' hll hrr
      by_cases hm : Matches key a b l r
      · rw [List.filter_cons_of_pos (by simpa using hm),
          List.filter_cons_of_pos (by simpa using hiff.mp hm)]
        exact .cons (happend l l' r r' hll hrr) ih
      · rw [List.filter_cons_of_neg (by simpa using hm),
          List.filter_cons_of_neg (by simpa using mt hiff.mpr hm)]
        exact ih
  unfold equiJoin
  induction hl with
  | nil => exact .nil
  | cons hll _ ih =>
    rw [List.flatMap_cons, List.flatMap_cons]
    exact List.rel_append (hone _ _ hll) ih

end

/-! ## Choices of rows -/

/-- The pairs that pass a test of both halves and of the pair. -/
theorem filter_flatMap_map {γ : Type} (l : List α) (m : List β) (g : α → β → γ) {p : γ → Bool}
    {q : α → Bool} {r : β → Bool} {t : α → β → Bool}
    (h : ∀ a ∈ l, ∀ b ∈ m, p (g a b) = (q a && (r b && t a b))) :
    (l.flatMap fun a => m.map (g a)).filter p =
      (l.filter q).flatMap fun a => ((m.filter r).filter (t a)).map (g a) := by
  induction l with
  | nil => rfl
  | cons a l ih =>
    rw [List.forall_mem_cons] at h
    have hm : (m.map (g a)).filter p =
        if q a then ((m.filter r).filter (t a)).map (g a) else [] := by
      rw [List.filter_map, List.filter_filter]
      split
      · next hq =>
        congr 1
        refine List.filter_congr fun b hb => ?_
        rw [Function.comp_apply, h.1 b hb, hq, Bool.true_and, Bool.and_comm]
      · next hq =>
        rw [List.map_eq_nil_iff, List.filter_eq_nil_iff]
        intro b hb
        simp [h.1 b hb, hq]
    rw [List.flatMap_cons, List.filter_append, ih h.2, hm, List.filter_cons]
    split
    · rw [List.flatMap_cons]
    · rfl

section Choices

variable {ι : Type} (tables : ι → List β)

/-- All ways to take a row of each of the tables. -/
def choices : List ι → List (List (ι × β))
  | [] => [[]]
  | i :: is => (tables i).flatMap fun row => (choices is).map fun c => (i, row) :: c

theorem choices_append (is js : List ι) :
    choices tables (is ++ js) =
      (choices tables is).flatMap fun c => (choices tables js).map (c ++ ·) := by
  induction is with
  | nil => simp [choices]
  | cons i is ih =>
    simp [choices, ih, List.flatMap_assoc, List.map_flatMap, List.flatMap_map, Function.comp_def]

variable {tables}

theorem mem_choices {is : List ι} {c : List (ι × β)} (h : c ∈ choices tables is) :
    c.map Prod.fst = is ∧ ∀ source ∈ c, source.2 ∈ tables source.1 := by
  induction is generalizing c with
  | nil =>
    rw [choices, List.mem_singleton] at h
    simp [h]
  | cons i is ih =>
    obtain ⟨row, hrow, h⟩ := List.mem_flatMap.mp h
    obtain ⟨c, hc, rfl⟩ := List.mem_map.mp h
    obtain ⟨hfst, hmem⟩ := ih hc
    refine ⟨by rw [List.map_cons, hfst], ?_⟩
    rw [List.forall_mem_cons]
    exact ⟨hrow, hmem⟩

variable [DecidableEq ι] (tables) (default : ι → β)

/-- The same choices, as functions. -/
def assignments : List ι → List (ι → β)
  | [] => [default]
  | i :: is => (tables i).flatMap fun row => (assignments is).map fun f => Function.update f i row

variable {tables default}

theorem mem_assignments {is : List ι} (hnodup : is.Nodup) {f : ι → β}
    (h : f ∈ assignments tables default is) : ∀ i ∈ is, f i ∈ tables i := by
  induction is generalizing f with
  | nil => simp
  | cons i is ih =>
    obtain ⟨hi, hnodup⟩ := List.nodup_cons.mp hnodup
    obtain ⟨row, hrow, h⟩ := List.mem_flatMap.mp h
    obtain ⟨f, hf, rfl⟩ := List.mem_map.mp h
    rw [List.forall_mem_cons]
    refine ⟨by rwa [Function.update_self], fun j hj => ?_⟩
    rw [Function.update_of_ne (fun heq : j = i => hi (heq ▸ hj))]
    exact ih hnodup hf j hj

/-- The order of the tables does not matter. -/
theorem assignments_perm {is js : List ι} (h : is.Perm js) (hnodup : is.Nodup) :
    (assignments tables default is).Perm (assignments tables default js) := by
  induction h with
  | nil => exact .rfl
  | cons i _ ih =>
    exact List.Perm.flatMap_left _ fun row _ => (ih (List.nodup_cons.mp hnodup).2).map _
  | swap i j is =>
    have hne : i ≠ j := by
      have := (List.nodup_cons.mp hnodup).1
      simp only [List.mem_cons, not_or] at this
      exact fun h => this.1 h.symm
    simp only [assignments, List.map_flatMap, List.map_map, Function.comp_def]
    have hcomm := Multiset.bind_bind (tables j : Multiset β) (tables i : Multiset β)
      (f := fun a b => ((assignments tables default is).map fun f =>
        Function.update (Function.update f i b) j a : Multiset (ι → β)))
    simp only [Multiset.coe_bind, Multiset.coe_eq_coe] at hcomm
    refine hcomm.trans ?_
    refine .of_eq (List.flatMap_congr fun b _ => List.flatMap_congr fun a _ =>
      List.map_congr_left fun f _ => ?_)
    exact Function.update_comm hne _ _ _
  | trans h _ ih ih' => exact (ih hnodup).trans (ih' (h.nodup_iff.mp hnodup))

/-- Filtering the tables filters the choices. -/
theorem assignments_filter (p : ι → β → Bool) {is : List ι} (hnodup : is.Nodup) :
    assignments (fun i => (tables i).filter (p i)) default is =
      (assignments tables default is).filter fun f => is.all fun i => p i (f i) := by
  induction is with
  | nil => simp [assignments]
  | cons i is ih =>
    obtain ⟨hi, hnodup⟩ := List.nodup_cons.mp hnodup
    rw [assignments, assignments, ih hnodup,
      filter_flatMap_map (q := p i) (r := fun f => is.all fun j => p j (f j))
        (t := fun _ _ => true)]
    · simp
    · intro row _ f _
      have hothers : (is.all fun j => p j (Function.update f i row j)) =
          is.all fun j => p j (f j) := by
        rw [Bool.eq_iff_iff, List.all_eq_true, List.all_eq_true]
        refine forall₂_congr fun j hj => ?_
        rw [Function.update_of_ne (fun heq : j = i => hi (heq ▸ hj))]
      rw [List.all_cons, Function.update_self, hothers, Bool.and_true]

end Choices

end HashJoin.Relational
