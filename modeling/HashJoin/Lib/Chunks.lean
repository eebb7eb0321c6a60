import Mathlib.Tactic

/-!
# Lists cut into chunks

A list of chunks in which every chunk but the last has the same length `k`: an element is found
by dividing its index by `k`.
-/

namespace HashJoin.Chunks

variable {α β : Type} {k : Nat}

/-- Every chunk but the last has length `k`, and the last at most `k`. -/
structure Uniform (k : Nat) (bs : List (List α)) : Prop where
  full : ∀ b ∈ bs.dropLast, b.length = k
  le : ∀ b ∈ bs, b.length ≤ k

theorem Uniform.nil : Uniform k ([] : List (List α)) := ⟨by simp, by simp⟩

theorem uniform_concat {bs : List (List α)} {b : List α} :
    Uniform k (bs ++ [b]) ↔ (∀ x ∈ bs, x.length = k) ∧ b.length ≤ k := by
  constructor
  · intro h
    exact ⟨by simpa using h.full, h.le b (by simp)⟩
  · rintro ⟨hbs, hb⟩
    refine ⟨by simpa using hbs, fun x hx => ?_⟩
    rcases List.mem_append.mp hx with hx | hx
    · exact (hbs x hx).le
    · rw [List.mem_singleton.mp hx]
      exact hb

/-- Only the lengths of the chunks matter. -/
theorem Uniform.congr {bs : List (List α)} {cs : List (List β)} (h : Uniform k bs)
    (hlen : bs.map List.length = cs.map List.length) : Uniform k cs := by
  constructor
  · intro c hc
    have hmem : c.length ∈ (cs.map List.length).dropLast := by
      rw [← List.map_dropLast]
      exact List.mem_map_of_mem hc
    rw [← hlen, ← List.map_dropLast] at hmem
    obtain ⟨b, hb, heq⟩ := List.mem_map.mp hmem
    rw [← heq, h.full b hb]
  · intro c hc
    have hmem : c.length ∈ cs.map List.length := List.mem_map_of_mem hc
    rw [← hlen] at hmem
    obtain ⟨b, hb, heq⟩ := List.mem_map.mp hmem
    rw [← heq]
    exact h.le b hb

/-- Full chunks may be put in front. -/
theorem Uniform.prepend {bs cs : List (List α)} (hbs : ∀ b ∈ bs, b.length = k)
    (hcs : Uniform k cs) : Uniform k (bs ++ cs) := by
  rcases List.eq_nil_or_concat' cs with rfl | ⟨full, last, rfl⟩
  · rw [List.append_nil]
    exact ⟨fun b hb => hbs b (List.mem_of_mem_dropLast hb), fun b hb => (hbs b hb).le⟩
  · obtain ⟨hfull, hlast⟩ := uniform_concat.mp hcs
    rw [← List.append_assoc]
    exact uniform_concat.mpr ⟨fun b hb => (List.mem_append.mp hb).elim (hbs b) (hfull b), hlast⟩

/-- A uniform list of chunks is empty, or full chunks followed by one more. -/
theorem Uniform.eq_concat {bs : List (List α)} (h : Uniform k bs) :
    bs = [] ∨ ∃ full last, bs = full ++ [last] ∧ (∀ b ∈ full, b.length = k) ∧ last.length ≤ k := by
  rcases List.eq_nil_or_concat' bs with hbs | ⟨full, last, hbs⟩
  · exact .inl hbs
  · rw [hbs] at h
    exact .inr ⟨full, last, hbs, uniform_concat.mp h⟩

theorem length_flatten_full {bs : List (List α)} (h : ∀ b ∈ bs, b.length = k) :
    bs.flatten.length = bs.length * k := by
  induction bs with
  | nil => simp
  | cons b bs ih =>
    rw [List.flatten_cons, List.length_append, h b (by simp), ih fun x hx => h x (by simp [hx]),
      List.length_cons]
    ring

theorem getElem?_flatten_full (hk : 0 < k) {bs : List (List α)} (h : ∀ b ∈ bs, b.length = k)
    (i : Nat) : bs.flatten[i]? = bs[i / k]?.bind fun b => b[i % k]? := by
  induction bs generalizing i with
  | nil => simp
  | cons b bs ih =>
    have hb := h b (by simp)
    rw [List.flatten_cons, List.getElem?_append, hb]
    split
    · next hi => simp [Nat.div_eq_of_lt hi, Nat.mod_eq_of_lt hi]
    · next hi =>
      have hge : k ≤ i := by omega
      have hdiv : i / k = (i - k) / k + 1 := Nat.div_eq_sub_div hk hge
      rw [ih (fun x hx => h x (by simp [hx])), ← Nat.mod_eq_sub_mod hge, hdiv,
        List.getElem?_cons_succ]

/-- An element is found by dividing its index. -/
theorem Uniform.getElem?_flatten (hk : 0 < k) {bs : List (List α)} (h : Uniform k bs) (i : Nat) :
    bs.flatten[i]? = bs[i / k]?.bind fun b => b[i % k]? := by
  rcases h.eq_concat with rfl | ⟨full, last, rfl, hfull, hlast⟩
  · simp
  · have hlen := length_flatten_full hfull
    rw [List.flatten_append, List.getElem?_append, List.getElem?_append, hlen]
    by_cases hi : i < full.length * k
    · rw [if_pos hi, if_pos ((Nat.div_lt_iff_lt_mul hk).mpr hi), getElem?_flatten_full hk hfull]
    · have hge : full.length ≤ i / k := (Nat.le_div_iff_mul_le hk).mpr (by omega)
      rw [if_neg hi, if_neg (by omega), List.flatten_singleton]
      by_cases hin : i / k = full.length
      · have hmod : i - full.length * k = i % k := by
          have hdm := Nat.div_add_mod i k
          rw [hin, Nat.mul_comm] at hdm
          omega
        simp [hin, hmod]
      · have hgt : (full.length + 1) * k ≤ i :=
          (Nat.le_div_iff_mul_le hk).mp (by omega)
        have hout : last.length ≤ i - full.length * k := by
          rw [Nat.add_mul] at hgt
          omega
        rw [List.getElem?_eq_none hout, List.getElem?_eq_none (by simp; omega)]
        rfl

theorem Uniform.length_flatten {bs : List (List α)} {b : List α} (h : Uniform k (bs ++ [b])) :
    (bs ++ [b]).flatten.length = bs.length * k + b.length := by
  rw [List.flatten_append, List.length_append, length_flatten_full (uniform_concat.mp h).1,
    List.flatten_singleton]

/-- Where a chunk begins. -/
theorem Uniform.length_flatten_take {bs : List (List α)} (h : Uniform k bs) {i : Nat}
    (hi : i < bs.length) : (bs.take i).flatten.length = i * k := by
  have hfull : ∀ b ∈ bs.take i, b.length = k := fun b hb => h.full b (by
    rw [List.dropLast_eq_take]
    exact (List.take_subset_take_left bs (by omega)) hb)
  rw [length_flatten_full hfull, List.length_take, Nat.min_eq_left hi.le]

/-- The first chunk may be taken as the measure of the others. -/
theorem Uniform.head {b : List α} {bs : List (List α)} (h : Uniform k (b :: bs)) :
    Uniform b.length (b :: bs) := by
  cases bs with
  | nil => exact ⟨by simp, by simp⟩
  | cons c bs =>
    have hb : b.length = k := h.full b (by simp)
    rw [hb]
    exact h

/-- Chunks of `m`, of a list that is itself a chunk of `n`. -/
theorem Uniform.min {m n : Nat} {bs : List (List α)} (h : Uniform m bs) (hne : ∀ b ∈ bs, b ≠ [])
    (hlen : bs.flatten.length ≤ n) : Uniform (min n m) bs := by
  rcases h.eq_concat with rfl | ⟨full, last, rfl, hfull, hlast⟩
  · exact .nil
  · rw [h.length_flatten] at hlen
    have hpos : 0 < last.length := List.length_pos_iff.mpr (hne last (by simp))
    by_cases hnm : n ≤ m
    · have hnil : full = [] := by
        cases full with
        | nil => rfl
        | cons b full =>
          have hle : m ≤ (full.length + 1) * m := Nat.le_mul_of_pos_left m (Nat.succ_pos _)
          rw [List.length_cons] at hlen
          omega
      rw [hnil] at hlen ⊢
      rw [Nat.min_eq_left hnm]
      exact uniform_concat.mpr ⟨by simp, by simpa using hlen⟩
    · rwa [Nat.min_eq_right (by omega)]

theorem Uniform.length_eq_min {m n : Nat} {bs : List (List α)} (h : Uniform m bs)
    (hne : ∀ b ∈ bs, b ≠ []) (hlen : bs.flatten.length = n) (hn : n ≤ m ∨ m ∣ n) :
    ∀ b ∈ bs, b.length = Min.min n m := by
  have hmin := h.min hne hlen.le
  rcases h.eq_concat with rfl | ⟨full, last, rfl, hfull, hlast⟩
  · simp
  · have hpos : 0 < last.length := List.length_pos_iff.mpr (hne last (by simp))
    rw [h.length_flatten] at hlen
    have hlast' : last.length = Min.min n m := by
      rcases hn with hnm | ⟨q, hq⟩
      · have hle := (uniform_concat.mp hmin).2
        by_cases hz : full.length = 0
        · rw [hz] at hlen
          omega
        · have := Nat.le_mul_of_pos_left m (Nat.pos_of_ne_zero hz)
          omega
      · have hdvd : m ∣ last.length := by
          have : last.length = n - full.length * m := by omega
          rw [this, hq]
          exact Nat.dvd_sub (Nat.dvd_mul_right m q) (Nat.dvd_mul_left m full.length)
        have hm : last.length = m := Nat.le_antisymm hlast (Nat.le_of_dvd hpos hdvd)
        have : m ≤ n := by omega
        omega
    intro b hb
    rcases List.mem_append.mp hb with hb | hb
    · exact (uniform_concat.mp hmin).1 b hb
    · rw [List.mem_singleton.mp hb, hlast']

/-! ## Slices -/

/-- The elements from `t * k` on, `k` of them or those that are left. -/
def slice (k : Nat) (l : List α) (t : Nat) : List α := (l.drop (t * k)).take k

theorem slice_succ (k : Nat) (l : List α) (t : Nat) :
    slice k l (t + 1) = slice k (l.drop k) t := by
  rw [slice, slice, List.drop_drop, Nat.succ_mul, Nat.add_comm]

theorem slice_map (f : α → β) (k : Nat) (l : List α) (t : Nat) :
    slice k (l.map f) t = (slice k l t).map f := by
  rw [slice, slice, ← List.map_drop, List.map_take]

theorem flatten_slices (k n : Nat) (l : List α) :
    ((List.range n).map (slice k l)).flatten = l.take (n * k) := by
  induction n generalizing l with
  | zero => simp
  | succ n ih =>
    have hshift : (slice k l) ∘ Nat.succ = slice k (l.drop k) := funext (slice_succ k l)
    rw [List.range_succ_eq_map, List.map_cons, List.map_map, hshift, List.flatten_cons, ih,
      Nat.succ_mul, Nat.add_comm, List.take_add, slice, Nat.zero_mul, List.drop_zero]

/-- The elements with their indices, chunk by chunk. -/
theorem zipIdx_flatten (bs : List (List α)) (n : Nat) :
    bs.flatten.zipIdx n = (List.range bs.length).flatMap fun i =>
      (bs.getD i []).zipIdx (n + ((bs.take i).flatten).length) := by
  induction bs generalizing n with
  | nil => rfl
  | cons b bs ih =>
    rw [List.flatten_cons, List.zipIdx_append, ih, List.length_cons, List.range_succ_eq_map,
      List.flatMap_cons, List.flatMap_map]
    simp [Nat.add_assoc]

/-! ## Building chunks -/

/-- Appends to the last chunk, or to a new one when there is none or it is full. -/
def pushBack (k : Nat) (bs : List (List α)) (v : α) : List (List α) :=
  match bs.getLast? with
  | none => bs ++ [[v]]
  | some b => if b.length = k then bs ++ [[v]] else bs.dropLast ++ [b ++ [v]]

theorem pushBack_nil (v : α) : pushBack k [] v = [[v]] := rfl

theorem pushBack_concat (bs : List (List α)) (b : List α) (v : α) :
    pushBack k (bs ++ [b]) v =
      if b.length = k then bs ++ [b] ++ [[v]] else bs ++ [b ++ [v]] := by
  simp [pushBack]

theorem Uniform.pushBack (hk : 0 < k) {bs : List (List α)} (h : Uniform k bs) (v : α) :
    Uniform k (pushBack k bs v) := by
  rcases h.eq_concat with rfl | ⟨full, last, rfl, hfull, hlast⟩
  · exact ⟨by simp [pushBack_nil], by simpa [pushBack_nil] using Nat.succ_le_of_lt hk⟩
  · rw [pushBack_concat]
    split
    · next hl =>
      refine uniform_concat.mpr ⟨fun x hx => ?_, hk⟩
      rcases List.mem_append.mp hx with hx | hx
      · exact hfull x hx
      · rw [List.mem_singleton.mp hx, hl]
    · next hl => exact uniform_concat.mpr ⟨hfull, by simp; omega⟩

theorem flatten_pushBack (bs : List (List α)) (v : α) :
    (Chunks.pushBack k bs v).flatten = bs.flatten ++ [v] := by
  rcases List.eq_nil_or_concat' bs with rfl | ⟨full, last, rfl⟩
  · rfl
  · rw [pushBack_concat]
    split <;> simp

/-- Full chunks, and the one being filled unless it is empty. -/
def close (done : List (List α)) (cur : List α) : List (List α) :=
  if cur.length > 0 then done ++ [cur] else done

theorem flatten_close (done : List (List α)) (cur : List α) :
    (close done cur).flatten = done.flatten ++ cur := by
  unfold close
  split
  · simp
  · next h =>
    have hcur : cur = [] := List.length_eq_zero_iff.mp (by omega)
    rw [hcur, List.append_nil]

theorem uniform_close {done : List (List α)} {cur : List α} (hdone : ∀ b ∈ done, b.length = k)
    (hcur : cur.length ≤ k) : Uniform k (close done cur) := by
  unfold close
  split
  · exact uniform_concat.mpr ⟨hdone, hcur⟩
  · exact ⟨fun b hb => hdone b (List.mem_of_mem_dropLast hb), fun b hb => (hdone b hb).le⟩

end HashJoin.Chunks
