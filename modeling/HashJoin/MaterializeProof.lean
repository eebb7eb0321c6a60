import HashJoin.Int32Column

/-!
# The columns of a materialised result

What the slices of an `INT32` column hold once their pages are put together, and when the result
can be scanned again. Each slice may end with a page that is not full.
-/

namespace HashJoin

open Bytes Chunks

/-- The cell that an `int32_wrapper` stands for. -/
def Value.cell (v : Value) : Data := cellOf Data.int32 v.key

theorem Value.cell_int32Call {v : Value} (h : v.IsInt32) :
    cellOf Data.int32 (int32Call v) = v.cell := by
  unfold int32Call
  rw [isNull_of_isInt32 h, cell, key]
  split <;> rfl

/-! ## The slices of a column -/

/-- The pages that the threads write for an `INT32` column, each for its slice. -/
def slicePages (fresh : Nat → Nat → Page) (k numThreads : Nat) (calls : List (Option Int32)) :
    List Page :=
  ((List.range numThreads).map fun t => ColumnInserter.write (fresh t) (slice k calls t)).flatten

theorem materializeColumn_int32 {inputs : List ColumnarTable} {fresh : Nat → Nat → Page}
    {numThreads numRows : Nat} {col : ColumnT} {values : List Value} (hne : col.numRows ≠ 0)
    (h : Reads col numRows values) :
    materializeColumn inputs .int32 fresh numThreads numRows col =
      .ok ⟨.int32, slicePages fresh (rowsPerThread numRows numThreads) numThreads
        (values.map int32Call)⟩ := by
  unfold materializeColumn
  rw [if_neg hne, mapM_eq_map (g := fun t => ColumnInserter.write (fresh t)
    (slice (rowsPerThread numRows numThreads) (values.map int32Call) t))]
  · rfl
  · intro t _
    unfold materializeSlice
    rw [sliceRows_eq, h.slice, ok_bind, slice_map]

/-! ## The pages of the slices -/

/-- The pages of the slices hold the rows. When each slice but the last fills its pages, or has
only one, all pages have the same number of rows. -/
theorem slicePages_ok (fresh : Nat → Nat → Page) (k n : Nat) (calls : List (Option Int32)) :
    ∃ chunks, calls.take (n * k) = chunks.flatten ∧ Int32Pages chunks (slicePages fresh k n calls) ∧
      (none ∉ calls → k ≤ 1984 ∨ 1984 ∣ k → Uniform (min k 1984) chunks) := by
  induction n generalizing fresh calls with
  | zero => exact ⟨[], by simp, ⟨.nil, by simp⟩, fun _ _ => .nil⟩
  | succ n ih =>
    obtain ⟨chunks, hchunks, hpages, huni⟩ :=
      (ColumnInserter.write_ok (fresh 0) rfl (slice k calls 0)).int32
    obtain ⟨rest, hrest, hpages', huni'⟩ := ih (fun t => fresh (t + 1)) (calls.drop k)
    have hslice : slice k calls 0 = calls.take k := by simp [slice]
    have hsplit : slicePages fresh k (n + 1) calls =
        ColumnInserter.write (fresh 0) (slice k calls 0) ++
          slicePages (fun t => fresh (t + 1)) k n (calls.drop k) := by
      simp [slicePages, List.range_succ_eq_map, Function.comp_def, slice_succ]
    rw [hslice] at hchunks huni
    refine ⟨chunks ++ rest, ?_, ?_, fun hnone hk => ?_⟩
    · rw [List.flatten_append, ← hchunks, ← hrest, Nat.succ_mul, Nat.add_comm, List.take_add]
    · rw [hsplit]
      exact ⟨List.rel_append hpages.pages hpages'.pages, fun c hc =>
        (List.mem_append.mp hc).elim (hpages.nonempty c) (hpages'.nonempty c)⟩
    · have huni := huni fun h => hnone (List.mem_of_mem_take h)
      have huni' := huni' (fun h => hnone (List.mem_of_mem_drop h)) hk
      have hlen := congrArg List.length hchunks
      by_cases hle : calls.length ≤ k
      · -- The first slice has all rows.
        have hnil : rest = [] := by
          cases rest with
          | nil => rfl
          | cons c rest =>
            have hc := List.length_pos_iff.mpr (hpages'.nonempty c (by simp))
            have hlen' := congrArg List.length hrest
            rw [List.flatten_cons, List.length_append, List.length_take, List.length_drop] at hlen'
            omega
        rw [hnil, List.append_nil]
        apply huni.min hpages.nonempty
        rw [← hlen]
        exact List.length_take_le k calls
      · refine Uniform.prepend (huni.length_eq_min hpages.nonempty ?_ hk) huni'
        rw [← hlen, List.length_take]
        omega

end HashJoin
