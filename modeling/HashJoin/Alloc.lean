import HashJoin.Hash

/-!
# The slab allocator

Three levels: the global allocator gives out large chunks, from the arena and after that from the
heap; each thread carves small chunks from its large ones, and for each partition entries from its
small ones. A pointer is a block of memory with an offset, since separately allocated blocks never
overlap.
-/

namespace HashJoin

/-- The arena, or the block that the heap gave for the allocation with index `idx`. -/
inductive Block where
  | null
  | arena
  | heap (idx : Nat)
  deriving DecidableEq

structure Ptr where
  block : Block := .null
  off : Nat := 0
  deriving DecidableEq

def Ptr.add (p : Ptr) (n : Nat) : Ptr := ⟨p.block, p.off + n⟩

@[simp] theorem Ptr.off_add (p : Ptr) (n : Nat) : (p.add n).off = p.off + n := rfl

@[simp] theorem Ptr.add_add (p : Ptr) (m n : Nat) : (p.add m).add n = p.add (m + n) := by
  simp [Ptr.add, Nat.add_assoc]

/-! ## Level 1 -/

/-- `GlobalAllocator`. -/
structure GlobalAllocator where
  arenaSize : Nat := 0
  arenaCapacity : Nat := 0
  nextIdx : Nat := 0

namespace GlobalAllocator

def reserve (g : GlobalAllocator) (numChunks : Nat) : GlobalAllocator :=
  if numChunks ≤ g.arenaCapacity then g
  else
    let newSize := numChunks * 65536
    let newSize := (newSize + 4096 - 1) / 4096 * 4096
    { g with arenaSize := newSize, arenaCapacity := newSize / 65536 }

def reset (g : GlobalAllocator) : GlobalAllocator := { g with nextIdx := 0 }

/-- The chunk with the given index. -/
def chunkAt (arenaCapacity idx : Nat) : Ptr :=
  if idx < arenaCapacity then ⟨.arena, idx * 65536⟩ else ⟨.heap idx, 0⟩

def allocate (g : GlobalAllocator) : Ptr × GlobalAllocator :=
  (chunkAt g.arenaCapacity g.nextIdx, { g with nextIdx := g.nextIdx + 1 })

end GlobalAllocator

/-! ## Levels 2 and 3 -/

/-- `BumpAllocator<ChunkType>`. The chunks are linked by their first eight bytes, the newest one
first. -/
structure BumpAllocator where
  current : Ptr := {}
  endPtr : Ptr := {}
  chunks : List Ptr := []

namespace BumpAllocator

def freeSpace (b : BumpAllocator) : Nat := b.endPtr.off - b.current.off

/-- `add_space` with a chunk of `chunkSize` bytes. -/
def addSpace (chunkSize : Nat) (b : BumpAllocator) (chunk : Ptr) : BumpAllocator :=
  { chunks := chunk :: b.chunks
    current := chunk.add 8
    endPtr := (chunk.add 8).add (chunkSize - 8) }

/-- `allocate<T>` for a `T` of `size` bytes. -/
def allocate (size : Nat) (b : BumpAllocator) : Ptr × BumpAllocator :=
  (b.current, { b with current := b.current.add size })

end BumpAllocator

structure ThreadLocalState where
  level2 : BumpAllocator := {}
  level3 : Nat → BumpAllocator := fun _ => {}
  counts : Nat → Nat := fun _ => 0

namespace ThreadLocalState

/-- Makes room for a small chunk in level 2. -/
def ensureLevel2 (g : GlobalAllocator) (tls : ThreadLocalState) :
    GlobalAllocator × ThreadLocalState :=
  if tls.level2.freeSpace < 4096 then
    let (chunk, g) := g.allocate
    (g, { tls with level2 := tls.level2.addSpace 65536 chunk })
  else (g, tls)

/-- Makes room for an entry of the partition in level 3. -/
def ensureLevel3 (part : Nat) (g : GlobalAllocator) (tls : ThreadLocalState) :
    GlobalAllocator × ThreadLocalState :=
  if (tls.level3 part).freeSpace < 8 then
    let (g, tls) := ensureLevel2 g tls
    let (small, level2) := tls.level2.allocate 4096
    (g, { tls with
      level2 := level2
      level3 := Function.update tls.level3 part ((tls.level3 part).addSpace 4096 small) })
  else (g, tls)

/-- `consume<Entry>`. -/
def consume (hash : UInt64) (g : GlobalAllocator) (tls : ThreadLocalState) :
    Ptr × GlobalAllocator × ThreadLocalState :=
  let part := partitionOf hash
  let (g, tls) := ensureLevel3 part g tls
  let (ptr, level3) := (tls.level3 part).allocate 8
  (ptr, g, { tls with
    counts := Function.update tls.counts part (tls.counts part + 1)
    level3 := Function.update tls.level3 part level3 })

/-! ## The entries of a partition -/

/-- The loop of `forEachEntryInPartition` over the chunks: the pointers at which it reads. -/
def visitChunks (firstChunkEntries : Nat) : List Ptr → (remaining : Nat) → (isFirst : Bool) →
    List Ptr
  | [], _, _ => []
  | chunk :: chunks, remaining, isFirst =>
    if remaining > 0 then
      let count := min (if isFirst then firstChunkEntries else 511) remaining
      (List.range count).map (fun i => (chunk.add 8).add (8 * i)) ++
        visitChunks firstChunkEntries chunks (remaining - count) false
    else []

/-- `forEachEntryInPartition`. -/
def entriesInPartition (tls : ThreadLocalState) (part : Nat) : List Ptr :=
  let total := tls.counts part
  if total = 0 then []
  else
    let firstChunkEntries := if total % 511 = 0 then 511 else total % 511
    visitChunks firstChunkEntries (tls.level3 part).chunks total true

end ThreadLocalState

/-! ## Slots -/

/-- The small chunk `c.2` of the large chunk with index `c.1`. -/
def smallPtr (arenaCapacity : Nat) (c : Nat × Nat) : Ptr :=
  (GlobalAllocator.chunkAt arenaCapacity c.1).add (8 + 4096 * c.2)

/-- The entry `i` of a small chunk. -/
def slotPtr (arenaCapacity : Nat) (c : Nat × Nat) (i : Nat) : Ptr :=
  (smallPtr arenaCapacity c).add (8 + 8 * i)

/-- Places in large chunks are apart. -/
theorem chunkAt_add_inj {cap L M r q : Nat} (hr : r < 65536) (hq : q < 65536)
    (h : (GlobalAllocator.chunkAt cap L).add r = (GlobalAllocator.chunkAt cap M).add q) :
    L = M ∧ r = q := by
  simp only [GlobalAllocator.chunkAt, Ptr.add, Ptr.mk.injEq] at h
  obtain ⟨hblock, hoff⟩ := h
  split at hblock <;> split at hblock
  · next hL hM =>
    simp only [hL, hM, if_true] at hoff
    omega
  · simp at hblock
  · simp at hblock
  · next hL hM =>
    simp only [hL, hM, if_false] at hoff
    have : L = M := by simpa using hblock
    omega

theorem smallPtr_inj {cap : Nat} {c d : Nat × Nat} (hc : c.2 < 15) (hd : d.2 < 15)
    (h : smallPtr cap c = smallPtr cap d) : c = d := by
  obtain ⟨h1, h2⟩ := chunkAt_add_inj (by omega) (by omega) h
  exact Prod.ext h1 (by omega)

/-- Where an entry is in its large chunk. -/
theorem slotPtr_eq (cap : Nat) (c : Nat × Nat) (i : Nat) : slotPtr cap c i =
    (GlobalAllocator.chunkAt cap c.1).add (16 + 4096 * c.2 + 8 * i) := by
  unfold slotPtr smallPtr
  rw [Ptr.add_add]
  congr 1
  omega

/-- Entries at different places of a chunk, or in different chunks, are apart. -/
theorem slotPtr_inj {cap i j : Nat} {c d : Nat × Nat} (hc : c.2 < 15) (hd : d.2 < 15)
    (hi : i < 511) (hj : j < 511) (h : slotPtr cap c i = slotPtr cap d j) : c = d ∧ i = j := by
  rw [slotPtr_eq, slotPtr_eq] at h
  obtain ⟨h1, h2⟩ := chunkAt_add_inj (by omega) (by omega) h
  exact ⟨Prod.ext h1 (by omega), by omega⟩

/-- What a thread has carved: `larges` are the indices of its large chunks, `smalls` the small
chunks of each partition, newest first. -/
structure Carved (cap : Nat) (larges : List Nat) (smalls : Nat → List (Nat × Nat))
    (tls : ThreadLocalState) : Prop where
  chunks2 : tls.level2.chunks = larges.map (GlobalAllocator.chunkAt cap)
  space2_nil : larges = [] → tls.level2.freeSpace = 0
  space2_cons : ∀ L rest, larges = L :: rest → ∃ used ≤ 15,
    tls.level2.current = (GlobalAllocator.chunkAt cap L).add (8 + 4096 * used) ∧
    tls.level2.endPtr = (GlobalAllocator.chunkAt cap L).add 65536 ∧
    ∀ p s, (L, s) ∈ smalls p → s < used
  chunks3 : ∀ p, (tls.level3 p).chunks = (smalls p).map (smallPtr cap)
  space3_nil : ∀ p, smalls p = [] → (tls.level3 p).freeSpace = 0 ∧ tls.counts p = 0
  space3_cons : ∀ p c rest, smalls p = c :: rest → ∃ e, 0 < e ∧ e ≤ 511 ∧
    (tls.level3 p).current = (smallPtr cap c).add (8 + 8 * e) ∧
    (tls.level3 p).endPtr = (smallPtr cap c).add 4096 ∧
    tls.counts p = 511 * rest.length + e
  mem : ∀ p, ∀ c ∈ smalls p, c.1 ∈ larges ∧ c.2 < 15
  nodup : ∀ p, (smalls p).Nodup
  disjoint : ∀ p q, p ≠ q → List.Disjoint (smalls p) (smalls q)

/-- The slots of a partition that are in use, as they are visited. -/
def usedSlots (smalls : List (Nat × Nat)) (count : Nat) : List ((Nat × Nat) × Nat) :=
  match smalls with
  | [] => []
  | c :: rest =>
    (List.range (count - 511 * rest.length)).map (Prod.mk c) ++
      rest.flatMap fun d => (List.range 511).map (Prod.mk d)

namespace ThreadLocalState

theorem map_slots (cap n : Nat) (c : Nat × Nat) :
    (List.range n).map (fun i => ((smallPtr cap c).add 8).add (8 * i)) =
      ((List.range n).map (Prod.mk c)).map fun x => slotPtr cap x.1 x.2 := by
  rw [List.map_map]
  exact List.map_congr_left fun i _ => by simp [slotPtr]

theorem visitChunks_full (cap first : Nat) (cs : List (Nat × Nat)) :
    visitChunks first (cs.map (smallPtr cap)) (511 * cs.length) false =
      (cs.flatMap fun c => (List.range 511).map (Prod.mk c)).map fun x => slotPtr cap x.1 x.2 := by
  induction cs with
  | nil => rfl
  | cons c cs ih =>
    have hlen : 511 * (c :: cs).length = 511 * cs.length + 511 := by
      rw [List.length_cons]
      ring
    rw [List.map_cons, visitChunks, if_pos (by rw [hlen]; omega), hlen]
    simp only [Bool.false_eq_true, if_false]
    rw [Nat.min_eq_left (by omega), Nat.add_sub_cancel, ih, List.flatMap_cons, List.map_append,
      map_slots]

theorem entriesInPartition_eq {cap : Nat} {larges : List Nat} {smalls : Nat → List (Nat × Nat)}
    {tls : ThreadLocalState} (h : Carved cap larges smalls tls) (p : Nat) :
    entriesInPartition tls p =
      (usedSlots (smalls p) (tls.counts p)).map fun x => slotPtr cap x.1 x.2 := by
  unfold entriesInPartition
  cases hs : smalls p with
  | nil =>
    simp [usedSlots, (h.space3_nil p hs).2]
  | cons c rest =>
    obtain ⟨e, hpos, hle, -, -, hcount⟩ := h.space3_cons p c rest hs
    have hfirst : (if tls.counts p % 511 = 0 then 511 else tls.counts p % 511) = e := by
      split <;> omega
    rw [if_neg (by omega)]
    simp only [hfirst]
    rw [h.chunks3, hs, List.map_cons, visitChunks, if_pos (by omega)]
    simp only [if_true]
    have hmin : min e (tls.counts p) = e := by omega
    have hsub : tls.counts p - 511 * rest.length = e := by omega
    have hrest : tls.counts p - e = 511 * rest.length := by omega
    rw [hmin, hrest, visitChunks_full, usedSlots, hsub, List.map_append, map_slots]

end ThreadLocalState

/-! ## The slots in use -/

theorem mem_usedSlots {smalls : List (Nat × Nat)} {count : Nat} {x : (Nat × Nat) × Nat}
    (hx : x ∈ usedSlots smalls count) : x.1 ∈ smalls := by
  cases smalls with
  | nil => simp [usedSlots] at hx
  | cons c rest =>
    rcases List.mem_append.mp hx with hx | hx
    · obtain ⟨i, -, rfl⟩ := List.mem_map.mp hx
      exact List.mem_cons_self
    · obtain ⟨d, hd, hx⟩ := List.mem_flatMap.mp hx
      obtain ⟨i, -, rfl⟩ := List.mem_map.mp hx
      exact List.mem_cons_of_mem _ hd

/-- The slots in use are inside their chunks. -/
theorem Carved.slot_lt {cap : Nat} {larges : List Nat} {smalls : Nat → List (Nat × Nat)}
    {tls : ThreadLocalState} (h : Carved cap larges smalls tls) {p : Nat} {x : (Nat × Nat) × Nat}
    (hx : x ∈ usedSlots (smalls p) (tls.counts p)) :
    x.1.1 ∈ larges ∧ x.1.2 < 15 ∧ x.2 < 511 := by
  obtain ⟨hlarge, hlt⟩ := h.mem p x.1 (mem_usedSlots hx)
  refine ⟨hlarge, hlt, ?_⟩
  cases hs : smalls p with
  | nil => simp [hs, usedSlots] at hx
  | cons c rest =>
    obtain ⟨e, -, hle, -, -, hcount⟩ := h.space3_cons p c rest hs
    rw [hs] at hx
    rcases List.mem_append.mp hx with hx | hx
    · obtain ⟨i, hi, rfl⟩ := List.mem_map.mp hx
      have := List.mem_range.mp hi
      show i < 511
      omega
    · obtain ⟨d, -, hx⟩ := List.mem_flatMap.mp hx
      obtain ⟨i, hi, rfl⟩ := List.mem_map.mp hx
      exact List.mem_range.mp hi

theorem Carved.length_usedSlots {cap : Nat} {larges : List Nat} {smalls : Nat → List (Nat × Nat)}
    {tls : ThreadLocalState} (h : Carved cap larges smalls tls) (p : Nat) :
    (usedSlots (smalls p) (tls.counts p)).length = tls.counts p := by
  cases hs : smalls p with
  | nil => exact (h.space3_nil p hs).2.symm
  | cons c rest =>
    obtain ⟨e, -, -, -, -, hcount⟩ := h.space3_cons p c rest hs
    have hrest : (rest.flatMap fun d => (List.range 511).map (Prod.mk d)).length =
        511 * rest.length := by
      simp [List.length_flatMap, Nat.mul_comm]
    unfold usedSlots
    rw [List.length_append, List.length_map, List.length_range, hrest]
    omega

theorem nodup_usedSlots {smalls : List (Nat × Nat)} (h : smalls.Nodup) (count : Nat) :
    (usedSlots smalls count).Nodup := by
  cases smalls with
  | nil => exact List.nodup_nil
  | cons c rest =>
    obtain ⟨hc, hrest⟩ := List.nodup_cons.mp h
    have hmap : ∀ d n, ((List.range n).map (Prod.mk d) : List ((Nat × Nat) × Nat)).Nodup :=
      fun d n => List.nodup_range.map (Prod.mk_right_injective d)
    refine List.nodup_append.mpr ⟨hmap c _, List.nodup_flatMap.mpr ⟨fun d _ => hmap d _, ?_⟩, ?_⟩
    · refine hrest.imp fun hne x hx hy => ?_
      obtain ⟨i, -, rfl⟩ := List.mem_map.mp hx
      obtain ⟨j, -, heq⟩ := List.mem_map.mp hy
      exact hne (congrArg Prod.fst heq).symm
    · rintro x hx y hy rfl
      obtain ⟨i, -, rfl⟩ := List.mem_map.mp hx
      obtain ⟨d, hd, hy⟩ := List.mem_flatMap.mp hy
      obtain ⟨j, -, heq⟩ := List.mem_map.mp hy
      have hdc : d = c := congrArg Prod.fst heq
      exact hc (hdc ▸ hd)

/-! ## Carving one entry -/

open ThreadLocalState

/-- At most one large chunk was allocated, for this thread. -/
def Grown (g : GlobalAllocator) (larges : List Nat) (g' : GlobalAllocator) (larges' : List Nat) :
    Prop :=
  g'.arenaCapacity = g.arenaCapacity ∧
    (g'.nextIdx = g.nextIdx ∧ larges' = larges ∨
      g'.nextIdx = g.nextIdx + 1 ∧ larges' = g.nextIdx :: larges)

theorem ThreadLocalState.ensureLevel2_ok {cap : Nat} {larges : List Nat}
    {smalls : Nat → List (Nat × Nat)} {tls : ThreadLocalState} {g : GlobalAllocator}
    (h : Carved cap larges smalls tls)
    (hcap : g.arenaCapacity = cap) (hnew : g.nextIdx ∉ larges) :
    ∃ larges', Grown g larges (ensureLevel2 g tls).1 larges' ∧
      Carved cap larges' smalls (ensureLevel2 g tls).2 ∧
      (ensureLevel2 g tls).2.level3 = tls.level3 ∧ (ensureLevel2 g tls).2.counts = tls.counts ∧
      4096 ≤ (ensureLevel2 g tls).2.level2.freeSpace := by
  unfold ensureLevel2
  split
  · refine ⟨g.nextIdx :: larges, ⟨rfl, .inr ⟨rfl, rfl⟩⟩, ?_, rfl, rfl, ?_⟩
    · refine ⟨?_, by simp, ?_, h.chunks3, h.space3_nil, h.space3_cons, ?_, h.nodup, h.disjoint⟩
      · simp [GlobalAllocator.allocate, BumpAllocator.addSpace, h.chunks2, hcap]
      · rintro L rest heq
        obtain ⟨rfl, rfl⟩ := List.cons.inj heq
        refine ⟨0, by omega, ?_, ?_, fun p s hs => absurd (h.mem p _ hs).1 hnew⟩
        · simp [GlobalAllocator.allocate, BumpAllocator.addSpace, hcap]
        · simp [GlobalAllocator.allocate, BumpAllocator.addSpace, hcap]
      · exact fun p c hc => ⟨List.mem_cons_of_mem _ (h.mem p c hc).1, (h.mem p c hc).2⟩
    · simp [BumpAllocator.freeSpace, BumpAllocator.addSpace]
  · next hfree => exact ⟨larges, ⟨rfl, .inl ⟨rfl, rfl⟩⟩, h, rfl, rfl, Nat.le_of_not_lt hfree⟩

/-- An entry that finds room in the newest small chunk of its partition. -/
theorem Carved.allocate {cap : Nat} {larges : List Nat} {smalls : Nat → List (Nat × Nat)}
    {tls : ThreadLocalState} (h : Carved cap larges smalls tls) {part : Nat}
    (hroom : ¬ (tls.level3 part).freeSpace < 8) :
    ∃ x : (Nat × Nat) × Nat, x.1 ∈ smalls part ∧ x.2 < 511 ∧
      ((tls.level3 part).allocate 8).1 = slotPtr cap x.1 x.2 ∧
      Carved cap larges smalls { tls with
        counts := Function.update tls.counts part (tls.counts part + 1)
        level3 := Function.update tls.level3 part ((tls.level3 part).allocate 8).2 } ∧
      (usedSlots (smalls part) (tls.counts part + 1)).Perm
        (x :: usedSlots (smalls part) (tls.counts part)) := by
  cases hs : smalls part with
  | nil =>
    have := (h.space3_nil part hs).1
    omega
  | cons c rest =>
    obtain ⟨e, hpos, hle, hcur, hend, hcount⟩ := h.space3_cons part c rest hs
    have he : e < 511 := by
      unfold BumpAllocator.freeSpace at hroom
      rw [hcur, hend, Ptr.off_add, Ptr.off_add] at hroom
      omega
    refine ⟨(c, e), by simp, he, by rw [BumpAllocator.allocate, hcur]; rfl, ?_, ?_⟩
    · refine ⟨h.chunks2, h.space2_nil, h.space2_cons, fun p => ?_, fun p hp => ?_,
        fun p d tail hp => ?_, h.mem, h.nodup, h.disjoint⟩
      · by_cases hpart : p = part
        · subst hpart
          simp [BumpAllocator.allocate, h.chunks3]
        · simp [Function.update_of_ne hpart, h.chunks3]
      · have hpart : p ≠ part := fun heq => by simp [heq, hs] at hp
        simpa [Function.update_of_ne hpart] using h.space3_nil p hp
      · by_cases hpart : p = part
        · subst hpart
          obtain ⟨rfl, rfl⟩ := List.cons.inj (hs.symm.trans hp)
          refine ⟨e + 1, by omega, by omega, ?_, ?_, ?_⟩
          · rw [show 8 + 8 * (e + 1) = 8 + 8 * e + 8 by omega]
            simp [BumpAllocator.allocate, hcur]
          · simp [BumpAllocator.allocate, hend]
          · simp [hcount]
            omega
        · simpa [Function.update_of_ne hpart] using h.space3_cons p d tail hp
    · have hsub : tls.counts part + 1 - 511 * rest.length = e + 1 := by omega
      have hsub' : tls.counts part - 511 * rest.length = e := by omega
      rw [usedSlots, usedSlots, hsub, hsub', List.range_succ, List.map_append, List.append_assoc]
      exact List.perm_middle

/-- One chunk more for one partition. -/
theorem mem_update_cons {smalls : Nat → List (Nat × Nat)} {part p : Nat} {c d : Nat × Nat} :
    d ∈ Function.update smalls part (c :: smalls part) p ↔ p = part ∧ d = c ∨ d ∈ smalls p := by
  by_cases hp : p = part
  · subst hp
    simp
  · simp [hp]

/-- The chunks of a partition without room are full. -/
theorem Carved.count_full {cap : Nat} {larges : List Nat} {smalls : Nat → List (Nat × Nat)}
    {tls : ThreadLocalState} (h : Carved cap larges smalls tls) {part : Nat}
    (hfull : (tls.level3 part).freeSpace < 8) :
    tls.counts part = 511 * (smalls part).length := by
  cases hs : smalls part with
  | nil => simpa using (h.space3_nil part hs).2
  | cons c rest =>
    obtain ⟨e, hpos, hle, hcur, hend, hcount⟩ := h.space3_cons part c rest hs
    unfold BumpAllocator.freeSpace at hfull
    rw [hcur, hend, Ptr.off_add, Ptr.off_add] at hfull
    rw [hcount, List.length_cons]
    omega

/-- The first slot of a new chunk over full ones. -/
theorem usedSlots_cons_full (c : Nat × Nat) (smalls : List (Nat × Nat)) :
    usedSlots (c :: smalls) (511 * smalls.length + 1) =
      (c, 0) :: usedSlots smalls (511 * smalls.length) := by
  have hrest : usedSlots smalls (511 * smalls.length) =
      smalls.flatMap fun d => (List.range 511).map (Prod.mk d) := by
    cases smalls with
    | nil => rfl
    | cons d rest =>
      have hsub : 511 * (d :: rest).length - 511 * rest.length = 511 := by
        rw [List.length_cons]
        omega
      rw [usedSlots, hsub, List.flatMap_cons]
  have hone : 511 * smalls.length + 1 - 511 * smalls.length = 1 := by omega
  rw [hrest, usedSlots, hone]
  rfl

/-- Where level 2 takes its next small chunk from. -/
theorem Carved.nextSmall {cap : Nat} {larges : List Nat} {smalls : Nat → List (Nat × Nat)}
    {tls : ThreadLocalState} (h : Carved cap larges smalls tls)
    (hroom : 4096 ≤ tls.level2.freeSpace) : ∃ L others used, larges = L :: others ∧ used < 15 ∧
      tls.level2.current = smallPtr cap (L, used) ∧
      tls.level2.endPtr = (GlobalAllocator.chunkAt cap L).add 65536 ∧
      ∀ p s, (L, s) ∈ smalls p → s < used := by
  cases hl : larges with
  | nil =>
    have := h.space2_nil hl
    omega
  | cons L others =>
    obtain ⟨used, hle, hcur, hend, hlt⟩ := h.space2_cons L others hl
    have hused : used < 15 := by
      unfold BumpAllocator.freeSpace at hroom
      rw [hcur, hend, Ptr.off_add, Ptr.off_add] at hroom
      omega
    exact ⟨L, others, used, rfl, hused, hcur, hend, hlt⟩

/-- A partition without room gets a new small chunk, from which the entry is taken. -/
theorem Carved.newSmall {cap : Nat} {larges : List Nat} {smalls : Nat → List (Nat × Nat)}
    {tls : ThreadLocalState} (h : Carved cap larges smalls tls) {part : Nat}
    (hfull : (tls.level3 part).freeSpace < 8) (hroom : 4096 ≤ tls.level2.freeSpace) :
    ∃ c, c.1 ∈ larges ∧
      (((tls.level3 part).addSpace 4096 (tls.level2.allocate 4096).1).allocate 8).1 =
        slotPtr cap c 0 ∧
      Carved cap larges (Function.update smalls part (c :: smalls part)) { tls with
        level2 := (tls.level2.allocate 4096).2
        counts := Function.update tls.counts part (tls.counts part + 1)
        level3 := Function.update tls.level3 part
          (((tls.level3 part).addSpace 4096 (tls.level2.allocate 4096).1).allocate 8).2 } ∧
      (usedSlots (c :: smalls part) (tls.counts part + 1)).Perm
        ((c, 0) :: usedSlots (smalls part) (tls.counts part)) := by
  obtain ⟨L, others, used, rfl, hused, hsmall, hend, hlt⟩ := h.nextSmall hroom
  have hfresh : ∀ p, (L, used) ∉ smalls p := fun p hp => absurd (hlt p used hp) (by omega)
  have hcount := h.count_full hfull
  have hcur : tls.level2.current = (GlobalAllocator.chunkAt cap L).add (8 + 4096 * used) := hsmall
  refine ⟨(L, used), by simp, ?_, ?_, by rw [hcount, usedSlots_cons_full]⟩
  · simp [BumpAllocator.allocate, BumpAllocator.addSpace, hsmall, slotPtr]
  · refine ⟨?_, by simp, ?_, fun p => ?_, fun p hp => ?_, fun p d tail hp => ?_, ?_, ?_, ?_⟩
    · simp [BumpAllocator.allocate, h.chunks2]
    · rintro M rest heq
      obtain ⟨rfl, rfl⟩ := List.cons.inj heq
      refine ⟨used + 1, by omega, ?_, ?_, fun p s hs => ?_⟩
      · rw [show 8 + 4096 * (used + 1) = 8 + 4096 * used + 4096 by omega]
        simp [BumpAllocator.allocate, hcur]
      · simp [BumpAllocator.allocate, hend]
      · rcases mem_update_cons.mp hs with ⟨-, heq⟩ | hs
        · have : s = used := congrArg Prod.snd heq
          omega
        · have := hlt p s hs
          omega
    · by_cases hpart : p = part
      · subst hpart
        simp [BumpAllocator.allocate, BumpAllocator.addSpace, h.chunks3, hsmall]
      · simp [Function.update_of_ne hpart, h.chunks3]
    · have hpart : p ≠ part := fun heq => by simp [heq] at hp
      rw [Function.update_of_ne hpart] at hp
      simpa [Function.update_of_ne hpart] using h.space3_nil p hp
    · by_cases hpart : p = part
      · subst hpart
        rw [Function.update_self] at hp
        obtain ⟨rfl, rfl⟩ := List.cons.inj hp
        refine ⟨1, by omega, by omega, ?_, ?_, ?_⟩
        · simp [BumpAllocator.allocate, BumpAllocator.addSpace, hsmall]
        · simp [BumpAllocator.allocate, BumpAllocator.addSpace, hsmall]
        · simp [hcount]
      · rw [Function.update_of_ne hpart] at hp
        simpa [Function.update_of_ne hpart] using h.space3_cons p d tail hp
    · intro p c hc
      rcases mem_update_cons.mp hc with ⟨-, rfl⟩ | hc
      · exact ⟨by simp, hused⟩
      · exact h.mem p c hc
    · intro p
      by_cases hpart : p = part
      · subst hpart
        rw [Function.update_self]
        exact List.nodup_cons.mpr ⟨hfresh p, h.nodup p⟩
      · rw [Function.update_of_ne hpart]
        exact h.nodup p
    · intro p q hpq d hp hq
      rcases mem_update_cons.mp hp with ⟨heq, rfl⟩ | hp
      · rcases mem_update_cons.mp hq with ⟨heq', -⟩ | hq
        · exact hpq (heq.trans heq'.symm)
        · exact hfresh q hq
      · rcases mem_update_cons.mp hq with ⟨-, rfl⟩ | hq
        · exact hfresh p hp
        · exact h.disjoint p q hpq hp hq

theorem ThreadLocalState.consume_arenaSize (hash : UInt64) (g : GlobalAllocator)
    (tls : ThreadLocalState) : (consume hash g tls).2.1.arenaSize = g.arenaSize := by
  unfold consume ensureLevel3 ensureLevel2
  dsimp only
  split
  · split <;> rfl
  · rfl

/-- `consume` hands out a slot that was not in use. -/
theorem ThreadLocalState.consume_ok {cap : Nat} {larges : List Nat}
    {smalls : Nat → List (Nat × Nat)} {tls : ThreadLocalState} {g : GlobalAllocator}
    (h : Carved cap larges smalls tls)
    (hcap : g.arenaCapacity = cap) (hnew : g.nextIdx ∉ larges) (hash : UInt64) :
    ∃ larges' smalls' x, Grown g larges (consume hash g tls).2.1 larges' ∧
      Carved cap larges' smalls' (consume hash g tls).2.2 ∧
      (consume hash g tls).1 = slotPtr cap x.1 x.2 ∧ x.1 ∈ smalls' (partitionOf hash) ∧ x.2 < 511 ∧
      (usedSlots (smalls' (partitionOf hash))
        ((consume hash g tls).2.2.counts (partitionOf hash))).Perm
        (x :: usedSlots (smalls (partitionOf hash)) (tls.counts (partitionOf hash))) ∧
      ∀ p, p ≠ partitionOf hash →
        smalls' p = smalls p ∧ (consume hash g tls).2.2.counts p = tls.counts p := by
  unfold consume ensureLevel3
  by_cases hfull : (tls.level3 (partitionOf hash)).freeSpace < 8
  · obtain ⟨larges', hgrown, hcarved, hlevel3, hcounts, hroom⟩ := ensureLevel2_ok h hcap hnew
    generalize hlarge : ensureLevel2 g tls = room at *
    obtain ⟨g', tls'⟩ := room
    rw [← hlevel3] at hfull
    obtain ⟨c, hc, hptr, hcarved', hperm⟩ := hcarved.newSmall hfull hroom
    simp only [← hlevel3, ← hcounts, hfull, if_true, Function.update_self,
      Function.update_idem]
    refine ⟨larges', Function.update smalls (partitionOf hash) (c :: smalls (partitionOf hash)),
      (c, 0), hgrown, hcarved', hptr, by simp, Nat.zero_lt_succ _, ?_, fun p hp => ⟨?_, ?_⟩⟩
    · simpa using hperm
    · rw [Function.update_of_ne hp]
    · rw [Function.update_of_ne hp]
  · obtain ⟨x, hx, hlt, hptr, hcarved, hperm⟩ := h.allocate hfull
    simp only [hfull, if_false]
    refine ⟨larges, smalls, x, ⟨rfl, .inl ⟨rfl, rfl⟩⟩, hcarved, hptr, hx, hlt, ?_,
      fun p hp => ⟨rfl, ?_⟩⟩
    · simpa using hperm
    · simp [Function.update_of_ne hp]

end HashJoin
