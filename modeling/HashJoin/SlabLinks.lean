import HashJoin.PartitionProof
import HashJoin.Lib.IntrusiveList

/-!
# The links of the chunks

The chunks of an allocator are linked by their first eight bytes, in the memory that also holds the
entries. Here an allocator has the pointer to its newest chunk only, `add_space` writes the link,
and the loop over a partition follows the links. As long as links and entries stay apart this is the
allocator that has the list of its chunks.
-/

namespace HashJoin.Linked

open IntrusiveList

/-- What eight bytes hold: the link of a chunk, an entry, or what was there before the build. -/
inductive Cell where
  | link (next : Ptr)
  | entry (e : Entry)
  | other

/-- The cells at the offsets that are multiples of eight. -/
abbrev Memory := Ptr → Cell

def Cell.next : Cell → Option Ptr
  | .link next => some next
  | .entry _ | .other => none

/-! ## The allocators -/

/-- `BumpAllocator<ChunkType>`. -/
structure BumpAllocator where
  current : Ptr := {}
  endPtr : Ptr := {}
  chunks : Ptr := {}

namespace BumpAllocator

def freeSpace (b : BumpAllocator) : Nat := b.endPtr.off - b.current.off

/-- `add_space` with a chunk of `chunkSize` bytes. -/
def addSpace (chunkSize : Nat) (b : BumpAllocator) (chunk : Ptr) (mem : Memory) :
    BumpAllocator × Memory :=
  ({ chunks := chunk
     current := chunk.add 8
     endPtr := (chunk.add 8).add (chunkSize - 8) },
    Function.update mem chunk (.link b.chunks))

/-- `allocate<T>` for a `T` of `size` bytes. -/
def allocate (size : Nat) (b : BumpAllocator) : Ptr × BumpAllocator :=
  (b.current, { b with current := b.current.add size })

end BumpAllocator

structure ThreadLocalState where
  level2 : BumpAllocator := {}
  level3 : Nat → BumpAllocator := fun _ => {}
  counts : Nat → Nat := fun _ => 0

namespace ThreadLocalState

/-- Makes room for a small chunk in level 2. -/
def ensureLevel2 (g : GlobalAllocator) (mem : Memory) (tls : ThreadLocalState) :
    GlobalAllocator × Memory × ThreadLocalState :=
  if tls.level2.freeSpace < 4096 then
    let (chunk, g) := g.allocate
    let (level2, mem) := tls.level2.addSpace 65536 chunk mem
    (g, mem, { tls with level2 := level2 })
  else (g, mem, tls)

/-- Makes room for an entry of the partition in level 3. -/
def ensureLevel3 (part : Nat) (g : GlobalAllocator) (mem : Memory) (tls : ThreadLocalState) :
    GlobalAllocator × Memory × ThreadLocalState :=
  if (tls.level3 part).freeSpace < 8 then
    let (g, mem, tls) := ensureLevel2 g mem tls
    let (small, level2) := tls.level2.allocate 4096
    let (level3, mem) := (tls.level3 part).addSpace 4096 small mem
    (g, mem, { tls with
      level2 := level2
      level3 := Function.update tls.level3 part level3 })
  else (g, mem, tls)

/-- `consume<Entry>`. -/
def consume (hash : UInt64) (g : GlobalAllocator) (mem : Memory) (tls : ThreadLocalState) :
    Ptr × GlobalAllocator × Memory × ThreadLocalState :=
  let part := partitionOf hash
  let (g, mem, tls) := ensureLevel3 part g mem tls
  let (ptr, level3) := (tls.level3 part).allocate 8
  (ptr, g, mem, { tls with
    counts := Function.update tls.counts part (tls.counts part + 1)
    level3 := Function.update tls.level3 part level3 })

/-! ## The entries of a partition -/

/-- `first_chunk_entries`. -/
def firstChunkEntries (total : Nat) : Nat := if total % 511 = 0 then 511 else total % 511

theorem firstChunkEntries_pos (total : Nat) : 0 < firstChunkEntries total := by
  unfold firstChunkEntries
  split <;> omega

/-- The loop over the chunks: the pointers at which it reads entries, or `none` if it takes for a
link what is none. -/
def visitChunks (mem : Memory) (total : Nat) (chunk : Ptr) (remaining : Nat) (isFirst : Bool) :
    Option (List Ptr) :=
  if _h : chunk ≠ {} ∧ remaining > 0 then do
    let next ← (mem chunk).next
    let rest ← visitChunks mem total next
      (remaining - min (if isFirst then firstChunkEntries total else 511) remaining) false
    some ((List.range (min (if isFirst then firstChunkEntries total else 511) remaining)).map
      (fun i => (chunk.add 8).add (8 * i)) ++ rest)
  else some []
termination_by remaining
decreasing_by
  have := firstChunkEntries_pos total
  split <;> omega

def forEachEntryInPartition (mem : Memory) (tls : ThreadLocalState) (part : Nat) :
    Option (List Ptr) :=
  let total := tls.counts part
  if total = 0 then some [] else visitChunks mem total (tls.level3 part).chunks total true

end ThreadLocalState

/-! ## With the list of the chunks -/

/-- The links of the allocator lead through the chunks of the list. -/
structure BumpAllocator.Refines (mem : Memory) (b : BumpAllocator) (b' : HashJoin.BumpAllocator) :
    Prop where
  current : b.current = b'.current
  endPtr : b.endPtr = b'.endPtr
  chunks : IsList {} (fun p => (mem p).next) b.chunks b'.chunks

namespace BumpAllocator

variable {mem mem' : Memory} {b : BumpAllocator} {b' : HashJoin.BumpAllocator}

theorem Refines.frame (h : b.Refines mem b') (hsame : ∀ a ∈ b'.chunks, mem' a = mem a) :
    b.Refines mem' b' :=
  ⟨h.current, h.endPtr, h.chunks.frame fun a ha => congrArg Cell.next (hsame a ha)⟩

theorem Refines.freeSpace (h : b.Refines mem b') : b.freeSpace = b'.freeSpace := by
  unfold BumpAllocator.freeSpace HashJoin.BumpAllocator.freeSpace
  rw [h.current, h.endPtr]

theorem Refines.allocate (h : b.Refines mem b') (size : Nat) :
    (b.allocate size).1 = (b'.allocate size).1 ∧
      (b.allocate size).2.Refines mem (b'.allocate size).2 :=
  ⟨h.current, congrArg (Ptr.add · size) h.current, h.endPtr, h.chunks⟩

theorem addSpace_of_ne (chunkSize : Nat) {chunk a : Ptr} (ha : a ≠ chunk) :
    (b.addSpace chunkSize chunk mem).2 a = mem a :=
  Function.update_of_ne ha _ _

theorem Refines.addSpace (h : b.Refines mem b') (chunkSize : Nat) {chunk : Ptr} (hnull : chunk ≠ {})
    (hnew : chunk ∉ b'.chunks) : (b.addSpace chunkSize chunk mem).1.Refines
      (b.addSpace chunkSize chunk mem).2 (b'.addSpace chunkSize chunk) := by
  refine ⟨rfl, rfl, h.chunks.push hnull ?_ fun a ha => ?_⟩
  · show (Function.update mem chunk (.link b.chunks) chunk).next = _
    rw [Function.update_self]
    rfl
  · have hne : a ≠ chunk := fun heq => hnew (heq ▸ ha)
    exact congrArg Cell.next (addSpace_of_ne chunkSize hne)

end BumpAllocator

structure ThreadLocalState.Refines (mem : Memory) (tls : ThreadLocalState)
    (tls' : HashJoin.ThreadLocalState) : Prop where
  level2 : tls.level2.Refines mem tls'.level2
  level3 : ∀ p, (tls.level3 p).Refines mem (tls'.level3 p)
  counts : tls.counts = tls'.counts

namespace ThreadLocalState

variable {mem mem' : Memory} {tls : ThreadLocalState} {tls' : HashJoin.ThreadLocalState}
  {g : GlobalAllocator}

/-- The address of a chunk of the thread, where a link is. -/
def IsLink (tls' : HashJoin.ThreadLocalState) (a : Ptr) : Prop :=
  a ∈ tls'.level2.chunks ∨ ∃ p, a ∈ (tls'.level3 p).chunks

theorem Refines.frame (h : tls.Refines mem tls') (hsame : ∀ a, IsLink tls' a → mem' a = mem a) :
    tls.Refines mem' tls' where
  level2 := h.level2.frame fun a ha => hsame a (.inl ha)
  level3 p := (h.level3 p).frame fun a ha => hsame a (.inr ⟨p, ha⟩)
  counts := h.counts

theorem ensureLevel2_refines (h : tls.Refines mem tls') (hnull : g.allocate.1 ≠ {})
    (hnew : ¬ IsLink tls' g.allocate.1) :
    (ensureLevel2 g mem tls).1 = (HashJoin.ThreadLocalState.ensureLevel2 g tls').1 ∧
      (ensureLevel2 g mem tls).2.2.Refines (ensureLevel2 g mem tls).2.1
        (HashJoin.ThreadLocalState.ensureLevel2 g tls').2 ∧
      ∀ a, a ≠ g.allocate.1 → (ensureLevel2 g mem tls).2.1 a = mem a := by
  unfold ensureLevel2 HashJoin.ThreadLocalState.ensureLevel2
  rw [h.level2.freeSpace]
  split
  · refine ⟨rfl, ⟨?_, fun p => ?_, h.counts⟩, fun a ha => BumpAllocator.addSpace_of_ne 65536 ha⟩
    · exact h.level2.addSpace 65536 hnull fun hmem => hnew (.inl hmem)
    · apply (h.level3 p).frame
      intro a ha
      exact BumpAllocator.addSpace_of_ne 65536 fun heq => hnew (.inr ⟨p, heq ▸ ha⟩)
  · exact ⟨rfl, h, fun a _ => rfl⟩

/-- The small chunk that level 3 gets next. -/
def nextSmall (g : GlobalAllocator) (tls' : HashJoin.ThreadLocalState) : Ptr :=
  (HashJoin.ThreadLocalState.ensureLevel2 g tls').2.level2.current

theorem ensureLevel3_refines (part : Nat) (h : tls.Refines mem tls') (hnull : g.allocate.1 ≠ {})
    (hnew : ¬ IsLink tls' g.allocate.1) (hnull' : nextSmall g tls' ≠ {})
    (hnew' : ¬ IsLink (HashJoin.ThreadLocalState.ensureLevel2 g tls').2 (nextSmall g tls')) :
    (ensureLevel3 part g mem tls).1 = (HashJoin.ThreadLocalState.ensureLevel3 part g tls').1 ∧
      (ensureLevel3 part g mem tls).2.2.Refines (ensureLevel3 part g mem tls).2.1
        (HashJoin.ThreadLocalState.ensureLevel3 part g tls').2 ∧
      ∀ a, a ≠ g.allocate.1 → a ≠ nextSmall g tls' →
        (ensureLevel3 part g mem tls).2.1 a = mem a := by
  unfold ensureLevel3 HashJoin.ThreadLocalState.ensureLevel3
  rw [(h.level3 part).freeSpace]
  split
  · obtain ⟨hglobal, h2, hframe⟩ := ensureLevel2_refines h hnull hnew
    unfold nextSmall at hnull' hnew' ⊢
    generalize ensureLevel2 g mem tls = r at hglobal h2 hframe ⊢
    generalize HashJoin.ThreadLocalState.ensureLevel2 g tls' = r' at hglobal h2 hnull' hnew' ⊢
    obtain ⟨g₁, mem₁, tls₁⟩ := r
    obtain ⟨g₁', tls₁'⟩ := r'
    have hsmall : (tls₁.level2.allocate 4096).1 = tls₁'.level2.current := h2.level2.current
    have hkeep : ∀ a, a ≠ tls₁'.level2.current →
        ((tls₁.level3 part).addSpace 4096 (tls₁.level2.allocate 4096).1 mem₁).2 a = mem₁ a :=
      fun a ha => BumpAllocator.addSpace_of_ne 4096 (hsmall ▸ ha)
    refine ⟨hglobal, ⟨?_, fun p => ?_, h2.counts⟩, fun a ha ha' => ?_⟩
    · apply (h2.level2.allocate 4096).2.frame
      exact fun a ha => hkeep a fun heq => hnew' (.inl (heq ▸ ha))
    · by_cases hp : p = part
      · subst hp
        simp only [Function.update_self]
        have hadd := (h2.level3 p).addSpace 4096 (hsmall ▸ hnull') fun hmem =>
          hnew' (.inr ⟨p, hsmall ▸ hmem⟩)
        rw [(h2.level2.allocate 4096).1] at hadd ⊢
        exact hadd
      · simp only [Function.update_of_ne hp]
        apply (h2.level3 p).frame
        exact fun a ha => hkeep a fun heq => hnew' (.inr ⟨p, heq ▸ ha⟩)
    · exact (hkeep a ha').trans (hframe a ha)
  · exact ⟨rfl, h, fun a _ _ => rfl⟩

theorem consume_refines (hash : UInt64) (h : tls.Refines mem tls') (hnull : g.allocate.1 ≠ {})
    (hnew : ¬ IsLink tls' g.allocate.1) (hnull' : nextSmall g tls' ≠ {})
    (hnew' : ¬ IsLink (HashJoin.ThreadLocalState.ensureLevel2 g tls').2 (nextSmall g tls')) :
    (consume hash g mem tls).1 = (HashJoin.ThreadLocalState.consume hash g tls').1 ∧
      (consume hash g mem tls).2.1 = (HashJoin.ThreadLocalState.consume hash g tls').2.1 ∧
      (consume hash g mem tls).2.2.2.Refines (consume hash g mem tls).2.2.1
        (HashJoin.ThreadLocalState.consume hash g tls').2.2 ∧
      ∀ a, a ≠ g.allocate.1 → a ≠ nextSmall g tls' → (consume hash g mem tls).2.2.1 a = mem a := by
  obtain ⟨hglobal, h3, hframe⟩ :=
    ensureLevel3_refines (partitionOf hash) h hnull hnew hnull' hnew'
  unfold consume HashJoin.ThreadLocalState.consume
  dsimp only
  generalize ensureLevel3 (partitionOf hash) g mem tls = r at hglobal h3 hframe ⊢
  generalize HashJoin.ThreadLocalState.ensureLevel3 (partitionOf hash) g tls' = r' at hglobal h3 ⊢
  obtain ⟨g₁, mem₁, tls₁⟩ := r
  obtain ⟨g₁', tls₁'⟩ := r'
  obtain ⟨hptr, hlevel3⟩ := (h3.level3 (partitionOf hash)).allocate 8
  refine ⟨hptr, hglobal, ⟨h3.level2, fun p => ?_, ?_⟩, hframe⟩
  · by_cases hp : p = partitionOf hash
    · rw [hp]
      simp only [Function.update_self]
      exact hlevel3
    · simp only [Function.update_of_ne hp]
      exact h3.level3 p
  · rw [h3.counts]

/-! ## The loop -/

theorem visitChunks_eq (total : Nat) {chunk : Ptr} {chunks : List Ptr}
    (h : IsList {} (fun p => (mem p).next) chunk chunks) (remaining : Nat) (isFirst : Bool) :
    visitChunks mem total chunk remaining isFirst = some (HashJoin.ThreadLocalState.visitChunks
      (firstChunkEntries total) chunks remaining isFirst) := by
  induction chunks generalizing chunk remaining isFirst with
  | nil =>
    obtain rfl := h
    unfold visitChunks HashJoin.ThreadLocalState.visitChunks
    simp
  | cons c rest ih =>
    obtain ⟨rfl, hnull, next, hnext, hrest⟩ := h
    unfold visitChunks HashJoin.ThreadLocalState.visitChunks
    by_cases hrem : remaining > 0
    · have hlink : (mem chunk).next = some next := hnext
      rw [dif_pos ⟨hnull, hrem⟩, if_pos hrem, hlink]
      simp only [Option.bind_eq_bind, Option.bind_some]
      rw [ih hrest]
      rfl
    · rw [dif_neg fun h => hrem h.2, if_neg hrem]

/-- The links lead through the same entries as the list of the chunks. -/
theorem forEachEntryInPartition_eq (h : tls.Refines mem tls') (part : Nat) :
    forEachEntryInPartition mem tls part =
      some (HashJoin.ThreadLocalState.entriesInPartition tls' part) := by
  unfold forEachEntryInPartition HashJoin.ThreadLocalState.entriesInPartition
  simp only [h.counts]
  split
  · rfl
  · exact visitChunks_eq (tls'.counts part) (h.level3 part).chunks (tls'.counts part) true

end ThreadLocalState

end HashJoin.Linked
