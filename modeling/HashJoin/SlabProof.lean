import HashJoin.SlabLinks

/-!
# The slots of a build

In whatever order the threads take their turns, the slots that `consume` hands out in one build do
not overlap, lie in small chunks behind the link, and are what the loop over a partition visits.
-/

namespace HashJoin

open Interleave IntrusiveList

/-! ## Ranges of bytes -/

/-- `n` bytes from `p` on and `n` bytes from `q` on do not overlap. -/
def Ptr.Apart (n : Nat) (p q : Ptr) : Prop :=
  p.block ≠ q.block ∨ p.off + n ≤ q.off ∨ q.off + n ≤ p.off

/-- The `n` bytes from `p` on are among the `m` bytes from `q` on. -/
def Ptr.Within (p : Ptr) (n : Nat) (q : Ptr) (m : Nat) : Prop :=
  p.block = q.block ∧ q.off ≤ p.off ∧ p.off + n ≤ q.off + m

/-- The allocator has the `n` bytes from `p` on. -/
def GlobalAllocator.Has (g : GlobalAllocator) (p : Ptr) (n : Nat) : Prop :=
  match p.block with
  | .null => False
  | .arena => p.off + n ≤ g.arenaSize
  | .heap _ => p.off + n ≤ 65536

/-- The chunks of the arena are inside it. -/
def GlobalAllocator.Sized (g : GlobalAllocator) : Prop := g.arenaCapacity * 65536 ≤ g.arenaSize

theorem GlobalAllocator.Sized.reserve {g : GlobalAllocator} (h : g.Sized) (numChunks : Nat) :
    (g.reserve numChunks).Sized := by
  unfold GlobalAllocator.reserve
  split
  · exact h
  · exact Nat.div_mul_le_self _ _

theorem GlobalAllocator.Sized.has {g : GlobalAllocator} (h : g.Sized) {c : Nat × Nat}
    (hc : c.2 < 15) : g.Has (smallPtr g.arenaCapacity c) 4096 := by
  unfold smallPtr GlobalAllocator.chunkAt GlobalAllocator.Has
  by_cases hlt : c.1 < g.arenaCapacity
  · have hend : c.1 * 65536 + 65536 ≤ g.arenaSize := by
      rw [← Nat.succ_mul]
      exact (Nat.mul_le_mul_right _ hlt).trans h
    clear h
    simp only [hlt, if_true, Ptr.add]
    omega
  · simp only [hlt, if_false, Ptr.add]
    omega

theorem slotPtr_within {cap i : Nat} {c : Nat × Nat} (hi : i < 511) :
    (slotPtr cap c i).Within 8 ((smallPtr cap c).add 8) 4088 := by
  refine ⟨rfl, ?_, ?_⟩
  · show (smallPtr cap c).off + 8 ≤ (smallPtr cap c).off + (8 + 8 * i)
    omega
  · show (smallPtr cap c).off + (8 + 8 * i) + 8 ≤ (smallPtr cap c).off + 8 + 4088
    omega

theorem slotPtr_aligned (cap : Nat) (c : Nat × Nat) (i : Nat) : (slotPtr cap c i).off % 8 = 0 := by
  rw [slotPtr_eq, Ptr.off_add]
  unfold GlobalAllocator.chunkAt
  split
  · show (c.1 * 65536 + (16 + 4096 * c.2 + 8 * i)) % 8 = 0
    omega
  · show (0 + (16 + 4096 * c.2 + 8 * i)) % 8 = 0
    omega

/-- Different slots do not overlap. -/
theorem slotPtr_apart {cap : Nat} {x y : (Nat × Nat) × Nat} (hx : x.1.2 < 15) (hy : y.1.2 < 15)
    (hx' : x.2 < 511) (hy' : y.2 < 511) (hne : x ≠ y) :
    (slotPtr cap x.1 x.2).Apart 8 (slotPtr cap y.1 y.2) := by
  obtain ⟨⟨L, s⟩, i⟩ := x
  obtain ⟨⟨M, u⟩, j⟩ := y
  rw [slotPtr_eq, slotPtr_eq]
  simp only [Ptr.Apart, GlobalAllocator.chunkAt, Ptr.add] at *
  have hplace : L ≠ M ∨ 16 + 4096 * s + 8 * i ≠ 16 + 4096 * u + 8 * j := by
    by_contra heq
    rw [not_or, not_not, not_not] at heq
    obtain ⟨rfl, hoff⟩ := heq
    obtain rfl : s = u := by omega
    obtain rfl : i = j := by omega
    exact hne rfl
  by_cases hL : L < cap <;> by_cases hM : M < cap
  · simp only [hL, hM, if_true]
    omega
  · simp [hL, hM]
  · simp [hL, hM]
  · simp only [hL, hM, if_false]
    by_cases hLM : L = M
    · omega
    · simp [hLM]

/-! ## Where the links are -/

section

variable {cap : Nat} {larges : List Nat} {smalls : Nat → List (Nat × Nat)}
  {tls : ThreadLocalState} {a : Ptr}

theorem chunkAt_add_ne_null (cap L r : Nat) : (GlobalAllocator.chunkAt cap L).add r ≠ {} := by
  unfold GlobalAllocator.chunkAt
  split <;> simp [Ptr.add]

/-- A link is at the start of a large chunk, or of a small one. -/
theorem Carved.isLink (h : Carved cap larges smalls tls)
    (ha : Linked.ThreadLocalState.IsLink tls a) :
    (∃ L ∈ larges, a = (GlobalAllocator.chunkAt cap L).add 0) ∨
      ∃ p, ∃ c ∈ smalls p, a = smallPtr cap c := by
  rcases ha with ha | ⟨p, ha⟩
  · rw [h.chunks2] at ha
    obtain ⟨L, hL, rfl⟩ := List.mem_map.mp ha
    exact .inl ⟨L, hL, rfl⟩
  · rw [h.chunks3] at ha
    obtain ⟨c, hc, rfl⟩ := List.mem_map.mp ha
    exact .inr ⟨p, c, hc, rfl⟩

/-- It is in a large chunk of the thread. -/
theorem Carved.isLink_inside (h : Carved cap larges smalls tls)
    (ha : Linked.ThreadLocalState.IsLink tls a) :
    ∃ L ∈ larges, ∃ r < 65536, a = (GlobalAllocator.chunkAt cap L).add r := by
  rcases h.isLink ha with ⟨L, hL, rfl⟩ | ⟨p, c, hc, rfl⟩
  · exact ⟨L, hL, 0, by omega, rfl⟩
  · obtain ⟨hlarge, hlt⟩ := h.mem p c hc
    exact ⟨c.1, hlarge, 8 + 4096 * c.2, by omega, rfl⟩

/-- A new large chunk has no link yet. -/
theorem Carved.large_not_link (h : Carved cap larges smalls tls) {L : Nat} (hL : L ∉ larges) :
    ¬ Linked.ThreadLocalState.IsLink tls ((GlobalAllocator.chunkAt cap L).add 0) := by
  intro hlink
  obtain ⟨M, hM, r, hr, heq⟩ := h.isLink_inside hlink
  exact hL ((chunkAt_add_inj (by omega) hr heq).1 ▸ hM)

theorem Carved.small_not_link (h : Carved cap larges smalls tls) {c : Nat × Nat} (hc : c.2 < 15)
    (hnew : ∀ p, c ∉ smalls p) : ¬ Linked.ThreadLocalState.IsLink tls (smallPtr cap c) := by
  intro hlink
  rcases h.isLink hlink with ⟨L, -, heq⟩ | ⟨p, d, hd, heq⟩
  · have := (chunkAt_add_inj (by omega) (by omega) heq).2
    omega
  · exact hnew p (smallPtr_inj hc (h.mem p d hd).2 heq ▸ hd)

/-- No slot is where a link is. -/
theorem Carved.slot_not_link (h : Carved cap larges smalls tls) {c : Nat × Nat} {i : Nat}
    (hc : c.2 < 15) (hi : i < 511) : ¬ Linked.ThreadLocalState.IsLink tls (slotPtr cap c i) := by
  intro hlink
  rw [slotPtr_eq] at hlink
  rcases h.isLink hlink with ⟨L, -, heq⟩ | ⟨p, d, hd, heq⟩
  · have := (chunkAt_add_inj (by omega) (by omega) heq).2
    omega
  · have hlt := (h.mem p d hd).2
    have := (chunkAt_add_inj (by omega) (by omega) heq).2
    omega

end

namespace Linked

/-- `consume` keeps the links. It writes to large chunks of the thread only. -/
theorem ThreadLocalState.consume_carved {cap : Nat} {larges : List Nat}
    {smalls : Nat → List (Nat × Nat)} {mem : Memory} {tls : ThreadLocalState}
    {tls' : HashJoin.ThreadLocalState} {g : GlobalAllocator}
    (hcarved : Carved cap larges smalls tls') (hcap : g.arenaCapacity = cap)
    (hnew : g.nextIdx ∉ larges) (h : tls.Refines mem tls')
    (hash : UInt64) :
    (consume hash g mem tls).1 = (HashJoin.ThreadLocalState.consume hash g tls').1 ∧
      (consume hash g mem tls).2.1 = (HashJoin.ThreadLocalState.consume hash g tls').2.1 ∧
      (consume hash g mem tls).2.2.2.Refines (consume hash g mem tls).2.2.1
        (HashJoin.ThreadLocalState.consume hash g tls').2.2 ∧
      ∀ a, (∀ L r, L ∈ larges ∨ L = g.nextIdx → r < 65536 →
          a ≠ (GlobalAllocator.chunkAt cap L).add r) →
        (consume hash g mem tls).2.2.1 a = mem a := by
  have hlarge : g.allocate.1 = (GlobalAllocator.chunkAt cap g.nextIdx).add 0 := by
    rw [← hcap]
    rfl
  obtain ⟨larges', hgrown, hcarved', -, -, hroom⟩ :=
    HashJoin.ThreadLocalState.ensureLevel2_ok hcarved hcap hnew
  obtain ⟨L, others, used, hlarges, hused, hsmall, -, hlt⟩ := hcarved'.nextSmall hroom
  have hL : L ∈ larges ∨ L = g.nextIdx := by
    rcases hgrown.2 with ⟨-, heq⟩ | ⟨-, heq⟩
    · exact .inl (heq ▸ hlarges ▸ List.mem_cons_self)
    · exact .inr (List.cons.inj (hlarges.symm.trans heq)).1
  have hsmallPtr : nextSmall g tls' = smallPtr cap (L, used) := hsmall
  obtain ⟨hptr, hglobal, hrefines, hframe⟩ := consume_refines hash h
    (hlarge ▸ chunkAt_add_ne_null cap g.nextIdx 0) (hlarge ▸ hcarved.large_not_link hnew)
    (hsmallPtr ▸ chunkAt_add_ne_null cap L (8 + 4096 * used))
    (hsmallPtr ▸ hcarved'.small_not_link hused fun p hp => Nat.lt_irrefl _ (hlt p used hp))
  refine ⟨hptr, hglobal, hrefines, fun a ha => hframe a ?_ ?_⟩
  · rw [hlarge]
    exact ha g.nextIdx 0 (.inr rfl) (by omega)
  · rw [hsmallPtr]
    exact ha L (8 + 4096 * used) hL (by omega)

/-! ## Builds -/

/-- What a call of `consume` returned. -/
structure Returned where
  thread : Nat
  hash : UInt64
  slot : Ptr

inductive SlabStep where
  | consume (hash : UInt64)
  /-- The stores to the fields of the entry. -/
  | store (e : Entry)

/-- The state that the threads share, their own states, the variable `entry` of each, and what was
returned so far. -/
structure SlabState where
  global : GlobalAllocator
  memory : Memory
  threads : Nat → ThreadLocalState := fun _ => {}
  entry : Nat → Ptr := fun _ => {}
  returned : List Returned := []

def SlabState.step (s : SlabState) : Nat × SlabStep → SlabState
  | (t, .consume hash) =>
    let (ptr, global, memory, tls) :=
      ThreadLocalState.consume hash s.global s.memory (s.threads t)
    { global := global
      memory := memory
      threads := Function.update s.threads t tls
      entry := Function.update s.entry t ptr
      returned := s.returned ++ [⟨t, hash, ptr⟩] }
  | (t, .store e) => { s with memory := Function.update s.memory (s.entry t) (.entry e) }

/-- A thread's calls, after each of which it stores an entry. -/
def slabSteps (calls : List (UInt64 × Entry)) : List SlabStep :=
  calls.flatMap fun c => [.consume c.1, .store c.2]

/-- What decides a build: the calls of each thread, the order of their turns, and what the memory
holds before. -/
structure Build where
  numThreads : Nat
  numChunks : Nat
  memory : Memory
  calls : Nat → List (UInt64 × Entry)
  schedule : List Nat

/-- `reset`, `reserve`, and the calls of the threads. -/
def Build.run (b : Build) (global : GlobalAllocator) : SlabState :=
  (complete b.numThreads (fun t => slabSteps (b.calls t)) b.schedule).foldl SlabState.step
    { global := global.reset.reserve b.numChunks, memory := b.memory }

namespace SlabState

/-- The slots that the calls of thread `t` returned for hashes of partition `p`. -/
def slotsOf (s : SlabState) (t p : Nat) : List Ptr :=
  (s.returned.filter fun r => r.thread = t ∧ partitionOf r.hash = p).map Returned.slot

/-- The slots of a build: apart, each in a small chunk that is linked for its partition, and
visited once by the loop over its partition, which sees nothing else. -/
structure Sound (s : SlabState) : Prop where
  apart : s.returned.Pairwise fun r r' => r.slot.Apart 8 r'.slot
  /-- An entry fills one cell. -/
  aligned : ∀ r ∈ s.returned, r.slot.off % 8 = 0
  inside : ∀ r ∈ s.returned, ∃ chunks, ∃ chunk ∈ chunks,
    IsList {} (fun a => (s.memory a).next)
      ((s.threads r.thread).level3 (partitionOf r.hash)).chunks chunks ∧
    s.global.Has chunk 4096 ∧ r.slot.Within 8 (chunk.add 8) 4088
  visited : ∀ t p, ∃ slots,
    ThreadLocalState.forEachEntryInPartition s.memory (s.threads t) p = some slots ∧
      slots.Perm (s.slotsOf t p)

/-! ## The invariant -/

/-- Each thread has large chunks of its own, from which it carved its small chunks and its slots;
`tlss` are the states of the threads with the lists of their chunks. -/
structure Inv (cap : Nat) (larges : Nat → List Nat) (smalls : Nat → Nat → List (Nat × Nat))
    (tlss : Nat → HashJoin.ThreadLocalState) (s : SlabState) : Prop where
  arenaCapacity : s.global.arenaCapacity = cap
  sized : s.global.Sized
  territories : Territories s.global.nextIdx larges
  carved : ∀ t, Carved cap (larges t) (smalls t) (tlss t)
  refines : ∀ t, (s.threads t).Refines s.memory (tlss t)
  slots : ∀ t p, (s.slotsOf t p).Perm
    ((usedSlots (smalls t p) ((tlss t).counts p)).map fun x => slotPtr cap x.1 x.2)
  apart : s.returned.Pairwise fun r r' => r.slot.Apart 8 r'.slot

/-- A thread stores to the slot that it got last. -/
def Pending (progs : Nat → List SlabStep) (s : SlabState) : Prop :=
  ∀ t, (∃ calls, progs t = slabSteps calls) ∨
    ∃ e calls, progs t = .store e :: slabSteps calls ∧
      ∃ r ∈ s.returned, r.slot = s.entry t

section

variable {cap : Nat} {larges : Nat → List Nat} {smalls : Nat → Nat → List (Nat × Nat)}
  {tlss : Nat → HashJoin.ThreadLocalState} {s : SlabState}

theorem slotsOf_concat (s : SlabState) (t p : Nat) (s' : SlabState) (r : Returned)
    (h : s'.returned = s.returned ++ [r]) : s'.slotsOf t p =
      s.slotsOf t p ++ if r.thread = t ∧ partitionOf r.hash = p then [r.slot] else [] := by
  unfold slotsOf
  rw [h, List.filter_append, List.map_append, List.filter_singleton]
  by_cases hr : r.thread = t ∧ partitionOf r.hash = p
  · simp [hr]
  · simp [hr]

/-- Where a slot that was returned is. -/
theorem Inv.slot_of_returned (h : Inv cap larges smalls tlss s) {r : Returned}
    (hr : r ∈ s.returned) : ∃ x ∈ usedSlots (smalls r.thread (partitionOf r.hash))
      ((tlss r.thread).counts (partitionOf r.hash)), slotPtr cap x.1 x.2 = r.slot := by
  have hmem : r.slot ∈ s.slotsOf r.thread (partitionOf r.hash) :=
    List.mem_map_of_mem (List.mem_filter.mpr ⟨hr, by simp⟩)
  exact List.mem_map.mp ((h.slots _ _).mem_iff.mp hmem)

theorem Inv.sound (h : Inv cap larges smalls tlss s) : s.Sound where
  apart := h.apart
  aligned r hr := by
    obtain ⟨x, -, hslot⟩ := h.slot_of_returned hr
    rw [← hslot]
    exact slotPtr_aligned cap x.1 x.2
  inside r hr := by
    obtain ⟨x, hx, hslot⟩ := h.slot_of_returned hr
    obtain ⟨-, hlt, hlt'⟩ := (h.carved r.thread).slot_lt hx
    refine ⟨_, smallPtr cap x.1, ?_, ((h.refines r.thread).level3 _).chunks, ?_, ?_⟩
    · rw [(h.carved r.thread).chunks3]
      exact List.mem_map_of_mem (mem_usedSlots hx)
    · rw [← h.arenaCapacity]
      exact h.sized.has hlt
    · rw [← hslot]
      exact slotPtr_within hlt'
  visited t p := by
    refine ⟨_, ThreadLocalState.forEachEntryInPartition_eq (h.refines t) p, ?_⟩
    rw [HashJoin.ThreadLocalState.entriesInPartition_eq (h.carved t) p]
    exact (h.slots t p).symm

/-- Other threads do not see what a thread writes in its large chunks. -/
theorem Inv.refines_of_ne (h : Inv cap larges smalls tlss s) {t u : Nat} (hu : u ≠ t)
    {memory : Memory} (hframe : ∀ a, (∀ L r, L ∈ larges t ∨ L = s.global.nextIdx → r < 65536 →
      a ≠ (GlobalAllocator.chunkAt cap L).add r) → memory a = s.memory a) :
    (s.threads u).Refines memory (tlss u) := by
  refine (h.refines u).frame fun a ha => hframe a fun L r hL hr heq => ?_
  obtain ⟨M, hM, q, hq, rfl⟩ := (h.carved u).isLink_inside ha
  obtain rfl := (chunkAt_add_inj hq hr heq).1
  rcases hL with hL | rfl
  · exact h.territories.apart u t hu hM hL
  · exact h.territories.next_not_mem u hM

/-- A slot that was not in use overlaps none of those returned before. -/
theorem Inv.apart_new (h : Inv cap larges smalls tlss s) {t part : Nat} {newLarges : List Nat}
    {newSmalls : Nat → List (Nat × Nat)} {tls' : HashJoin.ThreadLocalState}
    {x : (Nat × Nat) × Nat} (hcarved : Carved cap newLarges newSmalls tls')
    (hdisjoint : ∀ u, u ≠ t → List.Disjoint (larges u) newLarges)
    (hother : ∀ p, p ≠ part → newSmalls p = smalls t p) (hx : x.1 ∈ newSmalls part)
    (hlt : x.2 < 511) (hunused : x ∉ usedSlots (smalls t part) ((tlss t).counts part)) :
    ∀ r ∈ s.returned, r.slot.Apart 8 (slotPtr cap x.1 x.2) := by
  intro r hr
  obtain ⟨y, hy, hslot⟩ := h.slot_of_returned hr
  obtain ⟨hyl, hy15, hy511⟩ := (h.carved r.thread).slot_lt hy
  obtain ⟨hxl, hx15⟩ := hcarved.mem _ x.1 hx
  rw [← hslot]
  refine slotPtr_apart hy15 hx15 hy511 hlt ?_
  rintro rfl
  by_cases ht : r.thread = t
  · rw [ht] at hy
    by_cases hp : partitionOf r.hash = part
    · exact hunused (hp ▸ hy)
    · refine hcarved.disjoint _ _ hp ?_ hx
      rw [hother _ hp]
      exact mem_usedSlots hy
  · exact hdisjoint r.thread ht hyl hxl

theorem Inv.consume (h : Inv cap larges smalls tlss s) (t : Nat) (hash : UInt64) :
    ∃ larges' smalls' tlss', Inv cap larges' smalls' tlss' (s.step (t, .consume hash)) := by
  obtain ⟨newLarges, newSmalls, x, hgrown, hcarved, hptr, hx, hlt, hperm, hother⟩ :=
    HashJoin.ThreadLocalState.consume_ok (h.carved t) h.arenaCapacity
      (h.territories.next_not_mem t) hash
  obtain ⟨hptr', hglobal, hrefines, hframe⟩ := ThreadLocalState.consume_carved (h.carved t)
    h.arenaCapacity (h.territories.next_not_mem t) (h.refines t) hash
  have hterritories := h.territories.grown hgrown
  have hreturned : (s.step (t, .consume hash)).returned =
      s.returned ++ [⟨t, hash, slotPtr cap x.1 x.2⟩] := by
    rw [← hptr, ← hptr']
    rfl
  have hstep : (s.step (t, .consume hash)).global =
      (HashJoin.ThreadLocalState.consume hash s.global (tlss t)).2.1 := hglobal
  refine ⟨Function.update larges t newLarges, Function.update smalls t newSmalls,
    Function.update tlss t (HashJoin.ThreadLocalState.consume hash s.global (tlss t)).2.2,
    ?_, ?_, ?_, fun u => ?_, fun u => ?_, fun u p => ?_, ?_⟩
  · rw [hstep]
    exact hgrown.1.trans h.arenaCapacity
  · unfold GlobalAllocator.Sized
    rw [hstep, HashJoin.ThreadLocalState.consume_arenaSize, hgrown.1]
    exact h.sized
  · rw [hstep]
    exact hterritories
  · by_cases hu : u = t
    · subst hu
      simpa using hcarved
    · simpa [Function.update_of_ne hu] using h.carved u
  · by_cases hu : u = t
    · subst hu
      simpa [step] using hrefines
    · simp only [step, Function.update_of_ne hu]
      exact h.refines_of_ne hu hframe
  · rw [slotsOf_concat s u p _ _ hreturned]
    by_cases hu : u = t
    · subst hu
      simp only [Function.update_self, true_and]
      by_cases hp : p = partitionOf hash
      · subst hp
        rw [if_pos rfl]
        refine (List.perm_append_singleton _ _).trans ?_
        have hslots := hperm.map fun y : (Nat × Nat) × Nat => slotPtr cap y.1 y.2
        exact ((h.slots u _).cons _).trans hslots.symm
      · rw [if_neg (Ne.symm hp), List.append_nil, (hother p hp).1, (hother p hp).2]
        exact h.slots u p
    · have hne : ¬ (t = u ∧ partitionOf hash = p) := fun heq => hu heq.1.symm
      rw [if_neg hne, List.append_nil, Function.update_of_ne hu, Function.update_of_ne hu]
      exact h.slots u p
  · have hdisjoint : ∀ u, u ≠ t → List.Disjoint (larges u) newLarges := fun u hu => by
      have := hterritories.apart u t hu
      rwa [Function.update_of_ne hu, Function.update_self] at this
    have hnodup := hperm.nodup_iff.mp (nodup_usedSlots (hcarved.nodup _) _)
    rw [hreturned]
    refine List.pairwise_append.mpr ⟨h.apart, List.pairwise_singleton _ _, fun r hr r' hr' => ?_⟩
    rw [List.mem_singleton.mp hr']
    exact h.apart_new hcarved hdisjoint (fun p hp => (hother p hp).1) hx hlt
      (List.nodup_cons.mp hnodup).1 r hr

theorem Inv.store (h : Inv cap larges smalls tlss s) {t : Nat} (e : Entry)
    (hentry : ∃ r ∈ s.returned, r.slot = s.entry t) :
    Inv cap larges smalls tlss (s.step (t, .store e)) := by
  obtain ⟨r, hr, hslot⟩ := hentry
  obtain ⟨x, hx, hptr⟩ := h.slot_of_returned hr
  obtain ⟨-, hlt, hlt'⟩ := (h.carved r.thread).slot_lt hx
  refine ⟨h.arenaCapacity, h.sized, h.territories, h.carved, fun u => ?_, h.slots, h.apart⟩
  refine (h.refines u).frame fun a ha => Function.update_of_ne ?_ _ _
  rintro rfl
  rw [← hslot, ← hptr] at ha
  exact (h.carved u).slot_not_link hlt hlt' ha

end

/-! ## Runs -/

section

variable {progs : Nat → List SlabStep} {s : SlabState} {t : Nat} {rest : List SlabStep}

theorem returned_consume (s : SlabState) (t : Nat) (hash : UInt64) :
    (s.step (t, .consume hash)).returned =
      s.returned ++ [⟨t, hash, (s.step (t, .consume hash)).entry t⟩] := by
  simp only [step, Function.update_self]

theorem Pending.consume (h : Pending progs s) {hash : UInt64}
    (hprog : progs t = .consume hash :: rest) :
    Pending (Function.update progs t rest) (s.step (t, .consume hash)) := by
  intro u
  by_cases hu : u = t
  · subst hu
    rcases h u with ⟨calls, hcalls⟩ | ⟨e, calls, hcalls, -⟩
    · rw [hprog] at hcalls
      cases calls with
      | nil => cases hcalls
      | cons c calls =>
        obtain ⟨-, hrest⟩ := List.cons.inj hcalls
        refine .inr ⟨c.2, calls, (Function.update_self ..).trans hrest,
          ⟨u, hash, (s.step (u, .consume hash)).entry u⟩, ?_, rfl⟩
        rw [returned_consume]
        exact List.mem_append_right _ List.mem_cons_self
    · rw [hprog] at hcalls
      cases hcalls
  · rw [Function.update_of_ne hu]
    refine (h u).imp id ?_
    rintro ⟨e, calls, hcalls, r, hr, hslot⟩
    exact ⟨e, calls, hcalls, r, List.mem_append_left _ hr,
      hslot.trans (Function.update_of_ne hu _ _).symm⟩

theorem Pending.store (h : Pending progs s) {e : Entry} (hprog : progs t = .store e :: rest) :
    (∃ r ∈ s.returned, r.slot = s.entry t) ∧
      Pending (Function.update progs t rest) (s.step (t, .store e)) := by
  rcases h t with ⟨calls, hcalls⟩ | ⟨e', calls, hcalls, hentry⟩
  · rw [hprog] at hcalls
    cases calls with
    | nil => cases hcalls
    | cons c calls => cases hcalls
  · refine ⟨hentry, fun u => ?_⟩
    by_cases hu : u = t
    · subst hu
      rw [hprog] at hcalls
      exact .inl ⟨calls, (Function.update_self ..).trans (List.cons.inj hcalls).2⟩
    · rw [Function.update_of_ne hu]
      exact h u

end

/-- What every turn keeps. -/
theorem inv_step {progs : Nat → List SlabStep} {s : SlabState}
    (h : (∃ cap larges smalls tlss, Inv cap larges smalls tlss s) ∧ Pending progs s) {t : Nat}
    {a : SlabStep} {rest : List SlabStep} (hprog : progs t = a :: rest) :
    (∃ cap larges smalls tlss, Inv cap larges smalls tlss (s.step (t, a))) ∧
      Pending (Function.update progs t rest) (s.step (t, a)) := by
  obtain ⟨⟨cap, larges, smalls, tlss, hinv⟩, hpending⟩ := h
  cases a with
  | consume hash => exact ⟨⟨cap, hinv.consume t hash⟩, hpending.consume hprog⟩
  | store e =>
    obtain ⟨hentry, hpending⟩ := hpending.store hprog
    exact ⟨⟨cap, larges, smalls, tlss, hinv.store e hentry⟩, hpending⟩

theorem Inv.start {g : GlobalAllocator} (h : g.Sized) (memory : Memory) :
    Inv g.arenaCapacity (fun _ => []) (fun _ _ => []) (fun _ => {})
      { global := g, memory := memory } where
  arenaCapacity := rfl
  sized := h
  territories := ⟨by simp, by simp⟩
  carved _ := ⟨rfl, fun _ => rfl, by simp, fun _ => rfl, fun _ _ => ⟨rfl, rfl⟩, by simp, by simp,
    fun _ => List.nodup_nil, by simp⟩
  refines _ := ⟨⟨rfl, rfl, rfl⟩, fun _ => ⟨rfl, rfl, rfl⟩, rfl⟩
  slots _ _ := List.Perm.nil
  apart := List.Pairwise.nil

/-- The calls that the steps make. -/
def callOf : Nat × SlabStep → Option (Nat × UInt64)
  | (t, .consume hash) => some (t, hash)
  | (_, .store _) => none

theorem returned_foldl (steps : List (Nat × SlabStep)) (s : SlabState) :
    (steps.foldl SlabState.step s).returned.map (fun r => (r.thread, r.hash)) =
      s.returned.map (fun r => (r.thread, r.hash)) ++ steps.filterMap callOf := by
  induction steps generalizing s with
  | nil => simp
  | cons x steps ih =>
    obtain ⟨t, a⟩ := x
    rw [List.foldl_cons, ih]
    cases a with
    | consume hash =>
      rw [returned_consume, List.map_append, List.append_assoc]
      rfl
    | store e =>
      rw [List.filterMap_cons_none rfl]
      rfl

theorem filter_callOf (t : Nat) (steps : List (Nat × SlabStep)) :
    (steps.filterMap callOf).filter (fun x => x.1 = t) =
      (steps.filter fun x => x.1 = t).filterMap callOf := by
  rw [List.filter_filterMap, List.filterMap_filter]
  apply List.filterMap_congr
  rintro ⟨u, a⟩ -
  cases a with
  | consume hash => by_cases hu : u = t <;> simp [callOf, hu]
  | store e => simp [callOf]

theorem filterMap_callOf (t : Nat) (calls : List (UInt64 × Entry)) :
    ((slabSteps calls).map (Prod.mk t)).filterMap callOf = calls.map fun c => (t, c.1) := by
  induction calls with
  | nil => rfl
  | cons c calls ih =>
    show (t, c.1) :: ((slabSteps calls).map (Prod.mk t)).filterMap callOf = _
    rw [ih]
    rfl

end SlabState

namespace Build

open SlabState

/-- Every call of every thread is made, in the thread's order. -/
theorem returned_hashes (b : Build) (global : GlobalAllocator) {t : Nat} (ht : t < b.numThreads) :
    ((b.run global).returned.filter fun r => r.thread = t).map Returned.hash =
      (b.calls t).map Prod.fst := by
  have hpairs := returned_foldl
    (complete b.numThreads (fun t => slabSteps (b.calls t)) b.schedule)
    { global := global.reset.reserve b.numChunks, memory := b.memory }
  have hfilter := congrArg (List.filter fun x : Nat × UInt64 => x.1 = t) hpairs
  rw [List.map_nil, List.nil_append, List.filter_map, filter_callOf, filter_complete _ _ ht,
    filterMap_callOf] at hfilter
  have hhashes := congrArg (List.map Prod.snd) hfilter
  rw [List.map_map, List.map_map] at hhashes
  exact hhashes

theorem run_inv (b : Build) {global : GlobalAllocator} (h : global.Sized) :
    ∃ cap larges smalls tlss, Inv cap larges smalls tlss (b.run global) := by
  have hstart : (global.reset.reserve b.numChunks).Sized :=
    GlobalAllocator.Sized.reserve (g := global.reset) h b.numChunks
  have hinit := Inv.start hstart b.memory
  exact (interleave_induction (I := fun progs s =>
      (∃ cap larges smalls tlss, Inv cap larges smalls tlss s) ∧ Pending progs s)
    (fun progs s t a rest h hprog => inv_step h hprog)
    (finish b.numThreads (fun t => slabSteps (b.calls t)) b.schedule)
    ⟨⟨_, _, _, _, hinit⟩, fun t => .inl ⟨b.calls t, rfl⟩⟩).1

theorem run_sized (b : Build) {global : GlobalAllocator} (h : global.Sized) :
    (b.run global).global.Sized := by
  obtain ⟨cap, larges, smalls, tlss, hinv⟩ := b.run_inv h
  exact hinv.sized

/-- After any builds with the same allocator, in whatever order the threads take their turns: the
next build is sound, and makes all calls. -/
theorem run_sound (earlier : List Build) (b : Build) :
    (b.run (earlier.foldl (fun g b => (b.run g).global) {})).Sound ∧
      ∀ t < b.numThreads,
        ((b.run (earlier.foldl (fun g b => (b.run g).global) {})).returned.filter
          fun r => r.thread = t).map Returned.hash = (b.calls t).map Prod.fst := by
  have hsized : ∀ g : GlobalAllocator, g.Sized →
      (earlier.foldl (fun g b => (b.run g).global) g).Sized := by
    induction earlier with
    | nil => exact fun g hg => hg
    | cons b' earlier ih => exact fun g hg => ih _ (b'.run_sized hg)
  have hg := hsized {} (Nat.le_refl _)
  obtain ⟨cap, larges, smalls, tlss, hinv⟩ := b.run_inv hg
  exact ⟨hinv.sound, fun t ht => b.returned_hashes _ ht⟩

end Build

end Linked

end HashJoin
