import HashJoin.HashTable

/-!
# The partitions of the entries

In whatever order the threads take their steps, each finds in its chunks of a partition the entries
it stored there, since no slot is handed out twice.
-/

namespace HashJoin

open Interleave ThreadLocalState

/-- The partition of an entry. -/
def Entry.partition (e : Entry) : Nat := partitionOf (crcHash e.key)

/-- Apart from pending slots, those in use in each partition hold the entries stored so far. -/
def Stored (cap : Nat) (smalls : Nat → List (Nat × Nat)) (counts : Nat → Nat)
    (memory : Ptr → Entry)
    (pending : Nat → List ((Nat × Nat) × Nat)) (stored : List Entry) : Prop :=
  ∀ p, ∃ others, (usedSlots (smalls p) (counts p)).Perm (pending p ++ others) ∧
    (others.map fun x => memory (slotPtr cap x.1 x.2)).Perm (stored.filter (·.partition = p))

/-- A thread has stored some of its entries, and may hold the slot for the next one. -/
inductive Progress (cap : Nat) (entries : List Entry) (smalls : Nat → List (Nat × Nat))
    (counts : Nat → Nat) (memory : Ptr → Entry) (entry : Ptr) : List PartitionStep → Prop where
  | idle (stored : List Entry) {rest : List Entry} : entries = stored ++ rest →
      Stored cap smalls counts memory (fun _ => []) stored →
      Progress cap entries smalls counts memory entry (partitionSteps rest)
  | holding {stored rest : List Entry} {e : Entry} {x : (Nat × Nat) × Nat} :
      entries = stored ++ e :: rest → entry = slotPtr cap x.1 x.2 →
      Stored cap smalls counts memory (fun p => if p = e.partition then [x] else []) stored →
      Progress cap entries smalls counts memory entry (.store e :: partitionSteps rest)

structure PartitionState.Inv (cap : Nat) (entries : Nat → List Entry) (larges : Nat → List Nat)
    (smalls : Nat → Nat → List (Nat × Nat)) (progs : Nat → List PartitionStep)
    (s : PartitionState) : Prop where
  arenaCapacity : s.global.arenaCapacity = cap
  carved : ∀ t, Carved cap (larges t) (smalls t) (s.threads t)
  below : ∀ t, ∀ L ∈ larges t, L < s.global.nextIdx
  apart : ∀ t u, t ≠ u → List.Disjoint (larges t) (larges u)
  progress : ∀ t, Progress cap (entries t) (smalls t) (s.threads t).counts s.memory (s.entry t)
    (progs t)

theorem Stored.congr {cap : Nat} {smalls : Nat → List (Nat × Nat)} {counts : Nat → Nat}
    {memory memory' : Ptr → Entry} {pending : Nat → List ((Nat × Nat) × Nat)} {stored : List Entry}
    (h : Stored cap smalls counts memory pending stored)
    (hmem : ∀ p, ∀ x ∈ usedSlots (smalls p) (counts p),
      memory' (slotPtr cap x.1 x.2) = memory (slotPtr cap x.1 x.2)) :
    Stored cap smalls counts memory' pending stored := by
  intro p
  obtain ⟨others, hperm, hothers⟩ := h p
  refine ⟨others, hperm, ?_⟩
  rwa [List.map_congr_left fun x hx =>
    hmem p x (hperm.mem_iff.mpr (List.mem_append_right _ hx))]

theorem Progress.congr {cap : Nat} {entries : List Entry} {smalls : Nat → List (Nat × Nat)}
    {counts : Nat → Nat} {memory memory' : Ptr → Entry} {entry : Ptr} {prog : List PartitionStep}
    (h : Progress cap entries smalls counts memory entry prog)
    (hmem : ∀ p, ∀ x ∈ usedSlots (smalls p) (counts p),
      memory' (slotPtr cap x.1 x.2) = memory (slotPtr cap x.1 x.2)) :
    Progress cap entries smalls counts memory' entry prog := by
  cases h with
  | idle stored hentries hstored => exact .idle stored hentries (hstored.congr hmem)
  | holding hentries hentry hstored => exact .holding hentries hentry (hstored.congr hmem)

/-- The slot that is pending is handed out, and not stored to. -/
theorem Stored.consume {cap : Nat} {smalls smalls' : Nat → List (Nat × Nat)}
    {counts counts' : Nat → Nat} {memory : Ptr → Entry} {stored : List Entry} {e : Entry}
    {x : (Nat × Nat) × Nat} (h : Stored cap smalls counts memory (fun _ => []) stored)
    (hperm : (usedSlots (smalls' e.partition) (counts' e.partition)).Perm
      (x :: usedSlots (smalls e.partition) (counts e.partition)))
    (hother : ∀ p, p ≠ e.partition → smalls' p = smalls p ∧ counts' p = counts p) :
    Stored cap smalls' counts' memory (fun p => if p = e.partition then [x] else []) stored := by
  intro p
  obtain ⟨others, hused, hothers⟩ := h p
  refine ⟨others, ?_, hothers⟩
  by_cases hp : p = e.partition
  · subst hp
    simpa using hperm.trans (hused.cons x)
  · rw [(hother p hp).1, (hother p hp).2]
    simpa [hp] using hused

/-- Storing to the pending slot. -/
theorem Stored.store {cap : Nat} {larges : List Nat} {smalls : Nat → List (Nat × Nat)}
    {tls : ThreadLocalState} {memory : Ptr → Entry} {stored : List Entry} {e : Entry}
    {x : (Nat × Nat) × Nat} (hcarved : Carved cap larges smalls tls)
    (h : Stored cap smalls tls.counts memory
      (fun p => if p = e.partition then [x] else []) stored) :
    Stored cap smalls tls.counts (Function.update memory (slotPtr cap x.1 x.2) e) (fun _ => [])
      (stored ++ [e]) := by
  intro p
  obtain ⟨others, hused, hothers⟩ := h p
  have hx : x ∈ usedSlots (smalls e.partition) (tls.counts e.partition) := by
    obtain ⟨others, hused, -⟩ := h e.partition
    exact hused.mem_iff.mpr (by simp)
  -- No other slot of the thread is the pending one.
  have hkeep : ∀ y ∈ others, Function.update memory (slotPtr cap x.1 x.2) e
      (slotPtr cap y.1 y.2) = memory (slotPtr cap y.1 y.2) := by
    intro y hy
    have hyused : y ∈ usedSlots (smalls p) (tls.counts p) :=
      hused.mem_iff.mpr (List.mem_append_right _ hy)
    refine Function.update_of_ne (fun heq => ?_) _ _
    obtain ⟨-, hy15, hy511⟩ := hcarved.slot_lt hyused
    obtain ⟨-, hx15, hx511⟩ := hcarved.slot_lt hx
    obtain ⟨h1, h2⟩ := slotPtr_inj hy15 hx15 hy511 hx511 heq
    have hyx : y = x := Prod.ext h1 h2
    subst hyx
    by_cases hp : p = e.partition
    · subst hp
      have hnodup := hused.nodup_iff.mp (nodup_usedSlots (hcarved.nodup _) _)
      simp only [if_true, List.singleton_append, List.nodup_cons] at hnodup
      exact hnodup.1 hy
    · exact hcarved.disjoint p e.partition hp (mem_usedSlots hyused) (mem_usedSlots hx)
  have hmap := List.map_congr_left hkeep
  by_cases hp : p = e.partition
  · subst hp
    refine ⟨x :: others, by simpa using hused, ?_⟩
    rw [List.map_cons, hmap, Function.update_self, List.filter_append, List.filter_singleton]
    simp only [decide_true, cond_true]
    exact (hothers.cons e).trans (List.perm_append_singleton e _).symm
  · refine ⟨others, by simpa [hp] using hused, ?_⟩
    rw [hmap, List.filter_append, List.filter_singleton]
    simpa [Ne.symm hp] using hothers

/-- Slots of two threads are apart. -/
theorem slotPtr_ne {cap : Nat} {larges larges' : List Nat} {smalls smalls' : Nat → List (Nat × Nat)}
    {tls tls' : ThreadLocalState} (h : Carved cap larges smalls tls)
    (h' : Carved cap larges' smalls' tls') (hapart : List.Disjoint larges larges') {p q : Nat}
    {x y : (Nat × Nat) × Nat} (hx : x ∈ usedSlots (smalls p) (tls.counts p))
    (hy : y ∈ usedSlots (smalls' q) (tls'.counts q)) :
    slotPtr cap x.1 x.2 ≠ slotPtr cap y.1 y.2 := by
  intro heq
  obtain ⟨hxl, hx15, hx511⟩ := h.slot_lt hx
  obtain ⟨hyl, hy15, hy511⟩ := h'.slot_lt hy
  obtain ⟨h1, -⟩ := slotPtr_inj hx15 hy15 hx511 hy511 heq
  exact hapart hxl (h1 ▸ hyl)

/-! ## The large chunks of the threads -/

theorem Grown.le {g g' : GlobalAllocator} {larges larges' : List Nat}
    (h : Grown g larges g' larges') : g.nextIdx ≤ g'.nextIdx := by
  rcases h.2 with ⟨heq, -⟩ | ⟨heq, -⟩ <;> omega

/-- The threads have large chunks of their own, all given out already. -/
structure Territories (nextIdx : Nat) (larges : Nat → List Nat) : Prop where
  below : ∀ t, ∀ L ∈ larges t, L < nextIdx
  apart : ∀ t u, t ≠ u → List.Disjoint (larges t) (larges u)

theorem Territories.next_not_mem {nextIdx : Nat} {larges : Nat → List Nat}
    (h : Territories nextIdx larges) (t : Nat) : nextIdx ∉ larges t :=
  fun hmem => absurd (h.below t _ hmem) (Nat.lt_irrefl _)

theorem Territories.grown {g g' : GlobalAllocator} {larges : Nat → List Nat} {newLarges : List Nat}
    {t : Nat} (h : Territories g.nextIdx larges) (hgrown : Grown g (larges t) g' newLarges) :
    Territories g'.nextIdx (Function.update larges t newLarges) := by
  have hnew : ∀ L ∈ newLarges, L ∈ larges t ∨ L = g.nextIdx ∧ g'.nextIdx = g.nextIdx + 1 := by
    intro L hL
    rcases hgrown.2 with ⟨-, heq⟩ | ⟨hidx, heq⟩
    · exact .inl (heq ▸ hL)
    · rw [heq] at hL
      rcases List.mem_cons.mp hL with hL | hL
      · exact .inr ⟨hL, hidx⟩
      · exact .inl hL
  refine ⟨fun u L hL => ?_, fun u v huv => ?_⟩
  · by_cases hu : u = t
    · subst hu
      rw [Function.update_self] at hL
      rcases hnew L hL with hL | ⟨rfl, hidx⟩
      · exact lt_of_lt_of_le (h.below u L hL) hgrown.le
      · exact hidx ▸ Nat.lt_succ_self _
    · rw [Function.update_of_ne hu] at hL
      exact lt_of_lt_of_le (h.below u L hL) hgrown.le
  · -- A chunk that was just allocated is below no other thread's counter.
    have key : ∀ v, v ≠ t → List.Disjoint newLarges (larges v) := by
      intro v hv L hL hLv
      rcases hnew L hL with hL | ⟨rfl, -⟩
      · exact h.apart t v (Ne.symm hv) hL hLv
      · exact h.next_not_mem v hLv
    by_cases hu : u = t
    · subst hu
      rw [Function.update_self, Function.update_of_ne (Ne.symm huv)]
      exact key v (Ne.symm huv)
    · rw [Function.update_of_ne hu]
      by_cases hv : v = t
      · subst hv
        rw [Function.update_self]
        exact (key u hu).symm
      · rw [Function.update_of_ne hv]
        exact h.apart u v huv

namespace PartitionState

variable {cap : Nat} {entries : Nat → List Entry} {larges : Nat → List Nat}
  {smalls : Nat → Nat → List (Nat × Nat)} {progs : Nat → List PartitionStep} {s : PartitionState}

theorem Inv.consume (h : Inv cap entries larges smalls progs s) {t : Nat} {e : Entry}
    {rest : List PartitionStep} (hprog : progs t = .consume e :: rest) :
    ∃ larges' smalls',
      Inv cap entries larges' smalls' (Function.update progs t rest) (s.step (t, .consume e)) := by
  have hterritories : Territories s.global.nextIdx larges := ⟨h.below, h.apart⟩
  obtain ⟨newLarges, newSmalls, x, hgrown, hcarved, hptr, hx, hlt, hperm, hother⟩ :=
    consume_ok (h.carved t) h.arenaCapacity (hterritories.next_not_mem t) (crcHash e.key)
  obtain ⟨hbelow, hapart⟩ := hterritories.grown hgrown
  refine ⟨Function.update larges t newLarges, Function.update smalls t newSmalls,
    hgrown.1.trans h.arenaCapacity, fun u => ?_, hbelow, hapart, fun u => ?_⟩
  · by_cases hu : u = t
    · subst hu
      simpa [step] using hcarved
    · simpa [step, Function.update_of_ne hu] using h.carved u
  · by_cases hu : u = t
    · subst hu
      have hprogress := h.progress u
      rw [hprog] at hprogress
      simp only [step, Function.update_self]
      generalize hsteps : PartitionStep.consume e :: rest = steps at hprogress
      cases hprogress with
      | @idle stored rest' hentries hstored =>
        cases rest' with
        | nil => simp [partitionSteps] at hsteps
        | cons e' rest' =>
          obtain ⟨he, hrest⟩ := List.cons.inj hsteps
          obtain rfl := PartitionStep.consume.inj he
          rw [hrest]
          exact .holding hentries hptr (hstored.consume hperm hother)
      | holding => exact absurd (List.cons.inj hsteps).1 nofun
    · simp only [step, Function.update_of_ne hu]
      exact h.progress u

theorem Inv.store (h : Inv cap entries larges smalls progs s) {t : Nat} {e : Entry}
    {rest : List PartitionStep} (hprog : progs t = .store e :: rest) :
    Inv cap entries larges smalls (Function.update progs t rest) (s.step (t, .store e)) := by
  have hprogress := h.progress t
  rw [hprog] at hprogress
  generalize hsteps : PartitionStep.store e :: rest = steps at hprogress
  cases hprogress with
  | @idle stored rest' hentries hstored =>
    cases rest' with
    | nil => simp [partitionSteps] at hsteps
    | cons e' rest' => exact absurd (List.cons.inj hsteps).1 nofun
  | @holding stored rest' e' x hentries hentry hstored =>
    obtain ⟨he, hrest⟩ := List.cons.inj hsteps
    obtain rfl := PartitionStep.store.inj he
    have hx : x ∈ usedSlots (smalls t e.partition) ((s.threads t).counts e.partition) := by
      obtain ⟨others, hused, -⟩ := hstored e.partition
      exact hused.mem_iff.mpr (by simp)
    refine ⟨h.arenaCapacity, h.carved, h.below, h.apart, fun u => ?_⟩
    by_cases hu : u = t
    · subst hu
      rw [Function.update_self, hrest]
      refine .idle (stored ++ [e]) (by simpa using hentries) ?_
      simp only [step, hentry]
      exact hstored.store (h.carved u)
    · rw [Function.update_of_ne hu]
      apply (h.progress u).congr
      intro p y hy
      simp only [step, hentry]
      exact Function.update_of_ne
        (slotPtr_ne (h.carved u) (h.carved t) (h.apart u t hu) hy hx) _ _

theorem inv_step (h : ∃ larges smalls, Inv cap entries larges smalls progs s) {t : Nat}
    {a : PartitionStep} {rest : List PartitionStep} (hprog : progs t = a :: rest) :
    ∃ larges smalls,
      Inv cap entries larges smalls (Function.update progs t rest) (s.step (t, a)) := by
  obtain ⟨larges, smalls, h⟩ := h
  cases a with
  | consume e => exact h.consume hprog
  | store e => exact ⟨larges, smalls, h.store hprog⟩

end PartitionState

/-- After the first phase each thread finds its entries, partition by partition. -/
theorem partitionRows_ok (env : BuildEnv) (numThreads : Nat) (global : GlobalAllocator)
    (entries : Nat → List Entry) {t : Nat} (ht : t < numThreads) (p : Nat) :
    ((entriesInPartition ((partitionRows env numThreads global entries).threads t) p).map
      (partitionRows env numThreads global entries).memory).Perm
        ((entries t).filter (·.partition = p)) ∧
    ((partitionRows env numThreads global entries).threads t).counts p =
      ((entries t).filter (·.partition = p)).length := by
  have hinit : ∃ larges smalls, PartitionState.Inv global.arenaCapacity entries larges smalls
      (fun t => partitionSteps (entries t))
      ⟨global, fun _ => {}, fun _ => {}, env.memory⟩ := by
    refine ⟨fun _ => [], fun _ _ => [], rfl, fun _ => ?_, by simp, by simp, fun t => ?_⟩
    · exact ⟨rfl, fun _ => rfl, by simp, fun _ => rfl, fun _ _ => ⟨rfl, rfl⟩, by simp, by simp,
        fun _ => List.nodup_nil, by simp⟩
    · exact .idle [] rfl fun p => ⟨[], by simp [usedSlots], by simp⟩
  obtain ⟨larges, smalls, h⟩ : ∃ larges smalls, PartitionState.Inv global.arenaCapacity entries
      larges smalls (fun t => (partitionSteps (entries t)).drop
        ((finish numThreads (fun t => partitionSteps (entries t)) env.partitioning).count t))
      (partitionRows env numThreads global entries) :=
    interleave_induction (I := fun progs s => ∃ larges smalls,
      PartitionState.Inv global.arenaCapacity entries larges smalls progs s)
      (fun progs s t a rest h hprog => PartitionState.inv_step h hprog) _ hinit
  have hprogress := h.progress t
  have hdone : (partitionSteps (entries t)).drop ((finish numThreads
      (fun t => partitionSteps (entries t)) env.partitioning).count t) = [] :=
    List.drop_eq_nil_iff.mpr
      (length_le_count_finish (fun t => partitionSteps (entries t)) env.partitioning ht)
  simp only [hdone] at hprogress
  generalize hsteps : ([] : List PartitionStep) = steps at hprogress
  cases hprogress with
  | holding => cases hsteps
  | @idle stored rest hentries hstored =>
    have hrest : rest = [] := by
      cases rest with
      | nil => rfl
      | cons e rest => simp [partitionSteps] at hsteps
    rw [hrest, List.append_nil] at hentries
    obtain ⟨others, hused, hothers⟩ := hstored p
    rw [List.nil_append] at hused
    rw [← hentries] at hothers
    have hperm := (hused.map fun x : (Nat × Nat) × Nat =>
      (partitionRows env numThreads global entries).memory
        (slotPtr global.arenaCapacity x.1 x.2)).trans hothers
    constructor
    · rw [entriesInPartition_eq (h.carved t) p, List.map_map]
      exact hperm
    · have hlen := hperm.length_eq
      rw [List.length_map, (h.carved t).length_usedSlots p] at hlen
      exact hlen

end HashJoin
