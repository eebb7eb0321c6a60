import Mathlib.Data.Finset.Card
import Mathlib.Logic.Relation
import Mathlib.Tactic

/-!
# Classes by representatives

A partition given by a representative of each element. `unite` merges two classes, and takes away
one representative if they are different. Two partitions of which one is finer are the same if they
have as many representatives.
-/

namespace HashJoin.UnionFind

variable {α : Type} [DecidableEq α]

/-- The class of `a` joins that of `b`. -/
def unite (rep : α → α) (a b : α) : α → α := fun x => if rep x = rep a then rep b else rep x

/-- The classes of the pairs of a list are merged one pair after the other. -/
def uniteAll (rep : α → α) (pairs : List (α × α)) : α → α :=
  pairs.foldl (fun rep pair => unite rep pair.1 pair.2) rep

/-- The representative of a representative is itself. -/
def Idempotent (rep : α → α) : Prop := ∀ x, rep (rep x) = rep x

section

variable {rep : α → α} {a b x y : α}

theorem unite_of_eq (h : rep x = rep a) : unite rep a b x = rep b := if_pos h

theorem unite_of_ne (h : rep x ≠ rep a) : unite rep a b x = rep x := if_neg h

theorem unite_eq_or (rep : α → α) (a b x : α) :
    unite rep a b x = rep b ∨ unite rep a b x = rep x := by
  unfold unite
  split
  · exact .inl rfl
  · exact .inr rfl

/-- Elements of one class stay together. -/
theorem unite_congr (h : rep x = rep y) : unite rep a b x = unite rep a b y := by
  unfold unite
  rw [h]

/-- The two elements are together. -/
theorem unite_self (rep : α → α) (a b : α) : unite rep a b a = unite rep a b b := by
  rw [unite_of_eq rfl]
  by_cases h : rep b = rep a
  · rw [unite_of_eq h]
  · rw [unite_of_ne h]

theorem Idempotent.unite (h : Idempotent rep) (a b : α) : Idempotent (unite rep a b) := by
  intro x
  by_cases hx : rep x = rep a
  · rw [unite_of_eq hx]
    by_cases hb : rep (rep b) = rep a
    · rw [unite_of_eq hb]
    · rw [unite_of_ne hb, h b]
  · rw [unite_of_ne hx, unite_of_ne (by rwa [h x]), h x]

/-- An equivalence that holds inside the classes and of the two elements holds inside the new
classes. -/
theorem unite_le {R : α → α → Prop} (hR : Equivalence R) (hrep : ∀ x y, rep x = rep y → R x y)
    (hab : R a b) (h : unite rep a b x = unite rep a b y) : R x y := by
  by_cases hx : rep x = rep a
  · by_cases hy : rep y = rep a
    · exact hrep x y (hx.trans hy.symm)
    · rw [unite_of_eq hx, unite_of_ne hy] at h
      exact hR.trans (hrep x a hx) (hR.trans hab (hrep b y h))
  · by_cases hy : rep y = rep a
    · rw [unite_of_ne hx, unite_of_eq hy] at h
      exact hR.trans (hrep x b h) (hR.trans (hR.symm hab) (hR.symm (hrep y a hy)))
    · rw [unite_of_ne hx, unite_of_ne hy] at h
      exact hrep x y h

end

section

variable {rep : α → α} {x y : α}

@[simp] theorem uniteAll_nil (rep : α → α) : uniteAll rep [] = rep := rfl

theorem uniteAll_append (rep : α → α) (l m : List (α × α)) :
    uniteAll rep (l ++ m) = uniteAll (uniteAll rep l) m := by
  simp [uniteAll]

theorem Idempotent.uniteAll (h : Idempotent rep) (pairs : List (α × α)) :
    Idempotent (uniteAll rep pairs) := by
  induction pairs generalizing rep with
  | nil => exact h
  | cons pair pairs ih => exact ih (h.unite pair.1 pair.2)

theorem uniteAll_congr (pairs : List (α × α)) (h : rep x = rep y) :
    uniteAll rep pairs x = uniteAll rep pairs y := by
  induction pairs generalizing rep with
  | nil => exact h
  | cons pair pairs ih => exact ih (unite_congr h)

/-- The elements of each pair are together. -/
theorem uniteAll_mem {pairs : List (α × α)} {pair : α × α} (h : pair ∈ pairs) :
    uniteAll rep pairs pair.1 = uniteAll rep pairs pair.2 := by
  induction pairs generalizing rep with
  | nil => cases h
  | cons pair' pairs ih =>
    rcases List.mem_cons.mp h with rfl | h
    · exact uniteAll_congr pairs (unite_self rep pair.1 pair.2)
    · exact ih h

/-- The classes are the smallest with the pairs inside. -/
theorem uniteAll_le {R : α → α → Prop} (hR : Equivalence R) (hrep : ∀ x y, rep x = rep y → R x y)
    {pairs : List (α × α)} (hpairs : ∀ pair ∈ pairs, R pair.1 pair.2)
    (h : uniteAll rep pairs x = uniteAll rep pairs y) : R x y := by
  induction pairs generalizing rep with
  | nil => exact hrep x y h
  | cons pair pairs ih =>
    rw [List.forall_mem_cons] at hpairs
    exact ih (fun x y => unite_le hR hrep hpairs.1) hpairs.2 h

/-- From single elements on, the classes are those of the equivalence that the pairs generate. -/
theorem uniteAll_id_iff {pairs : List (α × α)} : uniteAll id pairs x = uniteAll id pairs y ↔
    Relation.EqvGen (fun a b => (a, b) ∈ pairs) x y := by
  constructor
  · apply uniteAll_le (Relation.EqvGen.is_equivalence _)
    · rintro x _ rfl
      exact .refl x
    · exact fun pair hpair => .rel pair.1 pair.2 hpair
  · intro h
    induction h with
    | rel a b hab => exact uniteAll_mem hab
    | refl a => rfl
    | symm a b _ ih => exact ih.symm
    | trans a b c _ _ ihab ihbc => exact ihab.trans ihbc

end

/-! ## Counting classes -/

/-- The elements of a set that represent their class. -/
def roots (s : Finset α) (rep : α → α) : Finset α := s.filter fun x => rep x = x

section

variable {s : Finset α} {rep : α → α}

theorem mem_roots {x : α} : x ∈ roots s rep ↔ x ∈ s ∧ rep x = x := Finset.mem_filter

theorem roots_id (s : Finset α) : roots s id = s := by
  simp [roots]

/-- Uniting two classes leaves one representative less. -/
theorem card_roots_unite (h : Idempotent rep) (hs : ∀ x ∈ s, rep x ∈ s) {a b : α} (ha : a ∈ s)
    (hab : rep a ≠ rep b) : (roots s (unite rep a b)).card + 1 = (roots s rep).card := by
  have herase : roots s (unite rep a b) = (roots s rep).erase (rep a) := by
    ext x
    rw [mem_roots, Finset.mem_erase, mem_roots]
    by_cases hx : rep x = rep a
    · rw [unite_of_eq hx]
      constructor
      · rintro ⟨-, rfl⟩
        exact absurd (hx.symm.trans (h b)) hab
      · rintro ⟨hne, -, hroot⟩
        exact absurd (hroot.symm.trans hx) hne
    · rw [unite_of_ne hx]
      constructor
      · rintro ⟨hmem, hroot⟩
        refine ⟨fun heq => hx ?_, hmem, hroot⟩
        rw [heq, h a]
      · rintro ⟨-, hmem, hroot⟩
        exact ⟨hmem, hroot⟩
  rw [herase]
  exact Finset.card_erase_add_one (mem_roots.mpr ⟨hs a ha, h a⟩)

section

variable {rep' : α → α} (h : Idempotent rep) (h' : Idempotent rep') (hs : ∀ x ∈ s, rep x ∈ s)
  (hs' : ∀ x ∈ s, rep' x ∈ s) (hfiner : ∀ x ∈ s, ∀ y ∈ s, rep x = rep y → rep' x = rep' y)
include h hs hfiner

/-- The class of a representative of the coarser partition has one of the finer. -/
theorem exists_root {w : α} (hw : w ∈ roots s rep') : ∃ z ∈ roots s rep, rep' z = w := by
  obtain ⟨hws, hroot⟩ := mem_roots.mp hw
  exact ⟨rep w, mem_roots.mpr ⟨hs w hws, h w⟩,
    (hfiner _ (hs w hws) _ hws (h w)).trans hroot⟩

/-- A finer partition has at least as many classes. -/
theorem card_roots_le : (roots s rep').card ≤ (roots s rep).card := by
  apply Finset.card_le_card_of_surjOn rep'
  intro w hw
  obtain ⟨z, hz, hzw⟩ := exists_root h hs hfiner hw
  exact ⟨z, hz, hzw⟩

include h' hs'

/-- A finer partition with as many classes is the same. -/
theorem eq_of_card_roots_le (hcard : (roots s rep).card ≤ (roots s rep').card) {x y : α}
    (hx : x ∈ s) (hy : y ∈ s) (hxy : rep' x = rep' y) : rep x = rep y := by
  have hmaps : ∀ z ∈ roots s rep, rep' z ∈ roots s rep' := fun z hz =>
    mem_roots.mpr ⟨hs' z (mem_roots.mp hz).1, h' z⟩
  have hsurj : ∀ w ∈ roots s rep', ∃ z, ∃ _ : z ∈ roots s rep, rep' z = w := fun w hw => by
    obtain ⟨z, hz, hzw⟩ := exists_root h hs hfiner hw
    exact ⟨z, hz, hzw⟩
  have hroot : ∀ z ∈ s, rep z ∈ roots s rep := fun z hz => mem_roots.mpr ⟨hs z hz, h z⟩
  have hrep : ∀ z ∈ s, rep' (rep z) = rep' z := fun z hz => hfiner _ (hs z hz) _ hz (h z)
  refine Finset.inj_on_of_surj_on_of_card_le (fun z _ => rep' z) hmaps hsurj hcard (hroot x hx)
    (hroot y hy) ?_
  exact (hrep x hx).trans (hxy.trans (hrep y hy).symm)

end

end

theorem uniteAll_mem_of_mem {s : Finset α} {rep : α → α} (hs : ∀ x ∈ s, rep x ∈ s)
    {pairs : List (α × α)} (hpairs : ∀ pair ∈ pairs, pair.2 ∈ s) {x : α} (hx : x ∈ s) :
    uniteAll rep pairs x ∈ s := by
  induction pairs generalizing rep with
  | nil => exact hs x hx
  | cons pair pairs ih =>
    rw [List.forall_mem_cons] at hpairs
    refine ih (fun y hy => ?_) hpairs.2
    show unite rep pair.1 pair.2 y ∈ s
    rcases unite_eq_or rep pair.1 pair.2 y with heq | heq
    · rw [heq]
      exact hs _ hpairs.1
    · rw [heq]
      exact hs y hy

/-! ## Parts joined two at a time -/

/-- Pairs that join the parts of a list to one, each between two of the parts joined so far. -/
inductive JoinTree {ι : Type} (part : α → ι) : List ι → List (α × α) → Prop
  | part (i : ι) : JoinTree part [i] []
  | join {left right : List ι} {l r : List (α × α)} {a b : α} (hl : JoinTree part left l)
      (hr : JoinTree part right r) (ha : part a ∈ left) (hb : part b ∈ right) :
      JoinTree part (left ++ right) (l ++ r ++ [(a, b)])

/-- Each pair of a join tree takes one class away, if no class goes across parts before. Outside the
parts nothing changes. -/
theorem JoinTree.card_roots {ι : Type} {part : α → ι} {parts : List ι} {pairs : List (α × α)}
    (htree : JoinTree part parts pairs) (hnodup : parts.Nodup) {s : Finset α}
    (hpairs : ∀ pair ∈ pairs, pair.1 ∈ s ∧ pair.2 ∈ s) {rep : α → α} (h : Idempotent rep)
    (hs : ∀ x ∈ s, rep x ∈ s) (hin : ∀ x, part x ∈ parts → rep x = x)
    (hout : ∀ x, part x ∉ parts → part (rep x) ∉ parts) :
    (roots s (uniteAll rep pairs)).card + parts.length = (roots s rep).card + 1 ∧
      (∀ x, part x ∈ parts → part (uniteAll rep pairs x) ∈ parts) ∧
      ∀ x, part x ∉ parts → uniteAll rep pairs x = rep x := by
  induction htree generalizing rep with
  | part i => exact ⟨rfl, fun x hx => by rwa [uniteAll_nil, hin x hx], fun _ _ => rfl⟩
  | @join left right l r a b _ _ ha hb ihl ihr =>
    obtain ⟨hnodupl, hnodupr, hdisj⟩ := List.nodup_append'.mp hnodup
    simp only [List.forall_mem_append, List.forall_mem_singleton] at hpairs
    obtain ⟨⟨hpairsl, hpairsr⟩, has, hbs⟩ := hpairs
    simp only [List.mem_append, not_or] at hin hout ⊢
    -- the pairs of the left parts
    obtain ⟨hcardl, hinl, houtl⟩ := ihl hnodupl hpairsl h hs (fun x hx => hin x (.inl hx))
      fun x hx => by
        by_cases hxr : part x ∈ right
        · rwa [hin x (.inr hxr)]
        · exact (hout x ⟨hx, hxr⟩).1
    obtain ⟨repl, hrepl⟩ : ∃ repl, uniteAll rep l = repl := ⟨_, rfl⟩
    rw [hrepl] at hcardl hinl houtl
    have hl : Idempotent repl := hrepl ▸ h.uniteAll l
    have hsl : ∀ x ∈ s, repl x ∈ s := fun x hx =>
      hrepl ▸ uniteAll_mem_of_mem hs (fun pair hp => (hpairsl pair hp).2) hx
    -- and then those of the right parts
    obtain ⟨hcardr, hinr, houtr⟩ := ihr hnodupr hpairsr hl hsl
      (fun x hx => by rw [houtl x fun hxl => hdisj hxl hx, hin x (.inr hx)])
      fun x hx => by
        by_cases hxl : part x ∈ left
        · exact fun hmem => hdisj (hinl x hxl) hmem
        · rw [houtl x hxl]
          exact (hout x ⟨hxl, hx⟩).2
    obtain ⟨repr, hrepr⟩ : ∃ repr, uniteAll repl r = repr := ⟨_, rfl⟩
    rw [hrepr] at hcardr hinr houtr
    have hr : Idempotent repr := hrepr ▸ hl.uniteAll r
    have hsr : ∀ x ∈ s, repr x ∈ s := fun x hx =>
      hrepr ▸ uniteAll_mem_of_mem hsl (fun pair hp => (hpairsr pair hp).2) hx
    -- the last pair is between two classes, one on each side
    have haleft : part (repr a) ∈ left := by
      rw [houtr a fun har => hdisj ha har]
      exact hinl a ha
    have hbright : part (repr b) ∈ right := hinr b hb
    have hab : repr a ≠ repr b := fun heq => hdisj haleft (heq ▸ hbright)
    have hall : uniteAll rep (l ++ r ++ [(a, b)]) = unite repr a b := by
      rw [uniteAll_append, uniteAll_append, hrepl, hrepr]
      rfl
    have hsame : ∀ x, part x ∈ left → repr x = repl x := fun x hx =>
      houtr x fun hxr => hdisj hx hxr
    rw [hall]
    refine ⟨?_, fun x hx => ?_, fun x hx => ?_⟩
    · have hcard := card_roots_unite hr hsr has hab
      rw [List.length_append]
      omega
    · rcases unite_eq_or repr a b x with heq | heq
      · rw [heq]
        exact .inr hbright
      · rw [heq]
        rcases hx with hx | hx
        · rw [hsame x hx]
          exact .inl (hinl x hx)
        · exact .inr (hinr x hx)
    · have hrx : repr x = rep x := by rw [houtr x hx.2, houtl x hx.1]
      rw [unite_of_ne fun heq => (hout x hx).1 (by rw [← hrx, heq]; exact haleft), hrx]

end HashJoin.UnionFind
