import HashJoin.JoinUnion

/-!
# Disjoint sets under any calls

The parents of a `DSU` form a forest, whatever calls of `find` and `unite` were made. `find` returns
the root above a number and leaves the roots of all numbers as they are, and two numbers have the
same root if and only if the pairs united so far relate them.
-/

namespace HashJoin

open UnionFind

namespace DSU

/-! ## The forest -/

/-- `p` is the parent of `x`. A root is its own parent. -/
def Parent (dsu : DSU) (x p : Nat) : Prop := dsu.pa[x]? = some p

def IsRoot (dsu : DSU) (x : Nat) : Prop := dsu.Parent x x

/-- The parents lead from `x` to the root `r`. -/
def RootOf (dsu : DSU) (x r : Nat) : Prop := Relation.ReflTransGen dsu.Parent x r ∧ dsu.IsRoot r

/-- The parents are numbers of the structure, and only roots lie on cycles. -/
structure Forest (dsu : DSU) : Prop where
  inside : ∀ x p, dsu.Parent x p → p < dsu.pa.length
  acyclic : ∀ x, Relation.TransGen dsu.Parent x x → dsu.IsRoot x

section

variable {dsu : DSU} {rep depth : Nat → Nat}

theorem Parent.lt {x p : Nat} (h : dsu.Parent x p) : x < dsu.pa.length :=
  (List.getElem?_eq_some_iff.mp h).1

/-- A step to the parent stays at a root, or comes nearer to the representative. -/
theorem Represents.step (h : dsu.Represents rep depth) {x p : Nat} (hp : dsu.Parent x p) :
    p < dsu.pa.length ∧ rep p = rep x ∧ (p = x ∨ depth p < depth x) := by
  obtain ⟨p', hp', hlt, hrep, -, hdepth⟩ := h.parent x hp.lt
  obtain rfl : p = p' := Option.some.inj (hp.symm.trans hp')
  refine ⟨hlt, hrep, ?_⟩
  by_cases hpx : p = x
  · exact .inl hpx
  · exact .inr (hdepth hpx)

theorem Represents.rep_of_isRoot (h : dsu.Represents rep depth) {r : Nat} (hr : dsu.IsRoot r) :
    rep r = r := by
  obtain ⟨p, hp, -, -, hroot, -⟩ := h.parent r hr.lt
  exact hroot (Option.some.inj (hp.symm.trans hr))

theorem Represents.isRoot_rep (h : dsu.Represents rep depth) {x : Nat} (hx : x < dsu.pa.length) :
    dsu.IsRoot (rep x) := by
  have hlt := h.inside x hx
  obtain ⟨p, hp, hplt, hrep, -, hdepth⟩ := h.parent (rep x) hlt
  by_cases hpx : p = rep x
  · rwa [hpx] at hp
  · -- the representative of the parent would be nearer to itself
    have hless := hdepth hpx
    rw [h.idempotent] at hrep
    rcases h.depth_rep hplt with hself | hnear
    · exact absurd (hself.symm.trans hrep) hpx
    · rw [hrep] at hnear
      omega

theorem Represents.forest (h : dsu.Represents rep depth) : dsu.Forest := by
  refine ⟨fun x p hp => (h.step hp).1, fun x hcycle => ?_⟩
  have hpath : ∀ y, Relation.TransGen dsu.Parent x y →
      (y = x ∧ dsu.IsRoot x) ∨ depth y < depth x := by
    intro y hy
    induction hy with
    | single hp =>
      rcases (h.step hp).2.2 with rfl | hless
      · exact .inl ⟨rfl, hp⟩
      · exact .inr hless
    | tail _ hp ih =>
      rcases ih with ⟨rfl, hroot⟩ | hless
      · exact .inl ⟨Option.some.inj (hp.symm.trans hroot), hroot⟩
      · rcases (h.step hp).2.2 with rfl | hless'
        · exact .inr hless
        · exact .inr (hless'.trans hless)
  rcases hpath x hcycle with ⟨-, hroot⟩ | hless
  · exact hroot
  · exact absurd hless (lt_irrefl _)

/-- The root above a number is its representative. -/
theorem Represents.rootOf_iff (h : dsu.Represents rep depth) {x r : Nat} :
    dsu.RootOf x r ↔ x < dsu.pa.length ∧ rep x = r := by
  constructor
  · rintro ⟨hpath, hroot⟩
    induction hpath using Relation.ReflTransGen.head_induction_on with
    | refl => exact ⟨hroot.lt, h.rep_of_isRoot hroot⟩
    | head hp _ ih => exact ⟨hp.lt, (h.step hp).2.1.symm.trans ih.2⟩
  · rintro ⟨hx, rfl⟩
    refine ⟨?_, h.isRoot_rep hx⟩
    obtain ⟨d, hd⟩ : ∃ d, depth x = d := ⟨_, rfl⟩
    induction d using Nat.strong_induction_on generalizing x with
    | _ d ih =>
      obtain ⟨p, hp, hplt, hrep, hroot, hdepth⟩ := h.parent x hx
      by_cases hpx : p = x
      · rw [hroot hpx]
      · rw [← hrep]
        exact .head hp (ih (depth p) (hd ▸ hdepth hpx) hplt rfl)

/-- `find` returns the root, and the roots stay. -/
theorem Represents.find_rootOf (h : dsu.Represents rep depth) {x : Nat} (hx : x < dsu.pa.length) :
    ∃ root dsu', dsu.find x = .ok (root, dsu') ∧ dsu.RootOf x root ∧
      ∀ y r, dsu'.RootOf y r ↔ dsu.RootOf y r := by
  obtain ⟨dsu', hfind, hlen, h'⟩ := h.find hx
  refine ⟨rep x, dsu', hfind, h.rootOf_iff.mpr ⟨hx, rfl⟩, fun y r => ?_⟩
  rw [h'.rootOf_iff, h.rootOf_iff, hlen]

end

/-! ## Calls -/

/-- A call of a method with its arguments. -/
inductive Call where
  | unite (x y : Nat)
  | find (x : Nat)

/-- The arguments are below `n`. -/
def Call.Below (n : Nat) : Call → Prop
  | .unite x y => x < n ∧ y < n
  | .find x => x < n

def call (dsu : DSU) : Call → Except Fault DSU
  | .unite x y => dsu.unite x y
  | .find x => (dsu.find x).map Prod.snd

/-- The pair that a call unites. -/
def Call.pair : Call → Option (Nat × Nat)
  | .unite x y => some (x, y)
  | .find _ => none

theorem Represents.call {dsu : DSU} {rep depth : Nat → Nat} (h : dsu.Represents rep depth)
    {c : Call} (hc : c.Below dsu.pa.length) : ∃ dsu' depth', dsu.call c = .ok dsu' ∧
      dsu'.pa.length = dsu.pa.length ∧
      dsu'.Represents (uniteAll rep c.pair.toList) depth' := by
  cases c with
  | unite x y => exact h.unite hc.1 hc.2
  | find x =>
    obtain ⟨dsu', hfind, hlen, h'⟩ := h.find hc
    refine ⟨dsu', depth, ?_, hlen, h'⟩
    show (dsu.find x).map Prod.snd = .ok dsu'
    rw [hfind]
    rfl

theorem Represents.calls {dsu : DSU} {rep depth : Nat → Nat} (h : dsu.Represents rep depth)
    {calls : List Call} (hcalls : ∀ c ∈ calls, c.Below dsu.pa.length) : ∃ dsu' depth',
      calls.foldlM DSU.call dsu = .ok dsu' ∧ dsu'.pa.length = dsu.pa.length ∧
      dsu'.Represents (uniteAll rep (calls.filterMap Call.pair)) depth' := by
  induction calls generalizing dsu rep depth with
  | nil => exact ⟨dsu, depth, rfl, rfl, h⟩
  | cons c calls ih =>
    rw [List.forall_mem_cons] at hcalls
    obtain ⟨dsu₁, depth₁, hcall, hlen, h₁⟩ := h.call hcalls.1
    obtain ⟨dsu₂, depth₂, hrun, hlen', h₂⟩ := ih h₁ (hlen ▸ hcalls.2)
    refine ⟨dsu₂, depth₂, ?_, hlen'.trans hlen, ?_⟩
    · rw [List.foldlM_cons, hcall, ok_bind, hrun]
    · have hpairs : (c :: calls).filterMap Call.pair =
          c.pair.toList ++ calls.filterMap Call.pair := by
        cases hpair : c.pair <;> simp [hpair]
      rwa [hpairs, uniteAll_append]

/-- What holds after calls that united `pairs`. `find` is called for two numbers one after the
other. -/
structure Generated (dsu : DSU) (n : Nat) (pairs : List (Nat × Nat)) : Prop where
  length : dsu.pa.length = n
  forest : dsu.Forest
  find : ∀ x < n, ∃ root dsu', dsu.find x = .ok (root, dsu') ∧ dsu.RootOf x root ∧
    ∀ y r, dsu'.RootOf y r ↔ dsu.RootOf y r
  same : ∀ x < n, ∀ y < n, ∃ rootX dsu₁ rootY dsu₂, dsu.find x = .ok (rootX, dsu₁) ∧
    dsu₁.find y = .ok (rootY, dsu₂) ∧
    (rootX = rootY ↔ Relation.EqvGen (fun a b => (a, b) ∈ pairs) x y)

/-- After any calls on new sets the classes are those of the united pairs. -/
theorem calls_generated {n : Nat} {calls : List Call} (hcalls : ∀ c ∈ calls, c.Below n) :
    ∃ dsu, calls.foldlM call (new n) = .ok dsu ∧ dsu.Generated n (calls.filterMap Call.pair) := by
  have hnew : (new n).pa.length = n := List.length_range
  obtain ⟨dsu, depth, hrun, hlen, h⟩ := (Represents.new n).calls (hnew.symm ▸ hcalls)
  rw [hnew] at hlen
  refine ⟨dsu, hrun, hlen, h.forest, fun x hx => h.find_rootOf (hlen.symm ▸ hx), ?_⟩
  intro x hx y hy
  obtain ⟨dsu₁, hfindx, hlen₁, h₁⟩ := h.find (hlen.symm ▸ hx)
  obtain ⟨dsu₂, hfindy, -, -⟩ := h₁.find (hlen₁.symm ▸ hlen.symm ▸ hy)
  exact ⟨_, dsu₁, _, dsu₂, hfindx, hfindy, uniteAll_id_iff⟩

/-- Three numbers, the first two united. -/
theorem calls_generated_three :
    ∃ dsu, [Call.unite 0 1, .find 0, .unite 0 0].foldlM call (new 3) = .ok dsu ∧
      dsu.Generated 3 [(0, 1), (0, 0)] :=
  calls_generated (by simp [Call.Below])

end DSU

end HashJoin
