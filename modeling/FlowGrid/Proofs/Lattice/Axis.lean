import FlowGrid.Proofs.Lattice.Walk

/-! The two axes of the lattice. Vertices and headings have a part along each of them, and
a leg is a straight walk along one. A leg within the lattice that runs in a lane visits
free vertices only. -/

namespace FlowGrid.Lattice

inductive Axis
  | horizontal
  | vertical
deriving DecidableEq, Repr

def Axis.other : Axis → Axis
  | .horizontal => .vertical
  | .vertical => .horizontal

@[simp] theorem Axis.other_other (a : Axis) : a.other.other = a := by
  cases a <;> rfl

theorem Axis.ne_other (a : Axis) : a ≠ a.other := by
  cases a <;> decide

theorem Axis.eq_or_eq_other (a b : Axis) : b = a ∨ b = a.other := by
  cases a <;> cases b <;> decide

def Vertex.along (v : Vertex) : Axis → Int
  | .horizontal => v.x
  | .vertical => v.y

def Heading.along (h : Heading) : Axis → Int
  | .horizontal => h.dx
  | .vertical => h.dy

/-- The heading along the axis toward the sign of `d`. -/
def Axis.toward (a : Axis) (d : Int) : Heading :=
  match a with
  | .horizontal => ⟨d.sign, 0⟩
  | .vertical => ⟨0, d.sign⟩

/-- The walk along the axis by the distance `d`. -/
def Axis.leg (a : Axis) (d : Int) : List Heading := List.replicate d.natAbs (a.toward d)

/-- The walk along the axis from a vertex to the level of another one. -/
def Axis.legTo (a : Axis) (v w : Vertex) : List Heading := a.leg (w.along a - v.along a)

/-- The vertex with the given parts along the axis and along the other one. -/
def Vertex.ofAlong (a : Axis) (i j : Int) : Vertex :=
  match a with
  | .horizontal => ⟨i, j⟩
  | .vertical => ⟨j, i⟩

/-! ### Parts along an axis -/

theorem Vertex.along_ofAlong (a : Axis) (i j : Int) : (ofAlong a i j).along a = i := by
  cases a <;> rfl

theorem Vertex.along_other_ofAlong (a : Axis) (i j : Int) : (ofAlong a i j).along a.other = j := by
  cases a <;> rfl

theorem Vertex.exists_along (a : Axis) (i j : Int) :
    ∃ v : Vertex, v.along a = i ∧ v.along a.other = j :=
  ⟨.ofAlong a i j, along_ofAlong a i j, along_other_ofAlong a i j⟩

theorem Vertex.ext_along {v w : Vertex} (a : Axis) (h : v.along a = w.along a)
    (k : v.along a.other = w.along a.other) : v = w := by
  cases v
  cases w
  cases a <;> simp only [Vertex.along, Axis.other] at h k <;> rw [h, k]

theorem Vertex.along_move (v : Vertex) (h : Heading) (a : Axis) :
    (v.move h).along a = v.along a + h.along a := by
  cases a <;> rfl

theorem Vertex.along_after_replicate (v : Vertex) (n : Nat) (h : Heading) (a : Axis) :
    (v.after (List.replicate n h)).along a = v.along a + n * h.along a := by
  induction n generalizing v with
  | zero => simp only [List.replicate_zero, after, Int.natCast_zero, Int.zero_mul, Int.add_zero]
  | succ n ih =>
    rw [List.replicate_succ, after, ih, along_move, Int.natCast_add, Int.add_mul]
    omega

theorem Vertex.along_of_mem_visits_replicate {v u : Vertex} {n : Nat} {h : Heading}
    (hu : u ∈ v.visits (List.replicate n h)) :
    ∃ j : Nat, j ≤ n ∧ ∀ a, u.along a = v.along a + j * h.along a := by
  induction n generalizing v with
  | zero => cases hu
  | succ n ih =>
    rw [List.replicate_succ, visits] at hu
    rcases List.mem_cons.mp hu with rfl | hu
    · refine ⟨1, by omega, fun a => ?_⟩
      rw [along_move, Int.natCast_one, Int.one_mul]
    · obtain ⟨j, hj, ha⟩ := ih hu
      refine ⟨j + 1, by omega, fun a => ?_⟩
      rw [ha, along_move, Int.natCast_add, Int.add_mul]
      omega

namespace Axis

theorem along_toward (a : Axis) (d : Int) : (a.toward d).along a = d.sign := by
  cases a <;> rfl

theorem along_other_toward (a : Axis) (d : Int) : (a.toward d).along a.other = 0 := by
  cases a <;> rfl

theorem sign_cases {d : Int} (hd : d ≠ 0) : d.sign = 1 ∨ d.sign = -1 := by
  rcases Int.lt_or_gt_of_ne hd with h | h
  · exact .inr (Int.sign_eq_neg_one_of_neg h)
  · exact .inl (Int.sign_eq_one_of_pos h)

theorem toward_mem_steps (a : Axis) {d : Int} (hd : d ≠ 0) : a.toward d ∈ Heading.steps := by
  rcases sign_cases hd with h | h <;> cases a <;> simp only [toward, h] <;> decide

theorem reverse_toward (a : Axis) (d : Int) : (a.toward d).reverse = a.toward (-d) := by
  cases a <;> simp [toward, Heading.reverse]

theorem toward_ne_toward_other (a : Axis) {d : Int} (e : Int) (hd : d ≠ 0) :
    a.toward d ≠ a.other.toward e := by
  intro h
  have h0 : (a.other.toward e).along a = 0 := by
    have := along_other_toward a.other e
    rwa [other_other] at this
  rw [← h, along_toward] at h0
  rcases sign_cases hd with hs | hs <;> omega

theorem after_leg_along (v : Vertex) (a : Axis) (d : Int) :
    (v.after (a.leg d)).along a = v.along a + d := by
  rw [leg, Vertex.along_after_replicate, along_toward, Int.mul_comm, Int.sign_mul_natAbs]

theorem after_leg_along_other (v : Vertex) (a : Axis) (d : Int) :
    (v.after (a.leg d)).along a.other = v.along a.other := by
  rw [leg, Vertex.along_after_replicate, along_other_toward, Int.mul_zero, Int.add_zero]

theorem after_legTo {a : Axis} {v w : Vertex} (h : w.along a.other = v.along a.other) :
    v.after (a.legTo v w) = w := by
  apply Vertex.ext_along a
  · rw [legTo, after_leg_along]
    omega
  · rw [legTo, after_leg_along_other, h]

theorem length_leg (a : Axis) (d : Int) : (a.leg d).length = d.natAbs := List.length_replicate

theorem mem_steps_of_mem_leg {a : Axis} {d : Int} {h : Heading} (hh : h ∈ a.leg d) :
    h ∈ Heading.steps := by
  obtain ⟨hn, rfl⟩ := List.mem_replicate.mp hh
  exact a.toward_mem_steps (by omega)

end Axis

/-! ### Turns along runs of one heading -/

namespace Heading

theorem turns_replicate_self (h : Heading) (n : Nat) (l : List Heading) :
    h.turns (List.replicate n h ++ l) = h.turns l := by
  induction n with
  | zero => rfl
  | succ n ih => simp only [List.replicate_succ, List.cons_append, turns, if_true, ih, Nat.zero_add]

theorem turns_replicate_append (h p : Heading) (n : Nat) (l : List Heading) :
    h.turns (List.replicate (n + 1) p ++ l) = (if p = h then 0 else 1) + p.turns l := by
  rw [List.replicate_succ, List.cons_append, turns, turns_replicate_self]

theorem ne_reverse_of_mem_steps {h : Heading} (hh : h ∈ steps) : h ≠ h.reverse := by
  revert h
  decide

theorem forward_replicate_self {h : Heading} (hh : h ∈ steps) (n : Nat) (l : List Heading) :
    h.Forward (List.replicate n h ++ l) ↔ h.Forward l := by
  induction n with
  | zero => exact Iff.rfl
  | succ n ih =>
    simp only [List.replicate_succ, List.cons_append, Forward, ih, and_iff_right_iff_imp]
    exact fun _ => ne_reverse_of_mem_steps hh

theorem forward_replicate_append (h : Heading) {p : Heading} (hp : p ∈ steps) (n : Nat)
    (l : List Heading) :
    h.Forward (List.replicate (n + 1) p ++ l) ↔ p ≠ h.reverse ∧ p.Forward l := by
  rw [List.replicate_succ, List.cons_append, Forward, forward_replicate_self hp]

theorem turns_leg_append (h : Heading) (a : Axis) {d : Int} (hd : d ≠ 0) (l : List Heading) :
    h.turns (a.leg d ++ l) = (if a.toward d = h then 0 else 1) + (a.toward d).turns l := by
  obtain ⟨n, hn⟩ := Nat.exists_eq_succ_of_ne_zero (Int.natAbs_ne_zero.mpr hd)
  rw [Axis.leg, hn, turns_replicate_append]

theorem forward_leg_append (h : Heading) (a : Axis) {d : Int} (hd : d ≠ 0) (l : List Heading) :
    h.Forward (a.leg d ++ l) ↔ a.toward d ≠ h.reverse ∧ (a.toward d).Forward l := by
  obtain ⟨n, hn⟩ := Nat.exists_eq_succ_of_ne_zero (Int.natAbs_ne_zero.mpr hd)
  rw [Axis.leg, hn, forward_replicate_append h (a.toward_mem_steps hd)]

/-! ### The axis of a heading -/

theorem parts_of_mem_steps {h : Heading} (hh : h ∈ steps) :
    (h.dx = 0 ∧ (h.dy = 1 ∨ h.dy = -1)) ∨ (h.dy = 0 ∧ (h.dx = 1 ∨ h.dx = -1)) := by
  revert h
  decide

def axis (h : Heading) : Axis := if h.dy = 0 then .horizontal else .vertical

theorem axis_toward (a : Axis) {d : Int} (hd : d ≠ 0) : (a.toward d).axis = a := by
  rcases Axis.sign_cases hd with h | h <;> cases a <;> simp only [axis, Axis.toward, h] <;> rfl

/-- A step is a heading along its axis. -/
theorem eq_toward_of_mem_steps {h : Heading} (hh : h ∈ steps) :
    ∃ d : Int, d.natAbs = 1 ∧ h = h.axis.toward d := by
  have : h = h.axis.toward 1 ∨ h = h.axis.toward (-1) := by
    revert h
    decide
  rcases this with h | h
  · exact ⟨1, rfl, h⟩
  · exact ⟨-1, rfl, h⟩

theorem axis_ne_of_ne {h k : Heading} (hh : h ∈ steps) (hk : k ∈ steps) (hne : k ≠ h)
    (hr : k ≠ h.reverse) : k.axis = h.axis.other := by
  have hall : ∀ h ∈ steps, ∀ k ∈ steps, k ≠ h → k ≠ h.reverse → k.axis = h.axis.other := by
    decide
  exact hall h hh k hk hne hr

theorem eq_or_eq_reverse_of_axis {h k : Heading} (hh : h ∈ steps) (hk : k ∈ steps)
    (ha : k.axis = h.axis) : k = h ∨ k = h.reverse := by
  have hall : ∀ h ∈ steps, ∀ k ∈ steps, k.axis = h.axis → k = h ∨ k = h.reverse := by decide
  exact hall h hh k hk ha

/-- A turn goes to the other axis. -/
theorem turn_eq {h k : Heading} (hh : h ∈ steps) (hk : k ∈ steps) (hr : k ≠ h.reverse) :
    (if k = h then 0 else 1) = if k.axis = h.axis then 0 else 1 := by
  by_cases hkh : k = h
  · rw [if_pos hkh, if_pos (congrArg axis hkh)]
  · rw [if_neg hkh, axis_ne_of_ne hh hk hkh hr, if_neg h.axis.ne_other.symm]

/-- Turning an odd number of times changes the axis. -/
theorem turns_mod_two {h k : Heading} {l : List Heading} (hh : h ∈ steps)
    (hu : ∀ p ∈ l ++ [k], p ∈ steps) (hf : h.Forward (l ++ [k])) :
    h.turns (l ++ [k]) % 2 = if k.axis = h.axis then 0 else 1 := by
  induction l generalizing h with
  | nil =>
    rw [List.nil_append, turns, turns, turn_eq hh (hu k (.head _)) hf.1]
    split <;> rfl
  | cons p l ih =>
    have hp := hu p (.head _)
    have hi := ih hp (fun r hr => hu r (.tail _ hr)) hf.2
    rw [List.cons_append, turns, Nat.add_mod, hi, turn_eq hh hp hf.1]
    rcases Axis.eq_or_eq_other h.axis p.axis with ha | ha <;>
      rcases Axis.eq_or_eq_other h.axis k.axis with hb | hb <;>
      simp [ha, hb, Axis.ne_other, (Axis.ne_other _).symm]

end Heading

/-! ### Lanes -/

namespace Query

/-- How far the lattice reaches along an axis. -/
def limit (q : Query) : Axis → Int
  | .horizontal => 2 * q.grid.cols
  | .vertical => 2 * q.grid.rows

def Within (q : Query) (v : Vertex) : Prop := ∀ a, 0 ≤ v.along a ∧ v.along a ≤ q.limit a

variable {q : Query}

theorem Free.within {v : Vertex} (hf : q.Free v) : q.Within v
  | .horizontal => hf.1
  | .vertical => hf.2.1

/-- A vertex in a lane between cells is free. -/
theorem Within.free {v : Vertex} (hw : q.Within v) {a : Axis} (he : v.along a % 2 = 0) :
    q.Free v := by
  refine ⟨hw .horizontal, hw .vertical, ?_⟩
  rintro row col rfl
  cases a <;> simp only [Vertex.along, Vertex.ofCell] at he <;> omega

/-- A straight walk between two vertices within the lattice stays within it. -/
theorem Within.of_mem_visits {v : Vertex} {a : Axis} {n : Nat} {d : Int} (hv : q.Within v)
    (hw : q.Within (v.after (List.replicate n (a.toward d)))) {u : Vertex}
    (hu : u ∈ v.visits (List.replicate n (a.toward d))) : q.Within u := by
  obtain ⟨j, hj, hu⟩ := Vertex.along_of_mem_visits_replicate hu
  have hend := Vertex.along_after_replicate v n (a.toward d) a
  rw [Axis.along_toward] at hend
  intro b
  rcases Axis.eq_or_eq_other a b with rfl | rfl
  · have h0 := hv b
    have h1 := hw b
    rw [hend] at h1
    rw [hu, Axis.along_toward]
    by_cases hd : d = 0
    · subst hd
      simpa using h0
    · rcases Axis.sign_cases hd with hs | hs <;> rw [hs] at h1 ⊢ <;> omega
  · rw [hu, Axis.along_other_toward, Int.mul_zero, Int.add_zero]
    exact hv a.other

/-- A straight walk within the lattice that runs in a lane visits free vertices only. -/
theorem Within.free_of_mem_visits {v : Vertex} {a : Axis} {n : Nat} {d : Int} (hv : q.Within v)
    (hw : q.Within (v.after (List.replicate n (a.toward d)))) (he : v.along a.other % 2 = 0)
    {u : Vertex} (hu : u ∈ v.visits (List.replicate n (a.toward d))) : q.Free u := by
  refine (hv.of_mem_visits hw hu).free (a := a.other) ?_
  obtain ⟨j, -, hu⟩ := Vertex.along_of_mem_visits_replicate hu
  rwa [hu, Axis.along_other_toward, Int.mul_zero, Int.add_zero]

/-- The steps lead from `v` to `w` over free vertices. -/
structure Passes (q : Query) (v : Vertex) (steps : List Heading) (w : Vertex) : Prop where
  unit : ∀ h ∈ steps, h ∈ Heading.steps
  free : ∀ u ∈ v.visits steps, q.Free u
  arrives : v.after steps = w

theorem passes_append_iff {v w : Vertex} {a b : List Heading} :
    q.Passes v (a ++ b) w ↔ q.Passes v a (v.after a) ∧ q.Passes (v.after a) b w := by
  constructor
  · intro hp
    have hfree := hp.free
    have harrives := hp.arrives
    rw [Vertex.visits_append] at hfree
    rw [Vertex.after_append] at harrives
    exact ⟨⟨fun h hh => hp.unit h (List.mem_append.mpr (.inl hh)),
        fun u hu => hfree u (List.mem_append.mpr (.inl hu)), rfl⟩,
      ⟨fun h hh => hp.unit h (List.mem_append.mpr (.inr hh)),
        fun u hu => hfree u (List.mem_append.mpr (.inr hu)), harrives⟩⟩
  · rintro ⟨ha, hb⟩
    refine ⟨?_, ?_, ?_⟩
    · intro h hh
      exact (List.mem_append.mp hh).elim (ha.unit h) (hb.unit h)
    · intro u hu
      rw [Vertex.visits_append] at hu
      exact (List.mem_append.mp hu).elim (ha.free u) (hb.free u)
    · rw [Vertex.after_append]
      exact hb.arrives

theorem Passes.append {u v w : Vertex} {a b : List Heading} (ha : q.Passes u a v)
    (hb : q.Passes v b w) : q.Passes u (a ++ b) w := by
  obtain rfl := ha.arrives
  exact passes_append_iff.mpr ⟨ha, hb⟩

theorem isWalk_iff {steps : List Heading} : q.IsWalk steps ↔
    q.Passes q.start steps q.goal ∧ q.startHeading.Forward (steps ++ [q.goalHeading]) :=
  ⟨fun h => ⟨⟨h.unit, h.free, h.arrives⟩, h.forward⟩,
    fun h => ⟨h.1.unit, h.1.free, h.1.arrives, h.2⟩⟩

/-- A leg in a lane passes. -/
theorem Within.passes_legTo {v w : Vertex} {a : Axis} (hv : q.Within v) (hw : q.Within w)
    (h : w.along a.other = v.along a.other) (he : v.along a.other % 2 = 0) :
    q.Passes v (a.legTo v w) w where
  unit _ hh := Axis.mem_steps_of_mem_leg hh
  free _ hu := hv.free_of_mem_visits ((Axis.after_legTo h).symm ▸ hw) he hu
  arrives := Axis.after_legTo h

end Query
end FlowGrid.Lattice
