import RegPath.Proofs.Conic

namespace RegPath

/-!
# Interior points have an entry for each unknown

If the interior point method ends with a point, accurate or not, that has an entry for each unknown:
no vector is cut short on the way, neither by the scaling nor by a step.  So the points of the
backend that runs it have an entry for each column of the model.

* `Minimise.Program.length_next?`, `Minimise.Program.sized_search` — a step keeps the number of
  entries, and so does the method from its first point on;
* `Minimise.Program.Square`, `Minimise.Program.Square.equilibrate` — programs whose coefficients are
  all there, which scaling keeps;
* `Minimise.Program.Square.sized_interiorPoint` — what the method ends with;
* `Conic.Backend.shaped_interior` — the backend that runs the method on models.
-/

variable {α : Type} [Scalar α]

namespace Minimise

/-! ### Systems -/

/-- An improved solution is as long as the first one. -/
theorem length_improve {matrix : List (List α)} {solve : List α → List α} {rhs : List α}
    {tolerance : α} {n k : Nat} (hsolve : ∀ r, (solve r).length = n) {x e y : List α}
    (hx : x.length = n) (h : improve matrix solve rhs tolerance k x e = some y) :
    y.length = n := by
  induction k generalizing x e with
  | zero =>
    obtain rfl := Option.some.inj h
    exact hx
  | succ k ih =>
    have hnext : (Vec.add x (solve e)).length = n := by
      rw [Vec.length_add, hx, hsolve, Nat.min_self]
    rw [improve] at h
    simp only at h
    split at h
    · obtain rfl := Option.some.inj h
      exact hx
    · split at h
      · cases h
      · split at h
        · obtain rfl := Option.some.inj h
          split
          · exact hnext
          · exact hx
        · exact ih hnext h

/-- The solution of a system is as long as those of its neighbour. -/
theorem length_solveNear {matrix : List (List α)} {solve : List α → List α} {rhs y : List α}
    {n : Nat} (hsolve : ∀ r, (solve r).length = n)
    (h : solveNear matrix solve rhs = some y) : y.length = n := by
  rw [solveNear] at h
  split at h
  · cases h
  · exact length_improve hsolve (hsolve rhs) h

namespace Program

variable {p : Program α}

/-- The first part of the solution of a saddle point system has an entry for each unknown. -/
theorem length_saddleSolver? {weights : List α}
    {solve : List α → List α → Option (List α × List α)} (h : p.saddleSolver? weights = some solve)
    {r t x z : List α} (hxz : solve r t = some (x, z)) : x.length = p.unknowns := by
  obtain ⟨f, hf, rfl⟩ := Option.map_eq_some_iff.1 h
  obtain ⟨y, hy, hsplit⟩ := Option.map_eq_some_iff.1 hxz
  have hlength : y.length = p.unknowns + p.rows.length :=
    length_solveNear (fun r => (f.length_solve r).trans (Factor.length_of_ofRows? hf)) hy
  obtain rfl : y.take p.unknowns = x := congrArg Prod.fst (List.splitAt_eq ▸ hsplit)
  rw [List.length_take]
  omega

/-! ### Steps -/

/-- The solver of a step has solutions with an entry for each unknown. -/
structure Sizes (p : Program α) (S : Stepper α) : Prop where
  /-- For every right-hand side. -/
  solve : ∀ r t x z, S.solve r t = some (x, z) → x.length = p.unknowns
  /-- For slope and bounds. -/
  x : S.x.length = p.unknowns

/-- Every solver of a step is of this kind. -/
theorem sizes_stepper? {v : Point α} {S : Stepper α} (h : p.stepper? v = some S) : p.Sizes S := by
  simp only [stepper?, Option.bind_eq_bind, Option.bind_eq_some_iff, Option.pure_def,
    Option.some.injEq] at h
  obtain ⟨solve, hsolve, ⟨x, dual⟩, hx, rfl⟩ := h
  exact ⟨fun r t x z hxz => length_saddleSolver? hsolve hxz, length_saddleSolver? hsolve hx⟩

/-- A direction has an entry for each unknown. -/
theorem length_direction? {v d : Point α} {S : Stepper α} (hS : p.Sizes S) {x rows : List α}
    {tau kappa : α} {shift : List α} (h : p.direction? v S x rows tau kappa shift = some d) :
    d.x.length = p.unknowns := by
  simp only [direction?, Option.bind_eq_bind, Option.bind_eq_some_iff, Option.pure_def,
    Option.some.injEq] at h
  obtain ⟨⟨x1, z1⟩, hsolve, rfl⟩ := h
  rw [List.length_zipWith, hS.solve _ _ _ _ hsolve, hS.x, Nat.min_self]

/-- A step keeps the number of unknowns. -/
theorem length_next? {v w : Point α} (hv : v.x.length = p.unknowns) {r : Residual α} {first : Bool}
    {length : α} (h : p.next? v r first = some (w, length)) : w.x.length = p.unknowns := by
  simp only [next?, Option.bind_eq_bind, Option.bind_eq_some_iff, Option.pure_def,
    Option.some.injEq] at h
  obtain ⟨S, hS, trial, -, d, hd, hw⟩ := h
  obtain rfl := congrArg Prod.fst hw
  show (List.zipWith _ v.x d.x).length = _
  rw [List.length_zipWith, hv, length_direction? (sizes_stepper? hS) hd, Nat.min_self]

/-- The first point has an entry for each unknown. -/
theorem length_initial? {v : Point α} (h : p.initial? = some v) : v.x.length = p.unknowns := by
  unfold initial? at h
  obtain ⟨solve, hsolve, h⟩ := Option.bind_eq_some_iff.1 h
  dsimp only at h
  split at h
  · obtain ⟨⟨x', away⟩, hx, h⟩ := Option.bind_eq_some_iff.1 h
    obtain ⟨⟨x'', dual'⟩, -, h⟩ := Option.bind_eq_some_iff.1 h
    obtain rfl := Option.some.inj h
    exact length_saddleSolver? hsolve hx
  · obtain ⟨⟨x', dual'⟩, hx, h⟩ := Option.bind_eq_some_iff.1 h
    obtain rfl := Option.some.inj h
    exact length_saddleSolver? hsolve hx

end Program

/-! ### The method -/

/-- A point that the method ends with has `n` entries. -/
inductive Ending.Sized (n : Nat) : Ending α → Prop where
  /-- A minimiser. -/
  | minimiser {x : List α} {steps : Nat} (h : x.length = n) : Sized n (.minimiser x steps)
  /-- A minimiser of reduced accuracy. -/
  | roughly {x : List α} {steps : Nat} (h : x.length = n) : Sized n (.roughly x steps)
  /-- A point that is none. -/
  | capped {x : List α} {steps : Nat} (h : x.length = n) : Sized n (.capped x steps)
  /-- There is no point if there is no minimiser, -/
  | nothing : Sized n .nothing
  /-- and none if there is no answer. -/
  | stuck : Sized n .stuck

namespace Program

variable {p : Program α} {s : Scaling α}

/-- The point of the program before it was scaled has as many entries. -/
theorem length_unscaled (hs : s.unknowns.length = p.unknowns) {v : Point α}
    (hv : v.x.length = p.unknowns) : (unscaled s v).length = p.unknowns := by
  rw [unscaled, List.length_map, List.length_zipWith, hv, hs, Nat.min_self]

/-- So has what is settled for. -/
theorem sized_settle (hs : s.unknowns.length = p.unknowns) {v : Point α}
    (hv : v.x.length = p.unknowns) (m : Measure α) (steps : Nat) {otherwise : Ending α}
    (h : otherwise.Sized p.unknowns) : (settle s v m steps otherwise).Sized p.unknowns := by
  rw [settle]
  split
  · exact .roughly (length_unscaled hs hv)
  · exact .nothing
  · exact h

/-- The method ends with a point that has an entry for each unknown, if it starts with one. -/
theorem sized_search (hs : s.unknowns.length = p.unknowns) (left : Nat) {v : Point α}
    (hv : v.x.length = p.unknowns) {before : Option (Point α × Measure α)}
    (hbefore : ∀ b ∈ before, b.1.x.length = p.unknowns) :
    (p.search s left v before).Sized p.unknowns := by
  -- The cases are the exits of the search in their order, and last a step that leads on.
  fun_induction search p s left v before with
  | case1 => exact .minimiser (length_unscaled hs hv)
  | case2 => exact .nothing
  | case3 left v before r m steps _ b hb =>
    exact sized_settle hs (hbefore b (Option.mem_filter_iff.1 hb).1) _ _ .stuck
  | case4 => exact sized_settle hs hv _ _ (.capped (length_unscaled hs hv))
  | case5 | case6 => exact sized_settle hs hv _ _ .stuck
  | case7 v before r m _ left w length _ steps _ hnext ih =>
    refine ih (length_next? hv hnext) fun b hb => ?_
    obtain rfl := Option.mem_some_iff.1 hb
    exact hv

/-! ### Scaling -/

/-- Every coefficient of the program is there, for `n` unknowns. -/
structure Square (p : Program α) (n : Nat) : Prop where
  /-- The unknowns have a slope, -/
  slope : p.slope.length = n
  /-- a curvature, -/
  curvature : p.curvature.length = n
  /-- and a coefficient in each constraint. -/
  rows : ∀ r ∈ p.rows, r.length = n

namespace Square

variable {n : Nat}

/-- No coefficient gets lost with the inequalities that exclude nothing. -/
theorem withoutVoid (h : p.Square n) : p.withoutVoid.Square n where
  slope := h.slope
  curvature := h.curvature
  rows r hr := by
    obtain ⟨⟨⟨r, b⟩, i⟩, he, rfl⟩ := List.mem_map.1 hr
    have hzip := List.fst_mem_of_mem_zipIdx (List.mem_filter.1 he).1
    exact h.rows r (List.of_mem_zip hzip).1

/-- Every unknown has a size. -/
theorem length_columnSizes (h : p.Square n) : p.columnSizes.length = n := by
  refine List.foldlRecOn (motive := fun sizes : List α => sizes.length = n) _ _ ?_ ?_
  · rw [List.length_map, h.curvature]
  · intro sizes hsizes r hr
    rw [List.length_zipWith, hsizes, h.rows r hr, Nat.min_self]

/-- Nor does one get lost with a factor for each unknown. -/
theorem scale (h : p.Square n) {d : List α} (hd : d.length = n) (e : List α) :
    (p.scale d e).Square n where
  slope := by rw [Program.scale, List.length_zipWith, h.slope, hd, Nat.min_self]
  curvature := by rw [Program.scale, List.length_zipWith, h.curvature, hd, Nat.min_self]
  rows r hr := by
    simp only [Program.scale, ← List.map_uncurry_zip_eq_zipWith (l := p.rows)] at hr
    obtain ⟨⟨row, f⟩, he, rfl⟩ := List.mem_map.1 hr
    show (List.zipWith _ row d).length = n
    rw [List.length_zipWith, h.rows row (List.of_mem_zip he).1, hd, Nat.min_self]

/-- A round of scaling keeps the coefficients, and gives each unknown its factor. -/
theorem equilibrateOnce (h : p.Square n) (hs : s.unknowns.length = n) :
    (p.equilibrateOnce s).1.Square n ∧ (p.equilibrateOnce s).2.unknowns.length = n := by
  have hd : (List.zipWith Scaling.further p.columnSizes s.unknowns).length = n := by
    rw [List.length_zipWith, h.length_columnSizes, hs, Nat.min_self]
  have hscaled := h.scale hd (List.zipWith Scaling.further (p.rows.map Vec.normInf) s.rows)
  refine ⟨⟨?_, ?_, hscaled.rows⟩, ?_⟩
  · exact (List.length_map _).trans hscaled.slope
  · exact (List.length_map _).trans hscaled.curvature
  · exact List.length_zipWith.trans (by rw [hs, hd, Nat.min_self])

/-- So does the scaling as a whole. -/
theorem equilibrate (h : p.Square n) :
    p.equilibrate.1.Square n ∧ p.equilibrate.2.unknowns.length = n := by
  refine List.foldlRecOn (motive := fun q : Program α × Scaling α =>
    q.1.Square n ∧ q.2.unknowns.length = n) _ _ ?_ ?_
  · exact ⟨h, (List.length_map _).trans h.slope⟩
  · rintro ⟨q, s⟩ ⟨hq, hs⟩ i -
    exact hq.equilibrateOnce hs

/-- The method ends with a point that has `n` entries, if it ends with one. -/
theorem sized_interiorPoint (h : p.Square n) : p.interiorPoint.Sized n := by
  obtain ⟨hscaled, hs⟩ := h.withoutVoid.equilibrate
  unfold interiorPoint
  rcases hq : p.withoutVoid.equilibrate with ⟨q, s⟩
  rw [hq] at hscaled hs
  cases hinitial : q.initial? with
  | none =>
    simp only [hinitial]
    exact .stuck
  | some v =>
    obtain rfl := hscaled.slope
    simp only [hinitial]
    exact sized_search hs mostSteps (length_initial? hinitial) fun b hb => by cases hb

end Square

end Program

end Minimise

/-! ### Models -/

namespace Model

/-- A linear form has a coefficient for each column. -/
@[simp] theorem length_coefficients (n : Nat) (form : List (Nat × α)) :
    (coefficients n form).length = n := by
  rw [coefficients, List.length_map, List.length_range]

/-- A negative unit vector has the length that was asked for. -/
@[simp] theorem length_minusUnit (n place : Nat) : (minusUnit n place : List α).length = n := by
  rw [minusUnit, List.length_map, List.length_range]

/-- The program of a model has its columns for unknowns, and further ones. -/
theorem square_program (m : Model α) (colScales : List α) :
    ∃ k, (m.program colScales).Square (m.matrix.cols + k) := by
  let squares := (m.summands colScales).filter fun t => t.kind = .square
  let absolutes := (m.summands colScales).filter fun t => t.kind = .abs
  refine ⟨squares.length + absolutes.length, ?_, ?_, ?_⟩
  · simp [program, squares, absolutes, Nat.add_assoc]
  · simp [program, squares, absolutes]
  · intro r hr
    obtain ⟨⟨r, b⟩, hmem, rfl⟩ := List.mem_map.1 hr
    rcases List.mem_append.1 hmem with hmem | hmem
    · obtain ⟨⟨t, i⟩, -, he⟩ := List.mem_map.1 hmem
      obtain rfl := congrArg Prod.fst he
      simp [squares, absolutes]
    · rcases List.mem_append.1 hmem with hmem | hmem
      · obtain ⟨⟨t, i⟩, -, he⟩ := List.mem_flatMap.1 hmem
        rcases List.mem_pair.1 he with he | he
        all_goals
          obtain rfl := congrArg Prod.fst he
          simp [squares, absolutes]
      · obtain ⟨t, -, he⟩ := List.mem_map.1 hmem
        obtain rfl := congrArg Prod.fst he
        simp [squares, absolutes]

end Model

namespace Conic

/-- The points of the interior point method have an entry for each column. -/
theorem Backend.shaped_interior (same : α → α → Bool) : (Backend.interior same).Shaped := by
  intro m scales guess x status iterations hfound hguess
  simp only [Backend.interior] at hfound
  split at hfound
  · obtain rfl := (Finding.point.inj hfound).1
    exact hguess
  · obtain ⟨k, hsquare⟩ := m.square_program scales
    have hsized := hsquare.sized_interiorPoint
    have htake : ∀ y : List α, y.length = m.matrix.cols + k →
        (y.take m.matrix.cols).length = m.matrix.cols := by
      intro y hy
      rw [List.length_take, hy, Nat.min_eq_left (Nat.le_add_right _ _)]
    cases hending : (m.program scales).interiorPoint with
    | minimiser y steps | roughly y steps | capped y steps =>
      simp only [hending] at hfound hsized
      obtain rfl := (Finding.point.inj hfound).1
      cases hsized
      next hy => exact htake y hy
    | nothing | stuck =>
      simp only [hending] at hfound
      cases hfound

end Conic

end RegPath
