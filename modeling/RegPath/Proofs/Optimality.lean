import RegPath.Proofs.Matrix.Graph
import RegPath.Proofs.Proximal

namespace RegPath

open scoped RealInnerProductSpace

/-!
# Optimality conditions

When the rows of a problem in graph form are set free from the graph, subgradients of the columns
and of the rows form one subgradient on the space of pairs.  A point of the graph is optimal if a
subgradient there is orthogonal to the graph.

* `GraphForm.splitCost` — the sum of all terms at a pair;
* `GraphForm.splitCost_le` — the subgradient on the space of pairs;
* `GraphForm.OptimalityPoint` — a point with scaled duals that show it to be optimal.
-/

namespace GraphForm

variable {P : GraphForm ℝ}

/-- The sum of the column terms at `x` and of the row terms at `y`. -/
noncomputable def splitCost (P : GraphForm ℝ) (x y : List ℝ) : ℝ :=
  Term.totalCost P.rowTerms y + Term.totalCost P.colTerms x

/-- On the graph it is the cost. -/
theorem splitCost_mulVec (P : GraphForm ℝ) (x : List ℝ) :
    P.splitCost x (P.matrix.mulVec x) = P.cost x := rfl

/-- Subgradients of the columns and of the rows form a subgradient of all terms. -/
theorem splitCost_le {x y p q : List ℝ} (hcols : Term.IsSubgradient P.colTerms x p)
    (hrows : Term.IsSubgradient P.rowTerms y q) (hx : x.length = P.matrix.cols)
    (hy : y.length = P.matrix.height) (hp : p.length = P.matrix.cols)
    (hq : q.length = P.matrix.height) {z w : List ℝ} (hz : z.length = P.matrix.cols)
    (hw : w.length = P.matrix.height) (hzadm : Term.AllAdmit P.colTerms z)
    (hwadm : Term.AllAdmit P.rowTerms w) :
    P.splitCost x y + ⟪Vec.joint P.matrix.cols P.matrix.height p q,
        Vec.joint _ _ z w - Vec.joint _ _ x y⟫ ≤ P.splitCost z w := by
  rw [← Vec.joint_sub hz hx hw hy, Vec.inner_joint hp (Vec.length_sub_of_eq hz hx) hq
    (Vec.length_sub_of_eq hw hy), splitCost, splitCost]
  have hc := hcols.le z (hz.trans hx.symm) hzadm
  have hr := hrows.le w (hw.trans hy.symm) hwadm
  linarith

/-- Subgradients at two pairs point apart. -/
theorem inner_subgradients_nonneg {x y p q x' y' p' q' : List ℝ}
    (hcols : Term.IsSubgradient P.colTerms x p) (hrows : Term.IsSubgradient P.rowTerms y q)
    (hcols' : Term.IsSubgradient P.colTerms x' p') (hrows' : Term.IsSubgradient P.rowTerms y' q')
    (hx : x.length = P.matrix.cols) (hy : y.length = P.matrix.height)
    (hp : p.length = P.matrix.cols) (hq : q.length = P.matrix.height)
    (hx' : x'.length = P.matrix.cols) (hy' : y'.length = P.matrix.height)
    (hp' : p'.length = P.matrix.cols) (hq' : q'.length = P.matrix.height) :
    0 ≤ ⟪Vec.joint P.matrix.cols P.matrix.height p q - Vec.joint _ _ p' q',
      Vec.joint _ _ x y - Vec.joint _ _ x' y'⟫ := by
  have h := splitCost_le hcols hrows hx hy hp hq hx' hy' hcols'.admits hrows'.admits
  have h' := splitCost_le hcols' hrows' hx' hy' hp' hq' hx hy hcols.admits hrows.admits
  rw [← neg_sub, inner_neg_right] at h
  rw [inner_sub_left]
  linarith

/-- A point `x` with duals `u` and `v` in units of `rho`: their negative multiples are subgradients
    of the columns at `x` and of the rows at `A x`, and together they are orthogonal to the
    graph. -/
structure OptimalityPoint (P : GraphForm ℝ) (rho : ℝ) (x u v : List ℝ) : Prop where
  /-- One entry for each column. -/
  length_x : x.length = P.matrix.cols
  /-- One column dual for each column. -/
  length_u : u.length = P.matrix.cols
  /-- One row dual for each row. -/
  length_v : v.length = P.matrix.height
  /-- The subgradient of the columns. -/
  columns : Term.IsSubgradient P.colTerms x (Vec.scale (-rho) u)
  /-- The subgradient of the rows. -/
  rows : Term.IsSubgradient P.rowTerms (P.matrix.mulVec x) (Vec.scale (-rho) v)
  /-- The columns balance the rows. -/
  balance : Vec.add u (P.matrix.transpose.mulVec v) = Vec.zeros P.matrix.cols

/-- The duals are orthogonal to the graph. -/
theorem OptimalityPoint.mem_orthogonal {rho : ℝ} {x u v : List ℝ}
    (h : P.OptimalityPoint rho x u v) :
    Vec.joint P.matrix.cols P.matrix.height u v ∈ P.matrix.graphᗮ :=
  P.matrix.mem_graph_orthogonal h.length_u h.balance

/-- An optimality point is a minimiser. -/
theorem OptimalityPoint.isMinimiser {rho : ℝ} {x u v : List ℝ}
    (h : P.OptimalityPoint rho x u v) : P.IsMinimiser x := by
  refine ⟨h.length_x, ⟨h.rows.admits, h.columns.admits⟩, fun z hz hadm => ?_⟩
  have hx := P.matrix.length_mulVec x
  have hle := splitCost_le h.columns h.rows h.length_x hx
    (by rw [Vec.length_scale, h.length_u]) (by rw [Vec.length_scale, h.length_v]) hz
    (P.matrix.length_mulVec z) hadm.2 hadm.1
  have hzero : ⟪Vec.joint P.matrix.cols P.matrix.height u v,
      Vec.joint _ _ z (P.matrix.mulVec z) - Vec.joint _ _ x (P.matrix.mulVec x)⟫ = 0 :=
    Submodule.inner_left_of_mem_orthogonal
      (sub_mem (P.matrix.mem_graph z) (P.matrix.mem_graph x)) h.mem_orthogonal
  rwa [Vec.joint_scale, real_inner_smul_left, hzero, mul_zero, add_zero, splitCost_mulVec,
    splitCost_mulVec] at hle

end GraphForm

end RegPath
