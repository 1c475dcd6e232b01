import RegPath.Proofs.CrossValidation.Learning
import RegPath.Proofs.Path.Representation

namespace RegPath

/-!
# Nothing depends on how a matrix is stored

Callers may hold one and the same matrix in different forms: dense, as triplets in any order, or as
compressed rows with columns out of order, entries in several parts and zeros that are written down.
Whatever the form, the threshold, the path and the cross-validation come out the same.

* `Admm.source` — a source of fresh splitting engines;
* `CrossValidation.Fold.outcome_of_sameEntries` — a fold on matrices with the same entries;
* `CrossValidation.Selector.fitRows_of_sameEntries` — a fit on them;
* `SameFits`, `sameFits_of_denotes` — two forms of one matrix.
-/

/-- A source of fresh splitting engines with the given settings, which may have been refused. -/
noncomputable def Admm.source (F : Factorization ℝ) (S : Except (Fault ℝ) (Admm.Settings ℝ)) :
    CrossValidation.Factory ℝ (Admm.Cache ℝ) :=
  S.map fun S => (Admm.engine F S, .empty)

namespace CrossValidation

variable {F : Factorization ℝ} {s : Settings ℝ} {A A' : RowMatrix ℝ}

/-- The error of coefficients does not depend on how the matrix is stored. -/
theorem meanSquaredError_of_sameEntries (h : A.SameEntries A') (x b : List ℝ) :
    meanSquaredError A' x b = meanSquaredError A x b := by
  unfold meanSquaredError meanSquaredError? RowMatrix.mulVec?
  rw [h.height, h.cols, h.mulVec_eq]

/-- A driver with a splitting engine: its settings, and a fresh state. -/
theorem driver_source {S : Except (Fault ℝ) (Admm.Settings ℝ)}
    {d : Path.Driver ℝ (Admm.Cache ℝ)} {setup : Path.Setup ℝ (Admm.Cache ℝ)}
    (h : Factory.driver (Admm.source F S) s = .ok (d, setup)) :
    ∃ S config, d = .new .empty ∧ setup = ⟨config, Admm.engine F S, fun _ => 0⟩ := by
  obtain ⟨engine, fresh, config, hsource, -, rfl, rfl⟩ := Factory.driver_ok.1 h
  cases S with
  | error f => cases hsource
  | ok S =>
    cases hsource
    exact ⟨S, config, rfl, rfl⟩

namespace Fold

/-- The errors of two folds along one result, if their matrices have the same entries. -/
theorem errors_of_sameEntries {σ : Type} {t t' : Fold ℝ σ} (htrain : t.train.SameEntries t'.train)
    (htest : t.test.SameEntries t'.test) (htrainB : t'.trainB = t.trainB)
    (htestB : t'.testB = t.testB) (r : Path.Result ℝ) : t'.errors r = t.errors r := by
  unfold errors
  simp only [htrainB, htestB, meanSquaredError_of_sameEntries htrain,
    meanSquaredError_of_sameEntries htest]

/-- What a fold returns, from the outcome of its path. -/
theorem outcome_finish {σ : Type} {t : Fold ℝ σ} {p : Path.Driver.Begun ℝ σ}
    (h : t.path = .ok p) : t.finish.outcome = p.finish.outcome.bind t.errors := by
  unfold finish
  simp only [h]
  cases p.finish.outcome with
  | error f => rfl
  | ok r => rfl

/-- A fold returns the same on a matrix with the same entries. -/
theorem outcome_of_sameEntries (h : A.SameEntries A') (S : Except (Fault ℝ) (Admm.Settings ℝ))
    (b : List ℝ) (top : ℝ) (split : Split) :
    (start (Admm.source F S) s A' b top split).finish.outcome =
      (start (Admm.source F S) s A b top split).finish.outcome := by
  cases hdriver : Factory.driver (Admm.source F S) s with
  | error f =>
    have hpath : ∀ B : RowMatrix ℝ,
        (start (Admm.source F S) s B b top split).path = .error f := by
      intro B
      simp only [start, hdriver]
    simp only [finish, hpath]
  | ok source =>
    obtain ⟨d, setup⟩ := source
    obtain ⟨S', config, rfl, rfl⟩ := driver_source hdriver
    have htrain := h.selectRows split.train
    -- A path that is begun with a top is the run with that top pinned.
    have hrun : (Path.Driver.run ⟨config, Admm.engine F S', fun _ => 0⟩ (.new .empty)
          (.ofLasso ⟨0, A'.selectRows split.train⟩ (select b split.train)) (some top)).outcome =
        (Path.Driver.run ⟨config, Admm.engine F S', fun _ => 0⟩ (.new .empty)
          (.ofLasso ⟨0, A.selectRows split.train⟩ (select b split.train)) (some top)).outcome :=
      Path.Driver.run_of_sameEntries config S' (fun _ => 0) ⟨.ofLasso htrain _,
        Admm.Cache.intact_empty F _, Admm.Cache.intact_empty F _⟩ (some top)
    have herrors : (start (Admm.source F S) s A' b top split).errors =
        (start (Admm.source F S) s A b top split).errors :=
      funext (errors_of_sameEntries htrain (h.selectRows split.test) rfl rfl)
    rw [outcome_finish (path_start hdriver), outcome_finish (path_start hdriver), herrors]
    exact congrArg (Except.bind · _) hrun

/-- So do all folds. -/
theorem outcomes_of_sameEntries (h : A.SameEntries A') (S : ℕ → Except (Fault ℝ) (Admm.Settings ℝ))
    (b : List ℝ) (top : ℝ) (splits : List Split) :
    outcomes (fun i => Admm.source F (S i)) s A' b top splits =
      outcomes (fun i => Admm.source F (S i)) s A b top splits :=
  outcomes_congr fun i split => outcome_of_sameEntries h (S i) b top split

end Fold

namespace Selector

/-- The path on the full data is the same. -/
theorem fullPath_of_sameEntries (h : A.SameEntries A') (S : Except (Fault ℝ) (Admm.Settings ℝ))
    (b : List ℝ) :
    (fullPath (Admm.source F S) s A' b).1 = (fullPath (Admm.source F S) s A b).1 := by
  unfold fullPath
  cases hdriver : Factory.driver (Admm.source F S) s with
  | error f => rfl
  | ok source =>
    obtain ⟨d, setup⟩ := source
    obtain ⟨S', config, rfl, rfl⟩ := driver_source hdriver
    exact Path.Driver.fitLasso_of_sameEntries config S' (fun _ => 0) ⟨0, A⟩ ⟨0, A'⟩ h
      (Admm.Cache.intact_empty F _) (Admm.Cache.intact_empty F _) b

/-- The fit is the same. -/
theorem fitRows_of_sameEntries (h : A.SameEntries A')
    (split : ℕ → Except (Fault ℝ) (List Split)) (S : ℕ → Except (Fault ℝ) (Admm.Settings ℝ))
    (choices choices' : List ℕ) (t : Selector ℝ) (b : List ℝ) :
    (t.fitRows split (fun i => Admm.source F (S i)) s choices' A' b).outcome =
        (t.fitRows split (fun i => Admm.source F (S i)) s choices A b).outcome ∧
      (t.fitRows split (fun i => Admm.source F (S i)) s choices' A' b).selector =
        (t.fitRows split (fun i => Admm.source F (S i)) s choices A b).selector := by
  refine fitRows_congr choices choices' t h.cols (lambdaMax_eq_of_sameEntries h b) (fun top => ?_)
    (Fold.outcomes_of_sameEntries h S b) fun n => fullPath_of_sameEntries h (S n) b
  rw [h.height]

end Selector

end CrossValidation

/-! ### Two forms of one matrix -/

/-- What is computed from two forms, which are read as `A` and as `A'`, is the same. -/
structure SameFits (F : Factorization ℝ) (form form' : MatrixForm ℝ) (A A' : RowMatrix ℝ)
    (b : List ℝ) : Prop where
  /-- The threshold is the same. -/
  threshold : lambdaMax A' b = lambdaMax A b
  /-- So is every path, with splitting engines that are intact for their matrices. -/
  path : ∀ (config : Path.Config ℝ) (S : Admm.Settings ℝ) (elapsed : ℕ → ℝ)
    (d d' : Path.Driver ℝ (Admm.Cache ℝ)) (depth depth' key key' : ℕ),
    d.engine.Intact F ⟨key, A⟩ → d'.engine.Intact F ⟨key', A'⟩ →
      (d'.fit ⟨config, Admm.engine F S, elapsed⟩ depth' key' form' b).outcome =
        (d.fit ⟨config, Admm.engine F S, elapsed⟩ depth key form b).outcome
  /-- So is every cross-validation, with fresh splitting engines and any way to split the rows. -/
  validation : ∀ (split : ℕ → Except (Fault ℝ) (List CrossValidation.Split))
    (S : ℕ → Except (Fault ℝ) (Admm.Settings ℝ)) (s : CrossValidation.Settings ℝ)
    (choices choices' : List ℕ) (t : CrossValidation.Selector ℝ),
    (t.fitBy split (fun i => Admm.source F (S i)) s choices' form' b).outcome =
        (t.fitBy split (fun i => Admm.source F (S i)) s choices form b).outcome ∧
      (t.fitBy split (fun i => Admm.source F (S i)) s choices' form' b).selector =
        (t.fitBy split (fun i => Admm.source F (S i)) s choices form b).selector

/-- Whatever is computed from a matrix does not depend on the form in which it is held, as long as
    both forms are accepted and denote it. -/
theorem sameFits_of_denotes {m n : ℕ} {M : Matrix (Fin m) (Fin n) ℝ} {form form' : MatrixForm ℝ}
    {A A' : RowMatrix ℝ} (hA : form.read = .ok A) (hA' : form'.read = .ok A')
    (h : form.Denotes M) (h' : form'.Denotes M) (F : Factorization ℝ) (b : List ℝ) :
    SameFits F form form' A A' b := by
  have hentries := (h.holds hA).sameEntries (h'.holds hA')
  constructor
  case threshold => exact lambdaMax_eq_of_sameEntries hentries b
  case path =>
    intro config S elapsed d d' depth depth' key key' hd hd'
    simp only [Path.Driver.fit, Path.Driver.fitBy, hA, hA']
    exact Path.Driver.fitLasso_of_sameEntries config S elapsed ⟨key, A⟩ ⟨key', A'⟩ hentries
      hd hd' b
  case validation =>
    intro split S s choices choices' t
    simp only [CrossValidation.Selector.fitBy, hA, hA']
    exact CrossValidation.Selector.fitRows_of_sameEntries hentries split S choices choices' t b

/-- The layout of a single row with columns out of order, a column that occurs twice and a zero that
    is stored. -/
def scatteredLayout : Csr ℝ := ⟨1, 2, .narrow, [0, 4], [1, 0, 0, 1], [0, 1, 1, 1]⟩

/-- It is accepted. -/
theorem scatteredLayout_accepted : scatteredLayout.Accepted where
  pointerLength := rfl
  starts := rfl
  ends := rfl
  dataLength := rfl
  ordered := by decide
  inRange := by simp [scatteredLayout]

/-- It denotes the row of its sums. -/
theorem scatteredLayout_denotes :
    (MatrixForm.compressed scatteredLayout).Denotes (m := 1) (n := 2) !![1 + 1, 1] := by
  refine .compressed ⟨by simp [scatteredLayout], by simp [scatteredLayout]⟩ rfl rfl fun i j => ?_
  have hpiece : Finset.Ico 0 4 = {0, 1, 2, 3} := by decide
  fin_cases i
  fin_cases j
  · simp [scatteredLayout, Csr.sumAt, Csr.startOf, hpiece]
  · simp [scatteredLayout, Csr.sumAt, Csr.startOf, hpiece]

/-- A fit to that layout is a fit to the row as a table. -/
theorem sameFits_scatteredLayout :
    SameFits Factorization.elimination (.compressed scatteredLayout)
      (.dense (Grid.ofRow [1 + 1, 1])) (scatteredLayout.toRows scatteredLayout_accepted)
      (Grid.ofRow [1 + 1, 1]).toRows [1] := by
  have htable : (MatrixForm.dense (Grid.ofRow [1 + 1, 1])).Denotes (m := 1) (n := 2)
      !![(1 + 1 : ℝ), 1] := by
    refine .dense rfl rfl fun i j => ?_
    fin_cases i
    fin_cases j <;> rfl
  exact sameFits_of_denotes (MatrixForm.read_compressed scatteredLayout_accepted) rfl
    scatteredLayout_denotes htable Factorization.elimination [1]

end RegPath
