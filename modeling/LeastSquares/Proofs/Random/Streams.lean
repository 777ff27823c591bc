import Mathlib
import LeastSquares.Proofs.Exact
import LeastSquares.Random.Ziggurat

/-! # One stream for each seed

A seed fixes an endless stream of standard normal numbers, whatever they are wanted for. A vector
takes as many of them as it has entries, a matrix takes them row by row, and a distribution only
says how each is scaled and moved. So sizes, shapes and distributions cannot put streams of one seed
out of step. The source is arbitrary: a draw may change its state in any way.
-/

namespace LeastSquares

variable {α β σ : Type}

theorem toList_ofFn_eq_take (f : Nat → α) {n n' : Nat} (hle : n ≤ n') :
    (Vector.ofFn fun i : Fin n => f i).toList =
      (Vector.ofFn fun i : Fin n' => f i).toList.take n := by
  apply List.ext_getElem
  · simp [hle]
  · intro i hi hi'
    simp

section Draws

variable (draw : σ → β × σ)

/-- The state after a number of draws. -/
def stateAfter (k : Nat) (s : σ) : σ := (fun s => (draw s).2)^[k] s

/-- What draw number `k` gives, counted from zero. -/
def drawAt (s : σ) (k : Nat) : β := (draw (stateAfter draw k s)).1

theorem stateAfter_succ (k : Nat) (s : σ) :
    stateAfter draw (k + 1) s = (draw (stateAfter draw k s)).2 :=
  Function.iterate_succ_apply' ..

theorem stateAfter_stateAfter (j k : Nat) (s : σ) :
    stateAfter draw j (stateAfter draw k s) = stateAfter draw (k + j) s := by
  rw [stateAfter, stateAfter, stateAfter, Nat.add_comm, Function.iterate_add_apply]

theorem drawAt_stateAfter (k j : Nat) (s : σ) :
    drawAt draw (stateAfter draw k s) j = drawAt draw s (k + j) := by
  rw [drawAt, drawAt, stateAfter_stateAfter]

/-- One draw more is the last one. -/
theorem drawn_succ (n : Nat) (s : σ) :
    drawn draw (n + 1) s =
      ((drawn draw n s).1.push (draw (drawn draw n s).2).1, (draw (drawn draw n s).2).2) := rfl

theorem drawn_eq (n : Nat) (s : σ) :
    drawn draw n s = (Vector.ofFn fun i : Fin n => drawAt draw s i, stateAfter draw n s) := by
  induction n with
  | zero => rfl
  | succ n ih =>
      rw [drawn_succ, ih, Vector.ofFn_succ, stateAfter_succ]
      rfl

/-- Rows drawn one after the other go on where the row before them ended. -/
theorem drawn_drawn (m n : Nat) (s : σ) :
    drawn (drawn draw n) m s =
      (Vector.ofFn fun i : Fin m => Vector.ofFn fun j : Fin n => drawAt draw s (i * n + j),
        stateAfter draw (m * n) s) := by
  induction m with
  | zero => rw [Nat.zero_mul]; rfl
  | succ m ih =>
      rw [drawn_succ, ih, Vector.ofFn_succ]
      dsimp only
      rw [drawn_eq, stateAfter_stateAfter, Nat.succ_mul]
      simp only [drawAt_stateAfter]
      rfl

end Draws

/-- The standard normal numbers of a seed. -/
def Source.stream (source : Source α) (seed : UInt64) : Nat → α :=
  drawAt source.draw (source.start seed)

namespace Normal

variable [Scalar α] (d : Normal α) (source : Source α) (seed : UInt64)

/-- A distribution has no influence on the states that are gone through. -/
theorem stateAfter_draw (k : Nat) (s : source.State) :
    stateAfter (d.draw source) k s = stateAfter source.draw k s := by
  induction k with
  | zero => rfl
  | succ k ih =>
      rw [stateAfter_succ, stateAfter_succ, ih]
      rfl

theorem drawAt_draw (k : Nat) :
    drawAt (d.draw source) (source.start seed) k = d.place (source.stream seed k) := by
  rw [drawAt, stateAfter_draw]
  rfl

theorem vector_of_finite (hfinite : Scalar.isFinite d.spread = true) (n : Nat) :
    d.vector source seed n = .ok (Vector.ofFn fun i => d.place (source.stream seed i)) := by
  rw [vector, sample, if_pos hfinite, drawn_eq]
  simp only [drawAt_draw]

theorem vector_of_not_finite (hinfinite : Scalar.isFinite d.spread = false) (n : Nat) :
    d.vector source seed n = .error (.badSpread d.mean d.spread) := by
  rw [vector, sample, hinfinite]
  rfl

theorem exists_vector_eq_error_iff (n : Nat) :
    (∃ fault, d.vector source seed n = .error fault) ↔ Scalar.isFinite d.spread = false := by
  cases hspread : Scalar.isFinite d.spread with
  | false =>
      rw [vector_of_not_finite d source seed hspread]
      exact ⟨fun _ => rfl, fun _ => ⟨_, rfl⟩⟩
  | true =>
      rw [vector_of_finite d source seed hspread]
      exact ⟨nofun, nofun⟩

theorem exists_matrix_eq_error_iff (m n : Nat) :
    (∃ fault, d.matrix source seed m n = .error fault) ↔ Scalar.isFinite d.spread = false := by
  rw [← d.exists_vector_eq_error_iff source seed (m * n), matrix]
  cases d.vector source seed (m * n) with
  | error fault => exact ⟨fun _ => ⟨fault, rfl⟩, fun _ => ⟨fault, rfl⟩⟩
  | ok v => exact ⟨nofun, nofun⟩

/-- The rows of a matrix are drawn one after the other. -/
theorem exists_matrix_eq (hfinite : Scalar.isFinite d.spread = true) (m n : Nat) :
    ∃ a, d.matrix source seed m n = .ok a ∧
      (∀ i j, a.entry i j = d.place (source.stream seed (i * n + j))) ∧
      Vector.ofFn a.row = (drawn (drawn (d.draw source) n) m (source.start seed)).1 := by
  refine ⟨_, congrArg (Except.map Mat.mk) (d.vector_of_finite source seed hfinite (m * n)), ?_, ?_⟩
  · intro i j
    rw [Mat.entry, get_ofFn]
    rfl
  · rw [drawn_drawn]
    apply ext_get
    intro i
    apply ext_get
    intro j
    rw [get_ofFn, Mat.get_row, get_ofFn, get_ofFn, Mat.entry, get_ofFn, drawAt_draw]
    rfl

/-- Normal numbers of one seed. A distribution with a finite spread gives vectors of every size, of
which the shorter are the beginnings of the longer, and matrices of every shape, whose entries are
those of the vector with as many, row by row. An entry is the mean plus the spread times a number
that depends on nothing but the seed and the place, and is what the standard distribution gives if
adding zero and multiplying by one leave it as it is. With any other spread nothing is drawn,
whatever the size. -/
theorem normals_of_one_stream (source : Source α) (seed : UInt64) :
    (∀ d : Normal α, Scalar.isFinite d.spread = true →
      (∀ n n', n ≤ n' → ∃ v v', d.vector source seed n = .ok v ∧
        d.vector source seed n' = .ok v' ∧ v.toList <+: v'.toList) ∧
      (∀ m n, ∃ a v, d.matrix source seed m n = .ok a ∧ d.vector source seed (m * n) = .ok v ∧
        (∀ i j, a.entry i j = v.get (Mat.position i j)) ∧
        Vector.ofFn a.row = (drawn (drawn (d.draw source) n) m (source.start seed)).1) ∧
      ∀ n, d.vector source seed n =
        .ok (Vector.ofFn fun i => d.mean + d.spread * source.stream seed i)) ∧
    (Scalar.isFinite (Scalar.one : α) = true →
      (∀ k, Scalar.zero + Scalar.one * source.stream seed k = source.stream seed k) →
      ∀ n, (⟨Scalar.zero, Scalar.one⟩ : Normal α).vector source seed n =
        .ok (Vector.ofFn fun i => source.stream seed i)) ∧
    ∀ d : Normal α,
      (∀ n, (∃ fault, d.vector source seed n = .error fault) ↔
        Scalar.isFinite d.spread = false) ∧
      ∀ m n, (∃ fault, d.matrix source seed m n = .error fault) ↔
        Scalar.isFinite d.spread = false := by
  refine ⟨?_, ?_, fun d => ⟨d.exists_vector_eq_error_iff source seed,
    d.exists_matrix_eq_error_iff source seed⟩⟩
  · intro d hfinite
    have hvector := d.vector_of_finite source seed hfinite
    refine ⟨?_, ?_, hvector⟩
    · intro n n' hle
      refine ⟨_, _, hvector n, hvector n', ?_⟩
      rw [toList_ofFn_eq_take (fun k => d.place (source.stream seed k)) hle]
      exact List.take_prefix ..
    · intro m n
      obtain ⟨a, hmatrix, hentry, hrows⟩ := d.exists_matrix_eq source seed hfinite m n
      refine ⟨a, _, hmatrix, hvector (m * n), ?_, hrows⟩
      intro i j
      rw [hentry, get_ofFn]
      rfl
  · intro hone hunit n
    rw [vector_of_finite _ source seed hone]
    simp only [place, hunit]

/-- Doubles with a negative spread, and an infinite spread, for which there is not even an empty
vector. In exact arithmetic a source that counts from its seed shows through the standard
distribution. -/
theorem normals_of_one_stream_of_doubles :
    let d : Normal Float := ⟨1.5, -2⟩
    let e : Normal Float := ⟨0, 1 / 0⟩
    let counter : Source ℝ := ⟨Nat, UInt64.toNat, fun k => (k, k + 1)⟩
    (∃ v v', d.vector Random.ziggurat 3 2 = .ok v ∧ d.vector Random.ziggurat 3 5 = .ok v' ∧
      v.toList <+: v'.toList) ∧
    (∃ a v, d.matrix Random.ziggurat 3 2 3 = .ok a ∧ d.vector Random.ziggurat 3 6 = .ok v ∧
      a.entry 1 0 = v.get 3) ∧
    (∃ fault, e.vector Random.ziggurat 3 0 = .error fault) ∧
    (∃ fault, e.matrix Random.ziggurat 3 0 4 = .error fault) ∧
    (⟨Scalar.zero, Scalar.one⟩ : Normal ℝ).vector counter 3 2 = .ok #v[3, 4] := by
  intro d e counter
  have hfinite : Scalar.isFinite d.spread = true := by decide +kernel
  have hinfinite : Scalar.isFinite e.spread = false := by decide +kernel
  obtain ⟨hstream, _, hfails⟩ := normals_of_one_stream Random.ziggurat 3
  obtain ⟨hshorter, hmatrix, _⟩ := hstream d hfinite
  obtain ⟨a, v, ha, hv, hentry, _⟩ := hmatrix 2 3
  refine ⟨hshorter 2 5 (by decide), ⟨a, v, ha, hv, hentry 1 0⟩, ((hfails e).1 0).mpr hinfinite,
    ((hfails e).2 0 4).mpr hinfinite, ?_⟩
  obtain ⟨_, hstandard, _⟩ := normals_of_one_stream counter 3
  rw [hstandard rfl (fun k => by simp) 2]
  apply congrArg
  apply ext_get
  intro i
  rw [get_ofFn]
  fin_cases i
  · show ((3 : Nat) : ℝ) = 3
    norm_num
  · show ((4 : Nat) : ℝ) = 4
    norm_num

end Normal

end LeastSquares
