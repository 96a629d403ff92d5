/-
  Dilithium.Fips202.Bijection — `KeccakF1600_StatePermute` is a permutation of the 1600-bit
  state: no two states are sent to the same one.

  Through `keccakF1600StatePermute_eq_ofStateArray` the code is Keccak-p[1600, 24] on the state
  array, so it is enough that each step mapping is injective.  ι XORs a constant, ρ rotates each
  lane, π moves lanes along a bijection of the 5 × 5 positions, and χ is injective on every
  5-bit row, which `decide` checks over the 1024 pairs of rows.  θ is the one step that mixes
  columns.  It is linear, and a state it sends to zero has column parities `C` with
  `C[x] = C[x-1] ⊕ ROT(C[x+1], 1)`.  Read one bit position `z` at a time, that recurrence fixes
  the five parity bits at `z - 1` from those at `z` (`thetaColStep`).  Going once round the 64
  bit positions, the parity bits at `z` are a fixed point of 64 steps, and the only such
  fixed point is zero (`thetaColIter_fixed`, by `decide`).  A finite map that is injective is
  bijective.

  Main results:
    * `theta_injective`, `rho_injective`, `pi_injective`, `chi_injective`, `iota_injective`.
    * `keccakP_injective`: Keccak-p[1600, n_r] is injective for every number of rounds.
    * `keccakF1600StatePermute_bijective`: the code's permutation is a bijection on
      `uint64_t s[25]`.
-/
import Dilithium.Fips202.KeccakP
import Mathlib.Data.Finite.Prod
import Mathlib.Data.Fintype.Card

namespace Dilithium.Fips202

/-! ## §1. Lanes -/

theorem xor_right_cancel {a b c : Lane} (h : a ^^^ c = b ^^^ c) : a = b := by
  simpa [BitVec.xor_assoc] using congrArg (· ^^^ c) h

theorem eq_of_xor_eq_zero {a b : Lane} (h : a ^^^ b = 0) : a = b :=
  xor_right_cancel (h.trans BitVec.xor_self.symm)

/-- Bit `z` of `ROT(a, 1)` is bit `z - 1 mod 64` of `a`. -/
theorem getLsbD_rotateLeft_one (a : Lane) {z : Nat} (hz : z < 64) :
    (a.rotateLeft 1).getLsbD z = a.getLsbD ((z + 63) % 64) := by
  rw [BitVec.getLsbD_rotateLeft]
  by_cases h : z = 0
  · subst h; rfl
  · simp [show ¬ z < 1 by omega, hz, show (z + 63) % 64 = z - 1 by omega]

theorem rotateLeft_xor (a b : Lane) (n : Nat) : (a ^^^ b).rotateLeft n = a.rotateLeft n ^^^ b.rotateLeft n := by
  ext i
  simp only [BitVec.getLsbD_rotateLeft, BitVec.getLsbD_xor]
  cases decide ((i : Nat) < n % 64) <;> simp [Bool.and_xor_distrib_left]

/-- `ROT(·, n)` loses no bit. -/
theorem rotateLeft_injective (n : Nat) : Function.Injective fun a : Lane => a.rotateLeft n := by
  intro a b h
  apply BitVec.eq_of_getLsbD_eq
  intro i
  -- bit `i` of the input is bit `i + n mod 64` of the rotated lane
  have hi := congrArg (fun v : Lane => v.getLsbD ((i.val + n) % 64)) h
  simp only [BitVec.getLsbD_rotateLeft] at hi
  by_cases hlt : i.val + n % 64 < 64
  · rw [show (i.val + n) % 64 = i.val + n % 64 by omega,
      show decide (i.val + n % 64 < n % 64) = false from decide_eq_false (by omega), cond_false,
      show decide (i.val + n % 64 < 64) = true from decide_eq_true hlt, Bool.true_and,
      Nat.add_sub_cancel] at hi
    exact hi
  · rw [show (i.val + n) % 64 = i.val + n % 64 - 64 by omega,
      show decide (i.val + n % 64 - 64 < n % 64) = true from decide_eq_true (by omega), cond_true,
      show 64 - n % 64 + (i.val + n % 64 - 64) = i.val by omega] at hi
    exact hi

/-- `(a0 ⊕ b0) ⊕ … ⊕ (a4 ⊕ b4)`, regrouped: the column parity is linear. -/
theorem xor5_xor (a0 a1 a2 a3 a4 b0 b1 b2 b3 b4 : Lane) :
    (a0 ^^^ b0) ^^^ (a1 ^^^ b1) ^^^ (a2 ^^^ b2) ^^^ (a3 ^^^ b3) ^^^ (a4 ^^^ b4)
      = (a0 ^^^ a1 ^^^ a2 ^^^ a3 ^^^ a4) ^^^ (b0 ^^^ b1 ^^^ b2 ^^^ b3 ^^^ b4) := by
  have key : ∀ a0 a1 a2 a3 a4 b0 b1 b2 b3 b4 : Bool,
      (((((a0 ^^ b0) ^^ (a1 ^^ b1)) ^^ (a2 ^^ b2)) ^^ (a3 ^^ b3)) ^^ (a4 ^^ b4))
        = ((((((a0 ^^ a1) ^^ a2) ^^ a3) ^^ a4)) ^^ ((((b0 ^^ b1) ^^ b2) ^^ b3) ^^ b4)) := by decide
  ext i
  simp only [BitVec.getLsbD_xor]
  exact key _ _ _ _ _ _ _ _ _ _

/-! ## §2. ι, χ, π and ρ -/

theorem iota_injective (ir : Nat) : Function.Injective fun A => iota A ir := by
  intro A B h
  funext x y
  have hxy := congrFun (congrFun h x) y
  simp only [iota] at hxy
  split at hxy
  · exact xor_right_cancel hxy
  · exact hxy

/-- χ on one row of five bits, `a[x] ⊕ (¬a[x+1] ∧ a[x+2])`, is injective. -/
theorem chiRow_injective : ∀ a0 a1 a2 a3 a4 b0 b1 b2 b3 b4 : Bool,
    (a0 ^^ (!a1 && a2)) = (b0 ^^ (!b1 && b2)) → (a1 ^^ (!a2 && a3)) = (b1 ^^ (!b2 && b3)) →
    (a2 ^^ (!a3 && a4)) = (b2 ^^ (!b3 && b4)) → (a3 ^^ (!a4 && a0)) = (b3 ^^ (!b4 && b0)) →
    (a4 ^^ (!a0 && a1)) = (b4 ^^ (!b0 && b1)) →
      a0 = b0 ∧ a1 = b1 ∧ a2 = b2 ∧ a3 = b3 ∧ a4 = b4 := by
  decide

theorem chi_injective : Function.Injective chi := by
  intro A B h
  funext x y
  apply BitVec.eq_of_getLsbD_eq
  intro i
  -- the row `y` at bit `i`: χ of `A` and of `B` agree on all five positions
  have hrow : ∀ x : Fin 5, ((A x y).getLsbD i ^^ (!(A (x + 1) y).getLsbD i && (A (x + 2) y).getLsbD i))
      = ((B x y).getLsbD i ^^ (!(B (x + 1) y).getLsbD i && (B (x + 2) y).getLsbD i)) := by
    intro x
    have := congrArg (fun v : Lane => v.getLsbD i) (congrFun (congrFun h x) y)
    simpa [chi, i.isLt] using this
  obtain ⟨h0, h1, h2, h3, h4⟩ := chiRow_injective _ _ _ _ _ _ _ _ _ _
    (hrow 0) (hrow 1) (hrow 2) (hrow 3) (hrow 4)
  fin_cases x
  exacts [h0, h1, h2, h3, h4]

/-- Lane `(x, y)` of the input is lane `(y, 2(x - y))` of π's output. -/
theorem pi_index (x y : Fin 5) : y + 3 * (2 * (x - y)) = x := by
  revert x y
  decide

theorem pi_injective : Function.Injective pi := by
  intro A B h
  funext x y
  have hxy := congrFun (congrFun h y) (2 * (x - y))
  simp only [pi] at hxy
  rwa [pi_index] at hxy

theorem rho_injective : Function.Injective rho := by
  intro A B h
  funext x y
  have hxy := congrFun (congrFun h x) y
  simp only [rho] at hxy
  split at hxy
  · exact rotateLeft_injective _ hxy
  · exact hxy

/-! ## §3. θ -/

/-- θ is linear: it commutes with the lane-wise XOR of two states. -/
theorem theta_xor (A B : StateArray) :
    theta (fun x y => A x y ^^^ B x y) = fun x y => theta A x y ^^^ theta B x y := by
  have key : ∀ a b c d e f : Bool,
      ((a ^^ b) ^^ ((c ^^ d) ^^ (e ^^ f))) = ((a ^^ (c ^^ e)) ^^ (b ^^ (d ^^ f))) := by decide
  funext x y
  simp only [theta, xor5_xor, rotateLeft_xor]
  ext i
  simp only [BitVec.getLsbD_xor]
  exact key _ _ _ _ _ _

/-- What the column recurrence does to bit position `z`: the parity bits at `z - 1` from those at
    `z`, `C[x, z-1] = C[x-1, z] ⊕ C[x-2, z]`. -/
def thetaColStep : Bool × Bool × Bool × Bool × Bool → Bool × Bool × Bool × Bool × Bool
  | (a0, a1, a2, a3, a4) => (a4 ^^ a3, a0 ^^ a4, a1 ^^ a0, a2 ^^ a1, a3 ^^ a2)

/-- `k` steps of `thetaColStep`. -/
def thetaColIter : Nat → Bool × Bool × Bool × Bool × Bool → Bool × Bool × Bool × Bool × Bool
  | 0, v => v
  | k + 1, v => thetaColStep (thetaColIter k v)

set_option maxRecDepth 1000 in
/-- Once round the 64 bit positions, only the zero column returns to itself. -/
theorem thetaColIter_fixed : ∀ a0 a1 a2 a3 a4 : Bool,
    thetaColIter 64 (a0, a1, a2, a3, a4) = (a0, a1, a2, a3, a4) →
      a0 = false ∧ a1 = false ∧ a2 = false ∧ a3 = false ∧ a4 = false := by
  decide

/-- The five bits at position `z` of the lanes `c 0 … c 4`. -/
def columnBits (c : Fin 5 → Lane) (z : Nat) : Bool × Bool × Bool × Bool × Bool :=
  ((c 0).getLsbD z, (c 1).getLsbD z, (c 2).getLsbD z, (c 3).getLsbD z, (c 4).getLsbD z)

section Column

variable {c : Fin 5 → Lane} (hrec : ∀ x, c x = c (x - 1) ^^^ (c (x + 1)).rotateLeft 1)
include hrec

theorem columnBits_pred {z : Nat} (hz : z < 64) :
    columnBits c ((z + 63) % 64) = thetaColStep (columnBits c z) := by
  have hb : ∀ x, (c (x + 1)).getLsbD ((z + 63) % 64) = ((c x).getLsbD z ^^ (c (x - 1)).getLsbD z) := by
    intro x
    have := congrArg (fun v : Lane => v.getLsbD z) (hrec x)
    simp only [BitVec.getLsbD_xor, getLsbD_rotateLeft_one _ hz] at this
    rw [this, Bool.xor_comm, ← Bool.xor_assoc, Bool.xor_self, Bool.false_xor]
  simp only [columnBits, thetaColStep, Prod.mk.injEq]
  exact ⟨hb 4, hb 0, hb 1, hb 2, hb 3⟩

theorem columnBits_iter {z : Nat} (hz : z < 64) (k : Nat) :
    columnBits c ((z + 63 * k) % 64) = thetaColIter k (columnBits c z) := by
  induction k with
  | zero => simp [Nat.mod_eq_of_lt hz, thetaColIter]
  | succ k ih =>
    rw [show (z + 63 * (k + 1)) % 64 = ((z + 63 * k) % 64 + 63) % 64 by omega,
      columnBits_pred hrec (Nat.mod_lt _ (by omega)), ih, thetaColIter]

/-- Column parities that satisfy θ's recurrence are all zero. -/
theorem column_eq_zero (x : Fin 5) : c x = 0 := by
  apply BitVec.eq_of_getLsbD_eq
  intro z
  have hfix := columnBits_iter hrec z.isLt 64
  rw [show (z.val + 63 * 64) % 64 = z.val by omega] at hfix
  obtain ⟨h0, h1, h2, h3, h4⟩ := thetaColIter_fixed _ _ _ _ _ hfix.symm
  fin_cases x
  all_goals simpa

end Column

/-- A state θ sends to zero is zero. -/
theorem theta_eq_zero {E : StateArray} (h : ∀ x y, theta E x y = 0) (x y : Fin 5) : E x y = 0 := by
  obtain ⟨C, hC⟩ : ∃ C : Fin 5 → Lane, ∀ x, C x = E x 0 ^^^ E x 1 ^^^ E x 2 ^^^ E x 3 ^^^ E x 4 :=
    ⟨_, fun _ => rfl⟩
  -- every lane of a column equals the column's θ-effect
  have hE : ∀ x y, E x y = C (x - 1) ^^^ (C (x + 1)).rotateLeft 1 := by
    intro x y
    have := h x y
    simp only [theta, ← hC] at this
    exact eq_of_xor_eq_zero this
  have hrec : ∀ x, C x = C (x - 1) ^^^ (C (x + 1)).rotateLeft 1 := by
    intro x
    rw [hC x, hE x 0, hE x 1, hE x 2, hE x 3, hE x 4]
    simp only [BitVec.xor_assoc, BitVec.xor_self, BitVec.xor_zero, BitVec.zero_xor]
  rw [hE, column_eq_zero hrec, column_eq_zero hrec]
  ext i
  simp [BitVec.getLsbD_rotateLeft]

theorem theta_injective : Function.Injective theta := by
  intro A B h
  have hzero := theta_eq_zero (E := fun x y => A x y ^^^ B x y) (by
    intro x y
    show theta (fun x y => A x y ^^^ B x y) x y = 0
    rw [theta_xor]
    show theta A x y ^^^ theta B x y = 0
    rw [h]
    exact BitVec.xor_self)
  funext x y
  exact eq_of_xor_eq_zero (hzero x y)

/-! ## §4. The rounds and the permutation -/

theorem Rnd_injective (ir : Nat) : Function.Injective fun A => Rnd A ir :=
  (iota_injective ir).comp (chi_injective.comp (pi_injective.comp (rho_injective.comp theta_injective)))

theorem foldl_Rnd_injective (rounds : List Nat) : Function.Injective fun A => rounds.foldl Rnd A := by
  induction rounds with
  | nil => exact fun _ _ h => h
  | cons ir rounds ih => exact ih.comp (Rnd_injective ir)

/-- Keccak-p[1600, n_r] is injective for every number of rounds. -/
theorem keccakP_injective (nr : Nat) : Function.Injective (keccakP nr) :=
  foldl_Rnd_injective _

theorem keccakF1600StatePermute_injective : Function.Injective keccakF1600StatePermute := by
  intro s t h
  rw [keccakF1600StatePermute_eq_ofStateArray, keccakF1600StatePermute_eq_ofStateArray] at h
  have hP := keccakP_injective 24 (by simpa using congrArg toStateArray h)
  rw [← ofStateArray_toStateArray s, hP, ofStateArray_toStateArray]

/-- `KeccakF1600_StatePermute` is a permutation of `uint64_t s[25]`: every state is the image of
    exactly one state. -/
theorem keccakF1600StatePermute_bijective : Function.Bijective keccakF1600StatePermute := by
  have : Finite Lane := Finite.of_injective _ fun _ _ => BitVec.eq_of_toFin_eq
  exact Finite.injective_iff_bijective.mp keccakF1600StatePermute_injective

end Dilithium.Fips202
