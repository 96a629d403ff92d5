/-
  Dilithium.Fips202.KeccakP — FIPS 202's Keccak-p[1600, n_r] (§3.2, §3.3) on the state array
  `A[x, y]` of 64-bit lanes, and the proof that `KeccakF1600_StatePermute` computes
  Keccak-p[1600, 24] on every state.

  The reference is written from the standard, not from the code: θ by column parities, ρ by the
  walk `(x, y) ← (y, 2x + 3y mod 5)` with offsets `(t + 1)(t + 2)/2 mod 64` (Algorithm 2), π and χ
  by their index formulas, and ι from the `rc` LFSR of Algorithm 5 (`x^8 + x^6 + x^5 + x^4 + 1`).
  The code's constant table and rotation offsets are therefore results here, not inputs.

  Main results:
  * `roundConstant_eq`: the 24 entries of `KeccakF_RoundConstants` are FIPS 202's `RC[i_r]`.
  * `keccakRound_toStateArray`: one half of the unrolled loop body is `Rnd`; lane by lane this
    also checks the code's 25 `ROL` offsets against the walk.
  * `keccakF1600StatePermute_eq_keccakP`: the whole permutation is Keccak-p[1600, 24].
-/
import Dilithium.Fips202.Permute
import Mathlib.Tactic.FinCases

namespace Dilithium.Fips202

/-! ## §1. The state array and the five step mappings. -/

/-- FIPS 202's state array, lane `A[x, y]`. -/
abbrev StateArray := Fin 5 → Fin 5 → Lane

/-- `A[x, y] = state[x + 5y]`. -/
def toStateArray (s : KeccakLanes) : StateArray := fun x y => s ⟨x.val + 5 * y.val, by omega⟩

/-- `state[i] = A[i mod 5, i / 5]`. -/
def ofStateArray (A : StateArray) : KeccakLanes := fun i => A ⟨i.val % 5, by omega⟩ ⟨i.val / 5, by omega⟩

@[simp]
theorem toStateArray_ofStateArray (A : StateArray) : toStateArray (ofStateArray A) = A := by
  funext x y
  exact congrArg₂ A (Fin.ext (show (x.val + 5 * y.val) % 5 = x.val by omega))
    (Fin.ext (show (x.val + 5 * y.val) / 5 = y.val by omega))

theorem ofStateArray_toStateArray (s : KeccakLanes) : ofStateArray (toStateArray s) = s := by
  funext i
  exact congrArg s (Fin.ext (Nat.mod_add_div i 5))

/-- θ: `C[x] = ⊕_y A[x, y]`, `D[x] = C[x - 1] ⊕ ROT(C[x + 1], 1)`, `A'[x, y] = A[x, y] ⊕ D[x]`. -/
def theta (A : StateArray) : StateArray :=
  let C : Fin 5 → Lane := fun x => A x 0 ^^^ A x 1 ^^^ A x 2 ^^^ A x 3 ^^^ A x 4
  let D : Fin 5 → Lane := fun x => C (x - 1) ^^^ (C (x + 1)).rotateLeft 1
  fun x y => A x y ^^^ D x

/-- The lane visited at step `t` of ρ's walk: `(1, 0)`, then `(x, y) ← (y, 2x + 3y mod 5)`. -/
def rhoWalk : Nat → Fin 5 × Fin 5
  | 0 => (1, 0)
  | t + 1 => let (x, y) := rhoWalk t; (y, 2 * x + 3 * y)

/-- ρ (Algorithm 2): lane `(0, 0)` is left as it is, and the lane visited at step `t < 24` of the walk
    is rotated by `(t + 1)(t + 2)/2 mod 64`. -/
def rho (A : StateArray) : StateArray := fun x y =>
  match (List.range 24).find? (fun t => rhoWalk t = (x, y)) with
  | some t => (A x y).rotateLeft ((t + 1) * (t + 2) / 2 % 64)
  | none => A x y

/-- π (Algorithm 3): `A'[x, y] = A[(x + 3y) mod 5, x]`. -/
def pi (A : StateArray) : StateArray := fun x y => A (x + 3 * y) x

/-- χ (Algorithm 4): `A'[x, y] = A[x, y] ⊕ (¬A[x + 1, y] ∧ A[x + 2, y])`. -/
def chi (A : StateArray) : StateArray := fun x y => A x y ^^^ (~~~A (x + 1) y &&& A (x + 2) y)

/-! ## §2. ι and its round constants. -/

/-- One step of Algorithm 5: `R = 0 ‖ R`, then `R[0], R[4], R[5], R[6] ⊕= R[8]`, then `Trunc_8`. -/
def lfsrStep (R : List Bool) : List Bool :=
  let R := false :: R
  let R := R.set 0 (R.getD 0 false ^^ R.getD 8 false)
  let R := R.set 4 (R.getD 4 false ^^ R.getD 8 false)
  let R := R.set 5 (R.getD 5 false ^^ R.getD 8 false)
  let R := R.set 6 (R.getD 6 false ^^ R.getD 8 false)
  R.take 8

/-- `rc(t)` (Algorithm 5). -/
def rc (t : Nat) : Bool :=
  if t % 255 = 0 then true
  else ((List.range (t % 255)).foldl (fun R _ => lfsrStep R)
    [true, false, false, false, false, false, false, false]).getD 0 false

/-- `RC` of round `i_r` (Algorithm 6): `RC[2^j - 1] = rc(j + 7 i_r)` for `j ≤ 6`. -/
def roundConstant (ir : Nat) : Lane :=
  (List.range 7).foldl (fun RC j => if rc (j + 7 * ir) then RC ||| BitVec.twoPow 64 (2 ^ j - 1) else RC) 0

/-- ι (Algorithm 6): `A'[0, 0] = A[0, 0] ⊕ RC`. -/
def iota (A : StateArray) (ir : Nat) : StateArray :=
  fun x y => if x = 0 ∧ y = 0 then A x y ^^^ roundConstant ir else A x y

/-- `Rnd(A, i_r) = ι(χ(π(ρ(θ(A)))), i_r)`. -/
def Rnd (A : StateArray) (ir : Nat) : StateArray := iota (chi (pi (rho (theta A)))) ir

/-- Keccak-p[1600, n_r] (Algorithm 7): rounds `12 + 2ℓ - n_r … 12 + 2ℓ - 1`, with `ℓ = 6`. -/
def keccakP (nr : Nat) (A : StateArray) : StateArray := (List.range' (24 - nr) nr).foldl Rnd A

/-! ## §3. The code's round constants are the standard's. -/

/-- `KeccakF_RoundConstants[i_r]` is the LFSR's `RC` for every round. -/
theorem roundConstant_eq : ∀ ir : Fin 24, roundConstant ir = keccakFRoundConstants.getD ir 0 := by
  decide

/-! ## §4. The unrolled loop computes `Rnd`. -/

/-- The locals as a state array: `Xba` is `A[0, 0]`, `Xbe` is `A[1, 0]`, `Xga` is `A[0, 1]`, … -/
def LaneVars.toStateArray (v : LaneVars) : StateArray :=
  ![![v.ba, v.ga, v.ka, v.ma, v.sa], ![v.be, v.ge, v.ke, v.me, v.se], ![v.bi, v.gi, v.ki, v.mi, v.si],
    ![v.bo, v.go, v.ko, v.mo, v.so], ![v.bu, v.gu, v.ku, v.mu, v.su]]

/-- One half of the loop body, with the constant of round `i_r`, is `Rnd(·, i_r)`. -/
theorem keccakRound_toStateArray (v : LaneVars) (ir : Nat) :
    (keccakRound v (roundConstant ir)).toStateArray = Rnd v.toStateArray ir := by
  simp (disch := decide) only [keccakRound, rol_eq_rotateLeft]
  -- lane by lane, both sides unfold to the same term: the walk's offsets are the code's `ROL`s
  funext x y
  fin_cases x <;> fin_cases y <;> rfl

theorem roundConstants_getD {ir : Nat} (h : ir < 24) :
    keccakFRoundConstants.getD ir 0 = roundConstant ir :=
  (roundConstant_eq ⟨ir, h⟩).symm

/-- One iteration of the loop is rounds `round` and `round + 1`. -/
theorem keccakRoundPair_toStateArray (A : LaneVars) {round : Nat} (h : round + 1 < 24) :
    (keccakRoundPair A round).toStateArray = Rnd (Rnd A.toStateArray round) (round + 1) := by
  rw [keccakRoundPair, roundConstants_getD h, roundConstants_getD (by omega), keccakRound_toStateArray,
    keccakRound_toStateArray]

/-- `k` iterations from `round = s` are the `2k` rounds from `s`. -/
theorem foldl_keccakRoundPair (k : Nat) : ∀ (A : LaneVars) (s : Nat), s + 2 * k ≤ 24 →
    ((List.range' s k 2).foldl keccakRoundPair A).toStateArray
      = (List.range' s (2 * k)).foldl Rnd A.toStateArray := by
  induction k with
  | zero => intro A s _; rfl
  | succ k ih =>
    intro A s h
    rw [show 2 * (k + 1) = (2 * k + 1) + 1 by omega]
    simp only [List.range'_succ, List.foldl_cons]
    rw [ih _ _ (by omega), keccakRoundPair_toStateArray A (by omega)]

/-- The permutation, as a function on states, is Keccak-p[1600, 24] read through the state array. -/
theorem keccakF1600StatePermute_eq_ofStateArray (state : KeccakLanes) :
    keccakF1600StatePermute state = ofStateArray (keccakP 24 (toStateArray state)) := by
  -- the locals copied out again form the array of the final locals
  have hstore : ∀ v : LaneVars, toStateArray ![v.ba, v.be, v.bi, v.bo, v.bu, v.ga, v.ge, v.gi, v.go,
      v.gu, v.ka, v.ke, v.ki, v.ko, v.ku, v.ma, v.me, v.mi, v.mo, v.mu, v.sa, v.se, v.si, v.so, v.su]
      = v.toStateArray := by
    intro v; funext x y; fin_cases x <;> fin_cases y <;> rfl
  have h : toStateArray (keccakF1600StatePermute state) = keccakP 24 (toStateArray state) := by
    rw [keccakF1600StatePermute, hstore, show NROUNDS / 2 = 12 from rfl,
      foldl_keccakRoundPair 12 _ 0 (by decide)]
    congr 1
    funext x y; fin_cases x <;> fin_cases y <;> rfl
  rw [← h, ofStateArray_toStateArray]

/-- `KeccakF1600_StatePermute` is Keccak-p[1600, 24] on `A[x, y] = state[x + 5y]`, for every state. -/
theorem keccakF1600StatePermute_eq_keccakP (state : KeccakLanes) :
    toStateArray (keccakF1600StatePermute state) = keccakP 24 (toStateArray state) := by
  rw [keccakF1600StatePermute_eq_ofStateArray, toStateArray_ofStateArray]

end Dilithium.Fips202
