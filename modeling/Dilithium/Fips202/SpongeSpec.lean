/-
  Dilithium.Fips202.SpongeSpec — FIPS 202's sponge construction on bit strings (§4, Algorithm 8),
  with the padding rule pad10*1 (Algorithm 9), and the conversions between the code's bytes and
  lanes and the standard's bit strings.

  Bit strings are `List Bool`.  `bytesToBits` is §B.1's `h2b` order (byte `i` gives bits
  `8i … 8i+7`, least significant first); `stateToBits` and `bitsToState` are §3.1.2's
  `S[64(5y + x) + z] = A[x, y, z]` on `A[x, y] = s[x + 5y]`.  `keccakF` is
  `KeccakF1600_StatePermute` read through those conversions: the `f` of `SPONGE[f, pad, r]`.
  The squeeze loop of Algorithm 8 runs on fuel; `d + 1` rounds always suffice, as
  `Dilithium.Fips202.Correctness` shows.

  Main results:
  * `getElem?_bytesToBits`: bit `i` of a byte string is bit `i % 8` of byte `i / 8`.
  * `stateBit_bitsToState`, `bitsToState_stateToBits`: the state conversions are inverse.
  * `keccakF_stateToBits`: `f` on the string of a state is the string of the permuted state.
  * `bytesToBits_stateBytes`: the first `r` state bytes are the first `8r` bits of the state string.
-/
import Dilithium.Fips202.Shake

namespace Dilithium.Fips202

/-! ## §1. Bit strings of bytes and states. -/
/-- A byte string as a bit string, each byte least significant bit first. -/
def bytesToBits (bs : List Byte) : List Bool := bs.flatMap fun b => (List.range 8).map b.getLsbD

/-- The 1600-bit string of a state. -/
def stateToBits (s : KeccakLanes) : List Bool := (List.range 1600).map (stateBit s)

/-- Lane `j` of the state a bit string denotes: bits `64j … 64j+63`, missing bits 0. -/
def laneOfBits (S : List Bool) (j : Nat) : Lane :=
  (List.range 64).foldl (fun v z => if S.getD (64 * j + z) false then v ||| BitVec.twoPow 64 z else v) 0

/-- The state a bit string denotes. -/
def bitsToState (S : List Bool) : KeccakLanes := fun j => laneOfBits S j

/-- `KeccakF1600_StatePermute` on bit strings. -/
def keccakF (S : List Bool) : List Bool := stateToBits (keccakF1600StatePermute (bitsToState S))

/-! ## §2. The sponge construction. -/

/-- `pad10*1(x, m) = 1 ‖ 0^j ‖ 1` with `j = (-m - 2) mod x` (Algorithm 9). -/
def pad10star1 (x m : Nat) : List Bool := true :: List.replicate ((x - (m + 2) % x) % x) false ++ [true]

/-- Steps 8–10 of Algorithm 8: `Z = Z ‖ Trunc_r(S)`; stop once `d ≤ |Z|`, else `S = f(S)`.  At most
    `fuel` rounds. -/
def spongeSqueeze (f : List Bool → List Bool) (r d : Nat) : Nat → List Bool → List Bool → List Bool
  | 0, _, Z => Z.take d
  | fuel + 1, S, Z =>
    let Z := Z ++ S.take r
    if d ≤ Z.length then Z.take d else spongeSqueeze f r d fuel (f S) Z

/-- `SPONGE[f, pad, r](N, d)` (Algorithm 8) on the 1600-bit state: `P = N ‖ pad(r, |N|)` cut into
    `n = |P|/r` blocks, each XOR-ed into `S` as `P_i ‖ 0^c` before `f`, then the squeeze. -/
def sponge (f : List Bool → List Bool) (pad : Nat → Nat → List Bool) (r : Nat) (N : List Bool) (d : Nat) :
    List Bool :=
  let P := N ++ pad r N.length
  let n := P.length / r
  let c := 1600 - r
  let S := (List.range n).foldl
    (fun S i => f (List.zipWith xor S ((P.drop (i * r)).take r ++ List.replicate c false)))
    (List.replicate 1600 false)
  spongeSqueeze f r d (d + 1) S []

/-! ## §3. The conversions. -/

@[simp]
theorem length_bytesToBits (bs : List Byte) : (bytesToBits bs).length = 8 * bs.length := by
  induction bs with
  | nil => rfl
  | cons b bs ih => simp [bytesToBits] at ih ⊢; omega

/-- Bit `i` of a byte string is bit `i % 8` of byte `i / 8`. -/
theorem getElem?_bytesToBits (bs : List Byte) (i : Nat) :
    (bytesToBits bs)[i]? = if i < 8 * bs.length then some ((bs.getD (i / 8) 0).getLsbD (i % 8)) else none := by
  induction bs generalizing i with
  | nil => simp [bytesToBits]
  | cons b bs ih =>
    rw [show bytesToBits (b :: bs) = (List.range 8).map b.getLsbD ++ bytesToBits bs from List.flatMap_cons _ _ _]
    by_cases h : i < 8
    · simp [List.getElem?_append_left, h, show i < 8 * (bs.length + 1) by omega, show i / 8 = 0 by omega,
        Nat.mod_eq_of_lt h]
    · rw [List.getElem?_append_right (by simp; omega), ih]
      simp only [List.length_map, List.length_range, List.length_cons]
      by_cases h2 : i - 8 < 8 * bs.length
      · simp [h2, show i < 8 * (bs.length + 1) by omega, show i / 8 = (i - 8) / 8 + 1 by omega,
          show (i - 8) % 8 = i % 8 by omega]
      · simp [h2, show ¬ i < 8 * (bs.length + 1) by omega]

/-- Bit `z` of lane `j` is string bit `64j + z`. -/
theorem laneOfBits_getLsbD (S : List Bool) (j z : Nat) :
    (laneOfBits S j).getLsbD z = (decide (z < 64) && S.getD (64 * j + z) false) := by
  have key : ∀ m, ((List.range m).foldl
      (fun v z => if S.getD (64 * j + z) false then v ||| BitVec.twoPow 64 z else v) 0).getLsbD z
      = (decide (z < 64) && decide (z < m) && S.getD (64 * j + z) false) := by
    intro m
    induction m with
    | zero => simp
    | succ m ih =>
      rw [List.range_succ, List.foldl_append, List.foldl_cons, List.foldl_nil]
      split
      · rw [BitVec.getLsbD_or, ih, BitVec.getLsbD_twoPow]
        by_cases h : z = m
        · subst h; simp_all
        · simp [h, Ne.symm h, show z < m + 1 ↔ z < m by omega]
      · rw [ih]
        by_cases h : z = m
        · subst h; simp_all
        · simp [show z < m + 1 ↔ z < m by omega]
  rw [laneOfBits, key]
  by_cases h : z < 64 <;> simp [h]

/-- State bit `k` of the state a string denotes is string bit `k`. -/
theorem stateBit_bitsToState (S : List Bool) {k : Nat} (hk : k < 1600) :
    stateBit (bitsToState S) k = S.getD k false := by
  simp [stateBit, getLane, show k / 64 < 25 by omega, bitsToState, laneOfBits_getLsbD,
    show k % 64 < 64 by omega, show 64 * (k / 64) + k % 64 = k by omega]

/-- A state is the state its string denotes. -/
theorem bitsToState_stateToBits (s : KeccakLanes) : bitsToState (stateToBits s) = s := by
  apply KeccakLanes.ext_stateBit
  intro k hk
  rw [stateBit_bitsToState _ hk]
  simp [stateToBits, hk]

/-- `f` on the string of a state is the string of the permuted state. -/
theorem keccakF_stateToBits (s : KeccakLanes) :
    keccakF (stateToBits s) = stateToBits (keccakF1600StatePermute s) := by
  rw [keccakF, bitsToState_stateToBits]

/-- `bytesToBits` of a concatenation. -/
theorem bytesToBits_append (a b : List Byte) : bytesToBits (a ++ b) = bytesToBits a ++ bytesToBits b :=
  List.flatMap_append _ _ _

/-- The first `n` bytes are the first `8n` bits. -/
theorem bytesToBits_take (bs : List Byte) (n : Nat) : bytesToBits (bs.take n) = (bytesToBits bs).take (8 * n) := by
  apply List.ext_getElem?
  intro i
  rw [getElem?_bytesToBits, List.getElem?_take, getElem?_bytesToBits]
  by_cases h : i < 8 * n
  · by_cases h2 : i < 8 * bs.length
    · simp [h, h2, show i < 8 * min n bs.length by omega, show i / 8 < n by omega, List.getElem?_take]
    · simp [h, h2, show ¬ i < 8 * min n bs.length by omega]
  · simp [h, show ¬ i < 8 * min n bs.length by omega]

/-- Dropping `n` bytes drops `8n` bits. -/
theorem bytesToBits_drop (bs : List Byte) (n : Nat) : bytesToBits (bs.drop n) = (bytesToBits bs).drop (8 * n) := by
  apply List.ext_getElem?
  intro i
  rw [getElem?_bytesToBits, List.getElem?_drop, getElem?_bytesToBits]
  by_cases h : i < 8 * (bs.length - n)
  · simp [h, show 8 * n + i < 8 * bs.length by omega, show (8 * n + i) / 8 = n + i / 8 by omega,
      show (8 * n + i) % 8 = i % 8 by omega]
  · simp [h, show ¬ 8 * n + i < 8 * bs.length by omega]

/-- The first `r` state bytes are `Trunc_{8r}` of the state string. -/
theorem bytesToBits_stateBytes (s : KeccakLanes) {r : Nat} (hr : r ≤ 200) :
    bytesToBits ((List.range' 0 r).map (stateByte s)) = (stateToBits s).take (8 * r) := by
  apply List.ext_getElem?
  intro i
  rw [getElem?_bytesToBits, List.getElem?_take]
  by_cases h : i < 8 * r
  · simp [h, stateToBits, show i < 1600 by omega, show i % 8 < 8 by omega,
      show 8 * (i / 8) + i % 8 = i by omega, show i / 8 < r by omega]
  · simp [h]

/-- The zero state is `0^1600`. -/
theorem stateToBits_keccakInit : stateToBits keccakInit = List.replicate 1600 false := by
  rw [List.eq_replicate_iff, stateToBits, List.length_map, List.length_range]
  refine ⟨rfl, fun b hb => ?_⟩
  obtain ⟨k, -, rfl⟩ := List.mem_map.mp hb
  simp only [stateBit, getLane, keccakInit]
  split <;> simp

end Dilithium.Fips202
