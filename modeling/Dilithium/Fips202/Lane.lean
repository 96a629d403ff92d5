/-
  Dilithium.Fips202.Lane — the 64-bit lanes and the 25-lane Keccak state of `fips202.c`, and the
  byte and bit views FIPS 202 reads them through.

  The code keeps the state as `uint64_t s[25]` and addresses it byte-wise: byte `i` of the
  200-byte state is byte `i % 8` of lane `i / 8` (`s[i/8] ^= (uint64_t)b << 8*(i%8)`), and bit `j`
  of a byte is its `2^j` bit.  `stateByte` and `stateBit` are those two views; every later module
  states its results through them.

  Main results:
  * `rol_eq_rotateLeft`: the `ROL` macro is a left rotation for offsets below 64.
  * `load64_getLsbD`, `store64_getLane`: `load64` / `store64` are little-endian.
  * `load64_store64_roundTrip`: the two are inverse, on lanes and on 8-byte strings.
  * `stateBit_xorBytes`: XOR-ing a byte string in at a cursor, bit by bit.
  * `KeccakLanes.ext_stateBit`: two states with the same 1600 bits are equal.
-/
import Mathlib.Data.Fin.VecNotation

namespace Dilithium.Fips202

/-! ## §1. Lanes, bytes and the `ROL` macro. -/

/-- A Keccak lane, `uint64_t`. -/
abbrev Lane := BitVec 64

/-- A byte, `uint8_t`. -/
abbrev Byte := BitVec 8

/-- `ROL(a, offset)`: `(a << offset) ^ (a >> (64-offset))`. -/
def rol (a : Lane) (offset : Nat) : Lane := (a <<< offset) ^^^ (a >>> (64 - offset))

/-- For every offset the permutation uses, `ROL` is the rotation FIPS 202 writes `ROT`. -/
theorem rol_eq_rotateLeft (a : Lane) {n : Nat} (h : n < 64) : rol a n = a.rotateLeft n := by
  ext i
  simp only [rol, BitVec.getLsbD_xor, BitVec.getLsbD_rotateLeft, BitVec.getLsbD_shiftLeft,
    BitVec.getLsbD_ushiftRight, Nat.mod_eq_of_lt h]
  by_cases hi : (i : Nat) < n
  · simp [hi]
  · simp [hi, BitVec.getLsbD_ge a (64 - n + i) (by omega)]

/-! ## §2. `load64` and `store64`. -/

/-- `load64(x)`: `r |= (uint64_t)x[i] << 8*i` for `i < 8`.  A byte past the end of `x` reads as 0;
    the code only calls it on 8 bytes inside its buffer. -/
def load64 (x : List Byte) : Lane :=
  (List.range 8).foldl (fun r i => r ||| ((x.getD i 0).setWidth 64 <<< (8 * i))) 0

/-- `store64(x, u)`: `x[i] = u >> 8*i` for `i < 8`. -/
def store64 (u : Lane) : List Byte := (List.range 8).map fun i => (u >>> (8 * i)).setWidth 8

/-- Bit `k` of a byte widened to a lane and shifted to byte slot `m`. -/
theorem getLsbD_byte_shift (b : Byte) (k m : Nat) :
    ((b.setWidth 64) <<< (8 * m)).getLsbD k
      = (decide (k < 64) && decide (8 * m ≤ k) && decide (k < 8 * m + 8) && b.getLsbD (k - 8 * m)) := by
  simp only [BitVec.getLsbD_shiftLeft, BitVec.getLsbD_setWidth]
  by_cases h : k < 8 * m + 8
  · by_cases h2 : 8 * m ≤ k
    · simp [h, h2, show k - 8 * m < 64 by omega, show ¬ k < 8 * m by omega]
    · simp [h, h2, show k < 8 * m by omega]
  · simp [h, BitVec.getLsbD_ge b (k - 8 * m) (by omega)]

/-- The first `m` iterations of the `load64` loop set the bits of the first `m` bytes. -/
theorem load64_foldl_getLsbD (x : List Byte) (k m : Nat) :
    ((List.range m).foldl (fun r i => r ||| ((x.getD i 0).setWidth 64 <<< (8 * i))) 0).getLsbD k
      = (decide (k < 64) && decide (k < 8 * m) && (x.getD (k / 8) 0).getLsbD (k % 8)) := by
  induction m with
  | zero => simp
  | succ m ih =>
    rw [List.range_succ, List.foldl_append, List.foldl_cons, List.foldl_nil, BitVec.getLsbD_or, ih,
      getLsbD_byte_shift]
    by_cases h : k < 8 * m
    · simp [h, show k < 8 * (m + 1) by omega]
    · by_cases h2 : k < 8 * m + 8
      · simp [h2, show k / 8 = m by omega, show k % 8 = k - 8 * m by omega, show k < 8 * (m + 1) by omega,
          show 8 * m ≤ k by omega]
      · simp [h, h2, show ¬ k < 8 * (m + 1) by omega]

/-- `load64` is little-endian: bit `k` of the lane is bit `k % 8` of byte `k / 8`. -/
theorem load64_getLsbD (x : List Byte) (k : Nat) :
    (load64 x).getLsbD k = (decide (k < 64) && (x.getD (k / 8) 0).getLsbD (k % 8)) := by
  rw [load64, load64_foldl_getLsbD]
  by_cases h : k < 64 <;> simp [h]

/-- Bit `j` of byte `i` of `store64 u` is bit `8i + j` of `u`. -/
theorem store64_getD_getLsbD (u : Lane) {i j : Nat} (hi : i < 8) (hj : j < 8) :
    ((store64 u).getD i 0).getLsbD j = u.getLsbD (8 * i + j) := by
  simp [store64, hi, hj, List.getD_eq_getElem?_getD, Nat.add_comm j]

/-- `load64 ∘ store64` is the identity on lanes. -/
theorem load64_store64 (u : Lane) : load64 (store64 u) = u := by
  ext k
  rw [load64_getLsbD, store64_getD_getLsbD u (by omega) (by omega)]
  rw [show 8 * ((k : Nat) / 8) + (k : Nat) % 8 = k by omega]
  simp

/-- `store64 ∘ load64` is the identity on 8-byte strings. -/
theorem store64_load64 {x : List Byte} (hx : x.length = 8) : store64 (load64 x) = x := by
  apply List.ext_getElem (by simp [store64, hx])
  intro i h1 h2
  simp only [store64, List.length_map, List.length_range] at h1
  ext j
  have h := store64_getD_getLsbD (load64 x) h1 j.isLt
  simp only [List.getD_eq_getElem?_getD, List.getElem?_eq_getElem (h1.trans_eq hx.symm),
    List.getElem?_eq_getElem (show i < (store64 (load64 x)).length by simpa [store64] using h1),
    Option.getD_some] at h
  rw [h, load64_getLsbD]
  simp [show 8 * i + j < 64 by omega, show (8 * i + (j : Nat)) / 8 = i by omega,
    show (8 * i + (j : Nat)) % 8 = j by omega, List.getD_eq_getElem?_getD, List.getElem?_eq_getElem h2]

/-- `load64` and `store64` are inverse: on every lane, and on every 8-byte string. -/
theorem load64_store64_roundTrip :
    (∀ u : Lane, load64 (store64 u) = u) ∧ (∀ x : List Byte, x.length = 8 → store64 (load64 x) = x) :=
  ⟨load64_store64, fun _ => store64_load64⟩

/-- The round trip on the bytes `1 … 8`. -/
theorem load64_store64_roundTrip_bytes :
    [1, 2, 3, 4, 5, 6, 7, 8].length = 8 ∧
      store64 (load64 [1, 2, 3, 4, 5, 6, 7, 8]) = [1, 2, 3, 4, 5, 6, 7, 8] :=
  ⟨rfl, load64_store64_roundTrip.2 _ rfl⟩

/-! ## §3. The 25-lane state and its byte and bit views. -/

/-- The permutation state `uint64_t s[25]`. -/
abbrev KeccakLanes := Fin 25 → Lane

/-- `s[j]`, read as 0 past the 25 lanes. -/
def getLane (s : KeccakLanes) (j : Nat) : Lane := if h : j < 25 then s ⟨j, h⟩ else 0

/-- `s[j] ^= v`. -/
def xorLane (s : KeccakLanes) (j : Nat) (v : Lane) : KeccakLanes :=
  fun k => if k.val = j then s k ^^^ v else s k

/-- `s[i/8] ^= (uint64_t)b << 8*(i%8)`: XOR byte `b` into byte `i` of the state. -/
def xorByte (s : KeccakLanes) (i : Nat) (b : Byte) : KeccakLanes :=
  xorLane s (i / 8) (b.setWidth 64 <<< (8 * (i % 8)))

/-- `s[i/8] >> 8*(i%8)` as a byte: byte `i` of the state, as `keccak_squeeze` reads it. -/
def stateByte (s : KeccakLanes) (i : Nat) : Byte := (getLane s (i / 8) >>> (8 * (i % 8))).setWidth 8

/-- Bit `k` of the state string, FIPS 202's `S[64(5y+x)+z]` for lane `x + 5y`. -/
def stateBit (s : KeccakLanes) (k : Nat) : Bool := (getLane s (k / 64)).getLsbD (k % 64)

/-- The byte loop `s[i/8] ^= (uint64_t)*in++ << 8*(i%8)` for `i` from `pos` over the bytes `bs`. -/
def xorBytes (s : KeccakLanes) (pos : Nat) : List Byte → KeccakLanes
  | [] => s
  | b :: bs => xorBytes (xorByte s pos b) (pos + 1) bs

@[simp]
theorem getLane_xorLane (s : KeccakLanes) (v : Lane) {i : Nat} (j : Nat) (hi : i < 25) :
    getLane (xorLane s j v) i = if i = j then getLane s i ^^^ v else getLane s i := by
  simp [getLane, xorLane, hi]

@[simp]
theorem stateBit_xorLane (s : KeccakLanes) (j : Nat) (v : Lane) {k : Nat} (hk : k < 1600) :
    stateBit (xorLane s j v) k = (stateBit s k ^^ (decide (k / 64 = j) && v.getLsbD (k % 64))) := by
  rw [stateBit, stateBit, getLane_xorLane _ _ _ (by omega)]
  by_cases h : k / 64 = j <;> simp [h]

/-- XOR-ing a byte in at `i` flips exactly the bits `8i … 8i+7` that are set in the byte. -/
@[simp]
theorem stateBit_xorByte (s : KeccakLanes) (i : Nat) (b : Byte) {k : Nat} (hk : k < 1600) :
    stateBit (xorByte s i b) k = (stateBit s k ^^ (decide (k / 8 = i) && b.getLsbD (k % 8))) := by
  rw [xorByte, stateBit_xorLane _ _ _ hk, getLsbD_byte_shift]
  by_cases h : k / 8 = i
  · subst h
    simp [show k / 64 = k / 8 / 8 by omega, show 8 * (k / 8 % 8) ≤ k % 64 by omega,
      show k % 64 < 8 * (k / 8 % 8) + 8 by omega, show k % 64 - 8 * (k / 8 % 8) = k % 8 by omega,
      show k % 64 < 64 by omega]
  · by_cases h2 : k / 64 = i / 8
    · by_cases h3 : 8 * (i % 8) ≤ k % 64
      · simp [h, h2, h3, show ¬ k % 64 < 8 * (i % 8) + 8 by omega]
      · simp [h, h2, h3]
    · simp [h, h2]

/-- Bit `m` of state byte `i` is state bit `8i + m`. -/
@[simp]
theorem stateByte_getLsbD (s : KeccakLanes) (i m : Nat) :
    (stateByte s i).getLsbD m = (decide (m < 8) && stateBit s (8 * i + m)) := by
  by_cases hm : m < 8
  · simp [stateByte, stateBit, hm, show (8 * i + m) / 64 = i / 8 by omega,
      show (8 * i + m) % 64 = 8 * (i % 8) + m by omega]
  · simp [stateByte, hm]

/-- Two states with the same 1600-bit string are equal. -/
theorem KeccakLanes.ext_stateBit {s t : KeccakLanes} (h : ∀ k < 1600, stateBit s k = stateBit t k) :
    s = t := by
  funext j
  ext z
  have := h (64 * j + z) (by omega)
  simp only [stateBit, getLane, show (64 * (j : Nat) + z) / 64 = j by omega,
    show (64 * (j : Nat) + z) % 64 = z by omega, j.isLt, dite_true] at this
  exact this

/-- `store64(out+8*j, s[j])` writes state bytes `8j … 8j+7`. -/
theorem store64_getLane (s : KeccakLanes) (j : Nat) :
    store64 (getLane s j) = (List.range' (8 * j) 8).map (stateByte s) := by
  apply List.ext_getElem (by simp [store64])
  intro i h1 h2
  simp only [store64, List.length_map, List.length_range] at h1
  simp [store64, stateByte, show (8 * j + i) / 8 = j by omega, show (8 * j + i) % 8 = i by omega]

/-- The byte loop from `pos` flips bit `k` by bit `k % 8` of byte `k / 8 - pos` of the input. -/
@[simp]
theorem stateBit_xorBytes (bs : List Byte) (s : KeccakLanes) (pos : Nat) {k : Nat} (hk : k < 1600) :
    stateBit (xorBytes s pos bs) k
      = (stateBit s k ^^ (decide (pos ≤ k / 8) && (bs.getD (k / 8 - pos) 0).getLsbD (k % 8))) := by
  induction bs generalizing s pos with
  | nil => simp [xorBytes]
  | cons b bs ih =>
    rw [xorBytes, ih, stateBit_xorByte _ _ _ hk]
    by_cases h : k / 8 = pos
    · simp [h, show ¬ pos + 1 ≤ pos by omega]
    · by_cases h2 : pos ≤ k / 8
      · simp [h, h2, show pos + 1 ≤ k / 8 by omega, show k / 8 - pos = (k / 8 - (pos + 1)) + 1 by omega]
      · simp [h, h2, show ¬ pos + 1 ≤ k / 8 by omega]

/-- The byte loop over `a ++ b` is the loop over `a`, then over `b` from where it stopped. -/
theorem xorBytes_append (s : KeccakLanes) (pos : Nat) (a b : List Byte) :
    xorBytes s pos (a ++ b) = xorBytes (xorBytes s pos a) (pos + a.length) b := by
  induction a generalizing s pos with
  | nil => rfl
  | cons x a ih =>
    rw [List.cons_append, xorBytes, xorBytes, ih, List.length_cons, Nat.add_assoc, Nat.add_comm 1]

end Dilithium.Fips202
