/-
  Dilithium.Fips202.Correctness — the one-shot functions of `fips202.c` compute the FIPS 202
  sponge: `shake128` is `SPONGE[f, pad10*1, 1344](M ‖ 1111, 8n)`, `shake256` the same at 1088,
  `sha3_256` is `SPONGE[f, pad10*1, 1088](M ‖ 01, 256)` and `sha3_512` the same at 576, with
  `f = KeccakF1600_StatePermute`.

  The proof runs through the byte machine of `Dilithium.Fips202.ByteSponge`.  On the absorbing
  side the message and the bytes finalization XORs in (`padBytes`: the domain byte at the cursor,
  `0x80` at the last rate byte) make the padded message `paddedBytes`, whose bits are `M ‖ sfx`
  followed by pad10*1 (`bytesToBits_padBytes`, which covers a message that ends on a block
  boundary and one whose domain byte and final pad bit share a byte); its whole blocks absorbed
  by the machine are Algorithm 8's absorbing loop on the state string.  On the squeezing side the
  machine reads the stream `Trunc_r(S) ‖ Trunc_r(f(S)) ‖ …` that Algorithm 8 truncates.

  Main results:
  * `permute_finalize_foldl`: absorb, finalize and permute is `absorbBlocks` of the padded message.
  * `sponge_eq_spongeSqueeze`: the FIPS sponge is its squeeze from that state.
  * `squeeze_finalize_eq_sponge`: squeezing `n` bytes gives `SPONGE[…](M ‖ sfx, 8n)`.
  * `fips202_eq_sponge`: the four one-shot functions.
  * `fips202_eq_keccak`: the same with the standard's own Keccak-p[1600, 24] as `f`, so that the
    right-hand sides are FIPS 202's `SHAKE128`, `SHAKE256`, `SHA3-256` and `SHA3-512` with no
    definition of the code in them.
-/
import Dilithium.Fips202.SpongeSpec
import Dilithium.Fips202.Incremental
import Dilithium.Fips202.KeccakP
import Mathlib.Tactic.Ring

namespace Dilithium.Fips202

/-! ## §1. Squeezing: the code reads the FIPS string `Z`. -/

/-- The bits of `k` successive rate windows: `Trunc_r(S) ‖ Trunc_r(f(S)) ‖ …` on the string of `s`. -/
def keccakStream (r : Nat) : Nat → KeccakLanes → List Bool
  | 0, _ => []
  | k + 1, s => (stateToBits s).take r ++ keccakStream r k (keccakF1600StatePermute s)

/-- The bytes of `k` blocks squeezed from a state whose cursor is at the rate. -/
def byteStream (r : Nat) : Nat → KeccakLanes → List Byte
  | 0, _ => []
  | k + 1, s => (List.range' 0 r).map (stateByte (keccakF1600StatePermute s)) ++
      byteStream r k (keccakF1600StatePermute s)

/-- The squeeze loop of Algorithm 8 on `f = keccakF`, with enough fuel, returns `Trunc_d` of the stream. -/
theorem spongeSqueeze_keccakF {r d : Nat} (hr : 0 < r) (hr' : r ≤ 1600) :
    ∀ (fuel : Nat) (s : KeccakLanes) (Z : List Bool), d ≤ Z.length + fuel * r → 0 < fuel →
      spongeSqueeze keccakF r d fuel (stateToBits s) Z = (Z ++ keccakStream r fuel s).take d := by
  intro fuel
  induction fuel with
  | zero => intro s Z _ h; omega
  | succ fuel ih =>
    intro s Z hd _
    have hlen : ((stateToBits s).take r).length = r := by simp [stateToBits]; omega
    rw [spongeSqueeze, keccakStream, ← List.append_assoc]
    split
    · exact (List.take_append_of_le_length ‹_›).symm
    · rw [keccakF_stateToBits, ih _ _ (by simp only [List.length_append, hlen] at *; rw [Nat.succ_mul] at hd; omega)
        (by by_contra h0; simp only [List.length_append, hlen] at *; simp at h0; subst h0; omega)]

/-- From a cursor at the rate, the byte machine squeezes a prefix of the byte stream. -/
theorem squeezeBytes_from_rate {r : Nat} (hr : 0 < r) :
    ∀ (k n : Nat) (s : KeccakLanes), n ≤ k * r → (squeezeBytes r n ⟨s, r⟩).1 = (byteStream r k s).take n := by
  intro k
  induction k with
  | zero => intro n s h; simp at h; subst h; rfl
  | succ k ih =>
    intro n s h
    rw [byteStream]
    by_cases hn : n = 0
    · subst hn; rfl
    by_cases hnr : n ≤ r
    · rw [squeezeBytes_at_rate hr hn, squeezeBytes_block r n _ 0 (by omega),
        List.take_append_of_le_length (by simpa using hnr), ← List.map_take, ← List.range_eq_range',
        ← List.range_eq_range', List.take_range, Nat.min_eq_left hnr]
    · -- a whole first block, then the rest from the next permutation on
      have hblock : squeezeBytes r r ⟨s, r⟩
          = ((List.range' 0 r).map (stateByte (keccakF1600StatePermute s)), ⟨keccakF1600StatePermute s, r⟩) := by
        rw [@squeezeBytes_at_rate r r hr (by omega), squeezeBytes_block r r _ 0 (by omega), Nat.zero_add]
      have hsplit := squeezeBytes_add r r (n - r) ⟨s, r⟩
      rw [Nat.add_sub_cancel' (by omega), hblock] at hsplit
      rw [hsplit, List.take_append_eq_append_take, List.take_of_length_le (by simp; omega)]
      simp only [List.length_map, List.length_range']
      rw [ih _ _ (by rw [Nat.succ_mul] at h; omega)]

/-- The byte stream, as bits, is the FIPS stream of the permuted state. -/
theorem bytesToBits_byteStream {r : Nat} (hr : r ≤ 200) (k : Nat) (s : KeccakLanes) :
    bytesToBits (byteStream r k s) = keccakStream (8 * r) k (keccakF1600StatePermute s) := by
  induction k generalizing s with
  | zero => rfl
  | succ k ih => rw [byteStream, bytesToBits_append, bytesToBits_stateBytes _ hr, ih, keccakStream]

/-! ## §2. Absorbing whole blocks. -/

/-- Absorbing one block at the byte level is `f(S ⊕ (P_i ‖ 0^c))` on the state's string. -/
theorem keccakF_xor_block {r : Nat} (hr : r ≤ 200) (s : KeccakLanes) (blk : List Byte) (hblk : blk.length = r) :
    keccakF (List.zipWith xor (stateToBits s) (bytesToBits blk ++ List.replicate (1600 - 8 * r) false))
      = stateToBits (keccakF1600StatePermute (xorBytes s 0 blk)) := by
  suffices h : bitsToState (List.zipWith xor (stateToBits s)
      (bytesToBits blk ++ List.replicate (1600 - 8 * r) false)) = xorBytes s 0 blk by rw [keccakF, h]
  apply KeccakLanes.ext_stateBit
  intro k hk
  rw [stateBit_bitsToState _ hk, stateBit_xorBytes _ _ _ hk, List.getD_eq_getElem?_getD,
    List.getElem?_zipWith]
  have hs : (stateToBits s)[k]? = some (stateBit s k) := by simp [stateToBits, hk]
  rw [hs]
  by_cases h : k < 8 * r
  · rw [List.getElem?_append_left (by rw [length_bytesToBits]; omega), getElem?_bytesToBits]
    simp [h, hblk, List.getD_eq_getElem?_getD]
  · rw [List.getElem?_append_right (by rw [length_bytesToBits]; omega), length_bytesToBits, hblk,
      List.getElem?_replicate]
    have : blk[k / 8]? = none := List.getElem?_eq_none (by omega)
    simp [show k - 8 * r < 1600 - 8 * r by omega, this]

/-- The first `n` blocks of `r` bytes of `P` absorbed into `s`, each followed by the permutation. -/
def absorbBlocks (r : Nat) (P : List Byte) (n : Nat) (s : KeccakLanes) : KeccakLanes :=
  (List.range n).foldl (fun s i => keccakF1600StatePermute (xorBytes s 0 ((P.drop (i * r)).take r))) s

/-- One more block: XOR it in at 0 and permute. -/
theorem absorbBlocks_succ (r : Nat) (P : List Byte) (n : Nat) (s : KeccakLanes) :
    absorbBlocks r P (n + 1) s
      = keccakF1600StatePermute (xorBytes (absorbBlocks r P n s) 0 ((P.drop (n * r)).take r)) := by
  simp only [absorbBlocks, List.range_succ, List.foldl_append, List.foldl_cons, List.foldl_nil]

/-- The absorbing loop of Algorithm 8 over the first `n` blocks is `absorbBlocks` on the state string. -/
theorem absorb_bits_eq_absorbBlocks {r : Nat} (hr : r ≤ 200) (P : List Byte) (s : KeccakLanes) :
    ∀ n, n * r ≤ P.length →
      (List.range n).foldl (fun S i => keccakF (List.zipWith xor S
          (((bytesToBits P).drop (i * (8 * r))).take (8 * r) ++ List.replicate (1600 - 8 * r) false)))
        (stateToBits s)
      = stateToBits (absorbBlocks r P n s) := by
  intro n
  induction n with
  | zero => intro _; simp [absorbBlocks]
  | succ n ih =>
    intro h
    rw [Nat.succ_mul] at h
    rw [List.range_succ, List.foldl_append, List.foldl_cons, List.foldl_nil, ih (by omega), absorbBlocks_succ,
      show n * (8 * r) = 8 * (n * r) by rw [Nat.mul_left_comm], ← bytesToBits_drop, ← bytesToBits_take,
      keccakF_xor_block hr _ _ (by simp; omega)]

/-- The byte machine over `n` whole blocks from cursor 0 is `absorbBlocks`. -/
theorem foldl_absorbByte_blocks {r : Nat} (hr : 0 < r) (P : List Byte) :
    ∀ (n : Nat) (s : KeccakLanes), n * r ≤ P.length →
      (P.take (n * r)).foldl (absorbByte r) ⟨s, 0⟩ = ⟨absorbBlocks r P n s, 0⟩ := by
  intro n
  induction n with
  | zero => intro s _; simp [absorbBlocks]
  | succ n ih =>
    intro s h
    rw [Nat.succ_mul] at h
    rw [Nat.succ_mul, List.take_add, List.foldl_append, ih s (by omega),
      foldl_absorbByte_fill r _ _ _ (List.ne_nil_of_length_pos (by simp; omega)) (by simp; omega),
      absorbBlocks_succ]

/-! ## §3. The last block: domain byte and pad10*1. -/

/-- The last block's bytes from position `t` on, as the code XORs them in at finalization: the domain
    byte `p` at `t` and `0x80` at `r - 1`. -/
def padBytes (r t : Nat) (p : Byte) : List Byte :=
  (List.range (r - t)).map fun d => (if d = 0 then p else 0) ^^^ (if d = r - t - 1 then 0x80 else 0)

@[simp]
theorem length_padBytes (r t : Nat) (p : Byte) : (padBytes r t p).length = r - t := by
  simp [padBytes]

/-- Byte `d` of the pad: `p` at 0, `0x80` at the end, both XOR-ed when the block has one byte left. -/
theorem getD_padBytes {r t d : Nat} (p : Byte) :
    (padBytes r t p).getD d 0
      = if d < r - t then (if d = 0 then p else 0) ^^^ (if d = r - t - 1 then 0x80 else 0) else 0 := by
  by_cases h : d < r - t
  · simp [padBytes, h, List.getD_eq_getElem?_getD]
  · simp [padBytes, h, List.getD_eq_getElem?_getD,
      List.getElem?_eq_none (show (List.range (r - t)).length ≤ d by simp; omega)]

/-- The bits of one pad byte. -/
theorem getLsbD_padByte {a b : Prop} [Decidable a] [Decidable b] {j : Nat} (p : Byte) (hj : j < 8) :
    ((if a then p else 0) ^^^ (if b then 0x80 else 0) : Byte).getLsbD j
      = ((decide a && p.getLsbD j) ^^ (decide b && decide (j = 7))) := by
  have h80 : (0x80#8).getLsbD j = decide (j = 7) :=
    (by decide : ∀ j : Fin 8, (0x80#8).getLsbD j.val = decide (j.val = 7)) ⟨j, hj⟩
  by_cases ha : a <;> by_cases hb : b <;> simp [ha, hb, h80]

/-- Bit `i` of `sfx ‖ 1 ‖ 0^k`. -/
theorem getElem?_suffix_pad (sfx : List Bool) (k i : Nat) :
    (sfx ++ true :: List.replicate k false)[i]?
      = if i < sfx.length + 1 + k then some (if i < sfx.length then sfx.getD i false else decide (i = sfx.length))
        else none := by
  by_cases h : i < sfx.length
  · simp [h, List.getElem?_append_left, List.getD_eq_getElem?_getD, show i < sfx.length + 1 + k by omega]
  · rw [List.getElem?_append_right (by omega)]
    by_cases h2 : i = sfx.length
    · simp [h2, show sfx.length < sfx.length + 1 + k by omega]
    · obtain ⟨d, hd⟩ : ∃ d, i - sfx.length = d + 1 := ⟨i - sfx.length - 1, by omega⟩
      rw [hd, List.getElem?_cons_succ, List.getElem?_replicate]
      by_cases h3 : d < k
      · simp [h, h2, h3, show i < sfx.length + 1 + k by omega]
      · simp [h, h2, h3, show ¬ i < sfx.length + 1 + k by omega]

/-- Bit `i` of `sfx ‖ 1 ‖ 0^k ‖ 1`. -/
theorem getElem?_suffix_pad_one (sfx : List Bool) (k i : Nat) :
    (sfx ++ true :: List.replicate k false ++ [true])[i]?
      = if i < sfx.length + k + 2 then
          some (if i < sfx.length then sfx.getD i false else decide (i = sfx.length ∨ i = sfx.length + k + 1))
        else none := by
  rw [List.getElem?_append, getElem?_suffix_pad]
  simp only [List.length_append, List.length_cons, List.length_replicate]
  by_cases h : i < sfx.length + 1 + k
  · rw [if_pos (show i < sfx.length + (k + 1) by omega), if_pos h, if_pos (show i < sfx.length + k + 2 by omega)]
    by_cases hs : i < sfx.length
    · simp [hs]
    · simp [hs]; omega
  · rw [if_neg (show ¬ i < sfx.length + (k + 1) by omega)]
    by_cases he : i = sfx.length + k + 1
    · rw [he, show sfx.length + k + 1 - (sfx.length + (k + 1)) = 0 by omega, if_pos (by omega),
        if_neg (by omega)]
      simp
    · rw [List.getElem?_eq_none (by simp; omega), if_neg (by omega)]

/-- pad10*1 after `M` bytes and an `s`-bit suffix fills the block of `M`: `8(r - M mod r) - s - 2` zeros. -/
theorem pad10star1_eq {r M s : Nat} (hr : 0 < r) (hs : s ≤ 6) :
    pad10star1 (8 * r) (8 * M + s) = true :: List.replicate (8 * (r - M % r) - s - 2) false ++ [true] := by
  have hM := Nat.div_add_mod M r
  have hlt := Nat.mod_lt M hr
  have hmod : (8 * M + s + 2) % (8 * r) = (8 * (M % r) + s + 2) % (8 * r) := by
    conv_lhs => rw [← hM]
    rw [show 8 * (r * (M / r) + M % r) + s + 2 = 8 * (M % r) + s + 2 + (8 * r) * (M / r) by ring,
      Nat.add_mul_mod_self_left]
  rw [pad10star1, hmod]
  congr 3
  by_cases h : 8 * (M % r) + s + 2 < 8 * r
  · rw [Nat.mod_eq_of_lt h, Nat.mod_eq_of_lt (by omega)]; omega
  · rw [show 8 * (M % r) + s + 2 = 8 * r by omega, Nat.mod_self, Nat.sub_zero, Nat.mod_self]; omega

/-- The pad bytes are the suffix followed by pad10*1, bit for bit: a multiple of the rate opens a fresh
    block, and with one byte left the domain bits and the final `1` share it. -/
theorem bytesToBits_padBytes {r t : Nat} (ht : t < r) {p : Byte} {sfx : List Bool} (hs : sfx.length ≤ 6)
    (hp : bytesToBits [p] = sfx ++ true :: List.replicate (7 - sfx.length) false) :
    bytesToBits (padBytes r t p)
      = sfx ++ true :: List.replicate (8 * (r - t) - sfx.length - 2) false ++ [true] := by
  have hbit : ∀ j, j < 8 → p.getLsbD j = if j < sfx.length then sfx.getD j false else decide (j = sfx.length) := by
    intro j hj
    have h := congrArg (·[j]?) hp
    simp only [getElem?_bytesToBits, getElem?_suffix_pad] at h
    simpa [hj, show j / 8 = 0 by omega, Nat.mod_eq_of_lt hj, show j < sfx.length + 1 + (7 - sfx.length) by omega]
      using h
  apply List.ext_getElem?
  intro i
  rw [getElem?_bytesToBits, length_padBytes, getElem?_suffix_pad_one]
  by_cases hi : i < 8 * (r - t)
  · rw [if_pos hi, getD_padBytes, if_pos (by omega), getLsbD_padByte _ (Nat.mod_lt _ (by omega)), if_pos (by omega)]
    by_cases h8 : i < 8
    · -- the first byte carries the suffix, its 1 and, when it is also the last byte, the final 1
      rw [Nat.div_eq_of_lt h8, Nat.mod_eq_of_lt h8, hbit i h8]
      by_cases his : i < sfx.length
      · simp [his, show i ≠ 7 by omega]
      · by_cases h7 : i = 7
        · subst h7; simp [his, show 7 ≠ sfx.length by omega]; omega
        · simp [his, h7]; omega
    · simp only [show ¬ i / 8 = 0 by omega, decide_False, Bool.false_and, Bool.false_xor, ← Bool.decide_and,
        if_neg (show ¬ i < sfx.length by omega), Option.some.injEq, decide_eq_decide]
      omega
  · rw [if_neg hi, if_neg (by omega)]

/-- Finalization XORs exactly the pad bytes into the rate window, from the cursor to the last rate byte. -/
theorem xorBytes_padBytes {r t : Nat} (ht : t < r) (h8 : 8 ∣ r) (s : KeccakLanes) (p : Byte) :
    xorBytes s t (padBytes r t p) = keccakFinalize s t r p := by
  apply KeccakLanes.ext_stateBit
  intro k hk
  have htop : (1#64 <<< 63).getLsbD (k % 64) = decide (k % 64 = 63) := by
    have : k % 64 < 64 := Nat.mod_lt _ (by omega)
    simp only [BitVec.getLsbD_shiftLeft, BitVec.getLsbD_one, decide_eq_true this, Bool.true_and]
    by_cases h : k % 64 = 63
    · simp [h]
    · simp [h]; omega
  rw [stateBit_xorBytes _ _ _ hk, keccakFinalize, stateBit_xorLane _ _ _ hk, stateBit_xorByte _ _ _ hk, htop,
    getD_padBytes, Bool.xor_assoc]
  congr 1
  by_cases h1 : t ≤ k / 8 ∧ k / 8 < r
  · rw [if_pos (by omega), getLsbD_padByte _ (Nat.mod_lt _ (by omega)), decide_eq_true h1.1, Bool.true_and,
      ← Bool.decide_and, ← Bool.decide_and]
    congr 1
    · rw [decide_eq_decide.mpr (show k / 8 - t = 0 ↔ k / 8 = t by omega)]
    · exact decide_eq_decide.mpr (by omega)
  · have hk8 : ¬ k / 8 = t := by omega
    by_cases h2 : t ≤ k / 8
    · rw [if_neg (by omega), decide_eq_true h2]
      simp [hk8]; omega
    · simp [h2, hk8]; omega

/-! ## §4. Absorb, finalize, squeeze is the sponge. -/

/-- The padded message as bytes: `m`, then the domain byte and the pad, up to the end of its last block. -/
def paddedBytes (r : Nat) (p : Byte) (m : List Byte) : List Byte := m ++ padBytes r (m.length % r) p

/-- The padded message fills `⌊|m|/r⌋ + 1` blocks. -/
theorem length_paddedBytes {r : Nat} (hr : 0 < r) (p : Byte) (m : List Byte) :
    (paddedBytes r p m).length = (m.length / r + 1) * r := by
  have := Nat.div_add_mod' m.length r
  have := Nat.mod_lt m.length hr
  rw [paddedBytes, List.length_append, length_padBytes, Nat.add_mul, Nat.one_mul]
  omega

/-- Absorbing `m` byte by byte, then finalizing and permuting, absorbs the blocks of the padded message. -/
theorem permute_finalize_foldl {r : Nat} (hr : 0 < r) (h8 : 8 ∣ r) (p : Byte) (m : List Byte) :
    keccakF1600StatePermute (keccakFinalize (m.foldl (absorbByte r) ⟨keccakInit, 0⟩).s
        (m.foldl (absorbByte r) ⟨keccakInit, 0⟩).pos r p)
      = absorbBlocks r (paddedBytes r p m) (m.length / r + 1) keccakInit := by
  have hq := Nat.div_add_mod' m.length r
  have hlt := Nat.mod_lt m.length hr
  have hqr : m.length / r * r ≤ m.length := by omega
  have hhead : (paddedBytes r p m).take (m.length / r * r) = m.take (m.length / r * r) := by
    rw [paddedBytes, List.take_append_of_le_length hqr]
  have htail : ((paddedBytes r p m).drop (m.length / r * r)).take r
      = m.drop (m.length / r * r) ++ padBytes r (m.length % r) p := by
    rw [paddedBytes, List.drop_append_of_le_length hqr, List.take_of_length_le]
    simp; omega
  have hfold : m.foldl (absorbByte r) ⟨keccakInit, 0⟩
      = ⟨xorBytes (absorbBlocks r (paddedBytes r p m) (m.length / r) keccakInit) 0 (m.drop (m.length / r * r)),
          m.length % r⟩ := by
    conv_lhs => rw [← List.take_append_drop (m.length / r * r) m]
    rw [List.foldl_append, ← hhead, foldl_absorbByte_blocks hr _ _ _
      (by rw [length_paddedBytes hr]; exact Nat.mul_le_mul_right _ (Nat.le_succ _)),
      foldl_absorbByte_within r _ _ _ (by simp only [List.length_drop]; omega)]
    simp only [List.length_drop, Nat.zero_add]
    congr 1; omega
  rw [hfold, absorbBlocks_succ, htail, xorBytes_append, List.length_drop, Nat.zero_add,
    show m.length - m.length / r * r = m.length % r by omega, xorBytes_padBytes hlt h8]

/-- The FIPS 202 sponge on `M ‖ sfx`, once the padded string is absorbed, is the squeeze from the state
    the byte-level absorption of the padded message reaches. -/
theorem sponge_eq_spongeSqueeze {r : Nat} (hr : 0 < r) (hr200 : r ≤ 200) {p : Byte} {sfx : List Bool}
    (hs : sfx.length ≤ 6) (hp : bytesToBits [p] = sfx ++ true :: List.replicate (7 - sfx.length) false)
    (m : List Byte) (d : Nat) :
    sponge keccakF pad10star1 (8 * r) (bytesToBits m ++ sfx) d
      = spongeSqueeze keccakF (8 * r) d (d + 1)
          (stateToBits (absorbBlocks r (paddedBytes r p m) (m.length / r + 1) keccakInit)) [] := by
  have hP : bytesToBits m ++ sfx ++ pad10star1 (8 * r) (bytesToBits m ++ sfx).length
      = bytesToBits (paddedBytes r p m) := by
    rw [paddedBytes, bytesToBits_append, bytesToBits_padBytes (Nat.mod_lt _ hr) hs hp, List.length_append,
      length_bytesToBits, pad10star1_eq hr (by omega)]
    simp only [List.append_assoc, List.cons_append]
  have hn : (bytesToBits (paddedBytes r p m)).length / (8 * r) = m.length / r + 1 := by
    rw [length_bytesToBits, length_paddedBytes hr, show 8 * ((m.length / r + 1) * r) = (m.length / r + 1) * (8 * r)
      by rw [Nat.mul_left_comm], Nat.mul_div_cancel _ (by omega)]
  simp only [sponge]
  rw [hP, hn, ← stateToBits_keccakInit, absorb_bits_eq_absorbBlocks hr200 _ _ _ (by rw [length_paddedBytes hr])]

/-- Squeezing `n` bytes after finalizing the byte-level absorption of `m` gives the first `8n` bits of
    `SPONGE[f, pad10*1, 8r](M ‖ sfx, 8n)`. -/
theorem squeeze_finalize_eq_sponge {r : Nat} (hr : 0 < r) (h8 : 8 ∣ r) (hr200 : r ≤ 200) {p : Byte}
    {sfx : List Bool} (hs : sfx.length ≤ 6)
    (hp : bytesToBits [p] = sfx ++ true :: List.replicate (7 - sfx.length) false) (m : List Byte) (n : Nat) :
    bytesToBits (squeezeBytes r n ⟨keccakFinalize (m.foldl (absorbByte r) ⟨keccakInit, 0⟩).s
        (m.foldl (absorbByte r) ⟨keccakInit, 0⟩).pos r p, r⟩).1
      = sponge keccakF pad10star1 (8 * r) (bytesToBits m ++ sfx) (8 * n) := by
  have hr1 := Nat.le_mul_of_pos_right (8 * n + 1) hr
  have hr8 := Nat.le_mul_of_pos_right (8 * n + 1) (show 0 < 8 * r by omega)
  rw [squeezeBytes_from_rate hr (8 * n + 1) n _ (by omega), bytesToBits_take, bytesToBits_byteStream hr200,
    permute_finalize_foldl hr h8, sponge_eq_spongeSqueeze hr hr200 hs hp,
    spongeSqueeze_keccakF (by omega) (by omega) _ _ _ (by rw [List.length_nil]; omega) (by omega), List.nil_append]

/-! ## §5. SHAKE128, SHAKE256, SHA3-256 and SHA3-512. -/

/-- One-shot SHA3 squeezes `8 * nlanes` bytes of one block from the finalized state. -/
theorem sha3_eq {r nlanes : Nat} (hr : 0 < r) (h8 : 8 ∣ r) (hn : 0 < nlanes) (hle : 8 * nlanes ≤ r)
    (inp : List Byte) :
    sha3 r nlanes inp = some (squeezeBytes r (8 * nlanes) ⟨keccakFinalize (inp.foldl (absorbByte r) ⟨keccakInit, 0⟩).s
        (inp.foldl (absorbByte r) ⟨keccakInit, 0⟩).pos r 0x06#8, r⟩).1 := by
  rw [squeezeBytes_at_rate hr (by omega), squeezeBytes_block r _ _ 0 (by omega)]
  simp [sha3, keccakAbsorbOnce_eq hr h8, flatMap_store64]

/-- One-shot SHAKE at rate `r` is `SPONGE[f, pad10*1, 8r](M ‖ 1111, 8 outlen)`. -/
theorem shake_map_bytesToBits {r : Nat} (hr : 0 < r) (h8 : 8 ∣ r) (hr200 : r ≤ 200) (outlen : Nat)
    (inp : List Byte) :
    (shake r outlen inp).map bytesToBits
      = some (sponge keccakF pad10star1 (8 * r) (bytesToBits inp ++ [true, true, true, true]) (8 * outlen)) := by
  rw [shake_eq hr h8, Option.map_some', shakeFinalize, shakeInit,
    squeeze_finalize_eq_sponge hr h8 hr200 (show [true, true, true, true].length ≤ 6 by decide)
      (by decide)]

/-- One-shot SHA3 at rate `r` is `SPONGE[f, pad10*1, 8r](M ‖ 01, 64 nlanes)`. -/
theorem sha3_map_bytesToBits {r nlanes : Nat} (hr : 0 < r) (h8 : 8 ∣ r) (hr200 : r ≤ 200) (hn : 0 < nlanes)
    (hle : 8 * nlanes ≤ r) (inp : List Byte) :
    (sha3 r nlanes inp).map bytesToBits
      = some (sponge keccakF pad10star1 (8 * r) (bytesToBits inp ++ [false, true]) (64 * nlanes)) := by
  rw [sha3_eq hr h8 hn hle, Option.map_some',
    squeeze_finalize_eq_sponge hr h8 hr200 (show [false, true].length ≤ 6 by decide) (by decide),
    ← Nat.mul_assoc]

/-- The four one-shot functions against `SPONGE[f, pad10*1, r]`, for any `f` equal to `keccakF`. -/
theorem fips202_outputs {f : List Bool → List Bool} (hf : keccakF = f) :
    (∀ (m : List Byte) (n : Nat), (shake128 n m).map bytesToBits
      = some (sponge f pad10star1 1344 (bytesToBits m ++ [true, true, true, true]) (8 * n))) ∧
    (∀ (m : List Byte) (n : Nat), (shake256 n m).map bytesToBits
      = some (sponge f pad10star1 1088 (bytesToBits m ++ [true, true, true, true]) (8 * n))) ∧
    (∀ m : List Byte, (sha3_256 m).map bytesToBits
      = some (sponge f pad10star1 1088 (bytesToBits m ++ [false, true]) 256)) ∧
    (∀ m : List Byte, (sha3_512 m).map bytesToBits
      = some (sponge f pad10star1 576 (bytesToBits m ++ [false, true]) 512)) := by
  subst hf
  exact ⟨fun m n => shake_map_bytesToBits (show 0 < 168 by decide) (by decide) (by decide) n m,
    fun m n => shake_map_bytesToBits (show 0 < 136 by decide) (by decide) (by decide) n m,
    fun m => sha3_map_bytesToBits (show 0 < 136 by decide) (by decide) (by decide) (show 0 < 4 by decide)
      (by decide) m,
    fun m => sha3_map_bytesToBits (show 0 < 72 by decide) (by decide) (by decide) (show 0 < 8 by decide)
      (by decide) m⟩

/-- For every message and output length, `shake128`, `shake256`, `sha3_256` and `sha3_512` write the
    FIPS 202 sponge outputs `SHAKE128(M, 8n)`, `SHAKE256(M, 8n)`, `SHA3-256(M)` and `SHA3-512(M)`, with
    `f = KeccakF1600_StatePermute` and FIPS 202's byte, lane and bit order. -/
theorem fips202_eq_sponge :
    (∀ (m : List Byte) (n : Nat), (shake128 n m).map bytesToBits
      = some (sponge keccakF pad10star1 1344 (bytesToBits m ++ [true, true, true, true]) (8 * n))) ∧
    (∀ (m : List Byte) (n : Nat), (shake256 n m).map bytesToBits
      = some (sponge keccakF pad10star1 1088 (bytesToBits m ++ [true, true, true, true]) (8 * n))) ∧
    (∀ m : List Byte, (sha3_256 m).map bytesToBits
      = some (sponge keccakF pad10star1 1088 (bytesToBits m ++ [false, true]) 256)) ∧
    (∀ m : List Byte, (sha3_512 m).map bytesToBits
      = some (sponge keccakF pad10star1 576 (bytesToBits m ++ [false, true]) 512)) :=
  fips202_outputs rfl

/-! ## §6. Against the standard's own permutation. -/

/-- Keccak-p[1600, 24] on 1600-bit strings: §3.1.2's `A[x, y, z] = S[64(5y + x) + z]` both ways. -/
def keccakPBits (S : List Bool) : List Bool :=
  stateToBits (ofStateArray (keccakP 24 (toStateArray (bitsToState S))))

/-- The `f` the code's sponge uses is Keccak-p[1600, 24]. -/
theorem keccakF_eq_keccakPBits : keccakF = keccakPBits := by
  funext S
  rw [keccakF, keccakPBits, keccakF1600StatePermute_eq_ofStateArray]

/-- `shake128`, `shake256`, `sha3_256` and `sha3_512` write `KECCAK[c](M ‖ suffix, d)` of FIPS 202, §6:
    `SPONGE[Keccak-p[1600, 24], pad10*1, 1600 - c]` with `c` twice the security strength. -/
theorem fips202_eq_keccak :
    (∀ (m : List Byte) (n : Nat), (shake128 n m).map bytesToBits
      = some (sponge keccakPBits pad10star1 1344 (bytesToBits m ++ [true, true, true, true]) (8 * n))) ∧
    (∀ (m : List Byte) (n : Nat), (shake256 n m).map bytesToBits
      = some (sponge keccakPBits pad10star1 1088 (bytesToBits m ++ [true, true, true, true]) (8 * n))) ∧
    (∀ m : List Byte, (sha3_256 m).map bytesToBits
      = some (sponge keccakPBits pad10star1 1088 (bytesToBits m ++ [false, true]) 256)) ∧
    (∀ m : List Byte, (sha3_512 m).map bytesToBits
      = some (sponge keccakPBits pad10star1 576 (bytesToBits m ++ [false, true]) 512)) :=
  fips202_outputs keccakF_eq_keccakPBits

end Dilithium.Fips202
