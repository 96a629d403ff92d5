/-
  Dilithium.Fips202.ByteSponge — the sponge one byte at a time, and the code's routines as
  refinements of it.

  The abstract machine is a `KeccakState` whose cursor moves one byte per step: `absorbByte`
  XORs a byte in at the cursor and permutes when the cursor reaches the rate, `squeezeByte`
  permutes when the cursor stands at the rate and reads the byte under it.  Chunked absorption
  is then `List.foldl` over the concatenated input, and squeezing `m + n` bytes is squeezing `m`,
  then `n`.  Each code routine gets one spec lemma saying which run of the machine it is; the
  loop proofs all go through `whileLoop_spec`.

  Main results:
  * `keccakAbsorb_eq`: `keccak_absorb` from `pos < r` is the byte fold over its input.
  * `shakeSqueeze_eq`: `keccak_squeeze` from `pos ≤ r` is `squeezeBytes`.
  * `keccakAbsorbOnce_eq`: `keccak_absorb_once` is the byte fold from a zero state, finalized.
  * `keccakSqueezeblocks_eq`: `keccak_squeezeblocks` from the rate is `squeezeBytes` of whole blocks.
-/
import Dilithium.Fips202.Shake

namespace Dilithium.Fips202

/-! ## §1. The byte-at-a-time machine. -/
/-- Absorb one byte at the cursor; a full block is permuted and the cursor reset. -/
def absorbByte (r : Nat) (st : KeccakState) (b : Byte) : KeccakState :=
  let s := xorByte st.s st.pos b
  if st.pos + 1 = r then ⟨keccakF1600StatePermute s, 0⟩ else ⟨s, st.pos + 1⟩

/-- Squeeze one byte at the cursor, permuting first when the block is used up. -/
def squeezeByte (r : Nat) (st : KeccakState) : Byte × KeccakState :=
  let st := if st.pos = r then ⟨keccakF1600StatePermute st.s, 0⟩ else st
  (stateByte st.s st.pos, ⟨st.s, st.pos + 1⟩)

/-- Squeeze `n` bytes, one at a time. -/
def squeezeBytes (r : Nat) : Nat → KeccakState → List Byte × KeccakState
  | 0, st => ([], st)
  | n + 1, st =>
    let (b, st) := squeezeByte r st
    let (bs, st) := squeezeBytes r n st
    (b :: bs, st)

/-- Bytes that stay inside the current block are XOR-ed in at the cursor. -/
theorem foldl_absorbByte_within (r : Nat) (bs : List Byte) :
    ∀ (s : KeccakLanes) (pos : Nat), pos + bs.length < r →
      bs.foldl (absorbByte r) ⟨s, pos⟩ = ⟨xorBytes s pos bs, pos + bs.length⟩ := by
  induction bs with
  | nil => intro s pos _; rfl
  | cons b bs ih =>
    intro s pos h
    rw [List.length_cons] at h
    rw [List.foldl_cons, absorbByte]
    simp only [show pos + 1 ≠ r by omega, if_false]
    rw [ih _ _ (by omega), xorBytes, List.length_cons, Nat.add_assoc, Nat.add_comm 1]

/-- Bytes that exactly fill the current block are XOR-ed in, then the block is permuted. -/
theorem foldl_absorbByte_fill (r : Nat) (bs : List Byte) :
    ∀ (s : KeccakLanes) (pos : Nat), bs ≠ [] → pos + bs.length = r →
      bs.foldl (absorbByte r) ⟨s, pos⟩ = ⟨keccakF1600StatePermute (xorBytes s pos bs), 0⟩ := by
  induction bs with
  | nil => intro s pos h; exact absurd rfl h
  | cons b bs ih =>
    intro s pos _ h
    rw [List.length_cons] at h
    by_cases hbs : bs = []
    · subst hbs
      simp [absorbByte, show pos + 1 = r by simpa using h, xorBytes]
    · have := List.length_pos.mpr hbs
      rw [List.foldl_cons, absorbByte]
      simp only [show pos + 1 ≠ r by omega, if_false]
      rw [ih _ _ hbs (by omega), xorBytes]

/-! ## §2. Absorbing: `keccak_absorb` and `keccak_absorb_once`. -/

/-- One pass of `keccak_absorb`'s loop absorbs the bytes it consumes, block-filling included. -/
theorem foldl_keccakAbsorbBody {r pos : Nat} (s : KeccakLanes) (inp : List Byte) (hpos : pos < r)
    (hc : r ≤ pos + inp.length) :
    (keccakAbsorbBody r (s, pos, inp)).2.2.foldl (absorbByte r)
        ⟨(keccakAbsorbBody r (s, pos, inp)).1, (keccakAbsorbBody r (s, pos, inp)).2.1⟩
      = inp.foldl (absorbByte r) ⟨s, pos⟩ := by
  have hfill := foldl_absorbByte_fill r (inp.take (r - pos)) s pos
    (List.ne_nil_of_length_pos (by simp only [List.length_take]; omega))
    (by simp only [List.length_take]; omega)
  conv_rhs => rw [← List.take_append_drop (r - pos) inp, List.foldl_append, hfill]
  rfl

/-- `keccak_absorb` from a cursor below the rate runs the byte machine over its whole input. -/
theorem keccakAbsorb_eq {r pos : Nat} (hpos : pos < r) (s : KeccakLanes) (inp : List Byte) :
    keccakAbsorb s pos r inp
      = some ((inp.foldl (absorbByte r) ⟨s, pos⟩).s, (inp.foldl (absorbByte r) ⟨s, pos⟩).pos) := by
  obtain ⟨⟨s', pos', inp'⟩, hloop, ⟨hpos', hinv⟩, hexit⟩ := whileLoop_spec
    (keccakAbsorbCond r) (keccakAbsorbBody r)
    (fun st => st.2.1 < r ∧ st.2.2.foldl (absorbByte r) ⟨st.1, st.2.1⟩ = inp.foldl (absorbByte r) ⟨s, pos⟩)
    (fun st => st.2.2.length)
    (by
      rintro ⟨s', pos', inp'⟩ ⟨hpos', hinv⟩ hc
      dsimp only at hpos' hinv
      simp only [keccakAbsorbCond, decide_eq_true_eq] at hc
      refine ⟨⟨by simp only [keccakAbsorbBody]; omega, ?_⟩, by simp [keccakAbsorbBody]; omega⟩
      rw [foldl_keccakAbsorbBody s' inp' hpos' hc, hinv])
    (inp.length + 2) (s, pos, inp) ⟨hpos, rfl⟩ (by simp)
  simp only [keccakAbsorbCond, decide_eq_false_iff_not, not_le] at hexit
  dsimp only at hpos' hinv
  simp only [keccakAbsorb, hloop, Option.bind_eq_bind, Option.some_bind, Option.pure_def]
  rw [← hinv, foldl_absorbByte_within r inp' s' pos' hexit]

/-- `shakeX_absorb` from a cursor below the rate is the byte fold. -/
theorem shakeAbsorb_eq {r : Nat} (st : KeccakState) (hpos : st.pos < r) (inp : List Byte) :
    shakeAbsorb r st inp = some (inp.foldl (absorbByte r) st) := by
  simp [shakeAbsorb, keccakAbsorb_eq hpos]

/-- The lane loop of `keccak_absorb_once`, `s[i] ^= load64(in+8*i)` for `i < r/8`, XORs the first `r`
    input bytes in at positions `0 … r-1`. -/
theorem foldl_xorLane_load64 {r : Nat} (hr : 8 ∣ r) (s : KeccakLanes) (inp : List Byte) :
    (List.range (r / 8)).foldl (fun s i => xorLane s i (load64 (inp.drop (8 * i)))) s
      = xorBytes s 0 (inp.take r) := by
  have hfold : ∀ m k, k < 1600 →
      stateBit ((List.range m).foldl (fun s i => xorLane s i (load64 (inp.drop (8 * i)))) s) k
        = (stateBit s k ^^ (decide (k / 64 < m) && (inp.getD (k / 8) 0).getLsbD (k % 8))) := by
    intro m k hk
    induction m with
    | zero => simp
    | succ m ih =>
      rw [List.range_succ, List.foldl_append, List.foldl_cons, List.foldl_nil, stateBit_xorLane _ _ _ hk,
        ih, load64_getLsbD]
      by_cases h : k / 64 = m
      · subst h
        simp [show k % 64 < 64 by omega, show 8 * (k / 64) + k % 64 / 8 = k / 8 by omega,
          show k % 64 % 8 = k % 8 by omega]
      · by_cases h2 : k / 64 < m
        · simp [h, h2, show k / 64 < m + 1 by omega]
        · simp [h, h2, show ¬ k / 64 < m + 1 by omega]
  apply KeccakLanes.ext_stateBit
  intro k hk
  rw [hfold _ _ hk, stateBit_xorBytes _ _ _ hk]
  obtain ⟨q, rfl⟩ := hr
  by_cases h : k / 8 < 8 * q
  · simp [show k / 64 < q by omega, h, List.getElem?_take]
  · simp [show ¬ k / 64 < q by omega, List.getElem?_take, h]

/-- `keccak_absorb_once` is `keccak_finalize` after the byte fold from the zero state. -/
theorem keccakAbsorbOnce_eq {r : Nat} (hr : 0 < r) (h8 : 8 ∣ r) (inp : List Byte) (p : Byte) :
    keccakAbsorbOnce r inp p
      = some (keccakFinalize (inp.foldl (absorbByte r) ⟨keccakInit, 0⟩).s
          (inp.foldl (absorbByte r) ⟨keccakInit, 0⟩).pos r p) := by
  obtain ⟨⟨s', inp'⟩, hloop, hinv, hexit⟩ := whileLoop_spec
    (keccakAbsorbOnceCond r) (keccakAbsorbOnceBody r)
    (fun st => st.2.foldl (absorbByte r) ⟨st.1, 0⟩ = inp.foldl (absorbByte r) ⟨keccakInit, 0⟩)
    (fun st => st.2.length)
    (by
      rintro ⟨s', inp'⟩ hinv hc
      dsimp only at hinv
      simp only [keccakAbsorbOnceCond, decide_eq_true_eq] at hc
      refine ⟨?_, by simp [keccakAbsorbOnceBody]; omega⟩
      have hfill := foldl_absorbByte_fill r (inp'.take r) s' 0
        (List.ne_nil_of_length_pos (by simp only [List.length_take]; omega))
        (by simp only [List.length_take]; omega)
      rw [← hinv, ← List.take_append_drop r inp', List.foldl_append, hfill]
      simp [keccakAbsorbOnceBody, foldl_xorLane_load64 h8])
    (inp.length + 1) (keccakInit, inp) rfl (by simp)
  simp only [keccakAbsorbOnceCond, decide_eq_false_iff_not, not_le] at hexit
  dsimp only at hinv
  rw [foldl_absorbByte_within r inp' s' 0 (by omega)] at hinv
  rw [← hinv]
  obtain ⟨q, rfl⟩ := h8
  simp [keccakAbsorbOnce, hloop, keccakFinalize, show (8 * q - 1) / 8 = q - 1 by omega]

/-- `shakeX_absorb_once` is `shakeX_finalize` after the byte fold from `shakeX_init`. -/
theorem shakeAbsorbOnce_eq {r : Nat} (hr : 0 < r) (h8 : 8 ∣ r) (inp : List Byte) :
    shakeAbsorbOnce r inp = some (shakeFinalize r (inp.foldl (absorbByte r) shakeInit)) := by
  simp [shakeAbsorbOnce, keccakAbsorbOnce_eq hr h8, shakeFinalize, shakeInit]

/-! ## §3. Squeezing: `keccak_squeeze` and `keccak_squeezeblocks`. -/

/-- Squeezing `m + n` bytes is squeezing `m`, then `n` from where it stopped. -/
theorem squeezeBytes_add (r m n : Nat) (st : KeccakState) :
    squeezeBytes r (m + n) st
      = ((squeezeBytes r m st).1 ++ (squeezeBytes r n (squeezeBytes r m st).2).1,
         (squeezeBytes r n (squeezeBytes r m st).2).2) := by
  induction m generalizing st with
  | zero => simp [squeezeBytes]
  | succ m ih => simp [Nat.succ_add, squeezeBytes, ih]

/-- Inside one block, squeezing reads the state bytes from the cursor on. -/
theorem squeezeBytes_block (r n : Nat) (s : KeccakLanes) (pos : Nat) (h : pos + n ≤ r) :
    squeezeBytes r n ⟨s, pos⟩ = ((List.range' pos n).map (stateByte s), ⟨s, pos + n⟩) := by
  induction n generalizing pos with
  | zero => rfl
  | succ n ih =>
    simp only [squeezeBytes, squeezeByte, show pos ≠ r by omega, if_false]
    rw [ih (pos + 1) (by omega)]
    simp [List.range'_succ, Nat.add_assoc, Nat.add_comm 1]

/-- At the rate, squeezing starts with the permutation and a cursor of 0. -/
theorem squeezeBytes_at_rate {r n : Nat} (hr : 0 < r) (hn : n ≠ 0) (s : KeccakLanes) :
    squeezeBytes r n ⟨s, r⟩ = squeezeBytes r n ⟨keccakF1600StatePermute s, 0⟩ := by
  obtain ⟨k, rfl⟩ := Nat.exists_eq_succ_of_ne_zero hn
  simp [squeezeBytes, squeezeByte, show (0 : Nat) ≠ r by omega]

/-- What a state of `keccak_squeeze`'s loop will have produced once the machine squeezes its
    remaining `outlen` bytes: the loop's invariant. -/
def squeezeRest (r : Nat) : List Byte × Nat × KeccakLanes × Nat → List Byte × KeccakState
  | (out, outlen, s, pos) => (out ++ (squeezeBytes r outlen ⟨s, pos⟩).1, (squeezeBytes r outlen ⟨s, pos⟩).2)

/-- One pass of `keccak_squeeze`'s loop keeps `squeezeRest`, keeps `pos ≤ r` and lowers `outlen`. -/
theorem squeezeRest_keccakSqueezeBody {r : Nat} (hr : 0 < r) (out : List Byte) (outlen : Nat)
    (s : KeccakLanes) (pos : Nat) (hpos : pos ≤ r) (hn : outlen ≠ 0) :
    squeezeRest r (keccakSqueezeBody r (out, outlen, s, pos)) = squeezeRest r (out, outlen, s, pos) ∧
      (keccakSqueezeBody r (out, outlen, s, pos)).2.2.2 ≤ r ∧
      (keccakSqueezeBody r (out, outlen, s, pos)).2.1 < outlen := by
  -- after the lazy permutation the cursor `pos'` is strictly inside the block
  obtain ⟨s', pos', hpos', hsq, hbody⟩ : ∃ s' pos', pos' < r ∧
      squeezeBytes r outlen ⟨s, pos⟩ = squeezeBytes r outlen ⟨s', pos'⟩ ∧
      keccakSqueezeBody r (out, outlen, s, pos)
        = (out ++ (List.range' pos' (min r (pos' + outlen) - pos')).map (stateByte s'),
            outlen - (min r (pos' + outlen) - pos'), s', min r (pos' + outlen)) := by
    by_cases h : pos = r
    · subst h
      exact ⟨_, 0, hr, squeezeBytes_at_rate hr hn s, by simp [keccakSqueezeBody]⟩
    · exact ⟨s, pos, by omega, rfl, by
        simp [keccakSqueezeBody, h, Nat.max_eq_right (show pos ≤ min r (pos + outlen) by omega)]⟩
  -- the pass emits `n ≥ 1` bytes of the current block
  obtain ⟨n, hn_def⟩ : ∃ n, n = min r (pos' + outlen) - pos' := ⟨_, rfl⟩
  rw [← hn_def, show min r (pos' + outlen) = pos' + n by omega] at hbody
  have hsplit := squeezeBytes_add r n (outlen - n) ⟨s', pos'⟩
  rw [Nat.add_sub_cancel' (by omega), squeezeBytes_block r n s' pos' (by omega)] at hsplit
  refine ⟨?_, by rw [hbody]; dsimp only; omega, by rw [hbody]; dsimp only; omega⟩
  rw [hbody, squeezeRest, squeezeRest, hsq, hsplit]
  simp

/-- `keccak_squeeze` from a cursor at most the rate returns, and squeezes as the byte machine does. -/
theorem shakeSqueeze_eq {r : Nat} (hr : 0 < r) (outlen : Nat) (st : KeccakState) (hpos : st.pos ≤ r) :
    shakeSqueeze r outlen st = some (squeezeBytes r outlen st) := by
  obtain ⟨⟨out, n, s', pos'⟩, hloop, ⟨hpos', hinv⟩, hexit⟩ := whileLoop_spec
    keccakSqueezeCond (keccakSqueezeBody r)
    (fun st' => st'.2.2.2 ≤ r ∧ squeezeRest r st' = squeezeRest r ([], outlen, st.s, st.pos))
    (fun st' => st'.2.1)
    (by
      rintro ⟨out, n, s', pos'⟩ ⟨hpos', hinv⟩ hc
      dsimp only at hpos'
      simp only [keccakSqueezeCond, bne_iff_ne, ne_eq] at hc
      obtain ⟨h1, h2, h3⟩ := squeezeRest_keccakSqueezeBody hr out n s' pos' hpos' hc
      exact ⟨⟨h2, h1.trans hinv⟩, h3⟩)
    (outlen + 1) ([], outlen, st.s, st.pos) ⟨hpos, rfl⟩ (by simp)
  simp only [keccakSqueezeCond, bne_eq_false_iff_eq] at hexit
  subst hexit
  have h : squeezeBytes r outlen st = (out, ⟨s', pos'⟩) := by
    simpa [squeezeRest, squeezeBytes] using hinv.symm
  simp [shakeSqueeze, keccakSqueeze, hloop, h]

/-- Storing the first `k` lanes writes the first `8k` state bytes. -/
theorem flatMap_store64 (s : KeccakLanes) (k : Nat) :
    (List.range k).flatMap (fun i => store64 (getLane s i)) = (List.range' 0 (8 * k)).map (stateByte s) := by
  induction k with
  | zero => rfl
  | succ k ih =>
    rw [List.range_succ, List.flatMap_append, ih, List.flatMap_cons, List.flatMap_nil, List.append_nil,
      store64_getLane, show 8 * (k + 1) = 8 + 8 * k by omega, ← List.range'_append 0 (8 * k) 8 1]
    simp

/-- `keccak_squeezeblocks` from the rate squeezes `nblocks` whole blocks; the cursor stays at the rate. -/
theorem keccakSqueezeblocks_eq {r : Nat} (hr : 0 < r) (h8 : 8 ∣ r) (nblocks : Nat) (s : KeccakLanes) :
    squeezeBytes r (nblocks * r) ⟨s, r⟩
      = ((keccakSqueezeblocks nblocks s r).1, ⟨(keccakSqueezeblocks nblocks s r).2, r⟩) := by
  induction nblocks generalizing s with
  | zero => simp [squeezeBytes, keccakSqueezeblocks]
  | succ n ih =>
    rw [Nat.succ_mul, Nat.add_comm, squeezeBytes_add, squeezeBytes_at_rate hr (by omega),
      squeezeBytes_block r r _ 0 (by omega)]
    obtain ⟨q, rfl⟩ := h8
    simp [keccakSqueezeblocks, ih, flatMap_store64]

/-- `shakeX_squeezeblocks` with the cursor at the rate is `squeezeBytes` of `nblocks * r` bytes. -/
theorem shakeSqueezeblocks_eq {r : Nat} (hr : 0 < r) (h8 : 8 ∣ r) (nblocks : Nat) (st : KeccakState)
    (hpos : st.pos = r) :
    shakeSqueezeblocks r nblocks st = squeezeBytes r (nblocks * r) st := by
  obtain ⟨s, pos⟩ := st
  dsimp only at hpos
  subst hpos
  rw [keccakSqueezeblocks_eq hr h8]
  rfl

end Dilithium.Fips202
