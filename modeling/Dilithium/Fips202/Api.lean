/-
  Dilithium.Fips202.Api — the SHAKE / SHA3 calls of `fips202.c` on every state they can meet,
  off the path `init → absorb* → finalize → squeeze*` included.

  `Dilithium.Fips202.Incremental` follows the calls in the order they are meant to be made.
  Here the order is free, as `ShakeReachable` allows: absorbing on a state whose cursor stands at
  the rate, and `squeezeblocks` where the cursor is inside a block.  The code has no check for
  either; what it does instead is read off the loops.  The last section compares the two domain
  bytes, SHAKE's `0x1F` and SHA3's `0x06`, at the rate 136 that SHAKE256 and SHA3-256 share.

  Main results:
    * `shakeAbsorb_reachable`: on every reachable state, `shakeX_absorb` is the byte machine,
      started from a permuted state with cursor 0 when the cursor stood at the rate, so that
      even an empty input permutes a finalized state.
    * `shakeFinalize_capacity_iff`: `shakeX_finalize` keeps the capacity exactly when the
      cursor is below the rate; a second `finalize` writes into the capacity and cancels the
      padding bit.
    * `shakeSqueeze_after_squeezeblocks`: `squeezeblocks` leaves `pos` as it was, so after it a
      `squeeze` from inside a block returns bytes `squeezeblocks` has already written.
    * `shake_output_lengths`: every call writes exactly as many bytes as its buffer holds.
    * `sha3_256_shake256_separated`: for every message, the states SHA3-256 and SHAKE256
      permute before their first output differ, before the permutation by `0x1F ⊕ 0x06` in byte
      `inlen mod 136` and after it because the permutation is injective.
-/
import Dilithium.Fips202.Incremental
import Dilithium.Fips202.Bijection

namespace Dilithium.Fips202

/-! ## §1. Absorbing and finalizing on a state at the rate -/

/-- From a cursor at the rate, the first pass of `keccak_absorb`'s loop copies no byte and only
    permutes; the call goes on as from cursor 0 of the permuted state. -/
theorem keccakAbsorb_at_rate {r : Nat} (hr : 0 < r) (s : KeccakLanes) (inp : List Byte) :
    keccakAbsorb s r r inp = keccakAbsorb (keccakF1600StatePermute s) 0 r inp := by
  have hstep : whileLoop (keccakAbsorbCond r) (keccakAbsorbBody r) (inp.length + 2) (s, r, inp)
      = whileLoop (keccakAbsorbCond r) (keccakAbsorbBody r) (inp.length + 1)
          (keccakF1600StatePermute s, 0, inp) := by
    rw [whileLoop, if_pos (by simp [keccakAbsorbCond])]
    simp [keccakAbsorbBody, xorBytes]
  -- the loop from the permuted state stops within `inp.length + 1` tests, since the call returns
  obtain ⟨s', pos', h, -⟩ := keccakAbsorb_terminates hr s r inp
  cases hl : whileLoop (keccakAbsorbCond r) (keccakAbsorbBody r) (inp.length + 1)
      (keccakF1600StatePermute s, 0, inp) with
  | none => simp [keccakAbsorb, hstep, hl] at h
  | some st =>
    rw [keccakAbsorb, keccakAbsorb, hstep, hl, whileLoop_add_fuel _ _ 1 _ hl]

/-- On every state a sequence of calls reaches, `shakeX_absorb` is the byte-at-a-time
    absorption; when the cursor stands at the rate (after `finalize`, `absorb_once`, or a
    `squeeze` that ended a block) it first permutes the whole state, padding included, and
    starts from cursor 0, for the empty input as well. -/
theorem shakeAbsorb_reachable {r : Nat} (hr : 0 < r) (h8 : 8 ∣ r) {st : KeccakState}
    (h : ShakeReachable r st) (inp : List Byte) :
    shakeAbsorb r st inp
      = some (inp.foldl (absorbByte r) (if st.pos = r then ⟨keccakF1600StatePermute st.s, 0⟩ else st)) := by
  by_cases hpos : st.pos = r
  · rw [if_pos hpos, ← shakeAbsorb_eq _ hr]
    simp only [shakeAbsorb, hpos, keccakAbsorb_at_rate hr]
  · rw [if_neg hpos, shakeAbsorb_eq st (lt_of_le_of_ne (h.pos_le hr h8) hpos)]

/-- Absorbing on SHAKE128's finalized empty state. -/
theorem shakeAbsorb_reachable_finalized :
    0 < shake128Rate ∧ 8 ∣ shake128Rate ∧ ShakeReachable shake128Rate (shakeFinalize shake128Rate shakeInit) ∧
      shakeAbsorb shake128Rate (shakeFinalize shake128Rate shakeInit) []
        = some ([].foldl (absorbByte shake128Rate)
            (if (shakeFinalize shake128Rate shakeInit).pos = shake128Rate
              then ⟨keccakF1600StatePermute (shakeFinalize shake128Rate shakeInit).s, 0⟩
              else shakeFinalize shake128Rate shakeInit)) :=
  ⟨by decide, by decide, ShakeReachable.init.finalize,
    shakeAbsorb_reachable (by decide) (by decide) ShakeReachable.init.finalize []⟩

/-- Finalizing twice: the second call cancels the first call's final padding bit and XORs the
    domain byte into byte `r`, the first byte of the capacity. -/
theorem shakeFinalize_twice (r : Nat) (st : KeccakState) :
    (shakeFinalize r (shakeFinalize r st)).s = xorByte (xorByte st.s st.pos 0x1F#8) r 0x1F#8 := by
  have key : ∀ a b c d : Bool, ((((a ^^ b) ^^ c) ^^ d) ^^ c) = ((a ^^ b) ^^ d) := by decide
  apply KeccakLanes.ext_stateBit
  intro k hk
  simp only [shakeFinalize, keccakFinalize, stateBit_xorLane _ _ _ hk, stateBit_xorByte _ _ _ hk]
  exact key _ _ _ _

/-- On a state a sequence of SHAKE128 or SHAKE256 calls reaches, `shakeX_finalize` leaves the
    capacity lanes `r/8 … 24` as they were exactly when the cursor is below the rate; with the
    cursor at the rate (after `finalize`, `absorb_once`, or a `squeeze` that ended a block) it XORs
    `0x1F` into lane `r/8`, and a second `finalize` also cancels the padding bit the first one set. -/
theorem shakeFinalize_capacity_iff (r : Nat) (hr : r = shake128Rate ∨ r = shake256Rate) {st : KeccakState}
    (h : ShakeReachable r st) :
    ((∀ j : Fin 25, r / 8 ≤ j.val → (shakeFinalize r st).s j = st.s j) ↔ st.pos < r) ∧
    (shakeFinalize r (shakeFinalize r st)).s = xorByte (xorByte st.s st.pos 0x1F#8) r 0x1F#8 := by
  have hr0 : 0 < r := by rcases hr with rfl | rfl <;> decide
  have h8 : 8 ∣ r := by rcases hr with rfl | rfl <;> decide
  have hr25 : r / 8 < 25 := by rcases hr with rfl | rfl <;> decide
  refine ⟨⟨fun hcap => ?_, fun hlt => keccakFinalize_capacity hlt h8 _ _⟩, shakeFinalize_twice r st⟩
  -- at the rate, lane `r/8` receives the domain byte
  refine lt_of_le_of_ne (h.pos_le hr0 h8) fun hpos => ?_
  have hlane := hcap ⟨r / 8, hr25⟩ le_rfl
  obtain ⟨q, rfl⟩ := h8
  have hbit := congrArg (fun v : Lane => v.getLsbD 0) hlane
  simp [shakeFinalize, keccakFinalize, xorLane, xorByte, hpos, show q ≠ q - 1 by omega] at hbit

/-- At SHAKE128's initial state the cursor is below the rate and `finalize` keeps the capacity; at
    the state `finalize` leaves, the cursor is at the rate and a second `finalize` writes into it. -/
theorem shakeFinalize_capacity_iff_init_finalized :
    (shake128Rate = shake128Rate ∨ shake128Rate = shake256Rate) ∧ ShakeReachable shake128Rate shakeInit ∧
    (((∀ j : Fin 25, shake128Rate / 8 ≤ j.val → (shakeFinalize shake128Rate shakeInit).s j = shakeInit.s j)
        ↔ shakeInit.pos < shake128Rate) ∧
      (shakeFinalize shake128Rate (shakeFinalize shake128Rate shakeInit)).s
        = xorByte (xorByte shakeInit.s shakeInit.pos 0x1F#8) shake128Rate 0x1F#8) ∧
    ShakeReachable shake128Rate (shakeFinalize shake128Rate shakeInit) ∧
    (((∀ j : Fin 25, shake128Rate / 8 ≤ j.val → (shakeFinalize shake128Rate (shakeFinalize shake128Rate shakeInit)).s j
          = (shakeFinalize shake128Rate shakeInit).s j)
        ↔ (shakeFinalize shake128Rate shakeInit).pos < shake128Rate) ∧
      (shakeFinalize shake128Rate (shakeFinalize shake128Rate (shakeFinalize shake128Rate shakeInit))).s
        = xorByte (xorByte (shakeFinalize shake128Rate shakeInit).s (shakeFinalize shake128Rate shakeInit).pos 0x1F#8)
            shake128Rate 0x1F#8) ∧
    ¬ ∀ j : Fin 25, shake128Rate / 8 ≤ j.val → (shakeFinalize shake128Rate (shakeFinalize shake128Rate shakeInit)).s j
          = (shakeFinalize shake128Rate shakeInit).s j :=
  have hfin := shakeFinalize_capacity_iff shake128Rate (Or.inl rfl) ShakeReachable.init.finalize
  ⟨Or.inl rfl, .init, shakeFinalize_capacity_iff shake128Rate (Or.inl rfl) .init, ShakeReachable.init.finalize,
    hfin, fun hcap => Nat.lt_irrefl _ (hfin.1.mp hcap)⟩

/-! ## §2. `squeezeblocks` inside a block -/

/-- One block of `keccak_squeezeblocks`: the first `r` bytes of the permuted state. -/
theorem flatMap_store64_block {r : Nat} (h8 : 8 ∣ r) (s : KeccakLanes) :
    (List.range (r / 8)).flatMap (fun i => store64 (getLane s i)) = (List.range' 0 r).map (stateByte s) := by
  obtain ⟨q, rfl⟩ := h8
  rw [flatMap_store64, Nat.mul_div_cancel_left q (by decide)]

theorem keccakSqueezeblocks_succ_eq (n : Nat) (s : KeccakLanes) (r : Nat) :
    keccakSqueezeblocks (n + 1) s r
      = ((List.range (r / 8)).flatMap (fun i => store64 (getLane (keccakF1600StatePermute s) i))
          ++ (keccakSqueezeblocks n (keccakF1600StatePermute s) r).1,
        (keccakSqueezeblocks n (keccakF1600StatePermute s) r).2) := rfl

theorem shakeSqueezeblocks_def (r n : Nat) (st : KeccakState) :
    shakeSqueezeblocks r n st
      = ((keccakSqueezeblocks n st.s r).1, ⟨(keccakSqueezeblocks n st.s r).2, st.pos⟩) := rfl

/-- `keccak_squeezeblocks` writes `nblocks · r` bytes. -/
theorem length_keccakSqueezeblocks {r : Nat} (h8 : 8 ∣ r) (nblocks : Nat) (s : KeccakLanes) :
    (keccakSqueezeblocks nblocks s r).1.length = nblocks * r := by
  induction nblocks generalizing s with
  | zero => simp [keccakSqueezeblocks]
  | succ n ih =>
    rw [keccakSqueezeblocks_succ_eq, List.length_append, ih, flatMap_store64_block h8, List.length_map,
      List.length_range', Nat.succ_mul, Nat.add_comm]

/-- The last pass of `keccak_squeezeblocks` permutes the state the others left and writes its first
    `r` bytes. -/
theorem keccakSqueezeblocks_snoc {r : Nat} (h8 : 8 ∣ r) (n : Nat) (s : KeccakLanes) :
    keccakSqueezeblocks (n + 1) s r
      = ((keccakSqueezeblocks n s r).1
          ++ (List.range' 0 r).map (stateByte (keccakF1600StatePermute (keccakSqueezeblocks n s r).2)),
        keccakF1600StatePermute (keccakSqueezeblocks n s r).2) := by
  induction n generalizing s with
  | zero =>
    rw [keccakSqueezeblocks_succ_eq, flatMap_store64_block h8]
    simp only [keccakSqueezeblocks, List.append_nil, List.nil_append]
  | succ n ih =>
    rw [keccakSqueezeblocks_succ_eq (n + 1) s, ih, keccakSqueezeblocks_succ_eq n s, List.append_assoc]

/-- The block positions `0 … r-1`, cut at `pos` and at `pos + m`. -/
theorem range'_split {pos m r : Nat} (h : pos + m ≤ r) :
    List.range' 0 r = List.range' 0 pos ++ (List.range' pos m ++ List.range' (pos + m) (r - pos - m)) := by
  have e1 := List.range'_append pos m (r - pos - m) 1
  have e2 := List.range'_append 0 pos (r - pos - m + m) 1
  simp only [Nat.one_mul, Nat.zero_add] at e1 e2
  rw [e1, e2]
  congr 1
  omega

/-- `shakeX_squeezeblocks` does not move `pos`.  From a cursor `pos` inside a block, a following
    `shakeX_squeeze` of `m ≤ r - pos` bytes returns bytes `pos … pos+m-1` of the last block
    `squeezeblocks` wrote: the same output twice. -/
theorem shakeSqueeze_after_squeezeblocks {r : Nat} (hr : 0 < r) (h8 : 8 ∣ r) (st : KeccakState)
    {nblocks m : Nat} (hn : 0 < nblocks) (hm : st.pos + m ≤ r) :
    (shakeSqueeze r m (shakeSqueezeblocks r nblocks st).2).map Prod.fst
      = some (((shakeSqueezeblocks r nblocks st).1.drop ((nblocks - 1) * r + st.pos)).take m) := by
  obtain ⟨n, rfl⟩ : ∃ n, nblocks = n + 1 := ⟨nblocks - 1, by omega⟩
  obtain ⟨s, pos⟩ := st
  dsimp only at hm
  have hlen := length_keccakSqueezeblocks h8 n s
  simp only [shakeSqueezeblocks_def, keccakSqueezeblocks_snoc h8 n s, Nat.add_sub_cancel]
  generalize keccakSqueezeblocks n s r = p at hlen ⊢
  generalize keccakF1600StatePermute p.2 = t
  -- the squeeze reads bytes `pos … pos+m-1` of the state `squeezeblocks` left
  rw [shakeSqueeze_eq hr m ⟨t, pos⟩ (by dsimp only; omega), squeezeBytes_block r m t pos hm, ← hlen,
    List.drop_append]
  -- which are bytes `pos … pos+m-1` of the block it wrote last
  rw [range'_split hm, List.map_append, List.map_append, List.drop_left' (by simp), List.take_left' (by simp)]
  rfl

/-- A byte squeezed from SHAKE128's state at cursor 5, after one block of `squeezeblocks`. -/
theorem shakeSqueeze_after_squeezeblocks_mid :
    0 < shake128Rate ∧ 8 ∣ shake128Rate ∧ 0 < 1 ∧ 5 + 1 ≤ shake128Rate ∧
      (shakeSqueeze shake128Rate 1 (shakeSqueezeblocks shake128Rate 1 ⟨keccakInit, 5⟩).2).map Prod.fst
        = some (((shakeSqueezeblocks shake128Rate 1 ⟨keccakInit, 5⟩).1.drop ((1 - 1) * shake128Rate + 5)).take 1) :=
  ⟨by decide, by decide, by decide, by decide,
    shakeSqueeze_after_squeezeblocks (by decide) (by decide) ⟨keccakInit, 5⟩ (by decide) (by decide)⟩

/-! ## §3. Output lengths -/

@[simp]
theorem length_squeezeBytes (r n : Nat) (st : KeccakState) : (squeezeBytes r n st).1.length = n := by
  induction n generalizing st with
  | zero => rfl
  | succ n ih => simp [squeezeBytes, ih]

/-- The first `k` lanes stored, as `sha3_X` writes them: `8k` bytes. -/
@[simp]
theorem length_flatMap_store64 (s : KeccakLanes) (k : Nat) :
    ((List.range k).flatMap fun i => store64 (getLane s i)).length = 8 * k := by
  rw [flatMap_store64, List.length_map, List.length_range']

/-- The calls at one rate `r`: `squeeze` on a reachable state writes `outlen` bytes,
    `squeezeblocks` `nblocks · r`, one-shot `shakeX` `outlen`, and `sha3` `8 · nlanes`. -/
theorem output_lengths {r : Nat} (hr : 0 < r) (h8 : 8 ∣ r) :
    (∀ st : KeccakState, ShakeReachable r st → ∀ outlen : Nat,
      ∃ out st', shakeSqueeze r outlen st = some (out, st') ∧ out.length = outlen) ∧
    (∀ (st : KeccakState) (nblocks : Nat), (shakeSqueezeblocks r nblocks st).1.length = nblocks * r) ∧
    (∀ (outlen : Nat) (inp : List Byte), ∃ out, shake r outlen inp = some out ∧ out.length = outlen) ∧
    (∀ (nlanes : Nat) (inp : List Byte), ∃ h, sha3 r nlanes inp = some h ∧ h.length = 8 * nlanes) := by
  refine ⟨fun st h outlen => ?_, fun st nblocks => ?_, fun outlen inp => ?_, fun nlanes inp => ?_⟩
  · exact ⟨_, _, shakeSqueeze_eq hr outlen st (h.pos_le hr h8), length_squeezeBytes r outlen st⟩
  · rw [shakeSqueezeblocks_def, length_keccakSqueezeblocks h8]
  · exact ⟨_, shake_eq hr h8 outlen inp, length_squeezeBytes _ _ _⟩
  · rw [sha3, keccakAbsorbOnce_eq hr h8]
    exact ⟨_, rfl, length_flatMap_store64 _ nlanes⟩

/-- Every call of the SHAKE128, SHAKE256 and SHA3 API writes exactly the bytes its output buffer
    holds: `outlen` for `squeeze` on every reachable state and for one-shot `shakeX`,
    `nblocks · RATE` for `squeezeblocks`, 32 for `sha3_256` and 64 for `sha3_512`. -/
theorem shake_output_lengths :
    (∀ st : KeccakState, ShakeReachable shake128Rate st → ∀ outlen : Nat,
      ∃ out st', shake128Squeeze outlen st = some (out, st') ∧ out.length = outlen) ∧
    (∀ st : KeccakState, ShakeReachable shake256Rate st → ∀ outlen : Nat,
      ∃ out st', shake256Squeeze outlen st = some (out, st') ∧ out.length = outlen) ∧
    (∀ (st : KeccakState) (nblocks : Nat), (shake128Squeezeblocks nblocks st).1.length = nblocks * shake128Rate) ∧
    (∀ (st : KeccakState) (nblocks : Nat), (shake256Squeezeblocks nblocks st).1.length = nblocks * shake256Rate) ∧
    (∀ (outlen : Nat) (inp : List Byte), ∃ out, shake128 outlen inp = some out ∧ out.length = outlen) ∧
    (∀ (outlen : Nat) (inp : List Byte), ∃ out, shake256 outlen inp = some out ∧ out.length = outlen) ∧
    (∀ inp : List Byte, ∃ h, sha3_256 inp = some h ∧ h.length = 32) ∧
    (∀ inp : List Byte, ∃ h, sha3_512 inp = some h ∧ h.length = 64) := by
  obtain ⟨sq128, blk128, shake128_len, -⟩ := output_lengths (r := shake128Rate) (by decide) (by decide)
  obtain ⟨sq256, blk256, shake256_len, sha3_136⟩ := output_lengths (r := shake256Rate) (by decide) (by decide)
  obtain ⟨-, -, -, sha3_72⟩ := output_lengths (r := sha3_512Rate) (by decide) (by decide)
  exact ⟨sq128, sq256, blk128, blk256, shake128_len, shake256_len, fun inp => sha3_136 4 inp,
    fun inp => sha3_72 8 inp⟩

/-! ## §4. Domain separation -/

/-- The byte machine's cursor after absorbing `bs` from a cursor below the rate. -/
theorem foldl_absorbByte_pos {r : Nat} (bs : List Byte) :
    ∀ st : KeccakState, st.pos < r → (bs.foldl (absorbByte r) st).pos = (st.pos + bs.length) % r := by
  induction bs with
  | nil => intro st h; simp [Nat.mod_eq_of_lt h]
  | cons b bs ih =>
    intro st h
    rw [List.foldl_cons, absorbByte]
    by_cases hr : st.pos + 1 = r
    · rw [if_pos hr, ih _ (by simp; omega)]
      simp only [Nat.zero_add, List.length_cons]
      rw [show st.pos + (bs.length + 1) = bs.length + r by omega, Nat.add_mod_right]
    · rw [if_neg hr, ih _ (by simp; omega), List.length_cons, Nat.add_assoc, Nat.add_comm 1]

/-- `keccak_finalize` with domain byte `p` is `keccak_finalize` with `q`, then `p ⊕ q` XOR-ed in at the cursor. -/
theorem keccakFinalize_domain (s : KeccakLanes) (pos r : Nat) (p q : Byte) :
    keccakFinalize s pos r p = xorByte (keccakFinalize s pos r q) pos (p ^^^ q) := by
  have key : ∀ a b c d : Bool, ((a ^^ b) ^^ d) = (((a ^^ c) ^^ d) ^^ (b ^^ c)) := by decide
  apply KeccakLanes.ext_stateBit
  intro k hk
  simp only [keccakFinalize, stateBit_xorLane _ _ _ hk, stateBit_xorByte _ _ _ hk, BitVec.getLsbD_xor]
  by_cases h : k / 8 = pos
  · simp only [h, decide_True, Bool.true_and]
    exact key _ _ _ _
  · simp [h]

/-- `keccak_absorb_once` depends on its domain byte only through byte `inlen mod r` of the state. -/
theorem keccakAbsorbOnce_domain {r : Nat} (hr : 0 < r) (h8 : 8 ∣ r) (inp : List Byte) (p q : Byte) :
    keccakAbsorbOnce r inp p = (keccakAbsorbOnce r inp q).map fun s => xorByte s (inp.length % r) (p ^^^ q) := by
  rw [keccakAbsorbOnce_eq hr h8, keccakAbsorbOnce_eq hr h8, Option.map_some',
    foldl_absorbByte_pos inp ⟨keccakInit, 0⟩ hr, Nat.zero_add, keccakFinalize_domain _ _ _ p q]

/-- XOR-ing a nonzero byte into the state changes it. -/
theorem xorByte_ne (s : KeccakLanes) {i : Nat} (hi : i < 200) {b : Byte} (hb : b ≠ 0) : xorByte s i b ≠ s := by
  intro h
  apply hb
  ext j
  have hbit := congrArg (fun t => stateBit t (8 * i + j)) h
  simp only [stateBit_xorByte _ _ _ (show 8 * i + j < 1600 by omega), show (8 * i + j) / 8 = i by omega,
    show (8 * i + j) % 8 = j by omega, decide_True, Bool.true_and] at hbit
  rw [← Bool.xor_false (stateBit s _), Bool.xor_assoc, Bool.xor_left_inj] at hbit
  simpa using hbit

/-- SHA3-256 and SHAKE256 both absorb at rate 136.  For every message, `sha3_256` reads its digest
    from `F(s)` and `shake256` its first block from `F(s')`, where `F` is
    `KeccakF1600_StatePermute` and `s`, `s'` are the states `keccak_absorb_once` leaves with domain
    bytes `0x06` and `0x1F`; `s'` is `s` with `0x19` XOR-ed into byte `inlen mod 136`, so the two
    differ, and so do `F(s)` and `F(s')`. -/
theorem sha3_256_shake256_separated (m : List Byte) :
    ∃ s s', keccakAbsorbOnce sha3_256Rate m 0x06#8 = some s ∧ keccakAbsorbOnce shake256Rate m 0x1F#8 = some s' ∧
      sha3_256 m = some ((List.range' 0 32).map (stateByte (keccakF1600StatePermute s))) ∧
      (∀ outlen ≤ shake256Rate,
        shake256 outlen m = some ((List.range' 0 outlen).map (stateByte (keccakF1600StatePermute s')))) ∧
      s' = xorByte s (m.length % 136) 0x19#8 ∧ keccakF1600StatePermute s ≠ keccakF1600StatePermute s' := by
  obtain ⟨s, hs⟩ : ∃ s, keccakAbsorbOnce shake256Rate m 0x06#8 = some s :=
    ⟨_, keccakAbsorbOnce_eq (by decide) (by decide) m _⟩
  have hs' : keccakAbsorbOnce shake256Rate m 0x1F#8 = some (xorByte s (m.length % shake256Rate) 0x19#8) := by
    rw [keccakAbsorbOnce_domain (by decide) (by decide) m 0x1F#8 0x06#8, hs]
    rfl
  refine ⟨s, _, hs, hs', ?sha3, fun outlen hout => ?shake, rfl, ?ne⟩
  case sha3 =>
    simp only [sha3_256, sha3, show sha3_256Rate = shake256Rate from rfl, hs, flatMap_store64]
    rfl
  case shake =>
    -- the first block of `shake256` is read from the permuted finalized state
    have hfin : shakeAbsorbOnce shake256Rate m = some ⟨xorByte s (m.length % shake256Rate) 0x19#8, shake256Rate⟩ := by
      simp only [shakeAbsorbOnce, hs']
      rfl
    rw [shakeAbsorbOnce_eq (by decide) (by decide)] at hfin
    simp only [Option.some.injEq] at hfin
    rw [shake256, shake_eq (by decide) (by decide), hfin]
    by_cases h0 : outlen = 0
    · subst h0; rfl
    · rw [squeezeBytes_at_rate (by decide) h0, squeezeBytes_block _ _ _ _ (by simpa using hout)]
  case ne =>
    exact fun h => xorByte_ne s ((Nat.mod_lt _ (by decide)).trans (by decide)) (by decide)
      (keccakF1600StatePermute_injective h).symm

end Dilithium.Fips202
