/-
  Dilithium.Fips202.Incremental — the incremental SHAKE API against the one-shot one: any chunking
  of the input and any chunking of the output give the bytes and the state of a single call.

  Output requests are `SqueezeRequest`s, served in order by `serveRequests`; a `squeezeblocks`
  request is allowed where the cursor stands at the rate, which `blocksAtRate` checks by running
  the cursor as squeezing moves it (`squeezeCursor`, equal to the byte machine's cursor by
  `squeezeBytes_pos`).  All three laws are read off the byte machine of
  `Dilithium.Fips202.ByteSponge`: absorbing is a fold, so it does not see the chunking, and
  squeezing `m + n` bytes is squeezing `m` and then `n`.

  Main results:
  * `foldlM_shakeAbsorb`: absorbing the chunks one call each is the byte fold over their concatenation.
  * `serveRequests_eq`: serving the requests squeezes their total length on the byte machine.
  * `shake_eq`: one-shot `shakeX` is the byte machine after absorb-once, squeezed `outlen` bytes.
  * `shake_incremental_eq_oneShot`: the three laws, for SHAKE128 and for SHAKE256.
-/
import Dilithium.Fips202.Invariants

namespace Dilithium.Fips202

/-! ## §1. Output requests. -/
/-- One output request on a finalized state. -/
inductive SqueezeRequest
  /-- `shakeX_squeeze(out, outlen, state)`. -/
  | squeeze (outlen : Nat)
  /-- `shakeX_squeezeblocks(out, nblocks, state)`. -/
  | squeezeblocks (nblocks : Nat)

/-- The number of bytes a request writes. -/
def SqueezeRequest.outlen (r : Nat) : SqueezeRequest → Nat
  | .squeeze outlen => outlen
  | .squeezeblocks nblocks => nblocks * r

/-- Serve the requests in order with the given `squeeze` and `squeezeblocks` calls, concatenating
    what they write. -/
def serveRequests (squeeze : Nat → KeccakState → Option (List Byte × KeccakState))
    (squeezeblocks : Nat → KeccakState → List Byte × KeccakState) :
    List SqueezeRequest → KeccakState → Option (List Byte × KeccakState)
  | [], st => some ([], st)
  | .squeeze outlen :: reqs, st => do
    let (out, st) ← squeeze outlen st
    let (rest, st) ← serveRequests squeeze squeezeblocks reqs st
    return (out ++ rest, st)
  | .squeezeblocks nblocks :: reqs, st => do
    let (out, st) := squeezeblocks nblocks st
    let (rest, st) ← serveRequests squeeze squeezeblocks reqs st
    return (out ++ rest, st)

/-- The cursor after squeezing `n` bytes from cursor `pos`. -/
def squeezeCursor (r : Nat) : Nat → Nat → Nat
  | 0, pos => pos
  | n + 1, pos => squeezeCursor r n ((if pos = r then 0 else pos) + 1)

/-- Every `squeezeblocks` request of the list comes when the cursor stands at the rate. -/
def blocksAtRate (r : Nat) : Nat → List SqueezeRequest → Bool
  | _, [] => true
  | pos, .squeeze outlen :: reqs => blocksAtRate r (squeezeCursor r outlen pos) reqs
  | pos, .squeezeblocks _ :: reqs => pos == r && blocksAtRate r pos reqs

/-- `n1 + … + nj`, the bytes all requests write together. -/
def totalOutlen (r : Nat) : List SqueezeRequest → Nat
  | [] => 0
  | req :: reqs => req.outlen r + totalOutlen r reqs

/-- `squeezeCursor` is the byte machine's cursor. -/
theorem squeezeBytes_pos (r n : Nat) (st : KeccakState) :
    (squeezeBytes r n st).2.pos = squeezeCursor r n st.pos := by
  induction n generalizing st with
  | zero => rfl
  | succ n ih =>
    simp only [squeezeBytes, ih, squeezeCursor]
    by_cases h : st.pos = r <;> simp [squeezeByte, h]

/-! ## §2. The laws on the byte machine. -/

/-- `shakeX_absorb` over the chunks, one call each, from a cursor below the rate, is the byte fold over
    their concatenation. -/
theorem foldlM_shakeAbsorb {r : Nat} (hr : 0 < r) (ms : List (List Byte)) :
    ∀ st : KeccakState, st.pos < r → ms.foldlM (shakeAbsorb r) st = some (ms.flatten.foldl (absorbByte r) st) := by
  induction ms with
  | nil => intro st _; rfl
  | cons m ms ih =>
    intro st h
    simp only [List.foldlM_cons, shakeAbsorb_eq st h, Option.bind_eq_bind, Option.some_bind,
      ih _ (foldl_absorbByte_pos_lt hr m st h), List.flatten_cons, List.foldl_append]

/-- Serving the requests from a cursor at most the rate squeezes their total on the byte machine. -/
theorem serveRequests_eq {r : Nat} (hr : 0 < r) (h8 : 8 ∣ r) (reqs : List SqueezeRequest) :
    ∀ st : KeccakState, st.pos ≤ r → blocksAtRate r st.pos reqs = true →
      serveRequests (shakeSqueeze r) (shakeSqueezeblocks r) reqs st
        = some (squeezeBytes r (totalOutlen r reqs) st) := by
  induction reqs with
  | nil => intro st _ _; rfl
  | cons req reqs ih =>
    intro st hpos hval
    cases req with
    | squeeze outlen =>
      simp only [blocksAtRate] at hval
      rw [← squeezeBytes_pos] at hval
      simp [serveRequests, shakeSqueeze_eq hr outlen st hpos, ih _ (squeezeBytes_pos_le hr outlen st hpos) hval,
        totalOutlen, SqueezeRequest.outlen, squeezeBytes_add]
    | squeezeblocks nblocks =>
      simp only [blocksAtRate, Bool.and_eq_true, beq_iff_eq] at hval
      have hblocks := shakeSqueezeblocks_eq hr h8 nblocks st hval.1
      have hpos' : (squeezeBytes r (nblocks * r) st).2.pos = st.pos := by rw [← hblocks]; rfl
      simp [serveRequests, hblocks, ih _ (hpos' ▸ hpos) (hpos' ▸ hval.2), totalOutlen,
        SqueezeRequest.outlen, squeezeBytes_add]

/-- One-shot `shakeX(out, outlen, in, inlen)` writes the first `outlen` bytes the byte machine squeezes
    after `shakeX_absorb_once`. -/
theorem shake_eq {r : Nat} (hr : 0 < r) (h8 : 8 ∣ r) (outlen : Nat) (inp : List Byte) :
    shake r outlen inp
      = some (squeezeBytes r outlen (shakeFinalize r (inp.foldl (absorbByte r) shakeInit))).1 := by
  have hblocks := shakeSqueezeblocks_eq hr h8 (outlen / r)
    (shakeFinalize r (inp.foldl (absorbByte r) shakeInit)) rfl
  have hpos : (squeezeBytes r (outlen / r * r) (shakeFinalize r (inp.foldl (absorbByte r) shakeInit))).2.pos
      = r := by rw [← hblocks]; rfl
  have hsplit := squeezeBytes_add r (outlen / r * r) (outlen - outlen / r * r)
    (shakeFinalize r (inp.foldl (absorbByte r) shakeInit))
  rw [Nat.add_sub_cancel' (Nat.div_mul_le_self outlen r)] at hsplit
  simp [shake, shakeAbsorbOnce_eq hr h8, hblocks, shakeSqueeze_eq hr _ _ hpos.le, hsplit]

/-- The three laws at a rate `r`. -/
theorem shake_chunked_eq {r : Nat} (hr : 0 < r) (h8 : 8 ∣ r) :
    (∀ ms : List (List Byte),
      (ms.foldlM (shakeAbsorb r) shakeInit).map (shakeFinalize r) = shakeAbsorbOnce r ms.flatten) ∧
    (∀ (st : KeccakState) (reqs : List SqueezeRequest), st.pos ≤ r → blocksAtRate r st.pos reqs = true →
      serveRequests (shakeSqueeze r) (shakeSqueezeblocks r) reqs st = shakeSqueeze r (totalOutlen r reqs) st) ∧
    (∀ (inp : List Byte) (reqs : List SqueezeRequest), blocksAtRate r r reqs = true →
      (shakeAbsorbOnce r inp >>= serveRequests (shakeSqueeze r) (shakeSqueezeblocks r) reqs).map Prod.fst
        = shake r (totalOutlen r reqs) inp) := by
  refine ⟨fun ms => ?_, fun st reqs hpos hval => ?_, fun inp reqs hval => ?_⟩
  · rw [foldlM_shakeAbsorb hr ms shakeInit hr, shakeAbsorbOnce_eq hr h8]
    rfl
  · rw [serveRequests_eq hr h8 reqs st hpos hval, shakeSqueeze_eq hr _ st hpos]
  · rw [shakeAbsorbOnce_eq hr h8, shake_eq hr h8]
    simp [serveRequests_eq hr h8 reqs (shakeFinalize r (inp.foldl (absorbByte r) shakeInit)) (le_refl r) hval]

/-! ## §3. SHAKE128 and SHAKE256. -/

/-- For SHAKE128 and SHAKE256: `init`, `absorb` over any chunking of `m` and `finalize` leave the state
    `absorb_once(m)` leaves; any sequence of `squeeze` and at-rate `squeezeblocks` requests writes the
    bytes of one `squeeze` of their total and leaves its state; and those bytes are what one-shot
    `shakeX` writes. -/
theorem shake_incremental_eq_oneShot :
    ((∀ ms : List (List Byte),
      (ms.foldlM shake128Absorb shake128Init).map shake128Finalize = shake128AbsorbOnce ms.flatten) ∧
    (∀ (st : KeccakState) (reqs : List SqueezeRequest), st.pos ≤ shake128Rate →
      blocksAtRate shake128Rate st.pos reqs = true →
      serveRequests shake128Squeeze shake128Squeezeblocks reqs st
        = shake128Squeeze (totalOutlen shake128Rate reqs) st) ∧
    (∀ (inp : List Byte) (reqs : List SqueezeRequest), blocksAtRate shake128Rate shake128Rate reqs = true →
      (shake128AbsorbOnce inp >>= serveRequests shake128Squeeze shake128Squeezeblocks reqs).map Prod.fst
        = shake128 (totalOutlen shake128Rate reqs) inp)) ∧
    ((∀ ms : List (List Byte),
      (ms.foldlM shake256Absorb shake256Init).map shake256Finalize = shake256AbsorbOnce ms.flatten) ∧
    (∀ (st : KeccakState) (reqs : List SqueezeRequest), st.pos ≤ shake256Rate →
      blocksAtRate shake256Rate st.pos reqs = true →
      serveRequests shake256Squeeze shake256Squeezeblocks reqs st
        = shake256Squeeze (totalOutlen shake256Rate reqs) st) ∧
    (∀ (inp : List Byte) (reqs : List SqueezeRequest), blocksAtRate shake256Rate shake256Rate reqs = true →
      (shake256AbsorbOnce inp >>= serveRequests shake256Squeeze shake256Squeezeblocks reqs).map Prod.fst
        = shake256 (totalOutlen shake256Rate reqs) inp)) :=
  ⟨shake_chunked_eq (by decide) (by decide), shake_chunked_eq (by decide) (by decide)⟩

/-- One block, then 200 bytes across a block boundary, then 136 more, after absorbing one zero byte. -/
theorem shake_incremental_eq_oneShot_witness :
    blocksAtRate shake128Rate shake128Rate [.squeezeblocks 1, .squeeze 200, .squeeze 136] = true ∧
    (shake128AbsorbOnce [0x00#8] >>= serveRequests shake128Squeeze shake128Squeezeblocks
        [.squeezeblocks 1, .squeeze 200, .squeeze 136]).map Prod.fst
      = shake128 (totalOutlen shake128Rate [.squeezeblocks 1, .squeeze 200, .squeeze 136]) [0x00#8] :=
  ⟨by decide, shake_incremental_eq_oneShot.1.2.2 _ _ (by decide)⟩

end Dilithium.Fips202
