/-
  Dilithium.Fips202.Shake — the public SHAKE128 / SHAKE256 / SHA3 API of `fips202.c` over a
  `keccak_state`: the incremental calls `shakeX_init`, `_absorb`, `_finalize`, `_squeeze`,
  `_absorb_once`, `_squeezeblocks`, and the one-shot `shake128`, `shake256`, `sha3_256`,
  `sha3_512`.

  The SHAKE128 and SHAKE256 families differ only in their rate, so each call is one definition
  taking the rate (`shakeAbsorb r` …) and each member is that definition at its own rate, under
  the code's name.  `keccak_state` and the rate macros live in `fips202.h`, which is not among
  the sources; they are modelled from the spec.
-/
import Dilithium.Fips202.Sponge

namespace Dilithium.Fips202

/-! ## §1. The state record and the rates. -/

/-- Modelled from the spec: `keccak_state` of `fips202.h`, the 25-lane state `s` and the byte
    cursor `pos` ("25 lane (64-bit) Keccak state + absorbed-byte position cursor"). -/
structure KeccakState where
  /-- `uint64_t s[25]`. -/
  s : KeccakLanes
  /-- `unsigned int pos`. -/
  pos : Nat

/-- Modelled from the spec: `SHAKE128_RATE` of `fips202.h`, 168 bytes. -/
def shake128Rate : Nat := 168

/-- Modelled from the spec: `SHAKE256_RATE` of `fips202.h`, 136 bytes. -/
def shake256Rate : Nat := 136

/-- Modelled from the spec: `SHA3_256_RATE` of `fips202.h`, 136 bytes. -/
def sha3_256Rate : Nat := 136

/-- Modelled from the spec: `SHA3_512_RATE` of `fips202.h`, 72 bytes. -/
def sha3_512Rate : Nat := 72

/-! ## §2. The incremental calls, for a rate `r`. -/

/-- `shakeX_init(state)`: `keccak_init(state->s); state->pos = 0`. -/
def shakeInit : KeccakState := ⟨keccakInit, 0⟩

/-- `shakeX_absorb(state, in, inlen)`: `state->pos = keccak_absorb(state->s, state->pos, r, in, inlen)`. -/
def shakeAbsorb (r : Nat) (state : KeccakState) (inp : List Byte) : Option KeccakState :=
  (keccakAbsorb state.s state.pos r inp).map fun (s, pos) => ⟨s, pos⟩

/-- `shakeX_finalize(state)`: `keccak_finalize(state->s, state->pos, r, 0x1F); state->pos = r`. -/
def shakeFinalize (r : Nat) (state : KeccakState) : KeccakState :=
  ⟨keccakFinalize state.s state.pos r 0x1F#8, r⟩

/-- `shakeX_squeeze(out, outlen, state)`: `state->pos = keccak_squeeze(out, outlen, state->s, state->pos, r)`. -/
def shakeSqueeze (r outlen : Nat) (state : KeccakState) : Option (List Byte × KeccakState) :=
  (keccakSqueeze outlen state.s state.pos r).map fun (out, s, pos) => (out, ⟨s, pos⟩)

/-- `shakeX_absorb_once(state, in, inlen)`: `keccak_absorb_once(state->s, r, in, inlen, 0x1F); state->pos = r`. -/
def shakeAbsorbOnce (r : Nat) (inp : List Byte) : Option KeccakState :=
  (keccakAbsorbOnce r inp 0x1F#8).map fun s => ⟨s, r⟩

/-- `shakeX_squeezeblocks(out, nblocks, state)`: `keccak_squeezeblocks(out, nblocks, state->s, r)`;
    `pos` is left as it was. -/
def shakeSqueezeblocks (r nblocks : Nat) (state : KeccakState) : List Byte × KeccakState :=
  let (out, s) := keccakSqueezeblocks nblocks state.s r
  (out, { state with s := s })

/-! ## §3. The one-shot functions, for a rate `r`. -/

/-- `shakeX(out, outlen, in, inlen)`: absorb once, `outlen/r` whole blocks, then the rest by squeeze. -/
def shake (r outlen : Nat) (inp : List Byte) : Option (List Byte) := do
  let state ← shakeAbsorbOnce r inp
  let nblocks := outlen / r
  let (out, state) := shakeSqueezeblocks r nblocks state
  let (rest, _) ← shakeSqueeze r (outlen - nblocks * r) state
  return out ++ rest

/-- `sha3_X(h, in, inlen)`: absorb once with domain byte `0x06`, one permutation, then
    `store64(h+8*i, s[i])` for `i < nlanes`. -/
def sha3 (r nlanes : Nat) (inp : List Byte) : Option (List Byte) := do
  let s ← keccakAbsorbOnce r inp 0x06#8
  let s := keccakF1600StatePermute s
  return (List.range nlanes).flatMap fun i => store64 (getLane s i)

/-! ## §4. The members, at their own rates. -/

/-- `shake128_init`. -/
def shake128Init : KeccakState := shakeInit

/-- `shake128_absorb`. -/
def shake128Absorb (state : KeccakState) (inp : List Byte) : Option KeccakState :=
  shakeAbsorb shake128Rate state inp

/-- `shake128_finalize`. -/
def shake128Finalize (state : KeccakState) : KeccakState := shakeFinalize shake128Rate state

/-- `shake128_squeeze`. -/
def shake128Squeeze (outlen : Nat) (state : KeccakState) : Option (List Byte × KeccakState) :=
  shakeSqueeze shake128Rate outlen state

/-- `shake128_absorb_once`. -/
def shake128AbsorbOnce (inp : List Byte) : Option KeccakState := shakeAbsorbOnce shake128Rate inp

/-- `shake128_squeezeblocks`. -/
def shake128Squeezeblocks (nblocks : Nat) (state : KeccakState) : List Byte × KeccakState :=
  shakeSqueezeblocks shake128Rate nblocks state

/-- `shake256_init`. -/
def shake256Init : KeccakState := shakeInit

/-- `shake256_absorb`. -/
def shake256Absorb (state : KeccakState) (inp : List Byte) : Option KeccakState :=
  shakeAbsorb shake256Rate state inp

/-- `shake256_finalize`. -/
def shake256Finalize (state : KeccakState) : KeccakState := shakeFinalize shake256Rate state

/-- `shake256_squeeze`. -/
def shake256Squeeze (outlen : Nat) (state : KeccakState) : Option (List Byte × KeccakState) :=
  shakeSqueeze shake256Rate outlen state

/-- `shake256_absorb_once`. -/
def shake256AbsorbOnce (inp : List Byte) : Option KeccakState := shakeAbsorbOnce shake256Rate inp

/-- `shake256_squeezeblocks`. -/
def shake256Squeezeblocks (nblocks : Nat) (state : KeccakState) : List Byte × KeccakState :=
  shakeSqueezeblocks shake256Rate nblocks state

/-- `shake128(out, outlen, in, inlen)`. -/
def shake128 (outlen : Nat) (inp : List Byte) : Option (List Byte) := shake shake128Rate outlen inp

/-- `shake256(out, outlen, in, inlen)`. -/
def shake256 (outlen : Nat) (inp : List Byte) : Option (List Byte) := shake shake256Rate outlen inp

/-- `sha3_256(h, in, inlen)`: four lanes, 32 bytes. -/
def sha3_256 (inp : List Byte) : Option (List Byte) := sha3 sha3_256Rate 4 inp

/-- `sha3_512(h, in, inlen)`: eight lanes, 64 bytes. -/
def sha3_512 (inp : List Byte) : Option (List Byte) := sha3 sha3_512Rate 8 inp

end Dilithium.Fips202
