/-
  Dilithium.Fips202.Sponge — the static sponge routines of `fips202.c`: `keccak_init`,
  `keccak_absorb`, `keccak_finalize`, `keccak_squeeze`, `keccak_absorb_once` and
  `keccak_squeezeblocks`, on the 25-lane state and an explicit cursor `pos`.

  A C `while` loop is `whileLoop cond body fuel`: it tests `cond` before each run of `body` and
  answers `none` only when the fuel runs out.  The fuel each routine passes is a bound on its
  iterations, and `whileLoop_spec` (an invariant and a decreasing measure) is the one rule every
  later loop proof uses.  Buffers are lists: `in` with its length `inlen` is the list `inp`, and
  the bytes written to `out` are returned.

  Main results:
  * `whileLoop_spec`: a loop whose body keeps an invariant and lowers a measure below the fuel
    stops in a state where the invariant holds and the condition fails.
  * `keccakSqueeze_eq_none`: with the cursor past the rate, `keccak_squeeze` never returns, with
    any fuel.
-/
import Dilithium.Fips202.Permute

namespace Dilithium.Fips202

/-! ## §1. `while` loops. -/

/-- `while (cond) body;`, run with at most `fuel` tests of the condition. -/
def whileLoop {σ : Type} (cond : σ → Bool) (body : σ → σ) : Nat → σ → Option σ
  | 0, _ => none
  | fuel + 1, st => if cond st then whileLoop cond body fuel (body st) else some st

section Loop

variable {σ : Type} (cond : σ → Bool) (body : σ → σ)

/-- The loop rule: an invariant kept by the body and a measure it lowers; fuel above the measure
    is enough for the loop to stop, and it stops where the invariant holds and `cond` fails. -/
theorem whileLoop_spec (Inv : σ → Prop) (μ : σ → Nat)
    (hstep : ∀ st, Inv st → cond st = true → Inv (body st) ∧ μ (body st) < μ st) :
    ∀ fuel st, Inv st → μ st < fuel →
      ∃ st', whileLoop cond body fuel st = some st' ∧ Inv st' ∧ cond st' = false := by
  intro fuel
  induction fuel with
  | zero => intro st _ h; omega
  | succ fuel ih =>
    intro st hinv hμ
    by_cases hc : cond st = true
    · obtain ⟨hinv', hμ'⟩ := hstep st hinv hc
      simpa [whileLoop, hc] using ih (body st) hinv' (by omega)
    · exact ⟨st, by simp [whileLoop, hc], hinv, by simpa using hc⟩

/-- A loop that stops within `fuel` tests stops in the same state with more fuel. -/
theorem whileLoop_add_fuel {st st' : σ} (k : Nat) :
    ∀ fuel, whileLoop cond body fuel st = some st' → whileLoop cond body (fuel + k) st = some st' := by
  intro fuel
  induction fuel generalizing st with
  | zero => intro h; cases h
  | succ fuel ih =>
    intro h
    rw [Nat.add_right_comm, whileLoop]
    rw [whileLoop] at h
    split at h
    · rw [if_pos ‹_›]; exact ih h
    · rw [if_neg ‹_›]; exact h

/-- A loop whose body leaves a state with a true condition unchanged never stops. -/
theorem whileLoop_eq_none_of_fixed {st : σ} (hc : cond st = true) (hfix : body st = st) :
    ∀ fuel, whileLoop cond body fuel st = none := by
  intro fuel
  induction fuel with
  | zero => rfl
  | succ fuel ih => rw [whileLoop, if_pos hc, hfix, ih]

end Loop

/-! ## §2. Absorbing. -/

/-- `keccak_init(s)`: all 25 lanes zero. -/
def keccakInit : KeccakLanes := fun _ => 0

/-- The condition of `keccak_absorb`'s loop, `pos+inlen >= r`. -/
def keccakAbsorbCond (r : Nat) : KeccakLanes × Nat × List Byte → Bool
  | (_, pos, inp) => r ≤ pos + inp.length

/-- The body of `keccak_absorb`'s loop: bytes `pos … r-1` of the block from `in`, `inlen -= r-pos`,
    the permutation, `pos = 0`. -/
def keccakAbsorbBody (r : Nat) : KeccakLanes × Nat × List Byte → KeccakLanes × Nat × List Byte
  | (s, pos, inp) => (keccakF1600StatePermute (xorBytes s pos (inp.take (r - pos))), 0, inp.drop (r - pos))

/-- `keccak_absorb(s, pos, r, in, inlen)`: the loop, then the tail bytes from `pos`; returns the state
    and the new position `i`. -/
def keccakAbsorb (s : KeccakLanes) (pos r : Nat) (inp : List Byte) : Option (KeccakLanes × Nat) := do
  let (s, pos, inp) ← whileLoop (keccakAbsorbCond r) (keccakAbsorbBody r) (inp.length + 2) (s, pos, inp)
  return (xorBytes s pos inp, pos + inp.length)

/-- `keccak_finalize(s, pos, r, p)`: `s[pos/8] ^= (uint64_t)p << 8*(pos%8); s[r/8-1] ^= 1ULL << 63`. -/
def keccakFinalize (s : KeccakLanes) (pos r : Nat) (p : Byte) : KeccakLanes :=
  xorLane (xorByte s pos p) (r / 8 - 1) (1#64 <<< 63)

/-- The condition of `keccak_absorb_once`'s loop, `inlen >= r`. -/
def keccakAbsorbOnceCond (r : Nat) : KeccakLanes × List Byte → Bool
  | (_, inp) => r ≤ inp.length

/-- The body of `keccak_absorb_once`'s loop: `s[i] ^= load64(in+8*i)` for `i < r/8`, `in += r`,
    `inlen -= r`, the permutation. -/
def keccakAbsorbOnceBody (r : Nat) : KeccakLanes × List Byte → KeccakLanes × List Byte
  | (s, inp) =>
    let s := (List.range (r / 8)).foldl (fun s i => xorLane s i (load64 (inp.drop (8 * i)))) s
    (keccakF1600StatePermute s, inp.drop r)

/-- `keccak_absorb_once(s, r, in, inlen, p)`: zero the state, absorb the whole blocks lane by lane,
    XOR in the tail bytes, the domain byte `p` at `inlen` and the top bit of lane `(r-1)/8`. -/
def keccakAbsorbOnce (r : Nat) (inp : List Byte) (p : Byte) : Option KeccakLanes := do
  let (s, inp) ← whileLoop (keccakAbsorbOnceCond r) (keccakAbsorbOnceBody r) (inp.length + 1)
    (keccakInit, inp)
  let s := xorBytes s 0 inp
  let s := xorByte s inp.length p
  return xorLane s ((r - 1) / 8) (1#64 <<< 63)

/-! ## §3. Squeezing. -/

/-- The condition of `keccak_squeeze`'s loop, `outlen != 0`. -/
def keccakSqueezeCond : List Byte × Nat × KeccakLanes × Nat → Bool
  | (_, outlen, _, _) => outlen != 0

/-- The body of `keccak_squeeze`'s loop: permute if `pos == r`, then bytes `i` from `pos` while
    `i < r && i < pos+outlen`, `outlen -= i-pos`, `pos = i`. -/
def keccakSqueezeBody (r : Nat) : List Byte × Nat × KeccakLanes × Nat → List Byte × Nat × KeccakLanes × Nat
  | (out, outlen, s, pos) =>
    let (s, pos) := if pos = r then (keccakF1600StatePermute s, 0) else (s, pos)
    let i := max pos (min r (pos + outlen))
    (out ++ (List.range' pos (i - pos)).map (stateByte s), outlen - (i - pos), s, i)

/-- `keccak_squeeze(out, outlen, s, pos, r)`: the bytes written, the state and the returned `pos`. -/
def keccakSqueeze (outlen : Nat) (s : KeccakLanes) (pos r : Nat) :
    Option (List Byte × KeccakLanes × Nat) := do
  let (out, _, s, pos) ← whileLoop keccakSqueezeCond (keccakSqueezeBody r) (outlen + 1) ([], outlen, s, pos)
  return (out, s, pos)

/-- `keccak_squeezeblocks(out, nblocks, s, r)`: per block, the permutation and then
    `store64(out+8*i, s[i])` for `i < r/8`. -/
def keccakSqueezeblocks : Nat → KeccakLanes → Nat → List Byte × KeccakLanes
  | 0, s, _ => ([], s)
  | nblocks + 1, s, r =>
    let s := keccakF1600StatePermute s
    let out := (List.range (r / 8)).flatMap fun i => store64 (getLane s i)
    let (rest, s) := keccakSqueezeblocks nblocks s r
    (out ++ rest, s)

/-- Past the rate the squeeze body copies nothing and leaves every variable as it was. -/
theorem keccakSqueezeBody_of_rate_lt {r pos : Nat} (h : r < pos) (out : List Byte) (outlen : Nat)
    (s : KeccakLanes) : keccakSqueezeBody r (out, outlen, s, pos) = (out, outlen, s, pos) := by
  simp [keccakSqueezeBody, show pos ≠ r by omega, show min r (pos + outlen) ≤ pos by omega]

/-- With the cursor past the rate, `keccak_squeeze` of a nonzero length never returns: its loop
    makes no progress, so it runs out of any fuel, not only of the bound the call passes. -/
theorem keccakSqueeze_eq_none {outlen pos r : Nat} (h : r < pos) (hn : 0 < outlen) (s : KeccakLanes) :
    keccakSqueeze outlen s pos r = none ∧
      ∀ fuel, whileLoop keccakSqueezeCond (keccakSqueezeBody r) fuel ([], outlen, s, pos) = none := by
  have hloop := whileLoop_eq_none_of_fixed keccakSqueezeCond (keccakSqueezeBody r)
    (by simp [keccakSqueezeCond]; omega) (keccakSqueezeBody_of_rate_lt h [] outlen s)
  exact ⟨by rw [keccakSqueeze, hloop]; rfl, hloop⟩

/-- One byte asked of SHAKE128's rate with the cursor one past it. -/
theorem keccakSqueeze_eq_none_past_rate :
    168 < 169 ∧ 0 < 1 ∧ keccakSqueeze 1 keccakInit 169 168 = none ∧
      ∀ fuel, whileLoop keccakSqueezeCond (keccakSqueezeBody 168) fuel ([], 1, keccakInit, 169) = none :=
  ⟨by decide, by decide, keccakSqueeze_eq_none (by decide) (by decide) keccakInit⟩

end Dilithium.Fips202
