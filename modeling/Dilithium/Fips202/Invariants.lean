/-
  Dilithium.Fips202.Invariants — the `keccak_state` invariants over every sequence of calls of
  the SHAKE128 / SHAKE256 incremental API.

  A call is a `SpongeOp`, `shakeStep r` runs it on the state, and `ShakeReachable r` is the set of
  states some sequence of calls reaches from `shakeX_init` or `shakeX_absorb_once`, in any order:
  absorb after finalize, finalize twice and squeezeblocks in mid-block included.  The one
  invariant, `pos ≤ r`, is kept by every call (`shakeStep_pos_le`); everything else follows from
  it.  Buffer lengths are `Nat`s, so the model has no `size_t` overflow: callers keep
  `length + rate` within `size_t`.

  Main results:
  * `keccakAbsorb_terminates`: `keccak_absorb` returns for every cursor and input, below the rate.
  * `keccakSqueeze_terminates`: `keccak_squeeze` returns for every length from a cursor at most the rate.
  * `ShakeReachable.pos_le`: every reachable state has `pos ≤ r`.
  * `keccakFinalize_capacity`: from `pos < r`, finalization leaves the capacity lanes alone.
  * `shake_state_invariants`: the cursor bound, finalization inside the rate window, every lane
    index below 25, and termination of the absorb and squeeze loops.
-/
import Dilithium.Fips202.ByteSponge

namespace Dilithium.Fips202

/-! ## §1. Calls and reachable states. -/

/-- One call of the incremental API on a `keccak_state`. -/
inductive SpongeOp
  /-- `shakeX_init(state)`. -/
  | init
  /-- `shakeX_absorb(state, in, inlen)`. -/
  | absorb (inp : List Byte)
  /-- `shakeX_finalize(state)`. -/
  | finalize
  /-- `shakeX_squeeze(out, outlen, state)`. -/
  | squeeze (outlen : Nat)
  /-- `shakeX_squeezeblocks(out, nblocks, state)`. -/
  | squeezeblocks (nblocks : Nat)
  /-- `shakeX_absorb_once(state, in, inlen)`. -/
  | absorbOnce (inp : List Byte)

/-- The state after one call at rate `r`; `none` only if a loop of the call does not return. -/
def shakeStep (r : Nat) : SpongeOp → KeccakState → Option KeccakState
  | .init, _ => some shakeInit
  | .absorb inp, st => shakeAbsorb r st inp
  | .finalize, st => some (shakeFinalize r st)
  | .squeeze outlen, st => (shakeSqueeze r outlen st).map Prod.snd
  | .squeezeblocks nblocks, st => some (shakeSqueezeblocks r nblocks st).2
  | .absorbOnce inp, _ => shakeAbsorbOnce r inp

/-- The states a sequence of calls at rate `r` reaches, started by `init` or `absorb_once`. -/
inductive ShakeReachable (r : Nat) : KeccakState → Prop
  | init : ShakeReachable r shakeInit
  | absorbOnce {inp : List Byte} {st : KeccakState} : shakeAbsorbOnce r inp = some st → ShakeReachable r st
  | step {op : SpongeOp} {st st' : KeccakState} : ShakeReachable r st → shakeStep r op st = some st' →
      ShakeReachable r st'

/-- `finalize` leaves a reachable state reachable; from `init` it reaches a cursor at the rate. -/
theorem ShakeReachable.finalize {r : Nat} {st : KeccakState} (h : ShakeReachable r st) :
    ShakeReachable r (shakeFinalize r st) :=
  .step h (show shakeStep r .finalize st = some _ from rfl)

/-! ## §2. Each call keeps `pos ≤ r`. -/

/-- `keccak_absorb` returns from every cursor, with a cursor below the rate. -/
theorem keccakAbsorb_terminates {r : Nat} (hr : 0 < r) (s : KeccakLanes) (pos : Nat) (inp : List Byte) :
    ∃ s' pos', keccakAbsorb s pos r inp = some (s', pos') ∧ pos' < r := by
  obtain ⟨⟨s', pos', inp'⟩, hloop, -, hexit⟩ := whileLoop_spec
    (keccakAbsorbCond r) (keccakAbsorbBody r) (fun _ => True)
    (fun st => st.2.2.length + if st.2.1 = 0 then 0 else 1)
    (by
      rintro ⟨s', pos', inp'⟩ - hc
      simp only [keccakAbsorbCond, decide_eq_true_eq] at hc
      refine ⟨trivial, ?_⟩
      simp only [keccakAbsorbBody, List.length_drop, if_true]
      split <;> omega)
    (inp.length + 2) (s, pos, inp) trivial (by dsimp only; split <;> omega)
  simp only [keccakAbsorbCond, decide_eq_false_iff_not, not_le] at hexit
  exact ⟨xorBytes s' pos' inp', pos' + inp'.length, by simp [keccakAbsorb, hloop], hexit⟩

/-- `keccak_squeeze` returns from every cursor at most the rate. -/
theorem keccakSqueeze_terminates {r : Nat} (hr : 0 < r) (outlen : Nat) (st : KeccakState) (hpos : st.pos ≤ r) :
    ∃ out s' pos', keccakSqueeze outlen st.s st.pos r = some (out, s', pos') := by
  have h := shakeSqueeze_eq hr outlen st hpos
  rw [shakeSqueeze] at h
  cases hk : keccakSqueeze outlen st.s st.pos r with
  | none => rw [hk] at h; cases h
  | some res => exact ⟨res.1, res.2.1, res.2.2, rfl⟩

/-- The byte machine keeps its cursor below the rate while absorbing. -/
theorem foldl_absorbByte_pos_lt {r : Nat} (hr : 0 < r) (bs : List Byte) :
    ∀ st : KeccakState, st.pos < r → (bs.foldl (absorbByte r) st).pos < r := by
  induction bs with
  | nil => intro st h; exact h
  | cons b bs ih =>
    intro st h
    apply ih
    unfold absorbByte
    split <;> simp <;> omega

/-- The byte machine keeps its cursor at most the rate while squeezing. -/
theorem squeezeBytes_pos_le {r : Nat} (hr : 0 < r) (n : Nat) :
    ∀ st : KeccakState, st.pos ≤ r → (squeezeBytes r n st).2.pos ≤ r := by
  induction n with
  | zero => intro st h; exact h
  | succ n ih =>
    intro st h
    apply ih
    by_cases h' : st.pos = r <;> simp [squeezeByte, h'] <;> omega

/-- The step lemma: from `pos ≤ r` every call returns, with `pos ≤ r` again. -/
theorem shakeStep_pos_le {r : Nat} (hr : 0 < r) (h8 : 8 ∣ r) (op : SpongeOp) (st : KeccakState)
    (hpos : st.pos ≤ r) : ∃ st', shakeStep r op st = some st' ∧ st'.pos ≤ r := by
  cases op with
  | init => exact ⟨_, rfl, Nat.zero_le r⟩
  | absorb inp =>
    obtain ⟨s', pos', h, hlt⟩ := keccakAbsorb_terminates hr st.s st.pos inp
    exact ⟨⟨s', pos'⟩, by simp [shakeStep, shakeAbsorb, h], hlt.le⟩
  | finalize => exact ⟨_, rfl, le_refl r⟩
  | squeeze outlen =>
    exact ⟨_, by simp [shakeStep, shakeSqueeze_eq hr outlen st hpos], squeezeBytes_pos_le hr outlen st hpos⟩
  | squeezeblocks nblocks => exact ⟨_, rfl, hpos⟩
  | absorbOnce inp =>
    exact ⟨shakeFinalize r (inp.foldl (absorbByte r) shakeInit), by simp [shakeStep, shakeAbsorbOnce_eq hr h8],
      le_refl r⟩

/-- The run lemma: every reachable state has `pos ≤ r`. -/
theorem ShakeReachable.pos_le {r : Nat} (hr : 0 < r) (h8 : 8 ∣ r) {st : KeccakState}
    (h : ShakeReachable r st) : st.pos ≤ r := by
  induction h with
  | init => exact Nat.zero_le r
  | absorbOnce h =>
    rw [shakeAbsorbOnce_eq hr h8] at h
    cases h
    exact le_refl r
  | step _ hstep ih =>
    obtain ⟨st'', h', hle⟩ := shakeStep_pos_le hr h8 _ _ ih
    rw [hstep] at h'
    cases h'
    exact hle

/-! ## §3. What the invariant gives. -/

/-- From a cursor below the rate, `keccak_finalize` changes only lanes of the rate window. -/
theorem keccakFinalize_capacity {r pos : Nat} (hpos : pos < r) (h8 : 8 ∣ r) (s : KeccakLanes) (p : Byte)
    (j : Fin 25) (hj : r / 8 ≤ j.val) : keccakFinalize s pos r p j = s j := by
  obtain ⟨q, rfl⟩ := h8
  simp [keccakFinalize, xorLane, xorByte, show j.val ≠ q - 1 by omega, show j.val ≠ pos / 8 by omega]

/-- Every state reached by SHAKE128 or SHAKE256 calls has its cursor in `[0, r]`; right after `init`
    or `absorb` the cursor is below the rate, so `finalize` XORs into the rate window and leaves the
    capacity lanes alone; the lane indices `pos/8`, `r/8-1` and `i/8` for `i < r` are below 25; and
    the loops of `keccak_absorb` and `keccak_squeeze` return for every length. -/
theorem shake_state_invariants (r : Nat) (hr : r = shake128Rate ∨ r = shake256Rate) (st : KeccakState)
    (h : ShakeReachable r st) :
    st.pos ≤ r ∧
    (∀ (inp : List Byte) (st' : KeccakState),
      (shakeStep r .init st = some st' ∨ shakeStep r (.absorb inp) st = some st') →
        st'.pos < r ∧ st'.pos / 8 < r / 8 ∧
        ∀ j : Fin 25, r / 8 ≤ j.val → (shakeFinalize r st').s j = st'.s j) ∧
    (st.pos / 8 < 25 ∧ r / 8 - 1 < 25 ∧ ∀ i < r, i / 8 < 25) ∧
    (∀ inp : List Byte, ∃ s' pos', keccakAbsorb st.s st.pos r inp = some (s', pos')) ∧
    (∀ outlen : Nat, ∃ out s' pos', keccakSqueeze outlen st.s st.pos r = some (out, s', pos')) := by
  have hr0 : 0 < r := by rcases hr with rfl | rfl <;> decide
  have h8 : 8 ∣ r := by rcases hr with rfl | rfl <;> decide
  have hr168 : r ≤ 168 := by rcases hr with rfl | rfl <;> decide
  have hpos := h.pos_le hr0 h8
  refine ⟨hpos, ?_, ⟨by omega, by omega, fun i hi => by omega⟩,
    fun inp => (keccakAbsorb_terminates hr0 st.s st.pos inp).imp fun _ h => h.imp fun _ h => h.1,
    fun outlen => keccakSqueeze_terminates hr0 outlen st hpos⟩
  rintro inp st' hst
  -- after `init` the cursor is 0, after `absorb` it is what `keccak_absorb` returns
  have hlt : st'.pos < r := by
    rcases hst with hinit | habsorb
    · cases hinit; exact hr0
    · obtain ⟨s', pos', h', hlt⟩ := keccakAbsorb_terminates hr0 st.s st.pos inp
      simp [shakeStep, shakeAbsorb, h'] at habsorb
      exact habsorb ▸ hlt
  exact ⟨hlt, by omega, keccakFinalize_capacity hlt h8 _ _⟩

/-- The invariants at the state `shake128_init` leaves, and at the state `shake128_finalize` then
    leaves, whose cursor is at the rate. -/
theorem shake_state_invariants_init_finalized :
    (shake128Rate = shake128Rate ∨ shake128Rate = shake256Rate) ∧ ShakeReachable shake128Rate shakeInit ∧
    (shakeInit.pos ≤ shake128Rate ∧
    (∀ (inp : List Byte) (st' : KeccakState),
      (shakeStep shake128Rate .init shakeInit = some st' ∨ shakeStep shake128Rate (.absorb inp) shakeInit = some st') →
        st'.pos < shake128Rate ∧ st'.pos / 8 < shake128Rate / 8 ∧
        ∀ j : Fin 25, shake128Rate / 8 ≤ j.val → (shakeFinalize shake128Rate st').s j = st'.s j) ∧
    (shakeInit.pos / 8 < 25 ∧ shake128Rate / 8 - 1 < 25 ∧ ∀ i < shake128Rate, i / 8 < 25) ∧
    (∀ inp : List Byte, ∃ s' pos', keccakAbsorb shakeInit.s shakeInit.pos shake128Rate inp = some (s', pos')) ∧
    (∀ outlen : Nat, ∃ out s' pos',
      keccakSqueeze outlen shakeInit.s shakeInit.pos shake128Rate = some (out, s', pos'))) ∧
    (shakeFinalize shake128Rate shakeInit).pos = shake128Rate ∧
    ShakeReachable shake128Rate (shakeFinalize shake128Rate shakeInit) ∧
    ((shakeFinalize shake128Rate shakeInit).pos ≤ shake128Rate ∧
    (∀ (inp : List Byte) (st' : KeccakState),
      (shakeStep shake128Rate .init (shakeFinalize shake128Rate shakeInit) = some st' ∨
          shakeStep shake128Rate (.absorb inp) (shakeFinalize shake128Rate shakeInit) = some st') →
        st'.pos < shake128Rate ∧ st'.pos / 8 < shake128Rate / 8 ∧
        ∀ j : Fin 25, shake128Rate / 8 ≤ j.val → (shakeFinalize shake128Rate st').s j = st'.s j) ∧
    ((shakeFinalize shake128Rate shakeInit).pos / 8 < 25 ∧ shake128Rate / 8 - 1 < 25 ∧
      ∀ i < shake128Rate, i / 8 < 25) ∧
    (∀ inp : List Byte, ∃ s' pos', keccakAbsorb (shakeFinalize shake128Rate shakeInit).s
      (shakeFinalize shake128Rate shakeInit).pos shake128Rate inp = some (s', pos')) ∧
    (∀ outlen : Nat, ∃ out s' pos', keccakSqueeze outlen (shakeFinalize shake128Rate shakeInit).s
      (shakeFinalize shake128Rate shakeInit).pos shake128Rate = some (out, s', pos'))) :=
  ⟨Or.inl rfl, .init, shake_state_invariants shake128Rate (Or.inl rfl) shakeInit .init, rfl,
    ShakeReachable.init.finalize, shake_state_invariants shake128Rate (Or.inl rfl) _ ShakeReachable.init.finalize⟩

end Dilithium.Fips202
