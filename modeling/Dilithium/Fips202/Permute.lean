/-
  Dilithium.Fips202.Permute — `KeccakF1600_StatePermute` as `fips202.c` writes it: the state
  copied into the 25 locals `Aba … Asu`, a loop of `NROUNDS / 2` iterations that each run two
  rounds (the first from the `A` locals into the `E` locals, the second back), and the locals
  copied out again.

  Each half of the loop body is one `keccakRound`: θ's column parities `BCa … BCu` and `Da … Du`,
  the 25 updates `Aba ^= Da …` in the code's order, then, row by row, the `ROL`s that fuse ρ and
  π into the operand choice, χ, and ι on `Eba`.  The second half of the C body is the first with
  the `A` and `E` names exchanged and `round + 1` for `round`, so both halves are this one
  definition.  `Dilithium.Fips202.KeccakP` proves it equal to FIPS 202's `Rnd`.
-/
import Dilithium.Fips202.Lane

namespace Dilithium.Fips202

/-! ## §1. `NROUNDS` and `KeccakF_RoundConstants`. -/

/-- `#define NROUNDS 24`. -/
def NROUNDS : Nat := 24

/-- `KeccakF_RoundConstants[NROUNDS]`, the table ι reads. -/
def keccakFRoundConstants : List Lane :=
  [0x0000000000000001#64, 0x0000000000008082#64, 0x800000000000808a#64, 0x8000000080008000#64,
   0x000000000000808b#64, 0x0000000080000001#64, 0x8000000080008081#64, 0x8000000000008009#64,
   0x000000000000008a#64, 0x0000000000000088#64, 0x0000000080008009#64, 0x000000008000000a#64,
   0x000000008000808b#64, 0x800000000000008b#64, 0x8000000000008089#64, 0x8000000000008003#64,
   0x8000000000008002#64, 0x8000000000000080#64, 0x000000000000800a#64, 0x800000008000000a#64,
   0x8000000080008081#64, 0x8000000000008080#64, 0x0000000080000001#64, 0x8000000080008008#64]

/-! ## §2. One round of the unrolled loop body. -/

/-- The 25 locals `Xba … Xsu` of one variable set (`A` or `E`): row `b g k m s` (`y = 0 … 4`),
    column `a e i o u` (`x = 0 … 4`). -/
structure LaneVars where
  ba : Lane
  be : Lane
  bi : Lane
  bo : Lane
  bu : Lane
  ga : Lane
  ge : Lane
  gi : Lane
  go : Lane
  gu : Lane
  ka : Lane
  ke : Lane
  ki : Lane
  ko : Lane
  ku : Lane
  ma : Lane
  me : Lane
  mi : Lane
  mo : Lane
  mu : Lane
  sa : Lane
  se : Lane
  si : Lane
  so : Lane
  su : Lane

/-- One half of the loop body: θ, then ρ and π as operand choice, χ, and ι with round constant `rc`,
    reading the locals `A` and returning the locals it writes. -/
def keccakRound (A : LaneVars) (rc : Lane) : LaneVars :=
  let BCa := A.ba ^^^ A.ga ^^^ A.ka ^^^ A.ma ^^^ A.sa
  let BCe := A.be ^^^ A.ge ^^^ A.ke ^^^ A.me ^^^ A.se
  let BCi := A.bi ^^^ A.gi ^^^ A.ki ^^^ A.mi ^^^ A.si
  let BCo := A.bo ^^^ A.go ^^^ A.ko ^^^ A.mo ^^^ A.so
  let BCu := A.bu ^^^ A.gu ^^^ A.ku ^^^ A.mu ^^^ A.su
  let Da := BCu ^^^ rol BCe 1
  let De := BCa ^^^ rol BCi 1
  let Di := BCe ^^^ rol BCo 1
  let Do := BCi ^^^ rol BCu 1
  let Du := BCo ^^^ rol BCa 1
  let Aba := A.ba ^^^ Da
  let Age := A.ge ^^^ De
  let Aki := A.ki ^^^ Di
  let Amo := A.mo ^^^ Do
  let Asu := A.su ^^^ Du
  let Abo := A.bo ^^^ Do
  let Agu := A.gu ^^^ Du
  let Aka := A.ka ^^^ Da
  let Ame := A.me ^^^ De
  let Asi := A.si ^^^ Di
  let Abe := A.be ^^^ De
  let Agi := A.gi ^^^ Di
  let Ako := A.ko ^^^ Do
  let Amu := A.mu ^^^ Du
  let Asa := A.sa ^^^ Da
  let Abu := A.bu ^^^ Du
  let Aga := A.ga ^^^ Da
  let Ake := A.ke ^^^ De
  let Ami := A.mi ^^^ Di
  let Aso := A.so ^^^ Do
  let Abi := A.bi ^^^ Di
  let Ago := A.go ^^^ Do
  let Aku := A.ku ^^^ Du
  let Ama := A.ma ^^^ Da
  let Ase := A.se ^^^ De
  let BCa := Aba
  let BCe := rol Age 44
  let BCi := rol Aki 43
  let BCo := rol Amo 21
  let BCu := rol Asu 14
  let Eba := BCa ^^^ (~~~BCe &&& BCi) ^^^ rc
  let Ebe := BCe ^^^ (~~~BCi &&& BCo)
  let Ebi := BCi ^^^ (~~~BCo &&& BCu)
  let Ebo := BCo ^^^ (~~~BCu &&& BCa)
  let Ebu := BCu ^^^ (~~~BCa &&& BCe)
  let BCa := rol Abo 28
  let BCe := rol Agu 20
  let BCi := rol Aka 3
  let BCo := rol Ame 45
  let BCu := rol Asi 61
  let Ega := BCa ^^^ (~~~BCe &&& BCi)
  let Ege := BCe ^^^ (~~~BCi &&& BCo)
  let Egi := BCi ^^^ (~~~BCo &&& BCu)
  let Ego := BCo ^^^ (~~~BCu &&& BCa)
  let Egu := BCu ^^^ (~~~BCa &&& BCe)
  let BCa := rol Abe 1
  let BCe := rol Agi 6
  let BCi := rol Ako 25
  let BCo := rol Amu 8
  let BCu := rol Asa 18
  let Eka := BCa ^^^ (~~~BCe &&& BCi)
  let Eke := BCe ^^^ (~~~BCi &&& BCo)
  let Eki := BCi ^^^ (~~~BCo &&& BCu)
  let Eko := BCo ^^^ (~~~BCu &&& BCa)
  let Eku := BCu ^^^ (~~~BCa &&& BCe)
  let BCa := rol Abu 27
  let BCe := rol Aga 36
  let BCi := rol Ake 10
  let BCo := rol Ami 15
  let BCu := rol Aso 56
  let Ema := BCa ^^^ (~~~BCe &&& BCi)
  let Eme := BCe ^^^ (~~~BCi &&& BCo)
  let Emi := BCi ^^^ (~~~BCo &&& BCu)
  let Emo := BCo ^^^ (~~~BCu &&& BCa)
  let Emu := BCu ^^^ (~~~BCa &&& BCe)
  let BCa := rol Abi 62
  let BCe := rol Ago 55
  let BCi := rol Aku 39
  let BCo := rol Ama 41
  let BCu := rol Ase 2
  let Esa := BCa ^^^ (~~~BCe &&& BCi)
  let Ese := BCe ^^^ (~~~BCi &&& BCo)
  let Esi := BCi ^^^ (~~~BCo &&& BCu)
  let Eso := BCo ^^^ (~~~BCu &&& BCa)
  let Esu := BCu ^^^ (~~~BCa &&& BCe)
  { ba := Eba, be := Ebe, bi := Ebi, bo := Ebo, bu := Ebu,
    ga := Ega, ge := Ege, gi := Egi, go := Ego, gu := Egu,
    ka := Eka, ke := Eke, ki := Eki, ko := Eko, ku := Eku,
    ma := Ema, me := Eme, mi := Emi, mo := Emo, mu := Emu,
    sa := Esa, se := Ese, si := Esi, so := Eso, su := Esu }

/-! ## §3. The permutation. -/

/-- One iteration of `for(round = 0; round < NROUNDS; round += 2)`: rounds `round` and `round + 1`. -/
def keccakRoundPair (A : LaneVars) (round : Nat) : LaneVars :=
  let E := keccakRound A (keccakFRoundConstants.getD round 0)
  keccakRound E (keccakFRoundConstants.getD (round + 1) 0)

/-- `KeccakF1600_StatePermute(state)`. -/
def keccakF1600StatePermute (state : KeccakLanes) : KeccakLanes :=
  let A : LaneVars :=
    { ba := state 0, be := state 1, bi := state 2, bo := state 3, bu := state 4,
      ga := state 5, ge := state 6, gi := state 7, go := state 8, gu := state 9,
      ka := state 10, ke := state 11, ki := state 12, ko := state 13, ku := state 14,
      ma := state 15, me := state 16, mi := state 17, mo := state 18, mu := state 19,
      sa := state 20, se := state 21, si := state 22, so := state 23, su := state 24 }
  let A := (List.range' 0 (NROUNDS / 2) 2).foldl keccakRoundPair A
  ![A.ba, A.be, A.bi, A.bo, A.bu, A.ga, A.ge, A.gi, A.go, A.gu, A.ka, A.ke, A.ki, A.ko, A.ku,
    A.ma, A.me, A.mi, A.mo, A.mu, A.sa, A.se, A.si, A.so, A.su]

end Dilithium.Fips202
