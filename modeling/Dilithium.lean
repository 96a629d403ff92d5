import Dilithium.Fips202.Lane
import Dilithium.Fips202.Permute
import Dilithium.Fips202.KeccakP
import Dilithium.Fips202.Sponge
import Dilithium.Fips202.Shake
import Dilithium.Fips202.ByteSponge
import Dilithium.Fips202.Invariants
import Dilithium.Fips202.Incremental
import Dilithium.Fips202.SpongeSpec
import Dilithium.Fips202.Correctness
import Dilithium.Fips202.Bijection
import Dilithium.Fips202.Api
