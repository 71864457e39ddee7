import Sphinx.Primitives.Serialize

/-!
# Network addresses

`CNetAddr` and `CService` of `netbase.h`, as far as other code compares and hashes them.
-/

namespace Sphinx

/-- The 16 bytes of `CNetAddr::ip`, in network byte order. -/
abbrev CNetAddr := List UInt8

structure CService where
  ip : List UInt8
  port : Nat
deriving DecidableEq, Repr

def CService.getKey (addr : CService) : List UInt8 :=
  addr.ip ++ [UInt8.ofNat (addr.port / 0x100), UInt8.ofNat addr.port]

end Sphinx
