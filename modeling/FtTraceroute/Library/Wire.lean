import Mathlib

namespace FtTraceroute.Library.Wire

def be16 (p : List UInt8) (k : Nat) : Nat := 256 * (p.getD k 0).toNat + (p.getD (k + 1) 0).toNat

@[simp] theorem be16_zero (a b : UInt8) (p : List UInt8) :
    be16 (a :: b :: p) 0 = 256 * a.toNat + b.toNat := rfl

@[simp] theorem be16_succ (a : UInt8) (p : List UInt8) (k : Nat) :
    be16 (a :: p) (k + 1) = be16 p k := rfl

structure Ip4 where
  version : Nat
  ihl : Nat
  ttl : Nat
  protocol : Nat
  source : List UInt8
  destination : List UInt8
deriving DecidableEq

/-- An IPv4 header, options included, and the bytes behind it. -/
def Ip4.decode (p : List UInt8) : Option (Ip4 × List UInt8) :=
  let ihl := (p.getD 0 0).toNat % 16
  if ihl < 5 ∨ p.length < 4 * ihl then none
  else some (⟨(p.getD 0 0).toNat / 16, ihl, (p.getD 8 0).toNat, (p.getD 9 0).toNat,
    (p.drop 12).take 4, (p.drop 16).take 4⟩, p.drop (4 * ihl))

structure Udp where
  source : Nat
  destination : Nat
  length : Nat
  checksum : Nat
deriving DecidableEq

def Udp.decode (p : List UInt8) : Option (Udp × List UInt8) :=
  if p.length < 8 then none else some (⟨be16 p 0, be16 p 2, be16 p 4, be16 p 6⟩, p.drop 8)

end FtTraceroute.Library.Wire
