import Mathlib.Data.List.TakeWhile
import NetGuard.Engine.Packet

/-! # Server name of a TLS ClientHello

`parse_sni` on the bytes behind `data`. `index` is a `uint8_t` and wraps, every
comparison is made in `int`. `eindex` never wraps: it stays at most `edatalen`.
-/
namespace NetGuard.Engine

def tlsHandshakeRecord : UInt8 := 22
def tlsMessageClientHello : UInt8 := 1
def tlsExtensionTypeServerName : Nat := 0
def tlsSniLength : Nat := 255

def tlsWord (data : Nat → UInt8) (i : Nat) : Nat := (data i).toNat * 256 + (data (i + 1)).toNat

def parseServerName (edata : Nat → UInt8) (edatalen eindex : Nat) : Option (List UInt8) := do
  guard (eindex + 1 < edatalen)
  let sniLen := tlsWord edata eindex
  let eindex := eindex + 2
  guard (eindex + sniLen < edatalen)
  guard (eindex < edatalen)
  guard (edata eindex = 0)
  let eindex := eindex + 1
  guard (eindex + 1 < edatalen)
  let nameLen := tlsWord edata eindex
  let eindex := eindex + 2
  guard (eindex + nameLen < edatalen)
  guard (nameLen < tlsSniLength)
  return (List.range nameLen).map fun k => edata (eindex + k)

def parseExtensions (edata : Nat → UInt8) (edatalen eindex : Nat) : Option (List UInt8) :=
  if eindex < edatalen then
    if eindex + 1 ≥ edatalen then none
    else if eindex + 3 ≥ edatalen then none
    else if eindex + 4 + tlsWord edata (eindex + 2) > edatalen then none
    else if tlsWord edata eindex = tlsExtensionTypeServerName then
      parseServerName edata edatalen (eindex + 4)
    else parseExtensions edata edatalen (eindex + 4 + tlsWord edata (eindex + 2))
  else none
termination_by edatalen - eindex

def parseSni (data : Nat → UInt8) (datalen : UInt16) : Option (List UInt8) := do
  let datalen := datalen.toNat
  guard (6 ≤ datalen)
  guard (data 0 = tlsHandshakeRecord ∧ 3 ≤ data 1 ∧ 5 + tlsWord data 3 = datalen ∧
    data 5 = tlsMessageClientHello)
  let index : UInt8 := 6 + 3 + 2 + 32
  guard (index.toNat < datalen)
  let sessionLen := data index.toNat
  let index := index + 1 + sessionLen
  guard (index.toNat + 1 < datalen)
  let suitesLen := tlsWord data index.toNat
  let index := index + 2 + UInt8.ofNat suitesLen
  guard (index.toNat < datalen)
  let compressionLen := data index.toNat
  let index := index + 1 + compressionLen
  guard (index.toNat + 1 < datalen)
  let edatalen := tlsWord data index.toNat
  let index := index + 2
  guard (edatalen ≠ 0 ∧ index.toNat + edatalen = datalen)
  parseExtensions (fun i => data (index.toNat + i)) edatalen 0

def cString (bytes : List UInt8) : List UInt8 := bytes.takeWhile (· ≠ 0)

theorem cString_eq_self_iff {bytes : List UInt8} : cString bytes = bytes ↔ 0 ∉ bytes := by
  rw [cString, List.takeWhile_eq_self_iff]
  simp only [decide_eq_true_eq]
  constructor
  · intro h hzero
    exact h 0 hzero rfl
  · rintro h b hb rfl
    exact h hb

theorem length_cString_le (bytes : List UInt8) : (cString bytes).length ≤ bytes.length :=
  (List.takeWhile_sublist _).length_le

/-- The string ends at its terminator. -/
theorem cString_append_zero (bytes rest : List UInt8) :
    cString (bytes ++ 0 :: rest) = cString bytes := by
  induction bytes with
  | nil => rfl
  | cons b bytes ih =>
    simp only [cString, List.cons_append, List.takeWhile_cons] at ih ⊢
    split
    · rw [ih]
    · rfl

end NetGuard.Engine
