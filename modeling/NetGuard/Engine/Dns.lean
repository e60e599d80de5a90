import NetGuard.Engine.Tls
import NetGuard.Library.Wire
import Mathlib.Algebra.Group.Int.Defs

/-! # DNS responses

`get_qname` and `parse_dns_response` of `dns.c`. A result of -1 is `none`, and the buffers of the
names are memories from their first byte on. The text of an address, which `inet_ntop` makes, is
a parameter.
-/
namespace NetGuard.Engine
open Wire

def dnsQclassIn : Nat := 1
def dnsQtypeA : Nat := 1
def dnsQtypeAaaa : Nat := 28

def dnsQnameMax : Nat := 255

abbrev Buffer := Nat → UInt8

section Name
variable (data : Nat → UInt8) (datalen : Nat)

/-- The variables of the loop of `get_qname`. -/
structure QName where
  c : Bool
  noff : UInt8
  ptr : UInt16
  len : UInt8
  off : UInt16
  qname : Buffer

/-- One turn of the loop behind the test of `count`, and whether the loop goes on. -/
def qnameTurn (s : QName) : QName × Bool :=
  if s.ptr.toNat + 1 < datalen ∧ s.len &&& 0xC0 ≠ 0 then
    let jump := (s.len &&& 0x3F).toNat * 256 + (data (s.ptr.toNat + 1)).toNat
    if jump ≥ datalen then (s, false)
    else
      let s := { s with ptr := UInt16.ofNat jump, len := data jump }
      (if s.c then s else { s with c := true, off := s.off + 2 }, true)
  else if s.ptr.toNat + 1 + s.len.toNat < datalen ∧ s.noff.toNat + s.len.toNat ≤ dnsQnameMax then
    let label := (List.range s.len.toNat).map fun k => data (s.ptr.toNat + 1 + k)
    let qname := store (store s.qname s.noff.toNat label) (s.noff.toNat + s.len.toNat) [46]
    let s := { s with qname := qname, noff := s.noff + (s.len + 1) }
    let jump := UInt16.ofNat (s.ptr.toNat + 1 + s.len.toNat)
    if jump.toNat ≥ datalen then (s, false)
    else ({ s with ptr := jump, len := data jump.toNat }, true)
  else (s, false)

/-- The loop with the turns that `count` leaves it: with none it is left at its first test. -/
def qnameLoop : Nat → QName → QName
  | 0, s => s
  | turns + 1, s =>
    if s.len = 0 then s
    else
      match qnameTurn data datalen s with
      | (s, true) => qnameLoop turns s
      | (s, false) => s

def qnameTurns : Nat := 26

/-- The offset behind the name at `off`, and the buffer afterwards. -/
def getQname (off : UInt16) (qname : Buffer) : Option UInt16 × Buffer :=
  let qname := store qname 0 [0]
  if off.toNat ≥ datalen then (none, qname)
  else
    let s := qnameLoop data datalen qnameTurns
      { c := false, noff := 0, ptr := off, len := data off.toNat, off := off, qname := qname }
    if s.len > 0 ∨ s.noff = 0 then (none, s.qname)
    else (some (if s.c then s.off else s.ptr + 1), store s.qname (s.noff.toNat - 1) [0])

/-- The string in a buffer of `DNS_QNAME_MAX + 1` bytes. -/
def bufferString (qname : Buffer) : List UInt8 :=
  cString ((List.range (dnsQnameMax + 1)).map qname)

end Name

section Response
variable (data : Nat → UInt8) (datalen : Nat)

/-- `struct dns_header`, the fields that are looked at. -/
structure DnsHeader where
  qr : UInt8
  opcode : UInt8
  qcount : Nat
  acount : Nat

def dnsHeaderSize : Nat := 12

def dnsHeader : DnsHeader where
  qr := data 2 >>> 7
  opcode := (data 2 >>> 3) &&& 0x0F
  qcount := word data 4
  acount := word data 6

/-- `ntohl` of the four bytes at a position. -/
def dnsLong (i : Nat) : UInt32 := UInt32.ofNat (word data i * 65536 + word data (i + 2))

/-- A record whose address is reported, and where its data lies. -/
structure DnsAnswer where
  name : List UInt8
  version : IpVersion
  ttl : UInt32
  rdata : Nat
  rdlength : Nat

def DnsAnswer.size (a : DnsAnswer) : Nat :=
  match a.version with
  | .v4 => 4
  | .v6 => 16

/-- What one record makes the loop do: go on at an offset, with a call or without, or return. -/
inductive DnsRecord
  | skipped (off : Nat)
  | answer (a : DnsAnswer) (off : Nat)
  | invalid

/-- A record whose name ends at `off`. -/
def dnsRecord (off : Nat) (name : Buffer) : DnsRecord :=
  let qtype := word data off
  let qclass := word data (off + 2)
  let ttl := dnsLong data (off + 4)
  let rdlength := word data (off + 8)
  let off := off + 10
  if off + rdlength ≤ datalen then
    if qclass = dnsQclassIn ∧ qtype = dnsQtypeA then
      if off + 4 ≤ datalen then .answer ⟨bufferString name, .v4, ttl, off, rdlength⟩ (off + rdlength)
      else .invalid
    else if qclass = dnsQclassIn ∧ qtype = dnsQtypeAaaa then
      if off + 16 ≤ datalen then .answer ⟨bufferString name, .v6, ttl, off, rdlength⟩ (off + rdlength)
      else .invalid
    else .skipped (off + rdlength)
  else .invalid

/-- The loop over the answers, from an offset that is taken as a `uint16_t`. -/
def dnsAnswers : Nat → Nat → Buffer → List DnsAnswer
  | 0, _, _ => []
  | acount + 1, off, name =>
    match getQname data datalen (UInt16.ofNat off) name with
    | (some off, name) =>
      if 0 < off.toNat ∧ off.toNat + 10 ≤ datalen then
        match dnsRecord data datalen off.toNat name with
        | .skipped off => dnsAnswers acount off name
        | .answer a off => a :: dnsAnswers acount off name
        | .invalid => []
      else []
    | (none, _) => []

/-- A call of `dns_resolved`. -/
structure Resolved where
  qname : List UInt8
  aname : List UInt8
  resource : List UInt8
  ttl : Int
  uid : Int
  deriving DecidableEq, Repr

/-- A `uint32_t` that is passed as an `int`. -/
def asInt (n : UInt32) : Int := if n.toNat < 2 ^ 31 then n.toNat else n.toNat - 2 ^ 32

def DnsAnswer.address (a : DnsAnswer) : List UInt8 := (List.range a.size).map fun k => data (a.rdata + k)

/-- The question: its name, and where the answers begin. -/
def dnsQuestion (name : Buffer) : Option (List UInt8 × Nat × Buffer) :=
  match getQname data datalen (UInt16.ofNat dnsHeaderSize) name with
  | (some off, name) =>
    if 0 < off.toNat ∧ off.toNat + 4 ≤ datalen then some (bufferString name, off.toNat + 4, name)
    else none
  | (none, _) => none

/-- A standard response with a question and answers. -/
def isDnsAnswer : Bool :=
  13 ≤ datalen && (dnsHeader data).qr == 1 && (dnsHeader data).opcode == 0 &&
    0 < (dnsHeader data).qcount && 0 < (dnsHeader data).acount

/-- The calls of `dns_resolved`, with what the stack holds where `name` is put. -/
def parseDnsResponse (inetNtop : List UInt8 → List UInt8) (name : Buffer) (uid : Int) :
    List Resolved :=
  if isDnsAnswer data datalen then
    match dnsQuestion data datalen name with
    | some (qname, off, name) =>
      (dnsAnswers data datalen (dnsHeader data).acount off name).map fun a =>
        ⟨qname, a.name, inetNtop (a.address data), asInt a.ttl, uid⟩
    | none => []
  else []

end Response

end NetGuard.Engine
