import NetGuard.Dns.Names

/-! # The records of a response

`parse_dns_response` looks for a record behind the data of the one before. The bytes of an address
are as many as its type has, whatever the length of the data is.
-/
namespace NetGuard.Engine
open Wire

section Layout
variable (data : Nat → UInt8) (datalen : Nat)

def addressSize : IpVersion → Nat
  | .v4 => 4
  | .v6 => 16

/-- The address that a record of a type and a class is taken for. -/
def addressVersion (qtype qclass : Nat) : Option IpVersion :=
  if qclass = dnsQclassIn then
    if qtype = dnsQtypeA then some .v4
    else if qtype = dnsQtypeAaaa then some .v6
    else none
  else none

/-- The same for the record with the fixed header at a position. -/
def recordVersion (p : Nat) : Option IpVersion := addressVersion (word data p) (word data (p + 2))

/-- Where a record ends, by the length that it gives. -/
def recordEnd (p : Nat) : Nat := p + 10 + word data (p + 8)

/-- A name at an offset, and behind it room for a number of bytes. -/
def NameEnd (off count p : Nat) : Prop :=
  ∃ ls root c, QnameTaken data datalen (off % 65536) ls root c ∧
    (qnameEnd (UInt16.ofNat off) root c).toNat = p ∧ 0 < p ∧ p + count ≤ datalen

/-- The buffer after the name at an offset has been read. -/
def nameText (off : Nat) (name : Buffer) : Buffer :=
  (getQname data datalen (UInt16.ofNat off) name).2

/-- The message goes on to the end of the record, and of the address if it is taken for one. -/
structure RecordFits (p : Nat) : Prop where
  rdata : recordEnd data p ≤ datalen
  address : ∀ v, recordVersion data p = some v → p + 10 + addressSize v ≤ datalen

/-- The fixed header of the record with an index, counted from the one at an offset. -/
inductive RecordFrom : Nat → Nat → Nat → Prop
  | first {off p : Nat} (hname : NameEnd data datalen off 10 p) : RecordFrom off 0 p
  | next {off i p q : Nat} (hname : NameEnd data datalen off 10 p) (hfits : RecordFits data datalen p)
      (hrest : RecordFrom (recordEnd data p) i q) : RecordFrom off (i + 1) q

/-- The answers that are reported. -/
def resolvedAnswers (name : Buffer) : List DnsAnswer :=
  if isDnsAnswer data datalen then
    match dnsQuestion data datalen name with
    | some (_, off, name) => dnsAnswers data datalen (dnsHeader data).acount off name
    | none => []
  else []

def recordAnswer (p : Nat) (name : Buffer) (v : IpVersion) : DnsAnswer :=
  ⟨bufferString name, v, dnsLong data (p + 4), p + 10, word data (p + 8)⟩

/-- The call for an answer. -/
def resolvedCall (qname : List UInt8) (inetNtop : List UInt8 → List UInt8) (uid : Int)
    (a : DnsAnswer) : Resolved :=
  ⟨qname, a.name, inetNtop (a.address data), asInt a.ttl, uid⟩

/-- The calls are made for these answers. -/
theorem parseDnsResponse_eq (inetNtop : List UInt8 → List UInt8) (name : Buffer) (uid : Int) :
    parseDnsResponse data datalen inetNtop name uid =
      (dnsQuestion data datalen name).toList.flatMap fun question =>
        (resolvedAnswers data datalen name).map (resolvedCall data question.1 inetNtop uid) := by
  unfold parseDnsResponse resolvedAnswers
  split
  · cases dnsQuestion data datalen name with
    | none => rfl
    | some question =>
      rw [Option.toList_some, List.flatMap_singleton]
      rfl
  · cases dnsQuestion data datalen name <;> simp

end Layout

section Step
variable {data : Nat → UInt8} {datalen p off count acount : Nat} {qname name : Buffer}

theorem getQname_end_iff {off stop : UInt16} : (getQname data datalen off qname).1 = some stop ↔
    ∃ ls root c, QnameTaken data datalen off.toNat ls root c ∧ qnameEnd off root c = stop := by
  constructor
  · intro h
    obtain ⟨ls, root, c, htaken⟩ := taken_of_getQname h
    rw [(getQname_of_taken htaken qname).1, Option.some.injEq] at h
    exact ⟨ls, root, c, htaken, h⟩
  · rintro ⟨ls, root, c, htaken, rfl⟩
    exact (getQname_of_taken htaken qname).1

theorem nameEnd_iff (qname : Buffer) : NameEnd data datalen off count p ↔
    ∃ stop, (getQname data datalen (UInt16.ofNat off) qname).1 = some stop ∧ stop.toNat = p ∧
      0 < p ∧ p + count ≤ datalen := by
  simp only [getQname_end_iff, UInt16.toNat_ofNat']
  constructor
  · rintro ⟨ls, root, c, htaken, hend⟩
    exact ⟨_, ⟨ls, root, c, htaken, rfl⟩, hend⟩
  · rintro ⟨stop, ⟨ls, root, c, htaken, rfl⟩, hend⟩
    exact ⟨ls, root, c, htaken, hend⟩

/-- What `get_qname` returns for such a name, whatever is in the buffer. -/
theorem NameEnd.found (h : NameEnd data datalen off count p) (name : Buffer) :
    ∃ stop, getQname data datalen (UInt16.ofNat off) name =
        (some stop, nameText data datalen off name) ∧ stop.toNat = p ∧
      0 < stop.toNat ∧ stop.toNat + count ≤ datalen := by
  obtain ⟨stop, hstop, rfl, hend⟩ := (nameEnd_iff name).mp h
  exact ⟨stop, Prod.ext hstop rfl, rfl, hend⟩

theorem no_room_of_no_name {stop : UInt16} {text : Buffer}
    (hname : ∀ p, ¬ NameEnd data datalen off count p)
    (hfound : getQname data datalen (UInt16.ofNat off) name = (some stop, text)) :
    ¬ (0 < stop.toNat ∧ stop.toNat + count ≤ datalen) := by
  rintro ⟨hpos, hroom⟩
  exact hname stop.toNat ((nameEnd_iff name).mpr ⟨stop, by rw [hfound], rfl, hpos, hroom⟩)

theorem NameEnd.unique {q : Nat} (h : NameEnd data datalen off count p)
    (h' : NameEnd data datalen off count q) : p = q := by
  obtain ⟨stop, hstop, rfl, -⟩ := (nameEnd_iff fun _ => 0).mp h
  obtain ⟨stop', hstop', rfl, -⟩ := (nameEnd_iff fun _ => 0).mp h'
  rw [hstop, Option.some.injEq] at hstop'
  rw [hstop']

/-- What the loop does with a record, by the address that it is taken for. -/
theorem dnsRecord_eq (data : Nat → UInt8) (datalen p : Nat) (name : Buffer) :
    dnsRecord data datalen p name =
      if recordEnd data p ≤ datalen then
        match recordVersion data p with
        | some v =>
          if p + 10 + addressSize v ≤ datalen then
            .answer (recordAnswer data p name v) (recordEnd data p)
          else .invalid
        | none => .skipped (recordEnd data p)
      else .invalid := by
  have htypes : ¬ dnsQtypeAaaa = dnsQtypeA := by decide
  simp only [dnsRecord, recordVersion, addressVersion, recordEnd]
  by_cases hclass : word data (p + 2) = dnsQclassIn
  · by_cases ha : word data p = dnsQtypeA
    · simp only [hclass, ha, true_and, if_true]
      rfl
    · by_cases haaaa : word data p = dnsQtypeAaaa
      · simp only [hclass, haaaa, htypes, true_and, if_true, if_false]
        rfl
      · simp only [hclass, ha, haaaa, and_false, if_true, if_false]
  · simp only [hclass, false_and, if_false]

/-- One turn of the loop over the answers. -/
theorem dnsAnswers_step (hname : NameEnd data datalen off 10 p) (name : Buffer) :
    dnsAnswers data datalen (acount + 1) off name =
      match dnsRecord data datalen p (nameText data datalen off name) with
      | .skipped next => dnsAnswers data datalen acount next (nameText data datalen off name)
      | .answer a next =>
        a :: dnsAnswers data datalen acount next (nameText data datalen off name)
      | .invalid => [] := by
  obtain ⟨stop, hfound, rfl, hroom⟩ := hname.found name
  rw [dnsAnswers, hfound]
  exact if_pos hroom

/-- A record that fits is reported if it has an address, and the loop goes on behind it. -/
theorem dnsAnswers_of_fits (hname : NameEnd data datalen off 10 p)
    (hfits : RecordFits data datalen p) (name : Buffer) :
    dnsAnswers data datalen (acount + 1) off name =
      (recordVersion data p).toList.map (recordAnswer data p (nameText data datalen off name)) ++
        dnsAnswers data datalen acount (recordEnd data p) (nameText data datalen off name) := by
  rw [dnsAnswers_step hname, dnsRecord_eq, if_pos hfits.rdata]
  cases hversion : recordVersion data p with
  | none => rfl
  | some v =>
    have hroom := hfits.address v hversion
    simp only [if_pos hroom, Option.toList_some, List.map_singleton, List.singleton_append]

theorem dnsAnswers_of_not_fits (hname : NameEnd data datalen off 10 p)
    (hfits : ¬ RecordFits data datalen p) (name : Buffer) :
    dnsAnswers data datalen (acount + 1) off name = [] := by
  rw [dnsAnswers_step hname, dnsRecord_eq]
  by_cases hrdata : recordEnd data p ≤ datalen
  · cases hversion : recordVersion data p with
    | none => exact absurd ⟨hrdata, by simp [hversion]⟩ hfits
    | some v =>
      have hshort : ¬ p + 10 + addressSize v ≤ datalen := by
        intro hroom
        exact hfits ⟨hrdata, by simp [hversion, hroom]⟩
      simp only [if_pos hrdata, if_neg hshort]
  · rw [if_neg hrdata]

theorem dnsAnswers_of_no_name (hname : ∀ p, ¬ NameEnd data datalen off 10 p) (name : Buffer) :
    dnsAnswers data datalen (acount + 1) off name = [] := by
  rw [dnsAnswers]
  cases hfound : getQname data datalen (UInt16.ofNat off) name with
  | mk found text =>
    cases found with
    | none => rfl
    | some stop => exact if_neg (no_room_of_no_name hname hfound)

/-- The question is taken where its name ends with room for the type and the class. -/
theorem dnsQuestion_of_name (hname : NameEnd data datalen dnsHeaderSize 4 p) (name : Buffer) :
    dnsQuestion data datalen name =
      some (bufferString (nameText data datalen dnsHeaderSize name), p + 4,
        nameText data datalen dnsHeaderSize name) := by
  obtain ⟨stop, hfound, rfl, hroom⟩ := hname.found name
  rw [dnsQuestion, hfound]
  exact if_pos hroom

theorem dnsQuestion_of_no_name (hname : ∀ p, ¬ NameEnd data datalen dnsHeaderSize 4 p)
    (name : Buffer) : dnsQuestion data datalen name = none := by
  rw [dnsQuestion]
  cases hfound : getQname data datalen (UInt16.ofNat dnsHeaderSize) name with
  | mk found text =>
    cases found with
    | none => rfl
    | some stop => exact if_neg (no_room_of_no_name hname hfound)

end Step

section Rdata
variable {data : Nat → UInt8} {datalen off acount : Nat} {name : Buffer}

/-- The data of an address record has room for the address, if the message has. -/
def AddressInRdata (data : Nat → UInt8) (datalen p : Nat) : Prop :=
  RecordFits data datalen p → ∀ v, recordVersion data p = some v →
    addressSize v ≤ word data (p + 8)

theorem DnsAnswer.size_recordAnswer (data : Nat → UInt8) (p : Nat) (name : Buffer) (v : IpVersion) :
    (recordAnswer data p name v).size = addressSize v := by
  cases v <;> rfl

theorem forall_dnsAnswers_iff : (∀ a ∈ dnsAnswers data datalen acount off name, a.size ≤ a.rdlength) ↔
    ∀ i < acount, ∀ p, RecordFrom data datalen off i p → AddressInRdata data datalen p := by
  induction acount generalizing off name with
  | zero => simp [dnsAnswers]
  | succ acount ih =>
    by_cases hname : ∃ p, NameEnd data datalen off 10 p
    · obtain ⟨p, hname⟩ := hname
      by_cases hfits : RecordFits data datalen p
      · have hhere (text : Buffer) :
            (∀ a ∈ (recordVersion data p).toList.map (recordAnswer data p text),
              a.size ≤ a.rdlength) ↔ AddressInRdata data datalen p := by
          simp only [List.forall_mem_map, Option.mem_toList, DnsAnswer.size_recordAnswer]
          exact ⟨fun h _ => h, fun h => h hfits⟩
        rw [dnsAnswers_of_fits hname hfits, List.forall_mem_append, hhere, ih]
        constructor
        · rintro ⟨hfirst, hrest⟩ i hi q hq
          cases hq with
          | first hname' => exact hname.unique hname' ▸ hfirst
          | next hname' _ hq =>
            rw [← hname.unique hname'] at hq
            exact hrest _ (Nat.lt_of_succ_lt_succ hi) q hq
        · intro h
          exact ⟨h 0 (Nat.succ_pos _) p (.first hname),
            fun i hi q hq => h (i + 1) (Nat.succ_lt_succ hi) q (.next hname hfits hq)⟩
      · rw [dnsAnswers_of_not_fits hname hfits]
        apply iff_of_true nofun
        intro i _ q hq hfits'
        cases hq with
        | first hname' => exact absurd (hname.unique hname' ▸ hfits') hfits
        | next hname' hfits' => exact absurd (hname.unique hname' ▸ hfits') hfits
    · rw [not_exists] at hname
      rw [dnsAnswers_of_no_name hname]
      apply iff_of_true nofun
      intro i _ q hq
      cases hq with
      | first hname' => exact absurd hname' (hname _)
      | next hname' => exact absurd hname' (hname _)

/-- The fixed header of the record with an index in the answer section. -/
def RecordAt (data : Nat → UInt8) (datalen i p : Nat) : Prop :=
  ∃ stop, NameEnd data datalen dnsHeaderSize 4 stop ∧ RecordFrom data datalen (stop + 4) i p

/-- The addresses are in the data of their records exactly when each address record gives its
data that length, or the message ends before. -/
theorem resolvedAnswers_in_rdata_iff (data : Nat → UInt8) (datalen : Nat) (name : Buffer) :
    (∀ a ∈ resolvedAnswers data datalen name, a.size ≤ a.rdlength) ↔
      (isDnsAnswer data datalen → ∀ i < (dnsHeader data).acount, ∀ p, RecordAt data datalen i p →
        AddressInRdata data datalen p) := by
  unfold resolvedAnswers
  by_cases hanswer : isDnsAnswer data datalen = true
  · simp only [hanswer, if_true, forall_const]
    by_cases hname : ∃ p, NameEnd data datalen dnsHeaderSize 4 p
    · obtain ⟨stop, hname⟩ := hname
      simp only [dnsQuestion_of_name hname, forall_dnsAnswers_iff]
      constructor
      · rintro h i hi p ⟨stop', hname', hp⟩
        exact h i hi p (hname.unique hname' ▸ hp)
      · exact fun h i hi p hp => h i hi p ⟨stop, hname, hp⟩
    · rw [not_exists] at hname
      simp only [dnsQuestion_of_no_name hname]
      apply iff_of_true nofun
      rintro i - p ⟨stop, hname', -⟩
      exact absurd hname' (hname _)
  · simp [hanswer]

/-- A response with an A record that has no data, and a TXT record behind it. -/
def emptyAddress : Nat → UInt8 :=
  fun i => ([0, 0, 0x80, 0, 0, 1, 0, 2, 0, 0, 0, 0] ++ [1, 97, 0, 0, 1, 0, 1] ++
    [0xC0, 12, 0, 1, 0, 1, 0, 0, 0, 60, 0, 0] ++
    [0xC0, 12, 0, 16, 0, 1, 0, 0, 0, 60, 0, 0] : List UInt8).getD i 0

theorem not_resolvedAnswers_in_rdata :
    ¬ ∀ a ∈ resolvedAnswers emptyAddress 43 fun _ => 0, a.size ≤ a.rdlength := by
  decide

end Rdata

end NetGuard.Engine
