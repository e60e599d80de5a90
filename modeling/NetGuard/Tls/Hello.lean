import NetGuard.Tls.Reading

/-! # Server names of well-formed ClientHellos

A ClientHello as a sender lays it out, in a record of its own. Its server name is found when the
extensions begin at an offset of 8 bits and go on behind the server_name extension.
-/
namespace NetGuard.Engine
open Wire

section Layout

structure TlsExtension where
  type : Nat
  data : List UInt8
  type_lt : type < 65536
  data_lt : data.length < 65536

def TlsExtension.encode (x : TlsExtension) : List UInt8 :=
  be16 x.type ++ be16 x.data.length ++ x.data

/-- A host name that a client may ask for: not empty, short enough for the buffer of
the parser, and without the end of a C string. -/
structure IsHostName (name : List UInt8) : Prop where
  some : 1 ≤ name.length
  short : name.length ≤ 254
  text : 0 ∉ name

def serverNameList (name : List UInt8) : List UInt8 :=
  be16 (3 + name.length) ++ (0 :: be16 name.length ++ name)

theorem length_serverNameList (name : List UInt8) :
    (serverNameList name).length = 5 + name.length := by
  simp only [serverNameList, List.length_append, List.length_cons, length_be16]
  omega

def serverNameExtension {name : List UInt8} (hname : IsHostName name) : TlsExtension where
  type := tlsExtensionTypeServerName
  data := serverNameList name
  type_lt := by decide
  data_lt := by
    have hshort := hname.short
    rw [length_serverNameList]
    omega

structure ClientHello where
  major : UInt8
  minor : UInt8
  version : List UInt8
  random : List UInt8
  sessionId : List UInt8
  cipherSuites : List UInt8
  compression : List UInt8
  extensions : List TlsExtension
  major_le : 3 ≤ major
  version_length : version.length = 2
  random_length : random.length = 32
  sessionId_le : sessionId.length ≤ 32
  cipherSuites_some : cipherSuites ≠ []
  cipherSuites_even : cipherSuites.length % 2 = 0
  compression_le : compression.length ≤ 255

def ClientHello.extensionBytes (h : ClientHello) : List UInt8 :=
  h.extensions.flatMap TlsExtension.encode

/-- Where the extensions begin in the record. -/
def ClientHello.body (h : ClientHello) : Nat :=
  49 + h.sessionId.length + h.cipherSuites.length + h.compression.length

def ClientHello.recordLength (h : ClientHello) : Nat := h.body + h.extensionBytes.length

/-- The record: its header, the header of the handshake message, and the message. -/
def ClientHello.record (h : ClientHello) : List UInt8 :=
  [tlsHandshakeRecord, h.major, h.minor] ++ be16 (h.recordLength - 5) ++
    (tlsMessageClientHello :: UInt8.ofNat ((h.recordLength - 9) / 65536) ::
        be16 ((h.recordLength - 9) % 65536)) ++
    (h.version ++ h.random) ++
    (UInt8.ofNat h.sessionId.length :: h.sessionId) ++
    (be16 h.cipherSuites.length ++ h.cipherSuites) ++
    (UInt8.ofNat h.compression.length :: h.compression) ++
    (be16 h.extensionBytes.length ++ h.extensionBytes)

theorem ClientHello.length_record (h : ClientHello) : h.record.length = h.recordLength := by
  simp only [ClientHello.record, ClientHello.recordLength, ClientHello.body, List.length_append,
    List.length_cons, List.length_nil, length_be16, h.version_length, h.random_length]
  omega

end Layout

section Located
variable {h : ClientHello} {data : Nat → UInt8} {i e : Nat} {name : List UInt8}

/-- The offsets of a record that the memory holds. -/
structure ClientHello.Located (h : ClientHello) (data : Nat → UInt8) : Prop where
  content : data 0 = tlsHandshakeRecord
  major : data 1 = h.major
  length : tlsWord data 3 = h.recordLength - 5
  message : data 5 = tlsMessageClientHello
  session : (data 43).toNat = h.sessionId.length
  suites : suitesAt id data = 44 + h.sessionId.length
  body : bodyAt id data = h.body
  extensions : tlsWord data (extensionsAt id data) = h.extensionBytes.length
  bytes : At data h.body h.extensionBytes

theorem tlsWord_of_at {n : Nat} (hat : At data i (be16 n)) (hn : n < 65536) : tlsWord data i = n :=
  word_of_at hat hn

theorem ClientHello.located (hat : At data 0 h.record) (hlen : h.recordLength ≤ 65535) :
    h.Located data := by
  have hbody : h.body = 49 + h.sessionId.length + h.cipherSuites.length + h.compression.length := rfl
  have hrecord : h.recordLength = h.body + h.extensionBytes.length := rfl
  have hsession_le := h.sessionId_le
  have hcompression_le := h.compression_le
  simp only [ClientHello.record, at_append, at_cons, List.length_append, List.length_cons,
    List.length_nil, length_be16, h.version_length, h.random_length] at hat
  obtain ⟨⟨⟨⟨⟨⟨⟨⟨hcontent, hmajor, -⟩, hlength⟩, hmessage, -⟩, -⟩, hsession, -⟩, hsuites, -⟩,
    hcompression, -⟩, hextensions, hbytes⟩ := hat
  have hsession : (data 43).toNat = h.sessionId.length := by
    rw [show data 43 = UInt8.ofNat h.sessionId.length from hsession, UInt8.toNat_ofNat',
      Nat.mod_eq_of_lt (by omega)]
  have hsuitesAt : suitesAt id data = 44 + h.sessionId.length := by rw [suitesAt, hsession, id]
  have hcompressionAt : compressionAt id data
      = 46 + h.sessionId.length + h.cipherSuites.length := by
    rw [compressionAt, hsuitesAt, tlsWord_of_at (hsuites.move (by omega)) (by omega), id]
    omega
  have hextensionsAt : extensionsAt id data
      = 47 + h.sessionId.length + h.cipherSuites.length + h.compression.length := by
    have hcount : (data (46 + h.sessionId.length + h.cipherSuites.length)).toNat
        = h.compression.length := by
      have hfirst : data (46 + h.sessionId.length + h.cipherSuites.length)
          = UInt8.ofNat h.compression.length := by
        rw [← hcompression]
        apply congrArg data
        omega
      rw [hfirst, UInt8.toNat_ofNat', Nat.mod_eq_of_lt (by omega)]
    rw [extensionsAt, hcompressionAt, hcount, id]
    omega
  refine ⟨hcontent, hmajor, ?_, hmessage, hsession, hsuitesAt, ?_, ?_, ?_⟩
  · exact tlsWord_of_at (hlength.move (by omega)) (by omega)
  · rw [bodyAt, hextensionsAt, hbody, id]
    omega
  · rw [hextensionsAt]
    exact tlsWord_of_at (hextensions.move (by omega)) (by omega)
  · exact hbytes.move (by omega)

/-- The lengths lead over the extensions that are laid out to the first server_name one. -/
theorem serverNameAt_of_at {edata : Nat → UInt8} {edatalen : Nat} {exts after : List TlsExtension}
    {x : TlsExtension} (hother : ∀ y ∈ exts, y.type ≠ tlsExtensionTypeServerName)
    (hx : x.type = tlsExtensionTypeServerName)
    (hat : At edata i ((exts ++ x :: after).flatMap TlsExtension.encode))
    (hend : i + ((exts ++ x :: after).flatMap TlsExtension.encode).length ≤ edatalen) :
    ServerNameAt edata edatalen i (i + (exts.flatMap TlsExtension.encode).length) := by
  induction exts generalizing i with
  | nil =>
    simp only [List.nil_append, List.flatMap_cons, List.length_append, at_append,
      TlsExtension.encode, length_be16] at hat hend
    obtain ⟨⟨⟨htype, hdata⟩, -⟩, -⟩ := hat
    have hlength := tlsWord_of_at hdata x.data_lt
    refine .here ?_ ((tlsWord_of_at htype x.type_lt).trans hx)
    rw [hlength]
    omega
  | cons y exts ih =>
    obtain ⟨hy, hother⟩ := List.forall_mem_cons.mp hother
    simp only [List.cons_append, List.flatMap_cons, List.length_append, at_append] at hat hend
    have hsize : y.encode.length = 4 + y.data.length := by
      simp only [TlsExtension.encode, List.length_append, length_be16]
    obtain ⟨hfirst, hrest⟩ := hat
    simp only [TlsExtension.encode, at_append, length_be16] at hfirst
    obtain ⟨⟨htype, hdata⟩, -⟩ := hfirst
    have hlength := tlsWord_of_at hdata y.data_lt
    have hnext := ih hother (hrest.move (j := i + 4 + y.data.length) (by omega)) (by omega)
    refine .skip (by rw [hlength]; omega) (tlsWord_of_at htype y.type_lt ▸ hy) ?_
    rw [hlength, List.flatMap_cons, List.length_append, hsize]
    rwa [show i + (4 + y.data.length + (exts.flatMap TlsExtension.encode).length)
      = i + 4 + y.data.length + (exts.flatMap TlsExtension.encode).length by omega]

/-- The entry that a memory with the extension at `e` has. -/
structure EntryIs (edata : Nat → UInt8) (e : Nat) (name : List UInt8) : Prop where
  list : tlsWord edata (e + 4) = 3 + name.length
  hostName : edata (e + 6) = 0
  entry : tlsWord edata (e + 7) = name.length
  name : entryName edata e = name

theorem entryIs_of_at {edata : Nat → UInt8} (hname : IsHostName name)
    (hat : At edata e (serverNameExtension hname).encode) : EntryIs edata e name := by
  have hshort := hname.short
  simp only [TlsExtension.encode, serverNameExtension, serverNameList, at_append, at_cons,
    length_be16, List.length_append] at hat
  obtain ⟨-, hlist, ⟨hhost, hentry⟩, hbytes⟩ := hat
  have hlength : tlsWord edata (e + 7) = name.length :=
    tlsWord_of_at (hentry.move (by omega)) (by omega)
  refine ⟨tlsWord_of_at (hlist.move (by omega)) (by omega), ?_, hlength, ?_⟩
  · exact hhost
  · rw [entryName, hlength]
    exact hbytes.map_range

end Located

section Found
variable {h : ClientHello} {data : Nat → UInt8} {datalen : UInt16} {name : List UInt8}
  {before after : List TlsExtension}

/-- A ClientHello with one server_name extension, of one entry, in a record that the parser gets
whole. -/
structure ClientHello.Sent (h : ClientHello) (data : Nat → UInt8) (datalen : UInt16)
    (name : List UInt8) (before after : List TlsExtension) : Prop where
  hostName : IsHostName name
  extensions : h.extensions = before ++ serverNameExtension hostName :: after
  first : ∀ x ∈ before, x.type ≠ tlsExtensionTypeServerName
  length : datalen.toNat = h.record.length
  bytes : At data 0 h.record

theorem encode_ne_nil (x : TlsExtension) : x.encode ≠ [] := by
  simp [TlsExtension.encode, be16]

theorem flatMap_encode_pos : 0 < (after.flatMap TlsExtension.encode).length ↔ after ≠ [] := by
  cases after with
  | nil => simp
  | cons x after =>
    have hx := List.length_pos_iff.mpr (encode_ne_nil x)
    simp only [List.flatMap_cons, List.length_append, ne_eq, reduceCtorEq, not_false_eq_true,
      iff_true]
    omega

namespace ClientHello.Sent
variable (hsent : h.Sent data datalen name before after)
include hsent

theorem located : h.Located data := by
  have hlt := datalen.toNat_lt
  have hlength := hsent.length
  rw [h.length_record] at hlength
  exact h.located hsent.bytes (by omega)

/-- The first server_name extension of the record, and its entry. -/
theorem entry : ∃ e, ServerNameAt (fun i => data (h.body + i)) h.extensionBytes.length 0 e ∧
    EntryIs (fun i => data (h.body + i)) e name ∧
    h.extensionBytes.length = e + 9 + name.length + (after.flatMap TlsExtension.encode).length := by
  have hbytes : At (fun i => data (h.body + i)) 0 h.extensionBytes :=
    at_shift.mpr hsent.located.bytes
  have hlist : h.extensionBytes
      = (before ++ serverNameExtension hsent.hostName :: after).flatMap TlsExtension.encode := by
    rw [ClientHello.extensionBytes, hsent.extensions]
  refine ⟨(before.flatMap TlsExtension.encode).length, ?_, ?_, ?_⟩
  · have hat := serverNameAt_of_at hsent.first rfl (hlist ▸ hbytes)
      (Nat.le_of_eq ((Nat.zero_add _).trans (congrArg List.length hlist).symm))
    rwa [Nat.zero_add] at hat
  · rw [hlist, List.flatMap_append, List.flatMap_cons, at_append, at_append, Nat.zero_add] at hbytes
    exact entryIs_of_at hsent.hostName hbytes.2.1
  · simp only [hlist, List.flatMap_append, List.flatMap_cons, List.length_append,
      TlsExtension.encode, serverNameExtension, length_serverNameList, length_be16]
    omega

theorem helloTaken (hbody : h.body ≤ 255) : HelloTaken data datalen.toNat := by
  have hloc := hsent.located
  have hnear : bodyAt id data ≤ 255 := by rwa [hloc.body]
  obtain ⟨hsuites, hcompression, hextensions, hbody8⟩ := offsets_of_bodyAt_le hnear
  obtain ⟨e, -, -, hsome⟩ := hsent.entry
  have hlength := hsent.length
  have hoffsets : bodyAt id data = extensionsAt id data + 2 ∧
      extensionsAt id data = compressionAt id data + 1 + (data (compressionAt id data)).toNat ∧
      compressionAt id data = suitesAt id data + 2 + tlsWord data (suitesAt id data) :=
    ⟨rfl, rfl, rfl⟩
  have hatBody := hloc.body
  have hrecord : h.recordLength = h.body + h.extensionBytes.length := rfl
  have hlong : 49 ≤ h.body := by
    rw [ClientHello.body]
    omega
  rw [h.length_record] at hlength
  refine ⟨hloc.content, hloc.major ▸ h.major_le, ?_, hloc.message, ?_, ?_, ?_, ?_, ?_, ?_⟩
  · rw [hloc.length]
    omega
  · omega
  · rw [hsuites]
    omega
  · rw [hcompression]
    omega
  · rw [hextensions]
    omega
  · rw [hextensions, hloc.extensions]
    omega
  · rw [hextensions, hbody8, hloc.extensions, hatBody]
    omega

/-- Without a wrap the parser comes to the extension, and turns it down as the last one. -/
theorem found_iff (hbody : h.body ≤ 255) (found : List UInt8) :
    parseSni data datalen = some found ↔ found = name ∧ after ≠ [] := by
  have hloc := hsent.located
  have hnear : bodyAt id data ≤ 255 := by rwa [hloc.body]
  obtain ⟨-, -, hextensions, hbody8⟩ := offsets_of_bodyAt_le hnear
  obtain ⟨e, he, hentry, hlength⟩ := hsent.entry
  have hshort := hsent.hostName.short
  rw [← flatMap_encode_pos, parseSni_eq_some_iff, hextensions, hbody8, hloc.body, hloc.extensions]
  constructor
  · rintro ⟨-, e', he', htaken, rfl⟩
    obtain rfl := he.unique he'
    have hlist := htaken.list
    rw [hentry.list] at hlist
    exact ⟨hentry.name, by omega⟩
  · rintro ⟨rfl, hafter⟩
    refine ⟨hsent.helloTaken hbody, e, he, ⟨?_, hentry.hostName, ?_, ?_⟩, hentry.name.symm⟩
    · rw [hentry.list]
      omega
    · rw [hentry.entry]
      omega
    · rw [hentry.entry]
      exact Nat.lt_succ_of_le hshort

end ClientHello.Sent

/-- The server name of a well-formed record is found where the extensions begin in reach of the
8-bit index and do not end with it; and nowhere else unless the index has wrapped. -/
theorem parseSni_complete (hsent : h.Sent data datalen name before after) :
    (h.body ≤ 255 ∧ after ≠ [] → (parseSni data datalen).map cString = some name) ∧
      ((parseSni data datalen).map cString = some name → after ≠ [] ∨ 255 < h.body) := by
  constructor
  · rintro ⟨hnear, hafter⟩
    rw [(hsent.found_iff hnear name).mpr ⟨rfl, hafter⟩, Option.map_some,
      cString_eq_self_iff.mpr hsent.hostName.text]
  · intro hfound
    rcases Nat.lt_or_ge 255 h.body with hfar | hnear
    · exact .inr hfar
    · obtain ⟨found, hparsed, -⟩ := Option.map_eq_some_iff.mp hfound
      exact .inl ((hsent.found_iff hnear found).mp hparsed).2

/-- A small ClientHello for the host "ab". -/
def ClientHello.sample (hname : IsHostName [97, 98]) (after : List TlsExtension) : ClientHello where
  major := 3
  minor := 1
  version := [3, 3]
  random := List.replicate 32 0
  sessionId := []
  cipherSuites := [19, 1]
  compression := [0]
  extensions := serverNameExtension hname :: after
  major_le := by decide
  version_length := rfl
  random_length := rfl
  sessionId_le := by decide
  cipherSuites_some := nofun
  cipherSuites_even := rfl
  compression_le := by decide

def bytesOf (l : List UInt8) : Nat → UInt8 := fun i => l.getD i 0

theorem isHostName_ab : IsHostName [97, 98] := ⟨by decide, by decide, by decide⟩

def padding : TlsExtension := ⟨21, [0], by decide, by decide⟩

theorem ClientHello.sample_sent {after : List TlsExtension} {datalen : UInt16}
    (hlength : datalen.toNat = (ClientHello.sample isHostName_ab after).record.length) :
    (ClientHello.sample isHostName_ab after).Sent
      (bytesOf (ClientHello.sample isHostName_ab after).record) datalen [97, 98] [] after :=
  ⟨isHostName_ab, rfl, nofun, hlength, at_getD _ 0⟩

theorem parseSni_complete_sample :
    (parseSni (bytesOf (ClientHello.sample isHostName_ab [padding]).record) 68).map cString
      = some [97, 98] :=
  (parseSni_complete (ClientHello.sample_sent (by decide))).1 ⟨by decide, nofun⟩

/-- The server_name extension is the last one, as it may be. -/
theorem not_parseSni_complete :
    ¬ (parseSni (bytesOf (ClientHello.sample isHostName_ab []).record) 63).map cString
      = some [97, 98] := by
  intro h
  obtain ⟨found, hfound, -⟩ := Option.map_eq_some_iff.mp h
  have hsent : (ClientHello.sample isHostName_ab []).Sent _ 63 _ _ _ :=
    ClientHello.sample_sent (by decide)
  exact ((hsent.found_iff (by decide) found).mp hfound).2 rfl

end Found

end NetGuard.Engine
