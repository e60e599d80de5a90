import Mathlib.Data.Option.Basic
import NetGuard.Engine.Tls
import NetGuard.Library.Wire

/-! # What `parse_sni` takes for the server name

The lengths of a ClientHello lead to the first server_name extension. The parser follows them
with offsets of 8 bits up to the extensions, and compares the lengths of the entry with the end
of the record alone. A name it finds is one that the record announces when neither matters.
-/
namespace NetGuard.Engine

section Extensions
variable {edata : Nat → UInt8} {edatalen i e e' : Nat} {name : List UInt8}

/-- The lengths from `i` on lead to the first server_name extension, at `e`, and no extension up
to it ends behind the list. -/
inductive ServerNameAt (edata : Nat → UInt8) (edatalen : Nat) : Nat → Nat → Prop
  | here {i : Nat} (hfits : i + 4 + tlsWord edata (i + 2) ≤ edatalen)
      (htype : tlsWord edata i = tlsExtensionTypeServerName) : ServerNameAt edata edatalen i i
  | skip {i e : Nat} (hfits : i + 4 + tlsWord edata (i + 2) ≤ edatalen)
      (htype : tlsWord edata i ≠ tlsExtensionTypeServerName)
      (hrest : ServerNameAt edata edatalen (i + 4 + tlsWord edata (i + 2)) e) :
      ServerNameAt edata edatalen i e

theorem ServerNameAt.fits (h : ServerNameAt edata edatalen i e) :
    e + 4 + tlsWord edata (e + 2) ≤ edatalen := by
  induction h with
  | here hfits => exact hfits
  | skip _ _ _ ih => exact ih

theorem ServerNameAt.unique (h : ServerNameAt edata edatalen i e)
    (h' : ServerNameAt edata edatalen i e') : e = e' := by
  induction h with
  | here _ htype =>
    cases h' with
    | here => rfl
    | skip _ hother => exact absurd htype hother
  | skip _ htype _ ih =>
    cases h' with
    | here _ hname => exact absurd hname htype
    | skip _ _ hrest => exact ih hrest

/-- The bytes of the name in the entry of the extension at `e`. -/
def entryName (edata : Nat → UInt8) (e : Nat) : List UInt8 :=
  (List.range (tlsWord edata (e + 7))).map fun k => edata (e + 9 + k)

/-- The entry as the parser takes it: a host name of less than 255 bytes, and it and its list end
before the extensions do. -/
structure EntryTaken (edata : Nat → UInt8) (edatalen e : Nat) : Prop where
  list : e + 6 + tlsWord edata (e + 4) < edatalen
  hostName : edata (e + 6) = 0
  entry : e + 9 + tlsWord edata (e + 7) < edatalen
  short : tlsWord edata (e + 7) < tlsSniLength

/-- The entry as a sender means it: a host name inside its list, and that inside the extension. -/
structure EntryNested (edata : Nat → UInt8) (e : Nat) : Prop where
  list : 2 + tlsWord edata (e + 4) ≤ tlsWord edata (e + 2)
  entry : 3 + tlsWord edata (e + 7) ≤ tlsWord edata (e + 4)
  hostName : edata (e + 6) = 0

theorem parseServerName_eq_some_iff : parseServerName edata edatalen (e + 4) = some name ↔
    EntryTaken edata edatalen e ∧ name = entryName edata e := by
  simp only [parseServerName, Option.bind_eq_bind, Option.bind_eq_some_iff, Option.guard_eq_some',
    Option.pure_def, Option.some.injEq, exists_const, show e + 4 + 2 = e + 6 from rfl,
    show e + 6 + 1 = e + 7 from rfl, show e + 7 + 2 = e + 9 from rfl]
  constructor
  · rintro ⟨-, hlist, -, hhost, -, hentry, hshort, rfl⟩
    exact ⟨⟨hlist, hhost, hentry, hshort⟩, rfl⟩
  · rintro ⟨⟨hlist, hhost, hentry, hshort⟩, rfl⟩
    exact ⟨by omega, hlist, by omega, hhost, by omega, hentry, hshort, rfl⟩

theorem parseExtensions_eq_some_iff : parseExtensions edata edatalen i = some name ↔
    ∃ e, ServerNameAt edata edatalen i e ∧ EntryTaken edata edatalen e ∧
      name = entryName edata e := by
  constructor
  · intro h
    fun_induction parseExtensions edata edatalen i with
    | case1 => exact absurd h nofun
    | case2 => exact absurd h nofun
    | case3 => exact absurd h nofun
    | case4 i _ _ _ hfits htype =>
      exact ⟨i, .here (Nat.not_lt.mp hfits) htype, parseServerName_eq_some_iff.mp h⟩
    | case5 i _ _ _ hfits htype ih =>
      obtain ⟨e, he, htaken⟩ := ih h
      exact ⟨e, .skip (Nat.not_lt.mp hfits) htype he, htaken⟩
    | case6 => exact absurd h nofun
  · rintro ⟨e, he, htaken⟩
    induction he with
    | @here i hfits htype =>
      rw [parseExtensions, if_pos (by omega), if_neg (by omega), if_neg (by omega),
        if_neg (Nat.not_lt.mpr hfits), if_pos htype]
      exact parseServerName_eq_some_iff.mpr htaken
    | @skip i e hfits htype hrest ih =>
      rw [parseExtensions, if_pos (by omega), if_neg (by omega), if_neg (by omega),
        if_neg (Nat.not_lt.mpr hfits), if_neg htype]
      exact ih htaken

end Extensions

section Offsets
variable (wrap : Nat → Nat) (data : Nat → UInt8)

/-! The offsets of the lengths behind the session id, where every sum goes through `wrap`: with
`id` for the true ones, and with `wrap8` for those of `index`. -/

def suitesAt : Nat := wrap (44 + (data 43).toNat)
def compressionAt : Nat := wrap (suitesAt wrap data + 2 + tlsWord data (suitesAt wrap data))
def extensionsAt : Nat :=
  wrap (compressionAt wrap data + 1 + (data (compressionAt wrap data)).toNat)
def bodyAt : Nat := wrap (extensionsAt wrap data + 2)

def wrap8 (n : Nat) : Nat := n % 256

/-- The checks of the record and of the offsets before the loop. -/
structure HelloTaken (datalen : Nat) : Prop where
  content : data 0 = tlsHandshakeRecord
  major : 3 ≤ data 1
  length : 5 + tlsWord data 3 = datalen
  message : data 5 = tlsMessageClientHello
  session : 43 < datalen
  suites : suitesAt wrap8 data + 1 < datalen
  compression : compressionAt wrap8 data < datalen
  extensions : extensionsAt wrap8 data + 1 < datalen
  some : tlsWord data (extensionsAt wrap8 data) ≠ 0
  total : bodyAt wrap8 data + tlsWord data (extensionsAt wrap8 data) = datalen

end Offsets

section Index
variable (data : Nat → UInt8)

theorem suitesIndex : ((6 + 3 + 2 + 32 : UInt8) + 1 + data 43).toNat = suitesAt wrap8 data := by
  simp only [suitesAt, wrap8, UInt8.toNat_add, show (6 + 3 + 2 + 32 : UInt8).toNat = 43 from rfl,
    show (1 : UInt8).toNat = 1 from rfl]

theorem compressionIndex {index : UInt8} (h : index.toNat = suitesAt wrap8 data) :
    (index + 2 + UInt8.ofNat (tlsWord data index.toNat)).toNat = compressionAt wrap8 data := by
  simp only [compressionAt, ← h, wrap8, UInt8.toNat_add, UInt8.toNat_ofNat',
    show (2 : UInt8).toNat = 2 from rfl]
  omega

theorem extensionsIndex {index : UInt8} (h : index.toNat = compressionAt wrap8 data) :
    (index + 1 + data index.toNat).toNat = extensionsAt wrap8 data := by
  simp only [extensionsAt, ← h, wrap8, UInt8.toNat_add, show (1 : UInt8).toNat = 1 from rfl]
  omega

theorem bodyIndex {index : UInt8} (h : index.toNat = extensionsAt wrap8 data) :
    (index + 2).toNat = bodyAt wrap8 data := by
  simp only [bodyAt, ← h, wrap8, UInt8.toNat_add, show (2 : UInt8).toNat = 2 from rfl]

end Index

theorem parseSni_eq_some_iff {data : Nat → UInt8} {datalen : UInt16} {name : List UInt8} :
    parseSni data datalen = some name ↔ HelloTaken data datalen.toNat ∧
      ∃ e, ServerNameAt (fun i => data (bodyAt wrap8 data + i))
          (tlsWord data (extensionsAt wrap8 data)) 0 e ∧
        EntryTaken (fun i => data (bodyAt wrap8 data + i))
          (tlsWord data (extensionsAt wrap8 data)) e ∧
        name = entryName (fun i => data (bodyAt wrap8 data + i)) e := by
  rw [← parseExtensions_eq_some_iff]
  have hsuites := suitesIndex data
  have hcompression := compressionIndex data hsuites
  have hextensions := extensionsIndex data hcompression
  have hbody := bodyIndex data hextensions
  simp only [parseSni, Option.bind_eq_bind, Option.bind_eq_some_iff, Option.guard_eq_some',
    exists_const, show (6 + 3 + 2 + 32 : UInt8).toNat = 43 from rfl]
  rw [hbody, hextensions, hcompression, hsuites]
  constructor
  · rintro ⟨-, ⟨hcontent, hmajor, hlength, hmessage⟩, hsession, hsuites, hcompression, hextensions,
      ⟨hsome, htotal⟩, hname⟩
    exact ⟨⟨hcontent, hmajor, hlength, hmessage, hsession, hsuites, hcompression, hextensions,
      hsome, htotal⟩, hname⟩
  · rintro ⟨h, hname⟩
    have hlong := h.session
    exact ⟨by omega, ⟨h.content, h.major, h.length, h.message⟩, h.session, h.suites, h.compression,
      h.extensions, ⟨h.some, h.total⟩, hname⟩

section Sound
variable {data : Nat → UInt8} {datalen : Nat} {name : List UInt8}

/-- The offsets only grow, so that none of them wraps where the last does not. -/
theorem offsets_of_bodyAt_le (hbody : bodyAt id data ≤ 255) :
    suitesAt wrap8 data = suitesAt id data ∧ compressionAt wrap8 data = compressionAt id data ∧
      extensionsAt wrap8 data = extensionsAt id data ∧ bodyAt wrap8 data = bodyAt id data := by
  have hextensions : bodyAt id data = extensionsAt id data + 2 := rfl
  have hcompression : extensionsAt id data
      = compressionAt id data + 1 + (data (compressionAt id data)).toNat := rfl
  have hsuites : compressionAt id data
      = suitesAt id data + 2 + tlsWord data (suitesAt id data) := rfl
  have hsession : suitesAt id data = 44 + (data 43).toNat := rfl
  have hsuites8 : suitesAt wrap8 data = suitesAt id data := Nat.mod_eq_of_lt (by omega)
  have hcompression8 : compressionAt wrap8 data = compressionAt id data := by
    rw [compressionAt, hsuites8]
    exact Nat.mod_eq_of_lt (by omega)
  have hextensions8 : extensionsAt wrap8 data = extensionsAt id data := by
    rw [extensionsAt, hcompression8]
    exact Nat.mod_eq_of_lt (by omega)
  refine ⟨hsuites8, hcompression8, hextensions8, ?_⟩
  rw [bodyAt, hextensions8]
  exact Nat.mod_eq_of_lt (by omega)

/-- The record is a handshake with a ClientHello that announces the name: the true lengths fill
the record and lead to the entry that has it. -/
structure Announces (data : Nat → UInt8) (datalen : Nat) (name : List UInt8) : Prop where
  content : data 0 = tlsHandshakeRecord
  length : 5 + tlsWord data 3 = datalen
  message : data 5 = tlsMessageClientHello
  total : bodyAt id data + tlsWord data (extensionsAt id data) = datalen
  entry : ∃ e, ServerNameAt (fun i => data (bodyAt id data + i))
      (tlsWord data (extensionsAt id data)) 0 e ∧
    EntryNested (fun i => data (bodyAt id data + i)) e ∧
    name = entryName (fun i => data (bodyAt id data + i)) e

/-- The entry at `e` is where the true lengths lead, and nested as it should be. -/
structure EntryHonest (data : Nat → UInt8) (e : Nat) : Prop where
  near : bodyAt id data ≤ 255
  list : 2 + tlsWord data (bodyAt id data + (e + 4)) ≤ tlsWord data (bodyAt id data + (e + 2))
  entry : 3 + tlsWord data (bodyAt id data + (e + 7)) ≤ tlsWord data (bodyAt id data + (e + 4))

/-- Where only announced names are taken and no offset has wrapped, the entry that the parser
takes lies where it should. -/
theorem entryHonest_of_sound {datalen : UInt16} {e : Nat}
    (hsound : ∀ name, parseSni data datalen = some name → Announces data datalen.toNat name)
    (hhello : HelloTaken data datalen.toNat)
    (he : ServerNameAt (fun i => data (bodyAt wrap8 data + i))
      (tlsWord data (extensionsAt wrap8 data)) 0 e)
    (htaken : EntryTaken (fun i => data (bodyAt wrap8 data + i))
      (tlsWord data (extensionsAt wrap8 data)) e) (hnear : bodyAt id data ≤ 255) :
    EntryHonest data e := by
  have hannounces := hsound _ (parseSni_eq_some_iff.mpr ⟨hhello, e, he, htaken, rfl⟩)
  obtain ⟨-, -, hextensions, hbody⟩ := offsets_of_bodyAt_le hnear
  rw [hextensions, hbody] at he
  obtain ⟨e', he', hnested, -⟩ := hannounces.entry
  obtain rfl := he.unique he'
  exact ⟨hnear, hnested.list, hnested.entry⟩

/-- A record whose entry lies where it should announces the name. -/
theorem EntryHonest.announces {e : Nat} (hentry : EntryHonest data e)
    (hhello : HelloTaken data datalen)
    (he : ServerNameAt (fun i => data (bodyAt wrap8 data + i))
      (tlsWord data (extensionsAt wrap8 data)) 0 e)
    (htaken : EntryTaken (fun i => data (bodyAt wrap8 data + i))
      (tlsWord data (extensionsAt wrap8 data)) e) :
    Announces data datalen (entryName (fun i => data (bodyAt wrap8 data + i)) e) := by
  obtain ⟨-, -, hextensions, hbody⟩ := offsets_of_bodyAt_le hentry.near
  have htotal := hhello.total
  rw [hextensions, hbody] at htotal he
  rw [hbody] at htaken ⊢
  exact ⟨hhello.content, hhello.length, hhello.message, htotal,
    e, he, ⟨hentry.list, hentry.entry, htaken.hostName⟩, rfl⟩

/-- Acceptance is sound for the records whose entry, where the parser takes one, is in reach of
the index, in its list and in its extension; and for no other unless the index has wrapped. -/
theorem parseSni_sound (data : Nat → UInt8) (datalen : UInt16) :
    ((HelloTaken data datalen.toNat → ∀ e,
        ServerNameAt (fun i => data (bodyAt wrap8 data + i))
          (tlsWord data (extensionsAt wrap8 data)) 0 e →
        EntryTaken (fun i => data (bodyAt wrap8 data + i))
          (tlsWord data (extensionsAt wrap8 data)) e →
        EntryHonest data e) →
      ∀ name, parseSni data datalen = some name → Announces data datalen.toNat name) ∧
    ((∀ name, parseSni data datalen = some name → Announces data datalen.toNat name) →
      HelloTaken data datalen.toNat → ∀ e,
        ServerNameAt (fun i => data (bodyAt wrap8 data + i))
          (tlsWord data (extensionsAt wrap8 data)) 0 e →
        EntryTaken (fun i => data (bodyAt wrap8 data + i))
          (tlsWord data (extensionsAt wrap8 data)) e →
        EntryHonest data e ∨ 255 < bodyAt id data) := by
  constructor
  · intro hhonest name hparsed
    obtain ⟨hhello, e, he, htaken, rfl⟩ := parseSni_eq_some_iff.mp hparsed
    exact (hhonest hhello e he htaken).announces hhello he htaken
  · intro hsound hhello e he htaken
    rcases Nat.lt_or_ge 255 (bodyAt id data) with hfar | hnear
    · exact .inr hfar
    · exact .inl (entryHonest_of_sound hsound hhello he htaken hnear)

/-- A ClientHello whose server_name list is empty, before an extension of the type "ab". -/
def emptyList : List UInt8 :=
  [22, 3, 1, 0, 60, 1, 0, 0, 56, 3, 3] ++ List.replicate 32 0 ++ [0, 0, 2, 19, 1, 1, 0] ++
    [0, 13, 0, 0, 0, 5, 0, 0, 0, 0, 2, 97, 98, 0, 0]

theorem not_parseSni_sound :
    ¬ ∀ name, parseSni (fun i => emptyList.getD i 0) 65 = some name →
      Announces (fun i => emptyList.getD i 0) (65 : UInt16).toNat name := by
  intro hsound
  have hhello : HelloTaken (fun i => emptyList.getD i 0) (65 : UInt16).toNat := by
    constructor <;> decide
  have hentry := entryHonest_of_sound hsound hhello (e := 0)
    (.here (by decide) (by decide)) (by constructor <;> decide) (by decide)
  exact absurd hentry.entry (by decide)

end Sound

end NetGuard.Engine
