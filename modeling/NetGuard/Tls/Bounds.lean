import NetGuard.Bounds.Agree
import NetGuard.Tls.Reading

/-! # What `parse_sni` reads and writes

The bytes that `parse_sni` reads, in the order of the source and behind its tests, and those of
`server_name` it writes. An index is compared with the end before it is used, also where it has
wrapped, so that all of them are in the record.
-/
namespace NetGuard.Engine
open Footprint

section Reads
variable (data : Nat → UInt8)

/-- The reads in the server_name extension whose data begins at `eindex`. -/
def serverNameReads (edata edatalen eindex : Nat) : List Range :=
  guarded (eindex + 1 < edatalen) (⟨edata + eindex, 2⟩ ::
    guarded (eindex + 2 + tlsWord data (edata + eindex) < edatalen ∧ eindex + 2 < edatalen)
      (⟨edata + (eindex + 2), 1⟩ ::
        guarded (data (edata + (eindex + 2)) = 0 ∧ eindex + 3 + 1 < edatalen)
          (⟨edata + (eindex + 3), 2⟩ ::
            guarded (eindex + 5 + tlsWord data (edata + (eindex + 3)) < edatalen ∧
                tlsWord data (edata + (eindex + 3)) < tlsSniLength)
              [⟨edata + (eindex + 5), tlsWord data (edata + (eindex + 3))⟩])))

/-- The extensions that the loop takes a turn for. -/
def extensionTurns (edata edatalen eindex : Nat) : List Nat :=
  if eindex < edatalen then
    eindex ::
      if eindex + 1 ≥ edatalen then []
      else if eindex + 3 ≥ edatalen then []
      else if eindex + 4 + tlsWord data (edata + (eindex + 2)) > edatalen then []
      else if tlsWord data (edata + eindex) = tlsExtensionTypeServerName then []
      else extensionTurns edata edatalen (eindex + 4 + tlsWord data (edata + (eindex + 2)))
  else []
termination_by edatalen - eindex

def turnReads (edata edatalen eindex : Nat) : List Range :=
  guarded (eindex + 1 < edatalen) (⟨edata + eindex, 2⟩ ::
    guarded (eindex + 3 < edatalen) (⟨edata + (eindex + 2), 2⟩ ::
      guarded (eindex + 4 + tlsWord data (edata + (eindex + 2)) ≤ edatalen ∧
          tlsWord data (edata + eindex) = tlsExtensionTypeServerName)
        (serverNameReads data edata edatalen (eindex + 4))))

/-- All reads for a record of the length. -/
def parseSniReads (datalen : Nat) : List Range :=
  guarded (6 ≤ datalen) (⟨0, 6⟩ ::
    guarded (data 0 = tlsHandshakeRecord ∧ 3 ≤ data 1 ∧ 5 + tlsWord data 3 = datalen ∧
        data 5 = tlsMessageClientHello ∧ 43 < datalen)
      (⟨9, 2⟩ :: ⟨43, 1⟩ :: guarded (suitesAt wrap8 data + 1 < datalen)
        (⟨suitesAt wrap8 data, 2⟩ :: guarded (compressionAt wrap8 data < datalen)
          (⟨compressionAt wrap8 data, 1⟩ :: guarded (extensionsAt wrap8 data + 1 < datalen)
            (⟨extensionsAt wrap8 data, 2⟩ ::
              guarded (tlsWord data (extensionsAt wrap8 data) ≠ 0 ∧
                  bodyAt wrap8 data + tlsWord data (extensionsAt wrap8 data) = datalen)
                ((extensionTurns data (bodyAt wrap8 data) (tlsWord data (extensionsAt wrap8 data))
                  0).flatMap (turnReads data (bodyAt wrap8 data)
                    (tlsWord data (extensionsAt wrap8 data)))))))))

end Reads

section Inside
variable {data : Nat → UInt8} {edata edatalen eindex datalen : Nat}

/-- Every turn of the loop but the last moves on by the header of an extension. -/
theorem length_extensionTurns_le (data : Nat → UInt8) (edata edatalen eindex : Nat) :
    (extensionTurns data edata edatalen eindex).length ≤ edatalen - eindex := by
  rw [extensionTurns]
  split
  next hmore =>
    rw [List.length_cons]
    split
    · exact Nat.sub_pos_of_lt hmore
    split
    · exact Nat.sub_pos_of_lt hmore
    split
    · exact Nat.sub_pos_of_lt hmore
    split
    · exact Nat.sub_pos_of_lt hmore
    · have hrest := length_extensionTurns_le data edata edatalen
        (eindex + 4 + tlsWord data (edata + (eindex + 2)))
      omega
  next => exact Nat.zero_le _
termination_by edatalen - eindex

theorem below_serverNameReads (hend : edata + edatalen = datalen) :
    Below (serverNameReads data edata edatalen eindex) datalen := by
  simp only [serverNameReads, below_guarded, below_cons, below_nil, and_true,
    Range.below_iff Nat.one_pos, Range.below_iff Nat.two_pos]
  intro hlist
  refine ⟨by omega, fun hhost => ⟨by omega, fun hlength => ⟨by omega, fun hname => ?_⟩⟩⟩
  intro i hi
  simp only at hi ⊢
  omega

theorem below_turnReads (hend : edata + edatalen = datalen) :
    Below (turnReads data edata edatalen eindex) datalen := by
  simp only [turnReads, below_guarded, below_cons, Range.below_iff Nat.two_pos]
  exact fun htype => ⟨by omega, fun hlength => ⟨by omega, fun _ => below_serverNameReads hend⟩⟩

theorem below_parseSniReads : Below (parseSniReads data datalen) datalen := by
  simp only [parseSniReads, below_guarded, below_cons, below_flatMap, Range.below_iff Nat.one_pos,
    Range.below_iff Nat.two_pos, Range.below_iff (show 0 < 6 by decide)]
  exact fun hsix => ⟨by omega, fun hheader => ⟨by omega, by omega, fun hsuites => ⟨by omega,
    fun hcompression => ⟨by omega, fun hextensions => ⟨by omega,
      fun hend x _ => below_turnReads hend.2⟩⟩⟩⟩⟩

end Inside

section Footprint
variable {data data' : Nat → UInt8} {edata edatalen eindex : Nat} {datalen : UInt16}

theorem tlsWord_agree {i : Nat} (h : ∀ k < 2, data (i + k) = data' (i + k)) :
    tlsWord data i = tlsWord data' i := Wire.word_congr h

theorem tlsWord_shift (data : Nat → UInt8) (edata i : Nat) :
    tlsWord (fun i => data (edata + i)) i = tlsWord data (edata + i) := rfl

theorem parseServerName_agree (h : Agree (serverNameReads data edata edatalen eindex) data data') :
    parseServerName (fun i => data (edata + i)) edatalen eindex
      = parseServerName (fun i => data' (edata + i)) edatalen eindex := by
  simp only [serverNameReads, agree_guarded, agree_cons, agree_nil, and_true] at h
  apply guard_bind_congr Iff.rfl
  intro hlist
  obtain ⟨hword, h⟩ := h hlist
  have hword := tlsWord_agree hword
  simp only [tlsWord_shift]
  apply guard_bind_congr (by rw [hword])
  intro hroom
  apply guard_bind_congr Iff.rfl
  intro htype
  obtain ⟨hhost, h⟩ := h ⟨hroom, htype⟩
  have hhost : data (edata + (eindex + 2)) = data' (edata + (eindex + 2)) := hhost 0 Nat.one_pos
  apply guard_bind_congr (by rw [hhost])
  intro hzero
  apply guard_bind_congr Iff.rfl
  intro hlength
  obtain ⟨hname, h⟩ := h ⟨hzero, hlength⟩
  have hname : tlsWord data (edata + (eindex + 3)) = tlsWord data' (edata + (eindex + 3)) :=
    tlsWord_agree hname
  apply guard_bind_congr (by rw [show eindex + 2 + 1 = eindex + 3 from rfl, hname])
  intro hend
  apply guard_bind_congr (by rw [show eindex + 2 + 1 = eindex + 3 from rfl, hname])
  intro hshort
  have hbytes := h ⟨hend, hshort⟩
  rw [show eindex + 2 + 1 = eindex + 3 from rfl, ← hname]
  refine congrArg some (List.map_congr_left fun k hk => ?_)
  have hbyte := hbytes k (List.mem_range.mp hk)
  rwa [show edata + (eindex + 5) + k = edata + (eindex + 2 + 1 + 2 + k) by omega] at hbyte

/-- One turn of the loop, with the lengths read from the record. -/
theorem parseExtensions_step (data : Nat → UInt8) (edata edatalen eindex : Nat) :
    parseExtensions (fun i => data (edata + i)) edatalen eindex =
      if eindex < edatalen then
        if eindex + 1 ≥ edatalen then none
        else if eindex + 3 ≥ edatalen then none
        else if eindex + 4 + tlsWord data (edata + (eindex + 2)) > edatalen then none
        else if tlsWord data (edata + eindex) = tlsExtensionTypeServerName then
          parseServerName (fun i => data (edata + i)) edatalen (eindex + 4)
        else parseExtensions (fun i => data (edata + i)) edatalen
          (eindex + 4 + tlsWord data (edata + (eindex + 2)))
      else none := by
  conv_lhs => rw [parseExtensions]
  rfl

theorem parseExtensions_agree {eindex : Nat}
    (h : Agree ((extensionTurns data edata edatalen eindex).flatMap (turnReads data edata edatalen))
      data data') :
    parseExtensions (fun i => data (edata + i)) edatalen eindex
      = parseExtensions (fun i => data' (edata + i)) edatalen eindex := by
  rw [extensionTurns] at h
  rw [parseExtensions_step, parseExtensions_step data']
  split
  next hmore =>
    rw [if_pos hmore, List.flatMap_cons, agree_append] at h
    obtain ⟨hturn, hrest⟩ := h
    simp only [turnReads, agree_guarded, agree_cons] at hturn
    split
    · rfl
    next htype =>
      rw [if_neg htype] at hrest
      obtain ⟨hkind, hturn⟩ := hturn (Nat.not_le.mp htype)
      split
      · rfl
      next hlen =>
        rw [if_neg hlen] at hrest
        obtain ⟨hlength, hname⟩ := hturn (Nat.not_le.mp hlen)
        rw [← tlsWord_agree hlength, ← tlsWord_agree hkind]
        split
        · rfl
        next hend =>
          rw [if_neg hend] at hrest
          split
          next hserver => exact parseServerName_agree (hname ⟨Nat.not_lt.mp hend, hserver⟩)
          next hserver =>
            rw [if_neg hserver] at hrest
            exact parseExtensions_agree hrest
  next => rfl
termination_by edatalen - eindex

/-- The reads are all that the result depends on. -/
theorem parseSni_agree (h : Agree (parseSniReads data datalen.toNat) data data') :
    parseSni data datalen = parseSni data' datalen := by
  simp only [parseSniReads, agree_guarded, agree_cons] at h
  apply guard_bind_congr Iff.rfl
  intro hsix
  obtain ⟨hheader, h⟩ := h hsix
  have hlength : tlsWord data 3 = tlsWord data' 3 :=
    tlsWord_congr (hheader 3 (by decide)) (hheader 4 (by decide))
  have hbyte (i : Nat) (hi : i < 6) : data i = data' i := by
    have hi := hheader i hi
    rwa [Nat.zero_add] at hi
  refine guard_bind_congr ?_ fun htaken => ?_
  · rw [hbyte 0 (by decide), hbyte 1 (by decide), hbyte 5 (by decide), hlength]
  apply guard_bind_congr Iff.rfl
  intro hlong
  obtain ⟨hversion, hsession, h⟩ := h ⟨htaken.1, htaken.2.1, htaken.2.2.1, htaken.2.2.2, hlong⟩
  have hsession : data 43 = data' 43 := hsession 0 Nat.one_pos
  have hindex : ((6 + 3 + 2 + 32 : UInt8) + 1 + data (6 + 3 + 2 + 32 : UInt8).toNat).toNat
      = suitesAt wrap8 data := suitesIndex data
  rw [show data' (6 + 3 + 2 + 32 : UInt8).toNat = data (6 + 3 + 2 + 32 : UInt8).toNat from
    hsession.symm]
  apply guard_bind_congr Iff.rfl
  intro hsuites
  obtain ⟨hword, h⟩ := h (hindex ▸ hsuites)
  rw [← hindex] at hword
  rw [← tlsWord_agree hword]
  have hindex := compressionIndex data hindex
  apply guard_bind_congr Iff.rfl
  intro hcompression
  obtain ⟨hcount, h⟩ := h (hindex ▸ hcompression)
  have hcount := hcount 0 Nat.one_pos
  rw [Nat.add_zero, ← hindex] at hcount
  rw [← hcount]
  have hindex := extensionsIndex data hindex
  apply guard_bind_congr Iff.rfl
  intro hextensions
  obtain ⟨hword, h⟩ := h (hindex ▸ hextensions)
  rw [← hindex] at hword
  rw [← tlsWord_agree hword]
  have hbody := bodyIndex data hindex
  apply guard_bind_congr Iff.rfl
  intro hend
  have h := h (hbody ▸ hindex ▸ hend)
  rw [← hbody, ← hindex] at h
  exact parseExtensions_agree h

end Footprint

section Safe

/-- What keeps `parse_sni` inside its buffers: the loop takes a turn for each byte at most, the
reads are those of the record, all else is of no effect, and the name and the end of the string
fit into `server_name`. -/
structure SniSafe (data : Nat → UInt8) (datalen : UInt16) : Prop where
  turns : ∀ edata edatalen, edata + edatalen = datalen.toNat →
    (extensionTurns data edata edatalen 0).length ≤ datalen.toNat
  reads : Below (parseSniReads data datalen.toNat) datalen.toNat
  only : ∀ data', Agree (parseSniReads data datalen.toNat) data data' →
    parseSni data datalen = parseSni data' datalen
  writes : ∀ name, parseSni data datalen = some name →
    Below [⟨0, name.length⟩, ⟨name.length, 1⟩] (tlsSniLength + 1)

theorem parseSni_safe (data : Nat → UInt8) (datalen : UInt16) : SniSafe data datalen := by
  refine ⟨?_, below_parseSniReads, fun _ => parseSni_agree, ?_⟩
  · intro edata edatalen hend
    have hlength := length_extensionTurns_le data edata edatalen 0
    omega
  · intro name hname
    obtain ⟨-, e, -, htaken, rfl⟩ := parseSni_eq_some_iff.mp hname
    have hshort := htaken.short
    rw [below_cons, below_cons, Range.below_iff Nat.one_pos, entryName, List.length_map,
      List.length_range]
    refine ⟨?_, by omega, below_nil⟩
    intro i hi
    simp only at hi ⊢
    omega

end Safe

end NetGuard.Engine
