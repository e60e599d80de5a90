import NetGuard.Engine.Icmp
import NetGuard.Engine.Udp
import NetGuard.Library.Wire

/-! # Answers to DHCP

`check_dhcp` stores by stores: where in the block of its response each one goes, and what the
500 bytes that are sent then hold.
-/
namespace NetGuard.Engine

section Stores
variable (data : List UInt8)

/-- An offset from `response`, in bytes, and what is stored there. -/
abbrev DhcpStore := Nat × List UInt8

def dhcpFixed : List DhcpStore :=
  [(0, data.take dhcpPacketSize), (0, [if dhcpSiaddrZero data then 2 else 4]), (8, [0, 0]),
    (10, [0, 0]), (12, [0, 0, 0, 0]), (16, [10, 1, 10, 2]), (20, [10, 1, 10, 1]),
    (24, [0, 0, 0, 0])]

/-- `response + sizeof(struct dhcp_packet)`: the pointer counts packets. -/
def dhcpOptions : Nat := dhcpPacketSize * dhcpPacketSize

/-- The stores behind `options`, each at `idx` and before the next. -/
def dhcpAppend : Nat → List (List UInt8) → List DhcpStore
  | _, [] => []
  | idx, bytes :: rest => (dhcpOptions + idx, bytes) :: dhcpAppend (idx + bytes.length) rest

/-- The lease time is stored as a `uint32_t` of the host. -/
def dhcpAppended : List (List UInt8) :=
  [[53], [1], [if dhcpSiaddrZero data then 2 else 5], [1], [4], [255, 255, 255, 0], [3], [4],
    [10, 1, 10, 1], [51], [4], hostWord 3600 ++ hostWord 0, [54], [4], [10, 1, 10, 1], [6], [4],
    [8, 8, 8, 8], [255]]

def dhcpStores : List DhcpStore :=
  if isDhcp data ∧ data.getD 0 0 = 1 then dhcpFixed data ++ dhcpAppend 0 (dhcpAppended data)
  else []

/-- The zeroed block after the stores, those behind its end included. -/
def dhcpBlock : Nat → UInt8 := Wire.stores (fun _ => 0) (dhcpStores data)

end Stores

section Block
variable {data : List UInt8}

theorem dhcpAppend_behind (idx : Nat) (bs : List (List UInt8)) :
    ∀ w ∈ dhcpAppend idx bs, dhcpOptions ≤ w.1 := by
  induction bs generalizing idx with
  | nil => simp [dhcpAppend]
  | cons bytes rest ih => exact List.forall_mem_cons.mpr ⟨Nat.le_add_right .., ih _⟩

/-- Before the options the block is what the fixed part left. -/
theorem at_dhcpBlock (hdhcp : isDhcp data = true) (hopcode : data.getD 0 0 = 1) {i : Nat}
    {l : List UInt8} (hi : i + l.length ≤ dhcpOptions) :
    Wire.At (dhcpBlock data) i l ↔ Wire.At (Wire.stores (fun _ => 0) (dhcpFixed data)) i l := by
  rw [dhcpBlock, dhcpStores, if_pos ⟨hdhcp, hopcode⟩, Wire.stores, List.foldl_append]
  apply Wire.at_stores_of_disjoint
  intro w hw
  exact .inl (Nat.le_trans hi (dhcpAppend_behind 0 _ w hw))

/-- What the block keeps of the request: the bytes that are not stored over. -/
theorem at_dhcpFixed {i n : Nat}
    (hover : ∀ w ∈ (dhcpFixed data).tail, i + n ≤ w.1 ∨ w.1 + w.2.length ≤ i) :
    Wire.At (Wire.stores (fun _ => 0) (dhcpFixed data)) i
      (((data.take dhcpPacketSize).drop i).take n) := by
  have hcopied := (Wire.at_store_self (fun _ => 0) 0 (data.take dhcpPacketSize)).drop i
  rw [Nat.zero_add] at hcopied
  apply (Wire.at_stores_of_disjoint ?_).mpr (hcopied.take n)
  intro w hw
  have hlength := List.length_take_le n ((data.take dhcpPacketSize).drop i)
  exact (hover w hw).imp_left fun h => Nat.le_trans (Nat.add_le_add_left hlength i) h

theorem dhcpResponse_at (hlength : dhcpPacketSize ≤ data.length) :
    Wire.At (Wire.stores (fun _ => 0) (dhcpFixed data)) 0 (dhcpResponse data) := by
  have hstart : (data.take 8).drop 1 = ((data.take dhcpPacketSize).drop 1).take 7 := by
    simp [List.drop_take, List.take_take, dhcpPacketSize]
  have hend : (data.take dhcpPacketSize).drop 28 =
      ((data.take dhcpPacketSize).drop 28).take 212 := by
    simp [List.drop_take, List.take_take, dhcpPacketSize]
  have hstart_length : ((data.take 8).drop 1).length = 7 := by
    simp only [dhcpPacketSize] at hlength
    simp
    omega
  have hend_length : ((data.take dhcpPacketSize).drop 28).length = 212 := by
    simp only [dhcpPacketSize] at hlength ⊢
    simp
    omega
  simp only [dhcpResponse, dhcpHeader, Wire.at_append, List.length_append, hstart_length, hend_length]
  refine ⟨⟨⟨⟨⟨⟨⟨⟨?_, ?_⟩, ?_⟩, ?_⟩, ?_⟩, ?_⟩, ?_⟩, ?_⟩, ?_⟩
  · exact Wire.at_stores 1 rfl (by simp [dhcpFixed])
  · rw [hstart]
    exact at_dhcpFixed (by simp [dhcpFixed])
  · exact (Wire.at_append (l := [0, 0])).mpr ⟨Wire.at_stores 2 rfl (by simp [dhcpFixed]),
      Wire.at_stores 3 rfl (by simp [dhcpFixed])⟩
  · exact Wire.at_stores 4 rfl (by simp [dhcpFixed])
  · exact Wire.at_stores 5 rfl (by simp [dhcpFixed])
  · exact Wire.at_stores 6 rfl (by simp [dhcpFixed])
  · exact Wire.at_stores 7 rfl (by simp [dhcpFixed])
  · rw [hend]
    exact at_dhcpFixed (by simp [dhcpFixed])
  · apply (Wire.at_stores_of_disjoint ?_).mpr (Wire.at_replicate (fun _ => rfl) _)
    have hmin : min 240 data.length ≤ 240 := Nat.min_le_left 240 data.length
    simp [dhcpFixed, dhcpPacketSize, hmin, -List.reduceReplicate]

/-- The 500 bytes that are sent. -/
theorem map_dhcpBlock (hdhcp : isDhcp data = true) (hopcode : data.getD 0 0 = 1) :
    (List.range 500).map (dhcpBlock data) = dhcpResponse data := by
  have hlength : dhcpPacketSize ≤ data.length := by
    simp only [isDhcp, Bool.and_eq_true, decide_eq_true_eq] at hdhcp
    exact hdhcp.1.1.1
  have hsize : (dhcpResponse data).length = 500 := by
    simp only [dhcpPacketSize] at hlength
    simp [dhcpResponse, dhcpHeader, dhcpPacketSize, -List.reduceReplicate]
    omega
  have hat := (at_dhcpBlock hdhcp hopcode (by rw [hsize]; decide)).mpr (dhcpResponse_at hlength)
  have hread := hat.map_range
  rw [hsize] at hread
  simpa using hread

end Block

section Reply

/-- Options as they are sent: code, length and value, and the end. -/
def encodeOptions : List (UInt8 × List UInt8) → List UInt8
  | [] => [255]
  | (code, value) :: options => code :: UInt8.ofNat value.length :: value ++ encodeOptions options

/-- The bytes are a BOOTP reply to the request, with its six options from 240 on. -/
structure DhcpReply (request bytes : List UInt8) : Prop where
  opcode : bytes.take 1 = [2]
  xid : (bytes.drop 4).take 4 = (request.drop 4).take 4
  chaddr : (bytes.drop 28).take 16 = (request.drop 28).take 16
  magic : (bytes.drop 236).take 4 = dhcpMagicNumber
  options : ∃ message, encodeOptions [(53, [message]), (1, [255, 255, 255, 0]),
    (3, [10, 1, 10, 1]), (51, Wire.be32 3600), (54, [10, 1, 10, 1]), (6, [8, 8, 8, 8])] <+:
      bytes.drop 240

/-- Every byte that is stored lies in the 500 bytes of the block. -/
def DhcpInside (data : List UInt8) : Prop := ∀ w ∈ dhcpStores data, w.1 + w.2.length ≤ 500

/-- What `check_dhcp` writes to the tun replies to the request. -/
def DhcpReplies (env : Env) (data : List UInt8) (d : Datagram) : Prop :=
  ∀ packet written, .tun packet written ∈ (checkDhcp env data d).1.out.drop d.out.length →
    ∃ cur bytes, packet = .udp cur bytes ∧ DhcpReply data bytes

/-- A request of a client: long enough, with the magic number, from Ethernet. -/
structure DhcpRequest (data : List UInt8) : Prop where
  length : dhcpPacketSize ≤ data.length
  magic : (data.drop 236).take 4 = dhcpMagicNumber
  htype : data.getD 1 0 = 1
  opcode : data.getD 0 0 = 1

end Reply

section Answer
variable {env : Env} {data : List UInt8} {d : Datagram}

theorem DhcpRequest.isDhcp_iff (h : DhcpRequest data) : isDhcp data = true ↔ data.getD 2 0 = 6 := by
  simp [isDhcp, h.length, h.magic, h.htype, -List.getD_eq_getElem?_getD]

/-- What `check_dhcp` gets right, and that a reply to a request which names its server is none. -/
theorem DhcpRequest.fixed (h : DhcpRequest data) :
    ((dhcpResponse data).drop 4).take 4 = (data.drop 4).take 4 ∧
      ((dhcpResponse data).drop 28).take 16 = (data.drop 28).take 16 ∧
      ((dhcpResponse data).drop 236).take 4 = dhcpMagicNumber ∧
      ((dhcpResponse data).take 1 = [2] ↔ dhcpSiaddrZero data = true) ∧
      (dhcpResponse data).drop 240 = List.replicate 260 0 := by
  have hlength := h.length
  have hmagic := h.magic
  simp only [dhcpPacketSize] at hlength
  have hstart : min 7 (data.length - 1) = 7 := Nat.min_eq_left (by omega)
  have hend : min 212 (data.length - 28) = 212 := Nat.min_eq_left (by omega)
  have hxid : min 4 (data.length - 4) = 4 := Nat.min_eq_left (by omega)
  simp only [dhcpResponse, dhcpHeader, dhcpPacketSize]
  refine ⟨?_, ?_, ?_, ?_, ?_⟩
  · simp [-List.reduceReplicate, List.drop_append, List.drop_take, hstart, hxid]
  · simp [-List.reduceReplicate, List.drop_append, List.take_append, List.drop_take, List.take_take,
      hstart, hend]
  · simp [-List.reduceReplicate, List.drop_append, List.drop_take, hstart, hend, hmagic,
      dhcpMagicNumber]
  · simp [-List.reduceReplicate]
  · simp [-List.reduceReplicate, List.drop_append, List.drop_take, hstart, hend]

/-- The first option is stored far behind the block. -/
theorem DhcpRequest.outside (h : DhcpRequest data) (hlen : data.getD 2 0 = 6) :
    ¬ DhcpInside data := by
  intro hinside
  have hstored : (dhcpOptions, [53]) ∈ dhcpStores data := by
    rw [dhcpStores, if_pos ⟨h.isDhcp_iff.mpr hlen, h.opcode⟩]
    exact List.mem_append_right _ List.mem_cons_self
  exact absurd (hinside _ hstored) (by decide)

theorem DhcpRequest.replies (h : DhcpRequest data) (hlen : data.getD 2 0 = 6) :
    ¬ DhcpReplies env data d := by
  intro hreplies
  have hwritten : ∃ cur written,
      (checkDhcp env data d).1.out = d.out ++ [.tun (.udp cur (dhcpResponse data)) written] := by
    simp only [checkDhcp, h.isDhcp_iff.mpr hlen, h.opcode, Bool.not_true, Bool.false_eq_true,
      if_false, if_true]
    exact ⟨_, _, rfl⟩
  obtain ⟨cur, written, hout⟩ := hwritten
  obtain ⟨cur', bytes, hpacket, hreply⟩ := hreplies (.udp cur (dhcpResponse data)) written
    (by simp [hout])
  obtain ⟨-, rfl⟩ := TunPacket.udp.inj hpacket
  -- the place of the options holds zeros
  obtain ⟨message, rest, hoptions⟩ := hreply.options
  rw [h.fixed.2.2.2.2] at hoptions
  have hfirst : (53 : UInt8) = 0 := (List.cons.inj hoptions).1
  exact absurd hfirst (by decide)

/-- `check_dhcp` meets its purpose only where it does not answer: a request with an address of
6 bytes, that of Ethernet, gets its options stored behind the block and not sent. -/
theorem DhcpRequest.answers_iff (env : Env) (d : Datagram) (h : DhcpRequest data) :
    (DhcpInside data ↔ data.getD 2 0 ≠ 6) ∧ (DhcpReplies env data d ↔ data.getD 2 0 ≠ 6) := by
  have hsilent (hlen : data.getD 2 0 ≠ 6) : isDhcp data = false := by
    rw [← Bool.not_eq_true, h.isDhcp_iff]
    exact hlen
  refine ⟨⟨fun hinside hlen => h.outside hlen hinside, ?_⟩,
    ⟨fun hreplies hlen => h.replies hlen hreplies, ?_⟩⟩
  · intro hlen
    simp [DhcpInside, dhcpStores, hsilent hlen]
  · intro hlen
    simp [DhcpReplies, checkDhcp, hsilent hlen]

/-- A client that broadcasts its discovery. -/
def dhcpDiscover : List UInt8 :=
  [1, 1, 6, 0, 222, 173, 190, 239] ++ List.replicate 228 0 ++ dhcpMagicNumber

theorem dhcpDiscover_request : DhcpRequest dhcpDiscover :=
  ⟨by decide +kernel, by decide +kernel, by decide +kernel, by decide +kernel⟩

def Datagram.discovering : Datagram :=
  ⟨udpSession .calm ⟨⟨.v4, [0, 0, 0, 0], [255, 255, 255, 255]⟩, 68, 67⟩ 1000 [], 7, []⟩

theorem DhcpRequest.answers_discover :
    (DhcpInside dhcpDiscover ↔ dhcpDiscover.getD 2 0 ≠ 6) ∧
      (DhcpReplies .calm dhcpDiscover .discovering ↔ dhcpDiscover.getD 2 0 ≠ 6) :=
  answers_iff .calm .discovering dhcpDiscover_request

theorem DhcpRequest.not_answers :
    ¬ ∀ (env : Env) (data : List UInt8) (d : Datagram), DhcpRequest data →
      DhcpInside data ∧ DhcpReplies env data d := by
  intro h
  have hinside := (h .calm dhcpDiscover .discovering dhcpDiscover_request).1
  exact dhcpDiscover_request.outside (by decide +kernel) hinside

end Answer

end NetGuard.Engine
