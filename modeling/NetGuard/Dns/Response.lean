import NetGuard.Dns.Decoding
import NetGuard.Dns.Records

/-! # Responses that are reported exactly

A response of the standard as its bytes: the header, a question, and records one behind the other.
Where no name is labels and then a pointer, each record is found, and those with an address are
reported.
-/
namespace NetGuard.Engine
open Wire

section Format

/-- A record of the standard, with the data that its address needs. -/
structure ResourceRecord where
  name : List Label
  qtype : Nat
  qclass : Nat
  ttl : Nat
  rdata : List UInt8
  qtype_lt : qtype < 65536
  qclass_lt : qclass < 65536
  ttl_lt : ttl < 2 ^ 31
  rdlength_lt : rdata.length < 65536
  address : ∀ v, addressVersion qtype qclass = some v → rdata.length = addressSize v

/-- The fixed header behind the name, and the data. -/
def ResourceRecord.fixed (r : ResourceRecord) : List UInt8 :=
  be16 r.qtype ++ be16 r.qclass ++ be32 r.ttl ++ be16 r.rdata.length

/-- The call for a record of class IN and type A or AAAA. -/
def ResourceRecord.resolved (question : List Label) (inetNtop : List UInt8 → List UInt8) (uid : Int)
    (r : ResourceRecord) : Option Resolved :=
  (addressVersion r.qtype r.qclass).map fun _ =>
    ⟨dotted question, dotted r.name, inetNtop r.rdata, r.ttl, uid⟩

variable (data : Nat → UInt8) (datalen : Nat)

/-- A name that is labels only or a pointer at once, and that is also a string. -/
structure OwnerName (off : Nat) (ls : List Label) (stop : Nat) : Prop extends
    EncodedName data datalen off ls stop where
  shape : ¬ LabelsThenPointer data off
  text : ∀ l ∈ ls, 0 ∉ l

/-- Records one behind the other from an offset on. -/
inductive AnswersAt : Nat → List ResourceRecord → Prop
  | nil (off : Nat) : AnswersAt off []
  | cons {off stop : Nat} {r : ResourceRecord} {rs : List ResourceRecord}
      (hname : OwnerName data datalen off r.name stop) (hrecord : At data stop (r.fixed ++ r.rdata))
      (hroom : stop + 10 + r.rdata.length ≤ datalen)
      (hrest : AnswersAt (stop + 10 + r.rdata.length) rs) : AnswersAt off (r :: rs)

/-- A standard response with one question, whose name has one of these shapes as well. -/
structure StandardResponse (question : List Label) (rs : List ResourceRecord) : Prop where
  response : (dnsHeader data).qr = 1
  standard : (dnsHeader data).opcode = 0
  questions : (dnsHeader data).qcount = 1
  answers : (dnsHeader data).acount = rs.length
  layout : ∃ stop, OwnerName data datalen dnsHeaderSize question stop ∧ stop + 4 ≤ datalen ∧
    AnswersAt data datalen (stop + 4) rs

end Format

section Exact
variable {data : Nat → UInt8} {datalen off stop count : Nat} {ls : List Label}
  {r : ResourceRecord} {rs : List ResourceRecord}

theorem OwnerName.off_lt (h : OwnerName data datalen off ls stop) : off < datalen := by
  obtain ⟨n, -, hname⟩ := h.name
  exact hname.lt

/-- The offset survives as a `uint16_t`. -/
theorem OwnerName.toNat_off (h : OwnerName data datalen off ls stop) :
    (UInt16.ofNat off).toNat = off := by
  have hoff := h.off_lt
  have hmessage := h.message
  rw [UInt16.toNat_ofNat']
  omega

theorem OwnerName.stop_pos (h : OwnerName data datalen off ls stop) : 0 < stop := by
  obtain ⟨n, -, hname⟩ := h.name
  exact hname.stop_pos

theorem OwnerName.nameEnd (h : OwnerName data datalen off ls stop) (hroom : stop + count ≤ datalen) :
    NameEnd data datalen off count stop := by
  have hencoded := h.toEncodedName
  rw [← h.toNat_off] at hencoded
  have hend := (hencoded.end_iff fun _ => 0).mpr (by rw [h.toNat_off]; exact h.shape)
  obtain ⟨found, hfound, rfl⟩ := Option.map_eq_some_iff.mp hend
  exact (nameEnd_iff _).mpr ⟨found, hfound, rfl, h.stop_pos, hroom⟩

theorem OwnerName.string (h : OwnerName data datalen off ls stop) (name : Buffer) :
    bufferString (nameText data datalen off name) = dotted ls := by
  have hencoded := h.toEncodedName
  rw [← h.toNat_off] at hencoded
  exact (hencoded.string_iff name).mpr h.text

/-- What the loop reads behind a name is the record. -/
structure ReadAs (data : Nat → UInt8) (p : Nat) (r : ResourceRecord) : Prop where
  version : recordVersion data p = addressVersion r.qtype r.qclass
  ttl : asInt (dnsLong data (p + 4)) = r.ttl
  rdlength : word data (p + 8) = r.rdata.length
  rdata : At data (p + 10) r.rdata

theorem readAs_of_at (h : At data stop (r.fixed ++ r.rdata)) : ReadAs data stop r := by
  simp only [ResourceRecord.fixed, at_append, List.length_append, length_be16, length_be32] at h
  obtain ⟨⟨⟨⟨hqtype, hqclass⟩, httl⟩, hrdlength⟩, hrdata⟩ := h
  have hsmall := r.ttl_lt
  refine ⟨?_, ?_, word_of_at hrdlength r.rdlength_lt, hrdata⟩
  · rw [recordVersion, word_of_at hqtype r.qtype_lt, word_of_at hqclass r.qclass_lt]
  · rw [dnsLong, words_of_at httl (by omega), asInt, UInt32.toNat_ofNat']
    have hmod : r.ttl % 2 ^ 32 = r.ttl := Nat.mod_eq_of_lt (by omega)
    rw [hmod, if_pos hsmall]

variable {question : List Label} {inetNtop : List UInt8 → List UInt8} {uid : Int}

/-- A record that is read makes the call that it should. -/
theorem ReadAs.resolved (h : ReadAs data stop r) {text : Buffer}
    (htext : bufferString text = dotted r.name) :
    ((recordVersion data stop).toList.map (recordAnswer data stop text)).map
        (resolvedCall data (dotted question) inetNtop uid) =
      (r.resolved question inetNtop uid).toList := by
  rw [h.version, ResourceRecord.resolved]
  cases hversion : addressVersion r.qtype r.qclass with
  | none => rfl
  | some v =>
    have haddress : (recordAnswer data stop text v).address data = r.rdata := by
      rw [DnsAnswer.address, DnsAnswer.size_recordAnswer, ← r.address v hversion]
      exact h.rdata.map_range
    have hname : (recordAnswer data stop text v).name = dotted r.name := htext
    have httl : asInt (recordAnswer data stop text v).ttl = r.ttl := h.ttl
    simp only [Option.toList_some, List.map_singleton, Option.map_some, resolvedCall, haddress,
      hname, httl]

/-- The loop over the answers makes the calls of the records. -/
theorem dnsAnswers_exact (h : AnswersAt data datalen off rs) (name : Buffer) :
    (dnsAnswers data datalen rs.length off name).map
        (resolvedCall data (dotted question) inetNtop uid) =
      rs.filterMap (ResourceRecord.resolved question inetNtop uid) := by
  induction h generalizing name with
  | nil => rfl
  | @cons off stop r rs hname hrecord hroom hrest ih =>
    have hread := readAs_of_at hrecord
    have hend : recordEnd data stop = stop + 10 + r.rdata.length := by
      rw [recordEnd, hread.rdlength]
    have hfits : RecordFits data datalen stop := by
      refine ⟨hend ▸ hroom, ?_⟩
      intro v hv
      rw [hread.version] at hv
      rw [← r.address v hv]
      exact hroom
    have hstart : NameEnd data datalen off 10 stop := hname.nameEnd (by omega)
    rw [List.length_cons, dnsAnswers_of_fits hstart hfits, hend, List.map_append, ih,
      hread.resolved (hname.string name)]
    cases hcall : r.resolved question inetNtop uid with
    | none => rw [List.filterMap_cons_none hcall]; rfl
    | some call => rw [List.filterMap_cons_some hcall]; rfl

/-- The calls for a standard response are those of its address records, in their order. -/
theorem parseDnsResponse_exact (h : StandardResponse data datalen question rs)
    (inetNtop : List UInt8 → List UInt8) (name : Buffer) (uid : Int) :
    parseDnsResponse data datalen inetNtop name uid =
      rs.filterMap (ResourceRecord.resolved question inetNtop uid) := by
  obtain ⟨stop, hquestion, hroom, hanswers⟩ := h.layout
  have hlong : dnsHeaderSize < datalen := hquestion.off_lt
  have hfound := dnsQuestion_of_name (hquestion.nameEnd hroom) name
  have hresolved : resolvedAnswers data datalen name =
      dnsAnswers data datalen rs.length (stop + 4) (nameText data datalen dnsHeaderSize name) := by
    unfold resolvedAnswers
    by_cases hnone : rs = []
    · have hcount : ¬ 0 < (dnsHeader data).acount := by simp [h.answers, hnone]
      simp [isDnsAnswer, hcount, hnone, dnsAnswers]
    · have hcount : 0 < (dnsHeader data).acount := by
        rw [h.answers]
        exact List.length_pos_iff.mpr hnone
      have hanswer : isDnsAnswer data datalen = true := by
        simp only [isDnsAnswer, Bool.and_eq_true, decide_eq_true_eq, beq_iff_eq]
        exact ⟨⟨⟨⟨hlong, h.response⟩, h.standard⟩, by rw [h.questions]; exact Nat.one_pos⟩, hcount⟩
      rw [if_pos hanswer, hfound, ← h.answers]
  rw [parseDnsResponse_eq, hfound, hresolved, Option.toList_some, List.flatMap_singleton,
    hquestion.string]
  exact dnsAnswers_exact hanswers _

/-- A response with the name "a", an A record that points to it and a TXT record. -/
def sampleResponse : Nat → UInt8 :=
  fun i => ([0, 0, 0x80, 0, 0, 1, 0, 2, 0, 0, 0, 0] ++ [1, 97, 0, 0, 1, 0, 1] ++
    [0xC0, 12, 0, 1, 0, 1, 0, 0, 0, 60, 0, 4, 1, 2, 3, 4] ++
    [1, 97, 0, 0, 16, 0, 1, 0, 0, 0, 60, 0, 0] : List UInt8).getD i 0

def sampleRecords : List ResourceRecord :=
  [⟨[[97]], 1, 1, 60, [1, 2, 3, 4], by decide, by decide, by decide, by decide, by decide⟩,
    ⟨[[97]], 16, 1, 60, [], by decide, by decide, by decide, by decide, by decide⟩]

theorem sample_label {p : Nat} (h : p = 12 ∨ p = 35) :
    NameAt sampleResponse 48 p [[97]] 1 (p + 3) := by
  rcases h with rfl | rfl <;>
    exact .label (by decide) (by decide) (.root (by decide) (by decide))

theorem sample_name {p : Nat} (h : p = 12 ∨ p = 35) :
    OwnerName sampleResponse 48 p [[97]] (p + 3) := by
  refine ⟨⟨by decide, ⟨1, by decide, sample_label h⟩, by decide, by decide⟩, ?_, by decide⟩
  rintro ⟨q, hq, hlabels, hmark⟩
  rcases h with rfl | rfl
  all_goals
    cases hlabels with
    | refl => exact absurd hq (Nat.lt_irrefl _)
    | label _ _ hrest =>
      cases hrest with
      | refl => exact absurd hmark (by decide)
      | label _ hsome => exact absurd rfl hsome

theorem sample_pointer : OwnerName sampleResponse 48 19 [[97]] 21 := by
  have hname : NameAt sampleResponse 48 19 [[97]] 2 21 :=
    .pointer (by decide) (by decide) (sample_label (.inl rfl))
  refine ⟨⟨by decide, ⟨2, by decide, hname⟩, by decide, by decide⟩, ?_, by decide⟩
  rintro ⟨q, hq, hlabels, -⟩
  cases hlabels with
  | refl => exact absurd hq (Nat.lt_irrefl _)
  | label hlen => exact absurd hlen (by decide)

theorem sample_standard : StandardResponse sampleResponse 48 [[97]] sampleRecords where
  response := by decide
  standard := by decide
  questions := by decide
  answers := by decide
  layout := by
    refine ⟨15, sample_name (.inl rfl), by decide, ?_⟩
    refine .cons sample_pointer (by decide) (by decide) ?_
    exact .cons (sample_name (.inr rfl)) (by decide) (by decide) (.nil 48)

/-- The address is reported with its name, its text and its 60 seconds. -/
theorem parseDnsResponse_sample :
    parseDnsResponse sampleResponse 48 (fun _ => [49, 46, 50, 46, 51, 46, 52]) (fun _ => 255) 1000 =
      [⟨[97], [97], [49, 46, 50, 46, 51, 46, 52], 60, 1000⟩] :=
  (parseDnsResponse_exact sample_standard _ _ _).trans (by decide)

end Exact

end NetGuard.Engine
