import NetGuard.Dns.Records
import NetGuard.Library.Footprint

/-! # What the decoding of names and responses reads and writes

The bytes of the message that are read and those of the buffers that are written, in the order of
the source and behind its tests.
-/
namespace NetGuard.Engine
open Wire Footprint

section Name
variable (data : Nat → UInt8) (datalen : Nat)

/-- Where the pointer at the position of the loop leads to. -/
def QName.target (s : QName) : Nat :=
  (s.len &&& 0x3F).toNat * 256 + (data (s.ptr.toNat + 1)).toNat

def QName.atPointer (s : QName) : Prop := s.ptr.toNat + 1 < datalen ∧ s.len &&& 0xC0 ≠ 0

instance (s : QName) : Decidable (s.atPointer datalen) := inferInstanceAs (Decidable (_ ∧ _))

def QName.labelFits (s : QName) : Prop :=
  s.ptr.toNat + 1 + s.len.toNat < datalen ∧ s.noff.toNat + s.len.toNat ≤ dnsQnameMax

instance (s : QName) : Decidable (s.labelFits datalen) := inferInstanceAs (Decidable (_ ∧ _))

/-- The reads of a turn behind the length byte that it begins with. -/
def qnameTurnReads (s : QName) : List Range :=
  if s.atPointer datalen then
    ⟨s.ptr.toNat + 1, 1⟩ :: guarded (s.target data < datalen) [⟨s.target data, 1⟩]
  else guarded (s.labelFits datalen) (⟨s.ptr.toNat + 1, s.len.toNat⟩ ::
    guarded ((s.ptr.toNat + 1 + s.len.toNat) % 65536 < datalen)
      [⟨(s.ptr.toNat + 1 + s.len.toNat) % 65536, 1⟩])

def qnameTurnWrites (s : QName) : List Range :=
  guarded (¬ s.atPointer datalen ∧ s.labelFits datalen)
    [⟨s.noff.toNat, s.len.toNat⟩, ⟨s.noff.toNat + s.len.toNat, 1⟩]

/-- The states that the turns of the loop begin with. -/
def qnameStates : Nat → QName → List QName
  | 0, _ => []
  | turns + 1, s =>
    if s.len = 0 then []
    else s ::
      match qnameTurn data datalen s with
      | (s, true) => qnameStates turns s
      | (_, false) => []

def getQnameReads (off : UInt16) (qname : Buffer) : List Range :=
  guarded (off.toNat < datalen) (⟨off.toNat, 1⟩ ::
    (qnameStates data datalen qnameTurns (QName.start data off qname)).flatMap
      (qnameTurnReads data datalen))

/-- The write of the terminator behind the loop. -/
def qnameLeftWrites (s : QName) : List Range :=
  guarded (¬ (s.len > 0 ∨ s.noff = 0)) [⟨s.noff.toNat - 1, 1⟩]

/-- The state that the loop is left in. -/
def QName.left (off : UInt16) (qname : Buffer) : QName :=
  qnameLoop data datalen qnameTurns (QName.start data off qname)

def getQnameWrites (off : UInt16) (qname : Buffer) : List Range :=
  [⟨0, 1⟩] ++ guarded (off.toNat < datalen)
    ((qnameStates data datalen qnameTurns (QName.start data off qname)).flatMap
      (qnameTurnWrites datalen) ++ qnameLeftWrites (QName.left data datalen off qname))

end Name

section Turns
variable {data data' : Nat → UInt8} {datalen turns : Nat} {s : QName} {off : UInt16} {qname : Buffer}

theorem length_qnameStates_le (data : Nat → UInt8) (datalen turns : Nat) (s : QName) :
    (qnameStates data datalen turns s).length ≤ turns := by
  induction turns generalizing s with
  | zero => exact Nat.le_refl 0
  | succ turns ih =>
    rw [qnameStates]
    split
    · exact Nat.zero_le _
    rw [List.length_cons]
    split
    next s' _ => exact Nat.succ_le_succ (ih s')
    next => exact Nat.succ_le_succ (Nat.zero_le turns)

theorem below_qnameTurnReads : Below (qnameTurnReads data datalen s) datalen := by
  unfold qnameTurnReads
  split
  next hpointer =>
    simp only [below_cons, below_guarded, below_nil, and_true, Range.below_iff Nat.one_pos]
    exact ⟨hpointer.1, id⟩
  next =>
    simp only [below_cons, below_guarded, below_nil, and_true, Range.below_iff Nat.one_pos]
    intro hfits
    have hlabel := hfits.1
    refine ⟨?_, id⟩
    intro i hi
    simp only at hi ⊢
    omega

theorem below_qnameTurnWrites : Below (qnameTurnWrites datalen s) (dnsQnameMax + 1) := by
  simp only [qnameTurnWrites, below_guarded, below_cons, below_nil, and_true,
    Range.below_iff Nat.one_pos]
  rintro ⟨-, -, hroom⟩
  refine ⟨?_, Nat.succ_le_succ hroom⟩
  intro i hi
  simp only at hi ⊢
  omega

theorem below_getQnameReads : Below (getQnameReads data datalen off qname) datalen := by
  simp only [getQnameReads, below_guarded, below_cons, below_flatMap, Range.below_iff Nat.one_pos]
  exact fun hinside => ⟨hinside, fun s _ => below_qnameTurnReads⟩

theorem below_getQnameWrites : Below (getQnameWrites data datalen off qname) (dnsQnameMax + 1) := by
  simp only [getQnameWrites, qnameLeftWrites, below_guarded, below_cons, below_append,
    below_flatMap, below_nil, and_true, Range.below_iff Nat.one_pos]
  refine ⟨Nat.le_add_left _ _, fun _ => ⟨fun s _ => below_qnameTurnWrites, fun _ => ?_⟩⟩
  have hnoff := (QName.left data datalen off qname).noff.toNat_lt
  rw [dnsQnameMax]
  omega

end Turns

section Agreement
variable {data data' : Nat → UInt8} {datalen turns : Nat} {s : QName} {off : UInt16} {qname : Buffer}

theorem qnameTurn_agree (h : Agree (qnameTurnReads data datalen s) data data') :
    qnameTurn data datalen s = qnameTurn data' datalen s := by
  unfold qnameTurnReads at h
  unfold qnameTurn
  by_cases hpointer : s.atPointer datalen
  · rw [if_pos hpointer, agree_cons, agree_guarded] at h
    obtain ⟨hsecond, hnext⟩ := h
    have hsecond : data (s.ptr.toNat + 1) = data' (s.ptr.toNat + 1) := hsecond 0 Nat.one_pos
    have hpointer' : s.ptr.toNat + 1 < datalen ∧ s.len &&& 0xC0 ≠ 0 := hpointer
    rw [if_pos hpointer', if_pos hpointer', ← hsecond]
    dsimp only
    split
    · rfl
    next hjump =>
      have hlen := (agree_cons.mp (hnext (Nat.not_le.mp hjump))).1 0 Nat.one_pos
      rw [QName.target, Nat.add_zero] at hlen
      rw [hlen]
  · rw [if_neg hpointer, agree_guarded] at h
    have hpointer' : ¬ (s.ptr.toNat + 1 < datalen ∧ s.len &&& 0xC0 ≠ 0) := hpointer
    rw [if_neg hpointer', if_neg hpointer']
    split
    next hfits =>
      have h := h hfits
      rw [agree_cons, agree_guarded] at h
      obtain ⟨hlabel, hnext⟩ := h
      have hmap : (List.range s.len.toNat).map (fun k => data (s.ptr.toNat + 1 + k)) =
          (List.range s.len.toNat).map fun k => data' (s.ptr.toNat + 1 + k) :=
        List.map_congr_left fun k hk => hlabel k (List.mem_range.mp hk)
      simp only [hmap, UInt16.toNat_ofNat', show 2 ^ 16 = 65536 from rfl]
      split
      · rfl
      next hjump =>
        have hlen := (agree_cons.mp (hnext (Nat.not_le.mp hjump))).1 0 Nat.one_pos
        rw [Nat.add_zero] at hlen
        rw [hlen]
    next => rfl

theorem qnameLoop_agree
    (h : Agree ((qnameStates data datalen turns s).flatMap (qnameTurnReads data datalen)) data data') :
    qnameLoop data datalen turns s = qnameLoop data' datalen turns s := by
  induction turns generalizing s with
  | zero => rfl
  | succ turns ih =>
    rw [qnameStates] at h
    rw [qnameLoop, qnameLoop]
    split
    · rfl
    next hsome =>
      rw [if_neg hsome, List.flatMap_cons, agree_append] at h
      obtain ⟨hturn, hrest⟩ := h
      rw [← qnameTurn_agree hturn]
      cases hnext : qnameTurn data datalen s with
      | mk s' on =>
        rw [hnext] at hrest
        cases on with
        | true => exact ih hrest
        | false => rfl

theorem getQname_agree (h : Agree (getQnameReads data datalen off qname) data data') :
    getQname data datalen off qname = getQname data' datalen off qname := by
  simp only [getQnameReads, agree_guarded, agree_cons] at h
  by_cases hinside : off.toNat < datalen
  · obtain ⟨hlen, hloop⟩ := h hinside
    have hlen : data off.toNat = data' off.toNat := hlen 0 Nat.one_pos
    have hstart : QName.start data off qname = QName.start data' off qname := by
      rw [QName.start, QName.start, hlen]
    rw [getQname_eq hinside, getQname_eq hinside, qnameLoop_agree hloop, hstart]
  · rw [getQname, getQname, if_pos (Nat.not_lt.mp hinside), if_pos (Nat.not_lt.mp hinside)]

end Agreement

section Written
variable {data : Nat → UInt8} {datalen turns : Nat} {s : QName} {off : UInt16} {qname : Buffer}

theorem frame_store {α : Type*} (m : Nat → α) (i : Nat) (l : List α) :
    Frame [⟨i, l.length⟩] m (store m i l) := by
  intro k hk
  exact store_of_outside (hk _ (List.mem_singleton_self _))

theorem frame_qnameTurn (data : Nat → UInt8) (datalen : Nat) (s : QName) :
    Frame (qnameTurnWrites datalen s) s.qname (qnameTurn data datalen s).1.qname := by
  unfold qnameTurn
  split
  · dsimp only
    split
    · exact Frame.refl _ _
    · cases s.c <;> exact Frame.refl _ _
  next hpointer =>
    split
    next hfits =>
      have hwrites : qnameTurnWrites datalen s =
          [⟨s.noff.toNat, s.len.toNat⟩] ++ [⟨s.noff.toNat + s.len.toNat, 1⟩] :=
        if_pos ⟨hpointer, hfits⟩
      have hlabel := frame_store s.qname s.noff.toNat
        ((List.range s.len.toNat).map fun k => data (s.ptr.toNat + 1 + k))
      rw [List.length_map, List.length_range] at hlabel
      rw [hwrites]
      dsimp only
      split
      · exact hlabel.trans (frame_store _ _ [46])
      · exact hlabel.trans (frame_store _ _ [46])
    · exact Frame.refl _ _

theorem frame_qnameLoop (data : Nat → UInt8) (datalen turns : Nat) (s : QName) :
    Frame ((qnameStates data datalen turns s).flatMap (qnameTurnWrites datalen)) s.qname
      (qnameLoop data datalen turns s).qname := by
  induction turns generalizing s with
  | zero => exact Frame.refl _ _
  | succ turns ih =>
    rw [qnameStates, qnameLoop]
    split
    · exact Frame.refl _ _
    · rw [List.flatMap_cons]
      have hturn := frame_qnameTurn data datalen s
      cases hnext : qnameTurn data datalen s with
      | mk s' on =>
        rw [hnext] at hturn
        cases on with
        | true => exact hturn.trans (ih s')
        | false => exact hturn.trans (Frame.refl _ _)

theorem frame_qnameLeft (s : QName) (stop : UInt16) : Frame (qnameLeftWrites s) s.qname
    (if s.len > 0 ∨ s.noff = 0 then (none, s.qname)
      else (some stop, store s.qname (s.noff.toNat - 1) [0])).2 := by
  unfold qnameLeftWrites
  split
  · exact Frame.refl _ _
  next hfound =>
    rw [guarded, if_pos hfound]
    exact frame_store s.qname _ [0]

theorem frame_getQname : Frame (getQnameWrites data datalen off qname) qname
    (getQname data datalen off qname).2 := by
  have hfirst : Frame [⟨0, 1⟩] qname (store qname 0 [0]) := frame_store qname 0 [0]
  unfold getQnameWrites
  by_cases hinside : off.toNat < datalen
  · rw [getQname_eq hinside, guarded, if_pos hinside]
    have hloop := frame_qnameLoop data datalen qnameTurns (QName.start data off qname)
    exact hfirst.trans (hloop.trans (frame_qnameLeft _ _))
  · rw [getQname, guarded, if_neg hinside, if_pos (Nat.not_lt.mp hinside)]
    exact hfirst

/-- Where an offset is returned, the text in the buffer has an end. -/
theorem getQname_terminated {stop : UInt16} (h : (getQname data datalen off qname).1 = some stop) :
    ∃ k ≤ dnsQnameMax, (getQname data datalen off qname).2 k = 0 := by
  obtain ⟨ls, root, c, htaken⟩ := taken_of_getQname h
  have htext := (getQname_of_taken htaken qname).2
  rw [at_append, at_cons, Nat.zero_add] at htext
  have hkept : (dots (keptLabels ls)).length ≤ dnsQnameMax :=
    length_dots_foldl_pushLabel (Nat.zero_le _) htaken.room
  rw [dots_eq htaken.kept, List.length_append, List.length_singleton] at hkept
  exact ⟨(dotted (keptLabels ls)).length, by omega, htext.2.1⟩

/-- The string in a buffer that has an end leaves room for it. -/
theorem length_bufferString_le {buf : Buffer} (h : ∃ k ≤ dnsQnameMax, buf k = 0) :
    (bufferString buf).length ≤ dnsQnameMax := by
  obtain ⟨k, hk, hzero⟩ := h
  by_contra hlong
  have hinit : bufferString buf <+: (List.range (dnsQnameMax + 1)).map buf :=
    List.takeWhile_prefix _
  have hall : bufferString buf = (List.range (dnsQnameMax + 1)).map buf := by
    apply hinit.eq_of_length_le
    rw [List.length_map, List.length_range]
    omega
  exact cString_eq_self_iff.mp hall
    (List.mem_map.mpr ⟨k, List.mem_range.mpr (Nat.lt_succ_of_le hk), hzero⟩)

/-- What keeps `get_qname` inside its buffers. -/
structure QnameSafe (data : Nat → UInt8) (datalen : Nat) (off : UInt16) (qname : Buffer) : Prop where
  turns : (qnameStates data datalen qnameTurns (QName.start data off qname)).length ≤ qnameTurns
  reads : Below (getQnameReads data datalen off qname) datalen
  only : ∀ data', Agree (getQnameReads data datalen off qname) data data' →
    getQname data datalen off qname = getQname data' datalen off qname
  writes : Below (getQnameWrites data datalen off qname) (dnsQnameMax + 1)
  rest : Frame (getQnameWrites data datalen off qname) qname (getQname data datalen off qname).2
  terminated : ∀ stop, (getQname data datalen off qname).1 = some stop →
    ∃ k ≤ dnsQnameMax, (getQname data datalen off qname).2 k = 0

theorem getQname_safe (data : Nat → UInt8) (datalen : Nat) (off : UInt16) (qname : Buffer) :
    QnameSafe data datalen off qname where
  turns := length_qnameStates_le data datalen qnameTurns _
  reads := below_getQnameReads
  only := fun _ => getQname_agree
  writes := below_getQnameWrites
  rest := frame_getQname
  terminated := fun _ => getQname_terminated

end Written

section Response
variable (data : Nat → UInt8) (datalen : Nat)

def dnsQuestionReads (name : Buffer) : List Range :=
  getQnameReads data datalen (UInt16.ofNat dnsHeaderSize) name ++
    (getQname data datalen (UInt16.ofNat dnsHeaderSize) name).1.toList.flatMap fun stop =>
      guarded (0 < stop.toNat ∧ stop.toNat + 4 ≤ datalen) [⟨stop.toNat, 2⟩, ⟨stop.toNat + 2, 2⟩]

/-- The reads of a record with the fixed header at a position. -/
def dnsRecordReads (p : Nat) : List Range :=
  [⟨p, 2⟩, ⟨p + 2, 2⟩, ⟨p + 4, 4⟩, ⟨p + 8, 2⟩] ++
    (recordVersion data p).toList.flatMap fun v =>
      guarded (recordEnd data p ≤ datalen ∧ p + 10 + addressSize v ≤ datalen)
        [⟨p + 10, addressSize v⟩]

/-- The reads of a turn of the loop over the answers. -/
def dnsTurnReads (off : Nat) (name : Buffer) : List Range :=
  getQnameReads data datalen (UInt16.ofNat off) name ++
    (getQname data datalen (UInt16.ofNat off) name).1.toList.flatMap fun stop =>
      guarded (0 < stop.toNat ∧ stop.toNat + 10 ≤ datalen) (dnsRecordReads data datalen stop.toNat)

/-- The offsets that the turns of the loop begin with, and the buffer. -/
def dnsTurns : Nat → Nat → Buffer → List (Nat × Buffer)
  | 0, _, _ => []
  | acount + 1, off, name =>
    (off, name) ::
      match getQname data datalen (UInt16.ofNat off) name with
      | (some off, name) =>
        if 0 < off.toNat ∧ off.toNat + 10 ≤ datalen then
          match dnsRecord data datalen off.toNat name with
          | .skipped off => dnsTurns acount off name
          | .answer _ off => dnsTurns acount off name
          | .invalid => []
        else []
      | (none, _) => []

/-- The turns for a response. -/
def responseTurns (name : Buffer) : List (Nat × Buffer) :=
  match dnsQuestion data datalen name with
  | some (_, off, name) => dnsTurns data datalen (dnsHeader data).acount off name
  | none => []

/-- All reads for a message of the length. -/
def parseDnsResponseReads (name : Buffer) : List Range :=
  guarded (13 ≤ datalen) ([⟨2, 2⟩, ⟨4, 2⟩, ⟨6, 2⟩] ++
    guarded (isDnsAnswer data datalen = true) (dnsQuestionReads data datalen name ++
      (responseTurns data datalen name).flatMap fun turn =>
        dnsTurnReads data datalen turn.1 turn.2))

end Response

section Inside
variable {data : Nat → UInt8} {datalen acount off p : Nat} {name : Buffer}

theorem length_dnsTurns_le : (dnsTurns data datalen acount off name).length ≤ acount := by
  induction acount generalizing off name with
  | zero => exact Nat.le_refl 0
  | succ acount ih =>
    rw [dnsTurns, List.length_cons]
    apply Nat.succ_le_succ
    split
    · split
      · split
        · exact ih
        · exact ih
        · exact Nat.zero_le _
      · exact Nat.zero_le _
    · exact Nat.zero_le _

theorem length_responseTurns_le :
    (responseTurns data datalen name).length ≤ (dnsHeader data).acount := by
  unfold responseTurns
  split
  · exact length_dnsTurns_le
  · exact Nat.zero_le _

theorem below_dnsRecordReads (hroom : p + 10 ≤ datalen) :
    Below (dnsRecordReads data datalen p) datalen := by
  simp only [dnsRecordReads, below_append, below_cons, below_nil, below_flatMap, below_guarded,
    and_true, Range.below_iff Nat.two_pos, Range.below_iff (show 0 < 4 by decide)]
  refine ⟨by omega, ?_⟩
  rintro v - ⟨-, haddress⟩ i hi
  simp only at hi ⊢
  omega

theorem below_dnsTurnReads : Below (dnsTurnReads data datalen off name) datalen := by
  simp only [dnsTurnReads, below_append, below_flatMap, below_guarded]
  exact ⟨below_getQnameReads, fun stop _ hroom => below_dnsRecordReads hroom.2⟩

theorem below_dnsQuestionReads : Below (dnsQuestionReads data datalen name) datalen := by
  simp only [dnsQuestionReads, below_append, below_flatMap, below_guarded, below_cons, below_nil,
    and_true, Range.below_iff Nat.two_pos]
  refine ⟨below_getQnameReads, fun stop _ hroom => ?_⟩
  omega

theorem below_parseDnsResponseReads : Below (parseDnsResponseReads data datalen name) datalen := by
  simp only [parseDnsResponseReads, below_append, below_flatMap, below_guarded, below_cons,
    below_nil, and_true, Range.below_iff Nat.two_pos]
  intro hlong
  exact ⟨by omega, fun _ => ⟨below_dnsQuestionReads, fun turn _ => below_dnsTurnReads⟩⟩

end Inside

section Result
variable {data data' : Nat → UInt8} {datalen acount off p : Nat} {name : Buffer}

theorem dnsRecord_agree (h : Agree (dnsRecordReads data datalen p) data data') :
    dnsRecord data datalen p name = dnsRecord data' datalen p name := by
  simp only [dnsRecordReads, agree_append, agree_cons] at h
  obtain ⟨⟨htype, hclass, httl, hlength, -⟩, -⟩ := h
  have hlong : dnsLong data (p + 4) = dnsLong data' (p + 4) := by
    have hhigh : word data (p + 4) = word data' (p + 4) :=
      word_congr fun k hk => httl k (by omega)
    have hlow : word data (p + 4 + 2) = word data' (p + 4 + 2) := by
      apply word_congr
      intro k hk
      have hbyte := httl (2 + k) (by omega)
      rwa [show p + 4 + (2 + k) = p + 4 + 2 + k by omega] at hbyte
    rw [dnsLong, dnsLong, hhigh, hlow]
  simp only [dnsRecord, word_congr htype, word_congr hclass, word_congr hlength, hlong]

/-- The bytes of an address are among the reads. -/
theorem address_agree {a : DnsAnswer} {next : Nat}
    (h : Agree (dnsRecordReads data datalen p) data data')
    (hanswer : dnsRecord data datalen p name = .answer a next) :
    a.address data = a.address data' := by
  rw [dnsRecord_eq] at hanswer
  split at hanswer
  next hend =>
    split at hanswer
    next v hversion =>
      split at hanswer
      next hroom =>
        cases hanswer
        simp only [dnsRecordReads, agree_append, hversion, Option.toList_some,
          List.flatMap_singleton, agree_guarded, agree_cons] at h
        obtain ⟨haddress, -⟩ := h.2 ⟨hend, hroom⟩
        apply List.map_congr_left
        intro k hk
        rw [List.mem_range, DnsAnswer.size_recordAnswer] at hk
        exact haddress k hk
      next => cases hanswer
    next => cases hanswer
  next => cases hanswer

theorem dnsAnswers_agree (h : Agree ((dnsTurns data datalen acount off name).flatMap fun turn =>
      dnsTurnReads data datalen turn.1 turn.2) data data') :
    dnsAnswers data datalen acount off name = dnsAnswers data' datalen acount off name ∧
      ∀ a ∈ dnsAnswers data datalen acount off name, a.address data = a.address data' := by
  induction acount generalizing off name with
  | zero => exact ⟨rfl, fun _ hnone => absurd hnone List.not_mem_nil⟩
  | succ acount ih =>
    rw [dnsTurns, List.flatMap_cons, agree_append, dnsTurnReads, agree_append] at h
    obtain ⟨⟨hname, hrecord⟩, hrest⟩ := h
    rw [dnsAnswers, dnsAnswers, ← getQname_agree hname]
    cases hfound : getQname data datalen (UInt16.ofNat off) name with
    | mk found text =>
      rw [hfound] at hrecord hrest
      cases found with
      | none => exact ⟨rfl, fun _ hnone => absurd hnone List.not_mem_nil⟩
      | some stop =>
        simp only [Option.toList_some, List.flatMap_singleton, agree_guarded] at hrecord hrest
        dsimp only
        split
        next hroom =>
          have hrecord := hrecord hroom
          rw [if_pos hroom] at hrest
          rw [← dnsRecord_agree hrecord]
          cases hstep : dnsRecord data datalen stop.toNat text with
          | skipped next =>
            rw [hstep] at hrest
            exact ih hrest
          | answer a next =>
            rw [hstep] at hrest
            obtain ⟨hsame, haddresses⟩ := ih hrest
            dsimp only
            rw [hsame, List.forall_mem_cons, ← hsame]
            exact ⟨rfl, address_agree hrecord hstep, haddresses⟩
          | invalid => exact ⟨rfl, fun _ hnone => absurd hnone List.not_mem_nil⟩
        next => exact ⟨rfl, fun _ hnone => absurd hnone List.not_mem_nil⟩

theorem dnsQuestion_agree (h : Agree (dnsQuestionReads data datalen name) data data') :
    dnsQuestion data datalen name = dnsQuestion data' datalen name := by
  rw [dnsQuestionReads, agree_append] at h
  rw [dnsQuestion, dnsQuestion, getQname_agree h.1]

theorem dnsHeader_agree (h : Agree [⟨2, 2⟩, ⟨4, 2⟩, ⟨6, 2⟩] data data') :
    dnsHeader data = dnsHeader data' := by
  simp only [agree_cons] at h
  obtain ⟨hflags, hqcount, hacount, -⟩ := h
  have hflags : data 2 = data' 2 := hflags 0 Nat.two_pos
  rw [dnsHeader, dnsHeader, hflags, word_congr hqcount, word_congr hacount]

/-- The reads are all that the calls depend on. -/
theorem parseDnsResponse_agree (h : Agree (parseDnsResponseReads data datalen name) data data')
    (inetNtop : List UInt8 → List UInt8) (uid : Int) :
    parseDnsResponse data datalen inetNtop name uid
      = parseDnsResponse data' datalen inetNtop name uid := by
  simp only [parseDnsResponseReads, agree_guarded, agree_append] at h
  unfold parseDnsResponse
  by_cases hlong : 13 ≤ datalen
  · obtain ⟨hheader, h⟩ := h hlong
    have hheader := dnsHeader_agree hheader
    have hsame : isDnsAnswer data datalen = isDnsAnswer data' datalen := by
      rw [isDnsAnswer, isDnsAnswer, hheader]
    rw [← hsame]
    split
    next hanswer =>
      obtain ⟨hquestion, hanswers⟩ := h hanswer
      rw [← dnsQuestion_agree hquestion]
      unfold responseTurns at hanswers
      cases hfound : dnsQuestion data datalen name with
      | none => rfl
      | some question =>
        obtain ⟨qname, off, text⟩ := question
        rw [hfound] at hanswers
        obtain ⟨hsame, haddresses⟩ := dnsAnswers_agree hanswers
        dsimp only
        rw [← hheader, ← hsame]
        apply List.map_congr_left
        intro a ha
        rw [haddresses a ha]
    next => rfl
  · simp [isDnsAnswer, hlong]

end Result

section Safe

/-- What keeps `parse_dns_response` inside the message and its buffers: each record takes a turn
and each name 26 at most, the reads are those of the message, all else is of no effect, and the
names fit into their buffers, with an end wherever one of them is used. -/
structure ResponseSafe (data : Nat → UInt8) (datalen : Nat) (name : Buffer) : Prop where
  turns : (responseTurns data datalen name).length ≤ (dnsHeader data).acount
  reads : Below (parseDnsResponseReads data datalen name) datalen
  only : ∀ data', Agree (parseDnsResponseReads data datalen name) data data' →
    ∀ inetNtop uid, parseDnsResponse data datalen inetNtop name uid
      = parseDnsResponse data' datalen inetNtop name uid
  names : ∀ off qname, QnameSafe data datalen off qname
  copied : ∀ qname off text, dnsQuestion data datalen name = some (qname, off, text) →
    Below [⟨0, qname.length + 1⟩] (dnsQnameMax + 1)

theorem parseDnsResponse_safe (data : Nat → UInt8) (datalen : Nat) (name : Buffer) :
    ResponseSafe data datalen name where
  turns := length_responseTurns_le
  reads := below_parseDnsResponseReads
  only := fun _ => parseDnsResponse_agree
  names := getQname_safe data datalen
  copied := by
    intro qname off text hquestion
    by_cases hname : ∃ p, NameEnd data datalen dnsHeaderSize 4 p
    · obtain ⟨p, hname⟩ := hname
      obtain ⟨stop, hfound, -⟩ := hname.found name
      rw [dnsQuestion_of_name hname] at hquestion
      cases hquestion
      have hshort : (bufferString (nameText data datalen dnsHeaderSize name)).length ≤ dnsQnameMax :=
        length_bufferString_le (getQname_terminated (congrArg Prod.fst hfound))
      rw [below_cons, Range.below_iff (Nat.succ_pos _)]
      exact ⟨by omega, below_nil⟩
    · rw [not_exists] at hname
      rw [dnsQuestion_of_no_name hname] at hquestion
      exact absurd hquestion nofun

/-- A response that ends inside the name of its question. -/
def brokenName : Nat → UInt8 :=
  fun i => ([0, 0, 0x80, 0, 0, 1, 0, 1, 0, 0, 0, 0, 1, 97, 5] : List UInt8).getD i 0

theorem not_terminated : isDnsAnswer brokenName 15 = true ∧
    ¬ ∃ k ≤ dnsQnameMax, nameText brokenName 15 dnsHeaderSize (fun _ => 255) k = 0 := by
  refine ⟨by decide, ?_⟩
  rintro ⟨k, -, hzero⟩
  have hwrites : getQnameWrites brokenName 15 (UInt16.ofNat dnsHeaderSize) (fun _ => 255) =
      [⟨0, 1⟩, ⟨0, 1⟩, ⟨1, 1⟩] := by decide
  obtain rfl | rfl | hk : k = 0 ∨ k = 1 ∨ 2 ≤ k := by omega
  · exact absurd hzero (by decide)
  · exact absurd hzero (by decide)
  · have hsame : nameText brokenName 15 dnsHeaderSize (fun _ => 255) k = 255 := by
      apply frame_getQname
      rw [hwrites]
      simp only [List.forall_mem_cons]
      exact ⟨by omega, by omega, by omega, nofun⟩
    exact absurd (hzero.symm.trans hsame) (by decide)

end Safe

end NetGuard.Engine
