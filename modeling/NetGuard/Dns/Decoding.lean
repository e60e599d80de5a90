import NetGuard.Dns.Names

/-! # Names that `get_qname` decodes

A well-formed name is decoded as it is spelled; the offset behind it is that of its first pointer
taken to be at its start. What is returned for other bytes is what they spell as long as no
counter wraps and no reserved prefix is met.
-/
namespace NetGuard.Engine
open Wire

section String
variable {ls : List Label} {text : List UInt8} {buf : Buffer}

theorem mem_dots {b : UInt8} (hb : b ≠ 46) : b ∈ dots ls ↔ ∃ l ∈ ls, b ∈ l := by
  simp [dots, List.mem_flatMap, hb]

theorem zero_mem_dotted (h : ls ≠ []) : 0 ∈ dotted ls ↔ ∃ l ∈ ls, 0 ∈ l := by
  rw [← mem_dots (by decide), dots_eq h]
  simp

/-- The string in a buffer that holds a text with a terminator. -/
theorem bufferString_of_at (hat : At buf 0 (text ++ [0])) (hfits : text.length ≤ dnsQnameMax) :
    bufferString buf = cString text := by
  have hsplit : dnsQnameMax + 1 = (text ++ [0]).length + (dnsQnameMax - text.length) := by
    rw [List.length_append, List.length_singleton]
    omega
  have hread := hat.map_range
  simp only [Nat.zero_add] at hread
  rw [bufferString, hsplit, List.range_add, List.map_append, hread, List.append_assoc]
  exact cString_append_zero text _

theorem bufferString_of_taken {data : Nat → UInt8} {datalen root : Nat} {off : UInt16} {c : Bool}
    (h : QnameTaken data datalen off.toNat ls root c) (qname : Buffer) :
    bufferString (getQname data datalen off qname).2 = cString (dotted (keptLabels ls)) := by
  apply bufferString_of_at (getQname_of_taken h qname).2
  have hkept : (dots (keptLabels ls)).length ≤ dnsQnameMax :=
    length_dots_foldl_pushLabel (Nat.zero_le _) h.room
  rw [dots_eq h.kept, List.length_append] at hkept
  omega

/-- A walk that is short enough is all in the buffer. -/
theorem keptLabels_eq (h : (dots ls).length ≤ dnsQnameMax) : RoomFor [] ls ∧ keptLabels ls = ls :=
  foldl_pushLabel h

end String

section Shapes
variable (data : Nat → UInt8) (datalen : Nat)

/-- Labels lead from a position to another, without a pointer. -/
inductive LabelsTo : Nat → Nat → Prop
  | refl (p : Nat) : LabelsTo p p
  | label {p q : Nat} (hlen : (data p).toNat < 64) (hsome : data p ≠ 0)
      (hrest : LabelsTo (p + 1 + (data p).toNat) q) : LabelsTo p q

/-- One or more labels and then a pointer. -/
def LabelsThenPointer (off : Nat) : Prop := ∃ q, off < q ∧ LabelsTo data off q ∧ 192 ≤ (data q).toNat

/-- The walk comes to a byte with one of the reserved prefixes. -/
inductive ReservedAt : Nat → Prop
  | here {p : Nat} (hlow : 64 ≤ (data p).toNat) (hhigh : (data p).toNat < 192) : ReservedAt p
  | label {p : Nat} (hlen : (data p).toNat < 64) (hsome : data p ≠ 0)
      (hrest : ReservedAt (p + 1 + (data p).toNat)) : ReservedAt p
  | pointer {p : Nat} (hmark : 192 ≤ (data p).toNat) (hrest : ReservedAt (pointerAt data p)) :
      ReservedAt p

/-- The walk comes to a label behind which the position no longer fits in 16 bits. -/
inductive WrapsAt : Nat → Prop
  | here {p : Nat} (hlen : (data p).toNat < 64) (hsome : data p ≠ 0)
      (hfar : 65536 ≤ p + 1 + (data p).toNat) : WrapsAt p
  | label {p : Nat} (hlen : (data p).toNat < 64) (hsome : data p ≠ 0)
      (hrest : WrapsAt (p + 1 + (data p).toNat)) : WrapsAt p
  | pointer {p : Nat} (hmask : 64 ≤ (data p).toNat) (hrest : WrapsAt (pointerAt data p)) : WrapsAt p

/-- The labels that the bytes from the position on spell. -/
def Spells (off : Nat) (ls : List Label) : Prop := ∃ n stop, NameAt data datalen off ls n stop

end Shapes

section Names
variable {data : Nat → UInt8} {datalen p q n m stop root : Nat} {ls ls' : List Label} {c : Bool}

theorem NameAt.lt (h : NameAt data datalen p ls n stop) : p < datalen := by
  induction h with
  | root hin => exact hin
  | label _ _ _ ih => omega
  | pointer _ hnext => omega

theorem NameAt.stop_le (h : NameAt data datalen p ls n stop) : stop ≤ datalen := by
  induction h with
  | root hin => exact hin
  | label _ _ _ ih => exact ih
  | pointer _ hnext => exact hnext

theorem NameAt.stop_pos (h : NameAt data datalen p ls n stop) : 0 < stop := by
  induction h with
  | root => exact Nat.succ_pos _
  | label _ _ _ ih => exact ih
  | pointer => exact Nat.succ_pos _

theorem QnameWalk.root_lt (h : QnameWalk data datalen p ls n root c) (hp : p < datalen) :
    root < datalen := by
  induction h with
  | root => exact hp
  | label _ _ hfits _ ih => exact ih (Nat.lt_of_le_of_lt (Nat.mod_le _ _) hfits)
  | pointer _ _ hjump _ ih => exact ih hjump

theorem LabelsTo.le (h : LabelsTo data p q) : p ≤ q := by
  induction h with
  | refl => exact Nat.le_refl _
  | label _ _ _ ih => omega

/-- The shape of a name: no pointer, or one at a position that only labels lead to. -/
inductive EndsAt (data : Nat → UInt8) (p root stop : Nat) : Bool → Prop
  | root (hstop : stop = root + 1) (hplain : ∀ q, LabelsTo data p q → (data q).toNat < 192) :
      EndsAt data p root stop false
  | pointer {q : Nat} (hq : LabelsTo data p q) (hmark : 192 ≤ (data q).toNat)
      (hstop : stop = q + 2) : EndsAt data p root stop true

/-- A name is walked as it is spelled, where positions have 16 bits. -/
theorem NameAt.walk (h : NameAt data datalen p ls n stop) (hlen : datalen ≤ 65536) :
    ∃ root c, QnameWalk data datalen p ls n root c ∧ EndsAt data p root stop c := by
  induction h with
  | @root p hin hzero =>
    refine ⟨p, false, .root hzero, .root rfl ?_⟩
    intro q hq
    cases hq with
    | refl =>
      rw [hzero]
      decide
    | label _ hsome => exact absurd hzero hsome
  | @label p n stop ls hshort hsome hrest ih =>
    obtain ⟨root, c, hwalk, hends⟩ := ih
    have hfits := hrest.lt
    have hnext : (p + 1 + (data p).toNat) % 65536 = p + 1 + (data p).toNat :=
      Nat.mod_eq_of_lt (by omega)
    refine ⟨root, c, .label hshort hsome hfits (hnext.symm ▸ hwalk), ?_⟩
    cases hends with
    | root hstop hplain =>
      refine .root hstop ?_
      intro q hq
      cases hq with
      | refl => omega
      | label _ _ hq => exact hplain q hq
    | pointer hq hmark hstop => exact .pointer (.label hshort hsome hq) hmark hstop
  | @pointer p n stop ls hmark hnext hrest ih =>
    obtain ⟨root, c, hwalk, -⟩ := ih
    exact ⟨root, true, .pointer (by omega) hnext hrest.lt hwalk, .pointer (.refl p) hmark rfl⟩

/-- Only labels lead to one pointer at most. -/
theorem LabelsTo.unique (h : LabelsTo data p q) (h' : LabelsTo data p m)
    (hq : 192 ≤ (data q).toNat) (hm : 192 ≤ (data m).toNat) : q = m := by
  induction h with
  | refl p =>
    cases h' with
    | refl => rfl
    | label hlen => omega
  | label hlen _ _ ih =>
    cases h' with
    | refl => omega
    | label _ _ hrest => exact ih hrest hq

/-- A zero byte is neither a length nor a pointer. -/
theorem toNat_of_zero (hzero : data p = 0) : (data p).toNat = 0 := by
  rw [hzero]
  rfl

theorem not_reservedAt_root (hzero : data p = 0) : ¬ ReservedAt data p := by
  have hnone := toNat_of_zero hzero
  intro h
  cases h with
  | here hlow => omega
  | label _ hsome => exact hsome hzero
  | pointer hmark => omega

theorem reservedAt_label_iff (hlen : (data p).toNat < 64) (hsome : data p ≠ 0) :
    ReservedAt data p ↔ ReservedAt data (p + 1 + (data p).toNat) := by
  constructor
  · intro h
    cases h with
    | here hlow => omega
    | label _ _ hrest => exact hrest
    | pointer hmark => omega
  · exact .label hlen hsome

theorem reservedAt_pointer_iff (hmark : 192 ≤ (data p).toNat) :
    ReservedAt data p ↔ ReservedAt data (pointerAt data p) := by
  constructor
  · intro h
    cases h with
    | here _ hhigh => omega
    | label hlen => omega
    | pointer _ hrest => exact hrest
  · exact .pointer hmark

theorem not_wrapsAt_root (hzero : data p = 0) : ¬ WrapsAt data p := by
  have hnone := toNat_of_zero hzero
  intro h
  cases h with
  | here _ hsome => exact hsome hzero
  | label _ hsome => exact hsome hzero
  | pointer hmask => omega

theorem wrapsAt_label_iff (hlen : (data p).toNat < 64) (hsome : data p ≠ 0) :
    WrapsAt data p ↔
      65536 ≤ p + 1 + (data p).toNat ∨ WrapsAt data (p + 1 + (data p).toNat) := by
  constructor
  · intro h
    cases h with
    | here _ _ hfar => exact .inl hfar
    | label _ _ hrest => exact .inr hrest
    | pointer hmask => omega
  · rintro (hfar | hrest)
    · exact .here hlen hsome hfar
    · exact .label hlen hsome hrest

theorem wrapsAt_pointer_iff (hmask : 64 ≤ (data p).toNat) :
    WrapsAt data p ↔ WrapsAt data (pointerAt data p) := by
  constructor
  · intro h
    cases h with
    | here hlen => omega
    | label hlen => omega
    | pointer _ hrest => exact hrest
  · exact .pointer hmask

end Names

section Complete
variable {data : Nat → UInt8} {datalen stop : Nat} {off : UInt16} {ls : List Label}

/-- A name in a message, with a label and within the limits of `get_qname`, which are wider than the
255 octets of the standard: these count the zero byte as well. -/
structure EncodedName (data : Nat → UInt8) (datalen off : Nat) (ls : List Label) (stop : Nat) :
    Prop where
  message : datalen ≤ 65535
  name : ∃ n ≤ qnameTurns, NameAt data datalen off ls n stop
  nonempty : ls ≠ []
  room : (dots ls).length ≤ dnsQnameMax

theorem EncodedName.taken (h : EncodedName data datalen off.toNat ls stop) :
    ∃ root c, QnameTaken data datalen off.toNat ls root c ∧ root < datalen ∧
      EndsAt data off.toNat root stop c := by
  obtain ⟨hmessage, ⟨n, hn, hname⟩, hsome, hfits⟩ := h
  obtain ⟨root, c, hwalk, hends⟩ := hname.walk (by omega)
  obtain ⟨hroom, hkept⟩ := keptLabels_eq hfits
  exact ⟨root, c, ⟨hname.lt, ⟨n, hn, hwalk⟩, hroom, by rwa [hkept]⟩, hwalk.root_lt hname.lt, hends⟩

theorem EncodedName.kept (h : EncodedName data datalen off.toNat ls stop) : keptLabels ls = ls :=
  (keptLabels_eq h.room).2

theorem EncodedName.stop_le (h : EncodedName data datalen off.toNat ls stop) : stop ≤ datalen := by
  obtain ⟨n, -, hname⟩ := h.name
  exact hname.stop_le

/-- The offset is right unless labels come before the pointer. -/
theorem EncodedName.end_iff (h : EncodedName data datalen off.toNat ls stop) (qname : Buffer) :
    (getQname data datalen off qname).1.map UInt16.toNat = some stop ↔
      ¬ LabelsThenPointer data off.toNat := by
  have hmessage := h.message
  have hstop := h.stop_le
  obtain ⟨root, c, htaken, hroot, hends⟩ := h.taken
  rw [(getQname_of_taken htaken qname).1, Option.map_some, Option.some.injEq]
  cases hends with
  | root hend hplain =>
    apply iff_of_true
    · simp only [qnameEnd, Bool.false_eq_true, if_false, UInt16.toNat_add, UInt16.toNat_ofNat',
        show (1 : UInt16).toNat = 1 from rfl]
      omega
    · rintro ⟨q, -, hq, hmark⟩
      exact absurd hmark (Nat.not_le.mpr (hplain q hq))
  | @pointer q hq hmark hend =>
    have hle := hq.le
    simp only [qnameEnd, if_true, UInt16.toNat_add, show (2 : UInt16).toNat = 2 from rfl]
    constructor
    · rintro hsame ⟨m, hm, hlabels, hpointer⟩
      have hunique := hq.unique hlabels hmark hpointer
      omega
    · intro hnot
      have hsame : q = off.toNat := by
        by_contra hne
        exact hnot ⟨q, by omega, hq, hmark⟩
      omega

/-- The buffer has the text and its terminator whatever the shape. -/
theorem EncodedName.text (h : EncodedName data datalen off.toNat ls stop) (qname : Buffer) :
    At (getQname data datalen off qname).2 0 (dotted ls ++ [0]) := by
  obtain ⟨root, c, htaken, -, -⟩ := h.taken
  have htext := (getQname_of_taken htaken qname).2
  rwa [h.kept] at htext

theorem EncodedName.string_iff (h : EncodedName data datalen off.toNat ls stop) (qname : Buffer) :
    bufferString (getQname data datalen off qname).2 = dotted ls ↔ ∀ l ∈ ls, 0 ∉ l := by
  obtain ⟨root, c, htaken, -, -⟩ := h.taken
  rw [bufferString_of_taken htaken, h.kept, cString_eq_self_iff, zero_mem_dotted h.nonempty]
  simp

/-- A well-formed name is decoded with the offset behind it exactly when it is not labels and then
a pointer. The buffer has the labels joined by dots, which is also the string in it where no label
has its terminator. -/
theorem getQname_complete_iff (h : EncodedName data datalen off.toNat ls stop) (qname : Buffer) :
    (((getQname data datalen off qname).1.map UInt16.toNat = some stop ∧
        At (getQname data datalen off qname).2 0 (dotted ls ++ [0])) ↔
      ¬ LabelsThenPointer data off.toNat) ∧
    (bufferString (getQname data datalen off qname).2 = dotted ls ↔ ∀ l ∈ ls, 0 ∉ l) :=
  ⟨(and_iff_left (h.text qname)).trans (h.end_iff qname), h.string_iff qname⟩

/-- A message with the names "a" at 12 and "b.a" at 15, the second by way of a pointer. -/
def twoNames : Nat → UInt8 :=
  fun i => (List.replicate 12 0 ++ [1, 97, 0, 1, 98, 0xC0, 12] : List UInt8).getD i 0

theorem name_a : NameAt twoNames 19 12 [[97]] 1 15 :=
  .label (by decide) (by decide) (.root (by decide) (by decide))

theorem encoded_a : EncodedName twoNames 19 (12 : UInt16).toNat [[97]] 15 where
  message := by decide
  name := ⟨1, by decide, name_a⟩
  nonempty := by decide
  room := by decide

theorem encoded_ba : EncodedName twoNames 19 (15 : UInt16).toNat [[98], [97]] 19 where
  message := by decide
  name := by
    have hpointer : NameAt twoNames 19 17 [[97]] 2 19 := .pointer (by decide) (by decide) name_a
    exact ⟨3, by decide, .label (by decide) (by decide) hpointer⟩
  nonempty := by decide
  room := by decide

theorem getQname_complete_a :
    (((getQname twoNames 19 12 fun _ => 255).1.map UInt16.toNat = some 15 ∧
        At (getQname twoNames 19 12 fun _ => 255).2 0 (dotted [[97]] ++ [0])) ↔
      ¬ LabelsThenPointer twoNames (12 : UInt16).toNat) ∧
    (bufferString (getQname twoNames 19 12 fun _ => 255).2 = dotted [[97]] ↔
      ∀ l ∈ [[97]], (0 : UInt8) ∉ l) :=
  getQname_complete_iff encoded_a _

theorem not_getQname_complete :
    ¬ ((getQname twoNames 19 15 fun _ => 255).1.map UInt16.toNat = some 19 ∧
      At (getQname twoNames 19 15 fun _ => 255).2 0 (dotted [[98], [97]] ++ [0])) := by
  rintro ⟨hend, -⟩
  apply (encoded_ba.end_iff _).mp hend
  exact ⟨17, by decide, .label (by decide) (by decide) (.refl 17), by decide⟩

end Complete

section Sound
variable {data : Nat → UInt8} {datalen p n m root stop : Nat} {off : UInt16} {ls ls' : List Label}
  {c : Bool}

/-- Without a wrap and a reserved prefix a walk spells what it has found. -/
theorem QnameWalk.spells (h : QnameWalk data datalen p ls n root c) (hp : p < datalen)
    (hwraps : ¬ WrapsAt data p) (hreserved : ¬ ReservedAt data p) : Spells data datalen p ls := by
  induction h with
  | @root p hzero => exact ⟨0, p + 1, .root hp hzero⟩
  | @label p n root ls c hlen hsome hfits hrest ih =>
    rw [wrapsAt_label_iff hlen hsome, not_or, Nat.not_le] at hwraps
    rw [reservedAt_label_iff hlen hsome] at hreserved
    rw [Nat.mod_eq_of_lt hwraps.1] at ih
    obtain ⟨n, stop, hname⟩ := ih hfits hwraps.2 hreserved
    exact ⟨n + 1, stop, .label hlen hsome hname⟩
  | @pointer p n root ls c hmask hnext hjump hrest ih =>
    have hmark : 192 ≤ (data p).toNat := by
      by_contra hlow
      exact hreserved (.here hmask (Nat.not_le.mp hlow))
    rw [wrapsAt_pointer_iff hmask] at hwraps
    rw [reservedAt_pointer_iff hmark] at hreserved
    obtain ⟨n, stop, hname⟩ := ih hjump hwraps hreserved
    exact ⟨n + 1, p + 2, .pointer hmark hnext hname⟩

/-- What the bytes spell is the walk, as long as nothing wraps. -/
theorem NameAt.of_walk (h : NameAt data datalen p ls' m stop)
    (hwalk : QnameWalk data datalen p ls n root c) (hwraps : ¬ WrapsAt data p) :
    ls' = ls ∧ ¬ ReservedAt data p := by
  induction h generalizing ls n root c with
  | @root p hin hzero =>
    have hnone := toNat_of_zero hzero
    cases hwalk with
    | root => exact ⟨rfl, not_reservedAt_root hzero⟩
    | label _ hsome => exact absurd hzero hsome
    | pointer hmask => omega
  | @label p m stop ls' hlen hsome hname ih =>
    rw [wrapsAt_label_iff hlen hsome, not_or, Nat.not_le] at hwraps
    cases hwalk with
    | root hzero => exact absurd hzero hsome
    | label _ _ hfits hrest =>
      rw [Nat.mod_eq_of_lt hwraps.1] at hrest
      obtain ⟨rfl, hnot⟩ := ih hrest hwraps.2
      exact ⟨rfl, (reservedAt_label_iff hlen hsome).not.mpr hnot⟩
    | pointer hmask => omega
  | @pointer p m stop ls' hmark hnext hname ih =>
    cases hwalk with
    | root hzero =>
      have hnone := toNat_of_zero hzero
      omega
    | label hlen => omega
    | pointer hmask _ _ hrest =>
      obtain ⟨rfl, hnot⟩ := ih hrest ((wrapsAt_pointer_iff hmask).not.mp hwraps)
      exact ⟨rfl, (reservedAt_pointer_iff hmark).not.mpr hnot⟩

/-- In a message no position wraps. -/
theorem QnameWalk.not_wraps (h : QnameWalk data datalen p ls n root c) (hmessage : datalen ≤ 65536) :
    ¬ WrapsAt data p := by
  induction h with
  | root hzero => exact not_wrapsAt_root hzero
  | @label p n root ls c hlen hsome hfits _ ih =>
    rw [Nat.mod_eq_of_lt (by omega)] at ih
    rw [wrapsAt_label_iff hlen hsome, not_or, Nat.not_le]
    exact ⟨by omega, ih⟩
  | pointer hmask _ _ _ ih => rwa [wrapsAt_pointer_iff hmask]

/-- What keeps a walk from being misread: pointers of the standard alone, a text that fits the
8-bit counter and has no terminator in it. Where a position has wrapped, the bytes it leads to can
only be right by chance. -/
def QnameHonest (data : Nat → UInt8) (datalen off : Nat) (ls : List Label) : Prop :=
  (¬ WrapsAt data off → ¬ ReservedAt data off ∧ (dots ls).length ≤ dnsQnameMax ∧
    ∀ l ∈ ls, 0 ∉ l) ∧
  (WrapsAt data off → ∃ ls', Spells data datalen off ls' ∧
    dotted ls' = cString (dotted (keptLabels ls)))

theorem length_dotted_lt (h : ls ≠ []) : (dots ls).length = (dotted ls).length + 1 := by
  rw [dots_eq h, List.length_append, List.length_singleton]

/-- The name that is returned is the one that is spelled exactly on the honest walks. -/
theorem getQname_sound_iff (data : Nat → UInt8) (datalen : Nat) (off : UInt16) (qname : Buffer) :
    (∀ stop, (getQname data datalen off qname).1 = some stop →
      ∃ ls, Spells data datalen off.toNat ls ∧
        bufferString (getQname data datalen off qname).2 = dotted ls) ↔
      ∀ ls root c, QnameTaken data datalen off.toNat ls root c →
        QnameHonest data datalen off.toNat ls := by
  constructor
  · intro hsound ls root c htaken
    obtain ⟨ls', hspells, htext⟩ := hsound _ (getQname_of_taken htaken qname).1
    rw [bufferString_of_taken htaken] at htext
    refine ⟨?_, fun _ => ⟨ls', hspells, htext.symm⟩⟩
    intro hwraps
    obtain ⟨n, stop, hname⟩ := hspells
    obtain ⟨m, -, hwalk⟩ := htaken.walk
    obtain ⟨rfl, hreserved⟩ := hname.of_walk hwalk hwraps
    have hnonempty : ls' ≠ [] := by
      rintro rfl
      exact htaken.kept rfl
    have hkept : (dots (keptLabels ls')).length ≤ dnsQnameMax :=
      length_dots_foldl_pushLabel (Nat.zero_le _) htaken.room
    have hshort := length_cString_le (dotted (keptLabels ls'))
    rw [htext] at hshort
    rw [length_dotted_lt htaken.kept] at hkept
    have hfits : (dots ls').length ≤ dnsQnameMax := by
      rw [length_dotted_lt hnonempty]
      omega
    refine ⟨hreserved, hfits, ?_⟩
    rw [(keptLabels_eq hfits).2, cString_eq_self_iff, zero_mem_dotted hnonempty] at htext
    simpa using htext
  · intro hhonest stop hstop
    obtain ⟨ls, root, c, htaken⟩ := taken_of_getQname hstop
    obtain ⟨hplain, hlucky⟩ := hhonest ls root c htaken
    rw [bufferString_of_taken htaken]
    by_cases hwraps : WrapsAt data off.toNat
    · obtain ⟨ls', hspells, htext⟩ := hlucky hwraps
      exact ⟨ls', hspells, htext.symm⟩
    · obtain ⟨hreserved, hfits, htext⟩ := hplain hwraps
      obtain ⟨n, -, hwalk⟩ := htaken.walk
      refine ⟨ls, hwalk.spells htaken.inside hwraps hreserved, ?_⟩
      have hkept := htaken.kept
      rw [(keptLabels_eq hfits).2] at hkept ⊢
      rw [cString_eq_self_iff, zero_mem_dotted hkept]
      simpa using htext

/-- A message with a byte of the prefix 01 where the name is, in front of the name "a". -/
def reservedName : Nat → UInt8 :=
  fun i => (List.replicate 12 0 ++ [0x40, 14, 1, 97, 0] : List UInt8).getD i 0

theorem not_getQname_sound :
    ¬ ∀ stop, (getQname reservedName 17 12 fun _ => 255).1 = some stop →
      ∃ ls, Spells reservedName 17 (12 : UInt16).toNat ls ∧
        bufferString (getQname reservedName 17 12 fun _ => 255).2 = dotted ls := by
  intro hsound
  have hfound : (getQname reservedName 17 12 fun _ => 255).1 = some 14 := by decide
  obtain ⟨ls, ⟨n, stop, hname⟩, -⟩ := hsound 14 hfound
  cases hname with
  | root _ hzero => exact absurd hzero (by decide)
  | label hlen => exact absurd hlen (by decide)
  | pointer hmark => exact absurd hmark (by decide)

end Sound

end NetGuard.Engine
