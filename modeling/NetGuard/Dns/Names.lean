import NetGuard.Engine.Dns

/-! # Names as `get_qname` follows them

A name is spelled by labels, pointers and a zero byte. The walk of `get_qname` follows them with
positions of 16 bits, takes the reserved prefixes for pointers as well, and writes the labels
with their dots to a buffer whose fill is counted in 8 bits.
-/
namespace NetGuard.Engine
open Wire

abbrev Label := List UInt8

section Text

/-- The labels, each with a dot behind it. -/
def dots (ls : List Label) : List UInt8 := ls.flatMap (· ++ [46])

/-- The labels joined by dots. -/
def dotted (ls : List Label) : List UInt8 := [46].intercalate ls

@[simp] theorem dots_nil : dots [] = [] := rfl

theorem dots_append (ls ls' : List Label) : dots (ls ++ ls') = dots ls ++ dots ls' :=
  List.flatMap_append

@[simp] theorem dots_cons (l : Label) (ls : List Label) : dots (l :: ls) = l ++ [46] ++ dots ls :=
  List.flatMap_cons

theorem dots_eq {ls : List Label} (h : ls ≠ []) : dots ls = dotted ls ++ [46] := by
  induction ls with
  | nil => exact absurd rfl h
  | cons l ls ih =>
    cases ls with
    | nil => simp [dotted, List.intercalate]
    | cons l' ls =>
      rw [dots_cons, ih (List.cons_ne_nil _ _)]
      simp [dotted, List.intercalate, List.append_assoc]

end Text

section Walk
variable (data : Nat → UInt8) (datalen : Nat)

def labelAt (p : Nat) : Label := (List.range (data p).toNat).map fun k => data (p + 1 + k)

def pointerAt (p : Nat) : Nat := (data p).toNat % 64 * 256 + (data (p + 1)).toNat

/-- The labels on the way from a position to a zero byte, with the number of labels and pointers
and the position behind the name where it begins. -/
inductive NameAt : Nat → List Label → Nat → Nat → Prop
  | root {p : Nat} (hin : p < datalen) (hzero : data p = 0) : NameAt p [] 0 (p + 1)
  | label {p n stop : Nat} {ls : List Label} (hlen : (data p).toNat < 64) (hsome : data p ≠ 0)
      (hrest : NameAt (p + 1 + (data p).toNat) ls n stop) :
      NameAt p (labelAt data p :: ls) (n + 1) stop
  | pointer {p n stop : Nat} {ls : List Label} (hmark : 192 ≤ (data p).toNat)
      (hnext : p + 1 < datalen) (hrest : NameAt (pointerAt data p) ls n stop) :
      NameAt p ls (n + 1) (p + 2)

/-- What `get_qname` follows to a zero byte at `root`, by way of a pointer or not. -/
inductive QnameWalk : Nat → List Label → Nat → Nat → Bool → Prop
  | root {p : Nat} (hzero : data p = 0) : QnameWalk p [] 0 p false
  | label {p n root : Nat} {ls : List Label} {c : Bool} (hlen : (data p).toNat < 64)
      (hsome : data p ≠ 0) (hfits : p + 1 + (data p).toNat < datalen)
      (hrest : QnameWalk ((p + 1 + (data p).toNat) % 65536) ls n root c) :
      QnameWalk p (labelAt data p :: ls) (n + 1) root c
  | pointer {p n root : Nat} {ls : List Label} {c : Bool} (hmask : 64 ≤ (data p).toNat)
      (hnext : p + 1 < datalen) (hjump : pointerAt data p < datalen)
      (hrest : QnameWalk (pointerAt data p) ls n root c) : QnameWalk p ls (n + 1) root true

end Walk

section Buffer

/-- The labels in the buffer after one more: none where the counter comes back to zero. -/
def pushLabel (acc : List Label) (l : Label) : List Label :=
  if (dots acc).length + l.length = dnsQnameMax then [] else acc ++ [l]

/-- Every label fits before it is written. -/
def RoomFor (acc : List Label) : List Label → Prop
  | [] => True
  | l :: ls => (dots acc).length + l.length ≤ dnsQnameMax ∧ RoomFor (pushLabel acc l) ls

/-- The labels that are left in the buffer. -/
def keptLabels (ls : List Label) : List Label := ls.foldl pushLabel []

theorem length_dots_pushLabel {acc : List Label} {l : Label}
    (hroom : (dots acc).length + l.length ≤ dnsQnameMax) :
    (dots (pushLabel acc l)).length = ((dots acc).length + l.length + 1) % 256 := by
  rw [dnsQnameMax] at hroom
  unfold pushLabel
  split
  next hfull =>
    rw [dnsQnameMax] at hfull
    rw [hfull]
    rfl
  next hfull =>
    rw [dnsQnameMax] at hfull
    simp only [dots_append, dots_cons, dots_nil, List.length_append, List.append_nil,
      List.length_singleton]
    omega

/-- As long as the labels with their dots are at most 255 bytes, nothing is lost. -/
theorem foldl_pushLabel {acc ls : List Label} (h : (dots (acc ++ ls)).length ≤ dnsQnameMax) :
    RoomFor acc ls ∧ ls.foldl pushLabel acc = acc ++ ls := by
  induction ls generalizing acc with
  | nil => simp [RoomFor]
  | cons l ls ih =>
    have hlen := h
    simp only [dots_append, dots_cons, List.length_append, List.length_singleton] at hlen
    have hpush : pushLabel acc l = acc ++ [l] := by
      rw [pushLabel, if_neg (by omega)]
    have hassoc : acc ++ l :: ls = (acc ++ [l]) ++ ls := by simp
    rw [hassoc] at h
    obtain ⟨hroom, hfold⟩ := ih h
    refine ⟨⟨by omega, ?_⟩, ?_⟩
    · rwa [hpush]
    · rw [List.foldl_cons, hpush, hfold, hassoc]

theorem length_dots_foldl_pushLabel {acc ls : List Label} (hacc : (dots acc).length ≤ dnsQnameMax)
    (hroom : RoomFor acc ls) : (dots (ls.foldl pushLabel acc)).length ≤ dnsQnameMax := by
  induction ls generalizing acc with
  | nil => exact hacc
  | cons l ls ih =>
    obtain ⟨hfits, hrest⟩ := hroom
    apply ih _ hrest
    rw [length_dots_pushLabel hfits, dnsQnameMax]
    omega

end Buffer

section Turn
variable {data : Nat → UInt8} {datalen : Nat} {s : QName} {acc : List Label}

/-- The state at a position of the data, with the labels that the buffer holds. -/
structure QName.Holds (s : QName) (data : Nat → UInt8) (acc : List Label) : Prop where
  len : s.len = data s.ptr.toNat
  noff : s.noff.toNat = (dots acc).length
  qname : At s.qname 0 (dots acc)

theorem topBits (b : UInt8) : b &&& 0xC0 ≠ 0 ↔ 64 ≤ b.toNat := by
  have hall : ∀ v : BitVec 8, v &&& 0xC0#8 ≠ 0#8 ↔ 64 ≤ v.toNat := by decide
  rw [Ne, ← UInt8.toBitVec_inj]
  exact hall b.toBitVec

theorem lowBits (b : UInt8) : (b &&& 0x3F).toNat = b.toNat % 64 := by
  rw [UInt8.toNat_and]
  exact Nat.and_two_pow_sub_one_eq_mod b.toNat 6

/-- The state behind a pointer. -/
def QName.jump (s : QName) (data : Nat → UInt8) : QName :=
  { s with
    c := true
    off := if s.c then s.off else s.off + 2
    ptr := UInt16.ofNat (pointerAt data s.ptr.toNat)
    len := data (pointerAt data s.ptr.toNat) }

/-- The state behind a label. -/
def QName.label (s : QName) (data : Nat → UInt8) : QName :=
  { s with
    qname := store (store s.qname s.noff.toNat (labelAt data s.ptr.toNat))
      (s.noff.toNat + s.len.toNat) [46]
    noff := s.noff + (s.len + 1)
    ptr := UInt16.ofNat (s.ptr.toNat + 1 + s.len.toNat)
    len := data ((s.ptr.toNat + 1 + s.len.toNat) % 65536) }

theorem pointerAt_lt (data : Nat → UInt8) (p : Nat) : pointerAt data p < 65536 := by
  have hlow := (data (p + 1)).toNat_lt
  rw [pointerAt]
  omega

/-- What a turn does: it goes on behind a pointer, or behind a label, or leaves the loop. -/
theorem qnameTurn_eq (hlen : s.len = data s.ptr.toNat) : qnameTurn data datalen s =
    if 64 ≤ (data s.ptr.toNat).toNat then
      if s.ptr.toNat + 1 < datalen ∧ pointerAt data s.ptr.toNat < datalen then (s.jump data, true)
      else (s, false)
    else if s.ptr.toNat + 1 + (data s.ptr.toNat).toNat < datalen ∧
        s.noff.toNat + (data s.ptr.toNat).toNat ≤ dnsQnameMax then (s.label data, true)
    else (s, false) := by
  have htarget : (s.len &&& 0x3F).toNat * 256 + (data (s.ptr.toNat + 1)).toNat
      = pointerAt data s.ptr.toNat := by rw [pointerAt, lowBits, hlen]
  have hlabel : (List.range s.len.toNat).map (fun k => data (s.ptr.toNat + 1 + k))
      = labelAt data s.ptr.toNat := by rw [labelAt, hlen]
  simp only [qnameTurn, topBits, htarget, hlabel, ← hlen]
  by_cases hmask : 64 ≤ s.len.toNat
  · simp only [hmask, and_true, if_true]
    by_cases hnext : s.ptr.toNat + 1 < datalen
    · simp only [hnext, if_true, true_and]
      by_cases hjump : pointerAt data s.ptr.toNat < datalen
      · rw [if_neg (Nat.not_le.mpr hjump), if_pos hjump]
        cases hc : s.c <;> simp [QName.jump, hc]
      · rw [if_pos (Nat.not_lt.mp hjump), if_neg hjump]
    · have hbehind : ¬ s.ptr.toNat + 1 + s.len.toNat < datalen := by omega
      simp only [hnext, hbehind, false_and, if_false]
  · simp only [hmask, and_false, if_false]
    split
    next hfits =>
      have hinside : ¬ (s.ptr.toNat + 1 + s.len.toNat) % 65536 ≥ datalen :=
        Nat.not_le.mpr (Nat.lt_of_le_of_lt (Nat.mod_le _ _) hfits.1)
      simp only [UInt16.toNat_ofNat', show 2 ^ 16 = 65536 from rfl, if_neg hinside]
      rfl
    next => rfl

theorem QName.Holds.jump (h : s.Holds data acc) : (s.jump data).Holds data acc := by
  refine ⟨?_, h.noff, h.qname⟩
  have hlt := pointerAt_lt data s.ptr.toNat
  simp only [QName.jump, UInt16.toNat_ofNat', Nat.mod_eq_of_lt hlt]

theorem QName.Holds.label (h : s.Holds data acc)
    (hroom : (dots acc).length + (data s.ptr.toNat).toNat ≤ dnsQnameMax) :
    (s.label data).Holds data (pushLabel acc (labelAt data s.ptr.toNat)) := by
  have hlength : (labelAt data s.ptr.toNat).length = (data s.ptr.toNat).toNat := by simp [labelAt]
  have hnoff := h.noff
  have hlen := h.len
  refine ⟨?_, ?_, ?_⟩
  · simp only [QName.label, UInt16.toNat_ofNat']
  · rw [length_dots_pushLabel (by rwa [hlength]), hlength]
    simp only [QName.label, UInt8.toNat_add, hnoff, hlen, show (1 : UInt8).toNat = 1 from rfl]
    omega
  · unfold pushLabel
    split
    · exact at_nil
    · rw [dots_append, dots_cons, dots_nil, List.append_nil, at_append, at_append]
      simp only [QName.label, hnoff, hlen, hlength, Nat.zero_add]
      refine ⟨?_, ?_, at_store_self _ _ _⟩
      · rw [at_store_of_disjoint (by omega), at_store_of_disjoint (by omega)]
        exact h.qname
      · rw [at_store_of_disjoint (by omega)]
        exact at_store_self _ _ _

end Turn

section Loop
variable {data : Nat → UInt8} {datalen : Nat} {s : QName} {acc ls ls' : List Label}
  {p n n' root root' turns : Nat} {c c' : Bool}

/-- The state that the loop is left in at the zero byte. -/
structure QName.Ended (s s' : QName) (root : Nat) (c : Bool) : Prop where
  len : s'.len = 0
  ptr : s'.ptr.toNat = root
  met : s'.c = (s.c || c)
  off : s'.off = if !s.c && c then s.off + 2 else s.off

theorem qnameLoop_zero (hzero : s.len = 0) : qnameLoop data datalen turns s = s := by
  cases turns with
  | zero => rfl
  | succ turns => rw [qnameLoop, if_pos hzero]

theorem qnameLoop_next {s' : QName} (hsome : s.len ≠ 0)
    (hturn : qnameTurn data datalen s = (s', true)) :
    qnameLoop data datalen (turns + 1) s = qnameLoop data datalen turns s' := by
  rw [qnameLoop, if_neg hsome, hturn]

theorem qnameLoop_break {s' : QName} (hsome : s.len ≠ 0)
    (hturn : qnameTurn data datalen s = (s', false)) :
    qnameLoop data datalen (turns + 1) s = s' := by
  rw [qnameLoop, if_neg hsome, hturn]

theorem qnameTurn_label (h : s.Holds data acc) (hlen : (data s.ptr.toNat).toNat < 64)
    (hfits : s.ptr.toNat + 1 + (data s.ptr.toNat).toNat < datalen)
    (hroom : (dots acc).length + (data s.ptr.toNat).toNat ≤ dnsQnameMax) :
    qnameTurn data datalen s = (s.label data, true) := by
  rw [qnameTurn_eq h.len, if_neg (Nat.not_le.mpr hlen), if_pos ⟨hfits, h.noff ▸ hroom⟩]

theorem qnameTurn_jump (h : s.Holds data acc) (hmask : 64 ≤ (data s.ptr.toNat).toNat)
    (hnext : s.ptr.toNat + 1 < datalen) (hjump : pointerAt data s.ptr.toNat < datalen) :
    qnameTurn data datalen s = (s.jump data, true) := by
  rw [qnameTurn_eq h.len, if_pos hmask, if_pos ⟨hnext, hjump⟩]

theorem length_labelAt (data : Nat → UInt8) (p : Nat) : (labelAt data p).length = (data p).toNat := by
  simp [labelAt]

/-- A walk that fits is followed to its end, and its labels are in the buffer. -/
theorem qnameLoop_of_walk (hwalk : QnameWalk data datalen p ls n root c) (hp : s.ptr.toNat = p)
    (h : s.Holds data acc) (hn : n ≤ turns) (hroom : RoomFor acc ls) :
    (qnameLoop data datalen turns s).Holds data (ls.foldl pushLabel acc) ∧
      s.Ended (qnameLoop data datalen turns s) root c := by
  induction hwalk generalizing s acc turns with
  | @root p hzero =>
    have hlen : s.len = 0 := by rw [h.len, hp, hzero]
    rw [qnameLoop_zero hlen]
    exact ⟨h, hlen, hp, by simp, by simp⟩
  | @label p n root ls c hlen hsome hfits hrest ih =>
    obtain ⟨turns, rfl⟩ : ∃ k, turns = k + 1 := ⟨turns - 1, by omega⟩
    obtain ⟨hfirst, hroom⟩ := hroom
    subst hp
    rw [length_labelAt] at hfirst
    rw [qnameLoop_next (h.len ▸ hsome) (qnameTurn_label h hlen hfits hfirst)]
    have hptr : (s.label data).ptr.toNat = (s.ptr.toNat + 1 + (data s.ptr.toNat).toNat) % 65536 := by
      simp only [QName.label, UInt16.toNat_ofNat', h.len]
    obtain ⟨hholds, hended⟩ := ih hptr (h.label hfirst) (Nat.le_of_succ_le_succ hn) hroom
    exact ⟨hholds, hended.len, hended.ptr, hended.met, hended.off⟩
  | @pointer p n root ls c hmask hnext hjump hrest ih =>
    obtain ⟨turns, rfl⟩ : ∃ k, turns = k + 1 := ⟨turns - 1, by omega⟩
    subst hp
    have hsome : s.len ≠ 0 := by
      intro hzero
      rw [← h.len, hzero] at hmask
      exact absurd hmask (by decide)
    rw [qnameLoop_next hsome (qnameTurn_jump h hmask hnext hjump)]
    have hptr : (s.jump data).ptr.toNat = pointerAt data s.ptr.toNat := by
      simp only [QName.jump, UInt16.toNat_ofNat', Nat.mod_eq_of_lt (pointerAt_lt _ _)]
    obtain ⟨hholds, hended⟩ := ih hptr h.jump (Nat.le_of_succ_le_succ hn) hroom
    refine ⟨hholds, hended.len, hended.ptr, ?_, ?_⟩
    · rw [hended.met]
      simp [QName.jump]
    · rw [hended.off]
      cases hc : s.c <;> simp [QName.jump, hc]

/-- Where the loop comes to a zero byte, it has followed a walk that fits. -/
theorem walk_of_qnameLoop (h : s.Holds data acc) (hend : (qnameLoop data datalen turns s).len = 0) :
    ∃ ls n root c, QnameWalk data datalen s.ptr.toNat ls n root c ∧ n ≤ turns ∧ RoomFor acc ls := by
  induction turns generalizing s acc with
  | zero =>
    have hzero : data s.ptr.toNat = 0 := h.len ▸ hend
    exact ⟨[], 0, _, false, .root hzero, Nat.le_refl 0, trivial⟩
  | succ turns ih =>
    by_cases hsome : s.len = 0
    · exact ⟨[], 0, _, false, .root (h.len ▸ hsome), Nat.zero_le _, trivial⟩
    have hturn : qnameTurn data datalen s = _ := qnameTurn_eq h.len
    split at hturn
    next hmask =>
      split at hturn
      next hjump =>
        rw [qnameLoop_next hsome hturn] at hend
        obtain ⟨ls, n, root, c, hwalk, hn, hroom⟩ := ih h.jump hend
        have hptr : (s.jump data).ptr.toNat = pointerAt data s.ptr.toNat := by
          simp only [QName.jump, UInt16.toNat_ofNat', Nat.mod_eq_of_lt (pointerAt_lt _ _)]
        exact ⟨ls, n + 1, root, true, .pointer hmask hjump.1 hjump.2 (hptr ▸ hwalk),
          Nat.succ_le_succ hn, hroom⟩
      next =>
        rw [qnameLoop_break hsome hturn] at hend
        exact absurd hend hsome
    next hmask =>
      split at hturn
      next hfits =>
        rw [qnameLoop_next hsome hturn] at hend
        have hroom : (dots acc).length + (data s.ptr.toNat).toNat ≤ dnsQnameMax := h.noff ▸ hfits.2
        obtain ⟨ls, n, root, c, hwalk, hn, hrest⟩ := ih (h.label hroom) hend
        have hptr : (s.label data).ptr.toNat
            = (s.ptr.toNat + 1 + (data s.ptr.toNat).toNat) % 65536 := by
          simp only [QName.label, UInt16.toNat_ofNat', h.len]
        refine ⟨labelAt data s.ptr.toNat :: ls, n + 1, root, c, ?_, Nat.succ_le_succ hn, ?_, hrest⟩
        · exact .label (Nat.not_le.mp hmask) (h.len ▸ hsome) hfits.1 (hptr ▸ hwalk)
        · rwa [length_labelAt]
      next =>
        rw [qnameLoop_break hsome hturn] at hend
        exact absurd hend hsome

end Loop

section Result
variable {data : Nat → UInt8} {datalen : Nat} {off : UInt16} {qname : Buffer} {ls : List Label}
  {n root : Nat} {c : Bool}

/-- A walk that `get_qname` follows to its end and finds something on. -/
structure QnameTaken (data : Nat → UInt8) (datalen : Nat) (off : Nat) (ls : List Label)
    (root : Nat) (c : Bool) : Prop where
  inside : off < datalen
  walk : ∃ n ≤ qnameTurns, QnameWalk data datalen off ls n root c
  room : RoomFor [] ls
  kept : keptLabels ls ≠ []

/-- The offset that is returned: behind the zero byte, or two bytes behind the start. -/
def qnameEnd (off : UInt16) (root : Nat) (c : Bool) : UInt16 :=
  if c then off + 2 else UInt16.ofNat root + 1

/-- The state before the loop. -/
def QName.start (data : Nat → UInt8) (off : UInt16) (qname : Buffer) : QName :=
  { c := false, noff := 0, ptr := off, len := data off.toNat, off := off,
    qname := store qname 0 [0] }

theorem QName.start_holds : (QName.start data off qname).Holds data [] := ⟨rfl, rfl, at_nil⟩

theorem getQname_eq (hinside : off.toNat < datalen) : getQname data datalen off qname =
    let s := qnameLoop data datalen qnameTurns (QName.start data off qname)
    if s.len > 0 ∨ s.noff = 0 then (none, s.qname)
    else (some (if s.c then s.off else s.ptr + 1), store s.qname (s.noff.toNat - 1) [0]) := by
  rw [getQname, if_neg (Nat.not_le.mpr hinside)]
  rfl

theorem getQname_of_taken (h : QnameTaken data datalen off.toNat ls root c) (qname : Buffer) :
    (getQname data datalen off qname).1 = some (qnameEnd off root c) ∧
      At (getQname data datalen off qname).2 0 (dotted (keptLabels ls) ++ [0]) := by
  obtain ⟨hinside, ⟨n, hn, hwalk⟩, hroom, hkept⟩ := h
  have hstart : (QName.start data off qname).Holds data [] := QName.start_holds
  obtain ⟨hholds, hended⟩ := qnameLoop_of_walk hwalk rfl hstart hn hroom
  rw [getQname_eq hinside]
  generalize qnameLoop data datalen qnameTurns (QName.start data off qname) = s at hholds hended
  have hdots : dots (ls.foldl pushLabel []) = dotted (keptLabels ls) ++ [46] := dots_eq hkept
  have hnoff : s.noff.toNat = (dotted (keptLabels ls)).length + 1 := by
    rw [hholds.noff, hdots, List.length_append, List.length_singleton]
  have hfound : ¬ (s.len > 0 ∨ s.noff = 0) := by
    rw [hended.len]
    rintro (hpos | hzero)
    · exact absurd hpos (by decide)
    · rw [hzero] at hnoff
      exact absurd hnoff (by simp)
  have hptr : s.ptr = UInt16.ofNat root := by
    rw [← hended.ptr, UInt16.ofNat_toNat]
  simp only [if_neg hfound]
  constructor
  · rw [hended.met, hended.off, hptr, qnameEnd]
    cases c <;> rfl
  · have htext := hholds.qname
    rw [hdots, at_append] at htext
    rw [hnoff, Nat.add_sub_cancel, at_append, Nat.zero_add,
      at_store_of_disjoint (Or.inl (by omega))]
    exact ⟨htext.1, at_store_self _ _ _⟩

theorem taken_of_getQname {stop : UInt16} (h : (getQname data datalen off qname).1 = some stop) :
    ∃ ls root c, QnameTaken data datalen off.toNat ls root c := by
  have hinside : off.toNat < datalen := by
    by_contra hbehind
    rw [getQname, if_pos (Nat.not_lt.mp hbehind)] at h
    exact absurd h nofun
  rw [getQname_eq hinside] at h
  have hstart : (QName.start data off qname).Holds data [] := QName.start_holds
  dsimp only at h
  split at h
  · exact absurd h nofun
  next hfound =>
    rw [not_or] at hfound
    have hend : (qnameLoop data datalen qnameTurns (QName.start data off qname)).len = 0 := by
      by_contra hlen
      exact hfound.1 (UInt8.pos_iff_ne_zero.mpr hlen)
    obtain ⟨ls, n, root, c, hwalk, hn, hroom⟩ := walk_of_qnameLoop hstart hend
    obtain ⟨hholds, -⟩ := qnameLoop_of_walk hwalk rfl hstart hn hroom
    refine ⟨ls, root, c, hinside, ⟨n, hn, hwalk⟩, hroom, ?_⟩
    intro hnone
    apply hfound.2
    apply UInt8.toNat_inj.mp
    rw [hholds.noff, show ls.foldl pushLabel [] = [] from hnone]
    rfl

end Result

end NetGuard.Engine
