import NetGuard.Storage.Addresses

/-! # What the patterns find

The patterns of the parser are searched anywhere in a line. What they find are fragments:
four octets that no word character touches, or groups up to two colons or from two colons
on. A fragment with two colons always has a word character on their other side.
-/
namespace NetGuard.Storage
open Service (Text)

section Ipv4Fragment
open Regex

/-- Four octets as the pattern has them. -/
def dotted : Language Char :=
  {x | ∃ a b c d, IsPlainOctet a ∧ IsPlainOctet b ∧ IsPlainOctet c ∧ IsPlainOctet d ∧
    x = a ++ '.' :: (b ++ '.' :: (c ++ '.' :: d))}

theorem mem_dotted {x : Text} : x ∈ dotted ↔ ∃ a b c d, IsPlainOctet a ∧ IsPlainOctet b ∧
    IsPlainOctet c ∧ IsPlainOctet d ∧ x = a ++ '.' :: (b ++ '.' :: (c ++ '.' :: d)) := Iff.rfl

theorem isIpv4_of_mem_dotted {x : Text} (h : x ∈ dotted) : IsIpv4 x := by
  obtain ⟨a, b, c, d, ha, hb, hc, hd, rfl⟩ := h
  exact ⟨a, b, c, d, ha.1, hb.1, hc.1, hd.1, rfl⟩

theorem reads_dotted : Reads (.seq (exactly 3 (.seq octet (chr '.'))) octet) dotted := by
  refine (((reads_octet.seq (reads_chr '.')).exactly 3).seq reads_octet).of_iff ?_
  intro x
  rw [mem_dotted, pow_succ', pow_succ', pow_one]
  simp only [Language.mem_mul]
  constructor
  · rintro ⟨_, ⟨_, ⟨a, ha, _, rfl, rfl⟩, _, ⟨_, ⟨b, hb, _, rfl, rfl⟩, _, ⟨c, hc, _, rfl, rfl⟩, rfl⟩,
      rfl⟩, d, hd, rfl⟩
    exact ⟨a, b, c, d, ha, hb, hc, hd, by simp⟩
  · rintro ⟨a, b, c, d, ha, hb, hc, hd, rfl⟩
    exact ⟨_, ⟨_, ⟨a, ha, _, rfl, rfl⟩, _, ⟨_, ⟨b, hb, _, rfl, rfl⟩, _, ⟨c, hc, _, rfl, rfl⟩, rfl⟩,
      rfl⟩, d, hd, by simp⟩

theorem IsOctet.isWord {x : Text} (h : IsOctet x) : ∀ c ∈ x, isWord c = true :=
  fun c hc => isWord_of_hexDigit (hexDigit_of_digit (h.2.2.1 c hc))

/-- A word is what stands before the first mark. -/
theorem mark_inj {x x' rest rest' : Text} {c : Char} (hc : isWord c = false)
    (hx : ∀ c ∈ x, isWord c = true) (hx' : ∀ c ∈ x', isWord c = true)
    (heq : x ++ c :: rest = x' ++ c :: rest') : x = x' ∧ rest = rest' := by
  obtain ⟨hsame, htail⟩ := append_inj_of_word hx hx' (by simpa using hc) (by simpa using hc) heq
  exact ⟨hsame, List.tail_eq_of_cons_eq htail⟩

theorem head?_of_isWord {x : Text} (hne : x ≠ []) (hx : ∀ c ∈ x, isWord c = true) :
    ∃ a, x.head? = some a ∧ isWord a = true := by
  obtain ⟨a, x, rfl⟩ := List.exists_cons_of_ne_nil hne
  exact ⟨a, rfl, hx a List.mem_cons_self⟩

theorem getLast?_of_isWord {x : Text} (hne : x ≠ []) (hx : ∀ c ∈ x, isWord c = true) :
    ∃ a, x.getLast? = some a ∧ isWord a = true :=
  ⟨x.getLast hne, List.getLast?_eq_some_getLast hne, hx _ (List.getLast_mem hne)⟩

theorem ipv4_eq (c : Cursor Char) : ipv4.ends c =
    (Regex.seq (.boundary isWord) (.seq (.seq (exactly 3 (.seq octet (chr '.'))) octet)
      (.boundary isWord))).ends c := by
  simp only [ipv4, ends, List.flatMap_assoc]
  rfl

/-- Four octets with no word character on either side. -/
def Ipv4Fragment (previous : Option Char) (x rest : Text) : Prop :=
  x ∈ dotted ∧ previous.any isWord = false ∧ rest.head?.any isWord = false

theorem finds_ipv4 : Finds ipv4 Ipv4Fragment := by
  have hfinds : Finds (Regex.seq (.boundary isWord) (.seq (.seq (exactly 3 (.seq octet (chr '.')))
      octet) (.boundary isWord))) Ipv4Fragment := by
    apply Finds.of_unique reads_dotted
    · rintro _ ⟨a, b, c, d, ha, -, -, -, rfl⟩
      obtain ⟨first, hfirst, hword⟩ := head?_of_isWord ha.1.1 ha.1.isWord
      exact ⟨first, by rw [List.head?_append, hfirst, Option.some_or], hword⟩
    · rintro _ ⟨a, b, c, d, -, -, -, hd, rfl⟩
      obtain ⟨last, hlast, hword⟩ := getLast?_of_isWord hd.1.1 hd.1.isWord
      exact ⟨last, by simp [List.getLast?_append, List.getLast?_cons, hlast], hword⟩
    · rintro _ ⟨a, b, c, d, ha, hb, hc, hd, rfl⟩ _ ⟨a', b', c', d', ha', hb', hc', hd', rfl⟩ rest
        rest' hrest hrest' heq
      simp only [List.append_assoc, List.cons_append] at heq
      have hdot : isWord '.' = false := by decide
      obtain ⟨rfl, hthree⟩ := mark_inj hdot ha.1.isWord ha'.1.isWord heq
      obtain ⟨rfl, htwo⟩ := mark_inj hdot hb.1.isWord hb'.1.isWord hthree
      obtain ⟨rfl, hone⟩ := mark_inj hdot hc.1.isWord hc'.1.isWord htwo
      obtain ⟨rfl, -⟩ := append_inj_of_word hd.1.isWord hd'.1.isWord hrest hrest' hone
      rfl
  refine ⟨?_, hfinds.ne_nil⟩
  intro previous text n
  rw [← hfinds.length, matchLength, matchLength, ipv4_eq]

end Ipv4Fragment

section Ipv6Fragment
open Regex
variable {gs gs' : List Text} {rest rest' : Text} {c d e : Cursor Char} {n : Nat}

theorem IsGroup.isWord {g : Text} (h : IsGroup g) : ∀ c ∈ g, isWord c = true :=
  fun c hc => isWord_of_hexDigit (h.2.2 c hc)

def openedGroup : Regex Char := .seq (chr ':') hexGroup

/-- One more group could follow. -/
def Continues (rest : Text) : Prop :=
  ∃ g rest', IsGroup g ∧ rest = ':' :: (g ++ rest') ∧ rest'.head?.any isWord = false

/-- One to seven groups and `::` before a word character, with no word character before
them; or `::` and one to seven groups behind a word character, as many as there are. -/
inductive Ipv6Fragment (previous : Option Char) (x rest : Text) : Prop
  | front (gs : List Text) (hpos : gs ≠ []) (hlength : gs.length ≤ 7)
    (hgroups : ∀ g ∈ gs, IsGroup g) (hx : x = closed gs ++ [':'])
    (hprevious : previous.any isWord = false) (hrest : rest.head?.any isWord = true)
  | back (gs : List Text) (hpos : gs ≠ []) (hlength : gs.length ≤ 7)
    (hgroups : ∀ g ∈ gs, IsGroup g) (hx : x = ':' :: opened gs)
    (hprevious : previous.any isWord = true) (hrest : rest.head?.any isWord = false)
    (hlast : gs.length = 7 ∨ ¬ Continues rest)

theorem closed_cons (g : Text) (gs : List Text) (rest : Text) :
    closed (g :: gs) ++ rest = g ++ ':' :: (closed gs ++ rest) := by
  simp [closed]

theorem opened_cons (g : Text) (gs : List Text) (rest : Text) :
    opened (g :: gs) ++ rest = ':' :: (g ++ (opened gs ++ rest)) := by
  simp [opened]

theorem closed_eq (g : Text) (gs : List Text) :
    closed (g :: gs) = joined ':' (g :: gs) ++ [':'] := by
  induction gs generalizing g with
  | nil => simp [closed, joined]
  | cons g' gs ih =>
    have hcons : closed (g :: g' :: gs) = g ++ ':' :: closed (g' :: gs) := by simp [closed]
    rw [hcons, ih, joined_cons, List.append_assoc, List.cons_append]

theorem opened_eq (g : Text) (gs : List Text) :
    opened (g :: gs) = ':' :: joined ':' (g :: gs) := by
  induction gs generalizing g with
  | nil => simp [opened, joined]
  | cons g' gs ih =>
    have hcons : opened (g :: g' :: gs) = ':' :: (g ++ opened (g' :: gs)) := by simp [opened]
    rw [hcons, ih, joined_cons]

theorem closed_inj (hgs : ∀ g ∈ gs, IsGroup g) (hgs' : ∀ g ∈ gs', IsGroup g)
    (heq : closed gs ++ ':' :: rest = closed gs' ++ ':' :: rest') : gs = gs' ∧ rest = rest' := by
  have hcolon : isWord ':' = false := by decide
  have hstart {g tail tail' : Text} (hg : IsGroup g) : ¬ ':' :: tail = g ++ tail' := by
    intro h
    obtain ⟨a, ha, hword⟩ := head?_of_isWord hg.1 hg.isWord
    have hhead := congrArg List.head? h
    rw [List.head?_cons, List.head?_append, ha, Option.some_or, Option.some.injEq] at hhead
    rw [← hhead, hcolon] at hword
    exact absurd hword nofun
  induction gs generalizing gs' with
  | nil =>
    cases gs' with
    | nil => exact ⟨rfl, List.tail_eq_of_cons_eq heq⟩
    | cons g' gs' =>
      rw [closed_cons] at heq
      exact absurd heq (hstart (hgs' g' List.mem_cons_self))
  | cons g gs ih =>
    rw [List.forall_mem_cons] at hgs
    rw [closed_cons] at heq
    cases gs' with
    | nil => exact absurd heq.symm (hstart hgs.1)
    | cons g' gs' =>
      rw [List.forall_mem_cons] at hgs'
      rw [closed_cons] at heq
      obtain ⟨rfl, htail⟩ := mark_inj hcolon hgs.1.isWord hgs'.1.isWord heq
      obtain ⟨rfl, hrest⟩ := ih hgs.2 hgs'.2 htail
      exact ⟨rfl, hrest⟩

theorem head?_opened (hrest : rest.head?.any isWord = false) (gs : List Text) :
    (opened gs ++ rest).head?.any isWord = false := by
  cases gs with
  | nil => exact hrest
  | cons g gs =>
    rw [opened_cons]
    exact (by decide : isWord ':' = false)

theorem mem_openedGroup : d ∈ openedGroup.ends c ↔
    ∃ g, IsGroup g ∧ c.rest = ':' :: (g ++ d.rest) ∧ d.previous = g.getLast? := by
  rw [openedGroup, reads_openedGroup c d]
  constructor
  · rintro ⟨_, ⟨g, hg, rfl⟩, hrest, hprevious⟩
    refine ⟨g, hg, hrest, ?_⟩
    obtain ⟨a, ha, -⟩ := getLast?_of_isWord hg.1 hg.isWord
    rw [hprevious, List.getLast?_cons, ha]
    rfl
  · rintro ⟨g, hg, hrest, hprevious⟩
    refine ⟨_, ⟨g, hg, rfl⟩, hrest, ?_⟩
    obtain ⟨a, ha, -⟩ := getLast?_of_isWord hg.1 hg.isWord
    rw [hprevious, List.getLast?_cons, ha]
    rfl

/-- Groups that end at a boundary are whole. -/
theorem openedGroup_whole (hd : d ∈ openedGroup.ends c) (he : e ∈ (upTo n openedGroup).ends d)
    (hend : e.isBoundary isWord = true) : d.rest.head?.any isWord = false := by
  obtain ⟨g, hg, -, hprevious⟩ := mem_openedGroup.mp hd
  obtain ⟨a, ha, hword⟩ := getLast?_of_isWord hg.1 hg.isWord
  obtain ⟨x, ⟨k, -, hx⟩, hrest, hprevious'⟩ := (reads_openedGroup.upTo n d e).mp he
  obtain ⟨gs, -, -, rfl⟩ := mem_groupsWith_pow.mp hx
  cases gs with
  | nil =>
    rw [List.flatMap_nil, List.getLast?_nil, Option.none_or, hprevious, ha] at hprevious'
    rw [List.flatMap_nil, List.nil_append] at hrest
    rw [hrest]
    simpa [Cursor.isBoundary, hprevious', hword] using hend
  | cons g' gs =>
    rw [hrest, ← opened, opened_cons]
    exact (by decide : isWord ':' = false)

/-- The ends behind a whole group at which the rest is at a boundary. -/
def endsBehind (n : Nat) (c : Cursor Char) : List (Cursor Char) :=
  (openedGroup.ends c).flatMap fun d =>
    ((upTo n openedGroup).ends d).filter fun e => e.isBoundary isWord

theorem rest_of_mem_endsBehind (hd : d ∈ openedGroup.ends c)
    (hne : (((upTo n openedGroup).ends d).filter fun e => e.isBoundary isWord) ≠ []) :
    d.rest.head?.any isWord = false := by
  obtain ⟨e, he⟩ := List.exists_mem_of_ne_nil _ hne
  obtain ⟨he, hend⟩ := List.mem_filter.mp he
  exact openedGroup_whole hd he hend

theorem endsBehind_of_not_continues (hstop : ¬ Continues c.rest) : endsBehind n c = [] := by
  rw [endsBehind, List.flatMap_eq_nil_iff]
  intro d hd
  by_contra hne
  obtain ⟨g, hg, htext, -⟩ := mem_openedGroup.mp hd
  exact hstop ⟨g, d.rest, hg, htext, rest_of_mem_endsBehind hd hne⟩

theorem head?_endsBehind {g tail : Text} (hg : IsGroup g) (htext : c.rest = ':' :: (g ++ tail))
    (htail : tail.head?.any isWord = false)
    (he : (((upTo n openedGroup).ends ⟨g.getLast?, tail⟩).filter fun e =>
      e.isBoundary isWord).head? = some e) : (endsBehind n c).head? = some e := by
  have hmem : (⟨g.getLast?, tail⟩ : Cursor Char) ∈ openedGroup.ends c :=
    mem_openedGroup.mpr ⟨g, hg, htext, rfl⟩
  rw [endsBehind, head?_flatMap hmem (fun hnil => by simp [hnil] at he), he]
  rintro ⟨previous', rest'⟩ hd hne
  obtain ⟨g', hg', htext', hprevious'⟩ := mem_openedGroup.mp hd
  -- both groups are whole, so they are one
  obtain ⟨rfl, hsame⟩ := append_inj_of_word hg.isWord hg'.isWord htail
    (rest_of_mem_endsBehind hd hne) (List.tail_eq_of_cons_eq (htext.symm.trans htext'))
  rw [Cursor.mk.injEq]
  exact ⟨hprevious', hsame.symm⟩

/-- A greedy repetition ends behind the last whole group, if it is free to go there. -/
theorem head?_upTo (hprevious : c.previous.any isWord = true) (htext : c.rest = opened gs ++ rest)
    (hgs : ∀ g ∈ gs, IsGroup g) (hn : gs.length ≤ n) (hrest : rest.head?.any isWord = false)
    (hlast : gs.length = n ∨ ¬ Continues rest) :
    ∃ e : Cursor Char, (((upTo n openedGroup).ends c).filter fun e => e.isBoundary isWord).head? =
      some e ∧ e.rest = rest := by
  induction n generalizing c gs with
  | zero =>
    obtain rfl := List.length_eq_zero_iff.mp (Nat.le_zero.mp hn)
    have htext : c.rest = rest := htext
    refine ⟨c, ?_, htext⟩
    simp [upTo, ends, Cursor.isBoundary, hprevious, htext, hrest]
  | succ n ih =>
    have hsplit : ((upTo (n + 1) openedGroup).ends c).filter (fun e => e.isBoundary isWord) =
        endsBehind n c ++ [c].filter fun e => e.isBoundary isWord := by
      simp only [upTo, ends, endsBehind, List.filter_append, List.filter_flatMap]
    rw [hsplit, List.head?_append]
    cases gs with
    | nil =>
      have htext : c.rest = rest := htext
      refine ⟨c, ?_, htext⟩
      rw [endsBehind_of_not_continues (htext ▸ hlast.resolve_left (by simp)), List.head?_nil,
        Option.none_or]
      simp [Cursor.isBoundary, hprevious, htext, hrest]
    | cons g gs =>
      rw [List.forall_mem_cons] at hgs
      rw [opened_cons] at htext
      obtain ⟨a, ha, hword⟩ := getLast?_of_isWord hgs.1.1 hgs.1.isWord
      obtain ⟨e, he, herest⟩ := ih (c := ⟨g.getLast?, opened gs ++ rest⟩) (by simp [ha, hword]) rfl
        hgs.2 (Nat.le_of_succ_le_succ hn) (hlast.imp_left Nat.succ.inj)
      refine ⟨e, ?_, herest⟩
      rw [head?_endsBehind hgs.1 htext (head?_opened hrest gs) he, Option.some_or]

/-- As many groups as there are, but at most `n`. -/
theorem exists_groups (n : Nat) {text : Text} (htext : text.head?.any isWord = false) :
    ∃ gs rest, text = opened gs ++ rest ∧ (∀ g ∈ gs, IsGroup g) ∧ gs.length ≤ n ∧
      rest.head?.any isWord = false ∧ (gs.length = n ∨ ¬ Continues rest) := by
  induction n generalizing text with
  | zero => exact ⟨[], text, rfl, nofun, le_rfl, htext, .inl rfl⟩
  | succ n ih =>
    by_cases hmore : Continues text
    · obtain ⟨g, tail, hg, rfl, htail⟩ := hmore
      obtain ⟨gs, rest, rfl, hgs, hn, hrest, hlast⟩ := ih htail
      refine ⟨g :: gs, rest, (opened_cons g gs rest).symm, List.forall_mem_cons.mpr ⟨hg, hgs⟩,
        Nat.succ_le_succ hn, hrest, hlast.imp_left ?_⟩
      intro hlength
      rw [List.length_cons, hlength]
    · exact ⟨[], text, rfl, nofun, Nat.zero_le _, htext, .inr hmore⟩

section Parts

def frontPart : Regex Char := .seq (between 1 7 (.seq hexGroup (chr ':'))) (chr ':')

def backPart : Regex Char := .seq (chr ':') (between 1 7 openedGroup)

def middlePart : Regex Char :=
  .seq (between 1 6 (.seq hexGroup (chr ':'))) (.seq (chr ':') hexGroup)

def atBoundary (r : Regex Char) (c : Cursor Char) : List (Cursor Char) :=
  (r.ends c).filter fun e => e.isBoundary isWord

theorem ends_ipv6 (c : Cursor Char) : ipv6.ends c =
    if c.isBoundary isWord then
      atBoundary frontPart c ++ (atBoundary backPart c ++ atBoundary middlePart c)
    else [] := by
  have hbounded : ipv6.ends c = (Regex.seq (.boundary isWord)
      (.seq (.alt frontPart (.alt backPart middlePart)) (.boundary isWord))).ends c := rfl
  rw [hbounded, ends_bounded]
  simp only [ends, List.filter_append, atBoundary]

theorem mem_closed {m : Nat} (hm : 1 ≤ m) {x : Text} :
    x ∈ (groupsWith fun g => g ++ [':']) ^ 1 * atMost (m - 1) (groupsWith fun g => g ++ [':']) ↔
      ∃ gs, gs ≠ [] ∧ gs.length ≤ m ∧ (∀ g ∈ gs, IsGroup g) ∧ x = closed gs := by
  rw [mem_pow_mul_atMost hm]
  simp only [mem_groupsWith_pow]
  constructor
  · rintro ⟨k, hpos, hle, gs, rfl, hgs, rfl⟩
    exact ⟨gs, List.length_pos_iff.mp hpos, hle, hgs, rfl⟩
  · rintro ⟨gs, hpos, hle, hgs, rfl⟩
    exact ⟨gs.length, List.length_pos_iff.mpr hpos, hle, gs, rfl, hgs, rfl⟩

theorem mem_frontPart : e ∈ atBoundary frontPart c ↔ ∃ gs, gs ≠ [] ∧ gs.length ≤ 7 ∧
    (∀ g ∈ gs, IsGroup g) ∧ c.rest = closed gs ++ ':' :: e.rest ∧ e.previous = some ':' ∧
      e.rest.head?.any isWord = true := by
  have hreads := ((reads_closedGroup.between 1 7).seq (reads_chr ':')) c e
  have hcolon : isWord ':' = false := by decide
  rw [atBoundary, List.mem_filter, frontPart, hreads]
  constructor
  · rintro ⟨⟨x, hx, htext, hprevious⟩, hend⟩
    obtain ⟨y, hy, z, hz, rfl⟩ := Language.mem_mul.mp hx
    obtain ⟨gs, hpos, hle, hgs, rfl⟩ := (mem_closed (by omega)).mp hy
    obtain rfl := mem_mark.mp hz
    rw [List.getLast?_append, List.getLast?_singleton, Option.some_or, Option.some_or] at hprevious
    refine ⟨gs, hpos, hle, hgs, by rw [htext, List.append_assoc]; rfl, hprevious, ?_⟩
    simpa [Cursor.isBoundary, hprevious, hcolon] using hend
  · rintro ⟨gs, hpos, hle, hgs, htext, hprevious, hrest⟩
    refine ⟨⟨closed gs ++ [':'], Language.append_mem_mul ((mem_closed (by omega)).mpr
      ⟨gs, hpos, hle, hgs, rfl⟩) (mem_mark.mpr rfl), ?_, ?_⟩, ?_⟩
    · rw [htext, List.append_assoc]
      rfl
    · rw [hprevious, List.getLast?_append, List.getLast?_singleton, Option.some_or, Option.some_or]
    · simp [Cursor.isBoundary, hprevious, hcolon, hrest]

/-- Where the third alternative matches, the first one does. -/
theorem frontPart_of_middlePart (h : atBoundary middlePart c ≠ []) :
    atBoundary frontPart c ≠ [] := by
  obtain ⟨e, he⟩ := List.exists_mem_of_ne_nil _ h
  obtain ⟨he, -⟩ := List.mem_filter.mp he
  obtain ⟨x, hx, htext, -⟩ :=
    ((reads_closedGroup.between 1 6).seq reads_openedGroup c e).mp he
  obtain ⟨y, hy, _, ⟨g, hg, rfl⟩, rfl⟩ := Language.mem_mul.mp hx
  obtain ⟨gs, hpos, hle, hgs, rfl⟩ := (mem_closed (by omega)).mp hy
  obtain ⟨a, ha, hword⟩ := head?_of_isWord hg.1 hg.isWord
  apply List.ne_nil_of_mem (a := ⟨some ':', g ++ e.rest⟩)
  rw [mem_frontPart]
  refine ⟨gs, hpos, by omega, hgs, ?_, rfl, ?_⟩
  · rw [htext, List.append_assoc]
    rfl
  · simp [List.head?_append, ha, hword]

theorem atBoundary_backPart {tail : Text} (htext : c.rest = ':' :: tail) :
    atBoundary backPart c = endsBehind 6 ⟨some ':', tail⟩ := by
  obtain ⟨previous, text⟩ := c
  obtain rfl : text = ':' :: tail := htext
  have hone : (chr ':').ends ⟨previous, ':' :: tail⟩ = [⟨some ':', tail⟩] := by simp [chr, ends]
  have hexactly (d : Cursor Char) : (exactly 1 openedGroup).ends d = openedGroup.ends d := by
    simp only [exactly, ends, List.flatMap_singleton']
  rw [atBoundary, backPart, ends, hone, List.flatMap_singleton, between, ends, hexactly,
    List.filter_flatMap, endsBehind]

theorem head?_backPart {tail : Text} (htext : c.rest = ':' :: tail)
    (htail : tail = opened gs ++ rest) (hpos : gs ≠ []) (hgs : ∀ g ∈ gs, IsGroup g)
    (hn : gs.length ≤ 7) (hrest : rest.head?.any isWord = false)
    (hlast : gs.length = 7 ∨ ¬ Continues rest) :
    ∃ e : Cursor Char, (atBoundary backPart c).head? = some e ∧ e.rest = rest := by
  obtain ⟨g, gs, rfl⟩ := List.exists_cons_of_ne_nil hpos
  rw [List.forall_mem_cons] at hgs
  rw [opened_cons] at htail
  obtain ⟨a, ha, hword⟩ := getLast?_of_isWord hgs.1.1 hgs.1.isWord
  obtain ⟨e, he, herest⟩ := head?_upTo (c := ⟨g.getLast?, opened gs ++ rest⟩) (n := 6)
    (by simp [ha, hword]) rfl hgs.2 (Nat.le_of_succ_le_succ hn) hrest (hlast.imp_left Nat.succ.inj)
  refine ⟨e, ?_, herest⟩
  rw [atBoundary_backPart htext]
  exact head?_endsBehind hgs.1 htail (head?_opened hrest gs) he

/-- The fragment that a match of the second alternative is. -/
theorem backPart_spec (he : (atBoundary backPart c).head? = some e) :
    ∃ gs, c.rest = ':' :: (opened gs ++ e.rest) ∧ gs ≠ [] ∧ gs.length ≤ 7 ∧
      (∀ g ∈ gs, IsGroup g) ∧ e.rest.head?.any isWord = false ∧
        (gs.length = 7 ∨ ¬ Continues e.rest) := by
  obtain ⟨hmem, -⟩ := List.mem_filter.mp (List.mem_of_mem_head? he)
  obtain ⟨x, hx, htext, -⟩ := ((reads_chr ':').seq (reads_openedGroup.between 1 7) c e).mp hmem
  obtain ⟨_, rfl, y, -, rfl⟩ := Language.mem_mul.mp hx
  have htext : c.rest = ':' :: (y ++ e.rest) := htext
  have hmore : Continues (y ++ e.rest) := by
    by_contra hstop
    rw [atBoundary_backPart htext, endsBehind_of_not_continues hstop] at he
    exact absurd he nofun
  have hcolon : (y ++ e.rest).head?.any isWord = false := by
    obtain ⟨g, rest, -, hstart, -⟩ := hmore
    rw [hstart]
    exact (by decide : isWord ':' = false)
  obtain ⟨gs, rest, hgroups, hgs, hn, hrest, hlast⟩ := exists_groups 7 hcolon
  have hpos : gs ≠ [] := by
    rintro rfl
    have hsame : y ++ e.rest = rest := hgroups
    exact hlast.resolve_left (by simp) (hsame ▸ hmore)
  obtain ⟨e', he', herest⟩ := head?_backPart htext hgroups hpos hgs hn hrest hlast
  obtain rfl := Option.some.inj (he.symm.trans he')
  subst herest
  exact ⟨gs, by rw [htext, hgroups], hpos, hn, hgs, hrest, hlast⟩

end Parts

theorem closed_append (gs : List Text) (rest : Text) :
    (closed gs ++ [':']) ++ rest = closed gs ++ ':' :: rest := by
  rw [List.append_assoc, List.singleton_append]

theorem head?_closed (hpos : gs ≠ []) (hgs : ∀ g ∈ gs, IsGroup g) (rest : Text) :
    (closed gs ++ rest).head?.any isWord = true := by
  obtain ⟨g, gs, rfl⟩ := List.exists_cons_of_ne_nil hpos
  have hg := hgs g List.mem_cons_self
  obtain ⟨a, ha, hword⟩ := head?_of_isWord hg.1 hg.isWord
  rw [closed_cons, List.head?_append, ha, Option.some_or]
  exact hword

/-- The first end of a match is behind a fragment. -/
theorem fragment_of_end (he : (ipv6.ends c).head? = some e) :
    ∃ x, c.rest = x ++ e.rest ∧ Ipv6Fragment c.previous x e.rest := by
  obtain ⟨previous, text⟩ := c
  rw [ends_ipv6] at he
  split at he
  next hbegin =>
    rw [List.head?_append, List.head?_append] at he
    cases hfront : (atBoundary frontPart ⟨previous, text⟩).head? with
    | some e' =>
      rw [hfront, Option.some_or, Option.some.injEq] at he
      subst he
      obtain ⟨gs, hpos, hle, hgs, htext, -, hrest⟩ :=
        mem_frontPart.mp (List.mem_of_mem_head? hfront)
      have htext : text = closed gs ++ ':' :: e'.rest := htext
      refine ⟨closed gs ++ [':'], by rw [closed_append, htext], .front gs hpos hle hgs rfl ?_ hrest⟩
      have hhead := head?_closed hpos hgs (':' :: e'.rest)
      rw [← htext] at hhead
      simpa [Cursor.isBoundary, hhead] using hbegin
    | none =>
      rw [hfront, Option.none_or] at he
      cases hback : (atBoundary backPart ⟨previous, text⟩).head? with
      | some e' =>
        rw [hback, Option.some_or, Option.some.injEq] at he
        subst he
        obtain ⟨gs, htext, hpos, hle, hgs, hrest, hlast⟩ := backPart_spec hback
        have htext : text = ':' :: (opened gs ++ e'.rest) := htext
        refine ⟨':' :: opened gs, htext, .back gs hpos hle hgs rfl ?_ hrest hlast⟩
        have hcolon : isWord ':' = false := by decide
        simpa [Cursor.isBoundary, htext, hcolon] using hbegin
      | none =>
        rw [hback, Option.none_or] at he
        rw [List.head?_eq_none_iff] at hfront
        refine absurd hfront (frontPart_of_middlePart ?_)
        exact List.ne_nil_of_mem (List.mem_of_mem_head? he)
  next => simp at he

theorem end_of_front (hpos : gs ≠ []) (hlength : gs.length ≤ 7) (hgs : ∀ g ∈ gs, IsGroup g)
    (htext : c.rest = closed gs ++ ':' :: rest) (hprevious : c.previous.any isWord = false)
    (hrest : rest.head?.any isWord = true) :
    ∃ e, (ipv6.ends c).head? = some e ∧ e.rest = rest := by
  have hbegin : c.isBoundary isWord = true := by
    have hhead := head?_closed hpos hgs (':' :: rest)
    simp only [Cursor.isBoundary, htext, hhead, hprevious]
    decide
  have hmem : (⟨some ':', rest⟩ : Cursor Char) ∈ atBoundary frontPart c :=
    mem_frontPart.mpr ⟨gs, hpos, hlength, hgs, htext, rfl, hrest⟩
  have hunique : ∀ e ∈ atBoundary frontPart c, e = ⟨some ':', rest⟩ := by
    rintro ⟨previous', rest'⟩ he
    obtain ⟨gs', -, -, hgs', htext', hprevious', -⟩ := mem_frontPart.mp he
    obtain ⟨-, hsame⟩ := closed_inj hgs hgs' (htext.symm.trans htext')
    rw [Cursor.mk.injEq]
    exact ⟨hprevious', hsame.symm⟩
  refine ⟨⟨some ':', rest⟩, ?_, rfl⟩
  rw [ends_ipv6, if_pos hbegin, List.head?_append, head?_of_unique hmem hunique, Option.some_or]

theorem end_of_back (hpos : gs ≠ []) (hlength : gs.length ≤ 7) (hgs : ∀ g ∈ gs, IsGroup g)
    (htext : c.rest = ':' :: (opened gs ++ rest)) (hprevious : c.previous.any isWord = true)
    (hrest : rest.head?.any isWord = false) (hlast : gs.length = 7 ∨ ¬ Continues rest) :
    ∃ e, (ipv6.ends c).head? = some e ∧ e.rest = rest := by
  have hcolon : isWord ':' = false := by decide
  have hbegin : c.isBoundary isWord = true := by
    simp [Cursor.isBoundary, htext, hcolon, hprevious]
  have hnone : atBoundary frontPart c = [] := by
    by_contra hne
    obtain ⟨e, he⟩ := List.exists_mem_of_ne_nil _ hne
    obtain ⟨gs', hpos', -, hgs', htext', -⟩ := mem_frontPart.mp he
    have hhead := head?_closed hpos' hgs' (':' :: e.rest)
    rw [← htext', htext] at hhead
    exact absurd hhead (by simp [hcolon])
  obtain ⟨e, he, hend⟩ := head?_backPart htext rfl hpos hgs hlength hrest hlast
  refine ⟨e, ?_, hend⟩
  rw [ends_ipv6, if_pos hbegin, hnone, List.nil_append, List.head?_append, he, Option.some_or]

theorem finds_ipv6 : Finds ipv6 Ipv6Fragment := by
  constructor
  · intro previous text n
    rw [matchLength_eq_some_iff]
    constructor
    · rintro ⟨e, he, hn⟩
      obtain ⟨x, htext, hx⟩ := fragment_of_end he
      have htext : text = x ++ e.rest := htext
      refine ⟨x, e.rest, htext, ?_, hx⟩
      rw [← hn, htext, List.length_append, Nat.add_sub_cancel]
    · rintro ⟨x, rest, rfl, rfl, hx⟩
      have hend : ∃ e, (ipv6.ends ⟨previous, x ++ rest⟩).head? = some e ∧ e.rest = rest := by
        cases hx with
        | front gs hpos hlength hgs hx hprevious hrest =>
          exact end_of_front hpos hlength hgs (by rw [hx, closed_append]) hprevious hrest
        | back gs hpos hlength hgs hx hprevious hrest hlast =>
          exact end_of_back hpos hlength hgs (by rw [hx, List.cons_append]) hprevious hrest hlast
      obtain ⟨e, he, hrest⟩ := hend
      refine ⟨e, he, ?_⟩
      rw [hrest, List.length_append, Nat.add_sub_cancel]
  · rintro previous x rest (⟨gs, -, -, -, rfl, -, -⟩ | ⟨gs, -, -, -, rfl, -, -, -⟩)
    · simp
    · simp

/-- Groups up to two colons, or from them on, are an address with the other groups left out. -/
theorem Ipv6Fragment.isIpv6 {previous : Option Char} {x rest : Text}
    (hx : Ipv6Fragment previous x rest) : IsIpv6 x := by
  have hnone : IsGroups 0 [] := ⟨[], nofun, .inl ⟨rfl, rfl⟩⟩
  cases hx with
  | front gs hpos hlength hgroups hx =>
    refine .inr ⟨gs, 0, [], hgroups, hnone, hlength, ?_⟩
    obtain ⟨g, gs, rfl⟩ := List.exists_cons_of_ne_nil hpos
    rw [hx, closed_eq]
    simp
  | back gs hpos hlength hgroups hx =>
    refine .inr ⟨[], gs.length, joined ':' gs, nofun, ⟨gs, hgroups, .inl ⟨rfl, rfl⟩⟩, ?_, ?_⟩
    · simpa using hlength
    · obtain ⟨g, gs, rfl⟩ := List.exists_cons_of_ne_nil hpos
      rw [hx, opened_eq]
      rfl

/-- A fragment stays one if what is beside it changes, but not whether a word character is
there, and no group comes behind it. -/
theorem Ipv6Fragment.beside {previous previous' : Option Char} {x rest rest' : Text}
    (hx : Ipv6Fragment previous x rest) (hprevious : previous'.any isWord = previous.any isWord)
    (hrest : rest'.head?.any isWord = rest.head?.any isWord)
    (hmore : Continues rest' → Continues rest) :
    Ipv6Fragment previous' x rest' := by
  cases hx with
  | front gs hpos hlength hgs hx hbefore hbehind =>
    exact .front gs hpos hlength hgs hx (hprevious.trans hbefore) (hrest.trans hbehind)
  | back gs hpos hlength hgs hx hbefore hbehind hlast =>
    exact .back gs hpos hlength hgs hx (hprevious.trans hbefore) (hrest.trans hbehind)
      (hlast.imp_right fun hstop hgroup => hstop (hmore hgroup))

end Ipv6Fragment

end NetGuard.Storage
