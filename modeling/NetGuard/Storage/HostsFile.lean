import NetGuard.Storage.Addresses

/-! # Hosts files

A line of a hosts file is blank, or it has an address and its names, or a name alone, and
a comment can end it. The parser tells these apart by the parts between blanks. It asks of
the first part whether it is the start of a pattern, which only the empty part is.
-/
namespace NetGuard.Storage
open Service (Text)

section Parts
variable {c : Char} {b : Bool} {gap w rest part : Text} {parts : List Text}

theorem splitSpaces_gap (hgap : ∀ c ∈ gap, isSpace c = true) :
    splitSpaces true (gap ++ rest) = splitSpaces true rest := by
  induction gap with
  | nil => rfl
  | cons c gap ih =>
    rw [List.forall_mem_cons] at hgap
    rw [List.cons_append, splitSpaces, if_pos hgap.1, if_pos rfl, ih hgap.2]

/-- What stands before blanks ends there. -/
theorem splitSpaces_blanks (hne : gap ≠ []) (hgap : ∀ c ∈ gap, isSpace c = true) :
    splitSpaces false (gap ++ rest) = [] :: splitSpaces true rest := by
  obtain ⟨c, gap, rfl⟩ := List.exists_cons_of_ne_nil hne
  rw [List.forall_mem_cons] at hgap
  rw [List.cons_append, splitSpaces, if_pos hgap.1, if_neg Bool.false_ne_true, splitSpaces_gap hgap.2]

/-- A word is in front of the first part. -/
theorem splitSpaces_word (hne : w ≠ []) (hw : ∀ c ∈ w, isSpace c = false)
    (hrest : splitSpaces false rest = part :: parts) :
    splitSpaces b (w ++ rest) = (w ++ part) :: parts := by
  induction w generalizing b with
  | nil => exact absurd rfl hne
  | cons c w ih =>
    rw [List.forall_mem_cons] at hw
    rw [List.cons_append, splitSpaces, if_neg (by rw [hw.1]; exact Bool.false_ne_true)]
    cases w with
    | nil => rw [List.nil_append, hrest]; rfl
    | cons c' w => rw [ih (by simp) hw.2]; rfl

theorem splitSpaces_ne_nil (b : Bool) (s : Text) : splitSpaces b s ≠ [] := by
  induction s generalizing b with
  | nil => exact List.cons_ne_nil _ _
  | cons c s ih =>
    rw [splitSpaces]
    split
    · cases b with
      | true => exact ih true
      | false => exact List.cons_ne_nil _ _
    · split <;> exact List.cons_ne_nil _ _

/-- A word is a part where it ends, and the last part where nothing follows. -/
theorem splitSpaces_word_end (hne : w ≠ []) (hw : ∀ c ∈ w, isSpace c = false)
    (hrest : ∀ c ∈ rest.head?, isSpace c = true) :
    ∃ parts, splitSpaces b (w ++ rest) = w :: parts ∧ (parts = [] ↔ rest = []) := by
  cases rest with
  | nil =>
    have hword : splitSpaces b (w ++ []) = [w ++ []] := splitSpaces_word hne hw rfl
    exact ⟨[], hword.trans (by rw [List.append_nil]), iff_of_true rfl rfl⟩
  | cons c rest =>
    have hblank : splitSpaces false (c :: rest) = [] :: splitSpaces true rest := by
      rw [splitSpaces, if_pos (hrest c rfl), if_neg Bool.false_ne_true]
    have hword := splitSpaces_word (b := b) hne hw hblank
    rw [List.append_nil] at hword
    exact ⟨_, hword, iff_of_false (splitSpaces_ne_nil _ _) (List.cons_ne_nil _ _)⟩

end Parts

section Grammar

/-- A character of addresses and names. -/
def isPlain (c : Char) : Bool := !isSpace c && c ≠ '#' && c ≠ '\\'

theorem isPlain_of_isWord {c : Char} (h : isWord c = true) : isPlain c = true := by
  have hne {d : Char} (hd : isWord d = false) : c ≠ d := by
    rintro rfl
    rw [h] at hd
    exact absurd hd nofun
  simp [isPlain, not_isSpace_of_isWord h, hne (d := '#') (by decide), hne (d := '\\') (by decide)]

theorem forall_mem_joined {sep : Char} {p : Char → Bool} (hsep : p sep = true) {gs : List Text}
    (h : ∀ g ∈ gs, ∀ c ∈ g, p c = true) : ∀ c ∈ joined sep gs, p c = true := by
  induction gs with
  | nil => simp [joined]
  | cons g gs ih =>
    rw [List.forall_mem_cons] at h
    cases gs with
    | nil => exact h.1
    | cons g' gs =>
      intro c hc
      rw [joined_cons, List.mem_append, List.mem_cons] at hc
      rcases hc with hc | rfl | hc
      · exact h.1 c hc
      · exact hsep
      · exact ih h.2 c hc

theorem IsIpv4.isPlain {x : Text} (h : IsIpv4 x) : ∀ c ∈ x, isPlain c = true := by
  obtain ⟨a, b, c, d, ha, hb, hc, hd, rfl⟩ := h
  have hoctet {x : Text} (hx : IsOctet x) : ∀ c ∈ x, Storage.isPlain c = true :=
    fun c hc => isPlain_of_isWord (isWord_of_hexDigit (hexDigit_of_digit (hx.2.2.1 c hc)))
  have hdot : Storage.isPlain '.' = true := by decide
  simp only [List.mem_append, List.mem_cons]
  rintro e (he | rfl | he | rfl | he | rfl | he)
  · exact hoctet ha e he
  · exact hdot
  · exact hoctet hb e he
  · exact hdot
  · exact hoctet hc e he
  · exact hdot
  · exact hoctet hd e he

theorem IsGroups.isPlain {n : Nat} {x : Text} (h : IsGroups n x) : ∀ c ∈ x, isPlain c = true := by
  have hgroup {g : Text} (hg : IsGroup g) : ∀ c ∈ g, Storage.isPlain c = true :=
    fun c hc => isPlain_of_isWord (isWord_of_hexDigit (hg.2.2 c hc))
  obtain ⟨gs, hgs, ⟨-, rfl⟩ | ⟨a, ha, -, rfl⟩⟩ := h
  · exact forall_mem_joined (by decide) fun g hg => hgroup (hgs g hg)
  · apply forall_mem_joined (by decide)
    intro g hg
    rcases List.mem_append.mp hg with hg | hg
    · exact hgroup (hgs g hg)
    · rw [List.mem_singleton.mp hg]
      exact ha.isPlain

theorem IsIpv6.isPlain {x : Text} (h : IsIpv6 x) : ∀ c ∈ x, isPlain c = true := by
  rcases h with h | ⟨front, n, back, hfront, hback, -, rfl⟩
  · exact h.isPlain
  · have hfront' : IsGroups front.length (joined ':' front) := ⟨front, hfront, .inl ⟨rfl, rfl⟩⟩
    have hcolon : Storage.isPlain ':' = true := by decide
    simp only [List.mem_append, List.mem_cons, List.not_mem_nil, or_false]
    rintro c ((hc | rfl | rfl) | hc)
    · exact hfront'.isPlain c hc
    · exact hcolon
    · exact hcolon
    · exact hback.isPlain c hc

theorem joined_ne_nil {sep : Char} {gs : List Text} (hne : gs ≠ []) (h : ∀ g ∈ gs, g ≠ []) :
    joined sep gs ≠ [] := by
  match gs, hne with
  | [g], _ => exact h g List.mem_cons_self
  | g :: g' :: gs, _ => simp [joined]

theorem IsIpv4.ne_nil {x : Text} (h : IsIpv4 x) : x ≠ [] := by
  obtain ⟨a, b, c, d, -, -, -, -, rfl⟩ := h
  simp

theorem IsIpv6.ne_nil {x : Text} (h : IsIpv6 x) : x ≠ [] := by
  rcases h with ⟨gs, hgs, ⟨hlength, rfl⟩ | ⟨a, ha, -, rfl⟩⟩ | ⟨front, n, back, -, -, -, rfl⟩
  · exact joined_ne_nil (List.ne_nil_of_length_pos (by omega)) fun g hg => (hgs g hg).1
  · apply joined_ne_nil (by simp)
    intro g hg
    rcases List.mem_append.mp hg with hg | hg
    · exact (hgs g hg).1
    · rw [List.mem_singleton.mp hg]
      exact ha.ne_nil
  · simp

theorem IsAddress.ne_nil {x : Text} (h : IsAddress x) : x ≠ [] := by
  rcases h with h | h | ⟨a, zone, -, -, -, rfl⟩
  · exact h.ne_nil
  · exact h.ne_nil
  · simp

theorem IsAddress.isPlain {x : Text} (h : IsAddress x) : ∀ c ∈ x, isPlain c = true := by
  rcases h with h | h | ⟨a, zone, ha, -, hzone, rfl⟩
  · exact h.isPlain
  · exact h.isPlain
  · intro c hc
    rcases List.mem_append.mp hc with hc | hc
    · exact ha.isPlain c hc
    · rcases List.mem_cons.mp hc with rfl | hc
      · decide
      · exact isPlain_of_isWord (hzone c hc)

/-- A character of a label. -/
def isLabel (c : Char) : Bool := isWord c || c = '-'

def IsHostName (x : Text) : Prop :=
  ∃ labels : List Text, labels ≠ [] ∧ (∀ l ∈ labels, l ≠ [] ∧ ∀ c ∈ l, isLabel c = true) ∧
    x = joined '.' labels

theorem isPlain_of_isLabel {c : Char} (h : isLabel c = true) : isPlain c = true := by
  rw [isLabel, Bool.or_eq_true, decide_eq_true_eq] at h
  rcases h with h | rfl
  · exact isPlain_of_isWord h
  · decide

theorem IsHostName.isPlain {x : Text} (h : IsHostName x) : ∀ c ∈ x, isPlain c = true := by
  obtain ⟨labels, -, hlabels, rfl⟩ := h
  exact forall_mem_joined (by decide) fun l hl c hc => isPlain_of_isLabel ((hlabels l hl).2 c hc)

theorem IsHostName.ne_nil {x : Text} (h : IsHostName x) : x ≠ [] := by
  obtain ⟨labels, hne, hlabels, rfl⟩ := h
  exact joined_ne_nil hne fun l hl => (hlabels l hl).1

/-- A name ends in a label. -/
theorem IsHostName.getLast? {x : Text} (h : IsHostName x) :
    ∃ c, x.getLast? = some c ∧ isLabel c = true := by
  obtain ⟨labels, hne, hlabels, rfl⟩ := h
  induction labels with
  | nil => exact absurd rfl hne
  | cons l labels ih =>
    rw [List.forall_mem_cons] at hlabels
    cases labels with
    | nil =>
      exact ⟨_, List.getLast?_eq_some_getLast hlabels.1.1, hlabels.1.2 _ (List.getLast_mem _)⟩
    | cons l' labels =>
      obtain ⟨c, hlast, hc⟩ := ih (List.cons_ne_nil _ _) hlabels.2
      refine ⟨c, ?_, hc⟩
      rw [joined_cons, List.getLast?_append, List.getLast?_cons, hlast]
      rfl

abbrev Blanks := {s : Text // ∀ c ∈ s, isSpace c = true ∧ c ≠ '\n'}

abbrev Gap := {s : Blanks // s.val ≠ []}

abbrev HostName := {x : Text // IsHostName x}

/-- What is on a line before its comment and the blanks in front of that. -/
inductive HostsEntry
  | blank
  | hosts (lead : Blanks) (address : {x : Text // IsAddress x}) (gap : Gap) (name : HostName)
    (aliases : List (Gap × HostName))
  | plain (lead : Blanks) (name : HostName)

structure HostsLine where
  entry : HostsEntry
  trail : Blanks
  comment : Option {s : Text // '\n' ∉ s}

def aliasesText (aliases : List (Gap × HostName)) : Text :=
  aliases.flatMap fun a => a.1.val.val ++ a.2.val

namespace HostsEntry

def text : HostsEntry → Text
  | .blank => []
  | .hosts lead address gap name aliases =>
    lead.val ++ (address.val ++ (gap.val.val ++ (name.val ++ aliasesText aliases)))
  | .plain lead name => lead.val ++ name.val

/-- The host names of the entry. -/
def names : HostsEntry → List Text
  | .blank => []
  | .hosts _ _ _ name aliases => name.val :: aliases.map fun a => a.2.val
  | .plain _ name => [name.val]

end HostsEntry

namespace HostsLine

def body (line : HostsLine) : Text := line.entry.text ++ line.trail.val

def text (line : HostsLine) : Text :=
  line.body ++ (line.comment.map fun s => '#' :: s.val).getD []

/-- The name that stands where the parser looks for one: the first behind an address that
begins its line, or a name alone behind blanks, if nothing blank is behind it. -/
def Reads (line : HostsLine) (name : Text) : Prop :=
  match line.entry with
  | .blank => False
  | .hosts lead _ _ first _ => lead.val = [] ∧ name = first.val
  | .plain lead own => lead.val ≠ [] ∧ line.trail.val = [] ∧ name = own.val

end HostsLine

def hostsText (lines : List HostsLine) : Text := ['\n'].intercalate (lines.map HostsLine.text)

end Grammar

section Parsing

/-- A name without one leading `www.`. -/
def withoutWww (name : Text) : Text :=
  if "www.".toList.isPrefixOf name then name.drop 4 else name

theorem lineHost_eq (line : Text) :
    lineHost line = withoutWww (hostOfParts (splitSpaces false line)) := rfl

theorem withoutWww_ne_nil {name : Text} (h : IsHostName name) : withoutWww name ≠ [] := by
  rw [withoutWww]
  split
  next hwww =>
    obtain ⟨rest, rfl⟩ := List.isPrefixOf_iff_prefix.mp hwww
    rintro hnil
    have hrest : rest = [] := by simpa using hnil
    obtain ⟨c, hlast, hc⟩ := h.getLast?
    rw [hrest, List.append_nil] at hlast
    obtain rfl := Option.some.inj hlast
    exact absurd hc (by decide)
  next => exact h.ne_nil

theorem matchAny_plain {x : Text} (hne : x ≠ []) (hx : ∀ c ∈ x, isPlain c = true) :
    matchAny x [ipv4Pattern, ipv6Pattern] = false := by
  obtain ⟨c, x, rfl⟩ := List.exists_cons_of_ne_nil hne
  have hc : c ≠ '\\' := by
    rintro rfl
    exact absurd (hx '\\' List.mem_cons_self) (by decide)
  have hv4 : ipv4Pattern = '\\' :: ipv4Pattern.tail := rfl
  have hv6 : ipv6Pattern = '\\' :: ipv6Pattern.tail := rfl
  rw [matchAny, hv4, hv6]
  simp [List.isPrefixOf, hc]

/-- The empty part in front of leading blanks is taken for the start of a pattern. -/
theorem matchAny_nil : matchAny [] [ipv4Pattern, ipv6Pattern] = true := by decide

theorem hostOfParts_plain {first second : Text} {parts : List Text} (hne : first ≠ [])
    (hfirst : ∀ c ∈ first, isPlain c = true) : hostOfParts (first :: second :: parts) = second := by
  rw [hostOfParts, matchAny_plain hne hfirst, Bool.not_false, if_pos rfl]

theorem hostOfParts_empty (second : Text) (parts : List Text) :
    hostOfParts ([] :: second :: parts) = if parts.isEmpty then second else [] := by
  rw [hostOfParts, matchAny_nil, Bool.not_true, if_neg Bool.false_ne_true]

theorem not_isSpace_of_isPlain {x : Text} (hx : ∀ c ∈ x, isPlain c = true) :
    ∀ c ∈ x, isSpace c = false := by
  intro c hc
  have hplain := hx c hc
  simp only [isPlain, Bool.and_eq_true, Bool.not_eq_true'] at hplain
  exact hplain.1.1

theorem head?_trail (trail : Blanks) : ∀ c ∈ trail.val.head?, isSpace c = true :=
  fun c hc => (trail.property c (List.mem_of_mem_head? hc)).1

theorem head?_aliases (aliases : List (Gap × HostName)) (trail : Blanks) :
    ∀ c ∈ (aliasesText aliases ++ trail.val).head?, isSpace c = true := by
  cases aliases with
  | nil => exact head?_trail trail
  | cons a aliases =>
    intro c hc
    obtain ⟨c', gap, hgap⟩ := List.exists_cons_of_ne_nil a.1.property
    simp only [aliasesText, List.flatMap_cons, List.append_assoc, hgap, List.cons_append,
      List.head?_cons, Option.mem_some] at hc
    subst hc
    exact (a.1.val.property c' (hgap ▸ List.mem_cons_self)).1

theorem splitSpaces_lead (lead : Blanks) (rest : Text) (hrest : lead.val ≠ []) :
    splitSpaces false (lead.val ++ rest) = [] :: splitSpaces true rest :=
  splitSpaces_blanks hrest fun c hc => (lead.property c hc).1

theorem splitSpaces_address (b : Bool) (address : {x : Text // IsAddress x}) (gap : Gap)
    (rest : Text) : splitSpaces b (address.val ++ (gap.val.val ++ rest)) =
      address.val :: splitSpaces true rest := by
  rw [splitSpaces_word address.property.ne_nil (not_isSpace_of_isPlain address.property.isPlain)
    (splitSpaces_blanks gap.property fun c hc => (gap.val.property c hc).1), List.append_nil]

theorem splitSpaces_name (b : Bool) (name : HostName) {rest : Text}
    (hrest : ∀ c ∈ rest.head?, isSpace c = true) :
    ∃ parts, splitSpaces b (name.val ++ rest) = name.val :: parts ∧ (parts = [] ↔ rest = []) :=
  splitSpaces_word_end name.property.ne_nil (not_isSpace_of_isPlain name.property.isPlain) hrest

/-- The part that is taken for the host: the name that is read, or nothing. -/
theorem hostOfParts_body (line : HostsLine) :
    (∃ name, IsHostName name ∧ (∀ name', line.Reads name' ↔ name' = name) ∧
      hostOfParts (splitSpaces false line.body) = name) ∨
    ((∀ name, ¬ line.Reads name) ∧ hostOfParts (splitSpaces false line.body) = []) := by
  obtain ⟨entry, trail, comment⟩ := line
  cases entry with
  | blank =>
    refine .inr ⟨fun _ => id, ?_⟩
    rw [HostsLine.body, HostsEntry.text, List.nil_append]
    by_cases htrail : trail.val = []
    · rw [htrail]
      rfl
    · have hparts := splitSpaces_lead trail [] htrail
      rw [List.append_nil] at hparts
      rw [hparts]
      rfl
  | hosts lead address gap name aliases =>
    obtain ⟨parts, hname, -⟩ := splitSpaces_name true name (head?_aliases aliases trail)
    have hbody : (⟨.hosts lead address gap name aliases, trail, comment⟩ : HostsLine).body =
        lead.val ++ (address.val ++ (gap.val.val ++
          (name.val ++ (aliasesText aliases ++ trail.val)))) := by
      simp [HostsLine.body, HostsEntry.text]
    rw [hbody]
    by_cases hlead : lead.val = []
    · left
      refine ⟨name.val, name.property, ?_, ?_⟩
      · intro name'
        simp [HostsLine.Reads, hlead]
      · rw [hlead, List.nil_append, splitSpaces_address, hname,
          hostOfParts_plain address.property.ne_nil address.property.isPlain]
    · right
      refine ⟨fun _ hreads => hlead hreads.1, ?_⟩
      rw [splitSpaces_lead lead _ hlead, splitSpaces_address, hname, hostOfParts_empty]
      rfl
  | plain lead name =>
    have hbody : (⟨.plain lead name, trail, comment⟩ : HostsLine).body =
        lead.val ++ (name.val ++ trail.val) := by
      simp [HostsLine.body, HostsEntry.text]
    rw [hbody]
    by_cases hlead : lead.val = []
    · -- the name is the first part, and the second one is looked at
      right
      refine ⟨fun _ hreads => hreads.1 hlead, ?_⟩
      rw [hlead, List.nil_append]
      by_cases htrail : trail.val = []
      · obtain ⟨parts, hname, hparts⟩ := splitSpaces_name false name (head?_trail trail)
        rw [hname, hparts.mpr htrail]
        rfl
      · have hblanks := splitSpaces_lead trail [] htrail
        rw [List.append_nil] at hblanks
        rw [splitSpaces_word name.property.ne_nil (not_isSpace_of_isPlain name.property.isPlain)
          hblanks, List.append_nil]
        exact hostOfParts_plain name.property.ne_nil name.property.isPlain
    · obtain ⟨parts, hname, hparts⟩ := splitSpaces_name true name (head?_trail trail)
      rw [splitSpaces_lead lead _ hlead, hname, hostOfParts_empty]
      by_cases htrail : trail.val = []
      · left
        refine ⟨name.val, name.property, ?_, ?_⟩
        · intro name'
          simp [HostsLine.Reads, hlead, htrail]
        · rw [hparts.mpr htrail]
          rfl
      · right
        refine ⟨fun _ hreads => htrail hreads.2.1, ?_⟩
        rw [if_neg]
        rw [List.isEmpty_iff]
        exact fun hnil => htrail (hparts.mp hnil)

theorem lineHost_body_iff (line : HostsLine) (h : Text) :
    h = lineHost line.body ∧ lineHost line.body ≠ [] ↔
      ∃ name, line.Reads name ∧ h = withoutWww name := by
  rw [lineHost_eq]
  obtain ⟨name, hname, hreads, hparts⟩ | ⟨hnone, hparts⟩ := hostOfParts_body line
  · rw [hparts, and_iff_left (withoutWww_ne_nil hname)]
    simp only [hreads, exists_eq_left]
  · rw [hparts]
    have hnil : withoutWww [] = [] := by decide
    constructor
    · rintro ⟨-, hne⟩
      exact absurd hnil hne
    · rintro ⟨name, hreads, -⟩
      exact absurd hreads (hnone name)

theorem HostsLine.Reads.mem_names {line : HostsLine} {name : Text} (h : line.Reads name) :
    name ∈ line.entry.names := by
  obtain ⟨entry, trail, comment⟩ := line
  cases entry with
  | blank => exact h.elim
  | hosts lead address gap first aliases => exact h.2 ▸ List.mem_cons_self
  | plain lead own => exact h.2.2 ▸ List.mem_singleton_self _

end Parsing

section Complete

/-- Before its comment a line has neither the mark of a comment nor an end of line. -/
theorem mem_body {line : HostsLine} {c : Char} (hc : c ∈ line.body) : c ≠ '#' ∧ c ≠ '\n' := by
  have hblanks {s : Blanks} (hs : c ∈ s.val) : c ≠ '#' ∧ c ≠ '\n' := by
    refine ⟨?_, (s.property c hs).2⟩
    rintro rfl
    exact absurd (s.property '#' hs).1 (by decide)
  have hplain {x : Text} (hx : ∀ c ∈ x, isPlain c = true) (hmem : c ∈ x) : c ≠ '#' ∧ c ≠ '\n' := by
    have hc := hx c hmem
    constructor
    · rintro rfl
      exact absurd hc (by decide)
    · rintro rfl
      exact absurd hc (by decide)
  obtain ⟨entry, trail, comment⟩ := line
  rcases List.mem_append.mp hc with hc | hc
  · cases entry with
    | blank => exact absurd hc List.not_mem_nil
    | hosts lead address gap name aliases =>
      simp only [HostsEntry.text, List.mem_append] at hc
      rcases hc with hc | hc | hc | hc | hc
      · exact hblanks hc
      · exact hplain address.property.isPlain hc
      · exact hblanks hc
      · exact hplain name.property.isPlain hc
      · obtain ⟨a, -, ha⟩ := List.mem_flatMap.mp hc
        rcases List.mem_append.mp ha with ha | ha
        · exact hblanks ha
        · exact hplain a.2.property.isPlain ha
    | plain lead name =>
      rcases List.mem_append.mp hc with hc | hc
      · exact hblanks hc
      · exact hplain name.property.isPlain hc
  · exact hblanks hc

theorem takeWhile_text (line : HostsLine) : line.text.takeWhile (· ≠ '#') = line.body := by
  have hbody : ∀ c ∈ line.body, decide (c ≠ '#') = true :=
    fun c hc => decide_eq_true (mem_body hc).1
  rw [HostsLine.text, List.takeWhile_append_of_pos hbody]
  cases line.comment with
  | none => simp
  | some s => simp

theorem splitOn_hostsText {lines : List HostsLine} (hne : lines ≠ []) :
    (hostsText lines).splitOn '\n' = lines.map HostsLine.text := by
  apply List.splitOn_intercalate
  · intro text htext
    obtain ⟨line, -, rfl⟩ := List.mem_map.mp htext
    rw [HostsLine.text, List.mem_append, not_or]
    refine ⟨fun hc => (mem_body hc).2 rfl, ?_⟩
    cases line.comment with
    | none => exact List.not_mem_nil
    | some s =>
      rw [Option.map_some, Option.getD_some, List.mem_cons, not_or]
      exact ⟨by decide, s.property⟩
  · simpa using hne

/-- The hosts of a file: the names that are read, without `www.`. -/
theorem mem_hosts_iff (lines : List HostsLine) (h : Text) :
    h ∈ (parseHosts (hostsText lines) .empty).hosts.elems ↔
      ∃ line ∈ lines, ∃ name, line.Reads name ∧ h = withoutWww name := by
  have hhas := has_parseHosts_iff (h := ⟨none, h, .host⟩) (hostsText lines) .empty
  rw [or_iff_right not_has_empty] at hhas
  have hmem : (parseHosts (hostsText lines) .empty).Has ⟨none, h, .host⟩ ↔
      h ∈ (parseHosts (hostsText lines) .empty).hosts.elems := by
    simp [HostsParsingResult.Has]
  rw [← hmem, hhas]
  by_cases hne : lines = []
  · subst hne
    constructor
    · rintro ⟨line, hline, -, hhost⟩
      obtain rfl : line = [] := by simpa [hostsText, List.intercalate] using hline
      exact absurd rfl hhost.2
    · rintro ⟨line, hline, -⟩
      exact absurd hline List.not_mem_nil
  · rw [splitOn_hostsText hne]
    simp only [List.mem_map, exists_exists_and_eq_and, takeWhile_text, LineHas, true_and,
      lineHost_body_iff]

/-- The hosts of a file are the names of its entries, each without `www.`. -/
def ParsedCompletely (lines : List HostsLine) : Prop :=
  ∀ h, h ∈ (parseHosts (hostsText lines) .empty).hosts.elems ↔
    ∃ line ∈ lines, ∃ name ∈ line.entry.names, h = withoutWww name

/-- A file is parsed completely exactly if each of its names, up to one `www.`, stands
somewhere in it where the parser looks for names. -/
theorem parsedCompletely_iff (lines : List HostsLine) :
    ParsedCompletely lines ↔ ∀ line ∈ lines, ∀ name ∈ line.entry.names,
      ∃ line' ∈ lines, ∃ name', line'.Reads name' ∧ withoutWww name = withoutWww name' := by
  constructor
  · intro hcomplete line hline name hname
    exact (mem_hosts_iff lines _).mp ((hcomplete _).mpr ⟨line, hline, name, hname, rfl⟩)
  · intro hread h
    rw [mem_hosts_iff]
    constructor
    · rintro ⟨line, hline, name, hreads, rfl⟩
      exact ⟨line, hline, name, hreads.mem_names, rfl⟩
    · rintro ⟨line, hline, name, hname, rfl⟩
      exact hread line hline name hname

def HostName.sample : HostName :=
  ⟨"ads.net".toList, ["ads".toList, "net".toList], by decide, by simp [isLabel, isWord], rfl⟩

/-- A name alone on its line is not read, and of two names behind an address only the
first one is. -/
theorem not_parsedCompletely :
    hostsText [⟨.plain ⟨[], nofun⟩ .sample, ⟨[], nofun⟩, none⟩] = "ads.net".toList ∧
      ¬ ParsedCompletely [⟨.plain ⟨[], nofun⟩ .sample, ⟨[], nofun⟩, none⟩] ∧
      (parseHosts "0.0.0.0 a b".toList .empty).hosts.elems = ["a".toList] := by
  refine ⟨by decide, ?_, by decide +kernel⟩
  intro hcomplete
  have hmem := (hcomplete "ads.net".toList).mpr
    ⟨_, List.mem_singleton_self _, _, List.mem_singleton_self _, by decide⟩
  obtain ⟨line, hline, name, hreads, -⟩ := (mem_hosts_iff _ _).mp hmem
  rw [List.mem_singleton.mp hline] at hreads
  exact hreads.1 rfl

end Complete

end NetGuard.Storage
