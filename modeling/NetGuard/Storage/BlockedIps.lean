import NetGuard.Storage.Fragments
import NetGuard.Storage.HostsFile

/-! # Blocked addresses

The parser takes for an address whatever the patterns find in a line. A blank ends what
they find, so each word of a line is searched on its own. The addresses that only redirect
are listed, but the list is not used.
-/
namespace NetGuard.Storage
open Service (Text)

section Words

/-- "Some ips found in hostsfiles that we want to ignore". -/
def ignoreIps : List Text :=
  ["0.0.0.0", "127.0.0.1", "255.255.255.255", "::1", "fe80::1%lo0", "ff00::0", "ff00::0", "ff02::1",
    "ff02::2", "ff02::3"].map String.toList

/-- What stands between blanks in a line. -/
def wordsOf (line : Text) : List Text := (splitSpaces false line).filter fun w => !w.isEmpty

/-- The words of the lines, each without its comment. -/
def words (source : Text) : List Text :=
  (source.splitOn '\n').flatMap fun line => wordsOf (line.takeWhile (· ≠ '#'))

theorem mem_words {source w : Text} : w ∈ words source ↔
    ∃ line ∈ source.splitOn '\n', w ∈ wordsOf (line.takeWhile (· ≠ '#')) := List.mem_flatMap

/-- What is found in the parts of a line, if a blank parts what is found. -/
theorem flatMap_splitSpaces {f : Text → List Text} (hnil : f [] = [])
    (happend : ∀ c, isSpace c = true → ∀ w rest, f (w ++ c :: rest) = f w ++ f rest) (line : Text) :
    (splitSpaces false line).flatMap f = f line := by
  have hparts (line : Text) : (splitSpaces true line).flatMap f = f line ∧
      ∀ w, ∃ part parts, splitSpaces false line = part :: parts ∧
        f (w ++ part) ++ parts.flatMap f = f (w ++ line) := by
    induction line with
    | nil =>
      refine ⟨by simp [splitSpaces], fun w => ⟨[], [], rfl, by simp⟩⟩
    | cons c line ih =>
      obtain ⟨hblanks, hword⟩ := ih
      by_cases hc : isSpace c = true
      · constructor
        · rw [splitSpaces, if_pos hc, if_pos rfl, hblanks]
          have hcut := happend c hc [] line
          rwa [List.nil_append, hnil, List.nil_append, eq_comm] at hcut
        · intro w
          refine ⟨[], splitSpaces true line, ?_, ?_⟩
          · rw [splitSpaces, if_pos hc, if_neg Bool.false_ne_true]
          · rw [List.append_nil, hblanks, happend c hc]
      · have hsplit (b : Bool) (w : Text) : ∃ part parts, splitSpaces b (c :: line) = part :: parts ∧
            f (w ++ part) ++ parts.flatMap f = f (w ++ c :: line) := by
          -- the symbol goes to the word before the rest
          obtain ⟨part, parts, hparts, hfound⟩ := hword (w ++ [c])
          refine ⟨c :: part, parts, ?_, ?_⟩
          · rw [splitSpaces, if_neg hc, hparts]
          · rwa [List.append_assoc, List.append_assoc] at hfound
        refine ⟨?_, hsplit false⟩
        obtain ⟨part, parts, hparts, hfound⟩ := hsplit true []
        rw [hparts, List.flatMap_cons]
        exact hfound
  obtain ⟨part, parts, hsplit, hfound⟩ := (hparts line).2 []
  rw [hsplit, List.flatMap_cons]
  exact hfound

end Words

section Found
open Regex
variable {Fragment : Option Char → Text → Text → Prop} {r : Regex Char} {c : Char}
  {rest tail : Text}

theorem head?_append_blank (hc : isSpace c = true) (rest tail : Text) :
    (rest ++ c :: tail).head?.any isWord = rest.head?.any isWord := by
  cases rest with
  | nil => exact not_isWord_of_isSpace hc
  | cons b rest => rfl

theorem separates_ipv4 : Separates isSpace Ipv4Fragment where
  not_mem := fun hx => not_isSpace_of_isPlain (isIpv4_of_mem_dotted hx.1).isPlain
  before := by
    intro c x rest hc
    rw [Ipv4Fragment, Ipv4Fragment, Option.any_some, not_isWord_of_isSpace hc]
    rfl
  behind := by
    intro previous c x rest tail hc
    rw [Ipv4Fragment, Ipv4Fragment, head?_append_blank hc]

theorem continues_append_blank (hc : isSpace c = true) :
    Continues (rest ++ c :: tail) ↔ Continues rest := by
  constructor
  · rintro ⟨g, rest', hg, htext, hrest'⟩
    have hgroup : ∀ b ∈ ':' :: g, isSpace b = false :=
      List.forall_mem_cons.mpr ⟨by decide, fun b hb => not_isSpace_of_isWord (hg.isWord b hb)⟩
    obtain ⟨w, hw, hrest⟩ := exists_of_append_sep hc hgroup htext
    refine ⟨g, w, hg, hw, ?_⟩
    rwa [hrest, head?_append_blank hc] at hrest'
  · rintro ⟨g, rest', hg, rfl, hrest'⟩
    refine ⟨g, rest' ++ c :: tail, hg, by simp, ?_⟩
    rwa [head?_append_blank hc]

theorem separates_ipv6 : Separates isSpace Ipv6Fragment where
  not_mem := fun hx => not_isSpace_of_isPlain hx.isIpv6.isPlain
  before := by
    intro c x rest hc
    have hblank : (some c).any isWord = (none : Option Char).any isWord := not_isWord_of_isSpace hc
    constructor
    · intro hx
      exact hx.beside hblank.symm rfl id
    · intro hx
      exact hx.beside hblank rfl id
  behind := by
    intro previous c x rest tail hc
    have hhead := head?_append_blank hc rest tail
    constructor
    · intro hx
      exact hx.beside rfl hhead.symm (continues_append_blank hc).mpr
    · intro hx
      exact hx.beside rfl hhead (continues_append_blank hc).mp

/-- A line is searched word by word. -/
theorem mem_allMatches_iff (h : Finds r Fragment) (hs : Separates isSpace Fragment)
    (line x : Text) : x ∈ r.allMatches line ↔ ∃ w ∈ wordsOf line, Found Fragment none w x := by
  have hparts := flatMap_splitSpaces (f := r.matchesFrom none 0) h.matchesFrom_nil
    (fun c hc w rest => h.matchesFrom_append_sep hs hc none w rest) line
  rw [allMatches, ← hparts, List.mem_flatMap]
  simp only [h.mem_matchesFrom, wordsOf, List.mem_filter, Bool.not_eq_true',
    List.isEmpty_eq_false_iff]
  constructor
  · rintro ⟨w, hw, hfound⟩
    refine ⟨w, ⟨hw, ?_⟩, hfound⟩
    rintro rfl
    rw [← h.mem_matchesFrom, h.matchesFrom_nil] at hfound
    exact absurd hfound List.not_mem_nil
  · rintro ⟨w, ⟨hw, -⟩, hfound⟩
    exact ⟨w, hw, hfound⟩

/-- What reads as an address in a word: an IPv4 address that no letter or digit touches, or
the part of an IPv6 address up to or from its `::`. -/
def ReadsAddress (w x : Text) : Prop := Found Ipv4Fragment none w x ∨ Found Ipv6Fragment none w x

theorem ReadsAddress.isAddress {w x : Text} (h : ReadsAddress w x) : IsIpv4 x ∨ IsIpv6 x := by
  rcases h with h | h
  · obtain ⟨before, rest, -, hx⟩ := finds_ipv4.occurs h
    exact .inl (isIpv4_of_mem_dotted hx.1)
  · obtain ⟨before, rest, -, hx⟩ := finds_ipv6.occurs h
    exact .inr hx.isIpv6

/-- Of the words that are addresses only those with four octets are read as a whole. -/
theorem readsAddress_self {w : Text} : ReadsAddress w w ↔ w ∈ dotted := by
  have hwhole {before rest : Text} (heq : w = before ++ (w ++ rest)) : before = [] ∧ rest = [] := by
    have hlength := congrArg List.length heq
    simp only [List.length_append] at hlength
    exact ⟨List.length_eq_zero_iff.mp (by omega), List.length_eq_zero_iff.mp (by omega)⟩
  constructor
  · rintro (h | h)
    · obtain ⟨before, rest, -, hx⟩ := finds_ipv4.occurs h
      exact hx.1
    · -- a part of an IPv6 address has a word character beside it
      obtain ⟨before, rest, heq, hx⟩ := finds_ipv6.occurs h
      obtain ⟨rfl, rfl⟩ := hwhole heq
      cases hx with
      | front gs hpos hlength hgs hx hprevious hrest => exact absurd hrest nofun
      | back gs hpos hlength hgs hx hprevious => exact absurd hprevious nofun
  · intro hw
    exact .inl (.here (List.append_nil w).symm ⟨hw, rfl, rfl⟩)

theorem mem_lineIps_iff (line x : Text) :
    x ∈ lineIps line ↔ ∃ w ∈ wordsOf line, ReadsAddress w x := by
  have hmem : x ∈ ipv4.allMatches line ∨ x ∈ ipv6.allMatches line ↔
      ∃ w ∈ wordsOf line, ReadsAddress w x := by
    rw [mem_allMatches_iff finds_ipv4 separates_ipv4, mem_allMatches_iff finds_ipv6 separates_ipv6]
    simp only [ReadsAddress, and_or_left, exists_or]
  rw [lineIps, List.mem_filter, List.mem_append, hmem, and_iff_left_of_imp]
  rintro ⟨w, -, hx⟩
  rw [Bool.not_eq_true', List.isEmpty_eq_false_iff]
  exact hx.isAddress.elim IsIpv4.ne_nil IsIpv6.ne_nil

/-- The addresses of a file are what reads as an address in its words. -/
theorem mem_ips_iff (source x : Text) :
    x ∈ (parseHosts source .empty).ips.elems ↔ ∃ w ∈ words source, ReadsAddress w x := by
  have hhas := has_parseHosts_iff (h := ⟨none, x, .ip⟩) source .empty
  rw [or_iff_right not_has_empty] at hhas
  have hmem : (parseHosts source .empty).Has ⟨none, x, .ip⟩ ↔
      x ∈ (parseHosts source .empty).ips.elems := by
    simp [HostsParsingResult.Has]
  rw [← hmem, hhas]
  simp only [LineHas, true_and, mem_lineIps_iff, mem_words]
  constructor
  · rintro ⟨line, hline, w, hw, hx⟩
    exact ⟨w, ⟨line, hline, hw⟩, hx⟩
  · rintro ⟨w, ⟨line, hline, hw⟩, hx⟩
    exact ⟨line, hline, w, hw, hx⟩

end Found

section Real

/-- Each address that is taken is a word of the file, and none of those to ignore. -/
def OnlyRealIps (source : Text) : Prop :=
  ∀ x ∈ (parseHosts source .empty).ips.elems,
    (IsIpv4 x ∨ IsIpv6 x) ∧ x ∈ words source ∧ x ∉ ignoreIps

/-- Only real addresses are taken exactly if no IPv4 word is to be ignored, and whatever reads
as an address inside a longer word is a word of its own, and none to ignore. -/
theorem onlyRealIps_iff (source : Text) :
    OnlyRealIps source ↔ (∀ w ∈ words source, w ∈ dotted → w ∉ ignoreIps) ∧
      ∀ w ∈ words source, ∀ x, x ≠ w → ReadsAddress w x → x ∈ words source ∧ x ∉ ignoreIps := by
  constructor
  · intro hreal
    constructor
    · intro w hw hdotted
      exact (hreal w ((mem_ips_iff source w).mpr ⟨w, hw, readsAddress_self.mpr hdotted⟩)).2.2
    · intro w hw x _ hx
      exact (hreal x ((mem_ips_iff source x).mpr ⟨w, hw, hx⟩)).2
  · rintro ⟨hwhole, hinside⟩ x hx
    obtain ⟨w, hw, hx⟩ := (mem_ips_iff source x).mp hx
    refine ⟨hx.isAddress, ?_⟩
    by_cases hsame : x = w
    · subst hsame
      exact ⟨hw, hwhole x hw (readsAddress_self.mp hx)⟩
    · exact hinside w hw x hsame hx

/-- The address that a hosts file redirects to is taken, and so are four numbers in a name. -/
theorem not_onlyRealIps :
    ¬ OnlyRealIps "0.0.0.0 ads.net".toList ∧ ¬ OnlyRealIps "10.0.0.1 1.2.3.4.ads.net".toList := by
  constructor
  · intro hreal
    have hmem : "0.0.0.0".toList ∈ (parseHosts "0.0.0.0 ads.net".toList .empty).ips.elems := by
      decide +kernel
    exact (hreal _ hmem).2.2 (by decide)
  · intro hreal
    have hmem : "1.2.3.4".toList ∈
        (parseHosts "10.0.0.1 1.2.3.4.ads.net".toList .empty).ips.elems := by
      decide +kernel
    exact absurd (hreal _ hmem).2.1 (by decide +kernel)

end Real

end NetGuard.Storage
