import Mathlib.Data.List.Basic

namespace IrohNix.Lib

/-- What follows a prefix, where the string starts with it. -/
def stripPrefix (pre s : String) : Option String :=
  if pre.toList.isPrefixOf s.toList then
    some (String.ofList (s.toList.drop pre.toList.length))
  else none

theorem stripPrefix_eq_some {pre s rest : String} :
    stripPrefix pre s = some rest ↔ s = pre ++ rest := by
  constructor
  · intro h
    unfold stripPrefix at h
    split at h
    · rename_i hp
      obtain ⟨tail, ht⟩ := List.isPrefixOf_iff_prefix.mp hp
      simp only [← ht, List.drop_left, Option.some.injEq] at h
      apply String.toList_injective
      rw [← h, String.toList_append, String.toList_ofList, ht]
    · contradiction
  · intro h
    subst h
    have hp : pre.toList <+: pre.toList ++ rest.toList := List.prefix_append _ _
    simp [stripPrefix, hp]

@[simp] theorem stripPrefix_append (pre rest : String) :
    stripPrefix pre (pre ++ rest) = some rest := stripPrefix_eq_some.mpr rfl

/-- Prefixes taken off as often as there are any, by as much fuel as there are characters. -/
def dropPrefixes (pre : List Char) : Nat → List Char → List Char
  | 0, s => s
  | fuel + 1, s =>
    if pre.isPrefixOf s then dropPrefixes pre fuel (s.drop pre.length) else s

def trimStartMatches (pre s : String) : String :=
  String.ofList (dropPrefixes pre.toList s.toList.length s.toList)

def trimEndMatches (suffix s : String) : String :=
  String.ofList (dropPrefixes suffix.toList.reverse s.toList.length s.toList.reverse).reverse

/-- A prefix is taken off once where one of its characters occurs no further. -/
theorem dropPrefixes_once {pre s : List Char} {c : Char} (hc : c ∈ pre) (hs : c ∉ s) :
    dropPrefixes pre (pre ++ s).length (pre ++ s) = s := by
  have no_more : pre.isPrefixOf s = false := by
    rw [Bool.eq_false_iff, ne_eq, List.isPrefixOf_iff_prefix]
    intro h
    exact hs (h.subset hc)
  have stays : ∀ fuel, dropPrefixes pre fuel s = s := by
    intro fuel
    cases fuel with
    | zero => rfl
    | succ fuel => simp [dropPrefixes, no_more]
  obtain ⟨fuel, hfuel⟩ : ∃ fuel, (pre ++ s).length = fuel + 1 := by
    have := List.length_pos_of_mem hc
    exact ⟨(pre ++ s).length - 1, by simp; omega⟩
  rw [hfuel, dropPrefixes, if_pos (List.isPrefixOf_iff_prefix.mpr (List.prefix_append pre s)),
    List.drop_left, stays]

theorem trimStartMatches_once {pre s : String} {c : Char} (hc : c ∈ pre.toList)
    (hs : c ∉ s.toList) : trimStartMatches pre (pre ++ s) = s := by
  rw [trimStartMatches, String.toList_append, dropPrefixes_once hc hs, String.ofList_toList]

theorem trimEndMatches_once {suffix s : String} {c : Char} (hc : c ∈ suffix.toList)
    (hs : c ∉ s.toList) : trimEndMatches suffix (s ++ suffix) = s := by
  have trimmed := dropPrefixes_once (List.mem_reverse.mpr hc) (mt List.mem_reverse.mp hs)
  rw [← List.reverse_append, List.length_reverse] at trimmed
  rw [trimEndMatches, String.toList_append, trimmed, List.reverse_reverse, String.ofList_toList]

/-- The Unicode property White_Space. -/
def isWhitespace (c : Char) : Bool :=
  let n := c.toNat
  (0x9 ≤ n && n ≤ 0xD) || n == 0x20 || n == 0x85 || n == 0xA0 || n == 0x1680 ||
    (0x2000 ≤ n && n ≤ 0x200A) || n == 0x2028 || n == 0x2029 || n == 0x202F ||
    n == 0x205F || n == 0x3000

theorem isWhitespace_ascii {c : Char} (space : 32 < c.toNat) (ascii : c.toNat < 128) :
    isWhitespace c = false := by
  simp only [isWhitespace, Bool.or_eq_false_iff, Bool.and_eq_false_iff, decide_eq_false_iff_not,
    beq_eq_false_iff_ne]
  omega

/-- The non-empty pieces between white space. -/
def splitWhitespace (s : String) : List String :=
  ((s.toList.splitOnP isWhitespace).filter (fun piece => !piece.isEmpty)).map String.ofList

/-- A text that splitting at white space leaves whole. -/
def IsWord (s : String) : Prop := s ≠ "" ∧ ∀ c ∈ s.toList, isWhitespace c = false

instance (s : String) : Decidable (IsWord s) :=
  decidable_of_iff (s ≠ "" ∧ s.toList.all (fun c => !isWhitespace c) = true) (by simp [IsWord])

theorem IsWord.append {a b : String} (ha : IsWord a) (hb : ∀ c ∈ b.toList, isWhitespace c = false) :
    IsWord (a ++ b) := by
  constructor
  · intro h
    exact ha.1 (String.append_eq_empty_iff.mp h).1
  · intro c hc
    rw [String.toList_append, List.mem_append] at hc
    rcases hc with hc | hc
    · exact ha.2 c hc
    · exact hb c hc

theorem splitWhitespace_word_append {w : String} (hw : IsWord w) (s : String) :
    splitWhitespace (w ++ (" " ++ s)) = w :: splitWhitespace s := by
  obtain ⟨hne, hclean⟩ := hw
  have hsplit : (w.toList ++ ' ' :: s.toList).splitOnP isWhitespace =
      w.toList :: s.toList.splitOnP isWhitespace :=
    List.splitOnP_append_cons_of_forall_mem hclean ' ' (by decide) s.toList
  simp only [splitWhitespace, String.toList_append]
  rw [show " ".toList ++ s.toList = ' ' :: s.toList from rfl, hsplit]
  simp [hne]

theorem splitWhitespace_word {w : String} (hw : IsWord w) : splitWhitespace w = [w] := by
  obtain ⟨hne, hclean⟩ := hw
  rw [splitWhitespace, List.splitOnP_eq_singleton hclean]
  simp [hne]

/-- Words joined by blanks are read back. -/
theorem splitWhitespace_join {words : List String} (hw : ∀ w ∈ words, IsWord w) :
    splitWhitespace (" ".intercalate words) = words := by
  induction words with
  | nil => rfl
  | cons w words ih =>
    have hhead := hw w (by simp)
    have htail := ih (fun v hv => hw v (by simp [hv]))
    cases words with
    | nil => simpa using splitWhitespace_word hhead
    | cons v vs =>
      rw [String.intercalate_cons_of_ne_nil (by simp), String.append_assoc,
        splitWhitespace_word_append hhead, htail]

end IrohNix.Lib
