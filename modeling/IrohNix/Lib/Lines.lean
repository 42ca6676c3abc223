import IrohNix.Lib.Text
import Mathlib.Algebra.GroupWithZero.Nat

namespace IrohNix.Lib

/-- A line without the carriage return of a line end. -/
def stripCr (line : List Char) : List Char :=
  if line.getLast? = some '\r' then line.dropLast else line

/-- `str::lines`: what stands behind the last line end is a line if there is anything. -/
def lines (s : String) : List String :=
  let pieces := s.toList.splitOnP (· == '\n')
  let last := pieces.getLast?.getD []
  (pieces.dropLast.map stripCr ++ if last.isEmpty then [] else [last]).map String.ofList

def trimEnd (s : List Char) : List Char := (s.reverse.dropWhile isWhitespace).reverse

def trim (s : String) : String := String.ofList (trimEnd (s.toList.dropWhile isWhitespace))

/-- What stands before the first such character, and what stands after it. -/
def splitOnce (sep : Char) (s : String) : Option (String × String) :=
  match s.toList.dropWhile (· != sep) with
  | [] => none
  | _ :: after => some (String.ofList (s.toList.takeWhile (· != sep)), String.ofList after)

/-- The key and the value of a line. Empty lines, comments and lines without a colon
have none. -/
def readField (line : String) : Option (String × String) :=
  let line := trim line
  if line.isEmpty || "#".toList.isPrefixOf line.toList then none
  else (splitOnce ':' line).map fun field => (trim field.1, trim field.2)

/-- `str::parse` of a `u64`: digits, perhaps after a plus sign. -/
def parseU64 (s : String) : Option UInt64 :=
  let digits := match s.toList with
    | '+' :: d :: rest => d :: rest
    | digits => digits
  if digits.isEmpty || !digits.all Char.isDigit then none
  else
    let n := Nat.ofDigitChars 10 digits 0
    if n < 2 ^ 64 then some (.ofNat n) else none

theorem lines_cons {line : String} (hline : '\n' ∉ line.toList) (rest : String) :
    lines (line ++ ("\n" ++ rest)) = String.ofList (stripCr line.toList) :: lines rest := by
  have hsplit : (line ++ ("\n" ++ rest)).toList.splitOnP (· == '\n') =
      line.toList :: rest.toList.splitOnP (· == '\n') := by
    rw [String.toList_append, String.toList_append]
    refine List.splitOnP_append_cons_of_forall_mem (fun c hc => ?_) '\n' rfl rest.toList
    exact beq_false_of_ne fun h => hline (h ▸ hc)
  have hne : rest.toList.splitOnP (· == '\n') ≠ [] := List.splitOnP_ne_nil _ _
  simp only [lines, hsplit, List.dropLast_cons_of_ne_nil hne, List.getLast?_cons,
    List.getLast?_eq_some_getLast hne, Option.getD_some, List.map_cons, List.cons_append]

/-- No white space around it. -/
structure Trimmed (s : String) : Prop where
  first : ∀ c, s.toList.head? = some c → isWhitespace c = false
  last : ∀ c, s.toList.getLast? = some c → isWhitespace c = false

theorem dropWhile_of_head {s : List Char} (h : ∀ c, s.head? = some c → isWhitespace c = false) :
    s.dropWhile isWhitespace = s := by
  cases s with
  | nil => rfl
  | cons c s => simp [h c rfl]

theorem trimEnd_of_last {s : List Char} (h : ∀ c, s.getLast? = some c → isWhitespace c = false) :
    trimEnd s = s := by
  rw [trimEnd, dropWhile_of_head (by simpa using h), List.reverse_reverse]

theorem Trimmed.trim {s : String} (h : Trimmed s) : trim s = s := by
  rw [Lib.trim, dropWhile_of_head h.first, trimEnd_of_last h.last, String.ofList_toList]

/-- White space at the end does not reach past a character that is none. -/
theorem trimEnd_append {s : List Char} {c : Char} (hc : isWhitespace c = false) (rest : List Char) :
    trimEnd (s ++ c :: rest) = s ++ c :: trimEnd rest := by
  rw [trimEnd, trimEnd, List.reverse_append, List.reverse_cons, List.append_assoc,
    List.dropWhile_append]
  split
  · rename_i hall
    rw [List.isEmpty_iff] at hall
    simp [hall, hc]
  · simp

/-- A blank in front of a value is dropped, whether or not there is a value. -/
theorem trim_blank {value : String} (hv : Trimmed value) :
    trim (String.ofList (trimEnd (' ' :: value.toList))) = value := by
  by_cases hempty : value = ""
  · rw [hempty]
    rfl
  · have hne : value.toList ≠ [] := by simpa using hempty
    have hlast : ∀ c, (' ' :: value.toList).getLast? = some c → isWhitespace c = false := by
      intro c hc
      refine hv.last c ?_
      rwa [List.getLast?_cons, List.getLast?_eq_some_getLast hne, Option.getD_some,
        ← List.getLast?_eq_some_getLast hne] at hc
    rw [trimEnd_of_last hlast, trim, String.toList_ofList, List.dropWhile_cons_of_pos (by decide),
      dropWhile_of_head hv.first, trimEnd_of_last hv.last, String.ofList_toList]

/-- A word to name a field by. -/
structure IsKey (key : String) : Prop where
  word : IsWord key
  no_colon : ':' ∉ key.toList
  no_comment : "#".toList.isPrefixOf key.toList = false

instance (key : String) : Decidable (IsKey key) :=
  decidable_of_iff (IsWord key ∧ ':' ∉ key.toList ∧ "#".toList.isPrefixOf key.toList = false)
    ⟨fun h => ⟨h.1, h.2.1, h.2.2⟩, fun h => ⟨h.word, h.no_colon, h.no_comment⟩⟩

/-- A field on a line of its own. -/
def fieldLine (key value : String) : String := key ++ (": " ++ (value ++ "\n"))

theorem splitOnce_append {sep : Char} {before : List Char} (h : sep ∉ before) (after : List Char) :
    splitOnce sep (String.ofList (before ++ sep :: after)) =
      some (String.ofList before, String.ofList after) := by
  have clean : ∀ c ∈ before, (c != sep) = true := fun c hc => bne_iff_ne.mpr fun he => h (he ▸ hc)
  rw [splitOnce, String.toList_ofList, List.dropWhile_append_of_pos clean,
    List.takeWhile_append_of_pos clean, List.dropWhile_cons_of_neg (by simp),
    List.takeWhile_cons_of_neg (by simp), List.append_nil]

theorem IsWord.line {s : String} (h : IsWord s) : '\n' ∉ s.toList := by
  intro hn
  exact absurd (h.2 _ hn) (by decide)

theorem IsWord.trimmed {s : String} (h : IsWord s) : Trimmed s where
  first := fun c hc => h.2 c (List.mem_of_head? hc)
  last := fun c hc => h.2 c (List.mem_of_getLast? hc)

theorem Trimmed.around {a b : String} (ha : Trimmed a) (hb : Trimmed b) (hane : a ≠ "")
    (hbne : b ≠ "") (middle : String) : Trimmed (a ++ (middle ++ b)) where
  first := by
    intro c hc
    obtain ⟨d, ds, hd⟩ := List.exists_cons_of_ne_nil (l := a.toList) (by simpa using hane)
    rw [String.toList_append, hd, List.cons_append, List.head?_cons] at hc
    exact ha.first c (by rw [hd, List.head?_cons, hc])
  last := by
    intro c hc
    have hne : b.toList ≠ [] := by simpa using hbne
    rw [String.toList_append, String.toList_append, ← List.append_assoc,
      List.getLast?_append_of_ne_nil _ hne] at hc
    exact hb.last c hc

/-- Words joined by blanks stand on a line. -/
theorem join_trimmed {words : List String} (hw : ∀ w ∈ words, IsWord w) :
    Trimmed (" ".intercalate words) ∧ '\n' ∉ (" ".intercalate words).toList ∧
      (words ≠ [] → " ".intercalate words ≠ "") := by
  induction words with
  | nil => exact ⟨⟨by simp, by simp⟩, by simp, fun h => absurd rfl h⟩
  | cons w words ih =>
    have hhead := hw w (by simp)
    obtain ⟨htrimmed, hrest, hne⟩ := ih fun v hv => hw v (by simp [hv])
    by_cases hnil : words = []
    · rw [hnil]
      simpa using ⟨hhead.trimmed, hhead.line, hhead.1⟩
    · rw [String.intercalate_cons_of_ne_nil hnil, String.append_assoc]
      refine ⟨hhead.trimmed.around htrimmed hhead.1 (hne hnil) " ", ?_, ?_⟩
      · rw [String.toList_append, String.toList_append, List.mem_append, List.mem_append]
        intro h
        rcases h with h | h | h
        · exact hhead.line h
        · exact absurd h (by decide)
        · exact hrest h
      · intro _ h
        exact hhead.1 (String.append_eq_empty_iff.mp h).1

/-- A field is read off its line, whatever its value holds. -/
theorem readField_line {key value : String} (hk : IsKey key) (hv : Trimmed value) :
    readField (key ++ (": " ++ value)) = some (key, value) := by
  have hline : (key ++ (": " ++ value)).toList = key.toList ++ ':' :: ' ' :: value.toList := by
    simp
  obtain ⟨c, cs, hkey⟩ := List.exists_cons_of_ne_nil (l := key.toList) (by simpa using hk.word.1)
  have htrim : trim (key ++ (": " ++ value)) =
      String.ofList (key.toList ++ ':' :: trimEnd (' ' :: value.toList)) := by
    rw [trim, hline, dropWhile_of_head, trimEnd_append (by decide)]
    intro d hd
    rw [hkey, List.cons_append, List.head?_cons, Option.some.injEq] at hd
    exact hk.word.2 d (by simp [hkey, hd])
  have hcomment := hk.no_comment
  have hskip : ¬ ((String.ofList (key.toList ++ ':' :: trimEnd (' ' :: value.toList))).isEmpty ||
      "#".toList.isPrefixOf (String.ofList
        (key.toList ++ ':' :: trimEnd (' ' :: value.toList))).toList) = true := by
    rw [hkey] at hcomment ⊢
    simpa [List.isPrefixOf] using hcomment
  simp only [readField, htrim, if_neg hskip, splitOnce_append hk.no_colon, Option.map_some,
    String.ofList_toList, hk.word.trimmed.trim, trim_blank hv]

theorem stripCr_line {key value : String} (hv : Trimmed value) :
    stripCr (key ++ (": " ++ value)).toList = (key ++ (": " ++ value)).toList := by
  have hlast : (key ++ (": " ++ value)).toList.getLast? =
      some ((value.toList.getLast?).getD ' ') := by
    simp [List.getLast?_append, List.getLast?_cons]
  rw [stripCr, hlast, if_neg]
  intro h
  cases hl : value.toList.getLast? with
  | none => simp [hl] at h
  | some c =>
    have hc := hv.last c hl
    simp only [hl, Option.getD_some, Option.some.injEq] at h
    rw [h] at hc
    exact absurd hc (by decide)

theorem digit_solid {c : Char} (h : c.isDigit = true) : isWhitespace c = false := by
  simp only [Char.isDigit, Bool.and_eq_true, decide_eq_true_eq] at h
  have hlow : 48 ≤ c.toNat := UInt32.le_iff_toNat_le.mp h.1
  have hhigh : c.toNat ≤ 57 := UInt32.le_iff_toNat_le.mp h.2
  exact isWhitespace_ascii (by omega) (by omega)

theorem toString_word (n : UInt64) : IsWord (toString n) := by
  have hdigits : (toString n).toList = Nat.toDigits 10 n.toNat := Nat.toList_repr
  constructor
  · intro h
    rw [h] at hdigits
    exact Nat.toDigits_ne_nil hdigits.symm
  · intro c hc
    rw [hdigits] at hc
    exact digit_solid (Nat.isDigit_of_mem_toDigits (by omega) (by omega) hc)

/-- A number is read as it is written. -/
theorem parseU64_toString (n : UInt64) : parseU64 (toString n) = some n := by
  have hdigits : (toString n).toList = Nat.toDigits 10 n.toNat := Nat.toList_repr
  have hall : ∀ c ∈ Nat.toDigits 10 n.toNat, c.isDigit = true := fun c hc =>
    Nat.isDigit_of_mem_toDigits (by omega) (by omega) hc
  obtain ⟨d, ds, hd⟩ := List.exists_cons_of_ne_nil (Nat.toDigits_ne_nil (n := n.toNat) (b := 10))
  have hsign : d ≠ '+' := by
    intro h
    have := hall d (by simp [hd])
    rw [h] at this
    exact absurd this (by decide)
  have hvalue : Nat.ofDigitChars 10 (d :: ds) 0 = n.toNat := by
    rw [← hd]
    exact Nat.ofDigitChars_toDigits (by omega) (by omega)
  have hplain : (match d :: ds with
      | '+' :: d :: rest => d :: rest
      | digits => digits) = d :: ds := by
    split
    · rename_i heq
      exact absurd (List.cons.inj heq).1 hsign
    · rfl
  rw [hd] at hall
  have hok : ¬ ((d :: ds).isEmpty || !(d :: ds).all Char.isDigit) = true := by
    rw [List.all_eq_true.mpr hall]
    simp
  simp only [parseU64, hdigits, hd, hplain, if_neg hok, hvalue, if_pos n.toNat_lt,
    UInt64.ofNat_toNat]

/-- The fields of a text, in order. -/
def fields (text : String) : List (String × String) := (lines text).filterMap readField

theorem fields_empty : fields "" = [] := rfl

/-- A field of one line is read as it was written, and leaves the lines after it. -/
theorem fields_fieldLine {key value : String} (hk : IsKey key) (hv : Trimmed value)
    (hline : '\n' ∉ value.toList) (rest : String) :
    fields (fieldLine key value ++ rest) = (key, value) :: fields rest := by
  have hsplit : fieldLine key value ++ rest = key ++ (": " ++ value) ++ ("\n" ++ rest) := by
    simp [fieldLine, String.append_assoc]
  have hone : '\n' ∉ (key ++ (": " ++ value)).toList := by
    simp [hk.word.line, hline]
  rw [fields, hsplit, lines_cons hone, stripCr_line hv, String.ofList_toList,
    List.filterMap_cons_some (readField_line hk hv)]
  rfl

end IrohNix.Lib
