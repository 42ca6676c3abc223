import Mathlib.Algebra.GroupWithZero.Nat
import Mathlib.Data.List.DropRight

namespace IrohNix.Lib

/-- The components of a URL. -/
structure Url where
  scheme : List Char
  authority : Option (List Char)
  path : List Char
  query : Option (List Char)
  fragment : Option (List Char)
deriving DecidableEq

/-- A relative reference (RFC 3986, 4.2). -/
structure Reference where
  authority : Option (List Char)
  path : List Char
  query : Option (List Char)
  fragment : Option (List Char)
deriving DecidableEq

namespace Url

def IsUnreserved (c : Char) : Prop := c.isAlphanum ∨ c ∈ ['-', '.', '_', '~']

instance (c : Char) : Decidable (IsUnreserved c) := inferInstanceAs (Decidable (_ ∨ _))

/-- The characters of components: unreserved ones, delimiters but '#', and '%'. -/
def IsUrlChar (c : Char) : Prop :=
  IsUnreserved c ∨ c ∈ "!$&'()*+,;=:@/?%".toList

instance (c : Char) : Decidable (IsUrlChar c) := inferInstanceAs (Decidable (_ ∨ _))

/-- What is before the first separator, and what is behind it. -/
def cut (separator : Char) (s : List Char) : List Char × Option (List Char) :=
  (s.takeWhile (· ≠ separator),
    match s.dropWhile (· ≠ separator) with
    | [] => none
    | _ :: rest => some rest)

/-- The reference that a text is. A colon in the first segment would make it a URL with a
scheme. -/
def parseRelative (s : List Char) : Option Reference :=
  let (front, fragment) := cut '#' s
  let (hierarchy, query) := cut '?' front
  if (front ++ fragment.getD []).all (fun c => decide (IsUrlChar c)) then
    match hierarchy with
    | '/' :: '/' :: rest =>
      some ⟨some (rest.takeWhile (· ≠ '/')), rest.dropWhile (· ≠ '/'), query, fragment⟩
    | path =>
      if ':' ∈ path.takeWhile (· ≠ '/') then none else some ⟨none, path, query, fragment⟩
  else none

/-- Paths can be resolved against it. -/
def CanBeBase (url : Url) : Prop := url.authority.isSome ∨ url.path.head? = some '/'

instance (url : Url) : Decidable url.CanBeBase := inferInstanceAs (Decidable (_ ∨ _))

def IsDot (segment : List Char) : Prop := segment = ['.'] ∨ segment = ['.', '.']

instance (segment : List Char) : Decidable (IsDot segment) := inferInstanceAs (Decidable (_ ∨ _))

def HasDots (path : List Char) : Prop := ∃ segment ∈ path.splitOn '/', IsDot segment

instance (path : List Char) : Decidable (HasDots path) :=
  inferInstanceAs (Decidable (∃ segment ∈ path.splitOn '/', IsDot segment))

/-- Segments, each behind a slash, are moved to the output, the last of which stands first; "."
moves nothing, and ".." takes back the last. -/
def reduce (output : List (List Char)) : List (List Char) → List (List Char)
  | [] => output
  | segment :: rest =>
    if segment = ['.'] then reduce (if rest = [] then ['/'] :: output else output) rest
    else if segment = ['.', '.'] then
      reduce (if rest = [] then ['/'] :: output.tail else output.tail) rest
    else reduce (('/' :: segment) :: output) rest

/-- The first segment has no slash before it. -/
def reduceFirst : List (List Char) → List (List Char)
  | [] => []
  | segment :: rest => if IsDot segment then reduceFirst rest else reduce [segment] rest

/-- RFC 3986, 5.2.4, on segments. -/
def removeDotSegments (path : List Char) : List Char :=
  (reduceFirst (path.splitOn '/')).reverse.flatten

/-- A path up to its last slash. -/
def directory (path : List Char) : List Char := path.rdropWhile (· ≠ '/')

/-- RFC 3986, 5.2.3. -/
def merge (base : Url) (path : List Char) : List Char :=
  if base.authority.isSome ∧ base.path = [] then '/' :: path else directory base.path ++ path

/-- RFC 3986, 5.2.2. -/
def resolve (base : Url) (r : Reference) : Url :=
  match r.authority with
  | some authority =>
    ⟨base.scheme, some authority, removeDotSegments r.path, r.query, r.fragment⟩
  | none =>
    if r.path = [] then
      ⟨base.scheme, base.authority, base.path, r.query.or base.query, r.fragment⟩
    else if r.path.head? = some '/' then
      ⟨base.scheme, base.authority, removeDotSegments r.path, r.query, r.fragment⟩
    else ⟨base.scheme, base.authority, removeDotSegments (merge base r.path), r.query, r.fragment⟩

/-- What segments behind slashes amount to. -/
def weight (segments : List (List Char)) : Nat := (segments.map fun s => s.length + 1).sum

@[simp] theorem weight_nil : weight [] = 0 := rfl

@[simp] theorem weight_cons (s : List Char) (rest : List (List Char)) :
    weight (s :: rest) = s.length + 1 + weight rest := rfl

theorem splitOn_slash_cons (c : Char) (path : List Char) : ∃ first rest,
    path.splitOn '/' = first :: rest ∧
    (c :: path).splitOn '/' = if c = '/' then [] :: first :: rest else (c :: first) :: rest := by
  cases h : path.splitOn '/' with
  | nil => exact absurd h (List.splitOn_ne_nil '/' path)
  | cons first rest =>
    refine ⟨first, rest, rfl, ?_⟩
    rw [List.splitOn_cons_eq_if_modifyHead, h]
    simp

theorem weight_splitOn (path : List Char) : weight (path.splitOn '/') = path.length + 1 := by
  induction path with
  | nil => rfl
  | cons c path ih =>
    obtain ⟨first, rest, hpath, hcons⟩ := splitOn_slash_cons c path
    rw [hpath] at ih
    rw [hcons]
    split <;> simp only [weight_cons, List.length_cons, List.length_nil] at ih ⊢ <;> omega

/-- A path is its segments with slashes between them. -/
theorem segments_flatten (path : List Char) : ∃ first rest, path.splitOn '/' = first :: rest ∧
    first ++ (rest.map ('/' :: ·)).flatten = path := by
  induction path with
  | nil => exact ⟨[], [], rfl, rfl⟩
  | cons c path ih =>
    obtain ⟨first, rest, hpath, hcons⟩ := splitOn_slash_cons c path
    obtain ⟨first', rest', hpath', hflat⟩ := ih
    obtain ⟨rfl, rfl⟩ := List.cons.inj (hpath.symm.trans hpath')
    rw [hcons]
    split
    · rename_i h
      subst h
      exact ⟨[], first :: rest, rfl, by simpa using hflat⟩
    · exact ⟨c :: first, rest, rfl, by simpa using hflat⟩

theorem tail_length_le (output : List (List Char)) :
    output.tail.flatten.length ≤ output.flatten.length := by
  cases output <;> simp

theorem reduce_length_le (segments output : List (List Char)) :
    (reduce output segments).flatten.length ≤ output.flatten.length + weight segments := by
  induction segments generalizing output with
  | nil => exact Nat.le_refl _
  | cons segment rest ih =>
    have htail := tail_length_le output
    rw [reduce]
    split
    · rename_i h
      subst h
      refine Nat.le_trans (ih _) ?_
      split <;> simp
      omega
    · split
      · rename_i h
        subst h
        refine Nat.le_trans (ih _) ?_
        split <;> simp at htail ⊢ <;> omega
      · refine Nat.le_trans (ih _) ?_
        simp
        omega

theorem reduce_length_lt {segments : List (List Char)} (output : List (List Char))
    (h : ∃ s ∈ segments, IsDot s) :
    (reduce output segments).flatten.length < output.flatten.length + weight segments := by
  induction segments generalizing output with
  | nil => simp at h
  | cons segment rest ih =>
    have htail := tail_length_le output
    rw [reduce]
    split
    · rename_i hdot
      subst hdot
      refine Nat.lt_of_le_of_lt (reduce_length_le rest _) ?_
      split <;> simp
      omega
    · split
      · rename_i hdots
        subst hdots
        refine Nat.lt_of_le_of_lt (reduce_length_le rest _) ?_
        split <;> simp at htail ⊢ <;> omega
      · rename_i hdot hdots
        have hrest : ∃ s ∈ rest, IsDot s := by
          obtain ⟨s, hs, hd⟩ := h
          rcases List.mem_cons.mp hs with rfl | hs
          · exact absurd hd (by simp [IsDot, hdot, hdots])
          · exact ⟨s, hs, hd⟩
        refine Nat.lt_of_lt_of_le (ih _ hrest) ?_
        simp
        omega

theorem reduce_clean {segments : List (List Char)} (output : List (List Char))
    (h : ∀ s ∈ segments, ¬ IsDot s) :
    reduce output segments = (segments.map ('/' :: ·)).reverse ++ output := by
  induction segments generalizing output with
  | nil => rfl
  | cons segment rest ih =>
    have hseg : ¬ IsDot segment := h segment (by simp)
    simp only [IsDot, not_or] at hseg
    rw [reduce, if_neg hseg.1, if_neg hseg.2, ih _ fun s hs => h s (by simp [hs])]
    simp

theorem reduceFirst_length_le (segments : List (List Char)) :
    (reduceFirst segments).flatten.length ≤ weight segments - 1 := by
  induction segments with
  | nil => exact Nat.le_refl _
  | cons segment rest ih =>
    rw [reduceFirst]
    split
    · refine Nat.le_trans ih ?_
      simp only [weight_cons]
      omega
    · refine Nat.le_trans (reduce_length_le rest [segment]) ?_
      simp only [List.flatten_cons, List.flatten_nil, List.append_nil, weight_cons]
      omega

/-- Dot segments make a path longer than what it amounts to. -/
theorem removeDotSegments_length_lt {path : List Char} (h : HasDots path) :
    (removeDotSegments path).length < path.length := by
  have hweight := weight_splitOn path
  obtain ⟨first, rest, hsplit, _⟩ := segments_flatten path
  rw [HasDots, hsplit] at h
  rw [removeDotSegments, List.length_flatten, List.map_reverse, List.sum_reverse,
    ← List.length_flatten, hsplit, reduceFirst]
  rw [hsplit, weight_cons] at hweight
  split
  · rename_i hdot
    have hle := reduceFirst_length_le rest
    have hpos : 0 < first.length := by
      rcases hdot with rfl | rfl <;> simp
    omega
  · rename_i hdot
    have hrest : ∃ s ∈ rest, IsDot s := by
      obtain ⟨s, hs, hd⟩ := h
      rcases List.mem_cons.mp hs with rfl | hs
      · exact absurd hd hdot
      · exact ⟨s, hs, hd⟩
    have hlt := reduce_length_lt [first] hrest
    simp only [List.flatten_cons, List.flatten_nil, List.append_nil] at hlt
    omega

theorem removeDotSegments_clean {path : List Char} (h : ¬ HasDots path) :
    removeDotSegments path = path := by
  obtain ⟨first, rest, hsplit, hflat⟩ := segments_flatten path
  simp only [HasDots, hsplit, not_exists, not_and] at h
  rw [removeDotSegments, hsplit, reduceFirst, if_neg (h first (by simp)),
    reduce_clean [first] fun s hs => h s (by simp [hs])]
  simpa using hflat

theorem removeDotSegments_length_le (path : List Char) :
    (removeDotSegments path).length ≤ path.length := by
  by_cases h : HasDots path
  · exact Nat.le_of_lt (removeDotSegments_length_lt h)
  · rw [removeDotSegments_clean h]

theorem hasDots_append (left right : List Char) :
    HasDots (left ++ '/' :: right) ↔ HasDots left ∨ HasDots right := by
  rw [HasDots, List.splitOn_append_cons_self]
  simp only [List.mem_append, or_and_right, exists_or]
  rfl

/-- It ends in a slash. -/
def IsClosed (path : List Char) : Prop := path.getLast? = some '/'

instance (path : List Char) : Decidable (IsClosed path) :=
  inferInstanceAs (Decidable (path.getLast? = some '/'))

/-- A path with a slash at its end. -/
def withSlash (path : List Char) : List Char := if IsClosed path then path else path ++ ['/']

theorem IsClosed.split {path : List Char} (h : IsClosed path) : ∃ front, path = front ++ ['/'] :=
  List.getLast?_eq_some_iff.mp h

theorem IsClosed.directory {path : List Char} (h : IsClosed path) : directory path = path := by
  obtain ⟨front, rfl⟩ := h.split
  simp [Url.directory]

theorem directory_length_le (path : List Char) : (directory path).length ≤ path.length :=
  (List.rdropWhile_prefix _ path).length_le

theorem withSlash_length_pos (path : List Char) : 0 < (withSlash path).length := by
  rw [withSlash]
  split
  · rename_i h
    obtain ⟨front, rfl⟩ := h.split
    simp
  · simp

/-- Nothing is cut off a base path that is empty or ends in a slash. -/
theorem merge_closed {base : Url} (canBe : base.CanBeBase)
    (h : base.path = [] ∨ IsClosed base.path) (path : List Char) :
    ∃ front, base.merge path = front ++ '/' :: path ∧ withSlash base.path = front ++ ['/'] ∧
      (HasDots front → HasDots base.path) := by
  rcases h with h | h
  · have hauthority : base.authority.isSome := by simpa [CanBeBase, h] using canBe
    refine ⟨[], ?_, ?_, ?_⟩
    · rw [merge, if_pos ⟨hauthority, h⟩, List.nil_append]
    · simp [withSlash, IsClosed, h]
    · rw [h]
      exact id
  · obtain ⟨front, hfront⟩ := h.split
    have hne : ¬ (base.authority.isSome ∧ base.path = []) := by simp [hfront]
    refine ⟨front, ?_, ?_, ?_⟩
    · rw [merge, if_neg hne, h.directory, hfront, List.append_assoc]
      rfl
    · rw [withSlash, if_pos h, hfront]
    · intro hdots
      rw [hfront]
      exact (hasDots_append front []).mpr (.inl hdots)

/-- The last segment is cut off any other. -/
theorem merge_length_lt {base : Url} (h : ¬ (base.path = [] ∨ IsClosed base.path))
    (path : List Char) : (base.merge path).length < (withSlash base.path ++ path).length := by
  simp only [not_or] at h
  have hle := directory_length_le base.path
  rw [merge, if_neg fun hempty => h.1 hempty.2, withSlash, if_neg h.2]
  simp only [List.length_append, List.length_singleton]
  omega

/-- A path is extended by what is resolved against it exactly where it is empty or ends in a
slash, and the reference is nothing but a path below it. -/
theorem resolve_extends_iff {base : Url} {r : Reference} (canBe : base.CanBeBase)
    (clean : ¬ HasDots base.path) (named : r.path ≠ []) :
    (base.resolve r).path = withSlash base.path ++ r.path ↔
      (base.path = [] ∨ IsClosed base.path) ∧ r.authority = none ∧
        r.path.head? ≠ some '/' ∧ ¬ HasDots r.path := by
  have hpos := withSlash_length_pos base.path
  have short : removeDotSegments r.path ≠ withSlash base.path ++ r.path := by
    intro h
    have hle := removeDotSegments_length_le r.path
    rw [h, List.length_append] at hle
    omega
  cases hauthority : r.authority with
  | some authority => simp [resolve, hauthority, short]
  | none =>
    by_cases hslash : r.path.head? = some '/'
    · simp [resolve, hauthority, named, hslash, short]
    · simp only [resolve, hauthority, named, hslash, if_false, ne_eq, not_false_eq_true, true_and]
      constructor
      · intro h
        have hle := removeDotSegments_length_le (base.merge r.path)
        have hclosed : base.path = [] ∨ IsClosed base.path := by
          by_contra hopen
          have hlt := merge_length_lt hopen r.path
          rw [h] at hle
          omega
        obtain ⟨front, hmerge, hwith, _⟩ := merge_closed canBe hclosed r.path
        refine ⟨hclosed, fun hdots => ?_⟩
        have hlt : (removeDotSegments (base.merge r.path)).length < (base.merge r.path).length := by
          apply removeDotSegments_length_lt
          rw [hmerge]
          exact (hasDots_append front r.path).mpr (.inr hdots)
        rw [h, hwith, hmerge] at hlt
        simp at hlt
      · intro h
        obtain ⟨hclosed, hdots⟩ := h
        obtain ⟨front, hmerge, hwith, hfront⟩ := merge_closed canBe hclosed r.path
        have hclean : ¬ HasDots (front ++ '/' :: r.path) := by
          rw [hasDots_append]
          exact fun h => h.elim (fun h => clean (hfront h)) hdots
        rw [hmerge, removeDotSegments_clean hclean, hwith, List.append_assoc]
        rfl

theorem cut_none {separator : Char} {s : List Char} (h : separator ∉ s) :
    cut separator s = (s, none) := by
  have hne : ∀ c ∈ s, decide (c ≠ separator) = true := by
    intro c hc
    exact decide_eq_true fun heq => h (heq ▸ hc)
  simp only [cut, List.takeWhile_eq_self_iff.mpr hne, List.dropWhile_eq_nil_iff.mpr hne]

/-- A name of unreserved characters is a reference of one segment. -/
theorem parseRelative_name {name : List Char} (h : ∀ c ∈ name, IsUnreserved c) :
    parseRelative name = some ⟨none, name, none, none⟩ := by
  have without : ∀ c, ¬ IsUnreserved c → c ∉ name := fun c hc hmem => hc (h c hmem)
  have hchars : (name ++ []).all (fun c => decide (IsUrlChar c)) = true := by
    apply List.all_eq_true.mpr
    intro c hc
    exact decide_eq_true (.inl (h c (by simpa using hc)))
  simp only [parseRelative, cut_none (without '#' (by decide)),
    cut_none (without '?' (by decide)), Option.getD_none, if_pos hchars]
  split
  · exact absurd List.mem_cons_self (without '/' (by decide))
  · rw [if_neg]
    intro hcolon
    exact without ':' (by decide) (List.takeWhile_subset _ hcolon)

/-- So are several such names with slashes between them. -/
theorem parseRelative_path {path : List Char} (h : ∀ c ∈ path, IsUnreserved c ∨ c = '/')
    (below : path.head? ≠ some '/') : parseRelative path = some ⟨none, path, none, none⟩ := by
  have without : ∀ c, ¬ (IsUnreserved c ∨ c = '/') → c ∉ path := fun c hc hmem => hc (h c hmem)
  have hchars : (path ++ []).all (fun c => decide (IsUrlChar c)) = true := by
    apply List.all_eq_true.mpr
    intro c hc
    rcases h c (by simpa using hc) with hc | rfl
    · exact decide_eq_true (.inl hc)
    · decide
  simp only [parseRelative, cut_none (without '#' (by decide)),
    cut_none (without '?' (by decide)), Option.getD_none, if_pos hchars]
  split
  · exact absurd rfl below
  · rw [if_neg]
    intro hcolon
    exact without ':' (by decide) (List.takeWhile_subset _ hcolon)

/-- A URL that names the root of its host. -/
structure AtRoot (base : Url) : Prop where
  canBe : base.CanBeBase
  path : base.path = [] ∨ base.path = ['/']

/-- What is at a path of a URL's host. -/
def onHost (base : Url) (path : List Char) : Url :=
  ⟨base.scheme, base.authority, '/' :: path, none, none⟩

/-- A path is resolved against a root as it stands. -/
theorem resolve_root {base : Url} (root : base.AtRoot) {path : List Char} (named : path ≠ [])
    (below : path.head? ≠ some '/') (clean : ¬ HasDots path) :
    base.resolve ⟨none, path, none, none⟩ = base.onHost path := by
  have noDots : ¬ HasDots base.path := by
    rcases root.path with h | h <;> rw [h] <;> decide
  have closed : base.path = [] ∨ IsClosed base.path := by
    rcases root.path with h | h
    · exact .inl h
    · exact .inr (by rw [h]; decide)
  have slash : withSlash base.path = ['/'] := by
    rcases root.path with h | h <;> rw [h] <;> decide
  have resolved := (resolve_extends_iff (r := ⟨none, path, none, none⟩) root.canBe noDots named).mpr
    ⟨closed, rfl, below, clean⟩
  rw [slash] at resolved
  simp only [resolve, named, if_false, below] at resolved ⊢
  rw [resolved]
  rfl

end Url

end IrohNix.Lib
