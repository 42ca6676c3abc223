import IrohNix.Lib.Url
import IrohNix.Transfer.Lookup

namespace IrohNix.Transfer.Lookup
open IrohNix.Lib IrohNix.Lib.Url

/-- What is relied on of URLs: a parsed one has no dot segments if paths can be resolved
against it, and relative references are resolved as RFC 3986 says, or not at all. -/
structure Rfc3986 (urls : Urls Url) : Prop where
  clean : ∀ s url, urls.parse s = .ok url → url.CanBeBase → ¬ HasDots url.path
  join : ∀ s url t r, urls.parse s = .ok url → url.CanBeBase →
    parseRelative t.toList = some r → urls.join url t = .ok (url.resolve r)
  no_base : ∀ s url t r, urls.parse s = .ok url → ¬ url.CanBeBase →
    parseRelative t.toList = some r → r.path ≠ [] → ∃ e, urls.join url t = .error e

/-- A store hash has no delimiters of URLs in it. -/
def IsStoreHash (storeHash : String) : Prop := ∀ c ∈ storeHash.toList, IsUnreserved c

instance (storeHash : String) : Decidable (IsStoreHash storeHash) :=
  decidable_of_iff (storeHash.toList.all (fun c => decide (IsUnreserved c)) = true)
    (by simp [IsStoreHash])

/-- It is on the same host, with the whole path of the base, one slash and a further path. -/
structure Extends (base url : Url) (path : List Char) : Prop where
  scheme : url.scheme = base.scheme
  authority : url.authority = base.authority
  path : url.path = withSlash base.path ++ path

/-- Whatever the network does, what is asked of a cache is a narinfo under its URL. -/
def NarinfoExtended (urls : Urls Url) (base : Url) (storeHash : String) : Prop :=
  ∀ (network : Network Url) (client : HttpCacheClient Url),
    ∀ asked ∈ (client.fetchNarinfo urls network storeHash).effects, asked.base = base →
      Extends base asked.url (narinfoPath storeHash).toList

/-- The same of a NAR whose URL is a reference with this path. -/
def NarExtended (urls : Urls Url) (base : Url) (narUrl : String) (path : List Char) : Prop :=
  ∀ (network : Network Url) (hashers : Hashers) (narinfo : CacheNarInfo), narinfo.url = narUrl →
    ∀ asked ∈ (fetchNar urls network hashers narinfo base).effects, Extends base asked.url path

/-- It is a path below that of a base. -/
structure IsBelow (r : Reference) : Prop where
  authority : r.authority = none
  no_slash : r.path.head? ≠ some '/'
  clean : ¬ HasDots r.path

section
variable {U : Type} {urls : Urls U} {network : Network U}

/-- What is asked of a cache is what is joined to its URL. -/
theorem joined_of_asked {storeHash : String} {configs : List (HttpCacheConfig U × Nat)}
    {asked : Asked U}
    (h : asked ∈ (askCaches urls network storeHash configs).effects) :
    urls.join asked.base (narinfoPath storeHash) = .ok asked.url := by
  induction configs with
  | nil => simp [askCaches] at h
  | cons numbered rest ih =>
    rw [askCaches] at h
    cases hjoin : urls.join numbered.1.url (narinfoPath storeHash) with
    | error e => simp [hjoin] at h
    | ok url =>
      rw [hjoin, httpError_ok, Logged.lift_ok_bind, Logged.effects_perform_bind] at h
      rcases List.mem_cons.mp h with rfl | h
      · exact hjoin
      · split at h
        · exact ih h
        · split at h
          · exact ih h
          · simp at h

theorem asked_of_joined {storeHash : String} {config : HttpCacheConfig U} {url : U}
    (h : urls.join config.url (narinfoPath storeHash) = .ok url) :
    ⟨config.url, url, config.timeout⟩ ∈
      (askCaches urls network storeHash [(config, 0)]).effects := by
  rw [askCaches, h, httpError_ok, Logged.lift_ok_bind, Logged.effects_perform_bind]
  exact List.mem_cons_self

theorem mem_fetchNar {hashers : Hashers} {narinfo : CacheNarInfo} {base : U} {asked : Asked U} :
    asked ∈ (fetchNar urls network hashers narinfo base).effects ↔
      ∃ url, urls.join base narinfo.url = .ok url ∧ asked = ⟨base, url, .fromSecs 300⟩ := by
  rw [fetchNar]
  cases urls.join base narinfo.url with
  | error e => simp
  | ok url =>
    rw [httpError_ok, Logged.lift_ok_bind, Logged.effects_perform_bind, List.mem_cons]
    constructor
    · intro h
      refine ⟨url, rfl, h.resolve_right fun hrest => ?_⟩
      obtain ⟨response, _, hrest⟩ := ((Logged.mem_bind _ _ _).mp hrest).resolve_left (by simp)
      split at hrest
      · simp at hrest
      · obtain ⟨narData, _, hrest⟩ := ((Logged.mem_bind _ _ _).mp hrest).resolve_left (by simp)
        simp only at hrest
        split at hrest <;> simp at hrest
    · intro h
      obtain ⟨url', hurl, h⟩ := h
      exact .inl (Except.ok.inj hurl ▸ h)

end

section
variable {urls : Urls Url} {base : Url} {s : String}

/-- What is joined to a base extends it, exactly as the base and the reference have it. -/
theorem joined_extends_iff (rfc : Rfc3986 urls) (accepted : urls.parse s = .ok base) {t : String}
    {r : Reference} (relative : parseRelative t.toList = some r) (named : r.path ≠ []) :
    (∀ url, urls.join base t = .ok url → Extends base url r.path) ↔
      (base.CanBeBase → (base.path = [] ∨ IsClosed base.path) ∧ IsBelow r) := by
  by_cases canBe : base.CanBeBase
  · have hjoin := rfc.join s base t r accepted canBe relative
    have hiff := resolve_extends_iff canBe (rfc.clean s base accepted canBe) named
    simp only [hjoin, Except.ok.injEq, forall_eq', canBe, forall_const]
    constructor
    · intro h
      obtain ⟨hclosed, hauthority, hslash, hclean⟩ := hiff.mp h.path
      exact ⟨hclosed, hauthority, hslash, hclean⟩
    · intro h
      obtain ⟨hclosed, hauthority, hslash, hclean⟩ := h
      have hpath := hiff.mpr ⟨hclosed, hauthority, hslash, hclean⟩
      refine ⟨?_, ?_, hpath⟩ <;> simp [resolve, hauthority, named, hslash]
  · obtain ⟨e, hjoin⟩ := rfc.no_base s base t r accepted canBe relative named
    simp [hjoin, canBe]

theorem narinfoPath_toList (storeHash : String) :
    (narinfoPath storeHash).toList = storeHash.toList ++ ".narinfo".toList := by
  simp [narinfoPath]

/-- The name of a narinfo is one segment, and no dot segment. -/
theorem narinfo_below {storeHash : String} (h : IsStoreHash storeHash) :
    parseRelative (narinfoPath storeHash).toList =
        some ⟨none, (narinfoPath storeHash).toList, none, none⟩ ∧
      (narinfoPath storeHash).toList ≠ [] ∧
      IsBelow ⟨none, (narinfoPath storeHash).toList, none, none⟩ := by
  have hchars : ∀ c ∈ (narinfoPath storeHash).toList, IsUnreserved c := by
    intro c hc
    rw [narinfoPath_toList] at hc
    rcases List.mem_append.mp hc with hc | hc
    · exact h c hc
    · have hname : IsStoreHash ".narinfo" := by decide +kernel
      exact hname c hc
  have hslash : '/' ∉ (narinfoPath storeHash).toList := fun hmem => by
    exact absurd (hchars '/' hmem) (by decide)
  have hlength : 8 ≤ (narinfoPath storeHash).toList.length := by
    rw [narinfoPath_toList, List.length_append]
    exact Nat.le_add_left _ _
  refine ⟨parseRelative_name hchars, List.ne_nil_of_length_pos (by omega), rfl, ?_, ?_⟩
  · intro hhead
    exact hslash (List.mem_of_mem_head? hhead)
  · simp only [HasDots, List.splitOn_eq_singleton hslash, List.mem_singleton, exists_eq_left]
    intro hdot
    rcases hdot with hdot | hdot <;> simp [hdot] at hlength

theorem narinfoExtended_iff {base : Url} {storeHash : String} :
    NarinfoExtended urls base storeHash ↔
      ∀ url, urls.join base (narinfoPath storeHash) = .ok url →
        Extends base url (narinfoPath storeHash).toList := by
  constructor
  · intro h url hjoin
    let silent : Network Url := ⟨fun _ _ _ => .error "connection refused",
      fun _ _ => .error "connection refused", fun _ => .error ""⟩
    exact h silent ⟨[⟨base, 40, .fromSecs 60⟩]⟩ _ (asked_of_joined hjoin) rfl
  · intro h network client asked hasked hbase
    subst hbase
    exact h asked.url (joined_of_asked hasked)

theorem narExtended_iff {base : Url} {narUrl : String} {path : List Char} :
    NarExtended urls base narUrl path ↔
      ∀ url, urls.join base narUrl = .ok url → Extends base url path := by
  constructor
  · intro h url hjoin
    let silent : Network Url := ⟨fun _ _ _ => .error "connection refused",
      fun _ _ => .error "connection refused", fun _ => .error ""⟩
    exact h silent ⟨fun _ => .replicate 32 0, fun _ => .replicate 32 0⟩
      { goodNarinfo with url := narUrl } rfl _ (mem_fetchNar.mpr ⟨url, hjoin, rfl⟩)
  · intro h network hashers narinfo hurl asked hasked
    obtain ⟨url, hjoin, rfl⟩ := mem_fetchNar.mp hasked
    exact h url (hurl ▸ hjoin)

theorem new_ok {s : String} {config : HttpCacheConfig Url}
    (h : HttpCacheConfig.new urls s = .ok config) : urls.parse s = .ok config.url := by
  simp only [HttpCacheConfig.new, except_bind_ok] at h
  obtain ⟨url, hparse, h⟩ := h
  cases hp : urls.parse s with
  | error e => simp [hp] at hparse
  | ok url' =>
    rw [hp, httpError_ok] at hparse
    cases hparse
    cases h
    rfl

/-- The path of a cache's URL is extended by what is asked of the cache if and only if it is empty
or ends in a slash, and a NAR's URL is nothing but a path below it. NAR URLs without a path
are left out: they name the cache itself. -/
theorem extended_iff (urls : Urls Url) (rfc : Rfc3986 urls) (s : String)
    (config : HttpCacheConfig Url) (accepted : HttpCacheConfig.new urls s = .ok config) :
    (∀ storeHash, IsStoreHash storeHash → (NarinfoExtended urls config.url storeHash ↔
      (config.url.CanBeBase → config.url.path = [] ∨ IsClosed config.url.path))) ∧
    (∀ narUrl r, parseRelative narUrl.toList = some r → r.path ≠ [] →
      (NarExtended urls config.url narUrl r.path ↔
        (config.url.CanBeBase →
          (config.url.path = [] ∨ IsClosed config.url.path) ∧ IsBelow r))) := by
  have hparse := new_ok accepted
  constructor
  · intro storeHash hhash
    obtain ⟨relative, named, below⟩ := narinfo_below hhash
    rw [narinfoExtended_iff, joined_extends_iff rfc hparse relative named]
    simp only [below, and_true]
  · intro narUrl r relative named
    rw [narExtended_iff, joined_extends_iff rfc hparse relative named]

end

def joinText (base : Url) (t : String) : Except String Url :=
  match parseRelative t.toList with
  | some r =>
    if base.CanBeBase then .ok (base.resolve r)
    else .error "relative URL with a cannot-be-a-base base"
  | none => .error "invalid reference"

def defaultCache : Url := ⟨"https".toList, some "cache.nixos.org".toList, ['/'], none, none⟩

def cacheBelowPath : Url :=
  ⟨"https".toList, some "host.example".toList, "/cache".toList, none, none⟩

/-- The default cache, and one whose URL has a path. -/
def knownUrls : Urls Url where
  parse s :=
    if s = "https://cache.nixos.org" then .ok defaultCache
    else if s = "https://host.example/cache" then .ok cacheBelowPath
    else .error "relative URL without a base"
  join := joinText

theorem parse_defaultCache : knownUrls.parse "https://cache.nixos.org" = .ok defaultCache := by
  simp [knownUrls]

theorem parse_cacheBelowPath :
    knownUrls.parse "https://host.example/cache" = .ok cacheBelowPath := by
  simp [knownUrls]

theorem knownUrls_rfc3986 : Rfc3986 knownUrls where
  clean s url h _ := by
    have hclean : ∀ url ∈ [defaultCache, cacheBelowPath], ¬ HasDots url.path := by decide +kernel
    apply hclean
    simp only [knownUrls] at h
    split at h
    · cases h
      exact List.mem_cons_self
    · split at h
      · cases h
        exact List.mem_cons_of_mem _ List.mem_cons_self
      · contradiction
  join s url t r _ canBe relative := by
    simp only [knownUrls, joinText, relative, if_pos canBe]
  no_base s url t r _ cannot relative _ := by
    refine ⟨"relative URL with a cannot-be-a-base base", ?_⟩
    simp only [knownUrls, joinText, relative, if_neg cannot]

theorem new_of_parse {s : String} {url : Url} (h : knownUrls.parse s = .ok url) :
    HttpCacheConfig.new knownUrls s = .ok ⟨url, 40, .fromSecs 60⟩ := by
  rw [HttpCacheConfig.new, h]
  rfl

theorem default_cache_extended : ∃ config, Rfc3986 knownUrls ∧
    HttpCacheConfig.new knownUrls "https://cache.nixos.org" = .ok config ∧
    IsStoreHash "00bgk9l11v5g2ab1sdn3xv5c8zgk6rp4" ∧
    NarinfoExtended knownUrls config.url "00bgk9l11v5g2ab1sdn3xv5c8zgk6rp4" := by
  have hhash : IsStoreHash "00bgk9l11v5g2ab1sdn3xv5c8zgk6rp4" := by decide +kernel
  have accepted := new_of_parse parse_defaultCache
  refine ⟨_, knownUrls_rfc3986, accepted, hhash, ?_⟩
  apply ((extended_iff knownUrls knownUrls_rfc3986 _ _ accepted).1 _ hhash).mpr
  intro _
  exact .inr rfl

/-- The narinfo is looked for beside the cache, not in it. -/
theorem cache_below_path_truncated : ∃ config, Rfc3986 knownUrls ∧
    HttpCacheConfig.new knownUrls "https://host.example/cache" = .ok config ∧
    IsStoreHash "00bgk9l11v5g2ab1sdn3xv5c8zgk6rp4" ∧
    ¬ NarinfoExtended knownUrls config.url "00bgk9l11v5g2ab1sdn3xv5c8zgk6rp4" := by
  have hhash : IsStoreHash "00bgk9l11v5g2ab1sdn3xv5c8zgk6rp4" := by decide +kernel
  obtain ⟨relative, named, _⟩ := narinfo_below hhash
  refine ⟨_, knownUrls_rfc3986, new_of_parse parse_cacheBelowPath, hhash, ?_⟩
  rw [narinfoExtended_iff,
    joined_extends_iff knownUrls_rfc3986 parse_cacheBelowPath relative named]
  intro h
  have canBe : cacheBelowPath.CanBeBase := .inl rfl
  have still_open : ¬ (cacheBelowPath.path = [] ∨ IsClosed cacheBelowPath.path) := by
    decide +kernel
  exact still_open (h canBe).1

end IrohNix.Transfer.Lookup
