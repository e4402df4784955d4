import DtmaOne.Library.Collections
import DtmaOne.Library.JsonSearch
import Mathlib.Algebra.Order.Ring.Int
import Mathlib.Data.Int.ConditionallyCompleteOrder
import Mathlib.Order.ConditionallyCompleteLattice.Basic

/-!
# The package of a release

`UpdateChecker` finds the package to install in the JSON text of a release.  It searches the text
for the URLs of packages, for the names of packages and for sizes, each on its own, and takes
together what it finds at the same place of the three lists.

* The assets that are no packages have no place among the URLs and names, but have one among the
  sizes, and a release whose title looks like the name of a package has a place among the names.
* Of these offers the first with the best score is chosen.  The score of a name prefers debug
  builds, or other builds, to all that is not so.

So the chosen offer may have the name, the URL and the size of different assets.
-/

namespace Update

namespace UpdateChecker

open Collections Regex JsonSearch

/-! ### The search -/

/-- `.apk` -/
def apk : List Char := ['.', 'a', 'p', 'k']

/-- `debug` -/
def debug : List Char := ['d', 'e', 'b', 'u', 'g']

/-- `dtma` -/
def dtma : List Char := ['d', 't', 'm', 'a']

/-- `https://` -/
def https : List Char := ['h', 't', 't', 'p', 's', ':', '/', '/']

/-- The key `name`. -/
def nameKey : Key where
  chars := ['n', 'a', 'm', 'e']
  ne_nil := by decide
  letters := List.all_eq_true.mp (by decide)

/-- The key `size`. -/
def sizeKey : Key where
  chars := ['s', 'i', 'z', 'e']
  ne_nil := by decide
  letters := List.all_eq_true.mp (by decide)

/-- The key `browser_download_url`. -/
def urlKey : Key where
  chars := ['b', 'r', 'o', 'w', 's', 'e', 'r', '_', 'd', 'o', 'w', 'n', 'l', 'o', 'a', 'd', '_',
    'u', 'r', 'l']
  ne_nil := by decide
  letters := List.all_eq_true.mp (by decide)

/-- `ApkAsset` -/
structure ApkAsset where
  name : List Char
  url : List Char
  size : ℤ
  deriving DecidableEq

/-- `s.substringAfterLast(delimiter)` -/
def substringAfterLast (delimiter : Char) (s : List Char) : List Char :=
  (s.reverse.takeWhile (· != delimiter)).reverse

/-- `applicationId.endsWith(".debug")` -/
def wantDebug (applicationId : List Char) : Bool :=
  ('.' :: debug) <:+ applicationId

/-- `score` -/
def score (lowercase : List Char → List Char) (wantDebug : Bool) (url : List Char)
    (nameHint : Option (List Char)) : ℤ :=
  let n := lowercase (nameHint.getD url)
  (if apk <:+ n then 1 else 0)
    + (if wantDebug = true ∧ debug <:+: n then 10 else 0)
    + (if wantDebug = false ∧ ¬ debug <:+: n then 10 else 0)
    + (if dtma <:+: n then 2 else 0)

/-- The sizes in the text. -/
def sizes (E : Classes) (json : List Char) : List ℤ :=
  (findAll (keyed E sizeKey (number E)) json.length json).map fun ds =>
    (Text.toLongOrNull (String.ofList ds)).getD 0

/-- `UpdateChecker.pickApkAsset` -/
def pickApkAsset (E : Classes) (lowercase : List Char → List Char)
    (json applicationId : List Char) : Option ApkAsset :=
  let urls := findAll (keyed E urlKey (quoted https apk)) json.length json
  if urls.isEmpty then none
  else
    let names := findAll (keyed E nameKey (quoted [] apk)) json.length json
    let last := urls.zipIdx.foldl (fun (best, bestScore) (u, i) =>
      let name := names[i]?.getD (substringAfterLast '/' u)
      let sc := score lowercase (wantDebug applicationId) u (some name)
      if bestScore < sc then
        (some { name := name, url := u, size := (sizes E json)[i]?.getD 0 }, sc)
      else (best, bestScore)) (none, -1)
    last.1

/-! ### Releases -/

/-- The keys that are searched for. -/
def keys : List Key := [nameKey, sizeKey, urlKey]

/-- The fields of a release that are not searched for. -/
structure Others (ts : List Token) : Prop where
  fields : Fields ts
  silent : ∀ key ∈ keys, Silent key ts

/-- An asset, with its other fields. -/
structure Asset where
  /-- The text of the name between its quotes. -/
  name : List Char
  /-- The text of the URL between its quotes. -/
  url : List Char
  size : ℕ
  beforeName : List Token
  beforeSize : List Token
  beforeUrl : List Token
  quote_not_mem_name : '"' ∉ name
  quote_not_mem_url : '"' ∉ url
  https_url : https <+: url
  name_url : name <:+ url
  others_beforeName : Others beforeName
  others_beforeSize : Others beforeSize
  others_beforeUrl : Others beforeUrl

/-- The digits of the size. -/
def Asset.digits (a : Asset) : List Char := Nat.toDigits 10 a.size

/-- The object of an asset, field by field. -/
def Asset.parts (a : Asset) : List (List Token) :=
  [[.punctuation '{'], a.beforeName, field nameKey (.string a.name) ',',
    a.beforeSize, field sizeKey (.word a.digits) ',',
    a.beforeUrl, field urlKey (.string a.url) '}']

/-- A release, with its other fields; a title is a string or `null`. -/
structure Release where
  title : Option Token
  assets : List Asset
  beforeTitle : List Token
  beforeAssets : List Token
  afterAssets : List Token
  ok_title : ∀ t ∈ title, t.Ok
  value_title : ∀ t ∈ title, ∀ c, t ≠ .punctuation c
  others_beforeTitle : Others beforeTitle
  others_beforeAssets : Others beforeAssets
  others_afterAssets : Others afterAssets

/-- The objects of assets, with commas between them. -/
def listed : List Asset → List (List Token)
  | [] => []
  | a :: assets => a.parts ++ assets.flatMap fun b => [.punctuation ','] :: b.parts

/-- The object of a release, field by field. -/
def Release.parts (r : Release) : List (List Token) :=
  [[.punctuation '{'], r.beforeTitle]
    ++ (r.title.toList.map fun t => field nameKey t ',')
    ++ [r.beforeAssets]
    ++ [[.string ['a', 's', 's', 'e', 't', 's'], .punctuation ':', .punctuation '[']]
    ++ listed r.assets
    ++ [[.punctuation ']'], r.afterAssets]

/-- The tokens of a release. -/
def Release.tokens (r : Release) : List Token := r.parts.flatten

/-! ### What is found -/

/-- The URLs that are found. -/
def Release.urls (r : Release) : List (List Char) :=
  (r.assets.map Asset.url).filter fun url => Fits https apk url

/-- The names that are found: the title, if it looks like one, and the names of packages. -/
def Release.names (r : Release) : List (List Char) :=
  r.title.toList.filterMap (quotedValue [] apk)
    ++ (r.assets.map Asset.name).filter fun name => Fits [] apk name

/-- The size of an asset as it is read: zero, where it is no `Long`. -/
def Asset.long (a : Asset) : ℤ :=
  if a.size < 2 ^ 63 then a.size else 0

theorem digits_ne_nil (a : Asset) :
  a.digits ≠ []
  := Nat.toDigits_ne_nil

theorem isDigit_of_mem_digits (a : Asset) :
  ∀ c ∈ a.digits, c.isDigit = true
  := by
  intro c hc
  apply Nat.isDigit_of_mem_toDigits (by omega) (by omega) hc

theorem ok_string {raw : List Char} (h : '"' ∉ raw) :
  (Token.string raw).Ok
  := by
  rintro p q rfl
  exact absurd (List.mem_append_right p List.mem_cons_self) h

theorem fields_asset (a : Asset) :
  ∀ ts ∈ a.parts, Fields ts
  := by
  intro ts hts
  simp only [Asset.parts, List.mem_cons, List.not_mem_nil, or_false] at hts
  obtain rfl | rfl | rfl | rfl | rfl | rfl | rfl := hts
  · apply fields_punctuation <;> decide
  · apply a.others_beforeName.fields
  · apply fields_field nameKey (ok_string a.quote_not_mem_name) <;> decide
  · apply a.others_beforeSize.fields
  · apply fields_field sizeKey (ok_of_isDigit (digits_ne_nil a) (isDigit_of_mem_digits a)) <;>
      decide
  · apply a.others_beforeUrl.fields
  · apply fields_field urlKey (ok_string a.quote_not_mem_url) <;> decide

theorem fields_listed (assets : List Asset) :
  ∀ ts ∈ listed assets, Fields ts
  := by
  cases assets with
  | nil => rintro ts ⟨⟩
  | cons a assets =>
      intro ts hts
      rw [listed, List.mem_append, List.mem_flatMap] at hts
      obtain ha | ⟨b, -, hb⟩ := hts
      · exact fields_asset a ts ha
      · obtain rfl | hb := List.mem_cons.mp hb
        · apply fields_punctuation <;> decide
        · exact fields_asset b ts hb

theorem fields_opening :
  Fields [.string ['a', 's', 's', 'e', 't', 's'], .punctuation ':', .punctuation '[']
  where
    wellFormed := by
      constructor
      · intro t ht
        simp only [List.mem_cons, List.not_mem_nil, or_false] at ht
        obtain rfl | rfl | rfl := ht
        · apply ok_string
          decide
        · trivial
        · trivial
      · simp only [List.isChain_cons_cons, List.isChain_singleton, and_true]
        exact ⟨fun _ => by decide, trivial⟩
    closed := by
      rintro t ⟨⟩
      exact ⟨'[', rfl, by decide⟩

theorem fields_release (r : Release) :
  ∀ ts ∈ r.parts, Fields ts
  := by
  intro ts hts
  simp only [Release.parts, List.mem_append, List.mem_cons, List.not_mem_nil, or_false,
    List.mem_map, Option.mem_toList] at hts
  obtain (((((rfl | rfl) | ⟨t, ht, rfl⟩) | rfl) | rfl) | hlisted) | rfl | rfl := hts
  · apply fields_punctuation <;> decide
  · apply r.others_beforeTitle.fields
  · apply fields_field nameKey (r.ok_title t ht) <;> decide
  · apply r.others_beforeAssets.fields
  · exact fields_opening
  · exact fields_listed r.assets ts hlisted
  · apply fields_punctuation <;> decide
  · apply r.others_afterAssets.fields

theorem wellFormed_tokens (r : Release) :
  WellFormed r.tokens
  := (fields_flatten (fields_release r)).wellFormed

section Hits

variable {β : Type} {key : Key} {value : Token → Option β}

theorem hits_others {ts : List Token} (h : Others ts) (hkey : key ∈ keys) :
  hits key value 0 ts = []
  := hits_of_silent (h.silent key hkey)

/-- The values of a key in the object of an asset. -/
theorem hits_asset (a : Asset) (hkey : key ∈ keys) :
  a.parts.flatMap (hits key value 0)
    = (if nameKey.chars = key.chars then (value (.string a.name)).toList else [])
      ++ (if sizeKey.chars = key.chars then (value (.word a.digits)).toList else [])
      ++ (if urlKey.chars = key.chars then (value (.string a.url)).toList else [])
  := by
  have hbrace : hits key value 0 [.punctuation '{'] = [] := rfl
  simp only [Asset.parts, List.flatMap_cons, List.flatMap_nil, hits_field, hbrace,
    hits_others a.others_beforeName hkey, hits_others a.others_beforeSize hkey,
    hits_others a.others_beforeUrl hkey, List.nil_append, List.append_nil, List.append_assoc]

theorem hits_opening (hkey : key ∈ keys) :
  hits key value 0 [.string ['a', 's', 's', 'e', 't', 's'], .punctuation ':', .punctuation '[']
    = []
  := by
  simp only [keys, List.mem_cons, List.not_mem_nil, or_false] at hkey
  obtain rfl | rfl | rfl := hkey <;> rfl

theorem hits_listed (assets : List Asset) :
  (listed assets).flatMap (hits key value 0)
    = assets.flatMap fun a => a.parts.flatMap (hits key value 0)
  := by
  cases assets with
  | nil => rfl
  | cons a assets =>
      rw [listed, List.flatMap_append, List.flatMap_assoc, List.flatMap_cons]
      rfl

/-- The values of a key in a release. -/
theorem hits_tokens (r : Release) (hkey : key ∈ keys) :
  hits key value 0 r.tokens
    = (if nameKey.chars = key.chars then r.title.toList.filterMap value else [])
      ++ r.assets.flatMap fun a => a.parts.flatMap (hits key value 0)
  := by
  have hbrace : hits key value 0 [.punctuation '{'] = [] := rfl
  have hbracket : hits key value 0 [.punctuation ']'] = [] := rfl
  have htitle : (r.title.toList.map fun t => field nameKey t ',').flatMap (hits key value 0)
      = if nameKey.chars = key.chars then r.title.toList.filterMap value else [] := by
    cases r.title with
    | none => simp
    | some t =>
        rw [Option.toList_some, List.map_singleton, List.flatMap_singleton, hits_field]
        split_ifs
        · cases hvalue : value t with
          | none => simp [hvalue]
          | some a => simp [hvalue]
        · rfl
  rw [Release.tokens, hits_flatten (fields_release r)]
  simp only [Release.parts, List.flatMap_append, List.flatMap_cons, List.flatMap_nil, htitle,
    hits_listed, hbrace, hbracket, hits_opening hkey, hits_others r.others_beforeTitle hkey,
    hits_others r.others_beforeAssets hkey, hits_others r.others_afterAssets hkey,
    List.nil_append, List.append_nil]

end Hits

/-- The searches find the URLs, the names and the sizes of the release. -/
theorem hits_urls (r : Release) :
  hits urlKey (quotedValue https apk) 0 r.tokens = r.urls
  := by
  have hname : nameKey.chars ≠ urlKey.chars := by decide
  have hsize : sizeKey.chars ≠ urlKey.chars := by decide
  rw [hits_tokens r (by simp [keys]), if_neg hname, List.nil_append, Release.urls]
  induction r.assets with
  | nil => rfl
  | cons a assets ih =>
      rw [List.flatMap_cons, ih, hits_asset a (by simp [keys]), if_neg hname, if_neg hsize,
        if_pos rfl, List.nil_append, List.nil_append, quotedValue, List.map_cons,
        List.filter_cons]
      by_cases hfits : Fits https apk a.url
      · rw [if_pos ⟨a.quote_not_mem_url, hfits⟩, if_pos (decide_eq_true hfits)]
        rfl
      · rw [if_neg (fun h => hfits h.2), if_neg (by simpa using hfits)]
        rfl

theorem hits_names (r : Release) :
  hits nameKey (quotedValue [] apk) 0 r.tokens = r.names
  := by
  have hsize : sizeKey.chars ≠ nameKey.chars := by decide
  have hurl : urlKey.chars ≠ nameKey.chars := by decide
  rw [hits_tokens r (by simp [keys]), if_pos rfl, Release.names]
  congr 1
  induction r.assets with
  | nil => rfl
  | cons a assets ih =>
      rw [List.flatMap_cons, ih, hits_asset a (by simp [keys]), if_pos rfl, if_neg hsize,
        if_neg hurl, List.append_nil, List.append_nil, quotedValue, List.map_cons,
        List.filter_cons]
      by_cases hfits : Fits [] apk a.name
      · rw [if_pos ⟨a.quote_not_mem_name, hfits⟩, if_pos (decide_eq_true hfits)]
        rfl
      · rw [if_neg (fun h => hfits h.2), if_neg (by simpa using hfits)]
        rfl

theorem hits_sizes (E : Classes) (r : Release) :
  hits sizeKey (numberValue E) 0 r.tokens = r.assets.map Asset.digits
  := by
  have hname : nameKey.chars ≠ sizeKey.chars := by decide
  have hurl : urlKey.chars ≠ sizeKey.chars := by decide
  rw [hits_tokens r (by simp [keys]), if_neg hname, List.nil_append]
  induction r.assets with
  | nil => rfl
  | cons a assets ih =>
      rw [List.flatMap_cons, ih, hits_asset a (by simp [keys]), if_neg hname, if_pos rfl,
        if_neg hurl, numberValue_of_isDigit E (digits_ne_nil a) (isDigit_of_mem_digits a)]
      rfl

variable (E : Classes) (b : Blanks)

theorem findAll_urls (r : Release) :
  findAll (keyed E urlKey (quoted https apk)) (render b r.tokens).length (render b r.tokens)
    = r.urls
  := by
  have hreads : Reads E (quoted https apk) (quotedValue https apk) :=
    reads_quoted E (by decide) (by decide) (by decide) (by decide)
  have hlen := length_le_length_render (wellFormed_tokens r).ok b
  rw [findAll_render hreads (wellFormed_tokens r) b hlen, hits_urls]

theorem findAll_names (r : Release) :
  findAll (keyed E nameKey (quoted [] apk)) (render b r.tokens).length (render b r.tokens)
    = r.names
  := by
  have hreads : Reads E (quoted [] apk) (quotedValue [] apk) :=
    reads_quoted E (by decide) (by decide) (by decide) (by decide)
  have hlen := length_le_length_render (wellFormed_tokens r).ok b
  rw [findAll_render hreads (wellFormed_tokens r) b hlen, hits_names]

theorem toLongOrNull_digits (a : Asset) :
  (Text.toLongOrNull (String.ofList a.digits)).getD 0 = a.long
  := by
  rw [Text.toLongOrNull, Text.number, String.toList_ofList, Asset.digits, Text.signed_toDigits,
    Asset.long]
  by_cases hsize : a.size < 2 ^ 63
  · rw [if_pos hsize, Option.filter_some, if_pos]
    · rfl
    · rw [decide_eq_true_eq]
      omega
  · rw [if_neg hsize, Option.filter_some, if_neg]
    · rfl
    · rw [decide_eq_true_eq]
      omega

theorem sizes_render (r : Release) :
  sizes E (render b r.tokens) = r.assets.map Asset.long
  := by
  have hlen := length_le_length_render (wellFormed_tokens r).ok b
  rw [sizes, findAll_render (reads_number E) (wellFormed_tokens r) b hlen, hits_sizes,
    List.map_map]
  apply List.map_congr_left
  intro a _
  apply toLongOrNull_digits

/-! ### The choice -/

/-- The offers: each URL with the name and the size at the same place. -/
def Release.offers (r : Release) : List ApkAsset :=
  r.urls.mapIdx fun i u =>
    { name := r.names[i]?.getD (substringAfterLast '/' u)
      url := u
      size := (r.assets.map Asset.long)[i]?.getD 0 }

/-- The score of an offer. -/
def ApkAsset.rank (lowercase : List Char → List Char) (wantDebug : Bool) (o : ApkAsset) : ℤ :=
  score lowercase wantDebug o.url (some o.name)

/-- The loop keeps the first offer with the best score. -/
theorem foldl_best {rank : ApkAsset → ℤ} (hrank : ∀ o, 0 ≤ rank o) (offers : List ApkAsset)
    (best : Option ApkAsset) :
  (offers.foldl (fun (best, bestScore) o =>
      if bestScore < rank o then (some o, rank o) else (best, bestScore))
      (best, (best.map rank).getD (-1))).1
    = offers.foldl (List.argAux fun o p => rank p < rank o) best
  := by
  induction offers generalizing best with
  | nil => rfl
  | cons o offers ih =>
      rw [List.foldl_cons, List.foldl_cons, ← ih]
      congr 2
      cases best with
      | none =>
          have hpos : (-1 : ℤ) < rank o := by
            have hzero := hrank o
            omega
          exact if_pos hpos
      | some p =>
          change (if rank p < rank o then (some o, rank o) else (some p, rank p)) =
            ((if rank p < rank o then some o else some p),
              ((if rank p < rank o then some o else some p).map rank).getD (-1))
          split_ifs <;> rfl

theorem score_nonneg (lowercase : List Char → List Char) (wantDebug : Bool) (url : List Char)
    (nameHint : Option (List Char)) :
  0 ≤ score lowercase wantDebug url nameHint
  := by
  unfold score
  dsimp only
  split_ifs <;> omega

/-- The first offer with the best score is picked. -/
theorem pickApkAsset_render (lowercase : List Char → List Char) (r : Release)
    (applicationId : List Char) :
  pickApkAsset E lowercase (render b r.tokens) applicationId
    = r.offers.argmax (ApkAsset.rank lowercase (wantDebug applicationId))
  := by
  rw [pickApkAsset, findAll_urls, findAll_names, sizes_render]
  cases hurls : r.urls with
  | nil =>
      rw [Release.offers, hurls]
      rfl
  | cons u urls =>
      have hnonneg : ∀ o : ApkAsset, 0 ≤ o.rank lowercase (wantDebug applicationId) := by
        intro o
        apply score_nonneg
      have hbest := foldl_best hnonneg r.offers none
      rw [Release.offers, hurls, List.mapIdx_eq_zipIdx_map, List.foldl_map] at hbest
      rw [Release.offers, hurls, List.mapIdx_eq_zipIdx_map, List.argmax, ← hbest]
      rfl

/-! ### One asset -/

/-- The asset as it is offered for installation. -/
def Asset.own (a : Asset) : ApkAsset where
  name := a.name
  url := a.url
  size := a.size

/-- The name is that of a debug build, if one is wanted, and that of another build otherwise. -/
def OfKind (lowercase : List Char → List Char) (wantDebug : Bool) (name : List Char) : Prop :=
  debug <:+: lowercase name ↔ wantDebug = true

/-- Nothing is picked exactly if no asset is a package, and what is picked is an asset, of the
wanted kind if there is such a package. -/
structure Picks (lowercase : List Char → List Char) (wantDebug : Bool) (r : Release)
    (picked : Option ApkAsset) : Prop where
  none_iff : picked = none ↔ ∀ a ∈ r.assets, ¬ apk <:+ a.name
  own : ∀ o ∈ picked, ∃ a ∈ r.assets, o = a.own ∧
    ((∃ c ∈ r.assets, apk <:+ c.name ∧ OfKind lowercase wantDebug c.name) →
      OfKind lowercase wantDebug a.name)

/-- The texts that are taken for the names of the packages with a URL: the texts that look like the
name of a package, the title among them, and where there are too few the last segments of the URLs. -/
def Release.labels (r : Release) : List (List Char) :=
  r.urls.mapIdx fun i u => r.names[i]?.getD (substringAfterLast '/' u)

/-- The URL of the asset is the `i`-th one of a package, its name is the `i`-th text, and its size is
that of the `i`-th of all assets, as it is read. -/
structure InPlace (r : Release) (i : ℕ) (a : Asset) : Prop where
  name : r.labels[i]? = some a.name
  url : r.urls[i]? = some a.url
  size : (r.assets.map Asset.long)[i]?.getD 0 = a.size

/-- The score of a name. -/
def nameScore (lowercase : List Char → List Char) (wantDebug : Bool) (name : List Char) : ℤ :=
  score lowercase wantDebug [] (some name)

/-- The assets of the release are in step where it matters. -/
structure Aligned (lowercase : List Char → List Char) (wantDebug : Bool) (r : Release) : Prop where
  /-- An asset has the URL of a package, if and only if one has the name of a package. -/
  found : (∃ a ∈ r.assets, Fits https apk a.url) ↔ ∃ a ∈ r.assets, apk <:+ a.name
  /-- If a package is of the wanted kind, then so is a text that is taken for a name. -/
  kind : (∃ a ∈ r.assets, apk <:+ a.name ∧ OfKind lowercase wantDebug a.name) →
    ∃ name ∈ r.labels, OfKind lowercase wantDebug name
  /-- At the place of the first text with the best score is an asset. -/
  preferred : ∀ i name, FirstBest (nameScore lowercase wantDebug) r.labels i name →
    ∃ a ∈ r.assets, InPlace r i a

section Choice

variable (lowercase : List Char → List Char) (wantDebug : Bool) (r : Release)

/-- The names of the wanted kind are those with a high score. -/
theorem ofKind_iff (url name : List Char) :
  OfKind lowercase wantDebug name ↔ 10 ≤ score lowercase wantDebug url (some name)
  := by
  have hpoints : (if wantDebug = true ∧ debug <:+: lowercase name then (10 : ℤ) else 0)
      + (if wantDebug = false ∧ ¬ debug <:+: lowercase name then 10 else 0)
      = if (debug <:+: lowercase name ↔ wantDebug = true) then 10 else 0 := by
    by_cases h : debug <:+: lowercase name
    · cases wantDebug <;> simp [h]
    · cases wantDebug <;> simp [h]
  unfold OfKind score
  dsimp only [Option.getD_some]
  rw [add_assoc (if apk <:+ lowercase name then (1 : ℤ) else 0), hpoints]
  by_cases hkind : debug <:+: lowercase name ↔ wantDebug = true
  · rw [if_pos hkind]
    simp only [hkind, true_iff]
    split_ifs <;> omega
  · rw [if_neg hkind]
    simp only [hkind, false_iff]
    split_ifs <;> omega

theorem offers_eq_nil :
  r.offers = [] ↔ r.urls = []
  := by
  rw [Release.offers, List.mapIdx_eq_nil_iff]

theorem urls_eq_nil_iff :
  r.urls = [] ↔ ¬ ∃ a ∈ r.assets, Fits https apk a.url
  := by
  rw [Release.urls, List.filter_eq_nil_iff]
  simp

theorem map_name_offers :
  r.offers.map ApkAsset.name = r.labels
  := by
  apply List.ext_getElem?
  intro i
  rw [List.getElem?_map, Release.offers, Release.labels, List.getElem?_mapIdx, List.getElem?_mapIdx]
  cases r.urls[i]? <;> rfl

/-- An asset is offered as it is at the places where it stands. -/
theorem getElem?_offers_own {i : ℕ} {a : Asset} :
  r.offers[i]? = some a.own ↔ InPlace r i a
  := by
  have hname : r.labels[i]? = r.offers[i]?.map ApkAsset.name := by
    rw [← map_name_offers, List.getElem?_map]
  have hoffer : r.offers[i]? = r.urls[i]?.map fun u =>
      { name := r.names[i]?.getD (substringAfterLast '/' u)
        url := u
        size := (r.assets.map Asset.long)[i]?.getD 0 } := List.getElem?_mapIdx
  constructor
  · intro h
    rw [h] at hname hoffer
    obtain ⟨u, hu, hown⟩ := Option.map_eq_some_iff.mp hoffer.symm
    obtain ⟨-, rfl, hsize⟩ := ApkAsset.mk.inj hown
    exact ⟨hname, hu, hsize⟩
  · rintro ⟨hlabel, hurl, hsize⟩
    rw [hurl, Option.map_some] at hoffer
    rw [hoffer, Option.map_some, hlabel, Option.some_inj] at hname
    rw [hoffer, Asset.own, ← hsize, hname]

/-- The first text with the best score is that of the first offer with it. -/
theorem firstBest_labels {i : ℕ} {name : List Char} :
  FirstBest (nameScore lowercase wantDebug) r.labels i name
    ↔ ∃ o, FirstBest (ApkAsset.rank lowercase wantDebug) r.offers i o ∧ name = o.name
  := by
  apply firstBest_map (g := fun _ (o : ApkAsset) => o.name)
  · intro _ o
    rfl
  · intro j
    rw [← map_name_offers, List.getElem?_map]

/-- If a name that has a place is of the wanted kind, then so is the one with the best score. -/
theorem ofKind_of_mem_argmax {o p : ApkAsset}
    (ho : o ∈ r.offers.argmax (ApkAsset.rank lowercase wantDebug)) (hp : p ∈ r.offers)
    (hkind : OfKind lowercase wantDebug p.name) :
  OfKind lowercase wantDebug o.name
  := by
  rw [ofKind_iff lowercase wantDebug p.url] at hkind
  rw [ofKind_iff lowercase wantDebug o.url]
  exact le_trans hkind (List.le_of_mem_argmax hp ho)

/-- What is picked is one asset of the release exactly if the assets are in step. -/
theorem picks_iff_aligned :
  Picks lowercase wantDebug r (r.offers.argmax (ApkAsset.rank lowercase wantDebug))
    ↔ Aligned lowercase wantDebug r
  := by
  have hnone : r.offers.argmax (ApkAsset.rank lowercase wantDebug) = none
      ↔ ¬ ∃ a ∈ r.assets, Fits https apk a.url := by
    rw [List.argmax_eq_none, offers_eq_nil, urls_eq_nil_iff]
  have hmissing : (∀ a ∈ r.assets, ¬ apk <:+ a.name) ↔ ¬ ∃ a ∈ r.assets, apk <:+ a.name := by
    simp
  constructor
  · intro h
    have hfound := h.none_iff
    rw [hnone, hmissing, not_iff_not] at hfound
    constructor
    · exact hfound
    · intro hwanted
      obtain ⟨c, hc, hpackage, -⟩ := id hwanted
      cases hpicked : r.offers.argmax (ApkAsset.rank lowercase wantDebug) with
      | none => exact absurd (hfound.mpr ⟨c, hc, hpackage⟩) (hnone.mp hpicked)
      | some o =>
          obtain ⟨a, -, rfl, hkind⟩ := h.own o hpicked
          refine ⟨a.name, ?_, hkind hwanted⟩
          rw [← map_name_offers]
          exact List.mem_map_of_mem (f := ApkAsset.name) (List.argmax_mem hpicked)
    · intro i name hi
      obtain ⟨o, ho, rfl⟩ := (firstBest_labels lowercase wantDebug r).mp hi
      obtain ⟨a, ha, rfl, -⟩ := h.own o (mem_argmax_iff.mpr ⟨i, ho⟩)
      exact ⟨a, ha, (getElem?_offers_own r).mp ho.here⟩
  · intro h
    constructor
    · rw [hnone, hmissing, not_iff_not]
      exact h.found
    · intro o ho
      obtain ⟨i, hi⟩ := mem_argmax_iff.mp ho
      obtain ⟨a, ha, hplace⟩ := h.preferred i o.name
        ((firstBest_labels lowercase wantDebug r).mpr ⟨o, hi, rfl⟩)
      have hown := (getElem?_offers_own r).mpr hplace
      rw [hi.here, Option.some_inj] at hown
      subst hown
      refine ⟨a, ha, rfl, ?_⟩
      intro hwanted
      obtain ⟨name, hname, hkind⟩ := h.kind hwanted
      rw [← map_name_offers] at hname
      obtain ⟨p, hp, rfl⟩ := List.mem_map.mp hname
      exact ofKind_of_mem_argmax lowercase wantDebug r ho hp hkind

end Choice

/-! ### An asset before the package -/

theorem others_nil :
  Others []
  where
    fields := fields_nil
    silent := by
      intro key _ hinfix
      cases List.infix_nil.mp hinfix

/-- An asset with the three fields only. -/
def Asset.bare (name : List Char) (size : ℕ) (hname : '"' ∉ name) : Asset where
  name := name
  url := https ++ ('h' :: '/' :: name)
  size := size
  beforeName := []
  beforeSize := []
  beforeUrl := []
  quote_not_mem_name := hname
  quote_not_mem_url := by
    simp only [https, List.mem_append, List.mem_cons, not_or]
    exact ⟨by decide, by decide, by decide, hname⟩
  https_url := List.prefix_append _ _
  name_url := ⟨https ++ ['h', '/'], by simp⟩
  others_beforeName := others_nil
  others_beforeSize := others_nil
  others_beforeUrl := others_nil

/-- A release whose package comes after another asset. -/
def sumsFirst : Release where
  title := none
  assets := [Asset.bare ['s', 'u', 'm', 's'] 96 (by decide),
    Asset.bare (dtma ++ debug ++ apk) 12345 (by decide)]
  beforeTitle := []
  beforeAssets := []
  afterAssets := [.punctuation '}']
  ok_title := by rintro t ⟨⟩
  value_title := by rintro t ⟨⟩
  others_beforeTitle := others_nil
  others_beforeAssets := others_nil
  others_afterAssets := by
    constructor
    · apply fields_punctuation <;> decide
    · intro key _ hinfix
      have hlen := hinfix.length_le
      contradiction

/-- The white space of ASCII. -/
def asciiSpace (c : Char) : Bool :=
  isBlank c || c.toNat = 11 || c.toNat = 12

theorem asciiSpace_of_isBlank (c : Char) (hc : isBlank c = true) :
  asciiSpace c = true
  := by
  rw [asciiSpace, hc, Bool.true_or, Bool.true_or]

theorem asciiSpace_of_printable (c : Char) (hlo : 33 ≤ c.toNat) (_ : c.toNat < 127) :
  asciiSpace c = false
  := by
  have hblank : isBlank c = false := by
    rw [Bool.eq_false_iff]
    intro hblank
    simp only [isBlank, Bool.or_eq_true, decide_eq_true_eq] at hblank
    obtain ((rfl | rfl) | rfl) | rfl := hblank <;> exact absurd hlo (by decide)
  rw [asciiSpace, hblank, Bool.false_or, Bool.or_eq_false_iff, decide_eq_false_iff_not,
    decide_eq_false_iff_not]
  omega

/-- The classes of ASCII characters. -/
def asciiClasses : Classes where
  space := asciiSpace
  digit := Char.isDigit
  space_of_isBlank := asciiSpace_of_isBlank
  space_of_printable := asciiSpace_of_printable
  digit_of_ascii _ _ := rfl

/-- The package is picked with the size of the asset before it. -/
theorem not_picks :
  ¬ ∀ (E : Classes) (lowercase : List Char → List Char) (b : Blanks) (r : Release)
      (applicationId : List Char),
    Picks lowercase (wantDebug applicationId) r
      (pickApkAsset E lowercase (render b r.tokens) applicationId)
  := by
  intro h
  let noBlanks : Blanks := { before := fun _ => [], isBlank_of_mem := by rintro _ _ ⟨⟩ }
  have hpicks := h asciiClasses (List.map Char.toLower) noBlanks sumsFirst ('.' :: debug)
  have hoffers : sumsFirst.offers = [{
      name := dtma ++ debug ++ apk
      url := https ++ ('h' :: '/' :: (dtma ++ debug ++ apk))
      size := 96 }] := by
    decide
  rw [pickApkAsset_render, hoffers, List.argmax_singleton] at hpicks
  obtain ⟨a, ha, heq, -⟩ := hpicks.own _ rfl
  obtain ⟨hname, -, hsize⟩ := ApkAsset.mk.inj heq
  simp only [sumsFirst, List.mem_cons, List.not_mem_nil, or_false] at ha
  obtain rfl | rfl := ha
  · cases hname
  · cases hsize

/-! ### Regular releases -/

/-- The title does not look like the name of a package, a URL ends with a segment of its own for the
name, and the URLs are different. -/
structure Regular (r : Release) : Prop where
  title : ∀ t ∈ r.title, quotedValue [] apk t = none
  name : ∀ a ∈ r.assets, a.name ≠ apk
  url : ∀ a ∈ r.assets, ∃ path, a.url = https ++ (path ++ '/' :: a.name)
  nodup : (r.assets.map Asset.url).Nodup

/-- The assets that are packages. -/
def Release.packages (r : Release) : List Asset :=
  r.assets.filter fun a => apk <:+ a.name

section Regular

variable {lowercase : List Char → List Char} {wantDebug : Bool} {r : Release}

theorem fits_name_iff (hr : Regular r) {a : Asset} (ha : a ∈ r.assets) :
  Fits [] apk a.name ↔ apk <:+ a.name
  := by
  constructor
  · rintro ⟨g, -, hname⟩
    exact ⟨g, hname.symm⟩
  · rintro ⟨g, hname⟩
    refine ⟨g, ?_, hname.symm⟩
    rintro rfl
    exact hr.name a ha hname.symm

theorem fits_url_iff (hr : Regular r) {a : Asset} (ha : a ∈ r.assets) :
  Fits https apk a.url ↔ apk <:+ a.name
  := by
  obtain ⟨path, hurl⟩ := hr.url a ha
  constructor
  · rintro ⟨g, -, hfits⟩
    have hsuffix : apk <:+ a.url := ⟨https ++ g, hfits.symm⟩
    have hname : '/' :: a.name <:+ a.url := by
      use https ++ path
      rw [hurl, List.append_assoc]
    obtain hlong | hshort := List.suffix_or_suffix_of_suffix hsuffix hname
    · obtain heq | hlong := List.suffix_cons_iff.mp hlong
      · cases heq
      · exact hlong
    · have hslash : '/' ∈ apk := hshort.subset List.mem_cons_self
      exact absurd hslash (by decide)
  · rintro ⟨g, hname⟩
    refine ⟨path ++ '/' :: g, by simp, ?_⟩
    rw [hurl, ← hname]
    simp

theorem urls_of_regular (hr : Regular r) :
  r.urls = r.packages.map Asset.url
  := by
  rw [Release.urls, Release.packages, List.filter_map]
  congr 1
  apply List.filter_congr
  intro a ha
  apply decide_eq_decide.mpr
  exact fits_url_iff hr ha

theorem names_of_regular (hr : Regular r) :
  r.names = r.packages.map Asset.name
  := by
  have htitle : r.title.toList.filterMap (quotedValue [] apk) = [] := by
    rw [List.filterMap_eq_nil_iff]
    intro t ht
    exact hr.title t (Option.mem_toList.mp ht)
  rw [Release.names, htitle, List.nil_append, Release.packages, List.filter_map]
  congr 1
  apply List.filter_congr
  intro a ha
  apply decide_eq_decide.mpr
  exact fits_name_iff hr ha

/-- The text at the place of a package is its name. -/
theorem labels_of_regular (hr : Regular r) :
  r.labels = r.packages.map Asset.name
  := by
  rw [Release.labels, urls_of_regular hr, names_of_regular hr]
  apply List.ext_getElem?
  intro i
  rw [List.getElem?_mapIdx, List.getElem?_map, List.getElem?_map]
  cases r.packages[i]? <;> rfl

/-- The packages among the assets are those with the URL of a package. -/
theorem found_of_regular (hr : Regular r) :
  (∃ a ∈ r.assets, Fits https apk a.url) ↔ ∃ a ∈ r.assets, apk <:+ a.name
  := by
  constructor
  · rintro ⟨a, ha, hfits⟩
    exact ⟨a, ha, (fits_url_iff hr ha).mp hfits⟩
  · rintro ⟨a, ha, hpackage⟩
    exact ⟨a, ha, (fits_url_iff hr ha).mpr hpackage⟩

/-- The size of the first package with the best score is that of the asset which has, among all assets,
the place of the package among the packages. -/
def SizeInStep (lowercase : List Char → List Char) (wantDebug : Bool) (r : Release) : Prop :=
  ∀ i a, FirstBest (fun a : Asset => nameScore lowercase wantDebug a.name) r.packages i a →
    (r.assets.map Asset.long)[i]?.getD 0 = a.size

/-- The assets of a regular release are in step exactly if the size of the preferred package is. -/
theorem aligned_iff_of_regular (hr : Regular r) :
  Aligned lowercase wantDebug r ↔ SizeInStep lowercase wantDebug r
  := by
  have hfirst : ∀ i name, FirstBest (nameScore lowercase wantDebug) r.labels i name
      ↔ ∃ a, FirstBest (fun a : Asset => nameScore lowercase wantDebug a.name) r.packages i a
        ∧ name = a.name := by
    intro i name
    apply firstBest_map (g := fun _ (a : Asset) => a.name)
    · intro _ a
      rfl
    · intro j
      rw [labels_of_regular hr, List.getElem?_map]
  have hurl : ∀ {i : ℕ} {a : Asset}, r.packages[i]? = some a → r.urls[i]? = some a.url := by
    intro i a ha
    rw [urls_of_regular hr, List.getElem?_map, ha, Option.map_some]
  constructor
  · intro h i a ha
    obtain ⟨c, hc, -, hcurl, hsize⟩ := h.preferred i a.name ((hfirst i a.name).mpr ⟨a, ha, rfl⟩)
    rw [hurl ha.here, Option.some_inj] at hcurl
    have ha' : a ∈ r.assets := (List.mem_filter.mp (List.mem_of_getElem? ha.here)).1
    obtain rfl : a = c := List.inj_on_of_nodup_map hr.nodup ha' hc hcurl
    exact hsize
  · intro h
    constructor
    · exact found_of_regular hr
    · rintro ⟨c, hc, hpackage, hkind⟩
      refine ⟨c.name, ?_, hkind⟩
      rw [labels_of_regular hr]
      exact List.mem_map_of_mem (List.mem_filter.mpr ⟨hc, decide_eq_true hpackage⟩)
    · intro i name hname
      obtain ⟨a, ha, rfl⟩ := (hfirst i name).mp hname
      refine ⟨a, (List.mem_filter.mp (List.mem_of_getElem? ha.here)).1, ?_, hurl ha.here, h i a ha⟩
      rw [labels_of_regular hr, List.getElem?_map, ha.here, Option.map_some]

/-- The assets of a regular release are in step, if its packages come before its other assets. -/
theorem aligned_of_packages_first (hr : Regular r) (hfirst : r.packages <+: r.assets)
    (hsize : ∀ a ∈ r.assets, a.size < 2 ^ 63) :
  Aligned lowercase wantDebug r
  := by
  rw [aligned_iff_of_regular hr]
  intro i a ha
  obtain ⟨others, hothers⟩ := hfirst
  have hplace : r.assets[i]? = some a := by
    rw [← hothers]
    rw [List.getElem?_append_left (List.getElem?_eq_some_iff.mp ha.here).1, ha.here]
  rw [List.getElem?_map, hplace, Option.map_some, Option.getD_some, Asset.long,
    if_pos (hsize a (List.mem_of_getElem? hplace))]

end Regular

/-- What is picked from a regular release is one asset of it exactly if the size at the place of the
preferred package is its own, and in general exactly if the assets are in step. -/
theorem picks_iff (E : Classes) (lowercase : List Char → List Char) (b : Blanks) (r : Release)
    (applicationId : List Char) :
  (Picks lowercase (wantDebug applicationId) r
      (pickApkAsset E lowercase (render b r.tokens) applicationId)
    ↔ Aligned lowercase (wantDebug applicationId) r)
  ∧ (Regular r →
    (Picks lowercase (wantDebug applicationId) r
        (pickApkAsset E lowercase (render b r.tokens) applicationId)
      ↔ SizeInStep lowercase (wantDebug applicationId) r))
  := by
  rw [pickApkAsset_render]
  have hpicks := picks_iff_aligned lowercase (wantDebug applicationId) r
  exact ⟨hpicks, fun hr => hpicks.trans (aligned_iff_of_regular hr)⟩

end UpdateChecker

end Update
