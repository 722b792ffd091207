import Mgxx.Http.Routes
import Mgxx.Library.Glob

/-!
The `root_dir` of a directory of assets: the pattern without its last two bytes,
an equals sign, and the directory.  Mongoose splits it again.
-/

namespace Mgxx.Http

open Mgxx.Library

abbrev slash : UInt8 := 47

abbrev comma : UInt8 := 44

abbrev equals : UInt8 := 61

def notSlash (c : UInt8) : Bool := c != slash

/-- A byte of a pattern of `mg_match`: `?` stands for any byte, `*` for any bytes
but slashes and `#` for any bytes, where `any` says which these are. -/
def patternToken (any : UInt8 → Bool) (c : UInt8) : Token UInt8 :=
  if c = 63 then .one any
  else if c = 42 then .run notSlash
  else if c = 35 then .run any
  else .literal c

/-- What `mg_match` accepts matches the pattern, and it accepts what matches
without a slash in the place of a wildcard. -/
structure Mongoose.MatchesGlobs (mg : Mongoose) : Prop where
  sound : ∀ uri pattern, (mg.mgMatch uri pattern).isSome = true →
    Token.Matches (pattern.map (patternToken fun _ => true)) uri
  complete : ∀ uri pattern, Token.Matches (pattern.map (patternToken notSlash)) uri →
    (mg.mgMatch uri pattern).isSome = true

/-- A pair `prefix=directory`, split at the first `=`. -/
def splitPair (entry : Bytes) : Option (Bytes × Bytes) :=
  match entry.dropWhile (· ≠ equals) with
  | [] => none
  | _ :: directory => some (entry.takeWhile (· ≠ equals), directory)

/-- `opts.root_dir` as mongoose reads it: up to the first NUL, pairs between commas. -/
def decodeRootDir (rootDir : Bytes) : List (Option (Bytes × Bytes)) :=
  ((cString rootDir).splitOn comma).map splitPair

/-- The string stands for one pair, with the directory and with a prefix of the
URI that is followed by nothing or by a slash. -/
def StaysInside (rootDir directory uri : Bytes) : Prop :=
  ∃ front rest, decodeRootDir rootDir = [some (front, directory)] ∧ uri = front ++ rest ∧
    ∀ c ∈ rest.head?, c = slash

/-- What is left of the pattern has no wildcard and nothing that would be split,
nor has the directory, and what was cut off begins with a slash. -/
structure CutsAtSlash (path directory : Bytes) : Prop where
  front : ∀ c ∈ path.take (World.prefixLength path),
    c ∉ text "?*#" ∧ c ≠ comma ∧ c ≠ equals ∧ c ≠ 0
  directory : ∀ c ∈ directory, c ≠ comma ∧ c ≠ 0
  cut : 2 ≤ path.length → path[path.length - 2]? = some slash

/-! ### Reading the string -/

theorem splitPair_eq_some_iff {entry front directory : Bytes} :
    splitPair entry = some (front, directory) ↔
      entry = front ++ equals :: directory ∧ equals ∉ front := by
  rw [splitPair]
  constructor
  · intro h
    split at h
    · exact absurd h (by simp)
    · rename_i c rest hdrop
      obtain ⟨rfl, rfl⟩ := Prod.mk.inj (Option.some.inj h)
      have hhead : c = equals := by
        have hne := List.head?_dropWhile_not (fun c => decide (c ≠ equals)) entry
        rw [hdrop] at hne
        simpa using hne
      constructor
      · rw [hhead] at hdrop
        rw [← hdrop, List.takeWhile_append_dropWhile]
      · intro hmem
        simpa using List.mem_takeWhile_imp hmem
  · rintro ⟨rfl, hfront⟩
    have hall : ∀ c ∈ front, decide (c ≠ equals) = true := by
      intro c hc
      simpa using fun heq : c = equals => hfront (heq ▸ hc)
    rw [List.dropWhile_append_of_pos hall, List.takeWhile_append_of_pos hall]
    simp

theorem splitOn_eq_singleton_iff {c : UInt8} {entries entry : Bytes} :
    entries.splitOn c = [entry] ↔ c ∉ entries ∧ entry = entries := by
  constructor
  · intro h
    have hmem : c ∉ entries := by
      intro hc
      obtain ⟨l, r, rfl⟩ := List.append_of_mem hc
      have hlength := congrArg List.length h
      rw [List.splitOn_append_cons_self, List.length_append] at hlength
      have hl := List.length_pos_iff.mpr (List.splitOn_ne_nil c l)
      have hr := List.length_pos_iff.mpr (List.splitOn_ne_nil c r)
      rw [List.length_singleton] at hlength
      omega
    rw [List.splitOn_eq_singleton hmem] at h
    exact ⟨hmem, (List.singleton_inj.mp h).symm⟩
  · rintro ⟨hc, rfl⟩
    exact List.splitOn_eq_singleton hc

theorem decodeRootDir_eq_singleton_iff {rootDir front directory : Bytes} :
    decodeRootDir rootDir = [some (front, directory)] ↔
      cString rootDir = front ++ equals :: directory ∧ comma ∉ cString rootDir ∧
        equals ∉ front := by
  simp only [decodeRootDir, List.map_eq_singleton_iff, splitOn_eq_singleton_iff,
    splitPair_eq_some_iff]
  constructor
  · rintro ⟨_, ⟨hcomma, rfl⟩, heq, hfront⟩
    exact ⟨heq, hcomma, hfront⟩
  · rintro ⟨heq, hcomma, hfront⟩
    exact ⟨cString rootDir, ⟨hcomma, rfl⟩, heq, hfront⟩

/-! ### What is cut off -/

theorem prefixLength_eq {path : Bytes} (hsize : path.length < 2 ^ 64) (h : 2 ≤ path.length) :
    World.prefixLength path = path.length - 2 := by
  rw [World.prefixLength]
  omega

/-- Two bytes are cut off, unless there are fewer: then nothing is. -/
theorem exists_cut {path : Bytes} (hsize : path.length < 2 ^ 64) :
    ∃ front tail, path = front ++ tail ∧ path.take (World.prefixLength path) = front ∧
      (path.length < 2 ∧ tail = [] ∨
        2 ≤ path.length ∧ ∃ a b, tail = [a, b] ∧ path[path.length - 2]? = some a) := by
  rcases Nat.lt_or_ge path.length 2 with h | h
  · have hwhole : path.take (World.prefixLength path) = path := by
      apply List.take_of_length_le
      rw [World.prefixLength]
      omega
    exact ⟨path, [], by simp, hwhole, Or.inl ⟨h, rfl⟩⟩
  · refine ⟨path.take (path.length - 2), path.drop (path.length - 2),
      (List.take_append_drop ..).symm, by rw [prefixLength_eq hsize h], Or.inr ⟨h, ?_⟩⟩
    have hlength : (path.drop (path.length - 2)).length = 2 := by
      rw [List.length_drop]
      omega
    obtain ⟨a, b, htail⟩ := List.length_eq_two.mp hlength
    refine ⟨a, b, htail, ?_⟩
    have hget : (path.drop (path.length - 2))[0]? = path[path.length - 2 + 0]? :=
      List.getElem?_drop
    rw [htail] at hget
    simpa using hget.symm

/-! ### URIs -/

theorem patternToken_eq_literal {c : UInt8} (h : c ∉ text "?*#") (any : UInt8 → Bool) :
    patternToken any c = .literal c := by
  have hne : ¬ (c = 63 ∨ c = 42 ∨ c = 35) := by simpa [text] using h
  rw [not_or, not_or] at hne
  rw [patternToken, if_neg hne.1, if_neg hne.2.1, if_neg hne.2.2]

def fill (c : UInt8) : UInt8 := if c ∈ text "?*#" then 120 else c

theorem fill_eq_self_iff {c : UInt8} : fill c = c ↔ c ∉ text "?*#" := by
  rw [fill]
  split
  · rename_i h
    simp only [h, not_true_eq_false, iff_false]
    rintro rfl
    exact absurd h (by decide)
  · rename_i h
    simp [h]

theorem eq_slash_of_fill {c : UInt8} (h : fill c = slash) : c = slash := by
  rw [fill] at h
  split at h
  · exact absurd h (by decide)
  · exact h

theorem takes_fill (c : UInt8) : (patternToken notSlash c).Takes [fill c] := by
  by_cases hc : c ∈ text "?*#"
  · have hok : ∀ b ∈ [(120 : UInt8)], notSlash b = true := List.forall_mem_singleton.mpr rfl
    rw [fill, if_pos hc, patternToken]
    split
    · exact ⟨120, by decide, rfl⟩
    · split
      · exact hok
      · split
        · exact hok
        · simp_all [text]
  · rw [patternToken_eq_literal hc, fill_eq_self_iff.mpr hc]
    rfl

/-- A pattern matches itself with each wildcard filled in. -/
theorem isSome_mgMatch_fill {mg : Mongoose} (hmg : mg.MatchesGlobs) (path : Bytes) :
    (mg.mgMatch (path.map fill) path).isSome = true := by
  apply hmg.complete
  have hmap : path.map fill = path.flatMap fun c => [fill c] := List.map_eq_flatMap
  rw [hmap]
  exact Token.matches_flatMap takes_fill path

namespace World

theorem rootDir_eq (path : Bytes) (asset : Asset) :
    rootDir path asset = path.take (prefixLength path) ++ equals :: asset.path := by
  simp [rootDir, text]

variable {path : Bytes} {asset : Asset}

theorem staysInside_of_cutsAtSlash (hsize : path.length < 2 ^ 64)
    (h : CutsAtSlash path asset.path) {uri : Bytes}
    (hmatch : Token.Matches (path.map (patternToken fun _ => true)) uri) :
    StaysInside (rootDir path asset) asset.path uri := by
  obtain ⟨front, tail, hpath, hfront, htail⟩ := exists_cut hsize
  have hclean := h.front
  rw [hfront] at hclean
  have hliterals : front.map (patternToken fun _ => true) = front.map .literal :=
    List.map_congr_left fun c hc => patternToken_eq_literal (hclean c hc).1 _
  have hsplit : path.map (patternToken fun _ => true) =
      front.map .literal ++ tail.map (patternToken fun _ => true) := by
    rw [← hliterals, ← List.map_append, ← hpath]
  rw [hsplit, Token.matches_literals_append_iff] at hmatch
  obtain ⟨rest, hrest, rfl⟩ := hmatch
  have hstring : cString (rootDir path asset) = front ++ equals :: asset.path := by
    rw [rootDir_eq, hfront]
    rw [cString_eq_self_iff]
    intro hc
    rcases List.mem_append.mp hc with hc | hc
    · exact (hclean _ hc).2.2.2 rfl
    · rcases List.mem_cons.mp hc with hc | hc
      · exact absurd hc (by decide)
      · exact (h.directory _ hc).2 rfl
  refine ⟨front, rest, decodeRootDir_eq_singleton_iff.mpr ⟨hstring, ?_, ?_⟩, rfl, ?_⟩
  · rw [hstring, List.mem_append, List.mem_cons]
    rintro (hc | hc | hc)
    · exact (hclean _ hc).2.1 rfl
    · exact absurd hc (by decide)
    · exact (h.directory _ hc).1 rfl
  · exact fun hc => (hclean _ hc).2.2.1 rfl
  · rcases htail with ⟨-, rfl⟩ | ⟨htwo, a, b, rfl, hcut⟩
    · rw [Token.matches_nil_iff.mp hrest]
      simp
    · -- the first byte that is cut off is a slash, and so is what stands for it
      obtain rfl : a = slash := Option.some.inj (hcut.symm.trans (h.cut htwo))
      have hslash : patternToken (fun _ => true) slash = .literal slash :=
        patternToken_eq_literal (by decide) _
      rw [List.map_cons, hslash, Token.matches_literal_cons_iff] at hrest
      obtain ⟨rest, -, rfl⟩ := hrest
      simp

/-- The URI that fills in the pattern shows what is wrong with a pair. -/
theorem cutsAtSlash_of_staysInside (hsize : path.length < 2 ^ 64)
    (h : StaysInside (rootDir path asset) asset.path (path.map fill)) :
    CutsAtSlash path asset.path := by
  obtain ⟨front, tail, hpath, hfront, htail⟩ := exists_cut hsize
  obtain ⟨shown, rest, hdecode, huri, hrest⟩ := h
  obtain ⟨hstring, hcomma, hequals⟩ := decodeRootDir_eq_singleton_iff.mp hdecode
  have hread : shown ++ equals :: asset.path <+: front ++ equals :: asset.path := by
    rw [← hstring, ← hfront, ← rootDir_eq]
    exact List.takeWhile_prefix _
  rw [hpath, List.map_append] at huri
  have hlength := hread.length_le
  simp only [List.length_append, List.length_cons] at hlength
  rcases Nat.lt_or_ge shown.length front.length with hshort | hlong
  · -- an equals sign in the pattern has split it, and is what follows in the URI
    have hinner : shown ++ [equals] <+: front := by
      have hpart : shown ++ [equals] <+: shown ++ equals :: asset.path := ⟨asset.path, by simp⟩
      refine List.prefix_of_prefix_length_le (hpart.trans hread) (List.prefix_append ..) ?_
      rw [List.length_append]
      exact hshort
    obtain ⟨more, rfl⟩ := hinner
    rw [List.map_append, List.map_append, List.append_assoc, List.append_assoc] at huri
    obtain ⟨-, hrest'⟩ := List.append_inj huri (List.length_map ..)
    rw [← hrest'] at hrest
    exact absurd (hrest (fill equals) rfl) (by decide)
  · have hsame := hread.eq_of_length (by simp; omega)
    obtain ⟨rfl, -⟩ := List.append_inj hsame (by omega)
    have hwhole : cString (rootDir path asset) = rootDir path asset := by
      rw [hstring, rootDir_eq, hfront]
    have hnul : 0 ∉ shown ++ equals :: asset.path := by
      rw [← hstring, hwhole]
      exact (cString_eq_self_iff _).mp hwhole
    rw [hstring] at hcomma
    simp only [List.mem_append, List.mem_cons, not_or] at hnul hcomma
    obtain ⟨hfill, rfl⟩ := List.append_inj huri (List.length_map ..)
    refine ⟨?_, ?_, ?_⟩
    · rw [hfront]
      intro c hc
      have hself : fill c = c := List.map_inj_left.mp (hfill.trans (List.map_id shown).symm) c hc
      refine ⟨fill_eq_self_iff.mp hself, ?_, ?_, ?_⟩
      · rintro rfl
        exact hcomma.1 hc
      · rintro rfl
        exact hequals hc
      · rintro rfl
        exact hnul.1 hc
    · intro c hc
      constructor
      · rintro rfl
        exact hcomma.2.2 hc
      · rintro rfl
        exact hnul.2.2 hc
    · intro htwo
      rcases htail with ⟨hshort, -⟩ | ⟨-, a, b, rfl, hcut⟩
      · omega
      · rw [hcut, eq_slash_of_fill (hrest (fill a) rfl)]

theorem lookup_onAssets (e : Endpoint) (path directory : Bytes) :
    (e.onAssets path directory).mAssets.lookup path =
      some (Endpoint.setDirectory directory ((e.mAssets.lookup path).getD {})) := by
  rw [Endpoint.onAssets, Endpoint.updateAsset, AList.lookup_insert]

/-- After `on_assets`, every URI that matches the pattern is served from inside
the directory if and only if the pattern is cut at a slash and nothing in the
pair is taken for something else. -/
theorem stays_inside_iff {mg : Mongoose} (hmg : mg.MatchesGlobs) (e : Endpoint)
    (hsize : path.length < 2 ^ 64) (directory : Bytes) :
    (∀ asset ∈ (e.onAssets path directory).mAssets.lookup path, ∀ uri,
        (mg.mgMatch uri path).isSome = true → StaysInside (rootDir path asset) directory uri) ↔
      CutsAtSlash path directory := by
  simp only [lookup_onAssets, Option.mem_def, Option.some.injEq, forall_eq']
  constructor
  · intro h
    exact @cutsAtSlash_of_staysInside path (Endpoint.setDirectory directory _) hsize
      (h _ (isSome_mgMatch_fill hmg path))
  · intro h uri hmatch
    exact @staysInside_of_cutsAtSlash path (Endpoint.setDirectory directory _) hsize h uri
      (hmg.sound uri path hmatch)

/-- What mongoose is given for such an asset. -/
theorem serveAsset_onAssets (mg : Mongoose) (e : Endpoint) (directory : Bytes)
    (msg : HttpMessage) :
    ∀ asset ∈ (e.onAssets path directory).mAssets.lookup path,
      serveAsset mg msg path asset = mg.mgHttpServeDir msg
        { rootDir := some (rootDir path asset)
          extraHeaders := if asset.headers.isEmpty then none else some asset.headers
          mimeTypes := if asset.mimeType.isEmpty then none else some asset.mimeType } := by
  intro asset hasset
  rw [lookup_onAssets] at hasset
  obtain rfl := Option.some.inj hasset
  rfl

def globbing : Mongoose :=
  { Mongoose.plain with
    mgMatch := fun uri pattern =>
      if Token.accepts (pattern.map (patternToken fun _ => true)) uri then some [] else none }

theorem matchesGlobs_globbing : globbing.MatchesGlobs where
  sound uri pattern h := by
    rw [← Token.accepts_iff]
    by_contra hno
    simp [globbing, hno] at h
  complete uri pattern h := by
    have hwide : Token.Matches (pattern.map (patternToken fun _ => true)) uri := by
      refine h.mono fun c piece htakes => ?_
      unfold patternToken at htakes ⊢
      split at htakes
      · obtain ⟨b, -, rfl⟩ := htakes
        simp_all [Token.Takes]
      · split at htakes
        · simp_all [Token.Takes]
        · split at htakes <;> simp_all [Token.Takes]
    rw [← Token.accepts_iff] at hwide
    simp [globbing, hwide]

theorem stays_inside_iff_assets :
    StaysInside (rootDir (text "/assets/#") (Endpoint.setDirectory (text "/srv") {}))
      (text "/srv") (text "/assets/a.css") :=
  (stays_inside_iff matchesGlobs_globbing {} (by decide) _).mpr
    ⟨by decide +kernel, by decide +kernel, fun _ => by decide +kernel⟩ _ (lookup_onAssets ..) _
    (by decide +kernel)

/-- Without the slash before the wildcard, what follows the directory in the
path served is the name of something beside it. -/
theorem served_beside_directory :
    (globbing.mgMatch (text "/ax") (text "/a#")).isSome = true ∧
      ∃ asset ∈ (({} : Endpoint).onAssets (text "/a#") (text "/srv")).mAssets.lookup (text "/a#"),
        decodeRootDir (rootDir (text "/a#") asset) = [some (text "/", text "/srv")] ∧
          ¬ StaysInside (rootDir (text "/a#") asset) (text "/srv") (text "/ax") := by
  have hdecode : decodeRootDir (rootDir (text "/a#") (Endpoint.setDirectory (text "/srv") {})) =
      [some (text "/", text "/srv")] := by decide +kernel
  refine ⟨by decide +kernel, _, lookup_onAssets .., hdecode, ?_⟩
  rintro ⟨front, rest, hpair, huri, hrest⟩
  obtain rfl : text "/" = front := by
    have heq := hdecode.symm.trans hpair
    simpa using heq
  have hrest' : text "ax" = rest :=
    List.append_cancel_left (show text "/" ++ text "ax" = text "/" ++ rest from huri)
  exact absurd (hrest 97 (by rw [← hrest']; rfl)) (by decide)

end World

end Mgxx.Http
