import Mgxx.Http.Routes
import Mathlib.Data.List.Induction

/-!
The asset stored under a path after a sequence of registrations.  Each one
updates the record that is there, and sets only the fields it knows; the key of
the record is the view of the first one, and must still be readable.
-/

namespace Mgxx.Http

namespace Registration

def isDirectory : Registration → Bool
  | assets .. => true
  | request .. | asyncRequest .. | asset .. => false

def typeAndHeaders : Registration → Option (Bytes × Headers)
  | asset _ _ mimeType headers => some (mimeType, headers)
  | request .. | asyncRequest .. | assets .. => none

def update : Registration → Asset → Asset
  | asset _ file mimeType headers => Endpoint.setFile file mimeType headers
  | assets _ directory => Endpoint.setDirectory directory
  | request .. | asyncRequest .. => id

def lastFile (history : List Registration) : Option (Bytes × Headers) :=
  (history.filterMap typeAndHeaders).getLast?

/-- The record that the registrations leave, when they are all of one path. -/
def stored (history : List Registration) : Asset :=
  history.foldl (fun resource r => r.update resource) {}

theorem stored_append (history : List Registration) (r : Registration) :
    stored (history ++ [r]) = r.update (stored history) := by
  simp [stored]

theorem isDir_stored (history : List Registration) :
    (stored history).isDir = history.any isDirectory := by
  induction history using List.reverseRecOn with
  | nil => rfl
  | append_singleton history r ih =>
      rw [stored_append, List.any_append, ← ih]
      cases r <;> simp [update, Endpoint.setFile, Endpoint.setDirectory, isDirectory]

/-- Only a file sets the type and the headers. -/
theorem file_stored (history : List Registration) :
    ((stored history).mimeType, (stored history).headers) =
      ((lastFile history).map fun file => (file.1, file.2.format true)).getD ([], []) := by
  induction history using List.reverseRecOn with
  | nil => rfl
  | append_singleton history r ih =>
      rw [stored_append, lastFile, List.filterMap_append]
      cases r with
      | asset path asset mimeType headers =>
          simp [update, Endpoint.setFile, typeAndHeaders]
      | request path callback => simpa [update, typeAndHeaders, lastFile] using ih
      | asyncRequest path callback => simpa [update, typeAndHeaders, lastFile] using ih
      | assets path assets =>
          simpa [update, Endpoint.setDirectory, typeAndHeaders, lastFile] using ih

end Registration

namespace Endpoint

open Registration

variable {e : Endpoint}

theorem callAsset_eq (e : Endpoint) (call : AssetCall) :
    e.callAsset call = (call.registrations.map Prod.snd).foldl register e := by
  cases call with
  | directories path assets args =>
      rw [AssetCall.registrations, List.map_cons, List.foldl_cons, List.map_map, List.foldl_map]
      rfl
  | file path asset | fileOfType path asset mimeType
  | fileWithHeaders path asset mimeType headers => rfl

theorem lookup_register (e : Endpoint) (r : Registration) (path : Bytes) :
    (e.register r).mAssets.lookup path =
      if r.isListener = false ∧ r.path = path then
        some (r.update ((e.mAssets.lookup path).getD {}))
      else e.mAssets.lookup path := by
  cases r with
  | request p callback => rfl
  | asyncRequest p callback => rfl
  | asset p asset mimeType headers =>
      by_cases hp : p = path
      · subst hp
        simp [register, onAsset, updateAsset, isListener, Registration.path, update]
      · simp [register, onAsset, updateAsset, isListener, Registration.path, hp,
          AList.lookup_insert_ne (Ne.symm hp)]
  | assets p assets =>
      by_cases hp : p = path
      · subst hp
        simp [register, onAssets, updateAsset, isListener, Registration.path, update]
      · simp [register, onAssets, updateAsset, isListener, Registration.path, hp,
          AList.lookup_insert_ne (Ne.symm hp)]

def assetsUnder (path : Bytes) (rs : List Registration) : List Registration :=
  rs.filter fun r => !r.isListener && r.path == path

theorem assetsUnder_append (path : Bytes) (rs : List Registration) (r : Registration) :
    assetsUnder path (rs ++ [r]) =
      if r.isListener = false ∧ r.path = path then assetsUnder path rs ++ [r]
      else assetsUnder path rs := by
  rw [assetsUnder, List.filter_append]
  split
  · rename_i hr
    simp [hr, assetsUnder]
  · rename_i hr
    have hnone : [r].filter (fun r => !r.isListener && r.path == path) = [] := by simpa using hr
    rw [hnone, List.append_nil]
    rfl

/-- On a new endpoint the record comes from the registrations of its path. -/
theorem lookup_registered (rs : List Registration) (path : Bytes) :
    (rs.foldl register {}).mAssets.lookup path =
      if assetsUnder path rs = [] then none else some (stored (assetsUnder path rs)) := by
  induction rs using List.reverseRecOn with
  | nil => rfl
  | append_singleton rs r ih =>
      rw [List.foldl_append, List.foldl_cons, List.foldl_nil, lookup_register, ih,
        assetsUnder_append]
      have hold : (if assetsUnder path rs = [] then none
          else some (stored (assetsUnder path rs))).getD {} = stored (assetsUnder path rs) := by
        split
        · rename_i hnil
          rw [hnil]
          rfl
        · rfl
      by_cases hr : r.isListener = false ∧ r.path = path
      · have hne : assetsUnder path rs ++ [r] ≠ [] := List.concat_ne_nil r _
        rw [if_pos hr, if_pos hr, if_neg hne, stored_append, hold]
      · rw [if_neg hr, if_neg hr]

def history (calls : List AssetCall) (path : Bytes) : List Registration :=
  assetsUnder path ((calls.flatMap AssetCall.registrations).map Prod.snd)

theorem foldl_callAsset (e : Endpoint) (calls : List AssetCall) :
    calls.foldl callAsset e =
      ((calls.flatMap AssetCall.registrations).map Prod.snd).foldl register e := by
  induction calls generalizing e with
  | nil => rfl
  | cons call calls ih =>
      rw [List.foldl_cons, ih, callAsset_eq, List.flatMap_cons, List.map_append,
        List.foldl_append]

theorem format_eq_nil_iff (headers : Headers) : headers.format true = [] ↔ headers.size = 0 := by
  simp only [Headers.format, Headers.size, List.length_eq_zero_iff]
  cases headers.entries <;> simp [text]

theorem mem_assetsUnder {path : Bytes} {rs : List Registration} {r : Registration}
    (h : r ∈ assetsUnder path rs) : r.isListener = false ∧ r.path = path := by
  simpa using (List.mem_filter.mp h).2

/-- A file sets all but the flag, and a directory the flag and the path. -/
theorem update_stored_eq_iff (earlier : List Registration) {r : Registration}
    (hr : r.isListener = false) : r.update (stored earlier) = r.update {} ↔
      (r.isDirectory = false → ∀ r' ∈ earlier, r'.isDirectory = false) ∧
        (r.isDirectory = true → ∀ file ∈ lastFile earlier, file.1 = [] ∧ file.2.size = 0) := by
  cases r with
  | request path callback => exact absurd hr (by simp [isListener])
  | asyncRequest path callback => exact absurd hr (by simp [isListener])
  | asset path asset mimeType headers =>
      simp [update, setFile, isDirectory, isDir_stored]
  | assets path assets =>
      have hfile := file_stored earlier
      cases hlast : lastFile earlier with
      | none =>
          rw [hlast] at hfile
          simp [update, setDirectory, isDirectory, Prod.mk.inj hfile]
      | some file =>
          rw [hlast] at hfile
          simp [update, setDirectory, isDirectory, Prod.mk.inj hfile, format_eq_nil_iff]

end Endpoint

namespace AssetTable

variable {table : AssetTable} {e : Endpoint}

theorem lookup_update (table : AssetTable) (key : KeyView) (f : Asset → Asset) (path : Bytes) :
    (table.update key f).lookup path =
      if key.data = path then
        some (((table.lookup path).getD (key, {})).1, f ((table.lookup path).getD (key, {})).2)
      else table.lookup path := by
  by_cases hpath : key.data = path
  · rw [if_pos hpath, ← hpath]
    exact AList.lookup_insert _
  · rw [if_neg hpath]
    exact AList.lookup_insert_ne (Ne.symm hpath)

def Agrees (table : AssetTable) (e : Endpoint) : Prop :=
  ∀ path, (table.lookup path).map Prod.snd = e.mAssets.lookup path

theorem Agrees.update (h : Agrees table e) (key : KeyView) (f : Asset → Asset) :
    Agrees (table.update key f) (e.updateAsset key.data f) := by
  intro path
  rw [lookup_update, Endpoint.updateAsset]
  by_cases hpath : key.data = path
  · rw [if_pos hpath, hpath, AList.lookup_insert, ← h path]
    cases table.lookup path <;> rfl
  · rw [if_neg hpath, AList.lookup_insert_ne (Ne.symm hpath)]
    exact h path

theorem Agrees.directories (h : Agrees table e) (args : List (KeyView × Bytes)) :
    Agrees (args.foldl (fun table pair => table.onAssets pair.1 pair.2) table)
      (args.foldl (fun e pair => e.onAssets pair.1.data pair.2) e) := by
  induction args generalizing table e with
  | nil => exact h
  | cons pair args ih => exact ih (h.update pair.1 _)

theorem Agrees.call (h : Agrees table e) (call : AssetCall) :
    Agrees (table.call call) (e.callAsset call) := by
  cases call with
  | directories path assets args => exact (h.update (.caller path) _).directories args
  | file path asset | fileOfType path asset mimeType
  | fileWithHeaders path asset mimeType headers => exact h.update (.caller path) _

/-- What the calls leave in the table is what they leave in an endpoint that owns
its keys. -/
theorem agrees_calls (calls : List AssetCall) :
    Agrees (calls.foldl call ∅) (calls.foldl Endpoint.callAsset {}) := by
  induction calls using List.reverseRecOn with
  | nil => exact fun _ => rfl
  | append_singleton calls c ih =>
      rw [List.foldl_append, List.foldl_append]
      exact ih.call c

theorem call_eq (table : AssetTable) (c : AssetCall) :
    table.call c = c.registrations.foldl (fun table r => table.update r.1 r.2.update) table := by
  cases c with
  | directories path assets args =>
      rw [AssetCall.registrations, List.foldl_cons, List.foldl_map]
      rfl
  | file path asset | fileOfType path asset mimeType
  | fileWithHeaders path asset mimeType headers => rfl

theorem foldl_call (table : AssetTable) (calls : List AssetCall) :
    calls.foldl call table = (calls.flatMap AssetCall.registrations).foldl
      (fun table r => table.update r.1 r.2.update) table := by
  induction calls generalizing table with
  | nil => rfl
  | cons c calls ih =>
      rw [List.foldl_cons, ih, call_eq, List.flatMap_cons, List.foldl_append]

/-- The key of a path is the view of the first registration under it. -/
theorem key_eq (rs : List (KeyView × Registration)) (path : Bytes) :
    ((rs.foldl (fun table r => table.update r.1 r.2.update) (∅ : AssetTable)).lookup path).map
        Prod.fst = (rs.map Prod.fst).find? fun key => key.data == path := by
  induction rs using List.reverseRecOn with
  | nil => rfl
  | append_singleton rs r ih =>
      rw [List.foldl_append, List.foldl_cons, List.foldl_nil, lookup_update, List.map_append,
        List.find?_append, ← ih]
      generalize List.foldl _ _ rs = table
      by_cases hpath : r.1.data = path
      · rw [if_pos hpath]
        cases table.lookup path <;> simp [hpath]
      · rw [if_neg hpath]
        cases table.lookup path <;> simp [hpath]

/-- The key under which a path is kept after the calls. -/
def firstKey (calls : List AssetCall) (path : Bytes) : Option KeyView :=
  ((calls.flatMap AssetCall.registrations).map Prod.fst).find? fun key => key.data == path

theorem readable_iff (memory : CallerMemory) (calls : List AssetCall) :
    (∀ entry ∈ (calls.foldl call (∅ : AssetTable)).entries, entry.2.1.Readable memory) ↔
      ∀ path, ∀ key ∈ firstKey calls path, key.Readable memory := by
  simp only [firstKey, ← key_eq, ← foldl_call]
  generalize calls.foldl call (∅ : AssetTable) = table
  constructor
  · intro h path key hkey
    obtain ⟨value, hvalue, rfl⟩ := Option.mem_map.mp hkey
    exact h ⟨path, value⟩ (AList.mem_lookup_iff.mp hvalue)
  · intro h entry hentry
    exact h entry.1 _ (Option.mem_map_of_mem Prod.fst (AList.mem_lookup_iff.mpr hentry))

theorem find_calls (memory : CallerMemory) (calls : List AssetCall) (path : Bytes) :
    find memory (calls.foldl call ∅) path =
      if ∀ entry ∈ (calls.foldl call (∅ : AssetTable)).entries, entry.2.1.Readable memory then
        some ((calls.foldl Endpoint.callAsset {}).mAssets.lookup path)
      else none := by
  rw [find, agrees_calls calls path]

end AssetTable

namespace Endpoint

open Registration

/-- The last registration decides about what is stored if and only if it is of a
file and no earlier one is of a directory, or it is of a directory and the last
file before it had no type and no headers. -/
theorem lookup_calls_eq_iff (calls : List AssetCall) (path : Bytes) :
    (calls.foldl callAsset {}).mAssets.lookup path =
        ((history calls path).getLast?.bind fun r => (register {} r).mAssets.lookup path) ↔
      ∀ earlier r, history calls path = earlier ++ [r] →
        (r.isDirectory = false → ∀ r' ∈ earlier, r'.isDirectory = false) ∧
          (r.isDirectory = true → ∀ file ∈ lastFile earlier, file.1 = [] ∧ file.2.size = 0) := by
  have hstored : (calls.foldl callAsset {}).mAssets.lookup path =
      if history calls path = [] then none else some (stored (history calls path)) := by
    rw [foldl_callAsset, lookup_registered]
    rfl
  rw [hstored]
  rcases List.eq_nil_or_concat (history calls path) with hnil | ⟨earlier, r, hlast⟩
  · simp [hnil]
  · rw [List.concat_eq_append] at hlast
    obtain ⟨hr, hpath⟩ : r.isListener = false ∧ r.path = path :=
      mem_assetsUnder (hlast ▸ List.mem_append_right earlier (List.mem_singleton_self r))
    have hnew : (register {} r).mAssets.lookup path = some (r.update {}) := by
      rw [lookup_register, if_pos ⟨hr, hpath⟩]
      rfl
    rw [hlast, if_neg (by simp), List.getLast?_concat, Option.bind_some, hnew, stored_append,
      Option.some.injEq, update_stored_eq_iff earlier hr]
    constructor
    · intro h earlier' r' heq
      obtain ⟨rfl, hsingle⟩ := List.append_inj' heq rfl
      obtain rfl := List.singleton_inj.mp hsingle
      exact h
    · intro h
      exact h earlier r rfl

/-- The asset under the path is the one that the last of its registrations makes
on a new endpoint. -/
def LastWriterWins (memory : CallerMemory) (calls : List AssetCall) (path : Bytes) : Prop :=
  AssetTable.find memory (calls.foldl AssetTable.call ∅) path =
    some ((history calls path).getLast?.bind fun r => (register {} r).mAssets.lookup path)

/-- The last registration decides if and only if the key of every path can still
be read, and it is of a file and no earlier one is of a directory, or it is of a
directory and the last file before it had no type and no headers. -/
theorem last_writer_wins_iff (memory : CallerMemory) (calls : List AssetCall) (path : Bytes) :
    LastWriterWins memory calls path ↔
      (∀ path', ∀ key ∈ AssetTable.firstKey calls path', key.Readable memory) ∧
        ∀ earlier r, history calls path = earlier ++ [r] →
          (r.isDirectory = false → ∀ r' ∈ earlier, r'.isDirectory = false) ∧
            (r.isDirectory = true → ∀ file ∈ lastFile earlier, file.1 = [] ∧ file.2.size = 0) := by
  rw [LastWriterWins, AssetTable.find_calls, ← AssetTable.readable_iff, ← lookup_calls_eq_iff]
  split
  · rename_i hreadable
    rw [Option.some.injEq, iff_true_intro hreadable, true_and]
  · rename_i hreadable
    simp [hreadable]

/-- A memory with the literal `/a/#` at 100. -/
def literals : CallerMemory := fun a => if 100 ≤ a then (text "/a/#")[a - 100]? else none

def slashA : StringView := ⟨some 100, text "/a/#", by simp⟩

/-- A directory that becomes a file stays a directory, and a file that becomes a
directory keeps its type.  The key of a `std::string` in the second pair of
`on_assets` has gone after the call. -/
theorem kind_and_type_stay :
    ¬ LastWriterWins literals [.directories slashA (text "/srv") [], .file slashA (text "a")]
        (text "/a/#") ∧
      ¬ LastWriterWins literals [.fileOfType slashA (text "a") (text "b"),
        .directories slashA (text "/srv") []] (text "/a/#") ∧
      ¬ LastWriterWins literals
        [.directories slashA (text "A") [(.parameter (text "/b"), text "B")]] (text "/b") := by
  refine ⟨fun h => ?_, fun h => ?_, fun h => ?_⟩
  · exact absurd (congrArg (Option.map (Option.map Asset.isDir)) h) (by decide +kernel)
  · exact absurd (congrArg (Option.map (Option.map Asset.mimeType)) h) (by decide +kernel)
  · exact absurd (congrArg Option.isSome h) (by decide +kernel)

end Endpoint

end Mgxx.Http
