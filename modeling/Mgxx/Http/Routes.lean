import Mgxx.Http.Endpoint

/-!
The registration of routes and assets.
-/

namespace Mgxx.Http

open Mgxx.Library

def countGroups (path : Bytes) : ℕ := path.countP fun c => c ∈ text "?*#"

namespace Endpoint

/-- `m_listeners.insert_or_assign(path, …)`. -/
def addListener (e : Endpoint) (path : Bytes) (isAsync : Bool) (callback : ℕ) : Endpoint :=
  { e with mListeners := e.mListeners.insert path ⟨countGroups path, isAsync, callback⟩ }

def onRequest (e : Endpoint) (path : Bytes) (callback : ℕ) : Endpoint :=
  e.addListener path false callback

def onAsyncRequest (e : Endpoint) (path : Bytes) (callback : ℕ) : Endpoint :=
  e.addListener path true callback

def onFallback (e : Endpoint) (callback : ℕ) : Endpoint :=
  { e with mFallback := some ⟨0, false, callback⟩ }

def onAsyncFallback (e : Endpoint) (callback : ℕ) : Endpoint :=
  { e with mFallback := some ⟨0, true, callback⟩ }

/-- `m_assets[path]`, written back after `f`. -/
def updateAsset (e : Endpoint) (path : Bytes) (f : Asset → Asset) : Endpoint :=
  { e with mAssets := e.mAssets.insert path (f ((e.mAssets.lookup path).getD {})) }

def setFile (asset mimeType : Bytes) (headers : Headers) (resource : Asset) : Asset :=
  { resource with path := asset, mimeType := mimeType, headers := headers.format true }

def setDirectory (assets : Bytes) (resource : Asset) : Asset :=
  { resource with isDir := true, path := assets }

/-- `on_asset(path, asset, mime_type, headers)`; the shorter overloads pass an
empty type and an empty map. -/
def onAsset (e : Endpoint) (path asset mimeType : Bytes) (headers : Headers) : Endpoint :=
  e.updateAsset path (setFile asset mimeType headers)

/-- One round of `on_assets(path, assets, args...)`. -/
def onAssets (e : Endpoint) (path assets : Bytes) : Endpoint :=
  e.updateAsset path (setDirectory assets)

end Endpoint

inductive Registration
  | request (path : Bytes) (callback : ℕ)
  | asyncRequest (path : Bytes) (callback : ℕ)
  | asset (path asset mimeType : Bytes) (headers : Headers)
  | assets (path assets : Bytes)

def Endpoint.register (e : Endpoint) : Registration → Endpoint
  | .request path callback => e.onRequest path callback
  | .asyncRequest path callback => e.onAsyncRequest path callback
  | .asset path asset mimeType headers => e.onAsset path asset mimeType headers
  | .assets path assets => e.onAssets path assets

def Registration.isListener : Registration → Bool
  | request .. | asyncRequest .. => true
  | asset .. | assets .. => false

def Registration.path : Registration → Bytes
  | request path _ | asyncRequest path _ | asset path _ _ _ | assets path _ => path

/-- The bytes of the callers' memory that stay as they are, from the call that is
given a view of them to the last look at `m_assets`. -/
abbrev CallerMemory := ℕ → Option UInt8

def StringView.read (memory : CallerMemory) (view : StringView) : Option Bytes :=
  match view.address with
  | none => some []
  | some a => (List.range' a view.data.length).mapM memory

/-- What `m_assets[path]` is given.  The pairs of `on_assets` after the first are
parameters taken by value, and a path among them that is a `std::string` is a
copy that is gone when the call returns. -/
inductive KeyView
  | caller (view : StringView)
  | parameter (path : Bytes)

namespace KeyView

def data : KeyView → Bytes
  | caller view => view.data
  | parameter path => path

def read (memory : CallerMemory) : KeyView → Option Bytes
  | caller view => view.read memory
  | parameter path => if path = [] then some [] else none

def Readable (memory : CallerMemory) (key : KeyView) : Prop := key.read memory = some key.data

instance (memory : CallerMemory) (key : KeyView) : Decidable (key.Readable memory) :=
  inferInstanceAs (Decidable (key.read memory = some key.data))

end KeyView

/-- A call of an overload of `on_asset`, or of `on_assets` with one pair of a path
and a directory and any number of further ones. -/
inductive AssetCall
  | file (path : StringView) (asset : Bytes)
  | fileOfType (path : StringView) (asset mimeType : Bytes)
  | fileWithHeaders (path : StringView) (asset mimeType : Bytes) (headers : Headers)
  | directories (path : StringView) (assets : Bytes) (args : List (KeyView × Bytes))

/-- `m_assets` with its keys.  A path is found by its bytes, and the key stays the
view that was given first.  No key leaves the table, and once the memory of one
has gone `find` has no answer. -/
abbrev AssetTable := UnorderedMap Bytes (KeyView × Asset)

namespace AssetTable

def update (table : AssetTable) (key : KeyView) (f : Asset → Asset) : AssetTable :=
  let resource := (table.lookup key.data).getD (key, {})
  table.insert key.data (resource.1, f resource.2)

def onAsset (table : AssetTable) (path : StringView) (asset mimeType : Bytes)
    (headers : Headers) : AssetTable :=
  table.update (.caller path) (Endpoint.setFile asset mimeType headers)

def onAssets (table : AssetTable) (path : KeyView) (assets : Bytes) : AssetTable :=
  table.update path (Endpoint.setDirectory assets)

def call (table : AssetTable) : AssetCall → AssetTable
  | .file path asset => table.onAsset path asset [] Headers.empty
  | .fileOfType path asset mimeType => table.onAsset path asset mimeType Headers.empty
  | .fileWithHeaders path asset mimeType headers => table.onAsset path asset mimeType headers
  | .directories path assets args =>
      args.foldl (fun table pair => table.onAssets pair.1 pair.2)
        (table.onAssets (.caller path) assets)

/-- The asset under a path.  The search may compare the path with any of the keys,
and is undefined when one cannot be read. -/
def find (memory : CallerMemory) (table : AssetTable) (path : Bytes) : Option (Option Asset) :=
  if ∀ entry ∈ table.entries, entry.2.1.Readable memory then
    some ((table.lookup path).map Prod.snd)
  else none

end AssetTable

/-- The same calls on an endpoint, whose table has the bytes of the keys. -/
def Endpoint.callAsset (e : Endpoint) : AssetCall → Endpoint
  | .file path asset => e.onAsset path.data asset [] Headers.empty
  | .fileOfType path asset mimeType => e.onAsset path.data asset mimeType Headers.empty
  | .fileWithHeaders path asset mimeType headers => e.onAsset path.data asset mimeType headers
  | .directories path assets args =>
      args.foldl (fun e pair => e.onAssets pair.1.data pair.2) (e.onAssets path.data assets)

def AssetCall.registrations : AssetCall → List (KeyView × Registration)
  | file path asset => [(.caller path, .asset path.data asset [] Headers.empty)]
  | fileOfType path asset mimeType =>
      [(.caller path, .asset path.data asset mimeType Headers.empty)]
  | fileWithHeaders path asset mimeType headers =>
      [(.caller path, .asset path.data asset mimeType headers)]
  | directories path assets args =>
      (.caller path, .assets path.data assets) ::
        args.map fun pair => (pair.1, .assets pair.1.data pair.2)

end Mgxx.Http
