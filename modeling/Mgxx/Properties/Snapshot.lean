import Mgxx.Http.Requests

/-!
An async request is a snapshot of the request it was made from.
-/

namespace Mgxx.Http

open Mgxx.Library

variable {maxHeaders : ℕ} {same : Bytes → Bytes → Bool} {memory later : Memory}
variable {message copy : MgStr}

theorem MgHttpMessage.inside_headers {msg : MgHttpMessage maxHeaders}
    (h : ∀ s ∈ msg.spans, s.Inside message) {header : MgHttpHeader}
    (hheader : header ∈ msg.headers.toList) :
    header.name.Inside message ∧ header.value.Inside message := by
  have hmem {s : MgStr} (hs : s ∈ [header.name, header.value]) : s ∈ msg.spans :=
    List.mem_append.mpr (Or.inr (List.mem_flatMap.mpr ⟨header, hheader, hs⟩))
  exact ⟨h _ (hmem (by simp)), h _ (hmem (by simp))⟩

namespace AsyncRequest

/-- `copy` is a buffer that holds in `later` what `message` held in `memory`:
right after `mg_strdup` succeeded, and as long as nobody writes to the copy. -/
structure Copied (memory : Memory) (message : MgStr) (later : Memory) (copy : MgStr) : Prop where
  buf_ne_zero : copy.buf ≠ 0
  len_eq : copy.len = message.len
  read_eq : copy.read later = message.read memory

theorem Copied.kept {after : Memory} (h : Copied memory message after copy)
    (hkept : copy.Kept after later) : Copied memory message later copy where
  buf_ne_zero := h.buf_ne_zero
  len_eq := h.len_eq
  read_eq := by rw [Span.read_eq_of_kept hkept, h.read_eq]

section Rebase

variable {str : MgStr} {headers : List MgHttpHeader}

theorem rebase_of_null (delta : ℤ) (h : str.buf = 0) : rebase delta str = Span.null := by
  rw [rebase, if_pos h]

theorem rebase_of_ne_null (delta : ℤ) (h : str.buf ≠ 0) :
    rebase delta str = str.advance delta := by
  rw [rebase, if_neg h]

theorem inside_rebase (hstr : str.Inside message) (h : Copied memory message later copy) :
    (rebase (copy.buf - message.buf) str).Inside copy := by
  by_cases hbuf : str.buf = 0
  · rw [rebase_of_null _ hbuf]
    exact Span.inside_null copy
  · rw [rebase_of_ne_null _ hbuf]
    exact Span.inside_advance hstr hbuf h.buf_ne_zero h.len_eq

theorem read_rebase (hstr : str.Inside message) (h : Copied memory message later copy) :
    (rebase (copy.buf - message.buf) str).read later = str.read memory := by
  by_cases hbuf : str.buf = 0
  · rw [rebase_of_null _ hbuf, hstr.eq_null hbuf, Span.read_null, Span.read_null]
  · rw [rebase_of_ne_null _ hbuf]
    exact Span.read_advance hstr hbuf h.len_eq h.read_eq

theorem len_rebase (hstr : str.Inside message) (h : Copied memory message later copy) :
    (rebase (copy.buf - message.buf) str).len = str.len := by
  have hread := congrArg List.length (read_rebase hstr h)
  simpa [Span.read] using hread

/-- The null name at which the loop over the headers ends is the null name of
the original. -/
theorem buf_rebase_eq_zero_iff (hstr : str.Inside message) (h : Copied memory message later copy) :
    (rebase (copy.buf - message.buf) str).buf = 0 ↔ str.buf = 0 := by
  by_cases hbuf : str.buf = 0
  · simp [rebase_of_null _ hbuf, hbuf, Span.null]
  · rw [rebase_of_ne_null _ hbuf]
    rcases Span.inside_advance hstr hbuf h.buf_ne_zero h.len_eq with hnull | ⟨hne, -⟩
    · have hmoved : ((str.buf : ℤ) + (copy.buf - message.buf)).toNat = 0 :=
        congrArg Span.buf hnull
      obtain ⟨hlow, -⟩ := hstr.bounds hbuf
      have hcopy := h.buf_ne_zero
      omega
    · simp [hne, hbuf]

theorem mem_rebaseHeaders {delta : ℤ} {header : MgHttpHeader}
    (h : header ∈ rebaseHeaders delta headers) :
    header = ⟨Span.null, Span.null⟩ ∨
      ∃ original ∈ headers, header = ⟨rebase delta original.name, rebase delta original.value⟩ := by
  induction headers with
  | nil => simp [rebaseHeaders] at h
  | cons original rest ih =>
      simp only [rebaseHeaders] at h
      split at h <;> rcases List.mem_cons.mp h with rfl | h
      · exact Or.inr ⟨original, by simp, rfl⟩
      · exact Or.inl (List.eq_of_mem_replicate h)
      · exact Or.inr ⟨original, by simp, rfl⟩
      · rcases ih h with hnull | ⟨found, hfound, hheader⟩
        · exact Or.inl hnull
        · exact Or.inr ⟨found, List.mem_cons_of_mem _ hfound, hheader⟩

/-- The scan of the copied headers finds the copy of what the scan of the
original ones finds. -/
theorem read_findHeader (name : Bytes)
    (hheaders : ∀ header ∈ headers, header.name.Inside message ∧ header.value.Inside message)
    (h : Copied memory message later copy) :
    (findHeader same later name
        (rebaseHeaders (copy.buf - message.buf) headers)).map (Span.read later) =
      (findHeader same memory name headers).map (Span.read memory) := by
  induction headers with
  | nil => rfl
  | cons header rest ih =>
      obtain ⟨hname, hvalue⟩ := hheaders header (by simp)
      have hrest := ih fun header hmem => hheaders header (List.mem_cons_of_mem _ hmem)
      simp only [rebaseHeaders]
      by_cases hnull : header.name.buf = 0
      · -- the copy ends here with an empty name, and so does the original
        have hlen : header.name.len = 0 := by rw [hname.eq_null hnull]; rfl
        rw [if_pos ((buf_rebase_eq_zero_iff hname h).mpr hnull)]
        simp [findHeader, len_rebase hname h, hlen]
      · rw [if_neg fun hzero => hnull ((buf_rebase_eq_zero_iff hname h).mp hzero)]
        simp only [findHeader, len_rebase hname h, read_rebase hname h]
        split
        · rfl
        · split
          · show some _ = some _
            rw [read_rebase hvalue h]
          · exact hrest

end Rebase

/-- The accessors of the copy, read in `later`, return what those of the
request returned in `memory`. -/
structure Faithful (same : Bytes → Bytes → Bool) (memory : Memory)
    (request : Request maxHeaders) (later : Memory) (async : AsyncRequest maxHeaders) : Prop where
  method : async.method later = request.method memory
  uri : async.uri later = request.uri memory
  query : async.query later = request.query memory
  version : async.version later = request.version memory
  body : async.body later = request.body memory
  getParam : ∀ index, async.getParam later index = request.getParam memory index
  getHeader : ∀ name, async.getHeader later same name = request.getHeader memory same name
  getRemoteIp : async.getRemoteIp = request.getRemoteIp memory

variable {request : Request maxHeaders}

theorem mem_spans_asyncRequest {mgStrdup : Memory → MgStr → Memory × MgStr} {s : MgStr}
    (h : s ∈ (request.toAsync mgStrdup memory).2.spans) :
    s = Span.null ∨ ∃ original ∈ request.spans,
      s = rebase ((mgStrdup memory request.mMsg.message).2.buf -
        request.mMsg.message.buf) original := by
  have hheader {header : MgHttpHeader} (hmem : header ∈ request.mMsg.headers.toList) {s : MgStr}
      (hs : s ∈ [header.name, header.value]) : s ∈ request.spans :=
    List.mem_append.mpr (Or.inl (List.mem_append.mpr
      (Or.inr (List.mem_flatMap.mpr ⟨header, hmem, hs⟩))))
  rcases List.mem_append.mp h with h | hgroup
  · rcases List.mem_append.mp h with hfield | hheaders
    · -- the five fields
      refine Or.inr ?_
      simp only [Request.toAsync, asyncRequest, List.mem_cons, List.not_mem_nil, or_false] at hfield
      rcases hfield with rfl | rfl | rfl | rfl | rfl
      · exact ⟨request.mMsg.method, by simp [Request.spans, MgHttpMessage.spans], rfl⟩
      · exact ⟨request.mMsg.uri, by simp [Request.spans, MgHttpMessage.spans], rfl⟩
      · exact ⟨request.mMsg.query, by simp [Request.spans, MgHttpMessage.spans], rfl⟩
      · exact ⟨request.mMsg.proto, by simp [Request.spans, MgHttpMessage.spans], rfl⟩
      · exact ⟨request.mMsg.body, by simp [Request.spans, MgHttpMessage.spans], rfl⟩
    · obtain ⟨header, hmem, hs⟩ := List.mem_flatMap.mp hheaders
      rcases mem_rebaseHeaders hmem with rfl | ⟨original, horiginal, rfl⟩
      · exact Or.inl (by simpa using hs)
      · refine Or.inr ?_
        simp only [List.mem_cons, List.not_mem_nil, or_false] at hs
        rcases hs with rfl | rfl
        · exact ⟨original.name, hheader horiginal (by simp), rfl⟩
        · exact ⟨original.value, hheader horiginal (by simp), rfl⟩
  · obtain ⟨group, hmem, rfl⟩ := List.mem_map.mp hgroup
    exact Or.inr ⟨group, List.mem_append.mpr (Or.inr hmem), rfl⟩

/-- An async request answers in every later memory what the request answered when
the copy was made, and points nowhere but into its own buffer. -/
theorem toAsync_snapshot (mgStrdup : Memory → MgStr → Memory × MgStr)
    (hdup : Copied memory request.mMsg.message (mgStrdup memory request.mMsg.message).1
      (mgStrdup memory request.mMsg.message).2)
    (hmsg : ∀ s ∈ request.spans, s.Inside request.mMsg.message)
    (hlater : (request.toAsync mgStrdup memory).2.mMsg.message.Kept
      (request.toAsync mgStrdup memory).1 later) :
    Faithful same memory request later (request.toAsync mgStrdup memory).2 ∧
      ∀ s ∈ (request.toAsync mgStrdup memory).2.spans,
        s.Inside (request.toAsync mgStrdup memory).2.mMsg.message := by
  have hcopied := hdup.kept hlater
  have hfield {s : MgStr} (hs : s ∈ request.mMsg.spans) : s.Inside request.mMsg.message :=
    hmsg s (List.mem_append.mpr (Or.inl hs))
  refine ⟨⟨?_, ?_, ?_, ?_, ?_, ?_, ?_, rfl⟩, ?_⟩
  · exact read_rebase (hfield (by simp [MgHttpMessage.spans])) hcopied
  · exact read_rebase (hfield (by simp [MgHttpMessage.spans])) hcopied
  · exact read_rebase (hfield (by simp [MgHttpMessage.spans])) hcopied
  · exact read_rebase (hfield (by simp [MgHttpMessage.spans])) hcopied
  · exact read_rebase (hfield (by simp [MgHttpMessage.spans])) hcopied
  · intro index
    show ((request.mGroups.map _)[index]?).map _ = (request.mGroups[index]?).map _
    rw [List.getElem?_map]
    cases hgroup : request.mGroups[index]? with
    | none => rfl
    | some group =>
        have hinside := hmsg group (List.mem_append.mpr (Or.inr (List.mem_of_getElem? hgroup)))
        exact congrArg some (read_rebase hinside hcopied)
  · intro name
    exact read_findHeader (cString name)
      (fun header hheader => MgHttpMessage.inside_headers (fun s hs => hfield hs) hheader) hcopied
  · intro s hs
    rcases mem_spans_asyncRequest hs with rfl | ⟨original, horiginal, rfl⟩
    · exact Span.inside_null _
    · exact inside_rebase (hmsg original horiginal) hcopied

section Example

def plainMemory : Memory := fun a => (List.replicate 100 (0 : UInt8) ++ [71, 47, 97, 98]).getD a 0

def plainStrdup (memory : Memory) (str : MgStr) : Memory × MgStr :=
  (fun a => if 1000 ≤ a then memory (str.buf + (a - 1000)) else memory a, ⟨1000, str.len⟩)

def plainRequest : Request 2 where
  mMsg := {
    method := ⟨100, 1⟩
    uri := ⟨101, 1⟩
    query := Span.null
    proto := Span.null
    headers := #v[⟨⟨102, 1⟩, ⟨103, 1⟩⟩, ⟨Span.null, Span.null⟩]
    body := Span.null
    message := ⟨100, 4⟩ }
  mGroups := [⟨101, 1⟩]
  mIp := ⟨50, 1⟩
  mTlsCertInfo := none

/-- The copy, after everything below it has been overwritten. -/
theorem toAsync_snapshot_plain :
    Faithful (fun a b => a == b) plainMemory plainRequest
        (fun a => if 1000 ≤ a then (plainRequest.toAsync plainStrdup plainMemory).1 a else 255)
        (plainRequest.toAsync plainStrdup plainMemory).2 ∧
      ∀ s ∈ (plainRequest.toAsync plainStrdup plainMemory).2.spans,
        s.Inside (plainRequest.toAsync plainStrdup plainMemory).2.mMsg.message := by
  refine toAsync_snapshot plainStrdup ⟨by decide, rfl, by decide⟩ (by decide) ?_
  intro a hlow _
  exact if_pos hlow

example : (plainRequest.toAsync plainStrdup plainMemory).2.getHeader
    (plainRequest.toAsync plainStrdup plainMemory).1 (fun a b => a == b) [97] = some [98] := by
  decide

end Example

end AsyncRequest

end Mgxx.Http
