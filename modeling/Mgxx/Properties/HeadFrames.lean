import Mgxx.Http.Endpoint
import Mgxx.Library.Fields
import Mathlib.Data.List.TakeWhile

/-!
The head of a response as its receiver reads it: a status line, then fields up
to an empty line, where a field is a line cut at its first `": "`.

A header block reaches the connection inside a frame that the library or
mongoose puts around it.  Mongoose takes the block as a C string.
-/

namespace Mgxx.Http

open Mgxx.Library

abbrev Field := Bytes × Bytes

def fieldBlock (fields : List Field) : Bytes := Fields.block 13 10 58 32 fields

def readFields (block : Bytes) : Option (List Field) := Fields.readBlock 13 10 58 32 block

/-- The fields of a head, which follow its first line. -/
def headFields (head : Bytes) : Option (List Field) :=
  (Fields.cut 13 10 head).bind fun parts => Fields.readHead 13 10 58 32 parts.2

/-- No CRLF and no `": "` in the name, no CRLF in the value. -/
def Intact (field : Field) : Prop := Fields.Intact 13 10 58 32 field

instance (field : Field) : Decidable (Intact field) :=
  inferInstanceAs (Decidable (Fields.Intact 13 10 58 32 field))

def NulFree (field : Field) : Prop := 0 ∉ field.1 ∧ 0 ∉ field.2

instance (field : Field) : Decidable (NulFree field) :=
  inferInstanceAs (Decidable (0 ∉ field.1 ∧ 0 ∉ field.2))

/-! ### The block of a header map -/

namespace Headers

/-- The entries, or what is sent in the place of none. -/
def sentFields (headers : Headers) : List Field :=
  if headers.entries = [] then [(text "Content-Type", text "text/plain")] else headers.entries

theorem format_true (headers : Headers) : headers.format true = fieldBlock headers.entries := by
  have hline (entry : Field) : entry.1 ++ text ": " ++ entry.2 ++ text "\r\n" =
      entry.1 ++ 58 :: 32 :: entry.2 ++ [13, 10] := by
    rw [show text ": " = [58, 32] from rfl, show text "\r\n" = [13, 10] from rfl]
    simp
  simp only [format, fieldBlock, Fields.block, Fields.unlines, Bool.not_true, Bool.false_and,
    List.flatMap_map, hline]
  rfl

theorem format_false (headers : Headers) : headers.format = fieldBlock headers.sentFields := by
  have hblock : headers.format = if (headers.format true).isEmpty
      then text "Content-Type: text/plain\r\n" else headers.format true := by
    simp only [format, Bool.not_false, Bool.true_and, Bool.not_true, Bool.false_and,
      Bool.false_eq_true, if_false]
  rw [hblock, format_true, sentFields]
  cases headers.entries with
  | nil => rfl
  | cons entry entries => simp [fieldBlock, Fields.block, Fields.unlines]

end Headers

/-! ### Frames -/

/-- What stands around a header block in a response. -/
structure HeadFrame where
  status : Bytes
  before : List Field := []
  after : List Field := []
  body : Bytes := []
  status_line : ¬ [13, 10] <:+: status
  before_intact : ∀ field ∈ before, Intact field
  after_intact : ∀ field ∈ after, Intact field
  after_nulFree : ∀ field ∈ after, NulFree field

namespace HeadFrame

def bytes (frame : HeadFrame) (block : Bytes) : Bytes :=
  frame.status ++ 13 :: 10 :: (fieldBlock frame.before ++
    (block ++ (fieldBlock frame.after ++ 13 :: 10 :: frame.body)))

/-- The response has the fields of the frame, and `fields` in the place of the block. -/
def Carries (frame : HeadFrame) (fields : List Field) (response : Bytes) : Prop :=
  headFields response = some (frame.before ++ (fields ++ frame.after))

end HeadFrame

section Reading

variable {fields more : List Field} {rest : Bytes}

theorem readHead_fieldBlock_iff :
    Fields.readHead 13 10 58 32 (fieldBlock fields ++ rest) = some (fields ++ more) ↔
      (∀ field ∈ fields, Intact field) ∧ Fields.readHead 13 10 58 32 rest = some more :=
  Fields.readHead_block_iff (by decide) (by decide) (by decide) (by decide) (by decide) (by decide)
    fields more rest

theorem readFields_fieldBlock_iff :
    readFields (fieldBlock fields) = some fields ↔ ∀ field ∈ fields, Intact field :=
  Fields.readBlock_block_iff (by decide) (by decide) (by decide) (by decide) (by decide)
    (by decide) fields

theorem fieldBlock_cons_append (field : Field) (fields : List Field) (rest : Bytes) :
    fieldBlock (field :: fields) ++ rest =
      field.1 ++ 58 :: 32 :: field.2 ++ 13 :: 10 :: (fieldBlock fields ++ rest) :=
  Fields.block_cons_append field fields rest

theorem readHead_cons_iff {field : Field} :
    Fields.readHead 13 10 58 32 (field.1 ++ 58 :: 32 :: field.2 ++ 13 :: 10 :: rest) =
        some (field :: fields) ↔
      Intact field ∧ Fields.readHead 13 10 58 32 rest = some fields :=
  Fields.readHead_cons_iff (by decide) (by decide) (by decide) (by decide) (by decide) (by decide)
    field fields rest

/-- The head ends at the first empty line. -/
theorem readHead_end (frame : HeadFrame) :
    Fields.readHead 13 10 58 32 (13 :: 10 :: frame.body) = some [] := by
  simp [Fields.readHead, Fields.lines]

/-- After the block come the fields of the frame, and nothing of the body. -/
theorem readHead_after (frame : HeadFrame) :
    Fields.readHead 13 10 58 32 (fieldBlock frame.after ++ 13 :: 10 :: frame.body) =
      some frame.after := by
  have hread := readHead_fieldBlock_iff.mpr ⟨frame.after_intact, readHead_end frame⟩
  rwa [List.append_nil] at hread

theorem headFields_bytes (frame : HeadFrame) (block : Bytes) :
    headFields (frame.bytes block) = Fields.readHead 13 10 58 32 (fieldBlock frame.before ++
      (block ++ (fieldBlock frame.after ++ 13 :: 10 :: frame.body))) := by
  rw [headFields, HeadFrame.bytes,
    (Fields.cut_append_iff (by decide) frame.status _).mpr frame.status_line, Option.bind_some]

theorem carries_bytes_iff_readHead (frame : HeadFrame) (fields : List Field) (block : Bytes) :
    frame.Carries fields (frame.bytes block) ↔
      Fields.readHead 13 10 58 32 (block ++ (fieldBlock frame.after ++ 13 :: 10 :: frame.body)) =
        some (fields ++ frame.after) := by
  rw [HeadFrame.Carries, headFields_bytes, readHead_fieldBlock_iff]
  exact and_iff_right frame.before_intact

/-- A block arrives as the fields it was made of exactly when these are intact. -/
theorem HeadFrame.carries_iff (frame : HeadFrame) (fields : List Field) :
    frame.Carries fields (frame.bytes (fieldBlock fields)) ↔ ∀ field ∈ fields, Intact field := by
  rw [carries_bytes_iff_readHead, readHead_fieldBlock_iff]
  exact and_iff_left (readHead_after frame)

/-! ### C strings -/

theorem cString_append_of_not_mem {x : Bytes} (h : 0 ∉ x) (y : Bytes) :
    cString (x ++ y) = x ++ cString y := by
  rw [cString, List.takeWhile_append_of_pos]
  · rfl
  · intro c hc
    exact decide_eq_true fun h0 : c = 0 => h (h0 ▸ hc)

theorem cString_append_of_mem {x : Bytes} (h : 0 ∈ x) (y : Bytes) :
    cString (x ++ y) = cString x := by
  induction x with
  | nil => simp at h
  | cons c x ih =>
      by_cases hc : c = 0
      · simp [cString, hc]
      · have hx : 0 ∈ x := (List.mem_cons.mp h).resolve_left fun h0 => hc h0.symm
        simpa [cString, hc] using ih hx

theorem not_mem_cString (x : Bytes) : 0 ∉ cString x := fun h => by
  simpa using List.mem_takeWhile_imp h

theorem cString_fieldBlock_cons (field : Field) (fields : List Field) :
    cString (fieldBlock (field :: fields)) =
      if 0 ∈ field.1 ++ 58 :: 32 :: field.2 then cString (field.1 ++ 58 :: 32 :: field.2)
      else field.1 ++ 58 :: 32 :: field.2 ++ 13 :: 10 :: cString (fieldBlock fields) := by
  rw [← List.append_nil (fieldBlock (field :: fields)), fieldBlock_cons_append, List.append_nil]
  split
  · rename_i h
    rw [cString_append_of_mem h]
  · rename_i h
    rw [cString_append_of_not_mem h]
    rfl

theorem mem_field_iff (field : Field) :
    0 ∈ field.1 ++ 58 :: 32 :: field.2 ↔ ¬ NulFree field := by
  simp [NulFree]
  tauto

/-- A field with a NUL does not arrive: its line is cut and runs into the next. -/
theorem readHead_cut_ne {frame : HeadFrame} {field : Field} {fields : List Field}
    (h : 0 ∈ field.1 ++ 58 :: 32 :: field.2) :
    Fields.readHead 13 10 58 32 (cString (field.1 ++ 58 :: 32 :: field.2) ++
      (fieldBlock frame.after ++ 13 :: 10 :: frame.body)) ≠ some (field :: fields) := by
  -- the tail begins with a line that has no NUL either
  obtain ⟨first, rest, htail, hfirst⟩ : ∃ first rest,
      fieldBlock frame.after ++ 13 :: 10 :: frame.body = first ++ 13 :: 10 :: rest ∧ 0 ∉ first := by
    cases hafter : frame.after with
    | nil => exact ⟨[], frame.body, rfl, by simp⟩
    | cons next more =>
        refine ⟨_, _, fieldBlock_cons_append next more _, fun h0 => ?_⟩
        exact (mem_field_iff next).mp h0 (frame.after_nulFree next (by simp [hafter]))
  intro hread
  rw [htail, ← List.append_assoc] at hread
  obtain ⟨more, hlines⟩ := Fields.exists_lines_of_readHead hread
  have hmem := Fields.subset_of_line (by decide) hlines h
  rcases List.mem_append.mp hmem with hmem | hmem
  · exact not_mem_cString _ hmem
  · exact hfirst hmem

/-- A block printed as a C string arrives as the fields it was made of exactly
when these are intact and have no NUL. -/
theorem HeadFrame.carries_cString_iff (frame : HeadFrame) (fields : List Field) :
    frame.Carries fields (frame.bytes (cString (fieldBlock fields))) ↔
      ∀ field ∈ fields, Intact field ∧ NulFree field := by
  rw [carries_bytes_iff_readHead]
  induction fields with
  | nil => simpa [fieldBlock, Fields.block, Fields.unlines, cString] using readHead_after frame
  | cons field fields ih =>
      rw [List.forall_mem_cons, ← ih, cString_fieldBlock_cons]
      split
      · rename_i h
        refine iff_of_false (readHead_cut_ne h) fun h' => ?_
        exact (mem_field_iff field).mp h h'.1.2
      · rename_i h
        have hfree : NulFree field := not_not.mp (mt (mem_field_iff field).mpr h)
        rw [List.append_assoc, List.cons_append, List.cons_append, List.cons_append,
          readHead_cons_iff, and_iff_left hfree]

end Reading

/-! ### The frames of the library and of mongoose -/

theorem not_infix_of_not_mem {x : Bytes} (h : 13 ∉ x) : ¬ [13, 10] <:+: x := fun hpair =>
  h (hpair.subset (by simp))

theorem not_mem_text_of_digits {s : String} {x : UInt8} (h : ∀ c ∈ s.toList, c.isDigit = true)
    (hx : x.toNat < 48) : x ∉ text s := by
  intro hmem
  obtain ⟨c, hc, rfl⟩ := List.mem_map.mp hmem
  have hdigit := h c hc
  simp only [Char.isDigit, Bool.and_eq_true, decide_eq_true_eq, UInt32.le_iff_toNat_le] at hdigit
  have hlow : 48 ≤ c.toNat := hdigit.1
  have hhigh : c.toNat ≤ 57 := hdigit.2
  rw [UInt8.toNat_ofNat'] at hx
  omega

/-- The digits of a number hold no byte below `'0'`. -/
theorem not_mem_text_nat (n : ℕ) {x : UInt8} (hx : x.toNat < 48) : x ∉ text (toString n) := by
  refine not_mem_text_of_digits (fun c hc => ?_) hx
  rw [Nat.toString_eq_repr, Nat.toList_repr] at hc
  exact Nat.isDigit_of_mem_toDigits (by decide) (by decide) hc

theorem text_append (s t : String) : text (s ++ t) = text s ++ text t := by simp [text]

theorem not_mem_text_int (z : ℤ) : 13 ∉ text (toString z) := by
  have hnat (n : ℕ) : 13 ∉ text n.repr := not_mem_text_nat n (by decide)
  rw [Int.toString_eq_repr, Int.repr_eq_if]
  split
  · exact hnat _
  · rw [text_append, List.mem_append, not_or]
    exact ⟨by decide, hnat _⟩

theorem not_mem_formatStatusCode (code : ℤ) : 13 ∉ formatStatusCode code := by
  have htable : ∀ p ∈ statusTexts, 13 ∉ text p.2 := by decide +kernel
  rw [formatStatusCode]
  cases hlookup : statusTexts.lookup code with
  | none => decide
  | some s =>
      obtain ⟨before, after, heq, -⟩ := List.lookup_eq_some_iff.mp hlookup
      exact htable (code, s) (by simp [heq])

def statusLine (code : ℤ) : Bytes :=
  text "HTTP/1.1 " ++ text (toString code) ++ text " " ++ formatStatusCode code

theorem statusLine_line (code : ℤ) : ¬ [13, 10] <:+: statusLine code := by
  apply not_infix_of_not_mem
  simp only [statusLine, List.mem_append, not_or]
  exact ⟨⟨⟨by decide, not_mem_text_int code⟩, by decide⟩, not_mem_formatStatusCode code⟩

def preambleFrame (code : ℤ) : HeadFrame where
  status := statusLine code
  status_line := statusLine_line code
  before_intact := by simp
  after_intact := by simp
  after_nulFree := by simp

theorem formatPreamble_eq (code : ℤ) (block : Bytes) :
    formatPreamble code block = (preambleFrame code).bytes block := by
  rw [formatPreamble, HeadFrame.bytes, show text "\r\n" = [13, 10] from rfl]
  simp [preambleFrame, statusLine, fieldBlock, Fields.block, Fields.unlines]

/-- Mongoose prints the headers of a reply as a C string into these frames. -/
def Mongoose.RepliesIn (mg : Mongoose) (reply : ℤ → Bytes → HeadFrame) : Prop :=
  ∀ code headers body, mg.mgHttpReply code headers body =
    (reply code body.bytes).bytes (cString headers)

/-- The frames that mongoose puts around the extra headers of an asset, by what else it is
given.  A directory is also answered with redirections, which carry none of these headers. -/
structure AssetFrames where
  file : HttpMessage → Bytes → Option Bytes → HeadFrame
  dir : HttpMessage → Option Bytes → Option Bytes → Option HeadFrame

/-- Mongoose prints the extra headers as a C string into these frames.  It prints the type of a
file before them and does not check it, so that a type with a CRLF leaves no such frame. -/
structure Mongoose.ServesIn (mg : Mongoose) (frames : AssetFrames) : Prop where
  file : ∀ msg path opts, (∀ types ∈ opts.mimeTypes, ¬ [13, 10] <:+: types) →
    mg.mgHttpServeFile msg path opts =
      (frames.file msg path opts.mimeTypes).bytes (cString (opts.extraHeaders.getD []))
  dir : ∀ msg opts, ∀ frame ∈ frames.dir msg opts.rootDir opts.mimeTypes,
    mg.mgHttpServeDir msg opts = frame.bytes (cString (opts.extraHeaders.getD []))

def AssetFrames.asset (frames : AssetFrames) (msg : HttpMessage) (path : Bytes) (asset : Asset) :
    Option HeadFrame :=
  let mimeTypes := if asset.mimeType.isEmpty then none else some asset.mimeType
  if asset.isDir then frames.dir msg (some (World.rootDir path asset)) mimeTypes
  else if [13, 10] <:+: asset.mimeType then none
  else some (frames.file msg asset.path mimeTypes)

theorem AssetFrames.isSome_asset (frames : AssetFrames) (msg : HttpMessage) (path : Bytes)
    {asset : Asset} (hfile : asset.isDir = false) (htype : ¬ [13, 10] <:+: asset.mimeType) :
    (frames.asset msg path asset).isSome = true := by
  simp [AssetFrames.asset, hfile, htype]

theorem Mongoose.ServesIn.serveAsset {mg : Mongoose} {frames : AssetFrames}
    (h : mg.ServesIn frames) {msg : HttpMessage} {path : Bytes} {asset : Asset} {frame : HeadFrame}
    (hframe : frame ∈ frames.asset msg path asset) :
    World.serveAsset mg msg path asset = frame.bytes (cString asset.headers) := by
  have hextra : (if asset.headers.isEmpty then none else some asset.headers).getD [] =
      asset.headers := by
    cases asset.headers <;> rfl
  simp only [AssetFrames.asset] at hframe
  simp only [World.serveAsset]
  split at hframe
  · rename_i hdir
    rw [if_pos hdir, h.dir msg _ frame hframe, hextra]
  · rename_i hdir
    split at hframe
    · simp at hframe
    · rename_i htype
      obtain rfl := Option.some.inj hframe
      rw [if_neg hdir, h.file, hextra]
      intro types htypes
      simp only [Option.mem_def, Option.ite_none_left_eq_some, Option.some.injEq] at htypes
      exact htypes.2 ▸ htype

/-- The frame of a reply, which ends in a `Content-Length` of its own. -/
def replyFrame (code : ℤ) (body : Bytes) : HeadFrame where
  status := statusLine code
  after := [(text "Content-Length", text (toString body.length))]
  body := body
  status_line := statusLine_line code
  before_intact := by simp
  after_intact := by
    have hname : ¬ [13, 10] <:+: text "Content-Length" ∧ ¬ [58, 32] <:+: text "Content-Length" := by
      decide
    simp only [List.forall_mem_singleton]
    exact ⟨hname.1, hname.2, not_infix_of_not_mem (not_mem_text_nat _ (by decide))⟩
  after_nulFree := by
    have hname : 0 ∉ text "Content-Length" := by decide
    simp only [List.forall_mem_singleton]
    exact ⟨hname, not_mem_text_nat _ (by decide)⟩

/-- Mongoose with no files to serve: it answers 404 with the extra headers. -/
def Mongoose.framed : Mongoose :=
  { Mongoose.plain with
    mgHttpReply := fun code headers body => (replyFrame code body.bytes).bytes (cString headers)
    mgHttpServeDir := fun _ opts =>
      (replyFrame 404 (text "Not found\n")).bytes (cString (opts.extraHeaders.getD []))
    mgHttpServeFile := fun _ _ opts =>
      (replyFrame 404 (text "Not found\n")).bytes (cString (opts.extraHeaders.getD [])) }

def AssetFrames.framed : AssetFrames where
  file _ _ _ := replyFrame 404 (text "Not found\n")
  dir _ _ _ := some (replyFrame 404 (text "Not found\n"))

theorem Mongoose.repliesIn_framed : Mongoose.framed.RepliesIn replyFrame := fun _ _ _ => rfl

theorem Mongoose.servesIn_framed : Mongoose.framed.ServesIn AssetFrames.framed :=
  ⟨fun _ _ _ _ => rfl, fun _ _ _ h => by rw [← Option.some.inj h]; rfl⟩

end Mgxx.Http
