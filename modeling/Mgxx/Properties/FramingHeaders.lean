import Mgxx.Properties.HeaderBlocks
import Mgxx.Properties.HeaderMap

/-!
The framing of a response: by one `Content-Length`, or by one
`Transfer-Encoding`.  Both kinds of stream rewrite the header map for it; both
kinds of `send` leave the map alone, and mongoose appends its own length.
-/

namespace Mgxx.Http

open Mgxx.Library

def IsTokenChar (c : UInt8) : Prop :=
  (48 ≤ c.toNat ∧ c.toNat ≤ 57) ∨ (65 ≤ c.toNat ∧ c.toNat ≤ 90) ∨
    (97 ≤ c.toNat ∧ c.toNat ≤ 122) ∨
    c ∈ ([33, 35, 36, 37, 38, 39, 42, 43, 45, 46, 94, 95, 96, 124, 126] : Bytes)

instance (c : UInt8) : Decidable (IsTokenChar c) := inferInstanceAs (Decidable (_ ∨ _))

def IsToken (name : Bytes) : Prop := name ≠ [] ∧ ∀ c ∈ name, IsTokenChar c

instance (name : Bytes) : Decidable (IsToken name) := inferInstanceAs (Decidable (_ ∧ _))

def OneLine (value : Bytes) : Prop := 13 ∉ value ∧ 10 ∉ value

instance (value : Bytes) : Decidable (OneLine value) := inferInstanceAs (Decidable (_ ∧ _))

def Proper (field : Field) : Prop := IsToken field.1 ∧ OneLine field.2

instance (field : Field) : Decidable (Proper field) := inferInstanceAs (Decidable (_ ∧ _))

def named (name : Bytes) (field : Field) : Bool := isEqual field.1 name

abbrev contentLength : Bytes := text "Content-Length"

abbrev transferEncoding : Bytes := text "Transfer-Encoding"

/-- Exactly one `Content-Length`, and no `Transfer-Encoding`. -/
def FramedByLength (response : Bytes) : Prop :=
  ∃ fields, headFields response = some fields ∧ fields.countP (named contentLength) = 1 ∧
    fields.countP (named transferEncoding) = 0

/-- No `Content-Length`, and exactly one `Transfer-Encoding`, which is `encoding`. -/
def FramedByEncoding (encoding response : Bytes) : Prop :=
  ∃ fields, headFields response = some fields ∧ fields.countP (named contentLength) = 0 ∧
    (fields.filter (named transferEncoding)).map Prod.snd = [encoding]

/-- The entries up to the first whose value has a NUL. -/
def shown : List Field → List Field
  | [] => []
  | field :: fields => if 0 ∈ field.2 then [field] else field :: shown fields

/-- No `Transfer-Encoding` is shown, and a `Content-Length` only if it comes with
a NUL, which swallows the length that mongoose appends. -/
def Headers.Unframed (headers : Headers) : Prop :=
  (∀ field ∈ shown headers.entries, named transferEncoding field = false) ∧
    ((∃ field ∈ shown headers.entries, named contentLength field = true) ↔
      ∃ field ∈ headers.entries, 0 ∈ field.2)

instance (headers : Headers) : Decidable headers.Unframed :=
  inferInstanceAs (Decidable (_ ∧ (_ ↔ _)))

theorem IsToken.not_mem {name : Bytes} (h : IsToken name) {x : UInt8} (hx : ¬ IsTokenChar x) :
    x ∉ name := fun hmem => hx (h.2 x hmem)

theorem Proper.intact {field : Field} (h : Proper field) : Intact field := by
  refine ⟨not_infix_of_not_mem (h.1.not_mem (by decide)), fun hpair => ?_,
    not_infix_of_not_mem h.2.1⟩
  exact h.1.not_mem (x := 58) (by decide) (hpair.subset (by simp))

/-! ### Streams -/

namespace Headers

theorem proper_framed {headers : Headers} {encoding : Bytes}
    (h : ∀ entry ∈ headers.entries, Proper entry) (hencoding : OneLine encoding) :
    ∀ entry ∈ (headers.framed encoding).entries, Proper entry := by
  intro entry hentry
  rw [framed, entries_set] at hentry
  have hremoved {old : Field} (hold : old ∈ (headers.remove contentLength).entries) : Proper old :=
    h old (List.mem_of_mem_eraseP hold)
  rcases Bucket.mem_insert hentry with hold | ⟨hvalue, hname | ⟨old, hold, hname⟩⟩
  · exact hremoved hold
  · have htoken : IsToken transferEncoding := by decide +kernel
    exact ⟨hname ▸ htoken, hvalue ▸ hencoding⟩
  · exact ⟨hname ▸ (hremoved hold).1, hvalue ▸ hencoding⟩

theorem filter_named (headers : Headers) (name : Bytes) :
    (headers.entries.filter (named name)).map Prod.snd = (headers.get name).toList := by
  rw [get, Option.toList_map, ← Bucket.find, ← Bucket.filter_eq_toList_find classes_isEqual
    headers.distinct]
  rfl

theorem toMap_framed (headers : Headers) (encoding : Bytes) :
    (headers.framed encoding).toMap =
      (headers.toMap.erase (lowerName contentLength)).insert (lowerName transferEncoding)
        encoding := by
  have hset := toMap_apply (headers.remove contentLength) (.set transferEncoding encoding)
  have hremove := toMap_apply headers (.remove contentLength)
  simp only [apply, PlainMap.apply] at hset hremove
  rw [← hremove, ← hset]
  rfl

theorem get_framed_length (headers : Headers) (encoding : Bytes) :
    (headers.framed encoding).get contentLength = none := by
  rw [get_eq, toMap_framed, Finmap.lookup_insert_of_ne _ (by decide), Finmap.lookup_erase]

theorem get_framed_encoding (headers : Headers) (encoding : Bytes) :
    (headers.framed encoding).get transferEncoding = some encoding := by
  rw [get_eq, toMap_framed, Finmap.lookup_insert]

end Headers

theorem framedByEncoding_preamble {headers : Headers} {encoding : Bytes} (code : ℤ)
    (h : ∀ entry ∈ headers.entries, Proper entry) (hencoding : OneLine encoding) :
    FramedByEncoding encoding
      ((preambleFrame code).bytes (fieldBlock (headers.framed encoding).entries)) := by
  have hcarries := ((preambleFrame code).carries_iff (headers.framed encoding).entries).mpr
    fun entry hentry => (Headers.proper_framed h hencoding entry hentry).intact
  refine ⟨_, hcarries, ?_, ?_⟩
  · have hnone := (headers.framed encoding).filter_named contentLength
    rw [Headers.get_framed_length, Option.toList_none, List.map_eq_nil_iff] at hnone
    simp [preambleFrame, List.countP_eq_length_filter, hnone]
  · simpa [preambleFrame, Headers.get_framed_encoding] using
      (headers.framed encoding).filter_named transferEncoding

/-! ### Replies -/

/-- `mg_http_reply` prints its headers as a C string, and appends a
`Content-Length` of its own. -/
structure Mongoose.AppendsLength (mg : Mongoose) (frame : ℤ → Bytes → HeadFrame) : Prop where
  reply : ∀ code headers body,
    mg.mgHttpReply code headers body = (frame code body.bytes).bytes (cString headers)
  before : ∀ code body, (frame code body).before = []
  after : ∀ code body, ∃ length, (frame code body).after = [(contentLength, length)]

theorem Mongoose.appendsLength_framed : Mongoose.framed.AppendsLength replyFrame :=
  ⟨fun _ _ _ => rfl, fun _ _ => rfl, fun _ _ => ⟨_, rfl⟩⟩

/-- The fields of a reply: a NUL ends the block, and the length continues its line. -/
def printed (length : Bytes) : List Field → List Field
  | [] => [(contentLength, length)]
  | field :: fields =>
      if 0 ∈ field.2 then [(field.1, cString field.2 ++ contentLength ++ 58 :: 32 :: length)]
      else field :: printed length fields

theorem intact_of_nul {field : Field} {length : Bytes} (h : Proper field)
    (hlength : ¬ [13, 10] <:+: length) :
    Intact (field.1, cString field.2 ++ contentLength ++ 58 :: 32 :: length) := by
  refine ⟨h.intact.1, h.intact.2.1, ?_⟩
  have hcut : 13 ∉ cString field.2 ++ contentLength := by
    rw [List.mem_append, not_or]
    exact ⟨fun hmem => h.2.1 ((List.takeWhile_prefix _).subset hmem), by decide⟩
  simp only
  rw [Fields.infix_field (by decide) (by decide) (by decide) (by decide)
    (cString field.2 ++ contentLength, length), not_or]
  exact ⟨not_infix_of_not_mem hcut, hlength⟩

/-- What a receiver reads of a block that mongoose has printed. -/
theorem readHead_printed {frame : HeadFrame} {length : Bytes}
    (hafter : frame.after = [(contentLength, length)]) {fields : List Field}
    (h : ∀ field ∈ fields, Proper field) :
    Fields.readHead 13 10 58 32 (cString (fieldBlock fields) ++
      (fieldBlock frame.after ++ 13 :: 10 :: frame.body)) = some (printed length fields) := by
  have hlength : ¬ [13, 10] <:+: length :=
    (frame.after_intact (contentLength, length) (by simp [hafter])).2.2
  induction fields with
  | nil =>
      have hread := readHead_after frame
      rw [hafter] at hread ⊢
      exact hread
  | cons field fields ih =>
      obtain ⟨hfield, hfields⟩ := List.forall_mem_cons.mp h
      have hname : 0 ∉ field.1 ++ [58, 32] := by
        rw [List.mem_append, not_or]
        exact ⟨hfield.1.not_mem (by decide), by decide⟩
      have hline (value : Bytes) :
          field.1 ++ 58 :: 32 :: value = (field.1 ++ [58, 32]) ++ value := by
        simp
      have hnul : 0 ∈ field.1 ++ 58 :: 32 :: field.2 ↔ 0 ∈ field.2 := by
        rw [hline, List.mem_append]
        exact or_iff_right hname
      rw [cString_fieldBlock_cons, printed, if_congr hnul rfl rfl]
      split
      · -- the appended length ends the line
        have hread := readHead_cons_iff.mpr ⟨intact_of_nul hfield hlength, readHead_end frame⟩
        rw [← hread, hline, cString_append_of_not_mem hname, hafter, fieldBlock_cons_append]
        simp [fieldBlock, Fields.block, Fields.unlines]
      · rw [List.append_assoc, List.cons_append, List.cons_append, readHead_cons_iff]
        exact ⟨hfield.intact, ih hfields⟩

theorem countP_printed (length name : Bytes) (fields : List Field) :
    (printed length fields).countP (named name) = (shown fields).countP (named name) +
      if (∃ field ∈ fields, 0 ∈ field.2) ∨ isEqual contentLength name = false then 0 else 1 := by
  induction fields with
  | nil => cases h : isEqual contentLength name <;> simp [printed, shown, named, h]
  | cons field fields ih =>
      by_cases hnul : 0 ∈ field.2
      · have hcount (value : Bytes) :
            [(field.1, value)].countP (named name) = [field].countP (named name) := rfl
        rw [printed, if_pos hnul, shown, if_pos hnul, hcount,
          if_pos (Or.inl ⟨field, List.mem_cons_self, hnul⟩), Nat.add_zero]
      · rw [printed, if_neg hnul, shown, if_neg hnul, List.countP_cons, List.countP_cons, ih]
        simp only [List.exists_mem_cons_iff, hnul, false_or]
        omega

theorem shown_sublist (fields : List Field) : (shown fields).Sublist fields := by
  induction fields with
  | nil => exact .refl _
  | cons field fields ih =>
      rw [shown]
      split
      · exact (List.nil_sublist fields).cons_cons field
      · exact ih.cons_cons field

/-- A reply is framed by its length exactly when the map adds and hides nothing. -/
theorem framedByLength_iff {frame : HeadFrame} {length : Bytes} (hbefore : frame.before = [])
    (hafter : frame.after = [(contentLength, length)]) {fields : List Field}
    (h : ∀ field ∈ fields, Proper field)
    (hone : fields.countP (named contentLength) ≤ 1) :
    FramedByLength (frame.bytes (cString (fieldBlock fields))) ↔
      (∀ field ∈ shown fields, named transferEncoding field = false) ∧
        ((∃ field ∈ shown fields, named contentLength field = true) ↔
          ∃ field ∈ fields, 0 ∈ field.2) := by
  have hread : headFields (frame.bytes (cString (fieldBlock fields))) =
      some (printed length fields) := by
    rw [headFields_bytes, hbefore]
    exact readHead_printed hafter h
  have hframed : FramedByLength (frame.bytes (cString (fieldBlock fields))) ↔
      (printed length fields).countP (named contentLength) = 1 ∧
        (printed length fields).countP (named transferEncoding) = 0 := by
    simp [FramedByLength, hread]
  have hself : ¬ isEqual contentLength contentLength = false := by decide
  have hother : isEqual contentLength transferEncoding = false := by decide
  have hle := ((shown_sublist fields).countP_le (p := named contentLength)).trans hone
  rw [hframed, countP_printed, countP_printed, if_pos (Or.inr hother), Nat.add_zero,
    List.countP_eq_zero, ← List.countP_pos_iff, and_comm]
  refine and_congr (forall₂_congr fun _ _ => by rw [Bool.not_eq_true]) ?_
  by_cases hnul : ∃ field ∈ fields, 0 ∈ field.2
  · rw [if_pos (Or.inl hnul), iff_true_right hnul]
    omega
  · rw [if_neg (not_or.mpr ⟨hnul, hself⟩), iff_false_right hnul]
    omega

theorem countP_named_le_one (headers : Headers) (name : Bytes) :
    headers.entries.countP (named name) ≤ 1 := by
  have hfilter := congrArg List.length (headers.filter_named name)
  rw [List.length_map, ← List.countP_eq_length_filter] at hfilter
  rw [hfilter]
  cases headers.get name <;> simp

/-- The head of a reply with the header block of a map. -/
theorem Headers.framedByLength_iff {frame : HeadFrame} {length : Bytes}
    (hbefore : frame.before = []) (hafter : frame.after = [(contentLength, length)])
    {headers : Headers} (h : ∀ entry ∈ headers.entries, Proper entry) :
    FramedByLength (frame.bytes (cString headers.format)) ↔ headers.Unframed := by
  rw [format_false]
  by_cases hempty : headers.entries = []
  · have hsent : headers.sentFields = [(text "Content-Type", text "text/plain")] := if_pos hempty
    rw [hsent, Http.framedByLength_iff hbefore hafter (by decide +kernel) (by decide +kernel),
      Unframed, hempty]
    decide +kernel
  · rw [sentFields, if_neg hempty, Http.framedByLength_iff hbefore hafter h
      (countP_named_le_one headers _), Unframed]

namespace Config

variable {mg : Mongoose} {cfg₀ : Config}

/-- Both kinds of stream are framed by their encoding, whatever the header map
holds; a reply is framed by its length exactly when the map of the response is
unframed. -/
theorem framing_headers_iff {frame : ℤ → Bytes → HeadFrame} (hmg : mg.AppendsLength frame)
    (hinit : cfg₀.Initial) :
    (∀ conns c res code body, res.mConn = some c → (∀ entry ∈ res.mHeaders.entries, Proper entry) →
      ∃ response, ((Response.send mg conns res code body).1 c).send = (conns c).send ++ response ∧
        (FramedByLength response ↔ res.mHeaders.Unframed)) ∧
      (∀ cfg cfg₁ cfg₂ cfg₃ r c code body, Reaches (atomicStep mg) anyEvent cfg₀ cfg →
        (cfg.world.responses r).mState = .pending →
        (∀ entry ∈ (cfg.world.responses r).mHeaders.entries, Proper entry) →
        cfg.atomicStep mg (.call r (.send code body) .accepted) = some cfg₁ →
        Reaches (atomicStep mg) (Undelivered r) cfg₁ cfg₂ →
        cfg₂.atomicStep mg (.loop (.wakeup c r)) = some cfg₃ → ∃ response,
        (cfg₃.world.connections c).send = (cfg₂.world.connections c).send ++ response ∧
        (FramedByLength response ↔ (cfg.world.responses r).mHeaders.Unframed)) ∧
      (∀ conns c res code encoding results, res.mConn = some c →
        (∀ entry ∈ res.mHeaders.entries, Proper entry) → OneLine encoding → ∃ preamble,
        ((Response.stream mg conns res code encoding results).1 c).send =
          (conns c).send ++ preamble ∧
        FramedByEncoding encoding preamble) ∧
      ∀ cfg cfg₁ cfg₂ cfg₃ r c code encoding, Reaches (atomicStep mg) anyEvent cfg₀ cfg →
        (cfg.world.responses r).mState = .pending →
        (∀ entry ∈ (cfg.world.responses r).mHeaders.entries, Proper entry) → OneLine encoding →
        cfg.atomicStep mg (.call r (.stream code encoding) .accepted) = some cfg₁ →
        Reaches (atomicStep mg) (Untouched r) cfg₁ cfg₂ →
        cfg₂.atomicStep mg (.loop (.wakeup c r)) = some cfg₃ → ∃ preamble,
        (cfg₃.world.connections c).send = (cfg₂.world.connections c).send ++ preamble ∧
        FramedByEncoding encoding preamble := by
  refine ⟨?_, ?_, ?_, ?_⟩
  · intro conns c res code body hres hproper
    refine ⟨mg.mgHttpReply code res.mHeaders.format (.sized body.length body), ?_, ?_⟩
    · simp [Response.send, hres, Connection.write, Write.bytes]
    · obtain ⟨length, hafter⟩ := hmg.after code (ReplyBody.sized body.length body).bytes
      rw [hmg.reply, Headers.framedByLength_iff (hmg.before ..) hafter hproper]
  · intro cfg cfg₁ cfg₂ cfg₃ r c code body h hstate hproper hcall h₂ hdeliver
    refine ⟨_, reply_of_send hinit h hstate hcall h₂ hdeliver, ?_⟩
    obtain ⟨length, hafter⟩ := hmg.after code (ReplyBody.sized body.length body).bytes
    rw [hmg.reply, Headers.framedByLength_iff (hmg.before ..) hafter hproper]
  · intro conns c res code encoding results hres hproper hencoding
    exact ⟨_, Response.send_stream mg conns hres code encoding results,
      framedByEncoding_preamble code hproper hencoding⟩
  · intro cfg cfg₁ cfg₂ cfg₃ r c code encoding h hstate hproper hencoding hcall h₂ hdeliver
    refine ⟨_, preamble_of_stream hinit h hstate hcall h₂ hdeliver, ?_⟩
    have hframed := framedByEncoding_preamble code hproper hencoding
    rwa [← formatPreamble_framed] at hframed

def firstWithHeaders : List AtomicEvent := firstAsked ++ [.headers 0 plainHeaders]

theorem framing_headers_iff_plain :
    (∃ response, ((Response.send .framed (fun _ => {}) { mConn := some 0, mHeaders := plainHeaders }
        200 [1]).1 0).send = [] ++ response ∧ FramedByLength response) ∧
      (∃ cfg cfg₁ cfg₂ : Config,
        run (atomicStep .framed) (start asyncRoutes) firstWithHeaders = some cfg ∧
        cfg.atomicStep .framed (.call 0 (.send 200 [1]) .accepted) = some cfg₁ ∧
        cfg₁.atomicStep .framed (.loop (.wakeup 0 0)) = some cfg₂ ∧ ∃ response,
        (cfg₂.world.connections 0).send = (cfg₁.world.connections 0).send ++ response ∧
        FramedByLength response) ∧
      (∃ preamble, ((Response.stream .framed (fun _ => {})
          { mConn := some 0, mHeaders := plainHeaders } 200 (text "chunked") fun _ => none).1 0).send =
            [] ++ preamble ∧
        FramedByEncoding (text "chunked") preamble) ∧
      ∃ cfg cfg₁ cfg₂ : Config,
        run (atomicStep .framed) (start asyncRoutes) firstWithHeaders = some cfg ∧
        cfg.atomicStep .framed (.call 0 (.stream 200 (text "chunked")) .accepted) = some cfg₁ ∧
        cfg₁.atomicStep .framed (.loop (.wakeup 0 0)) = some cfg₂ ∧ ∃ preamble,
        (cfg₂.world.connections 0).send = (cfg₁.world.connections 0).send ++ preamble ∧
        FramedByEncoding (text "chunked") preamble := by
  have hall := framing_headers_iff Mongoose.appendsLength_framed (initial_start asyncRoutes)
  have hproper : ∀ entry ∈ plainHeaders.entries, Proper entry := by decide +kernel
  have hunframed : plainHeaders.Unframed := by decide +kernel
  have hrun : Reaches (atomicStep .framed) anyEvent (start asyncRoutes) _ :=
    reaches_of_run rfl (meets_anyEvent _ firstWithHeaders)
  refine ⟨?_, ?_, ?_, ?_⟩
  · obtain ⟨response, hsend, hiff⟩ :=
      hall.1 (fun _ => {}) 0 { mConn := some 0, mHeaders := plainHeaders } 200 [1] rfl hproper
    exact ⟨response, hsend, hiff.mpr hunframed⟩
  · obtain ⟨response, hsend, hiff⟩ :=
      hall.2.1 _ _ _ _ 0 0 200 [1] hrun rfl hproper rfl (.refl _) rfl
    exact ⟨_, _, _, rfl, rfl, rfl, response, hsend, hiff.mpr hunframed⟩
  · exact hall.2.2.1 (fun _ => {}) 0 { mConn := some 0, mHeaders := plainHeaders } 200
      (text "chunked") (fun _ => none) rfl hproper (by decide)
  · obtain ⟨preamble, hsend, hframed⟩ :=
      hall.2.2.2 _ _ _ _ 0 0 200 (text "chunked") hrun rfl hproper (by decide) rfl (.refl _) rfl
    exact ⟨_, _, _, rfl, rfl, rfl, preamble, hsend, hframed⟩

/-- The bytes of `send(200, "")` after `set("Content-Length", "5")`. -/
def twoLengths : Bytes :=
  ((Response.send .framed (fun _ => {})
    { mConn := some 0, mHeaders := Headers.build [.set contentLength (text "5")] } 200 []).1 0).send

/-- The length that was set and the one that mongoose appends. -/
theorem framed_twice :
    headFields twoLengths = some [(contentLength, text "5"), (contentLength, text "0")] ∧
      ¬ FramedByLength twoLengths := by
  have hread : headFields twoLengths =
      some [(contentLength, text "5"), (contentLength, text "0")] := by decide
  refine ⟨hread, ?_⟩
  rintro ⟨fields, hfields, hone, -⟩
  obtain rfl := Option.some.inj (hread.symm.trans hfields)
  exact absurd hone (by decide)

end Config

end Mgxx.Http
