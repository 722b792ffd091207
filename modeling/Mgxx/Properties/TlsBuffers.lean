import Mgxx.Http.Tls
import Mathlib.Data.List.Induction

/-!
What becomes of the buffers and the options over a sequence of `use_tls` calls.
A call writes the members it is given arguments for; a member holds what the
last call that wrote it has left.
-/

namespace Mgxx.Http

namespace TlsCall

def isString : TlsCall → Bool
  | string .. | stringCa .. => true
  | view .. | viewCa .. => false

def threeArgs : TlsCall → Bool
  | stringCa .. | viewCa .. => true
  | string .. | view .. => false

def writes (call : TlsCall) : TlsField → Bool
  | .ca => call.threeArgs
  | .cert | .key => true

/-- The argument for the member; the call of a two-argument overload has no CA. -/
def data : TlsCall → TlsField → Bytes
  | string _ _, .ca | view _ _, .ca => []
  | string cert _, .cert => cert
  | string _ key, .key => key
  | stringCa ca _ _, .ca => ca
  | stringCa _ cert _, .cert => cert
  | stringCa _ _ key, .key => key
  | view cert _, .cert => cert.data
  | view _ key, .key => key.data
  | viewCa ca _ _, .ca => ca.data
  | viewCa _ cert _, .cert => cert.data
  | viewCa _ _ key, .key => key.data

/-- The address of the caller's memory that the member is left pointing to. -/
def lent : TlsCall → TlsField → Option ℕ
  | string .., _ | stringCa .., _ | view _ _, .ca => none
  | view cert _, .cert => cert.address
  | view _ key, .key => key.address
  | viewCa ca _ _, .ca => ca.address
  | viewCa _ cert _, .cert => cert.address
  | viewCa _ _ key, .key => key.address

def duplicates (call : TlsCall) (field : TlsField) : Bool :=
  call.isString && !(call.data field).isEmpty

/-- Whether the member is left pointing to a caller's memory that the destructor
would free: an empty CA is not. -/
def lends (call : TlsCall) (field : TlsField) : Bool :=
  (call.lent field).isSome && (field != .ca || !(call.data .ca).isEmpty)

theorem writes_of_duplicates {call : TlsCall} {f : TlsField} (h : call.duplicates f = true) :
    call.writes f = true := by
  cases call <;> cases f <;> simp_all [duplicates, data, writes, threeArgs]

theorem lent_of_isString {call : TlsCall} (h : call.isString = true) (f : TlsField) :
    call.lent f = none := by
  cases call with
  | string cert key => rfl
  | stringCa ca cert key => rfl
  | view cert key => exact absurd h (by simp [isString])
  | viewCa ca cert key => exact absurd h (by simp [isString])

theorem isString_of_duplicates {call : TlsCall} {f : TlsField} (h : call.duplicates f = true) :
    call.isString = true := by
  rw [duplicates, Bool.and_eq_true] at h
  exact h.1

end TlsCall

def lastWriter (field : TlsField) (calls : List TlsCall) : Option TlsCall :=
  (calls.filter fun call => call.writes field).getLast?

/-- `mg_strdup` copies a string that is not empty, and makes a null string of one that is. -/
def Copies (copy : Bytes → Option Bytes) : Prop :=
  ∀ data, copy data = if data.isEmpty then none else some data

namespace Tls

def field (tls : Tls) : TlsField → TlsStr
  | .ca => tls.mTlsCa
  | .cert => tls.mTlsCert
  | .key => tls.mTlsKey

variable {copy : Bytes → Option Bytes}

def written (number : ℕ) (call : TlsCall) (field : TlsField) : TlsStr where
  buf := if call.duplicates field then some (.duplicate number field)
    else (call.lent field).map .borrowed
  data := call.data field

theorem mgStrdup_eq (hcopy : Copies copy) (number : ℕ) (field : TlsField) (data : Bytes) :
    mgStrdup copy number field data =
      ⟨if data.isEmpty then none else some (.duplicate number field), data⟩ := by
  rw [mgStrdup, hcopy]
  cases data <;> rfl

theorem field_useTls (hcopy : Copies copy) (tls : Tls) (call : TlsCall) (f : TlsField) :
    (tls.useTls copy call).field f =
      if call.writes f then written tls.calls call f else tls.field f := by
  cases call <;> cases f <;>
    simp [useTls, field, TlsCall.writes, TlsCall.threeArgs, written, TlsCall.duplicates,
      TlsCall.isString, TlsCall.data, TlsCall.lent, mgStrdup_eq hcopy, mgStrN]

theorem configure_append (calls : List TlsCall) (call : TlsCall) :
    configure copy (calls ++ [call]) = (configure copy calls).useTls copy call := by
  simp [configure]

theorem calls_configure (calls : List TlsCall) : (configure copy calls).calls = calls.length := by
  induction calls using List.reverseRecOn with
  | nil => rfl
  | append_singleton calls call ih =>
      rw [configure_append, List.length_append, ← ih]
      cases call <;> rfl

/-- The flag says that some call made copies. -/
theorem mTlsAlloc_configure (calls : List TlsCall) :
    (configure copy calls).mTlsAlloc = calls.any TlsCall.isString := by
  induction calls using List.reverseRecOn with
  | nil => rfl
  | append_singleton calls call ih =>
      rw [configure_append, List.any_append, ← ih]
      cases call <;> simp [useTls, TlsCall.isString]

theorem field_configure_append (hcopy : Copies copy) (calls : List TlsCall) (call : TlsCall)
    (f : TlsField) : (configure copy (calls ++ [call])).field f =
      if call.writes f then written calls.length call f else (configure copy calls).field f := by
  rw [configure_append, field_useTls hcopy, calls_configure]

theorem lastWriter_append (calls : List TlsCall) (call : TlsCall) (f : TlsField) :
    lastWriter f (calls ++ [call]) = if call.writes f then some call else lastWriter f calls := by
  rw [lastWriter, List.filter_append]
  cases hwrites : call.writes f <;> simp [hwrites, lastWriter]

/-- A member stands for the bytes that its last writer was given. -/
theorem data_configure (hcopy : Copies copy) (calls : List TlsCall) (f : TlsField) :
    ((configure copy calls).field f).data =
      ((lastWriter f calls).map fun call => call.data f).getD [] := by
  induction calls using List.reverseRecOn with
  | nil => cases f <;> rfl
  | append_singleton calls call ih =>
      rw [field_configure_append hcopy, lastWriter_append]
      split
      · rfl
      · exact ih

theorem written_eq_duplicate_iff {n i : ℕ} {call : TlsCall} {f g : TlsField} :
    (written n call f).buf = some (.duplicate i g) ↔
      call.duplicates f = true ∧ i = n ∧ g = f := by
  rw [written]
  split
  · rename_i h
    simp only [h, Option.some.injEq, Buffer.duplicate.injEq, true_and]
    exact and_congr eq_comm eq_comm
  · rename_i h
    simp [h]

/-- A member points to a duplicate exactly when the call that made it is its last
writer. -/
theorem buf_eq_duplicate_iff (hcopy : Copies copy) {calls : List TlsCall} {f g : TlsField} {i : ℕ} :
    ((configure copy calls).field f).buf = some (.duplicate i g) ↔
      g = f ∧ ∃ call, calls[i]? = some call ∧ call.duplicates f = true ∧
        ∀ later ∈ calls.drop (i + 1), later.writes f = false := by
  induction calls using List.reverseRecOn with
  | nil => cases f <;> simp [configure, field]
  | append_singleton calls call ih =>
      rw [field_configure_append hcopy]
      rcases Nat.lt_trichotomy i calls.length with hi | rfl | hi
      · -- the call came before
        have hdrop : (calls ++ [call]).drop (i + 1) = calls.drop (i + 1) ++ [call] :=
          List.drop_append_of_le_length hi
        rw [hdrop, List.getElem?_append_left hi, List.forall_mem_append]
        cases hwrites : call.writes f with
        | true => simp [written_eq_duplicate_iff, Nat.ne_of_lt hi, hwrites]
        | false => simp [ih, hwrites]
      · -- it is this call
        cases hwrites : call.writes f with
        | true => simp [written_eq_duplicate_iff, and_comm]
        | false =>
            have hdup : call.duplicates f = false := Bool.of_not_eq_true fun h => by
              rw [TlsCall.writes_of_duplicates h] at hwrites
              exact absurd hwrites (by simp)
            simp [ih, hdup]
      · -- there has been no such call
        have hnone : (calls ++ [call])[i]? = none := by
          rw [List.getElem?_eq_none_iff, List.length_append]
          exact hi
        have hold : calls[i]? = none := List.getElem?_eq_none (Nat.le_of_lt hi)
        cases hwrites : call.writes f with
        | true => simp [written_eq_duplicate_iff, hnone, Nat.ne_of_gt hi]
        | false => simp [ih, hnone, hold]

/-- A null string is no duplicate. -/
theorem data_ne_nil_of_duplicate (hcopy : Copies copy) {calls : List TlsCall} {f g : TlsField}
    {i : ℕ} (h : ((configure copy calls).field f).buf = some (.duplicate i g)) :
    ((configure copy calls).field f).data ≠ [] := by
  induction calls using List.reverseRecOn with
  | nil => cases f <;> simp [configure, field] at h
  | append_singleton calls call ih =>
      rw [field_configure_append hcopy] at h ⊢
      split at h
      · rename_i hwrites
        have hdup := (written_eq_duplicate_iff.mp h).1
        rw [TlsCall.duplicates, Bool.and_eq_true] at hdup
        rw [if_pos hwrites]
        simpa [written] using hdup.2
      · rename_i hwrites
        rw [if_neg hwrites]
        exact ih h

/-- A member is borrowed exactly when its last writer lent it. -/
theorem exists_borrowed_iff (hcopy : Copies copy) (calls : List TlsCall) (f : TlsField) :
    (∃ a, ((configure copy calls).field f).buf = some (.borrowed a)) ↔
      ∃ call ∈ lastWriter f calls, (call.lent f).isSome = true := by
  induction calls using List.reverseRecOn with
  | nil => cases f <;> simp [configure, field, lastWriter]
  | append_singleton calls call ih =>
      rw [field_configure_append hcopy, lastWriter_append]
      split
      · rw [written]
        split
        · rename_i h
          have hlent := TlsCall.lent_of_isString (TlsCall.isString_of_duplicates h) f
          simp [hlent]
        · cases hlent : call.lent f <;> simp [hlent]
      · exact ih

/-! ### Freeing -/

/-- Every buffer that a call made is freed once, and no memory of a caller is. -/
def Exact (calls : List TlsCall) (freed : List Buffer) : Prop :=
  (∀ i call f, calls[i]? = some call → call.duplicates f = true →
    freed.count (.duplicate i f) = 1) ∧ ∀ a, .borrowed a ∉ freed

theorem count_mgFree (str : TlsStr) (b : Buffer) :
    (mgFree str).count b = if str.buf = some b then 1 else 0 := by
  rw [mgFree]
  cases str.buf with
  | none => rfl
  | some b' => simp [List.count_singleton]

theorem isMtls_iff (tls : Tls) : tls.isMtls = true ↔ (tls.field .ca).data ≠ [] := by
  simp [isMtls, field, List.length_pos_iff]

theorem destroy_eq (tls : Tls) : tls.destroy =
    if tls.mTlsAlloc then (if tls.isMtls then mgFree (tls.field .ca) else []) ++
      mgFree (tls.field .cert) ++ mgFree (tls.field .key) else [] := rfl

/-- The destructor frees a duplicate exactly when a member still points to it. -/
theorem count_destroy (hcopy : Copies copy) (calls : List TlsCall) (i : ℕ) (f : TlsField) :
    (configure copy calls).destroy.count (.duplicate i f) =
      if ((configure copy calls).field f).buf = some (.duplicate i f) then 1 else 0 := by
  have hcount (g : TlsField) :
      (mgFree ((configure copy calls).field g)).count (.duplicate i f) =
        if g = f ∧ ((configure copy calls).field f).buf = some (.duplicate i f) then 1 else 0 := by
    rw [count_mgFree]
    refine if_congr ⟨fun h => ?_, fun h => h.1 ▸ h.2⟩ rfl rfl
    obtain rfl := ((buf_eq_duplicate_iff hcopy).mp h).1
    exact ⟨rfl, h⟩
  by_cases hheld : ((configure copy calls).field f).buf = some (.duplicate i f)
  · obtain ⟨-, call, hcall, hdup, -⟩ := (buf_eq_duplicate_iff hcopy).mp hheld
    have halloc : (configure copy calls).mTlsAlloc = true := by
      rw [mTlsAlloc_configure, List.any_eq_true]
      exact ⟨call, List.mem_of_getElem? hcall, TlsCall.isString_of_duplicates hdup⟩
    have hmtls : f = .ca → (configure copy calls).isMtls = true := by
      rintro rfl
      exact (isMtls_iff _).mpr (data_ne_nil_of_duplicate hcopy hheld)
    rw [destroy_eq, if_pos halloc, if_pos hheld, List.count_append, List.count_append, hcount,
      hcount]
    cases f with
    | ca => rw [if_pos (hmtls rfl), hcount]; simp [hheld]
    | cert => split <;> simp [hcount, hheld]
    | key => split <;> simp [hcount, hheld]
  · have hnone (g : TlsField) :
        (mgFree ((configure copy calls).field g)).count (.duplicate i f) = 0 := by
      rw [hcount, if_neg fun h => hheld h.2]
    rw [if_neg hheld, destroy_eq]
    split
    · split <;> simp only [List.count_append, hnone, List.count_nil]
    · rfl

theorem pairwise_iff_drop {α : Type*} {R : α → α → Prop} {l : List α} :
    l.Pairwise R ↔ ∀ i a, l[i]? = some a → ∀ b ∈ l.drop (i + 1), R a b := by
  induction l with
  | nil => simp
  | cons x l ih =>
      rw [List.pairwise_cons, ih]
      constructor
      · rintro ⟨hx, hl⟩ i a ha
        cases i with
        | zero => simpa using Option.some.inj ha ▸ hx
        | succ i => exact hl i a ha
      · intro h
        exact ⟨h 0 x rfl, fun i a ha => h (i + 1) a ha⟩

/-- The destructor frees memory of a caller exactly when the flag is set and the
last writer of a member that is freed lent it. -/
theorem exists_borrowed_mem_destroy_iff (hcopy : Copies copy) (calls : List TlsCall) :
    (∃ a, .borrowed a ∈ (configure copy calls).destroy) ↔
      (∃ call ∈ calls, call.isString = true) ∧
        ∃ f, ∃ call ∈ lastWriter f calls, call.lends f = true := by
  have hmem (a : ℕ) (f : TlsField) : .borrowed a ∈ mgFree ((configure copy calls).field f) ↔
      ((configure copy calls).field f).buf = some (.borrowed a) := by
    rw [mgFree, Option.mem_toList]
  have hlends (f : TlsField) : (∃ call ∈ lastWriter f calls, call.lends f = true) ↔
      (∃ a, ((configure copy calls).field f).buf = some (.borrowed a)) ∧
        (f = .ca → (configure copy calls).isMtls = true) := by
    rw [exists_borrowed_iff hcopy, isMtls_iff, data_configure hcopy]
    cases hlast : lastWriter f calls with
    | none => simp
    | some call =>
        simp only [Option.mem_def, Option.some.injEq, exists_eq_left', TlsCall.lends,
          Bool.and_eq_true, Bool.or_eq_true, bne_iff_ne]
        refine and_congr_right fun _ => ?_
        cases f with
        | ca => simp [hlast]
        | cert => simp
        | key => simp
  have halloc : (configure copy calls).mTlsAlloc = true ↔ ∃ call ∈ calls, call.isString = true := by
    rw [mTlsAlloc_configure, List.any_eq_true]
  simp only [hlends]
  rw [← halloc, destroy_eq]
  by_cases hset : (configure copy calls).mTlsAlloc = true
  · rw [if_pos hset, and_iff_right hset]
    constructor
    · rintro ⟨a, ha⟩
      rcases List.mem_append.mp ha with ha | ha
      · rcases List.mem_append.mp ha with ha | ha
        · split at ha
          · rename_i hmtls
            exact ⟨.ca, ⟨a, (hmem a .ca).mp ha⟩, fun _ => hmtls⟩
          · simp at ha
        · exact ⟨.cert, ⟨a, (hmem a .cert).mp ha⟩, by simp⟩
      · exact ⟨.key, ⟨a, (hmem a .key).mp ha⟩, by simp⟩
    · rintro ⟨f, ⟨a, ha⟩, hmtls⟩
      refine ⟨a, ?_⟩
      rw [List.mem_append, List.mem_append]
      cases f with
      | ca =>
          rw [if_pos (hmtls rfl)]
          exact Or.inl (Or.inl ((hmem a .ca).mpr ha))
      | cert => exact Or.inl (Or.inr ((hmem a .cert).mpr ha))
      | key => exact Or.inr ((hmem a .key).mpr ha)
  · rw [if_neg hset]
    simp [hset]

/-- Ownership is exact if and only if no call writes over a duplicate, and no
member that is freed is lent once a call has set the flag. -/
theorem exact_destroy_iff (hcopy : Copies copy) (calls : List TlsCall) :
    Exact calls (configure copy calls).destroy ↔
      (calls.Pairwise fun call later => ∀ f, call.duplicates f = true → later.writes f = false) ∧
        ((∃ call ∈ calls, call.isString = true) →
          ∀ f, ∀ call ∈ lastWriter f calls, call.lends f = false) := by
  refine and_congr ?_ ?_
  · rw [pairwise_iff_drop]
    constructor
    · intro h i call hcall later hlater f hdup
      have hcount := h i call f hcall hdup
      rw [count_destroy hcopy] at hcount
      have hheld : ((configure copy calls).field f).buf = some (.duplicate i f) := by
        by_contra hne
        rw [if_neg hne] at hcount
        exact absurd hcount (by simp)
      obtain ⟨-, _, -, -, hlast⟩ := (buf_eq_duplicate_iff hcopy).mp hheld
      exact hlast later hlater
    · intro h i call f hcall hdup
      rw [count_destroy hcopy, if_pos]
      exact (buf_eq_duplicate_iff hcopy).mpr
        ⟨rfl, call, hcall, hdup, fun later hlater => h i call hcall later hlater f hdup⟩
  · have hnone := not_congr (exists_borrowed_mem_destroy_iff hcopy calls)
    rw [not_exists] at hnone
    rw [hnone, not_and]
    simp

def strdup (data : Bytes) : Option Bytes := if data.isEmpty then none else some data

/-- One call with three strings, and then the destructor. -/
theorem exact_destroy_iff_once :
    Exact [.stringCa [1] [2] [3]] (configure strdup [.stringCa [1] [2] [3]]).destroy :=
  (exact_destroy_iff (fun _ => rfl) _).mpr
    ⟨List.pairwise_singleton .., by
      intro _ f call hcall
      cases f <;> obtain rfl := Option.some.inj hcall <;> rfl⟩

def viewAt (data : Bytes) : StringView := ⟨some 7, data, by simp⟩

/-- New strings leave the old copies behind, and views after strings are freed. -/
theorem buffers_lost_and_borrowed_freed :
    ¬ Exact [.string [1] [2], .string [3] [4]]
        (configure strdup [.string [1] [2], .string [3] [4]]).destroy ∧
      (configure strdup [.string [1] [2], .string [3] [4]]).destroy.count (.duplicate 0 .cert) = 0 ∧
      .borrowed 7 ∈
        (configure strdup [.string [1] [2], .view (viewAt [5]) (viewAt [6])]).destroy := by
  refine ⟨fun h => ?_, by decide, by decide⟩
  have hcount := h.1 0 (.string [1] [2]) .cert rfl rfl
  exact absurd hcount (by decide)

/-! ### The options of a connection -/

/-- The CA, certificate and key of the last call, as long as there is something to use. -/
def lastOptions (calls : List TlsCall) : Option (Bytes × Bytes × Bytes) :=
  calls.getLast?.bind fun call =>
    if (call.data .cert).isEmpty || (call.data .key).isEmpty then none
    else some (call.data .ca, call.data .cert, call.data .key)

/-- A connection is given the options of the last call, and mutual TLS is on if
and only if these have a CA. -/
def LastDecides (calls : List TlsCall) (tls : Tls) : Prop :=
  (tls.handleSecure true).map (fun opts => (opts.ca.data, opts.cert.data, opts.key.data)) =
      lastOptions calls ∧
    (tls.isMtls = true ↔ ∃ call ∈ calls.getLast?, call.data .ca ≠ [])

theorem handleSecure_eq (tls : Tls) :
    (tls.handleSecure true).map (fun opts => (opts.ca.data, opts.cert.data, opts.key.data)) =
      if (tls.field .cert).data.isEmpty || (tls.field .key).data.isEmpty then none
      else some ((tls.field .ca).data, (tls.field .cert).data, (tls.field .key).data) := by
  have hca : (if tls.isMtls then tls.mTlsCa else {}).data = tls.mTlsCa.data := by
    split
    · rfl
    · rename_i h
      simpa [isMtls, eq_comm] using h
  have hempty (data : Bytes) : (data.length == 0) = data.isEmpty := by cases data <;> rfl
  change _ = if tls.mTlsCert.data.isEmpty || tls.mTlsKey.data.isEmpty then none
    else some (tls.mTlsCa.data, tls.mTlsCert.data, tls.mTlsKey.data)
  simp only [handleSecure, hempty, Bool.not_true, Bool.false_or]
  by_cases hnone : (tls.mTlsCert.data.isEmpty || tls.mTlsKey.data.isEmpty) = true
  · rw [if_pos hnone, if_pos hnone]
    rfl
  · rw [if_neg hnone, if_neg hnone, Option.map_some, hca]

/-- What a call leaves alone is the CA, and that only with two arguments. -/
theorem field_ca_append (hcopy : Copies copy) (calls : List TlsCall) (call : TlsCall) :
    ((configure copy (calls ++ [call])).field .ca).data =
      if call.threeArgs then call.data .ca else ((configure copy calls).field .ca).data := by
  rw [field_configure_append hcopy]
  change (if call.threeArgs then _ else _ : TlsStr).data = _
  split <;> rfl

/-- The last call decides if and only if it has three arguments, or the last call
that had three left no CA. -/
theorem last_decides_iff (hcopy : Copies copy) (calls : List TlsCall) :
    LastDecides calls (configure copy calls) ↔
      (∀ call ∈ calls.getLast?, call.threeArgs = true) ∨
        ∀ call ∈ lastWriter .ca calls, call.data .ca = [] := by
  rcases calls.eq_nil_or_concat' with rfl | ⟨calls, call, rfl⟩
  · simp [LastDecides, configure, handleSecure, lastOptions, isMtls]
  · have hlast : (calls ++ [call]).getLast? = some call := by simp
    have hcert : ((configure copy (calls ++ [call])).field .cert).data = call.data .cert := by
      rw [field_configure_append hcopy]
      rfl
    have hkey : ((configure copy (calls ++ [call])).field .key).data = call.data .key := by
      rw [field_configure_append hcopy]
      rfl
    rw [LastDecides, handleSecure_eq, isMtls_iff, hcert, hkey, field_ca_append hcopy,
      lastOptions, hlast, lastWriter_append]
    simp only [Option.bind_some, Option.mem_def, Option.some.injEq, exists_eq_left', forall_eq']
    change _ ↔ _ ∨ ∀ call' ∈ (if call.threeArgs then some call else lastWriter .ca calls), _
    cases hthree : call.threeArgs with
    | true => simp
    | false =>
        -- the CA is left to an earlier call, and the last call has none
        have hnone : call.data .ca = [] := by
          cases call <;> first | rfl | exact absurd hthree (by simp [TlsCall.threeArgs])
        have hold : ((configure copy calls).field .ca).data = [] ↔
            ∀ call' ∈ lastWriter .ca calls, call'.data .ca = [] := by
          rw [data_configure hcopy]
          cases lastWriter .ca calls <;> simp
        simp only [hnone, Bool.false_eq_true, if_false, ne_eq, not_true_eq_false, iff_false,
          not_not, false_or, hold]
        refine and_iff_right_of_imp fun h => ?_
        rw [hold.mpr h]

theorem last_decides_iff_three :
    LastDecides [.string [1] [2], .stringCa [3] [4] [5]]
      (configure strdup [.string [1] [2], .stringCa [3] [4] [5]]) :=
  (last_decides_iff (fun _ => rfl) _).mpr <| Or.inl fun call hcall => by
    obtain rfl := Option.some.inj hcall
    rfl

/-- Plain TLS after mutual TLS keeps the CA of before. -/
theorem old_ca_stays :
    (configure strdup [.stringCa [1] [2] [3], .string [4] [5]]).isMtls = true ∧
      ((configure strdup [.stringCa [1] [2] [3], .string [4] [5]]).handleSecure true).map
        (fun opts => (opts.ca.data, opts.cert.data, opts.key.data)) = some ([1], [4], [5]) ∧
      ¬ LastDecides [.stringCa [1] [2] [3], .string [4] [5]]
        (configure strdup [.stringCa [1] [2] [3], .string [4] [5]]) := by
  refine ⟨rfl, rfl, fun h => ?_⟩
  obtain ⟨call, hcall, hca⟩ := h.2.mp rfl
  obtain rfl := Option.some.inj hcall
  exact hca rfl

end Tls

end Mgxx.Http
