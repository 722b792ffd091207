import Mgxx.Concurrency.Ownership

/-!
The workers' side of the ownership discipline.  An access touches the objects
of one request only, and all but one kind of access leave every pointer where
it is; the exception is the access of `stream` that makes a stream object.
-/

namespace Mgxx.Http

open Mgxx.Library

namespace Owned

variable {cfg : Config} {mg : Mongoose}

/-- An access that neither makes a stream nor moves one. -/
structure Mild (cfg : Config) (r : ℕ) (access : Access) : Prop where
  made : access.shared.made = cfg.world.made r
  mConn : access.shared.response.mConn = (cfg.world.responses r).mConn
  mId : access.shared.response.mId = (cfg.world.responses r).mId
  mStream : access.shared.response.mStream = (cfg.world.responses r).mStream
  mState : access.shared.response.mState = .streaming →
    (cfg.world.responses r).mState = .streaming ∨
      ∀ c, cfg.world.mPendingResponses.find c r ≠ none → (cfg.world.responses r).mStream ≠ none
  stream : ∀ n, (access.shared.stream n).mConn = (cfg.world.streams ⟨r, n⟩).mConn ∧
    (access.shared.stream n).mId = (cfg.world.streams ⟨r, n⟩).mId ∧
    ((access.shared.stream n).mState = .completed →
      (cfg.world.streams ⟨r, n⟩).mState = .completed)
  returned : ∀ s, some s ∈ access.shared.history.returned →
    some s ∈ (cfg.history r).returned ∨ (cfg.world.responses r).mStream = some s
  request : ∀ r', access.pc.request = some r' → r' = r
  pcStream : ∀ s, access.pc.stream = some s → s.response = r ∧ s.number < cfg.world.made r
  opened : ∀ r', access.pc.Opened r' →
    ∀ c, cfg.world.mPendingResponses.find c r ≠ none → (cfg.world.responses r).mStream ≠ none
  posted : ∀ x ∈ access.posted, x = ((cfg.world.responses r).mConn, r)

theorem commit (h : Owned cfg) {t r : ℕ} {access : Access} (hr : r < cfg.world.mRequestCounter)
    (ha : Mild cfg r access) : Owned (cfg.commit t r access) := by
  have hmade (r' : ℕ) : (cfg.commit t r access).world.made r' = cfg.world.made r' := by
    rw [Config.made_commit]
    split_ifs with heq
    · rw [ha.made, heq]
    · rfl
  have hmConn := Config.field_responses_commit (t := t) AsyncResponse.mConn ha.mConn
  have hmId := Config.field_responses_commit (t := t) AsyncResponse.mId ha.mId
  have hmStream := Config.field_responses_commit (t := t) AsyncResponse.mStream ha.mStream
  have hstream (s : StreamRef) :
      ((cfg.commit t r access).world.streams s).mConn = (cfg.world.streams s).mConn ∧
      ((cfg.commit t r access).world.streams s).mId = (cfg.world.streams s).mId ∧
      (((cfg.commit t r access).world.streams s).mState = .completed →
        (cfg.world.streams s).mState = .completed) := by
    rw [Config.streams_commit]
    split_ifs with heq
    · subst heq
      exact ha.stream s.number
    · exact ⟨rfl, rfl, fun hs => hs⟩
  constructor <;> simp only [Config.toEndpoint_commit, Config.connections_commit,
    Config.wakeups_commit, hmade, hmConn, hmId, hmStream]
  case responseEntry => exact h.responseEntry
  case streamEntry => exact h.streamEntry
  case tabled =>
    intro c id s hs
    exact ⟨fun hc => (h.tabled c id s hs).1 ((hstream s).2.2 hc), (h.tabled c id s hs).2⟩
  case held =>
    intro r' s hr' hs
    obtain ⟨hresp, hnum, hstate⟩ := h.held r' s hr' hs
    exact ⟨hresp, hnum, fun hc => hstate ((hstream s).2.2 hc)⟩
  case identity => exact h.identity
  case streamIdentity =>
    intro r' n hn
    rw [(hstream _).1, (hstream _).2.1]
    exact h.streamIdentity r' n hn
  case streaming =>
    intro c r' hentry hst
    rw [Config.responses_commit] at hst
    split_ifs at hst with heq
    · subst heq
      rcases ha.mState hst with hbefore | hheld
      · exact h.streaming c r' hentry hbefore
      · exact hheld c hentry
    · exact h.streaming c r' hentry hst
  case opened =>
    intro t' c r' hpc hentry
    rw [Config.threads_commit] at hpc
    split_ifs at hpc
    · have hreq : access.pc.request = some r' := by
        rcases hpc with hpc | hpc <;> rw [hpc] <;> rfl
      obtain rfl := ha.request r' hreq
      exact ha.opened r' hpc c hentry
    · exact h.opened t' c r' hpc hentry
  case wakeup =>
    intro c id hmem
    rcases List.mem_append.mp hmem with hold | hnew
    · exact h.wakeup c id hold
    · obtain ⟨rfl, rfl⟩ := Prod.mk.inj (ha.posted _ hnew)
      exact ⟨hr, rfl⟩
  case thread =>
    intro t' r' hpc
    rw [Config.threads_commit] at hpc
    split_ifs at hpc
    · exact ha.request r' hpc ▸ hr
    · exact h.thread t' r' hpc
  case threadStream =>
    intro t' s hpc
    rw [Config.threads_commit] at hpc
    split_ifs at hpc
    · obtain ⟨rfl, hn⟩ := ha.pcStream s hpc
      exact hn
    · exact h.threadStream t' s hpc
  case returned =>
    intro r' s hs
    rw [Config.history_commit] at hs
    split_ifs at hs with heq
    · subst heq
      rcases ha.returned s hs with hold | hheld
      · exact h.returned r' s hold
      · exact ⟨(h.held r' s hr hheld).1, (h.held r' s hr hheld).2.1⟩
    · exact h.returned r' s hs
  case unborn =>
    intro r' hr'
    rw [Config.history_commit, if_neg (Nat.ne_of_gt (Nat.lt_of_lt_of_le hr hr'))]
    exact h.unborn r' hr'
  case output => exact h.output
  case unwritten => exact h.unwritten

/-- The access of `stream` that makes the stream object. -/
theorem openStream (h : Owned cfg) {t r : ℕ} (hr : r < cfg.world.mRequestCounter)
    (code : ℤ) (encoding : Bytes) :
    Owned (cfg.commit t r
      { shared := (cfg.shared r).openStream r code encoding, pc := .streamOpened r }) := by
  let access : Access :=
    { shared := (cfg.shared r).openStream r code encoding, pc := .streamOpened r }
  change Owned (cfg.commit t r access)
  have hmade (r' : ℕ) : (cfg.commit t r access).world.made r' =
      if r' = r then cfg.world.made r + 1 else cfg.world.made r' := Config.made_commit ..
  have hgrows (r' : ℕ) : cfg.world.made r' ≤ (cfg.commit t r access).world.made r' := by
    rw [hmade]
    split_ifs with heq
    · exact heq ▸ Nat.le_succ _
    · exact le_rfl
  have hmConn (r' : ℕ) : ((cfg.commit t r access).world.responses r').mConn =
      (cfg.world.responses r').mConn := Config.field_responses_commit AsyncResponse.mConn rfl r'
  have hmId (r' : ℕ) : ((cfg.commit t r access).world.responses r').mId =
      (cfg.world.responses r').mId := Config.field_responses_commit AsyncResponse.mId rfl r'
  have hmStream (r' : ℕ) : ((cfg.commit t r access).world.responses r').mStream =
      if r' = r then some ⟨r, cfg.world.made r⟩ else (cfg.world.responses r').mStream := by
    rw [Config.responses_commit]
    split_ifs <;> rfl
  have hmState (r' : ℕ) : ((cfg.commit t r access).world.responses r').mState =
      (cfg.world.responses r').mState := Config.field_responses_commit AsyncResponse.mState rfl r'
  have hstream (s : StreamRef) : (cfg.commit t r access).world.streams s =
      if s = ⟨r, cfg.world.made r⟩ then (cfg.world.responses r).makeStream code encoding
      else cfg.world.streams s := by
    obtain ⟨r', n⟩ := s
    rw [Config.streams_commit]
    by_cases heq : r' = r
    · subst heq
      by_cases hn : n = cfg.world.made r'
      · subst hn
        simp [access, Shared.openStream, Config.shared]
      · simp [access, Shared.openStream, Config.shared, hn]
    · simp [heq]
  -- the number of the new stream is not in use
  have hnew {s : StreamRef} (hs : s.number < cfg.world.made s.response) :
      s ≠ ⟨r, cfg.world.made r⟩ := by
    rintro rfl
    exact Nat.lt_irrefl _ hs
  constructor <;> try simp only [Config.toEndpoint_commit, Config.connections_commit,
    Config.wakeups_commit, hmConn, hmId, hmState]
  case responseEntry => exact h.responseEntry
  case streamEntry =>
    intro c id p hp
    obtain ⟨⟨n, hn, rfl⟩, hrest⟩ := h.streamEntry c id p hp
    exact ⟨⟨n, Nat.lt_of_lt_of_le hn (hgrows id), rfl⟩, hrest⟩
  case tabled =>
    intro c id s hs
    obtain ⟨⟨n, hn, heq⟩, -⟩ := h.streamEntry c id _ hs
    obtain rfl := Option.some.inj heq
    rw [hstream, if_neg (hnew hn), hmStream]
    refine ⟨(h.tabled c id _ hs).1, ?_⟩
    split_ifs
    · exact fun heq => hnew hn (Option.some.inj heq).symm
    · exact (h.tabled c id _ hs).2
  case held =>
    intro r' s hr' hs
    rw [hmStream] at hs
    split_ifs at hs with heq
    · subst heq
      obtain rfl := Option.some.inj hs
      refine ⟨rfl, ?_, ?_⟩
      · rw [hmade, if_pos rfl]
        exact Nat.lt_succ_self _
      · rw [hstream, if_pos rfl]
        simp
    · obtain ⟨hresp, hnum, hstate⟩ := h.held r' s hr' hs
      refine ⟨hresp, Nat.lt_of_lt_of_le hnum (hgrows r'), ?_⟩
      rwa [hstream, if_neg (hnew (hresp ▸ hnum))]
  case identity => exact h.identity
  case streamIdentity =>
    intro r' n hn
    rw [hstream]
    split_ifs with heq
    · obtain ⟨rfl, -⟩ := StreamRef.mk.inj heq
      exact ⟨rfl, (h.identity r' hr).1⟩
    · rw [hmade] at hn
      refine h.streamIdentity r' n ?_
      split_ifs at hn with heq'
      · subst heq'
        exact Nat.lt_of_le_of_ne (Nat.le_of_lt_succ hn) fun hne => heq (hne ▸ rfl)
      · exact hn
  case streaming =>
    intro c r' hentry hst
    rw [hmStream]
    split_ifs
    · simp
    · exact h.streaming c r' hentry hst
  case opened =>
    intro t' c r' hpc hentry
    rw [hmStream]
    split_ifs with heq
    · simp
    · rw [Config.threads_commit] at hpc
      split_ifs at hpc
      · rcases hpc with hpc | hpc
        · exact absurd (Pc.streamOpened.inj hpc).symm heq
        · exact absurd hpc (by simp [access])
      · exact h.opened t' c r' hpc hentry
  case wakeup => exact fun c id hmem => h.wakeup c id (by simpa [access] using hmem)
  case thread =>
    intro t' r' hpc
    rw [Config.threads_commit] at hpc
    split_ifs at hpc
    · exact Option.some.inj hpc ▸ hr
    · exact h.thread t' r' hpc
  case threadStream =>
    intro t' s hpc
    rw [Config.threads_commit] at hpc
    split_ifs at hpc
    · exact absurd hpc (by simp [access, Pc.stream])
    · exact Nat.lt_of_lt_of_le (h.threadStream t' s hpc) (hgrows _)
  case returned =>
    intro r' s hs
    have hs' : some s ∈ (cfg.history r').returned := by
      rw [Config.history_commit] at hs
      split_ifs at hs with heq
      · exact heq ▸ hs
      · exact hs
    exact ⟨(h.returned r' s hs').1, Nat.lt_of_lt_of_le (h.returned r' s hs').2 (hgrows r')⟩
  case unborn =>
    intro r' hr'
    have hne : r' ≠ r := Nat.ne_of_gt (Nat.lt_of_lt_of_le hr hr')
    rw [hmade, Config.history_commit, if_neg hne, if_neg hne]
    exact h.unborn r' hr'
  case output => exact h.output
  case unwritten => exact h.unwritten

theorem mild_begin (r : ℕ) (call : Call) : Mild cfg r ((cfg.shared r).begin r call) := by
  cases call <;> unfold Shared.begin <;> dsimp only <;> split_ifs <;>
    constructor <;> simp +contextual [Config.shared, Shared.pass, Shared.returns, Pc.request,
      Pc.stream, Pc.Opened]

theorem mild_put {s : StreamRef} (hs : s.number < cfg.world.made s.response) (op : Put) :
    Mild cfg s.response ((cfg.shared s.response).put s op) := by
  have hstream (n : ℕ) : (((cfg.shared s.response).put s op).shared.stream n) =
      if n = s.number then (cfg.world.streams s).putData op
      else cfg.world.streams ⟨s.response, n⟩ := Function.update_apply ..
  constructor <;> try simp only [hstream]
  case stream =>
    intro n
    split_ifs with hn
    · subst hn
      exact ⟨rfl, rfl, fun h => h⟩
    · exact ⟨rfl, rfl, fun h => h⟩
  all_goals simp +contextual [Config.shared, Shared.put, Shared.updateStream, Pc.request,
    Pc.stream, Pc.Opened, hs]

theorem mild_updateStream {access : Access} {s : StreamRef} {state : AsyncStream.State}
    (hstate : state ≠ .completed) (hs : s.number < cfg.world.made s.response)
    (hshared : access.shared =
      (cfg.shared s.response).updateStream s.number fun stream => stream.store state)
    (hpc : access.pc = .idle ∨ access.pc = .putStored s) (hposted : access.posted = []) :
    Mild cfg s.response access := by
  have hstream (n : ℕ) : access.shared.stream n =
      if n = s.number then (cfg.world.streams s).store state
      else cfg.world.streams ⟨s.response, n⟩ := by
    rw [hshared]
    exact Function.update_apply ..
  constructor <;> try simp only [hstream]
  case stream =>
    intro n
    split_ifs with hn
    · subst hn
      exact ⟨rfl, rfl, fun h => absurd h hstate⟩
    · exact ⟨rfl, rfl, fun h => h⟩
  all_goals
    rcases hpc with hpc | hpc <;>
      simp +contextual [hpc, hposted, hshared, Config.shared, Shared.updateStream, Pc.request,
        Pc.stream, Pc.Opened, hs]

/-- Every access but the one that makes a stream is mild. -/
theorem mild_advance (h : Owned cfg) {t r : ℕ} (hr : (cfg.threads t).request = some r)
    (answer : Bool)
    (hopen : ∀ code encoding, cfg.threads t = .streamChecked r code encoding → answer = false) :
    Mild cfg r ((cfg.shared r).advance answer (cfg.threads t)) := by
  have hmId := (h.identity r (h.thread t r hr)).1
  have hopened := fun c => h.opened t c r
  have hstream := h.threadStream t
  cases hpc : cfg.threads t <;> rw [hpc] at hr hopen hopened hstream <;>
    simp only [Pc.request, Option.some.injEq, reduceCtorEq] at hr <;> subst hr <;>
    simp only [Shared.advance]
  case putWritten s op =>
    exact mild_updateStream (by cases op <;> simp [Put.state]) (hstream s rfl) rfl
      (Or.inr rfl) rfl
  case putRefused s =>
    exact mild_updateStream (by simp) (hstream s rfl) rfl (Or.inl rfl) rfl
  case putLocked s =>
    have hid := h.streamIdentity s.response s.number (hstream s rfl)
    have hs : (⟨s.response, s.number⟩ : StreamRef) = s := rfl
    cases answer <;> constructor <;>
      simp +contextual [Config.shared, Pc.request, Pc.stream, Pc.Opened, hid, hs, hstream]
  case streamChecked r code encoding =>
    obtain rfl := hopen code encoding rfl
    constructor <;> simp +contextual [Config.shared, Pc.request, Pc.stream, Pc.Opened]
  case streamDecided r ok =>
    cases ok <;> constructor <;>
      simp +contextual [Config.shared, Shared.updateResponse, Shared.returns, Pc.request,
        Pc.stream, Pc.Opened]
    exact Or.inr fun c => hopened c (Or.inr rfl)
  case streamOpened r =>
    cases answer <;> constructor <;>
      simp +contextual [Config.shared, Shared.post, Pc.request, Pc.stream, Pc.Opened, hmId]
    exact fun c => hopened c (Or.inl rfl)
  case granted s =>
    constructor <;> simp +contextual [Config.shared, Pc.request, Pc.stream, Pc.Opened]
  case sendChecked r code body =>
    cases answer <;> constructor <;>
      simp +contextual [Config.shared, Shared.updateResponse, Pc.request, Pc.stream, Pc.Opened]
  case sendStored r =>
    cases answer <;> constructor <;>
      simp +contextual [Config.shared, Shared.post, Pc.request, Pc.stream, Pc.Opened, hmId]
  case sendDecided r ok =>
    cases ok <;> constructor <;>
      simp +contextual [Config.shared, Shared.updateResponse, Pc.request, Pc.stream, Pc.Opened]
  case streamStored r =>
    constructor <;> simp +contextual [Config.shared, Shared.returns, Pc.request, Pc.stream,
      Pc.Opened]
    exact fun s hs => hs.imp_right Eq.symm
  case putStored s =>
    cases answer <;> constructor <;>
      simp +contextual [Config.shared, Pc.request, Pc.stream, Pc.Opened, hstream]

theorem headers (h : Owned cfg) (r : ℕ) (headers : Headers) :
    Owned { cfg with world := cfg.world.updateResponse r fun response =>
      { response with mHeaders := headers } } := by
  have hfield {β : Type} (field : AsyncResponse → β)
      (hkept : ∀ response : AsyncResponse,
        field { response with mHeaders := headers } = field response) (r' : ℕ) :
      field ((cfg.world.updateResponse r fun response =>
        { response with mHeaders := headers }).responses r') = field (cfg.world.responses r') :=
    field_modifyAt field hkept cfg.world.responses r r'
  apply h.shrink
  constructor
  case responseEntry => exact fun c id r hr => ⟨hr, (h.responseEntry c id r hr).2.2.2⟩
  case streamEntry => exact fun c id p hp => ⟨hp, (h.streamEntry c id p hp).2.2.2.1⟩
  case mConn => exact hfield AsyncResponse.mConn fun _ => rfl
  case mId => exact hfield AsyncResponse.mId fun _ => rfl
  case mStream => exact hfield AsyncResponse.mStream fun _ => rfl
  case mState => exact fun r' hst => (hfield AsyncResponse.mState (fun _ => rfl) r').symm.trans hst
  all_goals simp +contextual [World.updateResponse]

/-- A stream has been returned for a request that exists. -/
theorem lt_of_returned (h : Owned cfg) {s : StreamRef}
    (hs : some s ∈ (cfg.history s.response).returned) : s.response < cfg.world.mRequestCounter := by
  by_contra hge
  have hzero := (h.unborn s.response (Nat.le_of_not_lt hge)).1
  exact Nat.not_lt_zero _ (hzero ▸ (h.returned s.response s hs).2)

theorem granted (h : Owned cfg) {t : ℕ} {s : StreamRef}
    (hs : some s ∈ (cfg.history s.response).returned) :
    Owned { cfg with threads := Function.update cfg.threads t (.granted s) } := by
  refine { h with opened := ?_, thread := ?_, threadStream := ?_ }
  · intro t' c r hpc
    simp only [Function.update_apply] at hpc
    split_ifs at hpc
    · simp [Pc.Opened] at hpc
    · exact h.opened t' c r hpc
  · intro t' r hpc
    simp only [Function.update_apply] at hpc
    split_ifs at hpc
    · obtain rfl := Option.some.inj hpc
      exact h.lt_of_returned hs
    · exact h.thread t' r hpc
  · intro t' s' hpc
    simp only [Function.update_apply] at hpc
    split_ifs at hpc
    · obtain rfl := Option.some.inj hpc
      exact (h.returned s.response s hs).2
    · exact h.threadStream t' s' hpc

/-- Every step of the program keeps to the ownership discipline. -/
theorem step (h : Owned cfg) {e : Event} {cfg' : Config} (hstep : cfg.step mg e = some cfg') :
    Owned cfg' := by
  cases e with
  | loop e =>
      obtain ⟨w, hw, rfl⟩ := Option.map_eq_some_iff.mp hstep
      exact h.loop hw
  | headers r headers =>
      obtain rfl := Config.step_headers hstep
      exact h.headers r headers
  | begin t r call =>
      obtain ⟨-, hr, rfl⟩ := Config.step_begin hstep
      exact h.commit hr (mild_begin r call)
  | wait t s =>
      obtain ⟨-, hs, granted, -, rfl⟩ := Config.step_wait hstep
      cases granted with
      | true => exact h.granted hs
      | false => exact h
  | put t s op =>
      obtain ⟨-, hs, rfl⟩ := Config.step_put hstep
      exact h.commit (h.lt_of_returned hs) (mild_put (h.returned s.response s hs).2 op)
  | advance t answer =>
      rcases Config.step_advance hstep with ⟨-, rfl⟩ | ⟨r, hreq, rfl⟩
      · exact h
      · have hr := h.thread t r hreq
        -- the access that makes a stream object is the only one that is not mild
        by_cases hopen : ∃ code encoding,
            cfg.threads t = .streamChecked r code encoding ∧ answer = true
        · obtain ⟨code, encoding, hpc, rfl⟩ := hopen
          rw [hpc]
          exact h.openStream hr code encoding
        · refine h.commit hr (h.mild_advance hreq answer fun code encoding hpc => ?_)
          cases answer with
          | false => rfl
          | true => exact absurd ⟨code, encoding, hpc, rfl⟩ hopen

/-- Ownership holds in every state the program can reach, however it is used. -/
theorem of_reaches {cfg₀ : Config} {ok : Config → Event → Prop} (hinit : cfg₀.Initial)
    (h : Reaches (Config.step mg) ok cfg₀ cfg) : Owned cfg :=
  h.invariant (initial hinit) fun _ _ _ howned _ hstep => howned.step hstep

end Owned

end Mgxx.Http
