import Mgxx.Concurrency.Use
import Mgxx.Properties.Agreement

/-!
What a wake-up writes, in the send buffer as in the log.
-/

namespace Mgxx.Http

open Mgxx.Library

/-- What was written in between is at the end of the log and of the send buffer. -/
structure Connection.Appends (mg : Mongoose) (conn conn' : Connection) (out : List Output) :
    Prop where
  log : conn'.log = conn.log ++ out
  send : conn'.send = conn.send ++ outputBytes mg out
  sent : conn'.sent = conn.sent

namespace Connection.Appends

variable {mg : Mongoose} {conn conn' conn'' : Connection} {out out' : List Output}

theorem of_eq (h : conn' = conn) : conn.Appends mg conn' [] := by
  subst h
  exact ⟨(List.append_nil _).symm, (List.append_nil _).symm, rfl⟩

theorem trans (h : conn.Appends mg conn' out) (h' : conn'.Appends mg conn'' out') :
    conn.Appends mg conn'' (out ++ out') := by
  constructor
  · rw [h'.log, h.log, List.append_assoc]
  · rw [h'.send, h.send, outputBytes, outputBytes, outputBytes, List.flatMap_append,
      List.append_assoc]
  · rw [h'.sent, h.sent]

theorem write (mg : Mongoose) (conn : Connection) (source : Source) (o : Write) :
    conn.Appends mg (conn.write mg source o) [⟨source, o⟩] :=
  ⟨rfl, by simp [Connection.write, outputBytes], rfl⟩

theorem busy (h : conn.Appends mg conn' out) (hbusy : conn.Busy) : conn'.Busy := by
  rcases hbusy with hsend | hsent
  · exact Or.inl (h.send ▸ List.append_ne_nil_of_left_ne_nil hsend _)
  · exact Or.inr (h.sent.trans hsent)

theorem busy_of_ne (h : conn.Appends mg conn' out) (hout : outputBytes mg out ≠ []) : conn'.Busy :=
  Or.inl (h.send ▸ List.append_ne_nil_of_right_ne_nil _ hout)

end Connection.Appends

namespace World

variable {mg : Mongoose} {w : World} {c id : ℕ}

theorem appends_write (source : Source) (o : Write) :
    (w.connections c).Appends mg ((w.write mg c source o).connections c) [⟨source, o⟩] := by
  simp only [World.write, modifyAt_self]
  exact .write ..

theorem appends_serveStream (s : StreamRef) :
    (w.connections c).Appends mg ((w.serveStream mg c id (some s)).connections c)
      ((w.streams s).serveOutput.map (Output.mk (.stream s))) := by
  cases h : (w.streams s).mState with
  | start | hasData | close =>
      simp only [serveStream, h, updateStream, AsyncStream.serveOutput, List.map_cons, List.map_nil]
      exact appends_write ..
  | flush | empty | completed | failed =>
      simp only [serveStream, h, AsyncStream.serveOutput, List.map_nil]
      exact .of_eq rfl

end World

namespace Config

variable {mg : Mongoose} {cfg cfg' : Config} {c id r : ℕ} {out : List Output}

/-- A wake-up writes on its connection, and for its request. -/
theorem exists_appends_wakeup (mg : Mongoose) (howned : Owned cfg) (c id : ℕ) :
    ∃ out, (cfg.world.connections c).Appends mg
        ((cfg.world.handle mg (.wakeup c id)).connections c) out ∧
      ∀ o ∈ out, o.source.request = some id := by
  have hserve {w : World} {s : StreamRef} (hw : w.connections c = cfg.world.connections c)
      (hs : s.response = id) : ∃ out, (cfg.world.connections c).Appends mg
        ((w.serveStream mg c id (some s)).connections c) out ∧
          ∀ o ∈ out, o.source.request = some id := by
    refine ⟨_, hw ▸ World.appends_serveStream s, fun o ho => ?_⟩
    obtain ⟨_, -, rfl⟩ := List.mem_map.mp ho
    exact congrArg some hs
  show ∃ out, (cfg.world.connections c).Appends mg
    (((cfg.world.take c id).handleWakeup mg c id).connections c) out ∧ _
  apply World.handleWakeup_elim (P := fun w' => ∃ out,
    (cfg.world.connections c).Appends mg (w'.connections c) out ∧
      ∀ o ∈ out, o.source.request = some id)
  · intro stream hfind
    obtain ⟨⟨n, -, rfl⟩, -⟩ := howned.streamEntry c id stream hfind
    exact hserve rfl rfl
  · intro r' _ hfind hstate
    obtain ⟨rfl, hlt, -⟩ := howned.responseEntry c id r' hfind
    cases hheld : ((cfg.world.take c r').responses r').mStream with
    | none => exact ⟨[], .of_eq rfl, by simp⟩
    | some s => exact hserve rfl (howned.held r' s hlt hheld).1
  · intro r' _ hfind _
    obtain ⟨rfl, -⟩ := howned.responseEntry c id r' hfind
    exact ⟨_, World.appends_write .., by simp [Source.request]⟩
  · intro _ _
    exact ⟨_, (World.appends_write ..).trans (World.appends_write ..), by simp [Source.request]⟩

/-- What is written for the request is what its connection gets. -/
theorem outputs_of_appends (hconn : cfg'.conn r = cfg.conn r)
    (h : (cfg.world.connections (cfg.conn r)).Appends mg
      (cfg'.world.connections (cfg.conn r)) out) :
    (cfg'.view r).outputs = (cfg.view r).outputs ++
      out.filter fun o => o.source.request = some r := by
  simp only [view, hconn, h.log, List.filter_append]

end Config

end Mgxx.Http
