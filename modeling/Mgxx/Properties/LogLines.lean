import Mgxx.Library.Blocks
import Mgxx.Library.Runs
import Mgxx.Server.Logger

/-!
The views that the listener is given cut the log into blocks: lines, and pieces
of lines that are longer than the buffer.
-/

namespace Mgxx

open Library Http

namespace Logger

/-- The listener has the complete blocks, the cells in use hold the rest. -/
structure Represents (n : ℕ) (logger : Logger) (blocks : Blocks UInt8) : Prop where
  buffer : logger.buffer.length = n
  offset : logger.offset = blocks.rest.length
  rest : logger.buffer.take logger.offset = blocks.rest
  listener : logger.listener = some blocks.complete

end Logger

variable {n : ℕ} {server : Server} {blocks : Blocks UInt8} {before : Bytes}

theorem represents_server (mgLog : MgLog) (level : ℤ) (n : ℕ) :
    (Server.server mgLog level n).mLogger.Represents n {} :=
  ⟨length_resize [] n, rfl, rfl, rfl⟩

/-- One character more. -/
theorem eventManagerLogger_represents (h : server.mLogger.Represents n blocks)
    (hlt : blocks.rest.length < n) (ch : UInt8) :
    ∃ after, eventManagerLogger server ch = some after ∧
      after.mLogger.Represents n (blocks.push (fun b => b = newline) n ch) := by
  have hoffset : server.mLogger.offset < server.mLogger.buffer.length := by
    rw [h.offset, h.buffer]
    exact hlt
  have htake : (server.mLogger.buffer.set server.mLogger.offset ch).take
      (server.mLogger.offset + 1) = blocks.rest ++ [ch] := by
    rw [take_set_succ hoffset, h.rest]
  have hlength : (server.mLogger.buffer.set server.mLogger.offset ch).length = n := by
    rw [List.length_set, h.buffer]
  have hflush : (ch = newline ∨ n ≤ server.mLogger.offset + 1) ↔
      (ch = newline ∨ n ≤ blocks.rest.length + 1) := by rw [h.offset]
  simp only [eventManagerLogger, writeAt_of_lt hoffset, Option.bind_eq_bind, Option.bind_some,
    hlength, htake, hflush, invoke, h.listener, Option.map_some, Blocks.push]
  split
  · exact ⟨_, rfl, hlength, rfl, rfl, rfl⟩
  · refine ⟨_, rfl, hlength, ?_, htake, rfl⟩
    simp [h.offset]

/-- The whole log, from a state that stands for what came before. -/
theorem run_represents (h : server.mLogger.Represents n blocks)
    (hcuts : blocks.Cuts (fun b => b = newline) n before) (input : Bytes) :
    ∃ after blocks', run eventManagerLogger server input = some after ∧
      after.mLogger.Represents n blocks' ∧
      blocks'.Cuts (fun b => b = newline) n (before ++ input) := by
  induction input generalizing server blocks before with
  | nil => exact ⟨server, blocks, rfl, h, by simpa using hcuts⟩
  | cons ch input ih =>
      obtain ⟨next, hnext, hrepresents⟩ := eventManagerLogger_represents h hcuts.length_rest ch
      obtain ⟨after, blocks', hrun, hafter, hcuts'⟩ := ih hrepresents (hcuts.push ch)
      refine ⟨after, blocks', ?_, hafter, by simpa using hcuts'⟩
      rw [run_cons, hnext]
      exact hrun

/-- No character is lost, and none is written outside the buffer: the next one goes
to the offset.  A view is a line, or as long as the buffer. -/
theorem log_lines (mgLog : MgLog) (level : ℤ) (n : ℕ) (hn : 1 ≤ n) (input : Bytes) :
    ∃ server views,
      run eventManagerLogger (Server.server mgLog level n) input = some server ∧
      server.mLogger.listener = some views ∧
      server.mLogger.buffer.length = n ∧
      server.mLogger.offset < n ∧
      views.flatten ++ server.mLogger.buffer.take server.mLogger.offset = input ∧
      ∀ view ∈ views, view ≠ [] ∧ view.length ≤ n ∧ newline ∉ view.dropLast ∧
        (view.getLast? = some newline ∨ view.length = n) := by
  obtain ⟨server, blocks, hrun, h, hcuts⟩ :=
    run_represents (represents_server mgLog level n) (Blocks.cuts_nil hn) input
  refine ⟨server, blocks.complete, hrun, h.listener, h.buffer, ?_, ?_, fun view hview => ?_⟩
  · rw [h.offset]
    exact hcuts.length_rest
  · rw [h.rest]
    exact hcuts.join
  · have hblock := hcuts.complete view hview
    refine ⟨hblock.ne_nil, hblock.length_le, fun hmem => hblock.inner newline hmem rfl, ?_⟩
    rcases hblock.ended with ⟨b, hb, rfl⟩ | hfull
    · exact Or.inl hb
    · exact Or.inr hfull

/-- `"a\nbc"` through a buffer of two characters. -/
theorem log_lines_two : 1 ≤ 2 ∧ ∃ server views,
    run eventManagerLogger (Server.server ⟨2, false⟩ 3 2) [97, 10, 98, 99] = some server ∧
    server.mLogger.listener = some views ∧ server.mLogger.buffer.length = 2 ∧
    server.mLogger.offset < 2 ∧
    views.flatten ++ server.mLogger.buffer.take server.mLogger.offset = [97, 10, 98, 99] ∧
    ∀ view ∈ views, view ≠ [] ∧ view.length ≤ 2 ∧ newline ∉ view.dropLast ∧
      (view.getLast? = some newline ∨ view.length = 2) :=
  ⟨by decide, log_lines ⟨2, false⟩ 3 2 (by decide) [97, 10, 98, 99]⟩

example : (run eventManagerLogger (Server.server ⟨2, false⟩ 3 2) (text "a\nbcd")).map
    (fun server => server.mLogger.listener) = some (some [text "a\n", text "bc"]) := by decide

end Mgxx
