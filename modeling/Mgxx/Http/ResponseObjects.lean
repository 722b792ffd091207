import Mgxx.Http.Response
import Mgxx.Library.Runs

/-!
The response objects of a synchronous handler.  A `response` can be moved: the
defaulted move operations copy the raw pointer and take the header map, so that
the object moved from keeps its pointer.
-/

namespace Mgxx.Http

open Mgxx.Library

def ResponseCall.isAnswer : ResponseCall → Bool
  | send .. | stream .. => true
  | setHeader .. | removeHeader .. | clearHeaders => false

/-- A statement of a handler about its response objects, which are numbered in
the order in which they come into being.  What a move leaves in the header map
of its source is not specified; it is `left` here. -/
inductive ResponseOp
  | call (i : ℕ) (call : ResponseCall)
  | moveConstruct (src : ℕ) (left : Headers)
  | moveAssign (dst src : ℕ) (left : Headers)

def ResponseOp.isAnswer : ResponseOp → Bool
  | call _ made => made.isAnswer
  | moveConstruct .. | moveAssign .. => false

structure ResponseObjects where
  connections : ℕ → Connection
  objects : List Response

namespace ResponseObjects

def movedFrom (res : Response) (left : Headers) : Response := { res with mHeaders := left }

def step (mg : Mongoose) (st : ResponseObjects) : ResponseOp → Option ResponseObjects
  | .call i call => st.objects[i]?.map fun res =>
      { connections := (res.call mg st.connections call).1
        objects := st.objects.set i (res.call mg st.connections call).2 }
  | .moveConstruct src left => st.objects[src]?.map fun res =>
      { st with objects := st.objects.set src (movedFrom res left) ++ [res] }
  | .moveAssign dst src left =>
      if dst < st.objects.length then
        st.objects[src]?.map fun res =>
          { st with objects := (st.objects.set dst res).set src (movedFrom res left) }
      else none

end ResponseObjects

/-! ### Which objects have answered -/

/-- The objects that have answered, or were moved from an object that had. -/
def ResponseOp.mark (spent : List Bool) : ResponseOp → List Bool
  | call i made => if made.isAnswer then spent.set i true else spent
  | moveConstruct src _ => spent ++ [spent.getD src false]
  | moveAssign dst src _ => spent.set dst (spent.getD src false)

namespace ResponseObjects

variable {mg : Mongoose} {st st' : ResponseObjects} {conns : ℕ → Connection} {c i : ℕ}
  {spent : List Bool} {res : Response}

/-- An object holds the pointer until it is spent. -/
def Tracks (c : ℕ) (spent : List Bool) (objects : List Response) : Prop :=
  objects.map Response.mConn = spent.map fun b => if b then none else some c

theorem Tracks.getElem? (h : Tracks c spent st.objects) (hi : st.objects[i]? = some res) :
    ∃ b, spent[i]? = some b ∧ res.mConn = if b then none else some c := by
  have hmap : (st.objects.map Response.mConn)[i]? = some res.mConn := by simp [hi]
  rw [h, List.getElem?_map] at hmap
  obtain ⟨b, hb, hconn⟩ := Option.map_eq_some_iff.mp hmap
  exact ⟨b, hb, hconn.symm⟩

theorem mConn_call (res : Response) (conns : ℕ → Connection) (call : ResponseCall) :
    (res.call mg conns call).2.mConn = if call.isAnswer then none else res.mConn := by
  cases call with
  | send code body => cases hres : res.mConn <;> simp [Response.call, Response.send, hres,
      ResponseCall.isAnswer]
  | stream code encoding results => cases hres : res.mConn <;> simp [Response.call,
      Response.stream, hres, ResponseCall.isAnswer]
  | setHeader name value => rfl
  | removeHeader name => rfl
  | clearHeaders => rfl

/-- Storing what is there already changes nothing. -/
theorem set_of_getElem? {α : Type*} {l : List α} {a : α} (h : l[i]? = some a) : l.set i a = l := by
  obtain ⟨hlt, rfl⟩ := List.getElem?_eq_some_iff.mp h
  exact List.set_getElem_self hlt

theorem Tracks.next (h : Tracks c spent st.objects) {op : ResponseOp}
    (hstep : st.step mg op = some st') : Tracks c (op.mark spent) st'.objects := by
  unfold Tracks at h ⊢
  cases op with
  | call i call =>
      obtain ⟨res, hi, rfl⟩ := Option.map_eq_some_iff.mp hstep
      simp only [List.map_set, mConn_call, ResponseOp.mark]
      cases hanswer : call.isAnswer with
      | true => simp [h, List.map_set]
      | false =>
          rw [if_neg Bool.false_ne_true, if_neg Bool.false_ne_true, ← h]
          exact set_of_getElem? (by simp [hi])
  | moveConstruct src left =>
      obtain ⟨res, hi, rfl⟩ := Option.map_eq_some_iff.mp hstep
      obtain ⟨b, hb, hconn⟩ := Tracks.getElem? h hi
      have hleft : (st.objects.map Response.mConn).set src (movedFrom res left).mConn =
          st.objects.map Response.mConn := set_of_getElem? (by simp [hi, movedFrom])
      rw [List.map_append, List.map_set, hleft, h, ResponseOp.mark, List.map_append,
        List.getD_eq_getElem?_getD, hb]
      simp [hconn]
  | moveAssign dst src left =>
      simp only [step, Option.ite_none_right_eq_some] at hstep
      obtain ⟨-, res, hi, rfl⟩ := And.imp_right Option.map_eq_some_iff.mp hstep
      obtain ⟨b, hb, hconn⟩ := Tracks.getElem? h hi
      have hassigned : ((st.objects.map Response.mConn).set dst res.mConn)[src]? =
          some (movedFrom res left).mConn := by
        rw [List.getElem?_set]
        split_ifs with heq hlt
        · rfl
        · exact absurd (heq ▸ (List.getElem?_eq_some_iff.mp hi).1) (by simpa using hlt)
        · simp [hi, movedFrom]
      rw [List.map_set, List.map_set, set_of_getElem? hassigned, h, ResponseOp.mark, List.map_set,
        List.getD_eq_getElem?_getD, hb, hconn, Option.getD_some]

end ResponseObjects

end Mgxx.Http
