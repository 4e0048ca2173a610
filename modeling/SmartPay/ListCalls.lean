import SmartPay.ManagerChecks

/-!
Sequences of calls of the list functions, with the pointers that the calls
return and are given.
-/

namespace SmartPay

open CLib

inductive ListOp
  | createNode (transData : Text)
  | addNodeToList (node : Nat)
  | createRequestQueueItem (jsonReq method : Text) (termId : Int)
  | addRequestToQueue (record : Nat)
  | checkQueueAndGetRequest

namespace ListOp

def AddsNode : ListOp → Prop
  | addNodeToList _ => True
  | _ => False

def AddsRequest : ListOp → Prop
  | addRequestToQueue _ => True
  | _ => False

end ListOp

/-- The globals with the pointers that the calls so far have returned and been given. -/
structure Calls where
  mgr : EquipmentMgr
  created : List Nat
  added : List Nat
  requests : List Nat
  queued : List Nat
  taken : List (Option Nat)

def Calls.start (mgr : EquipmentMgr) : Calls where
  mgr := mgrInit mgr
  created := []
  added := []
  requests := []
  queued := []
  taken := []

def callOp (state : Calls) : ListOp → Except Fault Calls
  | .createNode transData => do
      let (mgr, node) ← createNode state.mgr transData
      .ok { state with mgr, created := state.created ++ [node] }
  | .addNodeToList node => do
      let (mgr, _) ← addNodeToList state.mgr node
      .ok { state with mgr, added := state.added ++ [node] }
  | .createRequestQueueItem jsonReq method termId => do
      let (mgr, record) ← createRequestQueueItem state.mgr jsonReq method termId false
      .ok { state with mgr, requests := state.requests ++ [record] }
  | .addRequestToQueue record => do
      let mgr ← addRequestToQueue state.mgr record
      .ok { state with mgr, queued := state.queued ++ [record] }
  | .checkQueueAndGetRequest => do
      let (mgr, record) ← checkQueueAndGetRequest state.mgr
      .ok { state with mgr, taken := state.taken ++ [record] }

/-- Arguments fit their arrays, the id counter has room, and a node or record is one that was
created and has not been added before. -/
def Fresh (state : Calls) : ListOp → Prop
  | .createNode transData =>
      transData.length < dataSize ∧ (state.created.length : Int) < intMax
  | .addNodeToList node => node ∈ state.created ∧ node ∉ state.added
  | .createRequestQueueItem jsonReq method _ =>
      jsonReq.length < dataSize ∧ method.length < methodSize
  | .addRequestToQueue record => record ∈ state.requests ∧ record ∉ state.queued
  | .checkQueueAndGetRequest => True

instance decidableFresh (state : Calls) : ∀ op, Decidable (Fresh state op)
  | .createNode _ => inferInstanceAs (Decidable (_ ∧ _))
  | .addNodeToList _ => inferInstanceAs (Decidable (_ ∧ _))
  | .createRequestQueueItem _ _ _ => inferInstanceAs (Decidable (_ ∧ _))
  | .addRequestToQueue _ => inferInstanceAs (Decidable (_ ∧ _))
  | .checkQueueAndGetRequest => inferInstanceAs (Decidable True)

end SmartPay
