import Sphinx.Basic
import Sphinx.Util.StdList

/-!
# What is known about the other nodes

`CNodeState` of `main.cpp`, and the blocks to be asked for: every node has a list of the blocks to be
downloaded from it and a list of those that it has been asked for.  `mapBlocksToDownload` and
`mapBlocksInFlight` have the node and the iterator of every block of these lists.

A function is `none` where the source would dereference a null pointer or an iterator that is not good,
or where an assertion of it fails.  The clock does not move during a call.
-/

namespace Sphinx

abbrev NodeId := Int

def maxBlocksInTransitPerPeer : Int := 128

/-- `BLOCK_DOWNLOAD_TIMEOUT`, in seconds. -/
def blockDownloadTimeout : Int := 60

structure QueuedBlock where
  hash : Uint256
  /-- The time of the request in microseconds. -/
  nTime : Int
  /-- The number of blocks in flight at the time of the request. -/
  nQueuedBefore : Int
deriving DecidableEq, Repr

structure CNodeState where
  nMisbehavior : Int := 0
  fShouldBan : Bool := false
  name : String := ""
  vBlocksInFlight : StdList QueuedBlock := .empty
  nBlocksInFlight : Int := 0
  vBlocksToDownload : StdList Uint256 := .empty
  nBlocksToDownload : Int := 0
  nLastBlockReceive : Int := 0
  nLastBlockProcess : Int := 0

structure NodeStates where
  mapNodeState : StdMap NodeId CNodeState := ∅
  mapBlocksInFlight : StdMap Uint256 (NodeId × Nat) := ∅
  mapBlocksToDownload : StdMap Uint256 (NodeId × Nat) := ∅

namespace NodeStates

section

variable (s : NodeStates)

/-- The pointer returned by `State(pnode)`. -/
def state (pnode : NodeId) : Option CNodeState := s.mapNodeState.lookup pnode

/-- What is written through that pointer. -/
def setState (pnode : NodeId) (state : CNodeState) : NodeStates :=
  { s with mapNodeState := s.mapNodeState.insert pnode state }

def initializeNode (nodeid : NodeId) (addrName : String) : NodeStates :=
  -- `insert` keeps an entry that is there
  let state := (s.state nodeid).getD {}
  s.setState nodeid { state with name := addrName }

def finalizeNode (nodeid : NodeId) : Option NodeStates := do
  let state ← s.state nodeid
  return {
    mapNodeState := s.mapNodeState.erase nodeid
    mapBlocksInFlight :=
      (state.vBlocksInFlight.nodes.map fun e => e.2.hash).foldl (fun m hash => m.erase hash)
        s.mapBlocksInFlight
    mapBlocksToDownload :=
      (state.vBlocksToDownload.nodes.map Prod.snd).foldl (fun m hash => m.erase hash)
        s.mapBlocksToDownload }

/-- The first part of `MarkBlockAsReceived`. -/
def receiveToDownload (hash : Uint256) : Option NodeStates :=
  match s.mapBlocksToDownload.lookup hash with
  | none => some s
  | some (nodeid, it) => do
    let state ← s.state nodeid
    let vBlocksToDownload ← state.vBlocksToDownload.erase it
    let s := s.setState nodeid { state with
      vBlocksToDownload := vBlocksToDownload
      nBlocksToDownload := state.nBlocksToDownload - 1 }
    return { s with mapBlocksToDownload := s.mapBlocksToDownload.erase hash }

/-- The second part of `MarkBlockAsReceived`. -/
def receiveInFlight (hash : Uint256) (nodeFrom : NodeId) (nNow : Int) :
    Option NodeStates :=
  match s.mapBlocksInFlight.lookup hash with
  | none => some s
  | some (nodeid, it) => do
    let state ← s.state nodeid
    let vBlocksInFlight ← state.vBlocksInFlight.erase it
    let s := s.setState nodeid { state with
      vBlocksInFlight := vBlocksInFlight
      nBlocksInFlight := state.nBlocksInFlight - 1
      nLastBlockReceive := if nodeid = nodeFrom then nNow else state.nLastBlockReceive }
    return { s with mapBlocksInFlight := s.mapBlocksInFlight.erase hash }

def markBlockAsReceived (hash : Uint256) (nodeFrom : NodeId) (nNow : Int) :
    Option NodeStates := do
  let s ← s.receiveToDownload hash
  s.receiveInFlight hash nodeFrom nNow

end

/-- What `Misbehaving` does with the state of a node. -/
def misbehave (banScore : Int) (state : CNodeState) (howmuch : Int) : CNodeState :=
  if howmuch = 0 then state
  else
    { state with
      nMisbehavior := state.nMisbehavior + howmuch
      fShouldBan := state.fShouldBan || decide (banScore ≤ state.nMisbehavior + howmuch) }

/-- `Misbehaving`, with the value of `-banscore`. -/
def misbehaving (banScore : Int) (s : NodeStates) (pnode : NodeId) (howmuch : Int) : NodeStates :=
  match s.state pnode with
  | none => s
  | some state => s.setState pnode (misbehave banScore state howmuch)

def addBlockToQueue (banScore : Int) (s : NodeStates) (nodeid : NodeId) (hash : Uint256) :
    Bool × NodeStates :=
  if (s.mapBlocksToDownload.lookup hash).isSome || (s.mapBlocksInFlight.lookup hash).isSome then
    (false, s)
  else
    match s.state nodeid with
    | none => (false, s)
    | some state =>
      let it := state.vBlocksToDownload.next
      let state := { state with
        vBlocksToDownload := state.vBlocksToDownload.pushBack hash
        nBlocksToDownload := state.nBlocksToDownload + 1 }
      let state := if 5000 < state.nBlocksToDownload then misbehave banScore state 10 else state
      let s := s.setState nodeid state
      (true, { s with mapBlocksToDownload := s.mapBlocksToDownload.insert hash (nodeid, it) })

def markBlockAsInFlight (s : NodeStates) (nodeid : NodeId) (hash : Uint256) (nNow : Int) :
    Option NodeStates := do
  let _ ← s.state nodeid
  -- make sure it's not listed somewhere already
  let s ← s.markBlockAsReceived hash (-1) nNow
  let state ← s.state nodeid
  let newentry : QueuedBlock := ⟨hash, nNow, state.nBlocksInFlight⟩
  let it := state.vBlocksInFlight.next
  let s := s.setState nodeid { state with
    -- reset when a first request is sent
    nLastBlockReceive := if state.nBlocksInFlight = 0 then nNow else state.nLastBlockReceive
    vBlocksInFlight := state.vBlocksInFlight.pushBack newentry
    nBlocksInFlight := state.nBlocksInFlight + 1 }
  return { s with mapBlocksInFlight := s.mapBlocksInFlight.insert hash (nodeid, it) }

/-! ### The message loops -/

/-- The beginning of `ProcessMessage`. -/
def processMessage (s : NodeStates) (pfrom : NodeId) (nNow : Int) : Option NodeStates := do
  let state ← s.state pfrom
  return s.setState pfrom { state with nLastBlockProcess := nNow }

/-- `SendMessages` detects a node that is stalling. -/
def stalling (fDisconnect : Bool) (state : CNodeState) : Option Bool :=
  if fDisconnect = false ∧ state.nBlocksInFlight ≠ 0 ∧
      state.nLastBlockReceive < state.nLastBlockProcess - blockDownloadTimeout * 1000000 then do
    let entry ← state.vBlocksInFlight.front
    return decide (entry.nTime < state.nLastBlockProcess - 2 * blockDownloadTimeout * 1000000)
  else some false

/-- The loop of `SendMessages` that asks for blocks, with the hashes asked for so far. -/
def getDataLoop (pto : NodeId) (fDisconnect : Bool) (nNow : Int) :
    Nat → NodeStates → List Uint256 → Option (NodeStates × List Uint256)
  | 0, _, _ => none
  | fuel + 1, s, vGetData => do
    let state ← s.state pto
    if !fDisconnect && state.nBlocksToDownload ≠ 0 &&
        state.nBlocksInFlight < maxBlocksInTransitPerPeer then
      let hash ← state.vBlocksToDownload.front
      let s ← s.markBlockAsInFlight pto hash nNow
      getDataLoop pto fDisconnect nNow fuel s (vGetData ++ [hash])
    else some (s, vGetData)

/-- The part of `SendMessages` about blocks: the state, the blocks asked for, and whether the node is to
be disconnected. -/
def sendMessages (fuel : Nat) (s : NodeStates) (pto : NodeId) (fDisconnect : Bool) (nNow : Int) :
    Option (NodeStates × List Uint256 × Bool) := do
  let state ← s.state pto
  let fStalling ← stalling fDisconnect state
  let fDisconnect := fDisconnect || fStalling
  let (s, vGetData) ← getDataLoop pto fDisconnect nNow fuel s []
  return (s, vGetData, fDisconnect)

end NodeStates

end Sphinx
