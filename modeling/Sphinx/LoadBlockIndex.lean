import Sphinx.Env

/-!
# Loading the block index

`loadBlockIndex` rebuilds the block index from the stored records when the node starts: it goes
through the records with a LevelDB iterator, creates the entries, computes the chain trust in the
order of the heights, and looks up the best block.  The verification of the last blocks that follows
in `LoadBlockIndex` is not part of it.
-/

namespace Sphinx

/-- The string a key starts with. -/
def DbKey.strType : DbKey → String
  | tx _ => "tx"
  | blockindex _ => "blockindex"
  | adr _ => "adr"
  | hashBestChain => "hashBestChain"
  | bnBestInvalidTrust => "bnBestInvalidTrust"

/-- The first byte of a serialized key, the length of its string.  It is different for the different
kinds of keys. -/
def DbKey.firstByte (key : DbKey) : Nat := key.strType.length

/-- What an iterator goes through after `Seek(start)`, where `start` is the smallest key of its kind:
the stored pairs from there on, in the order of the serialized keys.  In what order the keys of one
kind come is left open. -/
structure CTxDB.Iterates (txdb : CTxDB) (start : DbKey) (entries : List (DbKey × DbVal)) : Prop where
  mem_iff : ∀ key value, (key, value) ∈ entries ↔
    txdb.pdb key = some value ∧ start.firstByte ≤ key.firstByte
  nodup : (entries.map Prod.fst).Nodup
  ordered : entries.Pairwise fun a b => a.1.firstByte ≤ b.1.firstByte

/-- What the loading depends on besides the database. -/
structure LoadCtx where
  /-- `-fastindex` -/
  fUseFastIndex : Bool
  /-- `GetAdjustedTime()` when a record is read. -/
  nAdjustedTime : CDiskBlockIndex → Int
  /-- The address of the entry that is created for a block. -/
  address : Uint256 → Nat

namespace CDiskBlockIndex

def isProofOfStake (blockindex : CDiskBlockIndex) : Bool :=
  blockindex.nFlags &&& CBlockIndex.BLOCK_PROOF_OF_STAKE ≠ 0

/-- What is read back of a record: the kernel is only stored for a proof-of-stake block. -/
def unserialize (blockindex : CDiskBlockIndex) : CDiskBlockIndex :=
  if blockindex.isProofOfStake then blockindex
  else { blockindex with prevoutStake := COutPoint.null, nStakeTime := 0 }

/-- The block that `GetBlockHash` hashes. -/
def getBlockHeader (blockindex : CDiskBlockIndex) : CBlock :=
  { nVersion := blockindex.nVersion
    hashPrevBlock := blockindex.hashPrev
    hashMerkleRoot := blockindex.hashMerkleRoot
    nTime := blockindex.nTime
    nBits := blockindex.nBits
    nNonce := blockindex.nNonce
    vtx := [] }

/-- `GetBlockHash()`: the stored hash is good enough for a block that is more than a day old. -/
def getBlockHash (env : Env) (lctx : LoadCtx) (blockindex : CDiskBlockIndex) : Uint256 :=
  if lctx.fUseFastIndex ∧ (blockindex.nTime : Int) < lctx.nAdjustedTime blockindex - 24 * 60 * 60 ∧
    blockindex.blockHash ≠ 0
  then blockindex.blockHash
  else env.getBlockHash blockindex.getBlockHeader

end CDiskBlockIndex

/-- The globals that the loading sets, as they are when the node starts. -/
structure LoadedIndex where
  mapBlockIndex : StdMap Uint256 CBlockIndex := ∅
  pindexGenesisBlock : Option Uint256 := none
  setStakeSeen : List (COutPoint × Nat) := []
  hashBestChain : Uint256 := 0
  pindexBest : Option Uint256 := none
  nBestHeight : Int := -1
  nBestChainTrust : Nat := 0
  nBestInvalidTrust : Nat := 0

namespace LoadedIndex

/-- `InsertBlockIndex(hash)`: the entry of a block, created if it is not there yet. -/
def insertBlockIndex (mapBlockIndex : StdMap Uint256 CBlockIndex) (hash : Uint256) :
    StdMap Uint256 CBlockIndex × Option Uint256 :=
  if hash = 0 then (mapBlockIndex, none)
  else if (mapBlockIndex.lookup hash).isSome then (mapBlockIndex, some hash)
  else (mapBlockIndex.insert hash { hashBlock := hash }, some hash)

/-- The entry with everything assigned that is in the record. -/
def assign (pindexNew : CBlockIndex) (diskindex : CDiskBlockIndex) (pprev pnext : Option Uint256) :
    CBlockIndex :=
  { pindexNew with
    pprev := pprev
    pnext := pnext
    nFile := diskindex.nFile
    nBlockPos := diskindex.nBlockPos
    nHeight := diskindex.nHeight
    nMint := diskindex.nMint
    nMoneySupply := diskindex.nMoneySupply
    nFlags := diskindex.nFlags
    nStakeModifier := diskindex.nStakeModifier
    bnStakeModifierV2 := diskindex.bnStakeModifierV2
    prevoutStake := diskindex.prevoutStake
    nStakeTime := diskindex.nStakeTime
    hashProof := diskindex.hashProof
    nVersion := diskindex.nVersion
    hashMerkleRoot := diskindex.hashMerkleRoot
    nTime := diskindex.nTime
    nBits := diskindex.nBits
    nNonce := diskindex.nNonce }

/-- One record.  `CheckIndex` always returns true. -/
def loadRecord (env : Env) (lctx : LoadCtx) (st : LoadedIndex) (blockindex : CDiskBlockIndex) :
    Except Reject LoadedIndex :=
  let diskindex := blockindex.unserialize
  let blockHash := diskindex.getBlockHash env lctx
  let (mapBlockIndex, pindexNew) := insertBlockIndex st.mapBlockIndex blockHash
  let (mapBlockIndex, pprev) := insertBlockIndex mapBlockIndex diskindex.hashPrev
  let (mapBlockIndex, pnext) := insertBlockIndex mapBlockIndex diskindex.hashNext
  match pindexNew.bind fun hash => mapBlockIndex.lookup hash with
  | none => error "LoadBlockIndex() : pindexNew is null"
  | some entry =>
    let entry := assign entry diskindex pprev pnext
    .ok { st with
      mapBlockIndex := mapBlockIndex.insert blockHash entry
      pindexGenesisBlock := if st.pindexGenesisBlock = none ∧ blockHash = env.hashGenesisBlock then
        some blockHash else st.pindexGenesisBlock
      setStakeSeen := if entry.isProofOfStake then
        (entry.prevoutStake, entry.nStakeTime) :: st.setStakeSeen else st.setStakeSeen }

/-- The loop over the records; a value that is no record cannot be unpacked. -/
def loadRecords (env : Env) (lctx : LoadCtx) :
    List (DbKey × DbVal) → LoadedIndex → Except Reject LoadedIndex
  | [], st => .ok st
  | (key, value) :: rest, st =>
    -- did we reach the end of the data to read?
    if key.strType ≠ "blockindex" then .ok st
    else
      match value with
      | .diskIndex blockindex => do
        let st ← loadRecord env lctx st blockindex
        loadRecords env lctx rest st
      | _ => error "LoadBlockIndex() : CDataStream::read() : end of data"

/-- The order of pairs of a height and a pointer. -/
def lePair (address : Uint256 → Nat) (a b : Nat × Uint256) : Bool :=
  a.1 < b.1 || (a.1 = b.1 && address a.2 ≤ address b.2)

/-- `vSortedByHeight`, after the sort. -/
def sortedByHeight (lctx : LoadCtx) (mapBlockIndex : StdMap Uint256 CBlockIndex) :
    List (Nat × Uint256) :=
  (mapBlockIndex.entries.map fun item => (item.2.nHeight, item.1)).mergeSort (lePair lctx.address)

/-- `pindex->pprev ? pindex->pprev->nChainTrust : 0`. -/
def prevChainTrust (mapBlockIndex : StdMap Uint256 CBlockIndex) (pindex : CBlockIndex) : Nat :=
  match pindex.pprev.bind fun pprev => mapBlockIndex.lookup pprev with
  | none => 0
  | some pprev => pprev.nChainTrust

/-- Calculate `nChainTrust` of one entry. -/
def setChainTrust (env : Env) (mapBlockIndex : StdMap Uint256 CBlockIndex) (item : Nat × Uint256) :
    StdMap Uint256 CBlockIndex :=
  match mapBlockIndex.lookup item.2 with
  | none => mapBlockIndex
  | some pindex => mapBlockIndex.insert item.2 { pindex with
      nChainTrust := prevChainTrust mapBlockIndex pindex + env.getBlockTrust pindex.nBits }

/-- `LoadBlockIndex()`, up to the verification of the last blocks.  `entries` is what the iterator
goes through. -/
def loadBlockIndex (env : Env) (lctx : LoadCtx) (txdb : CTxDB) (entries : List (DbKey × DbVal))
    (st : LoadedIndex) : Except Reject LoadedIndex :=
  -- already loaded once in this session
  if 0 < st.mapBlockIndex.entries.length then .ok st
  else do
    let st ← loadRecords env lctx entries st
    let mapBlockIndex := (sortedByHeight lctx st.mapBlockIndex).foldl (setChainTrust env)
      st.mapBlockIndex
    match txdb.readHashBestChain with
    | none =>
      if st.pindexGenesisBlock = none then .ok { st with mapBlockIndex := mapBlockIndex }
      else error "CTxDB::LoadBlockIndex() : hashBestChain not loaded"
    | some hashBestChain =>
      match mapBlockIndex.lookup hashBestChain with
      | none => error "CTxDB::LoadBlockIndex() : hashBestChain not found in the block index"
      | some pindexBest => .ok { st with
          mapBlockIndex := mapBlockIndex
          hashBestChain := hashBestChain
          pindexBest := some hashBestChain
          nBestHeight := pindexBest.nHeight
          nBestChainTrust := pindexBest.nChainTrust
          -- OK if it does not exist
          nBestInvalidTrust := txdb.readBestInvalidTrust.getD 0 }

end LoadedIndex

end Sphinx
