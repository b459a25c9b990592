import Kayak.Machine

/-!
# Requests, responses and the local tasks

The frames the client puts on the wire and the responses it parses (`db::wireformat`),
reduced to the fields the client writes or reads; and the collaborators the client drives
but whose code is not part of this repository: the per-invoke `TaskManager` of
`splinter::manager`, the `TaskState` it reports and the `CycleCounter` of `db`. Those three
are modelled from the spec (§3 "TaskManager", §4.5 "Local scheduling contract").

A request and its response carry the request's 64-bit `stamp`; `answers q p` says that the
server's response `p` answers `q` as the run model of the spec has it: it echoes the stamp,
an invoke is answered with status `Ok` or `Pushback`, a get by a get response, a put by a
put response.
-/

namespace Kayak

/-- A request the client transmits: `send_get`, `send_put` or `send_invoke`. -/
inductive Request where
  | get (tenant tableId : ℕ) (key : List UInt8) (stamp : ℕ)
  | put (tenant tableId : ℕ) (key value : List UInt8) (stamp : ℕ)
  | invoke (tenant nameLength : ℕ) (payload : List UInt8) (stamp : ℕ)
  deriving DecidableEq, Repr

/-- The statuses of an invoke response the client tells apart. -/
inductive RpcStatus where
  | statusOk
  | statusPushback
  /-- Any other status of `db::rpc::RpcStatus`. -/
  | other (code : ℕ)
  deriving DecidableEq, Repr

/-- A response packet, by the opcode `parse_rpc_opcode` finds in it. -/
inductive Packet where
  /-- `SandstormInvokeRpc`: status and, on a pushback, the records read so far. -/
  | invoke (stamp : ℕ) (status : RpcStatus) (records : List UInt8)
  /-- `SandstormGetRpc`: the header's tenant and the value read. -/
  | get (stamp tenant : ℕ) (payload : List UInt8)
  /-- `SandstormPutRpc`. -/
  | put (stamp : ℕ)
  /-- Any other opcode. -/
  | other
  deriving DecidableEq, Repr

/-- The kinds of RPC. -/
inductive Kind where
  | get
  | put
  | invoke
  deriving DecidableEq, Repr

namespace Request

/-- The stamp a request carries. -/
def stamp : Request → ℕ
  | .get _ _ _ t => t
  | .put _ _ _ _ t => t
  | .invoke _ _ _ t => t

attribute [simp] stamp.eq_1 stamp.eq_2 stamp.eq_3

/-- The kind of a request. -/
def kind : Request → Kind
  | .get .. => .get
  | .put .. => .put
  | .invoke .. => .invoke

attribute [simp] kind.eq_1 kind.eq_2 kind.eq_3

end Request

namespace Packet

/-- The kind and stamp of a response; none for an unknown opcode. -/
def tag : Packet → Option (Kind × ℕ)
  | .invoke t _ _ => some (.invoke, t)
  | .get t _ _ => some (.get, t)
  | .put t => some (.put, t)
  | .other => none

attribute [simp] tag.eq_1 tag.eq_2 tag.eq_3 tag.eq_4

end Packet

/-- The server's response `p` answers the request `q`. -/
def answers : Request → Packet → Bool
  | .invoke _ _ _ t, .invoke t' st _ => t = t' && (st = .statusOk || st = .statusPushback)
  | .get tenant _ _ t, .get t' tenant' _ => t = t' && tenant = tenant'
  | .put _ _ _ _ t, .put t' => t = t'
  | _, _ => false

/-- A response has the kind and the stamp of the request it answers. -/
theorem tag_of_answers {q : Request} {p : Packet} (h : answers q p) :
    p.tag = some (q.kind, q.stamp) := by
  cases q <;> cases p <;> simp_all [answers]

/-! ### Local tasks -/

/-- What resuming a task's generator reports (`db::task::TaskState`). -/
inductive TaskState where
  | yielded
  | waiting
  | completed
  deriving DecidableEq, Repr

/-- Modelled from the spec (§3, `TaskManager` is not in this repository): the state kept
for one invoke, from its send until the extension completes. -/
structure TaskManager where
  tenant : ℕ
  /-- The payload bytes, extension name then arguments. -/
  req : List UInt8
  nameLength : ℕ
  /-- The request id: the send stamp. -/
  id : ℕ
  /-- The read/write set installed from a pushback response. -/
  rwset : List UInt8
  /-- Whether the generator has been created. -/
  generator : Bool
  deriving DecidableEq, Repr

/-- One resumption of a task's generator, as the environment decides it: the state it
reports, the cycles it took, and, when it waits, the key of the get it issued. -/
structure TaskRun where
  state : TaskState
  time : ℕ
  key : List UInt8

namespace TaskManager

/-- Modelled from the spec: `TaskManager::new`. -/
def new (req : List UInt8) (tenant nameLength id : ℕ) : TaskManager :=
  { tenant, req, nameLength, id, rwset := [], generator := false }

/-- Modelled from the spec: `create_generator`. -/
def createGenerator (m : TaskManager) : TaskManager := { m with generator := true }

/-- Modelled from the spec: `update_rwset`. -/
def updateRwset (m : TaskManager) (records : List UInt8) : TaskManager := { m with rwset := records }

/-- Modelled from the spec: `get_id`. -/
def getId (m : TaskManager) : ℕ := m.id

/-- Modelled from the spec (§4.5): `execute_task` resumes the generator until it yields,
waits or completes, and returns the state with the cycles spent. A task that waits has
issued one get, stamped with its id, through the sender it was given. -/
def executeTask (m : TaskManager) (r : TaskRun) : (TaskState × ℕ) × List Request :=
  ((r.state, r.time), if r.state = .waiting then [.get m.tenant 1 r.key m.id] else [])

@[simp] theorem id_createGenerator (m : TaskManager) : m.createGenerator.id = m.id := rfl

@[simp] theorem id_updateRwset (m : TaskManager) (r : List UInt8) : (m.updateRwset r).id = m.id :=
  rfl

@[simp] theorem id_new (req : List UInt8) (tenant nameLength id : ℕ) :
    (new req tenant nameLength id).id = id := rfl

end TaskManager

/-- Modelled from the spec (§4.5, `db::cyclecounter` is not in this repository): total
cycles over completed tasks. -/
structure CycleCounter where
  total : ℕ
  count : ℕ
  deriving DecidableEq, Repr

/-- `total_cycles(delta, ops)`. -/
def CycleCounter.totalCycles (c : CycleCounter) (delta ops : ℕ) : CycleCounter :=
  { total := c.total + delta, count := c.count + ops }

/-- `get_average()`. -/
def CycleCounter.getAverage (c : CycleCounter) : ℕ := c.total / c.count

/-- The lines the client logs with `info!`. -/
inductive Info where
  /-- `Already present in the Hashmap`. -/
  | alreadyPresent
  /-- `No manager with {} timestamp`. -/
  | noManager (stamp : ℕ)
  /-- `Completion time per extension {}`. -/
  | completionTime (average : ℕ)
  deriving DecidableEq, Repr

end Kayak
