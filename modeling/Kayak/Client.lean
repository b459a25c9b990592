import Kayak.Workload
import Kayak.Rpc
import Mathlib.Order.Monotone.Basic

/-!
# The pushback client, `PushbackRecvSend`

The per-core state machine of `pushback.rs:160-623`: `new`, `add_request`,
`remove_request`, `mul`, `send`, `recv`, `execute_task`, `execute` and the statistics of
`drop`. Each Rust method is a function on the state; the ones that can panic return
`Except Panic`.

Besides the fields of the Rust struct, the state holds what the client talks to:

* `clock` and `ticks`: `cycles::rdtsc()` returns the `ticks`-th reading of a strictly
  increasing counter;
* `sender`: every request transmitted, in order, and `wire`: those the server has not
  answered yet;
* `receiver`: the responses that have reached the port and not been polled;
* `log`: the `info!` lines.

`master_service`, the scheduler plumbing and the float arithmetic of the printed
statistics are left out: no computation of the client reads them.

The build-time constants `NUM_OPS` and `cfg!(feature = "execution")` are the parameter
`Consts`; the shipped client has `NUM_OPS = 1`.
-/

namespace Kayak

/-- The processor's time-stamp counter: the `i`-th reading, strictly increasing. -/
structure Tsc where
  read : ℕ → ℕ
  strictMono : StrictMono read

theorem Tsc.read_lt_succ (k : Tsc) (n : ℕ) : k.read n < k.read (n + 1) :=
  k.strictMono (Nat.lt_succ_self n)

/-- What is fixed when the client is compiled. -/
structure Consts where
  /-- `NUM_OPS`: gets per native operation. -/
  numOps : ℕ
  /-- `cfg!(feature = "execution")`. -/
  execution : Bool

/-- The shipped constants: `NUM_OPS = 1`. -/
def Consts.shipped (execution : Bool) : Consts := ⟨1, execution⟩

/-- `NUM_MUL`: multiplications the extension performs in the native case. -/
def numMul : ℕ := 1000

/-- The configuration fields the client reads (`config::ClientConfig`). -/
structure ClientConfig where
  keyLen : ℕ
  valueLen : ℕ
  putPct : ℕ
  useInvoke : Bool
  numReqs : ℕ

/-- The state of one core's client. -/
structure PushbackRecvSend where
  /-- The number of responses to wait for before printing statistics. -/
  responses : ℕ
  start : ℕ
  recvd : ℕ
  latencies : List ℕ
  master : Bool
  stop : ℕ
  workload : Pushback
  requests : ℕ
  sent : ℕ
  native : Bool
  payloadGet : List UInt8
  payloadPut : List UInt8
  finished : Bool
  outstanding : ℕ
  /-- Pending invokes, and tasks waiting on a get, by stamp. -/
  manager : Table TaskManager
  /-- The run queue of tasks. -/
  waiting : List TaskManager
  pushbackCompleted : ℕ
  cycleCounter : CycleCounter
  /-- Steps done by each native operation, by stamp. -/
  nativeState : Table ℕ
  clock : Tsc
  /-- How many times the client has read the clock. -/
  ticks : ℕ
  /-- Every request transmitted, in order. -/
  sender : List Request
  /-- The requests transmitted and not yet answered by the server. -/
  wire : List Request
  /-- The responses at the port, not yet polled. -/
  receiver : List Packet
  log : List Info

namespace PushbackRecvSend

/-- The invoke-based get payload of `new`: `"pushback"`, table id 1, then zeros for the key. -/
def payloadGetOf (keyLen : ℕ) : List UInt8 :=
  "pushback".toList.map (fun c => c.toNat.toUInt8) ++ leBytes 8 1 ++ zeros keyLen

/-- The invoke-based put payload of `new`: `"pushback"`, table id 1, the key length as a
`u16`, then zeros for the key and the value. -/
def payloadPutOf (keyLen valueLen : ℕ) : List UInt8 :=
  "pushback".toList.map (fun c => c.toNat.toUInt8) ++ leBytes 8 1 ++ leBytes 2 keyLen ++
    zeros (keyLen + valueLen)

/-- `PushbackRecvSend::new`. The workload gets `put_pct = 0`: the configured value is
commented out in the source. -/
def new (resps : ℕ) (master : Bool) (config : ClientConfig) (reqs : ℕ) (clock : Tsc)
    (rng : ℕ → UInt32) (keyRng tenantRng : Zipf) : PushbackRecvSend :=
  { responses := resps, start := clock.read 0, recvd := 0, latencies := [], master, stop := 0,
    workload := Pushback.new config.keyLen config.valueLen 0 rng keyRng tenantRng,
    requests := reqs, sent := 0, native := !config.useInvoke,
    payloadGet := payloadGetOf config.keyLen,
    payloadPut := payloadPutOf config.keyLen config.valueLen,
    finished := false, outstanding := 0, manager := ∅, waiting := [], pushbackCompleted := 0,
    cycleCounter := ⟨0, 0⟩, nativeState := ∅, clock, ticks := 1, sender := [], wire := [],
    receiver := [], log := [] }

/-- `setup_send_recv`: a client waiting for `34 * 1000 * 1000` responses and sending
`config.num_reqs` requests. -/
def setupSendRecv (master : Bool) (config : ClientConfig) (clock : Tsc) (rng : ℕ → UInt32)
    (keyRng tenantRng : Zipf) : PushbackRecvSend :=
  new (34 * 1000 * 1000) master config config.numReqs clock rng keyRng tenantRng

/-! ### Helpers -/

/-- `cycles::rdtsc()`. -/
def rdtsc (s : PushbackRecvSend) : ℕ × PushbackRecvSend :=
  (s.clock.read s.ticks, { s with ticks := s.ticks + 1 })

/-- `Sender::send_get`, `send_put`, `send_invoke`: the request goes on the wire. -/
def transmit (s : PushbackRecvSend) (q : Request) : PushbackRecvSend :=
  { s with sender := s.sender ++ [q], wire := s.wire ++ [q] }

/-- `add_request`: `HashMap::insert`, logging when it replaces an entry. -/
def addRequest (s : PushbackRecvSend) (req : List UInt8) (tenant nameLength id : ℕ) :
    PushbackRecvSend :=
  let m := TaskManager.new req tenant nameLength id
  if id ∈ s.manager then { s with manager := s.manager.insert id m, log := s.log ++ [.alreadyPresent] }
  else { s with manager := s.manager.insert id m }

/-- `remove_request`. -/
def removeRequest (s : PushbackRecvSend) (id : ℕ) : PushbackRecvSend :=
  { s with manager := s.manager.erase id }

/-- `mul`: `init * 1 * 2 * ... * (limit - 1)` on `u64`. -/
def mul (init limit : ℕ) : Except Panic ℕ := (List.range' 1 (limit - 1)).foldlM mulU64 init

/-! ### Send -/

/-- The request the native closures of `send` transmit for a call of `abc`, at stamp `curr`. -/
def nativeRequest (curr : ℕ) : Call → Request
  | .get tenant key => .get tenant 1 key curr
  | .put tenant key val => .put tenant 1 key val curr

/-- The native branch of one iteration of `send`'s loop, at stamp `curr`. -/
def sendNative (s : PushbackRecvSend) (curr : ℕ) : Except Panic PushbackRecvSend := do
  let (call, workload) ← s.workload.abc
  let s := { s with workload }.transmit (nativeRequest curr call)
  pure { s with nativeState := orInsert s.nativeState curr 1, outstanding := s.outstanding + 1 }

/-- The body of `send`'s two invoke closures: copy the key's first four bytes into the
payload at `lo`, register the task, transmit the invoke. Returns the payload written. -/
def invokeOp (s : PushbackRecvSend) (payload : List UInt8) (lo tenant : ℕ) (key : List UInt8)
    (curr : ℕ) : Except Panic (List UInt8 × PushbackRecvSend) := do
  let p ← copyFromSlice payload lo (lo + 4) (← slice key 0 4)
  pure (p, (s.addRequest p tenant 8 curr).transmit (.invoke tenant 8 p curr))

/-- The invoke branch of one iteration of `send`'s loop, at stamp `curr`: the get closure
writes `payload_get[16..20]`, the put closure `payload_put[18..22]`. -/
def sendInvoke (s : PushbackRecvSend) (curr : ℕ) : Except Panic PushbackRecvSend := do
  let (call, workload) ← s.workload.abc
  let s := { s with workload }
  let s ← match call with
    | .get tenant key => do
      let (p, s) ← s.invokeOp s.payloadGet 16 tenant key curr
      pure { s with payloadGet := p }
    | .put tenant key _ => do
      let (p, s) ← s.invokeOp s.payloadPut 18 tenant key curr
      pure { s with payloadPut := p }
  pure { s with outstanding := s.outstanding + 1 }

/-- One iteration of `send`'s loop. -/
def sendOne (s : PushbackRecvSend) : Except Panic PushbackRecvSend := do
  let (curr, s) := s.rdtsc
  let s ← if s.native then s.sendNative curr else s.sendInvoke curr
  pure { s with sent := s.sent + 1 }

/-- `while self.outstanding < 32 { ... }`, for at most `fuel` iterations. -/
def sendLoop : ℕ → PushbackRecvSend → Except Panic PushbackRecvSend
  | 0, s => pure s
  | fuel + 1, s => if s.outstanding < 32 then s.sendOne >>= sendLoop fuel else pure s

/-- `send`. Each iteration raises `outstanding` by one, so 32 iterations are enough for the
loop to end by its own test from any state. -/
def send (s : PushbackRecvSend) : Except Panic PushbackRecvSend :=
  if s.requests ≤ s.sent then pure s else sendLoop 32 s

/-! ### Receive -/

section Recv

variable (c : Consts)

/-- The body of `recv`'s `while let Some(packet) = packets.pop()` loop. -/
def handlePacket (s : PushbackRecvSend) (p : Packet) : Except Panic PushbackRecvSend :=
  if s.native = false then
    let (curr, s) := s.rdtsc
    match p with
    | .invoke stamp .statusOk _ => do
      let s := { s with recvd := s.recvd + 1 }
      let l ← subU64 curr stamp
      let s := { s with latencies := s.latencies ++ [l] }
      let o ← subU64 s.outstanding 1
      pure ({ s with outstanding := o }.removeRequest stamp)
    | .invoke stamp .statusPushback records => do
      let s := match s.manager.extract stamp with
        | (some m, rest) =>
          { s with manager := rest, waiting := s.waiting ++ [m.createGenerator.updateRwset records] }
        | (none, rest) => { s with manager := rest, log := s.log ++ [Info.noManager stamp] }
      let (now, s) := s.rdtsc
      let l ← subU64 now stamp
      let s := { s with latencies := s.latencies ++ [l] }
      let o ← subU64 s.outstanding 1
      pure { s with outstanding := o, recvd := s.recvd + 1 }
    | .invoke _ (.other _) _ => pure s
    | .get stamp _ _ => do
      let l ← subU64 curr stamp
      let s := { s with latencies := s.latencies ++ [l] }
      if stamp ∈ s.manager then
        pure (match s.manager.extract stamp with
          | (some m, rest) => { s with manager := rest, waiting := s.waiting ++ [m] }
          | (none, rest) => { s with manager := rest })
      else pure s
    | .put stamp => do
      let l ← subU64 curr stamp
      pure { s with latencies := s.latencies ++ [l] }
    | .other => pure s
  else
    match p with
    | .get stamp tenant payload => do
      let count ← unwrap (s.nativeState.lookup stamp)
      if count = c.numOps then do
        let s := { s with recvd := s.recvd + 1 }
        let init ← index payload 0
        let m ← mul init.toNat numMul
        let (now, s) := s.rdtsc
        let l ← subU64 now stamp >>= fun d => subU64 d m
        let s := { s with latencies := s.latencies ++ [l],
                          nativeState := s.nativeState.erase stamp }
        let o ← subU64 s.outstanding 1
        pure { s with outstanding := o }
      else do
        let val ← slice payload 0 30
        let s := s.transmit (.get tenant 1 val stamp)
        match s.nativeState.lookup stamp with
        | some n => do
          let n ← addU8 n 1
          pure { s with nativeState := s.nativeState.insert stamp n }
        | none => pure s
    | _ => pure s

/-- `recv`'s loop over one polled batch: `pop` takes the last packet first. -/
def recvPackets : List Packet → PushbackRecvSend → Except Panic PushbackRecvSend
  | [], s => pure s
  | p :: ps, s => recvPackets ps s >>= fun s => handlePacket c s p

/-- `recv`; `receiver.recv_res()` hands over the first `n` responses at the port. -/
def recv (n : ℕ) (s : PushbackRecvSend) : Except Panic PushbackRecvSend :=
  if s.responses ≤ s.recvd then pure { s with finished := true }
  else do
    let s ← recvPackets c (s.receiver.take n) { s with receiver := s.receiver.drop n }
    if s.responses ≤ s.recvd then
      let (now, s) := s.rdtsc
      pure { s with stop := now }
    else pure s

/-! ### Local tasks -/

/-- `execute_task`: run the task at the head of the run queue once. -/
def executeTask (r : TaskRun) (s : PushbackRecvSend) : PushbackRecvSend :=
  match s.waiting with
  | [] => s
  | m :: rest =>
    let ((state, time), gets) := m.executeTask r
    let s := gets.foldl transmit { s with waiting := rest }
    if state = .yielded then { s with waiting := s.waiting ++ [m] }
    else if state = .waiting then { s with manager := s.manager.insert m.getId m }
    else if state = .completed ∧ c.execution then
      let cc := s.cycleCounter.totalCycles time 1
      if s.pushbackCompleted + 1 = 100000 then
        { s with cycleCounter := cc, pushbackCompleted := 0,
                 log := s.log ++ [Info.completionTime cc.getAverage] }
      else { s with cycleCounter := cc, pushbackCompleted := s.pushbackCompleted + 1 }
    else s

/-- What the environment decides during one `execute`: how many responses the poll
returns, and what the task at the head of the run queue does. -/
structure Env where
  batch : ℕ
  task : TaskRun

/-- `execute`: send, then receive, then one local task step. -/
def execute (env : Env) (s : PushbackRecvSend) : Except Panic PushbackRecvSend := do
  let s ← s.send
  let s ← recv c env.batch s
  pure (executeTask c env.task s)

end Recv

/-! ### Statistics -/

/-- The integer part of `drop`: `stop - start` for the throughput, then, on the master core,
the median and the 99th-percentile latency of the sorted samples. -/
def dropStats (s : PushbackRecvSend) : Except Panic (Option (ℕ × ℕ)) := do
  let _ ← subU64 s.stop s.start
  if s.master then
    let l := s.latencies.insertionSort (· ≤ ·)
    let t ← index l (l.length * 99 / 100)
    let m ← if l.length % 2 = 0 then do
        let n := l.length
        let a ← index l (n / 2)
        let b ← index l (n / 2 + 1)
        pure ((← addU64 a b) / 2)
      else index l (l.length / 2)
    pure (some (m, t))
  else pure none

end PushbackRecvSend

end Kayak
