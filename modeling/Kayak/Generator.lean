import Kayak.Baseline
import Mathlib.Data.Nat.Bitwise

/-!
# The baseline client's run

NetBricks calls the request generator's `execute` again and again, and each call is one
`generate_request`: build the frame (`Baseline`), hand it to the port, print a warning when
the port reports that it took fewer packets than the batch's one, exit the process when the
port reports an error, and count the request in `requests_sent`, logging
`"Sent many requests..."` whenever the count before the increment has its low 24 bits clear
(`r & 0xffffff == 0`).

`State` is what outlives a call: `use_invoke`, `requests_sent`, and what the generator has
handed to the port and printed. The buffer NetBricks allocates for each frame and what the
port answers are the inputs of a call.

**`execute_ok_iff`**: a call returns exactly when its buffer holds the frame (`104` bytes for
the invoke, `95` for the get), the port reports no error, and the counter has not reached
`2^64 - 1`. **`run_sends`**: a run of `k` calls, each with a buffer that holds the frame and a
port that reports no error, hands `k` frames to the port, all with exact length fields,
counts `k` requests, prints the warning once per call whose port took nothing, and logs
`"Sent many requests..."` `⌈k / 2^24⌉` times: at the first request and then once every
`2^24`.
-/

namespace Kayak.RequestGenerator

/-- What `net_port.send(&mut pkts)` returns for the batch of one packet. -/
inductive PortSend where
  /-- `Ok(sent)`: the number of packets the port took. -/
  | sent (n : ℕ)
  /-- `Err(err)`. -/
  | failed
  deriving DecidableEq, Repr

/-- The lines the generator prints or logs. -/
inductive Line where
  /-- `warn!("use_invoke: {}", config.use_invoke)` in `new`. -/
  | useInvoke (b : Bool)
  /-- `println!("WARNING: Failed to send all packets!")`. -/
  | failedToSendAll
  /-- `info!("Sent many requests...")`. -/
  | sentMany
  deriving DecidableEq, Repr

/-- How a call of `generate_request` stops the generator. -/
inductive Halt where
  /-- A panic while building the frame. -/
  | build (p : BuildPanic)
  /-- `println!("Error on packet send: {}", err); std::process::exit(1)`. -/
  | exit (code : ℕ)
  /-- `self.requests_sent.set(r + 1)` on `u64`: `attempt to add with overflow`. -/
  | counterOverflow
  deriving DecidableEq, Repr

/-- The generator's state across calls. -/
structure State where
  useInvoke : Bool
  /-- `requests_sent`. -/
  requestsSent : ℕ
  /-- The frames handed to the port, in order. -/
  handed : List Frame
  /-- What was printed or logged, in order. -/
  out : List Line
  deriving DecidableEq, Repr

namespace State

/-- `RequestGenerator::new`: the headers are the constants of `create_request`, the counter
starts at zero. -/
def new (useInvoke : Bool) : State := ⟨useInvoke, 0, [], [.useInvoke useInvoke]⟩

/-- What the generator does with the port's answer. -/
def report (g : State) : PortSend → Except Halt State
  | .sent n => .ok (if n < 1 then { g with out := g.out ++ [.failedToSendAll] } else g)
  | .failed => .error (.exit 1)

/-- The end of `generate_request`: log on a count whose low 24 bits are clear, then
`requests_sent.set(r + 1)`. -/
def count (g : State) : Except Halt State :=
  let r := g.requestsSent
  let g := if r &&& 0xffffff = 0 then { g with out := g.out ++ [.sentMany] } else g
  if r + 1 < 2 ^ 64 then .ok { g with requestsSent := r + 1 } else .error .counterOverflow

/-- `Executable::execute`, which is `generate_request`: the frame, the send, the count. -/
def execute (g : State) (alloc : Option UInt16) (res : PortSend) : Except Halt State := do
  let f ← (generateRequest g.useInvoke alloc).mapError .build
  let g ← { g with handed := g.handed ++ [f] }.report res
  g.count

/-- The scheduler's calls, each with its buffer and the port's answer. -/
def run : List (Option UInt16 × PortSend) → State → Except Halt State
  | [], g => .ok g
  | (alloc, res) :: calls, g => g.execute alloc res >>= run calls

end State

/-! ### The frame of one call -/

section Frame

variable {alloc : Option UInt16} {f : Frame}

/-- The frame `generate_request` builds, when it builds one, has exact lengths and came from a
buffer that holds it. -/
theorem generateRequest_ok {b : Bool} (hf : generateRequest b alloc = .ok f) :
    LengthsExact f ∧ ∃ room, alloc = some room ∧ (if b then 104 else 95) ≤ room.toNat :=
  ⟨(generateRequest_spec b alloc).1 f hf, (generateRequest_spec b alloc).2.1 ⟨f, hf⟩⟩

end Frame

/-! ### One call -/

namespace State

variable {g g' : State} {alloc : Option UInt16} {res : PortSend} {room : UInt16}

/-- `r & 0xffffff` keeps the count's low 24 bits. -/
theorem and_mask (r : ℕ) : r &&& 0xffffff = r % 2 ^ 24 :=
  Nat.and_pow_two_sub_one_eq_mod r 24

theorem report_ok (h : g.report res = .ok g') :
    res ≠ .failed ∧ g'.requestsSent = g.requestsSent := by
  cases res with
  | sent n =>
    simp only [report, Except.ok.injEq] at h
    subst h
    exact ⟨nofun, by split <;> rfl⟩
  | failed => cases h

theorem count_ok (h : g.count = .ok g') : g.requestsSent + 1 < 2 ^ 64 := by
  unfold count at h
  dsimp only at h
  split at h
  · assumption
  · cases h

/-- A call whose buffer holds the frame and whose port takes `n` packets: one exact frame
more for the port, the warning when the port took none, the log line when the count's low 24
bits are clear, one request more counted. -/
theorem execute_sent (hr : (if g.useInvoke then 104 else 95) ≤ room.toNat)
    (hc : g.requestsSent + 1 < 2 ^ 64) (n : ℕ) :
    ∃ g', g.execute (some room) (.sent n) = .ok g' ∧ g'.useInvoke = g.useInvoke ∧
      g'.requestsSent = g.requestsSent + 1 ∧ (∃ f, g'.handed = g.handed ++ [f] ∧ LengthsExact f) ∧
      g'.out = g.out ++ (if n < 1 then [.failedToSendAll] else []) ++
        (if g.requestsSent % 2 ^ 24 = 0 then [.sentMany] else []) := by
  obtain ⟨f, hf⟩ := (generateRequest_spec g.useInvoke (some room)).2.2 ⟨room, rfl, hr⟩
  have he := (generateRequest_spec g.useInvoke (some room)).1 f hf
  refine ⟨{ g with
    requestsSent := g.requestsSent + 1, handed := g.handed ++ [f]
    out := g.out ++ (if n < 1 then [.failedToSendAll] else []) ++
      (if g.requestsSent % 2 ^ 24 = 0 then [.sentMany] else []) }, ?_, rfl, rfl, ⟨f, rfl, he⟩, rfl⟩
  simp only [execute, hf, Except.mapError, ok_bind, report, count, and_mask]
  split_ifs <;> simp_all

/-- **When a call returns**: exactly when its buffer holds the frame, the port reports no
error, and the counter is below `2^64 - 1`. -/
theorem execute_ok_iff :
    (∃ g', g.execute alloc res = .ok g') ↔
      (∃ room, alloc = some room ∧ (if g.useInvoke then 104 else 95) ≤ room.toNat) ∧
        res ≠ .failed ∧ g.requestsSent + 1 < 2 ^ 64 := by
  constructor
  · rintro ⟨g', hg⟩
    obtain ⟨f, hf, hg⟩ := bind_eq_ok.1 hg
    obtain ⟨u, hu, hg⟩ := bind_eq_ok.1 hg
    have hgen : generateRequest g.useInvoke alloc = .ok f := by
      cases hx : generateRequest g.useInvoke alloc <;> rw [hx] at hf <;> cases hf; rfl
    obtain ⟨hres, hru⟩ := report_ok hu
    exact ⟨(generateRequest_ok hgen).2, hres, hru ▸ count_ok hg⟩
  · rintro ⟨⟨room, rfl, hr⟩, hres, hc⟩
    cases res with
    | sent n => exact (execute_sent hr hc n).elim fun g' h => ⟨g', h.1⟩
    | failed => exact absurd rfl hres

/-! ### A run -/

variable {calls : List (Option UInt16 × PortSend)}

/-- The lines one call appends to `out`, counted. -/
theorem count_out (p q : Prop) [Decidable p] [Decidable q] (l : List Line) :
    (l ++ (if p then [Line.failedToSendAll] else []) ++ (if q then [Line.sentMany] else [])).count
        Line.failedToSendAll = l.count Line.failedToSendAll + (if p then 1 else 0) ∧
      (l ++ (if p then [Line.failedToSendAll] else []) ++ (if q then [Line.sentMany] else [])).count
        Line.sentMany = l.count Line.sentMany + (if q then 1 else 0) := by
  constructor <;> split_ifs <;> simp

/-- The count of multiples of `2^24` below `r + 1`: one more than below `r` when `r` is one. -/
theorem many_succ (r : ℕ) :
    (r + 1 + 2 ^ 24 - 1) / 2 ^ 24 = (r + 2 ^ 24 - 1) / 2 ^ 24 + if r % 2 ^ 24 = 0 then 1 else 0 := by
  split_ifs <;> omega

/-- From any state, a run of calls whose buffers hold the frame and whose port reports no
error: one exact frame handed to the port per call, the count raised by the number of calls,
one warning per call whose port took nothing, and one log line per count from `r` on whose
low 24 bits are clear. -/
theorem run_from (g : State)
    (hcalls : ∀ call ∈ calls, (∃ room, call.1 = some room ∧
      (if g.useInvoke then 104 else 95) ≤ room.toNat) ∧ call.2 ≠ .failed)
    (hk : g.requestsSent + calls.length < 2 ^ 64) :
    ∃ g', g.run calls = .ok g' ∧ g'.requestsSent = g.requestsSent + calls.length ∧
      (∃ fs, g'.handed = g.handed ++ fs ∧ fs.length = calls.length ∧
        ∀ f ∈ fs, LengthsExact f) ∧
      g'.out.count .failedToSendAll =
        g.out.count .failedToSendAll + calls.countP (fun call => call.2 = .sent 0) ∧
      g'.out.count .sentMany + (g.requestsSent + 2 ^ 24 - 1) / 2 ^ 24 =
        g.out.count .sentMany + (g.requestsSent + calls.length + 2 ^ 24 - 1) / 2 ^ 24 := by
  induction calls generalizing g with
  | nil => exact ⟨g, rfl, rfl, ⟨[], by simp, rfl, by simp⟩, by simp, by simp⟩
  | cons call calls ih =>
    obtain ⟨⟨room, hroom, hr⟩, hres⟩ := hcalls call (List.mem_cons_self _ _)
    obtain ⟨alloc, res⟩ := call
    cases res with
    | failed => exact absurd rfl hres
    | sent n =>
      obtain rfl : alloc = some room := hroom
      simp only [List.length_cons] at hk
      obtain ⟨g₁, he, hu, hs₁, ⟨f, hh₁, hf⟩, ho₁⟩ := execute_sent hr (by omega) n
      obtain ⟨g', hg', hsent, ⟨fs, hfs, hlen, hex⟩, hwarn, hmany⟩ :=
        ih g₁ (fun c hc => by rw [hu]; exact hcalls c (List.mem_cons_of_mem _ hc)) (by omega)
      refine ⟨g', by rw [run, he, ok_bind]; exact hg', by rw [hsent, hs₁, List.length_cons]; omega,
        ⟨f :: fs, by rw [hfs, hh₁, List.append_assoc]; rfl, by simp [hlen],
          List.forall_mem_cons.2 ⟨hf, hex⟩⟩, ?_, ?_⟩
      · rw [hwarn, ho₁, (count_out (n < 1) (g.requestsSent % 2 ^ 24 = 0) g.out).1, List.countP_cons]
        simp only [PortSend.sent.injEq, decide_eq_true_eq, Nat.lt_one_iff]
        split_ifs <;> omega
      · rw [hs₁, ho₁, (count_out (n < 1) (g.requestsSent % 2 ^ 24 = 0) g.out).2, many_succ,
          Nat.add_right_comm g.requestsSent 1] at hmany
        rw [List.length_cons, ← Nat.add_assoc]
        omega

/-- **A run of the generator**: `k` calls from `new`, each with a buffer that holds the frame
and a port that reports no error, hand `k` frames to the port, all with exact length fields,
count `k` requests, print the warning once per call whose port took nothing, and log
`"Sent many requests..."` `⌈k / 2^24⌉` times. -/
theorem run_sends (b : Bool)
    (hcalls : ∀ call ∈ calls,
      (∃ room, call.1 = some room ∧ (if b then 104 else 95) ≤ room.toNat) ∧
      call.2 ≠ .failed)
    (hk : calls.length < 2 ^ 64) :
    ∃ g, (new b).run calls = .ok g ∧ g.requestsSent = calls.length ∧
      g.handed.length = calls.length ∧ (∀ f ∈ g.handed, LengthsExact f) ∧
      g.out.count .failedToSendAll = calls.countP (fun call => call.2 = .sent 0) ∧
      g.out.count .sentMany = (calls.length + 2 ^ 24 - 1) / 2 ^ 24 := by
  obtain ⟨g, hg, hsent, ⟨fs, hfs, hlen, hex⟩, hwarn, hmany⟩ :=
    run_from (new b) hcalls (by simpa [new] using hk)
  simp only [new, List.nil_append] at hsent hfs hwarn hmany
  refine ⟨g, hg, by omega, by rw [hfs, hlen], hfs ▸ hex, by simpa using hwarn, ?_⟩
  simp only [List.count_cons, List.count_nil, beq_iff_eq, reduceCtorEq, if_false] at hmany
  omega

theorem run_sends_sample :
    ∃ g, (new false).run [(some 100, .sent 0), (some 95, .sent 1)] = .ok g ∧
      g.requestsSent = 2 ∧ g.handed.length = 2 ∧ (∀ f ∈ g.handed, LengthsExact f) ∧
      g.out.count .failedToSendAll = 1 ∧ g.out.count .sentMany = 1 :=
  run_sends false (List.forall_mem_cons.2 ⟨⟨⟨_, rfl, by decide⟩, nofun⟩,
    List.forall_mem_singleton.2 ⟨⟨_, rfl, by decide⟩, nofun⟩⟩) (by decide)

end State

end Kayak.RequestGenerator
